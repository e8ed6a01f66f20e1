import Stylesheet.Text.Basic

/-! Names of variables and the places where they are referenced.

A name starts with a letter or an underscore and goes on with letters, digits, underscores and
hyphens. A reference is a `$` directly followed by a name, taken as long as it goes. -/

namespace Stylesheet

/-- A character a name may start with. -/
def isNameStart (c : Char) : Bool :=
  isLetter c || c == '_'

/-- A character a name may go on with. -/
def isNameChar (c : Char) : Bool :=
  isLetter c || isDigit c || c == '_' || c == '-'

namespace Text

/-- The name at the start of a text and what follows it. -/
def name? : Text → Option (Text × Text)
  | [] => none
  | c :: rest =>
      if isNameStart c then some (c :: rest.takeWhile isNameChar, rest.dropWhile isNameChar)
      else none

/-- The names referenced in a text, in order, one for each place. -/
def references : Text → List Text
  | [] => []
  | c :: rest =>
      if c = '$' then
        match name? rest with
        | some (name, _) => name :: references rest
        | none => references rest
      else references rest

/-- The two sides of `$name: value`. The value may have no line break in it. -/
def binding? (t : Text) : Option (Text × Text) := do
  let rest ← after? ['$'] t
  let (name, rest) ← name? rest
  let value ← after? [':'] (trimStart rest)
  let value := trimStart value
  if value.contains '\n' then none else some (name, value)

end Text

end Stylesheet
