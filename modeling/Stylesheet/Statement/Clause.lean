import Stylesheet.Tree.Basic

/-! Statements in the body of a selector, and variables.

A statement is the use of a mixin, the use of another selector or a property. A variable is written
as `$name: value`, followed by any number of flags. -/

namespace Stylesheet

namespace Text

/-- What follows a keyword at the start of a text, when the keyword ends there: nothing, a blank or
a parenthesis stands behind it. -/
def directive? (keyword t : Text) : Option Text :=
  match after? keyword t with
  | some [] => some []
  | some (c :: rest) => if isBlank c || c == '(' then some (c :: rest) else none
  | none => none

/-- Whether a text can name a property. -/
def isPropertyName (t : Text) : Bool :=
  let chars := match t with
    | '*' :: rest => rest
    | t => t
  !chars.isEmpty && chars.all fun c =>
    isLetter c || isDigit c || c == '_' || c == '$' || c == '#' || c == '{' || c == '}' || c == '-'

end Text

namespace Clause

/-- The use of a mixin, given what follows the keyword. The name ends at a parenthesis or a
blank. -/
def inclusion? (t : Text) (content : Option Text) : Option Clause :=
  let t := t.trim
  let ends (c : Char) : Bool := c == '(' || isBlank c
  let name := t.takeWhile (!ends ·)
  let arguments :=
    match Text.splitFirst? '(' (t.dropWhile (!ends ·)) with
    | some (_, rest) => Argument.classifyList (Text.group rest)
    | none => []
  if name.isEmpty then none else some (.inclusion name arguments content)

/-- The use of another selector, given what follows the keyword. -/
def extension? (t : Text) : Option Clause :=
  let name := Text.trim (Text.withoutEndings "!optional".toList t.trim)
  if name.isEmpty then none else some (.extension name)

/-- A property: its name, a colon and its value. -/
def property? (t : Text) : Option Clause :=
  match t.splitFirst? ':' with
  | some (name, value) =>
      if name.trim.isPropertyName then some (.property name.trim (.classify value)) else none
  | none => none

/-- The clause that a statement stands for, if it has a known shape. -/
def ofStatement? (t : Text) : Option Clause :=
  let t := t.trim
  match Text.directive? "@include".toList t with
  | some rest => inclusion? rest none
  | none =>
    match Text.directive? "@extend".toList t with
    | some rest => extension? rest
    | none => if t.head? = some '@' then none else property? t

end Clause

/-- A variable as it is written: its name, the text of its value and its flags. -/
structure Assignment where
  name : Text
  value : Text
  flags : List Flag
deriving DecidableEq, Repr

namespace Assignment

/-- The flag at the end of a text, and the text before it. -/
def lastFlag? (t : Text) : Option (Text × Flag) :=
  match Text.before? "!default".toList t with
  | some rest => some (rest, .default)
  | none => (Text.before? "!global".toList t).map fun rest => (rest, .global)

/-- The trimmed text before the flags at its end, and those flags before `later` ones. -/
def splitFlags (t : Text) (later : List Flag) : Text × List Flag :=
  match lastFlag? t with
  | some (rest, flag) =>
      if (Text.trimEnd rest).length < t.length then splitFlags (Text.trimEnd rest) (flag :: later)
      else (t, later)
  | none => (t, later)
termination_by t.length

/-- The variable that a statement declares, if it declares one. -/
def ofStatement? (t : Text) : Option Assignment :=
  t.trim.binding?.map fun (name, value) =>
    let (value, flags) := splitFlags value.trim []
    ⟨name, value, flags⟩

end Assignment

end Stylesheet
