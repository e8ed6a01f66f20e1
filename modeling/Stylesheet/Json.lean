import Stylesheet.Text.Basic

/-! JSON documents and the two ways to write them.

Members keep the order in which they are given. A number is kept as it is written. -/

namespace Stylesheet

/-- A JSON value. -/
inductive Json where
  | null
  | bool (value : Bool)
  | number (written : Text)
  | string (text : Text)
  | array (items : List Json)
  | object (members : List (Text × Json))

namespace Json

/-- A whole number. -/
def nat (n : Nat) : Json :=
  .number (Text.ofNat n)

/-- A list of texts. -/
def strings (ts : List Text) : Json :=
  .array (ts.map .string)

/-- One character inside a string. -/
def escaped (c : Char) : Text :=
  if c = '"' then ['\\', '"']
  else if c = '\\' then ['\\', '\\']
  else if c = '\x08' then ['\\', 'b']
  else if c = '\x0c' then ['\\', 'f']
  else if c = '\n' then ['\\', 'n']
  else if c = '\r' then ['\\', 'r']
  else if c = '\t' then ['\\', 't']
  else if c.toNat < 32 then
    "\\u00".toList ++ [Nat.digitChar (c.toNat / 16), Nat.digitChar (c.toNat % 16)]
  else [c]

/-- A text as a JSON string. -/
def quote (t : Text) : Text :=
  '"' :: t.flatMap escaped ++ ['"']

/-- The start of a line at a level of nesting: two spaces for each level. -/
def newline (level : Nat) : Text :=
  '\n' :: List.replicate (2 * level) ' '

mutual

/-- The value over several lines, one line for each item and member. -/
def pretty (level : Nat) : Json → Text
  | .null => "null".toList
  | .bool b => if b then "true".toList else "false".toList
  | .number written => written
  | .string t => quote t
  | .array [] => "[]".toList
  | .array (item :: items) =>
      '[' :: newline (level + 1) ++ pretty (level + 1) item ++ prettyItems (level + 1) items ++
        newline level ++ [']']
  | .object [] => ['{', '}']
  | .object (member :: members) =>
      '{' :: newline (level + 1) ++ prettyMember (level + 1) member ++
        prettyMembers (level + 1) members ++ newline level ++ ['}']

/-- The items after the first, each behind a comma. -/
def prettyItems (level : Nat) : List Json → Text
  | [] => []
  | item :: items => ',' :: newline level ++ pretty level item ++ prettyItems level items

/-- A member: its key, a colon and its value. -/
def prettyMember (level : Nat) : Text × Json → Text
  | (key, value) => quote key ++ ':' :: ' ' :: pretty level value

/-- The members after the first, each behind a comma. -/
def prettyMembers (level : Nat) : List (Text × Json) → Text
  | [] => []
  | member :: members =>
      ',' :: newline level ++ prettyMember level member ++ prettyMembers level members

end

mutual

/-- The value on one line without spaces. -/
def compact : Json → Text
  | .null => "null".toList
  | .bool b => if b then "true".toList else "false".toList
  | .number written => written
  | .string t => quote t
  | .array [] => "[]".toList
  | .array (item :: items) => '[' :: compact item ++ compactItems items ++ [']']
  | .object [] => ['{', '}']
  | .object (member :: members) =>
      '{' :: compactMember member ++ compactMembers members ++ ['}']

/-- The items after the first, each behind a comma. -/
def compactItems : List Json → Text
  | [] => []
  | item :: items => ',' :: compact item ++ compactItems items

/-- A member: its key, a colon and its value. -/
def compactMember : Text × Json → Text
  | (key, value) => quote key ++ ':' :: compact value

/-- The members after the first, each behind a comma. -/
def compactMembers : List (Text × Json) → Text
  | [] => []
  | member :: members => ',' :: compactMember member ++ compactMembers members

end

end Json

end Stylesheet
