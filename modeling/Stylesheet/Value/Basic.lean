import Stylesheet.Text.Name
import Stylesheet.Text.Nesting
import Stylesheet.Value.Color
import Stylesheet.Value.Size

/-! Values of declarations.

Every text is a value of exactly one kind. The tests are made in a fixed order and the first that
holds decides: a calculation, a colour by a hexadecimal token, a colour by its function, an address,
a list of sizes, and any other text. -/

namespace Stylesheet

/-- How a colour is written. -/
inductive ColorEncoding where
  | hexadecimal
  | rgb
deriving DecidableEq, Repr

/-- A value by its kind. -/
inductive Value where
  | color (encoding : ColorEncoding) (raw : Text)
  | size (values : List Size)
  | url (raw : Text)
  | calc (expression : Text)
  | string (raw : Text)
deriving DecidableEq, Repr

namespace Value

/-- The value that a text stands for. -/
def classify (t : Text) : Value :=
  let t := t.trim
  match Text.afterFirst? "calc(".toList t with
  | some rest => .calc (Text.trim (Text.group rest))
  | none =>
    if (Color.hexToken? t).isSome then .color .hexadecimal t
    else if Text.mentions "rgb".toList t then .color .rgb t
    else
      match Text.afterFirst? "url(".toList t with
      | some rest => .url (Text.unquote (Text.group rest))
      | none =>
        match Size.list? t with
        | some sizes => .size sizes
        | none => .string t

/-- The name of a value's kind. -/
def typeName : Value → Text
  | .color .. => "COLOR".toList
  | .size _ => "SIZE".toList
  | .url _ => "URL".toList
  | .calc _ => "CALC".toList
  | .string _ => "STRING".toList

/-- The texts that a value holds, one for each size of a list. -/
def tokens : Value → List Text
  | .color _ raw => [raw]
  | .size values => values.map Size.text
  | .url raw => [raw]
  | .calc expression => [expression]
  | .string raw => [raw]

/-- The value in running text. -/
def text : Value → Text
  | .calc expression => "calc(".toList ++ expression ++ [')']
  | .url raw => "url(".toList ++ raw ++ [')']
  | value => Text.join [' '] value.tokens

/-- The names that a value references. Sizes hold none. -/
def references : Value → List Text
  | .color _ raw => raw.references
  | .size _ => []
  | .url raw => raw.references
  | .calc expression => expression.references
  | .string raw => raw.references

end Value

end Stylesheet
