import Stylesheet.Text.Basic

/-! The units of a size. -/

namespace Stylesheet

/-- A unit that may follow the number of a size. -/
inductive LengthUnit where
  | px
  | em
  | rem
  | vw
  | vh
  | percent
  | pt
  | cm
  | inch
  | mm
deriving DecidableEq, Repr

namespace LengthUnit

/-- Every unit. -/
def all : List LengthUnit :=
  [.px, .em, .rem, .vw, .vh, .percent, .pt, .cm, .inch, .mm]

/-- The unit as it is written. -/
def symbol : LengthUnit → Text
  | .px => "px".toList
  | .em => "em".toList
  | .rem => "rem".toList
  | .vw => "vw".toList
  | .vh => "vh".toList
  | .percent => "%".toList
  | .pt => "pt".toList
  | .cm => "cm".toList
  | .inch => "in".toList
  | .mm => "mm".toList

/-- The unit written as a given text. -/
def ofSymbol? (t : Text) : Option LengthUnit :=
  all.find? fun unit => unit.symbol == t

/-- A unit is read back from its symbol. -/
@[simp]
theorem ofSymbol?_symbol (unit : LengthUnit) : ofSymbol? unit.symbol = some unit := by
  cases unit <;> rfl

end LengthUnit

end Stylesheet
