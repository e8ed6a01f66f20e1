import Stylesheet.Number.Style
import Stylesheet.Value.LengthUnit

/-! Sizes: numbers with an optional unit.

The number is an optional sign and decimal digits with an optional point among them; before the
point or after it there is at least one digit. -/

namespace Stylesheet

/-- A number with an optional unit. -/
structure Size where
  magnitude : Binary
  unit : Option LengthUnit
deriving DecidableEq, Repr

namespace Size

/-- The digits of a number around its point. -/
structure Numeral where
  negative : Bool
  whole : Text
  fraction : Text
deriving DecidableEq, Repr

/-- The value of a list of digits. -/
def digitsValue (digits : Text) : Nat :=
  digits.foldl (fun n c => 10 * n + (c.toNat - '0'.toNat)) 0

/-- The number nearest to a numeral. -/
def Numeral.magnitude (n : Numeral) : Binary :=
  Format.double.round n.negative (digitsValue (n.whole ++ n.fraction)) (Nat.pow 10 n.fraction.length)

/-- The sign at the start of a text and what follows it. -/
def sign : Text → Bool × Text
  | '+' :: rest => (false, rest)
  | '-' :: rest => (true, rest)
  | t => (false, t)

/-- The numeral at the start of a text and what follows it. -/
def numeral? (t : Text) : Option (Numeral × Text) :=
  let (negative, t) := sign t
  let whole := t.takeWhile isDigit
  let (point, t) :=
    match t.dropWhile isDigit with
    | '.' :: rest => (true, rest)
    | rest => (false, rest)
  let fraction := if point then t.takeWhile isDigit else []
  let rest := if point then t.dropWhile isDigit else t
  if whole.isEmpty && fraction.isEmpty then none else some (⟨negative, whole, fraction⟩, rest)

/-- The unit that makes up a whole text, or none if the text is empty. -/
def unit? (t : Text) : Option (Option LengthUnit) :=
  if t.isEmpty then some none else (LengthUnit.ofSymbol? t).map some

/-- The size that makes up a whole text. -/
def ofText? (t : Text) : Option Size := do
  let (numeral, rest) ← numeral? t
  let unit ← unit? rest
  return ⟨numeral.magnitude, unit⟩

/-- The sizes that make up a whole text, divided by blanks. -/
def list? (t : Text) : Option (List Size) :=
  if t.isEmpty then none else t.words.mapM ofText?

/-- The size in running text. -/
def text (s : Size) : Text :=
  NumberStyle.plain.write .double s.magnitude ++ (s.unit.map LengthUnit.symbol).getD []

end Size

end Stylesheet
