import Stylesheet.Number.Shortest

/-! Numbers as text.

A style settles what the digits leave open: from which exponents on a power of ten is written out,
whether a whole number keeps a point, and which of two equally short decimals is taken. -/

namespace Stylesheet

/-- How a number is written. -/
structure NumberStyle where
  /-- The least and the greatest exponent written with a point only; all of them if none is given. -/
  positional : Option (Int × Int)
  /-- Whether a whole number ends in `.0`. -/
  keepsPoint : Bool
  /-- The choice between two equally near decimals. -/
  tie : Tie

/-- Sizes in running text: never with an exponent, whole numbers without a point. -/
def NumberStyle.plain : NumberStyle := ⟨none, false, .away⟩

/-- Sizes in a JSON document: always with a point or an exponent. -/
def NumberStyle.json : NumberStyle := ⟨some (-5, 15), true, .even⟩

namespace Decimal

/-- The digits around a point. -/
def positional (d : Decimal) (keepsPoint : Bool) : Text :=
  let whole := (d.exponent + 1).toNat
  let ending : Text := if keepsPoint then ['.', '0'] else []
  if d.digits.isEmpty then '0' :: ending
  else if d.exponent < 0 then
    '0' :: '.' :: List.replicate (-d.exponent - 1).toNat '0' ++ d.digits
  else if d.digits.length ≤ whole then
    d.digits ++ List.replicate (whole - d.digits.length) '0' ++ ending
  else d.digits.take whole ++ '.' :: d.digits.drop whole

/-- The digits with a point after the first of them, and the power of ten. -/
def scientific (d : Decimal) : Text :=
  let fraction := if d.digits.length ≤ 1 then [] else '.' :: d.digits.drop 1
  let sign := if d.exponent < 0 then '-' else '+'
  d.digits.take 1 ++ fraction ++ 'e' :: sign :: Text.ofNat d.exponent.natAbs

end Decimal

/-- Whether a decimal is written with a point only. -/
def NumberStyle.isPositional (s : NumberStyle) (d : Decimal) : Bool :=
  match s.positional with
  | none => true
  | some (least, greatest) => least ≤ d.exponent && d.exponent ≤ greatest

/-- A number of a binary format in a style. -/
def NumberStyle.write (s : NumberStyle) (f : Format) (number : Binary) : Text :=
  let signed (negative : Bool) (t : Text) : Text := if negative then '-' :: t else t
  match number with
  | .infinite negative => signed negative "inf".toList
  | .finite negative significand exponent =>
      let d := Binary.shortest f s.tie significand exponent
      signed negative (if s.isPositional d then d.positional s.keepsPoint else d.scientific)

end Stylesheet
