/-! Binary numbers of a fixed precision.

A number is kept as a sign, a whole significand and a power of two, so that all arithmetic on it is
exact. `Format.round` takes a fraction to the nearest number of a format, and to the one with the
even significand when two are equally near. -/

namespace Stylesheet

/-- The numbers that a binary format can hold. -/
structure Format where
  /-- Number of bits of a significand. -/
  precision : Nat
  /-- Exponent of the smallest step between two numbers. -/
  least : Int
  /-- Exponent of the largest step between two numbers. -/
  greatest : Int
  /-- Number of decimal digits that tell any two numbers apart. -/
  digits : Nat

/-- The format in which sizes are held. -/
def Format.double : Format := ⟨53, -1074, 971, 17⟩

/-- The format in which opacities are held. -/
def Format.single : Format := ⟨24, -149, 104, 9⟩

/-- A number of a binary format. Zero keeps its sign. -/
inductive Binary where
  /-- The number `significand * 2 ^ exponent`, negated if asked for. -/
  | finite (negative : Bool) (significand : Nat) (exponent : Int)
  /-- A number too large for the format. -/
  | infinite (negative : Bool)
deriving DecidableEq, Repr

namespace Binary

/-- The greatest `k` with `2 ^ k ≤ num / den`, for positive `num` and `den`. -/
def order (num den : Nat) : Int :=
  let k : Int := (num.log2 : Int) - den.log2
  if den * Nat.pow 2 k.toNat ≤ num * Nat.pow 2 (-k).toNat then k else k - 1

/-- The whole number nearest to `num / den`, and of two equally near ones the even one. -/
def nearest (num den : Nat) : Nat :=
  let floor := num / den
  let twice := 2 * (num % den)
  if twice < den || (twice == den && floor % 2 == 0) then floor else floor + 1

end Binary

/-- The number of the format nearest to `num / den`. -/
def Format.round (f : Format) (negative : Bool) (num den : Nat) : Binary :=
  if num = 0 then .finite negative 0 f.least
  else
    let exponent := max f.least (Binary.order num den - ((f.precision : Int) - 1))
    let significand :=
      Binary.nearest (num * Nat.pow 2 (-exponent).toNat) (den * Nat.pow 2 exponent.toNat)
    let (significand, exponent) :=
      if significand = Nat.pow 2 f.precision then (Nat.pow 2 (f.precision - 1), exponent + 1)
      else (significand, exponent)
    if f.greatest < exponent then .infinite negative else .finite negative significand exponent

end Stylesheet
