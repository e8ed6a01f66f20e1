import Stylesheet.Number.Binary
import Stylesheet.Text.Basic

/-! The shortest decimal that reads back as a binary number.

Every decimal between the two midpoints around a number is read as that number, the midpoints
themselves only if its significand is even. For one digit, two digits and so on, the two neighbours
of the number on the grid of decimals with that many digits are tried; the first grid with a
neighbour in the interval decides the length, and of two such neighbours the nearer one is taken. -/

namespace Stylesheet

/-- The decimal `d.ddd * 10 ^ exponent`, without zeros at its end. Zero has no digits. -/
structure Decimal where
  /-- The digits, the first of which stands before the point. -/
  digits : Text
  /-- The power of ten of the first digit. -/
  exponent : Int
deriving DecidableEq, Repr

namespace Decimal

/-- The decimal `coefficient * 10 ^ power`. -/
def ofScaled (coefficient : Nat) (power : Int) : Decimal :=
  let digits := Text.ofNat coefficient
  ⟨(digits.reverse.dropWhile (· == '0')).reverse, power + digits.length - 1⟩

/-- The greatest `k` with `10 ^ k ≤ num / den`, for positive `num` and `den`. -/
def order (num den : Nat) : Int :=
  if den ≤ num then (Text.ofNat (num / den)).length - 1
  else -((Text.ofNat ((den - 1) / num)).length : Int)

end Decimal

/-- Of two decimals equally near to a number, which one is taken. -/
inductive Tie where
  /-- The one farther from zero. -/
  | away
  /-- The one with the even last digit. -/
  | even
deriving DecidableEq, Repr

namespace Binary

/-- The interval of decimals that read back as a positive number, in quarters of its step. -/
structure Interval where
  low : Nat
  middle : Nat
  high : Nat
  /-- Whether the two ends read back too. -/
  closed : Bool

/-- The interval around `significand * 2 ^ exponent`. Below a power of two the numbers lie twice as
close. -/
def interval (f : Format) (significand : Nat) (exponent : Int) : Interval :=
  let edge := significand == Nat.pow 2 (f.precision - 1) && f.least < exponent
  ⟨4 * significand - (if edge then 1 else 2), 4 * significand, 4 * significand + 2,
    significand % 2 == 0⟩

/-- The decimal with a given number of digits that reads back as `significand * 2 ^ exponent`, if
one of the two next to it does. -/
def neighbour? (f : Format) (tie : Tie) (significand : Nat) (exponent : Int) (digits : Nat) :
    Option Decimal :=
  let around := interval f significand exponent
  let first :=
    Decimal.order (significand * Nat.pow 2 exponent.toNat) (Nat.pow 2 (-exponent).toNat)
  let power := first - digits + 1
  -- one unit of the grid is `unit / quarter` quarter steps
  let unit := Nat.pow 10 power.toNat * Nat.pow 2 (2 - exponent).toNat
  let quarter := Nat.pow 10 (-power).toNat * Nat.pow 2 (exponent - 2).toNat
  let below := around.middle * quarter / unit
  let excess := around.middle * quarter % unit
  let inside (n : Nat) : Bool :=
    if around.closed then around.low * quarter ≤ n * unit && n * unit ≤ around.high * quarter
    else around.low * quarter < n * unit && n * unit < around.high * quarter
  let belowNearer :=
    2 * excess < unit || (2 * excess == unit && tie == .even && below % 2 == 0)
  let coefficient :=
    if inside below && (belowNearer || !inside (below + 1)) then some below
    else if inside (below + 1) then some (below + 1)
    else none
  coefficient.map (Decimal.ofScaled · power)

/-- The decimal with the fewest digits that reads back as `significand * 2 ^ exponent`. -/
def shortest (f : Format) (tie : Tie) (significand : Nat) (exponent : Int) : Decimal :=
  if significand = 0 then ⟨[], 0⟩
  else ((List.range' 1 f.digits).findSome? (neighbour? f tie significand exponent)).getD ⟨[], 0⟩

end Binary

end Stylesheet
