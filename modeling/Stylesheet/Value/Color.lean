import Stylesheet.Number.Style
import Stylesheet.Text.Basic

/-! Colours written with hexadecimal digits.

A colour has three or four channels of eight bits. It is written behind `#` with one digit for each
channel, which counts twice, or with two. -/

namespace Stylesheet

/-- A colour by its red, green and blue channels and its opacity, all out of 255. -/
structure Color where
  red : Nat
  green : Nat
  blue : Nat
  opacity : Nat
deriving DecidableEq, Repr

namespace Color

/-- The value of a hexadecimal digit. -/
def digit? (c : Char) : Option Nat :=
  if isDigit c then some (c.toNat - '0'.toNat)
  else if 'a' ≤ c && c ≤ 'f' then some (c.toNat - 'a'.toNat + 10)
  else if 'A' ≤ c && c ≤ 'F' then some (c.toNat - 'A'.toNat + 10)
  else none

/-- The colour that a list of hexadecimal digits stands for. -/
def ofDigits? : List Nat → Option Color
  | [r, g, b] => some ⟨17 * r, 17 * g, 17 * b, 255⟩
  | [r, g, b, a] => some ⟨17 * r, 17 * g, 17 * b, 17 * a⟩
  | [r, r', g, g', b, b'] => some ⟨16 * r + r', 16 * g + g', 16 * b + b', 255⟩
  | [r, r', g, g', b, b', a, a'] =>
      some ⟨16 * r + r', 16 * g + g', 16 * b + b', 16 * a + a'⟩
  | _ => none

/-- The colour that a text of hexadecimal digits stands for, with or without `#` before them. -/
def ofHex? (t : Text) : Option Color :=
  (((Text.after? ['#'] t).getD t).mapM digit?).bind ofDigits?

/-- The opacity as a share of one. -/
def alpha (c : Color) : Binary :=
  Format.single.round false c.opacity 255

/-- The opacity in running text. -/
def alphaText (c : Color) : Text :=
  NumberStyle.plain.write .single c.alpha

/-- The first colour in a text: a `#` and the letters and digits right after it, when they stand
for a colour. -/
def hexToken? : Text → Option Text
  | [] => none
  | c :: rest =>
      let token := '#' :: rest.takeWhile fun d => isLetter d || isDigit d
      if c = '#' ∧ (ofHex? token).isSome then some token else hexToken? rest

end Color

end Stylesheet
