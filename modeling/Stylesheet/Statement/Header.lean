import Stylesheet.Text.WordChar
import Stylesheet.Value.Argument

/-! Headers of blocks.

A header is tried as an animation, a function, a mixin and a selector, in this order. A selector is
told by its characters alone, with interpolations counting as one ordinary character. -/

namespace Stylesheet

/-- What the header of a block announces. -/
inductive Header where
  | animation (name : Text)
  | function (signature : Signature)
  | mixin (signature : Signature)
  | selector (text : Text)
  | other
deriving DecidableEq, Repr

namespace Header

/-- The text behind the name of a vendor between hyphens, or the text itself if there is none. -/
def withoutVendor (t : Text) : Text :=
  match t with
  | '-' :: rest =>
      let isLower (c : Char) : Bool := 'a' ≤ c && c ≤ 'z'
      match rest.takeWhile isLower, rest.dropWhile isLower with
      | _ :: _, '-' :: after => after
      | _, _ => t
  | t => t

/-- The name of an animation, if the header is one. -/
def animation? (t : Text) : Option Text := do
  let rest ← Text.after? ['@'] t
  let rest ← Text.after? "keyframes".toList (withoutVendor rest)
  let name := Text.trimStart rest
  if name.length < rest.length && !name.isEmpty && !name.contains '\n' then some (Text.trim name)
  else none

/-- A name up to a blank or a parenthesis, and what follows it behind further blanks. -/
def callee? (t : Text) : Option (Text × Text) :=
  let inName (c : Char) : Bool := !(isBlank c || c == '(')
  let name := t.takeWhile inName
  if name.isEmpty then none else some (name, Text.trimStart (t.dropWhile inName))

/-- The inside of a text that is all in one pair of parentheses, on one line. -/
def parenthesized? (t : Text) : Option Text := do
  let rest ← Text.after? ['('] t
  let inside ← Text.before? [')'] rest
  if inside.contains '\n' then none else some inside

/-- The name and the parameters of a function, if the header is one. -/
def function? (t : Text) : Option Signature := do
  let rest ← Text.after? "@function".toList t
  let (name, rest) ← callee? (Text.trimStart rest)
  let inside ← parenthesized? rest
  return ⟨name, Parameter.list inside⟩

/-- The name and the parameters of a mixin, if the header is one. The parameters may be left
out. -/
def mixin? (t : Text) : Option Signature := do
  let rest ← Text.after? "@mixin".toList t
  let call := Text.trimStart rest
  if call.length = rest.length then none
  else
    let (name, rest) ← callee? call
    if rest.isEmpty then return ⟨name, []⟩
    else
      let inside ← parenthesized? rest
      return ⟨name, Parameter.list inside⟩

/-- A character of a selector. -/
def isSelectorChar (c : Char) : Bool :=
  isWordChar c || isBlank c || ".#:=[]'\",&>+~*%()|^$-".toList.contains c

/-- The text with an ordinary letter in place of each interpolation. An interpolation reaches to the
next closing brace. -/
def maskInterpolations (t : Text) : Text :=
  match t with
  | [] => []
  | '#' :: '{' :: rest =>
      if '}' ∈ rest then 'x' :: maskInterpolations ((rest.dropWhile (· != '}')).drop 1)
      else '#' :: maskInterpolations ('{' :: rest)
  | c :: rest => c :: maskInterpolations rest
termination_by t.length
decreasing_by
  · have := (List.dropWhile_sublist (l := rest) (· != '}')).length_le
    simp only [List.length_drop, List.length_cons]
    omega
  all_goals simp

/-- Whether a header reads as a selector. -/
def isSelector (t : Text) : Bool :=
  !t.isEmpty && t.head? != some '@' && (maskInterpolations t).all isSelectorChar

/-- What a header announces. -/
def ofText (t : Text) : Header :=
  let t := t.trim
  match animation? t with
  | some name => .animation name
  | none =>
    match function? t with
    | some signature => .function signature
    | none =>
      match mixin? t with
      | some signature => .mixin signature
      | none => if isSelector t then .selector t else .other

end Header

end Stylesheet
