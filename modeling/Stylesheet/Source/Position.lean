import Stylesheet.Text.Basic

/-! Positions in a source text. -/

namespace Stylesheet

/-- A line, counted from one, and a column, counted from zero in characters. -/
structure Position where
  line : Nat
  column : Nat
deriving DecidableEq, Repr

namespace Position

/-- The position of the first character. -/
def start : Position := ⟨1, 0⟩

/-- The position behind one character. -/
def next (p : Position) (c : Char) : Position :=
  if c = '\n' then ⟨p.line + 1, 0⟩ else ⟨p.line, p.column + 1⟩

/-- The position behind a text. -/
def after (p : Position) (t : Text) : Position :=
  t.foldl next p

@[simp]
theorem after_nil (p : Position) : p.after [] = p :=
  rfl

@[simp]
theorem after_cons (p : Position) (c : Char) (t : Text) : p.after (c :: t) = (p.next c).after t :=
  rfl

@[simp]
theorem after_append (p : Position) (s t : Text) : p.after (s ++ t) = (p.after s).after t :=
  List.foldl_append

/-- The position as `line:column`. -/
def text (p : Position) : Text :=
  Text.ofNat p.line ++ ':' :: Text.ofNat p.column

end Position

end Stylesheet
