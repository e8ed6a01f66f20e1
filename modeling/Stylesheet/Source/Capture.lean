import Stylesheet.Source.Segment

/-! Blocks kept as text.

The body of a mixin, a function, an animation or any block that is no selector is not taken apart:
its segments are put together again, with single spaces between them, up to the brace that closes
the block. -/

namespace Stylesheet

/-- A block as far as it has been read. -/
structure Capture where
  /-- Number of blocks open inside it. -/
  depth : Nat
  /-- What has been read, in order. -/
  parts : List Text
deriving DecidableEq, Repr

namespace Capture

/-- A block of which nothing has been read. -/
def empty : Capture := ⟨0, []⟩

/-- What one more segment comes to: the whole body of the block, or a longer capture. -/
inductive Step where
  | done (body : Text)
  | more (capture : Capture)
deriving DecidableEq, Repr

/-- The capture with one more segment. -/
def step (c : Capture) (text : Text) : Mark → Step
  | .semicolon => .more ⟨c.depth, c.parts ++ [text ++ [';']]⟩
  | .openBrace =>
      .more ⟨c.depth + 1, c.parts ++ [if text.isEmpty then ['{'] else text ++ [' ', '{']]⟩
  | .closeBrace =>
      let parts := if text.isEmpty then c.parts else c.parts ++ [text]
      match c.depth with
      | 0 => .done (Text.join [' '] parts)
      | outer + 1 => .more ⟨outer, parts ++ [['}']]⟩

end Capture

namespace Cursor

/-- The body that a capture grows into. A block that is never closed is at fault where it opened. -/
def captureFrom (opened : Position) (capture : Capture) (c : Cursor) : Scan Text :=
  match _h : c.next.outcome with
  | .error fault => ⟨.error fault, c.next.cursor⟩
  | .ok s =>
      match _hm : s.terminator with
      | none => ⟨.error ⟨opened, .unclosedBlock⟩, c.next.cursor⟩
      | some m =>
          match capture.step s.text m with
          | .done body => ⟨.ok body, c.next.cursor⟩
          | .more longer => captureFrom opened longer c.next.cursor
termination_by c.rest.length
decreasing_by exact next_terminator ‹_› ‹_›

/-- The body of a block whose opening brace has just been read. -/
def capture (opened : Position) (c : Cursor) : Scan Text :=
  captureFrom opened .empty c

end Cursor

end Stylesheet
