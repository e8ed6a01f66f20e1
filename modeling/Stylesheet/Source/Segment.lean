import Stylesheet.Source.Lexeme

/-! Segments: the text up to a mark that ends it.

A cursor stands between two characters of a source. `Cursor.next` reads one segment, with comments
and runs of white space made into single spaces, and `Cursor.scans` reads one segment after the
other up to the end of the source or the first fault. -/

namespace Stylesheet

/-- The text before a mark, or before the end of the source. -/
structure Segment where
  text : Text
  /-- The position of the first character of the text, or of the mark if there is none. -/
  position : Position
  /-- The mark that ends the segment; none at the end of the source. -/
  terminator : Option Mark
  terminatorPosition : Position
deriving DecidableEq, Repr

/-- A segment as far as it has been read. -/
structure Draft where
  /-- The text so far, last character first. -/
  reversed : Text
  /-- The position of its first character. -/
  start : Option Position
  /-- Number of parentheses open. -/
  depth : Nat
deriving DecidableEq, Repr

namespace Draft

/-- A segment of which nothing has been read. -/
def empty : Draft := ⟨[], none, 0⟩

/-- A reversed text with a space behind it, unless it is empty or has one already. -/
def space : Text → Text
  | [] => []
  | c :: rest => if c = ' ' then c :: rest else ' ' :: c :: rest

/-- A reversed text with a piece of an interpolation behind it. -/
def addPiece (reversed : Text) : Piece → Text
  | .char c => if isBlank c then space reversed else c :: reversed
  | .quoted source => source.reverse ++ reversed

/-- The number of parentheses open behind a character. -/
def depthAfter (depth : Nat) (c : Char) : Nat :=
  if c = '(' then depth + 1 else if c = ')' then depth - 1 else depth

/-- The draft with one more lexeme, which starts at a given position. -/
def add (d : Draft) (p : Position) : Lexeme → Draft
  | .comment _ => { d with reversed := space d.reversed }
  | .blank _ => { d with reversed := space d.reversed }
  | .quoted source =>
      { d with reversed := source.reverse ++ d.reversed, start := d.start.or (some p) }
  | .interpolation inside =>
      { d with
        reversed := inside.foldl addPiece ('{' :: '#' :: d.reversed)
        start := d.start.or (some p) }
  | .mark _ => d
  | .char c => ⟨c :: d.reversed, d.start.or (some p), depthAfter d.depth c⟩

/-- The segment that ends at a given position. -/
def finish (d : Draft) (terminator : Option Mark) (p : Position) : Segment :=
  ⟨Text.trimEnd d.reversed.reverse, d.start.getD p, terminator, p⟩

end Draft

/-- A place in a source: its position and the text that follows. -/
structure Cursor where
  position : Position
  rest : Text
deriving DecidableEq, Repr

/-- What an attempt to read comes to, and where it leaves the cursor. -/
structure Scan (α : Type) where
  outcome : Except Fault α
  cursor : Cursor

namespace Cursor

/-- The start of a source. One byte order mark before the text is dropped. -/
def start (source : Text) : Cursor :=
  ⟨.start, (Text.after? ['\ufeff'] source).getD source⟩

/-- The segment that a draft grows into. On a fault the rest of the source is passed over. -/
def read (d : Draft) (p : Position) (t : Text) : Scan Segment :=
  match _h : Lexeme.read d.depth t with
  | .finished => ⟨.ok (d.finish none p), ⟨p, []⟩⟩
  | .unclosed construct before =>
      ⟨.error ⟨p.after before, .unclosed construct⟩, ⟨p.after t, []⟩⟩
  | .lexeme (.mark m) rest => ⟨.ok (d.finish (some m) p), ⟨p.next m.char, rest⟩⟩
  | .lexeme l rest => read (d.add p l) (p.after l.source) rest
termination_by t.length
decreasing_by exact Lexeme.length_lt_of_read ‹_›

/-- The next segment. -/
def next (c : Cursor) : Scan Segment :=
  read .empty c.position c.rest

theorem read_terminator {d : Draft} {p : Position} {t : Text} {s : Segment} {m : Mark}
    (h : (read d p t).outcome = .ok s) (hm : s.terminator = some m) :
    (read d p t).cursor.rest.length < t.length := by
  fun_induction read d p t with
  | case1 d p t hr =>
      cases h
      cases hm
  | case2 => cases h
  | case3 d p t m' rest hr => exact Lexeme.length_lt_of_read hr
  | case4 d p t l rest hl hr ih =>
      exact Nat.lt_trans (ih h) (Lexeme.length_lt_of_read hr)

/-- A segment that ends in a mark leaves less to read. -/
theorem next_terminator {c : Cursor} {s : Segment} {m : Mark} (h : c.next.outcome = .ok s)
    (hm : s.terminator = some m) : c.next.cursor.rest.length < c.rest.length :=
  read_terminator h hm

/-- The segments up to the end of the source or the first fault, each with the cursor behind it. -/
def scans (c : Cursor) : List (Scan Segment) :=
  match _h : c.next.outcome with
  | .error _ => [c.next]
  | .ok s =>
      match _hm : s.terminator with
      | none => [c.next]
      | some _ => c.next :: scans c.next.cursor
termination_by c.rest.length
decreasing_by exact next_terminator ‹_› ‹_›

end Cursor

end Stylesheet
