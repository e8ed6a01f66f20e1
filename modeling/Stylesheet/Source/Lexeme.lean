import Stylesheet.Source.Fault
import Stylesheet.Text.Nesting

/-! Lexemes: the units in which a source is read.

A comment, a quoted string and an interpolation are read as a whole, so that no mark inside them
ends a segment. Everything else is read one character at a time. `Lexeme.read` takes one lexeme off
the front of a text; no character is lost in doing so and at least one is taken (`read_append`). -/

namespace Stylesheet

/-- A mark that ends a segment. -/
inductive Mark where
  | semicolon
  | openBrace
  | closeBrace
deriving DecidableEq, Repr

/-- The character of a mark. -/
def Mark.char : Mark → Char
  | .semicolon => ';'
  | .openBrace => '{'
  | .closeBrace => '}'

/-- A unit of the inside of an interpolation: a quoted string or any other character. -/
inductive Piece where
  | char (c : Char)
  | quoted (source : Text)
deriving DecidableEq, Repr

/-- The characters of a piece. -/
def Piece.source : Piece → Text
  | .char c => [c]
  | .quoted source => source

/-- A unit of a source. -/
inductive Lexeme where
  | comment (source : Text)
  | blank (c : Char)
  | quoted (source : Text)
  /-- The inside of an interpolation up to and with its closing brace. -/
  | interpolation (inside : List Piece)
  | mark (m : Mark)
  | char (c : Char)
deriving DecidableEq, Repr

/-- The characters of a lexeme. -/
def Lexeme.source : Lexeme → Text
  | .comment source => source
  | .blank c => [c]
  | .quoted source => source
  | .interpolation inside => '#' :: '{' :: inside.flatMap Piece.source
  | .mark m => [m.char]
  | .char c => [c]

/-- The rest of a block comment up to and with its end, and what follows. -/
def closeComment? : Text → Option (Text × Text)
  | '*' :: '/' :: rest => some (['*', '/'], rest)
  | [] => none
  | c :: rest => (closeComment? rest).map fun (body, rest) => (c :: body, rest)

/-- The rest of a string up to and with its closing quote, and what follows. A backslash takes the
next character with it. -/
def closeString? (quote : Char) : Text → Option (Text × Text)
  | [] => none
  | ['\\'] => none
  | '\\' :: c :: rest =>
      (closeString? quote rest).map fun (body, rest) => ('\\' :: c :: body, rest)
  | c :: rest =>
      if c = quote then some ([c], rest)
      else (closeString? quote rest).map fun (body, rest) => (c :: body, rest)

theorem closeComment?_append {t body rest : Text} (h : closeComment? t = some (body, rest)) :
    t = body ++ rest ∧ body ≠ [] := by
  fun_induction closeComment? t generalizing body with
  | case1 r =>
      obtain ⟨rfl, rfl⟩ := Prod.mk.inj (Option.some.inj h)
      simp
  | case2 => simp at h
  | case3 c r _ ih =>
      obtain ⟨⟨b, r'⟩, hb, he⟩ := Option.map_eq_some_iff.1 h
      obtain ⟨rfl, rfl⟩ := Prod.mk.inj he
      obtain ⟨rfl, _⟩ := ih hb
      simp

theorem closeString?_append {quote : Char} {t body rest : Text}
    (h : closeString? quote t = some (body, rest)) : t = body ++ rest ∧ body ≠ [] := by
  fun_induction closeString? quote t generalizing body with
  | case1 => simp at h
  | case2 => simp at h
  | case3 c r ih =>
      obtain ⟨⟨b, r'⟩, hb, he⟩ := Option.map_eq_some_iff.1 h
      obtain ⟨rfl, rfl⟩ := Prod.mk.inj he
      obtain ⟨rfl, _⟩ := ih hb
      simp
  | case4 r =>
      obtain ⟨rfl, rfl⟩ := Prod.mk.inj (Option.some.inj h)
      simp
  | case5 c r _ _ _ ih =>
      obtain ⟨⟨b, r'⟩, hb, he⟩ := Option.map_eq_some_iff.1 h
      obtain ⟨rfl, rfl⟩ := Prod.mk.inj he
      obtain ⟨rfl, _⟩ := ih hb
      simp

/-- What reading the inside of an interpolation comes to. -/
inductive Inside where
  /-- It is closed: its pieces, the closing brace included, and what follows. -/
  | closed (pieces : List Piece) (rest : Text)
  /-- A string in it is never closed: what precedes that string. -/
  | openString (before : Text)
  /-- It is never closed itself. -/
  | unclosed
deriving DecidableEq, Repr

/-- One more piece before what was read. -/
def Inside.cons (piece : Piece) : Inside → Inside
  | .closed pieces rest => .closed (piece :: pieces) rest
  | .openString before => .openString (piece.source ++ before)
  | .unclosed => .unclosed

/-- The inside of an interpolation, with `depth` braces open in it. Strings are passed over as a
whole and braces have to balance. -/
def closeInterpolation (depth : Nat) (t : Text) : Inside :=
  match t with
  | [] => .unclosed
  | c :: rest =>
      if Nesting.quotes c then
        match _h : closeString? c rest with
        | some (body, after) => (closeInterpolation depth after).cons (.quoted (c :: body))
        | none => .openString []
      else if c = '}' then
        match depth with
        | 0 => .closed [.char c] rest
        | inner + 1 => (closeInterpolation inner rest).cons (.char c)
      else if c = '{' then (closeInterpolation (depth + 1) rest).cons (.char c)
      else (closeInterpolation depth rest).cons (.char c)
termination_by t.length
decreasing_by
  · have := (closeString?_append ‹_›).1
    simp only [this, List.length_cons, List.length_append]
    omega
  all_goals simp

theorem Inside.cons_eq_closed {piece : Piece} {inside : Inside} {pieces : List Piece} {rest : Text}
    (h : inside.cons piece = .closed pieces rest) :
    ∃ others, inside = .closed others rest ∧ pieces = piece :: others := by
  cases inside with
  | closed others r =>
      obtain ⟨rfl, rfl⟩ := Inside.closed.inj h
      exact ⟨others, rfl, rfl⟩
  | openString before => cases h
  | unclosed => cases h

theorem closeInterpolation_append {depth : Nat} {t rest : Text} {pieces : List Piece}
    (h : closeInterpolation depth t = .closed pieces rest) :
    t = pieces.flatMap Piece.source ++ rest := by
  fun_induction closeInterpolation depth t generalizing pieces with
  | case1 => cases h
  | case2 depth c r _ body after hs ih =>
      obtain ⟨others, ho, rfl⟩ := Inside.cons_eq_closed h
      obtain ⟨rfl, _⟩ := closeString?_append hs
      simp [Piece.source, ih ho]
  | case3 => cases h
  | case4 =>
      obtain ⟨rfl, rfl⟩ := Inside.closed.inj h
      simp [Piece.source]
  | case5 r _ inner ih =>
      obtain ⟨others, ho, rfl⟩ := Inside.cons_eq_closed h
      simp [Piece.source, ih ho]
  | case6 depth r _ _ ih =>
      obtain ⟨others, ho, rfl⟩ := Inside.cons_eq_closed h
      simp [Piece.source, ih ho]
  | case7 depth c r _ _ _ ih =>
      obtain ⟨others, ho, rfl⟩ := Inside.cons_eq_closed h
      simp [Piece.source, ih ho]

/-- What reading one lexeme comes to. -/
inductive Reading where
  /-- The text is at its end. -/
  | finished
  /-- A construct is never closed; `before` is what precedes it. -/
  | unclosed (construct : Construct) (before : Text)
  /-- A lexeme and what follows it. -/
  | lexeme (l : Lexeme) (rest : Text)
deriving DecidableEq, Repr

namespace Lexeme

/-- The lexeme that starts with a character which opens neither a comment nor an interpolation. -/
def readChar (depth : Nat) (c : Char) (rest : Text) : Reading :=
  if Nesting.quotes c then
    match closeString? c rest with
    | some (body, after) => .lexeme (.quoted (c :: body)) after
    | none => .unclosed .string []
  else if c = ';' ∧ depth = 0 then .lexeme (.mark .semicolon) rest
  else if c = '{' then .lexeme (.mark .openBrace) rest
  else if c = '}' then .lexeme (.mark .closeBrace) rest
  else if isBlank c then .lexeme (.blank c) rest
  else .lexeme (.char c) rest

/-- The lexeme at the front of a text, with `depth` parentheses open. Inside parentheses a double
slash is no comment and a semicolon is no mark. -/
def read (depth : Nat) : Text → Reading
  | [] => .finished
  | '/' :: '*' :: rest =>
      match closeComment? rest with
      | some (body, after) => .lexeme (.comment ('/' :: '*' :: body)) after
      | none => .unclosed .comment []
  | '/' :: '/' :: rest =>
      if depth = 0 then
        .lexeme (.comment ('/' :: '/' :: rest.takeWhile (· != '\n'))) (rest.dropWhile (· != '\n'))
      else readChar depth '/' ('/' :: rest)
  | '#' :: '{' :: rest =>
      match closeInterpolation 0 rest with
      | .closed inside after => .lexeme (.interpolation inside) after
      | .openString before => .unclosed .string ('#' :: '{' :: before)
      | .unclosed => .unclosed .interpolation []
  | c :: rest => readChar depth c rest

theorem readChar_append {depth : Nat} {c : Char} {t rest : Text} {l : Lexeme}
    (h : readChar depth c t = .lexeme l rest) : c :: t = l.source ++ rest ∧ l.source ≠ [] := by
  unfold readChar at h
  split at h
  · cases hs : closeString? c t with
    | none =>
        rw [hs] at h
        cases h
    | some closed =>
        rw [hs] at h
        cases h
        obtain ⟨rfl, _⟩ := closeString?_append hs
        simp [source]
  · split at h
    · cases h
      simp_all [source, Mark.char]
    · split at h
      · cases h
        simp_all [source, Mark.char]
      · split at h
        · cases h
          simp_all [source, Mark.char]
        · split at h <;> cases h <;> simp [source]

/-- Reading a lexeme loses nothing, and a lexeme has at least one character. -/
theorem read_append {depth : Nat} {t rest : Text} {l : Lexeme}
    (h : read depth t = .lexeme l rest) : t = l.source ++ rest ∧ l.source ≠ [] := by
  unfold read at h
  split at h
  · cases h
  · next after =>
    cases hc : closeComment? after with
    | none =>
        rw [hc] at h
        cases h
    | some closed =>
        rw [hc] at h
        cases h
        obtain ⟨rfl, _⟩ := closeComment?_append hc
        simp [source]
  · split at h
    · cases h
      simp [source, List.takeWhile_append_dropWhile]
    · exact readChar_append h
  · next after =>
    cases hc : closeInterpolation 0 after with
    | closed pieces behind =>
        rw [hc] at h
        cases h
        rw [closeInterpolation_append hc]
        simp [source]
    | openString before =>
        rw [hc] at h
        cases h
    | unclosed =>
        rw [hc] at h
        cases h
  · exact readChar_append h

/-- What follows a lexeme is shorter than what it was read from. -/
theorem length_lt_of_read {depth : Nat} {t rest : Text} {l : Lexeme}
    (h : read depth t = .lexeme l rest) : rest.length < t.length := by
  have hs := List.length_pos_iff.2 (read_append h).2
  have ht := congrArg List.length (read_append h).1
  simp only [List.length_append] at ht
  omega

end Lexeme

end Stylesheet
