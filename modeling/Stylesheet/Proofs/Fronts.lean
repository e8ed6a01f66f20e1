import Stylesheet.Proofs.Places

/-! Texts with a common front.

A lexeme is told by its own characters and by the one character behind them. Where two texts begin
alike, and what follows the common front does not make its last lexeme longer, their fronts are read
alike: up to a mark the same segment is read from both, and otherwise both readings come to the end
of the front with the same draft (`Cursor.read_front`). -/

namespace Stylesheet

/-! ### Constructs before another text -/

theorem closeComment?_before {t body rest : Text} (h : closeComment? t = some (body, rest))
    (more : Text) : closeComment? (body ++ more) = some (body, more) := by
  fun_induction closeComment? t generalizing body with
  | case1 r =>
      obtain ⟨rfl, rfl⟩ := Prod.mk.inj (Option.some.inj h)
      rfl
  | case2 => cases h
  | case3 c r hfirst ih =>
      obtain ⟨⟨b, r'⟩, hb, he⟩ := Option.map_eq_some_iff.1 h
      obtain ⟨rfl, rfl⟩ := Prod.mk.inj he
      obtain ⟨hr, hne⟩ := closeComment?_append hb
      rw [List.cons_append, closeComment?, ih hb]
      · rfl
      · rintro after rfl hafter
        obtain ⟨d, b, rfl⟩ := List.exists_cons_of_ne_nil hne
        obtain ⟨rfl, _⟩ := List.cons.inj hafter
        exact hfirst _ rfl hr

theorem closeString?_before {quote : Char} {t body rest : Text}
    (h : closeString? quote t = some (body, rest)) (more : Text) :
    closeString? quote (body ++ more) = some (body, more) := by
  fun_induction closeString? quote t generalizing body with
  | case1 => cases h
  | case2 => cases h
  | case3 c r ih =>
      obtain ⟨⟨b, r'⟩, hb, he⟩ := Option.map_eq_some_iff.1 h
      obtain ⟨rfl, rfl⟩ := Prod.mk.inj he
      rw [List.cons_append, List.cons_append, closeString?, ih hb]
      rfl
  | case4 r hlast hescape =>
      obtain ⟨rfl, rfl⟩ := Prod.mk.inj (Option.some.inj h)
      have hquote := ne_backslash hlast hescape
      rw [List.cons_append, List.nil_append, closeString?, if_pos rfl]
      · exact fun hc _ => hquote hc
      · exact fun d rest hc _ => hquote hc
  | case5 c r hlast hescape hne ih =>
      obtain ⟨⟨b, r'⟩, hb, he⟩ := Option.map_eq_some_iff.1 h
      obtain ⟨rfl, rfl⟩ := Prod.mk.inj he
      have hplain := ne_backslash hlast hescape
      rw [List.cons_append, closeString?, if_neg hne, ih hb]
      · rfl
      · exact fun hc _ => hplain hc
      · exact fun d rest hc _ => hplain hc

/-- The pieces of the inside of an interpolation with `depth` braces open in it. -/
inductive Closes : Nat → List Piece → Prop
  | last : Closes 0 [.char '}']
  | quoted {depth : Nat} {quote : Char} {t body rest : Text} {pieces : List Piece}
      (hquote : Nesting.quotes quote = true) (hclose : closeString? quote t = some (body, rest))
      (h : Closes depth pieces) : Closes depth (.quoted (quote :: body) :: pieces)
  | close {depth : Nat} {pieces : List Piece} (h : Closes depth pieces) :
      Closes (depth + 1) (.char '}' :: pieces)
  | open {depth : Nat} {pieces : List Piece} (h : Closes (depth + 1) pieces) :
      Closes depth (.char '{' :: pieces)
  | char {depth : Nat} {c : Char} {pieces : List Piece} (hquote : Nesting.quotes c = false)
      (hclose : c ≠ '}') (hopen : c ≠ '{') (h : Closes depth pieces) :
      Closes depth (.char c :: pieces)

theorem closes_of_closeInterpolation {depth : Nat} {t rest : Text} {pieces : List Piece}
    (h : closeInterpolation depth t = .closed pieces rest) : Closes depth pieces := by
  fun_induction closeInterpolation depth t generalizing pieces with
  | case1 => cases h
  | case2 depth c r hquote body after hs ih =>
      obtain ⟨others, ho, rfl⟩ := Inside.cons_eq_closed h
      exact .quoted hquote hs (ih ho)
  | case3 => cases h
  | case4 r hquote =>
      obtain ⟨rfl, rfl⟩ := Inside.closed.inj h
      exact .last
  | case5 r inner hquote ih =>
      obtain ⟨others, ho, rfl⟩ := Inside.cons_eq_closed h
      exact .close (ih ho)
  | case6 depth r hquote hclose ih =>
      obtain ⟨others, ho, rfl⟩ := Inside.cons_eq_closed h
      exact .open (ih ho)
  | case7 depth c r hquote hclose hopen ih =>
      obtain ⟨others, ho, rfl⟩ := Inside.cons_eq_closed h
      exact .char (by simpa using hquote) hclose hopen (ih ho)

/-- Pieces are read as themselves, whatever follows them. -/
theorem Closes.closeInterpolation {depth : Nat} {pieces : List Piece} (h : Closes depth pieces)
    (more : Text) :
    closeInterpolation depth (pieces.flatMap Piece.source ++ more) = .closed pieces more := by
  induction h with
  | last =>
      rw [closeInterpolation.eq_def]
      rfl
  | @quoted depth quote t body rest pieces hquote hclose _ ih =>
      have hstring := closeString?_before hclose (pieces.flatMap Piece.source ++ more)
      rw [List.flatMap_cons, Piece.source, List.append_assoc, List.cons_append,
        closeInterpolation.eq_def]
      dsimp only
      rw [if_pos hquote]
      split
      · next body' after' hs' =>
        rw [hstring] at hs'
        cases hs'
        rw [ih]
        rfl
      · next hs' =>
        rw [hstring] at hs'
        cases hs'
  | close _ ih =>
      rw [closeInterpolation.eq_def]
      exact congrArg (Inside.cons (.char '}')) ih
  | «open» _ ih =>
      rw [closeInterpolation.eq_def]
      exact congrArg (Inside.cons (.char '{')) ih
  | @char depth c pieces hquote hclose hopen _ ih =>
      rw [List.flatMap_cons, Piece.source, List.append_assoc, List.cons_append,
        closeInterpolation.eq_def]
      dsimp only
      rw [if_neg (by simp [hquote]), if_neg hclose, if_neg hopen]
      exact congrArg (Inside.cons (.char c)) ih

theorem closeInterpolation_before {depth : Nat} {t rest : Text} {pieces : List Piece}
    (h : closeInterpolation depth t = .closed pieces rest) (more : Text) :
    closeInterpolation depth (pieces.flatMap Piece.source ++ more) = .closed pieces more :=
  (closes_of_closeInterpolation h).closeInterpolation more

/-! ### Lexemes before another text -/

namespace Lexeme

variable {depth : Nat} {t rest : Text} {l : Lexeme}

/-- The character behind a lexeme does not belong to it. Most lexemes are told by their own
characters; only a line comment goes on up to the next line feed, and a slash or a hash may start
something with the next character. -/
def Stops (depth : Nat) (next : Option Char) : Lexeme → Prop
  | .comment source => ['/', '/'] <+: source → ∀ c ∈ next, c = '\n'
  | .char c =>
      (c = '/' → next ≠ some '*' ∧ (depth = 0 → next ≠ some '/')) ∧ (c = '#' → next ≠ some '{')
  | _ => True

theorem Reads.stops (h : Reads depth t (.lexeme l rest)) : l.Stops depth rest.head? := by
  cases h with
  | blockComment hclose => exact fun hline => by simp at hline
  | lineComment hdepth hbody hrest => exact fun _ => hrest
  | interpolation hclose => trivial
  | quoted hquote hclose => trivial
  | semicolon t hdepth => trivial
  | openBrace t => trivial
  | closeBrace t => trivial
  | blank t hblank => trivial
  | char hquote hmark hblank hslash hhash => exact ⟨hslash, hhash⟩

/-- A lexeme is read in the same way before any text that does not make it longer. -/
theorem Reads.before (h : Reads depth t (.lexeme l rest)) {more : Text}
    (hstops : l.Stops depth more.head?) : Reads depth (l.source ++ more) (.lexeme l more) := by
  cases h with
  | blockComment hclose => exact .blockComment (closeComment?_before hclose more)
  | lineComment hdepth hbody hrest =>
      exact .lineComment hdepth hbody (hstops (List.prefix_append ['/', '/'] _))
  | interpolation hclose => exact .interpolation (closeInterpolation_before hclose more)
  | quoted hquote hclose => exact .quoted hquote (closeString?_before hclose more)
  | semicolon t hdepth => exact .semicolon more hdepth
  | openBrace t => exact .openBrace more
  | closeBrace t => exact .closeBrace more
  | blank t hblank => exact .blank more hblank
  | char hquote hmark hblank hslash hhash => exact .char hquote hmark hblank hstops.1 hstops.2

end Lexeme

/-! ### Fronts -/

/-- The number of parentheses open behind a lexeme: none behind a mark, where a segment ends. -/
def Lexeme.depthAfter (depth : Nat) : Lexeme → Nat
  | .mark _ => 0
  | .char c => Draft.depthAfter depth c
  | _ => depth

theorem Draft.depth_add (d : Draft) (p : Position) {l : Lexeme} (hl : ∀ m, l ≠ .mark m) :
    (d.add p l).depth = l.depthAfter d.depth := by
  cases l with
  | mark m => exact absurd rfl (hl m)
  | comment source => rfl
  | blank c => rfl
  | quoted source => rfl
  | interpolation inside => rfl
  | char c => rfl

/-- A text is read lexeme by lexeme up to its end, whether `x` follows it or `y`: with the same
lexemes, and from one depth of parentheses to the depth `inner`. -/
inductive CommonFront (x y : Text) (inner : Nat) : Nat → Text → Prop
  | nil : CommonFront x y inner inner []
  | cons {depth : Nat} {l : Lexeme} {front : Text}
      (hx : Lexeme.Reads depth (l.source ++ (front ++ x)) (.lexeme l (front ++ x)))
      (hy : Lexeme.Reads depth (l.source ++ (front ++ y)) (.lexeme l (front ++ y)))
      (h : CommonFront x y inner (l.depthAfter depth) front) :
      CommonFront x y inner depth (l.source ++ front)

/-- One more lexeme before a front. Only where the front is empty can the lexeme see what follows
it. -/
theorem CommonFront.cons_of_read {x y front t : Text} {inner depth : Nat} {l : Lexeme}
    (h : CommonFront x y inner (l.depthAfter depth) front)
    (hread : Lexeme.read depth t = .lexeme l (front ++ x))
    (hstops : front = [] → l.Stops depth x.head? → l.Stops depth y.head?) :
    t = l.source ++ front ++ x ∧ CommonFront x y inner depth (l.source ++ front) := by
  have ht := (Lexeme.read_append hread).1
  have hreads : Lexeme.Reads depth t (.lexeme l (front ++ x)) := hread ▸ Lexeme.reads_read depth t
  refine ⟨by rw [ht, List.append_assoc], .cons (ht ▸ hreads) (hreads.before ?_) h⟩
  cases front with
  | nil => exact hstops rfl hreads.stops
  | cons c front => exact hreads.stops

namespace Draft

/-- Nothing has been read, or the text has a first character. -/
def Fresh (d : Draft) : Prop :=
  d = empty ∨ ∃ q c, d.Starts q c

theorem Fresh.add {d : Draft} {t rest : Text} {l : Lexeme} (hd : d.Fresh) (p : Position)
    (hreads : Lexeme.Reads d.depth t (.lexeme l rest)) (hl : ∀ m, l ≠ .mark m) :
    (d.add p l).Fresh := by
  rcases hd with rfl | ⟨q, c, hstarts⟩
  · by_cases hskip : (∃ source, l = .comment source) ∨ ∃ c, l = .blank c
    · rcases hskip with ⟨source, rfl⟩ | ⟨c, rfl⟩
      · exact .inl rfl
      · exact .inl rfl
    · simp only [not_or, not_exists] at hskip
      obtain ⟨c, _, hstarts⟩ := starts_add_empty p hreads hskip.1 hskip.2 hl
      exact .inr ⟨p, c, hstarts⟩
  · exact .inr ⟨q, c, hstarts.add p l⟩

/-- A draft that comes to no text is empty. -/
theorem Fresh.eq_empty {d : Draft} (hd : d.Fresh) {m : Option Mark} {p : Position}
    (h : (d.finish m p).text = []) : d = empty := by
  rcases hd with hempty | ⟨q, c, hstarts⟩
  · exact hempty
  · have hfirst := (hstarts.finish m p).2
    rw [h] at hfirst
    cases hfirst

end Draft

namespace Cursor

theorem start_of_head? {t : Text} (h : t.head? ≠ some '\ufeff') : start t = ⟨.start, t⟩ := by
  cases t with
  | nil => rfl
  | cons c t =>
      have hc : ('\ufeff' == c) = false := by
        rw [beq_eq_false_iff_ne]
        rintro rfl
        exact h rfl
      simp [start, Text.after?, List.isPrefixOf?, hc]

/-- The start of a source does not depend on how it goes on, as long as no byte order mark is at the
seam. -/
theorem start_append (u : Text) :
    ∃ front, (u = front ∨ u = '\ufeff' :: front) ∧
      ∀ x : Text, x.head? ≠ some '\ufeff' → start (u ++ x) = ⟨.start, front ++ x⟩ := by
  cases u with
  | nil => exact ⟨[], .inl rfl, fun x hx => start_of_head? hx⟩
  | cons c u =>
      by_cases hc : c = '\ufeff'
      · subst hc
        exact ⟨u, .inr rfl, fun x _ => rfl⟩
      · exact ⟨c :: u, .inl rfl, fun x _ => start_of_head? (by simpa using hc)⟩

variable {d : Draft} {p : Position} {t rest : Text}

theorem read_of_finished (h : Lexeme.read d.depth t = .finished) :
    read d p t = ⟨.ok (d.finish none p), ⟨p, []⟩⟩ := by
  rw [read]
  split
  · rfl
  · next h' => rw [h] at h'; cases h'
  · next h' => rw [h] at h'; cases h'
  · next h' => rw [h] at h'; cases h'

theorem read_of_unclosed {k : Construct} {before : Text}
    (h : Lexeme.read d.depth t = .unclosed k before) :
    read d p t = ⟨.error ⟨p.after before, .unclosed k⟩, ⟨p.after t, []⟩⟩ := by
  rw [read]
  split
  · next h' => rw [h] at h'; cases h'
  · next h' => rw [h] at h'; cases h'; rfl
  · next h' => rw [h] at h'; cases h'
  · next h' => rw [h] at h'; cases h'

theorem read_of_mark {m : Mark} (h : Lexeme.read d.depth t = .lexeme (.mark m) rest) :
    read d p t = ⟨.ok (d.finish (some m) p), ⟨p.next m.char, rest⟩⟩ := by
  rw [read]
  split
  · next h' => rw [h] at h'; cases h'
  · next h' => rw [h] at h'; cases h'
  · next h' => rw [h] at h'; cases h'; rfl
  · next hl h' =>
    rw [h] at h'
    cases h'
    exact absurd rfl (hl m)

theorem read_of_lexeme {l : Lexeme} (h : Lexeme.read d.depth t = .lexeme l rest)
    (hl : ∀ m, l ≠ .mark m) : read d p t = read (d.add p l) (p.after l.source) rest := by
  rw [read]
  split
  · next h' => rw [h] at h'; cases h'
  · next h' => rw [h] at h'; cases h'
  · next m rest' h' =>
    rw [h] at h'
    cases h'
    exact absurd rfl (hl m)
  · next h' => rw [h] at h'; cases h'; rfl

/-- Two texts with a common front are read alike. A mark in the front ends the same segment in both;
without one, both readings come to the end of the front with the same draft. -/
theorem read_front {x y front : Text} {inner : Nat} (h : CommonFront x y inner d.depth front)
    (hd : d.Fresh) (p : Position) :
    (∃ s q behind, s.terminator ≠ none ∧ read d p (front ++ x) = ⟨.ok s, ⟨q, behind ++ x⟩⟩ ∧
      read d p (front ++ y) = ⟨.ok s, ⟨q, behind ++ y⟩⟩ ∧ CommonFront x y inner 0 behind) ∨
    ∃ d' : Draft, d'.depth = inner ∧ d'.Fresh ∧ read d p (front ++ x) = read d' (p.after front) x ∧
      read d p (front ++ y) = read d' (p.after front) y := by
  generalize hdepth : d.depth = depth at h
  induction h generalizing d p with
  | nil => exact .inr ⟨d, hdepth, hd, rfl, rfl⟩
  | @cons depth l front hx hy h ih =>
      subst hdepth
      rw [List.append_assoc, List.append_assoc]
      by_cases hmark : ∃ m, l = .mark m
      · obtain ⟨m, rfl⟩ := hmark
        refine .inl ⟨d.finish (some m) p, p.next m.char, front, ?_, ?_, ?_, h⟩
        · exact Option.some_ne_none m
        · exact read_of_mark (Lexeme.read_of_reads hx)
        · exact read_of_mark (Lexeme.read_of_reads hy)
      · have hl : ∀ m, l ≠ .mark m := fun m hm => hmark ⟨m, hm⟩
        rw [read_of_lexeme (Lexeme.read_of_reads hx) hl,
          read_of_lexeme (Lexeme.read_of_reads hy) hl, Position.after_append]
        exact ih (hd.add p hx hl) (p.after l.source) (d.depth_add p hl)

end Cursor

end Stylesheet
