import Stylesheet.Proofs.Comments

/-! Texts that are read as themselves.

The text of a segment has no comment in it and no more than one space where blanks stood. Read once
more, it comes to the same text: what a lexeme leaves in the text is again one lexeme
(`Lexeme.normal`), and it still ends where it did, since between two lexemes there is nothing, as
before, or a space. So a segment that is written down with its mark is read again as the same
segment (`Cursor.next_written`), and so are the segments of a block that is kept as text. -/

namespace Stylesheet

/-! ### Insides of interpolations -/

/-- The pieces with one space for blanks that follow each other, and with none if a space stands
before them already. -/
def Piece.collapse : Bool → List Piece → List Piece
  | _, [] => []
  | spaced, .char c :: pieces =>
      if isBlank c then
        if spaced then collapse true pieces else .char ' ' :: collapse true pieces
      else .char c :: collapse false pieces
  | _, .quoted source :: pieces => .quoted source :: collapse false pieces

theorem Piece.collapse_collapse (spaced : Bool) (pieces : List Piece) :
    collapse spaced (collapse spaced pieces) = collapse spaced pieces := by
  fun_induction collapse spaced pieces with
  | case1 => rfl
  | case2 c pieces hblank ih => exact ih
  | case3 spaced c pieces hblank hspaced ih => simp_all [collapse, show isBlank ' ' = true from rfl]
  | case4 spaced c pieces hblank ih => simp [collapse, hblank, ih]
  | case5 spaced source pieces ih => simp [collapse, ih]

theorem Closes.collapse {depth : Nat} {pieces : List Piece} (h : Closes depth pieces)
    (spaced : Bool) : Closes depth (Piece.collapse spaced pieces) := by
  induction h generalizing spaced with
  | last => exact .last
  | quoted hquote hclose _ ih => exact .quoted hquote hclose (ih false)
  | close _ ih => exact .close (ih false)
  | «open» _ ih => exact .open (ih false)
  | @char depth c pieces hquote hclose hopen _ ih =>
      rw [Piece.collapse]
      split
      · split
        · exact ih true
        · exact .char (by decide) (by decide) (by decide) (ih true)
      · exact .char hquote hclose hopen (ih false)

theorem Closes.ends {depth : Nat} {pieces : List Piece} (h : Closes depth pieces) :
    ∃ init, pieces = init ++ [.char '}'] := by
  induction h with
  | last => exact ⟨[], rfl⟩
  | quoted _ _ _ ih => exact ih.imp' (List.cons _) fun _ h => congrArg _ h
  | close _ ih => exact ih.imp' (List.cons _) fun _ h => congrArg _ h
  | «open» _ ih => exact ih.imp' (List.cons _) fun _ h => congrArg _ h
  | char _ _ _ _ ih => exact ih.imp' (List.cons _) fun _ h => congrArg _ h

/-- A string ends with its quote. -/
theorem getLast?_of_closeString? {quote : Char} {t body rest : Text}
    (h : closeString? quote t = some (body, rest)) : body.getLast? = some quote := by
  obtain ⟨run, _, rfl, _⟩ := stringRun_of_closed h
  simp

theorem ne_space_of_quotes {c : Char} (h : Nesting.quotes c = true) : c ≠ ' ' := by
  rintro rfl
  cases h

namespace Draft

/-- What an interpolation adds to the text of a draft: its pieces with single spaces. -/
theorem foldl_addPiece {depth : Nat} {pieces : List Piece} (h : Closes depth pieces)
    {reversed : Text} (hne : reversed ≠ []) :
    pieces.foldl addPiece reversed =
      ((Piece.collapse (reversed.head? == some ' ') pieces).flatMap Piece.source).reverse ++
        reversed := by
  have hspace : isBlank ' ' = true := rfl
  induction h generalizing reversed with
  | last => rfl
  | @quoted depth quote t body rest pieces hquote hclose _ ih =>
      have hlast : ((quote :: body).reverse ++ reversed).head? = some quote := by
        simp [List.head?_append, getLast?_of_closeString? hclose]
      have hspaced : (((quote :: body).reverse ++ reversed).head? == some ' ') = false := by
        rw [hlast, beq_eq_false_iff_ne, ne_eq, Option.some.injEq]
        exact ne_space_of_quotes hquote
      rw [List.foldl_cons, addPiece, ih (by simp), hspaced]
      simp [Piece.collapse, Piece.source]
  | close _ ih =>
      rw [List.foldl_cons]
      exact (ih (List.cons_ne_nil _ _)).trans (by simp [Piece.collapse, Piece.source, isBlank])
  | «open» _ ih =>
      rw [List.foldl_cons]
      exact (ih (List.cons_ne_nil _ _)).trans (by simp [Piece.collapse, Piece.source, isBlank])
  | @char depth c pieces hquote hclose hopen _ ih =>
      obtain ⟨last, front, rfl⟩ := List.exists_cons_of_ne_nil hne
      rw [List.foldl_cons, addPiece]
      by_cases hblank : isBlank c = true
      · by_cases hlast : last = ' '
        · subst hlast
          simp [space, hblank, Piece.collapse, ih]
        · simp [space, hblank, hlast, Piece.collapse, Piece.source, ih]
      · have hspaced : (c == ' ') = false := by
          rw [beq_eq_false_iff_ne]
          rintro rfl
          exact hblank hspace
        simp [hblank, Piece.collapse, Piece.source, ih, hspaced]

end Draft

/-! ### Lexemes -/

namespace Lexeme

variable {depth : Nat} {t rest : Text} {l : Lexeme}

/-- The lexeme that is left of a lexeme in the text of a segment. -/
def normal : Lexeme → Lexeme
  | .interpolation inside => .interpolation (Piece.collapse false inside)
  | l => l

/-- A lexeme that leaves more than a space in the text of a segment. -/
def Visible (l : Lexeme) : Prop :=
  (∀ source, l ≠ .comment source) ∧ (∀ c, l ≠ .blank c) ∧ ∀ m, l ≠ .mark m

theorem stops_of_ne {c : Char} (hslash : c ≠ '/') (hhash : c ≠ '#') (depth : Nat)
    (next : Option Char) : Stops depth next (.char c) :=
  ⟨fun h => absurd h hslash, fun h => absurd h hhash⟩

theorem stops_depthAfter_iff {c : Char} {next : Option Char} :
    Stops (Draft.depthAfter depth c) next (.char c) ↔ Stops depth next (.char c) := by
  by_cases hslash : c = '/'
  · subst hslash
    rfl
  · simp [Stops, hslash]

/-- The characters that may stand behind the text of a segment make no lexeme longer. -/
theorem stops_of_mem {next : Option Char} (h : next ∈ [none, some ' ', some ';']) (depth : Nat)
    (c : Char) : Stops depth next (.char c) := by
  simp only [List.mem_cons, List.not_mem_nil, or_false] at h
  rcases h with rfl | rfl | rfl <;> simp [Stops]

/-- What a visible lexeme adds to a draft is the text of what is left of it. -/
theorem Reads.add_eq (h : Reads depth t (.lexeme l rest)) (hl : l.Visible) (d : Draft)
    (p : Position) :
    d.add p l = ⟨l.normal.source.reverse ++ d.reversed, d.start.or (some p),
      l.depthAfter d.depth⟩ := by
  cases h with
  | blockComment => exact absurd rfl (hl.1 _)
  | lineComment => exact absurd rfl (hl.1 _)
  | interpolation hclose =>
      have hcloses := closes_of_closeInterpolation hclose
      have hne : '{' :: '#' :: d.reversed ≠ [] := List.cons_ne_nil _ _
      have hadded := Draft.foldl_addPiece hcloses hne
      simp [Draft.add, hadded, normal, source, Lexeme.depthAfter]
  | quoted => simp [Draft.add, normal, source, Lexeme.depthAfter]
  | semicolon => exact absurd rfl (hl.2.2 _)
  | openBrace => exact absurd rfl (hl.2.2 _)
  | closeBrace => exact absurd rfl (hl.2.2 _)
  | blank => exact absurd rfl (hl.2.1 _)
  | char => simp [Draft.add, normal, source, Lexeme.depthAfter]

/-- What is left of a lexeme starts as the lexeme does and does not end with a blank. Its last
character may only go together with the next one where that of the lexeme may. -/
theorem Reads.normal_ends (h : Reads depth t (.lexeme l rest)) (hl : l.Visible) :
    l.normal.source.head? = t.head? ∧ ∃ c, l.normal.source.getLast? = some c ∧
      isBlank c = false ∧ Stops (l.depthAfter depth) rest.head? (.char c) := by
  have hquotes {quote : Char} (hquote : Nesting.quotes quote = true) (next : Option Char) :
      isBlank quote = false ∧ Stops depth next (.char quote) := by
    have hcases : quote = '"' ∨ quote = '\'' := by simpa [Nesting.quotes] using hquote
    rcases hcases with rfl | rfl
    · exact ⟨by decide, stops_of_ne (by decide) (by decide) _ _⟩
    · exact ⟨by decide, stops_of_ne (by decide) (by decide) _ _⟩
  have hstops := h.stops
  cases h with
  | blockComment => exact absurd rfl (hl.1 _)
  | lineComment => exact absurd rfl (hl.1 _)
  | @interpolation _ _ inside hclose =>
      obtain ⟨init, hinit⟩ := ((closes_of_closeInterpolation hclose).collapse false).ends
      have hsource : (normal (.interpolation inside)).source =
          '#' :: '{' :: init.flatMap Piece.source ++ ['}'] := by
        simp [normal, source, hinit, Piece.source]
      refine ⟨rfl, '}', ?_, by decide, stops_of_ne (by decide) (by decide) _ _⟩
      rw [hsource, List.getLast?_concat]
  | @quoted quote _ body _ hquote hclose =>
      refine ⟨rfl, quote, ?_, hquotes hquote _⟩
      change (quote :: body).getLast? = some quote
      rw [List.getLast?_cons, getLast?_of_closeString? hclose]
      rfl
  | semicolon => exact absurd rfl (hl.2.2 _)
  | openBrace => exact absurd rfl (hl.2.2 _)
  | closeBrace => exact absurd rfl (hl.2.2 _)
  | blank => exact absurd rfl (hl.2.1 _)
  | char hquote hmark hblank => exact ⟨rfl, _, rfl, hblank, stops_depthAfter_iff.2 hstops⟩

/-- What is left of a lexeme is read as one lexeme again. -/
theorem Reads.again (h : Reads depth t (.lexeme l rest)) (hl : l.Visible) {more : Text}
    (hstops : ∀ c ∈ l.normal.source.getLast?, Stops (l.depthAfter depth) more.head? (.char c)) :
    Reads depth (l.normal.source ++ more) (.lexeme l.normal more) := by
  cases h with
  | blockComment => exact absurd rfl (hl.1 _)
  | lineComment => exact absurd rfl (hl.1 _)
  | interpolation hclose =>
      have hcloses := (closes_of_closeInterpolation hclose).collapse false
      exact .interpolation (hcloses.closeInterpolation more)
  | quoted hquote hclose => exact .quoted hquote (closeString?_before hclose more)
  | semicolon => exact absurd rfl (hl.2.2 _)
  | openBrace => exact absurd rfl (hl.2.2 _)
  | closeBrace => exact absurd rfl (hl.2.2 _)
  | blank => exact absurd rfl (hl.2.1 _)
  | @char c _ hquote hmark hblank =>
      have hc := stops_depthAfter_iff.1 (hstops c rfl)
      exact .char hquote hmark hblank hc.1 hc.2

theorem normal_normal (l : Lexeme) : l.normal.normal = l.normal := by
  cases l <;> simp [normal, Piece.collapse_collapse]

theorem Visible.normal (hl : l.Visible) : l.normal.Visible := by
  cases l <;> simp_all [Visible, Lexeme.normal]

theorem depthAfter_normal (l : Lexeme) (depth : Nat) :
    l.normal.depthAfter depth = l.depthAfter depth := by
  cases l <;> rfl

end Lexeme

/-! ### Drafts -/

theorem Cursor.read_space (d : Draft) (p : Position) (t : Text) :
    read d p (' ' :: t) = read d.spaced (p.next ' ') t :=
  read_blanks (List.cons_ne_nil ' ' []) (List.forall_mem_singleton.2 rfl) d p t

namespace Draft

/-- A character behind the text of a draft does not go together with its end. -/
def Ends (d : Draft) (next : Option Char) : Prop :=
  ∀ c ∈ d.reversed.head?, Lexeme.Stops d.depth next (.char c)

/-- The draft, had its text been read from a given position on. -/
def restart (d : Draft) (p : Position) : Draft :=
  ⟨d.reversed, if d.reversed = [] then none else some p, d.depth⟩

theorem start_restart (d : Draft) (p : Position) :
    (d.restart p).start.getD (p.after d.reversed.reverse) = p := by
  unfold restart
  by_cases hnil : d.reversed = []
  · simp [hnil]
  · simp [hnil]

/-- The text of a draft is read again as the same text. -/
def Rereads (d : Draft) : Prop :=
  ∀ (p : Position) (more : Text), d.Ends more.head? →
    Cursor.read .empty p (d.reversed.reverse ++ more) =
      Cursor.read (d.restart p) (p.after d.reversed.reverse) more

/-- A text that is read again as itself and does not end with a blank. -/
structure Tidy (d : Draft) : Prop where
  rereads : d.Rereads
  visible : ∀ c ∈ d.reversed.head?, isBlank c = false

theorem tidy_empty : empty.Tidy :=
  ⟨fun _ _ _ => rfl, fun _ hc => by cases hc⟩

theorem Tidy.reversed_spaced {d : Draft} (h : d.Tidy) (hne : d.reversed ≠ []) :
    d.spaced.reversed = ' ' :: d.reversed := by
  obtain ⟨last, front, hlast⟩ := List.exists_cons_of_ne_nil hne
  have hspace : last ≠ ' ' := by
    rintro rfl
    have hvisible := h.visible ' ' (by rw [hlast]; rfl)
    cases hvisible
  simp [spaced, space, hlast, hspace]

/-- A text with a space behind it is read again as itself too. -/
theorem Tidy.rereads_spaced {d : Draft} (h : d.Tidy) : d.spaced.Rereads := by
  by_cases hnil : d.reversed = []
  · have hspaced : d.spaced = d := by
      cases d
      simp_all [spaced, space]
    rw [hspaced]
    exact h.rereads
  · intro p more _
    have hreversed := h.reversed_spaced hnil
    have hends : d.Ends (some ' ') := fun c _ => Lexeme.stops_of_mem (by simp) _ c
    have hrestart : (d.restart p).spaced = d.spaced.restart p := by
      unfold restart
      rw [if_neg hnil, if_neg (by rw [hreversed]; exact List.cons_ne_nil _ _)]
      rfl
    rw [hreversed, List.reverse_cons, List.append_assoc, List.singleton_append,
      h.rereads p (' ' :: more) hends, ← hrestart, Position.after_append]
    exact Cursor.read_space _ _ more

/-- A draft that differs from a tidy one by a space at its end comes to the same text. -/
theorem Tidy.text_finish {d clean : Draft} (h : clean.Tidy)
    (hd : d.reversed = clean.reversed ∨ d.reversed = clean.spaced.reversed) (m : Option Mark)
    (p : Position) : (d.finish m p).text = clean.reversed.reverse := by
  have hkept : clean.reversed.dropWhile isBlank = clean.reversed := by
    cases hreversed : clean.reversed with
    | nil => rfl
    | cons last front =>
        have hvisible := h.visible last (by rw [hreversed]; rfl)
        rw [List.dropWhile_cons_of_neg (by simp [hvisible])]
  have hdropped : d.reversed.dropWhile isBlank = clean.reversed := by
    rcases hd with hd | hd
    · rw [hd, hkept]
    · by_cases hnil : clean.reversed = []
      · simp [hd, spaced, hnil, space]
      · rw [hd, h.reversed_spaced hnil, List.dropWhile_cons_of_pos rfl, hkept]
  simp [finish, Text.trimEnd, hdropped]

/-- The text with one more lexeme that is more than a space is read again as itself. -/
theorem Rereads.add {d : Draft} {t rest : Text} {l : Lexeme} (h : d.Rereads)
    (hends : d.Ends t.head?) (hreads : Lexeme.Reads d.depth t (.lexeme l rest)) (hl : l.Visible)
    (p : Position) : (d.add p l).Tidy := by
  obtain ⟨hfirst, last, hlast, hvisible, _⟩ := hreads.normal_ends hl
  have hhead : (l.normal.source.reverse ++ d.reversed).head? = some last := by
    rw [List.head?_append, List.head?_reverse, hlast]
    rfl
  rw [hreads.add_eq hl]
  refine ⟨fun q more hmore => ?_, fun c hc => ?_⟩
  · have hstops : ∀ c ∈ l.normal.source.getLast?,
        Lexeme.Stops (l.depthAfter d.depth) more.head? (.char c) := by
      intro c hc
      rw [hlast] at hc
      cases hc
      exact hmore last hhead
    have hagain := hreads.again hl hstops
    have hends' : d.Ends (l.normal.source ++ more).head? := by
      rw [List.head?_append, hfirst]
      cases hne : t.head? with
      | none =>
          rw [hne] at hfirst
          rw [List.head?_eq_none_iff.1 hfirst] at hlast
          cases hlast
      | some c => rwa [hne] at hends
    have hstep := Cursor.read_of_lexeme (d := d.restart q) (p := q.after d.reversed.reverse)
      (Lexeme.read_of_reads hagain) hl.normal.2.2
    rw [List.reverse_append, List.reverse_reverse, List.append_assoc, h q _ hends', hstep,
      hagain.add_eq hl.normal, Lexeme.normal_normal, Lexeme.depthAfter_normal,
      Position.after_append]
    congr 1
    unfold restart
    have hadded : l.normal.source.reverse ++ d.reversed ≠ [] := by
      intro hnil
      rw [hnil] at hhead
      cases hhead
    rw [if_neg hadded]
    by_cases hnil : d.reversed = []
    · rw [if_pos hnil, hnil]
      rfl
    · rw [if_neg hnil]
      rfl
  · rw [hhead] at hc
    cases hc
    exact hvisible

/-- What holds while a segment is read: without the space at its end its text is read again as
itself, and what follows does not go together with the text. -/
structure Normal (d clean : Draft) (next : Option Char) : Prop where
  tidy : clean.Tidy
  spaced : d = clean ∨ d = clean.spaced
  ends : d.Ends next

theorem Normal.rereads {d clean : Draft} {next : Option Char} (h : d.Normal clean next) :
    d.Rereads := by
  rcases h.spaced with rfl | rfl
  · exact h.tidy.rereads
  · exact h.tidy.rereads_spaced

theorem ends_spaced (d : Draft) (next : Option Char) : d.spaced.Ends next := by
  have hlast : ∀ c ∈ (space d.reversed).head?, c = ' ' := by
    cases d.reversed with
    | nil => exact fun c hc => by cases hc
    | cons last front =>
        by_cases hspace : last = ' '
        · simp [space, hspace, eq_comm]
        · simp [space, hspace, eq_comm]
  intro c hc
  obtain rfl := hlast c hc
  exact Lexeme.stops_of_ne (by decide) (by decide) _ _

theorem Normal.text_finish {d clean : Draft} {next : Option Char} (h : d.Normal clean next)
    (m : Option Mark) (p : Position) : (d.finish m p).text = clean.reversed.reverse := by
  rcases h.spaced with rfl | rfl
  · exact h.tidy.text_finish (.inl rfl) m p
  · exact h.tidy.text_finish (.inr rfl) m p

/-- A lexeme is more than a space, or it is read as blanks are. -/
theorem Normal.add {d clean : Draft} {t rest : Text} {l : Lexeme} (h : d.Normal clean t.head?)
    (hreads : Lexeme.Reads d.depth t (.lexeme l rest)) (hl : ∀ m, l ≠ .mark m) (p : Position) :
    ∃ clean', (d.add p l).Normal clean' rest.head? := by
  by_cases hblank : d.add p l = d.spaced
  · refine ⟨clean, h.tidy, .inr ?_, ?_⟩
    · rcases h.spaced with rfl | rfl
      · exact hblank
      · rw [hblank, spaced_spaced]
    · rw [hblank]
      exact ends_spaced d _
  · have hvisible : l.Visible := by
      refine ⟨?_, ?_, hl⟩
      · rintro source rfl
        exact hblank rfl
      · rintro c rfl
        exact hblank rfl
    refine ⟨d.add p l, h.rereads.add h.ends hreads hvisible p, .inl rfl, fun c hc => ?_⟩
    obtain ⟨_, last, hlast, _, hstops⟩ := hreads.normal_ends hvisible
    rw [hreads.add_eq hvisible] at hc ⊢
    rw [List.head?_append, List.head?_reverse, hlast] at hc
    cases hc
    exact hstops

end Draft

/-! ### Segments -/

namespace Cursor

/-- The text of a segment is the text of a draft that is read again as itself; at a semicolon no
parenthesis is open in it. -/
theorem read_tidy {d clean : Draft} {p : Position} {t : Text} {s : Segment}
    (hd : d.Normal clean t.head?) (h : (read d p t).outcome = .ok s) :
    ∃ clean' : Draft, clean'.Tidy ∧ s.text = clean'.reversed.reverse ∧
      (s.terminator = some .semicolon → clean'.depth = 0) := by
  have hdepth {d clean : Draft} {next : Option Char} (hd : d.Normal clean next) :
      clean.depth = d.depth := by
    rcases hd.spaced with rfl | rfl
    · rfl
    · rfl
  fun_induction read d p t generalizing clean with
  | case1 d p t hr =>
      cases h
      exact ⟨clean, hd.tidy, hd.text_finish none p, fun hsemi => by cases hsemi⟩
  | case2 => cases h
  | case3 d p t m rest hr =>
      cases h
      refine ⟨clean, hd.tidy, hd.text_finish _ p, fun hsemi => ?_⟩
      cases hsemi
      have hreads := Lexeme.reads_read d.depth t
      rw [hr] at hreads
      cases hreads with
      | semicolon _ hzero => exact (hdepth hd).trans hzero
  | case4 d p t l rest hl hr ih =>
      have hreads := Lexeme.reads_read d.depth t
      rw [hr] at hreads
      obtain ⟨clean', hclean'⟩ := hd.add hreads hl p
      exact ih hclean' h

/-- The text of a segment does not start with a blank. -/
theorem read_visible {d : Draft} {p : Position} {t : Text} {s : Segment} (hd : d.Fresh)
    (h : (read d p t).outcome = .ok s) : ∀ c ∈ s.text.head?, isBlank c = false := by
  have hfinish {d : Draft} (hd : d.Fresh) (m : Option Mark) (p : Position) :
      ∀ c ∈ (d.finish m p).text.head?, isBlank c = false := by
    rcases hd with rfl | ⟨q, first, hstarts⟩
    · exact fun c hc => by cases hc
    · intro c hc
      rw [(hstarts.finish m p).2] at hc
      cases hc
      exact hstarts.visible
  fun_induction read d p t with
  | case1 d p t hr =>
      cases h
      exact hfinish hd none p
  | case2 => cases h
  | case3 d p t m rest hr =>
      cases h
      exact hfinish hd (some m) p
  | case4 d p t l rest hl hr ih => exact ih (hd.add p (hr ▸ Lexeme.reads_read d.depth t) hl) h

theorem next_visible {c : Cursor} {s : Segment} (h : c.next.outcome = .ok s) :
    ∀ first ∈ s.text.head?, isBlank first = false :=
  read_visible (.inl rfl) h

theorem next_tidy {c : Cursor} {s : Segment} (h : c.next.outcome = .ok s) :
    ∃ clean : Draft, clean.Tidy ∧ s.text = clean.reversed.reverse ∧
      (s.terminator = some .semicolon → clean.depth = 0) := by
  have hempty : Draft.Normal .empty .empty c.rest.head? :=
    ⟨Draft.tidy_empty, .inl rfl, fun _ hc => by cases hc⟩
  exact read_tidy hempty h

end Cursor

/-- The segment as it is written down with its mark. -/
def Segment.written (s : Segment) : Text :=
  match s.terminator with
  | none => s.text
  | some .semicolon => s.text ++ [';']
  | some m => if s.text = [] then [m.char] else s.text ++ [' ', m.char]

/-- Two segments with the same text and mark, wherever they stand. -/
def Segment.Like (s s' : Segment) : Prop :=
  s.text = s'.text ∧ s.terminator = s'.terminator

namespace Cursor

theorem read_mark_cons {d : Draft} {m : Mark} (hsemi : m = .semicolon → d.depth = 0) (p : Position)
    (rest : Text) :
    read d p (m.char :: rest) = ⟨.ok (d.finish (some m) p), ⟨p.next m.char, rest⟩⟩ := by
  cases m with
  | semicolon => exact read_of_mark (Lexeme.read_of_reads (.semicolon rest (hsemi rfl)))
  | openBrace => exact read_of_mark (Lexeme.read_of_reads (.openBrace rest))
  | closeBrace => exact read_of_mark (Lexeme.read_of_reads (.closeBrace rest))

/-- A segment that is written down is read again. -/
theorem next_written {c : Cursor} {s : Segment} {m : Mark} (h : c.next.outcome = .ok s)
    (hm : s.terminator = some m) (p : Position) (rest : Text) :
    ∃ s' q, next ⟨p, s.written ++ rest⟩ = ⟨.ok s', ⟨q, rest⟩⟩ ∧ s.Like s' ∧ s'.position = p := by
  obtain ⟨clean, htidy, htext, hdepth⟩ := next_tidy h
  have hends (next : Char) (hnext : next = ' ' ∨ next = ';') : clean.Ends (some next) :=
    fun c _ => Lexeme.stops_of_mem (by simpa using hnext) _ c
  by_cases hsemi : m = .semicolon
  · subst hsemi
    have hwritten : s.written ++ rest = clean.reversed.reverse ++ ';' :: rest := by
      simp [Segment.written, hm, htext]
    have hmark := read_mark_cons (d := clean.restart p) (m := .semicolon) (fun _ => hdepth hm)
      (p.after clean.reversed.reverse) rest
    rw [hwritten, next, htidy.rereads p (';' :: rest) (hends ';' (.inr rfl))]
    refine ⟨_, _, hmark, ⟨?_, hm⟩, clean.start_restart p⟩
    rw [htext, htidy.text_finish (d := clean.restart p) (.inl rfl)]
  · by_cases hnil : s.text = []
    · have hwritten : s.written ++ rest = m.char :: rest := by
        cases m <;> simp_all [Segment.written]
      rw [hwritten, next, read_mark_cons fun hm' => absurd hm' hsemi]
      exact ⟨_, _, rfl, ⟨hnil, hm⟩, rfl⟩
    · have hwritten : s.written ++ rest = clean.reversed.reverse ++ ' ' :: m.char :: rest := by
        cases m <;> simp_all [Segment.written]
      rw [hwritten, next, htidy.rereads p (' ' :: m.char :: rest) (hends ' ' (.inl rfl)),
        read_space, read_mark_cons fun hm' => absurd hm' hsemi]
      refine ⟨_, _, rfl, ⟨?_, hm⟩, ?_⟩
      · rw [htext, htidy.text_finish (d := (clean.restart p).spaced) (.inr rfl)]
      · have hne : clean.reversed ≠ [] := by simpa [htext] using hnil
        simp [Draft.finish, Draft.spaced, Draft.restart, hne]

/-- The text of a segment alone is read as one segment. -/
theorem next_text {c : Cursor} {s : Segment} (h : c.next.outcome = .ok s) (p : Position) :
    (next ⟨p, s.text⟩).outcome = .ok ⟨s.text, p, none, p.after s.text⟩ := by
  obtain ⟨clean, htidy, htext, _⟩ := next_tidy h
  have hread := htidy.rereads p [] fun c _ => Lexeme.stops_of_mem (by simp) _ c
  rw [List.append_nil] at hread
  rw [htext, next, hread, read_of_finished rfl]
  refine congrArg Except.ok ?_
  rw [Draft.finish, clean.start_restart p, Segment.mk.injEq]
  exact ⟨htidy.text_finish (d := clean.restart p) (.inl rfl) none p, rfl, rfl, rfl⟩

theorem exists_next_of_mem {c : Cursor} {s : Segment} (h : s ∈ c.segments) :
    ∃ c' : Cursor, c'.next.outcome = .ok s := by
  induction c using scanInduction with
  | fault c f hf =>
      rw [segments_of_error hf] at h
      cases h
  | finish c s' hs hn =>
      rw [segments_of_end hs hn, List.mem_singleton] at h
      exact ⟨c, h ▸ hs⟩
  | mark c s' m hs hm ih =>
      rw [segments_of_mark hs hm] at h
      rcases List.mem_cons.1 h with rfl | h
      · exact ⟨c, hs⟩
      · exact ih h

theorem next_space (p : Position) (t : Text) : next ⟨p, ' ' :: t⟩ = next ⟨p.next ' ', t⟩ :=
  read_space .empty p t

/-- Segments that are written down, a space before each, are read again one after the other, and
nothing is left behind the last of them. -/
theorem segments_written {segs : List Segment}
    (h : ∀ s ∈ segs, s.terminator ≠ none ∧ ∃ c : Cursor, c.next.outcome = .ok s) (p : Position) :
    ∃ segs' last, segments ⟨p, segs.flatMap fun s => ' ' :: s.written⟩ = segs' ++ [last] ∧
      List.Forall₂ Segment.Like segs segs' ∧ last.text = [] ∧ last.terminator = none := by
  induction segs generalizing p with
  | nil =>
      have hend : (next ⟨p, []⟩).outcome = .ok ⟨[], p, none, p⟩ :=
        congrArg Scan.outcome (read_of_finished (d := .empty) rfl)
      exact ⟨[], _, segments_of_end hend rfl, .nil, rfl, rfl⟩
  | cons s segs ih =>
      obtain ⟨⟨hmark, c, hc⟩, hsegs⟩ := List.forall_mem_cons.1 h
      obtain ⟨m, hm⟩ := Option.ne_none_iff_exists'.1 hmark
      obtain ⟨s', q, hnext, hlike, _⟩ :=
        next_written hc hm (p.next ' ') (segs.flatMap fun s => ' ' :: s.written)
      obtain ⟨segs', last, hrest, hlikes, hlast⟩ := ih hsegs q
      rw [List.flatMap_cons, List.cons_append]
      rw [← next_space] at hnext
      refine ⟨s' :: segs', last, ?_, .cons hlike hlikes, hlast⟩
      rw [segments_of_mark (congrArg Scan.outcome hnext) (hlike.2.symm.trans hm), hnext, hrest]
      rfl

end Cursor

end Stylesheet
