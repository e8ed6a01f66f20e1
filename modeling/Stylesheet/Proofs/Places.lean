import Stylesheet.Proofs.Lexemes
import Stylesheet.Proofs.Scanning
import Stylesheet.Source.Capture

/-! Which characters of a source positions point at.

A position is told by the text before it (`Position.behind`). Every cursor that is reached by
reading segments and blocks, with or without success, stands at the position behind the text it has
passed over. A segment starts at the first character of its text: up to there only blanks and
comments stand (`Gap`). -/

namespace Stylesheet

namespace Position

/-- The position behind a text: one line for each line feed in it, and one column for each character
since the last of them. -/
def behind (before : Text) : Position :=
  ⟨1 + before.count '\n', (before.reverse.takeWhile (· != '\n')).length⟩

theorem behind_snoc (before : Text) (c : Char) :
    behind (before ++ [c]) = (behind before).next c := by
  unfold behind next
  by_cases hc : c = '\n'
  · subst hc
    simp [List.count_append, Nat.add_assoc]
  · simp [List.count_append, hc]

theorem behind_append (before t : Text) : behind (before ++ t) = (behind before).after t := by
  induction t generalizing before with
  | nil => simp
  | cons c t ih =>
      calc behind (before ++ c :: t) = behind (before ++ [c] ++ t) := by simp
        _ = (behind (before ++ [c])).after t := ih (before ++ [c])
        _ = (behind before).after (c :: t) := by rw [behind_snoc, after_cons]

end Position

/-! ### Segments -/

/-- Blanks and comments with nothing between them, where `rest` follows. -/
inductive Gap : Text → Text → Prop
  | nil (rest : Text) : Gap [] rest
  | blank {c : Char} {gap rest : Text} (hblank : isBlank c = true) (h : Gap gap rest) :
      Gap (c :: gap) rest
  | comment {source gap rest : Text} (hcomment : IsComment source (gap ++ rest))
      (h : Gap gap rest) : Gap (source ++ gap) rest

namespace Draft

theorem suffix_space (reversed : Text) : reversed <:+ space reversed := by
  cases reversed with
  | nil => exact List.suffix_refl []
  | cons c reversed =>
      dsimp only [space]
      split
      · exact List.suffix_refl _
      · exact List.suffix_cons _ _

theorem suffix_addPiece (reversed : Text) (piece : Piece) :
    reversed <:+ addPiece reversed piece := by
  cases piece with
  | char c =>
      dsimp only [addPiece]
      split
      · exact suffix_space reversed
      · exact List.suffix_cons c reversed
  | quoted source => exact List.suffix_append source.reverse reversed

theorem suffix_foldl_addPiece (inside : List Piece) (reversed : Text) :
    reversed <:+ inside.foldl addPiece reversed := by
  induction inside generalizing reversed with
  | nil => exact List.suffix_refl reversed
  | cons piece inside ih => exact (suffix_addPiece reversed piece).trans (ih _)

/-- A lexeme only adds to the text read so far. -/
theorem suffix_add (d : Draft) (p : Position) (l : Lexeme) :
    d.reversed <:+ (d.add p l).reversed := by
  cases l with
  | comment source => exact suffix_space d.reversed
  | blank c => exact suffix_space d.reversed
  | quoted source => exact List.suffix_append _ _
  | interpolation inside =>
      have hopening : d.reversed <:+ '{' :: '#' :: d.reversed := List.suffix_append ['{', '#'] _
      exact hopening.trans (suffix_foldl_addPiece inside _)
  | mark m => exact List.suffix_refl _
  | char c => exact List.suffix_cons _ _

theorem start_add {d : Draft} {q : Position} (h : d.start = some q) (p : Position) (l : Lexeme) :
    (d.add p l).start = some q := by
  cases l <;> simp [add, h]

/-- The text read so far has a first character, which is no blank, and the place of it is known. -/
structure Starts (d : Draft) (q : Position) (c : Char) : Prop where
  start : d.start = some q
  first : d.reversed.getLast? = some c
  visible : isBlank c = false

theorem Starts.add {d : Draft} {q : Position} {c : Char} (h : d.Starts q c) (p : Position)
    (l : Lexeme) : (d.add p l).Starts q c := by
  refine ⟨start_add h.start p l, ?_, h.visible⟩
  obtain ⟨more, hmore⟩ := d.suffix_add p l
  rw [← hmore, List.getLast?_append, h.first]
  rfl

theorem Starts.finish {d : Draft} {q : Position} {c : Char} (h : d.Starts q c) (m : Option Mark)
    (p : Position) : (d.finish m p).position = q ∧ (d.finish m p).text.head? = some c := by
  obtain ⟨more, hmore⟩ := List.getLast?_eq_some_iff.1 h.first
  refine ⟨by simp [Draft.finish, h.start], ?_⟩
  have hkept : (d.reversed.dropWhile isBlank).getLast? = some c := by
    rw [hmore, List.dropWhile_append]
    split
    · simp [h.visible]
    · simp
  simpa [Draft.finish, Text.trimEnd] using hkept

/-- A lexeme that is neither blank, comment nor mark starts the text of an empty draft. -/
theorem starts_add_empty {depth : Nat} {t rest : Text} {l : Lexeme} (p : Position)
    (h : Lexeme.Reads depth t (.lexeme l rest)) (hcomment : ∀ source, l ≠ .comment source)
    (hblank : ∀ c, l ≠ .blank c) (hmark : ∀ m, l ≠ .mark m) :
    ∃ c, l.source.head? = some c ∧ (empty.add p l).Starts p c := by
  cases h with
  | blockComment => exact absurd rfl (hcomment _)
  | lineComment => exact absurd rfl (hcomment _)
  | @interpolation _ _ inside hclose =>
      refine ⟨'#', rfl, rfl, ?_, by decide⟩
      obtain ⟨more, hmore⟩ := suffix_foldl_addPiece inside ['{', '#']
      change (inside.foldl addPiece ['{', '#']).getLast? = some '#'
      rw [← hmore, List.getLast?_append]
      rfl
  | @quoted quote _ body _ hquote hclose =>
      refine ⟨quote, rfl, rfl, by simp [add, empty], ?_⟩
      have hcases : quote = '"' ∨ quote = '\'' := by simpa [Nesting.quotes] using hquote
      rcases hcases with rfl | rfl <;> decide
  | semicolon => exact absurd rfl (hmark _)
  | openBrace => exact absurd rfl (hmark _)
  | closeBrace => exact absurd rfl (hmark _)
  | blank => exact absurd rfl (hblank _)
  | @char c _ hquote hm hvisible => exact ⟨c, rfl, rfl, rfl, hvisible⟩

end Draft

/-- Where a segment stands that is read behind `before`: behind a gap come the characters that make
up its text, and behind these its mark or the end of the source. -/
structure Segment.Stands (s : Segment) (before gap body back : Text) : Prop where
  passed : Gap gap (body ++ back)
  first : body.head? = s.text.head?
  visible : ∀ c ∈ body.head?, isBlank c = false
  noComment : body ≠ [] → ¬OpensComment (body ++ back)
  mark : back.head? = s.terminator.map Mark.char
  position : s.position = .behind (before ++ gap)
  terminatorPosition : s.terminatorPosition = .behind (before ++ gap ++ body)

namespace Cursor

/-- What is read ends in front of a mark, behind which the cursor goes on, or at the end. -/
theorem read_ends {d : Draft} {p : Position} {t : Text} {s : Segment}
    (h : (read d p t).outcome = .ok s) :
    ∃ body back, t = body ++ back ∧ back.head? = s.terminator.map Mark.char ∧
      s.terminatorPosition = p.after body ∧ (read d p t).cursor.rest = back.tail := by
  fun_induction read d p t with
  | case1 d p t hr =>
      cases h
      exact ⟨[], [], Lexeme.eq_nil_of_read hr, rfl, rfl, rfl⟩
  | case2 => cases h
  | case3 d p t m rest hr =>
      cases h
      exact ⟨[], t, rfl, by simp [(Lexeme.read_append hr).1, Lexeme.source, Draft.finish], rfl,
        by simp [(Lexeme.read_append hr).1, Lexeme.source]⟩
  | case4 d p t l rest hl hr ih =>
      obtain ⟨body, back, rfl, hback, hposition, hrest⟩ := ih h
      refine ⟨l.source ++ body, back, ?_, hback, ?_, hrest⟩
      · rw [(Lexeme.read_append hr).1, List.append_assoc]
      · rw [hposition, Position.after_append]

theorem read_started {d : Draft} {p q : Position} {c : Char} {t : Text} {s : Segment}
    (hstarts : d.Starts q c) (h : (read d p t).outcome = .ok s) :
    s.position = q ∧ s.text.head? = some c := by
  fun_induction read d p t with
  | case1 d p t hr =>
      cases h
      exact hstarts.finish none p
  | case2 => cases h
  | case3 d p t m rest hr =>
      cases h
      exact hstarts.finish (some m) p
  | case4 d p t l rest hl hr ih => exact ih (hstarts.add p l) h

end Cursor

/-- What is passed over before the text of a segment. -/
theorem Lexeme.Reads.gap {t rest : Text} {source : Text}
    (h : Lexeme.Reads 0 t (.lexeme (.comment source) rest)) : IsComment source rest := by
  cases h with
  | blockComment hclose =>
      obtain ⟨body, rfl, hbody⟩ := closeComment?_ends hclose
      exact .block rest hbody
  | lineComment hdepth hbody hrest => exact .line hbody hrest

theorem Lexeme.Reads.not_opensComment {t rest : Text} {l : Lexeme}
    (h : Lexeme.Reads 0 t (.lexeme l rest)) (hcomment : ∀ source, l ≠ .comment source) :
    ¬OpensComment t := by
  rintro (⟨more, rfl⟩ | ⟨more, rfl⟩)
  · cases h with
    | blockComment => exact hcomment _ rfl
    | quoted hquote => simp [Nesting.quotes] at hquote
    | blank _ hblank => simp [isBlank] at hblank
    | char _ _ _ hslash => exact (hslash rfl).1 rfl
  · cases h with
    | lineComment => exact hcomment _ rfl
    | quoted hquote => simp [Nesting.quotes] at hquote
    | blank _ hblank => simp [isBlank] at hblank
    | char _ _ _ hslash => exact (hslash rfl).2 rfl rfl

namespace Cursor

theorem read_stands {p : Position} {t before : Text} {s : Segment} (hp : p = .behind before)
    (h : (read .empty p t).outcome = .ok s) :
    ∃ gap body back, t = gap ++ body ++ back ∧ s.Stands before gap body back ∧
      (read .empty p t).cursor.rest = back.tail := by
  generalize hd : Draft.empty = d at h ⊢
  fun_induction read d p t generalizing before with
  | case1 d p t hr =>
      cases h
      subst hd hp
      refine ⟨[], [], [], Lexeme.eq_nil_of_read hr, ⟨.nil _, rfl, ?_, ?_, rfl, ?_, ?_⟩, rfl⟩
      · simp
      · simp
      · simp [Draft.finish, Draft.empty]
      · simp [Draft.finish]
  | case2 => cases h
  | case3 d p t m rest hr =>
      cases h
      subst hd hp
      have ht := (Lexeme.read_append hr).1
      refine ⟨[], [], t, rfl, ⟨.nil _, rfl, ?_, ?_, ?_, ?_, ?_⟩, ?_⟩
      · simp
      · simp
      · simp [ht, Lexeme.source, Draft.finish]
      · simp [Draft.finish, Draft.empty]
      · simp [Draft.finish]
      · simp [ht, Lexeme.source]
  | case4 d p t l rest hl hr ih =>
      subst hd hp
      have hreads : Lexeme.Reads 0 t (.lexeme l rest) := hr ▸ Lexeme.reads_read 0 t
      have ht := (Lexeme.read_append hr).1
      by_cases hskip : (∃ source, l = .comment source) ∨ ∃ c, l = .blank c
      · -- Blanks and comments leave the draft empty, and the gap grows at its front.
        have hempty : Draft.empty = Draft.empty.add (.behind before) l := by
          rcases hskip with ⟨source, rfl⟩ | ⟨c, rfl⟩ <;> rfl
        obtain ⟨gap, body, back, hrest, hstands, hcursor⟩ :=
          ih (Position.behind_append before l.source).symm hempty h
        have hgap : Gap (l.source ++ gap) (body ++ back) := by
          rcases hskip with ⟨source, rfl⟩ | ⟨c, rfl⟩
          · refine .comment ?_ hstands.passed
            rw [← List.append_assoc, ← hrest]
            exact hreads.gap
          · cases hreads with
            | blank _ hblank => exact .blank hblank hstands.passed
        refine ⟨l.source ++ gap, body, back, by simp [ht, hrest], ?_, hcursor⟩
        refine ⟨hgap, hstands.first, hstands.visible, hstands.noComment, hstands.mark, ?_, ?_⟩
        · rw [hstands.position, List.append_assoc]
        · rw [hstands.terminatorPosition]
          simp
      · simp only [not_or, not_exists] at hskip
        obtain ⟨c, hfirst, hstarts⟩ :=
          Draft.starts_add_empty (.behind before) hreads hskip.1 hskip.2 hl
        obtain ⟨hposition, htext⟩ := read_started hstarts h
        obtain ⟨body, back, hrest, hback, hterminator, hcursor⟩ := read_ends h
        refine ⟨[], l.source ++ body, back, by simp [ht, hrest], ?_, hcursor⟩
        have hhead : (l.source ++ body).head? = some c := by simp [hfirst]
        refine ⟨.nil _, ?_, ?_, fun _ => ?_, hback, ?_, ?_⟩
        · rw [hhead, htext]
        · rw [hhead]
          rintro d ⟨⟩
          exact hstarts.visible
        · have hwhole : l.source ++ body ++ back = t := by simp [ht, hrest]
          rw [hwhole]
          exact hreads.not_opensComment hskip.1
        · simpa using hposition
        · rw [hterminator, List.append_nil, ← Position.behind_append, ← Position.behind_append,
            List.append_assoc]

/-! ### Cursors -/

/-- The cursors that calls leave behind, made one after the other from a first cursor: each call
reads a segment or the body of a block, with success or not. -/
inductive Reaches (c : Cursor) : Cursor → Prop
  | refl : Reaches c c
  | next {d : Cursor} (h : Reaches c d) : Reaches c d.next.cursor
  | capture {d : Cursor} (h : Reaches c d) (opened : Position) :
      Reaches c (d.capture opened).cursor

/-- What every segment keeps, a whole block keeps. -/
theorem captureFrom_cursor {motive : Cursor → Prop}
    (next : ∀ c, motive c → motive c.next.cursor) {c : Cursor} (opened : Position)
    (capture : Capture) (h : motive c) : motive (c.captureFrom opened capture).cursor := by
  fun_induction captureFrom opened capture c with
  | case1 => exact next _ h
  | case2 => exact next _ h
  | case3 => exact next _ h
  | case4 capture c s hs m hm longer hstep ih => exact ih (next c h)

theorem Reaches.keeps {motive : Cursor → Prop} (next : ∀ c, motive c → motive c.next.cursor)
    {c d : Cursor} (h : c.Reaches d) (hc : motive c) : motive d := by
  induction h with
  | refl => exact hc
  | next _ ih => exact next _ ih
  | capture _ opened ih => exact captureFrom_cursor next opened .empty ih

/-- The cursor stands behind a text, with the rest of the source before it. -/
structure Stands (c : Cursor) (source before : Text) : Prop where
  split : source = before ++ c.rest
  position : c.position = .behind before

theorem read_cursor (d : Draft) (p : Position) (t : Text) :
    ∃ taken, t = taken ++ (read d p t).cursor.rest ∧
      (read d p t).cursor.position = p.after taken := by
  fun_induction read d p t with
  | case1 d p t hr => exact ⟨[], Lexeme.eq_nil_of_read hr, rfl⟩
  | case2 d p t construct before hr => exact ⟨t, by simp, rfl⟩
  | case3 d p t m rest hr => exact ⟨[m.char], (Lexeme.read_append hr).1, rfl⟩
  | case4 d p t l rest hl hr ih =>
      obtain ⟨taken, hrest, hposition⟩ := ih
      refine ⟨l.source ++ taken, ?_, ?_⟩
      · rw [List.append_assoc, ← hrest]
        exact (Lexeme.read_append hr).1
      · rw [hposition, Position.after_append]

theorem Stands.next {c : Cursor} {source before : Text} (h : c.Stands source before) :
    ∃ taken, c.next.cursor.Stands source (before ++ taken) := by
  obtain ⟨taken, hrest, hposition⟩ := read_cursor .empty c.position c.rest
  refine ⟨taken, ?_, ?_⟩
  · rw [h.split, hrest, List.append_assoc]
    rfl
  · rw [Position.behind_append, ← h.position]
    exact hposition

theorem stands_start (source : Text) : (start source).Stands (start source).rest [] :=
  ⟨rfl, rfl⟩

/-- Wherever calls lead in a source, the cursor stands at the position behind what it has passed. -/
theorem Reaches.stands {source : Text} {c : Cursor} (h : (start source).Reaches c) :
    ∃ before, c.Stands (start source).rest before := by
  have hnext : ∀ c : Cursor, (∃ before, c.Stands (start source).rest before) →
      ∃ before, c.next.cursor.Stands (start source).rest before := by
    rintro c ⟨before, hbefore⟩
    obtain ⟨taken, htaken⟩ := hbefore.next
    exact ⟨before ++ taken, htaken⟩
  exact h.keeps hnext ⟨[], stands_start source⟩

/-- A segment stands where it is read, and the cursor goes on behind its mark. -/
theorem Stands.segment {c : Cursor} {source before : Text} {s : Segment}
    (h : c.Stands source before) (hs : c.next.outcome = .ok s) :
    ∃ gap body back, source = before ++ gap ++ body ++ back ∧ s.Stands before gap body back ∧
      c.next.cursor.rest = back.tail := by
  obtain ⟨gap, body, back, hrest, hstands, hcursor⟩ := read_stands h.position hs
  refine ⟨gap, body, back, ?_, hstands, hcursor⟩
  rw [h.split, hrest]
  simp

end Cursor

end Stylesheet
