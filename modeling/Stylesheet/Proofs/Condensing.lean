import Stylesheet.Proofs.FixedPoints
import Stylesheet.Proofs.Words

/-! What scanning keeps of a source.

A segment is read lexeme by lexeme (`Lexed`). With blanks in place of its comments, what was read has
the same words as the text of the segment: no visible character is lost, and none are put side by side
that did not stand so. Strings are kept as they stand, with the blanks in them (`Respaced`). In the
body of a block the segments are put together again. There the semicolon behind a statement, and the
brace behind the block, follow directly on the text before them, whatever blanks and comments stood
between; nothing else is moved together. -/

namespace Stylesheet

/-! ### Lexemes one after the other -/

/-- Lexemes that are read one after the other from the front of a text, with `depth` parentheses open
before the first of them, up to a rest. -/
inductive Lexed : Nat → Text → List Lexeme → Text → Prop
  | nil (depth : Nat) (rest : Text) : Lexed depth rest [] rest
  | cons {depth : Nat} {t more rest : Text} {l : Lexeme} {ls : List Lexeme}
      (hread : Lexeme.read depth t = .lexeme l more)
      (h : Lexed (l.depthAfter depth) more ls rest) : Lexed depth t (l :: ls) rest

theorem Lexed.source_eq {depth : Nat} {t rest : Text} {ls : List Lexeme}
    (h : Lexed depth t ls rest) : t = ls.flatMap Lexeme.source ++ rest := by
  induction h with
  | nil => rfl
  | cons hread _ ih => rw [List.flatMap_cons, List.append_assoc, ← ih, (Lexeme.read_append hread).1]

/-- Behind a mark no parenthesis is open, so what is read there goes on from the start. -/
theorem Lexed.append_mark {depth : Nat} {t more rest : Text} {ls ls' : List Lexeme} {m : Mark}
    (h : Lexed depth t (ls ++ [.mark m]) more) (h' : Lexed 0 more ls' rest) :
    Lexed depth t (ls ++ .mark m :: ls') rest := by
  induction ls generalizing depth t with
  | nil =>
      obtain _ | ⟨hread, hnil⟩ := h
      cases hnil
      exact .cons hread h'
  | cons l ls ih =>
      obtain _ | ⟨hread, hrest⟩ := h
      exact .cons hread (ih hrest)

/-- The units of a lexeme. A comment stands for as many blanks. -/
def Lexeme.pieces : Lexeme → List Piece
  | .comment source => source.blankOut.map .char
  | .blank c => [.char c]
  | .quoted source => [.quoted source]
  | .interpolation inside => .char '#' :: .char '{' :: inside
  | .mark m => [.char m.char]
  | .char c => [.char c]

/-- The units of lexemes one after the other. -/
def Lexeme.allPieces (ls : List Lexeme) : List Piece :=
  ls.flatMap pieces

/-- What was read, with a blank in place of every character of a comment. -/
def Lexeme.bare (ls : List Lexeme) : Text :=
  (allPieces ls).flatMap Piece.source

namespace Lexeme

@[simp]
theorem allPieces_cons (l : Lexeme) (ls : List Lexeme) :
    allPieces (l :: ls) = l.pieces ++ allPieces ls :=
  List.flatMap_cons

@[simp]
theorem allPieces_append (ls ls' : List Lexeme) :
    allPieces (ls ++ ls') = allPieces ls ++ allPieces ls' :=
  List.flatMap_append

@[simp]
theorem bare_append (ls ls' : List Lexeme) : bare (ls ++ ls') = bare ls ++ bare ls' := by
  simp [bare]

@[simp]
theorem bare_mark (m : Mark) : bare [.mark m] = [m.char] :=
  rfl

/-- Every character is kept at its place, or a blank stands there. -/
theorem forall₂_bare (ls : List Lexeme) :
    List.Forall₂ (fun a b => b = a ∨ isBlank b = true) (ls.flatMap source) (bare ls) := by
  have hsame (t : Text) : List.Forall₂ (fun a b => b = a ∨ isBlank b = true) t t :=
    List.forall₂_same.2 fun _ _ => .inl rfl
  induction ls with
  | nil => exact .nil
  | cons l ls ih =>
      rw [bare, allPieces_cons, List.flatMap_append]
      refine List.rel_append ?_ ih
      cases l with
      | comment s =>
          have hblank : (pieces (.comment s)).flatMap Piece.source = s.blankOut := by
            simp [pieces, List.flatMap_map, Piece.source]
          rw [hblank]
          refine List.forall₂_map_right_iff.2 (List.forall₂_same.2 fun c _ => .inr ?_)
          split
          · next hline => rw [hline]; rfl
          · rfl
      | blank c => exact hsame [c]
      | quoted s =>
          have hquoted : (pieces (.quoted s)).flatMap Piece.source = s := List.append_nil s
          rw [hquoted]
          exact hsame s
      | interpolation inside => exact hsame _
      | mark m => exact hsame [m.char]
      | char c => exact hsame [c]

end Lexeme

/-! ### Pieces and blanks -/

/-- A text is made of pieces one after the other, each string as it stands: only blanks outside the
strings are left out, and only spaces are put in. -/
inductive Respaced : List Piece → Text → Prop
  | nil : Respaced [] []
  | quoted (source : Text) {pieces : List Piece} {t : Text} (h : Respaced pieces t) :
      Respaced (.quoted source :: pieces) (source ++ t)
  | char {c : Char} {pieces : List Piece} {t : Text} (hvisible : isBlank c = false)
      (h : Respaced pieces t) : Respaced (.char c :: pieces) (c :: t)
  | blank {c : Char} {pieces : List Piece} {t : Text} (hblank : isBlank c = true)
      (h : Respaced pieces t) : Respaced (.char c :: pieces) t
  | space {pieces : List Piece} {t : Text} (h : Respaced pieces t) : Respaced pieces (' ' :: t)

/-- Every string among pieces ends with a visible character. -/
def EndsVisibly (pieces : List Piece) : Prop :=
  ∀ source, .quoted source ∈ pieces → ∃ c, source.getLast? = some c ∧ isBlank c = false

namespace Respaced

variable {pieces others : List Piece} {t u : Text}

theorem append (h : Respaced pieces t) (h' : Respaced others u) :
    Respaced (pieces ++ others) (t ++ u) := by
  induction h with
  | nil => exact h'
  | quoted source _ ih =>
      rw [List.append_assoc]
      exact .quoted source ih
  | char hvisible _ ih => exact .char hvisible ih
  | blank hblank _ ih => exact .blank hblank ih
  | space _ ih => exact .space ih

theorem visible_eq (h : Respaced pieces t) :
    Text.visible (pieces.flatMap Piece.source) = t.visible := by
  have hspace : isBlank ' ' = true := rfl
  induction h with
  | nil => rfl
  | quoted source _ ih => rw [List.flatMap_cons, Text.visible_append, Text.visible_append, ih]; rfl
  | char hvisible _ ih =>
      rw [List.flatMap_cons, Piece.source, List.singleton_append, Text.visible_cons hvisible,
        Text.visible_cons hvisible, ih]
  | blank hblank _ ih =>
      rw [List.flatMap_cons, Piece.source, List.singleton_append, Text.visible_cons_blank hblank,
        ih]
  | space _ ih => rw [ih, Text.visible_cons_blank hspace]

theorem trimEnd (h : Respaced pieces t) (hends : EndsVisibly pieces) :
    Respaced pieces t.trimEnd := by
  induction h with
  | nil => exact .nil
  | quoted source _ ih =>
      obtain ⟨c, hlast, hc⟩ := hends source List.mem_cons_self
      rw [Text.trimEnd_of_getLast? hlast hc]
      exact .quoted source (ih fun other hother => hends other (List.mem_cons_of_mem _ hother))
  | @char c pieces t hvisible _ ih =>
      have hcons := Text.trimEnd_of_getLast? (s := [c]) rfl hvisible t
      rw [List.singleton_append] at hcons
      rw [hcons]
      exact .char hvisible (ih fun other hother => hends other (List.mem_cons_of_mem _ hother))
  | blank hblank _ ih =>
      exact .blank hblank (ih fun other hother => hends other (List.mem_cons_of_mem _ hother))
  | @space pieces t _ ih =>
      have hshort := ih hends
      rw [Text.trimEnd_cons_eq]
      split
      · next hnil =>
        rw [hnil] at hshort
        exact hshort
      · exact .space hshort

end Respaced

theorem getLast?_quoted {quote : Char} {t body rest : Text} (hquote : Nesting.quotes quote = true)
    (hclose : closeString? quote t = some (body, rest)) :
    ∃ c, (quote :: body).getLast? = some c ∧ isBlank c = false := by
  refine ⟨quote, ?_, ?_⟩
  · rw [List.getLast?_cons, getLast?_of_closeString? hclose]
    rfl
  · have hcases : quote = '"' ∨ quote = '\'' := by simpa [Nesting.quotes] using hquote
    rcases hcases with rfl | rfl <;> decide

theorem Closes.endsVisibly {depth : Nat} {pieces : List Piece} (h : Closes depth pieces) :
    EndsVisibly pieces := by
  have hchar {c : Char} {pieces : List Piece} (h : EndsVisibly pieces) :
      EndsVisibly (.char c :: pieces) := by
    intro source hmem
    rcases List.mem_cons.1 hmem with heq | hmem
    · cases heq
    · exact h source hmem
  induction h with
  | last => exact hchar fun source hmem => by cases hmem
  | quoted hquote hclose _ ih =>
      intro source hmem
      rcases List.mem_cons.1 hmem with heq | hmem
      · cases heq
        exact getLast?_quoted hquote hclose
      · exact ih source hmem
  | close _ ih => exact hchar ih
  | «open» _ ih => exact hchar ih
  | char _ _ _ _ ih => exact hchar ih

/-- The strings of a lexeme that is read end with their quotes. -/
theorem Lexeme.Reads.endsVisibly {depth : Nat} {t rest : Text} {l : Lexeme}
    (h : Reads depth t (.lexeme l rest)) : EndsVisibly l.pieces := by
  intro source hmem
  cases h with
  | blockComment => simp [pieces] at hmem
  | lineComment => simp [pieces] at hmem
  | interpolation hclose =>
      simp only [pieces, List.mem_cons, reduceCtorEq, false_or] at hmem
      exact (closes_of_closeInterpolation hclose).endsVisibly source hmem
  | quoted hquote hclose =>
      simp only [pieces, List.mem_singleton, Piece.quoted.injEq] at hmem
      subst hmem
      exact getLast?_quoted hquote hclose
  | semicolon => simp [pieces] at hmem
  | openBrace => simp [pieces] at hmem
  | closeBrace => simp [pieces] at hmem
  | blank => simp [pieces] at hmem
  | char => simp [pieces] at hmem

/-! ### Segments -/

namespace Draft

theorem foldl_addPiece_blanks {blanks : Text} (hne : blanks ≠ [])
    (h : ∀ c ∈ blanks, isBlank c = true) (reversed : Text) :
    (blanks.map Piece.char).foldl addPiece reversed = space reversed := by
  induction blanks generalizing reversed with
  | nil => exact absurd rfl hne
  | cons c blanks ih =>
      obtain ⟨hc, hblanks⟩ := List.forall_mem_cons.1 h
      rw [List.map_cons, List.foldl_cons, addPiece, if_pos hc]
      by_cases hnil : blanks = []
      · rw [hnil]
        rfl
      · rw [ih hnil hblanks, space_space]

/-- A lexeme adds its pieces to the text of a draft. -/
theorem reversed_add {depth : Nat} {t rest : Text} {l : Lexeme}
    (h : Lexeme.Reads depth t (.lexeme l rest)) (hl : ∀ m, l ≠ .mark m) (d : Draft)
    (p : Position) : (d.add p l).reversed = l.pieces.foldl addPiece d.reversed := by
  have hcomment {source : Text} (hne : source ≠ []) :
      space d.reversed = (source.blankOut.map Piece.char).foldl addPiece d.reversed := by
    refine (foldl_addPiece_blanks ?_ Text.isBlank_of_mem_blankOut _).symm
    simpa [Text.blankOut] using hne
  cases h with
  | blockComment => exact hcomment (List.cons_ne_nil _ _)
  | lineComment => exact hcomment (List.cons_ne_nil _ _)
  | interpolation => rfl
  | quoted => rfl
  | semicolon => exact absurd rfl (hl _)
  | openBrace => exact absurd rfl (hl _)
  | closeBrace => exact absurd rfl (hl _)
  | blank _ hblank => simp [add, Lexeme.pieces, addPiece, hblank]
  | char _ _ hblank => simp [add, Lexeme.pieces, addPiece, hblank]

/-- Pieces leave the words of a text alike, whatever comes behind them. -/
theorem words_foldl_addPiece {reversed source : Text} (pieces : List Piece)
    (h : ∀ more, Text.words (reversed.reverse ++ more) = Text.words (source ++ more))
    (more : Text) :
    Text.words ((pieces.foldl addPiece reversed).reverse ++ more) =
      Text.words (source ++ pieces.flatMap Piece.source ++ more) := by
  have hspace (reversed more : Text) : Text.words ((space reversed).reverse ++ more) =
      Text.words reversed.reverse ++ Text.words more := by
    cases reversed with
    | nil => rfl
    | cons c reversed =>
        by_cases hc : c = ' '
        · have hcut := Text.words_append_blank (c := ' ') rfl reversed.reverse
          simp [space, hc, hcut]
        · have hcut := Text.words_append_blank (c := ' ') rfl (reversed.reverse ++ [c]) more
          simpa [space, hc] using hcut
  induction pieces generalizing reversed source more with
  | nil => simpa using h more
  | cons piece pieces ih =>
      rw [List.foldl_cons, List.flatMap_cons, ← List.append_assoc]
      refine ih (fun more => ?_) more
      cases piece with
      | quoted s =>
          rw [addPiece, Piece.source, List.reverse_append, List.reverse_reverse, List.append_assoc,
            List.append_assoc]
          exact h (s ++ more)
      | char c =>
          rw [addPiece, Piece.source]
          split
          · next hblank =>
            have hwords := h []
            rw [List.append_nil, List.append_nil] at hwords
            rw [hspace, hwords, List.append_assoc, List.singleton_append,
              Text.words_append_blank hblank]
          · rw [List.reverse_cons, List.append_assoc, List.append_assoc]
            exact h ([c] ++ more)

theorem respaced_foldl_addPiece {before : List Piece} {reversed : Text} (pieces : List Piece)
    (h : Respaced before reversed.reverse) :
    Respaced (before ++ pieces) (pieces.foldl addPiece reversed).reverse := by
  have hspace (reversed : Text) : (space reversed).reverse = reversed.reverse ∨
      (space reversed).reverse = reversed.reverse ++ [' '] := by
    cases reversed with
    | nil => exact .inl rfl
    | cons c reversed =>
        by_cases hc : c = ' '
        · simp [space, hc]
        · simp [space, hc]
  induction pieces generalizing before reversed with
  | nil => simpa using h
  | cons piece pieces ih =>
      rw [List.foldl_cons, List.append_cons]
      refine ih ?_
      cases piece with
      | quoted s =>
          rw [addPiece, List.reverse_append, List.reverse_reverse]
          have hquoted := h.append (.quoted s .nil)
          rwa [List.append_nil] at hquoted
      | char c =>
          rw [addPiece]
          split
          · next hblank =>
            rcases hspace reversed with heq | heq
            · have hskip := h.append (.blank hblank .nil)
              rwa [List.append_nil, ← heq] at hskip
            · rw [heq]
              exact h.append (.space (.blank hblank .nil))
          · next hblank =>
            rw [List.reverse_cons]
            exact h.append (.char (by simpa using hblank) .nil)

end Draft

/-- What the text of a segment keeps of the lexemes it was read from. -/
structure Condenses (ls : List Lexeme) (text : Text) : Prop where
  respaced : Respaced (Lexeme.allPieces ls) text
  words : text.words = (Lexeme.bare ls).words

namespace Cursor

theorem read_lexed {d : Draft} {p : Position} {t : Text} {s : Segment}
    (h : (read d p t).outcome = .ok s) :
    ∃ ls, Lexed d.depth t (ls ++ s.terminator.toList.map .mark) (read d p t).cursor.rest ∧
      EndsVisibly (Lexeme.allPieces ls) ∧
      s.text = Text.trimEnd ((Lexeme.allPieces ls).foldl Draft.addPiece d.reversed).reverse := by
  have hnone : EndsVisibly [] := fun source hmem => by cases hmem
  fun_induction read d p t with
  | case1 d p t hr =>
      cases h
      rw [Lexeme.eq_nil_of_read hr]
      exact ⟨[], .nil _ _, hnone, rfl⟩
  | case2 => cases h
  | case3 d p t m rest hr =>
      cases h
      exact ⟨[], .cons hr (.nil _ _), hnone, rfl⟩
  | case4 d p t l rest hl hr ih =>
      have hreads : Lexeme.Reads d.depth t (.lexeme l rest) := hr ▸ Lexeme.reads_read d.depth t
      obtain ⟨ls, hlexed, hends, htext⟩ := ih h
      rw [d.depth_add p hl] at hlexed
      rw [d.reversed_add hreads hl p] at htext
      refine ⟨l :: ls, .cons hr hlexed, fun source hmem => ?_, ?_⟩
      · rcases List.mem_append.1 hmem with hmem | hmem
        · exact hreads.endsVisibly source hmem
        · exact hends source hmem
      · rw [htext, Lexeme.allPieces_cons, List.foldl_append]

/-- A segment is read lexeme by lexeme, and its text is condensed from them. -/
theorem next_condenses {c : Cursor} {s : Segment} (h : c.next.outcome = .ok s) :
    ∃ ls, Lexed 0 c.rest (ls ++ s.terminator.toList.map .mark) c.next.cursor.rest ∧
      Condenses ls s.text := by
  obtain ⟨ls, hlexed, hends, htext⟩ := read_lexed h
  refine ⟨ls, hlexed, ?_, ?_⟩
  · have hrespaced : Respaced (Lexeme.allPieces ls)
        ((Lexeme.allPieces ls).foldl Draft.addPiece []).reverse := by
      have hnil : Respaced [] (List.reverse []) := .nil
      simpa using Draft.respaced_foldl_addPiece (Lexeme.allPieces ls) hnil
    rw [htext]
    exact hrespaced.trimEnd hends
  · have hstart (more : Text) : Text.words (List.reverse [] ++ more) = Text.words ([] ++ more) := rfl
    have hwords := Draft.words_foldl_addPiece (Lexeme.allPieces ls) hstart []
    rw [htext, Text.words_trimEnd]
    simpa [Draft.empty, Lexeme.bare] using hwords

end Cursor

/-! ### Characters side by side -/

/-- Two visible characters that stand side by side in a text stand so in the source too, behind the
same visible characters. Where blanks stand between them in the source, it is one of the places at
which blanks may be dropped: `joins` holds of what precedes the second character. -/
def Neighbours (joins : Text → Prop) (source text : Text) : Prop :=
  ∀ (x : Text) (a b : Char) (y : Text), text = x ++ a :: b :: y →
    isBlank a = false → isBlank b = false →
      ∃ u gap v : Text, source = u ++ a :: (gap ++ b :: v) ∧ u.visible = x.visible ∧
        (∀ c ∈ gap, isBlank c = true) ∧ (gap ≠ [] → joins (u ++ a :: gap))

namespace Neighbours

variable {joins joins' all : Text → Prop} {source source' text text' : Text}

theorem of_words_eq (h : text.words = source.words) : Neighbours joins source text := by
  intro x a b y htext ha hb
  obtain ⟨u, v, hsource, hu⟩ := Text.exists_adjacent_of_words_eq h htext ha hb
  exact ⟨u, [], v, hsource, hu, by simp, fun hne => absurd rfl hne⟩

/-- Texts with a blank at the seam bring no new characters side by side. -/
theorem append (h : Neighbours joins source text) (h' : Neighbours joins' source' text')
    (hvisible : source.visible = text.visible) (hjoins : ∀ front, joins front → all front)
    (hjoins' : ∀ front, joins' front → all (source ++ front))
    (hseam : ∀ a ∈ text.getLast?, ∀ b ∈ text'.head?, isBlank a = true ∨ isBlank b = true) :
    Neighbours all (source ++ source') (text ++ text') := by
  intro x a b y htext ha hb
  have hbehind {x' : Text} (hx : x = text ++ x') (htext' : text' = x' ++ a :: b :: y) :
      ∃ u gap v : Text, source ++ source' = u ++ a :: (gap ++ b :: v) ∧ u.visible = x.visible ∧
        (∀ c ∈ gap, isBlank c = true) ∧ (gap ≠ [] → all (u ++ a :: gap)) := by
    obtain ⟨u, gap, v, rfl, hu, hgap, hjoin⟩ := h' x' a b y htext' ha hb
    refine ⟨source ++ u, gap, v, by simp, by simp [hx, hu, hvisible], hgap, fun hne => ?_⟩
    rw [List.append_assoc]
    exact hjoins' _ (hjoin hne)
  rcases List.append_eq_append_iff.1 htext with ⟨x', hx, htext'⟩ | ⟨more, htext', hmore⟩
  · exact hbehind hx htext'
  · obtain _ | ⟨c, _ | ⟨d, more⟩⟩ := more
    · have hx : x = text ++ [] := by simpa using htext'.symm
      exact hbehind hx hmore.symm
    · -- The seam stands between the two characters.
      obtain ⟨rfl, hcut⟩ := List.cons.inj hmore
      have hbehind' : text' = b :: y := hcut.symm
      have hcases := hseam a (by simp [htext']) b (by simp [hbehind'])
      rw [ha, hb] at hcases
      rcases hcases with hblank | hblank
      · cases hblank
      · cases hblank
    · obtain ⟨rfl, hcut⟩ := List.cons.inj hmore
      obtain ⟨rfl, _⟩ := List.cons.inj hcut
      obtain ⟨u, gap, v, rfl, hu, hgap, hjoin⟩ := h x a b more htext' ha hb
      exact ⟨u, gap, v ++ source', by simp, hu, hgap, fun hne => hjoins _ (hjoin hne)⟩

/-- A character that is put directly behind a text may drop the blanks before it. -/
theorem concat (h : Neighbours joins source text) (hvisible : source.visible = text.visible)
    (hjoins : ∀ front, joins front → all front) (hall : all source) (m : Char) :
    Neighbours all (source ++ [m]) (text ++ [m]) := by
  intro x a b y htext ha hb
  rcases List.eq_nil_or_concat y with rfl | ⟨y', last, rfl⟩
  · have hsplit : text ++ [m] = x ++ [a] ++ [b] := by rw [htext]; simp
    obtain ⟨rfl, hlast⟩ := List.append_inj' hsplit rfl
    cases hlast
    have hfront : source.visible = x.visible ++ [a] := by
      rw [hvisible, Text.visible_append, Text.visible_cons ha]
      rfl
    obtain ⟨u, gap, rfl, hu, hgap⟩ := Text.exists_of_visible_concat hfront
    exact ⟨u, gap, [], by simp, hu, hgap, fun _ => hall⟩
  · have hsplit : text ++ [m] = x ++ a :: b :: y' ++ [last] := by rw [htext]; simp
    obtain ⟨htext', _⟩ := List.append_inj' hsplit rfl
    obtain ⟨u, gap, v, rfl, hu, hgap, hjoin⟩ := h x a b y' htext' ha hb
    exact ⟨u, gap, v ++ [m], by simp, hu, hgap, fun hne => hjoins _ (hjoin hne)⟩

end Neighbours

/-! ### Blocks -/

/-- Behind a front of what was read stands a semicolon that ends a statement. -/
def EndsStatement (ls : List Lexeme) (front : Text) : Prop :=
  ∃ before after, ls = before ++ .mark .semicolon :: after ∧ front = Lexeme.bare before

theorem EndsStatement.append {ls : List Lexeme} {front : Text} (h : EndsStatement ls front)
    (more : List Lexeme) : EndsStatement (ls ++ more) front := by
  obtain ⟨before, after, rfl, rfl⟩ := h
  exact ⟨before, after ++ more, by simp, rfl⟩

theorem Mark.char_plain (m : Mark) :
    isBlank m.char = false ∧ isNameChar m.char = false ∧ m.char ≠ '$' := by
  cases m <;> decide

theorem Condenses.lead {ls : List Lexeme} {text : Text} (h : Condenses ls text)
    (parts : List Text) : Condenses ls (Capture.lead parts ++ text) := by
  unfold Capture.lead
  split
  · exact h
  · exact ⟨.space h.respaced, (Text.words_blanks_append (by simp [isBlank]) text).trans h.words⟩

namespace Capture

/-- What the parts of a block keep of the lexemes read so far. -/
structure Keeps (c : Capture) (ls : List Lexeme) : Prop where
  parts : ∀ part ∈ c.parts, part ≠ []
  respaced : Respaced (Lexeme.allPieces ls) (Text.join [' '] c.parts)
  neighbours : Neighbours (EndsStatement ls) (Lexeme.bare ls) (Text.join [' '] c.parts)
  references : ∀ more, Text.references (Text.join [' '] c.parts ++ more) =
    (Lexeme.bare ls).references ++ more.references
  /-- No reference goes on behind what was read. -/
  cut : ∀ more, Text.references (Lexeme.bare ls ++ more) =
    (Lexeme.bare ls).references ++ more.references

theorem keeps_empty : empty.Keeps [] where
  parts := List.forall_mem_nil _
  respaced := .nil
  neighbours := Neighbours.of_words_eq rfl
  references := fun _ => rfl
  cut := fun _ => rfl

variable {c : Capture} {ls ls' : List Lexeme} {t : Text}

theorem Keeps.append_respaced (h : c.Keeps ls) (h' : Condenses ls' t) :
    Respaced (Lexeme.allPieces (ls ++ ls')) (Text.join [' '] c.parts ++ t) := by
  rw [Lexeme.allPieces_append]
  exact h.respaced.append h'.respaced

theorem Keeps.append_neighbours (h : c.Keeps ls) (h' : Condenses ls' t)
    (hseam : c.parts = [] ∨ ∀ b ∈ t.head?, isBlank b = true) :
    Neighbours (EndsStatement (ls ++ ls')) (Lexeme.bare (ls ++ ls'))
      (Text.join [' '] c.parts ++ t) := by
  have hnew : Neighbours (fun _ => False) (Lexeme.bare ls') t := .of_words_eq h'.words
  rw [Lexeme.bare_append]
  refine h.neighbours.append hnew h.respaced.visible_eq (fun front hfront => hfront.append ls')
    (fun front hfront => hfront.elim) ?_
  intro a ha b hb
  rcases hseam with hnil | hblank
  · rw [hnil] at ha
    cases ha
  · exact .inr (hblank b hb)

/-- A text behind the parts adds its own references, and so does what follows it, unless a name goes
on there. -/
theorem Keeps.append_references (h : c.Keeps ls) (h' : Condenses ls' t) {more : Text}
    (hmore : ∀ d ∈ more.head?, isNameChar d = false) :
    Text.references (Text.join [' '] c.parts ++ (t ++ more)) =
        (Lexeme.bare ls).references ++ ((Lexeme.bare ls').references ++ more.references) ∧
      Text.references (Lexeme.bare (ls ++ ls') ++ more) =
        (Lexeme.bare ls).references ++ ((Lexeme.bare ls').references ++ more.references) := by
  rw [Lexeme.bare_append, List.append_assoc, h.references, h.cut, Text.references_append hmore,
    Text.references_append hmore, Text.references_eq_of_words_eq h'.words]
  exact ⟨rfl, rfl⟩

/-- A blank stands between the parts of a block and a text. -/
theorem lead_seam (parts : List Text) (t : Text) :
    parts = [] ∨ ∀ b ∈ (lead parts ++ t).head?, isBlank b = true := by
  by_cases hnil : parts = []
  · exact .inl hnil
  · right
    simp [lead, hnil, isBlank]

/-- What stands between the text of a segment and its mark in a block. -/
def markLead (m : Mark) (t : Text) : Text :=
  if m = .semicolon ∨ t = [] then [] else [' ']

theorem written_eq {s : Segment} {m : Mark} (hmark : s.terminator = some m) :
    s.written = s.text ++ markLead m s.text ++ [m.char] := by
  cases m with
  | semicolon => simp [Segment.written, hmark, markLead, Mark.char]
  | openBrace =>
      by_cases hnil : s.text = []
      · simp [Segment.written, hmark, markLead, hnil]
      · simp [Segment.written, hmark, markLead, hnil]
  | closeBrace =>
      by_cases hnil : s.text = []
      · simp [Segment.written, hmark, markLead, hnil]
      · simp [Segment.written, hmark, markLead, hnil]

theorem isBlank_of_mem_markLead {m : Mark} {t : Text} : ∀ d ∈ markLead m t, isBlank d = true := by
  unfold markLead
  split
  · simp
  · simp [isBlank]

/-- A brace is set off from what stands before it. -/
theorem markLead_seam {m : Mark} (hm : m ≠ .semicolon) (parts : List Text) (t : Text) :
    ∀ a ∈ (Text.join [' '] parts ++ (lead parts ++ t)).getLast?,
      ∀ b ∈ (markLead m t ++ [m.char]).head?, isBlank a = true ∨ isBlank b = true := by
  intro a ha b hb
  by_cases hnil : t = []
  · left
    subst hnil
    by_cases hparts : parts = []
    · subst hparts
      cases ha
    · simp only [lead, hparts, if_false, List.append_nil, List.getLast?_concat] at ha
      cases ha
      rfl
  · right
    simp only [markLead, hm, hnil, or_self, if_false] at hb
    cases hb
    rfl

/-- One more segment in a block. -/
theorem Keeps.step {longer : Capture} {s : Segment} {m : Mark} (h : c.Keeps ls)
    (hmark : s.terminator = some m) (hstep : c.step s.text m = .more longer)
    (hs : Condenses ls' s.text) : longer.Keeps (ls ++ ls' ++ [.mark m]) := by
  obtain ⟨hvisible, hname, hsign⟩ := m.char_plain
  have hjoin : Text.join [' '] longer.parts =
      Text.join [' '] c.parts ++ (lead c.parts ++ s.text) ++ (markLead m s.text ++ [m.char]) := by
    rw [join_step hmark hstep h.parts, written_eq hmark]
    simp
  have hlead := hs.lead c.parts
  have hrespaced := h.append_respaced hlead
  have hneighbours := h.append_neighbours hlead (lead_seam c.parts s.text)
  have hbare (more : Text) : Text.references (Lexeme.bare (ls ++ ls' ++ [.mark m]) ++ more) =
      (Lexeme.bare ls).references ++ ((Lexeme.bare ls').references ++ more.references) := by
    have hstops : ∀ d ∈ List.head? (m.char :: more), isNameChar d = false := by simpa using hname
    rw [Lexeme.bare_append, Lexeme.bare_mark, List.append_assoc, List.singleton_append,
      (h.append_references hlead hstops).2, Text.references_cons hsign]
  have hall : (Lexeme.bare (ls ++ ls' ++ [.mark m])).references =
      (Lexeme.bare ls).references ++ (Lexeme.bare ls').references := by
    simpa [Text.references] using hbare []
  refine ⟨(spread_step hmark hstep h.parts).1, ?_, ?_, fun more => ?_, fun more => ?_⟩
  · rw [hjoin, Lexeme.allPieces_append]
    refine hrespaced.append ?_
    unfold markLead
    split
    · exact .char hvisible .nil
    · exact .space (.char hvisible .nil)
  · rw [hjoin, Lexeme.bare_append, Lexeme.bare_mark]
    by_cases hsemi : m = .semicolon
    · subst hsemi
      have hends : EndsStatement (ls ++ ls' ++ [.mark .semicolon]) (Lexeme.bare (ls ++ ls')) :=
        ⟨ls ++ ls', [], rfl, rfl⟩
      exact hneighbours.concat hrespaced.visible_eq (fun front hfront => hfront.append _) hends _
    · have hbrace : Neighbours (fun _ => False) [m.char] (markLead m s.text ++ [m.char]) :=
        .of_words_eq (Text.words_blanks_append isBlank_of_mem_markLead _)
      exact hneighbours.append hbrace hrespaced.visible_eq (fun front hfront => hfront.append _)
        (fun front hfront => hfront.elim) (markLead_seam hsemi c.parts s.text)
  · have hstops : ∀ d ∈ (markLead m s.text ++ m.char :: more).head?, isNameChar d = false := by
      unfold markLead
      split
      · simpa using hname
      · simp [isNameChar, isLetter, isDigit]
    have htext := (h.append_references hlead hstops).1
    rw [Text.references_blanks_append isBlank_of_mem_markLead, Text.references_cons hsign] at htext
    rw [hjoin, hall, List.append_assoc (Lexeme.bare ls).references, ← htext]
    simp
  · rw [hbare, hall, List.append_assoc]

/-- The segment that closes a block. -/
theorem Keeps.done {s : Segment} {m : Mark} {body : Text} (h : c.Keeps ls)
    (hstep : c.step s.text m = .done body) (hs : Condenses ls' s.text) :
    m = .closeBrace ∧ Respaced (Lexeme.allPieces (ls ++ ls')) body ∧
      Neighbours (EndsStatement (ls ++ ls')) (Lexeme.bare (ls ++ ls')) body ∧
      body.references = (Lexeme.bare (ls ++ ls')).references := by
  obtain ⟨hclose, hbody⟩ := join_done hstep
  have hlast : ∃ last, body = Text.join [' '] c.parts ++ last ∧ Condenses ls' last ∧
      (c.parts = [] ∨ ∀ b ∈ last.head?, isBlank b = true) := by
    by_cases hnil : s.text = []
    · refine ⟨[], by simpa [hnil] using hbody, hnil ▸ hs, .inr ?_⟩
      simp
    · exact ⟨_, by simpa [hnil] using hbody, hs.lead c.parts, lead_seam c.parts s.text⟩
  obtain ⟨last, rfl, hcondenses, hseam⟩ := hlast
  refine ⟨hclose, h.append_respaced hcondenses, h.append_neighbours hcondenses hseam, ?_⟩
  have hnone : ∀ d ∈ List.head? [], isNameChar d = false := by simp
  obtain ⟨htext, hbare⟩ := h.append_references hcondenses hnone
  rw [List.append_nil] at htext hbare
  rw [htext, hbare]

end Capture

namespace Cursor

theorem captureFrom_keeps {c : Cursor} {opened : Position} {capture : Capture} {body : Text}
    {ls : List Lexeme} (h : (c.captureFrom opened capture).outcome = .ok body)
    (hkeeps : capture.Keeps ls) :
    ∃ ls', Lexed 0 c.rest (ls' ++ [.mark .closeBrace]) (c.captureFrom opened capture).cursor.rest ∧
      Respaced (Lexeme.allPieces (ls ++ ls')) body ∧
      Neighbours (EndsStatement (ls ++ ls')) (Lexeme.bare (ls ++ ls')) body ∧
      body.references = (Lexeme.bare (ls ++ ls')).references := by
  fun_induction captureFrom opened capture c generalizing ls with
  | case1 => cases h
  | case2 => cases h
  | case3 capture c s hs m hm body' hstep =>
      cases h
      obtain ⟨ls', hlexed, hcondenses⟩ := next_condenses hs
      obtain ⟨rfl, hdone⟩ := hkeeps.done hstep hcondenses
      rw [hm] at hlexed
      exact ⟨ls', hlexed, hdone⟩
  | case4 capture c s hs m hm longer hstep ih =>
      obtain ⟨ls', hlexed, hcondenses⟩ := next_condenses hs
      obtain ⟨more, hmore, hbody⟩ := ih h (hkeeps.step hm hstep hcondenses)
      rw [hm] at hlexed
      refine ⟨ls' ++ .mark m :: more, ?_, ?_⟩
      · rw [List.append_assoc, List.cons_append]
        exact hlexed.append_mark hmore
      · simpa using hbody

/-- A cursor reads lexemes up to another cursor. They are the source between the two, and blanks in
place of comments move none of its characters. -/
structure Consumes (c : Cursor) (ls : List Lexeme) (c' : Cursor) : Prop where
  lexed : Lexed 0 c.rest ls c'.rest
  source : c.rest = ls.flatMap Lexeme.source ++ c'.rest
  bare : List.Forall₂ (fun a b => b = a ∨ isBlank b = true) (ls.flatMap Lexeme.source)
    (Lexeme.bare ls)

theorem consumes_of_lexed {c c' : Cursor} {ls : List Lexeme} (h : Lexed 0 c.rest ls c'.rest) :
    c.Consumes ls c' :=
  ⟨h, h.source_eq, Lexeme.forall₂_bare ls⟩

/-- Scanning loses nothing and joins nothing. Without comments and blanks, what a segment was read
from is its text with its mark behind it, strings as they stand, and characters side by side in the
text stood so in the source. The same holds of the body of a block with its closing brace, except that
this brace, and every semicolon that ends a statement in the block, is moved up to the character
before it. The body has the references of the block. -/
theorem nothing_lost_nothing_joined (c : Cursor) :
    (∀ s, c.next.outcome = .ok s →
      ∃ ls, c.Consumes (ls ++ s.terminator.toList.map .mark) c.next.cursor ∧
        Respaced (Lexeme.allPieces ls) s.text ∧
        (Lexeme.bare (ls ++ s.terminator.toList.map .mark)).visible =
          s.text.visible ++ s.terminator.toList.map Mark.char ∧
        Neighbours (fun _ => False) (Lexeme.bare ls) s.text) ∧
    ∀ opened body, (c.capture opened).outcome = .ok body →
      ∃ ls, c.Consumes (ls ++ [.mark .closeBrace]) (c.capture opened).cursor ∧
        Respaced (Lexeme.allPieces ls) body ∧
        (Lexeme.bare (ls ++ [.mark .closeBrace])).visible = body.visible ++ ['}'] ∧
        Neighbours (fun front => front = Lexeme.bare ls ∨ EndsStatement ls front)
          (Lexeme.bare (ls ++ [.mark .closeBrace])) (body ++ ['}']) ∧
        body.references = (Lexeme.bare ls).references := by
  refine ⟨fun s hs => ?_, fun opened body hbody => ?_⟩
  · obtain ⟨ls, hlexed, hrespaced, hwords⟩ := next_condenses hs
    refine ⟨ls, consumes_of_lexed hlexed, hrespaced, ?_, .of_words_eq hwords⟩
    rw [Lexeme.bare_append, Text.visible_append, ← hrespaced.visible_eq]
    cases s.terminator with
    | none => rfl
    | some m => cases m <;> rfl
  · obtain ⟨ls, hlexed, hrespaced, hneighbours, hreferences⟩ :=
      captureFrom_keeps hbody Capture.keeps_empty
    rw [List.nil_append] at hrespaced hneighbours hreferences
    refine ⟨ls, consumes_of_lexed hlexed, hrespaced, ?_, ?_, hreferences⟩
    · rw [Lexeme.bare_append, Text.visible_append, ← hrespaced.visible_eq]
      rfl
    · rw [Lexeme.bare_append, Lexeme.bare_mark]
      exact hneighbours.concat hrespaced.visible_eq (fun _ hends => .inr hends) (.inl rfl) _

/-- A block with comments between the characters of a value, behind a reference and before a mark. -/
def spaced : Text :=
  "$a/*k*/b \"x  y\" /**/; c \x7b $d \x7d //\n\x7d".toList

theorem nothing_lost_nothing_joined_spaced :
    (∃ ls, (start spaced).Consumes (ls ++ [.mark .semicolon]) (start spaced).next.cursor ∧
      Respaced (Lexeme.allPieces ls) "$a b \"x  y\"".toList ∧
      (Lexeme.bare (ls ++ [.mark .semicolon])).visible =
        Text.visible "$a b \"x  y\"".toList ++ [';'] ∧
      Neighbours (fun _ => False) (Lexeme.bare ls) "$a b \"x  y\"".toList) ∧
    ∃ ls, (start spaced).Consumes (ls ++ [.mark .closeBrace])
        ((start spaced).capture .start).cursor ∧
      (Lexeme.bare ls).references = ["a".toList, "d".toList] := by
  have hsegment : (start spaced).next.outcome =
      .ok ⟨"$a b \"x  y\"".toList, ⟨1, 0⟩, some .semicolon, ⟨1, 20⟩⟩ := by
    decide +kernel
  have hbody : ((start spaced).capture .start).outcome =
      .ok "$a b \"x  y\"; c \x7b $d \x7d".toList := by
    decide +kernel
  obtain ⟨hnext, hcapture⟩ := nothing_lost_nothing_joined (start spaced)
  obtain ⟨ls, hconsumes, _, _, _, hreferences⟩ := hcapture .start _ hbody
  exact ⟨hnext _ hsegment, ls, hconsumes, hreferences.symm.trans (by decide +kernel)⟩

/-- A semicolon and the closing brace stand behind blanks in the block and not in its body. -/
theorem capture_moves_marks :
    ((start "a ; b \x7d".toList).capture .start).outcome = .ok "a; b".toList ∧
      ['a', ';'] <:+: "a; b".toList ++ ['}'] ∧ ¬ ['a', ';'] <:+: "a ; b \x7d".toList ∧
      ['b', '}'] <:+: "a; b".toList ++ ['}'] ∧ ¬ ['b', '}'] <:+: "a ; b \x7d".toList := by
  decide +kernel

end Cursor

end Stylesheet
