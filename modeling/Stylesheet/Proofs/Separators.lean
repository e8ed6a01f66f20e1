import Stylesheet.Proofs.ArgumentLists
import Stylesheet.Proofs.Cuts

/-! Pieces between commas.

A text comes apart at the commas before which nothing is open. What is open there does not depend on
the pieces before it: behind a comma that separates, a text is read as from its start
(`Nesting.Fresh`). So the pieces of a text are told without reading it from the left
(`Text.Separated`): each has visible ends and no comma in it separates, all but the last leave
nothing open, and only commas and blanks stand around them. Nothing more of a text is needed to find
its pieces again, and pieces that are put together with commas are found as they are. -/

namespace Stylesheet

namespace Nesting

/-! ### What is open -/

/-- Nothing is open. -/
structure Neutral (n : Nesting) : Prop where
  depth : n.depth = 0
  quote : n.quote = none

/-- Nothing is open, and the next character is not read together with the last one. -/
structure Fresh (n : Nesting) : Prop extends Neutral n where
  last : n.last ≠ '#'

/-- Only a quote is open as a quote. -/
def Valid (n : Nesting) : Prop :=
  ∀ q ∈ n.quote, quotes q = true

theorem fresh_start : Fresh start :=
  ⟨⟨rfl, rfl⟩, by decide⟩

theorem valid_start : Valid start := by
  intro q hq
  cases hq

theorem fresh_of_last {c : Char} (h : c ≠ '#') : Fresh ⟨0, none, c⟩ :=
  ⟨⟨rfl, rfl⟩, h⟩

theorem ne_of_isBlank {c d : Char} (hc : isBlank c = true) (hd : isBlank d = false) : c ≠ d := by
  rintro rfl
  rw [hc] at hd
  cases hd

variable {n : Nesting} {c separator : Char}

theorem Fresh.opens (h : n.Fresh) (c : Char) : n.opens c = start.opens c := by
  have hlast : (n.last == '#') = false := beq_eq_false_iff_ne.2 h.last
  simp [Nesting.opens, start, hlast]

theorem Fresh.next (h : n.Fresh) (c : Char) : n.next c = start.next c := by
  simp [Nesting.next, h.quote, h.depth, h.opens, start]

theorem Fresh.separates (h : n.Fresh) (c : Char) :
    n.separates separator c = start.separates separator c := by
  simp [Nesting.separates, h.quote, h.depth, h.opens, start]

theorem valid_next (h : n.Valid) (c : Char) : (n.next c).Valid := by
  unfold Nesting.next
  split
  · next q hq =>
    intro q' hq'
    split at hq'
    · cases hq'
    · obtain rfl := Option.mem_some.1 hq'
      exact h q hq
  · split
    · next hc =>
      intro q hq
      obtain rfl := Option.mem_some.1 hq
      exact hc
    · split
      · exact fun _ hq => by cases hq
      · split
        · exact fun _ hq => by cases hq
        · exact fun _ hq => by cases hq

theorem Neutral.separates (h : n.Neutral) : n.separates ',' ',' = true := by
  simp [Nesting.separates, h.quote, h.depth, quotes, opens, closes]

theorem Neutral.next_comma (h : n.Neutral) : n.next ',' = ⟨0, none, ','⟩ := by
  simp [Nesting.next, h.quote, h.depth, quotes, opens, closes]

theorem neutral_of_separates (h : n.separates ',' c = true) : n.Neutral ∧ c = ',' := by
  simp only [Nesting.separates, Bool.and_eq_true, beq_iff_eq, Option.isNone_iff_eq_none] at h
  exact ⟨⟨h.1.1.1.1.2, h.1.1.1.1.1⟩, h.1.1.1.2⟩

/-- A blank leaves open what is open. -/
theorem next_blank (hn : n.Valid) (hc : isBlank c = true) : n.next c = ⟨n.depth, n.quote, c⟩ := by
  have hquotes : quotes c = false := by
    simp [quotes, ne_of_isBlank hc (d := '"') rfl, ne_of_isBlank hc (d := '\'') rfl]
  have hopens : n.opens c = false := by
    simp [opens, ne_of_isBlank hc (d := '(') rfl, ne_of_isBlank hc (d := '[') rfl,
      ne_of_isBlank hc (d := '{') rfl]
  have hcloses : closes c = false := by
    simp [closes, ne_of_isBlank hc (d := ')') rfl, ne_of_isBlank hc (d := ']') rfl,
      ne_of_isBlank hc (d := '}') rfl]
  cases hquote : n.quote with
  | none => simp [Nesting.next, hquote, hquotes, hopens, hcloses]
  | some q =>
      have hne : c ≠ q := by
        rintro rfl
        rw [hn c hquote] at hquotes
        cases hquotes
      simp [Nesting.next, hquote, hne]

/-! ### Texts in which nothing separates -/

variable {n' n'' : Nesting} {s t : Text}

theorem Crosses.valid (h : Crosses separator n t n') (hn : n.Valid) : n'.Valid := by
  induction h with
  | nil => exact hn
  | cons _ _ ih => exact ih (valid_next hn _)

theorem crosses_append_iff :
    Crosses separator n (s ++ t) n'' ↔
      ∃ n', Crosses separator n s n' ∧ Crosses separator n' t n'' := by
  refine ⟨fun h => ?_, fun ⟨_, hs, ht⟩ => hs.append ht⟩
  induction s generalizing n with
  | nil => exact ⟨n, .nil n, h⟩
  | cons c s ih =>
      cases h with
      | cons hc h =>
          obtain ⟨n', hs, ht⟩ := ih h
          exact ⟨n', .cons hc hs, ht⟩

theorem Crosses.unique (h' : Crosses separator n t n') (h'' : Crosses separator n t n'') :
    n' = n'' := by
  induction h' with
  | nil => cases h''; rfl
  | cons _ _ ih =>
      cases h'' with
      | cons _ h'' => exact ih h''

/-- What a text leaves open is the same from every fresh place. -/
theorem Crosses.of_fresh (h : Crosses separator n t n') (hn : n.Fresh) (hne : t ≠ []) :
    Crosses separator start t n' := by
  cases h with
  | nil => exact absurd rfl hne
  | cons hc h =>
      rw [hn.separates] at hc
      rw [hn.next] at h
      exact .cons hc h

/-- Blanks leave open what is open. -/
theorem crosses_blanks (hn : n.Valid) (ht : Text.Blanks t) :
    ∃ n', Crosses ',' n t n' ∧ n'.depth = n.depth ∧ n'.quote = n.quote ∧ (n.Fresh → n'.Fresh) := by
  induction t generalizing n with
  | nil => exact ⟨n, .nil n, rfl, rfl, id⟩
  | cons c t ih =>
      obtain ⟨hc, ht⟩ := List.forall_mem_cons.1 ht
      have hnext := next_blank hn hc
      obtain ⟨n', hcross, hdepth, hquote, hfresh⟩ := ih (valid_next hn c) ht
      rw [hnext] at hdepth hquote hfresh
      have hsep : n.separates ',' c = false := by
        simp [Nesting.separates, ne_of_isBlank hc (d := ',') rfl]
      refine ⟨n', .cons hsep hcross, hdepth, hquote, fun h => hfresh ⟨⟨h.depth, h.quote⟩, ?_⟩⟩
      exact ne_of_isBlank hc rfl

/-- The first comma that separates. -/
theorem exists_crosses (n : Nesting) (t : Text) :
    (∃ n', Crosses ',' n t n') ∨
      ∃ s rest n', t = s ++ ',' :: rest ∧ Crosses ',' n s n' ∧ n'.Neutral := by
  induction t generalizing n with
  | nil => exact .inl ⟨n, .nil n⟩
  | cons c t ih =>
      cases hc : n.separates ',' c with
      | true =>
          obtain ⟨hneutral, rfl⟩ := neutral_of_separates hc
          exact .inr ⟨[], t, n, rfl, .nil n, hneutral⟩
      | false =>
          rcases ih (n.next c) with ⟨n', h⟩ | ⟨s, rest, n', rfl, h, hneutral⟩
          · exact .inl ⟨n', .cons hc h⟩
          · exact .inr ⟨c :: s, rest, n', rfl, .cons hc h, hneutral⟩

end Nesting

namespace Text

/-! ### Pieces and what stands between them -/

/-- A text of commas and blanks only. -/
def IsGap (t : Text) : Prop :=
  ∀ c ∈ t, c = ',' ∨ isBlank c = true

/-- A text with something in it and with no blank at its ends. -/
structure IsPiece (t : Text) : Prop where
  nonempty : t ≠ []
  start : ∀ c ∈ t.head?, isBlank c = false
  last : ∀ c ∈ t.getLast?, isBlank c = false

/-- Parts that stand in a text one after another, where what is left of the text are commas and
blanks. -/
inductive Scattered : List Text → Text → Prop
  | nil {gap : Text} (hgap : IsGap gap) : Scattered [] gap
  | cons {gap part rest : Text} {parts : List Text} (hgap : IsGap gap)
      (h : Scattered parts rest) : Scattered (part :: parts) (gap ++ (part ++ rest))

/-- The pieces of a text. The last one may leave something open, and then all of the text behind it
would belong to it; each of the others leaves nothing open and stands before a comma. -/
inductive Separated : List Text → Text → Prop
  | nil {gap : Text} (hgap : IsGap gap) : Separated [] gap
  | last {gap part blanks : Text} {n : Nesting} (hgap : IsGap gap) (hpart : IsPiece part)
      (hcross : Nesting.Crosses ',' .start part n) (hblanks : Blanks blanks) :
      Separated [part] (gap ++ (part ++ blanks))
  | cons {gap part blanks rest : Text} {parts : List Text} {n : Nesting} (hgap : IsGap gap)
      (hpart : IsPiece part) (hcross : Nesting.Crosses ',' .start part n) (hneutral : n.Neutral)
      (hblanks : Blanks blanks) (h : Separated parts rest) :
      Separated (part :: parts) (gap ++ (part ++ (blanks ++ ',' :: rest)))

theorem isGap_append {s t : Text} (hs : IsGap s) (ht : IsGap t) : IsGap (s ++ t) := by
  intro c hc
  exact (List.mem_append.1 hc).elim (hs c) (ht c)

theorem blanks_nil : Blanks [] :=
  fun _ hmem => by cases hmem

theorem Blanks.isGap {t : Text} (h : Blanks t) : IsGap t :=
  fun c hc => .inr (h c hc)

theorem isGap_comma : IsGap [','] := by
  intro c hc
  exact .inl (List.mem_singleton.1 hc)

theorem IsPiece.trim {t : Text} (h : IsPiece t) : t.trim = t := by
  obtain ⟨c, hc⟩ := Option.isSome_iff_exists.1 (List.isSome_head?.2 h.nonempty)
  obtain ⟨d, hd⟩ := Option.isSome_iff_exists.1 (List.getLast?_isSome.2 h.nonempty)
  exact trim_of_ends hc (h.start c hc) hd (h.last d hd)

theorem isPiece_trim {t : Text} (h : t.trim ≠ []) : IsPiece t.trim where
  nonempty := h
  start := by
    intro c hc
    rw [← trimStart_trimEnd] at hc
    exact head?_dropWhile hc
  last := by
    intro c hc
    rw [trim, trimEnd, List.getLast?_reverse] at hc
    exact head?_dropWhile hc

theorem Scattered.gap_append {gap t : Text} {parts : List Text} (hgap : IsGap gap)
    (h : Scattered parts t) : Scattered parts (gap ++ t) := by
  cases h with
  | nil h => exact .nil (isGap_append hgap h)
  | cons hgap' h =>
      rw [← List.append_assoc]
      exact .cons (isGap_append hgap hgap') h

theorem Separated.gap_append {gap t : Text} {parts : List Text} (hgap : IsGap gap)
    (h : Separated parts t) : Separated parts (gap ++ t) := by
  cases h with
  | nil h => exact .nil (isGap_append hgap h)
  | last hgap' hpart hcross hblanks =>
      rw [← List.append_assoc]
      exact .last (isGap_append hgap hgap') hpart hcross hblanks
  | cons hgap' hpart hcross hneutral hblanks h =>
      rw [← List.append_assoc]
      exact .cons (isGap_append hgap hgap') hpart hcross hneutral hblanks h

theorem Separated.isPiece {t : Text} {parts : List Text} (h : Separated parts t) :
    ∀ part ∈ parts, IsPiece part := by
  induction h with
  | nil => exact fun _ hmem => by cases hmem
  | last _ hpart => exact List.forall_mem_singleton.2 hpart
  | cons _ hpart _ _ _ _ ih => exact List.forall_mem_cons.2 ⟨hpart, ih⟩

theorem Separated.scattered {t : Text} {parts : List Text} (h : Separated parts t) :
    Scattered parts t := by
  induction h with
  | nil hgap => exact .nil hgap
  | last hgap _ _ hblanks => exact .cons hgap (.nil hblanks.isGap)
  | cons hgap _ _ _ hblanks _ ih =>
      rw [List.append_cons]
      exact .cons hgap (ih.gap_append (isGap_append hblanks.isGap isGap_comma))

theorem join_singleton (between part : Text) : join between [part] = part := by
  simp [join]

theorem separated_singleton {part : Text} {n : Nesting} (hpart : IsPiece part)
    (hcross : Nesting.Crosses ',' .start part n) : Separated [part] part := by
  have hlast := Separated.last blanks_nil.isGap hpart hcross blanks_nil
  rwa [List.append_nil] at hlast

/-- Pieces put together with commas, and with blanks behind them, are the pieces of the whole. -/
theorem Separated.join {t blanks : Text} {parts : List Text} (hblanks : Blanks blanks)
    (h : Separated parts t) : Separated parts (join (',' :: blanks) parts) := by
  induction h with
  | nil => exact .nil blanks_nil.isGap
  | last _ hpart hcross =>
      rw [join_singleton]
      exact separated_singleton hpart hcross
  | @cons _ _ _ _ parts _ _ hpart hcross hneutral _ _ ih =>
      cases parts with
      | nil =>
          rw [join_singleton]
          exact separated_singleton hpart hcross
      | cons next parts =>
          rw [join_cons_cons]
          exact .cons blanks_nil.isGap hpart hcross hneutral blanks_nil
            (ih.gap_append hblanks.isGap)

/-! ### Pieces are found -/

theorem pieces_of_fresh {separator : Char} {n : Nesting} (h : n.Fresh) (t : Text) :
    pieces separator n t = pieces separator .start t := by
  cases t with
  | nil => rfl
  | cons c t => rw [pieces, pieces, h.next, h.separates]

theorem splitTopLevel_gap_append {gap : Text} (h : IsGap gap) (t : Text) :
    splitTopLevel ',' (gap ++ t) = splitTopLevel ',' t := by
  induction gap with
  | nil => rfl
  | cons c gap ih =>
      obtain ⟨hc, hgap⟩ := List.forall_mem_cons.1 h
      rw [List.cons_append, ← ih hgap]
      rcases hc with rfl | hc
      · have hcut : pieces ',' .start (',' :: (gap ++ t)) =
            [] :: pieces ',' ⟨0, none, ','⟩ (gap ++ t) := rfl
        rw [splitTopLevel, hcut, pieces_of_fresh (Nesting.fresh_of_last (by decide))]
        rfl
      · have hblank : Blanks [c] := List.forall_mem_singleton.2 hc
        obtain ⟨n, hcross, _, _, hfresh⟩ := Nesting.crosses_blanks Nesting.valid_start hblank
        obtain ⟨piece, others, hrest, hpieces⟩ := pieces_append hcross (gap ++ t)
        rw [pieces_of_fresh (hfresh Nesting.fresh_start)] at hrest
        rw [splitTopLevel, ← List.singleton_append, hpieces, splitTopLevel, hrest, List.map_cons,
          List.map_cons, trim_blanks_append hblank]

/-- A piece is found before a text that does not go on with it. -/
theorem splitTopLevel_piece_append {part blanks t : Text} {n : Nesting} {others : List Text}
    (hpart : IsPiece part) (hcross : Nesting.Crosses ',' .start part n) (hblanks : Blanks blanks)
    (h : ∀ n', n'.depth = n.depth → n'.quote = n.quote → pieces ',' n' t = [] :: others) :
    splitTopLevel ',' (part ++ (blanks ++ t)) =
      part :: (others.map trim).filter (!·.isEmpty) := by
  obtain ⟨n', hgap, hdepth, hquote, _⟩ :=
    Nesting.crosses_blanks (hcross.valid Nesting.valid_start) hblanks
  obtain ⟨piece, others', hrest, hpieces⟩ := pieces_append (hcross.append hgap) t
  rw [h n' hdepth hquote] at hrest
  obtain ⟨rfl, rfl⟩ := List.cons.inj hrest
  rw [splitTopLevel, ← List.append_assoc, hpieces, List.append_nil, List.map_cons,
    trim_append_blanks hblanks, hpart.trim, List.filter_cons_of_pos]
  simpa using hpart.nonempty

theorem splitTopLevel_of_separated {t : Text} {parts : List Text} (h : Separated parts t) :
    splitTopLevel ',' t = parts := by
  induction h with
  | nil hgap =>
      have hnone := splitTopLevel_gap_append hgap []
      rwa [List.append_nil] at hnone
  | last hgap hpart hcross hblanks =>
      have hfound := splitTopLevel_piece_append (t := []) hpart hcross hblanks fun _ _ _ => rfl
      rw [List.append_nil] at hfound
      rw [splitTopLevel_gap_append hgap, hfound]
      rfl
  | @cons _ _ _ rest _ n hgap hpart hcross hneutral hblanks _ ih =>
      have hcut (n' : Nesting) (hdepth : n'.depth = n.depth) (hquote : n'.quote = n.quote) :
          pieces ',' n' (',' :: rest) = [] :: pieces ',' .start rest := by
        have hn' : n'.Neutral := ⟨hdepth.trans hneutral.depth, hquote.trans hneutral.quote⟩
        rw [pieces, hn'.separates, hn'.next_comma,
          pieces_of_fresh (Nesting.fresh_of_last (by decide))]
        rfl
      rw [splitTopLevel_gap_append hgap, splitTopLevel_piece_append hpart hcross hblanks hcut]
      rw [splitTopLevel] at ih
      rw [ih]

/-- Between the blanks around it, a text in which nothing separates leaves open what it leaves open
as a whole. -/
theorem exists_piece {t : Text} {n : Nesting} (hcross : Nesting.Crosses ',' .start t n)
    (hne : t.trim ≠ []) :
    ∃ before after n', t = before ++ (t.trim ++ after) ∧ Blanks before ∧ Blanks after ∧
      Nesting.Crosses ',' .start t.trim n' ∧ (n.Neutral → n'.Neutral) := by
  obtain ⟨before, after, hsplit, hbefore, hafter⟩ := exists_trim t
  generalize t.trim = part at hsplit hne ⊢
  subst hsplit
  obtain ⟨first, hfirst, hrest⟩ := Nesting.crosses_append_iff.1 hcross
  obtain ⟨n', hpart, hlast⟩ := Nesting.crosses_append_iff.1 hrest
  have hfresh : first.Fresh := by
    obtain ⟨_, hbefore', _, _, hfresh⟩ := Nesting.crosses_blanks Nesting.valid_start hbefore
    obtain rfl := hbefore'.unique hfirst
    exact hfresh Nesting.fresh_start
  have hpart' := hpart.of_fresh hfresh hne
  refine ⟨before, after, n', rfl, hbefore, hafter, hpart', fun hneutral => ?_⟩
  obtain ⟨_, hafter', hdepth, hquote, _⟩ :=
    Nesting.crosses_blanks (hpart'.valid Nesting.valid_start) hafter
  obtain rfl := hafter'.unique hlast
  exact ⟨hdepth.symm.trans hneutral.depth, hquote.symm.trans hneutral.quote⟩

/-- Every text has pieces: it is cut at its first comma that separates, and what follows it has
pieces. -/
theorem exists_separated (t : Text) : ∃ parts, Separated parts t := by
  induction hlength : t.length using Nat.strong_induction_on generalizing t with
  | _ length ih =>
    subst hlength
    rcases Nesting.exists_crosses .start t with ⟨n, hcross⟩ | ⟨s, rest, n, rfl, hcross, hneutral⟩
    · cases hblank : t.blank with
      | true => exact ⟨[], .nil (Blanks.isGap (List.all_eq_true.1 hblank))⟩
      | false =>
          have hne := trim_ne_nil hblank
          obtain ⟨before, after, n', hsplit, hbefore, hafter, hcross', _⟩ := exists_piece hcross hne
          have hlast := Separated.last hbefore.isGap (isPiece_trim hne) hcross' hafter
          rw [← hsplit] at hlast
          exact ⟨[t.trim], hlast⟩
    · have hshorter : rest.length < (s ++ ',' :: rest).length := by
        rw [List.length_append, List.length_cons]
        omega
      obtain ⟨parts, hparts⟩ := ih rest.length hshorter rest rfl
      cases hblank : s.blank with
      | true =>
          have hgap : IsGap (s ++ [',']) :=
            isGap_append (Blanks.isGap (List.all_eq_true.1 hblank)) isGap_comma
          rw [List.append_cons]
          exact ⟨parts, hparts.gap_append hgap⟩
      | false =>
          have hne := trim_ne_nil hblank
          obtain ⟨before, after, n', hsplit, hbefore, hafter, hcross', hneutral'⟩ :=
            exists_piece hcross hne
          have hcons := Separated.cons hbefore.isGap (isPiece_trim hne) hcross'
            (hneutral' hneutral) hafter hparts
          rw [← List.append_assoc s.trim, ← List.append_assoc, ← hsplit] at hcons
          exact ⟨s.trim :: parts, hcons⟩

theorem splitTopLevel_eq_iff {t : Text} {parts : List Text} :
    splitTopLevel ',' t = parts ↔ Separated parts t := by
  refine ⟨?_, splitTopLevel_of_separated⟩
  rintro rfl
  obtain ⟨parts, hparts⟩ := exists_separated t
  rwa [splitTopLevel_of_separated hparts]

/-- Taking a text apart at its commas. The pieces have visible ends, nothing but commas and blanks
is left of the text around them, and they are its pieces exactly. Put together again with commas, or
with commas and spaces, they come apart in the same way. -/
theorem splitTopLevel_lossless (t : Text) :
    (∀ part ∈ splitTopLevel ',' t, IsPiece part) ∧
      Scattered (splitTopLevel ',' t) t ∧
      (∀ parts, splitTopLevel ',' t = parts ↔ Separated parts t) ∧
      splitTopLevel ',' (join [','] (splitTopLevel ',' t)) = splitTopLevel ',' t ∧
      splitTopLevel ',' (join [',', ' '] (splitTopLevel ',' t)) = splitTopLevel ',' t := by
  have hparts : Separated (splitTopLevel ',' t) t := splitTopLevel_eq_iff.1 rfl
  have hspace : Blanks [' '] := by decide
  exact ⟨hparts.isPiece, hparts.scattered, fun _ => splitTopLevel_eq_iff,
    splitTopLevel_of_separated (hparts.join blanks_nil),
    splitTopLevel_of_separated (hparts.join hspace)⟩

end Text

end Stylesheet
