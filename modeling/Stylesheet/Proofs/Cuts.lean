import Stylesheet.Lists
import Stylesheet.Proofs.Words

/-! Where a text is cut.

A text is cut behind a word it starts with, before a word it ends with, at the first or the last
place where a character stands, behind a run of characters of one kind, and between the blanks
around it and the rest. Every cut is told by its two sides: they make up the text again, and the
side on which the search went has no other place for the cut. A cut may also be given by the bytes
in front of it. -/

namespace Stylesheet

namespace Text

/-! ### Words at the ends and inside -/

theorem after?_eq_some_iff {lead t rest : Text} : after? lead t = some rest ↔ t = lead ++ rest := by
  rw [after?, List.isPrefixOf?_eq_some_iff_append_eq, eq_comm]

theorem after?_append (lead rest : Text) : after? lead (lead ++ rest) = some rest :=
  after?_eq_some_iff.2 rfl

theorem before?_eq_some_iff {last t rest : Text} :
    before? last t = some rest ↔ t = rest ++ last := by
  rw [before?, Option.map_eq_some_iff]
  constructor
  · rintro ⟨back, hback, rfl⟩
    rw [after?_eq_some_iff] at hback
    rw [← List.reverse_reverse t, hback, List.reverse_append, List.reverse_reverse]
  · rintro rfl
    refine ⟨rest.reverse, ?_, List.reverse_reverse rest⟩
    rw [List.reverse_append, after?_append]

theorem before?_append (rest last : Text) : before? last (rest ++ last) = some rest :=
  before?_eq_some_iff.2 rfl

theorem before?_eq_none_iff {last t : Text} : before? last t = none ↔ ¬last <:+ t := by
  rw [Option.eq_none_iff_forall_not_mem]
  constructor
  · rintro h ⟨rest, rfl⟩
    exact h rest (before?_append rest last)
  · rintro h rest hrest
    exact h ⟨rest, (before?_eq_some_iff.1 hrest).symm⟩

theorem withoutEndings_of_not_suffix {last t : Text} (h : ¬last <:+ t) :
    withoutEndings last t = t := by
  rw [withoutEndings, before?_eq_none_iff.2 h]

theorem withoutEndings_append {last : Text} (hne : last ≠ []) (t : Text) :
    withoutEndings last (t ++ last) = withoutEndings last t := by
  have hshorter : t.length < (t ++ last).length := by
    have hpos := List.length_pos_iff.2 hne
    rw [List.length_append]
    omega
  rw [withoutEndings, before?_append]
  exact if_pos hshorter

theorem isSome_afterFirst?_iff {part t : Text} :
    (afterFirst? part t).isSome = true ↔ part <:+: t := by
  constructor
  · intro h
    obtain ⟨rest, hrest⟩ := Option.isSome_iff_exists.1 h
    obtain ⟨lead, rfl, _⟩ := afterFirst?_eq_some hrest
    exact ⟨lead, rest, by simp⟩
  · intro h
    induction t with
    | nil =>
        obtain rfl := List.infix_nil.1 h
        rfl
    | cons c t ih =>
        rw [afterFirst?, Option.isSome_or, Bool.or_eq_true]
        rcases List.infix_cons_iff.1 h with ⟨rest, hrest⟩ | hlater
        · left
          rw [after?_eq_some_iff.2 hrest.symm]
          rfl
        · exact .inr (ih hlater)

/-! ### The first and the last place of a character -/

theorem splitFirst?_append {mark : Char} {before : Text} (h : mark ∉ before) (after : Text) :
    splitFirst? mark (before ++ mark :: after) = some (before, after) := by
  induction before with
  | nil => simp [splitFirst?]
  | cons c before ih =>
      rw [List.mem_cons, not_or] at h
      rw [List.cons_append, splitFirst?, if_neg (Ne.symm h.1), ih h.2]
      rfl

theorem splitFirst?_of_not_mem {mark : Char} {t : Text} (h : mark ∉ t) :
    splitFirst? mark t = none := by
  induction t with
  | nil => rfl
  | cons c t ih =>
      rw [List.mem_cons, not_or] at h
      rw [splitFirst?, if_neg (Ne.symm h.1), ih h.2]
      rfl

theorem splitLast?_append {mark : Char} {after : Text} (h : mark ∉ after) (before : Text) :
    splitLast? mark (before ++ mark :: after) = some (before, after) := by
  have hreverse : mark ∉ after.reverse := by simpa using h
  have hcut := splitFirst?_append hreverse before.reverse
  rw [splitLast?, List.reverse_append, List.reverse_cons, List.append_assoc, List.singleton_append,
    hcut]
  simp

theorem splitLast?_of_not_mem {mark : Char} {t : Text} (h : mark ∉ t) :
    splitLast? mark t = none := by
  rw [splitLast?, splitFirst?_of_not_mem (by simpa using h)]
  rfl

theorem splitLast?_cases (mark : Char) (t : Text) :
    mark ∉ t ∧ splitLast? mark t = none ∨
      ∃ before after, mark ∉ after ∧ t = before ++ mark :: after ∧
        splitLast? mark t = some (before, after) := by
  by_cases hmem : mark ∈ t
  · obtain ⟨after, before, hsplit, hafter⟩ :=
      List.eq_append_cons_of_mem (List.mem_reverse.2 hmem)
    have ht : t = before.reverse ++ mark :: after.reverse := by
      rw [← List.reverse_reverse t, hsplit]
      simp
    have hlast : mark ∉ after.reverse := by simpa using hafter
    exact .inr ⟨_, _, hlast, ht, by rw [ht, splitLast?_append hlast]⟩
  · exact .inl ⟨hmem, splitLast?_of_not_mem hmem⟩

/-! ### Blanks at the ends -/

/-- A text of blanks only. -/
def Blanks (t : Text) : Prop :=
  ∀ c ∈ t, isBlank c = true

instance (t : Text) : Decidable (Blanks t) :=
  decidable_of_iff (t.all isBlank = true) List.all_eq_true

theorem trimStart_blanks_append {gap : Text} (h : Blanks gap) (t : Text) :
    trimStart (gap ++ t) = trimStart t :=
  List.dropWhile_append_of_pos h

theorem trimStart_cons {c : Char} (h : isBlank c = false) (t : Text) :
    trimStart (c :: t) = c :: t :=
  List.dropWhile_cons_of_neg (by simp [h])

theorem trimStart_of_head? {t : Text} (h : ∀ c ∈ t.head?, isBlank c = false) : trimStart t = t := by
  cases t with
  | nil => rfl
  | cons c t => exact trimStart_cons (h c rfl) t

/-- No blank is taken off behind a character that is none. -/
theorem trimStart_append_cons {c : Char} (h : isBlank c = false) (s t : Text) :
    trimStart (s ++ c :: t) = trimStart s ++ c :: t := by
  unfold trimStart
  rw [List.dropWhile_append]
  split
  · next hnil =>
    rw [List.isEmpty_iff.1 hnil]
    exact trimStart_cons h t
  · rfl

theorem trimEnd_append_cons {c : Char} (h : isBlank c = false) (s t : Text) :
    trimEnd (s ++ c :: t) = s ++ c :: trimEnd t := by
  have hend := trimEnd_of_getLast? (s := s ++ [c]) List.getLast?_concat h t
  rwa [List.append_assoc, List.append_assoc] at hend

theorem trimEnd_append_blanks {gap : Text} (h : Blanks gap) (t : Text) :
    trimEnd (t ++ gap) = trimEnd t := by
  have hreverse : ∀ c ∈ gap.reverse, isBlank c = true := fun c hc => h c (List.mem_reverse.1 hc)
  rw [trimEnd, List.reverse_append, List.dropWhile_append_of_pos hreverse]
  rfl

/-- It does not matter which end is trimmed first. -/
theorem trimStart_trimEnd (t : Text) : trimStart (trimEnd t) = trim t := by
  have hsplit : t = t.takeWhile isBlank ++ trimStart t := List.takeWhile_append_dropWhile.symm
  have hgap : Blanks (t.takeWhile isBlank) := fun c hc => List.mem_takeWhile_imp hc
  cases hrest : trimStart t with
  | nil =>
      rw [hrest, List.append_nil] at hsplit
      rw [← hsplit] at hgap
      have hend : trimEnd t = [] := trimEnd_append_blanks hgap []
      rw [trim, hrest, hend]
      rfl
  | cons c rest =>
      have hc : isBlank c = false := false_of_dropWhile_eq_cons hrest
      have hend : trimEnd (c :: rest) = c :: trimEnd rest := trimEnd_append_cons hc [] rest
      rw [hrest] at hsplit
      rw [trim, hrest, hend]
      conv_lhs => rw [hsplit]
      rw [trimEnd_append_cons hc, trimStart_blanks_append hgap, trimStart_cons hc]

theorem trim_of_visible {t : Text} (h : ∀ c ∈ t, isBlank c = false) : t.trim = t := by
  rw [trim, trimStart_of_head? fun c hc => h c (List.mem_of_mem_head? hc)]
  rcases List.eq_nil_or_concat t with rfl | ⟨init, c, rfl⟩
  · rfl
  · rw [List.concat_eq_append] at h ⊢
    exact trimEnd_append_cons (h c (by simp)) init []

theorem trim_blanks_append {gap : Text} (h : Blanks gap) (t : Text) : trim (gap ++ t) = trim t := by
  rw [trim, trimStart_blanks_append h, trim]

theorem trim_append_blanks {gap : Text} (h : Blanks gap) (t : Text) : trim (t ++ gap) = trim t := by
  rw [← trimStart_trimEnd, trimEnd_append_blanks h, trimStart_trimEnd]

theorem trim_infix (t : Text) : t.trim <:+: t := by
  obtain ⟨before, after, hsplit, _⟩ := exists_trim t
  exact ⟨before, after, by rw [List.append_assoc, ← hsplit]⟩

/-! ### Bytes -/

@[simp]
theorem byteLength_nil : byteLength [] = 0 :=
  rfl

@[simp]
theorem byteLength_cons (c : Char) (t : Text) :
    byteLength (c :: t) = c.utf8Size + byteLength t := by
  have hstart (n : Nat) : t.foldl (fun n c => n + c.utf8Size) n = n + byteLength t := by
    unfold byteLength
    induction t generalizing n with
    | nil => rfl
    | cons d t ih =>
        rw [List.foldl_cons, ih, List.foldl_cons, ih (0 + d.utf8Size)]
        omega
  rw [byteLength, List.foldl_cons, hstart]
  omega

@[simp]
theorem byteLength_append (s t : Text) : byteLength (s ++ t) = byteLength s + byteLength t := by
  induction s with
  | nil => simp
  | cons c s ih =>
      rw [List.cons_append, byteLength_cons, byteLength_cons, ih]
      omega

theorem fromByte?_append (s t : Text) : fromByte? s.byteLength (s ++ t) = some t := by
  induction s with
  | nil => cases t <;> rfl
  | cons c s ih =>
      have hpos := c.utf8Size_pos
      rw [List.cons_append, fromByte?, byteLength_cons, if_neg (by omega), if_neg (by omega),
        Nat.add_sub_cancel_left, ih]

end Text

end Stylesheet
