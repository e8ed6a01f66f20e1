import Mathlib.Data.List.DropRight
import Stylesheet.Proofs.Classification

/-! Trimmed texts and the words of a text.

Trimming takes blanks off the ends of a text, and a trimmed text stays as it is (`Text.trim_trim`). A
word is a run of characters without a blank, as long as it goes. Two texts with the same words have
the same visible characters in the same order, the same of them side by side, and the same references;
they differ in the blanks around their words only. A text is taken apart word by word
(`Text.wordsInduction`). -/

namespace Stylesheet

namespace Text

/-- The characters of a text that are no blanks. -/
def visible (t : Text) : Text :=
  t.filter (!isBlank ·)

@[simp]
theorem visible_append (s t : Text) : visible (s ++ t) = s.visible ++ t.visible :=
  List.filter_append s t

theorem visible_cons {c : Char} (h : isBlank c = false) (t : Text) :
    visible (c :: t) = c :: t.visible :=
  List.filter_cons_of_pos (by simp [h])

theorem visible_cons_blank {c : Char} (h : isBlank c = true) (t : Text) :
    visible (c :: t) = t.visible :=
  List.filter_cons_of_neg (by simp [h])

theorem visible_blanks {t : Text} (h : ∀ c ∈ t, isBlank c = true) : t.visible = [] :=
  List.filter_eq_nil_iff.2 fun c hc => by simp [h c hc]

/-- The last visible character of a text and the blanks behind it. -/
theorem exists_of_visible_concat {t front : Text} {c : Char} (h : t.visible = front ++ [c]) :
    ∃ u gap, t = u ++ c :: gap ∧ u.visible = front ∧ ∀ d ∈ gap, isBlank d = true := by
  obtain ⟨u, rest, rfl, hu, hrest⟩ := List.filter_eq_append_iff.1 h
  obtain ⟨gap, rest', rfl, hgap, _, hrest'⟩ := List.filter_eq_cons_iff.1 hrest
  have hblank (s : Text) (hs : ∀ d ∈ s, ¬(!isBlank d) = true) : ∀ d ∈ s, isBlank d = true :=
    fun d hd => by simpa using hs d hd
  refine ⟨u ++ gap, rest', by simp, ?_, hblank rest' (List.filter_eq_nil_iff.1 hrest')⟩
  rw [visible_append, visible_blanks (hblank gap hgap), List.append_nil]
  exact hu

/-! ### Trimmed texts -/

theorem trimEnd_append (t : Text) :
    ∃ blanks, t = t.trimEnd ++ blanks ∧ ∀ c ∈ blanks, isBlank c = true := by
  refine ⟨(t.reverse.takeWhile isBlank).reverse, ?_, fun c hc => ?_⟩
  · rw [trimEnd, ← List.reverse_append, List.takeWhile_append_dropWhile, List.reverse_reverse]
  · exact List.mem_takeWhile_imp (List.mem_reverse.1 hc)

theorem trimEnd_of_getLast? {s : Text} {c : Char} (hs : s.getLast? = some c)
    (hc : isBlank c = false) (t : Text) : trimEnd (s ++ t) = s ++ trimEnd t := by
  obtain ⟨front, rfl⟩ := List.getLast?_eq_some_iff.1 hs
  unfold trimEnd
  rw [List.reverse_append, List.dropWhile_append]
  split
  · next hnil =>
    rw [List.isEmpty_iff.1 hnil]
    simp [hc]
  · simp

theorem trimEnd_cons_eq (c : Char) (t : Text) :
    trimEnd (c :: t) = if trimEnd t = [] then trimEnd [c] else c :: trimEnd t := by
  unfold trimEnd
  rw [List.reverse_cons, List.dropWhile_append]
  by_cases hnil : t.reverse.dropWhile isBlank = []
  · simp [hnil]
  · simp [hnil]

/-- A text is trimmed of blanks only. -/
theorem exists_trim (t : Text) :
    ∃ before after, t = before ++ (t.trim ++ after) ∧ (∀ c ∈ before, isBlank c = true) ∧
      ∀ c ∈ after, isBlank c = true := by
  obtain ⟨blanks, hsplit, hblanks⟩ := trimEnd_append (trimStart t)
  refine ⟨t.takeWhile isBlank, blanks, ?_, fun c hc => List.mem_takeWhile_imp hc, hblanks⟩
  conv_lhs => rw [← List.takeWhile_append_dropWhile (p := isBlank) (l := t)]
  exact congrArg (t.takeWhile isBlank ++ ·) hsplit

theorem trim_ne_nil {t : Text} (h : t.blank = false) : t.trim ≠ [] := by
  intro hnil
  obtain ⟨before, after, hsplit, hbefore, hafter⟩ := exists_trim t
  rw [hnil] at hsplit
  have hblank : t.blank = true := by
    rw [blank, List.all_eq_true, hsplit]
    intro c hc
    simp only [List.nil_append, List.mem_append] at hc
    exact hc.elim (hbefore c) (hafter c)
  rw [h] at hblank
  cases hblank

theorem trim_of_ends {t : Text} {c d : Char} (hhead : t.head? = some c) (hc : isBlank c = false)
    (hlast : t.getLast? = some d) (hd : isBlank d = false) : t.trim = t := by
  have hstart : trimStart t = t := by
    obtain ⟨rest, rfl⟩ := List.head?_eq_some_iff.1 hhead
    exact List.dropWhile_cons_of_neg (by simp [hc])
  have hend := trimEnd_of_getLast? hlast hd []
  rw [List.append_nil] at hend
  rw [trim, hstart, hend]
  exact List.append_nil t

theorem trimEnd_trimEnd (t : Text) : trimEnd (trimEnd t) = trimEnd t := by
  rw [trimEnd, trimEnd, List.reverse_reverse, List.dropWhile_idempotent]

theorem trim_trim (t : Text) : t.trim.trim = t.trim := by
  have hstart : trimStart t.trim = t.trim := by
    rw [trim]
    cases hcut : trimStart t with
    | nil => rfl
    | cons c rest =>
        have hc : isBlank c = false := false_of_dropWhile_eq_cons hcut
        have hcons := trimEnd_of_getLast? (s := [c]) rfl hc rest
        rw [List.singleton_append] at hcons
        rw [hcons]
        exact List.dropWhile_cons_of_neg (by simp [hc])
  rw [trim, hstart]
  exact trimEnd_trimEnd (trimStart t)

/-! ### Words -/

@[simp]
theorem words_nil : words [] = [] := by
  simp [words, List.splitOnP_nil]

/-- Words do not go over a blank. -/
theorem words_append_blank {c : Char} (h : isBlank c = true) (x y : Text) :
    words (x ++ c :: y) = words x ++ words y := by
  unfold words
  rw [List.splitOnP_append_cons x y h, List.filter_append]

theorem words_blanks_append {blanks : Text} (h : ∀ c ∈ blanks, isBlank c = true) (t : Text) :
    words (blanks ++ t) = words t := by
  induction blanks with
  | nil => rfl
  | cons c blanks ih =>
      obtain ⟨hc, hblanks⟩ := List.forall_mem_cons.1 h
      have hcut := words_append_blank hc [] (blanks ++ t)
      rw [words_nil, List.nil_append, List.nil_append] at hcut
      rw [List.cons_append, hcut, ih hblanks]

theorem words_append_blanks {blanks : Text} (h : ∀ c ∈ blanks, isBlank c = true) (t : Text) :
    words (t ++ blanks) = words t := by
  cases blanks with
  | nil => rw [List.append_nil]
  | cons c blanks =>
      obtain ⟨hc, hblanks⟩ := List.forall_mem_cons.1 h
      have hnone := words_blanks_append hblanks []
      rw [List.append_nil, words_nil] at hnone
      rw [words_append_blank hc, hnone, List.append_nil]

theorem words_trimEnd (t : Text) : words (trimEnd t) = words t := by
  obtain ⟨blanks, hsplit, hblanks⟩ := trimEnd_append t
  conv_rhs => rw [hsplit]
  rw [words_append_blanks hblanks]

/-- A text that starts with a word behind blanks. -/
theorem words_cons {gap w rest : Text} (hgap : ∀ c ∈ gap, isBlank c = true) (hne : w ≠ [])
    (hw : ∀ c ∈ w, isBlank c = false) (hrest : ∀ c ∈ rest.head?, isBlank c = true) :
    words (gap ++ (w ++ rest)) = w :: words rest := by
  have hword : words w = [w] := by
    rw [words, List.splitOnP_eq_singleton fun c hc => by simp [hw c hc]]
    simp [hne]
  rw [words_blanks_append hgap]
  cases rest with
  | nil => rw [List.append_nil, hword, words_nil]
  | cons c rest =>
      have hc := hrest c rfl
      have hcut := words_append_blank hc [] rest
      rw [words_nil, List.nil_append, List.nil_append] at hcut
      rw [words_append_blank hc, hword, hcut]
      rfl

/-- A text is blanks, or blanks and a word before another text. -/
theorem wordsInduction {motive : Text → Prop}
    (blanks : ∀ t, (∀ c ∈ t, isBlank c = true) → motive t)
    (word : ∀ gap w rest, (∀ c ∈ gap, isBlank c = true) → w ≠ [] →
      (∀ c ∈ w, isBlank c = false) → (∀ c ∈ rest.head?, isBlank c = true) → motive rest →
      motive (gap ++ (w ++ rest)))
    (t : Text) : motive t := by
  induction hlength : t.length using Nat.strong_induction_on generalizing t with
  | _ n ih =>
    subst hlength
    have hsplit : t = t.takeWhile isBlank ++ (t.dropWhile isBlank).takeWhile (!isBlank ·) ++
        (t.dropWhile isBlank).dropWhile (!isBlank ·) := by
      rw [List.append_assoc, List.takeWhile_append_dropWhile, List.takeWhile_append_dropWhile]
    by_cases hne : (t.dropWhile isBlank).takeWhile (!isBlank ·) = []
    · refine blanks t fun c hc => ?_
      cases hdrop : t.dropWhile isBlank with
      | nil => exact List.dropWhile_eq_nil_iff.1 hdrop c hc
      | cons d rest =>
          have hd : isBlank d = false := false_of_dropWhile_eq_cons hdrop
          rw [hdrop, List.takeWhile_cons_of_pos (by simp [hd])] at hne
          cases hne
    · rw [hsplit, List.append_assoc]
      refine word _ _ _ (fun c hc => List.mem_takeWhile_imp hc) hne (fun c hc => ?_) ?_ ?_
      · simpa using List.mem_takeWhile_imp hc
      · intro c hc
        simpa using head?_dropWhile hc
      · refine ih _ ?_ _ rfl
        have hsum := congrArg List.length hsplit
        have hpos := List.length_pos_iff.2 hne
        rw [List.length_append, List.length_append] at hsum
        omega

/-- The first word of a text stands behind blanks, and the other words behind it. -/
theorem exists_of_words_cons {t w : Text} {ws : List Text} (h : t.words = w :: ws) :
    ∃ gap rest, t = gap ++ (w ++ rest) ∧ (∀ c ∈ gap, isBlank c = true) ∧ rest.words = ws := by
  induction t using wordsInduction with
  | blanks t hblanks =>
      have hnone := words_blanks_append hblanks []
      rw [List.append_nil, words_nil, h] at hnone
      cases hnone
  | word gap w' rest hgap hne hw hrest _ =>
      rw [words_cons hgap hne hw hrest] at h
      obtain ⟨rfl, rfl⟩ := List.cons.inj h
      exact ⟨gap, rest, rfl, hgap, rfl⟩

/-- No reference goes over a blank. -/
theorem references_eq_words (t : Text) : t.references = t.words.flatMap references := by
  induction t using wordsInduction with
  | blanks t hblanks =>
      have hnone := words_blanks_append hblanks []
      have hrefs := references_blanks_append hblanks []
      rw [List.append_nil] at hnone hrefs
      rw [hnone, hrefs, words_nil]
      rfl
  | word gap w rest hgap hne hw hrest ih =>
      rw [words_cons hgap hne hw hrest, references_blanks_append hgap, references_append, ih,
        List.flatMap_cons]
      exact fun c hc => isNameChar_of_isBlank (hrest c hc)

theorem references_eq_of_words_eq {s t : Text} (h : s.words = t.words) :
    s.references = t.references := by
  rw [references_eq_words, h, ← references_eq_words]

/-! ### Characters side by side -/

/-- Two visible characters side by side stand side by side in every text with the same words, behind
the same visible characters. -/
theorem exists_adjacent_of_words_eq {s t x y : Text} {a b : Char} (h : t.words = s.words)
    (ht : t = x ++ a :: b :: y) (ha : isBlank a = false) (hb : isBlank b = false) :
    ∃ u v, s = u ++ a :: b :: v ∧ u.visible = x.visible := by
  induction t using wordsInduction generalizing s x with
  | blanks t hblanks =>
      have hblank := hblanks a (by simp [ht])
      rw [ha] at hblank
      cases hblank
  | word gap w rest hgap hne hw hrest ih =>
      rw [words_cons hgap hne hw hrest] at h
      obtain ⟨gap', rest', rfl, hgap', hwords⟩ := exists_of_words_cons h.symm
      -- The two characters stand behind the gap, and then both in the word or both behind it.
      obtain ⟨x', rfl, hword⟩ : ∃ x', x = gap ++ x' ∧ w ++ rest = x' ++ a :: b :: y := by
        rcases List.append_eq_append_iff.1 ht with ⟨x', hx, hword⟩ | ⟨more, hmore, hword⟩
        · exact ⟨x', hx, hword⟩
        · cases more with
          | nil => exact ⟨[], by simpa using hmore.symm, hword.symm⟩
          | cons c more =>
              obtain ⟨rfl, _⟩ := List.cons.inj hword
              have hblank := hgap a (by simp [hmore])
              rw [ha] at hblank
              cases hblank
      rcases List.append_eq_append_iff.1 hword with ⟨x'', rfl, hbehind⟩ | ⟨more, rfl, hinside⟩
      · obtain ⟨u, v, rfl, hu⟩ := ih hwords.symm hbehind
        refine ⟨gap' ++ (w ++ u), v, by simp, ?_⟩
        simp [visible_blanks hgap, visible_blanks hgap', hu]
      · have hstart (c : Char) (r : Text) (hr : rest = c :: r) : isBlank c = true :=
          hrest c (by rw [hr]; rfl)
        obtain _ | ⟨c, _ | ⟨d, more⟩⟩ := more
        · have hblank := hstart a _ hinside.symm
          rw [ha] at hblank
          cases hblank
        · obtain ⟨rfl, hcut⟩ := List.cons.inj hinside
          have hblank := hstart b _ hcut.symm
          rw [hb] at hblank
          cases hblank
        · obtain ⟨rfl, hcut⟩ := List.cons.inj hinside
          obtain ⟨rfl, _⟩ := List.cons.inj hcut
          refine ⟨gap' ++ x', more ++ rest', by simp, ?_⟩
          simp [visible_blanks hgap, visible_blanks hgap']

end Text

end Stylesheet
