import Stylesheet.Proofs.Rescanning
import Stylesheet.Statement.Header

/-! Interpolations in selectors.

The reader delimits an interpolation by balancing the braces in it and passing over its strings
(`Delimited`). The header of a block is told by its characters, and there an interpolation reaches to
the next closing brace only (`Readable`). The two agree as long as an interpolation holds no closing
brace but its own. Where it holds another one, what stands behind that brace is taken for text of the
selector, and the header is a selector only if this text happens to read as one. -/

namespace Stylesheet

/-- An interpolation as a whole, as the reader delimits it. -/
def Delimited (t : Text) : Prop :=
  ∃ inside pieces, t = '#' :: '{' :: inside ∧ closeInterpolation 0 inside = .closed pieces []

theorem Delimited.exists_inside {t : Text} (h : Delimited t) :
    ∃ inside, t = '#' :: '{' :: inside ++ ['}'] := by
  obtain ⟨inside, pieces, rfl, hclose⟩ := h
  obtain ⟨init, rfl⟩ := (closes_of_closeInterpolation hclose).ends
  refine ⟨init.flatMap Piece.source, ?_⟩
  rw [closeInterpolation_append hclose, List.flatMap_append]
  simp [Piece.source]

namespace Header

/-- What stands behind the first closing brace of a text. -/
def behindBrace (t : Text) : Text :=
  (t.dropWhile (· != '}')).drop 1

theorem behindBrace_append {front : Text} (hfront : '}' ∉ front) (t : Text) :
    behindBrace (front ++ '}' :: t) = t := by
  have hall : ∀ c ∈ front, (c != '}') = true := by
    intro c hc
    simpa using ne_of_mem_of_not_mem hc hfront
  rw [behindBrace, List.dropWhile_append_of_pos hall]
  rfl

/-- A text that reads as a selector: characters of a selector, and interpolations that reach to the
next closing brace. -/
inductive Readable : Text → Prop
  | nil : Readable []
  | char {c : Char} {t : Text} (hc : isSelectorChar c = true) (h : Readable t) : Readable (c :: t)
  | interpolation {inside t : Text} (hinside : '}' ∉ inside) (h : Readable t) :
      Readable ('#' :: '{' :: inside ++ '}' :: t)

theorem maskInterpolations_interpolation {inside : Text} (hinside : '}' ∉ inside) (t : Text) :
    maskInterpolations ('#' :: '{' :: inside ++ '}' :: t) = 'x' :: maskInterpolations t := by
  have hmem : '}' ∈ inside ++ '}' :: t := by simp
  have hbehind := behindBrace_append hinside t
  rw [List.cons_append, List.cons_append, maskInterpolations, if_pos hmem, ← behindBrace, hbehind]

theorem not_readable_brace (t : Text) : ¬ Readable ('{' :: t) := by
  intro h
  cases h with
  | char hc => exact absurd hc (by decide)

theorem readable_iff (t : Text) : Readable t ↔ (maskInterpolations t).all isSelectorChar = true := by
  constructor
  · intro h
    induction h with
    | nil =>
        rw [maskInterpolations]
        rfl
    | @char c t hc h ih =>
        have hmask : maskInterpolations (c :: t) = c :: maskInterpolations t := by
          rw [maskInterpolations]
          rintro rest rfl rfl
          exact not_readable_brace rest h
        rw [hmask, List.all_cons, hc, ih]
        rfl
    | interpolation hinside _ ih =>
        rw [maskInterpolations_interpolation hinside, List.all_cons, ih]
        decide
  · intro h
    fun_induction maskInterpolations t with
    | case1 => exact .nil
    | case2 rest hmem ih =>
        obtain ⟨inside, after, rfl, hinside⟩ := List.eq_append_cons_of_mem hmem
        rw [← behindBrace, behindBrace_append hinside] at h ih
        rw [List.all_cons, Bool.and_eq_true] at h
        exact .interpolation hinside (ih h.2)
    | case3 rest hmem ih =>
        rw [List.all_cons, Bool.and_eq_true] at h
        exact .char h.1 (ih h.2)
    | case4 c rest _ ih =>
        rw [List.all_cons, Bool.and_eq_true] at h
        exact .char h.1 (ih h.2)

theorem readable_interpolation_iff {inside t : Text} (hinside : '}' ∉ inside) :
    Readable ('#' :: '{' :: inside ++ '}' :: t) ↔ Readable t := by
  rw [readable_iff, readable_iff, maskInterpolations_interpolation hinside, List.all_cons]
  have hx : isSelectorChar 'x' = true := by decide
  rw [hx, Bool.true_and]

theorem readable_cons_iff {c : Char} {t : Text} (hc : isSelectorChar c = true)
    (ht : t.head? ≠ some '{') : Readable (c :: t) ↔ Readable t := by
  refine ⟨fun h => ?_, .char hc⟩
  cases h with
  | char _ h => exact h
  | interpolation => exact absurd rfl ht

/-- Nothing stands behind the last closing brace of a text. -/
def EndsInBrace (t : Text) : Prop :=
  ∀ c ∈ t.getLast?, c = '}'

theorem EndsInBrace.of_append {s t : Text} (h : EndsInBrace (s ++ t)) : EndsInBrace t := by
  intro c hc
  have hlast : (s ++ t).getLast? = some c := by
    rw [List.getLast?_append, Option.mem_def.1 hc]
    rfl
  exact h c hlast

/-- No interpolation goes on behind a text that ends with a brace. -/
theorem readable_append_iff {s t : Text} (hs : EndsInBrace s) :
    Readable (s ++ t) ↔ Readable s ∧ Readable t := by
  constructor
  · intro h
    generalize hst : s ++ t = st at h
    induction h generalizing s with
    | nil =>
        obtain ⟨rfl, rfl⟩ := List.append_eq_nil_iff.1 hst
        exact ⟨.nil, .nil⟩
    | @char c rest hc h ih =>
        cases s with
        | nil =>
            cases hst
            exact ⟨.nil, .char hc h⟩
        | cons first s =>
            obtain ⟨rfl, hrest⟩ := List.cons.inj hst
            obtain ⟨hleft, hright⟩ := ih (EndsInBrace.of_append (s := [first]) hs) hrest
            exact ⟨.char hc hleft, hright⟩
    | @interpolation inside rest hinside h ih =>
        have hsplit : s ++ t = ('#' :: '{' :: inside ++ ['}']) ++ rest := by
          rw [hst]
          simp
        rcases List.append_eq_append_iff.1 hsplit with ⟨more, hmore, rfl⟩ | ⟨s', rfl, hrest⟩
        · -- The text ends within the interpolation, so it is empty or the whole of it.
          rcases List.eq_nil_or_concat more with rfl | ⟨more, last, rfl⟩
          · rw [List.append_nil] at hmore
            subst hmore
            refine ⟨?_, by simpa using h⟩
            exact .interpolation hinside .nil
          · rw [List.concat_eq_append, ← List.append_assoc] at hmore
            obtain ⟨hfront, hlast⟩ := List.append_inj' hmore rfl
            rcases List.eq_nil_or_concat s with rfl | ⟨init, c, rfl⟩
            · refine ⟨.nil, ?_⟩
              rw [← List.nil_append (_ ++ _), hst]
              exact .interpolation hinside h
            · have hc : c = '}' := hs c (by simp)
              have hmem : '}' ∈ '#' :: '{' :: inside := by
                rw [hfront, hc]
                simp
              simp [hinside] at hmem
        · obtain ⟨hleft, hright⟩ := ih hs.of_append hrest.symm
          refine ⟨?_, hright⟩
          rw [List.append_assoc]
          exact .interpolation hinside hleft
  · rintro ⟨hleft, hright⟩
    clear hs
    induction hleft with
    | nil => exact hright
    | char hc _ ih => exact .char hc ih
    | @interpolation inside rest hinside _ ih =>
        rw [List.append_assoc, List.cons_append]
        exact .interpolation hinside ih

/-- Parts of a header: each is a character of a selector or an interpolation. -/
def SelectorParts (parts : List Text) : Prop :=
  ∀ part ∈ parts, (∃ c, part = [c] ∧ isSelectorChar c = true) ∨ Delimited part

theorem selectorParts_pair {c : Char} {inside : Text} (pieces : List Piece)
    (hc : isSelectorChar c = true) (h : closeInterpolation 0 inside = .closed pieces []) :
    SelectorParts [[c], '#' :: '{' :: inside] := by
  intro part hpart
  rcases List.mem_pair.1 hpart with rfl | rfl
  · exact .inl ⟨c, rfl, hc⟩
  · exact .inr ⟨inside, pieces, rfl, h⟩

theorem not_delimited_singleton (c : Char) : ¬ Delimited [c] := by
  rintro ⟨inside, pieces, heq, _⟩
  cases heq

theorem SelectorParts.head?_ne {parts : List Text} (h : SelectorParts parts) {c : Char}
    (hc : isSelectorChar c = false) : parts.flatten.head? ≠ some c := by
  cases parts with
  | nil => simp
  | cons part parts =>
      intro hhead
      rcases h part List.mem_cons_self with ⟨d, rfl, hd⟩ | hdelimited
      · cases hhead
        rw [hc] at hd
        cases hd
      · obtain ⟨inside, rfl⟩ := hdelimited.exists_inside
        cases hhead
        exact absurd hc (by decide)

/-- An interpolation reads up to its first closing brace; the rest of it is left to be read. -/
theorem readable_delimited_iff {part t : Text} (h : Delimited part) :
    Readable (part ++ t) ↔ Readable (behindBrace part) ∧ Readable t := by
  obtain ⟨inside, rfl⟩ := h.exists_inside
  have hmem : '}' ∈ inside ++ ['}'] := by simp
  obtain ⟨front, back, hsplit, hfront⟩ := List.eq_append_cons_of_mem hmem
  have hback : EndsInBrace back := by
    refine EndsInBrace.of_append (s := front ++ ['}']) ?_
    rw [List.append_assoc, List.singleton_append, ← hsplit]
    intro c hc
    simpa using hc.symm
  have hpart : '#' :: '{' :: inside ++ ['}'] = '#' :: '{' :: front ++ '}' :: back :=
    congrArg (fun t => '#' :: '{' :: t) hsplit
  have hbehind : behindBrace ('#' :: '{' :: front ++ '}' :: back) = back :=
    behindBrace_append (by simpa using hfront) back
  have hmore : '#' :: '{' :: front ++ '}' :: back ++ t = '#' :: '{' :: front ++ '}' :: (back ++ t) :=
    List.append_assoc _ _ _
  rw [hpart, hbehind, hmore, readable_interpolation_iff hfront, readable_append_iff hback]

theorem SelectorParts.readable_iff {parts : List Text} (h : SelectorParts parts) :
    Readable parts.flatten ↔ ∀ part ∈ parts, Delimited part → Readable (behindBrace part) := by
  induction parts with
  | nil => exact ⟨fun _ => List.forall_mem_nil _, fun _ => .nil⟩
  | cons part parts ih =>
      have hrest : SelectorParts parts := fun other hother => h other (List.mem_cons_of_mem _ hother)
      rw [List.flatten_cons, List.forall_mem_cons, ← ih hrest]
      rcases h part List.mem_cons_self with ⟨c, rfl, hc⟩ | hdelimited
      · have hhead : parts.flatten.head? ≠ some '{' := hrest.head?_ne (by decide)
        rw [List.singleton_append, readable_cons_iff hc hhead]
        exact ⟨fun hreads => ⟨fun hd => absurd hd (not_delimited_singleton c), hreads⟩, And.right⟩
      · rw [readable_delimited_iff hdelimited]
        exact ⟨fun ⟨hbehind, hreads⟩ => ⟨fun _ => hbehind, hreads⟩,
          fun ⟨hbehind, hreads⟩ => ⟨hbehind hdelimited, hreads⟩⟩

theorem after?_of_head?_ne {c : Char} {lead t : Text} (h : t.head? ≠ some c) :
    Text.after? (c :: lead) t = none := by
  cases t with
  | nil => rfl
  | cons d t =>
      have hcd : (c == d) = false := by
        rw [beq_eq_false_iff_ne]
        rintro rfl
        exact h rfl
      simp [Text.after?, List.isPrefixOf?, hcd]

/-- Only a header that starts with `@` is anything but a selector or another text. -/
theorem ofText_of_head?_ne {t : Text} (htrim : t.trim = t) (h : t.head? ≠ some '@') :
    ofText t = if isSelector t then .selector t else .other := by
  have hnone (lead : Text) : Text.after? ('@' :: lead) t = none := after?_of_head?_ne h
  have hanimation : animation? t = none := by
    rw [animation?, hnone]
    rfl
  have hfunction : function? t = none := by
    have hlead : "@function".toList = '@' :: "function".toList := by decide
    rw [function?, hlead, hnone]
    rfl
  have hmixin : mixin? t = none := by
    have hlead : "@mixin".toList = '@' :: "mixin".toList := by decide
    rw [mixin?, hlead, hnone]
    rfl
  unfold ofText
  rw [htrim]
  simp only [hanimation, hfunction, hmixin]

/-- A header made of characters of a selector and of interpolations is told to be a selector exactly
if what stands behind the first closing brace of each interpolation reads as one, and it is no other
kind of header. So it is a selector whatever its interpolations hold, closing braces apart. -/
theorem isSelector_flatten {parts : List Text} (h : SelectorParts parts) (hne : parts.flatten ≠ [])
    (htrim : Text.trim parts.flatten = parts.flatten) :
    (isSelector parts.flatten = true ↔
        ∀ part ∈ parts, Delimited part → Readable (behindBrace part)) ∧
      (ofText parts.flatten =
        if isSelector parts.flatten then .selector parts.flatten else .other) ∧
      ((∀ part ∈ parts, Delimited part → part.count '}' = 1) →
        ofText parts.flatten = .selector parts.flatten) := by
  have hhead : parts.flatten.head? ≠ some '@' := h.head?_ne (by decide)
  have hiff : isSelector parts.flatten = true ↔
      ∀ part ∈ parts, Delimited part → Readable (behindBrace part) := by
    rw [← h.readable_iff, Header.readable_iff, isSelector]
    simp [hne, hhead]
  have hkind := ofText_of_head?_ne htrim hhead
  refine ⟨hiff, hkind, fun hcount => ?_⟩
  have hselector : isSelector parts.flatten = true := by
    refine hiff.2 fun part hpart hdelimited => ?_
    obtain ⟨inside, rfl⟩ := hdelimited.exists_inside
    have hinside : '}' ∉ '#' :: '{' :: inside := by
      rw [← List.count_eq_zero]
      simpa using hcount _ hpart hdelimited
    rw [behindBrace_append hinside]
    exact .nil
  rw [hkind, if_pos hselector]

/-- A letter and an interpolation that adds to a string with an opening brace in it. -/
def quotedOpening : List Text :=
  [['a'], "#\x7b\"\x7b\" + $b\x7d".toList]

theorem isSelector_flatten_quotedOpening :
    ofText quotedOpening.flatten = .selector quotedOpening.flatten := by
  have hparts : SelectorParts quotedOpening :=
    selectorParts_pair (.quoted "\"\x7b\"".toList :: " + $b\x7d".toList.map .char) (by decide)
      (by decide +kernel)
  refine (isSelector_flatten hparts (by decide) (by decide)).2.2 fun part hpart hdelimited => ?_
  rcases List.mem_pair.1 hpart with rfl | rfl
  · exact absurd hdelimited (not_delimited_singleton 'a')
  · decide

/-- A letter and an interpolation of a string that is a closing brace. -/
def quotedBrace : List Text :=
  [['a'], "#\x7b\"\x7d\"\x7d".toList]

theorem other_of_quotedBrace :
    SelectorParts quotedBrace ∧ Text.trim quotedBrace.flatten = quotedBrace.flatten ∧
      isSelector quotedBrace.flatten = false ∧ ofText quotedBrace.flatten = .other := by
  refine ⟨?_, by decide, by decide +kernel, by decide +kernel⟩
  exact selectorParts_pair [.quoted "\"\x7d\"".toList, .char '}'] (by decide) (by decide +kernel)

end Header

end Stylesheet
