import Mathlib.Data.List.TakeWhile
import Stylesheet.Lists
import Stylesheet.Proofs.Usage

/-! Which references a classified value keeps.

A reference is not cut where a text is: names go on over letters, digits, underscores and hyphens,
and what stands on one side of a cut is a blank, a quote or a parenthesis. So the references of a text
are those before a group, inside it and behind it. A colour, a list of sizes and a plain text keep all
of them, a calculation and an address keep those inside their first group only. A variable that stands
beside the group is reported as unused. -/

namespace Stylesheet

theorem toNat_of_isNameChar {c : Char} (h : isNameChar c = true) :
    c.toNat = 45 ∨ (48 ≤ c.toNat ∧ c.toNat ≤ 57) ∨ (65 ≤ c.toNat ∧ c.toNat ≤ 90) ∨ c.toNat = 95 ∨
      (97 ≤ c.toNat ∧ c.toNat ≤ 122) := by
  simp only [isNameChar, isLetter, isDigit, Bool.or_eq_true, Bool.and_eq_true, decide_eq_true_eq,
    beq_iff_eq, Char.le_def, UInt32.le_iff_toNat_le] at h
  rcases h with (((h | h) | h) | rfl) | rfl
  · exact .inr (.inr (.inr (.inr h)))
  · exact .inr (.inr (.inl h))
  · exact .inr (.inl h)
  · decide
  · decide

theorem isNameChar_of_isBlank {c : Char} (h : isBlank c = true) : isNameChar c = false := by
  by_contra hname
  have hcode := toNat_of_isNameChar (Bool.not_eq_false _ ▸ hname)
  simp only [isBlank, Bool.or_eq_true, Bool.and_eq_true, decide_eq_true_eq, beq_iff_eq] at h
  omega

namespace Text

/-! ### Cuts -/

theorem references_dollar (t : Text) :
    references ('$' :: t) = ((name? t).map Prod.fst).toList ++ t.references := by
  cases h : name? t with
  | none => simp [references, h]
  | some found => simp [references, h]

theorem references_cons {c : Char} (hc : c ≠ '$') (t : Text) :
    references (c :: t) = t.references := by
  simp [references, hc]

/-- A name ends before a character that no name has. -/
theorem name?_append {a b : Text} (h : ∀ c ∈ b.head?, isNameChar c = false) :
    (name? (a ++ b)).map Prod.fst = (name? a).map Prod.fst := by
  have hstop : b.takeWhile isNameChar = [] := by
    cases b with
    | nil => rfl
    | cons c b => simp [h c rfl]
  cases a with
  | nil =>
      cases b with
      | nil => rfl
      | cons c b =>
          have hstart : isNameStart c ≠ true := fun hstart => by
            simp [isNameChar_of_isNameStart hstart] at h
          simp [name?, hstart]
  | cons c a =>
      by_cases hstart : isNameStart c = true
      · have htake : (a ++ b).takeWhile isNameChar = a.takeWhile isNameChar := by
          rw [List.takeWhile_append, hstop, List.append_nil]
          split
          · next hlength => exact ((List.takeWhile_prefix _).eq_of_length hlength).symm
          · rfl
        simp [name?, hstart, htake]
      · simp [name?, hstart]

/-- References are not cut before a character that no name has. -/
theorem references_append {a b : Text} (h : ∀ c ∈ b.head?, isNameChar c = false) :
    references (a ++ b) = a.references ++ b.references := by
  induction a with
  | nil => rfl
  | cons c a ih =>
      by_cases hc : c = '$'
      · subst hc
        rw [List.cons_append, references_dollar, references_dollar, name?_append h, ih,
          List.append_assoc]
      · rw [List.cons_append, references_cons hc, references_cons hc, ih]

/-- References are not cut behind a character that neither a name nor a reference has. -/
theorem references_behind {a b : Text} {c : Char} (hname : isNameChar c = false) (hsign : c ≠ '$') :
    references (a ++ c :: b) = references (a ++ [c]) ++ b.references := by
  rw [references_append (by simpa using hname), references_append (by simpa using hname),
    references_cons hsign, references_cons hsign]
  simp [references]

theorem references_blanks_append {blanks : Text} (h : ∀ c ∈ blanks, isBlank c = true) (t : Text) :
    references (blanks ++ t) = t.references := by
  induction blanks with
  | nil => rfl
  | cons c blanks ih =>
      have hsign : c ≠ '$' := by
        rintro rfl
        exact absurd (h '$' List.mem_cons_self) (by decide)
      rw [List.cons_append, references_cons hsign]
      exact ih fun d hd => h d (List.mem_cons_of_mem c hd)

theorem references_append_blanks {blanks : Text} (h : ∀ c ∈ blanks, isBlank c = true) (t : Text) :
    references (t ++ blanks) = t.references := by
  have hblanks := references_blanks_append h []
  rw [List.append_nil] at hblanks
  rw [references_append, hblanks]
  · simp [references]
  · exact fun c hc => isNameChar_of_isBlank (h c (List.mem_of_mem_head? hc))

theorem references_trim (t : Text) : t.trim.references = t.references := by
  have hstart : t = t.takeWhile isBlank ++ trimStart t := List.takeWhile_append_dropWhile.symm
  have hend (s : Text) : s = trimEnd s ++ (s.reverse.takeWhile isBlank).reverse := by
    rw [trimEnd, ← List.reverse_append, List.takeWhile_append_dropWhile, List.reverse_reverse]
  calc
    t.trim.references = references (trimStart t) := by
      conv_rhs => rw [hend (trimStart t)]
      rw [references_append_blanks fun c hc => List.mem_takeWhile_imp (List.mem_reverse.1 hc)]
      rfl
    _ = t.references := by
      conv_rhs => rw [hstart]
      rw [references_blanks_append fun c hc => List.mem_takeWhile_imp hc]

theorem references_unquote (t : Text) : t.unquote.references = t.references := by
  rw [← references_trim t]
  unfold unquote
  dsimp only
  split
  · next hquoted =>
    cases htrim : t.trim with
    | nil => rfl
    | cons q rest =>
        obtain ⟨hq, hlast⟩ : Nesting.quotes q = true ∧ rest.getLast? = some q := by
          simpa [htrim, isQuoted] using hquoted
        have hquote : isNameChar q = false ∧ q ≠ '$' := by
          have hcases : q = '"' ∨ q = '\'' := by simpa [Nesting.quotes] using hq
          rcases hcases with rfl | rfl <;> decide
        obtain ⟨inside, rfl⟩ := List.getLast?_eq_some_iff.1 hlast
        rw [references_cons hquote.2, references_append (by simpa using hquote.1),
          references_cons hquote.2]
        simp [references]
  · rfl

/-! ### Groups -/

/-- What follows the first place where a part stands. -/
theorem afterFirst?_eq_some {part t rest : Text} (h : afterFirst? part t = some rest) :
    ∃ lead, t = lead ++ (part ++ rest) ∧
      ∀ front, part <:+ front → front <+: t → lead.length + part.length ≤ front.length := by
  have hhere {t : Text} (h : after? part t = some rest) : ∃ lead, t = lead ++ (part ++ rest) ∧
      ∀ front, part <:+ front → front <+: t → lead.length + part.length ≤ front.length := by
    refine ⟨[], (List.isPrefixOf?_eq_some_iff_append_eq.1 h).symm, fun front hpart _ => ?_⟩
    have hle := hpart.length_le
    simpa using hle
  induction t with
  | nil => exact hhere h
  | cons c t ih =>
      rw [afterFirst?] at h
      cases hafter : after? part (c :: t) with
      | some found =>
          rw [hafter] at h
          cases h
          exact hhere hafter
      | none =>
          rw [hafter] at h
          obtain ⟨lead, rfl, hfirst⟩ := ih h
          have hnot : ¬part <+: c :: (lead ++ (part ++ rest)) := by
            rintro ⟨found, hfound⟩
            rw [after?, List.isPrefixOf?_eq_some_iff_append_eq.2 hfound] at hafter
            cases hafter
          refine ⟨c :: lead, rfl, fun front hpart hfront => ?_⟩
          cases front with
          | nil => exact absurd (hpart.eq_of_length_le (Nat.zero_le _) ▸ hfront) hnot
          | cons d front =>
              obtain ⟨rfl, hfront'⟩ := List.cons_prefix_cons.1 hfront
              rcases List.suffix_cons_iff.1 hpart with rfl | hpart
              · exact absurd hfront hnot
              · have hle := hfirst front hpart hfront'
                simp only [List.length_cons]
                omega

/-- Every parenthesis that is closed in a text is opened there, but for `depth` of them. -/
def ClosesWithin (depth : Nat) (t : Text) : Prop :=
  ∀ front, front <+: t → front.count ')' ≤ front.count '(' + depth

theorem closesWithin_nil (depth : Nat) : ClosesWithin depth [] := by
  intro front hfront
  rw [List.prefix_nil.1 hfront]
  exact Nat.zero_le _

theorem ClosesWithin.cons {depth inner : Nat} {c : Char} {t : Text} (h : ClosesWithin inner t)
    (hc : inner + [c].count ')' = depth + [c].count '(') : ClosesWithin depth (c :: t) := by
  intro front hfront
  cases front with
  | nil => exact Nat.zero_le _
  | cons d front =>
      obtain ⟨rfl, hfront'⟩ := List.cons_prefix_cons.1 hfront
      have hinner := h front hfront'
      rw [List.count_singleton, List.count_singleton] at hc
      rw [List.count_cons, List.count_cons]
      omega

/-- One character of a group: it closes the group, or the parentheses that are open behind it are
those before it and itself. -/
theorem closed?_cons (depth : Nat) (c : Char) (t : Text) :
    (c = ')' ∧ depth = 0 ∧ closed? depth (c :: t) = some []) ∨
      ∃ inner, inner + [c].count ')' = depth + [c].count '(' ∧
        closed? depth (c :: t) = (closed? inner t).map (c :: ·) := by
  rw [closed?.eq_def]
  dsimp only
  split
  · next hopen =>
    subst hopen
    exact .inr ⟨depth + 1, rfl, rfl⟩
  split
  · next hclose =>
    subst hclose
    cases depth with
    | zero => exact .inl ⟨rfl, rfl, rfl⟩
    | succ inner => exact .inr ⟨inner, rfl, rfl⟩
  · next hopen hclose =>
    exact .inr ⟨depth, by simp [hopen, hclose], rfl⟩

theorem closed?_eq_some {depth : Nat} {t inside : Text} (h : closed? depth t = some inside) :
    (∃ after, t = inside ++ ')' :: after) ∧ ClosesWithin depth inside ∧
      inside.count ')' = inside.count '(' + depth := by
  induction t generalizing depth inside with
  | nil => cases h
  | cons c t ih =>
      rcases closed?_cons depth c t with ⟨rfl, rfl, hclosed⟩ | ⟨inner, hinner, hclosed⟩
      · rw [hclosed] at h
        cases h
        exact ⟨⟨t, rfl⟩, closesWithin_nil 0, rfl⟩
      · rw [hclosed] at h
        obtain ⟨more, hmore, rfl⟩ := Option.map_eq_some_iff.1 h
        obtain ⟨⟨after, rfl⟩, hwithin, hcount⟩ := ih hmore
        refine ⟨⟨after, rfl⟩, hwithin.cons hinner, ?_⟩
        rw [List.count_singleton, List.count_singleton] at hinner
        rw [List.count_cons, List.count_cons]
        omega

theorem closed?_eq_none {depth : Nat} {t : Text} (h : closed? depth t = none) :
    ClosesWithin depth t := by
  induction t generalizing depth with
  | nil => exact closesWithin_nil depth
  | cons c t ih =>
      rcases closed?_cons depth c t with ⟨_, _, hclosed⟩ | ⟨inner, hinner, hclosed⟩
      · rw [hclosed] at h
        cases h
      · rw [hclosed] at h
        exact (ih (Option.map_eq_none_iff.1 h)).cons hinner

/-- The inside of an open parenthesis in the text that follows it: it ends before the parenthesis
that closes it, or at the end of a text in which none does. -/
structure IsGroup (inside after : Text) : Prop where
  within : ClosesWithin 0 inside
  ends : after = [] ∨ after.head? = some ')' ∧ inside.count ')' = inside.count '('

theorem exists_isGroup (t : Text) : ∃ after, t = t.group ++ after ∧ IsGroup t.group after := by
  unfold group
  cases h : closed? 0 t with
  | none => exact ⟨[], by simp, closed?_eq_none h, .inl rfl⟩
  | some inside =>
      obtain ⟨⟨after, hafter⟩, hwithin, hcount⟩ := closed?_eq_some h
      exact ⟨')' :: after, hafter, hwithin, .inr ⟨rfl, hcount⟩⟩

end Text

/-! ### Sizes -/

theorem Text.exists_mem_words {t : Text} {c : Char} (hc : isBlank c = false) (h : c ∈ t) :
    ∃ w ∈ t.words, c ∈ w := by
  have hpiece : ∃ w ∈ t.splitOnP isBlank, c ∈ w := by
    induction t with
    | nil => cases h
    | cons d t ih =>
        obtain ⟨w, ws, hsplit⟩ := List.exists_cons_of_ne_nil (List.splitOnP_ne_nil isBlank t)
        rw [List.splitOnP_cons_eq_if_modifyHead]
        by_cases hd : isBlank d = true
        · rw [if_pos hd]
          rcases List.mem_cons.1 h with rfl | h
          · rw [hc] at hd
            cases hd
          · obtain ⟨piece, hpiece, hmem⟩ := ih h
            exact ⟨piece, List.mem_cons_of_mem [] hpiece, hmem⟩
        · rw [if_neg hd, hsplit, List.modifyHead_cons]
          rw [hsplit] at ih
          rcases List.mem_cons.1 h with rfl | h
          · exact ⟨c :: w, List.mem_cons_self, List.mem_cons_self⟩
          · obtain ⟨piece, hpiece, hmem⟩ := ih h
            rcases List.mem_cons.1 hpiece with rfl | hpiece
            · exact ⟨d :: piece, List.mem_cons_self, List.mem_cons_of_mem d hmem⟩
            · exact ⟨piece, List.mem_cons_of_mem _ hpiece, hmem⟩
  obtain ⟨w, hw, hmem⟩ := hpiece
  refine ⟨w, List.mem_filter.2 ⟨hw, ?_⟩, hmem⟩
  cases w with
  | nil => cases hmem
  | cons d w => rfl

namespace Size

/-- No numeral reads a sign of a reference. -/
theorem mem_rest_of_numeral? {t rest : Text} {n : Numeral} (h : numeral? t = some (n, rest))
    (ht : '$' ∈ t) : '$' ∈ rest := by
  have hsign : '$' ∈ (sign t).2 := by
    unfold sign
    split
    · simpa using ht
    · simpa using ht
    · exact ht
  have hwhole : '$' ∈ (sign t).2.dropWhile isDigit := mem_dropWhile hsign rfl
  unfold numeral? at h
  dsimp only at h
  split at h
  · next more hpoint =>
    obtain ⟨_, h⟩ := Option.ite_none_left_eq_some.1 h
    cases h
    rw [hpoint] at hwhole
    exact mem_dropWhile (by simpa using hwhole) rfl
  · obtain ⟨_, h⟩ := Option.ite_none_left_eq_some.1 h
    cases h
    exact hwhole

theorem not_mem_of_ofText? {t : Text} {s : Size} (h : ofText? t = some s) : '$' ∉ t := by
  intro ht
  obtain ⟨⟨n, rest⟩, hnumeral, h⟩ := Option.bind_eq_some_iff.1 h
  obtain ⟨unit, hunit, _⟩ := Option.bind_eq_some_iff.1 h
  have hrest := mem_rest_of_numeral? hnumeral ht
  unfold unit? at hunit
  split at hunit
  · next hempty =>
    rw [List.isEmpty_iff.1 hempty] at hrest
    cases hrest
  · obtain ⟨u, hu, _⟩ := Option.map_eq_some_iff.1 hunit
    have hsymbol : u.symbol = rest := by simpa using List.find?_some hu
    rw [← hsymbol] at hrest
    cases u <;> revert hrest <;> decide

theorem not_mem_of_list? {t : Text} {sizes : List Size} (h : list? t = some sizes) : '$' ∉ t := by
  intro ht
  unfold list? at h
  split at h
  · cases h
  · obtain ⟨w, hw, hmem⟩ := Text.exists_mem_words rfl ht
    obtain ⟨s, hs⟩ := exists_of_mapM h hw
    exact not_mem_of_ofText? hs hmem

end Size

theorem Text.references_eq_nil {t : Text} (h : '$' ∉ t) : t.references = [] :=
  List.eq_nil_iff_forall_not_mem.2 fun name hname => not_hasToken h name (mem_references_iff.1 hname)

/-! ### Values -/

/-- The references of a text before, inside and behind a group of it. -/
theorem Text.references_around {word inside after : Text} (lead : Text)
    (hgroup : IsGroup inside after) :
    references (lead ++ (word ++ ['('] ++ (inside ++ after))) =
      references (lead ++ (word ++ ['('])) ++ (inside.references ++ after.references) := by
  have hstop : ∀ c ∈ after.head?, isNameChar c = false := by
    rcases hgroup.ends with rfl | ⟨hhead, _⟩
    · simp
    · rw [hhead]
      rintro c ⟨⟩
      rfl
  calc
    references (lead ++ (word ++ ['('] ++ (inside ++ after)))
        = references ((lead ++ word) ++ '(' :: (inside ++ after)) := by simp
    _ = references ((lead ++ word) ++ ['(']) ++ references (inside ++ after) :=
      references_behind rfl (by decide)
    _ = references (lead ++ (word ++ ['('])) ++ (inside.references ++ after.references) := by
      rw [List.append_assoc lead, references_append hstop]

namespace Value

/-- The name of the function that a value is known by, if the value keeps no more than what stands
in its parentheses. -/
def function? : Value → Option Text
  | .calc _ => some "calc".toList
  | .url _ => some "url".toList
  | _ => none

/-- A value keeps the references of one part of a text: of all of it but the blanks around it, or of
what stands inside the first parentheses of its function. -/
structure Keeps (v : Value) (t before inside after : Text) : Prop where
  split : t.trim = before ++ (inside ++ after)
  whole : v.function? = none → before = [] ∧ after = []
  opens : ∀ word ∈ v.function?, word ++ ['('] <:+ before
  first : ∀ word ∈ v.function?, ∀ front, word ++ ['('] <:+ front → front <+: t.trim →
    before.length ≤ front.length
  group : v.function?.isSome → Text.IsGroup inside after
  kept : v.references = inside.references
  all : t.references = before.references ++ (inside.references ++ after.references)

theorem keeps_whole {v : Value} {t : Text} (hv : v.function? = none)
    (href : v.references = t.trim.references) : v.Keeps t [] t.trim [] where
  split := by simp
  whole _ := ⟨rfl, rfl⟩
  opens := by simp [hv]
  first := by simp [hv]
  group := by simp [hv]
  kept := href
  all := by simp [Text.references_trim, Text.references]

theorem exists_keeps_group {v : Value} {t word rest : Text} (hv : v.function? = some word)
    (hrest : Text.afterFirst? (word ++ ['(']) t.trim = some rest)
    (href : v.references = (Text.group rest).references) :
    ∃ before after, v.Keeps t before (Text.group rest) after := by
  obtain ⟨lead, htrim, hfirst⟩ := Text.afterFirst?_eq_some hrest
  obtain ⟨after, hsplit, hgroup⟩ := Text.exists_isGroup rest
  refine ⟨lead ++ (word ++ ['(']), after, ?_, by simp [hv], ?_, ?_, fun _ => hgroup, href, ?_⟩
  · rw [← hsplit, htrim, ← List.append_assoc lead]
  · rw [hv]
    rintro _ ⟨⟩
    exact List.suffix_append _ _
  · rw [hv]
    rintro _ ⟨⟩ front hpart hfront
    rw [List.length_append]
    exact hfirst front hpart hfront
  · rw [← Text.references_around lead hgroup, ← hsplit, ← htrim, Text.references_trim]

theorem exists_keeps_classify (t : Text) :
    ∃ before inside after, (classify t).Keeps t before inside after := by
  unfold classify
  dsimp only
  split
  · next rest hrest =>
    obtain ⟨before, after, hkeeps⟩ := exists_keeps_group (v := .calc (Text.group rest).trim) rfl
      hrest (Text.references_trim _)
    exact ⟨before, _, after, hkeeps⟩
  split
  · exact ⟨_, _, _, keeps_whole rfl rfl⟩
  split
  · exact ⟨_, _, _, keeps_whole rfl rfl⟩
  split
  · next rest hrest =>
    obtain ⟨before, after, hkeeps⟩ := exists_keeps_group (v := .url (Text.group rest).unquote) rfl
      hrest (Text.references_unquote _)
    exact ⟨before, _, after, hkeeps⟩
  split
  · next sizes hsizes =>
    have hnone := Text.references_eq_nil (Size.not_mem_of_list? hsizes)
    exact ⟨_, _, _, keeps_whole (v := .size sizes) rfl hnone.symm⟩
  · exact ⟨_, _, _, keeps_whole rfl rfl⟩

/-- What the classification of a text leaves of its references: those of one part of the text, which
no reference reaches into or out of. A colour, a list of sizes and a plain text keep them all. A
calculation and an address keep those inside the first parentheses of their function, so the names are
still the same exactly if every name that stands beside the parentheses stands inside them too. -/
theorem references_classify (t : Text) :
    ∃ before inside after, (classify t).Keeps t before inside after ∧
      ((∀ name, name ∈ (classify t).references ↔ name ∈ t.references) ↔
        ∀ name ∈ before.references ++ after.references, name ∈ inside.references) := by
  obtain ⟨before, inside, after, hkeeps⟩ := exists_keeps_classify t
  refine ⟨before, inside, after, hkeeps, ?_⟩
  rw [hkeeps.kept, hkeeps.all]
  constructor
  · intro h name hname
    rw [h]
    rcases List.mem_append.1 hname with hbefore | hafter
    · exact List.mem_append_left _ hbefore
    · exact List.mem_append_right _ (List.mem_append_right _ hafter)
  · intro h name
    constructor
    · exact fun hinside => List.mem_append_right _ (List.mem_append_left _ hinside)
    · intro hname
      rcases List.mem_append.1 hname with hbefore | hname
      · exact h name (List.mem_append_left _ hbefore)
      · rcases List.mem_append.1 hname with hinside | hafter
        · exact hinside
        · exact h name (List.mem_append_right _ hafter)

/-- A variable that is used beside a calculation, and nowhere else. -/
def besideGroup : Text :=
  "$x: 1px; .a { margin: calc(1px) $x }".toList

/-- The variable stands in the value of a property, but the classified value does not keep it, and so
it is reported. -/
theorem unused_of_besideGroup :
    Text.references "calc(1px) $x".toList = ["x".toList] ∧
      (classify "calc(1px) $x".toList).references = [] ∧
      ∃ loaded, ((⟨⟨[], [], []⟩, none⟩ : Workspace).loadSource besideGroup "a.scss".toList).result =
          .ok loaded ∧
        loaded.file.values = [classify "calc(1px) $x".toList] ∧
        loaded.file.unused.map UnusedVariable.name = ["x".toList] := by
  refine ⟨by decide, by decide, ?_⟩
  have hread : ((⟨⟨[], [], []⟩, none⟩ : Workspace).loadSource besideGroup
      "a.scss".toList).result.toOption.map (fun loaded =>
        (loaded.file.values, loaded.file.unused.map UnusedVariable.name)) =
      some ([classify "calc(1px) $x".toList], ["x".toList]) := by
    decide +kernel
  obtain ⟨loaded, hload, hfound⟩ := exists_ok_of_toOption_map hread
  exact ⟨loaded, hload, by simpa only [Prod.mk.injEq] using hfound⟩

end Value

end Stylesheet
