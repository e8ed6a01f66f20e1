/-! Facts about lists of any items.

Fewer items of a list meet a narrower condition. A list is read item by item, each of them or none
(`mapM_eq_some_iff`). A run of items that meet a condition ends where the first item stands that
does not. -/

namespace Stylesheet

variable {α β : Type}

/-! ### Counting -/

/-- A narrower condition that an item of the list fails is met by fewer items. -/
theorem countP_lt_countP {p q : α → Bool} {as : List α} {a : α}
    (himp : ∀ b, q b = true → p b = true) (ha : a ∈ as) (hp : p a = true) (hq : q a = false) :
    as.countP q < as.countP p := by
  have hnarrow (b : α) : (p b && q b) = q b := by
    cases hb : q b with
    | false => exact Bool.and_false _
    | true => rw [himp b hb, Bool.and_true]
  have hkept : (as.filter q).countP p = as.countP q := by
    simp only [List.countP_filter, hnarrow]
  have hrest : 0 < (as.filter (!q ·)).countP p :=
    List.countP_pos_iff.2 ⟨a, List.mem_filter.2 ⟨ha, by rw [hq]; rfl⟩, hp⟩
  rw [List.countP_eq_countP_filter_add as p q]
  omega

/-! ### Items read one by one -/

section Reading

variable {f : α → Option β} {as : List α} {bs : List β}

/-- A list is read item by item. -/
theorem mapM_eq_some_iff : as.mapM f = some bs ↔ as.map f = bs.map some := by
  induction as generalizing bs with
  | nil => cases bs <;> simp
  | cons a as ih =>
      rw [List.mapM_cons, List.map_cons]
      constructor
      · intro h
        obtain ⟨b, hb, h⟩ := Option.bind_eq_some_iff.1 h
        obtain ⟨bs', hbs, h⟩ := Option.bind_eq_some_iff.1 h
        cases h
        rw [hb, ih.1 hbs, List.map_cons]
      · intro h
        cases bs with
        | nil => cases h
        | cons b bs =>
            obtain ⟨hb, hbs⟩ := List.cons.inj h
            rw [hb, ih.2 hbs]
            rfl

theorem length_eq_of_mapM (h : as.mapM f = some bs) : as.length = bs.length := by
  simpa using congrArg List.length (mapM_eq_some_iff.1 h)

theorem exists_of_mapM {a : α} (h : as.mapM f = some bs) (ha : a ∈ as) : ∃ b, f a = some b := by
  have hread : f a ∈ bs.map some := mapM_eq_some_iff.1 h ▸ List.mem_map_of_mem ha
  obtain ⟨b, _, hb⟩ := List.mem_map.1 hread
  exact ⟨b, hb.symm⟩

theorem exists_mapM_iff : (∃ bs, as.mapM f = some bs) ↔ ∀ a ∈ as, ∃ b, f a = some b := by
  constructor
  · rintro ⟨bs, h⟩ a ha
    exact exists_of_mapM h ha
  · intro h
    induction as with
    | nil => exact ⟨[], rfl⟩
    | cons a as ih =>
        obtain ⟨⟨b, hb⟩, has⟩ := List.forall_mem_cons.1 h
        obtain ⟨bs, hbs⟩ := ih has
        refine ⟨b :: bs, mapM_eq_some_iff.2 ?_⟩
        rw [List.map_cons, List.map_cons, hb, mapM_eq_some_iff.1 hbs]

end Reading

/-! ### Runs -/

section Runs

variable {p : α → Bool} {run rest as : List α} {a : α}

theorem takeWhile_run (hrun : ∀ a ∈ run, p a = true) (hrest : ∀ a ∈ rest.head?, p a = false) :
    (run ++ rest).takeWhile p = run := by
  rw [List.takeWhile_append_of_pos hrun]
  cases rest with
  | nil => exact List.append_nil run
  | cons a rest =>
      rw [List.takeWhile_cons_of_neg (by simp [hrest a rfl])]
      exact List.append_nil run

theorem dropWhile_run (hrun : ∀ a ∈ run, p a = true) (hrest : ∀ a ∈ rest.head?, p a = false) :
    (run ++ rest).dropWhile p = rest := by
  rw [List.dropWhile_append_of_pos hrun]
  cases rest with
  | nil => rfl
  | cons a rest => exact List.dropWhile_cons_of_neg (by simp [hrest a rfl])

/-- What follows a run does not go on with it. -/
theorem head?_dropWhile (h : a ∈ (as.dropWhile p).head?) : p a = false := by
  have hstop := List.head?_dropWhile_not p as
  rw [Option.mem_def.1 h] at hstop
  simpa using hstop

theorem false_of_dropWhile_eq_cons (h : as.dropWhile p = a :: rest) : p a = false := by
  have hhead : a ∈ (as.dropWhile p).head? := by
    rw [h]
    rfl
  exact head?_dropWhile hhead

/-- An item that no run takes in is in what follows the run. -/
theorem mem_dropWhile (ha : a ∈ as) (hp : p a = false) : a ∈ as.dropWhile p := by
  rw [← List.takeWhile_append_dropWhile (p := p) (l := as)] at ha
  rcases List.mem_append.1 ha with htake | hdrop
  · rw [List.all_eq_true.1 List.all_takeWhile a htake] at hp
    cases hp
  · exact hdrop

/-- The place where a run ends, counted from `start` on. -/
theorem getD_findIdx? (p : α → Bool) (start : Nat) (as : List α) :
    ((as.findIdx? (!p ·)).map (start + ·)).getD (start + as.length) =
      start + (as.takeWhile p).length := by
  induction as generalizing start with
  | nil => rfl
  | cons a as ih =>
      rw [List.findIdx?_cons, List.takeWhile_cons]
      cases p a with
      | false => rfl
      | true =>
          have hnext := ih (start + 1)
          have hadd (i : Nat) : start + 1 + i = start + (i + 1) := by omega
          simp only [hadd] at hnext
          simpa [Function.comp_def] using hnext

end Runs

end Stylesheet
