import Stylesheet.Proofs.Shape
import Stylesheet.Proofs.Sources
import Stylesheet.Proofs.Usage

/-! Files that are imported more than once.

A file stands in a tree as often as it is imported, and each time with all of its variables. What is
declared once on the disk then has several sites, the copies of one declaration (`Disk.Copies`).
They hold the same variable, since a source has one variable at a position.

The report tells sites apart, not declarations. It lists all copies of a declaration or none, and
what a copy says about itself is a use of the other copies. A declaration that refers to itself is
therefore reported if its file is imported once, and not any more if it is imported twice. -/

namespace Stylesheet

/-! ### Copies hold the same variable -/

namespace Disk

/-- Two sites of one declaration: their paths lead to the same place, and they have the same
position there. -/
structure Copies (d : Disk) (a b : Path × Variable) : Prop where
  place : d.follow a.1 = d.follow b.1
  position : a.2.position = b.2.position

variable {d : Disk} {p q : Path} {source other : Text}

theorem locate_of_readSource (h : d.readSource p = .ok source) : d.locate p = d.follow p := by
  unfold locate
  split
  · next hlong =>
      have hlocate : d.locate p = .error .nameTooLong := if_pos hlong
      unfold readSource read at h
      rw [hlocate] at h
      cases h
  · rfl

/-- Paths that lead to one place lead to one source. -/
theorem source_eq_of_follow_eq (hp : d.readSource p = .ok source)
    (hq : d.readSource q = .ok other) (h : d.follow p = d.follow q) : source = other := by
  have hlocate : d.locate p = d.locate q := by
    rw [locate_of_readSource hp, locate_of_readSource hq, h]
  have hread : d.readSource p = d.readSource q := by
    unfold readSource read
    rw [hlocate]
  rw [hp, hq] at hread
  exact Except.ok.inj hread

end Disk

/-- A source has one variable at a position. -/
theorem Extraction.var_eq_of_position_eq {source : Text} {e : Extraction} {v v' : Variable}
    (hrun : run source = .ok e) (hv : v ∈ e.content.vars) (hv' : v' ∈ e.content.vars)
    (h : v.position = v'.position) : v = v' := by
  have hnodup : (e.content.vars.map Variable.position).Nodup :=
    (shaped_of_run hrun).vars.imp fun hlt => hlt.ne
  exact List.inj_on_of_nodup_map hnodup hv hv' h

namespace Workspace

variable {w : Workspace} {root : Path} {loaded : Loaded}

theorem exists_source_of_site (h : (w.load root).result = .ok loaded) {site : Path × Variable}
    (hsite : site ∈ loaded.file.variableSites) :
    ∃ source e, w.disk.readSource site.1 = .ok source ∧ Extraction.run source = .ok e ∧
      site.2 ∈ e.content.vars := by
  obtain ⟨parts, hparts⟩ := exists_parts_of_loadFrom h
  obtain ⟨file, hfile, hsite⟩ := List.mem_flatMap.1 hsite
  obtain ⟨v, hv, rfl⟩ := List.mem_map.1 hsite
  rw [← hparts.files] at hfile
  obtain ⟨part, hpart, rfl⟩ := List.mem_map.1 hfile
  have hsound := hparts.sound part hpart
  exact ⟨part.source, part.extraction, hparts.read part hpart, hsound.run, hsound.vars ▸ hv⟩

/-- The copies of a declaration in a tree hold the same variable. -/
theorem var_eq_of_copies (h : (w.load root).result = .ok loaded) {a b : Path × Variable}
    (ha : a ∈ loaded.file.variableSites) (hb : b ∈ loaded.file.variableSites)
    (hcopies : w.disk.Copies a b) : a.2 = b.2 := by
  obtain ⟨source, e, hread, hrun, ha⟩ := exists_source_of_site h ha
  obtain ⟨source', e', hread', hrun', hb⟩ := exists_source_of_site h hb
  obtain rfl := Disk.source_eq_of_follow_eq hread hread' hcopies.place
  obtain rfl := Except.ok.inj (hrun.symm.trans hrun')
  exact Extraction.var_eq_of_position_eq hrun ha hb hcopies.position

end Workspace

/-! ### The report of a tree with copies -/

/-- The token of a variable stands in its own value. -/
def Variable.RefersToItself (v : Variable) : Prop :=
  ∃ t ∈ v.value.tokens, t.HasToken v.name

namespace SourceFile

variable {f : SourceFile} {d : Disk}

/-- The only copy of a declaration in the tree. -/
def OnlyCopy (f : SourceFile) (d : Disk) (i : Fin f.variableSites.length) : Prop :=
  ∀ j, d.Copies (f.variableSites.get i) (f.variableSites.get j) → j = i

/-- The token of a variable stands nowhere in the tree but in the value of its own declaration. -/
structure OnlyInItself (f : SourceFile) (d : Disk) (site : Path × Variable) : Prop where
  rules : ¬f.UsesInRules site.2.name
  values : ∀ other ∈ f.variableSites, ∀ t ∈ other.2.value.tokens, t.HasToken site.2.name →
    d.Copies site other

theorem Unused.of_copy {i j : Fin f.variableSites.length} (h : f.Unused i)
    (hvar : (f.variableSites.get i).2 = (f.variableSites.get j).2) : f.Unused j := by
  refine ⟨hvar ▸ h.rules, fun k hne t ht htoken => ?_⟩
  rw [← hvar] at htoken
  by_cases hki : k = i
  · -- The value of `i` is that of `j`, which is another site for `i`.
    subst hki
    exact h.values j hne.symm t (hvar ▸ ht) htoken
  · exact h.values k hki t ht htoken

/-- With nothing outside its declaration that refers to it, a site is unused if it has no other copy
or does not refer to itself. -/
theorem OnlyInItself.unused_iff {i : Fin f.variableSites.length}
    (h : f.OnlyInItself d (f.variableSites.get i))
    (hvar : ∀ j, d.Copies (f.variableSites.get i) (f.variableSites.get j) →
      (f.variableSites.get i).2 = (f.variableSites.get j).2) :
    f.Unused i ↔ f.OnlyCopy d i ∨ ¬(f.variableSites.get i).2.RefersToItself := by
  constructor
  · intro hunused
    by_cases halone : f.OnlyCopy d i
    · exact .inl halone
    · unfold OnlyCopy at halone
      push Not at halone
      obtain ⟨j, hcopies, hne⟩ := halone
      refine .inr fun ⟨t, ht, htoken⟩ => hunused.values j hne t ?_ htoken
      exact hvar j hcopies ▸ ht
  · intro hcases
    refine ⟨h.rules, fun j hne t ht htoken => ?_⟩
    have hcopies := h.values _ (List.get_mem _ j) t ht htoken
    rcases hcases with halone | hitself
    · exact hne (halone j hcopies)
    · exact hitself ⟨t, hvar j hcopies ▸ ht, htoken⟩

end SourceFile

namespace Workspace

variable {w : Workspace} {root : Path} {loaded : Loaded}

/-- The report has one line for each site that is kept, and of the copies of a declaration all are
kept or none is. A declaration that at most its own value refers to is kept if it has one copy; if
it has more, it is kept only if it does not refer to itself, and reported for each of them. -/
theorem unused_by_copies (h : (w.load root).result = .ok loaded) :
    ∃ kept : List (Fin loaded.file.variableSites.length), kept.Pairwise (· < ·) ∧
      loaded.file.unused = kept.map (fun i => .ofSite (loaded.file.variableSites.get i)) ∧
      (∀ i j, w.disk.Copies (loaded.file.variableSites.get i) (loaded.file.variableSites.get j) →
        (i ∈ kept ↔ j ∈ kept)) ∧
      ∀ i, loaded.file.OnlyInItself w.disk (loaded.file.variableSites.get i) →
        (i ∈ kept ↔ loaded.file.OnlyCopy w.disk i ∨
          ¬(loaded.file.variableSites.get i).2.RefersToItself) := by
  have hvar (i j) (hcopies : w.disk.Copies (loaded.file.variableSites.get i)
      (loaded.file.variableSites.get j)) :
      (loaded.file.variableSites.get i).2 = (loaded.file.variableSites.get j).2 :=
    var_eq_of_copies h (List.get_mem _ i) (List.get_mem _ j) hcopies
  refine ⟨_, (List.pairwise_lt_finRange _).filter _, loaded.file.unused_eq, ?_, ?_⟩
  · intro i j hcopies
    simp only [List.mem_filter, List.mem_finRange, true_and, Bool.not_eq_true',
      SourceFile.not_isUsed_iff]
    exact ⟨fun hunused => hunused.of_copy (hvar i j hcopies),
      fun hunused => hunused.of_copy (hvar i j hcopies).symm⟩
  · intro i honly
    simp only [List.mem_filter, List.mem_finRange, true_and, Bool.not_eq_true',
      SourceFile.not_isUsed_iff]
    exact honly.unused_iff (hvar i)

/-- A file that is imported under two spellings of its path. -/
def twoSpellings : Workspace where
  disk :=
    { directories := []
      files :=
        [(["a.scss".toList], "@import 'd', './d'; $z: $z;".toUTF8),
          (["_d.scss".toList], "$x: 1px; $y: $y;".toUTF8)]
      current := [] }
  includePath := none

theorem unused_by_copies_two_spellings :
    ∃ loaded, (twoSpellings.load "a.scss".toList).result = .ok loaded ∧
      loaded.file.unused.map (fun u => (u.name, u.path)) =
        [("z".toList, "a.scss".toList), ("x".toList, "_d.scss".toList),
          ("x".toList, "./_d.scss".toList)] ∧
      ∃ kept : List (Fin loaded.file.variableSites.length),
        loaded.file.unused = kept.map (fun i => .ofSite (loaded.file.variableSites.get i)) ∧
        (∀ i j, twoSpellings.disk.Copies (loaded.file.variableSites.get i)
          (loaded.file.variableSites.get j) → (i ∈ kept ↔ j ∈ kept)) ∧
        ∀ i, loaded.file.OnlyInItself twoSpellings.disk (loaded.file.variableSites.get i) →
          (i ∈ kept ↔ loaded.file.OnlyCopy twoSpellings.disk i ∨
            ¬(loaded.file.variableSites.get i).2.RefersToItself) := by
  have hread : (twoSpellings.load "a.scss".toList).result.toOption.map (fun loaded =>
      loaded.file.unused.map fun u => (u.name, u.path)) =
        some [("z".toList, "a.scss".toList), ("x".toList, "_d.scss".toList),
          ("x".toList, "./_d.scss".toList)] := by
    decide +kernel
  obtain ⟨loaded, hload, hunused⟩ := exists_ok_of_toOption_map hread
  obtain ⟨kept, _, hkept⟩ := unused_by_copies hload
  exact ⟨loaded, hload, hunused, kept, hkept⟩

/-- A file that is imported by two others. -/
def twoBranches : Workspace where
  disk :=
    { directories := []
      files :=
        [(["a.scss".toList], "@import \"b\", \"c\";".toUTF8),
          (["_b.scss".toList], "@import \"d\";".toUTF8),
          (["_c.scss".toList], "@import \"d\";".toUTF8),
          (["_d.scss".toList], "$x: 1px;\n$y: $y;\n".toUTF8)]
      current := [] }
  includePath := none

/-- Two variables that nothing else refers to: one is reported twice, and the one that refers to
itself is not reported. -/
theorem unused_of_two_branches :
    ∃ loaded, (twoBranches.load "a.scss".toList).result = .ok loaded ∧
      loaded.file.unused = .replicate 2 ⟨"x".toList, "_d.scss".toList, ⟨1, 0⟩⟩ ∧
      ∃ site ∈ loaded.file.variableSites, site.2.name = "y".toList ∧
        loaded.file.OnlyInItself twoBranches.disk site := by
  -- The sites that refer to `y` are the two copies of its declaration.
  have hread : (twoBranches.load "a.scss".toList).result.toOption.map (fun loaded =>
      (loaded.file.unused, loaded.file.ruleReferences,
        (loaded.file.variableSites.filter
          (·.2.value.references.contains "y".toList)).map UnusedVariable.ofSite)) =
      some (.replicate 2 ⟨"x".toList, "_d.scss".toList, ⟨1, 0⟩⟩, [],
        .replicate 2 ⟨"y".toList, "_d.scss".toList, ⟨2, 0⟩⟩) := by
    decide +kernel
  obtain ⟨loaded, hload, hfound⟩ := exists_ok_of_toOption_map hread
  obtain ⟨hunused, hrules, hrefer⟩ : _ ∧ _ ∧ _ := by simpa only [Prod.mk.injEq] using hfound
  obtain ⟨hlength, hall⟩ := List.eq_replicate_iff.1 hrefer
  rw [List.length_map] at hlength
  obtain ⟨site, hmem⟩ := List.exists_mem_of_length_pos (Nat.two_pos.trans_eq hlength.symm)
  have hsite : UnusedVariable.ofSite site = ⟨"y".toList, "_d.scss".toList, ⟨2, 0⟩⟩ :=
    hall _ (List.mem_map_of_mem hmem)
  obtain ⟨hname, hpath, hposition⟩ : site.2.name = _ ∧ site.1 = _ ∧ site.2.position = _ := by
    simpa only [UnusedVariable.ofSite, UnusedVariable.mk.injEq] using hsite
  refine ⟨loaded, hload, hunused, site, List.mem_of_mem_filter hmem, hname, ?_, ?_⟩
  · rw [← SourceFile.mem_ruleReferences_iff, hrules]
    exact List.not_mem_nil
  · intro other hother t ht htoken
    rw [hname] at htoken
    have hrefers := Value.mem_references_iff.2 ⟨t, ht, htoken⟩
    have hother := hall _ (List.mem_map_of_mem
      (List.mem_filter.2 ⟨hother, List.contains_iff_mem.2 hrefers⟩))
    obtain ⟨_, hpath', hposition'⟩ : other.2.name = _ ∧ other.1 = _ ∧ other.2.position = _ := by
      simpa only [UnusedVariable.ofSite, UnusedVariable.mk.injEq] using hother
    exact ⟨by rw [hpath, hpath'], by rw [hposition, hposition']⟩

end Workspace

end Stylesheet
