import Stylesheet.Files.Resolution
import Stylesheet.Proofs.Cuts

/-! Targets of imports.

A target is known by its name as a partial file. The name keeps the directory and the stem apart, as
no slash stands in a stem, so targets of one name are one target, however they were written
(`Target.eq_of_name_eq`): the same paths are tried for them, and they resolve to the same path. Of
the paths tried, those of the partial file come before those of the plain file, and for either of
them the include directory comes before the directory of the importing file (`Target.Preferred`). -/

namespace Stylesheet

namespace Path

/-! ### File names -/

theorem isTrivial_of_length {part : Text} (h : 1 < part.length) : isTrivial part = false := by
  match part, h with
  | _ :: _ :: _, _ => simp [isTrivial]

/-- A path with a file name at its end. -/
inductive EndsIn (file : Text) : Path → Prop
  | alone : EndsIn file file
  | behind (front : Path) : EndsIn file (front ++ '/' :: file)

variable {file : Text} {p q : Path}

theorem EndsIn.append (h : EndsIn file p) (front : Path) : EndsIn file (front ++ '/' :: p) := by
  cases h with
  | alone => exact .behind front
  | behind inner =>
      rw [← List.cons_append, ← List.append_assoc]
      exact .behind _

theorem EndsIn.join (h : EndsIn file p) (base : Path) : EndsIn file (join base p) := by
  unfold Path.join
  split
  · exact h
  · split
    · exact h
    · next last hlast =>
      split
      · next hslash =>
        obtain ⟨front, rfl⟩ := List.getLast?_eq_some_iff.1 hlast
        subst hslash
        rw [List.append_assoc]
        exact h.append front
      · exact h.append base

/-- The file name is the last step of the path. -/
theorem EndsIn.getLast?_components (h : EndsIn file p) (hslash : '/' ∉ file)
    (hstep : isTrivial file = false) : p.components.getLast? = some file := by
  have hfile : file.splitOnP (· == '/') = [file] := by
    refine List.splitOnP_eq_singleton fun c hc => ?_
    rw [beq_eq_false_iff_ne]
    rintro rfl
    exact hslash hc
  obtain ⟨front, hparts⟩ : ∃ front, p.parts = front ++ [file] := by
    cases h with
    | alone => exact ⟨[], hfile⟩
    | behind front =>
        refine ⟨front.splitOnP (· == '/'), ?_⟩
        rw [parts, List.splitOnP_append_cons _ _ (by decide), hfile]
  have hsteps : p.parts.filter (!isTrivial ·) = front.filter (!isTrivial ·) ++ [file] := by
    simp [hparts, hstep]
  simp only [components, hsteps]
  split
  · rw [← List.cons_append, List.getLast?_concat]
  · split
    · rw [← List.cons_append, List.getLast?_concat]
    · rw [List.getLast?_concat]

end Path

namespace Target

/-! ### Names -/

theorem not_mem_stem (t : Text) : '/' ∉ (ofText t).stem := by
  have hbare {stem : Text} (h : '/' ∉ stem) : '/' ∉ stem.dropWhile (· == '_') :=
    fun hmem => h ((List.dropWhile_sublist _).mem hmem)
  unfold ofText
  dsimp only
  rcases Text.splitLast?_cases '/' ((Text.before? ".scss".toList t.trim).getD t.trim) with
    ⟨hnone, hsplit⟩ | ⟨directory, stem, hstem, _, hsplit⟩
  · rw [hsplit]
    exact hbare hnone
  · rw [hsplit]
    exact hbare hstem

theorem splitLast?_name {t : Target} (h : '/' ∉ t.stem) :
    Text.splitLast? '/' t.name = t.directory.map fun directory => (directory, '_' :: t.stem) := by
  have hfile : '/' ∉ '_' :: t.stem := by simpa using h
  obtain ⟨_ | directory, stem⟩ := t
  · exact Text.splitLast?_of_not_mem hfile
  · exact Text.splitLast?_append hfile directory

/-- The name of a target tells all of it. -/
theorem eq_of_name_eq {s t : Target} (hs : '/' ∉ s.stem) (ht : '/' ∉ t.stem) (h : s.name = t.name) :
    s = t := by
  have hsplit := splitLast?_name hs
  rw [h, splitLast?_name ht] at hsplit
  obtain ⟨_ | directory, stem⟩ := s
  · obtain ⟨_ | directory', stem'⟩ := t
    · cases h
      rfl
    · cases hsplit
  · obtain ⟨_ | directory', stem'⟩ := t
    · cases hsplit
    · cases hsplit
      rfl

/-! ### Paths tried -/

/-- The paths tried for one of the file names of a target, in order. -/
def paths (t : Target) (file : Text) (includePath : Option Path) (importer : Path) : List Path :=
  (places includePath importer).map fun place => Path.join place (t.relative file)

theorem candidates_eq_append (t : Target) (includePath : Option Path) (importer : Path) :
    t.candidates includePath importer =
      t.paths t.partialFile includePath importer ++ t.paths t.plainFile includePath importer := by
  simp [candidates, paths, places]

theorem paths_some (t : Target) (file : Text) (place importer : Path) :
    t.paths file (some place) importer =
      Path.join place (t.relative file) :: t.paths file none importer :=
  rfl

theorem endsIn_relative (t : Target) (file : Text) : Path.EndsIn file (t.relative file) := by
  unfold relative
  split
  · exact Path.EndsIn.alone.join _
  · exact .alone

theorem endsIn_of_mem_paths {t : Target} {file : Text} {includePath : Option Path}
    {importer p : Path} (h : p ∈ t.paths file includePath importer) : Path.EndsIn file p := by
  obtain ⟨place, _, rfl⟩ := List.mem_map.1 h
  exact (t.endsIn_relative file).join place

theorem getLast?_components_of_mem_paths {t : Target} {file : Text} (hslash : '/' ∉ file)
    (hlength : 1 < file.length) {includePath : Option Path} {importer p : Path}
    (h : p ∈ t.paths file includePath importer) : p.components.getLast? = some file :=
  (endsIn_of_mem_paths h).getLast?_components hslash (Path.isTrivial_of_length hlength)

theorem getLast?_partialPath {t : Target} (ht : '/' ∉ t.stem) {includePath : Option Path}
    {importer p : Path} (h : p ∈ t.paths t.partialFile includePath importer) :
    p.components.getLast? = some t.partialFile :=
  getLast?_components_of_mem_paths (by simpa [partialFile] using ht) (by simp [partialFile]) h

theorem getLast?_plainPath {t : Target} (ht : '/' ∉ t.stem) {includePath : Option Path}
    {importer p : Path} (h : p ∈ t.paths t.plainFile includePath importer) :
    p.components.getLast? = some t.plainFile :=
  getLast?_components_of_mem_paths (by simpa [plainFile] using ht) (by simp [plainFile]) h

/-- A path to the partial file is no path to the plain file, wherever they lead. -/
theorem not_same_of_mem_paths {t : Target} (ht : '/' ∉ t.stem) {includePath : Option Path}
    {importer p q : Path} (hp : p ∈ t.paths t.partialFile includePath importer)
    (hq : q ∈ t.paths t.plainFile includePath importer) : p.same q = false := by
  rw [Path.same, beq_eq_false_iff_ne]
  intro heq
  have hlast := getLast?_partialPath ht hp
  rw [heq, getLast?_plainPath ht hq] at hlast
  have hlength := congrArg List.length (Option.some.inj hlast)
  simp [partialFile, plainFile] at hlength

/-! ### The path chosen -/

/-- What makes a path the one that a target resolves to. -/
structure Preferred (t : Target) (d : Disk) (includePath : Option Path) (importer p : Path) :
    Prop where
  tried : p ∈ t.candidates includePath importer
  /-- If any path that is tried leads to a file, so does the chosen one. -/
  isFile : ∀ q ∈ t.candidates includePath importer, d.isFile q = true → d.isFile p = true
  /-- The plain file is not chosen if the partial file is found anywhere. -/
  partialFirst : ∀ q ∈ t.paths t.partialFile includePath importer, d.isFile q = true →
    ∀ r ∈ t.paths t.plainFile includePath importer, p.same r = false
  /-- The partial file in the include directory is chosen if it is there. -/
  includedPartial : ∀ place ∈ includePath,
    d.isFile (Path.join place (t.relative t.partialFile)) = true →
      p = Path.join place (t.relative t.partialFile)
  /-- So is the plain file, if the partial file is nowhere. -/
  includedPlain : ∀ place ∈ includePath,
    d.isFile (Path.join place (t.relative t.plainFile)) = true →
      (∀ q ∈ t.paths t.partialFile includePath importer, d.isFile q = false) →
        p = Path.join place (t.relative t.plainFile)
  /-- If nothing is found, the plain file is taken to be in the directory of the importing file. -/
  absent : (∀ q ∈ t.candidates includePath importer, d.isFile q = false) →
    p = Path.join ((Path.parent? importer).getD []) (t.relative t.plainFile)

variable {t : Target} {d : Disk} {includePath : Option Path} {importer p : Path}

theorem find?_eq_or (t : Target) (d : Disk) (includePath : Option Path) (importer : Path) :
    t.find? d includePath importer =
      ((t.paths t.partialFile includePath importer).find? d.isFile).or
        ((t.paths t.plainFile includePath importer).find? d.isFile) := by
  rw [find?, candidates_eq_append, List.find?_append]

theorem resolve_of_find? (h : t.find? d includePath importer = some p) :
    t.resolve d includePath importer = p := by
  rw [resolve, h, Option.getD_some]

theorem getLast?_candidates (t : Target) (includePath : Option Path) (importer : Path) :
    (t.candidates includePath importer).getLast? =
      some (Path.join ((Path.parent? importer).getD []) (t.relative t.plainFile)) := by
  rw [candidates_eq_append, paths, paths, places, List.map_append, List.map_append,
    ← List.append_assoc]
  exact List.getLast?_concat

theorem resolve_of_find?_eq_none (h : t.find? d includePath importer = none) :
    t.resolve d includePath importer =
      Path.join ((Path.parent? importer).getD []) (t.relative t.plainFile) := by
  rw [resolve, h, Option.getD_none, getLast?_candidates, Option.getD_some]

theorem resolve_mem_candidates (t : Target) (d : Disk) (includePath : Option Path)
    (importer : Path) :
    t.resolve d includePath importer ∈ t.candidates includePath importer := by
  cases hfind : t.find? d includePath importer with
  | some p =>
      rw [resolve_of_find? hfind]
      exact List.mem_of_find?_eq_some hfind
  | none =>
      rw [resolve_of_find?_eq_none hfind]
      exact List.mem_of_getLast? (getLast?_candidates t includePath importer)

theorem isFile_resolve {q : Path} (hq : q ∈ t.candidates includePath importer)
    (hfile : d.isFile q = true) : d.isFile (t.resolve d includePath importer) = true := by
  obtain ⟨p, hfind⟩ : ∃ p, t.find? d includePath importer = some p :=
    Option.isSome_iff_exists.1 (List.find?_isSome.2 ⟨q, hq, hfile⟩)
  rw [resolve_of_find? hfind]
  exact List.find?_some hfind

/-- If a path to the partial file leads to a file, such a path is chosen. -/
theorem resolve_mem_paths {q : Path} (hq : q ∈ t.paths t.partialFile includePath importer)
    (hfile : d.isFile q = true) :
    t.resolve d includePath importer ∈ t.paths t.partialFile includePath importer := by
  obtain ⟨p, hfind⟩ : ∃ p, (t.paths t.partialFile includePath importer).find? d.isFile = some p :=
    Option.isSome_iff_exists.1 (List.find?_isSome.2 ⟨q, hq, hfile⟩)
  have hfirst : t.find? d includePath importer = some p := by
    rw [find?_eq_or, hfind, Option.some_or]
  rw [resolve_of_find? hfirst]
  exact List.mem_of_find?_eq_some hfind

theorem find?_paths_some {file : Text} {place : Path}
    (hfile : d.isFile (Path.join place (t.relative file)) = true) :
    (t.paths file (some place) importer).find? d.isFile =
      some (Path.join place (t.relative file)) := by
  rw [paths_some]
  exact List.find?_cons_of_pos hfile

theorem preferred_resolve (ht : '/' ∉ t.stem) (d : Disk) (includePath : Option Path)
    (importer : Path) :
    t.Preferred d includePath importer (t.resolve d includePath importer) where
  tried := resolve_mem_candidates t d includePath importer
  isFile := fun _ hq hfile => isFile_resolve hq hfile
  partialFirst := fun _ hq hfile _ hr => not_same_of_mem_paths ht (resolve_mem_paths hq hfile) hr
  includedPartial := by
    rintro place ⟨⟩ hfile
    refine resolve_of_find? ?_
    rw [find?_eq_or, find?_paths_some hfile, Option.some_or]
  includedPlain := by
    rintro place ⟨⟩ hfile hnone
    have hpartial : (t.paths t.partialFile (some place) importer).find? d.isFile = none := by
      refine List.find?_eq_none.2 fun q hq => ?_
      simp [hnone q hq]
    refine resolve_of_find? ?_
    rw [find?_eq_or, hpartial, Option.none_or, find?_paths_some hfile]
  absent := by
    intro hnone
    refine resolve_of_find?_eq_none (List.find?_eq_none.2 fun q hq => ?_)
    simp [hnone q hq]

/-- The name of a target decides which paths are tried for it and which one it resolves to, and this
is the preferred one. -/
theorem resolve_by_name (d : Disk) (includePath : Option Path) (importer : Path) :
    (∀ s t : Text, (ofText s).name = (ofText t).name →
        (ofText s).candidates includePath importer = (ofText t).candidates includePath importer ∧
          (ofText s).resolve d includePath importer = (ofText t).resolve d includePath importer) ∧
      ∀ t : Text, (ofText t).Preferred d includePath importer
        ((ofText t).resolve d includePath importer) := by
  refine ⟨fun s t h => ?_, fun t => preferred_resolve (not_mem_stem t) d includePath importer⟩
  rw [eq_of_name_eq (not_mem_stem s) (not_mem_stem t) h]
  exact ⟨rfl, rfl⟩

/-- A disk with a plain file in the include directory and a partial file next to the importing one.
-/
def scattered : Disk where
  directories := [["i".toList], ["i".toList, "a".toList], ["s".toList], ["s".toList, "a".toList]]
  files := [(["i".toList, "a".toList, "b.scss".toList], .empty),
    (["s".toList, "a".toList, "_b.scss".toList], .empty)]
  current := []

theorem resolve_by_name_scattered :
    (ofText "a/__b.scss".toList).resolve scattered (some "/i".toList) "/s/m.scss".toList =
        (ofText " a/b".toList).resolve scattered (some "/i".toList) "/s/m.scss".toList ∧
      ((ofText " a/b".toList).resolve scattered (some "/i".toList) "/s/m.scss".toList).same
        "/i/a/b.scss".toList = false := by
  obtain ⟨hnames, hpreferred⟩ := resolve_by_name scattered (some "/i".toList) "/s/m.scss".toList
  refine ⟨(hnames "a/__b.scss".toList " a/b".toList (by decide +kernel)).2, ?_⟩
  exact (hpreferred " a/b".toList).partialFirst "/s/a/_b.scss".toList (by decide +kernel)
    (by decide +kernel) _ (by decide +kernel)

end Target

end Stylesheet
