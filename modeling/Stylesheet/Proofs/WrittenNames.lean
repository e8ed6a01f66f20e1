import Stylesheet.Proofs.Targets

/-! Names as they are written.

A file may stand next to the importing file under the very name that a target has. The paths tried
for the target are put together from its stem, which has no underscore at its start, so they have at
most one underscore there. The path as it is written is among them exactly if its file name starts
with at most one (`Target.resolve_written`); it may be spelled with one slash in place of two, which
leads to the same place (`Disk.isFile_of_undoubles`), and then the target resolves to a file if the
path as written leads to one. A file whose name starts with two underscores is not found by its
name. -/

namespace Stylesheet

namespace Path

variable {p q : Path}

/-- What follows the last slash of a path. -/
def fileName (p : Path) : Text :=
  ((Text.splitLast? '/' p).map Prod.snd).getD p

theorem fileName_append {file : Text} (h : '/' ∉ file) (directory : Text) :
    fileName (directory ++ '/' :: file) = file := by
  rw [fileName, Text.splitLast?_append h]
  rfl

theorem fileName_of_not_mem {file : Text} (h : '/' ∉ file) : fileName file = file := by
  rw [fileName, Text.splitLast?_of_not_mem h]
  rfl

theorem isAbsolute_of_not_mem (h : '/' ∉ p) : isAbsolute p = false := by
  rw [isAbsolute, beq_eq_false_iff_ne]
  exact fun hfirst => h (List.mem_of_head? hfirst)

/-- A path that is not absolute is joined behind the same text whatever it is. -/
theorem exists_join (base : Path) :
    ∃ front, ∀ p, isAbsolute p = false → join base p = front ++ p := by
  cases hlast : base.getLast? with
  | none => exact ⟨[], fun p hp => by simp [join, hp, hlast]⟩
  | some last =>
      by_cases hslash : last = '/'
      · exact ⟨base, fun p hp => by simp [join, hp, hlast, hslash]⟩
      · exact ⟨base ++ ['/'], fun p hp => by simp [join, hp, hlast, hslash]⟩

theorem parts_append (p q : Path) : parts (p ++ '/' :: q) = p.parts ++ q.parts :=
  List.splitOnP_append_cons _ _ (by decide)

theorem parts_ne_nil (p : Path) : p.parts ≠ [] :=
  List.splitOnP_ne_nil _ _

/-! ### Slashes side by side -/

/-- The path with one slash in place of two side by side. -/
inductive Undoubles : Path → Path → Prop
  | refl (p : Path) : Undoubles p p
  | slash (p q : Path) : Undoubles (p ++ '/' :: '/' :: q) (p ++ '/' :: q)

theorem parts_doubled (p q : Path) : parts (p ++ '/' :: '/' :: q) = p.parts ++ [] :: q.parts := by
  rw [parts_append, ← List.nil_append ('/' :: q), parts_append]
  rfl

theorem Undoubles.isAbsolute_eq (h : Undoubles p q) : isAbsolute q = isAbsolute p := by
  cases h with
  | refl => rfl
  | slash p q => cases p <;> rfl

theorem Undoubles.append (h : Undoubles p q) (front : Path) :
    Undoubles (front ++ p) (front ++ q) := by
  cases h with
  | refl => exact .refl _
  | slash p q =>
      rw [← List.append_assoc, ← List.append_assoc]
      exact .slash _ _

theorem Undoubles.byteLength_le (h : Undoubles p q) : q.byteLength ≤ p.byteLength := by
  cases h with
  | refl => exact Nat.le_refl _
  | slash p q =>
      simp only [Text.byteLength_append, Text.byteLength_cons]
      omega

theorem Undoubles.join (h : Undoubles p q) (hp : isAbsolute p = false) (base : Path) :
    Undoubles (join base p) (join base q) := by
  obtain ⟨front, hfront⟩ := exists_join base
  rw [hfront p hp, hfront q (h.isAbsolute_eq.trans hp)]
  exact h.append front

/-- A directory is joined with a file by one slash, even if it has a slash at its end. -/
theorem undoubles_join {directory file : Path} (hfile : isAbsolute file = false)
    (h : isAbsolute (directory ++ '/' :: file) = false) :
    Undoubles (directory ++ '/' :: file) (Path.join directory file) := by
  rw [Path.join, if_neg (by simp [hfile])]
  cases hlast : directory.getLast? with
  | none =>
      rw [List.getLast?_eq_none_iff.1 hlast] at h
      cases h
  | some last =>
      by_cases hslash : last = '/'
      · obtain ⟨front, rfl⟩ := List.getLast?_eq_some_iff.1 hlast
        subst hslash
        simpa using Undoubles.slash front file
      · simpa [hslash] using Undoubles.refl (directory ++ '/' :: file)

theorem Undoubles.same (h : Undoubles p q) : q.same p = true := by
  have habsolute := h.isAbsolute_eq
  rw [Path.same, beq_iff_eq]
  cases h with
  | refl => rfl
  | slash p q =>
      have hsteps : (parts (p ++ '/' :: '/' :: q)).filter (!isTrivial ·) =
          (parts (p ++ '/' :: q)).filter (!isTrivial ·) := by
        rw [parts_doubled, parts_append, List.filter_append, List.filter_append]
        rfl
      have hfirst : (parts (p ++ '/' :: '/' :: q)).head? = (parts (p ++ '/' :: q)).head? := by
        rw [parts_doubled, parts_append, List.head?_append_of_ne_nil _ (parts_ne_nil p),
          List.head?_append_of_ne_nil _ (parts_ne_nil p)]
      rw [components, components, startsWithDot, startsWithDot, habsolute, hsteps, hfirst]

end Path

namespace Disk

variable {d : Disk} {p q : Path} {l m : Location}

theorem enter_empty (h : d.enter l [] = .ok m) : m = l := by
  unfold enter at h
  split at h
  · cases h
  · cases h
    rfl

/-- An empty part may be left out where other parts follow. -/
theorem foldlM_enter_of_empty {front rest : List Text}
    (h : (front ++ [] :: rest).foldlM d.enter l = .ok m) :
    (front ++ rest).foldlM d.enter l = .ok m := by
  rw [List.foldlM_append] at h ⊢
  obtain ⟨k, hfront, h⟩ := exists_of_bind h
  rw [List.foldlM_cons] at h
  obtain ⟨k', henter, h⟩ := exists_of_bind h
  rw [enter_empty henter] at h
  rw [hfront]
  exact h

theorem follow_of_undoubles (h : p.Undoubles q) (hp : d.follow p = .ok l) : d.follow q = .ok l := by
  have habsolute := h.isAbsolute_eq
  cases h with
  | refl => exact hp
  | slash p q =>
      have hzero : (p ++ '/' :: q).contains '\x00' = (p ++ '/' :: '/' :: q).contains '\x00' := by
        simp
      unfold follow at hp ⊢
      rw [hzero, habsolute, Path.parts_append]
      rw [Path.parts_doubled] at hp
      split at hp
      · cases hp
      · split at hp
        · cases hp
        · rw [if_neg (by assumption), if_neg (by simp)]
          exact foldlM_enter_of_empty hp

/-- The place is opened as a whole if it is reached part by part and the path is short. -/
theorem locate_eq_ok_iff : d.locate p = .ok l ↔ p.byteLength < 4096 ∧ d.follow p = .ok l := by
  refine ⟨fun h => ⟨?_, follow_of_locate h⟩, fun ⟨hshort, hfollow⟩ => ?_⟩
  · by_contra hlong
    have hzero : p.contains '\x00' = false := by
      have hfollow := follow_of_locate h
      unfold follow at hfollow
      split at hfollow
      · cases hfollow
      · next hzero => exact Bool.eq_false_iff.2 hzero
    simp only [locate, hzero, Nat.le_of_not_lt hlong, decide_true, Bool.not_false, Bool.and_self,
      if_true] at h
    cases h
  · rw [locate, if_neg (by simp [Nat.not_le_of_lt hshort]), hfollow]

theorem locate_of_undoubles (h : p.Undoubles q) (hp : d.locate p = .ok l) :
    d.locate q = .ok l := by
  obtain ⟨hshort, hfollow⟩ := locate_eq_ok_iff.1 hp
  exact locate_eq_ok_iff.2
    ⟨Nat.lt_of_le_of_lt h.byteLength_le hshort, follow_of_undoubles h hfollow⟩

theorem isFile_of_undoubles (h : p.Undoubles q) (hp : d.isFile p = true) : d.isFile q = true := by
  unfold isFile at hp ⊢
  cases hlocate : d.locate p with
  | error fault =>
      rw [hlocate] at hp
      cases hp
  | ok l =>
      rw [hlocate] at hp
      rw [locate_of_undoubles h hlocate]
      exact hp

end Disk

namespace Target

/-! ### Targets and their names -/

/-- The path of a target as it is written, with its extension. -/
def written (t : Text) : Path :=
  if ".scss".toList <:+ t then t else t ++ ".scss".toList

theorem bare_of_head?_ne {stem : Text} (h : stem.head? ≠ some '_') : bare stem = stem := by
  cases stem with
  | nil => rfl
  | cons c rest =>
      refine List.dropWhile_cons_of_neg ?_
      rw [beq_iff_eq]
      rintro rfl
      exact h rfl

/-- A bare stem starts with another character than an underscore, also with its extension. -/
theorem head?_file_ne (stem : Text) : (bare stem ++ ".scss".toList).head? ≠ some '_' := by
  cases hbare : bare stem with
  | nil => decide
  | cons c rest =>
      intro h
      obtain rfl : c = '_' := Option.some.inj h
      have hstop : ('_' == '_') = false := false_of_dropWhile_eq_cons (p := (· == '_')) hbare
      cases hstop

/-- A path leads into the directory of a target and ends in its stem, maybe behind underscores. -/
inductive Spells : Path → Target → Prop
  | alone {stem : Text} (hstem : '/' ∉ stem) :
      Spells (stem ++ ".scss".toList) ⟨none, bare stem⟩
  | inside (directory : Text) {stem : Text} (hstem : '/' ∉ stem) :
      Spells (directory ++ '/' :: (stem ++ ".scss".toList)) ⟨some directory, bare stem⟩

theorem written_eq (t : Text) :
    written t = (Text.before? ".scss".toList t).getD t ++ ".scss".toList := by
  cases hbefore : Text.before? ".scss".toList t with
  | none => rw [written, if_neg (Text.before?_eq_none_iff.1 hbefore), Option.getD_none]
  | some rest =>
      have ht : t = rest ++ ".scss".toList := Text.before?_eq_some_iff.1 hbefore
      rw [written, if_pos (ht ▸ List.suffix_append rest _), Option.getD_some, ht]

theorem spells_written {t : Text} (ht : t.trim = t) : Spells (written t) (ofText t) := by
  unfold ofText
  dsimp only
  rw [written_eq, ht]
  rcases Text.splitLast?_cases '/' ((Text.before? ".scss".toList t).getD t) with
    ⟨hnone, hsplit⟩ | ⟨directory, stem, hstem, hcut, hsplit⟩
  · rw [hsplit]
    exact .alone hnone
  · rw [hsplit, hcut, List.append_assoc]
    exact .inside directory hstem

variable {p q : Path} {t : Target}

theorem isAbsolute_written {t : Text} (h : Path.isAbsolute t = false) :
    Path.isAbsolute (written t) = false := by
  unfold written
  split
  · exact h
  · cases t with
    | nil => rfl
    | cons c t => exact h

theorem not_mem_file {stem : Text} (h : '/' ∉ stem) : '/' ∉ stem ++ ".scss".toList := by
  simpa using h

/-- The file name of a path that spells a target. -/
theorem Spells.fileName (h : Spells p t) :
    ∃ stem, Path.fileName p = stem ++ ".scss".toList ∧ '/' ∉ stem ∧ t.stem = bare stem ∧
      Path.EndsIn (stem ++ ".scss".toList) p := by
  cases h with
  | alone hstem => exact ⟨_, Path.fileName_of_not_mem (not_mem_file hstem), hstem, rfl, .alone⟩
  | inside directory hstem =>
      exact ⟨_, Path.fileName_append (not_mem_file hstem) directory, hstem, rfl, .behind directory⟩

/-- A name with at most one underscore is that of the partial file or that of the plain file. -/
theorem file_eq_or {stem : Text} (hstem : t.stem = bare stem)
    (h : ¬['_', '_'] <+: stem ++ ".scss".toList) :
    stem ++ ".scss".toList = t.partialFile ∨ stem ++ ".scss".toList = t.plainFile := by
  rw [partialFile, plainFile, hstem]
  by_cases hfirst : stem.head? = some '_'
  · obtain ⟨rest, rfl⟩ : ∃ rest, stem = '_' :: rest := List.head?_eq_some_iff.1 hfirst
    have hrest : bare rest = rest := bare_of_head?_ne fun hsecond => by
      obtain ⟨more, rfl⟩ : ∃ more, rest = '_' :: more := List.head?_eq_some_iff.1 hsecond
      exact h ⟨more ++ ".scss".toList, rfl⟩
    have hbare : bare ('_' :: rest) = bare rest := rfl
    rw [hbare, hrest]
    exact .inl rfl
  · rw [bare_of_head?_ne hfirst]
    exact .inr rfl

/-- The files of a target have at most one underscore. -/
theorem not_underscores_of_file {stem file : Text} (hstem : t.stem = bare stem)
    (h : file = t.partialFile ∨ file = t.plainFile) : ¬['_', '_'] <+: file := by
  have hplain : t.plainFile.head? ≠ some '_' := by
    rw [plainFile, hstem]
    exact head?_file_ne stem
  rintro ⟨rest, rfl⟩
  rcases h with hfile | hfile
  · have htail : '_' :: rest = t.plainFile := List.tail_eq_of_cons_eq hfile
    exact hplain (htail ▸ rfl)
  · exact hplain (hfile ▸ rfl)

theorem Spells.undoubles (h : Spells p t) (hp : Path.isAbsolute p = false) :
    p.Undoubles (t.relative (Path.fileName p)) := by
  cases h with
  | alone hstem =>
      rw [Path.fileName_of_not_mem (not_mem_file hstem)]
      exact .refl _
  | inside directory hstem =>
      rw [Path.fileName_append (not_mem_file hstem)]
      exact Path.undoubles_join (Path.isAbsolute_of_not_mem (not_mem_file hstem)) hp

/-- A path that spells a target is tried for it if its name has at most one underscore. -/
theorem Spells.exists_candidate (h : Spells p t) (hp : Path.isAbsolute p = false)
    (hname : ¬['_', '_'] <+: Path.fileName p) (includePath : Option Path) (importer : Path) :
    ∃ q ∈ t.candidates includePath importer,
      (Path.join ((Path.parent? importer).getD []) p).Undoubles q := by
  obtain ⟨stem, hfile, _, hstem, _⟩ := h.fileName
  have hplace : (Path.parent? importer).getD [] ∈ places includePath importer := by
    simp [places]
  refine ⟨_, ?_, (h.undoubles hp).join hp _⟩
  rw [candidates_eq_append, List.mem_append, hfile]
  rw [hfile] at hname
  rcases file_eq_or hstem hname with heq | heq
  · exact .inl (List.mem_map.2 ⟨_, hplace, by rw [heq]⟩)
  · exact .inr (List.mem_map.2 ⟨_, hplace, by rw [heq]⟩)

/-- A path that spells a target and is the same as one tried for it has at most one underscore. -/
theorem Spells.not_underscores (h : Spells p t) {includePath : Option Path} {importer : Path}
    (hq : q ∈ t.candidates includePath importer) {base : Path}
    (hsame : q.same (Path.join base p) = true) : ¬['_', '_'] <+: Path.fileName p := by
  obtain ⟨stem, hfile, hslash, hstem, hend⟩ := h.fileName
  have hlast : (Path.join base p).components.getLast? = some (stem ++ ".scss".toList) :=
    (hend.join base).getLast?_components (not_mem_file hslash)
      (Path.isTrivial_of_length (by simp))
  rw [Path.same, beq_iff_eq] at hsame
  rw [← hsame] at hlast
  have ht : '/' ∉ t.stem := by
    rw [hstem]
    exact fun hmem => hslash ((List.dropWhile_sublist _).mem hmem)
  rw [hfile]
  refine not_underscores_of_file hstem ?_
  rw [candidates_eq_append, List.mem_append] at hq
  rcases hq with hq | hq
  · exact .inl (Option.some.inj (hlast.symm.trans (getLast?_partialPath ht hq)))
  · exact .inr (Option.some.inj (hlast.symm.trans (getLast?_plainPath ht hq)))

/-- The path of a relative target as it is written is one of those tried for it, next to the
importing file, exactly if its file name starts with at most one underscore. Then the target
resolves to a file if a file is there. -/
theorem resolve_written {t : Text} (hrelative : Path.isAbsolute t = false) (htrim : t.trim = t)
    (includePath : Option Path) (importer : Path) :
    ((∃ q ∈ (ofText t).candidates includePath importer,
        q.same (Path.join ((Path.parent? importer).getD []) (written t)) = true) ↔
      ¬['_', '_'] <+: Path.fileName (written t)) ∧
      (¬['_', '_'] <+: Path.fileName (written t) → ∀ d : Disk,
        d.isFile (Path.join ((Path.parent? importer).getD []) (written t)) = true →
          d.isFile ((ofText t).resolve d includePath importer) = true) := by
  have hspells := spells_written htrim
  have hcandidate := hspells.exists_candidate (isAbsolute_written hrelative)
  refine ⟨⟨fun ⟨q, hq, hsame⟩ => hspells.not_underscores hq hsame, fun hname => ?_⟩,
    fun hname d hfile => ?_⟩
  · obtain ⟨q, hq, hundoubles⟩ := hcandidate hname includePath importer
    exact ⟨q, hq, hundoubles.same⟩
  · obtain ⟨q, hq, hundoubles⟩ := hcandidate hname includePath importer
    exact isFile_resolve hq (Disk.isFile_of_undoubles hundoubles hfile)

/-- A disk with a file whose name has one underscore and a file whose name has two. -/
def underscored : Disk where
  directories := [["a".toList]]
  files := [(["a".toList, "_b.scss".toList], .empty), (["__c.scss".toList], .empty)]
  current := []

theorem resolve_written_doubled_slash :
    underscored.isFile
      ((ofText "a//_b".toList).resolve underscored none "m.scss".toList) = true :=
  (resolve_written (t := "a//_b".toList) (by decide +kernel) (by decide +kernel) none
    "m.scss".toList).2 (by decide +kernel) underscored (by decide +kernel)

/-- The file is there under the name as written, and no file is found. -/
theorem resolve_misses_two_underscores :
    Path.isAbsolute "__c".toList = false ∧ Text.trim "__c".toList = "__c".toList ∧
      underscored.isFile (Path.join ((Path.parent? "m.scss".toList).getD [])
        (written "__c".toList)) = true ∧
      underscored.isFile
        ((ofText "__c".toList).resolve underscored none "m.scss".toList) = false := by
  decide +kernel

end Target

end Stylesheet
