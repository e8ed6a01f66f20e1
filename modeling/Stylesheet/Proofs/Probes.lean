import Stylesheet.Proofs.Loading

/-! Loading depends on what it asks about.

Two disks with the same directories lead a path to the same place, unless the place is a file of one
disk only; a path that goes on behind such a file leads nowhere on both disks, for a cause that is
not the same (`Disk.Alongside`). Where the disks agree on every path that loading asks about, it
takes the same way on both and comes to the same result (`Run.Agrees`). -/

namespace Stylesheet

/-! ### Paths on two disks -/

namespace Disk

/-- The bytes of the file that a path leads to; none if it leads to a directory or nowhere. -/
def fileAt? (d : Disk) (p : Path) : Option ByteArray :=
  match d.follow p with
  | .ok l => if d.isDirectory l then none else d.bytes? l
  | .error _ => none

/-- Two disks with the same directories, the current one included. -/
structure SameDirectories (d₁ d₂ : Disk) : Prop where
  isDirectory : ∀ l, d₁.isDirectory l = d₂.isDirectory l
  current : d₁.current = d₂.current

/-- The causes for which a path leads nowhere on two disks: a part of it is missing on one of them,
and a file on the other, where a directory is needed. -/
inductive Astray : ReadFault → ReadFault → Prop
  | missing : Astray .missing .notDirectory
  | notDirectory : Astray .notDirectory .missing

/-- A path leads nowhere on two disks, for causes that are not the same. -/
structure LeadsAstray (d₁ d₂ : Disk) (p : Path) (f₁ f₂ : ReadFault) : Prop where
  causes : Astray f₁ f₂
  first : d₁.follow p = .error f₁
  second : d₂.follow p = .error f₂

/-- What following a path comes to on two disks with the same directories. -/
inductive Alongside (d₁ d₂ : Disk) :
    Except ReadFault Location → Except ReadFault Location → Prop
  | same (r : Except ReadFault Location) : Alongside d₁ d₂ r r
  /-- A file of the first disk only. -/
  | first {l : Location} (hfile : d₁.isDirectory l = false) (hbytes : (d₁.bytes? l).isSome) :
      Alongside d₁ d₂ (.ok l) (.error .missing)
  /-- A file of the second disk only. -/
  | second {l : Location} (hfile : d₂.isDirectory l = false) (hbytes : (d₂.bytes? l).isSome) :
      Alongside d₁ d₂ (.error .missing) (.ok l)
  | astray {f₁ f₂ : ReadFault} (h : Astray f₁ f₂) : Alongside d₁ d₂ (.error f₁) (.error f₂)

variable {d₁ d₂ : Disk} {p : Path} {l : Location}

theorem enter_of_file {d : Disk} (hfile : d.isDirectory l = false) (part : Text) :
    d.enter l part = .error .notDirectory := by
  simp [enter, hfile]

theorem alongside_enter (h : d₁.SameDirectories d₂) (l : Location) (part : Text) :
    Alongside d₁ d₂ (d₁.enter l part) (d₂.enter l part) := by
  unfold enter
  rw [← h.isDirectory l, ← h.isDirectory (l ++ [part])]
  split
  · exact .same _
  split
  · exact .same _
  split
  · exact .same _
  split
  · exact .same _
  cases hfile : d₁.isDirectory (l ++ [part]) with
  | true => exact .same _
  | false =>
      have hfile₂ : d₂.isDirectory (l ++ [part]) = false := (h.isDirectory _).symm.trans hfile
      -- Only here the files count: the part may be one on either disk, on both or on none.
      cases hbytes₁ : (d₁.bytes? (l ++ [part])).isSome with
      | true =>
          cases hbytes₂ : (d₂.bytes? (l ++ [part])).isSome with
          | true => exact .same _
          | false => exact .first hfile hbytes₁
      | false =>
          cases hbytes₂ : (d₂.bytes? (l ++ [part])).isSome with
          | true => exact .second hfile₂ hbytes₂
          | false => exact .same _

theorem Alongside.enter (h : d₁.SameDirectories d₂) {r₁ r₂ : Except ReadFault Location}
    (hr : Alongside d₁ d₂ r₁ r₂) (part : Text) :
    Alongside d₁ d₂ (r₁.bind (d₁.enter · part)) (r₂.bind (d₂.enter · part)) := by
  cases hr with
  | same =>
      cases r₁ with
      | error fault => exact .same _
      | ok l => exact alongside_enter h l part
  | first hfile hbytes =>
      change Alongside d₁ d₂ (d₁.enter _ part) _
      rw [enter_of_file hfile]
      exact .astray .notDirectory
  | second hfile hbytes =>
      change Alongside d₁ d₂ _ (d₂.enter _ part)
      rw [enter_of_file hfile]
      exact .astray .missing
  | astray hfaults => exact .astray hfaults

theorem bind_foldlM_cons (d : Disk) (r : Except ReadFault Location) (part : Text)
    (parts : List Text) :
    r.bind ((part :: parts).foldlM d.enter) =
      (r.bind (d.enter · part)).bind (parts.foldlM d.enter) := by
  cases r with
  | error fault => rfl
  | ok l => rfl

theorem Alongside.foldlM (h : d₁.SameDirectories d₂) {r₁ r₂ : Except ReadFault Location}
    (hr : Alongside d₁ d₂ r₁ r₂) (parts : List Text) :
    Alongside d₁ d₂ (r₁.bind (parts.foldlM d₁.enter)) (r₂.bind (parts.foldlM d₂.enter)) := by
  induction parts generalizing r₁ r₂ with
  | nil =>
      have hnil (d : Disk) (r : Except ReadFault Location) :
          r.bind (List.foldlM d.enter · []) = r := by
        cases r <;> rfl
      change Alongside d₁ d₂ (r₁.bind (List.foldlM d₁.enter · [])) _
      rw [hnil]
      change Alongside d₁ d₂ _ (r₂.bind (List.foldlM d₂.enter · []))
      rwa [hnil]
  | cons part parts ih =>
      rw [bind_foldlM_cons, bind_foldlM_cons]
      exact ih (hr.enter h part)

/-- A path leads to places alongside each other. -/
theorem alongside_follow (h : d₁.SameDirectories d₂) (p : Path) :
    Alongside d₁ d₂ (d₁.follow p) (d₂.follow p) := by
  unfold follow
  rw [← h.current]
  split
  · exact .same _
  · split
    · exact .same _
    · exact Alongside.foldlM h (.same (.ok _)) p.parts

/-- Where two disks agree on the file that a path leads to, it leads to the same place, or nowhere
on both. -/
theorem follow_eq_or_astray (h : d₁.SameDirectories d₂) (hp : d₁.fileAt? p = d₂.fileAt? p) :
    d₁.follow p = d₂.follow p ∨ ∃ f₁ f₂, LeadsAstray d₁ d₂ p f₁ f₂ := by
  have halong := alongside_follow h p
  unfold fileAt? at hp
  generalize hfollow₁ : d₁.follow p = r₁ at halong hp ⊢
  generalize hfollow₂ : d₂.follow p = r₂ at halong hp ⊢
  cases halong with
  | same => exact .inl rfl
  | first hfile hbytes =>
      simp only [hfile] at hp
      rw [show d₁.bytes? _ = none from hp] at hbytes
      cases hbytes
  | second hfile hbytes =>
      simp only [hfile] at hp
      rw [show d₂.bytes? _ = none from hp.symm] at hbytes
      cases hbytes
  | astray hcauses => exact .inr ⟨_, _, hcauses, hfollow₁, hfollow₂⟩

theorem key_eq (h : d₁.SameDirectories d₂) (hp : d₁.fileAt? p = d₂.fileAt? p) :
    d₁.key p = d₂.key p := by
  unfold key
  rcases follow_eq_or_astray h hp with heq | ⟨f₁, f₂, hastray⟩
  · rw [heq]
  · rw [hastray.first, hastray.second]

/-- A path that is opened as a whole. -/
theorem locate_eq_or_astray (h : d₁.SameDirectories d₂) (hp : d₁.fileAt? p = d₂.fileAt? p) :
    d₁.locate p = d₂.locate p ∨
      ∃ f₁ f₂, LeadsAstray d₁ d₂ p f₁ f₂ ∧ d₁.locate p = .error f₁ ∧ d₂.locate p = .error f₂ := by
  unfold locate
  by_cases hlong : (4096 ≤ p.byteLength && !p.contains '\x00') = true
  · rw [if_pos hlong, if_pos hlong]
    exact .inl rfl
  · rw [if_neg hlong, if_neg hlong]
    rcases follow_eq_or_astray h hp with heq | ⟨f₁, f₂, hastray⟩
    · exact .inl heq
    · exact .inr ⟨f₁, f₂, hastray, hastray.first, hastray.second⟩

theorem isFile_eq (h : d₁.SameDirectories d₂) (hp : d₁.fileAt? p = d₂.fileAt? p) :
    d₁.isFile p = d₂.isFile p := by
  unfold isFile
  rcases locate_eq_or_astray h hp with heq | ⟨f₁, f₂, _, hlocate₁, hlocate₂⟩
  · rw [heq]
    cases d₂.locate p with
    | error fault => rfl
    | ok l => exact congrArg not (h.isDirectory l)
  · rw [hlocate₁, hlocate₂]

theorem bytes?_eq (h : d₁.SameDirectories d₂) (hp : d₁.fileAt? p = d₂.fileAt? p)
    (hlocate₁ : d₁.locate p = .ok l) (hlocate₂ : d₂.locate p = .ok l)
    (hfile : d₁.isDirectory l = false) : d₁.bytes? l = d₂.bytes? l := by
  have hfile₂ : d₂.isDirectory l = false := (h.isDirectory l).symm.trans hfile
  simpa [fileAt?, follow_of_locate hlocate₁, follow_of_locate hlocate₂, hfile, hfile₂] using hp

/-- The source at a path is the same, or there is none on both disks. -/
theorem readSource_eq_or_astray (h : d₁.SameDirectories d₂) (hp : d₁.fileAt? p = d₂.fileAt? p) :
    d₁.readSource p = d₂.readSource p ∨
      ∃ f₁ f₂, LeadsAstray d₁ d₂ p f₁ f₂ ∧
        d₁.readSource p = .error f₁ ∧ d₂.readSource p = .error f₂ := by
  rcases locate_eq_or_astray h hp with heq | ⟨f₁, f₂, hastray, hlocate₁, hlocate₂⟩
  · refine .inl ?_
    have hread : d₁.read p = d₂.read p := by
      unfold read
      cases hlocate₂ : d₂.locate p with
      | error fault => rw [heq, hlocate₂]
      | ok l =>
          rw [hlocate₂] at heq
          cases hfile : d₁.isDirectory l with
          | true => simp [heq, hfile, ← h.isDirectory]
          | false =>
              rw [heq]
              dsimp only
              rw [← h.isDirectory, bytes?_eq h hp heq hlocate₂ hfile]
    unfold readSource
    rw [hread]
  · exact .inr ⟨f₁, f₂, hastray, by simp [readSource, read, hlocate₁],
      by simp [readSource, read, hlocate₂]⟩

end Disk

/-! ### Runs on two disks -/

namespace Run

variable {α β : Type} {d₁ d₂ : Disk}

theorem probes_bind_of_ok {r : Run α} {a : α} (h : r.result = .ok a) (f : α → Run β) :
    (r >>= f).probes = r.probes ++ (f a).probes := by
  change (r.andThen f).probes = _
  rw [andThen, h]

theorem probes_bind_of_error {r : Run α} {error : Error} (h : r.result = .error error)
    (f : α → Run β) : (r >>= f).probes = r.probes := by
  change (r.andThen f).probes = _
  rw [andThen, h]

theorem result_bind_of_error {r : Run α} {error : Error} (h : r.result = .error error)
    (f : α → Run β) : (r >>= f).result = .error error := by
  rw [result_bind, h]
  rfl

/-- Both runs fail at one path, which they ask about and which leads nowhere, for causes that are
not the same. -/
def StopsAstray (d₁ d₂ : Disk) (r₁ r₂ : Run α) : Prop :=
  ∃ p ∈ r₁.probes, ∃ f₁ f₂, d₁.LeadsAstray d₂ p f₁ f₂ ∧
    r₁.result = .error (.unreadable p f₁) ∧ r₂.result = .error (.unreadable p f₂)

/-- If two disks agree on all paths that the first run asks about, both runs have the same result,
up to the cause for which a path leads nowhere. -/
def Agrees (d₁ d₂ : Disk) (r₁ r₂ : Run α) : Prop :=
  (∀ p ∈ r₁.probes, d₁.fileAt? p = d₂.fileAt? p) →
    r₁.result = r₂.result ∨ StopsAstray d₁ d₂ r₁ r₂

theorem Agrees.of_result_eq {r₁ r₂ : Run α}
    (h : (∀ p ∈ r₁.probes, d₁.fileAt? p = d₂.fileAt? p) → r₁.result = r₂.result) :
    Agrees d₁ d₂ r₁ r₂ :=
  fun hprobes => .inl (h hprobes)

/-- Runs that agree up to a result and go on from it in runs that agree. -/
theorem Agrees.bind {r₁ r₂ : Run α} {f₁ f₂ : α → Run β} (h : Agrees d₁ d₂ r₁ r₂)
    (hf : ∀ a, Agrees d₁ d₂ (f₁ a) (f₂ a)) : Agrees d₁ d₂ (r₁ >>= f₁) (r₂ >>= f₂) := by
  intro hprobes
  cases hr₁ : r₁.result with
  | error error =>
      rw [probes_bind_of_error hr₁] at hprobes
      rcases h hprobes with heq | ⟨p, hp, f, f', hastray, hfail₁, hfail₂⟩
      · refine .inl ?_
        rw [result_bind_of_error hr₁, result_bind_of_error (heq.symm.trans hr₁)]
      · refine .inr ⟨p, ?_, f, f', hastray, result_bind_of_error hfail₁ f₁,
          result_bind_of_error hfail₂ f₂⟩
        rwa [probes_bind_of_error hr₁]
  | ok a =>
      rw [probes_bind_of_ok hr₁] at hprobes
      obtain ⟨hfirst, hsecond⟩ := List.forall_mem_append.1 hprobes
      rcases h hfirst with heq | ⟨p, _, f, f', _, hfail₁, _⟩
      · have hr₂ := heq.symm.trans hr₁
        rcases hf a hsecond with heq' | ⟨p, hp, f, f', hastray, hfail₁, hfail₂⟩
        · refine .inl ?_
          rw [result_bind_of_ok hr₁, result_bind_of_ok hr₂, heq']
        · refine .inr ⟨p, ?_, f, f', hastray, ?_, ?_⟩
          · rw [probes_bind_of_ok hr₁]
            exact List.mem_append_right _ hp
          · rw [result_bind_of_ok hr₁, hfail₁]
          · rw [result_bind_of_ok hr₂, hfail₂]
      · rw [hr₁] at hfail₁
        cases hfail₁

end Run

namespace Workspace

variable {w₁ w₂ : Workspace}

/-- The candidates tried decide which of them is found. -/
theorem find?_eq_of_tried (h : w₁.disk.SameDirectories w₂.disk) {ps : List Path}
    (hps : ∀ p ∈ tried w₁.disk ps, w₁.disk.fileAt? p = w₂.disk.fileAt? p) :
    ps.find? w₁.disk.isFile = ps.find? w₂.disk.isFile := by
  induction ps with
  | nil => rfl
  | cons p ps ih =>
      rw [tried] at hps
      cases hfile : w₁.disk.isFile p with
      | true =>
          rw [if_pos hfile] at hps
          have hfile₂ := Disk.isFile_eq h (hps p List.mem_cons_self)
          simp [hfile, ← hfile₂]
      | false =>
          rw [if_neg (by simp [hfile])] at hps
          obtain ⟨hp, hps⟩ := List.forall_mem_cons.1 hps
          have hfile₂ := Disk.isFile_eq h hp
          simp [hfile, ← hfile₂, ih hps]

theorem probes_lookUp (w : Workspace) (importer : Path) (d : ImportDirective) :
    (w.lookUp importer d).probes =
      tried w.disk ((Target.ofText d.target).candidates w.includePath importer) := by
  unfold lookUp
  dsimp only
  rw [Run.probes_bind_of_ok rfl]
  cases (Target.ofText d.target).find? w.disk w.includePath importer with
  | none => exact List.append_nil _
  | some found => exact List.append_nil _

theorem agrees_lookUp (h : w₁.disk.SameDirectories w₂.disk)
    (hinclude : w₁.includePath = w₂.includePath) (importer : Path) (d : ImportDirective) :
    Run.Agrees w₁.disk w₂.disk (w₁.lookUp importer d) (w₂.lookUp importer d) := by
  apply Run.Agrees.of_result_eq
  intro hprobes
  rw [probes_lookUp] at hprobes
  have hfind := find?_eq_of_tried h hprobes
  rw [result_lookUp, result_lookUp, resolved, resolved, Target.resolve, Target.resolve,
    Target.find?, Target.find?, ← hinclude, hfind]

theorem agrees_loadImports (h : w₁.disk.SameDirectories w₂.disk)
    (hinclude : w₁.includePath = w₂.includePath) {load₁ load₂ : Path → Run Loaded}
    (hload : ∀ q, Run.Agrees w₁.disk w₂.disk (load₁ q) (load₂ q)) (importer : Path)
    (ds : List ImportDirective) :
    Run.Agrees w₁.disk w₂.disk (w₁.loadImports importer load₁ ds)
      (w₂.loadImports importer load₂ ds) := by
  induction ds with
  | nil => exact .of_result_eq fun _ => rfl
  | cons d ds ih =>
      rw [loadImports, loadImports]
      apply (agrees_lookUp h hinclude importer d).bind
      intro path
      apply (hload path).bind
      intro loaded
      apply ih.bind
      intro others
      exact .of_result_eq fun _ => rfl

theorem agrees_build (h : w₁.disk.SameDirectories w₂.disk)
    (hinclude : w₁.includePath = w₂.includePath) {load₁ load₂ : Path → Run Loaded}
    (hload : ∀ q, Run.Agrees w₁.disk w₂.disk (load₁ q) (load₂ q)) (path : Path) (source : Text) :
    Run.Agrees w₁.disk w₂.disk (w₁.build path source load₁) (w₂.build path source load₂) := by
  unfold build
  apply Run.Agrees.bind (.of_result_eq fun _ => rfl)
  intro _
  cases Extraction.run source with
  | error failure => exact .of_result_eq fun _ => rfl
  | ok e =>
      apply Run.Agrees.bind (.of_result_eq fun _ => rfl)
      intro _
      apply (agrees_loadImports h hinclude hload path e.content.imports).bind
      intro imports
      exact .of_result_eq fun _ => rfl

theorem loadFrom_eq (w : Workspace) (chain : List Path) (p : Path) :
    w.loadFrom chain p =
      Run.probe [p] >>= fun _ =>
        if Disk.inChain chain (w.disk.key p) then
          Run.fail (.cycle p (chain ++ [w.disk.key p]))
        else
          match w.disk.readSource p with
          | .error fault => Run.fail (.unreadable p fault)
          | .ok source => w.build p source (w.loadFrom (chain ++ [w.disk.key p])) := by
  rw [loadFrom]
  congr
  funext _
  split
  · rfl
  · split
    · next hread => rw [hread]
    · next hread => rw [hread]

/-- Loading takes the same way on both disks: a file asks about its own path first, and after that
about those of its imports. -/
theorem agrees_loadFrom (h : w₁.disk.SameDirectories w₂.disk)
    (hinclude : w₁.includePath = w₂.includePath) (chain : List Path) (p : Path) :
    Run.Agrees w₁.disk w₂.disk (w₁.loadFrom chain p) (w₂.loadFrom chain p) := by
  induction hn : w₁.disk.outside chain using Nat.strongRecOn generalizing chain p with
  | ind n ih =>
      intro hprobes
      have hprobed : p ∈ (w₁.loadFrom chain p).probes := by
        rw [loadFrom_eq, Run.probes_bind_of_ok rfl]
        exact List.mem_append_left _ (List.mem_singleton_self p)
      have hkey := Disk.key_eq h (hprobes p hprobed)
      cases hin : Disk.inChain chain (w₁.disk.key p) with
      | true =>
          refine .inl ?_
          rw [result_loadFrom_of_in hin, result_loadFrom_of_in (hkey ▸ hin), hkey]
      | false =>
          have hin₂ : Disk.inChain chain (w₂.disk.key p) = false := hkey ▸ hin
          rcases Disk.readSource_eq_or_astray h (hprobes p hprobed) with
            hread | ⟨f₁, f₂, hastray, hread₁, hread₂⟩
          · cases hread₁ : w₁.disk.readSource p with
            | error fault =>
                refine .inl ?_
                rw [result_loadFrom_of_unreadable hin hread₁,
                  result_loadFrom_of_unreadable hin₂ (hread.symm.trans hread₁)]
            | ok source =>
                have hfewer := Disk.outside_push_lt hin hread₁
                rw [hn] at hfewer
                revert hprobes
                change Run.Agrees _ _ _ _
                rw [loadFrom_eq, loadFrom_eq, ← hkey, ← hread, hread₁]
                apply Run.Agrees.bind (.of_result_eq fun _ => rfl)
                intro _
                rw [hin]
                exact agrees_build h hinclude (fun q => ih _ hfewer _ q rfl) p source
          · exact .inr ⟨p, hprobed, f₁, f₂, hastray, result_loadFrom_of_unreadable hin hread₁,
              result_loadFrom_of_unreadable hin₂ hread₂⟩

/-- Loading depends on no file but those it asks about. Where two disks have the same directories
and agree on every path asked about, on whether a file is there and on its bytes, loading has the
same result on both; only where it fails because such a path leads nowhere, a part of the path may
be missing on one disk and a file on the other. -/
theorem load_depends_on_probes {root : Path} (h : w₁.disk.SameDirectories w₂.disk)
    (hinclude : w₁.includePath = w₂.includePath)
    (hprobes : ∀ p ∈ (w₁.load root).probes, w₁.disk.fileAt? p = w₂.disk.fileAt? p) :
    (w₁.load root).result = (w₂.load root).result ∨
      ∃ p ∈ (w₁.load root).probes, ∃ f₁ f₂, w₁.disk.LeadsAstray w₂.disk p f₁ f₂ ∧
        (w₁.load root).result = .error (.unreadable p f₁) ∧
        (w₂.load root).result = .error (.unreadable p f₂) :=
  agrees_loadFrom h hinclude [] root hprobes

/-- A file and its import, next to a file that is asked about only if there is no partial file. -/
def shadowed (plain : String) : Workspace where
  disk :=
    { directories := []
      files :=
        [(["a.scss".toList], "@import 'b'; .a { top: 0 }".toUTF8),
          (["_b.scss".toList], "$b: 1;".toUTF8), (["b.scss".toList], plain.toUTF8)]
      current := [] }
  includePath := none

theorem load_depends_on_probes_shadowed :
    (shadowed "$c: 2;").disk.SameDirectories (shadowed "\x7d").disk ∧
      (∀ p ∈ ((shadowed "$c: 2;").load "a.scss".toList).probes,
        (shadowed "$c: 2;").disk.fileAt? p = (shadowed "\x7d").disk.fileAt? p) ∧
      ∃ loaded, ((shadowed "$c: 2;").load "a.scss".toList).result = .ok loaded ∧
        ((shadowed "\x7d").load "a.scss".toList).result = .ok loaded := by
  have hsame : (shadowed "$c: 2;").disk.SameDirectories (shadowed "\x7d").disk :=
    ⟨fun _ => rfl, rfl⟩
  have hprobes : ∀ p ∈ ((shadowed "$c: 2;").load "a.scss".toList).probes,
      (shadowed "$c: 2;").disk.fileAt? p = (shadowed "\x7d").disk.fileAt? p := by
    decide +kernel
  have hfiles : ((shadowed "$c: 2;").load "a.scss".toList).result.toOption.map
      (fun loaded => loaded.file.files.length) = some 2 := by
    decide +kernel
  obtain ⟨loaded, hload, _⟩ := exists_ok_of_toOption_map hfiles
  refine ⟨hsame, hprobes, loaded, hload, ?_⟩
  rcases load_depends_on_probes hsame rfl hprobes with heq | ⟨p, _, f₁, f₂, _, hfail, _⟩
  · exact heq.symm.trans hload
  · rw [hload] at hfail
    cases hfail

/-- A file where a path needs a directory is not asked about, and yet it decides the cause that is
reported. -/
theorem load_depends_on_blocking_file :
    ¬∀ (w₁ w₂ : Workspace) (root : Path), w₁.disk.SameDirectories w₂.disk →
      w₁.includePath = w₂.includePath →
      (∀ p ∈ (w₁.load root).probes, w₁.disk.fileAt? p = w₂.disk.fileAt? p) →
      (w₁.load root).result = (w₂.load root).result := by
  intro hall
  have hequal := hall ⟨⟨[], [(["f".toList], "x".toUTF8)], []⟩, none⟩ ⟨⟨[], [], []⟩, none⟩
    "f/g.scss".toList ⟨fun _ => rfl, rfl⟩ rfl (by decide +kernel)
  have hnotDirectory :
      (⟨[], [(["f".toList], "x".toUTF8)], []⟩ : Disk).readSource "f/g.scss".toList =
        .error .notDirectory := by
    rfl
  have hmissing : (⟨[], [], []⟩ : Disk).readSource "f/g.scss".toList = .error .missing := by
    rfl
  unfold load at hequal
  rw [result_loadFrom_of_unreadable rfl hnotDirectory,
    result_loadFrom_of_unreadable rfl hmissing] at hequal
  cases hequal

end Workspace

end Stylesheet
