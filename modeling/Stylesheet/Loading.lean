import Stylesheet.Files.Resolution
import Stylesheet.Lists
import Stylesheet.Report.Diagnostic
import Stylesheet.Report.Error
import Stylesheet.Report.Log

/-! Loading a file and everything it imports.

A file is taken apart first and its imports are loaded after that, one by one, each to its end. The
files on the way from the first one to the one being loaded form a chain, and a file that is in it
already is not loaded again. Loading ends because every file loaded is one that is not in the chain
yet (`Disk.outside_push_lt`). -/

namespace Stylesheet

/-- A computation with a log, the paths it asks about, and a result or an error. -/
structure Run (α : Type) where
  log : List Record
  /-- The paths asked about, in order. -/
  probes : List Path
  result : Except Error α

namespace Run

/-- A result at once. -/
def done (a : α) : Run α := ⟨[], [], .ok a⟩

/-- An error at once. -/
def fail (e : Error) : Run α := ⟨[], [], .error e⟩

/-- A run after another one, unless that one failed. -/
def andThen (r : Run α) (f : α → Run β) : Run β :=
  match r.result with
  | .error e => ⟨r.log, r.probes, .error e⟩
  | .ok a => ⟨r.log ++ (f a).log, r.probes ++ (f a).probes, (f a).result⟩

instance : Monad Run where
  pure := done
  bind := andThen

/-- Records for the log. -/
def record (rs : List Record) : Run Unit := ⟨rs, [], .ok ()⟩

/-- Paths asked about. -/
def probe (ps : List Path) : Run Unit := ⟨[], ps, .ok ()⟩

end Run

namespace Disk

/-- Whether a path is one of a chain. -/
def inChain (chain : List Path) (p : Path) : Bool :=
  chain.any (Path.same p)

/-- Number of files outside a chain. -/
def outside (d : Disk) (chain : List Path) : Nat :=
  d.files.countP fun file => !inChain chain (spell file.1)

theorem inChain_append_self (chain : List Path) (p : Path) : inChain (chain ++ [p]) p = true := by
  simp [inChain, Path.same]

theorem inChain_append_of_inChain {chain : List Path} {p : Path} (key : Path)
    (h : inChain chain p = true) : inChain (chain ++ [key]) p = true := by
  simp only [inChain, List.any_append, Bool.or_eq_true] at *
  exact Or.inl h

theorem key_eq_spell_of_read {d : Disk} {p : Path} {t : Text} (h : d.readSource p = .ok t) :
    ∃ file ∈ d.files, d.key p = spell file.1 := by
  unfold readSource at h
  cases hread : d.read p with
  | error fault =>
      rw [hread] at h
      cases h
  | ok text =>
      unfold read at hread
      cases hl : d.locate p with
      | error fault =>
          rw [hl] at hread
          cases hread
      | ok l =>
          rw [hl] at hread
          dsimp only at hread
          split at hread
          · cases hread
          · cases hb : d.bytes? l with
            | none =>
                rw [hb] at hread
                cases hread
            | some bytes =>
                obtain ⟨file, hf, _⟩ := Option.map_eq_some_iff.1 hb
                refine ⟨file, List.mem_of_find?_eq_some hf, ?_⟩
                have := List.find?_some hf
                simp only [beq_iff_eq] at this
                simp [key, follow_of_locate hl, this]

/-- A readable file outside a chain leaves fewer files outside once it has joined the chain. -/
theorem outside_push_lt {d : Disk} {chain : List Path} {p : Path} {t : Text}
    (hout : inChain chain (d.key p) = false) (hread : d.readSource p = .ok t) :
    d.outside (chain ++ [d.key p]) < d.outside chain := by
  obtain ⟨file, hmem, hkey⟩ := key_eq_spell_of_read hread
  unfold outside
  apply countP_lt_countP ?_ hmem
  · rw [← hkey, hout]
    rfl
  · rw [← hkey, inChain_append_self]
    rfl
  · intro x hx
    cases hc : inChain chain (spell x.1) with
    | false => rfl
    | true =>
        rw [inChain_append_of_inChain _ hc] at hx
        cases hx

end Disk

/-- A disk and the directory that imports are looked up in first. -/
structure Workspace where
  disk : Disk
  includePath : Option Path

/-- A file with everything it imports, and what was found in all of them. -/
structure Loaded where
  file : SourceFile
  diagnostics : List Diagnostic

namespace Workspace

/-- The finding that an event is, if it is one. -/
def diagnostic? (path : Path) : Event → Option Diagnostic
  | .anomaly text position => some (.anomaly path position text)
  | _ => none

/-- The paths of a list up to the first that leads to a file. -/
def tried (d : Disk) : List Path → List Path
  | [] => []
  | p :: ps => if d.isFile p then [p] else p :: tried d ps

/-- The path that the target of an import resolves to. -/
def lookUp (w : Workspace) (importer : Path) (directive : ImportDirective) : Run Path := do
  let target := Target.ofText directive.target
  Run.probe (tried w.disk (target.candidates w.includePath importer))
  match target.find? w.disk w.includePath importer with
  | some _ => pure ()
  | none => Run.record [.unresolved directive.target importer]
  let path := target.resolve w.disk w.includePath importer
  Run.record [.resolved directive importer path]
  return path

/-- The imports of a file, one after the other. -/
def loadImports (w : Workspace) (importer : Path) (load : Path → Run Loaded) :
    List ImportDirective → Run (List (Text × Loaded))
  | [] => return []
  | directive :: directives => do
      let path ← w.lookUp importer directive
      let loaded ← load path
      let others ← loadImports w importer load directives
      return ((Target.ofText directive.target).name, loaded) :: others

/-- A file with what it holds itself and with what it imports. -/
def assemble (path : Path) (e : Extraction) (imports : List (Text × Loaded)) : Loaded :=
  { file :=
      { path := path
        rules := e.content.rules
        vars := e.content.vars
        imports := imports.map fun (name, loaded) => ⟨name, loaded.file⟩ }
    diagnostics :=
      e.events.filterMap (diagnostic? path) ++ imports.flatMap fun (_, loaded) => loaded.diagnostics }

/-- A source taken apart and put together with its imports. -/
def build (w : Workspace) (path : Path) (source : Text) (load : Path → Run Loaded) :
    Run Loaded := do
  Run.record [.parsing path]
  match Extraction.run source with
  | .error failure => do
      Run.record (failure.events.map (Record.ofEvent path))
      Run.fail (.structural path failure.fault)
  | .ok e => do
      Run.record (e.events.map (Record.ofEvent path))
      let imports ← w.loadImports path load e.content.imports
      return assemble path e imports

/-- The file at a path, reached through the files of a chain. -/
def loadFrom (w : Workspace) (chain : List Path) (path : Path) : Run Loaded := do
  Run.probe [path]
  if _hc : Disk.inChain chain (w.disk.key path) then
    Run.fail (.cycle path (chain ++ [w.disk.key path]))
  else
    match _hr : w.disk.readSource path with
    | .error fault => Run.fail (.unreadable path fault)
    | .ok source => w.build path source fun p => loadFrom w (chain ++ [w.disk.key path]) p
termination_by w.disk.outside chain
decreasing_by exact Disk.outside_push_lt (Bool.eq_false_iff.2 ‹_›) ‹_›

/-- The file at a path and everything it imports. -/
def load (w : Workspace) (path : Path) : Run Loaded :=
  w.loadFrom [] path

/-- A source given as text, as if it stood at a path. -/
def loadSource (w : Workspace) (source : Text) (path : Path) : Run Loaded := do
  Run.probe [path]
  if source.blank then Run.fail (.unreadable path .empty)
  else w.build path source (w.loadFrom [w.disk.key path])

end Workspace

end Stylesheet
