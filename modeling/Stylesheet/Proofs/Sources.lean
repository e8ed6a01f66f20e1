import Mathlib.Data.List.Forall2
import Stylesheet.Proofs.Loading

/-! The sources of a tree.

A tree is loaded from a path, or from a text that is taken for the file at a path. Every file of the
tree comes with the source it was taken from (`Part`), and what was found in the tree was found in
these sources, one after the other (`Workspace.exists_parts`). -/

namespace Stylesheet

/-- What a tree is loaded from: the file at a path, or a text as if it stood there. -/
inductive Origin where
  | file (path : Path)
  | text (source : Text) (path : Path)

/-- A file of a tree, its source and what that source holds. -/
structure Part where
  file : SourceFile
  source : Text
  extraction : Extraction

/-- The file holds what its source holds. -/
structure Part.Sound (part : Part) : Prop where
  run : Extraction.run part.source = .ok part.extraction
  rules : part.file.rules = part.extraction.content.rules
  vars : part.file.vars = part.extraction.content.vars

/-- What is found in the source of a file. -/
def Part.diagnostics (part : Part) : List Diagnostic :=
  part.extraction.events.filterMap (Workspace.diagnostic? part.file.path)

theorem SourceFile.files_eq (file : SourceFile) :
    file.files = file :: ImportedFile.allFiles file.imports := by
  cases file
  rw [SourceFile.files]

namespace Workspace

variable {w : Workspace} {chain : List Path} {p : Path} {loaded : Loaded}

/-- The tree loaded from an origin. -/
def loadOrigin (w : Workspace) : Origin → Run Loaded
  | .file path => w.load path
  | .text source path => w.loadSource source path

/-- The sources of files, in the same order, are what is read at their paths. -/
def Read (w : Workspace) (files : List SourceFile) (sources : List Text) : Prop :=
  List.Forall₂ (fun f source => w.disk.readSource f.path = .ok source) files sources

/-- The sources of the files of a tree in the same order. Only a text that was given is not read. -/
def Sources (w : Workspace) (origin : Origin) (file : SourceFile) (sources : List Text) : Prop :=
  match origin with
  | .file _ => w.Read file.files sources
  | .text source _ =>
      ∃ others, sources = source :: others ∧ w.Read (ImportedFile.allFiles file.imports) others

/-- Files and what was found in them come from parts that were read. -/
structure MadeOf (w : Workspace) (files : List SourceFile) (found : List Diagnostic)
    (parts : List Part) : Prop where
  files : parts.map Part.file = files
  sound : ∀ part ∈ parts, part.Sound
  read : ∀ part ∈ parts, w.disk.readSource part.file.path = .ok part.source
  found : parts.flatMap Part.diagnostics = found

theorem MadeOf.cons {files : List SourceFile} {found : List Diagnostic} {parts : List Part}
    {part : Part} (h : w.MadeOf files found parts) (hsound : part.Sound)
    (hread : w.disk.readSource part.file.path = .ok part.source) :
    w.MadeOf (part.file :: files) (part.diagnostics ++ found) (part :: parts) :=
  ⟨by rw [List.map_cons, h.files], List.forall_mem_cons.2 ⟨hsound, h.sound⟩,
    List.forall_mem_cons.2 ⟨hread, h.read⟩, by rw [List.flatMap_cons, h.found]⟩

theorem MadeOf.append {files files' : List SourceFile} {found found' : List Diagnostic}
    {parts parts' : List Part} (h : w.MadeOf files found parts)
    (h' : w.MadeOf files' found' parts') :
    w.MadeOf (files ++ files') (found ++ found') (parts ++ parts') :=
  ⟨by rw [List.map_append, h.files, h'.files],
    List.forall_mem_append.2 ⟨h.sound, h'.sound⟩, List.forall_mem_append.2 ⟨h.read, h'.read⟩,
    by rw [List.flatMap_append, h.found, h'.found]⟩

theorem MadeOf.sources {files : List SourceFile} {found : List Diagnostic} {parts : List Part}
    (h : w.MadeOf files found parts) : w.Read files (parts.map Part.source) := by
  rw [Read, ← h.files, List.forall₂_map_left_iff, List.forall₂_map_right_iff, List.forall₂_same]
  exact h.read

/-- The parts of several imports, one after the other. -/
theorem exists_parts_of_imports {imports : List (Text × Loaded)}
    (h : ∀ i ∈ imports, ∃ parts, w.MadeOf i.2.file.files i.2.diagnostics parts) :
    ∃ parts, w.MadeOf
      (ImportedFile.allFiles (imports.map fun (name, loaded) => ⟨name, loaded.file⟩))
      (imports.flatMap fun (_, loaded) => loaded.diagnostics) parts := by
  induction imports with
  | nil => exact ⟨[], rfl, List.forall_mem_nil _, List.forall_mem_nil _, rfl⟩
  | cons i imports ih =>
      obtain ⟨⟨first, hfirst⟩, hothers⟩ := List.forall_mem_cons.1 h
      obtain ⟨others, hothers⟩ := ih hothers
      exact ⟨first ++ others, hfirst.append hothers⟩

theorem Succeeds.exists_parts (h : w.Succeeds chain p) :
    ∃ loaded, (w.loadFrom chain p).result = .ok loaded ∧
      ∃ parts, w.MadeOf loaded.file.files loaded.diagnostics parts := by
  induction h with
  | @file chain p e hout hholds himports ih =>
      obtain ⟨source, hread, hrun⟩ := hholds
      obtain ⟨imports, hresult, hnames, hgood⟩ := result_loadImports_of_ok
        (fun _ loaded => ∃ parts, w.MadeOf loaded.file.files loaded.diagnostics parts) ih
      have hparts : ∀ i ∈ imports, ∃ parts, w.MadeOf i.2.file.files i.2.diagnostics parts := by
        intro i hi
        have hlength : imports.length = e.content.imports.length := by
          simpa using congrArg List.length hnames
        rw [← List.map_snd_zip (Nat.le_of_eq hlength)] at hi
        obtain ⟨⟨d, i⟩, hmem, rfl⟩ := List.mem_map.1 hi
        exact hgood d i hmem
      obtain ⟨others, hothers⟩ := exists_parts_of_imports hparts
      have hfirst : Part.Sound ⟨(assemble p e imports).file, source, e⟩ := ⟨hrun, rfl, rfl⟩
      refine ⟨assemble p e imports, ?_, _, hothers.cons hfirst hread⟩
      rw [result_loadFrom_of_read hout hread, result_build_of_ok hrun, hresult]
      rfl

theorem exists_parts_of_loadFrom (h : (w.loadFrom chain p).result = .ok loaded) :
    ∃ parts, w.MadeOf loaded.file.files loaded.diagnostics parts := by
  obtain ⟨loaded', hload, hparts⟩ := (loadFrom_ok_iff.1 ⟨loaded, h⟩).exists_parts
  rw [h] at hload
  cases hload
  exact hparts

/-- A source that is given is the part before those of its imports. -/
theorem exists_parts_of_loadSource {source : Text}
    (h : (w.loadSource source p).result = .ok loaded) :
    ∃ first others found, first.file = loaded.file ∧ first.source = source ∧ Part.Sound first ∧
      w.MadeOf (ImportedFile.allFiles loaded.file.imports) found others ∧
      loaded.diagnostics = first.diagnostics ++ found := by
  unfold loadSource at h
  rw [Run.result_bind_of_ok rfl] at h
  split at h
  · cases h
  cases hrun : Extraction.run source with
  | error failure =>
      rw [result_build_of_error hrun] at h
      cases h
  | ok e =>
      rw [result_build_of_ok hrun] at h
      cases himports : (w.loadImports p (w.loadFrom [w.disk.key p]) e.content.imports).result with
      | error error =>
          rw [himports] at h
          cases h
      | ok imports =>
          rw [himports] at h
          cases h
          have hparts : ∀ i ∈ imports, ∃ parts,
              w.MadeOf i.2.file.files i.2.diagnostics parts := by
            intro i hi
            obtain ⟨q, hload⟩ := exists_load_of_mem himports i hi
            exact exists_parts_of_loadFrom hload
          obtain ⟨others, hothers⟩ := exists_parts_of_imports hparts
          exact ⟨⟨_, source, e⟩, others, _, rfl, rfl, ⟨hrun, rfl, rfl⟩, hothers, rfl⟩

/-- Every file of a tree has its source, and what was found in the tree was found in the sources of
its files, one after the other. -/
theorem exists_parts {origin : Origin} (h : (w.loadOrigin origin).result = .ok loaded) :
    ∃ parts : List Part, parts.map Part.file = loaded.file.files ∧
      (∀ part ∈ parts, part.Sound) ∧
      w.Sources origin loaded.file (parts.map Part.source) ∧
      parts.flatMap Part.diagnostics = loaded.diagnostics := by
  cases origin with
  | file path =>
      obtain ⟨parts, hparts⟩ := exists_parts_of_loadFrom h
      exact ⟨parts, hparts.files, hparts.sound, hparts.sources, hparts.found⟩
  | text source path =>
      obtain ⟨first, others, found, hfile, hsource, hsound, hothers, hfound⟩ :=
        exists_parts_of_loadSource h
      refine ⟨first :: others, ?_, List.forall_mem_cons.2 ⟨hsound, hothers.sound⟩,
        ⟨others.map Part.source, by rw [List.map_cons, hsource], hothers.sources⟩, ?_⟩
      · rw [List.map_cons, hothers.files, hfile, SourceFile.files_eq]
      · rw [List.flatMap_cons, hothers.found, hfound]

end Workspace

end Stylesheet
