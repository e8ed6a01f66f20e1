import Stylesheet.Loading

/-! What loading comes to.

`Succeeds` says that no step of loading a file fails, and `Fails` names the first step that does: a
file is looked for in the chain, read and taken apart, and after that its imports are loaded from
left to right. One of the two holds of every file, since a chain grows over the files of a disk
(`succeeds_or_fails`), and each decides the result. What is loaded is the unfolding of the imports
(`Unfolds`). -/

namespace Stylesheet

theorem exists_ok_of_toOption_map {ε α β : Type} {r : Except ε α} {f : α → β} {b : β}
    (h : r.toOption.map f = some b) : ∃ a, r = .ok a ∧ f a = b := by
  cases r with
  | error error => cases h
  | ok a => exact ⟨a, rfl, Option.some.inj h⟩

theorem exists_of_bind {ε α β : Type} {r : Except ε α} {f : α → Except ε β} {b : β}
    (h : r >>= f = .ok b) : ∃ a, r = .ok a ∧ f a = .ok b := by
  cases r with
  | error error => cases h
  | ok a => exact ⟨a, rfl, h⟩

theorem eq_error_of_map {ε α β : Type} {r : Except ε α} {f : α → β} {error : ε}
    (h : r.map f = .error error) : r = .error error := by
  cases r with
  | error first =>
      cases h
      rfl
  | ok a => cases h

namespace Run

variable {α β : Type}

theorem result_bind (r : Run α) (f : α → Run β) :
    (r >>= f).result = r.result.bind fun a => (f a).result := by
  change (r.andThen f).result = _
  unfold andThen
  cases r.result <;> rfl

theorem result_bind_of_ok {r : Run α} {a : α} (h : r.result = .ok a) (f : α → Run β) :
    (r >>= f).result = (f a).result := by
  rw [result_bind, h]
  rfl

end Run

namespace Workspace

variable {w : Workspace} {chain : List Path} {p : Path}

/-- The path at which the target of an import is loaded. -/
def resolved (w : Workspace) (importer : Path) (d : ImportDirective) : Path :=
  (Target.ofText d.target).resolve w.disk w.includePath importer

/-- A path leads to a source that is accepted, and this is what the source holds. -/
def Holds (w : Workspace) (p : Path) (e : Extraction) : Prop :=
  ∃ source, w.disk.readSource p = .ok source ∧ Extraction.run source = .ok e

theorem Holds.unique {e e' : Extraction} (h : w.Holds p e) (h' : w.Holds p e') : e = e' := by
  obtain ⟨source, hread, hrun⟩ := h
  obtain ⟨source', hread', hrun'⟩ := h'
  rw [hread] at hread'
  cases hread'
  rw [hrun] at hrun'
  cases hrun'
  rfl

/-- A file with what it holds itself and, in the order of its import directives, the unfolding of
every file that they resolve to. -/
inductive Unfolds (w : Workspace) : Path → SourceFile → Prop
  | file {p : Path} {e : Extraction} {imports : List ImportedFile} (hholds : w.Holds p e)
      (hnames : imports.map ImportedFile.name =
        e.content.imports.map fun d => (Target.ofText d.target).name)
      (hfiles : ∀ d i, (d, i) ∈ e.content.imports.zip imports →
        Unfolds w (w.resolved p d) i.file) :
      Unfolds w p ⟨p, e.content.rules, e.content.vars, imports⟩

/-- No step of loading a file fails, reached through a chain. -/
inductive Succeeds (w : Workspace) : List Path → Path → Prop
  | file {chain : List Path} {p : Path} {e : Extraction}
      (hout : Disk.inChain chain (w.disk.key p) = false) (hholds : w.Holds p e)
      (himports : ∀ d ∈ e.content.imports,
        Succeeds w (chain ++ [w.disk.key p]) (w.resolved p d)) :
      Succeeds w chain p

/-- The error of the first step that fails. -/
inductive Fails (w : Workspace) : List Path → Path → Error → Prop
  | cycle {chain : List Path} {p : Path} (hin : Disk.inChain chain (w.disk.key p) = true) :
      Fails w chain p (.cycle p (chain ++ [w.disk.key p]))
  | unreadable {chain : List Path} {p : Path} {fault : ReadFault}
      (hout : Disk.inChain chain (w.disk.key p) = false)
      (hread : w.disk.readSource p = .error fault) : Fails w chain p (.unreadable p fault)
  | structural {chain : List Path} {p : Path} {source : Text} {failure : Failure}
      (hout : Disk.inChain chain (w.disk.key p) = false)
      (hread : w.disk.readSource p = .ok source)
      (hrun : Extraction.run source = .error failure) :
      Fails w chain p (.structural p failure.fault)
  | imports {chain : List Path} {p : Path} {e : Extraction} {before after : List ImportDirective}
      {d : ImportDirective} {error : Error}
      (hout : Disk.inChain chain (w.disk.key p) = false) (hholds : w.Holds p e)
      (hsplit : e.content.imports = before ++ d :: after)
      (hbefore : ∀ d' ∈ before, Succeeds w (chain ++ [w.disk.key p]) (w.resolved p d'))
      (hfails : Fails w (chain ++ [w.disk.key p]) (w.resolved p d) error) :
      Fails w chain p error

/-! ### The results of the parts -/

theorem result_lookUp (w : Workspace) (importer : Path) (d : ImportDirective) :
    (w.lookUp importer d).result = .ok (w.resolved importer d) := by
  unfold lookUp
  dsimp only
  rw [Run.result_bind_of_ok rfl]
  cases (Target.ofText d.target).find? w.disk w.includePath importer <;> rfl

theorem result_loadImports_cons (w : Workspace) (importer : Path) (load : Path → Run Loaded)
    (d : ImportDirective) (ds : List ImportDirective) :
    (w.loadImports importer load (d :: ds)).result =
      (load (w.resolved importer d)).result.bind fun loaded =>
        (w.loadImports importer load ds).result.bind fun others =>
          .ok (((Target.ofText d.target).name, loaded) :: others) := by
  rw [loadImports, Run.result_bind_of_ok (w.result_lookUp importer d), Run.result_bind]
  congr
  funext loaded
  rw [Run.result_bind]
  rfl

/-- Imports that can all be loaded are loaded in order. -/
theorem result_loadImports_of_ok {importer : Path} {load : Path → Run Loaded}
    {ds : List ImportDirective} (good : Path → Loaded → Prop)
    (h : ∀ d ∈ ds, ∃ loaded, (load (w.resolved importer d)).result = .ok loaded ∧
      good (w.resolved importer d) loaded) :
    ∃ imports, (w.loadImports importer load ds).result = .ok imports ∧
      imports.map Prod.fst = ds.map (fun d => (Target.ofText d.target).name) ∧
      ∀ d i, (d, i) ∈ ds.zip imports → good (w.resolved importer d) i.2 := by
  induction ds with
  | nil => exact ⟨[], rfl, rfl, fun d i hmem => by cases hmem⟩
  | cons d ds ih =>
      obtain ⟨loaded, hload, hgood⟩ := h d List.mem_cons_self
      obtain ⟨others, hothers, hnames, hfiles⟩ :=
        ih fun d' hd' => h d' (List.mem_cons_of_mem d hd')
      refine ⟨((Target.ofText d.target).name, loaded) :: others, ?_, ?_, ?_⟩
      · rw [result_loadImports_cons, hload, hothers]
        rfl
      · rw [List.map_cons, List.map_cons, hnames]
      · intro d' i hmem
        rw [List.zip_cons_cons] at hmem
        rcases List.mem_cons.1 hmem with heq | hmem
        · cases heq
          exact hgood
        · exact hfiles d' i hmem

/-- The first import that cannot be loaded decides. -/
theorem result_loadImports_of_error {importer : Path} {load : Path → Run Loaded}
    {before after : List ImportDirective} {d : ImportDirective} {error : Error}
    (hbefore : ∀ d' ∈ before, ∃ loaded, (load (w.resolved importer d')).result = .ok loaded)
    (herror : (load (w.resolved importer d)).result = .error error) :
    (w.loadImports importer load (before ++ d :: after)).result = .error error := by
  induction before with
  | nil =>
      rw [List.nil_append, result_loadImports_cons, herror]
      rfl
  | cons d' before ih =>
      obtain ⟨loaded, hload⟩ := hbefore d' List.mem_cons_self
      have hrest := ih fun d'' hd'' => hbefore d'' (List.mem_cons_of_mem d' hd'')
      rw [List.cons_append, result_loadImports_cons, hload, hrest]
      rfl

theorem result_build_of_ok {source : Text} {e : Extraction} (hrun : Extraction.run source = .ok e)
    (w : Workspace) (p : Path) (load : Path → Run Loaded) :
    (w.build p source load).result =
      (w.loadImports p load e.content.imports).result.bind fun imports =>
        .ok (assemble p e imports) := by
  unfold build
  rw [Run.result_bind_of_ok rfl, hrun]
  dsimp only
  rw [Run.result_bind_of_ok rfl, Run.result_bind]
  rfl

theorem result_build_of_error {source : Text} {failure : Failure}
    (hrun : Extraction.run source = .error failure) (w : Workspace) (p : Path)
    (load : Path → Run Loaded) :
    (w.build p source load).result = .error (.structural p failure.fault) := by
  unfold build
  rw [Run.result_bind_of_ok rfl, hrun]
  rfl

theorem result_loadFrom_of_in (hin : Disk.inChain chain (w.disk.key p) = true) :
    (w.loadFrom chain p).result = .error (.cycle p (chain ++ [w.disk.key p])) := by
  rw [loadFrom, Run.result_bind_of_ok rfl, dif_pos hin]
  rfl

theorem result_loadFrom_of_unreadable {fault : ReadFault}
    (hout : Disk.inChain chain (w.disk.key p) = false)
    (hread : w.disk.readSource p = .error fault) :
    (w.loadFrom chain p).result = .error (.unreadable p fault) := by
  rw [loadFrom, Run.result_bind_of_ok rfl, dif_neg (by simp [hout])]
  split
  · next fault' hread' =>
    rw [hread] at hread'
    cases hread'
    rfl
  · next source hread' =>
    rw [hread] at hread'
    cases hread'

theorem result_loadFrom_of_read {source : Text}
    (hout : Disk.inChain chain (w.disk.key p) = false)
    (hread : w.disk.readSource p = .ok source) :
    (w.loadFrom chain p).result =
      (w.build p source (w.loadFrom (chain ++ [w.disk.key p]))).result := by
  rw [loadFrom, Run.result_bind_of_ok rfl, dif_neg (by simp [hout])]
  split
  · next fault hread' =>
    rw [hread] at hread'
    cases hread'
  · next source' hread' =>
    rw [hread] at hread'
    cases hread'
    rfl

/-! ### The result of the whole -/

/-- Where no step fails, the unfolding of the file is loaded. -/
theorem Succeeds.result (h : w.Succeeds chain p) :
    ∃ loaded, (w.loadFrom chain p).result = .ok loaded ∧ w.Unfolds p loaded.file := by
  induction h with
  | @file chain p e hout hholds himports ih =>
      obtain ⟨source, hread, hrun⟩ := hholds
      obtain ⟨imports, hresult, hnames, hfiles⟩ :=
        result_loadImports_of_ok (fun q loaded => w.Unfolds q loaded.file) ih
      refine ⟨assemble p e imports, ?_, .file ⟨source, hread, hrun⟩ ?_ ?_⟩
      · rw [result_loadFrom_of_read hout hread, result_build_of_ok hrun, hresult]
        rfl
      · rw [← hnames, List.map_map]
        rfl
      · intro d i hmem
        rw [List.zip_map_right] at hmem
        obtain ⟨⟨d', i'⟩, hmem', heq⟩ := List.mem_map.1 hmem
        cases heq
        exact hfiles d' i' hmem'

/-- Where a step fails, its error is returned. -/
theorem Fails.result {error : Error} (h : w.Fails chain p error) :
    (w.loadFrom chain p).result = .error error := by
  induction h with
  | cycle hin => exact result_loadFrom_of_in hin
  | unreadable hout hread => exact result_loadFrom_of_unreadable hout hread
  | structural hout hread hrun =>
      rw [result_loadFrom_of_read hout hread]
      exact result_build_of_error hrun _ _ _
  | @imports chain p e before after d error hout hholds hsplit hbefore _ ih =>
      obtain ⟨source, hread, hrun⟩ := hholds
      have hbefore' : ∀ d' ∈ before, ∃ loaded,
          (w.loadFrom (chain ++ [w.disk.key p]) (w.resolved p d')).result = .ok loaded := by
        intro d' hd'
        obtain ⟨loaded, hloaded, _⟩ := (hbefore d' hd').result
        exact ⟨loaded, hloaded⟩
      rw [result_loadFrom_of_read hout hread, result_build_of_ok hrun, hsplit,
        result_loadImports_of_error hbefore' ih]
      rfl

/-- The first import of a list that fails, if there is one. -/
theorem all_succeed_or_first_fails {importer : Path} {ds : List ImportDirective}
    (h : ∀ d ∈ ds, w.Succeeds chain (w.resolved importer d) ∨
      ∃ error, w.Fails chain (w.resolved importer d) error) :
    (∀ d ∈ ds, w.Succeeds chain (w.resolved importer d)) ∨
      ∃ before d after error, ds = before ++ d :: after ∧
        (∀ d' ∈ before, w.Succeeds chain (w.resolved importer d')) ∧
        w.Fails chain (w.resolved importer d) error := by
  induction ds with
  | nil => exact .inl (List.forall_mem_nil _)
  | cons d ds ih =>
      rcases h d List.mem_cons_self with hd | ⟨error, hfails⟩
      · rcases ih fun d' hd' => h d' (List.mem_cons_of_mem d hd') with
          hall | ⟨before, d', after, error, rfl, hbefore, hfails⟩
        · exact .inl (List.forall_mem_cons.2 ⟨hd, hall⟩)
        · exact .inr ⟨d :: before, d', after, error, rfl,
            List.forall_mem_cons.2 ⟨hd, hbefore⟩, hfails⟩
      · exact .inr ⟨[], d, ds, error, rfl, List.forall_mem_nil _, hfails⟩

/-- Either no step fails, or there is a first one that does. -/
theorem succeeds_or_fails (w : Workspace) (chain : List Path) (p : Path) :
    w.Succeeds chain p ∨ ∃ error, w.Fails chain p error := by
  -- A file joins the chain before its imports are loaded, so that fewer files are outside.
  induction hn : w.disk.outside chain using Nat.strongRecOn generalizing chain p with
  | ind n ih =>
      cases hchain : Disk.inChain chain (w.disk.key p) with
      | true => exact .inr ⟨_, .cycle hchain⟩
      | false =>
          cases hread : w.disk.readSource p with
          | error fault => exact .inr ⟨_, .unreadable hchain hread⟩
          | ok source =>
              cases hrun : Extraction.run source with
              | error failure => exact .inr ⟨_, .structural hchain hread hrun⟩
              | ok e =>
                  have hfewer := Disk.outside_push_lt hchain hread
                  rw [hn] at hfewer
                  have himports : ∀ d ∈ e.content.imports,
                      w.Succeeds (chain ++ [w.disk.key p]) (w.resolved p d) ∨
                        ∃ error, w.Fails (chain ++ [w.disk.key p]) (w.resolved p d) error :=
                    fun d _ => ih _ hfewer _ _ rfl
                  rcases all_succeed_or_first_fails himports with
                    hall | ⟨before, d, after, error, hsplit, hbefore, hfails⟩
                  · exact .inl (.file hchain ⟨source, hread, hrun⟩ hall)
                  · exact .inr ⟨error, .imports hchain ⟨source, hread, hrun⟩ hsplit hbefore hfails⟩

theorem loadFrom_ok_iff :
    (∃ loaded, (w.loadFrom chain p).result = .ok loaded) ↔ w.Succeeds chain p := by
  constructor
  · rintro ⟨loaded, hok⟩
    rcases w.succeeds_or_fails chain p with h | ⟨error, h⟩
    · exact h
    · rw [h.result] at hok
      cases hok
  · intro h
    obtain ⟨loaded, hok, _⟩ := h.result
    exact ⟨loaded, hok⟩

theorem loadFrom_error_iff {error : Error} :
    (w.loadFrom chain p).result = .error error ↔ w.Fails chain p error := by
  constructor
  · intro herror
    rcases w.succeeds_or_fails chain p with h | ⟨error', h⟩
    · obtain ⟨loaded, hok, _⟩ := h.result
      rw [herror] at hok
      cases hok
    · have heq := h.result
      rw [herror] at heq
      cases heq
      exact h
  · exact Fails.result

theorem unfolds_of_loadFrom {loaded : Loaded} (h : (w.loadFrom chain p).result = .ok loaded) :
    w.Unfolds p loaded.file := by
  obtain ⟨loaded', hok, hunfolds⟩ := (loadFrom_ok_iff.1 ⟨loaded, h⟩).result
  rw [h] at hok
  cases hok
  exact hunfolds

/-! ### The files of a tree -/

theorem mem_allFiles_iff {imports : List ImportedFile} {f : SourceFile} :
    f ∈ ImportedFile.allFiles imports ↔ ∃ i ∈ imports, f ∈ i.file.files := by
  induction imports with
  | nil => simp [ImportedFile.allFiles]
  | cons i imports ih =>
      cases i
      simp [ImportedFile.allFiles, ih]

/-- What holds of a file and of all files behind its imports holds of all files of the tree. -/
theorem forall_mem_files {good : SourceFile → Prop} {file : SourceFile} (hfile : good file)
    (himports : ∀ i ∈ file.imports, ∀ f ∈ i.file.files, good f) : ∀ f ∈ file.files, good f := by
  cases file
  intro f hf
  rw [SourceFile.files] at hf
  rcases List.mem_cons.1 hf with rfl | hf
  · exact hfile
  · obtain ⟨i, hi, hf⟩ := mem_allFiles_iff.1 hf
    exact himports i hi f hf

/-- A file holds what an accepted source holds. -/
def Extracted (f : SourceFile) : Prop :=
  ∃ source e, Extraction.run source = .ok e ∧ f.rules = e.content.rules ∧ f.vars = e.content.vars

theorem Unfolds.extracted {file : SourceFile} (h : w.Unfolds p file) :
    ∀ f ∈ file.files, Extracted f := by
  induction h with
  | @file p e imports hholds hnames _ ih =>
      obtain ⟨source, _, hrun⟩ := hholds
      refine forall_mem_files ⟨source, e, hrun, rfl, rfl⟩ fun i hi => ?_
      have hlength : imports.length = e.content.imports.length := by
        simpa using congrArg List.length hnames
      rw [← List.map_snd_zip (Nat.le_of_eq hlength)] at hi
      obtain ⟨⟨d, i⟩, hmem, rfl⟩ := List.mem_map.1 hi
      exact ih d i hmem

theorem exists_load_of_mem {importer : Path} {load : Path → Run Loaded}
    {ds : List ImportDirective} {imports : List (Text × Loaded)}
    (h : (w.loadImports importer load ds).result = .ok imports) :
    ∀ i ∈ imports, ∃ q, (load q).result = .ok i.2 := by
  induction ds generalizing imports with
  | nil =>
      cases h
      exact List.forall_mem_nil _
  | cons d ds ih =>
      rw [result_loadImports_cons] at h
      cases hload : (load (w.resolved importer d)).result with
      | error error =>
          rw [hload] at h
          cases h
      | ok loaded =>
          rw [hload] at h
          cases hothers : (w.loadImports importer load ds).result with
          | error error =>
              rw [hothers] at h
              cases h
          | ok others =>
              rw [hothers] at h
              cases h
              exact List.forall_mem_cons.2 ⟨⟨_, hload⟩, ih hothers⟩

theorem extracted_of_build {source : Text} {loaded : Loaded}
    (h : (w.build p source (w.loadFrom chain)).result = .ok loaded) :
    ∀ f ∈ loaded.file.files, Extracted f := by
  cases hrun : Extraction.run source with
  | error failure =>
      rw [result_build_of_error hrun] at h
      cases h
  | ok e =>
      rw [result_build_of_ok hrun] at h
      cases himports : (w.loadImports p (w.loadFrom chain) e.content.imports).result with
      | error error =>
          rw [himports] at h
          cases h
      | ok imports =>
          rw [himports] at h
          cases h
          refine forall_mem_files ⟨source, e, hrun, rfl, rfl⟩ fun i hi => ?_
          obtain ⟨⟨name, other⟩, hmem, rfl⟩ := List.mem_map.1 hi
          obtain ⟨q, hload⟩ := exists_load_of_mem himports _ hmem
          exact (unfolds_of_loadFrom hload).extracted

theorem extracted_of_loadSource {source : Text} {loaded : Loaded}
    (h : (w.loadSource source p).result = .ok loaded) : ∀ f ∈ loaded.file.files, Extracted f := by
  unfold loadSource at h
  rw [Run.result_bind_of_ok rfl] at h
  split at h
  · cases h
  · exact extracted_of_build h

end Workspace

end Stylesheet
