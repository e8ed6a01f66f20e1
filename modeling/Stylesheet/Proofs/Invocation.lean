import Stylesheet.CommandLine
import Stylesheet.Proofs.ImportGraph

/-! How a run of the command line tool ends.

A command line says what it asks for item by item (`Asks`), in any order. `Ends` lists the ways in
which a run can end, each with its exit code and with what is written to standard output: a command
line that asks for nothing, a configuration that cannot be read or is not understood, the first file
of the import tree that is at fault, or the printed tree. Every run ends in exactly the way listed
for it, whatever becomes of its log. -/

namespace Stylesheet

/-! ### The file at fault -/

namespace Workspace

variable {w : Workspace} {chain : List Path} {p : Path} {error : Error}

/-- The file that an error is about is one of the import tree. -/
theorem Fails.reaches (h : w.Fails chain p error) :
    Relation.ReflTransGen w.Imports p error.path := by
  induction h with
  | cycle => exact .refl
  | unreadable => exact .refl
  | structural => exact .refl
  | @imports chain p e before after d error _ hholds hsplit _ _ ih =>
      have himports : w.Imports p (w.resolved p d) := ⟨e, hholds, d, by simp [hsplit], rfl⟩
      exact .head himports ih

theorem Fails.ne_configuration (h : w.Fails chain p error) (path : Path) :
    error ≠ .configuration path := by
  induction h with
  | imports _ _ _ _ _ ih => exact ih
  | _ => simp

end Workspace

/-! ### Command lines -/

namespace Arguments

/-- One thing said on a command line. -/
inductive Item where
  | includePath (value : Text)
  | config (value : Text)
  | outline
  | file (path : Text)
deriving DecidableEq

namespace Item

def written : Item → List Text
  | .includePath value => ["--include-path".toList, value]
  | .config value => ["--config".toList, value]
  | .outline => ["--outline".toList]
  | .file path => [path]

def includePath? : Item → Option Path
  | .includePath value => some value
  | _ => none

def config? : Item → Option Path
  | .config value => some value
  | _ => none

def file? : Item → Option Path
  | .file path => some path
  | _ => none

end Item

/-- A file is not written like an option. -/
def Plain (path : Path) : Prop :=
  ¬"--".toList <+: path

/-- The items ask for just this: they name one file, and of several directories or configurations
the last one counts. -/
structure Means (items : List Item) (a : Arguments) : Prop where
  files : items.filterMap Item.file? = [a.file]
  plain : Plain a.file
  includePath : a.includePath = (items.filterMap Item.includePath?).getLast?
  config : a.config = (items.filterMap Item.config?).getLast?
  outline : a.outline = true ↔ Item.outline ∈ items

/-- A command line is made up of items that ask for something. -/
def Asks (arguments : List Text) (a : Arguments) : Prop :=
  ∃ items : List Item, arguments = items.flatMap Item.written ∧ Means items a

namespace Draft

/-- The items take one draft to another. -/
@[mk_iff]
structure Adds (items : List Item) (d d' : Draft) : Prop where
  files : d.file.toList ++ items.filterMap Item.file? = d'.file.toList
  plain : ∀ path ∈ items.filterMap Item.file?, Plain path
  includePath : d'.includePath = ((items.filterMap Item.includePath?).getLast?).or d.includePath
  config : d'.config = ((items.filterMap Item.config?).getLast?).or d.config
  outline : d'.outline = true ↔ d.outline = true ∨ Item.outline ∈ items

variable {items : List Item} {d d' : Draft}

theorem adds_nil_iff : Adds [] d d' ↔ d = d' := by
  obtain ⟨file, includePath, config, outline⟩ := d
  obtain ⟨file', includePath', config', outline'⟩ := d'
  have hfile : file.toList = file'.toList ↔ file = file' := by
    cases file <;> cases file' <;> simp
  rw [adds_iff]
  simp only [List.filterMap_nil, List.append_nil, hfile, List.getLast?_nil,
    Option.none_or, List.not_mem_nil, or_false, false_implies, implies_true, true_and, mk.injEq,
    ← Bool.eq_iff_iff, eq_comm]

theorem getLast?_cons_or {α : Type} (a : α) (as : List α) (o : Option α) :
    (a :: as).getLast?.or o = as.getLast?.or (some a) := by
  rw [List.getLast?_cons]
  cases as.getLast? <;> rfl

theorem adds_includePath_iff {value : Text} :
    Adds (.includePath value :: items) d d' ↔
      Adds items { d with includePath := some value } d' := by
  simp only [adds_iff, List.filterMap_cons, Item.file?, Item.includePath?, Item.config?,
    getLast?_cons_or, List.mem_cons, reduceCtorEq, false_or]

theorem adds_config_iff {value : Text} :
    Adds (.config value :: items) d d' ↔ Adds items { d with config := some value } d' := by
  simp only [adds_iff, List.filterMap_cons, Item.file?, Item.includePath?, Item.config?,
    getLast?_cons_or, List.mem_cons, reduceCtorEq, false_or]

theorem adds_outline_iff :
    Adds (.outline :: items) d d' ↔ Adds items { d with outline := true } d' := by
  simp only [adds_iff, List.filterMap_cons, Item.file?, Item.includePath?, Item.config?,
    List.mem_cons, true_or, or_true]

theorem adds_file_iff {path : Path} :
    Adds (.file path :: items) d d' ↔
      Plain path ∧ d.file = none ∧ Adds items { d with file := some path } d' := by
  have hfiles (paths : List Path) : d.file.toList ++ path :: paths = d'.file.toList ↔
      d.file = none ∧ path :: paths = d'.file.toList := by
    cases d.file with
    | none => simp
    | some first => cases d'.file <;> simp
  have houtline : Item.outline ∈ Item.file path :: items ↔ Item.outline ∈ items := by simp
  simp only [adds_iff, List.filterMap_cons, Item.file?, Item.includePath?, Item.config?,
    List.forall_mem_cons, houtline, hfiles, Option.toList_some, List.singleton_append]
  tauto

/-! What the reader does at each kind of item. -/

theorem read?_includePath (d : Draft) (value : Text) (rest : List Text) :
    d.read? ("--include-path".toList :: value :: rest) =
      Draft.read? { d with includePath := some value } rest := by
  rw [Draft.read?, if_pos rfl]

theorem read?_config (d : Draft) (value : Text) (rest : List Text) :
    d.read? ("--config".toList :: value :: rest) =
      Draft.read? { d with config := some value } rest := by
  rw [Draft.read?, if_neg (by decide), if_pos rfl]

theorem read?_outline (d : Draft) (rest : List Text) :
    d.read? ("--outline".toList :: rest) = Draft.read? { d with outline := true } rest := by
  rw [Draft.read?.eq_def]
  exact (if_neg (by decide)).trans ((if_neg (by decide)).trans (if_pos rfl))

theorem isSome_after?_iff {lead t : Text} : (Text.after? lead t).isSome = true ↔ lead <+: t := by
  simp only [Text.after?, Option.isSome_iff_exists, List.isPrefixOf?_eq_some_iff_append_eq]
  rfl

theorem read?_file {path : Path} (hplain : Plain path) (hfile : d.file = none)
    (rest : List Text) :
    d.read? (path :: rest) = Draft.read? { d with file := some path } rest := by
  have hne {option : Text} (h : "--".toList <+: option) : path ≠ option := by
    rintro rfl
    exact hplain h
  rw [Draft.read?.eq_def]
  dsimp only
  rw [if_neg (hne (by decide)), if_neg (hne (by decide)), if_neg (hne (by decide)), if_neg]
  rw [hfile, Option.isSome_none, Bool.or_false, isSome_after?_iff]
  exact hplain

theorem Adds.read? (h : Adds items d d') : d.read? (items.flatMap Item.written) = some d' := by
  induction items generalizing d with
  | nil => rw [adds_nil_iff.1 h, List.flatMap_nil, Draft.read?]
  | cons item items ih =>
      cases item with
      | includePath value => exact (read?_includePath ..).trans (ih (adds_includePath_iff.1 h))
      | config value => exact (read?_config ..).trans (ih (adds_config_iff.1 h))
      | outline => exact (read?_outline ..).trans (ih (adds_outline_iff.1 h))
      | file path =>
          obtain ⟨hplain, hfile, hadds⟩ := adds_file_iff.1 h
          exact (read?_file hplain hfile _).trans (ih hadds)

theorem exists_adds_of_read? {arguments : List Text} (h : d.read? arguments = some d') :
    ∃ items : List Item, arguments = items.flatMap Item.written ∧ Adds items d d' := by
  induction d, arguments using Draft.read?.induct with
  | case1 d =>
      rw [Draft.read?] at h
      cases h
      exact ⟨[], rfl, adds_nil_iff.2 rfl⟩
  | case2 d value rest ih =>
      rw [read?_includePath] at h
      obtain ⟨items, rfl, hadds⟩ := ih h
      exact ⟨.includePath value :: items, rfl, adds_includePath_iff.2 hadds⟩
  | case3 d =>
      rw [Draft.read?, if_pos rfl] at h
      cases h
  | case4 d value rest _ ih =>
      rw [read?_config] at h
      obtain ⟨items, rfl, hadds⟩ := ih h
      exact ⟨.config value :: items, rfl, adds_config_iff.2 hadds⟩
  | case5 d hinclude =>
      rw [Draft.read?, if_neg hinclude, if_pos rfl] at h
      cases h
  | case6 d rest _ _ ih =>
      rw [read?_outline] at h
      obtain ⟨items, rfl, hadds⟩ := ih h
      exact ⟨.outline :: items, rfl, adds_outline_iff.2 hadds⟩
  | case7 d argument rest hinclude hconfig houtline hreject =>
      rw [Draft.read?.eq_def] at h
      dsimp only at h
      rw [if_neg hinclude, if_neg hconfig, if_neg houtline, if_pos hreject] at h
      cases h
  | case8 d argument rest hinclude hconfig houtline haccept ih =>
      obtain ⟨hplain, hfile⟩ : Plain argument ∧ d.file = none := by
        simpa [isSome_after?_iff, Plain] using haccept
      rw [read?_file hplain hfile] at h
      obtain ⟨items, rfl, hadds⟩ := ih h
      exact ⟨.file argument :: items, rfl, adds_file_iff.2 ⟨hplain, hfile, hadds⟩⟩

end Draft

/-- The arguments read from a command line are what it asks for. -/
theorem ofList?_eq_some_iff {arguments : List Text} {a : Arguments} :
    ofList? arguments = some a ↔ Asks arguments a := by
  constructor
  · intro h
    obtain ⟨d, hread, h⟩ := Option.bind_eq_some_iff.1 h
    obtain ⟨file, hfile, h⟩ := Option.bind_eq_some_iff.1 h
    cases h
    obtain ⟨items, rfl, hadds⟩ := Draft.exists_adds_of_read? hread
    have hfiles : items.filterMap Item.file? = [file] := by simpa [hfile] using hadds.files
    exact ⟨items, rfl, hfiles, hadds.plain file (by simp [hfiles]),
      by simpa using hadds.includePath, by simpa using hadds.config, by simpa using hadds.outline⟩
  · rintro ⟨items, rfl, h⟩
    have hadds : Draft.Adds items ⟨none, none, none, false⟩
        ⟨some a.file, a.includePath, a.config, a.outline⟩ :=
      ⟨h.files, by simpa [h.files] using h.plain, by simpa using h.includePath,
        by simpa using h.config, by simpa using h.outline⟩
    rw [ofList?, hadds.read?]
    rfl

end Arguments

/-! ### Configurations -/

namespace CommandLine

/-- The settings of a run: those of the configuration, if one is given, with the directory of the
command line in place of its own. -/
inductive Configured (d : Disk) (a : Arguments) : Config → Prop
  | plain (hnone : a.config = none) : Configured d a ⟨a.includePath, none⟩
  | file {path : Path} {text : Text} {c : Config} (hsome : a.config = some path)
      (hread : d.read path = .ok text) (htext : Config.ofText? text = some c) :
      Configured d a ⟨a.includePath.or c.includePath, c.logLevel⟩

theorem configure_eq_ok_iff {d : Disk} {a : Arguments} {c : Config} :
    configure d a = .ok c ↔ Configured d a c := by
  constructor
  · intro h
    unfold configure at h
    cases hconfig : a.config with
    | none =>
        rw [hconfig] at h
        cases h
        rw [effective, Config.empty, Option.or_none]
        exact .plain hconfig
    | some path =>
        rw [hconfig] at h
        dsimp only at h
        unfold Config.load at h
        cases hread : d.read path with
        | error fault =>
            rw [hread] at h
            cases h
        | ok text =>
            rw [hread] at h
            dsimp only at h
            cases htext : Config.ofText? text with
            | none =>
                rw [htext] at h
                cases h
            | some c' =>
                rw [htext] at h
                cases h
                exact .file hconfig hread htext
  · intro h
    cases h with
    | plain hnone => rw [configure, hnone, effective, Config.empty, Option.or_none]
    | file hsome hread htext =>
        simp only [configure, hsome, Config.load, hread, htext]
        rfl

theorem configure_of_error {d : Disk} {a : Arguments} {path : Path} {e : Error}
    (hsome : a.config = some path) (h : Config.load d path = .error e) :
    configure d a = .error e := by
  rw [configure, hsome]
  dsimp only
  rw [h]
  rfl

/-! ### Runs -/

/-- The ways in which a run ends, with the exit code and the text on standard output. -/
inductive Ends (d : Disk) (arguments : List Text) : Nat → Text → Prop
  | misuse (h : ∀ a, ¬Arguments.Asks arguments a) : Ends d arguments 1 []
  | invalidConfig {a : Arguments} {path : Path} {text : Text} (ha : Arguments.Asks arguments a)
      (hsome : a.config = some path) (hread : d.read path = .ok text)
      (htext : Config.ofText? text = none) : Ends d arguments 1 []
  | unreadableConfig {a : Arguments} {path : Path} {fault : ReadFault}
      (ha : Arguments.Asks arguments a) (hsome : a.config = some path)
      (hread : d.read path = .error fault) : Ends d arguments 2 []
  | unreadableSource {a : Arguments} {c : Config} {path : Path} {fault : ReadFault}
      (ha : Arguments.Asks arguments a) (hc : Configured d a c)
      (hreach : Relation.ReflTransGen (Workspace.mk d c.includePath).Imports a.file path)
      (hfails : (Workspace.mk d c.includePath).Fails [] a.file (.unreadable path fault)) :
      Ends d arguments 2 []
  | structural {a : Arguments} {c : Config} {path : Path} {fault : Fault}
      (ha : Arguments.Asks arguments a) (hc : Configured d a c)
      (hreach : Relation.ReflTransGen (Workspace.mk d c.includePath).Imports a.file path)
      (hfails : (Workspace.mk d c.includePath).Fails [] a.file (.structural path fault)) :
      Ends d arguments 3 []
  | cycle {a : Arguments} {c : Config} {path : Path} {chain : List Path}
      (ha : Arguments.Asks arguments a) (hc : Configured d a c)
      (hreach : Relation.ReflTransGen (Workspace.mk d c.includePath).Imports a.file path)
      (hfails : (Workspace.mk d c.includePath).Fails [] a.file (.cycle path chain)) :
      Ends d arguments 3 []
  | printed {a : Arguments} {c : Config} {loaded : Loaded} (ha : Arguments.Asks arguments a)
      (hc : Configured d a c)
      (hload : ((Workspace.mk d c.includePath).load a.file).result = .ok loaded) :
      Ends d arguments 0
        (loaded.file.json.pretty 0 ++ '\n' :: loaded.file.unused.flatMap fun u => u.line ++ ['\n'])

section

variable {d : Disk} {logFault : Option ReadFault} {program : Text} {arguments : List Text}
  {a : Arguments} {c : Config}

theorem run_of_not_asks (h : ∀ a, ¬Arguments.Asks arguments a) :
    run d logFault program arguments = ⟨1, [], usage program, none, []⟩ := by
  have hnone : Arguments.ofList? arguments = none :=
    Option.eq_none_iff_forall_ne_some.2 fun a ha => h a (Arguments.ofList?_eq_some_iff.1 ha)
  rw [run, hnone]

theorem run_of_configure_error {e : Error} (ha : Arguments.Asks arguments a)
    (h : configure d a = .error e) :
    run d logFault program arguments = ⟨e.exitCode, [], line e.line, none, a.config.toList⟩ := by
  rw [run, Arguments.ofList?_eq_some_iff.2 ha]
  dsimp only
  rw [h]

theorem run_of_configured (ha : Arguments.Asks arguments a) (hc : Configured d a c) :
    run d logFault program arguments =
      execute d logFault (opening program arguments a) a c := by
  rw [run, Arguments.ofList?_eq_some_iff.2 ha]
  dsimp only
  rw [configure_eq_ok_iff.2 hc]

theorem outcome_of_fails {e : Error} (ha : Arguments.Asks arguments a) (hc : Configured d a c)
    (h : (Workspace.mk d c.includePath).Fails [] a.file e) :
    (run d logFault program arguments).exitCode = e.exitCode ∧
      (run d logFault program arguments).stdout = [] := by
  have hload : ((Workspace.mk d c.includePath).load a.file).result = .error e := h.result
  rw [run_of_configured ha hc]
  unfold execute
  dsimp only
  rw [hload]
  exact ⟨rfl, rfl⟩

theorem outcome_of_load {loaded : Loaded} (ha : Arguments.Asks arguments a)
    (hc : Configured d a c)
    (h : ((Workspace.mk d c.includePath).load a.file).result = .ok loaded) :
    (run d logFault program arguments).exitCode = 0 ∧
      (run d logFault program arguments).stdout =
        loaded.file.json.pretty 0 ++
          '\n' :: loaded.file.unused.flatMap fun u => u.line ++ ['\n'] := by
  rw [run_of_configured ha hc]
  unfold execute
  dsimp only
  rw [h]
  exact ⟨rfl, by simp [output, line]⟩

theorem ends_of_fails {e : Error} (ha : Arguments.Asks arguments a) (hc : Configured d a c)
    (h : (Workspace.mk d c.includePath).Fails [] a.file e) : Ends d arguments e.exitCode [] := by
  have hreach := h.reaches
  cases e with
  | unreadable path fault => exact .unreadableSource ha hc hreach h
  | structural path fault => exact .structural ha hc hreach h
  | cycle path chain => exact .cycle ha hc hreach h
  | configuration path => exact absurd rfl (h.ne_configuration path)

theorem Ends.outcome {code : Nat} {out : Text} (h : Ends d arguments code out)
    (logFault : Option ReadFault) (program : Text) :
    (run d logFault program arguments).exitCode = code ∧
      (run d logFault program arguments).stdout = out := by
  cases h with
  | misuse h =>
      rw [run_of_not_asks h]
      exact ⟨rfl, rfl⟩
  | @invalidConfig a path text ha hsome hread htext =>
      have hload : Config.load d path = .error (.configuration path) := by
        rw [Config.load, hread]
        dsimp only
        rw [htext]
      rw [run_of_configure_error ha (configure_of_error hsome hload)]
      exact ⟨rfl, rfl⟩
  | @unreadableConfig a path fault ha hsome hread =>
      have hload : Config.load d path = .error (.unreadable path fault) := by
        rw [Config.load, hread]
      rw [run_of_configure_error ha (configure_of_error hsome hload)]
      exact ⟨rfl, rfl⟩
  | unreadableSource ha hc _ hfails => exact outcome_of_fails ha hc hfails
  | structural ha hc _ hfails => exact outcome_of_fails ha hc hfails
  | cycle ha hc _ hfails => exact outcome_of_fails ha hc hfails
  | printed ha hc hload => exact outcome_of_load ha hc hload

theorem exists_ends_of_configured (ha : Arguments.Asks arguments a) (hc : Configured d a c) :
    ∃ code out, Ends d arguments code out := by
  rcases (Workspace.mk d c.includePath).succeeds_or_fails [] a.file with h | ⟨e, h⟩
  · obtain ⟨loaded, hload⟩ := Workspace.loadFrom_ok_iff.2 h
    exact ⟨_, _, .printed ha hc hload⟩
  · exact ⟨_, _, ends_of_fails ha hc h⟩

/-- Some way to end is listed for every run. -/
theorem exists_ends (d : Disk) (arguments : List Text) : ∃ code out, Ends d arguments code out := by
  by_cases hasks : ∃ a, Arguments.Asks arguments a
  · obtain ⟨a, ha⟩ := hasks
    cases hconfig : a.config with
    | none => exact exists_ends_of_configured ha (.plain hconfig)
    | some path =>
        cases hread : d.read path with
        | error fault => exact ⟨_, _, .unreadableConfig ha hconfig hread⟩
        | ok text =>
            cases htext : Config.ofText? text with
            | none => exact ⟨_, _, .invalidConfig ha hconfig hread htext⟩
            | some c => exact exists_ends_of_configured ha (.file hconfig hread htext)
  · exact ⟨_, _, .misuse fun a ha => hasks ⟨a, ha⟩⟩

end

/-- How a run ends. The arguments are read from exactly the command lines that ask for them. The exit
code and the text on standard output are the ones listed for the command line and the disk, whatever
the name of the program and whether or not a log can be kept. -/
theorem run_ends (d : Disk) (logFault : Option ReadFault) (program : Text)
    (arguments : List Text) :
    (∀ a, Arguments.ofList? arguments = some a ↔ Arguments.Asks arguments a) ∧
      ∀ code out, Ends d arguments code out ↔
        (run d logFault program arguments).exitCode = code ∧
          (run d logFault program arguments).stdout = out := by
  refine ⟨fun a => Arguments.ofList?_eq_some_iff, fun code out => ⟨?_, ?_⟩⟩
  · intro h
    exact h.outcome logFault program
  · rintro ⟨rfl, rfl⟩
    obtain ⟨code, out, h⟩ := exists_ends d arguments
    obtain ⟨hcode, hout⟩ := h.outcome logFault program
    rw [hcode, hout]
    exact h

end CommandLine

end Stylesheet
