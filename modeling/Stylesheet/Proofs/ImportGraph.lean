import Mathlib.Data.List.Chain
import Mathlib.Logic.Relation
import Stylesheet.Proofs.Loading

/-! The graph of imports.

A file imports the files that its directives resolve to. Loading follows every chain of imports from
the first file on, so that it fails on a chain that comes to the same file twice and on no other,
as long as every file on the way can be taken apart. A cycle that is reported is one of these chains
(`Fails.closes`). Files are told apart by the places their paths lead to (`Disk.sameFile_iff`),
however the paths are spelled. -/

namespace Stylesheet

/-- A name of a file or a directory: a part of a path that is a step. -/
def Path.IsName (part : Text) : Prop :=
  isTrivial part = false ∧ '/' ∉ part

theorem Path.same_comm (p q : Path) : same p q = same q p := by
  unfold same
  exact BEq.comm

theorem Path.not_mem_of_mem_parts {p : Path} : ∀ part ∈ p.parts, '/' ∉ part := by
  unfold parts
  induction p with
  | nil => simp
  | cons c p ih =>
      rw [List.splitOnP_cons_eq_if_modifyHead]
      by_cases hc : c = '/'
      · rw [if_pos (by simpa using hc)]
        exact List.forall_mem_cons.2 ⟨List.not_mem_nil, ih⟩
      · rw [if_neg (by simpa using hc)]
        cases hparts : p.splitOnP (· == '/') with
        | nil => simp
        | cons first rest =>
            rw [hparts] at ih
            obtain ⟨hfirst, hrest⟩ := List.forall_mem_cons.1 ih
            refine List.forall_mem_cons.2 ⟨?_, hrest⟩
            intro hmem
            rcases List.mem_cons.1 hmem with heq | hmem
            · exact hc heq.symm
            · exact hfirst hmem

namespace Disk

variable {d : Disk} {p q : Path} {l m : Location}

/-- Two paths are known by the same spelling. -/
def SameFile (d : Disk) (p q : Path) : Prop :=
  Path.same (d.key p) (d.key q) = true

theorem SameFile.symm (h : d.SameFile p q) : d.SameFile q p := by
  unfold SameFile at *
  rwa [Path.same_comm]

theorem inChain_snoc_iff {chain : List Path} :
    inChain (chain ++ [d.key p]) (d.key q) = true ↔
      inChain chain (d.key q) = true ∨ d.SameFile q p := by
  unfold inChain SameFile
  rw [List.any_append, Bool.or_eq_true]
  simp

theorem not_inChain_snoc_iff {chain : List Path} :
    inChain (chain ++ [d.key p]) (d.key q) = false ↔
      inChain chain (d.key q) = false ∧ ¬d.SameFile q p := by
  simp only [Bool.eq_false_iff, ne_eq, inChain_snoc_iff, not_or]

theorem components_spell (h : ∀ name ∈ l, Path.IsName name) :
    (spell l).components = ['/'] :: l := by
  have hparts : (spell l).parts.filter (!Path.isTrivial ·) = l := by
    have hsteps : l.filter (!Path.isTrivial ·) = l :=
      List.filter_eq_self.2 fun name hname => by rw [(h name hname).1]; rfl
    unfold spell Path.parts Text.join
    rw [List.splitOnP_cons_eq_if_modifyHead, if_pos (by rfl), List.filter_cons_of_neg (by decide)]
    by_cases hnil : l = []
    · rw [hnil]
      rfl
    · rw [← List.splitOn_eq_splitOnP, List.splitOn_intercalate '/' (fun name hname =>
        (h name hname).2) hnil, hsteps]
  unfold Path.components
  dsimp only
  rw [hparts]
  rfl

theorem names_of_enter {part : Text} (hl : ∀ name ∈ l, Path.IsName name) (hpart : '/' ∉ part)
    (h : d.enter l part = .ok m) : ∀ name ∈ m, Path.IsName name := by
  unfold enter at h
  split at h
  · cases h
  split at h
  · cases h
    exact hl
  next htrivial =>
  split at h
  · cases h
    exact fun name hname => hl name (List.dropLast_subset l hname)
  split at h
  · cases h
  split at h
  · cases h
    intro name hname
    rcases List.mem_append.1 hname with hname | hname
    · exact hl name hname
    · rw [List.mem_singleton.1 hname]
      exact ⟨Bool.eq_false_iff.2 htrivial, hpart⟩
  · cases h

theorem names_of_foldlM {parts : List Text} (hl : ∀ name ∈ l, Path.IsName name)
    (hparts : ∀ part ∈ parts, '/' ∉ part) (h : parts.foldlM d.enter l = .ok m) :
    ∀ name ∈ m, Path.IsName name := by
  induction parts generalizing l with
  | nil =>
      cases h
      exact hl
  | cons part parts ih =>
      obtain ⟨hpart, hparts⟩ := List.forall_mem_cons.1 hparts
      rw [List.foldlM_cons] at h
      cases henter : d.enter l part with
      | error fault =>
          rw [henter] at h
          cases h
      | ok k =>
          rw [henter] at h
          exact ih (names_of_enter hl hpart henter) hparts h

theorem names_of_follow (hcurrent : ∀ name ∈ d.current, Path.IsName name)
    (h : d.follow p = .ok l) : ∀ name ∈ l, Path.IsName name := by
  unfold follow at h
  split at h
  · cases h
  split at h
  · cases h
  refine names_of_foldlM ?_ Path.not_mem_of_mem_parts h
  split
  · exact List.forall_mem_nil _
  · exact hcurrent

/-- Paths are known by the same spelling exactly if they lead to the same place. -/
theorem sameFile_iff (hcurrent : ∀ name ∈ d.current, Path.IsName name) (hp : d.follow p = .ok l)
    (hq : d.follow q = .ok m) : d.SameFile p q ↔ l = m := by
  unfold SameFile Path.same key
  rw [hp, hq, beq_iff_eq]
  dsimp only
  rw [components_spell (names_of_follow hcurrent hp),
    components_spell (names_of_follow hcurrent hq)]
  simp

end Disk

namespace Workspace

variable {w : Workspace} {chain : List Path} {p : Path}

/-- A directive of the file at a path resolves to another path. -/
def Imports (w : Workspace) (p q : Path) : Prop :=
  ∃ e, w.Holds p e ∧ ∃ d ∈ e.content.imports, q = w.resolved p d

/-- A chain of imports that never comes to the same file twice. -/
def Simple (w : Workspace) (ps : List Path) : Prop :=
  ps.Pairwise fun p q => ¬w.disk.SameFile p q

/-- What is loaded without a fault is free of repetitions, along every chain of imports from it on
and with the chain that led to it. -/
theorem Succeeds.simple (h : w.Succeeds chain p) {ps : List Path}
    (hps : List.IsChain w.Imports (p :: ps)) :
    w.Simple (p :: ps) ∧ ∀ q ∈ p :: ps, Disk.inChain chain (w.disk.key q) = false := by
  induction h generalizing ps with
  | @file chain p e hout hholds himports ih =>
      cases ps with
      | nil => exact ⟨List.pairwise_singleton _ p, List.forall_mem_cons.2 ⟨hout, by simp⟩⟩
      | cons q qs =>
          obtain ⟨⟨e', hholds', d, hd, rfl⟩, hqs⟩ := List.isChain_cons_cons.1 hps
          obtain rfl := hholds.unique hholds'
          obtain ⟨hsimple, hbehind⟩ := ih d hd hqs
          have hfree : ∀ r ∈ w.resolved p d :: qs,
              Disk.inChain chain (w.disk.key r) = false ∧ ¬w.disk.SameFile r p :=
            fun r hr => Disk.not_inChain_snoc_iff.1 (hbehind r hr)
          constructor
          · exact List.pairwise_cons.2 ⟨fun r hr hsame => (hfree r hr).2 hsame.symm, hsimple⟩
          · exact List.forall_mem_cons.2 ⟨hout, fun r hr => (hfree r hr).1⟩

/-- Where every file can be taken apart, a fault comes from a chain of imports that repeats a
file, or that comes back to the chain that led to it. -/
theorem Fails.repeats {error : Error} (h : w.Fails chain p error)
    (hhealthy : ∀ q, Relation.ReflTransGen w.Imports p q → ∃ e, w.Holds q e) :
    ∃ ps, List.IsChain w.Imports (p :: ps) ∧
      (¬w.Simple (p :: ps) ∨ ∃ q ∈ p :: ps, Disk.inChain chain (w.disk.key q) = true) := by
  induction h with
  | @cycle chain p hin => exact ⟨[], .singleton p, .inr ⟨p, List.mem_cons_self, hin⟩⟩
  | unreadable _ hread =>
      obtain ⟨e, source, hread', _⟩ := hhealthy _ .refl
      rw [hread] at hread'
      cases hread'
  | structural _ hread hrun =>
      obtain ⟨e, source, hread', hrun'⟩ := hhealthy _ .refl
      rw [hread] at hread'
      cases hread'
      rw [hrun] at hrun'
      cases hrun'
  | @imports chain p e before after d error _ hholds hsplit _ _ ih =>
      have himports : w.Imports p (w.resolved p d) := ⟨e, hholds, d, by simp [hsplit], rfl⟩
      obtain ⟨qs, hqs, hrepeats⟩ := ih fun q hq => hhealthy q (.head himports hq)
      refine ⟨w.resolved p d :: qs, List.isChain_cons_cons.2 ⟨himports, hqs⟩, ?_⟩
      rcases hrepeats with hrepeats | ⟨r, hr, hin⟩
      · exact .inl fun hsimple => hrepeats (List.pairwise_cons.1 hsimple).2
      · rcases Disk.inChain_snoc_iff.1 hin with hin | hsame
        · exact .inr ⟨r, List.mem_cons_of_mem p hr, hin⟩
        · exact .inl fun hsimple => (List.pairwise_cons.1 hsimple).1 r hr hsame.symm

/-- Loading unfolds the graph of imports. Where every file that is reached can be taken apart, it
succeeds exactly if no chain of imports comes to the same place twice; what it returns is the
unfolding of the graph, and an error is that of the first step that fails. -/
theorem load_unfolds (w : Workspace) (root : Path) :
    ((∀ p, Relation.ReflTransGen w.Imports root p → ∃ e, w.Holds p e) →
      ((∃ loaded, (w.load root).result = .ok loaded) ↔
        ∀ ps, List.IsChain w.Imports (root :: ps) → w.Simple (root :: ps))) ∧
    (∀ loaded, (w.load root).result = .ok loaded → w.Unfolds root loaded.file) ∧
    (∀ error, (w.load root).result = .error error ↔ w.Fails [] root error) ∧
    ((∀ name ∈ w.disk.current, Path.IsName name) →
      ∀ p q l m, w.disk.follow p = .ok l → w.disk.follow q = .ok m →
        (w.disk.SameFile p q ↔ l = m)) := by
  unfold load
  refine ⟨fun hhealthy => ?_, fun loaded => unfolds_of_loadFrom, fun error => loadFrom_error_iff,
    fun hcurrent p q l m => Disk.sameFile_iff hcurrent⟩
  rw [loadFrom_ok_iff]
  constructor
  · intro hsucceeds ps hps
    exact (hsucceeds.simple hps).1
  · intro hsimple
    rcases w.succeeds_or_fails [] root with hsucceeds | ⟨error, hfails⟩
    · exact hsucceeds
    · obtain ⟨ps, hps, hrepeats | ⟨q, _, hin⟩⟩ := hfails.repeats hhealthy
      · exact absurd (hsimple ps hps) hrepeats
      · cases hin

/-- Every path of a list leads to a source that is accepted and imports paths of the list only. -/
def isClosed (w : Workspace) (ps : List Path) : Bool :=
  ps.all fun p =>
    match w.disk.readSource p with
    | .error _ => false
    | .ok source =>
        match Extraction.run source with
        | .error _ => false
        | .ok e => e.content.imports.all fun d => ps.contains (w.resolved p d)

theorem exists_holds_of_isClosed {ps : List Path} (h : w.isClosed ps = true) (hp : p ∈ ps) :
    ∃ e, w.Holds p e ∧ ∀ d ∈ e.content.imports, w.resolved p d ∈ ps := by
  have hcheck := List.all_eq_true.1 h p hp
  cases hread : w.disk.readSource p with
  | error fault =>
      rw [hread] at hcheck
      cases hcheck
  | ok source =>
      cases hrun : Extraction.run source with
      | error failure =>
          simp only [hread, hrun] at hcheck
          cases hcheck
      | ok e =>
          simp only [hread, hrun] at hcheck
          refine ⟨e, ⟨source, hread, hrun⟩, fun d hd => ?_⟩
          exact List.contains_iff_mem.1 (List.all_eq_true.1 hcheck d hd)

theorem holds_of_isClosed {ps : List Path} {root : Path} (h : w.isClosed ps = true)
    (hroot : root ∈ ps) : ∀ p, Relation.ReflTransGen w.Imports root p → ∃ e, w.Holds p e := by
  intro p hreaches
  have hmem : p ∈ ps := by
    induction hreaches with
    | refl => exact hroot
    | tail _ himports ih =>
        obtain ⟨e, hholds, d, hd, rfl⟩ := himports
        obtain ⟨e', hholds', hclosed⟩ := exists_holds_of_isClosed h ih
        obtain rfl := hholds.unique hholds'
        exact hclosed d hd
  obtain ⟨e, hholds, _⟩ := exists_holds_of_isClosed h hmem
  exact ⟨e, hholds⟩

/-- Two files that import a third one, under two spellings. -/
def diamond : Workspace where
  disk :=
    { directories := []
      files :=
        [(["a.scss".toList], "@import 'b', 'c'; .a { top: 0 }".toUTF8),
          (["b.scss".toList], "@import 'd';".toUTF8),
          (["_c.scss".toList], "@import '../d';".toUTF8),
          (["_d.scss".toList], "$d: 1;".toUTF8)]
      current := [] }
  includePath := none

/-- The paths of the diamond as its files are loaded. -/
def diamondPaths : List Path :=
  ["a.scss", "b.scss", "_d.scss", "_c.scss", "../_d.scss"].map String.toList

theorem load_unfolds_diamond :
    (∀ p, Relation.ReflTransGen diamond.Imports "a.scss".toList p → ∃ e, diamond.Holds p e) ∧
      (∀ ps, List.IsChain diamond.Imports ("a.scss".toList :: ps) →
        diamond.Simple ("a.scss".toList :: ps)) ∧
      ∃ loaded, (diamond.load "a.scss".toList).result = .ok loaded ∧
        loaded.file.files.map SourceFile.path = diamondPaths ∧
        diamond.Unfolds "a.scss".toList loaded.file := by
  have hclosed : diamond.isClosed diamondPaths = true := by decide +kernel
  have hroot : "a.scss".toList ∈ diamondPaths := by decide
  have hpaths : (diamond.load "a.scss".toList).result.toOption.map (fun loaded =>
      loaded.file.files.map SourceFile.path) = some diamondPaths := by
    decide +kernel
  obtain ⟨hchains, hunfolds, _⟩ := load_unfolds diamond "a.scss".toList
  have hhealthy := holds_of_isClosed hclosed hroot
  obtain ⟨loaded, hload, hfiles⟩ := exists_ok_of_toOption_map hpaths
  exact ⟨hhealthy, (hchains hhealthy).1 ⟨loaded, hload⟩, loaded, hload, hfiles,
    hunfolds loaded hload⟩

/-! ### Cycles -/

/-- A cycle is reported at the end of a chain of imports. The keys of its files follow those of the
chain that led to the first of them, each is new there, and the last file comes back. -/
theorem Fails.closes {error : Error} {path : Path} {keys : List Path} (h : w.Fails chain p error)
    (herror : error = .cycle path keys) :
    ∃ ps, (ps ++ [path]).head? = some p ∧ List.IsChain w.Imports (ps ++ [path]) ∧
      keys = chain ++ (ps ++ [path]).map w.disk.key ∧ w.Simple ps ∧
      (∀ q ∈ ps, Disk.inChain chain (w.disk.key q) = false) ∧
      (Disk.inChain chain (w.disk.key path) = true ∨ ∃ q ∈ ps, w.disk.SameFile path q) := by
  induction h with
  | @cycle chain p hin =>
      cases herror
      exact ⟨[], rfl, .singleton _, rfl, .nil, List.forall_mem_nil _, .inl hin⟩
  | unreadable => cases herror
  | structural => cases herror
  | @imports chain p e before after d error hout hholds hsplit _ _ ih =>
      have himports : w.Imports p (w.resolved p d) := ⟨e, hholds, d, by simp [hsplit], rfl⟩
      obtain ⟨ps, hhead, hps, hkeys, hsimple, hnew, hback⟩ := ih herror
      have hfree : ∀ q ∈ ps,
          Disk.inChain chain (w.disk.key q) = false ∧ ¬w.disk.SameFile q p :=
        fun q hq => Disk.not_inChain_snoc_iff.1 (hnew q hq)
      refine ⟨p :: ps, rfl, ?_, ?_, ?_, ?_, ?_⟩
      · rw [List.cons_append, List.isChain_cons, hhead]
        refine ⟨fun q hq => ?_, hps⟩
        cases hq
        exact himports
      · simp [hkeys]
      · exact List.pairwise_cons.2 ⟨fun q hq hsame => (hfree q hq).2 hsame.symm, hsimple⟩
      · exact List.forall_mem_cons.2 ⟨hout, fun q hq => (hfree q hq).1⟩
      · rcases hback with hin | ⟨q, hq, hsame⟩
        · rcases Disk.inChain_snoc_iff.1 hin with hin | hsame
          · exact .inl hin
          · exact .inr ⟨p, List.mem_cons_self, hsame⟩
        · exact .inr ⟨q, List.mem_cons_of_mem p hq, hsame⟩

theorem closes_of_load {root path : Path} {keys : List Path}
    (h : (w.load root).result = .error (.cycle path keys)) :
    ∃ ps, ps.head? = some root ∧ List.IsChain w.Imports (ps ++ [path]) ∧
      keys = (ps ++ [path]).map w.disk.key ∧ w.Simple ps ∧ ∃ q ∈ ps, w.disk.SameFile path q := by
  obtain ⟨ps, hhead, hps, hkeys, hsimple, _, hback⟩ := (loadFrom_error_iff.1 h).closes rfl
  rcases hback with hin | ⟨q, hq, hsame⟩
  · cases hin
  · refine ⟨ps, ?_, hps, hkeys, hsimple, q, hq, hsame⟩
    rwa [List.head?_append_of_ne_nil _ (List.ne_nil_of_mem hq)] at hhead

/-- A cycle that is reported is real. Its keys are those of the files of a chain of imports from the
root on, each of them met once, and the path of the error leads back to one of them. A file that is
met twice, but never twice on one chain, makes no cycle. -/
theorem reported_cycle_closes (w : Workspace) (root : Path) :
    (∀ path keys, (w.load root).result = .error (.cycle path keys) →
      ∃ ps, ps.head? = some root ∧ List.IsChain w.Imports (ps ++ [path]) ∧
        keys = (ps ++ [path]).map w.disk.key ∧ w.Simple ps ∧
        ∃ q ∈ ps, w.disk.SameFile path q) ∧
    ((∀ ps, List.IsChain w.Imports (root :: ps) → w.Simple (root :: ps)) →
      ∀ path keys, (w.load root).result ≠ .error (.cycle path keys)) := by
  refine ⟨fun path keys => closes_of_load, fun hsimple path keys herror => ?_⟩
  obtain ⟨ps, hhead, hps, _, _, q, hq, hsame⟩ := closes_of_load herror
  obtain ⟨rest, rfl⟩ := List.head?_eq_some_iff.1 hhead
  have hpairwise : w.Simple (root :: rest ++ [path]) := hsimple (rest ++ [path]) hps
  exact (List.pairwise_append.1 hpairwise).2.2 q hq path List.mem_cons_self hsame.symm

/-- A file behind the first one is imported again by the last one, under another spelling. -/
def loop : Workspace where
  disk :=
    { directories := []
      files :=
        [(["a.scss".toList], "@import 'b';".toUTF8),
          (["b.scss".toList], "$b: 1; @import 'c';".toUTF8),
          (["_c.scss".toList], "@import '../b';".toUTF8)]
      current := [] }
  includePath := none

theorem reported_cycle_closes_loop :
    ((loop.load "a.scss".toList).result = .error (.cycle "../b.scss".toList
        (["/a.scss", "/b.scss", "/_c.scss", "/b.scss"].map String.toList)) ∧
      ∃ ps, ps.head? = some "a.scss".toList ∧
        List.IsChain loop.Imports (ps ++ ["../b.scss".toList]) ∧ loop.Simple ps ∧
        ∃ q ∈ ps, loop.disk.SameFile "../b.scss".toList q) ∧
    (∀ ps, List.IsChain diamond.Imports ("a.scss".toList :: ps) →
      diamond.Simple ("a.scss".toList :: ps)) ∧
    ∀ path keys, (diamond.load "a.scss".toList).result ≠ .error (.cycle path keys) := by
  have hloop : (loop.load "a.scss".toList).result.map (fun _ => ()) =
      .error (.cycle "../b.scss".toList
        (["/a.scss", "/b.scss", "/_c.scss", "/b.scss"].map String.toList)) := by
    decide +kernel
  have herror := eq_error_of_map hloop
  have hdiamond : (diamond.load "a.scss".toList).result.toOption.map (fun _ => ()) = some () := by
    decide +kernel
  obtain ⟨loaded, hload, _⟩ := exists_ok_of_toOption_map hdiamond
  have hchains : ∀ ps, List.IsChain diamond.Imports ("a.scss".toList :: ps) →
      diamond.Simple ("a.scss".toList :: ps) :=
    fun ps hps => ((loadFrom_ok_iff.1 ⟨loaded, hload⟩).simple hps).1
  obtain ⟨ps, hhead, hps, _, hsimple, hback⟩ :=
    (reported_cycle_closes loop "a.scss".toList).1 _ _ herror
  exact ⟨⟨herror, ps, hhead, hps, hsimple, hback⟩, hchains,
    (reported_cycle_closes diamond "a.scss".toList).2 hchains⟩

end Workspace

end Stylesheet
