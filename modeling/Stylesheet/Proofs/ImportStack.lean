import Mathlib.Data.List.Dedup
import Mathlib.Data.List.Perm.Subperm
import Stylesheet.Proofs.ImportGraph

/-! The stack of files that are being loaded.

Loading is a recursion that hands the chain of files down to every call. Here it is taken apart into
single steps on one stack of keys, which a file joins before it is taken apart and leaves behind its
last import. A file that is called for comes to the result of the recursion and leaves the stack as
it was (`returns_visit`), so that the two are the same. The stack grows by files that are not in it
yet, and so the number of files bounds it at every moment (`Sound.length_le`). -/

namespace Stylesheet

namespace Disk

variable {d : Disk} {p : Path}

/-- The key of a file that exists: the spelling of its location. -/
def IsFileKey (d : Disk) (key : Path) : Prop :=
  ∃ l, d.isDirectory l = false ∧ (d.bytes? l).isSome ∧ key = spell l

/-- Number of locations at which files stand. -/
def fileCount (d : Disk) : Nat :=
  (d.files.map Prod.fst).dedup.length

theorem isFileKey_of_read {source : Text} (h : d.readSource p = .ok source) :
    d.IsFileKey (d.key p) := by
  unfold readSource read at h
  cases hlocate : d.locate p with
  | error fault =>
      rw [hlocate] at h
      cases h
  | ok l =>
      simp only [hlocate] at h
      cases hdirectory : d.isDirectory l with
      | true =>
          rw [hdirectory] at h
          cases h
      | false =>
          cases hbytes : d.bytes? l with
          | none =>
              rw [hdirectory, hbytes] at h
              cases h
          | some bytes =>
              refine ⟨l, hdirectory, by rw [hbytes]; rfl, ?_⟩
              rw [key, follow_of_locate hlocate]

theorem mem_of_isFileKey {key : Path} (h : d.IsFileKey key) :
    key ∈ (d.files.map Prod.fst).dedup.map spell := by
  obtain ⟨l, _, hbytes, rfl⟩ := h
  obtain ⟨bytes, hbytes⟩ := Option.isSome_iff_exists.1 hbytes
  obtain ⟨file, hfile, _⟩ := Option.map_eq_some_iff.1 hbytes
  have hl : file.1 = l := by simpa using List.find?_some hfile
  refine List.mem_map_of_mem (List.mem_dedup.2 ?_)
  rw [← hl]
  exact List.mem_map_of_mem (List.mem_of_find?_eq_some hfile)

end Disk

namespace Workspace

/-! ### Steps -/

/-- What is left to do once a result is there. -/
inductive Frame where
  /-- The file loaded last leaves the stack. -/
  | leave
  /-- The result is that of one import of a file, behind those loaded and before others. -/
  | importing (p : Path) (e : Extraction) (loaded : List (Text × Loaded)) (d : ImportDirective)
      (ds : List ImportDirective)

/-- What is done next. -/
inductive Task where
  /-- The file at a path is called for. -/
  | visit (p : Path)
  /-- A source is taken apart. -/
  | build (p : Path) (source : Text)
  /-- A result is handed back. -/
  | answer (result : Except Error Loaded)

/-- A moment of loading. -/
structure Moment where
  /-- The keys of the files being loaded, the outermost first. -/
  stack : List Path
  /-- What waits for the result, the innermost first. -/
  frames : List Frame
  task : Task

/-- The next import of a file is called for, or the file is complete. -/
def proceed (w : Workspace) (stack : List Path) (frames : List Frame) (p : Path) (e : Extraction)
    (loaded : List (Text × Loaded)) : List ImportDirective → Moment
  | [] => ⟨stack, frames, .answer (.ok (assemble p e loaded))⟩
  | d :: ds => ⟨stack, .importing p e loaded d ds :: frames, .visit (w.resolved p d)⟩

/-- One step. There is none behind a result that nothing waits for. -/
def step (w : Workspace) (s : Moment) : Option Moment :=
  match s.task with
  | .visit p =>
      if Disk.inChain s.stack (w.disk.key p) then
        some { s with task := .answer (.error (.cycle p (s.stack ++ [w.disk.key p]))) }
      else
        match w.disk.readSource p with
        | .error fault => some { s with task := .answer (.error (.unreadable p fault)) }
        | .ok source => some ⟨s.stack ++ [w.disk.key p], .leave :: s.frames, .build p source⟩
  | .build p source =>
      match Extraction.run source with
      | .error failure =>
          some { s with task := .answer (.error (.structural p failure.fault)) }
      | .ok e => some (w.proceed s.stack s.frames p e [] e.content.imports)
  | .answer result =>
      match s.frames, result with
      | [], _ => none
      | .leave :: frames, _ => some ⟨s.stack.dropLast, frames, .answer result⟩
      | .importing .. :: frames, .error error => some ⟨s.stack, frames, .answer (.error error)⟩
      | .importing p e loaded d ds :: frames, .ok file =>
          some (w.proceed s.stack frames p e
            (loaded ++ [((Target.ofText d.target).name, file)]) ds)

/-- One moment comes after another. -/
def Leads (w : Workspace) : Moment → Moment → Prop :=
  Relation.ReflTransGen fun s s' => w.step s = some s'

/-- One moment comes after another while given frames wait all the time. -/
def LeadsAbove (w : Workspace) (frames : List Frame) : Moment → Moment → Prop :=
  Relation.ReflTransGen fun s s' => w.step s = some s' ∧ frames <:+ s'.frames

variable {w : Workspace} {stack : List Path} {frames : List Frame} {p : Path} {s s' : Moment}

theorem LeadsAbove.mono {fewer : List Frame} (h : w.LeadsAbove frames s s')
    (hfewer : fewer <:+ frames) : w.LeadsAbove fewer s s' :=
  Relation.ReflTransGen.mono (fun _ _ hstep => ⟨hstep.1, hfewer.trans hstep.2⟩) s s' h

theorem LeadsAbove.leads (h : w.LeadsAbove frames s s') : w.Leads s s' :=
  Relation.ReflTransGen.mono (fun _ _ hstep => hstep.1) s s' h

theorem LeadsAbove.trans {s'' : Moment} (h : w.LeadsAbove frames s s')
    (h' : w.LeadsAbove frames s' s'') : w.LeadsAbove frames s s'' :=
  Relation.ReflTransGen.trans h h'

theorem LeadsAbove.single (hstep : w.step s = some s') (hframes : frames <:+ s'.frames) :
    w.LeadsAbove frames s s' :=
  Relation.ReflTransGen.single ⟨hstep, hframes⟩

theorem suffix_proceed (w : Workspace) (stack : List Path) (frames : List Frame) (p : Path)
    (e : Extraction) (loaded : List (Text × Loaded)) (ds : List ImportDirective) :
    frames <:+ (w.proceed stack frames p e loaded ds).frames := by
  cases ds with
  | nil => exact List.suffix_refl frames
  | cons d ds => exact List.suffix_cons _ frames

/-! ### Calls -/

/-- A file that is called for comes to the result of the recursion, above whatever waits for it,
and the stack is then as it was. -/
def Returns (w : Workspace) (stack : List Path) (p : Path) : Prop :=
  ∀ frames, w.LeadsAbove frames ⟨stack, frames, .visit p⟩
    ⟨stack, frames, .answer (w.loadFrom stack p).result⟩

theorem returns_imports (hreturns : ∀ q, w.Returns stack q) (frames : List Frame) (p : Path)
    (e : Extraction) (loaded : List (Text × Loaded)) (ds : List ImportDirective) :
    w.LeadsAbove frames (w.proceed stack frames p e loaded ds)
      ⟨stack, frames, .answer ((w.loadImports p (w.loadFrom stack) ds).result.bind fun others =>
        .ok (assemble p e (loaded ++ others)))⟩ := by
  induction ds generalizing loaded with
  | nil =>
      rw [proceed, loadImports]
      change w.LeadsAbove frames _ ⟨stack, frames, .answer (.ok (assemble p e (loaded ++ [])))⟩
      rw [List.append_nil]
      exact .refl
  | cons d ds ih =>
      have hcall := (hreturns (w.resolved p d) (.importing p e loaded d ds :: frames)).mono
        (List.suffix_cons _ _)
      refine hcall.trans ?_
      rw [result_loadImports_cons]
      cases (w.loadFrom stack (w.resolved p d)).result with
      | error error => exact .single rfl (List.suffix_refl frames)
      | ok file =>
          refine (LeadsAbove.single rfl (suffix_proceed ..)).trans ?_
          convert ih (loaded ++ [((Target.ofText d.target).name, file)]) using 3
          cases (w.loadImports p (w.loadFrom stack) ds).result with
          | error error => rfl
          | ok others => simp [Except.bind]

theorem returns_build (hreturns : ∀ q, w.Returns stack q) (frames : List Frame) (p : Path)
    (source : Text) :
    w.LeadsAbove frames ⟨stack, frames, .build p source⟩
      ⟨stack, frames, .answer (w.build p source (w.loadFrom stack)).result⟩ := by
  cases hrun : Extraction.run source with
  | error failure =>
      rw [result_build_of_error hrun]
      exact .single (by simp only [step, hrun]) (List.suffix_refl frames)
  | ok e =>
      rw [result_build_of_ok hrun]
      have hstep : w.step ⟨stack, frames, .build p source⟩ =
          some (w.proceed stack frames p e [] e.content.imports) := by
        simp only [step, hrun]
      exact (LeadsAbove.single hstep (suffix_proceed ..)).trans
        (returns_imports hreturns frames p e [] e.content.imports)

theorem returns_visit (w : Workspace) (stack : List Path) (p : Path) : w.Returns stack p := by
  -- A file joins the stack before its imports are called for, so that fewer files are outside.
  induction hn : w.disk.outside stack using Nat.strongRecOn generalizing stack p with
  | ind n ih =>
      intro frames
      cases hchain : Disk.inChain stack (w.disk.key p) with
      | true =>
          rw [result_loadFrom_of_in hchain]
          exact .single (by simp only [step, hchain, if_true]) (List.suffix_refl frames)
      | false =>
          cases hread : w.disk.readSource p with
          | error fault =>
              rw [result_loadFrom_of_unreadable hchain hread]
              have hstep : w.step ⟨stack, frames, .visit p⟩ =
                  some ⟨stack, frames, .answer (.error (.unreadable p fault))⟩ := by
                simp [step, hchain, hread]
              exact .single hstep (List.suffix_refl frames)
          | ok source =>
              rw [result_loadFrom_of_read hchain hread]
              have hfewer := Disk.outside_push_lt hchain hread
              rw [hn] at hfewer
              have hbuild := returns_build (fun q => ih _ hfewer _ q rfl) (.leave :: frames) p source
              have hstep : w.step ⟨stack, frames, .visit p⟩ =
                  some ⟨stack ++ [w.disk.key p], .leave :: frames, .build p source⟩ := by
                simp [step, hchain, hread]
              have hleave : w.step ⟨stack ++ [w.disk.key p], .leave :: frames,
                  .answer (w.build p source (w.loadFrom (stack ++ [w.disk.key p]))).result⟩ =
                  some ⟨stack, frames,
                    .answer (w.build p source (w.loadFrom (stack ++ [w.disk.key p]))).result⟩ := by
                simp [step]
              exact (LeadsAbove.single hstep (List.suffix_cons _ frames)).trans
                ((hbuild.mono (List.suffix_cons _ frames)).trans
                  (.single hleave (List.suffix_refl frames)))

/-! ### The stack -/

/-- What holds of the stack at every moment. -/
structure Sound (w : Workspace) (s : Moment) : Prop where
  distinct : s.stack.Pairwise fun k k' => Path.same k k' = false
  files : ∀ k ∈ s.stack.tail, w.disk.IsFileKey k

/-- What a step does to the stack: nothing, or a file joins it that is not in it, or the file that
joined it last leaves it. -/
inductive Moves (w : Workspace) (s s' : Moment) : Prop
  | stays (h : s'.stack = s.stack)
  | visited {p : Path} {source : Text} (hout : Disk.inChain s.stack (w.disk.key p) = false)
      (hread : w.disk.readSource p = .ok source) (h : s'.stack = s.stack ++ [w.disk.key p])
  | left (h : s'.stack = s.stack.dropLast)

theorem stack_proceed (w : Workspace) (stack : List Path) (frames : List Frame) (p : Path)
    (e : Extraction) (loaded : List (Text × Loaded)) (ds : List ImportDirective) :
    (w.proceed stack frames p e loaded ds).stack = stack := by
  cases ds <;> rfl

theorem moves_of_step (h : w.step s = some s') : w.Moves s s' := by
  unfold step at h
  split at h
  · split at h
    · cases h
      exact .stays rfl
    · next hout =>
      split at h
      · cases h
        exact .stays rfl
      · next source hread =>
        cases h
        exact .visited (Bool.eq_false_iff.2 hout) hread rfl
  · split at h
    · cases h
      exact .stays rfl
    · cases h
      exact .stays (stack_proceed ..)
  · split at h
    · cases h
    · cases h
      exact .left rfl
    · cases h
      exact .stays rfl
    · cases h
      exact .stays (stack_proceed ..)

theorem Moves.sound (h : w.Moves s s') (hs : w.Sound s) : w.Sound s' := by
  cases h with
  | stays h => exact ⟨by rw [h]; exact hs.distinct, by rw [h]; exact hs.files⟩
  | @visited p source hout hread h =>
      have hnew : ∀ k ∈ s.stack, Path.same k (w.disk.key p) = false := by
        intro k hk
        rw [Path.same_comm]
        exact Bool.eq_false_iff.2 (List.any_eq_false.1 hout k hk)
      constructor
      · rw [h]
        refine List.pairwise_append.2 ⟨hs.distinct, List.pairwise_singleton _ _, ?_⟩
        rintro k hk k' hk'
        rw [List.mem_singleton.1 hk']
        exact hnew k hk
      · rw [h]
        intro k hk
        cases hstack : s.stack with
        | nil =>
            rw [hstack] at hk
            cases hk
        | cons first rest =>
            rw [hstack, List.cons_append, List.tail_cons] at hk
            rcases List.mem_append.1 hk with hk | hk
            · exact hs.files k (by rw [hstack]; exact hk)
            · rw [List.mem_singleton.1 hk]
              exact Disk.isFileKey_of_read hread
  | left h =>
      constructor
      · rw [h]
        exact hs.distinct.sublist (List.dropLast_sublist s.stack)
      · rw [h]
        intro k hk
        rw [List.tail_dropLast] at hk
        exact hs.files k (List.dropLast_subset _ hk)

theorem Sound.leads (hs : w.Sound s) (h : w.Leads s s') : w.Sound s' := by
  induction h with
  | refl => exact hs
  | tail _ hstep ih => exact (moves_of_step hstep).sound ih

/-- The keys behind the first one are those of different files. -/
theorem Sound.length_le (hs : w.Sound s) : s.stack.length ≤ w.disk.fileCount + 1 := by
  have hdistinct : s.stack.tail.Nodup := by
    refine (hs.distinct.imp fun {k k'} hsame heq => ?_).sublist (List.tail_sublist s.stack)
    rw [heq, Path.same, BEq.rfl] at hsame
    cases hsame
  have hfiles : s.stack.tail ⊆ (w.disk.files.map Prod.fst).dedup.map Disk.spell :=
    fun k hk => Disk.mem_of_isFileKey (hs.files k hk)
  have hlength := (List.subperm_of_subset hdistinct hfiles).length_le
  rw [List.length_map, List.length_tail] at hlength
  exact Nat.sub_le_iff_le_add.1 hlength

/-! ### Whole runs -/

/-- The first moment of loading a source that is given as text. -/
def startSource (w : Workspace) (source : Text) (p : Path) : Moment :=
  if source.blank then ⟨[], [], .answer (.error (.unreadable p .empty))⟩
  else ⟨[w.disk.key p], [], .build p source⟩

/-- The first moment of a run and the result that loading has. -/
inductive Starts (w : Workspace) : Moment → Except Error Loaded → Prop
  | path (root : Path) : Starts w ⟨[], [], .visit root⟩ (w.load root).result
  | source (source : Text) (p : Path) :
      Starts w (w.startSource source p) (w.loadSource source p).result

theorem Starts.sound {result : Except Error Loaded} (h : w.Starts s result) : w.Sound s := by
  cases h with
  | path root => exact ⟨.nil, List.forall_mem_nil _⟩
  | source source p =>
      unfold startSource
      split
      · exact ⟨.nil, List.forall_mem_nil _⟩
      · exact ⟨List.pairwise_singleton _ _, List.forall_mem_nil _⟩

theorem Starts.ends {result : Except Error Loaded} (h : w.Starts s result) :
    ∃ stack, w.Leads s ⟨stack, [], .answer result⟩ := by
  cases h with
  | path root => exact ⟨[], (w.returns_visit [] root []).leads⟩
  | source source p =>
      unfold startSource loadSource
      rw [Run.result_bind_of_ok rfl]
      split
      · exact ⟨[], .refl⟩
      · exact ⟨_, (returns_build (w.returns_visit _) [] p source).leads⟩

/-- Loading comes to an end from every start, on every disk, and its result is that of the
recursion. At every moment on the way the keys in the stack are distinct, and all but the first one
are those of files, so that the number of files bounds it; and every file that is called for comes
to a result above the frames that wait for it, with the stack as it was. -/
theorem stack_bounded_and_restored (w : Workspace) (start : Moment)
    (result : Except Error Loaded) (hstart : w.Starts start result) :
    (∃ last, w.Leads start last ∧ w.step last = none ∧ last.task = .answer result) ∧
    ∀ s, w.Leads start s →
      (s.stack.Pairwise fun k k' => Path.same k k' = false) ∧
      (∀ k ∈ s.stack.tail, w.disk.IsFileKey k) ∧
      s.stack.length ≤ w.disk.fileCount + 1 ∧
      ∀ p, s.task = .visit p →
        w.LeadsAbove s.frames s
          { s with task := .answer (w.loadFrom s.stack p).result } := by
  constructor
  · obtain ⟨stack, hleads⟩ := hstart.ends
    exact ⟨_, hleads, rfl, rfl⟩
  · intro s hleads
    have hsound := hstart.sound.leads hleads
    refine ⟨hsound.distinct, hsound.files, hsound.length_le, fun p htask => ?_⟩
    obtain ⟨stack, frames, task⟩ := s
    cases htask
    exact w.returns_visit stack p frames

theorem stack_bounded_and_restored_loop :
    let start := loop.startSource "@import 'a';".toList "v.scss".toList
    let cycle := Error.cycle "../b.scss".toList
      (["v.scss", "/a.scss", "/b.scss", "/_c.scss", "/b.scss"].map String.toList)
    loop.Starts start (.error cycle) ∧
      (∃ last, loop.Leads start last ∧ loop.step last = none ∧
        last.task = .answer (.error cycle)) ∧
      ∀ s, loop.Leads start s → s.stack.length ≤ 4 := by
  intro start cycle
  have hresult : (loop.loadSource "@import 'a';".toList "v.scss".toList).result.map (fun _ => ()) =
      .error cycle := by
    decide +kernel
  have hstart : loop.Starts start (.error cycle) := by
    rw [← eq_error_of_map hresult]
    exact .source _ _
  have hcount : loop.disk.fileCount = 3 := by decide
  obtain ⟨hends, hmoments⟩ := stack_bounded_and_restored loop start (.error cycle) hstart
  refine ⟨hstart, hends, fun s hleads => ?_⟩
  have hlength := (hmoments s hleads).2.2.1
  rwa [hcount] at hlength

end Workspace

end Stylesheet
