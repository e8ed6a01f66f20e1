import Stylesheet.Proofs.Loading
import Stylesheet.Proofs.Steps

/-! Balanced braces.

A source is accepted exactly if its braces balance and every block has a header, blocks inside a
block kept as text apart. Whether braces balance is said by counting marks alone. The link to the
extraction is the list of headers whose blocks stand open (`Standing`): it consists of the open
selectors and, while a block is captured, of the header of that block and of those inside it. -/

namespace Stylesheet

/-- Number of segments that end in a mark. -/
def marks (m : Mark) (segs : List Segment) : Nat :=
  segs.countP fun s => s.terminator == some m

/-- No part at the front has more closing than opening braces. -/
def NeverBelow (segs : List Segment) : Prop :=
  ∀ front, front <+: segs → marks .closeBrace front ≤ marks .openBrace front

/-- Every brace has its counterpart. -/
structure Balanced (segs : List Segment) : Prop where
  neverBelow : NeverBelow segs
  total : marks .openBrace segs = marks .closeBrace segs

/-- A block opens behind a header and has not been closed since. -/
def Encloses (header : Segment) (before : List Segment) : Prop :=
  ∃ outer inner, before = outer ++ header :: inner ∧ header.terminator = some .openBrace ∧
    NeverBelow inner

/-- The place behind some segments is inside a block that is kept as text. -/
def InOpaque (before : List Segment) : Prop :=
  ∃ header, Encloses header before ∧ Header.IsOpaque header.text

/-- A block without a header is always inside a block that is kept as text. -/
def Headed (segs : List Segment) : Prop :=
  ∀ before s after, segs = before ++ s :: after → s.terminator = some .openBrace → s.text = [] →
    InOpaque before

/-! ### Counting marks -/

@[simp]
theorem marks_nil (m : Mark) : marks m [] = 0 :=
  rfl

@[simp]
theorem marks_cons (m : Mark) (s : Segment) (segs : List Segment) :
    marks m (s :: segs) = marks m segs + if s.terminator = some m then 1 else 0 := by
  simp [marks, List.countP_cons]

@[simp]
theorem marks_append (m : Mark) (left right : List Segment) :
    marks m (left ++ right) = marks m left + marks m right :=
  List.countP_append

theorem NeverBelow.total {segs : List Segment} (h : NeverBelow segs) :
    marks .closeBrace segs ≤ marks .openBrace segs :=
  h segs (List.prefix_refl segs)

theorem NeverBelow.of_append {left right : List Segment} (h : NeverBelow (left ++ right)) :
    NeverBelow left :=
  fun front hfront => h front (hfront.trans (List.prefix_append left right))

theorem neverBelow_nil : NeverBelow [] := by
  intro front hfront
  rw [List.prefix_nil.1 hfront]
  exact Nat.le_refl 0

theorem NeverBelow.append {left right : List Segment} (hleft : NeverBelow left)
    (hright : NeverBelow right) : NeverBelow (left ++ right) := by
  intro front hfront
  rcases List.prefix_or_prefix_of_prefix hfront (List.prefix_append left right) with h | h
  · exact hleft front h
  · obtain ⟨more, rfl⟩ := h
    have hl := hleft.total
    have hr := hright more ((List.prefix_append_right_inj left).1 hfront)
    simp only [marks_append]
    omega

theorem neverBelow_singleton {s : Segment} (h : s.terminator ≠ some .closeBrace) :
    NeverBelow [s] := by
  intro front hfront
  rcases List.prefix_cons_iff.1 hfront with rfl | ⟨more, rfl, hmore⟩
  · exact Nat.le_refl 0
  · rw [List.prefix_nil.1 hmore]
    simp [h]

theorem balanced_nil : Balanced [] :=
  ⟨neverBelow_nil, rfl⟩

theorem Balanced.append {left right : List Segment} (hleft : Balanced left)
    (hright : Balanced right) : Balanced (left ++ right) := by
  refine ⟨hleft.neverBelow.append hright.neverBelow, ?_⟩
  have hl := hleft.total
  have hr := hright.total
  simp only [marks_append]
  omega

theorem balanced_singleton {s : Segment} (hopen : s.terminator ≠ some .openBrace)
    (hclose : s.terminator ≠ some .closeBrace) : Balanced [s] :=
  ⟨neverBelow_singleton hclose, by simp [hopen, hclose]⟩

/-- A block from its opening to its closing brace is balanced. -/
theorem Balanced.block {header s : Segment} {inner : List Segment} (h : Balanced inner)
    (hopen : header.terminator = some .openBrace) (hclose : s.terminator = some .closeBrace) :
    Balanced (header :: inner ++ [s]) := by
  have htotal := h.total
  have hhead : NeverBelow [header] := neverBelow_singleton (by simp [hopen])
  have hfront : NeverBelow (header :: inner) := hhead.append h.neverBelow
  refine ⟨?_, by simp [hopen, hclose]; omega⟩
  intro front hprefix
  rcases List.prefix_concat_iff.1 hprefix with rfl | hprefix
  · simp [hopen, hclose]
    omega
  · exact hfront front hprefix

/-- No block encloses the place behind balanced segments. -/
theorem Balanced.not_encloses {header : Segment} {before : List Segment} (h : Balanced before) :
    ¬Encloses header before := by
  rintro ⟨outer, inner, rfl, hopen, hinner⟩
  have houter := h.neverBelow.of_append.total
  have htotal := h.total
  have hin := hinner.total
  simp [hopen] at htotal
  omega

/-! ### The blocks that stand open -/

/-- The headers whose blocks stand open behind some segments, innermost first. -/
def Standing (before : List Segment) : List Segment → Prop
  | [] => Balanced before
  | header :: headers =>
      ∃ outer inner, before = outer ++ header :: inner ∧ header.terminator = some .openBrace ∧
        Balanced inner ∧ Standing outer headers

theorem Standing.append_balanced {before more headers : List Segment} (h : Standing before headers)
    (hmore : Balanced more) : Standing (before ++ more) headers := by
  cases headers with
  | nil => exact Balanced.append h hmore
  | cons header headers =>
      obtain ⟨outer, inner, rfl, hopen, hinner, houter⟩ := h
      exact ⟨outer, inner ++ more, by simp, hopen, hinner.append hmore, houter⟩

theorem Standing.open {before headers : List Segment} {s : Segment} (h : Standing before headers)
    (hopen : s.terminator = some .openBrace) : Standing (before ++ [s]) (s :: headers) :=
  ⟨before, [], rfl, hopen, balanced_nil, h⟩

theorem Standing.close {before headers : List Segment} {header s : Segment}
    (h : Standing before (header :: headers)) (hclose : s.terminator = some .closeBrace) :
    Standing (before ++ [s]) headers := by
  obtain ⟨outer, inner, rfl, hopen, hinner, houter⟩ := h
  have hblock := houter.append_balanced (hinner.block hopen hclose)
  simpa using hblock

theorem Standing.total {before headers : List Segment} (h : Standing before headers) :
    marks .openBrace before = marks .closeBrace before + headers.length := by
  induction headers generalizing before with
  | nil => exact Balanced.total h
  | cons header headers ih =>
      obtain ⟨outer, inner, rfl, hopen, hinner, houter⟩ := h
      have hout := ih houter
      have hin := hinner.total
      simp [hopen]
      omega

/-- The blocks that enclose a place are those that stand open there. -/
theorem Standing.encloses_iff {before headers : List Segment} (h : Standing before headers)
    (header : Segment) : Encloses header before ↔ header ∈ headers := by
  induction headers generalizing before with
  | nil => simp [Balanced.not_encloses h]
  | cons innermost headers ih =>
      obtain ⟨outer, inner, rfl, hopen, hinner, houter⟩ := h
      constructor
      · rintro ⟨outer', inner', heq, hopen', hinner'⟩
        -- The header stands before, at or behind the innermost one; behind it, its block would
        -- have to be closed again.
        rcases List.append_eq_append_iff.1 heq with ⟨more, rfl, hmore⟩ | ⟨more, rfl, hmore⟩
        · cases more with
          | nil =>
              obtain ⟨rfl, rfl⟩ := List.cons.inj hmore
              exact List.mem_cons_self
          | cons first more =>
              obtain ⟨rfl, rfl⟩ := List.cons.inj hmore
              exact absurd ⟨more, inner', rfl, hopen', hinner'⟩ hinner.not_encloses
        · cases more with
          | nil =>
              obtain ⟨rfl, rfl⟩ := List.cons.inj hmore
              exact List.mem_cons_self
          | cons first more =>
              obtain ⟨rfl, rfl⟩ := List.cons.inj hmore
              have hencloses : Encloses header (outer' ++ header :: more) :=
                ⟨outer', more, rfl, hopen', hinner'.of_append⟩
              exact List.mem_cons_of_mem _ ((ih houter).1 hencloses)
      · intro hmem
        rcases List.mem_cons.1 hmem with rfl | hmem
        · exact ⟨outer, inner, rfl, hopen, hinner.neverBelow⟩
        · obtain ⟨outer', inner', rfl, hopen', hinner'⟩ := (ih houter).2 hmem
          refine ⟨outer', inner' ++ innermost :: inner, by simp, hopen', ?_⟩
          have hhead : NeverBelow [innermost] := neverBelow_singleton (by simp [hopen])
          exact hinner'.append (hhead.append hinner.neverBelow)

/-! ### The blocks of an extraction -/

/-- What the header of a block announces, and where it stands. -/
def Segment.heading (s : Segment) : Header × Position :=
  (.ofText s.text, s.position)

/-- An extraction has the blocks open that stand open behind the segments read: selectors only, or
selectors, a block kept as text and the blocks inside that one. -/
inductive Tracks (before : List Segment) (e : Extraction) : Prop
  | free {headers : List Segment} (hpending : e.pending = none)
      (hstanding : Standing before headers) (hheaders : headers.map Segment.heading = e.headers)
  | capturing {p : Pending} {inside outer : List Segment} {opening : Segment}
      (hpending : e.pending = some p) (hstanding : Standing before (inside ++ opening :: outer))
      (hdepth : inside.length = p.capture.depth) (hkept : Header.IsOpaque opening.text)
      (hheaders : outer.map Segment.heading = e.headers)

namespace Tracks

theorem start : Tracks [] Extraction.start := by
  have hstanding : Standing [] [] := balanced_nil
  exact .free rfl hstanding rfl

/-- A block is captured exactly inside the blocks that are kept as text. -/
theorem inOpaque_iff {before : List Segment} {e : Extraction} (h : Tracks before e) :
    InOpaque before ↔ e.pending ≠ none := by
  cases h with
  | @free headers hpending hstanding hheaders =>
      simp only [hpending, ne_eq, not_true_eq_false, iff_false]
      rintro ⟨header, hencloses, hkept⟩
      have hmem : header.heading ∈ headers.map Segment.heading :=
        List.mem_map_of_mem ((hstanding.encloses_iff header).1 hencloses)
      rw [hheaders] at hmem
      obtain ⟨o, _, ho⟩ := List.mem_map.1 hmem
      exact hkept o.header (congrArg Prod.fst ho).symm
  | @capturing p inside outer opening hpending hstanding hdepth hkept hheaders =>
      have hmem : opening ∈ inside ++ opening :: outer := by simp
      simp only [hpending, ne_eq, reduceCtorEq, not_false_eq_true, iff_true]
      exact ⟨opening, (hstanding.encloses_iff opening).2 hmem, hkept⟩

/-- What the extraction tracks before a segment it tracks behind it. -/
theorem step {before : List Segment} {e e' : Extraction} {s : Segment} (h : Tracks before e)
    (hstep : e.Step s e') : Tracks (before ++ [s]) e' := by
  cases h with
  | @free headers hpending hstanding hheaders =>
      have hplain (hopen : s.terminator ≠ some .openBrace)
          (hclose : s.terminator ≠ some .closeBrace) : Standing (before ++ [s]) headers :=
        hstanding.append_balanced (balanced_singleton hopen hclose)
      cases hstep with
      | captured hp => simp [hpending] at hp
      | completed hp => simp [hpending] at hp
      | statement _ hmark hstates =>
          have hstanding' := hplain (by simp [hmark]) (by simp [hmark])
          exact .free (hstates.pending_eq.trans hpending) hstanding'
            (hheaders.trans hstates.headers_eq.symm)
      | selector events _ hmark hheader =>
          refine .free hpending (hstanding.open hmark) ?_
          rw [List.map_cons, hheaders]
          simp [Segment.heading, Extraction.headers, hheader]
      | opened _ hmark htext hkept =>
          have hblock : Standing (before ++ [s]) ([] ++ s :: headers) := hstanding.open hmark
          exact .capturing rfl hblock rfl hkept hheaders
      | @closed e₁ inner outer _ hmark hstates hopened =>
          have hall := hheaders.trans hstates.headers_eq.symm
          unfold Extraction.headers at hall
          rw [hopened, List.map_cons] at hall
          obtain ⟨header, headers', rfl, _, hrest⟩ := List.map_eq_cons_iff.1 hall
          refine .free ?_ (hstanding.close hmark) ?_
          · rw [Extraction.pending_attach]
            exact hstates.pending_eq.trans hpending
          · rw [Extraction.headers_attach]
            exact hrest
      | ended _ hmark _ hstates =>
          have hstanding' := hplain (by simp [hmark]) (by simp [hmark])
          exact .free (hstates.pending_eq.trans hpending) hstanding'
            (hheaders.trans hstates.headers_eq.symm)
  | @capturing p inside outer opening hpending hstanding hdepth hkept hheaders =>
      cases hstep with
      | @captured p' m longer hp hmark hmore =>
          cases hpending.symm.trans hp
          cases m with
          | semicolon =>
              cases hmore
              exact .capturing rfl (hstanding.append_balanced
                (balanced_singleton (by simp [hmark]) (by simp [hmark]))) hdepth hkept hheaders
          | openBrace =>
              cases hmore
              have hblock : Standing (before ++ [s]) ((s :: inside) ++ opening :: outer) :=
                hstanding.open hmark
              exact .capturing rfl hblock (congrArg Nat.succ hdepth) hkept hheaders
          | closeBrace =>
              cases inside with
              | nil =>
                  rw [Capture.step, ← hdepth] at hmore
                  cases hmore
              | cons header inside =>
                  rw [Capture.step, ← hdepth] at hmore
                  cases hmore
                  exact .capturing rfl (hstanding.close hmark) rfl hkept hheaders
      | @completed p' m body e₁ hp hmark hdone hadds =>
          cases hpending.symm.trans hp
          cases m with
          | semicolon => cases hdone
          | openBrace => cases hdone
          | closeBrace =>
              cases inside with
              | nil =>
                  exact .free hadds.pending_eq (hstanding.close hmark)
                    (hheaders.trans hadds.headers_eq.symm)
              | cons header inside =>
                  rw [Capture.step, ← hdepth] at hdone
                  cases hdone
      | statement hp => simp [hpending] at hp
      | selector events hp => simp [hpending] at hp
      | opened hp => simp [hpending] at hp
      | closed hp => simp [hpending] at hp
      | ended hp => simp [hpending] at hp

theorem standing {before : List Segment} {e : Extraction} (h : Tracks before e) :
    ∃ headers, Standing before headers ∧ (headers = [] ↔ e.pending = none ∧ e.opened = []) := by
  cases h with
  | @free headers hpending hstanding hheaders =>
      have hnil : headers = [] ↔ e.opened = [] := by
        rw [← List.map_eq_nil_iff (f := Segment.heading), hheaders]
        simp [Extraction.headers]
      exact ⟨headers, hstanding, by simp [hnil, hpending]⟩
  | @capturing p inside outer opening hpending hstanding hdepth hkept hheaders =>
      exact ⟨inside ++ opening :: outer, hstanding, by simp [hpending]⟩

end Tracks

/-! ### Which sources are accepted -/

/-- What a segment asks of those before it: the source ends where all blocks are closed, a block
without a header is inside one kept as text and a brace closes a block that is open. -/
structure Fits (before : List Segment) (s : Segment) : Prop where
  ends : s.terminator = none → Balanced before
  opens : s.terminator = some .openBrace → s.text = [] → InOpaque before
  closes : s.terminator = some .closeBrace → marks .closeBrace before < marks .openBrace before

theorem Standing.balanced_iff {before headers : List Segment} (h : Standing before headers) :
    Balanced before ↔ headers = [] := by
  constructor
  · intro hbalanced
    have htotal := h.total
    rw [hbalanced.total] at htotal
    exact List.length_eq_zero_iff.1 (by omega)
  · rintro rfl
    exact h

theorem Tracks.admits_iff {before : List Segment} {e : Extraction} {s : Segment}
    (h : Tracks before e) : e.Admits s ↔ Fits before s := by
  obtain ⟨headers, hstanding, hnil⟩ := h.standing
  have hbalanced := hstanding.balanced_iff
  have hbelow : marks .closeBrace before < marks .openBrace before ↔ headers ≠ [] := by
    rw [hstanding.total, ← List.length_pos_iff]
    omega
  constructor
  · intro hadmits
    refine ⟨fun hmark => ?_, fun hmark htext => ?_, fun hmark => ?_⟩
    · rw [hbalanced, hnil]
      exact hadmits.ends hmark
    · rw [h.inOpaque_iff]
      exact fun hpending => hadmits.opens hmark hpending htext
    · rw [hbelow, ne_eq, hnil]
      exact fun hnone => hadmits.closes hmark hnone.1 hnone.2
  · intro hfits
    refine ⟨fun hmark => ?_, fun hmark hpending htext => ?_, fun hmark hpending hopened => ?_⟩
    · rw [← hnil, ← hbalanced]
      exact hfits.ends hmark
    · exact h.inOpaque_iff.1 (hfits.opens hmark htext) hpending
    · exact hbelow.1 (hfits.closes hmark) (hnil.2 ⟨hpending, hopened⟩)

/-- Segments can be read one after the other exactly if each of them fits those before it. -/
theorem Tracks.steps_iff {before segs : List Segment} {e : Extraction} (h : Tracks before e) :
    (∃ e', Extraction.Steps e segs e') ↔
      ∀ front s back, segs = front ++ s :: back → Fits (before ++ front) s := by
  induction segs generalizing before e with
  | nil =>
      constructor
      · intro _ front s back heq
        simp at heq
      · intro _
        exact ⟨e, .done e⟩
  | cons t segs ih =>
      constructor
      · rintro ⟨e'', hsteps⟩ front s back heq
        cases hsteps with
        | @next _ e' _ _ _ hok hrest =>
            cases front with
            | nil =>
                obtain ⟨rfl, rfl⟩ := List.cons.inj heq
                rw [List.append_nil]
                exact h.admits_iff.1 (Extraction.step_isOk_iff.1 ⟨e', hok⟩)
            | cons first front =>
                obtain ⟨rfl, rfl⟩ := List.cons.inj heq
                have htracks := h.step (Extraction.step_of_ok hok)
                have hfits := (ih htracks).1 ⟨e'', hrest⟩ front s back rfl
                rwa [List.append_assoc, List.singleton_append] at hfits
      · intro hfits
        have hfirst := hfits [] t segs rfl
        rw [List.append_nil] at hfirst
        obtain ⟨e', hok⟩ := Extraction.step_isOk_iff.2 (h.admits_iff.2 hfirst)
        have htracks := h.step (Extraction.step_of_ok hok)
        obtain ⟨e'', hrest⟩ := (ih htracks).2 fun front s back heq => by
          have hrest := hfits (t :: front) s back (by rw [heq, List.cons_append])
          rwa [List.append_assoc, List.singleton_append]
        exact ⟨e'', .next hok hrest⟩

/-- The segments of a source all fit exactly if they balance and blocks have headers. -/
theorem fits_iff {segs : List Segment} {last : Segment} (hlast : last.terminator = none)
    (hmarked : ∀ s ∈ segs, s.terminator ≠ none) :
    (∀ front s back, segs ++ [last] = front ++ s :: back → Fits front s) ↔
      Balanced (segs ++ [last]) ∧ Headed (segs ++ [last]) := by
  have hplain : Balanced [last] := balanced_singleton (by simp [hlast]) (by simp [hlast])
  constructor
  · intro hfits
    have hbefore := (hfits segs last [] rfl).ends hlast
    exact ⟨hbefore.append hplain, fun front s back heq => (hfits front s back heq).opens⟩
  · rintro ⟨hbalanced, hheaded⟩ front s back heq
    refine ⟨fun hmark => ?_, hheaded front s back heq, fun hmark => ?_⟩
    · -- Only the last segment ends at the end of the source.
      have hfront : front = segs := by
        rcases List.append_eq_append_iff.1 heq with ⟨more, rfl, hmore⟩ | ⟨more, rfl, hmore⟩
        · cases more with
          | nil => exact List.append_nil segs
          | cons first more => simp at hmore
        · cases more with
          | nil => exact (List.append_nil front).symm
          | cons first more =>
              obtain ⟨rfl, _⟩ := List.cons.inj hmore
              exact absurd hmark (hmarked s (by simp))
      rw [hfront]
      refine ⟨hbalanced.neverBelow.of_append, ?_⟩
      have htotal := hbalanced.total
      simpa [hlast] using htotal
    · have hprefix : front ++ [s] <+: segs ++ [last] := ⟨back, by simp [heq]⟩
      have hle := hbalanced.neverBelow _ hprefix
      simp [hmark] at hle
      omega

theorem Tracks.steps {before segs : List Segment} {e e' : Extraction} (h : Tracks before e)
    (hsteps : Extraction.Steps e segs e') : Tracks (before ++ segs) e' := by
  induction hsteps generalizing before with
  | done e => simpa using h
  | @next e e' e'' s segs hok hrest ih =>
      have htracks := ih (h.step (Extraction.step_of_ok hok))
      rwa [List.append_assoc, List.singleton_append] at htracks

namespace Extraction

theorem balanced_of_run {source : Text} {e : Extraction} (h : run source = .ok e) :
    Balanced (Cursor.start source).segments ∧ Headed (Cursor.start source).segments := by
  obtain ⟨hend, hsteps⟩ := run_ok_iff.1 h
  obtain ⟨segs, last, hsegs, hlast, hmarked⟩ := Cursor.segments_of_reachesEnd hend
  have hfits := Tracks.start.steps_iff.1 ⟨e, hsteps⟩
  rw [hsegs] at hfits ⊢
  exact (fits_iff hlast hmarked).1 hfits

/-- Nothing is left open behind a successful run. -/
theorem settled_of_run {source : Text} {e : Extraction} (h : run source = .ok e) :
    e.pending = none ∧ e.opened = [] := by
  have htracks := Tracks.start.steps (run_ok_iff.1 h).2
  obtain ⟨headers, hstanding, hnil⟩ := htracks.standing
  exact hnil.1 (hstanding.balanced_iff.1 (balanced_of_run h).1)

/-- A source is accepted exactly if it is read to its end, its braces balance and every block
without a header is inside a block that is kept as text. Any other source is a structural error of
the file it stands for. -/
theorem run_ok_iff_balanced (source : Text) :
    ((∃ e, run source = .ok e) ↔
      (Cursor.start source).ReachesEnd ∧ Balanced (Cursor.start source).segments ∧
        Headed (Cursor.start source).segments) ∧
    (¬((Cursor.start source).ReachesEnd ∧ Balanced (Cursor.start source).segments ∧
        Headed (Cursor.start source).segments) →
      ∃ failure, run source = .error failure ∧
        ∀ (w : Workspace) (path : Path) (load : Path → Run Loaded),
          (w.build path source load).result = .error (.structural path failure.fault)) := by
  have haccepts : (∃ e, run source = .ok e) ↔
      (Cursor.start source).ReachesEnd ∧ Balanced (Cursor.start source).segments ∧
        Headed (Cursor.start source).segments := by
    simp only [run_ok_iff, exists_and_left]
    refine and_congr_right fun hend => ?_
    obtain ⟨segs, last, hsegs, hlast, hmarked⟩ := Cursor.segments_of_reachesEnd hend
    rw [Tracks.start.steps_iff, hsegs]
    exact fits_iff hlast hmarked
  refine ⟨haccepts, fun hnot => ?_⟩
  cases hrun : run source with
  | ok e => exact absurd (haccepts.1 ⟨e, hrun⟩) hnot
  | error failure =>
      exact ⟨failure, rfl, fun w path load => w.result_build_of_error hrun path load⟩

end Extraction

end Stylesheet
