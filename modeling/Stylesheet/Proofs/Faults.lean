import Stylesheet.Proofs.Automaton
import Stylesheet.Proofs.Nodes

/-! Which characters structural errors point at.

A run fails where the scan fails, or at a segment that the extraction refuses. In the first case a
string, a comment or an interpolation is left open, in the second a block is never closed, has no
header or is closed once too often. `Blames` says for each cause which character is at fault, in
terms of the text and its segments alone. -/

namespace Stylesheet

/-- The text of a segment starts with the character behind `before`. -/
def Segment.FirstAt (s : Segment) (source before : Text) : Prop :=
  ∃ c rest, source = before ++ c :: rest ∧ s.text.head? = some c ∧ isBlank c = false ∧
    s.position = .behind before

/-- The mark of a segment is the character behind `before`. -/
def Segment.MarkAt (s : Segment) (source before : Text) : Prop :=
  ∃ m rest, source = before ++ m.char :: rest ∧ s.terminator = some m ∧
    s.terminatorPosition = .behind before

/-- What is wrong with a source at the character behind `before`. -/
inductive Blames (source : Text) (segs : List Segment) (before : Text) : Cause → Prop
  /-- A construct starts here and is never closed. -/
  | construct {k : Construct} (hopen : LexState.start.LeavesOpen k before source) :
      Blames source segs before (.unclosed k)
  /-- The header of the innermost selector that is open where the source ends. -/
  | selector {front back : List Segment} {header last : Segment} {title : Text}
      (hsegs : segs = front ++ last :: back) (hend : last.terminator = none)
      (hout : ¬InOpaque front) (hinnermost : Innermost front (some header))
      (htitle : Header.ofText header.text = .selector title)
      (hfirst : header.FirstAt source before) :
      Blames source segs before (.unclosedSelector title)
  /-- The header of the outermost block kept as text that is open where the source ends. -/
  | block {outer inner back : List Segment} {header last : Segment}
      (hsegs : segs = outer ++ header :: inner ++ last :: back) (hend : last.terminator = none)
      (hopen : header.terminator = some .openBrace) (hkept : Header.IsOpaque header.text)
      (hout : ¬InOpaque outer) (hinner : NeverBelow inner)
      (hfirst : header.FirstAt source before) :
      Blames source segs before .unclosedBlock
  /-- The brace of the first block without a header, those inside blocks kept as text apart. -/
  | headless {front back : List Segment} {s : Segment} (hsegs : segs = front ++ s :: back)
      (hopen : s.terminator = some .openBrace) (htext : s.text = []) (hout : ¬InOpaque front)
      (hheaded : Headed front) (hmark : s.MarkAt source before) :
      Blames source segs before .missingHeader
  /-- The first brace that closes a block where none is open. -/
  | stray {front back : List Segment} {s : Segment} (hsegs : segs = front ++ s :: back)
      (hclose : s.terminator = some .closeBrace) (hbefore : Balanced front)
      (hmark : s.MarkAt source before) :
      Blames source segs before .unexpectedClose

/-! ### Segments of a source -/

theorem Segment.Stands.text_eq_nil_iff {s : Segment} {before gap body back : Text}
    (h : s.Stands before gap body back) : s.text = [] ↔ body = [] := by
  rw [← List.head?_eq_none_iff, ← List.head?_eq_none_iff, h.first]

theorem Segment.Stands.position_eq {s : Segment} {before gap body back : Text}
    (h : s.Stands before gap body back) (htext : s.text = []) :
    s.position = s.terminatorPosition := by
  have hbody := h.text_eq_nil_iff.1 htext
  rw [h.position, h.terminatorPosition, hbody, List.append_nil]

namespace Cursor

theorem stands_of_mem_segments {c : Cursor} {source before : Text} {s : Segment}
    (hc : c.Stands source before) (hs : s ∈ c.segments) :
    ∃ before gap body back, source = before ++ gap ++ body ++ back ∧
      s.Stands before gap body back := by
  induction c using scanInduction generalizing before with
  | fault c f hf =>
      rw [segments_of_error hf] at hs
      cases hs
  | finish c t ht hn =>
      rw [segments_of_end ht hn, List.mem_singleton] at hs
      subst hs
      obtain ⟨gap, body, back, hsource, hstands, _⟩ := hc.segment ht
      exact ⟨before, gap, body, back, hsource, hstands⟩
  | mark c t m ht hm ih =>
      rw [segments_of_mark ht hm] at hs
      rcases List.mem_cons.1 hs with rfl | hs
      · obtain ⟨gap, body, back, hsource, hstands, _⟩ := hc.segment ht
        exact ⟨before, gap, body, back, hsource, hstands⟩
      · obtain ⟨taken, hnext⟩ := hc.next
        exact ih hnext hs

theorem firstAt_of_mem {source : Text} {s : Segment} (hs : s ∈ (start source).segments)
    (htext : s.text ≠ []) : ∃ before, s.FirstAt (start source).rest before := by
  obtain ⟨before, gap, body, back, hsource, hstands⟩ :=
    stands_of_mem_segments (stands_start source) hs
  obtain ⟨c, body, rfl⟩ := List.exists_cons_of_ne_nil (mt hstands.text_eq_nil_iff.2 htext)
  refine ⟨before ++ gap, c, body ++ back, ?_, hstands.first.symm, ?_, hstands.position⟩
  · rw [hsource, List.append_assoc (before ++ gap), List.cons_append]
  · exact hstands.visible c rfl

theorem markAt_of_mem {source : Text} {s : Segment} {m : Mark}
    (hs : s ∈ (start source).segments) (hm : s.terminator = some m) :
    ∃ before, s.MarkAt (start source).rest before := by
  obtain ⟨before, gap, body, back, hsource, hstands⟩ :=
    stands_of_mem_segments (stands_start source) hs
  have hback : back.head? = some m.char := by simpa [hm] using hstands.mark
  obtain ⟨rest, rfl⟩ := List.head?_eq_some_iff.1 hback
  exact ⟨before ++ gap ++ body, m, rest, hsource, hm, hstands.terminatorPosition⟩

/-- The fault of a scan stands where a construct starts that is left open. -/
theorem leavesOpen_of_mem_scans {c : Cursor} {fault : Fault}
    (h : .error fault ∈ c.scans.map Scan.outcome) :
    ∃ k before, fault = ⟨c.position.after before, .unclosed k⟩ ∧
      LexState.start.LeavesOpen k before c.rest := by
  have hready (t : Text) : LexState.start.Ready Draft.empty.depth t := .refl 0 t
  induction c using scanInduction with
  | fault c f hf =>
      have hfault : fault = f := by simpa [scans_of_error hf, hf] using h
      obtain ⟨k, before, rfl, hleaves, _⟩ := read_error (hready _) hf
      exact ⟨k, before, hfault, hleaves⟩
  | finish c s hs hn => simp [scans_of_end hs hn, hs] at h
  | mark c s m hs hm ih =>
      have hrest : .error fault ∈ c.next.cursor.scans.map Scan.outcome := by
        simpa [scans_of_mark hs hm, hs] using h
      obtain ⟨k, before, hfault, hleaves⟩ := ih hrest
      -- Behind a mark the machine is in its first state again, so the rest is read as a source.
      obtain ⟨body, s', hread, hpasses, _, hnext, _, hcursor⟩ := read_mark (hready _) hs hm
      have hbehind : c.next.cursor.position = c.position.after (body ++ [m.char]) := hcursor
      have hsplit : c.rest = body ++ [m.char] ++ c.next.cursor.rest := by
        rw [List.append_assoc]
        exact hread
      refine ⟨k, body ++ [m.char] ++ before, ?_, ?_⟩
      · rw [hfault, hbehind, ← Position.after_append]
      · rw [hsplit]
        refine LexState.LeavesOpen.append ?_
        rwa [LexState.after_append, hpasses.after_eq, LexState.after_cons, hnext]

end Cursor

/-! ### Why a segment is refused -/

namespace Extraction

/-- The fault of a segment that cannot be read. -/
inductive Refuses (e : Extraction) (s : Segment) : Fault → Prop
  | block {p : Pending} (hpending : e.pending = some p) (hend : s.terminator = none) :
      Refuses e s ⟨p.position, .unclosedBlock⟩
  | selector {inner : OpenSelector} {outer : List OpenSelector} (hpending : e.pending = none)
      (hend : s.terminator = none) (hopened : e.opened = inner :: outer) :
      Refuses e s ⟨inner.position, .unclosedSelector inner.header⟩
  | headless (hpending : e.pending = none) (hopen : s.terminator = some .openBrace)
      (htext : s.text = []) : Refuses e s ⟨s.position, .missingHeader⟩
  | stray (hpending : e.pending = none) (hclose : s.terminator = some .closeBrace)
      (hopened : e.opened = []) : Refuses e s ⟨s.terminatorPosition, .unexpectedClose⟩

theorem refuses_of_error {e : Extraction} {s : Segment} {failure : Failure}
    (h : e.step (.ok s) = .error failure) : e.Refuses s failure.fault := by
  unfold step at h
  dsimp only at h
  cases hpending : e.pending with
  | some p =>
      simp only [hpending, capture] at h
      cases hmark : s.terminator with
      | none =>
          rw [hmark] at h
          cases h
          exact .block hpending hmark
      | some m =>
          simp only [hmark] at h
          split at h <;> cases h
  | none =>
      simp only [hpending, advance] at h
      cases hmark : s.terminator with
      | none =>
          simp only [hmark] at h
          cases hopened : e.opened with
          | nil =>
              rw [hopened] at h
              cases h
          | cons inner outer =>
              rw [hopened] at h
              cases h
              exact .selector hpending hmark hopened
      | some m =>
          rw [hmark] at h
          cases m with
          | semicolon => cases h
          | openBrace =>
              by_cases htext : s.text = []
              · simp only [openBlock, htext, List.isEmpty_nil, if_true] at h
                cases h
                exact .headless hpending hmark htext
              · simp only [openBlock, List.isEmpty_iff, htext, if_false] at h
                split at h <;> cases h
          | closeBrace =>
              -- The statement before the brace comes first, but it opens and closes nothing.
              have hheaders := (states_statement e s.text s.position).headers_eq
              simp only [closeBlock] at h
              split at h
              · next hopened =>
                cases h
                exact .stray hpending hmark ((opened_eq_nil_iff hheaders).1 hopened)
              · cases h

theorem foldlM_error {e : Extraction} {segs : List Segment} {failure : Failure}
    (h : (segs.map Except.ok).foldlM step e = .error failure) :
    ∃ front s back e', segs = front ++ s :: back ∧ Steps e front e' ∧
      e'.Refuses s failure.fault := by
  induction segs generalizing e with
  | nil => cases h
  | cons s segs ih =>
      rw [List.map_cons, List.foldlM_cons] at h
      cases hstep : e.step (.ok s) with
      | error first =>
          rw [hstep] at h
          cases h
          exact ⟨[], s, segs, e, rfl, .done e, refuses_of_error hstep⟩
      | ok e₁ =>
          rw [hstep] at h
          obtain ⟨front, t, back, e', rfl, hsteps, hrefuses⟩ := ih h
          exact ⟨s :: front, t, back, e', rfl, .next hstep hsteps, hrefuses⟩

/-- A run fails at a segment that is refused, or where the scan fails. -/
theorem run_error {source : Text} {failure : Failure} (h : run source = .error failure) :
    (∃ front s back e, (Cursor.start source).segments = front ++ s :: back ∧
      Steps start front e ∧ e.Refuses s failure.fault) ∨
    .error failure.fault ∈ (Cursor.start source).scans.map Scan.outcome := by
  unfold run at h
  by_cases hend : (Cursor.start source).ReachesEnd
  · rw [Cursor.outcomes_of_reachesEnd hend] at h
    exact .inl (foldlM_error h)
  · obtain ⟨fault, houtcomes⟩ := Cursor.outcomes_of_not_reachesEnd hend
    rw [houtcomes, List.foldlM_append] at h
    cases hfold : ((Cursor.start source).segments.map Except.ok).foldlM step start with
    | error first =>
        rw [hfold] at h
        cases h
        exact .inl (foldlM_error hfold)
    | ok e =>
        rw [hfold] at h
        cases h
        exact .inr (by simp [houtcomes])

end Extraction

/-! ### The block that is captured -/

theorem NeverBelow.concat {segs : List Segment} {s : Segment} (h : NeverBelow segs)
    (hs : s.terminator = some .closeBrace →
      marks .closeBrace segs < marks .openBrace segs) : NeverBelow (segs ++ [s]) := by
  by_cases hclose : s.terminator = some .closeBrace
  · intro front hfront
    rcases List.prefix_concat_iff.1 hfront with rfl | hfront
    · have hlt := hs hclose
      simp [hclose]
      omega
    · exact h front hfront
  · exact h.append (neverBelow_singleton hclose)

/-- The block being captured opened behind one of the segments read, outside all others of its kind,
and has not been closed since. -/
def CapturedSince (before : List Segment) (p : Pending) : Prop :=
  ∃ outer header inner, before = outer ++ header :: inner ∧
    header.terminator = some .openBrace ∧ header.text ≠ [] ∧ Header.IsOpaque header.text ∧
    header.position = p.position ∧ ¬InOpaque outer ∧ NeverBelow inner ∧
    marks .openBrace inner = marks .closeBrace inner + p.capture.depth

/-- One more segment of the block: the depth of the capture counts the blocks open inside it. -/
theorem CapturedSince.more {before : List Segment} {p : Pending} {s : Segment} {m : Mark}
    {longer : Capture} (h : CapturedSince before p) (hmark : s.terminator = some m)
    (hmore : p.capture.step s.text m = .more longer) :
    CapturedSince (before ++ [s]) { p with capture := longer } := by
  obtain ⟨outer, header, inner, rfl, hopen, htext, hkept, hposition, hout, hinner, htotal⟩ := h
  -- A closing brace that does not complete the capture closes a block inside it.
  have hcount : (m = .closeBrace → 0 < p.capture.depth) ∧
      marks .openBrace (inner ++ [s]) = marks .closeBrace (inner ++ [s]) + longer.depth := by
    cases m with
    | semicolon =>
        cases hmore
        simp [hmark, htotal]
    | openBrace =>
        cases hmore
        simp [hmark, htotal]
        omega
    | closeBrace =>
        cases hdepth : p.capture.depth with
        | zero =>
            rw [Capture.step, hdepth] at hmore
            cases hmore
        | succ n =>
            rw [Capture.step, hdepth] at hmore
            cases hmore
            simp [hmark, htotal, hdepth]
            omega
  refine ⟨outer, header, inner ++ [s], by simp, hopen, htext, hkept, hposition, hout, ?_,
    hcount.2⟩
  refine hinner.concat fun hclose => ?_
  have hpositive := hcount.1 (Option.some.inj (hmark.symm.trans hclose))
  omega

namespace Extraction

theorem Step.capturedSince {before : List Segment} {e e' : Extraction} {s : Segment} {p : Pending}
    (htracks : Tracks before e) (hpending : ∀ p, e.pending = some p → CapturedSince before p)
    (h : e.Step s e') (hp : e'.pending = some p) : CapturedSince (before ++ [s]) p := by
  have hnone (hnone : e'.pending = none) : CapturedSince (before ++ [s]) p := by
    rw [hnone] at hp
    cases hp
  cases h with
  | captured hpend hmark hmore =>
      cases hp
      exact (hpending _ hpend).more hmark hmore
  | completed _ _ _ hadds => exact hnone hadds.pending_eq
  | statement hpend _ hstates => exact hnone (hstates.pending_eq.trans hpend)
  | selector _ hpend => exact hnone hpend
  | opened hpend hmark htext hkept =>
      cases hp
      have hout : ¬InOpaque before := fun hin => htracks.inOpaque_iff.1 hin hpend
      exact ⟨before, s, [], rfl, hmark, htext, hkept, rfl, hout, neverBelow_nil, rfl⟩
  | closed hpend _ hstates =>
      exact hnone ((pending_attach _ _).trans (hstates.pending_eq.trans hpend))
  | ended hpend _ _ hstates => exact hnone (hstates.pending_eq.trans hpend)

theorem Steps.capturedSince {before segs : List Segment} {e e' : Extraction}
    (htracks : Tracks before e) (hpending : ∀ p, e.pending = some p → CapturedSince before p)
    (h : Steps e segs e') : ∀ p, e'.pending = some p → CapturedSince (before ++ segs) p := by
  induction h generalizing before with
  | done e => simpa using hpending
  | @next e e' e'' s segs hok hrest ih =>
      have hstep := step_of_ok hok
      have hlater := ih (htracks.step hstep) fun p hp => hstep.capturedSince htracks hpending hp
      rwa [List.append_assoc, List.singleton_append] at hlater

end Extraction

/-! ### Where a run fails -/

/-- Outside captured blocks the innermost open selector is the innermost block that stands open. -/
theorem Tracks.innermost_header {before : List Segment} {e : Extraction} {inner : OpenSelector}
    {outer : List OpenSelector} (h : Tracks before e) (hpending : e.pending = none)
    (hopened : e.opened = inner :: outer) :
    ∃ header, Innermost before (some header) ∧ Header.ofText header.text = .selector inner.header ∧
      header.position = inner.position := by
  cases h with
  | @free headers _ hstanding hheaders =>
      rw [Extraction.headers, hopened, List.map_cons] at hheaders
      obtain ⟨header, headers, rfl, hheading, _⟩ := List.map_eq_cons_iff.1 hheaders
      obtain ⟨hheader, hposition⟩ := Prod.mk.inj hheading
      exact ⟨header, hstanding.innermost, hheader, hposition⟩
  | capturing hp =>
      rw [hpending] at hp
      cases hp

namespace Extraction

/-- Segments that can be read have headers where they need them. -/
theorem Steps.headed {segs : List Segment} {e : Extraction} (h : Steps start segs e) :
    Headed segs :=
  fun front s back heq => (Tracks.start.steps_iff.1 ⟨e, h⟩ front s back heq).opens

theorem blames_of_refuses {source : Text} {front back : List Segment} {s : Segment}
    {e : Extraction} {fault : Fault}
    (hsegs : (Cursor.start source).segments = front ++ s :: back) (hsteps : Steps start front e)
    (h : e.Refuses s fault) :
    ∃ before, fault.position = .behind before ∧
      Blames (Cursor.start source).rest (Cursor.start source).segments before fault.cause := by
  have htracks : Tracks front e := Tracks.start.steps hsteps
  have hout (hpending : e.pending = none) : ¬InOpaque front :=
    fun hin => htracks.inOpaque_iff.1 hin hpending
  have hs : s ∈ (Cursor.start source).segments := by simp [hsegs]
  have hfront {t : Segment} (ht : t ∈ front) : t ∈ (Cursor.start source).segments := by
    simp [hsegs, ht]
  cases h with
  | block hpending hend =>
      have hcaptured := hsteps.capturedSince Tracks.start (fun _ hp => by cases hp) _ hpending
      obtain ⟨outer, header, inner, hbefore, hopen, htext, hkept, hposition, houter, hinner, _⟩ :=
        hcaptured
      obtain rfl : front = outer ++ header :: inner := hbefore
      obtain ⟨before, hfirst⟩ := Cursor.firstAt_of_mem (hfront (t := header) (by simp)) htext
      refine ⟨before, ?_, .block hsegs hend hopen hkept houter hinner hfirst⟩
      obtain ⟨_, _, _, _, _, hbehind⟩ := hfirst
      rw [← hbehind, hposition]
  | selector hpending hend hopened =>
      obtain ⟨header, hinnermost, htitle, hposition⟩ := htracks.innermost_header hpending hopened
      have hmem : header ∈ front := by
        obtain ⟨outer, inner, rfl, _⟩ := hinnermost
        simp
      have htext : header.text ≠ [] := by
        intro hnil
        rw [hnil] at htitle
        exact Header.isOpaque_nil _ htitle
      obtain ⟨before, hfirst⟩ := Cursor.firstAt_of_mem (hfront hmem) htext
      refine ⟨before, ?_, .selector hsegs hend (hout hpending) hinnermost htitle hfirst⟩
      obtain ⟨_, _, _, _, _, hbehind⟩ := hfirst
      rw [← hbehind, hposition]
  | headless hpending hopen htext =>
      obtain ⟨before, hmark⟩ := Cursor.markAt_of_mem hs hopen
      refine ⟨before, ?_, .headless hsegs hopen htext (hout hpending) hsteps.headed hmark⟩
      obtain ⟨_, _, _, _, hstands⟩ := Cursor.stands_of_mem_segments (Cursor.stands_start source) hs
      obtain ⟨_, _, _, _, hbehind⟩ := hmark
      rw [← hbehind, hstands.2.position_eq htext]
  | stray hpending hclose hopened =>
      obtain ⟨headers, hstanding, hnil⟩ := htracks.standing
      have hbalanced := hstanding.balanced_iff.2 (hnil.2 ⟨hpending, hopened⟩)
      obtain ⟨before, hmark⟩ := Cursor.markAt_of_mem hs hclose
      refine ⟨before, ?_, .stray hsegs hclose hbalanced hmark⟩
      obtain ⟨_, _, _, _, hbehind⟩ := hmark
      exact hbehind

/-- Every position points at its character. Wherever calls lead, the cursor stands at the position
behind the text it has passed; a segment read there starts at the first character of its text and
ends at its mark. A failed run points at the character that is at fault. -/
theorem positions_point (source : Text) :
    (∀ c, (Cursor.start source).Reaches c →
      ∃ before, c.Stands (Cursor.start source).rest before ∧
        ∀ s, c.next.outcome = .ok s →
          ∃ gap body back, (Cursor.start source).rest = before ++ gap ++ body ++ back ∧
            s.Stands before gap body back ∧
            (s.text = [] → s.position = s.terminatorPosition) ∧
            c.next.cursor.rest = back.tail) ∧
    ∀ failure, run source = .error failure →
      ∃ before, failure.fault.position = .behind before ∧
        Blames (Cursor.start source).rest (Cursor.start source).segments before
          failure.fault.cause := by
  refine ⟨fun c hreaches => ?_, fun failure hrun => ?_⟩
  · obtain ⟨before, hstands⟩ := hreaches.stands
    refine ⟨before, hstands, fun s hs => ?_⟩
    obtain ⟨gap, body, back, hsource, hsegment, hrest⟩ := hstands.segment hs
    exact ⟨gap, body, back, hsource, hsegment, hsegment.position_eq, hrest⟩
  · rcases run_error hrun with ⟨front, s, back, e, hsegs, hsteps, hrefuses⟩ | hscan
    · exact blames_of_refuses hsegs hsteps hrefuses
    · obtain ⟨k, before, hfault, hleaves⟩ := Cursor.leavesOpen_of_mem_scans hscan
      rw [hfault]
      exact ⟨before, (Position.behind_append [] before).symm, .construct hleaves⟩

end Extraction

end Stylesheet
