import Mathlib.Data.Prod.Lex
import Mathlib.Order.Basic
import Stylesheet.Source.Capture

/-! The segments of a source and the order of their positions.

A source is read to its end or up to a first fault; the segments before that are in the order of
their positions. A segment starts no earlier than the cursor stands and no later than the mark that
ends it, and the next one starts behind that mark. -/

namespace Stylesheet

namespace Position

/-- Positions in the order of lines, and of columns within a line. -/
instance : LinearOrder Position :=
  LinearOrder.lift' (fun p : Position => toLex (p.line, p.column)) fun p q h => by
    have hpair : (p.line, p.column) = (q.line, q.column) := toLex.injective h
    obtain ⟨hline, hcolumn⟩ := Prod.mk.inj hpair
    cases p
    cases q
    simp_all

theorem lt_iff {p q : Position} :
    p < q ↔ p.line < q.line ∨ p.line = q.line ∧ p.column < q.column :=
  Prod.Lex.toLex_lt_toLex

theorem lt_next (p : Position) (c : Char) : p < p.next c := by
  rw [lt_iff]
  unfold next
  split <;> simp

/-- Nothing stands between a position and the one behind a character of the same line. -/
theorem next_le_of_lt {p q : Position} {c : Char} (hc : c ≠ '\n') (h : p < q) : p.next c ≤ q := by
  rw [← not_lt, lt_iff]
  rw [lt_iff] at h
  unfold next
  rw [if_neg hc]
  dsimp only
  omega

theorem le_after (p : Position) (t : Text) : p ≤ p.after t := by
  induction t generalizing p with
  | nil => exact le_refl p
  | cons c t ih => exact (p.lt_next c).le.trans (ih (p.next c))

end Position

namespace Cursor

/-- The segments read before the end of the source or the first fault, the last one included. -/
def segments (c : Cursor) : List Segment :=
  c.scans.filterMap fun scan => scan.outcome.toOption

/-- The source is read to its end without a fault. -/
def ReachesEnd (c : Cursor) : Prop :=
  ∃ s ∈ c.segments, s.terminator = none

theorem scans_of_error {c : Cursor} {fault : Fault} (h : c.next.outcome = .error fault) :
    c.scans = [c.next] := by
  rw [scans]
  split
  · rfl
  · next s hs =>
    rw [h] at hs
    cases hs

theorem scans_of_end {c : Cursor} {s : Segment} (h : c.next.outcome = .ok s)
    (hs : s.terminator = none) : c.scans = [c.next] := by
  rw [scans]
  split
  · rfl
  · next s' hs' =>
    rw [h] at hs'
    cases hs'
    split
    · rfl
    · next m hm =>
      rw [hs] at hm
      cases hm

theorem scans_of_mark {c : Cursor} {s : Segment} {m : Mark} (h : c.next.outcome = .ok s)
    (hs : s.terminator = some m) : c.scans = c.next :: c.next.cursor.scans := by
  rw [scans]
  split
  · next fault hf =>
    rw [h] at hf
    cases hf
  · next s' hs' =>
    rw [h] at hs'
    cases hs'
    split
    · next hn =>
      rw [hs] at hn
      cases hn
    · rfl

theorem segments_of_error {c : Cursor} {fault : Fault} (h : c.next.outcome = .error fault) :
    c.segments = [] := by
  simp [segments, scans_of_error h, h, Except.toOption]

theorem segments_of_end {c : Cursor} {s : Segment} (h : c.next.outcome = .ok s)
    (hs : s.terminator = none) : c.segments = [s] := by
  simp [segments, scans_of_end h hs, h, Except.toOption]

theorem segments_of_mark {c : Cursor} {s : Segment} {m : Mark} (h : c.next.outcome = .ok s)
    (hs : s.terminator = some m) : c.segments = s :: c.next.cursor.segments := by
  simp [segments, scans_of_mark h hs, h, Except.toOption]

theorem captureFrom_of_error {c : Cursor} {capture : Capture} {fault : Fault}
    (h : c.next.outcome = .error fault) (opened : Position) :
    c.captureFrom opened capture = ⟨.error fault, c.next.cursor⟩ := by
  rw [captureFrom]
  split
  · next h' =>
    rw [h] at h'
    cases h'
    rfl
  · next h' =>
    rw [h] at h'
    cases h'

theorem captureFrom_of_end {c : Cursor} {capture : Capture} {s : Segment}
    (h : c.next.outcome = .ok s) (hs : s.terminator = none) (opened : Position) :
    c.captureFrom opened capture = ⟨.error ⟨opened, .unclosedBlock⟩, c.next.cursor⟩ := by
  rw [captureFrom]
  split
  · next h' =>
    rw [h] at h'
    cases h'
  · next s' h' =>
    rw [h] at h'
    cases h'
    split
    · rfl
    · next hm =>
      rw [hs] at hm
      cases hm

theorem captureFrom_of_mark {c : Cursor} {capture : Capture} {s : Segment} {m : Mark}
    (h : c.next.outcome = .ok s) (hs : s.terminator = some m) (opened : Position) :
    (∀ body, capture.step s.text m = .done body →
      c.captureFrom opened capture = ⟨.ok body, c.next.cursor⟩) ∧
    ∀ longer, capture.step s.text m = .more longer →
      c.captureFrom opened capture = c.next.cursor.captureFrom opened longer := by
  rw [captureFrom]
  split
  · next h' =>
    rw [h] at h'
    cases h'
  · next s' h' =>
    rw [h] at h'
    cases h'
    split
    · next hn =>
      rw [hs] at hn
      cases hn
    · next m' hm =>
      rw [hs] at hm
      cases hm
      constructor
      · intro body hstep
        rw [hstep]
      · intro longer hstep
        rw [hstep]

/-- Scanning a source from left to right: what holds at a fault, at the end and before each mark
holds of the whole scan. -/
theorem scanInduction {motive : Cursor → Prop}
    (fault : ∀ c fault, c.next.outcome = .error fault → motive c)
    (finish : ∀ c s, c.next.outcome = .ok s → s.terminator = none → motive c)
    (mark : ∀ c s m, c.next.outcome = .ok s → s.terminator = some m → motive c.next.cursor →
      motive c)
    (c : Cursor) : motive c := by
  induction c using scans.induct with
  | case1 c f hf => exact fault c f hf
  | case2 c s hs hn => exact finish c s hs hn
  | case3 c s hs m hm ih => exact mark c s m hs hm ih

theorem not_reachesEnd_of_error {c : Cursor} {fault : Fault} (h : c.next.outcome = .error fault) :
    ¬c.ReachesEnd := by
  rintro ⟨s, hs, _⟩
  rw [segments_of_error h] at hs
  cases hs

theorem reachesEnd_of_end {c : Cursor} {s : Segment} (h : c.next.outcome = .ok s)
    (hs : s.terminator = none) : c.ReachesEnd :=
  ⟨s, by simp [segments_of_end h hs], hs⟩

theorem reachesEnd_iff_of_mark {c : Cursor} {s : Segment} {m : Mark} (h : c.next.outcome = .ok s)
    (hs : s.terminator = some m) : c.ReachesEnd ↔ c.next.cursor.ReachesEnd := by
  unfold ReachesEnd
  rw [segments_of_mark h hs]
  simp [hs]

/-- A scan that reaches the end has a last segment, and a mark ends every segment before it. -/
theorem segments_of_reachesEnd {c : Cursor} (h : c.ReachesEnd) :
    ∃ segs last, c.segments = segs ++ [last] ∧ last.terminator = none ∧
      ∀ s ∈ segs, s.terminator ≠ none := by
  induction c using scanInduction with
  | fault c f hf => exact absurd h (not_reachesEnd_of_error hf)
  | finish c s hs hn => exact ⟨[], s, segments_of_end hs hn, hn, fun _ hmem => by cases hmem⟩
  | mark c s m hs hm ih =>
      obtain ⟨segs, last, hsegs, hlast, hmarked⟩ := ih ((reachesEnd_iff_of_mark hs hm).1 h)
      refine ⟨s :: segs, last, ?_, hlast, ?_⟩
      · rw [segments_of_mark hs hm, hsegs, List.cons_append]
      · intro t ht
        rcases List.mem_cons.1 ht with rfl | ht
        · rw [hm]
          exact Option.some_ne_none m
        · exact hmarked t ht

theorem outcomes_of_reachesEnd {c : Cursor} (h : c.ReachesEnd) :
    c.scans.map Scan.outcome = c.segments.map .ok := by
  induction c using scanInduction with
  | fault c f hf => exact absurd h (not_reachesEnd_of_error hf)
  | finish c s hs hn => simp [scans_of_end hs hn, segments_of_end hs hn, hs]
  | mark c s m hs hm ih =>
      have hrest := ih ((reachesEnd_iff_of_mark hs hm).1 h)
      simp [scans_of_mark hs hm, segments_of_mark hs hm, hs, hrest]

theorem outcomes_of_not_reachesEnd {c : Cursor} (h : ¬c.ReachesEnd) :
    ∃ fault, c.scans.map Scan.outcome = c.segments.map .ok ++ [.error fault] := by
  induction c using scanInduction with
  | fault c f hf => exact ⟨f, by simp [scans_of_error hf, segments_of_error hf, hf]⟩
  | finish c s hs hn => exact absurd (reachesEnd_of_end hs hn) h
  | mark c s m hs hm ih =>
      obtain ⟨fault, hrest⟩ := ih fun hend => h ((reachesEnd_iff_of_mark hs hm).2 hend)
      exact ⟨fault, by simp [scans_of_mark hs hm, segments_of_mark hs hm, hs, hrest]⟩

end Cursor

/-! ### Positions -/

namespace Draft

/-- Whatever text the draft has starts between a given position and the place reached. -/
def StartsWithin (d : Draft) (lower reached : Position) : Prop :=
  ∀ q ∈ d.start, lower ≤ q ∧ q ≤ reached

theorem StartsWithin.mono {d : Draft} {lower reached further : Position}
    (h : d.StartsWithin lower reached) (hle : reached ≤ further) : d.StartsWithin lower further :=
  fun q hq => ⟨(h q hq).1, (h q hq).2.trans hle⟩

theorem StartsWithin.add {d : Draft} {lower reached : Position} (h : d.StartsWithin lower reached)
    (hle : lower ≤ reached) (l : Lexeme) : (d.add reached l).StartsWithin lower reached := by
  have hor : ∀ q ∈ d.start.or (some reached), lower ≤ q ∧ q ≤ reached := by
    intro q hq
    cases hd : d.start with
    | none =>
        rw [hd] at hq
        cases hq
        exact ⟨hle, le_refl _⟩
    | some p =>
        rw [hd] at hq
        cases hq
        exact h q hd
  cases l with
  | comment source => exact h
  | blank c => exact h
  | quoted source => exact hor
  | interpolation inside => exact hor
  | mark m => exact h
  | char c => exact hor

end Draft

namespace Cursor

theorem read_positions {d : Draft} {lower p : Position} {t : Text} {s : Segment}
    (hd : d.StartsWithin lower p) (hle : lower ≤ p) (h : (read d p t).outcome = .ok s) :
    lower ≤ s.position ∧ s.position ≤ s.terminatorPosition ∧
      (s.terminator ≠ none → s.terminatorPosition < (read d p t).cursor.position) := by
  have hfinish : ∀ (d : Draft) (p : Position) (m : Option Mark), d.StartsWithin lower p →
      lower ≤ p → lower ≤ (d.finish m p).position ∧ (d.finish m p).position ≤ p := by
    intro d p m hd hle
    unfold Draft.finish
    cases hs : d.start with
    | none => exact ⟨hle, le_refl p⟩
    | some q => exact hd q hs
  fun_induction read d p t with
  | case1 d p t hr =>
      cases h
      exact ⟨(hfinish d p none hd hle).1, (hfinish d p none hd hle).2, fun hne => absurd rfl hne⟩
  | case2 => cases h
  | case3 d p t m rest hr =>
      cases h
      exact ⟨(hfinish d p _ hd hle).1, (hfinish d p _ hd hle).2, fun _ => p.lt_next m.char⟩
  | case4 d p t l rest hl hr ih =>
      have hstep := p.le_after l.source
      exact ih ((hd.add hle l).mono hstep) (hle.trans hstep) h

/-- A segment starts no earlier than the cursor and no later than its mark, and the cursor goes on
behind the mark. -/
theorem next_positions {c : Cursor} {s : Segment} (h : c.next.outcome = .ok s) :
    c.position ≤ s.position ∧ s.position ≤ s.terminatorPosition ∧
      (s.terminator ≠ none → s.terminatorPosition < c.next.cursor.position) :=
  read_positions (fun _ hq => by cases hq) (le_refl c.position) h

/-- The segments of a scan stand behind the cursor, one behind the mark of the other. -/
theorem segments_ordered (c : Cursor) :
    (∀ s ∈ c.segments, c.position ≤ s.position ∧ s.position ≤ s.terminatorPosition) ∧
      c.segments.Pairwise fun s t => s.terminatorPosition < t.position := by
  induction c using scanInduction with
  | fault c f hf => simp [segments_of_error hf]
  | finish c s hs hn =>
      have hpos := next_positions hs
      simp [segments_of_end hs hn, hpos.1, hpos.2.1]
  | mark c s m hs hm ih =>
      obtain ⟨hlower, hupper, hbehind⟩ := next_positions hs
      have hcursor : s.terminatorPosition < c.next.cursor.position := hbehind (by simp [hm])
      rw [segments_of_mark hs hm]
      refine ⟨?_, List.pairwise_cons.2 ⟨fun t ht => hcursor.trans_le (ih.1 t ht).1, ih.2⟩⟩
      intro t ht
      rcases List.mem_cons.1 ht with rfl | ht
      · exact ⟨hlower, hupper⟩
      · have hstart : c.position ≤ c.next.cursor.position :=
          (hlower.trans hupper).trans hcursor.le
        exact ⟨hstart.trans (ih.1 t ht).1, (ih.1 t ht).2⟩

end Cursor

end Stylesheet
