import Stylesheet.Proofs.Fronts
import Stylesheet.Proofs.Loading
import Stylesheet.Proofs.Steps

/-! Sources put one behind the other.

Where a source ends with a line feed and outside of everything, another one behind it is read as if
it stood alone, only further down. The scan goes on at the seam with an empty draft, and reading
does not depend on the line it is in (`Cursor.read_down`). The extraction goes on with nothing open,
and what it has found before only stands in front of what it finds from there on (`Follows`). -/

namespace Stylesheet

/-! ### Lines further down -/

/-- The position so many lines further down. -/
def Position.down (n : Nat) (p : Position) : Position :=
  ⟨p.line + n, p.column⟩

theorem Position.down_next (n : Nat) (p : Position) (c : Char) :
    (p.next c).down n = (p.down n).next c := by
  unfold next down
  split
  · simp [Nat.add_right_comm]
  · rfl

theorem Position.down_after (n : Nat) (p : Position) (t : Text) :
    (p.after t).down n = (p.down n).after t := by
  induction t generalizing p with
  | nil => rfl
  | cons c t ih => rw [after_cons, after_cons, ih, down_next]

def Fault.down (n : Nat) (fault : Fault) : Fault :=
  { fault with position := fault.position.down n }

def Segment.down (n : Nat) (s : Segment) : Segment :=
  { s with
    position := s.position.down n
    terminatorPosition := s.terminatorPosition.down n }

def Draft.down (n : Nat) (d : Draft) : Draft :=
  { d with start := d.start.map (Position.down n) }

def Cursor.down (n : Nat) (c : Cursor) : Cursor :=
  { c with position := c.position.down n }

/-- What an attempt to read comes to further down. -/
def outcomeDown (n : Nat) : Except Fault Segment → Except Fault Segment
  | .error fault => .error (fault.down n)
  | .ok s => .ok (s.down n)

theorem Draft.down_add (n : Nat) (d : Draft) (p : Position) (l : Lexeme) :
    (d.add p l).down n = (d.down n).add (p.down n) l := by
  cases l <;> simp [add, down]

theorem Draft.down_finish (n : Nat) (d : Draft) (m : Option Mark) (p : Position) :
    (d.finish m p).down n = (d.down n).finish m (p.down n) := by
  unfold finish Segment.down down
  cases d.start <;> rfl

namespace Cursor

theorem read_down (n : Nat) (d : Draft) (p : Position) (t : Text) :
    (read (d.down n) (p.down n) t).outcome = outcomeDown n (read d p t).outcome ∧
      (read (d.down n) (p.down n) t).cursor = (read d p t).cursor.down n := by
  fun_induction read d p t with
  | case1 d p t hr =>
      rw [read_of_finished (d := d.down n) hr, ← Draft.down_finish]
      exact ⟨rfl, rfl⟩
  | case2 d p t k before hr =>
      rw [read_of_unclosed (d := d.down n) hr, ← Position.down_after, ← Position.down_after]
      exact ⟨rfl, rfl⟩
  | case3 d p t m rest hr =>
      rw [read_of_mark (d := d.down n) hr, ← Draft.down_finish, ← Position.down_next]
      exact ⟨rfl, rfl⟩
  | case4 d p t l rest hl hr ih =>
      rw [read_of_lexeme (d := d.down n) hr hl, ← Draft.down_add, ← Position.down_after]
      exact ih

theorem next_down (n : Nat) (c : Cursor) :
    (c.down n).next.outcome = outcomeDown n c.next.outcome ∧
      (c.down n).next.cursor = c.next.cursor.down n :=
  read_down n .empty c.position c.rest

theorem outcomes_down (n : Nat) (c : Cursor) :
    (c.down n).scans.map Scan.outcome = (c.scans.map Scan.outcome).map (outcomeDown n) := by
  induction c using scanInduction with
  | fault c f hf =>
      have hdown := (next_down n c).1
      rw [hf] at hdown
      simp [scans_of_error hf, scans_of_error hdown, hf, hdown, outcomeDown]
  | finish c s hs hn =>
      have hdown := (next_down n c).1
      rw [hs] at hdown
      simp [scans_of_end hs hn, scans_of_end hdown hn, hs, hdown, outcomeDown]
  | mark c s m hs hm ih =>
      obtain ⟨hdown, hcursor⟩ := next_down n c
      rw [hs] at hdown
      simp [scans_of_mark hs hm, scans_of_mark hdown hm, hs, hdown, hcursor, ih, outcomeDown]

/-! ### The seam -/

theorem stops_of_lineFeed {depth : Nat} {t rest : Text} {l : Lexeme}
    (h : Lexeme.Reads depth t (.lexeme l rest)) (hlast : l.source.getLast? = some '\n')
    (next : Option Char) : l.Stops depth next := by
  cases h with
  | blockComment hclose => exact fun hline => by simp at hline
  | @lineComment body rest hdepth hbody hrest =>
      have hmem := List.mem_of_getLast? hlast
      simp [Lexeme.source, hbody] at hmem
  | interpolation hclose => trivial
  | quoted hquote hclose => trivial
  | semicolon t hdepth => trivial
  | openBrace t => trivial
  | closeBrace t => trivial
  | blank t hblank => trivial
  | @char c t hquote hmark hblank hslash hhash =>
      cases hlast
      cases hblank

/-- The text is empty or its last line is complete. -/
def EndsLine (t : Text) : Prop :=
  ∀ c ∈ t.getLast?, c = '\n'

theorem EndsLine.of_append {t rest : Text} (h : EndsLine (t ++ rest)) (hrest : rest ≠ []) :
    EndsLine rest := by
  intro c hc
  exact h c (by rw [List.getLast?_append_of_ne_nil _ hrest]; exact hc)

/-- A lexeme whose line is complete is read before any text as it is read alone. -/
theorem commonFront_lexeme {x t rest : Text} {inner depth : Nat} {l : Lexeme}
    (hread : Lexeme.read depth t = .lexeme l rest) (ht : EndsLine t)
    (h : CommonFront [] x inner (l.depthAfter depth) rest) : CommonFront [] x inner depth t := by
  rw [← List.append_nil rest] at hread
  have hreads : Lexeme.Reads depth t (.lexeme l (rest ++ [])) := hread ▸ Lexeme.reads_read depth t
  obtain ⟨hsplit, hne⟩ := Lexeme.read_append hread
  rw [List.append_nil] at hsplit
  have hstops : rest = [] → l.Stops depth x.head? := by
    rintro rfl
    rw [List.append_nil] at hsplit
    have hlast := List.getLast?_eq_some_getLast hne
    refine stops_of_lineFeed hreads ?_ _
    rw [hlast, ht (l.source.getLast hne) (by rw [hsplit]; exact hlast)]
  have hcons := (h.cons_of_read hread fun hnil _ => hstops hnil).2
  rwa [← hsplit] at hcons

theorem endsLine_of_read {depth : Nat} {t rest : Text} {l : Lexeme}
    (hread : Lexeme.read depth t = .lexeme l rest) (ht : EndsLine t) : EndsLine rest := by
  by_cases hrest : rest = []
  · simp [hrest, EndsLine]
  · rw [(Lexeme.read_append hread).1] at ht
    exact ht.of_append hrest

theorem commonFront_read {x : Text} {d : Draft} {p : Position} {t : Text} {s : Segment}
    (ht : EndsLine t) (h : (read d p t).outcome = .ok s)
    (hrest : s.terminator ≠ none → EndsLine (read d p t).cursor.rest →
      ∃ inner, CommonFront [] x inner 0 (read d p t).cursor.rest) :
    ∃ inner, CommonFront [] x inner d.depth t := by
  fun_induction read d p t with
  | case1 d p t hr =>
      rw [Lexeme.eq_nil_of_read hr]
      exact ⟨d.depth, .nil⟩
  | case2 => cases h
  | case3 d p t m rest hr =>
      cases h
      obtain ⟨inner, hfront⟩ := hrest (Option.some_ne_none m) (endsLine_of_read hr ht)
      exact ⟨inner, commonFront_lexeme hr ht hfront⟩
  | case4 d p t l rest hl hr ih =>
      obtain ⟨inner, hfront⟩ := ih (endsLine_of_read hr ht) h hrest
      rw [d.depth_add p hl] at hfront
      exact ⟨inner, commonFront_lexeme hr ht hfront⟩

/-- A source that is read to its end is read alike before any other text. -/
theorem commonFront_of_reachesEnd {x : Text} {c : Cursor} (hline : EndsLine c.rest)
    (h : c.ReachesEnd) : ∃ inner, CommonFront [] x inner 0 c.rest := by
  induction c using scanInduction with
  | fault c f hf => exact absurd h (not_reachesEnd_of_error hf)
  | finish c s hs hn => exact commonFront_read hline hs fun hne => absurd hn hne
  | mark c s m hs hm ih =>
      exact commonFront_read hline hs fun _ hrest =>
        ih hrest ((reachesEnd_iff_of_mark hs hm).1 h)

theorem scans_eq_of_next_eq {c c' : Cursor} (h : c.next = c'.next) : c.scans = c'.scans := by
  cases hs : c.next.outcome with
  | error fault => rw [scans_of_error hs, scans_of_error (c := c') (h ▸ hs), h]
  | ok s =>
      cases hm : s.terminator with
      | none => rw [scans_of_end hs hm, scans_of_end (c := c') (h ▸ hs) hm, h]
      | some m => rw [scans_of_mark hs hm, scans_of_mark (c := c') (h ▸ hs) hm, h]

/-- The segments of a common front come first. Where the last of them has no text, the longer source
goes on as from a cursor behind the front. -/
theorem outcomes_of_commonFront {x : Text} {inner : Nat} {c : Cursor} {segs : List Segment}
    {last : Segment} (hfront : CommonFront [] x inner 0 c.rest)
    (hsegs : c.segments = segs ++ [last]) (hend : last.terminator = none)
    (htext : last.text = []) :
    (Cursor.mk c.position (c.rest ++ x)).scans.map Scan.outcome =
      segs.map .ok ++ (Cursor.mk (c.position.after c.rest) x).scans.map Scan.outcome := by
  have hread {c : Cursor} (hfront : CommonFront [] x inner 0 c.rest) :=
    read_front (d := .empty) hfront (.inl rfl) c.position
  simp only [List.append_nil] at hread
  induction c using scanInduction generalizing segs with
  | fault c f hf =>
      rw [segments_of_error hf] at hsegs
      cases segs <;> cases hsegs
  | finish c s hs hn =>
      rw [segments_of_end hs hn] at hsegs
      obtain ⟨rfl, hlast⟩ : segs = [] ∧ s = last := by
        cases segs with
        | nil => exact ⟨rfl, List.head_eq_of_cons_eq hsegs⟩
        | cons t segs => simp at hsegs
      subst hlast
      rcases hread hfront with ⟨s', q, behind, hmark, hx, _⟩ | ⟨d, _, hfresh, hx, hy⟩
      · rw [next, hx] at hs
        cases hs
        exact absurd hn hmark
      · -- A draft without text is the empty one, with which a call at the seam would start.
        rw [next, hx, read_of_finished rfl] at hs
        cases hs
        obtain rfl := hfresh.eq_empty htext
        have hnext : (Cursor.mk c.position (c.rest ++ x)).next =
            (Cursor.mk (c.position.after c.rest) x).next := hy
        rw [scans_eq_of_next_eq hnext]
        rfl
  | mark c s m hs hm ih =>
      rcases hread hfront with ⟨s', q, behind, hmark, hx, hy, hbehind⟩ | ⟨d, _, _, hx, _⟩
      · have hnext : c.next = ⟨.ok s', ⟨q, behind⟩⟩ := hx
        have hnext' : (Cursor.mk c.position (c.rest ++ x)).next = ⟨.ok s', ⟨q, behind ++ x⟩⟩ := hy
        obtain rfl : s' = s := by
          rw [hnext] at hs
          cases hs
          rfl
        obtain ⟨taken, htaken, hposition⟩ := read_cursor .empty c.position c.rest
        rw [hx] at htaken hposition
        rw [segments_of_mark hs hm, hnext] at hsegs
        cases segs with
        | nil =>
            obtain rfl := List.head_eq_of_cons_eq hsegs
            rw [hm] at hend
            cases hend
        | cons t segs =>
            obtain ⟨rfl, hothers⟩ := List.cons.inj hsegs
            rw [hnext] at ih
            have hrest := ih hbehind hothers
            rw [scans_of_mark (by rw [hnext']) hm, List.map_cons, hnext', hrest, htaken, hposition,
              Position.after_append]
            rfl
      · rw [next, hx, read_of_finished rfl] at hs
        cases hs
        cases hm

end Cursor

/-! ### Trees further down -/

def Declaration.down (n : Nat) (d : Declaration) : Declaration :=
  { d with position := d.position.down n }

def Variable.down (n : Nat) (v : Variable) : Variable :=
  { v with position := v.position.down n }

def ImportDirective.down (n : Nat) (d : ImportDirective) : ImportDirective :=
  { d with position := d.position.down n }

def Diagnostic.down (n : Nat) (d : Diagnostic) : Diagnostic :=
  { d with position := d.position.down n }

def Place.down (n : Nat) (place : Place) : Place :=
  { place with position := place.position.down n }

mutual

/-- The rule so many lines further down, with everything inside it. -/
def Rule.down (n : Nat) : Rule → Rule
  | .selector place header declarations children =>
      .selector (place.down n) header (declarations.map (Declaration.down n)) (allDown n children)
  | .block place b => .block (place.down n) b

def Rule.allDown (n : Nat) : List Rule → List Rule
  | [] => []
  | rule :: rules => rule.down n :: allDown n rules

end

theorem Rule.allDown_eq (n : Nat) (rules : List Rule) : allDown n rules = rules.map (down n) := by
  induction rules with
  | nil => rfl
  | cons rule rules ih => rw [allDown, ih, List.map_cons]

def OpenSelector.down (n : Nat) (o : OpenSelector) : OpenSelector :=
  { o with
    position := o.position.down n
    declarations := o.declarations.map (Declaration.down n)
    children := o.children.map (Rule.down n) }

def Pending.down (n : Nat) (p : Pending) : Pending :=
  { p with position := p.position.down n }

namespace Extraction

/-- What is found in a source that stands at a path. -/
def diagnostics (e : Extraction) (path : Path) : List Diagnostic :=
  e.events.filterMap (Workspace.diagnostic? path)

/-- The extraction of a source that another one precedes: what is open is open further down, and
what has been found stands behind what the other one holds. Which variables are declared once more
is left open, since a name may occur in both. -/
structure Follows (base : Extraction) (n : Nat) (e e' : Extraction) : Prop where
  opened : e'.opened = e.opened.map (OpenSelector.down n)
  pending : e'.pending = e.pending.map (Pending.down n)
  rules : e'.content.rules = base.content.rules ++ e.content.rules.map (Rule.down n)
  vars : e'.content.vars = base.content.vars ++ e.content.vars.map (Variable.down n)
  imports : e'.content.imports =
    base.content.imports ++ e.content.imports.map (ImportDirective.down n)
  diagnostics : ∀ path, e'.diagnostics path =
    base.diagnostics path ++ (e.diagnostics path).map (Diagnostic.down n)

/-- What a step comes to in both extractions: they go on, or they fail with the same cause. -/
inductive Agrees (base : Extraction) (n : Nat) :
    Except Failure Extraction → Except Failure Extraction → Prop
  | ok {e e' : Extraction} (h : Follows base n e e') : Agrees base n (.ok e) (.ok e')
  | error {failure failure' : Failure} (h : failure'.fault = failure.fault.down n) :
      Agrees base n (.error failure) (.error failure')

namespace Follows

variable {base : Extraction} {n : Nat} {e e' : Extraction}

theorem isEmpty_eq (h : Follows base n e e') : e'.opened.isEmpty = e.opened.isEmpty := by
  rw [h.opened, List.isEmpty_map]

theorem depth_eq (h : Follows base n e e') : e'.depth = e.depth := by
  rw [depth, depth, h.opened, List.length_map]

theorem note (h : Follows base n e e') {event event' : Event}
    (hevent : ∀ path, Workspace.diagnostic? path event' =
      (Workspace.diagnostic? path event).map (Diagnostic.down n)) :
    Follows base n (e.note event) (e'.note event') := by
  refine ⟨h.opened, h.pending, h.rules, h.vars, h.imports, fun path => ?_⟩
  have hbefore := h.diagnostics path
  unfold Extraction.diagnostics at hbefore
  simp only [Extraction.diagnostics, Extraction.note, List.filterMap_append, hbefore]
  cases hfound : Workspace.diagnostic? path event <;> simp [hevent, hfound]

theorem attach (h : Follows base n e e') (rule : Rule) :
    Follows base n (e.attach rule) (e'.attach (rule.down n)) := by
  have hnote : Follows base n (e.note (.attached rule.typeName rule.place))
      (e'.note (.attached (rule.down n).typeName (rule.down n).place)) := h.note fun _ => rfl
  unfold Extraction.attach
  dsimp only
  cases hopened : e.opened with
  | nil =>
      have hopened' : e'.opened = [] := by rw [h.opened, hopened]; rfl
      simp only [Extraction.note, hopened, hopened']
      refine ⟨rfl, h.pending, ?_, h.vars, h.imports, hnote.diagnostics⟩
      simp [h.rules]
  | cons inner outer =>
      have hopened' : e'.opened = inner.down n :: outer.map (OpenSelector.down n) := by
        rw [h.opened, hopened]; rfl
      simp only [Extraction.note, hopened, hopened']
      refine ⟨?_, h.pending, h.rules, h.vars, h.imports, hnote.diagnostics⟩
      simp [OpenSelector.down]

theorem declare (h : Follows base n e e') (clause : Clause) (p : Position) :
    Follows base n (e.declare clause p) (e'.declare clause (p.down n)) := by
  have hnote : Follows base n (e.note (.declared clause.typeName p))
      (e'.note (.declared clause.typeName (p.down n))) := h.note fun _ => rfl
  unfold Extraction.declare
  dsimp only
  cases hopened : e.opened with
  | nil =>
      have hopened' : e'.opened = [] := by rw [h.opened, hopened]; rfl
      simp only [Extraction.note, hopened, hopened']
      exact ⟨rfl, h.pending, h.rules, h.vars, h.imports, hnote.diagnostics⟩
  | cons inner outer =>
      have hopened' : e'.opened = inner.down n :: outer.map (OpenSelector.down n) := by
        rw [h.opened, hopened]; rfl
      simp only [Extraction.note, hopened, hopened']
      refine ⟨?_, h.pending, h.rules, h.vars, h.imports, hnote.diagnostics⟩
      simp [OpenSelector.down, Declaration.down]

/-- A note of a variable that is declared once more is no finding, so that it makes no difference
which of the two extractions has it. -/
theorem repeated (h : Follows base n e e') (again again' : Bool) (name : Text) (p p' : Position) :
    Follows base n (if again then e.note (.repeated name p) else e)
      (if again' then e'.note (.repeated name p') else e') := by
  have hsilent (e : Extraction) (again : Bool) (p : Position) (path : Path) :
      (if again then e.note (.repeated name p) else e).diagnostics path = e.diagnostics path := by
    cases again with
    | false => rfl
    | true => simp [Extraction.diagnostics, Extraction.note, Workspace.diagnostic?]
  refine ⟨?_, ?_, ?_, ?_, ?_, fun path => ?_⟩
  · cases again <;> cases again' <;> exact h.opened
  · cases again <;> cases again' <;> exact h.pending
  · cases again <;> cases again' <;> exact h.rules
  · cases again <;> cases again' <;> exact h.vars
  · cases again <;> cases again' <;> exact h.imports
  · rw [hsilent, hsilent, h.diagnostics]

theorem assign (h : Follows base n e e') (a : Assignment) (p : Position) :
    Follows base n (e.assign a p) (e'.assign a (p.down n)) := by
  have hnoted := h.repeated (e.content.vars.any (·.name == a.name))
    (e'.content.vars.any (·.name == a.name)) a.name p (p.down n)
  unfold Extraction.assign
  refine ⟨hnoted.opened, hnoted.pending, hnoted.rules, ?_, hnoted.imports, hnoted.diagnostics⟩
  dsimp only
  rw [hnoted.vars]
  simp [Variable.down]

theorem addImports (h : Follows base n e e') (statement : ImportStatement) (p : Position) :
    Follows base n (e.addImports statement p) (e'.addImports statement (p.down n)) := by
  have himports : Follows base n (e.addDirectives statement.targets p)
      (e'.addDirectives statement.targets (p.down n)) := by
    refine ⟨h.opened, h.pending, h.rules, h.vars, ?_, h.diagnostics⟩
    simp [addDirectives, h.imports, ImportDirective.down]
  unfold Extraction.addImports
  dsimp only
  split
  · exact himports
  · exact himports.attach (.block ⟨1, p⟩ _)

theorem statement (h : Follows base n e e') (text : Text) (p : Position) :
    Follows base n (e.statement text p) (e'.statement text (p.down n)) := by
  have hanomaly : Follows base n (e.note (.anomaly text p)) (e'.note (.anomaly text (p.down n))) :=
    h.note fun _ => rfl
  unfold Extraction.statement
  rw [h.isEmpty_eq]
  split
  · exact h
  split
  · unfold fileStatement
    cases ImportStatement.ofStatement? text with
    | some statement => exact h.addImports statement p
    | none =>
        cases Assignment.ofStatement? text with
        | some a => exact h.assign a p
        | none =>
            dsimp only
            split
            · exact h.attach (.block ⟨1, p⟩ (.raw text))
            · exact hanomaly.attach (.block ⟨1, p⟩ (.raw text))
  · unfold bodyStatement
    cases Clause.ofStatement? text with
    | some clause => exact h.declare clause p
    | none => exact hanomaly.declare (.raw text) p

theorem openBlock (h : Follows base n e e') (header : Text) (p : Position) :
    Agrees base n (e.openBlock header p) (e'.openBlock header (p.down n)) := by
  unfold Extraction.openBlock
  split
  · exact .error rfl
  · cases Header.ofText header with
    | selector text =>
        have hnote : Follows base n (e.note (.opened text ⟨e.depth, p⟩))
            (e'.note (.opened text ⟨e'.depth, p.down n⟩)) := h.note fun _ => rfl
        refine .ok ⟨?_, h.pending, h.rules, h.vars, h.imports, hnote.diagnostics⟩
        simp [Extraction.note, h.opened, OpenSelector.down]
    | mixin signature => exact .ok ⟨h.opened, rfl, h.rules, h.vars, h.imports, h.diagnostics⟩
    | function signature => exact .ok ⟨h.opened, rfl, h.rules, h.vars, h.imports, h.diagnostics⟩
    | animation name => exact .ok ⟨h.opened, rfl, h.rules, h.vars, h.imports, h.diagnostics⟩
    | other => exact .ok ⟨h.opened, rfl, h.rules, h.vars, h.imports, h.diagnostics⟩

theorem closeBlock (h : Follows base n e e') (p : Position) :
    Agrees base n (e.closeBlock p) (e'.closeBlock (p.down n)) := by
  unfold Extraction.closeBlock
  cases hopened : e.opened with
  | nil =>
      have hopened' : e'.opened = [] := by rw [h.opened, hopened]; rfl
      rw [hopened']
      exact .error rfl
  | cons inner outer =>
      have hopened' : e'.opened = inner.down n :: outer.map (OpenSelector.down n) := by
        rw [h.opened, hopened]; rfl
      rw [hopened']
      have houter : Follows base n { e with opened := outer }
          { e' with opened := outer.map (OpenSelector.down n) } :=
        ⟨rfl, h.pending, h.rules, h.vars, h.imports, h.diagnostics⟩
      have hclosed := houter.attach (.selector ⟨outer.length + 1, inner.position⟩ inner.header
        inner.declarations inner.children)
      rw [Rule.down, Rule.allDown_eq] at hclosed
      refine .ok ?_
      dsimp only [Extraction.depth]
      rw [List.length_map]
      exact hclosed

theorem complete (h : Follows base n e e') (header : Text) (p : Position) (body : Text) :
    Follows base n (e.complete header p body) (e'.complete header (p.down n) body) := by
  have hfree : Follows base n { e with pending := none } { e' with pending := none } :=
    ⟨h.opened, rfl, h.rules, h.vars, h.imports, h.diagnostics⟩
  unfold Extraction.complete
  dsimp only
  rw [h.isEmpty_eq]
  cases capturedNode (!e.opened.isEmpty) header body with
  | inl block =>
      have hattached := hfree.attach (.block ⟨e.depth, p⟩ block)
      dsimp only
      rw [hfree.depth_eq]
      exact hattached
  | inr clause => exact hfree.declare clause p

theorem step (h : Follows base n e e') (outcome : Except Fault Segment) :
    Agrees base n (e.step outcome) (e'.step (outcomeDown n outcome)) := by
  cases outcome with
  | error fault => exact .error rfl
  | ok s =>
      have hstatement := h.statement s.text s.position
      unfold Extraction.step outcomeDown
      dsimp only
      rw [h.pending]
      cases hpending : e.pending with
      | some p =>
          simp only [Option.map_some, capture, Segment.down]
          cases s.terminator with
          | none => exact .error rfl
          | some m =>
              dsimp only [Pending.down]
              cases p.capture.step s.text m with
              | done body => exact .ok (h.complete p.header p.position body)
              | more longer =>
                  exact .ok ⟨h.opened, rfl, h.rules, h.vars, h.imports, h.diagnostics⟩
      | none =>
          simp only [Option.map_none, advance, Segment.down]
          cases s.terminator with
          | none =>
              dsimp only
              cases hopened : e.opened with
              | nil =>
                  rw [h.opened, hopened]
                  exact .ok hstatement
              | cons inner outer =>
                  rw [h.opened, hopened]
                  exact .error rfl
          | some m =>
              cases m with
              | semicolon => exact .ok hstatement
              | openBrace => exact h.openBlock s.text s.position
              | closeBrace => exact hstatement.closeBlock s.terminatorPosition

end Follows

theorem Agrees.foldlM {base : Extraction} {n : Nat} {e e' : Extraction}
    (h : Follows base n e e') (outcomes : List (Except Fault Segment)) :
    Agrees base n (outcomes.foldlM step e) ((outcomes.map (outcomeDown n)).foldlM step e') := by
  induction outcomes generalizing e e' with
  | nil => exact .ok h
  | cons outcome outcomes ih =>
      rw [List.map_cons, List.foldlM_cons, List.foldlM_cons]
      have hstep := h.step outcome
      revert hstep
      generalize e.step outcome = r
      generalize e'.step (outcomeDown n outcome) = r'
      intro hstep
      cases hstep with
      | ok h => exact ih h
      | error h => exact .error h

/-- A run that ends behind an empty statement leaves the extraction as the segments before it do,
with nothing open. -/
theorem eq_of_ended {e e' : Extraction} {last : Segment} (h : e.step (.ok last) = .ok e')
    (hend : last.terminator = none) (htext : last.text = []) :
    e' = e ∧ e.pending = none ∧ e.opened = [] := by
  cases step_of_ok h with
  | captured _ hmark => rw [hend] at hmark; cases hmark
  | completed _ hmark => rw [hend] at hmark; cases hmark
  | statement _ hmark => rw [hend] at hmark; cases hmark
  | selector _ _ hmark => rw [hend] at hmark; cases hmark
  | opened _ hmark => rw [hend] at hmark; cases hmark
  | closed _ hmark => rw [hend] at hmark; cases hmark
  | ended hpending _ hopen hstates =>
      cases hstates with
      | empty => exact ⟨rfl, hpending, hopen⟩
      | imports hne => exact absurd htext hne
      | plainImports hne => exact absurd htext hne
      | var hne => exact absurd htext hne
      | raw hne => exact absurd htext hne
      | clause hne => exact absurd htext hne

theorem Steps.before_end {e e' : Extraction} {segs : List Segment} {last : Segment}
    (h : Steps e (segs ++ [last]) e') (hend : last.terminator = none) (htext : last.text = []) :
    Steps e segs e' ∧ e'.pending = none ∧ e'.opened = [] := by
  induction segs generalizing e with
  | nil =>
      cases h with
      | next hok hrest =>
          cases hrest
          obtain ⟨rfl, hfree⟩ := eq_of_ended hok hend htext
          exact ⟨.done _, hfree⟩
  | cons s segs ih =>
      cases h with
      | next hok hrest =>
          obtain ⟨hsteps, hfree⟩ := ih hrest
          exact ⟨.next hok hsteps, hfree⟩

theorem after_of_lineFeed {t : Text} (h : t.getLast? = some '\n') :
    Position.start.after t = Position.start.down (t.count '\n') := by
  obtain ⟨init, rfl⟩ := List.getLast?_eq_some_iff.1 h
  calc Position.start.after (init ++ ['\n']) = .behind (init ++ ['\n']) :=
        (Position.behind_append [] _).symm
    _ = Position.start.down ((init ++ ['\n']).count '\n') := by
        simp [Position.behind, Position.down, Position.start]

/-- A byte order mark before a text does not count. -/
theorem lines_of_start {s front : Text} (hfront : s = front ∨ s = '\ufeff' :: front)
    (hline : s.getLast? = some '\n') :
    front.getLast? = some '\n' ∧ front.count '\n' = s.count '\n' := by
  rcases hfront with rfl | rfl
  · exact ⟨hline, rfl⟩
  · cases front with
    | nil => cases hline
    | cons c front => exact ⟨by simpa using hline, by simp⟩

theorem agrees_append {s₁ s₂ : Text} {e₁ : Extraction} (hline : s₁.getLast? = some '\n')
    (hrun : run s₁ = .ok e₁) (hlast : ∀ s ∈ (Cursor.start s₁).segments.getLast?, s.text = [])
    (hmark : s₂.head? ≠ some '\ufeff') :
    Agrees e₁ (s₁.count '\n') (run s₂) (run (s₁ ++ s₂)) := by
  obtain ⟨hreaches, hsteps⟩ := run_ok_iff.1 hrun
  obtain ⟨segs, last, hsegs, hend, _⟩ := Cursor.segments_of_reachesEnd hreaches
  have htext : last.text = [] := hlast last (by simp [hsegs])
  -- The last segment of the first source adds nothing, so that the second one goes on from there.
  rw [hsegs] at hsteps
  obtain ⟨hbefore, hpending, hopened⟩ := hsteps.before_end hend htext
  have hfollows : Follows e₁ (s₁.count '\n') start e₁ := by
    refine ⟨hopened, hpending, ?_, ?_, ?_, fun path => ?_⟩ <;> simp [start, diagnostics]
  obtain ⟨front, hfront, hstart⟩ := Cursor.start_append s₁
  obtain ⟨hfeed, hcount⟩ := lines_of_start hfront hline
  have hstart₁ : Cursor.start s₁ = ⟨.start, front⟩ := by simpa using hstart [] (by simp)
  have hlines : Cursor.EndsLine front := by
    intro c hc
    rw [hfeed] at hc
    cases hc
    rfl
  rw [hstart₁] at hreaches hsegs
  -- Both sources have the first one in common, and behind it the second one stands further down.
  obtain ⟨inner, hcommon⟩ := Cursor.commonFront_of_reachesEnd (x := s₂) hlines hreaches
  have houtcomes := Cursor.outcomes_of_commonFront hcommon hsegs hend htext
  have hdown := Cursor.outcomes_down (s₁.count '\n') (Cursor.start s₂)
  have hagrees := Agrees.foldlM hfollows ((Cursor.start s₂).scans.map Scan.outcome)
  rw [Cursor.start_of_head? hmark] at hdown hagrees
  rw [← hdown] at hagrees
  unfold run
  rw [hstart s₂ hmark, houtcomes, after_of_lineFeed hfeed, hcount, List.foldlM_append,
    foldlM_ok_iff.2 hbefore, Cursor.start_of_head? hmark]
  exact hagrees

/-- Extraction is compositional. Behind a source whose last line is complete and which ends outside
of any statement, another source adds what it holds alone, with its lines counted on, and fails as
it fails alone. -/
theorem run_append (s₁ s₂ : Text) (e₁ : Extraction) (hline : s₁.getLast? = some '\n')
    (hrun : run s₁ = .ok e₁) (hlast : ∀ s ∈ (Cursor.start s₁).segments.getLast?, s.text = [])
    (hmark : s₂.head? ≠ some '\ufeff') :
    (∀ e₂, run s₂ = .ok e₂ →
      ∃ e, run (s₁ ++ s₂) = .ok e ∧
        e.content.rules =
          e₁.content.rules ++ e₂.content.rules.map (Rule.down (s₁.count '\n')) ∧
        e.content.vars = e₁.content.vars ++ e₂.content.vars.map (Variable.down (s₁.count '\n')) ∧
        e.content.imports =
          e₁.content.imports ++ e₂.content.imports.map (ImportDirective.down (s₁.count '\n')) ∧
        ∀ path, e.diagnostics path =
          e₁.diagnostics path ++ (e₂.diagnostics path).map (Diagnostic.down (s₁.count '\n'))) ∧
    ∀ failure, run s₂ = .error failure →
      ∃ failure', run (s₁ ++ s₂) = .error failure' ∧
        failure'.fault.cause = failure.fault.cause ∧
        failure'.fault.position = failure.fault.position.down (s₁.count '\n') := by
  have hagrees := agrees_append hline hrun hlast hmark
  constructor
  · intro e₂ hrun₂
    rw [hrun₂] at hagrees
    generalize run (s₁ ++ s₂) = r at hagrees ⊢
    cases hagrees with
    | @ok _ e h => exact ⟨e, rfl, h.rules, h.vars, h.imports, h.diagnostics⟩
  · intro failure hrun₂
    rw [hrun₂] at hagrees
    generalize run (s₁ ++ s₂) = r at hagrees ⊢
    cases hagrees with
    | @error _ failure' h => exact ⟨failure', rfl, by rw [h]; rfl, by rw [h]; rfl⟩

/-- A source that ends with comments, behind a byte order mark. -/
def commented : Text :=
  "\ufeff$a: 1;\n/* b */ // c\n".toList

theorem run_append_commented :
    ∃ e₁ e₂ e failure, run commented = .ok e₁ ∧
      run "$a: 2;\n@media d \x7b e \x7d".toList = .ok e₂ ∧
      run (commented ++ "$a: 2;\n@media d \x7b e \x7d".toList) = .ok e ∧
      e.content.vars = e₁.content.vars ++ e₂.content.vars.map (Variable.down 2) ∧
      e.content.rules = e₁.content.rules ++ e₂.content.rules.map (Rule.down 2) ∧
      e₂.content.rules.map Rule.place = [⟨1, ⟨2, 0⟩⟩] ∧
      run (commented ++ " \x7d".toList) = .error failure ∧
      failure.fault.cause = .unexpectedClose ∧ failure.fault.position = ⟨3, 1⟩ := by
  have hline : commented.getLast? = some '\n' := by decide
  have hlast : ∀ s ∈ (Cursor.start commented).segments.getLast?, s.text = [] := by decide +kernel
  have hplaces : (run "$a: 2;\n@media d \x7b e \x7d".toList).toOption.map
      (fun e => e.content.rules.map Rule.place) = some [⟨1, ⟨2, 0⟩⟩] := by
    decide +kernel
  have hstray : (run " \x7d".toList).map (fun _ => ()) =
      .error ⟨⟨⟨1, 1⟩, .unexpectedClose⟩, []⟩ := by
    decide +kernel
  have hfirst : (run commented).toOption.map (fun _ => ()) = some () := by decide +kernel
  obtain ⟨e₁, hrun₁, _⟩ := exists_ok_of_toOption_map hfirst
  obtain ⟨e₂, hrun₂, hplaces⟩ := exists_ok_of_toOption_map hplaces
  obtain ⟨e, hrun, hrules, hvars, _⟩ :=
    (run_append commented _ e₁ hline hrun₁ hlast (by decide)).1 e₂ hrun₂
  obtain ⟨failure, hfailure, hcause, hposition⟩ :=
    (run_append commented _ e₁ hline hrun₁ hlast (by decide)).2 _ (eq_error_of_map hstray)
  exact ⟨e₁, e₂, e, failure, hrun₁, hrun₂, hrun, hvars, hrules, hplaces, hfailure, hcause,
    hposition⟩

end Extraction

end Stylesheet
