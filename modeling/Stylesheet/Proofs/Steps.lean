import Stylesheet.Extraction
import Stylesheet.Proofs.Scanning

/-! One step of an extraction, and a whole run of them.

`Step` lists what reading one segment can do to an extraction, each case with all its conditions,
and `Steps` reads one segment after the other. A run is successful exactly if the source is read to
its end and its segments can be read in this way (`run_ok_iff`). What holds along a run is proved
from these relations; the functions behind them are not opened again. -/

namespace Stylesheet

/-- A header that announces no selector: the block behind it is kept as text. -/
def Header.IsOpaque (text : Text) : Prop :=
  ∀ header, Header.ofText text ≠ .selector header

theorem Header.isOpaque_nil : Header.IsOpaque [] := by
  intro header h
  have hother : Header.ofText [] = .other := rfl
  rw [hother] at h
  cases h

/-- A node of the tree of one file, without what is inside it. -/
inductive Node where
  | selector (header : Text)
  | block (b : Block)
  | clause (c : Clause)
  | var (name : Text) (value : Value) (flags : List Flag)
  | directive (target : Text)
deriving DecidableEq, Repr

/-- The node that a captured block becomes, inside a selector or not. -/
def Node.captured (nested : Bool) (header body : Text) : Node :=
  (capturedNode nested header body).elim .block .clause

theorem Clause.eq_inclusion_of_inclusion? {t : Text} {content : Option Text} {c : Clause}
    (h : Clause.inclusion? t content = some c) :
    ∃ name arguments, c = .inclusion name arguments content := by
  unfold Clause.inclusion? at h
  dsimp only at h
  split at h
  · cases h
  · cases h
    exact ⟨_, _, rfl⟩

/-- A captured block becomes a clause only inside a selector, and then it is the use of a mixin or a
mixin. -/
theorem capturedNode_inr {nested : Bool} {header body : Text} {c : Clause}
    (h : capturedNode nested header body = .inr c) :
    nested = true ∧ ((∃ name arguments content, c = .inclusion name arguments content) ∨
      ∃ signature, c = .mixin signature body) := by
  unfold capturedNode at h
  cases hdirective : Text.directive? "@include".toList header with
  | some rest =>
      rw [hdirective] at h
      dsimp only at h
      cases nested with
      | false => cases h
      | true =>
          simp only [if_true] at h
          cases hclause : Clause.inclusion? rest (some body) with
          | none =>
              rw [hclause] at h
              cases h
          | some clause =>
              rw [hclause] at h
              cases h
              obtain ⟨name, arguments, rfl⟩ := Clause.eq_inclusion_of_inclusion? hclause
              exact ⟨rfl, .inl ⟨name, arguments, some body, rfl⟩⟩
  | none =>
      rw [hdirective] at h
      cases hheader : Header.ofText header with
      | mixin signature =>
          rw [hheader] at h
          cases nested with
          | false => cases h
          | true =>
              cases h
              exact ⟨rfl, .inr ⟨signature, rfl⟩⟩
      | animation name =>
          rw [hheader] at h
          cases h
      | function signature =>
          rw [hheader] at h
          cases h
      | selector text =>
          rw [hheader] at h
          cases h
      | other =>
          rw [hheader] at h
          cases h

namespace Extraction

/-! ### Additions -/

/-- One more node at a position, in the innermost open selector or in the file. What is recorded for
the log is left open. -/
inductive Adds (e : Extraction) (p : Position) : Node → Extraction → Prop
  | block (events : List Event) (b : Block) :
      Adds e p (.block b) ({ e with events := events }.attach (.block ⟨e.depth, p⟩ b))
  | clause (events : List Event) (c : Clause) (hopen : e.opened ≠ []) :
      Adds e p (.clause c) ({ e with events := events }.declare c p)
  | var (events : List Event) (name : Text) (value : Value) (flags : List Flag)
      (hopen : e.opened = []) :
      Adds e p (.var name value flags)
        { e with
          events := events
          content := { e.content with vars := e.content.vars ++ [⟨name, value, flags, p⟩] } }

def addDirectives (e : Extraction) (targets : List Text) (p : Position) : Extraction :=
  { e with
    content :=
      { e.content with imports := e.content.imports ++ targets.map (ImportDirective.mk · p) } }

/-- The rule that holds the pieces of an import statement which name no target. -/
def plainImports (pieces : List Text) : Block :=
  .raw ("@import ".toList ++ Text.join ", ".toList pieces)

/-- What a statement can do. -/
inductive States (e : Extraction) (text : Text) (p : Position) : Extraction → Prop
  | empty (htext : text = []) : States e text p e
  | imports {statement : ImportStatement} (htext : text ≠ []) (hopen : e.opened = [])
      (hstatement : ImportStatement.ofStatement? text = some statement)
      (hplain : statement.plain = []) :
      States e text p (e.addDirectives statement.targets p)
  | plainImports {statement : ImportStatement} {e' : Extraction} (htext : text ≠ [])
      (hopen : e.opened = []) (hstatement : ImportStatement.ofStatement? text = some statement)
      (hplain : statement.plain ≠ [])
      (hadds : (e.addDirectives statement.targets p).Adds p
        (.block (plainImports statement.plain)) e') :
      States e text p e'
  | var {a : Assignment} {e' : Extraction} (htext : text ≠ []) (hopen : e.opened = [])
      (hstatement : ImportStatement.ofStatement? text = none)
      (hvar : Assignment.ofStatement? text = some a)
      (hadds : e.Adds p (.var a.name (.classify a.value) a.flags) e') : States e text p e'
  | raw {e' : Extraction} (htext : text ≠ []) (hopen : e.opened = [])
      (hstatement : ImportStatement.ofStatement? text = none)
      (hvar : Assignment.ofStatement? text = none) (hadds : e.Adds p (.block (.raw text)) e') :
      States e text p e'
  | clause {e' : Extraction} (htext : text ≠ []) (hopen : e.opened ≠ [])
      (hadds : e.Adds p (.clause ((Clause.ofStatement? text).getD (.raw text))) e') :
      States e text p e'

theorem states_statement (e : Extraction) (text : Text) (p : Position) :
    e.States text p (e.statement text p) := by
  unfold statement
  by_cases htext : text = []
  · simp only [htext, List.isEmpty_nil, if_true]
    exact .empty rfl
  rw [if_neg (by simpa using htext)]
  by_cases hopen : e.opened = []
  · have hdepth : e.depth = 1 := by simp [depth, hopen]
    rw [if_pos (by simpa using hopen)]
    unfold fileStatement
    cases hstatement : ImportStatement.ofStatement? text with
    | some statement =>
        unfold addImports
        by_cases hplain : statement.plain = []
        · simp only [hplain, List.isEmpty_nil, if_true]
          exact .imports htext hopen hstatement hplain
        · simp only [List.isEmpty_iff, hplain, if_false]
          refine .plainImports htext hopen hstatement hplain ?_
          have hadds := Adds.block (e := e.addDirectives statement.targets p) (p := p) e.events
            (plainImports statement.plain)
          rwa [show (e.addDirectives statement.targets p).depth = 1 from hdepth] at hadds
    | none =>
        cases hvar : Assignment.ofStatement? text with
        | some a =>
            refine .var htext hopen hstatement hvar ?_
            dsimp only [assign]
            split
            · exact .var _ _ _ _ hopen
            · exact .var e.events _ _ _ hopen
        | none =>
            refine .raw htext hopen hstatement hvar ?_
            rw [← hdepth]
            dsimp only
            split
            · exact .block e.events _
            · exact .block _ _
  · rw [if_neg (by simpa using hopen)]
    refine .clause htext hopen ?_
    unfold bodyStatement
    cases Clause.ofStatement? text with
    | some c => exact .clause e.events c hopen
    | none => exact .clause _ _ hopen

/-- The selectors that are open by header and position, innermost first. -/
def headers (e : Extraction) : List (Header × Position) :=
  e.opened.map fun o => (.selector o.header, o.position)

@[simp]
theorem headers_attach (e : Extraction) (rule : Rule) : (e.attach rule).headers = e.headers := by
  unfold attach headers note
  cases e.opened <;> rfl

@[simp]
theorem pending_attach (e : Extraction) (rule : Rule) : (e.attach rule).pending = e.pending := by
  unfold attach note
  cases e.opened <;> rfl

@[simp]
theorem vars_attach (e : Extraction) (rule : Rule) :
    (e.attach rule).content.vars = e.content.vars := by
  unfold attach note
  cases e.opened <;> rfl

@[simp]
theorem imports_attach (e : Extraction) (rule : Rule) :
    (e.attach rule).content.imports = e.content.imports := by
  unfold attach note
  cases e.opened <;> rfl

theorem Adds.headers_eq {e e' : Extraction} {p : Position} {node : Node} (h : e.Adds p node e') :
    e'.headers = e.headers := by
  cases h with
  | block events b => exact headers_attach _ _
  | clause events c hopen =>
      unfold declare headers note
      cases e.opened <;> rfl
  | var events name value flags hopen => rfl

theorem Adds.pending_eq {e e' : Extraction} {p : Position} {node : Node} (h : e.Adds p node e') :
    e'.pending = e.pending := by
  cases h with
  | block events b => exact pending_attach _ _
  | clause events c hopen =>
      unfold declare note
      cases e.opened <;> rfl
  | var events name value flags hopen => rfl

theorem States.headers_eq {e e' : Extraction} {text : Text} {p : Position}
    (h : e.States text p e') : e'.headers = e.headers := by
  cases h with
  | empty => rfl
  | imports => rfl
  | plainImports _ _ _ _ hadds => exact hadds.headers_eq
  | var _ _ _ _ hadds => exact hadds.headers_eq
  | raw _ _ _ _ hadds => exact hadds.headers_eq
  | clause _ _ hadds => exact hadds.headers_eq

theorem States.pending_eq {e e' : Extraction} {text : Text} {p : Position}
    (h : e.States text p e') : e'.pending = e.pending := by
  cases h with
  | empty => rfl
  | imports => rfl
  | plainImports _ _ _ _ hadds => exact hadds.pending_eq
  | var _ _ _ _ hadds => exact hadds.pending_eq
  | raw _ _ _ _ hadds => exact hadds.pending_eq
  | clause _ _ hadds => exact hadds.pending_eq

theorem opened_eq_nil_iff {e e' : Extraction} (h : e'.headers = e.headers) :
    e'.opened = [] ↔ e.opened = [] := by
  have hnil : ∀ e : Extraction, e.opened = [] ↔ e.headers = [] := fun e => by simp [headers]
  rw [hnil, hnil, h]

/-! ### Steps -/

/-- What one more segment can do. -/
inductive Step (e : Extraction) (s : Segment) : Extraction → Prop
  | captured {p : Pending} {m : Mark} {longer : Capture} (hpending : e.pending = some p)
      (hmark : s.terminator = some m) (hmore : p.capture.step s.text m = .more longer) :
      Step e s { e with pending := some { p with capture := longer } }
  | completed {p : Pending} {m : Mark} {body : Text} {e' : Extraction}
      (hpending : e.pending = some p) (hmark : s.terminator = some m)
      (hdone : p.capture.step s.text m = .done body)
      (hadds : { e with pending := none }.Adds p.position
        (.captured (!e.opened.isEmpty) p.header body) e') :
      Step e s e'
  | statement {e' : Extraction} (hpending : e.pending = none)
      (hmark : s.terminator = some .semicolon) (hstates : e.States s.text s.position e') :
      Step e s e'
  | selector {header : Text} (events : List Event) (hpending : e.pending = none)
      (hmark : s.terminator = some .openBrace)
      (hheader : Header.ofText s.text = .selector header) :
      Step e s { e with opened := ⟨header, s.position, [], []⟩ :: e.opened, events := events }
  | opened (hpending : e.pending = none) (hmark : s.terminator = some .openBrace)
      (htext : s.text ≠ []) (hheader : Header.IsOpaque s.text) :
      Step e s { e with pending := some ⟨s.text, s.position, .empty⟩ }
  /-- The innermost selector closes, behind a last statement in it. -/
  | closed {e' : Extraction} {inner : OpenSelector} {outer : List OpenSelector}
      (hpending : e.pending = none) (hmark : s.terminator = some .closeBrace)
      (hstates : e.States s.text s.position e') (hopened : e'.opened = inner :: outer) :
      Step e s ({ e' with opened := outer }.attach
        (.selector ⟨outer.length + 1, inner.position⟩ inner.header inner.declarations
          inner.children))
  | ended {e' : Extraction} (hpending : e.pending = none) (hmark : s.terminator = none)
      (hopen : e.opened = []) (hstates : e.States s.text s.position e') : Step e s e'

theorem adds_complete (e : Extraction) (header : Text) (p : Position) (body : Text) :
    { e with pending := none }.Adds p (.captured (!e.opened.isEmpty) header body)
      (e.complete header p body) := by
  unfold complete Node.captured
  dsimp only
  cases hnode : capturedNode (!e.opened.isEmpty) header body with
  | inl b => exact .block e.events b
  | inr c =>
      refine .clause e.events c fun hnil => ?_
      dsimp only at hnil
      have hnested := (capturedNode_inr hnode).1
      rw [hnil] at hnested
      cases hnested

theorem openBlock_of_isOpaque {text : Text} (htext : text ≠ []) (hheader : Header.IsOpaque text)
    (e : Extraction) (p : Position) :
    e.openBlock text p = .ok { e with pending := some ⟨text, p, .empty⟩ } := by
  unfold openBlock
  rw [if_neg (by simpa using htext)]
  split
  · next header h => exact absurd h (hheader header)
  · rfl

theorem step_of_ok {e e' : Extraction} {s : Segment} (h : e.step (.ok s) = .ok e') :
    e.Step s e' := by
  unfold step at h
  dsimp only at h
  cases hpending : e.pending with
  | some p =>
      simp only [hpending, capture] at h
      cases hmark : s.terminator with
      | none =>
          rw [hmark] at h
          cases h
      | some m =>
          simp only [hmark] at h
          cases hstep : p.capture.step s.text m with
          | done body =>
              rw [hstep] at h
              cases h
              exact .completed hpending hmark hstep (adds_complete e p.header p.position body)
          | more longer =>
              rw [hstep] at h
              cases h
              exact .captured hpending hmark hstep
  | none =>
      have hstates := states_statement e s.text s.position
      simp only [hpending, advance] at h
      cases hmark : s.terminator with
      | none =>
          simp only [hmark] at h
          cases hopen : e.opened with
          | nil =>
              rw [hopen] at h
              cases h
              exact .ended hpending hmark hopen hstates
          | cons inner outer =>
              rw [hopen] at h
              cases h
      | some m =>
          rw [hmark] at h
          cases m with
          | semicolon =>
              cases h
              exact .statement hpending hmark hstates
          | openBrace =>
              by_cases htext : s.text = []
              · simp only [openBlock, htext, List.isEmpty_nil, if_true] at h
                cases h
              by_cases hheader : Header.IsOpaque s.text
              · dsimp only at h
                rw [openBlock_of_isOpaque htext hheader] at h
                cases h
                exact .opened hpending hmark htext hheader
              · obtain ⟨header, hheader⟩ : ∃ header, Header.ofText s.text = .selector header := by
                  simpa [Header.IsOpaque] using hheader
                simp only [openBlock, List.isEmpty_iff, htext, hheader, if_false] at h
                cases h
                exact .selector _ hpending hmark hheader
          | closeBrace =>
              simp only [closeBlock] at h
              cases hopened : (e.statement s.text s.position).opened with
              | nil =>
                  rw [hopened] at h
                  cases h
              | cons inner outer =>
                  rw [hopened] at h
                  cases h
                  exact .closed hpending hmark hstates hopened

/-- Nothing stands against reading a segment: the source ends outside all blocks, a block opens
behind a header and a selector closes that is open. -/
structure Admits (e : Extraction) (s : Segment) : Prop where
  ends : s.terminator = none → e.pending = none ∧ e.opened = []
  opens : s.terminator = some .openBrace → e.pending = none → s.text ≠ []
  closes : s.terminator = some .closeBrace → e.pending = none → e.opened ≠ []

/-- A step succeeds exactly if nothing stands against it. -/
theorem step_isOk_iff {e : Extraction} {s : Segment} :
    (∃ e', e.step (.ok s) = .ok e') ↔ e.Admits s := by
  constructor
  · rintro ⟨e', h⟩
    cases step_of_ok h with
    | captured hpending hmark => exact ⟨by simp [hmark], by simp [hpending], by simp [hpending]⟩
    | completed hpending hmark => exact ⟨by simp [hmark], by simp [hpending], by simp [hpending]⟩
    | statement _ hmark => exact ⟨by simp [hmark], by simp [hmark], by simp [hmark]⟩
    | selector _ _ hmark hheader =>
        refine ⟨by simp [hmark], fun _ _ htext => ?_, by simp [hmark]⟩
        rw [htext] at hheader
        exact Header.isOpaque_nil _ hheader
    | opened _ hmark htext => exact ⟨by simp [hmark], fun _ _ => htext, by simp [hmark]⟩
    | closed _ hmark hstates hopened =>
        refine ⟨by simp [hmark], by simp [hmark], fun _ _ hnil => ?_⟩
        rw [(opened_eq_nil_iff hstates.headers_eq).2 hnil] at hopened
        cases hopened
    | ended hpending hmark hopen =>
        exact ⟨fun _ => ⟨hpending, hopen⟩, by simp [hmark], by simp [hmark]⟩
  · intro hadmits
    unfold step
    dsimp only
    cases hpending : e.pending with
    | some p =>
        cases hmark : s.terminator with
        | none =>
            have hnone := (hadmits.ends hmark).1
            rw [hpending] at hnone
            cases hnone
        | some m =>
            simp only [capture, hmark]
            cases p.capture.step s.text m <;> exact ⟨_, rfl⟩
    | none =>
        unfold advance
        cases hmark : s.terminator with
        | none =>
            rw [(hadmits.ends hmark).2]
            exact ⟨_, rfl⟩
        | some m =>
            cases m with
            | semicolon => exact ⟨_, rfl⟩
            | openBrace =>
                simp only [openBlock, List.isEmpty_iff, hadmits.opens hmark hpending, if_false]
                cases Header.ofText s.text <;> exact ⟨_, rfl⟩
            | closeBrace =>
                simp only [closeBlock]
                have hopened := mt (opened_eq_nil_iff
                  (states_statement e s.text s.position).headers_eq).1
                  (hadmits.closes hmark hpending)
                cases ho : (e.statement s.text s.position).opened with
                | nil => exact absurd ho hopened
                | cons inner outer => exact ⟨_, rfl⟩

/-! ### Runs -/

/-- The segments of a list read one after the other. -/
inductive Steps : Extraction → List Segment → Extraction → Prop
  | done (e : Extraction) : Steps e [] e
  | next {e e' e'' : Extraction} {s : Segment} {segs : List Segment}
      (hok : e.step (.ok s) = .ok e') (hrest : Steps e' segs e'') : Steps e (s :: segs) e''

theorem foldlM_ok_iff {e e' : Extraction} {segs : List Segment} :
    (segs.map Except.ok).foldlM step e = .ok e' ↔ Steps e segs e' := by
  induction segs generalizing e with
  | nil =>
      constructor
      · intro h
        cases h
        exact .done _
      · intro h
        cases h
        rfl
  | cons s segs ih =>
      rw [List.map_cons, List.foldlM_cons]
      cases hstep : e.step (.ok s) with
      | error failure =>
          constructor
          · intro h
            cases h
          · intro h
            cases h with
            | next hok _ =>
                rw [hstep] at hok
                cases hok
      | ok e₁ =>
          constructor
          · intro h
            exact .next hstep (ih.1 h)
          · intro h
            cases h with
            | next hok hrest =>
                rw [hstep] at hok
                cases hok
                exact ih.2 hrest

theorem run_of_not_reachesEnd {source : Text} (h : ¬(Cursor.start source).ReachesEnd) :
    ∃ failure, run source = .error failure := by
  obtain ⟨fault, houtcomes⟩ := Cursor.outcomes_of_not_reachesEnd h
  unfold run
  rw [houtcomes, List.foldlM_append]
  cases ((Cursor.start source).segments.map Except.ok).foldlM step start with
  | error failure => exact ⟨failure, rfl⟩
  | ok e => exact ⟨_, rfl⟩

/-- A run is successful exactly if the source is read to its end and all its segments can be read
one after the other. -/
theorem run_ok_iff {source : Text} {e : Extraction} :
    run source = .ok e ↔
      (Cursor.start source).ReachesEnd ∧ Steps start (Cursor.start source).segments e := by
  constructor
  · intro h
    have hend : (Cursor.start source).ReachesEnd := by
      by_contra hnot
      obtain ⟨failure, hfail⟩ := run_of_not_reachesEnd hnot
      rw [h] at hfail
      cases hfail
    refine ⟨hend, foldlM_ok_iff.1 ?_⟩
    rw [← Cursor.outcomes_of_reachesEnd hend]
    exact h
  · rintro ⟨hend, hsteps⟩
    unfold run
    rw [Cursor.outcomes_of_reachesEnd hend]
    exact foldlM_ok_iff.2 hsteps

end Extraction

end Stylesheet
