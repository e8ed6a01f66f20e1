import Mathlib.Data.List.Nodup
import Stylesheet.Proofs.Nodes
import Stylesheet.Proofs.Sources

/-! Anomalies and the nodes they are about.

A statement of no known shape is reported where it is read, while its node goes to the innermost
open selector and comes into the tree only when that selector closes. One segment reports exactly the
anomalies among the nodes it yields (`Extraction.anomalies_step`), so what a source reports is a
permutation of the anomalies among its nodes, in the order of their positions. -/

namespace Stylesheet

/-- A statement that is reported. -/
structure Anomaly where
  text : Text
  position : Position
deriving DecidableEq, Repr

def Anomaly.diagnostic (path : Path) (a : Anomaly) : Diagnostic :=
  .anomaly path a.position a.text

def Event.anomaly? : Event → Option Anomaly
  | .anomaly text position => some ⟨text, position⟩
  | _ => none

/-- The anomaly that a node is: a declaration that is kept as text, or a rule outside all selectors
that is kept as text, stands where a plain statement does and does not start with an at sign. -/
def Placed.anomaly? (plain : Position → Bool) (n : Placed) : Option Anomaly :=
  match n.node with
  | .clause (.raw t) => some ⟨t, n.position⟩
  | .block (.raw t) =>
      if n.parent = none ∧ plain n.position ∧ t.head? ≠ some '@' then some ⟨t, n.position⟩ else none
  | _ => none

theorem Clause.ofStatement?_ne_raw (text t : Text) : Clause.ofStatement? text ≠ some (.raw t) := by
  intro h
  unfold ofStatement? at h
  dsimp only at h
  cases hinclude : Text.directive? "@include".toList text.trim with
  | some rest =>
      rw [hinclude] at h
      obtain ⟨name, arguments, heq⟩ := eq_inclusion_of_inclusion? h
      cases heq
  | none =>
      rw [hinclude] at h
      cases hextend : Text.directive? "@extend".toList text.trim with
      | some rest =>
          rw [hextend] at h
          unfold extension? at h
          dsimp only at h
          split at h <;> cases h
      | none =>
          rw [hextend] at h
          dsimp only at h
          split at h
          · cases h
          · unfold property? at h
            split at h
            · split at h <;> cases h
            · cases h

namespace Extraction

/-- The statements reported so far. -/
def anomalies (e : Extraction) : List Anomaly :=
  e.events.filterMap Event.anomaly?

variable {e e' : Extraction} {text : Text} {p : Position} {plain : Position → Bool}

@[simp]
theorem anomalies_note (e : Extraction) (event : Event) :
    (e.note event).anomalies = e.anomalies ++ event.anomaly?.toList := by
  simp only [anomalies, note, List.filterMap_append, List.filterMap_cons]
  cases event.anomaly? <;> rfl

/-- Only what is noted counts: what is done to the rest of an extraction reports nothing. -/
theorem anomalies_of_note (event : Event) (hevents : e'.events = (e.note event).events)
    (hsilent : event.anomaly? = none) : e'.anomalies = e.anomalies := by
  have hnote := e.anomalies_note event
  rw [hsilent] at hnote
  unfold anomalies at hnote ⊢
  rw [hevents, hnote]
  exact List.append_nil _

@[simp]
theorem anomalies_attach (e : Extraction) (rule : Rule) :
    (e.attach rule).anomalies = e.anomalies := by
  apply anomalies_of_note (.attached rule.typeName rule.place) _ rfl
  unfold attach note
  cases e.opened <;> rfl

@[simp]
theorem anomalies_declare (e : Extraction) (clause : Clause) (p : Position) :
    (e.declare clause p).anomalies = e.anomalies := by
  apply anomalies_of_note (.declared clause.typeName p) _ rfl
  unfold declare note
  cases e.opened <;> rfl

theorem anomalies_assign (e : Extraction) (a : Assignment) (p : Position) :
    (e.assign a p).anomalies = e.anomalies := by
  unfold assign
  by_cases hagain : e.content.vars.any (·.name == a.name)
  · simp only [hagain, if_true]
    exact anomalies_of_note (.repeated a.name p) rfl rfl
  · simp only [hagain]
    rfl

theorem anomalies_addImports (e : Extraction) (statement : ImportStatement) (p : Position) :
    (e.addImports statement p).anomalies = e.anomalies := by
  unfold addImports
  by_cases hplain : statement.plain.isEmpty
  · simp only [hplain, if_true]
    rfl
  · simp only [hplain]
    exact anomalies_attach _ _

theorem anomalies_openBlock (h : e.openBlock text p = .ok e') : e'.anomalies = e.anomalies := by
  unfold openBlock at h
  split at h
  · cases h
  · split at h
    · cases h
      exact anomalies_of_note (.opened _ ⟨e.depth, p⟩) rfl rfl
    · cases h
      rfl

theorem anomalies_closeBlock (h : e.closeBlock p = .ok e') : e'.anomalies = e.anomalies := by
  unfold closeBlock at h
  split at h
  · cases h
  · cases h
    exact anomalies_attach _ _

theorem anomalies_capture {pending : Pending} {s : Segment} (h : e.capture pending s = .ok e') :
    e'.anomalies = e.anomalies := by
  unfold capture at h
  split at h
  · cases h
  · split at h
    · cases h
      unfold complete
      dsimp only
      split
      · exact anomalies_attach _ _
      · exact anomalies_declare _ _ _
    · cases h
      rfl

/-- A statement reports the anomalies among its nodes: there is none, or it is the statement. -/
theorem anomalies_statement {group : List Placed}
    (hgroup : StatementYields text p e.parent group)
    (hplain : plain p = (ImportStatement.ofStatement? text).isNone) :
    (e.statement text p).anomalies = e.anomalies ++ group.filterMap (Placed.anomaly? plain) ∧
      List.Sublist (group.filterMap (Placed.anomaly? plain)) [⟨text, p⟩] := by
  have hopen : e.parent = none → e.opened = [] := by
    intro hnone
    simpa [parent, OpenSelector.parent] using hnone
  generalize hparent : e.parent = parent at hgroup
  unfold statement
  cases hgroup with
  | empty _ htext => simp [htext]
  | clause outer htext =>
      have hinside : e.opened ≠ [] := by
        intro hnil
        simp [Extraction.parent, OpenSelector.parent, hnil] at hparent
      rw [if_neg (by simpa using htext), if_neg (by simpa using hinside)]
      unfold bodyStatement
      cases hclause : Clause.ofStatement? text with
      | none => simp [Placed.anomaly?, Event.anomaly?]
      | some clause =>
          have hsilent : Placed.anomaly? plain ⟨some outer, p, .clause clause⟩ = none := by
            cases clause with
            | raw t => exact absurd hclause (Clause.ofStatement?_ne_raw text t)
            | property => rfl
            | inclusion => rfl
            | extension => rfl
            | mixin => rfl
          simp [hsilent]
  | @imports statement htext hstatement =>
      rw [if_neg (by simpa using htext), if_pos (by simpa using hopen hparent)]
      rw [hstatement] at hplain
      have hdirectives : (statement.targets.map
          (fun target => Placed.mk none p (.directive target))).filterMap
            (Placed.anomaly? plain) = [] := by
        simp [List.filterMap_map, Function.comp_def, Placed.anomaly?]
      have hpieces : (if statement.plain = [] then []
          else [⟨none, p, .block (plainImports statement.plain)⟩]).filterMap
            (Placed.anomaly? plain) = [] := by
        split
        · rfl
        · simp [Placed.anomaly?, plainImports, hplain]
      simp [fileStatement, hstatement, anomalies_addImports, hdirectives, hpieces]
  | var htext hstatement hvar =>
      rw [if_neg (by simpa using htext), if_pos (by simpa using hopen hparent)]
      simp [fileStatement, hstatement, hvar, anomalies_assign, Placed.anomaly?]
  | raw htext hstatement hvar =>
      rw [if_neg (by simpa using htext), if_pos (by simpa using hopen hparent)]
      rw [hstatement] at hplain
      by_cases hat : text.head? = some '@'
      · simp [fileStatement, hstatement, hvar, hat, Placed.anomaly?]
      · simp [fileStatement, hstatement, hvar, hat, hplain, Placed.anomaly?, Event.anomaly?]

/-- A block is no anomaly, though it may be kept as text. -/
theorem anomaly?_of_blockYields {header : Text} {after : List Segment} {nested : Bool} {node : Node}
    (h : BlockYields header after nested node) (hplain : plain p = false)
    (parent : Option Position) : Placed.anomaly? plain ⟨parent, p, node⟩ = none := by
  cases h with
  | selector => rfl
  | @rule body b => cases b <;> simp [Placed.anomaly?, hplain]
  | inclusion => rfl
  | mixin => rfl

/-- One segment reports the anomalies among its nodes, and these are none or its own text. -/
theorem anomalies_step {before after : List Segment} {s : Segment} {group : List Placed}
    (htracks : Tracks before e) (hok : e.step (.ok s) = .ok e')
    (hyields : Yields before s after group)
    (hplain : plain s.position =
      (s.terminator != some .openBrace && (ImportStatement.ofStatement? s.text).isNone)) :
    e'.anomalies = e.anomalies ++ group.filterMap (Placed.anomaly? plain) ∧
      List.Sublist (group.filterMap (Placed.anomaly? plain)) [⟨s.text, s.position⟩] := by
  unfold step at hok
  dsimp only at hok
  cases hyields with
  | captured hin =>
      obtain ⟨pending, hpending⟩ := Option.ne_none_iff_exists'.1 (htracks.inOpaque_iff.1 hin)
      rw [hpending] at hok
      simp [anomalies_capture hok]
  | @block parent node hout hmark hparent hnode =>
      have hpending : e.pending = none := by
        by_contra hsome
        exact hout (htracks.inOpaque_iff.2 hsome)
      have hblock : plain s.position = false := by
        rw [hplain, hmark]
        rfl
      have hsilent := anomaly?_of_blockYields hnode hblock (parent.map Segment.position)
      rw [hpending] at hok
      simp only [advance, hmark] at hok
      simp [anomalies_openBlock hok, hsilent]
  | @statement parent _ hout hmark hparent hgroup =>
      have hpending : e.pending = none := by
        by_contra hsome
        exact hout (htracks.inOpaque_iff.2 hsome)
      obtain ⟨parent', hparent', hposition, _⟩ := htracks.innermost hpending
      cases hparent.unique hparent'
      rw [hposition] at hgroup
      rw [bne_iff_ne.2 hmark, Bool.true_and] at hplain
      obtain ⟨hanomalies, hsub⟩ := anomalies_statement hgroup hplain
      refine ⟨?_, hsub⟩
      rw [← hanomalies]
      rw [hpending] at hok
      dsimp only [advance] at hok
      split at hok
      · cases hok
        rfl
      · next hopen => exact absurd hopen hmark
      · exact anomalies_closeBlock hok
      · split at hok
        · cases hok
        · cases hok
          rfl

/-- A run reports the anomalies among the nodes of its segments, in the order of the segments. -/
theorem Steps.anomalies {before after : List Segment} {groups : List (List Placed)}
    (h : Steps e after e') (htracks : Tracks before e) (hyields : YieldsAll before after groups)
    (hplain : ∀ s ∈ after, plain s.position =
      (s.terminator != some .openBrace && (ImportStatement.ofStatement? s.text).isNone)) :
    e'.anomalies = e.anomalies ++ groups.flatten.filterMap (Placed.anomaly? plain) ∧
      List.Sublist (groups.flatten.filterMap (Placed.anomaly? plain))
        (after.map fun s => ⟨s.text, s.position⟩) := by
  induction h generalizing before groups with
  | done e =>
      cases hyields
      simp
  | @next e e₁ e' s segs hok _ ih =>
      obtain ⟨hfirst, hothers⟩ := List.forall_mem_cons.1 hplain
      cases hyields with
      | @cons _ _ _ group groups hgroup hgroups =>
          obtain ⟨hstep, hsub⟩ := anomalies_step htracks hok hgroup hfirst
          obtain ⟨hrest, hsub'⟩ := ih (htracks.step (step_of_ok hok)) hgroups hothers
          rw [List.flatten_cons, List.filterMap_append]
          refine ⟨?_, hsub.append hsub'⟩
          rw [hrest, hstep, List.append_assoc]

end Extraction

end Stylesheet
