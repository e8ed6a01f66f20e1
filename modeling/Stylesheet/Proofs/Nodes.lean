import Stylesheet.Proofs.Balance

/-! Which nodes the segments of a source yield.

The nodes of a tree are listed flat, each with the position of the selector that holds it. Every
segment yields its own group of nodes, told by its text, its mark and the blocks that stand open
before it; all groups together are the nodes of the tree. While selectors are open their nodes lie
on the stack, and a selector takes all its nodes along when it closes. -/

namespace Stylesheet

/-- A node where it stands: the position of the selector that holds it, none if the file does, and
its own position. -/
structure Placed where
  parent : Option Position
  position : Position
  node : Node
deriving DecidableEq, Repr

def Placed.directive? (n : Placed) : Option ImportDirective :=
  match n.node with
  | .directive target => some ⟨target, n.position⟩
  | _ => none

def Declaration.placed (parent : Position) (d : Declaration) : Placed :=
  ⟨some parent, d.position, .clause d.clause⟩

mutual

/-- The nodes of a rule and of what is inside it. -/
def Rule.placed (parent : Option Position) : Rule → List Placed
  | .selector place header declarations children =>
      ⟨parent, place.position, .selector header⟩ ::
        declarations.map (Declaration.placed place.position) ++
          Rule.allPlaced (some place.position) children
  | .block place b => [⟨parent, place.position, .block b⟩]

def Rule.allPlaced (parent : Option Position) : List Rule → List Placed
  | [] => []
  | rule :: rules => rule.placed parent ++ Rule.allPlaced parent rules

end

/-- The nodes of a file without those of the files it imports. -/
def Content.placed (c : Content) : List Placed :=
  Rule.allPlaced none c.rules ++
    c.vars.map (fun v => ⟨none, v.position, .var v.name v.value v.flags⟩) ++
    c.imports.map fun d => ⟨none, d.position, .directive d.target⟩

/-- The body of a captured block, given the segments that follow. -/
def Capture.body? (c : Capture) : List Segment → Option Text
  | [] => none
  | s :: segs =>
      match s.terminator with
      | none => none
      | some m =>
          match c.step s.text m with
          | .done body => some body
          | .more longer => longer.body? segs

/-- The header of the innermost block that stands open behind some segments; none if no block
does. -/
def Innermost (before : List Segment) : Option Segment → Prop
  | none => Balanced before
  | some header =>
      ∃ outer inner, before = outer ++ header :: inner ∧ header.terminator = some .openBrace ∧
        Balanced inner

/-- The nodes of a statement at a position, inside the selector at `parent` or outside all of
them. -/
inductive StatementYields (text : Text) (p : Position) : Option Position → List Placed → Prop
  | empty (parent : Option Position) (htext : text = []) : StatementYields text p parent []
  | clause (parent : Position) (htext : text ≠ []) :
      StatementYields text p (some parent)
        [⟨some parent, p, .clause ((Clause.ofStatement? text).getD (.raw text))⟩]
  /-- The targets of an import statement in order, and one rule for all its other pieces if there
  are any. -/
  | imports {statement : ImportStatement} (htext : text ≠ [])
      (hstatement : ImportStatement.ofStatement? text = some statement) :
      StatementYields text p none
        (statement.targets.map (fun target => ⟨none, p, .directive target⟩) ++
          if statement.plain = [] then []
          else [⟨none, p, .block (Extraction.plainImports statement.plain)⟩])
  | var {a : Assignment} (htext : text ≠ [])
      (hstatement : ImportStatement.ofStatement? text = none)
      (hvar : Assignment.ofStatement? text = some a) :
      StatementYields text p none [⟨none, p, .var a.name (.classify a.value) a.flags⟩]
  | raw (htext : text ≠ []) (hstatement : ImportStatement.ofStatement? text = none)
      (hvar : Assignment.ofStatement? text = none) :
      StatementYields text p none [⟨none, p, .block (.raw text)⟩]

/-- The node of a block, inside a selector or not, given the segments behind its opening brace. -/
inductive BlockYields (header : Text) (after : List Segment) (nested : Bool) : Node → Prop
  | selector {text : Text} (hheader : Header.ofText header = .selector text) :
      BlockYields header after nested (.selector text)
  | rule {body : Text} {b : Block} (hheader : Header.IsOpaque header)
      (hbody : Capture.empty.body? after = some body)
      (hnode : capturedNode nested header body = .inl b) :
      BlockYields header after nested (.block b)
  | inclusion {body name : Text} {arguments : List Argument} {content : Option Text}
      (hheader : Header.IsOpaque header) (hbody : Capture.empty.body? after = some body)
      (hnode : capturedNode nested header body = .inr (.inclusion name arguments content)) :
      BlockYields header after nested (.clause (.inclusion name arguments content))
  | mixin {body : Text} {signature : Signature} (hheader : Header.IsOpaque header)
      (hbody : Capture.empty.body? after = some body)
      (hnode : capturedNode nested header body = .inr (.mixin signature body)) :
      BlockYields header after nested (.clause (.mixin signature body))

/-- The nodes that a segment yields between those before and those after it. -/
inductive Yields (before : List Segment) (s : Segment) (after : List Segment) :
    List Placed → Prop
  /-- A segment of a block that is kept as text yields nothing of its own. -/
  | captured (hin : InOpaque before) : Yields before s after []
  | block {parent : Option Segment} {node : Node} (hout : ¬InOpaque before)
      (hmark : s.terminator = some .openBrace) (hparent : Innermost before parent)
      (hnode : BlockYields s.text after parent.isSome node) :
      Yields before s after [⟨parent.map Segment.position, s.position, node⟩]
  | statement {parent : Option Segment} {group : List Placed} (hout : ¬InOpaque before)
      (hmark : s.terminator ≠ some .openBrace) (hparent : Innermost before parent)
      (hgroup : StatementYields s.text s.position (parent.map Segment.position) group) :
      Yields before s after group

/-- Every segment of a list that follows other segments yields its group of nodes. -/
inductive YieldsAll : List Segment → List Segment → List (List Placed) → Prop
  | nil (before : List Segment) : YieldsAll before [] []
  | cons {before after : List Segment} {s : Segment} {group : List Placed}
      {groups : List (List Placed)} (hfirst : Yields before s after group)
      (hrest : YieldsAll (before ++ [s]) after groups) :
      YieldsAll before (s :: after) (group :: groups)

/-! ### The group of a segment is told by the segments around it -/

theorem Innermost.unique {before : List Segment} {parent parent' : Option Segment}
    (h : Innermost before parent) (h' : Innermost before parent') : parent = parent' := by
  have hencloses {header : Segment} (h : Innermost before (some header)) :
      Encloses header before := by
    obtain ⟨outer, inner, hbefore, hopen, hinner⟩ := h
    exact ⟨outer, inner, hbefore, hopen, hinner.neverBelow⟩
  cases parent with
  | none =>
      cases parent' with
      | none => rfl
      | some header => exact absurd (hencloses h') (Balanced.not_encloses h)
  | some header =>
      cases parent' with
      | none => exact absurd (hencloses h) (Balanced.not_encloses h')
      | some header' =>
          obtain ⟨outer, inner, rfl, hopen, hinner⟩ := h
          obtain ⟨outer', inner', heq, hopen', hinner'⟩ := h'
          -- Of two different headers the first would still be open behind the second.
          rcases List.append_eq_append_iff.1 heq with ⟨more, rfl, hmore⟩ | ⟨more, rfl, hmore⟩
          · cases more with
            | nil => exact congrArg some (List.cons.inj hmore).1
            | cons first more =>
                obtain ⟨rfl, rfl⟩ := List.cons.inj hmore
                exact absurd ⟨more, inner', rfl, hopen', hinner'.neverBelow⟩ hinner.not_encloses
          · cases more with
            | nil => exact congrArg some (List.cons.inj hmore).1.symm
            | cons first more =>
                obtain ⟨rfl, rfl⟩ := List.cons.inj hmore
                exact absurd ⟨more, inner, rfl, hopen, hinner.neverBelow⟩ hinner'.not_encloses

theorem StatementYields.unique {text : Text} {p : Position} {parent : Option Position}
    {group group' : List Placed} (h : StatementYields text p parent group)
    (h' : StatementYields text p parent group') : group = group' := by
  cases h <;> cases h' <;> simp_all

theorem BlockYields.unique {header : Text} {after : List Segment} {nested : Bool}
    {node node' : Node} (h : BlockYields header after nested node)
    (h' : BlockYields header after nested node') : node = node' := by
  cases h <;> cases h' <;> simp_all [Header.IsOpaque]

theorem Yields.unique {before after : List Segment} {s : Segment} {group group' : List Placed}
    (h : Yields before s after group) (h' : Yields before s after group') : group = group' := by
  cases h with
  | captured hin =>
      cases h' with
      | captured => rfl
      | block hout => exact absurd hin hout
      | statement hout => exact absurd hin hout
  | block hout hmark hparent hnode =>
      cases h' with
      | captured hin => exact absurd hin hout
      | block _ _ hparent' hnode' =>
          cases hparent.unique hparent'
          rw [hnode.unique hnode']
      | statement _ hmark' => exact absurd hmark hmark'
  | statement hout hmark hparent hgroup =>
      cases h' with
      | captured hin => exact absurd hin hout
      | block _ hmark' => exact absurd hmark' hmark
      | statement _ _ hparent' hgroup' =>
          cases hparent.unique hparent'
          exact hgroup.unique hgroup'

theorem YieldsAll.unique {before after : List Segment} {groups groups' : List (List Placed)}
    (h : YieldsAll before after groups) (h' : YieldsAll before after groups') :
    groups = groups' := by
  induction h generalizing groups' with
  | nil before =>
      cases h'
      rfl
  | cons hfirst hrest ih =>
      cases h' with
      | cons hfirst' hrest' => rw [hfirst.unique hfirst', ih hrest']

/-- The body of a block is what reading on from its opening brace gives. -/
theorem Cursor.captureFrom_ok_iff {c : Cursor} {opened : Position} {capture : Capture}
    {body : Text} :
    (c.captureFrom opened capture).outcome = .ok body ↔ capture.body? c.segments = some body := by
  induction c using scanInduction generalizing capture with
  | fault c f hf =>
      rw [segments_of_error hf, captureFrom_of_error hf]
      simp [Capture.body?]
  | finish c s hs hn =>
      rw [segments_of_end hs hn, captureFrom_of_end hs hn]
      simp [Capture.body?, hn]
  | mark c s m hs hm ih =>
      rw [segments_of_mark hs hm]
      cases hstep : capture.step s.text m with
      | done body' =>
          rw [(captureFrom_of_mark hs hm opened).1 body' hstep]
          simp [Capture.body?, hm, hstep]
      | more longer =>
          rw [(captureFrom_of_mark hs hm opened).2 longer hstep]
          simp [Capture.body?, hm, hstep, ih]

/-! ### Nodes of an extraction -/

theorem Rule.allPlaced_append (parent : Option Position) (left right : List Rule) :
    Rule.allPlaced parent (left ++ right) =
      Rule.allPlaced parent left ++ Rule.allPlaced parent right := by
  induction left with
  | nil => rfl
  | cons rule left ih => simp [Rule.allPlaced, ih]

def OpenSelector.parent (opened : List OpenSelector) : Option Position :=
  opened.head?.map OpenSelector.position

/-- The nodes of the selectors that are open. -/
def OpenSelector.allPlaced : List OpenSelector → List Placed
  | [] => []
  | inner :: outer =>
      ⟨OpenSelector.parent outer, inner.position, .selector inner.header⟩ ::
        inner.declarations.map (Declaration.placed inner.position) ++
          Rule.allPlaced (some inner.position) inner.children ++ OpenSelector.allPlaced outer

namespace Extraction

def placed (e : Extraction) : List Placed :=
  e.content.placed ++ OpenSelector.allPlaced e.opened

def parent (e : Extraction) : Option Position :=
  OpenSelector.parent e.opened

theorem placed_attach (e : Extraction) (rule : Rule) :
    (e.attach rule).placed.Perm (e.placed ++ rule.placed e.parent) := by
  rw [List.perm_iff_count]
  intro n
  unfold attach placed parent note
  cases hopened : e.opened with
  | nil =>
      simp [OpenSelector.allPlaced, OpenSelector.parent, Content.placed, Rule.allPlaced_append,
        Rule.allPlaced]
      omega
  | cons inner outer =>
      simp [OpenSelector.allPlaced, OpenSelector.parent, Rule.allPlaced_append, Rule.allPlaced,
        List.count_cons]
      omega

/-- An addition is one more node in the innermost open selector, or in the file. -/
theorem Adds.placed_perm {e e' : Extraction} {p : Position} {node : Node} (h : e.Adds p node e') :
    e'.placed.Perm (e.placed ++ [⟨e.parent, p, node⟩]) := by
  cases h with
  | block events b => exact placed_attach { e with events := events } _
  | clause events c hopen =>
      obtain ⟨inner, outer, hopened⟩ := List.exists_cons_of_ne_nil hopen
      rw [List.perm_iff_count]
      intro n
      unfold declare placed parent note
      simp [hopened, OpenSelector.allPlaced, OpenSelector.parent, Declaration.placed,
        List.count_cons]
      omega
  | var events name value flags hopen =>
      rw [List.perm_iff_count]
      intro n
      simp [placed, parent, hopen, OpenSelector.allPlaced, OpenSelector.parent, Content.placed,
        List.count_cons]

theorem Adds.imports_eq {e e' : Extraction} {p : Position} {node : Node} (h : e.Adds p node e') :
    e'.content.imports = e.content.imports := by
  cases h with
  | block events b => exact imports_attach _ _
  | clause events c hopen =>
      unfold declare note
      cases e.opened <;> rfl
  | var events name value flags hopen => rfl

/-- A statement adds its nodes to those read so far, its directives behind the others. -/
theorem States.yields {e e' : Extraction} {text : Text} {p : Position} (h : e.States text p e') :
    ∃ group, StatementYields text p e.parent group ∧ e'.placed.Perm (e.placed ++ group) ∧
      e'.content.imports = e.content.imports ++ group.filterMap Placed.directive? := by
  have hnone (hopen : e.opened = []) : e.parent = none := by
    simp [parent, OpenSelector.parent, hopen]
  cases h with
  | empty htext => exact ⟨[], .empty _ htext, by simp, by simp⟩
  | @imports statement htext hopen hstatement hplain =>
      rw [hnone hopen]
      refine ⟨_, .imports htext hstatement, ?_, ?_⟩
      · rw [List.perm_iff_count]
        intro n
        simp [placed, addDirectives, Content.placed, hplain, Function.comp_def]
        omega
      · simp [addDirectives, hplain, Placed.directive?, Function.comp_def]
  | @plainImports statement _ htext hopen hstatement hplain hadds =>
      rw [hnone hopen]
      refine ⟨_, .imports htext hstatement, ?_, ?_⟩
      · have hperm := hadds.placed_perm
        rw [show (e.addDirectives statement.targets p).parent = none from hnone hopen] at hperm
        refine hperm.trans ?_
        rw [List.perm_iff_count]
        intro n
        simp [placed, addDirectives, Content.placed, hplain, Function.comp_def]
        omega
      · rw [hadds.imports_eq]
        simp [addDirectives, hplain, Placed.directive?, Function.comp_def]
  | @var a _ htext hopen hstatement hvar hadds =>
      have hperm := hadds.placed_perm
      rw [hnone hopen] at hperm ⊢
      exact ⟨_, .var htext hstatement hvar, hperm, by simp [hadds.imports_eq, Placed.directive?]⟩
  | raw htext hopen hstatement hvar hadds =>
      have hperm := hadds.placed_perm
      rw [hnone hopen] at hperm ⊢
      exact ⟨_, .raw htext hstatement hvar, hperm, by simp [hadds.imports_eq, Placed.directive?]⟩
  | clause htext hopen hadds =>
      obtain ⟨inner, outer, hopened⟩ := List.exists_cons_of_ne_nil hopen
      have hparent : e.parent = some inner.position := by
        simp [parent, OpenSelector.parent, hopened]
      have hperm := hadds.placed_perm
      rw [hparent] at hperm ⊢
      exact ⟨_, .clause _ htext, hperm, by simp [hadds.imports_eq, Placed.directive?]⟩

/-- A selector takes all its nodes along when it closes. -/
theorem placed_close {e : Extraction} {inner : OpenSelector} {outer : List OpenSelector}
    (hopened : e.opened = inner :: outer) (depth : Nat) :
    ({ e with opened := outer }.attach (.selector ⟨depth, inner.position⟩ inner.header
      inner.declarations inner.children)).placed.Perm e.placed := by
  refine (placed_attach _ _).trans ?_
  rw [List.perm_iff_count]
  intro n
  simp [placed, parent, hopened, OpenSelector.allPlaced, Rule.placed, List.count_cons]
  omega

/-! ### One segment -/

/-- The node that the block being captured will become, given the segments that follow. -/
def PendingYields (e : Extraction) (after : List Segment) (group : List Placed) : Prop :=
  match e.pending with
  | none => group = []
  | some p =>
      ∃ body, p.capture.body? after = some body ∧
        group = [⟨e.parent, p.position, .captured (!e.opened.isEmpty) p.header body⟩]

theorem pendingYields_nil {e : Extraction} (hpending : e.pending = none) (after : List Segment) :
    e.PendingYields after [] := by
  simp only [PendingYields, hpending]

theorem PendingYields.eq_nil {e : Extraction} {after : List Segment} {group : List Placed}
    (h : e.PendingYields after group) (hpending : e.pending = none) : group = [] := by
  simpa only [PendingYields, hpending] using h

theorem pendingYields_some {e : Extraction} {p : Pending} {after : List Segment}
    {group : List Placed} (hpending : e.pending = some p) :
    e.PendingYields after group ↔ ∃ body, p.capture.body? after = some body ∧
      group = [⟨e.parent, p.position, .captured (!e.opened.isEmpty) p.header body⟩] := by
  simp only [PendingYields, hpending]

end Extraction

theorem Standing.innermost {before headers : List Segment} (h : Standing before headers) :
    Innermost before headers.head? := by
  cases headers with
  | nil => exact h
  | cons header headers =>
      obtain ⟨outer, inner, hbefore, hopen, hinner, _⟩ := h
      exact ⟨outer, inner, hbefore, hopen, hinner⟩

/-- Outside captured blocks the innermost block that stands open is the innermost open selector. -/
theorem Tracks.innermost {before : List Segment} {e : Extraction} (h : Tracks before e)
    (hpending : e.pending = none) :
    ∃ parent : Option Segment, Innermost before parent ∧
      parent.map Segment.position = e.parent ∧ parent.isSome = !e.opened.isEmpty := by
  cases h with
  | @free headers _ hstanding hheaders =>
      refine ⟨headers.head?, hstanding.innermost, ?_, ?_⟩
      · have hpositions := congrArg (fun l => (l.map Prod.snd).head?) hheaders
        simpa [Extraction.headers, Extraction.parent, OpenSelector.parent, Segment.heading,
          Function.comp_def] using hpositions
      · have hlengths := congrArg List.length hheaders
        simp only [Extraction.headers, List.length_map] at hlengths
        cases headers <;> cases ho : e.opened <;> simp_all
  | capturing hp =>
      rw [hpending] at hp
      cases hp

/-- A block that is kept as text becomes a rule, the use of a mixin or a mixin. -/
theorem blockYields_captured {header body : Text} {after : List Segment} (nested : Bool)
    (hheader : Header.IsOpaque header) (hbody : Capture.empty.body? after = some body) :
    BlockYields header after nested (.captured nested header body) := by
  unfold Node.captured
  cases hnode : capturedNode nested header body with
  | inl b => exact .rule hheader hbody hnode
  | inr c =>
      rcases (capturedNode_inr hnode).2 with ⟨name, arguments, content, rfl⟩ | ⟨signature, rfl⟩
      · exact .inclusion hheader hbody hnode
      · exact .mixin hheader hbody hnode

namespace Extraction

theorem directive?_captured (parent : Option Position) (p : Position) (nested : Bool)
    (header body : Text) : Placed.directive? ⟨parent, p, .captured nested header body⟩ = none := by
  unfold Placed.directive? Node.captured
  cases capturedNode nested header body <;> rfl

/-- What a segment does to the nodes read so far. The node of a block that is kept as text counts
from the segment that opens the block, though it is complete only where the block closes. -/
theorem Step.yields {before after : List Segment} {s : Segment} {e e' : Extraction}
    {later : List Placed} (htracks : Tracks before e) (h : e.Step s e')
    (hlater : e'.PendingYields after later) :
    ∃ pending group, e.PendingYields (s :: after) pending ∧ Yields before s after group ∧
      (e'.placed ++ later).Perm (e.placed ++ pending ++ group) ∧
      e'.content.imports = e.content.imports ++ group.filterMap Placed.directive? := by
  have hin (p : Pending) (hpending : e.pending = some p) : InOpaque before :=
    htracks.inOpaque_iff.2 (by simp [hpending])
  have hout (hpending : e.pending = none) : ¬InOpaque before :=
    fun hin => htracks.inOpaque_iff.1 hin hpending
  have hstatement {e₁ : Extraction} (hpending : e.pending = none)
      (hmark : s.terminator ≠ some .openBrace) (hstates : e.States s.text s.position e₁) :
      ∃ group, Yields before s after group ∧ e₁.placed.Perm (e.placed ++ group) ∧
        e₁.content.imports = e.content.imports ++ group.filterMap Placed.directive? := by
    obtain ⟨parent, hinnermost, hparent, _⟩ := htracks.innermost hpending
    obtain ⟨group, hgroup, hperm, himports⟩ := hstates.yields
    rw [← hparent] at hgroup
    exact ⟨group, .statement (hout hpending) hmark hinnermost hgroup, hperm, himports⟩
  cases h with
  | @captured p m longer hpending hmark hmore =>
      obtain ⟨body, hbody, rfl⟩ := (pendingYields_some rfl).1 hlater
      refine ⟨_, [], (pendingYields_some hpending).2 ⟨body, ?_, rfl⟩, .captured (hin p hpending),
        ?_, by simp⟩
      · simpa [Capture.body?, hmark, hmore] using hbody
      · rw [List.append_nil]
        exact List.Perm.refl _
  | @completed p m body _ hpending hmark hdone hadds =>
      obtain rfl := hlater.eq_nil hadds.pending_eq
      refine ⟨_, [], (pendingYields_some hpending).2 ⟨body, ?_, rfl⟩, .captured (hin p hpending),
        ?_, by simp [hadds.imports_eq]⟩
      · simp [Capture.body?, hmark, hdone]
      · rw [List.append_nil, List.append_nil]
        exact hadds.placed_perm
  | statement hpending hmark hstates =>
      obtain rfl := hlater.eq_nil (hstates.pending_eq.trans hpending)
      obtain ⟨group, hyields, hperm, himports⟩ := hstatement hpending (by simp [hmark]) hstates
      exact ⟨[], group, pendingYields_nil hpending _, hyields, by simpa using hperm, himports⟩
  | @selector header events hpending hmark hheader =>
      obtain rfl := hlater.eq_nil hpending
      obtain ⟨parent, hinnermost, hparent, _⟩ := htracks.innermost hpending
      refine ⟨[], _, pendingYields_nil hpending _,
        .block (hout hpending) hmark hinnermost (.selector hheader), ?_, ?_⟩
      · rw [hparent, List.perm_iff_count]
        intro n
        simp [placed, Extraction.parent, OpenSelector.allPlaced, Rule.allPlaced, List.count_cons]
      · simp [Placed.directive?]
  | opened hpending hmark htext hheader =>
      obtain ⟨body, hbody, rfl⟩ := (pendingYields_some rfl).1 hlater
      obtain ⟨parent, hinnermost, hparent, hnested⟩ := htracks.innermost hpending
      refine ⟨[], _, pendingYields_nil hpending _,
        .block (hout hpending) hmark hinnermost (blockYields_captured _ hheader hbody), ?_, ?_⟩
      · rw [hparent, hnested, List.append_nil]
        exact List.Perm.refl _
      · simp [directive?_captured]
  | @closed e₁ inner outer hpending hmark hstates hopened =>
      have hnone : e₁.pending = none := hstates.pending_eq.trans hpending
      obtain rfl := hlater.eq_nil ((pending_attach _ _).trans hnone)
      obtain ⟨group, hyields, hperm, himports⟩ := hstatement hpending (by simp [hmark]) hstates
      refine ⟨[], group, pendingYields_nil hpending _, hyields, ?_,
        (imports_attach _ _).trans himports⟩
      simpa using (placed_close hopened (outer.length + 1)).trans hperm
  | ended hpending hmark hopen hstates =>
      obtain rfl := hlater.eq_nil (hstates.pending_eq.trans hpending)
      obtain ⟨group, hyields, hperm, himports⟩ := hstatement hpending (by simp [hmark]) hstates
      exact ⟨[], group, pendingYields_nil hpending _, hyields, by simpa using hperm, himports⟩

theorem Steps.yields {before after : List Segment} {e e' : Extraction} (htracks : Tracks before e)
    (h : Steps e after e') (hsettled : e'.pending = none) :
    ∃ pending groups, e.PendingYields after pending ∧ YieldsAll before after groups ∧
      e'.placed.Perm (e.placed ++ pending ++ groups.flatten) ∧
      e'.content.imports = e.content.imports ++ groups.flatten.filterMap Placed.directive? := by
  induction h generalizing before with
  | done e =>
      exact ⟨[], [], pendingYields_nil hsettled _, .nil before, by simp, by simp⟩
  | @next e e' e'' s segs hok hrest ih =>
      have hstep := step_of_ok hok
      obtain ⟨later, groups, hlater, hall, hperm, himports⟩ := ih (htracks.step hstep) hsettled
      obtain ⟨pending, group, hpending, hyields, hperm', himports'⟩ := hstep.yields htracks hlater
      refine ⟨pending, group :: groups, hpending, .cons hyields hall, ?_, ?_⟩
      · refine hperm.trans ?_
        rw [List.flatten_cons, ← List.append_assoc]
        exact hperm'.append_right groups.flatten
      · simp [himports, himports']

/-- Every segment yields its group of nodes, told by the segments around it, and the file has these
nodes and no others. Directives keep their order. Different segments stand at different positions,
so that the parent of a node is told by its position. -/
theorem run_nodes {source : Text} {e : Extraction} (h : run source = .ok e) :
    ∃ groups, (∀ others, YieldsAll [] (Cursor.start source).segments others ↔ others = groups) ∧
      e.content.placed.Perm groups.flatten ∧
      e.content.imports = groups.flatten.filterMap Placed.directive? ∧
      (Cursor.start source).segments.Pairwise fun s t => s.position < t.position := by
  obtain ⟨hend, hsteps⟩ := run_ok_iff.1 h
  obtain ⟨hpending, hopened⟩ := settled_of_run h
  obtain ⟨pending, groups, hnone, hall, hperm, himports⟩ := hsteps.yields Tracks.start hpending
  obtain rfl := hnone.eq_nil rfl
  refine ⟨groups, fun others => ⟨fun hothers => hothers.unique hall, fun heq => heq ▸ hall⟩,
    ?_, ?_, ?_⟩
  · simpa [placed, hopened, OpenSelector.allPlaced, start, Content.placed, Rule.allPlaced]
      using hperm
  · simpa [start] using himports
  · obtain ⟨hwithin, hordered⟩ := (Cursor.start source).segments_ordered
    refine hordered.imp_of_mem fun hs _ hlt => ?_
    exact (hwithin _ hs).2.trans_lt hlt

/-- A selector with a property, a block given to a mixin and a nested selector, an import of both
kinds and a variable: seven nodes. -/
theorem run_nodes_mixed :
    ∃ e, run ".a { b: c; @include m { d: e } &.f { } }\n@import \"g\", url(h);\n$i: j".toList =
        .ok e ∧ e.content.placed.length = 7 ∧ e.content.imports.length = 1 ∧
      ∃ groups, YieldsAll [] (Cursor.start
          ".a { b: c; @include m { d: e } &.f { } }\n@import \"g\", url(h);\n$i: j".toList).segments
          groups ∧
        e.content.placed.Perm groups.flatten := by
  have hcounts : (run
      ".a { b: c; @include m { d: e } &.f { } }\n@import \"g\", url(h);\n$i: j".toList).toOption.map
      (fun e => (e.content.placed.length, e.content.imports.length)) = some (7, 1) := by
    decide +kernel
  obtain ⟨e, hrun, hlengths⟩ := exists_ok_of_toOption_map hcounts
  obtain ⟨hplaced, himports⟩ := Prod.mk.inj hlengths
  obtain ⟨groups, hgroups, hperm, _⟩ := run_nodes hrun
  exact ⟨e, hrun, hplaced, himports, groups, (hgroups groups).2 rfl, hperm⟩

end Extraction

end Stylesheet
