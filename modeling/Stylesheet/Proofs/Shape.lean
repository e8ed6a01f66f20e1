import Stylesheet.Proofs.Balance

/-! The shape of a tree and the order of its positions.

Rules are attached where they close, so that their order rests on what is still open: everything in
an open selector stands behind its header, and everything around it stands before. `Within` says of
finished rules that they lie in order between two positions, and `Stacked` says so of the open
selectors and the file around them. -/

namespace Stylesheet

mutual

/-- A rule and the rules inside it, each before those inside it. -/
def Rule.preorder : Rule → List Rule
  | .selector place header declarations children =>
      .selector place header declarations children :: Rule.allPreorder children
  | .block place b => [.block place b]

def Rule.allPreorder : List Rule → List Rule
  | [] => []
  | rule :: rules => rule.preorder ++ Rule.allPreorder rules

end

namespace Rule

def position (r : Rule) : Position :=
  r.place.position

/-- The positions of all declarations and rules inside a rule. -/
def inside (r : Rule) : List Position :=
  r.declarations.map Declaration.position ++
    (allPreorder r.children).flatMap fun d =>
      d.position :: d.declarations.map Declaration.position

/-- All that is inside a rule stands before the next one of the list. -/
def Apart (rules : List Rule) : Prop :=
  ∀ front r next back, rules = front ++ r :: next :: back → ∀ p ∈ r.inside, p < next.position

theorem allPreorder_append (left right : List Rule) :
    allPreorder (left ++ right) = allPreorder left ++ allPreorder right := by
  induction left with
  | nil => rfl
  | cons rule left ih => simp [allPreorder, ih]

theorem allPreorder_singleton (r : Rule) : allPreorder [r] = r.preorder := by
  simp [allPreorder]

theorem preorder_eq_cons (r : Rule) : r.preorder = r :: allPreorder r.children := by
  cases r <;> rfl

end Rule

/-- The shape of the rules and variables of one file. -/
structure Shaped (rules : List Rule) (vars : List Variable) : Prop where
  top : ∀ r ∈ rules, r.place.depth = 1
  nested : ∀ r ∈ Rule.allPreorder rules, ∀ c ∈ r.children, c.place.depth = r.place.depth + 1
  selectors : ∀ r ∈ Rule.allPreorder rules, r.children ≠ [] →
    ∃ place header declarations children, r = .selector place header declarations children
  preorder : ((Rule.allPreorder rules).map Rule.position).Pairwise (· < ·)
  vars : (vars.map Variable.position).Pairwise (· < ·)
  declarations : ∀ r ∈ Rule.allPreorder rules,
    (r.declarations.map Declaration.position).Pairwise (· < ·)
  behind : ∀ r ∈ Rule.allPreorder rules, ∀ p ∈ r.inside, r.position < p
  apart : Rule.Apart rules
  nestedApart : ∀ r ∈ Rule.allPreorder rules, Rule.Apart r.children

/-! ### Rules between two positions -/

/-- Positions in order, all between two others. -/
structure InOrder (lower upper : Position) (ps : List Position) : Prop where
  ordered : ps.Pairwise (· < ·)
  within : ∀ p ∈ ps, lower < p ∧ p < upper

namespace InOrder

variable {lower upper further p : Position} {ps : List Position}

theorem nil : InOrder lower upper [] :=
  ⟨.nil, fun _ h => by cases h⟩

theorem mono (h : InOrder lower upper ps) (hle : upper ≤ further) : InOrder lower further ps :=
  ⟨h.ordered, fun q hq => ⟨(h.within q hq).1, (h.within q hq).2.trans_le hle⟩⟩

theorem snoc (h : InOrder lower p ps) (hlower : lower < p) (hupper : p < upper) :
    InOrder lower upper (ps ++ [p]) := by
  refine ⟨List.pairwise_append.2 ⟨h.ordered, List.pairwise_singleton _ p, ?_⟩, ?_⟩
  · intro q hq r hr
    rw [List.mem_singleton.1 hr]
    exact (h.within q hq).2
  · intro q hq
    rcases List.mem_append.1 hq with hq | hq
    · exact ⟨(h.within q hq).1, (h.within q hq).2.trans hupper⟩
    · rw [List.mem_singleton.1 hq]
      exact ⟨hlower, hupper⟩

end InOrder

/-- Rules of one depth that lie, with all that is inside them, in order between two positions. -/
inductive Within : Nat → Position → Position → List Rule → Prop
  | nil {depth : Nat} {lower upper : Position} : Within depth lower upper []
  | snoc {depth : Nat} {lower upper : Position} {rules : List Rule} {r : Rule}
      (hrules : Within depth lower r.position rules) (hlower : lower < r.position)
      (hupper : r.position < upper) (hdepth : r.place.depth = depth)
      (hdeclarations : InOrder r.position upper (r.declarations.map Declaration.position))
      (hchildren : Within (depth + 1) r.position upper r.children) :
      Within depth lower upper (rules ++ [r])

namespace Within

variable {depth : Nat} {lower upper further : Position} {rules : List Rule}

theorem mono (h : Within depth lower upper rules) (hle : upper ≤ further) :
    Within depth lower further rules := by
  induction h with
  | nil => exact .nil
  | snoc hrules hlower hupper hdepth hdeclarations _ _ ih =>
      exact .snoc hrules hlower (hupper.trans_le hle) hdepth (hdeclarations.mono hle) (ih hle)

theorem depth_eq (h : Within depth lower upper rules) : ∀ r ∈ rules, r.place.depth = depth := by
  induction h with
  | nil => exact List.forall_mem_nil _
  | snoc _ _ _ hdepth _ _ ih _ =>
      intro r hr
      rcases List.mem_append.1 hr with hr | hr
      · exact ih r hr
      · rw [List.mem_singleton.1 hr]
        exact hdepth

/-- What holds of a list of rules between two positions holds of the rules inside each of them. -/
theorem of_mem_preorder (h : Within depth lower upper rules) :
    ∀ r ∈ Rule.allPreorder rules, lower < r.position ∧ r.position < upper ∧
      InOrder r.position upper (r.declarations.map Declaration.position) ∧
      Within (r.place.depth + 1) r.position upper r.children := by
  induction h with
  | nil => exact List.forall_mem_nil _
  | snoc hrules hlower hupper hdepth hdeclarations hchildren ih ihc =>
      intro r hr
      rw [Rule.allPreorder_append, Rule.allPreorder_singleton, Rule.preorder_eq_cons] at hr
      rcases List.mem_append.1 hr with hr | hr
      · obtain ⟨hr₁, hr₂, hr₃, hr₄⟩ := ih r hr
        exact ⟨hr₁, hr₂.trans hupper, hr₃.mono hupper.le, hr₄.mono hupper.le⟩
      · rcases List.mem_cons.1 hr with rfl | hr
        · rw [hdepth]
          exact ⟨hlower, hupper, hdeclarations, hchildren⟩
        · obtain ⟨hr₁, hr₂⟩ := ihc r hr
          exact ⟨hlower.trans hr₁, hr₂⟩

theorem preorder_pairwise (h : Within depth lower upper rules) :
    ((Rule.allPreorder rules).map Rule.position).Pairwise (· < ·) := by
  induction h with
  | nil => exact .nil
  | @snoc depth lower upper rules r hrules hlower hupper hdepth hdeclarations hchildren ih ihc =>
      rw [Rule.allPreorder_append, Rule.allPreorder_singleton, Rule.preorder_eq_cons,
        List.map_append, List.map_cons]
      have hbehind : ∀ q ∈ (Rule.allPreorder r.children).map Rule.position, r.position < q := by
        intro q hq
        obtain ⟨c, hc, rfl⟩ := List.mem_map.1 hq
        exact (hchildren.of_mem_preorder c hc).1
      refine List.pairwise_append.2 ⟨ih, List.pairwise_cons.2 ⟨hbehind, ihc⟩, ?_⟩
      intro q hq q' hq'
      obtain ⟨c, hc, rfl⟩ := List.mem_map.1 hq
      have hbefore : c.position < r.position := (hrules.of_mem_preorder c hc).2.1
      rcases List.mem_cons.1 hq' with rfl | hq'
      · exact hbefore
      · exact hbefore.trans (hbehind q' hq')

theorem inside_bounds (h : Within depth lower upper rules) {r : Rule}
    (hr : r ∈ Rule.allPreorder rules) : ∀ p ∈ r.inside, r.position < p ∧ p < upper := by
  obtain ⟨_, _, hdeclarations, hchildren⟩ := h.of_mem_preorder r hr
  intro p hp
  rcases List.mem_append.1 hp with hp | hp
  · exact hdeclarations.within p hp
  · obtain ⟨d, hd, hp⟩ := List.mem_flatMap.1 hp
    obtain ⟨hlow, hhigh, hinner, _⟩ := hchildren.of_mem_preorder d hd
    rcases List.mem_cons.1 hp with rfl | hp
    · exact ⟨hlow, hhigh⟩
    · exact ⟨hlow.trans (hinner.within p hp).1, (hinner.within p hp).2⟩

theorem apart_snoc {last : Rule} (h : Within depth lower last.position rules)
    (hapart : Rule.Apart rules) : Rule.Apart (rules ++ [last]) := by
  intro front r next back heq
  rcases List.eq_nil_or_concat back with rfl | ⟨back, b, rfl⟩
  · have hsplit : rules ++ [last] = (front ++ [r]) ++ [next] := by simpa using heq
    obtain ⟨rfl, hlast⟩ := List.append_inj' hsplit rfl
    obtain rfl : last = next := by simpa using hlast
    have hr : r ∈ Rule.allPreorder (front ++ [r]) := by
      rw [Rule.allPreorder_append, Rule.allPreorder_singleton]
      rw [r.preorder_eq_cons]
      exact List.mem_append_right _ List.mem_cons_self
    exact fun p hp => (h.inside_bounds hr p hp).2
  · have hsplit : rules ++ [last] = (front ++ r :: next :: back) ++ [b] := by simpa using heq
    exact hapart front r next back (List.append_inj' hsplit rfl).1

theorem apart (h : Within depth lower upper rules) : Rule.Apart rules := by
  induction h with
  | nil =>
      intro front r next back heq
      simp at heq
  | snoc hrules _ _ _ _ _ ih _ => exact hrules.apart_snoc ih

/-- Rules in order are the rules of a file, together with variables in order. -/
theorem shaped {vars : List Variable} (h : Within 1 lower upper rules)
    (hvars : InOrder lower upper (vars.map Variable.position)) : Shaped rules vars where
  top := h.depth_eq
  nested r hr := (h.of_mem_preorder r hr).2.2.2.depth_eq
  selectors r _ hne := by
    cases r with
    | selector place header declarations children => exact ⟨_, _, _, _, rfl⟩
    | block place b => exact absurd rfl hne
  preorder := h.preorder_pairwise
  vars := hvars.ordered
  declarations r hr := (h.of_mem_preorder r hr).2.2.1.ordered
  behind r hr p hp := (h.inside_bounds hr p hp).1
  apart := h.apart
  nestedApart r hr := (h.of_mem_preorder r hr).2.2.2.apart

end Within

/-! ### Extractions before a position -/

def Position.origin : Position := ⟨0, 0⟩

/-- Open selectors in order before a position, innermost first, and the rules of the file around
them. What is in a selector lies behind its own start, what is around it lies before. -/
def Stacked (rules : List Rule) : List OpenSelector → Position → Prop
  | [], upper => Position.origin < upper ∧ Within 1 .origin upper rules
  | inner :: outer, upper =>
      inner.position < upper ∧
        InOrder inner.position upper (inner.declarations.map Declaration.position) ∧
        Within (outer.length + 2) inner.position upper inner.children ∧
        Stacked rules outer inner.position

theorem Stacked.mono {rules : List Rule} {opened : List OpenSelector} {upper further : Position}
    (h : Stacked rules opened upper) (hle : upper ≤ further) : Stacked rules opened further := by
  cases opened with
  | nil => exact ⟨h.1.trans_le hle, h.2.mono hle⟩
  | cons inner outer =>
      obtain ⟨hpos, hdeclarations, hchildren, houter⟩ := h
      exact ⟨hpos.trans_le hle, hdeclarations.mono hle, hchildren.mono hle, houter⟩

theorem Stacked.origin_lt {rules : List Rule} {opened : List OpenSelector} {upper : Position}
    (h : Stacked rules opened upper) : .origin < upper := by
  induction opened generalizing upper with
  | nil => exact h.1
  | cons inner outer ih => exact (ih h.2.2.2).trans h.1

namespace Extraction

/-- All that is attached lies in order before a position. -/
structure Ordered (e : Extraction) (upper : Position) : Prop where
  stacked : Stacked e.content.rules e.opened upper
  vars : InOrder .origin upper (e.content.vars.map Variable.position)

/-- All that has been read lies before a position. A captured block is attached at its end, and
nothing else is attached before that. -/
def Bounded (e : Extraction) (upper : Position) : Prop :=
  match e.pending with
  | none => e.Ordered upper
  | some p => e.Ordered p.position ∧ p.position < upper

theorem Ordered.mono {e : Extraction} {upper further : Position} (h : e.Ordered upper)
    (hle : upper ≤ further) : e.Ordered further :=
  ⟨h.stacked.mono hle, h.vars.mono hle⟩

/-- A rule of the depth at hand that stands behind all others fits where it is attached. -/
theorem stacked_attach {e : Extraction} {rule : Rule} {upper : Position}
    (h : Stacked e.content.rules e.opened rule.position) (hupper : rule.position < upper)
    (hdepth : rule.place.depth = e.depth)
    (hdeclarations : InOrder rule.position upper (rule.declarations.map Declaration.position))
    (hchildren : Within (e.depth + 1) rule.position upper rule.children) :
    Stacked (e.attach rule).content.rules (e.attach rule).opened upper := by
  unfold depth at hdepth hchildren
  unfold attach note
  dsimp only
  cases hopened : e.opened with
  | nil =>
      rw [hopened] at h hdepth hchildren
      obtain ⟨horigin, hrules⟩ := h
      have hmore := hrules.snoc horigin hupper hdepth hdeclarations hchildren
      exact ⟨horigin.trans hupper, hmore⟩
  | cons inner outer =>
      rw [hopened] at h hdepth hchildren
      obtain ⟨hpos, hinner, hrules, houter⟩ := h
      have hmore := hrules.snoc hpos hupper hdepth hdeclarations hchildren
      exact ⟨hpos.trans hupper, hinner.mono hupper.le, hmore, houter⟩

theorem Adds.ordered {e e' : Extraction} {p upper : Position} {node : Node} (h : e.Adds p node e')
    (hordered : e.Ordered p) (hlt : p < upper) : e'.Ordered upper := by
  cases h with
  | block events b =>
      refine ⟨?_, ?_⟩
      · exact stacked_attach (e := { e with events := events }) hordered.stacked hlt rfl .nil .nil
      · rw [vars_attach]
        exact hordered.vars.mono hlt.le
  | clause events c hopen =>
      obtain ⟨hstacked, hvars⟩ := hordered
      unfold declare note
      cases hopened : e.opened with
      | nil => exact absurd hopened hopen
      | cons inner outer =>
          rw [hopened] at hstacked
          obtain ⟨hpos, hdeclarations, hchildren, houter⟩ := hstacked
          refine ⟨⟨hpos.trans hlt, ?_, hchildren.mono hlt.le, houter⟩, hvars.mono hlt.le⟩
          rw [List.map_append]
          exact hdeclarations.snoc hpos hlt
  | var events name value flags hopen =>
      refine ⟨hordered.stacked.mono hlt.le, ?_⟩
      rw [List.map_append]
      exact hordered.vars.snoc hordered.stacked.origin_lt hlt

theorem States.ordered {e e' : Extraction} {text : Text} {p upper : Position}
    (h : e.States text p e') (hordered : e.Ordered p) (hlt : p < upper) : e'.Ordered upper := by
  cases h with
  | empty => exact hordered.mono hlt.le
  | imports => exact ⟨hordered.stacked.mono hlt.le, hordered.vars.mono hlt.le⟩
  | plainImports _ _ _ _ hadds => exact hadds.ordered ⟨hordered.stacked, hordered.vars⟩ hlt
  | var _ _ _ _ hadds => exact hadds.ordered hordered hlt
  | raw _ _ _ _ hadds => exact hadds.ordered hordered hlt
  | clause _ _ hadds => exact hadds.ordered hordered hlt

theorem ordered_close {e : Extraction} {inner : OpenSelector} {outer : List OpenSelector}
    {upper : Position} (hordered : e.Ordered upper) (hopened : e.opened = inner :: outer) :
    ({ e with opened := outer }.attach (.selector ⟨outer.length + 1, inner.position⟩ inner.header
      inner.declarations inner.children)).Ordered upper := by
  have hstacked := hordered.stacked
  rw [hopened] at hstacked
  obtain ⟨hpos, hdeclarations, hchildren, houter⟩ := hstacked
  refine ⟨?_, ?_⟩
  · exact stacked_attach (e := { e with opened := outer }) houter hpos rfl hdeclarations hchildren
  · rw [vars_attach]
    exact hordered.vars

theorem bounded_of_ordered {e : Extraction} {upper : Position} (hpending : e.pending = none)
    (h : e.Ordered upper) : e.Bounded upper := by
  unfold Bounded
  rw [hpending]
  exact h

/-- One segment keeps all that is attached in order. -/
theorem Step.bounded {e e' : Extraction} {s : Segment} {lower upper : Position} (h : e.Step s e')
    (hbounded : e.Bounded lower) (hle : lower ≤ s.position) (hlt : s.position < upper) :
    e'.Bounded upper := by
  unfold Bounded at hbounded
  cases h with
  | captured hpending hmark hmore =>
      rw [hpending] at hbounded
      obtain ⟨⟨hstacked, hvars⟩, hbefore⟩ := hbounded
      exact ⟨⟨hstacked, hvars⟩, (hbefore.trans_le hle).trans hlt⟩
  | completed hpending hmark hdone hadds =>
      rw [hpending] at hbounded
      obtain ⟨⟨hstacked, hvars⟩, hbefore⟩ := hbounded
      have hupper := (hbefore.trans_le hle).trans hlt
      exact bounded_of_ordered hadds.pending_eq (hadds.ordered ⟨hstacked, hvars⟩ hupper)
  | statement hpending hmark hstates =>
      rw [hpending] at hbounded
      have hpending' := hstates.pending_eq.trans hpending
      exact bounded_of_ordered hpending' (hstates.ordered (hbounded.mono hle) hlt)
  | selector events hpending hmark hheader =>
      rw [hpending] at hbounded
      obtain ⟨hstacked, hvars⟩ := hbounded.mono hle
      exact bounded_of_ordered hpending ⟨⟨hlt, .nil, .nil, hstacked⟩, hvars.mono hlt.le⟩
  | opened hpending hmark htext hheader =>
      rw [hpending] at hbounded
      obtain ⟨hstacked, hvars⟩ := hbounded.mono hle
      exact ⟨⟨hstacked, hvars⟩, hlt⟩
  | closed hpending hmark hstates hopened =>
      rw [hpending] at hbounded
      have hordered := hstates.ordered (hbounded.mono hle) hlt
      refine bounded_of_ordered ?_ (ordered_close hordered hopened)
      rw [pending_attach]
      exact hstates.pending_eq.trans hpending
  | ended hpending hmark hopen hstates =>
      rw [hpending] at hbounded
      have hpending' := hstates.pending_eq.trans hpending
      exact bounded_of_ordered hpending' (hstates.ordered (hbounded.mono hle) hlt)

/-- A run over segments in order keeps all that is attached in order. -/
theorem Steps.bounded {e e' : Extraction} {segs : List Segment} (h : Steps e segs e')
    {lower : Position} (hbounded : e.Bounded lower) (hlower : ∀ s ∈ segs, lower ≤ s.position)
    (hordered : segs.Pairwise fun s t => s.position < t.position) : ∃ upper, e'.Bounded upper := by
  induction h generalizing lower with
  | done e => exact ⟨lower, hbounded⟩
  | @next e e' e'' s segs hok hrest ih =>
      obtain ⟨hbehind, hordered⟩ := List.pairwise_cons.1 hordered
      have hstep : e'.Bounded (s.position.next ' ') :=
        (step_of_ok hok).bounded hbounded (hlower s List.mem_cons_self) (s.position.lt_next ' ')
      refine ih hstep (fun t ht => ?_) hordered
      exact Position.next_le_of_lt (by decide) (hbehind t ht)

/-- The rules and variables of a source that is accepted have the shape of a file. -/
theorem shaped_of_run {source : Text} {e : Extraction} (h : run source = .ok e) :
    Shaped e.content.rules e.content.vars := by
  obtain ⟨hpositions, hordered⟩ := (Cursor.start source).segments_ordered
  have hstart : start.Bounded .start := ⟨⟨by decide, .nil⟩, .nil⟩
  obtain ⟨upper, hbounded⟩ := (run_ok_iff.1 h).2.bounded hstart (fun s hs => (hpositions s hs).1) <|
    hordered.imp_of_mem fun hs _ hlt => (hpositions _ hs).2.trans_lt hlt
  obtain ⟨hpending, hopened⟩ := settled_of_run h
  unfold Bounded at hbounded
  rw [hpending] at hbounded
  obtain ⟨hstacked, hvars⟩ := hbounded
  rw [hopened] at hstacked
  exact hstacked.2.shaped hvars

end Extraction

/-- Every file of a tree has the shape of a file, whether the tree is loaded from a path or from a
text. -/
theorem Workspace.shaped_of_load {w : Workspace} {loaded : Loaded}
    (h : (∃ root, (w.load root).result = .ok loaded) ∨
      ∃ source path, (w.loadSource source path).result = .ok loaded) :
    ∀ f ∈ loaded.file.files, Shaped f.rules f.vars := by
  have hextracted : ∀ f ∈ loaded.file.files, Extracted f := by
    rcases h with ⟨root, hload⟩ | ⟨source, path, hload⟩
    · exact (unfolds_of_loadFrom hload).extracted
    · exact extracted_of_loadSource hload
  intro f hf
  obtain ⟨source, e, hrun, hrules, hvars⟩ := hextracted f hf
  rw [hrules, hvars]
  exact Extraction.shaped_of_run hrun

theorem Workspace.shaped_of_load_nested :
    ∃ loaded, ((⟨⟨[], [], []⟩, none⟩ : Workspace).loadSource
        "$n: 1; .a { top: 0; .b { .c { } left: 0 } @media x { y } right: 0 } $m: 2; .d { }".toList
        "a.scss".toList).result = .ok loaded ∧
      (Rule.allPreorder loaded.file.rules).map (fun r => r.place.depth) = [1, 2, 3, 2, 1] ∧
      ∀ f ∈ loaded.file.files, Shaped f.rules f.vars := by
  have hdepths : ((⟨⟨[], [], []⟩, none⟩ : Workspace).loadSource
      "$n: 1; .a { top: 0; .b { .c { } left: 0 } @media x { y } right: 0 } $m: 2; .d { }".toList
      "a.scss".toList).result.toOption.map (fun loaded =>
        (Rule.allPreorder loaded.file.rules).map fun r => r.place.depth) =
          some [1, 2, 3, 2, 1] := by
    decide +kernel
  obtain ⟨loaded, hload, hrules⟩ := exists_ok_of_toOption_map hdepths
  exact ⟨loaded, hload, hrules, shaped_of_load (.inr ⟨_, _, hload⟩)⟩

end Stylesheet
