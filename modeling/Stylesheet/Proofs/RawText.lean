import Stylesheet.Proofs.Nodes
import Stylesheet.Proofs.Rescanning
import Stylesheet.Proofs.Shape
import Stylesheet.Proofs.Sources

/-! What is kept as text stands for itself.

A rule that is kept as text is a statement of no known shape, or a block whose segments are written
down again with single spaces between them. Such segments are read again as they were
(`Cursor.segments_written`), so the text is taken apart into the same statement, or into the same
header and the same body (`Capture.Grows.like`), and is kept as text once more. -/

namespace Stylesheet

/-! ### Captured blocks -/

namespace Capture

/-- A capture grows over segments, the last of which closes the block, into the block's body. -/
inductive Grows : Capture → List Segment → Text → Prop
  | done {c : Capture} {s : Segment} {m : Mark} {body : Text} (hmark : s.terminator = some m)
      (hstep : c.step s.text m = .done body) : Grows c [s] body
  | more {c longer : Capture} {s : Segment} {m : Mark} {segs : List Segment} {body : Text}
      (hmark : s.terminator = some m) (hstep : c.step s.text m = .more longer)
      (h : Grows longer segs body) : Grows c (s :: segs) body

theorem grows_of_body? {c : Capture} {segs : List Segment} {body : Text}
    (h : c.body? segs = some body) : ∃ inner rest, segs = inner ++ rest ∧ c.Grows inner body := by
  induction segs generalizing c with
  | nil => cases h
  | cons s segs ih =>
      cases hmark : s.terminator with
      | none =>
          simp only [body?, hmark] at h
          cases h
      | some m =>
          simp only [body?, hmark] at h
          cases hstep : c.step s.text m with
          | done body' =>
              rw [hstep] at h
              cases h
              exact ⟨[s], segs, rfl, .done hmark hstep⟩
          | more longer =>
              rw [hstep] at h
              obtain ⟨inner, rest, rfl, hgrows⟩ := ih h
              exact ⟨s :: inner, rest, rfl, .more hmark hstep hgrows⟩

/-- Only the texts and marks of the segments count. -/
theorem Grows.like {c : Capture} {segs segs' : List Segment} {body : Text} (h : c.Grows segs body)
    (hlike : List.Forall₂ Segment.Like segs segs') : c.Grows segs' body := by
  induction h generalizing segs' with
  | done hmark hstep =>
      obtain _ | ⟨⟨htext, hterminator⟩, _ | _⟩ := hlike
      exact .done (hterminator ▸ hmark) (htext ▸ hstep)
  | more hmark hstep _ ih =>
      obtain _ | ⟨⟨htext, hterminator⟩, hrest⟩ := hlike
      exact .more (hterminator ▸ hmark) (htext ▸ hstep) (ih hrest)

theorem Grows.marked {c : Capture} {segs : List Segment} {body : Text} (h : c.Grows segs body) :
    ∀ s ∈ segs, s.terminator ≠ none := by
  induction h with
  | done hmark => exact List.forall_mem_singleton.2 (by simp [hmark])
  | more hmark _ _ ih => exact List.forall_mem_cons.2 ⟨by simp [hmark], ih⟩

/-- Texts with a space before each. -/
def spread (parts : List Text) : Text :=
  parts.flatMap (' ' :: ·)

@[simp]
theorem spread_append (left right : List Text) :
    spread (left ++ right) = spread left ++ spread right :=
  List.flatMap_append

@[simp]
theorem spread_nil : spread [] = [] :=
  rfl

@[simp]
theorem spread_cons (part : Text) (parts : List Text) :
    spread (part :: parts) = ' ' :: part ++ spread parts :=
  List.flatMap_cons

/-- A text before a closing brace is one more part, unless it is empty. -/
theorem spread_close {parts : List Text} {s : Segment} (hmark : s.terminator = some .closeBrace)
    (hparts : ∀ part ∈ parts, part ≠ []) :
    (∀ part ∈ if s.text.isEmpty then parts else parts ++ [s.text], part ≠ []) ∧
      spread (if s.text.isEmpty then parts else parts ++ [s.text]) ++ [' ', '}'] =
        spread parts ++ ' ' :: s.written := by
  by_cases hnil : s.text = []
  · rw [if_pos (by simpa using hnil)]
    exact ⟨hparts, by simp [Segment.written, hmark, hnil, Mark.char]⟩
  · rw [if_neg (by simpa using hnil)]
    refine ⟨List.forall_mem_append.2 ⟨hparts, List.forall_mem_singleton.2 hnil⟩, ?_⟩
    simp [Segment.written, hmark, hnil, Mark.char]

/-- A segment that goes into the block is one more part as it is written down. -/
theorem spread_step {c longer : Capture} {s : Segment} {m : Mark} (hmark : s.terminator = some m)
    (hstep : c.step s.text m = .more longer) (hparts : ∀ part ∈ c.parts, part ≠ []) :
    (∀ part ∈ longer.parts, part ≠ []) ∧
      spread longer.parts = spread c.parts ++ ' ' :: s.written := by
  cases m with
  | semicolon =>
      cases hstep
      refine ⟨List.forall_mem_append.2 ⟨hparts, by simp⟩, ?_⟩
      simp [Segment.written, hmark]
  | openBrace =>
      cases hstep
      by_cases hnil : s.text = []
      · refine ⟨List.forall_mem_append.2 ⟨hparts, by simp [hnil]⟩, ?_⟩
        simp [Segment.written, hmark, hnil, Mark.char]
      · refine ⟨List.forall_mem_append.2 ⟨hparts, by simp [hnil]⟩, ?_⟩
        simp [Segment.written, hmark, hnil, Mark.char]
  | closeBrace =>
      obtain ⟨hne, hspread⟩ := spread_close hmark hparts
      cases hdepth : c.depth with
      | zero =>
          simp only [step, hdepth] at hstep
          cases hstep
      | succ outer =>
          simp only [step, hdepth] at hstep
          cases hstep
          refine ⟨List.forall_mem_append.2 ⟨hne, by simp⟩, ?_⟩
          rw [← hspread]
          simp

/-- The segment that closes the block brings its last part, if it has a text. -/
theorem spread_done {c : Capture} {s : Segment} {m : Mark} {body : Text}
    (hmark : s.terminator = some m) (hstep : c.step s.text m = .done body)
    (hparts : ∀ part ∈ c.parts, part ≠ []) :
    ∃ parts, (∀ part ∈ parts, part ≠ []) ∧ body = Text.join [' '] parts ∧
      spread parts ++ [' ', '}'] = spread c.parts ++ ' ' :: s.written := by
  cases m with
  | semicolon => cases hstep
  | openBrace => cases hstep
  | closeBrace =>
      obtain ⟨hne, hspread⟩ := spread_close hmark hparts
      cases hdepth : c.depth with
      | succ outer =>
          simp only [step, hdepth] at hstep
          cases hstep
      | zero =>
          simp only [step, hdepth] at hstep
          cases hstep
          exact ⟨_, hne, rfl, hspread⟩

theorem Grows.parts {c : Capture} {segs : List Segment} {body : Text} (h : c.Grows segs body)
    (hparts : ∀ part ∈ c.parts, part ≠ []) :
    ∃ parts, (∀ part ∈ parts, part ≠ []) ∧ body = Text.join [' '] parts ∧
      spread parts ++ [' ', '}'] = spread c.parts ++ segs.flatMap fun s => ' ' :: s.written := by
  induction h with
  | done hmark hstep =>
      obtain ⟨parts, hne, hbody, hspread⟩ := spread_done hmark hstep hparts
      exact ⟨parts, hne, hbody, by simpa [spread] using hspread⟩
  | more hmark hstep _ ih =>
      obtain ⟨hne, hspread⟩ := spread_step hmark hstep hparts
      obtain ⟨parts, hne', hbody, hrest⟩ := ih hne
      refine ⟨parts, hne', hbody, ?_⟩
      rw [hrest, hspread]
      simp [spread]

theorem spread_eq_join {parts : List Text} (hne : parts ≠ []) :
    spread parts = ' ' :: Text.join [' '] parts := by
  induction parts with
  | nil => exact absurd rfl hne
  | cons part parts ih =>
      by_cases hnil : parts = []
      · simp [hnil, Text.join]
      · obtain ⟨next, others, rfl⟩ := List.exists_cons_of_ne_nil hnil
        rw [spread_cons, ih hnil]
        simp [Text.join, List.intercalate]

theorem join_ne_nil {parts : List Text} (hne : parts ≠ []) (h : ∀ part ∈ parts, part ≠ []) :
    Text.join [' '] parts ≠ [] := by
  obtain ⟨part, parts, rfl⟩ := List.exists_cons_of_ne_nil hne
  have hspread := spread_eq_join hne
  intro hnil
  rw [hnil, spread_cons] at hspread
  have hpart : part = [] ∧ spread parts = [] := by simpa using hspread
  exact h part List.mem_cons_self hpart.1

theorem blockText_join {parts : List Text} (h : ∀ part ∈ parts, part ≠ []) (header : Text) :
    blockText header (Text.join [' '] parts) =
      header ++ [' ', '{'] ++ spread parts ++ [' ', '}'] := by
  unfold blockText
  by_cases hnil : parts = []
  · subst hnil
    simp [Text.join, List.intercalate]
  · rw [if_neg (by simpa using join_ne_nil hnil h), spread_eq_join hnil]
    simp

/-- The text of a block is its header and the segments inside it as they are written down. -/
theorem Grows.blockText_eq {segs : List Segment} {body : Text}
    (h : Capture.empty.Grows segs body) (header : Text) :
    blockText header body = header ++ [' ', '{'] ++ segs.flatMap fun s => ' ' :: s.written := by
  obtain ⟨parts, hne, rfl, hspread⟩ := h.parts (List.forall_mem_nil _)
  rw [blockText_join hne, List.append_assoc, hspread]
  rfl

/-- Reading the segments of a block completes it. -/
theorem Grows.steps {c : Capture} {segs : List Segment} {header body : Text} {p : Position}
    {e : Extraction} (h : c.Grows segs body) (hpending : e.pending = some ⟨header, p, c⟩) :
    Extraction.Steps e segs (e.complete header p body) := by
  induction h generalizing e with
  | @done c s m body hmark hstep =>
      have hok : e.step (.ok s) = .ok (e.complete header p body) := by
        simp [Extraction.step, hpending, Extraction.capture, hmark, hstep]
      exact .next hok (.done _)
  | @more c longer s m segs body hmark hstep _ ih =>
      have hok : e.step (.ok s) = .ok { e with pending := some ⟨header, p, longer⟩ } := by
        simp [Extraction.step, hpending, Extraction.capture, hmark, hstep]
      exact .next hok (ih (e := { e with pending := some ⟨header, p, longer⟩ }) rfl)

end Capture

/-! ### Texts taken apart alone -/

/-- A text that is taken apart into one rule which keeps the whole of it. -/
def KeptWhole (t : Text) : Prop :=
  ∃ e, Extraction.run t = .ok e ∧ e.content = ⟨[.block ⟨1, .start⟩ (.raw t)], [], []⟩

namespace Extraction

theorem Steps.append {e e' e'' : Extraction} {front back : List Segment} (h : Steps e front e')
    (h' : Steps e' back e'') : Steps e (front ++ back) e'' := by
  induction h with
  | done e => exact h'
  | next hok _ ih => exact .next hok (ih h')

/-- A source whose segments can all be read, up to the one that ends it, is accepted. -/
theorem run_of_steps {t : Text} {segs : List Segment} {last : Segment} {e : Extraction}
    (hmark : t.head? ≠ some '\ufeff') (hsegments : Cursor.segments ⟨.start, t⟩ = segs ++ [last])
    (hend : last.terminator = none) (hsteps : Steps start (segs ++ [last]) e) :
    run t = .ok e := by
  rw [run_ok_iff, Cursor.start_of_head? hmark]
  refine ⟨⟨last, ?_, hend⟩, ?_⟩
  · rw [hsegments]
    exact List.mem_append_right segs (List.mem_singleton_self last)
  · rwa [hsegments]

variable {c : Cursor} {s : Segment}

/-- A statement of no known shape is read again as the same statement. -/
theorem keptWhole_of_statement (hs : c.next.outcome = .ok s) (hne : s.text ≠ [])
    (himport : ImportStatement.ofStatement? s.text = none)
    (hvar : Assignment.ofStatement? s.text = none) (hmark : s.text.head? ≠ some '\ufeff') :
    KeptWhole s.text := by
  have hsegments := Cursor.segments_of_end (Cursor.next_text hs .start) rfl
  have hok : start.step (.ok ⟨s.text, .start, none, Position.start.after s.text⟩) =
      .ok (start.statement s.text .start) := rfl
  have hsteps : Steps start ([] ++ [⟨s.text, .start, none, Position.start.after s.text⟩])
      (start.statement s.text .start) := .next hok (.done _)
  refine ⟨_, run_of_steps hmark hsegments rfl hsteps, ?_⟩
  simp only [statement, List.isEmpty_iff, hne, if_false, fileStatement, himport, hvar]
  by_cases hat : s.text.head? = some '@'
  · rw [if_pos hat]
    rfl
  · rw [if_neg hat]
    rfl

/-- A block that is kept as text is read again as the same header and the same body. -/
theorem keptWhole_of_block {inner : List Segment} {body : Text} (hs : c.next.outcome = .ok s)
    (hopen : s.terminator = some .openBrace) (hne : s.text ≠ [])
    (hheader : Header.IsOpaque s.text) (hgrows : Capture.empty.Grows inner body)
    (hinner : ∀ s ∈ inner, ∃ c : Cursor, c.next.outcome = .ok s)
    (hnode : capturedNode false s.text body = .inl (.raw (blockText s.text body)))
    (hmark : (blockText s.text body).head? ≠ some '\ufeff') :
    KeptWhole (blockText s.text body) := by
  have htext : blockText s.text body = s.written ++ inner.flatMap fun s => ' ' :: s.written := by
    rw [hgrows.blockText_eq]
    simp [Segment.written, hopen, hne, Mark.char]
  obtain ⟨first, q, hnext, hlike, hposition⟩ :=
    Cursor.next_written hs hopen .start (inner.flatMap fun s => ' ' :: s.written)
  obtain ⟨inner', last, hrest, hlikes, hlast, hend⟩ :=
    Cursor.segments_written (fun s hs => ⟨hgrows.marked s hs, hinner s hs⟩) q
  have hsegments : Cursor.segments ⟨.start, blockText s.text body⟩ =
      (first :: inner') ++ [last] := by
    rw [htext, Cursor.segments_of_mark (congrArg Scan.outcome hnext) (hlike.2.symm.trans hopen),
      hnext, hrest]
    rfl
  have hopened : start.step (.ok first) =
      .ok { start with pending := some ⟨s.text, .start, .empty⟩ } := by
    have hopens := openBlock_of_isOpaque hne hheader start .start
    rw [hlike.1, ← hposition] at hopens
    simpa [step, start, advance, ← hlike.2, hopen, hlike.1, hposition] using hopens
  have hsteps := (hgrows.like hlikes).steps
    (e := { start with pending := some ⟨s.text, .start, .empty⟩ }) rfl
  have hcomplete : (start.complete s.text .start body) =
      start.attach (.block ⟨1, .start⟩ (.raw (blockText s.text body))) := by
    simp [complete, start, hnode, depth]
  have hfinal : (start.complete s.text .start body).step (.ok last) =
      .ok (start.complete s.text .start body) := by
    rw [hcomplete]
    simp [step, advance, hend, statement, hlast, attach, start, note]
  refine ⟨_, run_of_steps hmark hsegments hend
    ((Steps.next hopened hsteps).append (.next hfinal (.done _))), ?_⟩
  rw [hcomplete]
  rfl

end Extraction

/-- A block that is kept as text in a selector is kept as text outside of it too. -/
theorem capturedNode_raw {nested : Bool} {header body t : Text}
    (h : capturedNode nested header body = .inl (.raw t)) :
    t = blockText header body ∧ capturedNode false header body = .inl (.raw t) := by
  unfold capturedNode at h ⊢
  cases hdirective : Text.directive? "@include".toList header with
  | some rest =>
      rw [hdirective] at h
      dsimp only at h
      have htext : t = blockText header body := by
        split at h
        · cases h
        · cases h
          rfl
      exact ⟨htext, by rw [htext]; rfl⟩
  | none =>
      rw [hdirective] at h
      cases hheader : Header.ofText header with
      | mixin signature =>
          rw [hheader] at h
          cases nested with
          | false => cases h
          | true => cases h
      | animation name =>
          rw [hheader] at h
          cases h
      | function signature =>
          rw [hheader] at h
          cases h
      | selector text =>
          rw [hheader] at h
          cases h
          exact ⟨rfl, rfl⟩
      | other =>
          rw [hheader] at h
          cases h
          exact ⟨rfl, rfl⟩

/-! ### The rules of a file -/

mutual

theorem Rule.exists_placed {place : Place} {b : Block} (rule : Rule) (parent : Option Position)
    (h : .block place b ∈ rule.preorder) :
    ∃ parent', ⟨parent', place.position, .block b⟩ ∈ rule.placed parent := by
  cases rule with
  | selector outer header declarations children =>
      rw [Rule.preorder] at h
      rcases List.mem_cons.1 h with heq | h
      · cases heq
      · obtain ⟨parent', hmem⟩ := Rule.exists_allPlaced children (some outer.position) h
        exact ⟨parent', List.mem_append_right _ hmem⟩
  | block own b' =>
      cases List.mem_singleton.1 h
      exact ⟨parent, List.mem_singleton_self _⟩

/-- Blocks at any depth are among the nodes of a file. -/
theorem Rule.exists_allPlaced {place : Place} {b : Block} (rules : List Rule)
    (parent : Option Position) (h : .block place b ∈ Rule.allPreorder rules) :
    ∃ parent', ⟨parent', place.position, .block b⟩ ∈ Rule.allPlaced parent rules := by
  cases rules with
  | nil => cases h
  | cons rule rules =>
      rw [Rule.allPreorder] at h
      rcases List.mem_append.1 h with h | h
      · obtain ⟨parent', hmem⟩ := Rule.exists_placed rule parent h
        exact ⟨parent', List.mem_append_left _ hmem⟩
      · obtain ⟨parent', hmem⟩ := Rule.exists_allPlaced rules parent h
        exact ⟨parent', List.mem_append_right _ hmem⟩

end

/-- Every node comes from a segment of the source. -/
theorem YieldsAll.exists_segment {before segs : List Segment} {groups : List (List Placed)}
    {n : Placed} (h : YieldsAll before segs groups) (hn : n ∈ groups.flatten) :
    ∃ front s back group, segs = front ++ s :: back ∧ Yields (before ++ front) s back group ∧
      n ∈ group := by
  induction h with
  | nil before => cases hn
  | @cons before after s group groups hfirst _ ih =>
      rw [List.flatten_cons] at hn
      rcases List.mem_append.1 hn with hn | hn
      · exact ⟨[], s, after, group, rfl, by simpa using hfirst, hn⟩
      · obtain ⟨front, s', back, group', rfl, hyields, hmem⟩ := ih hn
        refine ⟨s :: front, s', back, group', rfl, ?_, hmem⟩
        rwa [List.append_assoc, List.singleton_append] at hyields

/-- An import statement stands at a position of a source. -/
def ImportsAt (source : Text) (p : Position) : Prop :=
  ∃ s ∈ (Cursor.start source).segments, s.position = p ∧ s.terminator ≠ some .openBrace ∧
    (ImportStatement.ofStatement? s.text).isSome

theorem StatementYields.raw_text {text t : Text} {p q : Position} {parent parent' : Option Position}
    {group : List Placed} (h : StatementYields text p parent group)
    (hmem : ⟨parent', q, .block (.raw t)⟩ ∈ group) :
    p = q ∧ ((ImportStatement.ofStatement? text).isSome ∨
      t = text ∧ text ≠ [] ∧ ImportStatement.ofStatement? text = none ∧
        Assignment.ofStatement? text = none) := by
  cases h with
  | empty => cases hmem
  | clause => cases List.mem_singleton.1 hmem
  | @imports statement htext hstatement =>
      refine ⟨?_, .inl (by rw [hstatement]; rfl)⟩
      rcases List.mem_append.1 hmem with hmem | hmem
      · obtain ⟨target, _, heq⟩ := List.mem_map.1 hmem
        cases heq
      · split at hmem
        · cases hmem
        · exact (Placed.mk.inj (List.mem_singleton.1 hmem)).2.1.symm
  | var => cases List.mem_singleton.1 hmem
  | raw htext hstatement hvar =>
      cases List.mem_singleton.1 hmem
      exact ⟨rfl, .inr ⟨rfl, htext, hstatement, hvar⟩⟩

theorem BlockYields.raw_text {header t : Text} {after : List Segment} {nested : Bool}
    (h : BlockYields header after nested (.block (.raw t))) :
    Header.IsOpaque header ∧ ∃ body inner rest, after = inner ++ rest ∧
      Capture.empty.Grows inner body ∧ t = blockText header body ∧
      capturedNode false header body = .inl (.raw t) := by
  cases h with
  | @rule body _ hheader hbody hnode =>
      obtain ⟨inner, rest, rfl, hgrows⟩ := Capture.grows_of_body? hbody
      obtain ⟨htext, hfree⟩ := capturedNode_raw hnode
      exact ⟨hheader, body, inner, rest, rfl, hgrows, htext, hfree⟩

/-- A rule that is kept as text, at any depth, is the whole of what its text holds. -/
theorem Extraction.keptWhole_of_mem {source t : Text} {e : Extraction} {place : Place}
    (hrun : run source = .ok e) (hmem : .block place (.raw t) ∈ Rule.allPreorder e.content.rules)
    (himport : ¬ImportsAt source place.position) (hmark : t.head? ≠ some '\ufeff') :
    KeptWhole t ∧ ∃ first ∈ t.head?, isBlank first = false := by
  obtain ⟨hend, hsteps⟩ := run_ok_iff.1 hrun
  obtain ⟨hpending, hopened⟩ := settled_of_run hrun
  obtain ⟨pending, groups, hnone, hall, hperm, _⟩ := hsteps.yields Tracks.start hpending
  obtain rfl := hnone.eq_nil rfl
  obtain ⟨parent, hplaced⟩ := Rule.exists_allPlaced _ none hmem
  have hgroups : ⟨parent, place.position, .block (.raw t)⟩ ∈ groups.flatten := by
    have hall : ⟨parent, place.position, .block (.raw t)⟩ ∈ e.placed :=
      List.mem_append_left _ (List.mem_append_left _ (List.mem_append_left _ hplaced))
    simpa [placed, start, Content.placed, Rule.allPlaced, OpenSelector.allPlaced]
      using hperm.subset hall
  obtain ⟨front, s, back, group, hsegs, hyields, hgroup⟩ := hall.exists_segment hgroups
  have hread : ∀ s' ∈ s :: back, ∃ c : Cursor, c.next.outcome = .ok s' := by
    intro s' hs'
    apply Cursor.exists_next_of_mem (c := Cursor.start source)
    rw [hsegs]
    exact List.mem_append_right front hs'
  obtain ⟨c, hc⟩ := hread s List.mem_cons_self
  have hfirst (hne : s.text ≠ []) : ∃ first ∈ s.text.head?, isBlank first = false := by
    obtain ⟨first, others, hfirst⟩ := List.exists_cons_of_ne_nil hne
    exact ⟨first, by rw [hfirst]; rfl, Cursor.next_visible hc first (by rw [hfirst]; rfl)⟩
  cases hyields with
  | captured => cases hgroup
  | block hout hopen hparent hnode =>
      obtain ⟨_, _, rfl⟩ := Placed.mk.inj (List.mem_singleton.1 hgroup)
      obtain ⟨hheader, body, inner, rest, rfl, hgrows, rfl, hfree⟩ := hnode.raw_text
      have hne : s.text ≠ [] :=
        fun hnil => hout ((balanced_of_run hrun).2 front s _ hsegs hopen hnil)
      refine ⟨keptWhole_of_block hc hopen hne hheader hgrows ?_ hfree hmark, ?_⟩
      · exact fun s' hs' => hread s' (List.mem_cons_of_mem s (List.mem_append_left rest hs'))
      · obtain ⟨first, hhead, hvisible⟩ := hfirst hne
        refine ⟨first, ?_, hvisible⟩
        rw [hgrows.blockText_eq, List.append_assoc, List.head?_append, hhead]
        rfl
  | statement hout hmark' hparent hstatement =>
      obtain ⟨hposition, hstatement | ⟨rfl, hne, hnone, hvar⟩⟩ := hstatement.raw_text hgroup
      · refine absurd ⟨s, ?_, hposition, hmark', hstatement⟩ himport
        rw [hsegs]
        exact List.mem_append_right front List.mem_cons_self
      · exact ⟨keptWhole_of_statement hc hne hnone hvar hmark, hfirst hne⟩

theorem KeptWhole.loadSource {t : Text} (h : KeptWhole t)
    (hvisible : ∃ first ∈ t.head?, isBlank first = false) (w : Workspace) (path : Path) :
    ∃ loaded, (w.loadSource t path).result = .ok loaded ∧
      loaded.file = ⟨path, [.block ⟨1, .start⟩ (.raw t)], [], []⟩ := by
  obtain ⟨e, hrun, hcontent⟩ := h
  obtain ⟨first, hfirst, hblank⟩ := hvisible
  have hnotBlank : Text.blank t = false := by
    rw [Text.blank, List.all_eq_false]
    exact ⟨first, List.mem_of_mem_head? hfirst, by simp [hblank]⟩
  refine ⟨Workspace.assemble path e [], ?_, ?_⟩
  · unfold Workspace.loadSource
    rw [Run.result_bind_of_ok rfl, if_neg (by simp [hnotBlank]), Workspace.result_build_of_ok hrun,
      hcontent]
    rfl
  · simp [Workspace.assemble, hcontent]

/-- What is kept as text stands for itself. Every rule of a tree that is kept as text, at any depth,
is what its own text comes to, whatever else there is and whatever path the text is given; only the
pieces of an import statement are not, and a byte order mark at the front would be dropped. -/
theorem Workspace.raw_text_stands_for_itself {w : Workspace} {origin : Origin} {loaded : Loaded}
    (h : (w.loadOrigin origin).result = .ok loaded) :
    ∃ sources, w.Sources origin loaded.file sources ∧
      ∀ f source, (f, source) ∈ loaded.file.files.zip sources →
        ∀ place t, .block place (.raw t) ∈ Rule.allPreorder f.rules →
          ¬ImportsAt source place.position → t.head? ≠ some '\ufeff' →
          ∀ (w' : Workspace) (path : Path), ∃ loaded',
            (w'.loadSource t path).result = .ok loaded' ∧
            loaded'.file = ⟨path, [.block ⟨1, .start⟩ (.raw t)], [], []⟩ := by
  obtain ⟨parts, hfiles, hsound, hsources, _⟩ := exists_parts h
  refine ⟨parts.map Part.source, hsources, fun f source hmem place t hrule himport hmark => ?_⟩
  rw [← hfiles, List.zip_map', List.mem_map] at hmem
  obtain ⟨part, hpart, heq⟩ := hmem
  cases heq
  have hpart := hsound part hpart
  rw [hpart.rules] at hrule
  obtain ⟨hkept, hvisible⟩ := Extraction.keptWhole_of_mem hpart.run hrule himport hmark
  exact fun w' path => hkept.loadSource hvisible w' path

/-- The use of a mixin that names none, with a block in a selector, and a brace in a string. -/
def includeWithoutName : Text :=
  ".s \x7b @include\x7bp:\"\x7d\";q(;)\x7d\x7d".toList

theorem Workspace.raw_text_stands_for_itself_nested :
    ∃ loaded, ((⟨⟨[], [], []⟩, none⟩ : Workspace).loadOrigin
        (.text includeWithoutName "a.scss".toList)).result = .ok loaded ∧
      .block ⟨2, ⟨1, 5⟩⟩ (.raw "@include \x7b p:\"\x7d\"; q(;) \x7d".toList) ∈
        Rule.allPreorder loaded.file.rules ∧
      ∀ (w' : Workspace) (path : Path), ∃ loaded',
        (w'.loadSource "@include \x7b p:\"\x7d\"; q(;) \x7d".toList path).result = .ok loaded' ∧
        loaded'.file = ⟨path,
          [.block ⟨1, .start⟩ (.raw "@include \x7b p:\"\x7d\"; q(;) \x7d".toList)], [], []⟩ := by
  have hrules : ((⟨⟨[], [], []⟩, none⟩ : Workspace).loadOrigin
      (.text includeWithoutName "a.scss".toList)).result.toOption.map
      (fun loaded => (Rule.allPreorder loaded.file.rules).any fun rule =>
        match rule with
        | .block place b =>
            place = ⟨2, ⟨1, 5⟩⟩ ∧ b = .raw "@include \x7b p:\"\x7d\"; q(;) \x7d".toList
        | .selector .. => false) = some true := by
    decide +kernel
  obtain ⟨loaded, hload, hany⟩ := exists_ok_of_toOption_map hrules
  obtain ⟨rule, hmem, hrule⟩ := List.any_eq_true.1 hany
  obtain ⟨sources, ⟨others, rfl, hothers⟩, hkept⟩ := raw_text_stands_for_itself hload
  have himport : ¬ImportsAt includeWithoutName ⟨1, 5⟩ := by
    unfold ImportsAt
    decide +kernel
  cases rule with
  | selector => cases hrule
  | block place b =>
      obtain ⟨rfl, rfl⟩ := of_decide_eq_true hrule
      refine ⟨loaded, hload, hmem, hkept loaded.file _ ?_ _ _ hmem himport (by decide)⟩
      rw [SourceFile.files_eq, List.zip_cons_cons]
      exact List.mem_cons_self

end Stylesheet
