import Mathlib.Data.Char
import Mathlib.Data.List.Forall2
import Mathlib.Data.List.Lex
import Mathlib.Data.List.Nodup
import Stylesheet.Outline
import Stylesheet.Proofs.Usage

/-! The nodes of a tree in pre-order.

A tree has a node for each file, variable, rule and declaration; a file stands over its variables,
its rules and the files it imports, a rule over its declarations and the rules inside it. The
outline and the counts of a tree are both read off one list: the nodes, each before those it stands
over (`TreeNode.walk`). The outline has a line for each of them (`TreeNode.line`) and the counts
have each of them under the names of its kind (`TreeNode.kinds`). -/

namespace Stylesheet

/-- A node of a tree. -/
inductive TreeNode where
  /-- A file, with the name by which it is imported unless it is the root. -/
  | file (name : Option Text) (f : SourceFile)
  | var (v : Variable)
  | rule (r : Rule)
  | declaration (d : Declaration)

namespace TreeNode

/-- The nodes right below a node, in order. -/
def children : TreeNode → List TreeNode
  | .file _ f =>
      f.vars.map .var ++ f.rules.map .rule ++ f.imports.map fun i => .file (some i.name) i.file
  | .var _ => []
  | .rule r => r.declarations.map .declaration ++ r.children.map .rule
  | .declaration _ => []

theorem sizeOf_lt_of_mem_children {node child : TreeNode} (h : child ∈ node.children) :
    sizeOf child < sizeOf node := by
  cases node with
  | file name f =>
      obtain ⟨path, rules, vars, imports⟩ := f
      simp only [children, List.mem_append, List.mem_map] at h
      rcases h with (⟨v, hv, rfl⟩ | ⟨r, hr, rfl⟩) | ⟨i, hi, rfl⟩
      · have hlt := List.sizeOf_lt_of_mem hv
        simp only [file.sizeOf_spec, var.sizeOf_spec, SourceFile.mk.sizeOf_spec]
        omega
      · have hlt := List.sizeOf_lt_of_mem hr
        simp only [file.sizeOf_spec, rule.sizeOf_spec, SourceFile.mk.sizeOf_spec]
        omega
      · have hlt := List.sizeOf_lt_of_mem hi
        obtain ⟨name', f⟩ := i
        simp only [file.sizeOf_spec, SourceFile.mk.sizeOf_spec, ImportedFile.mk.sizeOf_spec,
          Option.some.sizeOf_spec] at hlt ⊢
        omega
  | var v => cases h
  | rule r =>
      cases r with
      | selector place header declarations rules =>
          simp only [children, Rule.declarations, Rule.children, List.mem_append, List.mem_map] at h
          rcases h with ⟨d, hd, rfl⟩ | ⟨r, hr, rfl⟩
          · have hlt := List.sizeOf_lt_of_mem hd
            simp only [declaration.sizeOf_spec, rule.sizeOf_spec, Rule.selector.sizeOf_spec]
            omega
          · have hlt := List.sizeOf_lt_of_mem hr
            simp only [rule.sizeOf_spec, Rule.selector.sizeOf_spec]
            omega
      | block place b => cases h
  | declaration d => cases h

/-- A node at a level and all nodes below it with their levels, each before those below it. -/
def walk (level : Nat) (node : TreeNode) : List (Nat × TreeNode) :=
  (level, node) :: node.children.attach.flatMap fun child => walk (level + 1) child.1
termination_by node
decreasing_by exact sizeOf_lt_of_mem_children child.2

theorem walk_eq (level : Nat) (node : TreeNode) :
    node.walk level = (level, node) :: node.children.flatMap (walk (level + 1)) := by
  rw [walk]
  simp

/-- What holds of a node if it holds of the nodes right below it holds of every node. -/
theorem inductionOn {motive : TreeNode → Prop} (node : TreeNode)
    (step : ∀ node : TreeNode, (∀ child ∈ node.children, motive child) → motive node) :
    motive node :=
  step node fun child _ => inductionOn child step
termination_by node
decreasing_by exact sizeOf_lt_of_mem_children (by assumption)

/-! ### Lines -/

/-- What is shown of a text in at most fifty characters. -/
structure Abridges (shown t : Text) : Prop where
  bound : shown.length ≤ 50
  whole : t.length ≤ 50 → shown = t
  cut : 50 < t.length → shown = t.take 47 ++ "...".toList

/-- The line of a node at a level. It starts with two spaces for each level and ends in a line feed;
of a path it shows all, of any other text at most fifty characters. -/
inductive IsLine (level : Nat) : TreeNode → Text → Prop
  | root (f : SourceFile) :
      IsLine level (.file none f)
        (List.replicate (2 * level) ' ' ++ "FILE ".toList ++ f.path ++ ['\n'])
  | imported (name : Text) (f : SourceFile) :
      IsLine level (.file (some name) f)
        (List.replicate (2 * level) ' ' ++ "IMPORT ".toList ++ name ++ " (".toList ++ f.path ++
          [')', '\n'])
  | var (v : Variable) {shown : Text} (h : Abridges shown v.value.text) :
      IsLine level (.var v)
        (List.replicate (2 * level) ' ' ++ "VARIABLE[".toList ++ v.position.text ++ "] $".toList ++
          v.name ++ ": ".toList ++ shown ++ ['\n'])
  | rule (r : Rule) {shown : Text} (h : Abridges shown r.label) :
      IsLine level (.rule r)
        (List.replicate (2 * level) ' ' ++ r.typeName ++ '[' :: r.place.position.text ++
          "] depth ".toList ++ Text.ofNat r.place.depth ++ " '".toList ++ shown ++ ['\'', '\n'])
  | declaration (d : Declaration) {shown : Text} (h : Abridges shown d.clause.text) :
      IsLine level (.declaration d)
        (List.replicate (2 * level) ' ' ++ d.clause.typeName ++ '[' :: d.position.text ++
          "] '".toList ++ shown ++ ['\'', '\n'])

/-- The line that the outline has for a node. -/
def line (level : Nat) : TreeNode → Text
  | .file none f => Outline.pad level ++ "FILE ".toList ++ f.path ++ ['\n']
  | .file (some name) f =>
      Outline.pad level ++ "IMPORT ".toList ++ name ++ " (".toList ++ f.path ++ [')', '\n']
  | .var v => Outline.variableLine level v
  | .rule r => Outline.ruleLine level r
  | .declaration d => Outline.declarationLine level d

/-- The lines that the outline has for a node and the nodes below it. -/
def lines (level : Nat) : TreeNode → Text
  | .file name f => line level (.file name f) ++ Outline.body level f
  | .var v => line level (.var v)
  | .rule r => Outline.rule level r
  | .declaration d => line level (.declaration d)

theorem abridges_shorten (t : Text) : Abridges (Outline.shorten t) t := by
  unfold Outline.shorten Outline.width
  split
  · next hlong =>
    refine ⟨?_, fun hshort => absurd hshort (by omega), fun _ => rfl⟩
    rw [List.length_append, List.length_take]
    have hdots : "...".toList.length = 3 := rfl
    omega
  · next hshort => exact ⟨by omega, fun _ => rfl, fun hlong => absurd hlong hshort⟩

theorem isLine_line (level : Nat) (node : TreeNode) : IsLine level node (node.line level) := by
  cases node with
  | file name f =>
      cases name with
      | none => exact .root f
      | some name => exact .imported name f
  | var v => exact .var v (abridges_shorten _)
  | rule r => exact .rule r (abridges_shorten _)
  | declaration d => exact .declaration d (abridges_shorten _)

theorem rules_eq_flatMap (level : Nat) (rs : List Rule) :
    Outline.rules level rs = rs.flatMap (Outline.rule level) := by
  induction rs with
  | nil => rfl
  | cons r rs ih => rw [Outline.rules, ih, List.flatMap_cons]

theorem importedFiles_eq_flatMap (level : Nat) (imports : List ImportedFile) :
    Outline.importedFiles level imports =
      imports.flatMap fun i => lines level (.file (some i.name) i.file) := by
  induction imports with
  | nil => rfl
  | cons i imports ih =>
      obtain ⟨name, f⟩ := i
      rw [Outline.importedFiles, ih, List.flatMap_cons]
      rfl

/-- The lines of a node are its own line and those of the nodes right below it. -/
theorem lines_eq (level : Nat) (node : TreeNode) :
    node.lines level = node.line level ++ node.children.flatMap (lines (level + 1)) := by
  cases node with
  | file name f =>
      obtain ⟨path, rules, vars, imports⟩ := f
      rw [lines, Outline.body, rules_eq_flatMap, importedFiles_eq_flatMap]
      simp only [children, List.flatMap_append, List.flatMap_map]
      rfl
  | var v => exact (List.append_nil _).symm
  | rule r =>
      cases r with
      | selector place header declarations rules =>
          rw [lines, Outline.rule, rules_eq_flatMap]
          simp only [children, Rule.declarations, Rule.children, List.flatMap_append,
            List.flatMap_map, List.append_assoc]
          rfl
      | block place b => exact (List.append_nil _).symm
  | declaration d => exact (List.append_nil _).symm

theorem lines_eq_walk (level : Nat) (node : TreeNode) :
    node.lines level = (node.walk level).flatMap fun n => n.2.line n.1 := by
  induction node using inductionOn generalizing level with
  | step node ih =>
      rw [lines_eq, walk_eq, List.flatMap_cons, List.flatMap_assoc]
      exact congrArg (node.line level ++ ·)
        (List.flatMap_congr fun child hchild => ih child hchild _)

end TreeNode

/-! ### Counts -/

namespace NodeCounts

/-- Every kind is counted once, in the order of the names. -/
def Sorted (counts : NodeCounts) : Prop :=
  (counts.map Prod.fst).Pairwise (· < ·)

/-- The counts with the entries of a list added one after another. -/
def addAll (counts : NodeCounts) (entries : List (Text × Nat)) : NodeCounts :=
  entries.foldl (fun counts e => add e.1 e.2 counts) counts

/-- How much a list of entries adds to a kind. -/
def total (kind : Text) : List (Text × Nat) → Nat
  | [] => 0
  | e :: entries => (if e.1 = kind then e.2 else 0) + total kind entries

theorem total_append (kind : Text) (s t : List (Text × Nat)) :
    total kind (s ++ t) = total kind s + total kind t := by
  induction s with
  | nil => exact (Nat.zero_add _).symm
  | cons e s ih => rw [List.cons_append, total, total, ih, Nat.add_assoc]

theorem total_map (kind : Text) (n : Nat) (kinds : List Text) :
    total kind (kinds.map (·, n)) = n * kinds.count kind := by
  induction kinds with
  | nil => rfl
  | cons other kinds ih =>
      rw [List.map_cons, total, ih, List.count_cons]
      by_cases h : other = kind
      · simp [h, Nat.mul_add, Nat.add_comm]
      · simp [h]

theorem total_eq_zero {kind : Text} {entries : List (Text × Nat)}
    (h : kind ∉ entries.map Prod.fst) : total kind entries = 0 := by
  induction entries with
  | nil => rfl
  | cons e entries ih =>
      rw [List.map_cons, List.mem_cons, not_or] at h
      rw [total, if_neg (Ne.symm h.1), ih h.2]

theorem before_iff (s t : Text) : before s t = true ↔ s < t := by
  induction s generalizing t with
  | nil => cases t <;> simp [before]
  | cons c s ih =>
      cases t with
      | nil => simp [before]
      | cons d t => simp [before, ih, List.cons_lt_cons_iff]

theorem add_add (kind : Text) (m n : Nat) (counts : NodeCounts) :
    add kind m (add kind n counts) = add kind (n + m) counts := by
  induction counts with
  | nil => simp [add]
  | cons entry counts ih =>
      obtain ⟨other, k⟩ := entry
      by_cases hkind : kind = other
      · simp [add, hkind, Nat.add_assoc]
      · by_cases hbefore : before kind other = true
        · simp [add, hkind, hbefore]
        · simp [add, hkind, hbefore, ih]

theorem mem_keys_add {kind other : Text} {n : Nat} {counts : NodeCounts}
    (h : other ∈ (add kind n counts).map Prod.fst) :
    other = kind ∨ other ∈ counts.map Prod.fst := by
  induction counts with
  | nil => simpa [add] using h
  | cons entry counts ih =>
      obtain ⟨first, k⟩ := entry
      rw [add] at h
      split at h
      · exact .inr h
      split at h
      · simpa using h
      · rcases List.mem_cons.1 h with rfl | h
        · exact .inr List.mem_cons_self
        · exact (ih h).imp_right (List.mem_cons_of_mem _)

theorem sorted_add {counts : NodeCounts} (h : Sorted counts) (kind : Text) (n : Nat) :
    Sorted (add kind n counts) := by
  induction counts with
  | nil => exact List.pairwise_singleton _ _
  | cons entry counts ih =>
      obtain ⟨first, k⟩ := entry
      obtain ⟨hfirst, hcounts⟩ := List.pairwise_cons.1 h
      rw [add]
      split
      · exact h
      next hne =>
      split
      · next hbefore =>
        have hlt := (before_iff kind first).1 hbefore
        refine List.pairwise_cons.2 ⟨?_, h⟩
        refine List.forall_mem_cons.2 ⟨hlt, fun other hother => ?_⟩
        exact lt_trans hlt (hfirst other hother)
      · next hbefore =>
        have hlt : first < kind := by
          rw [before_iff] at hbefore
          exact lt_of_le_of_ne (not_lt.1 hbefore) (Ne.symm hne)
        refine List.pairwise_cons.2 ⟨fun other hother => ?_, ih hcounts⟩
        rcases mem_keys_add hother with rfl | hother
        · exact hlt
        · exact hfirst other hother

theorem lookup_cons (kind first : Text) (k : Nat) (counts : NodeCounts) :
    List.lookup kind ((first, k) :: counts) =
      if kind = first then some k else counts.lookup kind := by
  rw [List.lookup_cons]
  by_cases h : kind = first
  · rw [if_pos h, beq_iff_eq.2 h]
  · rw [if_neg h, beq_eq_false_iff_ne.2 h]

theorem lookup_eq_none {kind : Text} {counts : NodeCounts}
    (h : ∀ other ∈ counts.map Prod.fst, kind < other) : counts.lookup kind = none := by
  refine List.lookup_eq_none_iff.2 fun entry hentry => ?_
  have hlt := h entry.1 (List.mem_map_of_mem hentry)
  simpa using ne_of_lt hlt

/-- Only the count of the kind that is added changes. -/
theorem lookup_add {counts : NodeCounts} (h : Sorted counts) (kind other : Text) (n : Nat) :
    (add kind n counts).lookup other =
      if other = kind then some ((counts.lookup kind).getD 0 + n) else counts.lookup other := by
  induction counts with
  | nil => exact (lookup_cons other kind n []).trans (by simp)
  | cons entry counts ih =>
      obtain ⟨first, k⟩ := entry
      obtain ⟨hfirst, hcounts⟩ := List.pairwise_cons.1 h
      rw [add]
      split
      · next heq =>
        subst heq
        by_cases hother : other = kind
        · rw [hother, lookup_cons, if_pos rfl, if_pos rfl, lookup_cons, if_pos rfl,
            Option.getD_some]
        · rw [lookup_cons, if_neg hother, if_neg hother, lookup_cons, if_neg hother]
      next hne =>
      split
      · next hbefore =>
        have hlt := (before_iff kind first).1 hbefore
        have hnone : List.lookup kind ((first, k) :: counts) = none := by
          refine lookup_eq_none (List.forall_mem_cons.2 ⟨hlt, fun other hother => ?_⟩)
          exact lt_trans hlt (hfirst other hother)
        rw [lookup_cons other kind, hnone, Option.getD_none, Nat.zero_add]
      · rw [lookup_cons, ih hcounts, lookup_cons kind, if_neg hne, lookup_cons other]
        by_cases hother : other = first
        · have hne' : other ≠ kind := fun heq => hne (heq.symm.trans hother)
          rw [if_pos hother, if_neg hne', if_pos hother]
        · rw [if_neg hother, if_neg hother]

theorem sorted_addAll {counts : NodeCounts} (h : Sorted counts) (entries : List (Text × Nat)) :
    Sorted (addAll counts entries) := by
  induction entries generalizing counts with
  | nil => exact h
  | cons e entries ih => exact ih (sorted_add h e.1 e.2)

theorem lookup_addAll {counts : NodeCounts} (h : Sorted counts) (entries : List (Text × Nat))
    (kind : Text) :
    (addAll counts entries).lookup kind =
      if kind ∈ entries.map Prod.fst then
        some ((counts.lookup kind).getD 0 + total kind entries)
      else counts.lookup kind := by
  induction entries generalizing counts with
  | nil => rfl
  | cons e entries ih =>
      have hstep : addAll counts (e :: entries) = addAll (add e.1 e.2 counts) entries := rfl
      rw [hstep, ih (sorted_add h e.1 e.2), lookup_add h, total]
      by_cases hkind : kind = e.1
      · subst hkind
        have hfirst : e.1 ∈ (e :: entries).map Prod.fst := List.mem_cons_self
        rw [if_pos rfl, if_pos rfl, if_pos hfirst]
        by_cases hmem : e.1 ∈ entries.map Prod.fst
        · rw [if_pos hmem, Option.getD_some, Nat.add_assoc]
        · rw [if_neg hmem, total_eq_zero hmem, Nat.add_zero]
      · have hmem : kind ∈ (e :: entries).map Prod.fst ↔ kind ∈ entries.map Prod.fst :=
          List.mem_cons.trans (or_iff_right hkind)
        rw [if_neg hkind, if_neg (Ne.symm hkind), Nat.zero_add]
        exact if_congr hmem.symm rfl rfl

theorem Sorted.nodup {counts : NodeCounts} (h : Sorted counts) : (counts.map Prod.fst).Nodup :=
  h.imp ne_of_lt

theorem addRules_eq_foldl (counts : NodeCounts) (rs : List Rule) :
    addRules counts rs = rs.foldl addRule counts := by
  induction rs generalizing counts with
  | nil => rfl
  | cons r rs ih => rw [addRules, ih, List.foldl_cons]

theorem addImports_eq_foldl (counts : NodeCounts) (imports : List ImportedFile) :
    addImports counts imports =
      imports.foldl (fun counts i => addFile (add "IMPORT".toList 1 counts) i.file) counts := by
  induction imports generalizing counts with
  | nil => rfl
  | cons i imports ih =>
      obtain ⟨name, f⟩ := i
      rw [addImports, ih, List.foldl_cons]

/-- Nodes of one kind may be added one by one. -/
theorem foldl_add {α : Type} (kind : Text) (n : Nat) (counts : NodeCounts) (nodes : List α) :
    nodes.foldl (fun counts _ => add kind 1 counts) (add kind n counts) =
      add kind (n + nodes.length) counts := by
  induction nodes generalizing n with
  | nil => rfl
  | cons node nodes ih =>
      rw [List.foldl_cons, add_add, ih, List.length_cons, Nat.add_assoc, Nat.add_comm 1]

end NodeCounts

namespace TreeNode

/-- The names under which a node is counted. -/
def kinds : TreeNode → List Text
  | .file none _ => ["FILE".toList]
  | .file (some _) _ => ["IMPORT".toList, "FILE".toList]
  | .var _ => ["VARIABLE".toList]
  | .rule r => [r.typeName]
  | .declaration d => [d.clause.typeName ++ " (declaration)".toList]

/-- The names that are entered for a node even if nothing is counted under them. -/
def reserved : TreeNode → List Text
  | .file _ _ => ["VARIABLE".toList]
  | .var _ => []
  | .rule _ => []
  | .declaration _ => []

/-- What the counts are given for a node. -/
def entries (node : TreeNode) : List (Text × Nat) :=
  node.kinds.map (·, 1) ++ node.reserved.map (·, 0)

/-- The counts with a node and the nodes below it. -/
def tally (counts : NodeCounts) : TreeNode → NodeCounts
  | .file none f => counts.addFile f
  | .file (some _) f => (counts.add "IMPORT".toList 1).addFile f
  | .var _ => counts.add "VARIABLE".toList 1
  | .rule r => counts.addRule r
  | .declaration d => counts.add (d.clause.typeName ++ " (declaration)".toList) 1

/-- A node is counted by its own entries, and then by those of the nodes right below it. -/
theorem tally_eq (counts : NodeCounts) (node : TreeNode) :
    node.tally counts = node.children.foldl tally (counts.addAll node.entries) := by
  have hfile (counts : NodeCounts) (f : SourceFile) :
      counts.addFile f = (children (.file none f)).foldl tally
        ((counts.add "FILE".toList 1).add "VARIABLE".toList 0) := by
    obtain ⟨path, rules, vars, imports⟩ := f
    rw [NodeCounts.addFile, NodeCounts.addImports_eq_foldl, NodeCounts.addRules_eq_foldl]
    simp only [children, List.foldl_append, List.foldl_map]
    rw [← Nat.zero_add vars.length, ← NodeCounts.foldl_add]
    rfl
  cases node with
  | file name f =>
      cases name with
      | none => exact hfile counts f
      | some name => exact hfile (counts.add "IMPORT".toList 1) f
  | var v => rfl
  | rule r =>
      cases r with
      | selector place header declarations rules =>
          rw [tally, NodeCounts.addRule, NodeCounts.addRules_eq_foldl]
          simp only [children, Rule.declarations, Rule.children, List.foldl_append, List.foldl_map]
          rfl
      | block place b => rfl
  | declaration d => rfl

theorem tally_eq_walk (counts : NodeCounts) (level : Nat) (node : TreeNode) :
    node.tally counts = counts.addAll ((node.walk level).flatMap fun n => n.2.entries) := by
  induction node using inductionOn generalizing counts level with
  | step node ih =>
      rw [tally_eq, walk_eq, List.flatMap_cons, List.flatMap_assoc, NodeCounts.addAll,
        NodeCounts.addAll, List.foldl_append, List.foldl_flatMap]
      exact List.foldl_ext _ _ _ fun counts child hchild => ih child hchild counts (level + 1)

theorem nodup_kinds (node : TreeNode) : node.kinds.Nodup := by
  cases node with
  | file name f =>
      cases name with
      | none => exact List.nodup_singleton _
      | some name => exact (by decide : ["IMPORT".toList, "FILE".toList].Nodup)
  | var v => exact List.nodup_singleton _
  | rule r => exact List.nodup_singleton _
  | declaration d => exact List.nodup_singleton _

theorem total_entries (kind : Text) (node : TreeNode) :
    NodeCounts.total kind node.entries = if kind ∈ node.kinds then 1 else 0 := by
  rw [entries, NodeCounts.total_append, NodeCounts.total_map, NodeCounts.total_map, Nat.zero_mul,
    Nat.one_mul, Nat.add_zero]
  exact node.nodup_kinds.count

theorem total_flatMap_entries (kind : Text) (nodes : List (Nat × TreeNode)) :
    NodeCounts.total kind (nodes.flatMap fun n => n.2.entries) =
      nodes.countP fun n => kind ∈ n.2.kinds := by
  induction nodes with
  | nil => rfl
  | cons n nodes ih =>
      rw [List.flatMap_cons, NodeCounts.total_append, total_entries, ih, List.countP_cons,
        Nat.add_comm]
      simp only [decide_eq_true_eq]

theorem mem_keys_entries_iff {kind : Text} {node : TreeNode} :
    kind ∈ node.entries.map Prod.fst ↔ kind ∈ node.kinds ∨ kind ∈ node.reserved := by
  simp [entries]

theorem eq_of_mem_reserved {kind : Text} {node : TreeNode} (h : kind ∈ node.reserved) :
    kind = "VARIABLE".toList := by
  cases node with
  | file name f => exact List.mem_singleton.1 h
  | var v => cases h
  | rule r => cases h
  | declaration d => cases h

end TreeNode

namespace SourceFile

/-- The nodes of a tree with their levels, in pre-order. -/
def nodes (f : SourceFile) : List (Nat × TreeNode) :=
  TreeNode.walk 0 (.file none f)

/-- How many nodes of a tree are counted under a name. -/
def nodeCount (f : SourceFile) (kind : Text) : Nat :=
  f.nodes.countP fun n => kind ∈ n.2.kinds

theorem outline_eq (f : SourceFile) :
    Outline.file f = f.nodes.flatMap fun n => n.2.line n.1 := by
  rw [nodes, ← TreeNode.lines_eq_walk]
  rfl

theorem ofFile_eq (f : SourceFile) :
    NodeCounts.ofFile f = NodeCounts.addAll [] (f.nodes.flatMap fun n => n.2.entries) :=
  TreeNode.tally_eq_walk [] 0 (.file none f)

theorem mem_keys_iff {f : SourceFile} {kind : Text} :
    kind ∈ (f.nodes.flatMap fun n => n.2.entries).map Prod.fst ↔
      0 < f.nodeCount kind ∨ kind = "VARIABLE".toList := by
  rw [List.map_flatMap, List.mem_flatMap, nodeCount, List.countP_pos_iff]
  simp only [TreeNode.mem_keys_entries_iff, decide_eq_true_eq]
  constructor
  · rintro ⟨n, hn, hkind | hreserved⟩
    · exact .inl ⟨n, hn, hkind⟩
    · exact .inr (TreeNode.eq_of_mem_reserved hreserved)
  · rintro (⟨n, hn, hkind⟩ | rfl)
    · exact ⟨n, hn, .inl hkind⟩
    · refine ⟨(0, .file none f), ?_, .inr List.mem_cons_self⟩
      rw [nodes, TreeNode.walk_eq]
      exact List.mem_cons_self

/-- The outline of a tree has one line for each node, in pre-order, and the counts of the tree tell
for each kind how many of the same nodes there are. A kind of which there are none is not listed,
variables excepted. -/
theorem outline_and_counts (f : SourceFile) :
    (∃ lines, List.Forall₂ (fun n line => TreeNode.IsLine n.1 n.2 line) f.nodes lines ∧
        Outline.file f = lines.flatten) ∧
      ((NodeCounts.ofFile f).map Prod.fst).Nodup ∧
      ∀ kind, (NodeCounts.ofFile f).lookup kind =
        if 0 < f.nodeCount kind ∨ kind = "VARIABLE".toList then some (f.nodeCount kind)
        else none := by
  have hnil : NodeCounts.Sorted [] := List.Pairwise.nil
  refine ⟨⟨f.nodes.map fun n => n.2.line n.1, ?_, ?_⟩, ?_, fun kind => ?_⟩
  · rw [List.forall₂_map_right_iff, List.forall₂_same]
    exact fun n _ => TreeNode.isLine_line n.1 n.2
  · rw [outline_eq, List.flatMap]
  · rw [ofFile_eq]
    exact (NodeCounts.sorted_addAll hnil _).nodup
  · rw [ofFile_eq, NodeCounts.lookup_addAll hnil, TreeNode.total_flatMap_entries]
    refine if_congr mem_keys_iff ?_ rfl
    rw [List.lookup_nil, Option.getD_none, Nat.zero_add, nodeCount]

end SourceFile

end Stylesheet
