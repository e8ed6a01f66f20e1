import Mathlib.Data.List.Infix
import Stylesheet.Proofs.Cuts
import Stylesheet.Statement.Clause

/-! Groups read by offsets.

A group can also be read off a text by counting: from the byte offset of a parenthesis on, one is
added for each parenthesis that opens and one is taken off for each that closes, and the group is
cut out between two offsets when nothing is left to close. This goes wrong if the count is lowered
at zero or if a cut falls inside a character (`GroupFault`). At the offset of a parenthesis it never
does, and what is cut out is the group (`Text.groupByCount_eq`): the only balanced text before a
closing parenthesis there, or all of the rest if there is none. Values and inclusions count from
such offsets only. -/

namespace Stylesheet

/-- Why a group cannot be read by counting. -/
inductive GroupFault where
  /-- No parenthesis stands at the offset. -/
  | noParenthesis
  /-- A parenthesis closes while none is counted. -/
  | countedBelowZero
  /-- A cut falls inside a character or behind the end of the text. -/
  | insideCharacter
deriving DecidableEq, Repr

namespace Text

/-! ### Offsets -/

/-- What precedes a byte offset, when a character starts there or the text ends there. -/
def toByte? (offset : Nat) : Text → Option Text
  | [] => if offset = 0 then some [] else none
  | c :: rest =>
      if offset = 0 then some []
      else if offset < c.utf8Size then none
      else (toByte? (offset - c.utf8Size) rest).map (c :: ·)

theorem toByte?_append (s t : Text) : toByte? s.byteLength (s ++ t) = some s := by
  induction s with
  | nil => cases t <;> rfl
  | cons c s ih =>
      have hpos := c.utf8Size_pos
      rw [List.cons_append, toByte?, byteLength_cons, if_neg (by omega), if_neg (by omega),
        Nat.add_sub_cancel_left, ih, Option.map_some]

/-- The text from one offset to another. -/
def slice (start stop : Nat) (t : Text) : Except GroupFault Text :=
  match fromByte? start t with
  | none => .error .insideCharacter
  | some rest =>
      if stop < start then .error .insideCharacter
      else
        match toByte? (stop - start) rest with
        | none => .error .insideCharacter
        | some part => .ok part

theorem slice_append (s part t : Text) :
    slice s.byteLength (s ++ part).byteLength (s ++ (part ++ t)) = .ok part := by
  rw [slice, fromByte?_append, byteLength_append]
  dsimp only
  rw [if_neg (by omega), Nat.add_sub_cancel_left, toByte?_append]

/-- The offset of the first place where a part stands. -/
def find? (part : Text) : Text → Option Nat
  | [] => if part.isEmpty then some 0 else none
  | c :: rest =>
      if part.isPrefixOf (c :: rest) then some 0 else (find? part rest).map (c.utf8Size + ·)

/-- The first place of a part is found by what follows it and by its offset alike. -/
theorem find?_cases (part t : Text) :
    afterFirst? part t = none ∧ find? part t = none ∨
      ∃ lead rest, t = lead ++ (part ++ rest) ∧ afterFirst? part t = some rest ∧
        find? part t = some lead.byteLength := by
  induction t with
  | nil =>
      cases part with
      | nil => exact .inr ⟨[], [], rfl, rfl, rfl⟩
      | cons c part => exact .inl ⟨rfl, rfl⟩
  | cons c t ih =>
      rw [afterFirst?, find?]
      cases hafter : after? part (c :: t) with
      | some rest =>
          have hsplit := after?_eq_some_iff.1 hafter
          have hhere : part.isPrefixOf (c :: t) = true :=
            List.isPrefixOf_iff_prefix.2 ⟨rest, hsplit.symm⟩
          exact .inr ⟨[], rest, hsplit, rfl, by rw [if_pos hhere]; rfl⟩
      | none =>
          have hnot : ¬part.isPrefixOf (c :: t) = true := by
            intro hhere
            obtain ⟨rest, hrest⟩ := List.isPrefixOf_iff_prefix.1 hhere
            rw [after?_eq_some_iff.2 hrest.symm] at hafter
            cases hafter
          rw [if_neg hnot, Option.none_or]
          rcases ih with ⟨hnone, hfind⟩ | ⟨lead, rest, rfl, hrest, hfind⟩
          · exact .inl ⟨hnone, by rw [hfind]; rfl⟩
          · refine .inr ⟨c :: lead, rest, rfl, hrest, ?_⟩
            rw [hfind, byteLength_cons]
            rfl

/-- So is the first place of a character. -/
theorem find?_singleton_cases (mark : Char) (t : Text) :
    splitFirst? mark t = none ∧ find? [mark] t = none ∨
      ∃ before after, t = before ++ mark :: after ∧
        splitFirst? mark t = some (before, after) ∧ find? [mark] t = some before.byteLength := by
  induction t with
  | nil => exact .inl ⟨rfl, rfl⟩
  | cons c t ih =>
      rw [splitFirst?, find?]
      by_cases hc : c = mark
      · subst hc
        refine .inr ⟨[], t, rfl, if_pos rfl, if_pos ?_⟩
        simp
      · have hnot : ¬[mark].isPrefixOf (c :: t) = true := by
          simpa using Ne.symm hc
        rw [if_neg hc, if_neg hnot]
        rcases ih with ⟨hsplit, hfind⟩ | ⟨before, after, rfl, hsplit, hfind⟩
        · exact .inl ⟨by rw [hsplit]; rfl, by rw [hfind]; rfl⟩
        · refine .inr ⟨c :: before, after, rfl, by rw [hsplit]; rfl, ?_⟩
          rw [hfind, byteLength_cons]
          rfl

/-! ### Counting -/

/-- The group that starts at `opening`: `count` parentheses are open, and the characters from
`position` on are still to be read. -/
def countGroup (t : Text) (opening : Nat) (count position : Nat) : Text → Except GroupFault Text
  | [] =>
      match fromByte? (opening + 1) t with
      | none => .error .insideCharacter
      | some rest => .ok rest
  | c :: rest =>
      if c = '(' then countGroup t opening (count + 1) (position + c.utf8Size) rest
      else if c = ')' then
        match count with
        | 0 => .error .countedBelowZero
        | left + 1 =>
            if left = 0 then slice (opening + 1) position t
            else countGroup t opening left (position + c.utf8Size) rest
      else countGroup t opening count (position + c.utf8Size) rest

/-- The group at the offset of a parenthesis, read by counting. -/
def groupByCount (opening : Nat) (t : Text) : Except GroupFault Text :=
  match fromByte? opening t with
  | some ('(' :: rest) => countGroup t opening 0 opening ('(' :: rest)
  | _ => .error .noParenthesis

theorem byteLength_behind (lead : Text) : byteLength (lead ++ ['(']) = lead.byteLength + 1 := by
  rw [byteLength_append]
  rfl

theorem fromByte?_behind (lead rest : Text) :
    fromByte? (lead.byteLength + 1) (lead ++ '(' :: rest) = some rest := by
  have hfrom := fromByte?_append (lead ++ ['(']) rest
  rwa [byteLength_behind, ← List.append_cons] at hfrom

theorem groupAt_append (lead rest : Text) :
    groupAt lead.byteLength (lead ++ '(' :: rest) = group rest := by
  rw [groupAt, fromByte?_behind, Option.map_some, Option.getD_some]

/-- Behind the first parenthesis the count is one more than the depth of the group, so it is never
zero before the group is closed. -/
theorem countGroup_eq (lead seen rest : Text) (depth : Nat) :
    countGroup (lead ++ '(' :: (seen ++ rest)) lead.byteLength (depth + 1)
        (lead ++ '(' :: seen).byteLength rest =
      .ok (seen ++ (closed? depth rest).getD rest) := by
  induction rest generalizing seen depth with
  | nil =>
      rw [List.append_nil, countGroup, fromByte?_behind, closed?, Option.getD_none, List.append_nil]
  | cons c rest ih =>
      have hlonger (inner : Nat) :
          countGroup (lead ++ '(' :: (seen ++ c :: rest)) lead.byteLength (inner + 1)
              ((lead ++ '(' :: seen).byteLength + c.utf8Size) rest =
            .ok (seen ++ c :: (closed? inner rest).getD rest) := by
        have hread := ih (seen ++ [c]) inner
        have hlength : (lead ++ '(' :: (seen ++ [c])).byteLength =
            (lead ++ '(' :: seen).byteLength + c.utf8Size := by
          simp only [byteLength_append, byteLength_cons, byteLength_nil]
          omega
        rwa [hlength, List.append_assoc, List.append_assoc] at hread
      have hgroup (inside : Option Text) :
          c :: inside.getD rest = (inside.map (c :: ·)).getD (c :: rest) := by
        cases inside <;> rfl
      rw [countGroup.eq_def, closed?.eq_def]
      dsimp only
      split
      · rw [hlonger, hgroup]
      split
      · next hclose =>
        subst hclose
        cases depth with
        | zero =>
            have hslice := slice_append (lead ++ ['(']) seen (')' :: rest)
            rw [byteLength_behind, ← List.append_cons, ← List.append_cons] at hslice
            exact hslice.trans (by simp)
        | succ inner => exact (hlonger inner).trans (by rw [hgroup])
      · rw [hlonger, hgroup]

/-- At the offset of a parenthesis counting never goes wrong, and it finds the group. -/
theorem groupByCount_eq (lead rest : Text) :
    groupByCount lead.byteLength (lead ++ '(' :: rest) =
      .ok (groupAt lead.byteLength (lead ++ '(' :: rest)) := by
  have hcount := countGroup_eq lead [] rest 0
  rw [byteLength_behind] at hcount
  rw [groupByCount, fromByte?_append, groupAt_append]
  exact hcount

/-! ### Balanced texts -/

/-- A text that opens every parenthesis it closes before it, and closes every one it opens. -/
structure Balanced (t : Text) : Prop where
  closed : t.count '(' = t.count ')'
  opened : ∀ front, front <+: t → front.count ')' ≤ front.count '('

instance (t : Text) : Decidable (Balanced t) :=
  decidable_of_iff
    (t.count '(' = t.count ')' ∧ ∀ front ∈ t.inits, front.count ')' ≤ front.count '(')
    ⟨fun h => ⟨h.1, fun front hfront => h.2 front ((List.mem_inits _ _).2 hfront)⟩,
      fun h => ⟨h.closed, fun front hfront => h.opened front ((List.mem_inits _ _).1 hfront)⟩⟩

/-- A balanced text before a closing parenthesis is all that is read as a group. -/
theorem closed?_append {inside : Text} {depth : Nat} (hwithin : ClosesWithin depth inside)
    (hcount : inside.count ')' = inside.count '(' + depth) (after : Text) :
    closed? depth (inside ++ ')' :: after) = some inside := by
  induction inside generalizing depth with
  | nil =>
      obtain rfl : depth = 0 := by simpa using hcount.symm
      rfl
  | cons c inside ih =>
      rcases closed?_cons depth c (inside ++ ')' :: after) with
        ⟨rfl, rfl, _⟩ | ⟨inner, hinner, hread⟩
      · exact absurd (hwithin [')'] ⟨inside, rfl⟩) (by decide)
      · rw [List.count_singleton, List.count_singleton] at hinner
        have hwithin' : ClosesWithin inner inside := by
          intro front hfront
          have hle := hwithin (c :: front) (List.cons_prefix_cons.2 ⟨rfl, hfront⟩)
          rw [List.count_cons, List.count_cons] at hle
          omega
        have hcount' : inside.count ')' = inside.count '(' + inner := by
          rw [List.count_cons, List.count_cons] at hcount
          omega
        rw [List.cons_append, hread, ih hwithin' hcount', Option.map_some]

theorem group_of_balanced {inside : Text} (h : Balanced inside) (after : Text) :
    group (inside ++ ')' :: after) = inside := by
  have hwithin : ClosesWithin 0 inside := h.opened
  have hread := closed?_append hwithin h.closed.symm after
  rw [group, hread, Option.getD_some]

theorem group_of_not_balanced {t : Text}
    (h : ∀ inside after, t = inside ++ ')' :: after → ¬Balanced inside) : group t = t := by
  cases hread : closed? 0 t with
  | none => rw [group, hread, Option.getD_none]
  | some inside =>
      obtain ⟨⟨after, hsplit⟩, hwithin, hcount⟩ := closed?_eq_some hread
      exact absurd ⟨hcount.symm, hwithin⟩ (h inside after hsplit)

end Text

/-! ### Where groups are read -/

namespace Value

/-- The value that a text stands for, with its group read by counting. -/
def classifyByCount (t : Text) : Except GroupFault Value :=
  let t := t.trim
  match Text.find? "calc(".toList t with
  | some offset => do
      let inside ← Text.groupByCount (offset + Text.byteLength "calc".toList) t
      return .calc inside.trim
  | none =>
    if (Color.hexToken? t).isSome then return .color .hexadecimal t
    else if Text.mentions "rgb".toList t then return .color .rgb t
    else
      match Text.find? "url(".toList t with
      | some offset => do
          let inside ← Text.groupByCount (offset + Text.byteLength "url".toList) t
          return .url inside.unquote
      | none =>
        match Size.list? t with
        | some sizes => return .size sizes
        | none => return .string t

theorem classifyByCount_eq (t : Text) : classifyByCount t = .ok (classify t) := by
  have hcall (word : Text) {lead rest : Text} (hsplit : t.trim = lead ++ (word ++ ['('] ++ rest)) :
      Text.groupByCount (lead.byteLength + word.byteLength) t.trim = .ok (Text.group rest) := by
    have hread := Text.groupByCount_eq (lead ++ word) rest
    rw [Text.groupAt_append, Text.byteLength_append] at hread
    rwa [hsplit, ← List.append_cons, ← List.append_assoc]
  unfold classifyByCount classify
  dsimp only
  rcases Text.find?_cases "calc(".toList t.trim with
    ⟨hnone, hfind⟩ | ⟨lead, rest, hsplit, hafter, hfind⟩
  · rw [hnone, hfind]
    dsimp only
    split
    · rfl
    split
    · rfl
    rcases Text.find?_cases "url(".toList t.trim with
      ⟨hnone, hfind⟩ | ⟨lead, rest, hsplit, hafter, hfind⟩
    · rw [hnone, hfind]
      cases Size.list? t.trim <;> rfl
    · rw [hafter, hfind]
      dsimp only
      rw [hcall "url".toList hsplit]
      rfl
  · rw [hafter, hfind]
    dsimp only
    rw [hcall "calc".toList hsplit]
    rfl

end Value

namespace Clause

/-- The use of a mixin, with its arguments read by counting. -/
def inclusionByCount (t : Text) (content : Option Text) : Except GroupFault (Option Clause) := do
  let t := t.trim
  let nameEnd := Text.byteLength (t.takeWhile fun c => !(c == '(' || isBlank c))
  let name ← Text.slice 0 nameEnd t
  let behind ← Text.slice nameEnd t.byteLength t
  if name.isEmpty then return none
  match Text.find? ['('] behind with
  | some offset =>
      let inside ← Text.groupByCount (nameEnd + offset) t
      return some (.inclusion name (Argument.classifyList inside) content)
  | none => return some (.inclusion name [] content)

theorem inclusionByCount_eq (t : Text) (content : Option Text) :
    inclusionByCount t content = .ok (inclusion? t content) := by
  unfold inclusionByCount inclusion?
  dsimp only
  have hsplit : t.trim.takeWhile (fun c => !(c == '(' || isBlank c)) ++
      t.trim.dropWhile (fun c => !(c == '(' || isBlank c)) = t.trim :=
    List.takeWhile_append_dropWhile
  generalize t.trim.takeWhile (fun c => !(c == '(' || isBlank c)) = name at hsplit ⊢
  generalize t.trim.dropWhile (fun c => !(c == '(' || isBlank c)) = behind at hsplit ⊢
  rw [← hsplit]
  have hname : Text.slice 0 (Text.byteLength name) (name ++ behind) = .ok name :=
    Text.slice_append [] name behind
  have hbehind : Text.slice (Text.byteLength name) (Text.byteLength (name ++ behind))
      (name ++ behind) = .ok behind := by
    have hslice := Text.slice_append name behind []
    rwa [List.append_nil] at hslice
  rw [hname, hbehind]
  dsimp only [bind, Except.bind]
  rcases Text.find?_singleton_cases '(' behind with
    ⟨hnone, hfind⟩ | ⟨before, rest, rfl, hcut, hfind⟩
  · rw [hnone, hfind]
    cases name <;> rfl
  · have hread := Text.groupByCount_eq (name ++ before) rest
    rw [Text.groupAt_append, Text.byteLength_append, List.append_assoc] at hread
    rw [hcut, hfind]
    dsimp only
    rw [hread]
    cases name <;> rfl

end Clause

/-- From the offset of a parenthesis on, a group is read without a fault: it is the balanced text
before a closing parenthesis if there is one, and all of the rest if there is none. Values and
inclusions read their groups from such offsets. -/
theorem Text.group_at_parenthesis :
    (∀ lead rest : Text,
        groupByCount lead.byteLength (lead ++ '(' :: rest) =
            .ok (groupAt lead.byteLength (lead ++ '(' :: rest)) ∧
          (∀ inside after, rest = inside ++ ')' :: after → Balanced inside →
            groupAt lead.byteLength (lead ++ '(' :: rest) = inside) ∧
          ((∀ inside after, rest = inside ++ ')' :: after → ¬Balanced inside) →
            groupAt lead.byteLength (lead ++ '(' :: rest) = rest)) ∧
      (∀ t, Value.classifyByCount t = .ok (Value.classify t)) ∧
      ∀ t content, Clause.inclusionByCount t content = .ok (Clause.inclusion? t content) := by
  refine ⟨fun lead rest => ?_, Value.classifyByCount_eq, Clause.inclusionByCount_eq⟩
  rw [groupAt_append]
  refine ⟨?_, ?_, group_of_not_balanced⟩
  · rw [groupByCount_eq, groupAt_append]
  · rintro inside after rfl hbalanced
    exact group_of_balanced hbalanced after

theorem Text.group_at_parenthesis_nested :
    groupAt 6 "écalc((a)b) c".toList = "(a)b".toList ∧
      groupAt 1 "m((a, b".toList = "(a, b".toList := by
  have hread := group_at_parenthesis.1
  have hopen : ∀ inside after, "(a, b".toList = inside ++ ')' :: after → ¬Balanced inside := by
    intro inside after hsplit
    have hmem : ')' ∈ "(a, b".toList := hsplit ▸ List.mem_append_right inside List.mem_cons_self
    exact absurd hmem (by decide)
  exact ⟨(hread "écalc".toList "(a)b) c".toList).2.1 _ " c".toList (by decide) (by decide),
    (hread "m".toList "(a, b".toList).2.2 hopen⟩

end Stylesheet
