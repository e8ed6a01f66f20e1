import Stylesheet.Proofs.Places

/-! A machine that reads one character at a time.

The machine knows of the characters before it only its state: whether it is outside strings,
comments and interpolations, and how many parentheses and braces are open. It tells which characters
are marks. The reader of segments, which takes whole lexemes and looks ahead, ends its segments at
exactly these marks, and it fails exactly if the machine ends inside a construct. -/

namespace Stylesheet

/-- What the machine knows of the characters before it. -/
inductive LexState where
  /-- Outside all constructs. A slash or a hash sign just read may start one of them. -/
  | normal (parens : Nat) (lead : Option Char)
  | string (parens : Nat) (quote : Char) (escaped : Bool)
  /-- Inside an interpolation, with further braces open in it. -/
  | interpolation (parens braces : Nat)
  | innerString (parens braces : Nat) (quote : Char) (escaped : Bool)
  /-- Inside a block comment. A star just read may end it. -/
  | blockComment (parens : Nat) (star : Bool)
  | lineComment
deriving DecidableEq, Repr

namespace LexState

/-- The state before the first character and behind every mark. -/
def start : LexState := .normal 0 none

/-- The constructs that have an end of their own and are open, innermost first. -/
def constructs : LexState → List Construct
  | .normal .. => []
  | .string .. => [.string]
  | .interpolation .. => [.interpolation]
  | .innerString .. => [.string, .interpolation]
  | .blockComment .. => [.comment]
  | .lineComment => []

/-- The mark that a character is. A semicolon counts only outside parentheses. -/
def mark? : LexState → Char → Option Mark
  | .normal parens lead, c =>
      if c = '{' then if lead = some '#' then none else some .openBrace
      else if c = '}' then some .closeBrace
      else if c = ';' ∧ parens = 0 then some .semicolon
      else none
  | _, _ => none

/-- The state behind a character outside all constructs. -/
def nextNormal (parens : Nat) (lead : Option Char) (c : Char) : LexState :=
  if lead = some '/' ∧ c = '*' then .blockComment parens false
  else if lead = some '/' ∧ c = '/' ∧ parens = 0 then .lineComment
  else if lead = some '#' ∧ c = '{' then .interpolation parens 0
  else if c = '{' ∨ c = '}' ∨ c = ';' ∧ parens = 0 then start
  else if c = '"' ∨ c = '\'' then .string parens c false
  else if c = '(' then .normal (parens + 1) none
  else if c = ')' then .normal (parens - 1) none
  else .normal parens (if c = '/' ∨ c = '#' then some c else none)

/-- The state behind a character of a string, which is left at its quote unless that is escaped. -/
def nextString (stay : Bool → LexState) (leave : LexState) (quote : Char) (escaped : Bool)
    (c : Char) : LexState :=
  if escaped then stay false
  else if c = '\\' then stay true
  else if c = quote then leave
  else stay false

/-- The state behind one more character. -/
def next : LexState → Char → LexState
  | .normal parens lead, c => nextNormal parens lead c
  | .string parens quote escaped, c =>
      nextString (.string parens quote) (.normal parens none) quote escaped c
  | .interpolation parens braces, c =>
      if c = '"' ∨ c = '\'' then .innerString parens braces c false
      else if c = '{' then .interpolation parens (braces + 1)
      else if c = '}' then
        match braces with
        | 0 => .normal parens none
        | inner + 1 => .interpolation parens inner
      else .interpolation parens braces
  | .innerString parens braces quote escaped, c =>
      nextString (.innerString parens braces quote) (.interpolation parens braces) quote escaped c
  | .blockComment parens star, c =>
      if star ∧ c = '/' then .normal parens none else .blockComment parens (c = '*')
  | .lineComment, c => if c = '\n' then start else .lineComment

/-- The state behind a text. -/
def after (s : LexState) (t : Text) : LexState :=
  t.foldl next s

/-- The marks of a text, each with the number of characters before it. -/
def marks (s : LexState) : Text → List (Nat × Mark)
  | [] => []
  | c :: t =>
      ((s.mark? c).toList.map fun m => (0, m)) ++
        ((s.next c).marks t).map fun found => (found.1 + 1, found.2)

@[simp]
theorem after_nil (s : LexState) : s.after [] = s :=
  rfl

@[simp]
theorem after_cons (s : LexState) (c : Char) (t : Text) : s.after (c :: t) = (s.next c).after t :=
  rfl

@[simp]
theorem after_append (s : LexState) (a b : Text) : s.after (a ++ b) = (s.after a).after b :=
  List.foldl_append

theorem marks_append (s : LexState) (a b : Text) :
    s.marks (a ++ b) =
      s.marks a ++ ((s.after a).marks b).map fun found => (found.1 + a.length, found.2) := by
  induction a generalizing s with
  | nil => simp [marks]
  | cons c a ih =>
      simp only [List.cons_append, marks, ih, after_cons, List.map_append, List.map_map,
        List.append_assoc, List.length_cons]
      congr 2

/-! ### Inside one construct -/

theorem mark?_of_mem {s : LexState} {k : Construct} (h : k ∈ s.constructs) (c : Char) :
    s.mark? c = none := by
  cases s <;> first | rfl | cases h

/-- A text leads from one state to another without a mark. -/
structure Passes (s : LexState) (t : Text) (s' : LexState) : Prop where
  after_eq : s.after t = s'
  marks_eq : s.marks t = []

namespace Passes

variable {s s' s'' : LexState} {c : Char} {a b t : Text}

theorem nil (s : LexState) : s.Passes [] s :=
  ⟨rfl, rfl⟩

theorem cons (hmark : s.mark? c = none) (h : (s.next c).Passes t s') : s.Passes (c :: t) s' :=
  ⟨h.after_eq, by simp [marks, hmark, h.marks_eq]⟩

theorem single (hmark : s.mark? c = none) : s.Passes [c] (s.next c) :=
  cons hmark (nil _)

theorem append (ha : s.Passes a s') (hb : s'.Passes b s'') : s.Passes (a ++ b) s'' := by
  refine ⟨?_, ?_⟩
  · rw [after_append, ha.after_eq, hb.after_eq]
  · rw [marks_append, ha.marks_eq, ha.after_eq, hb.marks_eq]
    rfl

end Passes

/-- Nowhere in a text is a construct left. -/
def Stays (k : Construct) (s : LexState) (t : Text) : Prop :=
  ∀ more, more <+: t → k ∈ (s.after more).constructs

namespace Stays

variable {k : Construct} {s : LexState} {c : Char} {a b t : Text}

theorem nil (h : k ∈ s.constructs) : s.Stays k [] := by
  intro more hmore
  rw [List.prefix_nil.1 hmore]
  exact h

theorem cons (hs : k ∈ s.constructs) (h : (s.next c).Stays k t) : s.Stays k (c :: t) := by
  intro more hmore
  rcases List.prefix_cons_iff.1 hmore with rfl | ⟨shorter, rfl, hshorter⟩
  · exact hs
  · exact h shorter hshorter

theorem append (ha : s.Stays k a) (hb : (s.after a).Stays k b) : s.Stays k (a ++ b) := by
  intro more hmore
  rcases List.prefix_or_prefix_of_prefix hmore (List.prefix_append a b) with hshort | ⟨rest, rfl⟩
  · exact ha more hshort
  · rw [after_append]
    exact hb rest ((List.prefix_append_right_inj a).1 hmore)

theorem mem_after (h : s.Stays k t) : k ∈ (s.after t).constructs :=
  h t (List.prefix_refl t)

theorem marks_eq (h : s.Stays k t) : s.marks t = [] := by
  induction t generalizing s with
  | nil => rfl
  | cons c t ih =>
      have hs : k ∈ s.constructs := h [] (List.nil_prefix)
      have hrest : (s.next c).Stays k t := fun more hmore =>
        h (c :: more) (List.cons_prefix_cons.2 ⟨rfl, hmore⟩)
      simp [marks, mark?_of_mem hs, ih hrest]

end Stays

/-! ### Strings -/

/-- The states inside one string, of either kind, and the state behind it. -/
structure IsString (stay : Bool → LexState) (leave : LexState) (quote : Char) : Prop where
  next_eq : ∀ escaped c, (stay escaped).next c = nextString stay leave quote escaped c
  inside : ∀ escaped, .string ∈ (stay escaped).constructs

theorem isString_string (parens : Nat) (quote : Char) :
    IsString (.string parens quote) (.normal parens none) quote :=
  ⟨fun _ _ => rfl, fun _ => by simp [constructs]⟩

theorem isString_innerString (parens braces : Nat) (quote : Char) :
    IsString (.innerString parens braces quote) (.interpolation parens braces) quote :=
  ⟨fun _ _ => rfl, fun _ => by simp [constructs]⟩

namespace IsString

variable {stay : Bool → LexState} {leave : LexState} {quote : Char} {k : Construct} {run : Text}

theorem after_run (h : IsString stay leave quote) (hrun : StringRun quote run) :
    (stay false).after run = stay false := by
  induction hrun with
  | nil => rfl
  | plain hescape hquote _ ih =>
      rw [after_cons, h.next_eq]
      simp [nextString, hescape, hquote, ih]
  | escape c _ ih =>
      rw [after_cons, after_cons, h.next_eq]
      simp [nextString, h.next_eq, ih]

theorem stays_run (h : IsString stay leave quote) (hk : ∀ escaped, k ∈ (stay escaped).constructs)
    (hrun : StringRun quote run) : (stay false).Stays k run := by
  induction hrun with
  | nil => exact .nil (hk false)
  | @plain c run hescape hquote _ ih =>
      have hnext : (stay false).next c = stay false := by
        simp [h.next_eq, nextString, hescape, hquote]
      refine .cons (hk false) ?_
      rwa [hnext]
  | @escape c run _ ih =>
      have hfirst : (stay false).next '\\' = stay true := by simp [h.next_eq, nextString]
      have hsecond : (stay true).next c = stay false := by simp [h.next_eq, nextString]
      refine .cons (hk false) ?_
      rw [hfirst]
      refine .cons (hk true) ?_
      rwa [hsecond]

theorem stays_of_unclosed (h : IsString stay leave quote)
    (hk : ∀ escaped, k ∈ (stay escaped).constructs) {t : Text}
    (hclose : closeString? quote t = none) : (stay false).Stays k t := by
  obtain ⟨run, hrun, rfl | rfl⟩ := stringRun_of_unclosed hclose
  · exact h.stays_run hk hrun
  · refine (h.stays_run hk hrun).append ?_
    rw [h.after_run hrun]
    refine .cons (hk false) (.nil ?_)
    rw [h.next_eq]
    exact hk true

theorem after_of_closed (h : IsString stay leave quote) {t body rest : Text}
    (hclose : closeString? quote t = some (body, rest)) : (stay false).after body = leave := by
  obtain ⟨run, hrun, rfl, hquote⟩ := stringRun_of_closed hclose
  rw [after_append, h.after_run hrun, after_cons, h.next_eq]
  simp [nextString, hquote]

theorem passes_of_closed (h : IsString stay leave quote) {t body rest : Text}
    (hclose : closeString? quote t = some (body, rest)) : (stay false).Passes body leave := by
  refine ⟨h.after_of_closed hclose, ?_⟩
  obtain ⟨run, hrun, rfl, _⟩ := stringRun_of_closed hclose
  have hstays := h.stays_run h.inside hrun
  rw [marks_append, hstays.marks_eq, h.after_run hrun]
  simp [marks, mark?_of_mem (h.inside false)]

/-- A closed string leaves no construct that its surroundings do not leave. -/
theorem stays_of_closed (h : IsString stay leave quote)
    (hk : ∀ escaped, k ∈ (stay escaped).constructs) (hleave : k ∈ leave.constructs)
    {t body rest : Text} (hclose : closeString? quote t = some (body, rest)) :
    (stay false).Stays k body := by
  have hafter := h.after_of_closed hclose
  obtain ⟨run, hrun, rfl, _⟩ := stringRun_of_closed hclose
  refine (h.stays_run hk hrun).append ?_
  rw [after_append, h.after_run hrun] at hafter
  rw [h.after_run hrun]
  refine .cons (hk false) (.nil ?_)
  rw [← after_nil ((stay false).next quote), ← after_cons, hafter]
  exact hleave

end IsString

/-! ### Block comments -/

theorem after_blockComment (parens : Nat) {star : Bool} {t : Text}
    (h : ¬['*', '/'] <:+: (if star then '*' :: t else t)) :
    ∃ star', (blockComment parens star).after t = .blockComment parens star' := by
  induction t generalizing star with
  | nil => exact ⟨star, rfl⟩
  | cons c t ih =>
      have hstay : ¬(star = true ∧ c = '/') := by
        rintro ⟨rfl, rfl⟩
        exact h (List.prefix_append ['*', '/'] t).isInfix
      have hrest : ¬['*', '/'] <:+: (if decide (c = '*') then '*' :: t else t) := by
        intro hpart
        have hsuffix : (if decide (c = '*') then '*' :: t else t) <:+
            (if star then '*' :: c :: t else c :: t) := by
          by_cases hc : c = '*'
          · subst hc
            cases star
            · exact List.suffix_refl _
            · exact List.suffix_cons _ _
          · cases star
            · simp [hc]
            · simpa [hc] using (List.suffix_cons c t).trans (List.suffix_cons '*' _)
        exact h (hpart.trans hsuffix.isInfix)
      obtain ⟨star', hstar'⟩ := ih hrest
      refine ⟨star', ?_⟩
      rw [after_cons]
      simpa only [next, if_neg hstay] using hstar'

theorem stays_blockComment {t : Text} (parens : Nat) (h : ¬['*', '/'] <:+: t) :
    (blockComment parens false).Stays .comment t := by
  intro more hmore
  have hshort : ¬['*', '/'] <:+: if false then '*' :: more else more :=
    fun hpart => h (hpart.trans hmore.isInfix)
  obtain ⟨star, hstar⟩ := after_blockComment parens hshort
  rw [hstar]
  simp [constructs]

theorem passes_blockComment {parens : Nat} {t body rest : Text}
    (hclose : closeComment? t = some (body, rest)) :
    (blockComment parens false).Passes body (.normal parens none) := by
  obtain ⟨inside, rfl, hinside⟩ := closeComment?_ends hclose
  have hstays := stays_blockComment parens hinside
  have hshort : ¬['*', '/'] <:+: if false then '*' :: inside else inside :=
    fun hpart => hinside (hpart.trans (List.prefix_append inside ['*']).isInfix)
  obtain ⟨star, hstar⟩ := after_blockComment parens hshort
  have hafter : (blockComment parens false).after (inside ++ ['*']) =
      .blockComment parens true := by
    rw [after_append, hstar]
    simp [next]
  have hend : (blockComment parens true).Passes ['/'] (.normal parens none) := .single rfl
  have hpasses : (blockComment parens false).Passes (inside ++ ['*'] ++ ['/']) _ :=
    .append ⟨hafter, hstays.marks_eq⟩ hend
  rwa [List.append_assoc] at hpasses

/-! ### Interpolations -/

theorem eq_unclosed_of_cons {piece : Piece} {inside : Inside} (h : inside.cons piece = .unclosed) :
    inside = .unclosed := by
  cases inside with
  | unclosed => rfl
  | closed => cases h
  | openString => cases h

theorem eq_openString_of_cons {piece : Piece} {inside : Inside} {before : Text}
    (h : inside.cons piece = .openString before) :
    ∃ shorter, inside = .openString shorter ∧ before = piece.source ++ shorter := by
  cases inside with
  | unclosed => cases h
  | closed => cases h
  | openString shorter => exact ⟨shorter, rfl, (Inside.openString.inj h).symm⟩

theorem next_interpolation_of_quotes {parens braces : Nat} {c : Char}
    (h : Nesting.quotes c = true) :
    (interpolation parens braces).next c = .innerString parens braces c false := by
  have hquote : c = '"' ∨ c = '\'' := by simpa [Nesting.quotes] using h
  simp [next, hquote]

theorem next_interpolation_of_not_quotes {parens braces : Nat} {c : Char}
    (h : Nesting.quotes c = false) (hopen : c ≠ '{') (hclose : c ≠ '}') :
    (interpolation parens braces).next c = .interpolation parens braces := by
  have hquote : ¬(c = '"' ∨ c = '\'') := by simpa [Nesting.quotes] using h
  simp [next, hquote, hopen, hclose]

theorem passes_interpolation {parens braces : Nat} {t rest : Text} {pieces : List Piece}
    (h : closeInterpolation braces t = .closed pieces rest) :
    (interpolation parens braces).Passes (pieces.flatMap Piece.source) (.normal parens none) := by
  fun_induction closeInterpolation braces t generalizing pieces with
  | case1 => cases h
  | case2 braces c r hquote body after hs ih =>
      obtain ⟨others, ho, rfl⟩ := Inside.cons_eq_closed h
      have hbody := (isString_innerString parens braces c).passes_of_closed hs
      rw [← next_interpolation_of_quotes hquote] at hbody
      exact (Passes.cons rfl hbody).append (ih ho)
  | case3 => cases h
  | case4 r =>
      obtain ⟨rfl, rfl⟩ := Inside.closed.inj h
      exact .single rfl
  | case5 r _ inner ih =>
      obtain ⟨others, ho, rfl⟩ := Inside.cons_eq_closed h
      exact .cons rfl (ih ho)
  | case6 braces r _ _ ih =>
      obtain ⟨others, ho, rfl⟩ := Inside.cons_eq_closed h
      exact .cons rfl (ih ho)
  | case7 braces c r hquote hclose hopen ih =>
      obtain ⟨others, ho, rfl⟩ := Inside.cons_eq_closed h
      refine .cons rfl ?_
      rw [next_interpolation_of_not_quotes (by simpa using hquote) hopen hclose]
      exact ih ho

theorem stays_interpolation {parens braces : Nat} {t : Text}
    (h : closeInterpolation braces t = .unclosed) :
    (interpolation parens braces).Stays .interpolation t := by
  have hin (braces : Nat) : Construct.interpolation ∈ (interpolation parens braces).constructs := by
    simp [constructs]
  fun_induction closeInterpolation braces t with
  | case1 braces => exact .nil (hin braces)
  | case2 braces c r hquote body after hs ih =>
      have hstring := isString_innerString parens braces c
      obtain ⟨rfl, _⟩ := closeString?_append hs
      refine .cons (hin braces) ?_
      rw [next_interpolation_of_quotes hquote]
      refine (hstring.stays_of_closed (fun _ => by simp [constructs]) (hin braces) hs).append ?_
      rw [hstring.after_of_closed hs]
      exact ih (eq_unclosed_of_cons h)
  | case3 => cases h
  | case4 => cases h
  | case5 r _ inner ih => exact .cons (hin _) (ih (eq_unclosed_of_cons h))
  | case6 braces r _ _ ih => exact .cons (hin _) (ih (eq_unclosed_of_cons h))
  | case7 braces c r hquote hclose hopen ih =>
      refine .cons (hin _) ?_
      rw [next_interpolation_of_not_quotes (by simpa using hquote) hopen hclose]
      exact ih (eq_unclosed_of_cons h)

/-- A string that stays open inside an interpolation, and what precedes it there. -/
theorem passes_openString {parens braces : Nat} {t before : Text}
    (h : closeInterpolation braces t = .openString before) :
    ∃ inner quote tail, t = before ++ quote :: tail ∧ Nesting.quotes quote = true ∧
      closeString? quote tail = none ∧
      (interpolation parens braces).Passes before (.interpolation parens inner) := by
  fun_induction closeInterpolation braces t generalizing before with
  | case1 => cases h
  | case2 braces c r hquote body after hs ih =>
      obtain ⟨shorter, ho, rfl⟩ := eq_openString_of_cons h
      obtain ⟨inner, quote, tail, rfl, hq, hopen, hpasses⟩ := ih ho
      have hbody := (isString_innerString parens braces c).passes_of_closed hs
      rw [← next_interpolation_of_quotes hquote] at hbody
      refine ⟨inner, quote, tail, ?_, hq, hopen, (Passes.cons rfl hbody).append hpasses⟩
      rw [(closeString?_append hs).1]
      simp [Piece.source]
  | case3 braces c r hquote hs =>
      cases h
      exact ⟨braces, c, r, rfl, hquote, hs, .nil _⟩
  | case4 => cases h
  | case5 r _ inner ih =>
      obtain ⟨shorter, ho, rfl⟩ := eq_openString_of_cons h
      obtain ⟨inner', quote, tail, rfl, hq, hopen, hpasses⟩ := ih ho
      exact ⟨inner', quote, tail, rfl, hq, hopen, .cons rfl hpasses⟩
  | case6 braces r _ _ ih =>
      obtain ⟨shorter, ho, rfl⟩ := eq_openString_of_cons h
      obtain ⟨inner, quote, tail, rfl, hq, hopen, hpasses⟩ := ih ho
      exact ⟨inner, quote, tail, rfl, hq, hopen, .cons rfl hpasses⟩
  | case7 braces c r hquote hclose hopen ih =>
      obtain ⟨shorter, ho, rfl⟩ := eq_openString_of_cons h
      obtain ⟨inner, quote, tail, rfl, hq, hs, hpasses⟩ := ih ho
      refine ⟨inner, quote, tail, rfl, hq, hs, .cons rfl ?_⟩
      rwa [next_interpolation_of_not_quotes (by simpa using hquote) hopen hclose]

/-! ### Lexemes -/

/-- A state that reads a text like one outside all constructs. It may have just read a character
that starts no construct here after all, or the inside of a line comment. -/
structure Ready (s : LexState) (parens : Nat) (t : Text) : Prop where
  closed : s.constructs = []
  next_eq : ∀ c ∈ t.head?, s.next c = (normal parens none).next c
  mark_eq : ∀ c ∈ t.head?, s.mark? c = (normal parens none).mark? c

namespace Ready

variable {s : LexState} {parens : Nat} {t : Text}

theorem refl (parens : Nat) (t : Text) : (normal parens none).Ready parens t :=
  ⟨rfl, fun _ _ => rfl, fun _ _ => rfl⟩

theorem marks_eq (h : s.Ready parens t) : s.marks t = (normal parens none).marks t := by
  cases t with
  | nil => rfl
  | cons c t => simp [marks, h.next_eq c rfl, h.mark_eq c rfl]

/-- From the first character on the two states are the same; before it neither has a construct
open. -/
theorem constructs_after (h : s.Ready parens t) {more : Text} (hmore : more <+: t) :
    (s.after more).constructs = ((normal parens none).after more).constructs := by
  cases t with
  | nil =>
      rw [List.prefix_nil.1 hmore]
      exact h.closed
  | cons c t =>
      rcases List.prefix_cons_iff.1 hmore with rfl | ⟨shorter, rfl, _⟩
      · exact h.closed
      · rw [after_cons, after_cons, h.next_eq c rfl]

theorem passes {front : Text} {s' : LexState} (h : s.Ready parens (front ++ t)) (hne : front ≠ [])
    (hpasses : (normal parens none).Passes front s') : s.Passes front s' := by
  obtain ⟨c, front, rfl⟩ := List.exists_cons_of_ne_nil hne
  refine ⟨?_, ?_⟩
  · rw [← hpasses.after_eq, after_cons, after_cons, h.next_eq c rfl]
  · rw [← hpasses.marks_eq, marks, marks, h.next_eq c rfl, h.mark_eq c rfl]

end Ready

theorem next_normal_char {parens : Nat} {c : Char} (hquote : Nesting.quotes c = false)
    (hmark : c ≠ '{' ∧ c ≠ '}' ∧ (c = ';' → parens ≠ 0)) :
    (normal parens none).next c =
      .normal (Draft.depthAfter parens c) (if c = '/' ∨ c = '#' then some c else none) := by
  have hq : ¬(c = '"' ∨ c = '\'') := by simpa [Nesting.quotes] using hquote
  have hm : ¬(c = '{' ∨ c = '}' ∨ c = ';' ∧ parens = 0) := by tauto
  by_cases hopen : c = '('
  · subst hopen
    simp [next, nextNormal, Draft.depthAfter]
  by_cases hclose : c = ')'
  · subst hclose
    simp [next, nextNormal, Draft.depthAfter]
  · simp [next, nextNormal, Draft.depthAfter, hq, hm, hopen, hclose]

theorem mark?_normal_char {parens : Nat} {c : Char}
    (hmark : c ≠ '{' ∧ c ≠ '}' ∧ (c = ';' → parens ≠ 0)) :
    (normal parens none).mark? c = none := by
  have hsemi : ¬(c = ';' ∧ parens = 0) := fun h => hmark.2.2 h.1 h.2
  simp [mark?, hmark.1, hmark.2.1, hsemi]

theorem ready_slash {parens : Nat} {t : Text} (hstar : t.head? ≠ some '*')
    (hslash : parens = 0 → t.head? ≠ some '/') : (normal parens (some '/')).Ready parens t := by
  refine ⟨rfl, fun c hc => ?_, fun c _ => ?_⟩
  · have hline : ¬(c = '/' ∧ parens = 0) := by
      rintro ⟨rfl, hparens⟩
      exact hslash hparens hc
    have hblock : c ≠ '*' := by
      rintro rfl
      exact hstar hc
    simp [next, nextNormal, hline, hblock]
  · simp [mark?]

theorem ready_hash {parens : Nat} {t : Text} (hbrace : t.head? ≠ some '{') :
    (normal parens (some '#')).Ready parens t := by
  have hne : ∀ c ∈ t.head?, c ≠ '{' := by
    rintro c hc rfl
    exact hbrace hc
  refine ⟨rfl, fun c hc => ?_, fun c hc => ?_⟩
  · simp [next, nextNormal, hne c hc]
  · simp [mark?, hne c hc]

theorem passes_lineComment {body : Text} (h : '\n' ∉ body) :
    lineComment.Passes body .lineComment := by
  induction body with
  | nil => exact .nil _
  | cons c body ih =>
      obtain ⟨hc, hbody⟩ := not_or.1 (mt List.mem_cons.2 h)
      refine .cons rfl ?_
      have hnext : lineComment.next c = .lineComment := by simp [next, Ne.symm hc]
      rw [hnext]
      exact ih hbody

theorem passes_opening (parens : Nat) :
    (normal parens none).Passes ['/', '*'] (.blockComment parens false) ∧
      (normal parens none).Passes ['#', '{'] (.interpolation parens 0) := by
  constructor
  · exact ⟨by simp [next, nextNormal], by simp [marks, mark?, next, nextNormal]⟩
  · exact ⟨by simp [next, nextNormal], by simp [marks, mark?, next, nextNormal]⟩

theorem passes_quote {quote : Char} (parens : Nat) (h : Nesting.quotes quote = true) :
    (normal parens none).Passes [quote] (.string parens quote false) := by
  have hquote : quote = '"' ∨ quote = '\'' := by simpa [Nesting.quotes] using h
  refine ⟨?_, ?_⟩
  · rcases hquote with rfl | rfl <;> simp [next, nextNormal]
  · rcases hquote with rfl | rfl <;> simp [marks, mark?]

/-- A lexeme that is no mark is passed over, and the machine is ready for what follows. -/
theorem passes_lexeme {d : Draft} {t rest : Text} {l : Lexeme} (p : Position)
    (h : Lexeme.Reads d.depth t (.lexeme l rest)) (hmark : ∀ m, l ≠ .mark m) :
    ∃ s, (normal d.depth none).Passes l.source s ∧ s.Ready (d.add p l).depth rest := by
  cases h with
  | blockComment hclose =>
      exact ⟨_, (passes_opening d.depth).1.append (passes_blockComment hclose), .refl _ _⟩
  | @lineComment body _ hdepth hbody hrest =>
      refine ⟨.lineComment, ?_, rfl, fun c hc => ?_, fun c hc => ?_⟩
      · rw [hdepth]
        have hopening : (normal 0 none).Passes ['/', '/'] .lineComment := ⟨rfl, rfl⟩
        exact hopening.append (passes_lineComment hbody)
      · rw [hrest c hc, show (d.add p (.comment ('/' :: '/' :: body))).depth = 0 from hdepth]
        rfl
      · rw [hrest c hc, show (d.add p (.comment ('/' :: '/' :: body))).depth = 0 from hdepth]
        rfl
  | interpolation hclose =>
      exact ⟨_, (passes_opening d.depth).2.append (passes_interpolation hclose), .refl _ _⟩
  | quoted hquote hclose =>
      have hstring := (isString_string d.depth _).passes_of_closed hclose
      exact ⟨_, (passes_quote d.depth hquote).append hstring, .refl _ _⟩
  | semicolon => exact absurd rfl (hmark _)
  | openBrace => exact absurd rfl (hmark _)
  | closeBrace => exact absurd rfl (hmark _)
  | @blank c _ hblank =>
      have hne (x : Char) (hx : isBlank x = false) : c ≠ x := by
        rintro rfl
        rw [hx] at hblank
        cases hblank
      have hquote : Nesting.quotes c = false := by
        simp [Nesting.quotes, hne '"' (by decide), hne '\'' (by decide)]
      have hm : c ≠ '{' ∧ c ≠ '}' ∧ (c = ';' → d.depth ≠ 0) :=
        ⟨hne _ (by decide), hne _ (by decide), fun hc => absurd hc (hne _ (by decide))⟩
      refine ⟨_, .single (mark?_normal_char hm), ?_⟩
      rw [next_normal_char hquote hm]
      simp only [Draft.depthAfter, hne '(' (by decide), hne ')' (by decide), hne '/' (by decide),
        hne '#' (by decide), or_self, if_false]
      exact .refl _ _
  | @char c _ hquote hm hblank hslash hhash =>
      refine ⟨_, .single (mark?_normal_char hm), ?_⟩
      rw [next_normal_char hquote hm]
      change Ready _ (Draft.depthAfter d.depth c) rest
      by_cases hs : c = '/'
      · subst hs
        exact ready_slash (hslash rfl).1 (hslash rfl).2
      by_cases hh : c = '#'
      · subst hh
        exact ready_hash (hhash rfl)
      · simp only [hs, hh, or_self, if_false]
        exact .refl _ _

theorem mark_lexeme {parens : Nat} {t rest : Text} {m : Mark}
    (h : Lexeme.Reads parens t (.lexeme (.mark m) rest)) :
    t = m.char :: rest ∧ (normal parens none).mark? m.char = some m ∧
      (normal parens none).next m.char = start := by
  cases h with
  | semicolon _ hdepth => exact ⟨rfl, by simp [mark?, Mark.char, hdepth], by
      simp [next, nextNormal, Mark.char, hdepth]⟩
  | openBrace => exact ⟨rfl, by simp [mark?, Mark.char], by simp [next, nextNormal, Mark.char]⟩
  | closeBrace => exact ⟨rfl, by simp [mark?, Mark.char], by simp [next, nextNormal, Mark.char]⟩

end LexState

/-- The characters with which a construct starts. -/
def Construct.openings : Construct → List Text
  | .comment => [['/', '*']]
  | .string => [['"'], ['\'']]
  | .interpolation => [['#', '{']]

namespace LexState

/-- A construct starts behind `before` and is open from there to the end of the text. -/
def LeavesOpen (s : LexState) (k : Construct) (before t : Text) : Prop :=
  ∃ opening tail, t = before ++ opening ++ tail ∧ opening ∈ k.openings ∧
    k ∉ (s.after before).constructs ∧ (s.after (before ++ opening)).Stays k tail

theorem LeavesOpen.mem_after {s : LexState} {k : Construct} {before t : Text}
    (h : s.LeavesOpen k before t) : k ∈ (s.after t).constructs := by
  obtain ⟨opening, tail, rfl, _, _, hstays⟩ := h
  rw [after_append]
  exact hstays.mem_after

theorem LeavesOpen.append {s : LexState} {k : Construct} {front before t : Text}
    (h : (s.after front).LeavesOpen k before t) :
    s.LeavesOpen k (front ++ before) (front ++ t) := by
  obtain ⟨opening, tail, rfl, hopening, hbefore, hstays⟩ := h
  refine ⟨opening, tail, by simp, hopening, ?_, ?_⟩
  · rwa [after_append]
  · rwa [List.append_assoc, after_append]

theorem Ready.leavesOpen {s : LexState} {parens : Nat} {k : Construct} {before t : Text}
    (hready : s.Ready parens t) (h : (normal parens none).LeavesOpen k before t) :
    s.LeavesOpen k before t := by
  obtain ⟨opening, tail, rfl, hopening, hbefore, hstays⟩ := h
  refine ⟨opening, tail, rfl, hopening, ?_, fun more hmore => ?_⟩
  · rwa [hready.constructs_after (by simp)]
  · have hprefix : before ++ opening ++ more <+: before ++ opening ++ tail :=
      (List.prefix_append_right_inj _).2 hmore
    rw [← after_append, hready.constructs_after hprefix, after_append]
    exact hstays more hmore

theorem leavesOpen_of_stays {s s' s'' : LexState} {k : Construct} {before opening tail : Text}
    (hopening : opening ∈ k.openings) (hbefore : s.Passes before s') (hout : k ∉ s'.constructs)
    (hin : s'.Passes opening s'') (hstays : s''.Stays k tail) :
    s.LeavesOpen k before (before ++ opening ++ tail) ∧
      s.marks (before ++ opening ++ tail) = [] := by
  have hpasses := hbefore.append hin
  refine ⟨⟨opening, tail, rfl, hopening, ?_, ?_⟩, ?_⟩
  · rwa [hbefore.after_eq]
  · rwa [hpasses.after_eq]
  · rw [marks_append, hpasses.marks_eq, hpasses.after_eq, hstays.marks_eq]
    rfl

theorem singleton_mem_openings {quote : Char} (h : Nesting.quotes quote = true) :
    [quote] ∈ Construct.string.openings := by
  have hquote : quote = '"' ∨ quote = '\'' := by simpa [Nesting.quotes] using h
  simpa [Construct.openings] using hquote

/-- A lexeme that is not closed leaves its construct open. -/
theorem leavesOpen_lexeme {parens : Nat} {t before : Text} {k : Construct}
    (h : Lexeme.Reads parens t (.unclosed k before)) :
    (normal parens none).LeavesOpen k before t ∧ (normal parens none).marks t = [] := by
  obtain ⟨hcomment, hinterpolation⟩ := passes_opening parens
  cases h with
  | openComment hclose =>
      have hstays := stays_blockComment parens (not_infix_of_closeComment? hclose)
      exact leavesOpen_of_stays (by simp [Construct.openings]) (.nil _) List.not_mem_nil hcomment
        hstays
  | openInner hclose =>
      obtain ⟨inner, quote, tail, rfl, hquote, hs, hpasses⟩ := passes_openString hclose
      have hstring := isString_innerString parens inner quote
      have hin : (interpolation parens inner).Passes [quote]
          (.innerString parens inner quote false) :=
        ⟨next_interpolation_of_quotes hquote, rfl⟩
      have hleft := leavesOpen_of_stays (singleton_mem_openings hquote)
        (hinterpolation.append hpasses) (by simp [constructs]) hin
        (hstring.stays_of_unclosed hstring.inside hs)
      simpa using hleft
  | openInterpolation hclose =>
      exact leavesOpen_of_stays (by simp [Construct.openings]) (.nil _) List.not_mem_nil
        hinterpolation (stays_interpolation hclose)
  | @openString quote t hquote hclose =>
      have hstring := isString_string parens quote
      exact leavesOpen_of_stays (singleton_mem_openings hquote) (.nil _) List.not_mem_nil
        (passes_quote parens hquote) (hstring.stays_of_unclosed hstring.inside hclose)

end LexState

/-! ### Segments -/

/-- The mark at which a segment ends, and where that stands. -/
def Segment.ending (s : Segment) : Option Mark × Position :=
  (s.terminator, s.terminatorPosition)

namespace Cursor

open LexState

/-- Where reading fails, the machine passes no mark and a construct is left open, at which the fault
stands. -/
theorem read_error {d : Draft} {p : Position} {t : Text} {s : LexState} {fault : Fault}
    (hready : s.Ready d.depth t) (h : (read d p t).outcome = .error fault) :
    ∃ k before, fault = ⟨p.after before, .unclosed k⟩ ∧ s.LeavesOpen k before t ∧
      s.marks t = [] := by
  fun_induction read d p t generalizing s with
  | case1 => cases h
  | case2 d p t k before hr =>
      cases h
      have hreads : Lexeme.Reads d.depth t (.unclosed k before) := hr ▸ Lexeme.reads_read d.depth t
      obtain ⟨hleaves, hmarks⟩ := leavesOpen_lexeme hreads
      refine ⟨k, before, rfl, ?_, ?_⟩
      · exact hready.leavesOpen hleaves
      · rw [hready.marks_eq, hmarks]
  | case3 => cases h
  | case4 d p t l rest hl hr ih =>
      have hreads : Lexeme.Reads d.depth t (.lexeme l rest) := hr ▸ Lexeme.reads_read d.depth t
      obtain ⟨s', hpasses, hready'⟩ := passes_lexeme p hreads hl
      obtain ⟨k, before, hfault, hleaves, hmarks⟩ := ih hready' h
      have ht := (Lexeme.read_append hr).1
      refine ⟨k, l.source ++ before, by simp [hfault], ?_, ?_⟩
      · refine hready.leavesOpen ?_
        rw [← hpasses.after_eq] at hleaves
        rw [ht]
        exact hleaves.append
      · rw [hready.marks_eq, ht, marks_append, hpasses.marks_eq, hpasses.after_eq, hmarks]
        rfl

theorem read_end {d : Draft} {p : Position} {t : Text} {s : LexState} {seg : Segment}
    (hready : s.Ready d.depth t) (h : (read d p t).outcome = .ok seg)
    (hend : seg.terminator = none) :
    s.marks t = [] ∧ (s.after t).constructs = [] ∧ seg.terminatorPosition = p.after t := by
  fun_induction read d p t generalizing s with
  | case1 d p t hr =>
      cases h
      obtain rfl := Lexeme.eq_nil_of_read hr
      exact ⟨rfl, hready.closed, rfl⟩
  | case2 => cases h
  | case3 =>
      cases h
      cases hend
  | case4 d p t l rest hl hr ih =>
      have hreads : Lexeme.Reads d.depth t (.lexeme l rest) := hr ▸ Lexeme.reads_read d.depth t
      obtain ⟨s', hpasses, hready'⟩ := passes_lexeme p hreads hl
      obtain ⟨hmarks, hclosed, hposition⟩ := ih hready' h
      obtain ⟨rfl, hne⟩ := Lexeme.read_append hr
      have hpasses' := hready.passes hne hpasses
      refine ⟨?_, ?_, ?_⟩
      · rw [marks_append, hpasses'.marks_eq, hpasses'.after_eq, hmarks]
        rfl
      · rwa [after_append, hpasses'.after_eq]
      · rw [hposition, Position.after_append]

/-- The machine passes over the text of a segment and finds the mark that ends it. -/
theorem read_mark {d : Draft} {p : Position} {t : Text} {s : LexState} {seg : Segment} {m : Mark}
    (hready : s.Ready d.depth t) (h : (read d p t).outcome = .ok seg)
    (hm : seg.terminator = some m) :
    ∃ body s', t = body ++ m.char :: (read d p t).cursor.rest ∧ s.Passes body s' ∧
      s'.mark? m.char = some m ∧ s'.next m.char = .start ∧
      seg.terminatorPosition = p.after body ∧
      (read d p t).cursor.position = p.after (body ++ [m.char]) := by
  fun_induction read d p t generalizing s with
  | case1 =>
      cases h
      cases hm
  | case2 => cases h
  | case3 d p t m' rest hr =>
      cases h
      cases hm
      have hreads : Lexeme.Reads d.depth t (.lexeme (.mark m) rest) :=
        hr ▸ Lexeme.reads_read d.depth t
      obtain ⟨rfl, hmark, hnext⟩ := mark_lexeme hreads
      refine ⟨[], s, rfl, .nil s, ?_, ?_, rfl, rfl⟩
      · rw [hready.mark_eq m.char rfl, hmark]
      · rw [hready.next_eq m.char rfl, hnext]
  | case4 d p t l rest hl hr ih =>
      have hreads : Lexeme.Reads d.depth t (.lexeme l rest) := hr ▸ Lexeme.reads_read d.depth t
      obtain ⟨s₁, hpasses, hready₁⟩ := passes_lexeme p hreads hl
      obtain ⟨body, s', hrest, hpasses', hmark, hnext, hposition, hcursor⟩ := ih hready₁ h
      obtain ⟨rfl, hne⟩ := Lexeme.read_append hr
      refine ⟨l.source ++ body, s', ?_, ?_, hmark, hnext, ?_, ?_⟩
      · rw [List.append_assoc, ← hrest]
      · exact (hready.passes hne hpasses).append hpasses'
      · rw [hposition, Position.after_append]
      · rw [hcursor, List.append_assoc, Position.after_append _ l.source]

/-- The reader and the machine agree from every cursor at which a segment starts. -/
theorem segments_endings (c : Cursor) :
    (c.ReachesEnd ↔ (LexState.start.after c.rest).constructs = []) ∧
    c.segments.map Segment.ending =
      ((LexState.start.marks c.rest).map fun found =>
          (some found.2, c.position.after (c.rest.take found.1))) ++
        if (LexState.start.after c.rest).constructs = [] then [(none, c.position.after c.rest)]
        else [] := by
  have hready (t : Text) : LexState.start.Ready Draft.empty.depth t := .refl 0 t
  induction c using scanInduction with
  | fault c f hf =>
      obtain ⟨k, before, _, hleaves, hmarks⟩ := read_error (hready _) hf
      have hopen : (LexState.start.after c.rest).constructs ≠ [] :=
        List.ne_nil_of_mem hleaves.mem_after
      simp [segments_of_error hf, not_reachesEnd_of_error hf, hmarks, hopen]
  | finish c s hs hn =>
      obtain ⟨hmarks, hclosed, hposition⟩ := read_end (hready _) hs hn
      simp [segments_of_end hs hn, reachesEnd_of_end hs hn, hmarks, hclosed, Segment.ending, hn,
        hposition]
  | mark c s m hs hm ih =>
      obtain ⟨body, s', hread, hpasses, hmark, hnext, hposition, hcursor⟩ :=
        read_mark (hready _) hs hm
      have hrest : c.rest = body ++ m.char :: c.next.cursor.rest := hread
      have hbehind : c.next.cursor.position = c.position.after (body ++ [m.char]) := hcursor
      have hafter : LexState.start.after c.rest = LexState.start.after c.next.cursor.rest := by
        rw [hrest, after_append, hpasses.after_eq, after_cons, hnext]
      have hmarks : LexState.start.marks c.rest = (body.length, m) ::
          (LexState.start.marks c.next.cursor.rest).map fun found =>
            (found.1 + 1 + body.length, found.2) := by
        rw [hrest, marks_append, hpasses.marks_eq, hpasses.after_eq, marks, hmark, hnext]
        simp
      -- What precedes a later mark is the segment, its own mark and what precedes it in the rest.
      have htake (i : Nat) : c.position.after (c.rest.take (i + 1 + body.length)) =
          c.next.cursor.position.after (c.next.cursor.rest.take i) := by
        have hlength : i + 1 + body.length = body.length + (i + 1) := by omega
        rw [hbehind, hrest, hlength, List.take_length_add_append, List.take_succ_cons]
        simp
      have hwhole : c.position.after c.rest =
          c.next.cursor.position.after c.next.cursor.rest := by
        rw [hbehind, hrest]
        simp
      obtain ⟨hreaches, hendings⟩ := ih
      refine ⟨?_, ?_⟩
      · rw [reachesEnd_iff_of_mark hs hm, hreaches, hafter]
      · have hfirst : s.ending = (some m, c.position.after (c.rest.take body.length)) := by
          rw [hrest, List.take_left]
          exact Prod.ext hm hposition
        rw [segments_of_mark hs hm, List.map_cons, hendings, hmarks, hafter, hwhole, hfirst]
        simp only [List.map_cons, List.map_map, List.cons_append, Function.comp_def, htake]

/-! ### Behind a failure -/

/-- A call that fails, and the cursor that it leaves behind. -/
inductive Fails (c : Cursor) : Cursor → Prop
  | next {fault : Fault} (h : c.next.outcome = .error fault) : Fails c c.next.cursor
  | capture {opened : Position} {fault : Fault} (h : (c.capture opened).outcome = .error fault) :
      Fails c (c.capture opened).cursor

theorem next_of_rest {c : Cursor} (h : c.rest = []) :
    c.next = ⟨.ok ⟨[], c.position, none, c.position⟩, c⟩ := by
  obtain ⟨p, rest⟩ := c
  obtain rfl : rest = [] := h
  unfold next
  rw [read]
  rfl

theorem capture_of_rest {c : Cursor} (h : c.rest = []) (opened : Position) :
    c.capture opened = ⟨.error ⟨opened, .unclosedBlock⟩, c⟩ := by
  have hnext := next_of_rest h
  unfold capture
  rw [captureFrom_of_end (by rw [hnext]) rfl, hnext]

theorem rest_of_read_error {d : Draft} {p : Position} {t : Text} {fault : Fault}
    (h : (read d p t).outcome = .error fault) : (read d p t).cursor.rest = [] := by
  fun_induction read d p t with
  | case1 => cases h
  | case2 => rfl
  | case3 => cases h
  | case4 d p t l rest hl hr ih => exact ih h

theorem rest_of_captureFrom_error {c : Cursor} {opened : Position} {capture : Capture}
    {fault : Fault} (h : (c.captureFrom opened capture).outcome = .error fault) :
    (c.captureFrom opened capture).cursor.rest = [] := by
  fun_induction captureFrom opened capture c with
  | case1 capture c f hf => exact rest_of_read_error hf
  | case2 capture c s hs hn =>
      obtain ⟨body, back, _, hback, _, hrest⟩ := read_ends hs
      rw [hn] at hback
      rw [List.head?_eq_none_iff.1 hback] at hrest
      exact hrest
  | case3 => cases h
  | case4 capture c s hs m hm longer hstep ih => exact ih h

theorem Fails.rest {c d : Cursor} (h : c.Fails d) : d.rest = [] := by
  cases h with
  | next h => exact rest_of_read_error h
  | capture h => exact rest_of_captureFrom_error h

theorem Reaches.rest {c d : Cursor} (h : c.Reaches d) (hc : c.rest = []) : d.rest = [] := by
  have hnext (d : Cursor) (hd : d.rest = []) : d.next.cursor.rest = [] := by
    rw [next_of_rest hd]
    exact hd
  exact h.keeps hnext hc

theorem exists_error_iff {c : Cursor} :
    (∃ fault, .error fault ∈ c.scans.map Scan.outcome) ↔ ¬c.ReachesEnd := by
  constructor
  · rintro ⟨fault, hfault⟩ hend
    rw [outcomes_of_reachesEnd hend] at hfault
    obtain ⟨s, _, hs⟩ := List.mem_map.1 hfault
    cases hs
  · intro hnot
    obtain ⟨fault, houtcomes⟩ := outcomes_of_not_reachesEnd hnot
    exact ⟨fault, by simp [houtcomes]⟩

/-- Segments end exactly at the marks of the machine, in order, and at the end of the source. The
scan fails exactly if the machine ends inside a construct; behind any failure nothing is left to
read. -/
theorem segments_refine_machine (source : Text) :
    ((∃ fault, .error fault ∈ (start source).scans.map Scan.outcome) ↔
      (LexState.start.after (start source).rest).constructs ≠ []) ∧
    (start source).segments.map Segment.ending =
      ((LexState.start.marks (start source).rest).map fun found =>
          (some found.2, Position.behind ((start source).rest.take found.1))) ++
        (if (LexState.start.after (start source).rest).constructs = [] then
          [(none, Position.behind (start source).rest)]
        else []) ∧
    ∀ c d e, (start source).Reaches c → c.Fails d → d.Reaches e →
      e.rest = [] ∧ e.next.outcome = .ok ⟨[], e.position, none, e.position⟩ ∧
        ∀ opened, (e.capture opened).outcome = .error ⟨opened, .unclosedBlock⟩ := by
  obtain ⟨hreaches, hendings⟩ := segments_endings (start source)
  have hposition (t : Text) : (start source).position.after t = .behind t :=
    (Position.behind_append [] t).symm
  refine ⟨?_, ?_, ?_⟩
  · rw [exists_error_iff, hreaches]
  · simpa only [hposition] using hendings
  · intro c d e _ hfails hlater
    have hrest := hlater.rest hfails.rest
    refine ⟨hrest, ?_, fun opened => ?_⟩
    · rw [next_of_rest hrest]
    · rw [capture_of_rest hrest]

end Cursor

end Stylesheet
