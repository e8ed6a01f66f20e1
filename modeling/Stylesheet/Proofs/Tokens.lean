import Stylesheet.Proofs.Assignments

/-! Where the tokens of a text stand.

The token of a name is a `$` with the name right behind it, and it stands where the name does not go
on (`Text.TokenAt`). Searched from left to right, a text gives the first place where a token may be
read, the longest name there, and then what is found behind that name (`Text.Finds`). As no name has
a `$` in it, the search goes past no token, and as it takes the longest name, it gives no part of
one: the references of a text are the names of its tokens, place by place. Two texts put together
where no name goes on have the references of both. -/

namespace Stylesheet

namespace Text

variable {t front name rest : Text}

/-! ### Places -/

/-- The token of a name stands in a text right behind `front`, and the name does not go on. -/
structure TokenAt (t front name : Text) : Prop where
  identifier : IsIdentifier name
  place : ∃ after, t = front ++ '$' :: (name ++ after) ∧ ∀ c ∈ after.head?, isNameChar c = false

/-- The tokens of a text from left to right, each by what stands before it and by its name. -/
structure ListsTokens (t : Text) (fronts names : List Text) : Prop where
  ordered : fronts.Pairwise fun front later => front.length < later.length
  tokens : List.Forall₂ (TokenAt t) fronts names
  complete : ∀ front name, TokenAt t front name → front ∈ fronts

/-- At one place stands one token. -/
theorem TokenAt.unique {name' : Text} (h : TokenAt t front name) (h' : TokenAt t front name') :
    name = name' := by
  obtain ⟨hname, after, rfl, hafter⟩ := h
  obtain ⟨hname', after', hsplit, hafter'⟩ := h'
  have hrest := (List.cons.inj (List.append_cancel_left hsplit)).2
  have htake := congrArg (List.takeWhile isNameChar) hrest
  rwa [takeWhile_run hname.chars hafter, takeWhile_run hname'.chars hafter'] at htake

theorem hasToken_iff_exists_tokenAt : t.HasToken name ↔ ∃ front, TokenAt t front name := by
  constructor
  · rintro ⟨hname, front, behind, rfl, rfl⟩
    refine ⟨front, ⟨hname, fun c hc => List.mem_takeWhile_imp hc⟩, behind.dropWhile isNameChar, ?_,
      fun c hc => head?_dropWhile hc⟩
    rw [List.takeWhile_append_dropWhile]
  · rintro ⟨front, hname, after, rfl, hafter⟩
    exact ⟨hname.starts, front, name ++ after, rfl, takeWhile_run hname.chars hafter⟩

theorem tokenAt_cons_iff {c : Char} :
    TokenAt (c :: t) front name ↔
      (front = [] ∧ c = '$' ∧ ∃ rest, name? t = some (name, rest)) ∨
        ∃ front', front = c :: front' ∧ TokenAt t front' name := by
  constructor
  · rintro ⟨hname, after, hsplit, hafter⟩
    cases front with
    | nil =>
        obtain ⟨rfl, rfl⟩ := List.cons.inj hsplit
        exact .inl ⟨rfl, rfl, after, hname.name? hafter⟩
    | cons d front =>
        obtain ⟨rfl, rfl⟩ := List.cons.inj hsplit
        exact .inr ⟨front, rfl, hname, after, rfl, hafter⟩
  · rintro (⟨rfl, rfl, hread⟩ | ⟨front, rfl, hname, after, rfl, hafter⟩)
    · obtain ⟨hname, rfl⟩ := name?_eq_some_iff.1 hread
      refine ⟨⟨hname, fun c hc => List.mem_takeWhile_imp hc⟩, t.dropWhile isNameChar, ?_,
        fun c hc => head?_dropWhile hc⟩
      rw [List.takeWhile_append_dropWhile]
      rfl
    · exact ⟨hname, after, rfl, hafter⟩

theorem TokenAt.cons (h : TokenAt t front name) (c : Char) : TokenAt (c :: t) (c :: front) name :=
  tokenAt_cons_iff.2 (.inr ⟨front, rfl, h⟩)

section Behind

variable {fronts names : List Text} (h : ListsTokens t fronts names) (c : Char)
include h

theorem ListsTokens.ordered_cons : (fronts.map (c :: ·)).Pairwise fun front later =>
    front.length < later.length :=
  List.pairwise_map.2 (h.ordered.imp fun hlt => Nat.succ_lt_succ hlt)

theorem ListsTokens.tokens_cons : List.Forall₂ (TokenAt (c :: t)) (fronts.map (c :: ·)) names :=
  List.forall₂_map_left_iff.2 (h.tokens.imp fun _ _ htoken => htoken.cons c)

/-- Behind a character that starts no token, the tokens are those there were. -/
theorem ListsTokens.behind {c : Char} (hno : ∀ name, ¬TokenAt (c :: t) [] name) :
    ListsTokens (c :: t) (fronts.map (c :: ·)) names where
  ordered := h.ordered_cons c
  tokens := h.tokens_cons c
  complete := by
    intro front name htoken
    rcases tokenAt_cons_iff.1 htoken with ⟨rfl, _⟩ | ⟨front, rfl, hlater⟩
    · exact absurd htoken (hno name)
    · exact List.mem_map_of_mem (h.complete front name hlater)

/-- Behind a character that starts a token, that token comes first. -/
theorem ListsTokens.behind_token {c : Char} (htoken : TokenAt (c :: t) [] name) :
    ListsTokens (c :: t) ([] :: fronts.map (c :: ·)) (name :: names) where
  ordered := by
    refine List.pairwise_cons.2 ⟨fun front hfront => ?_, h.ordered_cons c⟩
    obtain ⟨front, _, rfl⟩ := List.mem_map.1 hfront
    exact Nat.succ_pos _
  tokens := .cons htoken (h.tokens_cons c)
  complete := by
    intro front name' htoken'
    rcases tokenAt_cons_iff.1 htoken' with ⟨rfl, _⟩ | ⟨front, rfl, hlater⟩
    · exact List.mem_cons_self
    · exact List.mem_cons_of_mem _ (List.mem_map_of_mem (h.complete front name' hlater))

end Behind

theorem references_of_tokenAt {c : Char} (h : TokenAt (c :: t) [] name) :
    references (c :: t) = name :: t.references := by
  rcases tokenAt_cons_iff.1 h with ⟨_, rfl, rest, hread⟩ | ⟨_, hfront, _⟩
  · rw [references_dollar, hread]
    rfl
  · cases hfront

theorem references_of_not_tokenAt {c : Char} (h : ∀ name, ¬TokenAt (c :: t) [] name) :
    references (c :: t) = t.references := by
  by_cases hsign : c = '$'
  · subst hsign
    rw [references_dollar]
    cases hread : name? t with
    | none => rfl
    | some found => exact absurd (tokenAt_cons_iff.2 (.inl ⟨rfl, rfl, found.2, hread⟩)) (h found.1)
  · exact references_cons hsign t

/-- The references are the names of all tokens in order. -/
theorem exists_listsTokens (t : Text) : ∃ fronts, ListsTokens t fronts t.references := by
  induction t with
  | nil => exact ⟨[], .nil, .nil, fun front _ h => by simpa using h.place⟩
  | cons c t ih =>
      obtain ⟨fronts, hlists⟩ := ih
      by_cases hstart : ∃ name, TokenAt (c :: t) [] name
      · obtain ⟨name, htoken⟩ := hstart
        rw [references_of_tokenAt htoken]
        exact ⟨_, hlists.behind_token htoken⟩
      · have hno := not_exists.1 hstart
        rw [references_of_not_tokenAt hno]
        exact ⟨_, hlists.behind hno⟩

/-! ### Searching -/

/-- A token may be read right behind `front`: a `$` and a name, which may go on in `rest`. -/
structure MatchAt (t front name rest : Text) : Prop where
  split : t = front ++ '$' :: (name ++ rest)
  identifier : IsIdentifier name

/-- The match that a search gives: the first from the left, and the longest of those that start
there. -/
structure FirstMatch (t front name rest : Text) : Prop where
  here : MatchAt t front name rest
  leftmost : ∀ front' name' rest', MatchAt t front' name' rest' → front.length ≤ front'.length
  longest : ∀ name' rest', MatchAt t front name' rest' → name'.length ≤ name.length

/-- The names that are found one after the other, each behind the last match. -/
inductive Finds : Text → List Text → Prop
  | done {t : Text} (h : ∀ front name rest, ¬MatchAt t front name rest) : Finds t []
  | next {t front name rest : Text} {names : List Text} (h : FirstMatch t front name rest)
      (hrest : Finds rest names) : Finds t (name :: names)

theorem TokenAt.exists_matchAt (h : TokenAt t front name) : ∃ rest, MatchAt t front name rest := by
  obtain ⟨hname, rest, hsplit, _⟩ := h
  exact ⟨rest, hsplit, hname⟩

/-- A match stands in a token. -/
theorem MatchAt.exists_tokenAt (h : MatchAt t front name rest) :
    TokenAt t front (name ++ rest.takeWhile isNameChar) := by
  obtain ⟨rfl, ⟨⟨c, hc, hstart⟩, hchars⟩⟩ := h
  refine ⟨⟨⟨c, ?_, hstart⟩, fun d hd => ?_⟩, rest.dropWhile isNameChar, ?_,
    fun d hd => head?_dropWhile hd⟩
  · exact List.mem_head?_append_of_mem_head? hc
  · rcases List.mem_append.1 hd with hd | hd
    · exact hchars d hd
    · exact List.mem_takeWhile_imp hd
  · rw [List.append_assoc, List.takeWhile_append_dropWhile]

theorem FirstMatch.stops (h : FirstMatch t front name rest) :
    ∀ c ∈ rest.head?, isNameChar c = false := by
  obtain ⟨more, hmatch⟩ := h.here.exists_tokenAt.exists_matchAt
  have hlonger := h.longest _ _ hmatch
  have hnone : rest.takeWhile isNameChar = [] := by
    rw [List.length_append] at hlonger
    exact List.length_eq_zero_iff.1 (by omega)
  intro c hc
  obtain ⟨rest, rfl⟩ := List.head?_eq_some_iff.1 hc
  by_contra hchar
  rw [List.takeWhile_cons_of_pos (Bool.not_eq_false _ ▸ hchar)] at hnone
  cases hnone

/-- The first match is the first reference, and the other references stand behind it. -/
theorem FirstMatch.references_eq (h : FirstMatch t front name rest) :
    t.references = name :: rest.references := by
  -- A reference before the match would be an earlier match.
  have hfront : front.references = [] := by
    refine List.eq_nil_iff_forall_not_mem.2 fun name' hmem => ?_
    obtain ⟨front', htoken⟩ := hasToken_iff_exists_tokenAt.1 (mem_references_iff.1 hmem)
    obtain ⟨rest', hsplit, hname'⟩ := htoken.exists_matchAt
    have hearlier : MatchAt t front' name' (rest' ++ '$' :: (name ++ rest)) :=
      ⟨by rw [h.here.split, hsplit]; simp, hname'⟩
    have hle := h.leftmost _ _ _ hearlier
    have hlength := congrArg List.length hsplit
    rw [List.length_append, List.length_cons] at hlength
    omega
  have hsign : '$' ∉ name := fun hmem => absurd (h.here.identifier.chars '$' hmem) (by decide)
  calc
    t.references = references (front ++ '$' :: (name ++ rest)) :=
      congrArg references h.here.split
    _ = references ('$' :: (name ++ rest)) := by
      rw [references_append (by rintro c ⟨⟩; rfl), hfront, List.nil_append]
    _ = name :: references (name ++ rest) := by
      rw [references_dollar, h.here.identifier.name? h.stops]
      rfl
    _ = name :: rest.references := by
      rw [references_append h.stops, references_eq_nil hsign, List.nil_append]

/-- The first of all tokens is the first match. -/
theorem ListsTokens.firstMatch {fronts names : List Text}
    (h : ListsTokens t (front :: fronts) (name :: names)) :
    ∃ rest, FirstMatch t front name rest := by
  obtain ⟨htoken, _⟩ := List.forall₂_cons.1 h.tokens
  obtain ⟨rest, hmatch⟩ := htoken.exists_matchAt
  refine ⟨rest, hmatch, fun front' name' rest' hmatch' => ?_, fun name' rest' hmatch' => ?_⟩
  · rcases List.mem_cons.1 (h.complete _ _ hmatch'.exists_tokenAt) with rfl | hlater
    · exact Nat.le_refl _
    · exact Nat.le_of_lt ((List.pairwise_cons.1 h.ordered).1 front' hlater)
  · rw [htoken.unique hmatch'.exists_tokenAt, List.length_append]
    omega

theorem finds_references (t : Text) : Finds t t.references := by
  induction hlength : t.length using Nat.strong_induction_on generalizing t with
  | _ n ih =>
      obtain ⟨fronts, hlists⟩ := exists_listsTokens t
      cases hnames : t.references with
      | nil =>
          rw [hnames] at hlists
          obtain rfl := List.forall₂_nil_right_iff.1 hlists.tokens
          refine .done fun front name rest hmatch => ?_
          cases hlists.complete _ _ hmatch.exists_tokenAt
      | cons name names =>
          rw [hnames] at hlists
          obtain ⟨front, fronts, _, _, rfl⟩ := List.forall₂_cons_right_iff.1 hlists.tokens
          -- The first token of the list is the first match, and the others are found behind it.
          obtain ⟨rest, hfirst⟩ := hlists.firstMatch
          obtain ⟨_, rfl⟩ := List.cons.inj (hnames.symm.trans hfirst.references_eq)
          have hshorter : rest.length < n := by
            rw [← hlength, hfirst.here.split]
            simp only [List.length_append, List.length_cons]
            omega
          exact .next hfirst (ih rest.length hshorter rest rfl)

/-- The references are what a search finds, and nothing else is found. -/
theorem finds_iff {names : List Text} : Finds t names ↔ names = t.references := by
  constructor
  · intro h
    induction h with
    | done h =>
        symm
        refine List.eq_nil_iff_forall_not_mem.2 fun name hmem => ?_
        obtain ⟨front, htoken⟩ := hasToken_iff_exists_tokenAt.1 (mem_references_iff.1 hmem)
        obtain ⟨rest, hmatch⟩ := htoken.exists_matchAt
        exact h front name rest hmatch
    | next h _ ih => rw [h.references_eq, ih]
  · rintro rfl
    exact finds_references t

/-- The references of a text are what a search from left to right finds in it. A name is one of them
exactly if its token stands in the text, and there is one for each place, in order. In two texts put
together where no name goes on they are those of the first and then those of the second. -/
theorem references_exact :
    (∀ t : Text,
      (∀ names, Finds t names ↔ names = t.references) ∧
        (∀ name, name ∈ t.references ↔ ∃ front, TokenAt t front name) ∧
        ∃ fronts, ListsTokens t fronts t.references) ∧
      ∀ a b : Text, (∀ c ∈ b.head?, isNameChar c = false) →
        references (a ++ b) = a.references ++ b.references := by
  refine ⟨fun t => ⟨fun _ => finds_iff, fun name => ?_, exists_listsTokens t⟩,
    fun _ _ h => references_append h⟩
  rw [mem_references_iff, hasToken_iff_exists_tokenAt]

theorem references_exact_crowded :
    (∀ c ∈ "/$d".toList.head?, isNameChar c = false) ∧
      references ("$$1 $a-b$c".toList ++ "/$d".toList) =
        ["a-b".toList, "c".toList, "d".toList] ∧
      Finds "$$1 $a-b$c".toList ["a-b".toList, "c".toList] ∧
      ∃ front, TokenAt "$$1 $a-b$c".toList front "a-b".toList := by
  obtain ⟨hexact, happend⟩ := references_exact
  obtain ⟨hfinds, hmem, _⟩ := hexact "$$1 $a-b$c".toList
  have hhead : ∀ c ∈ "/$d".toList.head?, isNameChar c = false := by
    rintro c ⟨⟩
    rfl
  exact ⟨hhead, (happend _ _ hhead).trans (by decide), (hfinds _).2 (by decide),
    (hmem _).1 (by decide)⟩

end Text

end Stylesheet
