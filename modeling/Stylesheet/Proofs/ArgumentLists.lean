import Stylesheet.Proofs.InterpolatedSelectors
import Stylesheet.Proofs.NestedStrings
import Stylesheet.Proofs.Words
import Stylesheet.Statement.Clause

/-! Lists of arguments.

The arguments of an inclusion stand between parentheses and are divided by commas; a comma in a
string, in brackets or in an interpolation divides nothing (`ArgumentText`). The reader of a list
follows the nesting of its characters, but not as the reader of a source does: of a string it knows
the character before a quote only, in an interpolation it knows no braces, and it looks for the
parenthesis that closes the list without regard to strings. A list whose strings do not end in a
backslash and whose interpolations hold no braces of their own (`Settled`) comes apart into its
arguments exactly if its parentheses balance, those in its strings included. -/

namespace Stylesheet

namespace Nesting

/-- A text is read from one nesting to another, and no character of it separates. -/
inductive Crosses (separator : Char) : Nesting → Text → Nesting → Prop
  | nil (n : Nesting) : Crosses separator n [] n
  | cons {n n' : Nesting} {c : Char} {t : Text} (hc : n.separates separator c = false)
      (h : Crosses separator (n.next c) t n') : Crosses separator n (c :: t) n'

theorem Crosses.append {separator : Char} {n n' n'' : Nesting} {s t : Text}
    (hs : Crosses separator n s n') (ht : Crosses separator n' t n'') :
    Crosses separator n (s ++ t) n'' := by
  induction hs with
  | nil => exact ht
  | cons hc _ ih => exact .cons hc (ih ht)

/-- The brackets of a list. A brace is none by itself. -/
def pairs : List (Char × Char) :=
  [('(', ')'), ('[', ']')]

theorem not_brace_of_mem_pairs {opening closing : Char} (h : (opening, closing) ∈ pairs) :
    (quotes opening = false ∧ opening ≠ '}' ∧ opening ≠ '{') ∧
      quotes closing = false ∧ closing ≠ '}' ∧ closing ≠ '{' := by
  rcases List.mem_pair.1 h with heq | heq <;> cases heq <;> decide

/-- Whether a character is a bracket or a brace. -/
def isBracket (c : Char) : Bool :=
  "()[]\x7b\x7d".toList.contains c

theorem ne_backslash_of_quotes {quote : Char} (h : quotes quote = true) : quote ≠ '\\' := by
  rintro rfl
  cases h

/-- A character that is neither a quote nor a bracket leaves the nesting as it is. -/
theorem crosses_char {n : Nesting} {c : Char} (hn : n.quote = none) (hquote : quotes c = false)
    (hbracket : isBracket c = false) (hcomma : c = ',' → 0 < n.depth) :
    Crosses ',' n [c] ⟨n.depth, none, c⟩ := by
  obtain ⟨hopens, hcloses⟩ : n.opens c = false ∧ closes c = false := by
    simp_all [isBracket, opens, closes]
  have hnext : n.next c = ⟨n.depth, none, c⟩ := by
    simp [next, hn, hquote, hopens, hcloses]
  refine .cons ?_ (hnext ▸ .nil _)
  by_cases hc : c = ','
  · have hdepth : (n.depth == 0) = false := by
      have hpos := hcomma hc
      rw [beq_eq_false_iff_ne]
      omega
    simp [separates, hdepth]
  · simp [separates, hc]

theorem crosses_opening {n : Nesting} {c : Char} (hn : n.quote = none) (hopens : n.opens c = true) :
    Crosses ',' n [c] ⟨n.depth + 1, none, c⟩ := by
  have hquote : quotes c = false := by
    have hcases : (c = '(' ∨ c = '[') ∨ c = '{' ∧ n.last = '#' := by simpa [opens] using hopens
    rcases hcases with (rfl | rfl) | ⟨rfl, _⟩ <;> rfl
  have hnext : n.next c = ⟨n.depth + 1, none, c⟩ := by
    simp [next, hn, hquote, hopens]
  exact .cons (by simp [separates, hopens]) (hnext ▸ .nil _)

theorem crosses_closing {n : Nesting} {c : Char} (hn : n.quote = none) (hcloses : closes c = true) :
    Crosses ',' n [c] ⟨n.depth - 1, none, c⟩ := by
  have hcases : (c = ')' ∨ c = ']') ∨ c = '}' := by simpa [closes] using hcloses
  have hquote : quotes c = false ∧ n.opens c = false := by
    rcases hcases with (rfl | rfl) | rfl <;> exact ⟨rfl, rfl⟩
  have hnext : n.next c = ⟨n.depth - 1, none, c⟩ := by
    simp [next, hn, hquote, hcloses]
  exact .cons (by simp [separates, hcloses]) (hnext ▸ .nil _)

theorem crosses_bracketed {n : Nesting} {opening closing last : Char} {body : Text}
    (hn : n.quote = none) (hopens : n.opens opening = true) (hcloses : closes closing = true)
    (hbody : Crosses ',' ⟨n.depth + 1, none, opening⟩ body ⟨n.depth + 1, none, last⟩) :
    Crosses ',' n (opening :: body ++ [closing]) ⟨n.depth, none, closing⟩ :=
  (crosses_opening hn hopens).append (hbody.append (crosses_closing rfl hcloses))

/-- The inside of a string is read as such. -/
theorem crosses_run {quote : Char} {run : Text} (h : StringRun quote run) (hquote : quote ≠ '\\')
    (depth : Nat) (last : Char) :
    Crosses ',' ⟨depth, some quote, last⟩ run ⟨depth, some quote, run.getLast?.getD last⟩ := by
  induction h generalizing last with
  | nil => exact .nil _
  | @plain c run _ hne _ ih =>
      have hnext : next ⟨depth, some quote, last⟩ c = ⟨depth, some quote, c⟩ := by
        simp [next, hne]
      refine .cons rfl ?_
      rw [hnext, List.getLast?_cons]
      exact ih c
  | @escape c run _ ih =>
      have hbackslash : next ⟨depth, some quote, last⟩ '\\' = ⟨depth, some quote, '\\'⟩ := by
        simp [next, hquote.symm]
      have hnext : next ⟨depth, some quote, '\\'⟩ c = ⟨depth, some quote, c⟩ := by
        simp [next]
      refine .cons rfl ?_
      rw [hbackslash]
      refine .cons rfl ?_
      rw [hnext, List.getLast?_cons, List.getLast?_cons]
      exact ih c

/-- A string leaves the nesting as it is, unless a backslash stands before its closing quote. -/
theorem crosses_string {n : Nesting} {quote : Char} {run : Text} (hn : n.quote = none)
    (hquote : quotes quote = true) (hrun : StringRun quote run)
    (hlast : run.getLast? ≠ some '\\') :
    Crosses ',' n (quote :: run ++ [quote]) ⟨n.depth, none, quote⟩ := by
  have hne := ne_backslash_of_quotes hquote
  have hopen : n.next quote = ⟨n.depth, some quote, quote⟩ := by
    simp [next, hn, hquote]
  have hend : run.getLast?.getD quote ≠ '\\' := by
    cases hcase : run.getLast? with
    | none => exact hne
    | some c => exact fun hc => hlast (hcase.trans (congrArg some hc))
  have hclose : next ⟨n.depth, some quote, run.getLast?.getD quote⟩ quote =
      ⟨n.depth, none, quote⟩ := by
    simp [next, hend]
  refine .cons (by simp [separates, hquote]) ?_
  rw [hopen]
  refine (crosses_run hrun hne n.depth quote).append (.cons rfl ?_)
  rw [hclose]
  exact .nil _

end Nesting

/-! ### Arguments -/

/-- The text of an argument, or what stands `inside` brackets in it: strings and interpolations as
the reader of a source delimits them, brackets that nest properly, and other characters. A comma
stands inside only. -/
inductive ArgumentText : Bool → Text → Prop
  | nil (inside : Bool) : ArgumentText inside []
  | char {inside : Bool} {c : Char} {t : Text} (hquote : Nesting.quotes c = false)
      (hbracket : Nesting.isBracket c = false) (hcomma : c = ',' → inside = true)
      (h : ArgumentText inside t) : ArgumentText inside (c :: t)
  | string {inside : Bool} {quote : Char} {body t : Text} (hquote : Nesting.quotes quote = true)
      (hclose : closeString? quote body = some (body, [])) (h : ArgumentText inside t) :
      ArgumentText inside (quote :: body ++ t)
  | interpolation {inside : Bool} {s t : Text} (hs : Delimited s) (h : ArgumentText inside t) :
      ArgumentText inside (s ++ t)
  | group {inside : Bool} {opening closing : Char} {body t : Text}
      (hpair : (opening, closing) ∈ Nesting.pairs) (hbody : ArgumentText true body)
      (h : ArgumentText inside t) : ArgumentText inside (opening :: body ++ closing :: t)

/-- An argument that leaves the nesting as it is: no string in it ends in a backslash before its
closing quote, and no interpolation in it holds braces or brackets that do not nest. -/
inductive Settled : Bool → Text → Prop
  | nil (inside : Bool) : Settled inside []
  | char {inside : Bool} {c : Char} {t : Text} (hquote : Nesting.quotes c = false)
      (hbracket : Nesting.isBracket c = false) (hcomma : c = ',' → inside = true)
      (h : Settled inside t) : Settled inside (c :: t)
  | string {inside : Bool} {quote : Char} {run t : Text} (hquote : Nesting.quotes quote = true)
      (hrun : StringRun quote run) (hlast : run.getLast? ≠ some '\\') (h : Settled inside t) :
      Settled inside (quote :: run ++ quote :: t)
  | interpolation {inside : Bool} {body t : Text} (hbody : Settled true body)
      (h : Settled inside t) : Settled inside ('#' :: '{' :: body ++ '}' :: t)
  | group {inside : Bool} {opening closing : Char} {body t : Text}
      (hpair : (opening, closing) ∈ Nesting.pairs) (hbody : Settled true body)
      (h : Settled inside t) : Settled inside (opening :: body ++ closing :: t)

namespace Settled

variable {inside : Bool} {t : Text}

theorem of_plain (hplain : t.all (fun c => !Nesting.quotes c && !Nesting.isBracket c) = true)
    (hcomma : ',' ∈ t → inside = true) : Settled inside t := by
  induction t with
  | nil => exact .nil inside
  | cons c t ih =>
      obtain ⟨⟨hquote, hbracket⟩, hrest⟩ : (Nesting.quotes c = false ∧ Nesting.isBracket c = false) ∧
          t.all (fun c => !Nesting.quotes c && !Nesting.isBracket c) = true := by
        simpa using hplain
      refine .char hquote hbracket (fun hc => hcomma ?_) (ih hrest fun hmem => hcomma ?_)
      · exact hc ▸ List.mem_cons_self
      · exact List.mem_cons_of_mem c hmem

/-- A settled text is read from any place where no string is open, and leaves the depth as it was. -/
theorem crosses (h : Settled inside t) {n : Nesting} (hn : n.quote = none)
    (hinside : inside = true → 0 < n.depth) :
    ∃ last, Nesting.Crosses ',' n t ⟨n.depth, none, last⟩ := by
  -- A comma stands inside only, and there the depth is not zero, so it does not separate.
  induction h generalizing n with
  | nil => exact ⟨n.last, hn ▸ .nil n⟩
  | char hquote hbracket hcomma _ ih =>
      have hchar := Nesting.crosses_char hn hquote hbracket fun hc => hinside (hcomma hc)
      obtain ⟨last, hrest⟩ := ih (n := ⟨n.depth, none, _⟩) rfl hinside
      exact ⟨last, hchar.append hrest⟩
  | @string inside quote run t hquote hrun hlast _ ih =>
      have hstring := Nesting.crosses_string hn hquote hrun hlast
      obtain ⟨last, hrest⟩ := ih (n := ⟨n.depth, none, quote⟩) rfl hinside
      rw [List.append_cons]
      exact ⟨last, hstring.append hrest⟩
  | @interpolation inside body t _ _ ihbody ih =>
      have hsign : Nesting.Crosses ',' n ['#'] ⟨n.depth, none, '#'⟩ :=
        Nesting.crosses_char hn rfl rfl fun hc => by cases hc
      obtain ⟨_, hbody⟩ := ihbody (n := ⟨n.depth + 1, none, '{'⟩) rfl fun _ => Nat.succ_pos _
      have hbraces : Nesting.Crosses ',' ⟨n.depth, none, '#'⟩ ('{' :: body ++ ['}'])
          ⟨n.depth, none, '}'⟩ := Nesting.crosses_bracketed rfl rfl rfl hbody
      obtain ⟨last, hrest⟩ := ih (n := ⟨n.depth, none, '}'⟩) rfl hinside
      have hsplit : '#' :: '{' :: body ++ '}' :: t = ['#'] ++ ('{' :: body ++ ['}'] ++ t) := by simp
      rw [hsplit]
      exact ⟨last, hsign.append (hbraces.append hrest)⟩
  | @group inside opening closing body t hpair _ _ ihbody ih =>
      obtain ⟨hopens, hcloses⟩ : n.opens opening = true ∧ Nesting.closes closing = true := by
        rcases List.mem_pair.1 hpair with heq | heq <;> cases heq <;> exact ⟨rfl, rfl⟩
      obtain ⟨_, hbody⟩ := ihbody (n := ⟨n.depth + 1, none, opening⟩) rfl fun _ => Nat.succ_pos _
      have hbrackets := Nesting.crosses_bracketed hn hopens hcloses hbody
      obtain ⟨last, hrest⟩ := ih (n := ⟨n.depth, none, closing⟩) rfl hinside
      rw [List.append_cons]
      exact ⟨last, hbrackets.append hrest⟩

/-- Its pieces may stand in an interpolation, whatever stands behind them there. -/
theorem closes (h : Settled inside t) :
    ∃ pieces, t = pieces.flatMap Piece.source ∧
      ∀ depth more, Closes depth more → Closes depth (pieces ++ more) := by
  induction h with
  | nil => exact ⟨[], rfl, fun _ _ hmore => hmore⟩
  | @char inside c t hquote hbracket _ _ ih =>
      obtain ⟨pieces, rfl, hpieces⟩ := ih
      obtain ⟨hclose, hopen⟩ : c ≠ '}' ∧ c ≠ '{' := by
        constructor <;> rintro rfl <;> cases hbracket
      exact ⟨.char c :: pieces, rfl, fun depth more hmore =>
        .char hquote hclose hopen (hpieces depth more hmore)⟩
  | @string inside quote run t hquote hrun _ _ ih =>
      obtain ⟨pieces, rfl, hpieces⟩ := ih
      have hne := Nesting.ne_backslash_of_quotes hquote
      refine ⟨.quoted (quote :: (run ++ [quote])) :: pieces, by simp [Piece.source], ?_⟩
      exact fun depth more hmore =>
        .quoted hquote (hrun.closeString? hne []) (hpieces depth more hmore)
  | @interpolation inside body t _ _ ihbody ih =>
      obtain ⟨inner, rfl, hinner⟩ := ihbody
      obtain ⟨pieces, rfl, hpieces⟩ := ih
      refine ⟨.char '#' :: .char '{' :: inner ++ .char '}' :: pieces, by simp [Piece.source], ?_⟩
      intro depth more hmore
      simp only [List.cons_append, List.append_assoc]
      refine .char rfl (by decide) (by decide) (.open ?_)
      exact hinner _ _ (.close (hpieces depth more hmore))
  | @group inside opening closing body t hpair _ _ ihbody ih =>
      obtain ⟨inner, rfl, hinner⟩ := ihbody
      obtain ⟨pieces, rfl, hpieces⟩ := ih
      refine ⟨.char opening :: inner ++ .char closing :: pieces, by simp [Piece.source], ?_⟩
      intro depth more hmore
      obtain ⟨hopening, hclosing⟩ := Nesting.not_brace_of_mem_pairs hpair
      simp only [List.cons_append, List.append_assoc]
      refine .char hopening.1 hopening.2.1 hopening.2.2 (hinner _ _ ?_)
      exact .char hclosing.1 hclosing.2.1 hclosing.2.2 (hpieces depth more hmore)

theorem delimited (h : Settled true t) : Delimited ('#' :: '{' :: t ++ ['}']) := by
  obtain ⟨pieces, rfl, hpieces⟩ := h.closes
  have hclosed := (hpieces 0 _ .last).closeInterpolation []
  refine ⟨_, pieces ++ [.char '}'], rfl, ?_⟩
  simpa [Piece.source] using hclosed

/-- A settled text is the text of an argument. -/
theorem argumentText (h : Settled inside t) : ArgumentText inside t := by
  induction h with
  | nil inside => exact .nil inside
  | char hquote hbracket hcomma _ ih => exact .char hquote hbracket hcomma ih
  | @string inside quote run t hquote hrun _ _ ih =>
      have hne := Nesting.ne_backslash_of_quotes hquote
      rw [List.append_cons]
      exact .string hquote (hrun.closeString? hne []) ih
  | interpolation hbody _ _ ih =>
      rw [List.append_cons]
      exact .interpolation hbody.delimited ih
  | group hpair _ _ ihbody ih => exact .group hpair ihbody ih

end Settled

/-! ### Lists -/

namespace Text

theorem pieces_eq_cons (separator : Char) (n : Nesting) (t : Text) :
    ∃ piece others, pieces separator n t = piece :: others := by
  cases t with
  | nil => exact ⟨[], [], rfl⟩
  | cons c t =>
      rw [pieces]
      split
      · exact ⟨_, _, rfl⟩
      · split
        · exact ⟨_, _, rfl⟩
        · exact ⟨_, _, rfl⟩

/-- A text in which nothing separates goes before the first piece of what follows. -/
theorem pieces_append {separator : Char} {n n' : Nesting} {s : Text}
    (h : Nesting.Crosses separator n s n') (t : Text) :
    ∃ piece others, pieces separator n' t = piece :: others ∧
      pieces separator n (s ++ t) = (s ++ piece) :: others := by
  induction h with
  | nil n =>
      obtain ⟨piece, others, heq⟩ := pieces_eq_cons separator n t
      exact ⟨piece, others, heq, heq⟩
  | cons hc _ ih =>
      obtain ⟨piece, others, heq, hpieces⟩ := ih
      refine ⟨piece, others, heq, ?_⟩
      rw [List.cons_append, pieces, hpieces, hc]
      rfl

theorem join_cons_cons (between a b : Text) (parts : List Text) :
    join between (a :: b :: parts) = a ++ (between ++ join between (b :: parts)) := by
  simp [join, List.intercalate]

/-- Settled texts with commas between them come apart at these commas. -/
theorem pieces_join {n : Nesting} (hquote : n.quote = none) (hdepth : n.depth = 0)
    {args : List Text} (hne : args ≠ []) (h : ∀ a ∈ args, Settled false a) :
    pieces ',' n (join [','] args) = args := by
  induction args generalizing n with
  | nil => exact absurd rfl hne
  | cons a args ih =>
      obtain ⟨ha, hargs⟩ := List.forall_mem_cons.1 h
      obtain ⟨last, hcross⟩ := ha.crosses hquote fun hinside => by cases hinside
      rw [hdepth] at hcross
      cases args with
      | nil =>
          obtain ⟨piece, others, hlast, hpieces⟩ := pieces_append hcross []
          obtain ⟨rfl, rfl⟩ := List.cons.inj hlast
          have hjoin : join [','] [a] = a ++ [] := rfl
          rw [hjoin, hpieces, List.append_nil]
      | cons b args =>
          obtain ⟨piece, others, hlast, hpieces⟩ :=
            pieces_append hcross (',' :: join [','] (b :: args))
          have hrest := ih (n := ⟨0, none, ','⟩) rfl rfl (List.cons_ne_nil _ _) hargs
          have hcut : pieces ',' ⟨0, none, last⟩ (',' :: join [','] (b :: args)) =
              [] :: pieces ',' ⟨0, none, ','⟩ (join [','] (b :: args)) := rfl
          rw [hcut, hrest] at hlast
          obtain ⟨rfl, rfl⟩ := List.cons.inj hlast
          rw [join_cons_cons, List.singleton_append, hpieces, List.append_nil]

/-- A space behind each comma goes to the next text. -/
theorem join_comma_space (a : Text) (args : List Text) :
    join [',', ' '] (a :: args) = join [','] (a :: args.map (' ' :: ·)) := by
  induction args generalizing a with
  | nil => rfl
  | cons b args ih =>
      have hspace : join [','] ((' ' :: b) :: args.map (' ' :: ·)) =
          ' ' :: join [','] (b :: args.map (' ' :: ·)) := by
        cases args with
        | nil => rfl
        | cons c args => rw [List.map_cons, join_cons_cons, join_cons_cons, List.cons_append]
      rw [List.map_cons, join_cons_cons, join_cons_cons, ih, hspace]
      rfl

/-- Settled arguments come apart as they were put together. -/
theorem splitTopLevel_join {args : List Text} (hne : args ≠ [])
    (hblank : ∀ a ∈ args, a.blank = false) (h : ∀ a ∈ args, Settled false a) :
    splitTopLevel ',' (join [',', ' '] args) = args.map trim := by
  have hfilter : (args.map trim).filter (!·.isEmpty) = args.map trim := by
    refine List.filter_eq_self.2 fun t ht => ?_
    obtain ⟨a, ha, rfl⟩ := List.mem_map.1 ht
    simpa using trim_ne_nil (hblank a ha)
  cases args with
  | nil => exact absurd rfl hne
  | cons a args =>
      obtain ⟨ha, hargs⟩ := List.forall_mem_cons.1 h
      have hsettled : ∀ t ∈ a :: args.map (' ' :: ·), Settled false t := by
        refine List.forall_mem_cons.2 ⟨ha, fun t ht => ?_⟩
        obtain ⟨b, hb, rfl⟩ := List.mem_map.1 ht
        exact .char rfl rfl (fun hc => by cases hc) (hargs b hb)
      have htrim : (a :: args.map (' ' :: ·)).map trim = (a :: args).map trim := by
        rw [List.map_cons, List.map_map, List.map_cons]
        rfl
      rw [splitTopLevel, join_comma_space, pieces_join rfl rfl (List.cons_ne_nil _ _) hsettled, htrim,
        hfilter]

/-! ### The parenthesis that closes a list -/

/-- A text is what is read of it before a closing parenthesis exactly if its own parentheses
balance. -/
theorem group_append_iff (t : Text) : group (t ++ [')']) = t ↔ IsGroup t [')'] := by
  obtain ⟨after, hsplit, hgroup⟩ := exists_isGroup (t ++ [')'])
  refine ⟨fun heq => ?_, fun h => ?_⟩
  · rw [heq] at hsplit hgroup
    rwa [← List.append_cancel_left hsplit] at hgroup
  · have hcount : t.count ')' = t.count '(' := (h.ends.resolve_left (List.cons_ne_nil _ _)).2
    rcases List.append_eq_append_iff.1 hsplit with ⟨more, hlonger, hmore⟩ | ⟨more, hshorter, hmore⟩
    · -- The group cannot go on over the parenthesis: there it would close more than it opens.
      obtain ⟨rfl, _⟩ | ⟨rfl, _⟩ := List.singleton_eq_append_iff.1 hmore
      · rw [hlonger, List.append_nil]
      · have hwithin := hgroup.within _ List.prefix_rfl
        rw [hlonger, List.count_append, List.count_append] at hwithin
        have hends : List.count ')' [')'] = 1 ∧ List.count '(' [')'] = 0 := by decide
        omega
    · cases more with
      | nil => rw [List.append_nil] at hshorter; exact hshorter.symm
      | cons d more =>
          -- Nor can it end earlier: the text would close more than it opens up to there.
          subst hmore
          obtain ⟨hd, hbalance⟩ := hgroup.ends.resolve_left (List.cons_ne_nil _ _)
          cases hd
          have hwithin := h.within (group (t ++ [')']) ++ [')']) ⟨more, by simp [← hshorter]⟩
          rw [List.count_append, List.count_append] at hwithin
          have hends : List.count ')' [')'] = 1 ∧ List.count '(' [')'] = 0 := by decide
          omega

theorem count_trim {c : Char} (hc : isBlank c = false) (t : Text) : t.trim.count c = t.count c := by
  have hnone {blanks : Text} (h : ∀ d ∈ blanks, isBlank d = true) : blanks.count c = 0 := by
    refine List.count_eq_zero.2 fun hmem => ?_
    rw [h c hmem] at hc
    cases hc
  obtain ⟨before, after, hsplit, hbefore, hafter⟩ := exists_trim t
  conv_rhs => rw [hsplit]
  rw [List.count_append, List.count_append, hnone hbefore, hnone hafter]
  omega

theorem count_flatten_trim {c : Char} (hc : isBlank c = false) (parts : List Text) :
    (parts.map trim).flatten.count c = parts.flatten.count c := by
  induction parts with
  | nil => rfl
  | cons part parts ih =>
      rw [List.map_cons, List.flatten_cons, List.flatten_cons, List.count_append,
        List.count_append, count_trim hc, ih]

theorem count_join {between : Text} {c : Char} (hc : c ∉ between) (parts : List Text) :
    (join between parts).count c = parts.flatten.count c := by
  induction parts with
  | nil => rfl
  | cons a parts ih =>
      cases parts with
      | nil => simp [join, List.intercalate]
      | cons b parts =>
          rw [join_cons_cons, List.count_append, List.count_append, List.count_eq_zero.2 hc, ih,
            Nat.zero_add]
          exact List.count_append.symm

theorem count_flatten_pieces {separator c : Char} (hc : c ≠ separator) (n : Nesting) (t : Text) :
    (pieces separator n t).flatten.count c = t.count c := by
  induction t generalizing n with
  | nil => rfl
  | cons d t ih =>
      obtain ⟨piece, others, heq⟩ := pieces_eq_cons separator (n.next d) t
      have hrest := ih (n.next d)
      rw [pieces]
      split
      · next hcut =>
        have hd : d = separator := by
          simp only [Nesting.separates, Bool.and_eq_true, beq_iff_eq] at hcut
          exact hcut.1.1.1.2
        rw [List.flatten_cons, List.nil_append, hrest, hd, List.count_cons_of_ne hc.symm]
      · rw [heq] at hrest ⊢
        rw [List.flatten_cons] at hrest ⊢
        rw [List.cons_append, List.count_cons, hrest, List.count_cons]

/-- Taking a list apart loses separators and blanks only. -/
theorem count_flatten_splitTopLevel {separator c : Char} (hc : c ≠ separator)
    (hblank : isBlank c = false) (t : Text) :
    (splitTopLevel separator t).flatten.count c = t.count c := by
  rw [splitTopLevel, List.flatten_filter_not_isEmpty, count_flatten_trim hblank,
    count_flatten_pieces hc]

/-- If the arguments are found as they are, the closing parenthesis is the one behind them. -/
theorem isGroup_of_splitTopLevel {args : List Text}
    (h : splitTopLevel ',' (group (join [',', ' '] args ++ [')'])) = args.map trim) :
    IsGroup (join [',', ' '] args) [')'] := by
  have hcount : (group (join [',', ' '] args ++ [')'])).count ')' =
      (join [',', ' '] args).count ')' := by
    have hparts : (splitTopLevel ',' (group (join [',', ' '] args ++ [')']))).flatten.count ')' =
        (group (join [',', ' '] args ++ [')'])).count ')' :=
      count_flatten_splitTopLevel (by decide) rfl _
    rw [← hparts, h, count_flatten_trim rfl, count_join (by decide)]
  obtain ⟨after, hsplit, hgroup⟩ := exists_isGroup (join [',', ' '] args ++ [')'])
  -- One parenthesis is left behind the group, so it is the last character.
  have hafter : after.count ')' = 1 := by
    have htotal := congrArg (List.count ')') hsplit
    rw [List.count_append, List.count_append, hcount, List.count_singleton_self] at htotal
    omega
  have hlast : after = [')'] := by
    cases after with
    | nil => cases hafter
    | cons d rest =>
        obtain ⟨hd, _⟩ := hgroup.ends.resolve_left (List.cons_ne_nil _ _)
        cases hd
        rw [List.count_cons_self, Nat.add_eq_right, List.count_eq_zero] at hafter
        rcases List.eq_nil_or_concat rest with rfl | ⟨init, e, rfl⟩
        · rfl
        · rw [List.concat_eq_append, ← List.cons_append, ← List.append_assoc] at hsplit
          obtain ⟨_, he⟩ := List.append_inj' hsplit rfl
          cases he
          exact absurd (by simp) hafter
  subst hlast
  rwa [← List.append_cancel_right hsplit] at hgroup

end Text

namespace Clause

/-- The use of a mixin with a list of arguments. -/
def call (name : Text) (args : List Text) : Text :=
  name ++ '(' :: (Text.join [',', ' '] args ++ [')'])

theorem inclusion?_call {name : Text} (hname : name ≠ [])
    (hplain : ∀ c ∈ name, isBlank c = false ∧ c ≠ '(') (args : List Text) (content : Option Text) :
    inclusion? (call name args) content =
      some (.inclusion name (Argument.classifyList (Text.group (Text.join [',', ' '] args ++ [')'])))
        content) := by
  have htrim : Text.trim (call name args) = call name args := by
    obtain ⟨c, rest, rfl⟩ := List.exists_cons_of_ne_nil hname
    refine Text.trim_of_ends (d := ')') rfl (hplain c List.mem_cons_self).1 ?_ rfl
    rw [call, ← List.cons_append, ← List.append_assoc, List.getLast?_concat]
  have hends : ∀ c ∈ name, (!(c == '(' || isBlank c)) = true := by
    intro c hc
    simp [hplain c hc]
  have htake : (call name args).takeWhile (fun c => !(c == '(' || isBlank c)) = name := by
    exact takeWhile_run hends (by simp)
  have hdrop : (call name args).dropWhile (fun c => !(c == '(' || isBlank c)) =
      '(' :: (Text.join [',', ' '] args ++ [')']) := by
    exact dropWhile_run hends (by simp)
  rw [inclusion?, htrim]
  simp only [htake, hdrop, Text.splitFirst?, if_true, List.isEmpty_iff, hname, if_false]

/-- The arguments of an inclusion. Its name and its content are found as they are. Its arguments are
found as they are only if the parentheses of the list balance, those in strings included; and for
arguments that are settled this is enough. -/
theorem inclusion?_arguments {name : Text} {args : List Text} (hname : name ≠ [])
    (hplain : ∀ c ∈ name, isBlank c = false ∧ c ≠ '(') (hne : args ≠ [])
    (hblank : ∀ a ∈ args, a.blank = false) (content : Option Text) :
    ∃ parts, inclusion? (call name args) content =
        some (.inclusion name (parts.map Argument.classify) content) ∧
      (parts = args.map Text.trim → Text.IsGroup (Text.join [',', ' '] args) [')']) ∧
      ((∀ a ∈ args, Settled false a) → Text.IsGroup (Text.join [',', ' '] args) [')'] →
        parts = args.map Text.trim ∧
          parts.map Argument.classify = args.map Argument.classify) := by
  refine ⟨_, inclusion?_call hname hplain args content, Text.isGroup_of_splitTopLevel, ?_⟩
  intro hsettled hgroup
  have hparts := Text.splitTopLevel_join hne hblank hsettled
  rw [(Text.group_append_iff _).2 hgroup, hparts]
  refine ⟨rfl, ?_⟩
  rw [List.map_map]
  refine List.map_congr_left fun a _ => ?_
  rw [Function.comp_apply, Argument.classify, Text.trim_trim, ← Argument.classify]

/-- Arguments with a comma in a string, in brackets and in an interpolation. -/
def nested : List Text :=
  ["\"(,)\"".toList, "[a,b]".toList, "#\x7bc,d\x7d".toList]

theorem inclusion?_arguments_nested :
    inclusion? (call "m".toList nested) none =
      some (.inclusion "m".toList (nested.map Argument.classify) none) := by
  have hname : "m".toList ≠ [] := by decide
  have hplain : ∀ c ∈ "m".toList, isBlank c = false ∧ c ≠ '(' := by
    intro c hc
    obtain rfl := List.mem_singleton.1 hc
    decide
  have hargs : nested ≠ [] ∧ ∀ a ∈ nested, a.blank = false := by decide
  have hrun : StringRun '"' "(,)".toList :=
    .plain (by decide) (by decide) (.plain (by decide) (by decide)
      (.plain (by decide) (by decide) .nil))
  have hlist : Settled true "a,b".toList := .of_plain (by decide) (by decide)
  have hinside : Settled true "c,d".toList := .of_plain (by decide) (by decide)
  have hsettled : ∀ a ∈ nested, Settled false a := by
    intro a ha
    rcases List.mem_cons.1 ha with rfl | ha
    · exact .string rfl hrun (by decide) (.nil false)
    rcases List.mem_pair.1 ha with rfl | rfl
    · exact .group (List.mem_pair.2 (.inr rfl)) hlist (.nil false)
    · exact .interpolation hinside (.nil false)
  have hgroup : Text.IsGroup (Text.join [',', ' '] nested) [')'] :=
    (Text.group_append_iff _).1 (by decide)
  obtain ⟨parts, hcall, _, hparts⟩ :=
    inclusion?_arguments hname hplain hargs.1 hargs.2 none
  rw [hcall, (hparts hsettled hgroup).2]

/-- Lists with a backslash before the closing quote of a string, with a parenthesis in a string, and
with braces in an interpolation. -/
def unsettled : List (List Text) :=
  [["\"\\\\\"".toList, "a".toList], ["\")\"".toList, "a".toList],
    ["#\x7b\x7ba\x7d, b\x7d".toList]]

theorem inclusion?_of_unsettled :
    (∀ args ∈ unsettled, ∀ a ∈ args, ArgumentText false a ∧ a.blank = false ∧ '\n' ∉ a) ∧
      ∀ args ∈ unsettled, inclusion? (call "m".toList args) none ≠
        some (.inclusion "m".toList (args.map Argument.classify) none) := by
  have hletter : Settled false "a".toList := .of_plain (by decide) (by decide)
  have hclose : closeString? '"' "\\\\\"".toList = some ("\\\\\"".toList, []) := by decide
  have hbackslash : ArgumentText false "\"\\\\\"".toList := .string rfl hclose (.nil false)
  have hrun : StringRun '"' [')'] := .plain (by decide) (by decide) .nil
  have hparenthesis : Settled false "\")\"".toList := .string rfl hrun (by decide) (.nil false)
  have hdelimited : Delimited "#\x7b\x7ba\x7d, b\x7d".toList :=
    ⟨_, "\x7ba\x7d, b\x7d".toList.map .char, rfl, by decide +kernel⟩
  have hbraces : ArgumentText false "#\x7b\x7ba\x7d, b\x7d".toList :=
    .interpolation hdelimited (.nil false)
  have htext : ∀ args ∈ unsettled, ∀ a ∈ args, ArgumentText false a := by
    simp only [unsettled, List.forall_mem_cons, List.not_mem_nil, false_implies, implies_true,
      and_true]
    exact ⟨⟨hbackslash, hletter.argumentText⟩, ⟨hparenthesis.argumentText, hletter.argumentText⟩,
      hbraces⟩
  have hplain : ∀ args ∈ unsettled, ∀ a ∈ args, a.blank = false ∧ '\n' ∉ a := by decide
  exact ⟨fun args hargs a ha => ⟨htext args hargs a ha, hplain args hargs a ha⟩, by decide +kernel⟩

end Clause

end Stylesheet
