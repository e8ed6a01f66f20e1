import Stylesheet.Proofs.Fronts

/-! Strings with interpolations in them.

A string may hold interpolations, an interpolation may hold strings again, and so on (`Nested`). The
reader knows of strings inside interpolations but not of interpolations inside strings: a string is
read up to the next quote of its kind that is not escaped. So a string is copied whole if no
interpolation in it holds its own quote, however deep it is nested. Where one does, the string that is
read ends inside that interpolation, and a brace behind it may end the segment. -/

namespace Stylesheet

/-- What a text stands inside of. -/
inductive Context where
  | string (quote : Char)
  | interpolation

/-- The inside of a string or of an interpolation. -/
inductive Nested : Context → Text → Prop
  | nil (k : Context) : Nested k []
  | escape {quote : Char} (c : Char) {t : Text} (h : Nested (.string quote) t) :
      Nested (.string quote) ('\\' :: c :: t)
  | plain {quote c : Char} {t : Text} (hescape : c ≠ '\\') (hquote : c ≠ quote)
      (h : Nested (.string quote) t) : Nested (.string quote) (c :: t)
  | interpolation {quote : Char} {inside t : Text} (hinside : Nested .interpolation inside)
      (h : Nested (.string quote) t) : Nested (.string quote) ('#' :: '{' :: inside ++ '}' :: t)
  | quoted {quote : Char} {inside t : Text} (hquote : Nesting.quotes quote = true)
      (hinside : Nested (.string quote) inside) (h : Nested .interpolation t) :
      Nested .interpolation (quote :: inside ++ quote :: t)
  | braces {inside t : Text} (hinside : Nested .interpolation inside)
      (h : Nested .interpolation t) : Nested .interpolation ('{' :: inside ++ '}' :: t)
  | char {c : Char} {t : Text} (hquote : Nesting.quotes c = false) (hopen : c ≠ '{')
      (hclose : c ≠ '}') (h : Nested .interpolation t) : Nested .interpolation (c :: t)

/-- An interpolation as a whole. -/
def IsInterpolation (t : Text) : Prop :=
  ∃ inside, Nested .interpolation inside ∧ t = '#' :: '{' :: inside ++ ['}']

theorem StringRun.append {quote : Char} {s t : Text} (hs : StringRun quote s)
    (ht : StringRun quote t) : StringRun quote (s ++ t) := by
  induction hs with
  | nil => exact ht
  | plain hescape hquote _ ih => exact .plain hescape hquote ih
  | escape c _ ih => exact .escape c ih

/-- A string ends at the quote behind its inside. -/
theorem StringRun.closeString? {quote : Char} {run : Text} (h : StringRun quote run)
    (hquote : quote ≠ '\\') (rest : Text) :
    closeString? quote (run ++ quote :: rest) = some (run ++ [quote], rest) := by
  induction h with
  | nil =>
      rw [List.nil_append, Stylesheet.closeString?, if_pos rfl]
      · rfl
      · exact fun hc _ => hquote hc
      · exact fun d rest hc _ => hquote hc
  | plain hescape hne _ ih =>
      rw [List.cons_append, Stylesheet.closeString?, if_neg hne, ih]
      · rfl
      · exact fun hc _ => hescape hc
      · exact fun d rest hc _ => hescape hc
  | escape c _ ih =>
      rw [List.cons_append, List.cons_append, Stylesheet.closeString?, ih]
      rfl

/-- Inside an interpolation a string may meet its quote; if it does not, it goes on behind it. -/
theorem IsInterpolation.run_or_quote {t : Text} (h : IsInterpolation t) (quote : Char) :
    StringRun quote t ∨ ∃ seen hidden, t = seen ++ quote :: hidden ∧ StringRun quote seen := by
  obtain ⟨inside, _, rfl⟩ := h
  cases hclose : closeString? quote ('#' :: '{' :: inside ++ ['}']) with
  | some closed =>
      obtain ⟨body, hidden⟩ := closed
      obtain ⟨run, hrun, rfl, _⟩ := stringRun_of_closed hclose
      refine .inr ⟨run, hidden, ?_, hrun⟩
      rw [(closeString?_append hclose).1, List.append_assoc]
      rfl
  | none =>
      obtain ⟨run, hrun, hall | hlast⟩ := stringRun_of_unclosed hclose
      · exact .inl (hall ▸ hrun)
      · -- An interpolation ends in a brace, never in a backslash that waits for another character.
        have hend := congrArg List.getLast? hlast
        rw [List.getLast?_concat, List.getLast?_concat] at hend
        cases hend

/-- A string is cut short at a quote in one of its interpolations: `run` is read as its inside, and
`left` is what follows the quote. -/
structure CutShort (quote : Char) (body run left : Text) : Prop where
  plain : StringRun quote run
  split : body = run ++ quote :: left
  inside : ∃ front seen hidden back, run = front ++ seen ∧ left = hidden ++ back ∧
    IsInterpolation (seen ++ quote :: hidden)

/-- What is read before makes no difference. -/
theorem CutShort.append {quote : Char} {first body run left : Text} (hfirst : StringRun quote first)
    (h : CutShort quote body run left) : CutShort quote (first ++ body) (first ++ run) left := by
  obtain ⟨hrun, rfl, front, seen, hidden, back, rfl, rfl, hinter⟩ := h
  exact ⟨hfirst.append hrun, by simp, first ++ front, seen, hidden, back, by simp, rfl, hinter⟩

/-- The inside of a string is read to its end, or it is cut short. -/
theorem Nested.run_or_cutShort {quote : Char} {body : Text} (h : Nested (.string quote) body) :
    StringRun quote body ∨ ∃ run left, CutShort quote body run left := by
  have hmore {first t : Text} (hfirst : StringRun quote first)
      (h : StringRun quote t ∨ ∃ run left, CutShort quote t run left) :
      StringRun quote (first ++ t) ∨ ∃ run left, CutShort quote (first ++ t) run left := by
    rcases h with hrun | ⟨run, left, hcut⟩
    · exact .inl (hfirst.append hrun)
    · exact .inr ⟨first ++ run, left, hcut.append hfirst⟩
  generalize hk : Context.string quote = k at h
  induction h with
  | nil => exact .inl .nil
  | escape c _ ih => exact hmore (.escape c .nil) (ih hk)
  | plain hescape hquote _ ih =>
      cases hk
      exact hmore (.plain hescape hquote .nil) (ih rfl)
  | @interpolation _ inside t hinside _ _ ih =>
      have hinter : IsInterpolation ('#' :: '{' :: inside ++ ['}']) := ⟨inside, hinside, rfl⟩
      have hsplit : '#' :: '{' :: inside ++ '}' :: t = '#' :: '{' :: inside ++ ['}'] ++ t := by simp
      rw [hsplit]
      rcases hinter.run_or_quote quote with hrun | ⟨seen, hidden, heq, hrun⟩
      · exact hmore hrun (ih hk)
      · rw [heq] at hinter ⊢
        exact .inr ⟨seen, hidden ++ t, hrun, by simp, [], seen, hidden, t, rfl, rfl, hinter⟩
  | quoted => cases hk
  | braces => cases hk
  | char => cases hk

/-! ### Segments -/

/-- A string is copied whole: it is read as one lexeme, the segment ends at a mark behind it or at
the end of the source, and the string stands in the text of the segment. -/
structure Copied (d : Draft) (p : Position) (string rest : Text) : Prop where
  read : Cursor.read d p (string ++ rest) =
    Cursor.read (d.add p (.quoted string)) (p.after string) rest
  ends : ∀ s, (Cursor.read d p (string ++ rest)).outcome = .ok s → ∃ body back,
    rest = body ++ back ∧ back.head? = s.terminator.map Mark.char ∧
      s.terminatorPosition = p.after (string ++ body)
  text : ∀ s, (Cursor.read d p (string ++ rest)).outcome = .ok s → string <:+: s.text

/-- What a draft holds up to a visible character stays in the text of the segment. -/
theorem Draft.infix_finish {d : Draft} {kept : Text} {c : Char} (hc : isBlank c = false)
    (h : c :: kept <:+: d.reversed) (m : Option Mark) (p : Position) :
    (c :: kept).reverse <:+: (d.finish m p).text := by
  obtain ⟨later, earlier, hreversed⟩ := h
  have htext : (d.finish m p).text = (d.reversed.dropWhile isBlank).reverse := by
    simp [Draft.finish, Text.trimEnd]
  rw [htext, List.reverse_infix, ← hreversed, List.append_assoc, List.dropWhile_append]
  split
  · simp only [List.cons_append, List.dropWhile_cons, hc]
    exact ⟨[], earlier, rfl⟩
  · exact ⟨_, earlier, by rw [List.append_assoc]⟩

theorem Cursor.infix_text {d : Draft} {p : Position} {t kept : Text} {c : Char} {s : Segment}
    (hc : isBlank c = false) (hkept : c :: kept <:+: d.reversed)
    (h : (Cursor.read d p t).outcome = .ok s) : (c :: kept).reverse <:+: s.text := by
  fun_induction Cursor.read d p t with
  | case1 d p t hr =>
      cases h
      exact Draft.infix_finish hc hkept none p
  | case2 => cases h
  | case3 d p t m rest hr =>
      cases h
      exact Draft.infix_finish hc hkept (some m) p
  | case4 d p t l rest hl hr ih => exact ih (hkept.trans (d.suffix_add p l).isInfix) h

theorem copied_of_run {quote : Char} {run : Text} (hquote : Nesting.quotes quote = true)
    (hrun : StringRun quote run) (d : Draft) (p : Position) (rest : Text) :
    Copied d p (quote :: run ++ [quote]) rest := by
  have hchar : quote ≠ '\\' ∧ isBlank quote = false := by
    have hcases : quote = '"' ∨ quote = '\'' := by simpa [Nesting.quotes] using hquote
    rcases hcases with rfl | rfl <;> decide
  have hlexeme : Lexeme.read d.depth (quote :: run ++ [quote] ++ rest) =
      .lexeme (.quoted (quote :: run ++ [quote])) rest := by
    have hclose := hrun.closeString? hchar.1 rest
    have hreads : Lexeme.Reads d.depth _ _ := .quoted hquote hclose
    simpa using Lexeme.read_of_reads hreads
  have hread : Cursor.read d p (quote :: run ++ [quote] ++ rest) =
      Cursor.read (d.add p (.quoted (quote :: run ++ [quote])))
        (p.after (quote :: run ++ [quote])) rest :=
    Cursor.read_of_lexeme hlexeme (by simp)
  refine ⟨hread, fun s hs => ?_, fun s hs => ?_⟩
  · rw [hread] at hs
    obtain ⟨body, back, hrest, hmark, hposition, _⟩ := Cursor.read_ends hs
    exact ⟨body, back, hrest, hmark, by rw [hposition, ← Position.after_append]⟩
  · rw [hread] at hs
    have hkept : quote :: (run.reverse ++ [quote]) <:+:
        (d.add p (.quoted (quote :: run ++ [quote]))).reversed :=
      ⟨[], d.reversed, by simp [Draft.add]⟩
    simpa using Cursor.infix_text hchar.2 hkept hs

/-- A string with interpolations in it, as it stands at the cursor. It is copied whole if its inside
has no quote of its kind but escaped ones, as is the case where no interpolation holds such a quote.
Otherwise the string that is copied is cut short inside an interpolation, and reading goes on there. -/
theorem nested_string_copied {quote : Char} {body : Text} (hquote : Nesting.quotes quote = true)
    (hbody : Nested (.string quote) body) (d : Draft) (p : Position) (rest : Text) :
    ((∀ t, t <:+: body → IsInterpolation t → quote ∉ t) → StringRun quote body) ∧
      (StringRun quote body → Copied d p (quote :: body ++ [quote]) rest) ∧
      (¬StringRun quote body → ∃ run left, CutShort quote body run left ∧
        Copied d p (quote :: run ++ [quote]) (left ++ quote :: rest)) := by
  refine ⟨fun hfree => ?_, fun hrun => copied_of_run hquote hrun d p rest, fun hrun => ?_⟩
  · rcases hbody.run_or_cutShort with hrun | ⟨run, left, hcut⟩
    · exact hrun
    · obtain ⟨_, rfl, front, seen, hidden, back, rfl, rfl, hinter⟩ := hcut
      refine absurd ?_ (hfree _ ⟨front, back, by simp⟩ hinter)
      simp
  · obtain ⟨run, left, hcut⟩ := hbody.run_or_cutShort.resolve_left hrun
    exact ⟨run, left, hcut, copied_of_run hquote hcut.plain d p _⟩

/-- An interpolation in which a function is given a brace in quotes. -/
def quotedBrace (quote : Char) : Text :=
  ['#', '{', 'f', '(', quote, '}', quote, ')', '}']

theorem nested_quotedBrace (outer : Char) {inner : Char} (hinner : Nesting.quotes inner = true) :
    Nested (.string outer) (quotedBrace inner) := by
  have hbrace : Nested (.string inner) ['}'] := by
    refine .plain (by decide) ?_ (.nil _)
    rintro rfl
    cases hinner
  have hstring : Nested .interpolation (inner :: ['}'] ++ inner :: [')']) :=
    .quoted hinner hbrace (.char rfl (by decide) (by decide) (.nil _))
  have hcall : Nested .interpolation ('f' :: '(' :: (inner :: ['}'] ++ inner :: [')'])) :=
    .char rfl (by decide) (by decide) (.char rfl (by decide) (by decide) hstring)
  exact .interpolation hcall (.nil _)

/-- In a string of the other kind the brace is copied like everything else. -/
theorem nested_string_copied_apostrophes :
    Nesting.quotes '"' = true ∧ Nested (.string '"') (quotedBrace '\'') ∧
      Copied .empty .start ('"' :: quotedBrace '\'' ++ ['"']) [';'] := by
  have hnested := nested_quotedBrace '"' (rfl : Nesting.quotes '\'' = true)
  obtain ⟨hfree, hcopied, _⟩ := nested_string_copied rfl hnested .empty .start [';']
  refine ⟨rfl, hnested, hcopied (hfree fun t ht _ hmem => ?_)⟩
  exact absurd (ht.subset hmem) (by decide)

/-- In a string of the same kind the brace ends the segment. -/
theorem segment_ends_in_nested_string :
    Nested (.string '"') (quotedBrace '"') ∧
      (Cursor.start ("a: \"".toList ++ quotedBrace '"' ++ "\"; b".toList)).next.outcome =
        .ok ⟨"a: \"#\x7bf(\"".toList, ⟨1, 0⟩, some .closeBrace, ⟨1, 9⟩⟩ :=
  ⟨nested_quotedBrace '"' rfl, by decide +kernel⟩

end Stylesheet
