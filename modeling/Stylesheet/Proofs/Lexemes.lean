import Mathlib.Data.List.Infix
import Mathlib.Data.List.TakeWhile
import Stylesheet.Lists
import Stylesheet.Source.Lexeme

/-! What reading one lexeme can do.

`Lexeme.Reads` lists the ways in which the front of a text is read, each with all its conditions.
Proofs about reading go by its cases; the reader itself is not opened again. Comments are described
by their characters: a block comment ends at the first end mark behind its opening, a line comment
before the next line feed. -/

namespace Stylesheet

/-- Where `rest` follows, the text is one whole comment. -/
inductive IsComment : Text → Text → Prop
  | block {body : Text} (rest : Text) (hbody : ¬['*', '/'] <:+: body ++ ['*']) :
      IsComment ('/' :: '*' :: body ++ ['*', '/']) rest
  | line {body rest : Text} (hbody : '\n' ∉ body) (hrest : ∀ c ∈ rest.head?, c = '\n') :
      IsComment ('/' :: '/' :: body) rest

/-- A comment starts at the front of a text that is read outside parentheses. -/
def OpensComment (t : Text) : Prop :=
  ['/', '*'] <+: t ∨ ['/', '/'] <+: t

theorem closeComment?_ends {t closed rest : Text} (h : closeComment? t = some (closed, rest)) :
    ∃ body, closed = body ++ ['*', '/'] ∧ ¬['*', '/'] <:+: body ++ ['*'] := by
  fun_induction closeComment? t generalizing closed with
  | case1 r =>
      obtain ⟨rfl, rfl⟩ := Prod.mk.inj (Option.some.inj h)
      exact ⟨[], rfl, by decide⟩
  | case2 => cases h
  | case3 c r hfirst ih =>
      obtain ⟨⟨b, r'⟩, hb, he⟩ := Option.map_eq_some_iff.1 h
      obtain ⟨rfl, rfl⟩ := Prod.mk.inj he
      obtain ⟨body, rfl, hbody⟩ := ih hb
      refine ⟨c :: body, rfl, fun hpart => ?_⟩
      rcases List.infix_cons_iff.1 hpart with hprefix | hpart
      · -- The end mark would stand at the front of what is read, where it is looked for first.
        obtain ⟨rfl, hslash⟩ := List.cons_prefix_cons.1 hprefix
        obtain ⟨hr, _⟩ := closeComment?_append hb
        cases body with
        | nil => simp at hslash
        | cons d body =>
            obtain ⟨rfl, _⟩ := List.cons_prefix_cons.1 hslash
            exact hfirst _ rfl hr
      · exact hbody hpart

theorem not_infix_of_closeComment? {t : Text} (h : closeComment? t = none) :
    ¬['*', '/'] <:+: t := by
  fun_induction closeComment? t with
  | case1 => cases h
  | case2 => decide
  | case3 c r hfirst ih =>
      have hrest := ih (Option.map_eq_none_iff.1 h)
      intro hpart
      rcases List.infix_cons_iff.1 hpart with ⟨more, hmore⟩ | hpart
      · obtain ⟨rfl, rfl⟩ := List.cons.inj hmore
        exact hfirst more rfl rfl
      · exact hrest hpart

/-- The inside of a string, as far as it goes without its closing quote and without a backslash that
nothing follows. -/
inductive StringRun (quote : Char) : Text → Prop
  | nil : StringRun quote []
  | plain {c : Char} {run : Text} (hescape : c ≠ '\\') (hquote : c ≠ quote)
      (h : StringRun quote run) : StringRun quote (c :: run)
  | escape (c : Char) {run : Text} (h : StringRun quote run) : StringRun quote ('\\' :: c :: run)

/-- A character behind which no escape is read is no backslash. -/
theorem ne_backslash {c : Char} {r : Text} (hlast : c = '\\' → r = [] → False)
    (hescape : ∀ d rest, c = '\\' → r = d :: rest → False) : c ≠ '\\' := by
  intro hc
  cases r with
  | nil => exact hlast hc rfl
  | cons d rest => exact hescape d rest hc rfl

theorem stringRun_of_closed {quote : Char} {t body rest : Text}
    (h : closeString? quote t = some (body, rest)) :
    ∃ run, StringRun quote run ∧ body = run ++ [quote] ∧ quote ≠ '\\' := by
  fun_induction closeString? quote t generalizing body with
  | case1 => cases h
  | case2 => cases h
  | case3 c r ih =>
      obtain ⟨⟨b, r'⟩, hb, he⟩ := Option.map_eq_some_iff.1 h
      obtain ⟨rfl, rfl⟩ := Prod.mk.inj he
      obtain ⟨run, hrun, rfl, hquote⟩ := ih hb
      exact ⟨'\\' :: c :: run, .escape c hrun, rfl, hquote⟩
  | case4 r hlast hescape =>
      obtain ⟨rfl, rfl⟩ := Prod.mk.inj (Option.some.inj h)
      exact ⟨[], .nil, rfl, ne_backslash hlast hescape⟩
  | case5 c r hlast hescape hne ih =>
      obtain ⟨⟨b, r'⟩, hb, he⟩ := Option.map_eq_some_iff.1 h
      obtain ⟨rfl, rfl⟩ := Prod.mk.inj he
      obtain ⟨run, hrun, rfl, hquote⟩ := ih hb
      exact ⟨c :: run, .plain (ne_backslash hlast hescape) hne hrun, rfl, hquote⟩

theorem stringRun_of_unclosed {quote : Char} {t : Text} (h : closeString? quote t = none) :
    ∃ run, StringRun quote run ∧ (t = run ∨ t = run ++ ['\\']) := by
  fun_induction closeString? quote t with
  | case1 => exact ⟨[], .nil, .inl rfl⟩
  | case2 => exact ⟨[], .nil, .inr rfl⟩
  | case3 c r ih =>
      obtain ⟨run, hrun, hend⟩ := ih (Option.map_eq_none_iff.1 h)
      refine ⟨'\\' :: c :: run, .escape c hrun, ?_⟩
      rcases hend with rfl | rfl
      · exact .inl rfl
      · exact .inr rfl
  | case4 => cases h
  | case5 c r hlast hescape hne ih =>
      obtain ⟨run, hrun, hend⟩ := ih (Option.map_eq_none_iff.1 h)
      refine ⟨c :: run, .plain (ne_backslash hlast hescape) hne hrun, ?_⟩
      rcases hend with rfl | rfl
      · exact .inl rfl
      · exact .inr rfl

namespace Lexeme

/-- The ways to read the front of a text with `depth` parentheses open. -/
inductive Reads (depth : Nat) : Text → Reading → Prop
  | finished : Reads depth [] .finished
  | blockComment {t body rest : Text} (hclose : closeComment? t = some (body, rest)) :
      Reads depth ('/' :: '*' :: t) (.lexeme (.comment ('/' :: '*' :: body)) rest)
  | openComment {t : Text} (hclose : closeComment? t = none) :
      Reads depth ('/' :: '*' :: t) (.unclosed .comment [])
  | lineComment {body rest : Text} (hdepth : depth = 0) (hbody : '\n' ∉ body)
      (hrest : ∀ c ∈ rest.head?, c = '\n') :
      Reads depth ('/' :: '/' :: body ++ rest) (.lexeme (.comment ('/' :: '/' :: body)) rest)
  | interpolation {t rest : Text} {inside : List Piece}
      (hclose : closeInterpolation 0 t = .closed inside rest) :
      Reads depth ('#' :: '{' :: t) (.lexeme (.interpolation inside) rest)
  | openInner {t before : Text} (hclose : closeInterpolation 0 t = .openString before) :
      Reads depth ('#' :: '{' :: t) (.unclosed .string ('#' :: '{' :: before))
  | openInterpolation {t : Text} (hclose : closeInterpolation 0 t = .unclosed) :
      Reads depth ('#' :: '{' :: t) (.unclosed .interpolation [])
  | quoted {quote : Char} {t body rest : Text} (hquote : Nesting.quotes quote = true)
      (hclose : closeString? quote t = some (body, rest)) :
      Reads depth (quote :: t) (.lexeme (.quoted (quote :: body)) rest)
  | openString {quote : Char} {t : Text} (hquote : Nesting.quotes quote = true)
      (hclose : closeString? quote t = none) : Reads depth (quote :: t) (.unclosed .string [])
  | semicolon (t : Text) (hdepth : depth = 0) :
      Reads depth (';' :: t) (.lexeme (.mark .semicolon) t)
  | openBrace (t : Text) : Reads depth ('{' :: t) (.lexeme (.mark .openBrace) t)
  | closeBrace (t : Text) : Reads depth ('}' :: t) (.lexeme (.mark .closeBrace) t)
  | blank {c : Char} (t : Text) (hblank : isBlank c = true) :
      Reads depth (c :: t) (.lexeme (.blank c) t)
  /-- Any other character, unless a comment or an interpolation starts with it. -/
  | char {c : Char} {t : Text} (hquote : Nesting.quotes c = false)
      (hmark : c ≠ '{' ∧ c ≠ '}' ∧ (c = ';' → depth ≠ 0)) (hblank : isBlank c = false)
      (hslash : c = '/' → t.head? ≠ some '*' ∧ (depth = 0 → t.head? ≠ some '/'))
      (hhash : c = '#' → t.head? ≠ some '{') :
      Reads depth (c :: t) (.lexeme (.char c) t)

theorem reads_readChar {depth : Nat} {c : Char} {t : Text}
    (hslash : c = '/' → t.head? ≠ some '*' ∧ (depth = 0 → t.head? ≠ some '/'))
    (hhash : c = '#' → t.head? ≠ some '{') : Reads depth (c :: t) (readChar depth c t) := by
  unfold readChar
  split
  · next hquote =>
    cases hclose : closeString? c t with
    | none => exact .openString hquote hclose
    | some closed => exact .quoted hquote hclose
  next hquote =>
  split
  · next hsemi =>
    obtain ⟨rfl, hdepth⟩ := hsemi
    exact .semicolon t hdepth
  next hsemi =>
  split
  · next hopen =>
    subst hopen
    exact .openBrace t
  next hopen =>
  split
  · next hclose =>
    subst hclose
    exact .closeBrace t
  next hclose =>
  split
  · next hblank => exact .blank t hblank
  next hblank =>
  have hmark : c ≠ '{' ∧ c ≠ '}' ∧ (c = ';' → depth ≠ 0) :=
    ⟨hopen, hclose, fun hc hdepth => hsemi ⟨hc, hdepth⟩⟩
  exact .char (by simpa using hquote) hmark (by simpa using hblank) hslash hhash

theorem reads_read (depth : Nat) (t : Text) : Reads depth t (read depth t) := by
  unfold read
  split
  · exact .finished
  · next rest =>
    cases hclose : closeComment? rest with
    | none => exact .openComment hclose
    | some closed => exact .blockComment hclose
  · next rest =>
    split
    · next hdepth =>
      have hline : '\n' ∉ rest.takeWhile (· != '\n') := by
        intro hmem
        simpa using List.mem_takeWhile_imp hmem
      have hend : ∀ c ∈ (rest.dropWhile (· != '\n')).head?, c = '\n' := by
        intro c hc
        simpa using head?_dropWhile hc
      have hreads : Reads depth _ _ := .lineComment hdepth hline hend
      rwa [List.cons_append, List.cons_append, List.takeWhile_append_dropWhile] at hreads
    · next hdepth => exact reads_readChar (by simp [hdepth]) (by simp)
  · next rest =>
    cases hclose : closeInterpolation 0 rest with
    | closed inside after => exact .interpolation hclose
    | openString before => exact .openInner hclose
    | unclosed => exact .openInterpolation hclose
  · next c rest hcomment hline hinter =>
    refine reads_readChar ?_ ?_
    · rintro rfl
      cases rest with
      | nil => simp
      | cons d rest =>
          refine ⟨fun hd => ?_, fun _ hd => ?_⟩
          · cases hd
            exact hcomment rest rfl rfl
          · cases hd
            exact hline rest rfl rfl
    · rintro rfl
      cases rest with
      | nil => simp
      | cons d rest =>
          intro hd
          cases hd
          exact hinter rest rfl rfl

theorem read_cons {depth : Nat} {c : Char} {t : Text}
    (hslash : c = '/' → t.head? ≠ some '*' ∧ (depth = 0 → t.head? ≠ some '/'))
    (hhash : c = '#' → t.head? ≠ some '{') : read depth (c :: t) = readChar depth c t := by
  rw [read.eq_def]
  split
  · next heq => cases heq
  · next heq =>
    cases heq
    exact absurd rfl (hslash rfl).1
  · next heq =>
    cases heq
    exact if_neg fun hdepth => (hslash rfl).2 hdepth rfl
  · next heq =>
    cases heq
    exact absurd rfl (hhash rfl)
  · next heq =>
    cases heq
    rfl

theorem not_quotes_of_isBlank {c : Char} (h : isBlank c = true) : Nesting.quotes c = false := by
  rw [Bool.eq_false_iff]
  intro hquote
  have hcases : c = '"' ∨ c = '\'' := by simpa [Nesting.quotes] using hquote
  rcases hcases with rfl | rfl <;> cases h

/-- There is one way to read the front of a text. -/
theorem read_of_reads {depth : Nat} {t : Text} {r : Reading} (h : Reads depth t r) : read depth t = r := by
  cases h with
  | finished => rfl
  | blockComment hclose => simp only [read, hclose]
  | openComment hclose => simp only [read, hclose]
  | @lineComment body rest hdepth hbody hrest =>
      have hline : ∀ c ∈ body, (c != '\n') = true := by
        intro c hc
        rw [bne_iff_ne]
        rintro rfl
        exact hbody hc
      have hstop : ∀ c ∈ rest.head?, (c != '\n') = false := by
        intro c hc
        rw [hrest c hc]
        rfl
      rw [List.cons_append, List.cons_append, read, if_pos hdepth, takeWhile_run hline hstop,
        dropWhile_run hline hstop]
  | interpolation hclose => simp only [read, hclose]
  | openInner hclose => simp only [read, hclose]
  | openInterpolation hclose => simp only [read, hclose]
  | quoted hquote hclose =>
      rw [read_cons (by rintro rfl; cases hquote) (by rintro rfl; cases hquote), readChar,
        if_pos hquote, hclose]
  | openString hquote hclose =>
      rw [read_cons (by rintro rfl; cases hquote) (by rintro rfl; cases hquote), readChar,
        if_pos hquote, hclose]
  | semicolon t hdepth =>
      rw [read_cons (fun h => by cases h) (fun h => by cases h), readChar,
        if_neg (by decide), if_pos ⟨rfl, hdepth⟩]
  | openBrace t =>
      rw [read_cons (fun h => by cases h) (fun h => by cases h)]
      simp [readChar, Nesting.quotes]
  | closeBrace t =>
      rw [read_cons (fun h => by cases h) (fun h => by cases h)]
      simp [readChar, Nesting.quotes]
  | @blank c t hblank =>
      have hne {d : Char} (hd : isBlank d = false) : c ≠ d := by
        rintro rfl
        rw [hblank] at hd
        cases hd
      rw [read_cons (fun h => absurd h (hne rfl)) (fun h => absurd h (hne rfl)), readChar,
        if_neg (by simp [not_quotes_of_isBlank hblank]), if_neg fun h => hne rfl h.1,
        if_neg (hne rfl), if_neg (hne rfl), if_pos hblank]
  | char hquote hmark hblank hslash hhash =>
      rw [read_cons hslash hhash, readChar, if_neg (by simp [hquote]),
        if_neg fun h => hmark.2.2 h.1 h.2, if_neg hmark.1, if_neg hmark.2.1,
        if_neg (by simp [hblank])]

theorem eq_nil_of_read {depth : Nat} {t : Text} (h : read depth t = .finished) : t = [] := by
  have hreads := reads_read depth t
  rw [h] at hreads
  cases hreads
  rfl

end Lexeme

end Stylesheet
