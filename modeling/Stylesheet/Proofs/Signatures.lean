import Stylesheet.Proofs.ArgumentLists
import Stylesheet.Proofs.Assignments

/-! Headers of mixins and functions.

A header gives a name and, between parentheses, parameters divided by commas. A parameter is a `$`
with a name, and behind it possibly three dots or a colon and the value that it falls back to. The
list is found between the first and the last parenthesis, comes apart at the commas that stand in no
brackets, and each parameter at its first colon; a fallback whose brackets nest properly may hold
commas, colons and parentheses of its own (`Parameter.IsFallback`). So a header is read as it was
put together. -/

namespace Stylesheet

theorem isBlank_of_isNameChar {c : Char} (hc : isNameChar c = true) : isBlank c = false := by
  cases hblank : isBlank c with
  | false => rfl
  | true =>
      rw [isNameChar_of_isBlank hblank] at hc
      cases hc

/-- A character at which no list comes apart and which opens and closes nothing. -/
def isPlainChar (c : Char) : Bool :=
  !Nesting.quotes c && !Nesting.isBracket c && c != ','

theorem isPlainChar_of_isNameChar {c : Char} (hc : isNameChar c = true) : isPlainChar c = true := by
  by_contra h
  have hcases : (c = '"' ∨ c = '\'') ∨
      (c = '(' ∨ c = ')' ∨ c = '[' ∨ c = ']' ∨ c = '{' ∨ c = '}') ∨ c = ',' := by
    simp [isPlainChar, Nesting.quotes, Nesting.isBracket] at h
    tauto
  rcases hcases with (rfl | rfl) | (rfl | rfl | rfl | rfl | rfl | rfl) | rfl <;> cases hc

theorem Settled.plain_append {inside : Bool} {s t : Text} (hs : ∀ c ∈ s, isPlainChar c = true)
    (ht : Settled inside t) : Settled inside (s ++ t) := by
  induction s with
  | nil => exact ht
  | cons c s ih =>
      obtain ⟨hc, hrest⟩ := List.forall_mem_cons.1 hs
      obtain ⟨⟨hquote, hbracket⟩, hcomma⟩ :
          (Nesting.quotes c = false ∧ Nesting.isBracket c = false) ∧ c ≠ ',' := by
        simpa [isPlainChar] using hc
      exact .char hquote hbracket (fun heq => absurd heq hcomma) (ih hrest)

/-- Blanks around a text make no difference to its kind. -/
theorem Value.classify_congr {s t : Text} (h : s.trim = t.trim) : classify s = classify t := by
  unfold classify
  rw [h]

namespace Text.IsIdentifier

variable {name : Text}

theorem not_mem (h : IsIdentifier name) {c : Char} (hc : isNameChar c = false) : c ∉ name := by
  intro hmem
  rw [h.chars c hmem] at hc
  cases hc

theorem plain (h : IsIdentifier name) : ∀ c ∈ name, isPlainChar c = true :=
  fun c hc => isPlainChar_of_isNameChar (h.chars c hc)

theorem trim_dollar (h : IsIdentifier name) : trim ('$' :: name) = '$' :: name := by
  refine trim_of_visible fun c hc => ?_
  rcases List.mem_cons.1 hc with rfl | hname
  · rfl
  · exact isBlank_of_isNameChar (h.chars c hname)

end Text.IsIdentifier

namespace Parameter

/-! ### Parameters -/

/-- The value of a parameter as it is written: settled text on one line, so its brackets nest
properly and a comma stands only inside them. -/
structure IsFallback (value : Text) : Prop where
  visible : value.blank = false
  oneLine : '\n' ∉ value
  settled : Settled false value

/-- A parameter as it is spelled. -/
inductive Spelling where
  | plain (name : Text) (h : name.IsIdentifier)
  /-- A parameter that takes all further arguments. -/
  | variadic (name : Text) (h : name.IsIdentifier)
  | withFallback (name value : Text) (h : name.IsIdentifier) (hvalue : IsFallback value)

namespace Spelling

/-- The text of a parameter. -/
def text : Spelling → Text
  | .plain name _ => '$' :: name
  | .variadic name _ => '$' :: name ++ "...".toList
  | .withFallback name value _ _ => '$' :: name ++ ':' :: ' ' :: value

/-- The parameter that is spelled. -/
def parameter : Spelling → Parameter
  | .plain name _ => ⟨name, none⟩
  | .variadic name _ => ⟨name, none⟩
  | .withFallback name value _ _ => ⟨name, some (.classify value)⟩

theorem blank_text (p : Spelling) : p.text.blank = false := by
  cases p <;> rfl

theorem settled_text (p : Spelling) : Settled false p.text := by
  have hname {name : Text} (h : name.IsIdentifier) : ∀ c ∈ '$' :: name, isPlainChar c = true :=
    List.forall_mem_cons.2 ⟨by decide, h.plain⟩
  cases p with
  | plain name h =>
      have hsettled : Settled false ('$' :: name ++ []) := .plain_append (hname h) (.nil false)
      rwa [List.append_nil] at hsettled
  | variadic name h =>
      have hdots : ∀ c ∈ ['.', '.', '.'], isPlainChar c = true := List.all_eq_true.1 rfl
      exact .plain_append (hname h) (.plain_append hdots (.nil false))
  | withFallback name value h hvalue =>
      have hcolon : ∀ c ∈ [':', ' '], isPlainChar c = true := List.all_eq_true.1 rfl
      exact .plain_append (hname h) (.plain_append hcolon hvalue.settled)

theorem oneLine_text (p : Spelling) : '\n' ∉ p.text := by
  have hname {name : Text} (h : name.IsIdentifier) : '\n' ∉ name := h.not_mem rfl
  cases p with
  | plain name h => simp [text, hname h]
  | variadic name h => simp [text, hname h]
  | withFallback name value h hvalue => simp [text, hname h, hvalue.oneLine]

theorem bareName_append {name : Text} (h : name.IsIdentifier) (dots : Text) :
    bareName ('$' :: name ++ dots) = Text.withoutEndings "...".toList (name ++ dots) := by
  obtain ⟨c, hhead, hstart⟩ := h.starts
  obtain ⟨rest, rfl⟩ := List.head?_eq_some_iff.1 hhead
  have hc : c ≠ '$' := by
    rintro rfl
    cases hstart
  simp [bareName, hc]

theorem withoutEndings_dots {name : Text} (h : name.IsIdentifier) :
    Text.withoutEndings "...".toList name = name := by
  refine Text.withoutEndings_of_not_suffix fun hsuffix => ?_
  have hdot : '.' ∈ name := hsuffix.mem (by decide)
  exact h.not_mem rfl hdot

theorem bareName_dollar {name : Text} (h : name.IsIdentifier) : bareName ('$' :: name) = name := by
  have hbare := bareName_append h []
  rwa [List.append_nil, List.append_nil, withoutEndings_dots h] at hbare

/-- A parameter is read as it is spelled, whatever blanks stand around it. -/
theorem ofText_trim_text (p : Spelling) : ofText p.text.trim = p.parameter := by
  have hcolon {name : Text} (h : name.IsIdentifier) : ':' ∉ '$' :: name := by
    have hname : ':' ∉ name := h.not_mem rfl
    simpa using hname
  cases p with
  | plain name h =>
      rw [text, h.trim_dollar, ofText, Text.splitFirst?_of_not_mem (hcolon h)]
      simp only [bareName_dollar h, parameter]
  | variadic name h =>
      have hlast : ('$' :: name ++ "...".toList).getLast? = some '.' :=
        List.getLast?_append_of_ne_nil _ (by simp)
      have htrim : Text.trim ('$' :: name ++ "...".toList) = '$' :: name ++ "...".toList :=
        Text.trim_of_ends (c := '$') rfl rfl hlast rfl
      have hnone : ':' ∉ '$' :: name ++ "...".toList := by
        rw [List.mem_append, not_or]
        exact ⟨hcolon h, by decide⟩
      have hdots : Text.withoutEndings "...".toList (name ++ "...".toList) = name := by
        rw [Text.withoutEndings_append (by decide), withoutEndings_dots h]
      rw [text, htrim, ofText, Text.splitFirst?_of_not_mem hnone]
      simp only [bareName_append h, hdots, parameter]
  | withFallback name value h hvalue =>
      have htrim : Text.trim ('$' :: name ++ ':' :: ' ' :: value) =
          '$' :: name ++ ':' :: Text.trimEnd (' ' :: value) := by
        rw [Text.trim, List.cons_append, Text.trimStart_cons rfl, ← List.cons_append,
          Text.trimEnd_append_cons rfl]
      have hvalue : (Text.trimEnd (' ' :: value)).trim = value.trim := by
        rw [← Text.trimStart_trimEnd, Text.trimEnd_trimEnd, Text.trimStart_trimEnd]
        have hgap : Text.Blanks [' '] := by decide
        exact Text.trim_blanks_append hgap value
      rw [text, htrim, ofText, Text.splitFirst?_append (hcolon h)]
      simp only [h.trim_dollar, bareName_dollar h, Value.classify_congr hvalue, parameter]

end Spelling

/-- A list of parameters is read as it was put together. -/
theorem list_join (ps : List Spelling) :
    list (Text.join [',', ' '] (ps.map Spelling.text)) = ps.map Spelling.parameter := by
  by_cases hne : ps = []
  · subst hne
    decide
  · have hblank : ∀ t ∈ ps.map Spelling.text, t.blank = false :=
      List.forall_mem_map.2 fun p _ => p.blank_text
    have hsettled : ∀ t ∈ ps.map Spelling.text, Settled false t :=
      List.forall_mem_map.2 fun p _ => p.settled_text
    rw [list, Text.splitTopLevel_join (by simpa using hne) hblank hsettled, List.map_map,
      List.map_map]
    exact List.map_congr_left fun p _ => p.ofText_trim_text

theorem oneLine_join (ps : List Spelling) :
    '\n' ∉ Text.join [',', ' '] (ps.map Spelling.text) := by
  have hflat : '\n' ∉ (ps.map Spelling.text).flatten := by
    intro hmem
    obtain ⟨t, ht, hnewline⟩ := List.mem_flatten.1 hmem
    obtain ⟨p, _, rfl⟩ := List.mem_map.1 ht
    exact p.oneLine_text hnewline
  rw [← List.count_eq_zero] at hflat ⊢
  rwa [Text.count_join (by decide)]

end Parameter

namespace Header

/-! ### Headers -/

/-- A name as it may stand behind the keyword of a header: it ends before a blank or a
parenthesis. -/
structure IsName (name : Text) : Prop where
  nonempty : name ≠ []
  plain : ∀ c ∈ name, isBlank c = false ∧ c ≠ '('

variable {name : Text}

theorem callee?_append (h : IsName name) {rest : Text} (hrest : ∀ c ∈ rest.head?, c = '(') :
    callee? (name ++ rest) = some (name, rest) := by
  have hname : ∀ c ∈ name, (!(isBlank c || c == '(')) = true := by
    intro c hc
    simp [h.plain c hc]
  have hvisible : ∀ c ∈ rest.head?, isBlank c = false := by
    intro c hc
    rw [hrest c hc]
    rfl
  have hends : ∀ c ∈ rest.head?, (!(isBlank c || c == '(')) = false := by
    intro c hc
    simp [hrest c hc]
  simp only [callee?, takeWhile_run hname hends, dropWhile_run hname hends,
    Text.trimStart_of_head? hvisible, List.isEmpty_iff, h.nonempty, if_false]

/-- The closing parenthesis is the last one of the text, whatever parentheses stand inside. -/
theorem parenthesized?_append {inside : Text} (h : '\n' ∉ inside) :
    parenthesized? ('(' :: (inside ++ [')'])) = some inside := by
  have hafter : Text.after? ['('] ('(' :: (inside ++ [')'])) = some (inside ++ [')']) :=
    Text.after?_append ['('] _
  simp [parenthesized?, hafter, Text.before?_append, h]

/-- A header that ends visibly has nothing to be trimmed. -/
theorem trim_keyword_append {keyword t : Text} {c : Char} (hkeyword : keyword.head? = some '@')
    (ht : t.getLast? = some c) (hc : isBlank c = false) :
    Text.trim (keyword ++ t) = keyword ++ t := by
  refine Text.trim_of_ends (c := '@') (d := c) ?_ rfl ?_ hc
  · rw [List.head?_append, hkeyword, Option.some_or]
  · rw [List.getLast?_append, ht, Option.some_or]

theorem ofText_mixin {t : Text} {c : Char} (ht : t.getLast? = some c) (hc : isBlank c = false)
    {signature : Signature} (h : mixin? ("@mixin ".toList ++ t) = some signature) :
    ofText ("@mixin ".toList ++ t) = .mixin signature := by
  have htrim : Text.trim ("@mixin ".toList ++ t) = "@mixin ".toList ++ t :=
    trim_keyword_append (by decide) ht hc
  have hanimation : animation? ("@mixin ".toList ++ t) = none := rfl
  have hfunction : function? ("@mixin ".toList ++ t) = none := rfl
  simp only [ofText, htrim, hanimation, hfunction, h]

theorem ofText_function {t : Text} {c : Char} (ht : t.getLast? = some c) (hc : isBlank c = false)
    {signature : Signature} (h : function? ("@function ".toList ++ t) = some signature) :
    ofText ("@function ".toList ++ t) = .function signature := by
  have htrim : Text.trim ("@function ".toList ++ t) = "@function ".toList ++ t :=
    trim_keyword_append (by decide) ht hc
  have hanimation : animation? ("@function ".toList ++ t) = none := rfl
  simp only [ofText, htrim, hanimation, h]

theorem IsName.trimStart_append (h : IsName name) (rest : Text) :
    Text.trimStart (' ' :: (name ++ rest)) = name ++ rest := by
  obtain ⟨c, more, rfl⟩ := List.exists_cons_of_ne_nil h.nonempty
  exact Text.trimStart_cons (h.plain c List.mem_cons_self).1 _

/-- What stands behind the name decides about the parameters of a mixin. -/
theorem mixin?_append (h : IsName name) {rest : Text} (hrest : ∀ c ∈ rest.head?, c = '(') :
    mixin? ("@mixin ".toList ++ (name ++ rest)) =
      if rest.isEmpty then some ⟨name, []⟩
      else (parenthesized? rest).map fun inside => ⟨name, Parameter.list inside⟩ := by
  have hafter : Text.after? "@mixin".toList ("@mixin ".toList ++ (name ++ rest)) =
      some (' ' :: (name ++ rest)) := Text.after?_append "@mixin".toList _
  have hlength : (name ++ rest).length ≠ (' ' :: (name ++ rest)).length := by
    rw [List.length_cons]
    omega
  simp only [mixin?, hafter, Option.bind_some, h.trimStart_append, hlength, if_false,
    callee?_append h hrest, bind]
  split
  · rfl
  · cases parenthesized? rest <;> rfl

theorem function?_append (h : IsName name) {rest : Text} (hrest : ∀ c ∈ rest.head?, c = '(') :
    function? ("@function ".toList ++ (name ++ rest)) =
      (parenthesized? rest).map fun inside => ⟨name, Parameter.list inside⟩ := by
  have hafter : Text.after? "@function".toList ("@function ".toList ++ (name ++ rest)) =
      some (' ' :: (name ++ rest)) := Text.after?_append "@function".toList _
  simp only [function?, hafter, Option.bind_some, h.trimStart_append, callee?_append h hrest, bind]
  cases parenthesized? rest <;> rfl

/-- The headers of mixins and functions are read as they were put together, and the header of a
mixin may be a name alone. -/
theorem ofText_signature (h : IsName name) (ps : List Parameter.Spelling) :
    ofText ("@mixin ".toList ++ Clause.call name (ps.map Parameter.Spelling.text)) =
        .mixin ⟨name, ps.map Parameter.Spelling.parameter⟩ ∧
      ofText ("@function ".toList ++ Clause.call name (ps.map Parameter.Spelling.text)) =
        .function ⟨name, ps.map Parameter.Spelling.parameter⟩ ∧
      ofText ("@mixin ".toList ++ name) = .mixin ⟨name, []⟩ := by
  have hinside : parenthesized?
      ('(' :: (Text.join [',', ' '] (ps.map Parameter.Spelling.text) ++ [')'])) = _ :=
    parenthesized?_append (Parameter.oneLine_join ps)
  have hlast : (Clause.call name (ps.map Parameter.Spelling.text)).getLast? = some ')' := by
    rw [Clause.call, ← List.cons_append, ← List.append_assoc, List.getLast?_concat]
  refine ⟨ofText_mixin hlast rfl ?_, ofText_function hlast rfl ?_, ?_⟩
  · rw [Clause.call, mixin?_append h (by simp), hinside]
    simp only [Parameter.list_join, Option.map_some, List.isEmpty_cons, Bool.false_eq_true,
      if_false]
  · rw [Clause.call, function?_append h (by simp), hinside, Option.map_some, Parameter.list_join]
  · have hend := List.getLast?_eq_some_getLast h.nonempty
    refine ofText_mixin hend (h.plain _ (List.getLast_mem h.nonempty)).1 ?_
    have hname : mixin? ("@mixin ".toList ++ (name ++ [])) = some ⟨name, []⟩ :=
      mixin?_append h (by simp)
    rwa [List.append_nil] at hname

theorem settled_crowded : Settled false "f(1,[x,y]):z".toList := by
  have hlist : Settled true "x,y".toList := .of_plain (by decide) (by decide)
  have harguments : Settled true "1,[x,y]".toList :=
    .char rfl rfl (fun _ => rfl) (.char rfl rfl (fun _ => rfl)
      (.group (List.mem_pair.2 (.inr rfl)) hlist (.nil true)))
  have hrest : Settled false ":z".toList := .of_plain (by decide) (by decide)
  exact .char rfl rfl (by decide) (.group (List.mem_pair.2 (.inl rfl)) harguments hrest)

/-- Parameters of all kinds, with a colon, commas and parentheses in a fallback. -/
def crowded : List Parameter.Spelling :=
  [.plain "a".toList ⟨⟨'a', rfl, rfl⟩, List.all_eq_true.1 rfl⟩,
    .withFallback "b".toList "f(1,[x,y]):z".toList ⟨⟨'b', rfl, rfl⟩, List.all_eq_true.1 rfl⟩
      ⟨rfl, by decide, settled_crowded⟩,
    .variadic "c".toList ⟨⟨'c', rfl, rfl⟩, List.all_eq_true.1 rfl⟩]

theorem ofText_signature_crowded :
    ofText "@mixin m($a, $b: f(1,[x,y]):z, $c...)".toList =
      .mixin ⟨"m".toList, [⟨"a".toList, none⟩, ⟨"b".toList, some (.classify "f(1,[x,y]):z".toList)⟩,
        ⟨"c".toList, none⟩]⟩ := by
  have hname : IsName ['m'] := ⟨by decide, List.forall_mem_singleton.2 (by decide)⟩
  exact (ofText_signature hname crowded).1

end Header

end Stylesheet
