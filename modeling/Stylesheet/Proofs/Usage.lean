import Mathlib.Data.List.FinRange
import Stylesheet.Proofs.Loading
import Stylesheet.Proofs.Numerals
import Stylesheet.Usage

/-! Which variables are reported as unused.

A variable is used if its token, the sign `$` and its whole name, stands in a text of a rule or in
the value of another variable. `Rule.Payload` lists the texts of a rule that count; the two
traversals of a tree, one for values and one for other texts, together find the names of exactly the
tokens in them. The report then follows site by site, other sites being told by their place in the
list of all sites and not by their name.

Only a name that starts with a letter or an underscore has a token. The variables of parsed files
all have such names. In a tree that is put together otherwise a variable may have any name, and one
without a token is always reported.

The names of properties, extended selectors and animations are not among these texts, though they
may hold interpolations: a variable that stands only there is reported. -/

namespace Stylesheet

/-! ### Tokens -/

namespace Text

/-- A name starts with a letter or an underscore. -/
def IsName (name : Text) : Prop :=
  ∃ c ∈ name.head?, isNameStart c = true

/-- A name stands behind a `$` in a text: there the characters of names go on for just as long as it
does. -/
def Occurs (t name : Text) : Prop :=
  ∃ before after, t = before ++ '$' :: after ∧ after.takeWhile isNameChar = name

/-- The token of a name stands in a text. -/
def HasToken (t name : Text) : Prop :=
  IsName name ∧ t.Occurs name

theorem isNameChar_of_isNameStart {c : Char} (h : isNameStart c = true) : isNameChar c = true := by
  have hcases : isLetter c = true ∨ c = '_' := by simpa [isNameStart] using h
  rcases hcases with hletter | rfl
  · simp [isNameChar, hletter]
  · decide

theorem name?_eq_some_iff {t name : Text} :
    (∃ rest, name? t = some (name, rest)) ↔ IsName name ∧ t.takeWhile isNameChar = name := by
  cases t with
  | nil =>
      constructor
      · rintro ⟨rest, h⟩
        cases h
      · rintro ⟨⟨c, hc, _⟩, rfl⟩
        cases hc
  | cons c t =>
      by_cases hstart : isNameStart c = true
      · have hchar := isNameChar_of_isNameStart hstart
        simp only [name?, hstart, if_true, List.takeWhile_cons, hchar]
        constructor
        · rintro ⟨rest, h⟩
          cases h
          exact ⟨⟨c, rfl, hstart⟩, rfl⟩
        · rintro ⟨_, rfl⟩
          exact ⟨_, rfl⟩
      · simp only [name?, hstart]
        constructor
        · rintro ⟨rest, h⟩
          cases h
        · rintro ⟨⟨d, hd, hname⟩, rfl⟩
          by_cases hchar : isNameChar c = true
          · rw [List.takeWhile_cons, if_pos hchar] at hd
            cases hd
            exact absurd hname hstart
          · rw [List.takeWhile_cons, if_neg hchar] at hd
            cases hd

theorem hasToken_cons_iff {c : Char} {t name : Text} :
    HasToken (c :: t) name ↔
      (c = '$' ∧ IsName name ∧ t.takeWhile isNameChar = name) ∨ HasToken t name := by
  constructor
  · rintro ⟨hname, before, after, hsplit, htake⟩
    cases before with
    | nil =>
        obtain ⟨rfl, rfl⟩ := List.cons.inj hsplit
        exact .inl ⟨rfl, hname, htake⟩
    | cons first before =>
        obtain ⟨rfl, rfl⟩ := List.cons.inj hsplit
        exact .inr ⟨hname, before, after, rfl, htake⟩
  · rintro (⟨rfl, hname, htake⟩ | ⟨hname, before, after, rfl, htake⟩)
    · exact ⟨hname, [], t, rfl, htake⟩
    · exact ⟨hname, c :: before, after, rfl, htake⟩

theorem not_hasToken {t : Text} (h : '$' ∉ t) (name : Text) : ¬HasToken t name := by
  rintro ⟨_, before, after, rfl, _⟩
  exact h (by simp)

/-- A text references the names of its tokens. -/
theorem mem_references_iff {t name : Text} : name ∈ t.references ↔ t.HasToken name := by
  induction t with
  | nil => simp [references, not_hasToken]
  | cons c t ih =>
      rw [hasToken_cons_iff, ← ih, ← name?_eq_some_iff]
      by_cases hc : c = '$'
      · cases hread : name? t with
        | none => simp [references, hc, hread]
        | some found => simp [references, hc, hread, Prod.ext_iff, eq_comm]
      · simp [references, hc]

end Text

/-! ### Sizes hold no token -/

theorem Size.not_mem_text (s : Size) : '$' ∉ s.text := by
  have hunit : '$' ∉ (s.unit.map LengthUnit.symbol).getD [] := by
    cases s.unit with
    | none => exact List.not_mem_nil
    | some unit => cases unit <;> decide
  have hnumber : '$' ∉ NumberStyle.plain.write .double s.magnitude := by
    cases s.magnitude with
    | infinite negative => cases negative <;> decide
    | finite negative significand exponent =>
        have hwritten := Decimal.isNumber_positional
          (Binary.proper_shortest .double .away significand exponent) false
        have hdigits : '$' ∉ (Binary.shortest .double .away significand exponent).positional false :=
          fun h => absurd (hwritten.chars '$' h) (by decide)
        cases negative <;> simpa [NumberStyle.write, NumberStyle.plain, NumberStyle.isPositional]
          using hdigits
  simp only [text, List.mem_append, not_or]
  exact ⟨hnumber, hunit⟩

/-- A value references the names of the tokens in its texts. -/
theorem Value.mem_references_iff {v : Value} {name : Text} :
    name ∈ v.references ↔ ∃ t ∈ v.tokens, t.HasToken name := by
  cases v with
  | size values =>
      -- Sizes are never searched, which is right because no sign of a token is written in them.
      simp only [references, List.not_mem_nil, false_iff, tokens, List.mem_map]
      rintro ⟨_, ⟨s, _, rfl⟩, htoken⟩
      exact Text.not_hasToken s.not_mem_text name htoken
  | color encoding raw => simp [references, tokens, Text.mem_references_iff]
  | url raw => simp [references, tokens, Text.mem_references_iff]
  | «calc» expression => simp [references, tokens, Text.mem_references_iff]
  | string raw => simp [references, tokens, Text.mem_references_iff]

/-! ### Rules -/

/-- The values that a signature gives to its parameters. -/
def Signature.Payload (s : Signature) (t : Text) : Prop :=
  ∃ p ∈ s.parameters, ∃ v ∈ p.fallback, t ∈ v.tokens

/-- The texts of a clause in which tokens count. -/
inductive Clause.Payload : Clause → Text → Prop
  | value {name t : Text} {v : Value} (h : t ∈ v.tokens) : Payload (.property name v) t
  | argument {name t : Text} {arguments : List Argument} {content : Option Text} {a : Argument}
      (ha : a ∈ arguments) (h : t ∈ a.value.tokens) : Payload (.inclusion name arguments content) t
  | content {name t : Text} {arguments : List Argument} :
      Payload (.inclusion name arguments (some t)) t
  | fallback {signature : Signature} {body t : Text} (h : signature.Payload t) :
      Payload (.mixin signature body) t
  | body {signature : Signature} {t : Text} : Payload (.mixin signature t) t
  | raw {t : Text} : Payload (.raw t) t

/-- The texts of a block in which tokens count. -/
inductive Block.Payload : Block → Text → Prop
  | mixinFallback {signature : Signature} {body t : Text} (h : signature.Payload t) :
      Payload (.mixin signature body) t
  | mixinBody {signature : Signature} {t : Text} : Payload (.mixin signature t) t
  | functionFallback {signature : Signature} {body t : Text} (h : signature.Payload t) :
      Payload (.function signature body) t
  | functionBody {signature : Signature} {t : Text} : Payload (.function signature t) t
  | animation {name t : Text} : Payload (.animation name t) t
  | raw {t : Text} : Payload (.raw t) t

/-- The texts of a rule and of what is inside it, at any depth, in which tokens count. -/
inductive Rule.Payload : Rule → Text → Prop
  | header {place : Place} {t : Text} {declarations : List Declaration} {children : List Rule} :
      Payload (.selector place t declarations children) t
  | clause {place : Place} {header t : Text} {declarations : List Declaration}
      {children : List Rule} {d : Declaration} (hd : d ∈ declarations) (h : d.clause.Payload t) :
      Payload (.selector place header declarations children) t
  | child {place : Place} {header t : Text} {declarations : List Declaration}
      {children : List Rule} {rule : Rule} (hrule : rule ∈ children) (h : rule.Payload t) :
      Payload (.selector place header declarations children) t
  | block {place : Place} {b : Block} {t : Text} (h : b.Payload t) : Payload (.block place b) t

def Clause.references (c : Clause) : List Text :=
  c.values.flatMap Value.references ++ c.textReferences

def Block.references (b : Block) : List Text :=
  b.values.flatMap Value.references ++ b.textReferences

def Rule.references (rule : Rule) : List Text :=
  rule.values.flatMap Value.references ++ rule.textReferences

theorem Signature.mem_references_iff {s : Signature} {name : Text} :
    name ∈ s.fallbacks.flatMap Value.references ↔ ∃ t, s.Payload t ∧ t.HasToken name := by
  simp only [fallbacks, List.mem_flatMap, List.mem_filterMap, Value.mem_references_iff]
  constructor
  · rintro ⟨v, ⟨p, hp, hv⟩, t, ht, htoken⟩
    exact ⟨t, ⟨p, hp, v, hv, ht⟩, htoken⟩
  · rintro ⟨t, ⟨p, hp, v, hv, ht⟩, htoken⟩
    exact ⟨v, ⟨p, hp, hv⟩, t, ht, htoken⟩

theorem Clause.mem_references_iff {c : Clause} {name : Text} :
    name ∈ c.references ↔ ∃ t, c.Payload t ∧ t.HasToken name := by
  unfold references
  rw [List.mem_append]
  constructor
  · rintro (hvalue | htext)
    · cases c with
      | property n v =>
          have hv : name ∈ v.references := by simpa [values] using hvalue
          obtain ⟨t, ht, htoken⟩ := Value.mem_references_iff.1 hv
          exact ⟨t, .value ht, htoken⟩
      | inclusion n arguments content =>
          obtain ⟨v, hv, hname⟩ := List.mem_flatMap.1 hvalue
          obtain ⟨a, ha, rfl⟩ := List.mem_map.1 hv
          obtain ⟨t, ht, htoken⟩ := Value.mem_references_iff.1 hname
          exact ⟨t, .argument ha ht, htoken⟩
      | extension n => cases hvalue
      | mixin signature body =>
          obtain ⟨t, ht, htoken⟩ := Signature.mem_references_iff.1 hvalue
          exact ⟨t, .fallback ht, htoken⟩
      | raw t => cases hvalue
    · cases c with
      | property n v => cases htext
      | inclusion n arguments content =>
          cases content with
          | none => cases htext
          | some t => exact ⟨t, .content, Text.mem_references_iff.1 htext⟩
      | extension n => cases htext
      | mixin signature body => exact ⟨body, .body, Text.mem_references_iff.1 htext⟩
      | raw t => exact ⟨t, .raw, Text.mem_references_iff.1 htext⟩
  · rintro ⟨t, hpayload, htoken⟩
    cases hpayload with
    | value h =>
        refine .inl ?_
        simpa [values] using Value.mem_references_iff.2 ⟨t, h, htoken⟩
    | argument ha h =>
        have hmem := Value.mem_references_iff.2 ⟨t, h, htoken⟩
        exact .inl (List.mem_flatMap.2 ⟨_, List.mem_map_of_mem ha, hmem⟩)
    | content => exact .inr (Text.mem_references_iff.2 htoken)
    | fallback h => exact .inl (Signature.mem_references_iff.2 ⟨t, h, htoken⟩)
    | body => exact .inr (Text.mem_references_iff.2 htoken)
    | raw => exact .inr (Text.mem_references_iff.2 htoken)

theorem Block.mem_references_iff {b : Block} {name : Text} :
    name ∈ b.references ↔ ∃ t, b.Payload t ∧ t.HasToken name := by
  unfold references
  rw [List.mem_append]
  constructor
  · rintro (hvalue | htext)
    · cases b with
      | mixin signature body =>
          obtain ⟨t, ht, htoken⟩ := Signature.mem_references_iff.1 hvalue
          exact ⟨t, .mixinFallback ht, htoken⟩
      | function signature body =>
          obtain ⟨t, ht, htoken⟩ := Signature.mem_references_iff.1 hvalue
          exact ⟨t, .functionFallback ht, htoken⟩
      | animation n body => cases hvalue
      | raw t => cases hvalue
    · cases b with
      | mixin signature body => exact ⟨body, .mixinBody, Text.mem_references_iff.1 htext⟩
      | function signature body => exact ⟨body, .functionBody, Text.mem_references_iff.1 htext⟩
      | animation n body => exact ⟨body, .animation, Text.mem_references_iff.1 htext⟩
      | raw t => exact ⟨t, .raw, Text.mem_references_iff.1 htext⟩
  · rintro ⟨t, hpayload, htoken⟩
    cases hpayload with
    | mixinFallback h => exact .inl (Signature.mem_references_iff.2 ⟨t, h, htoken⟩)
    | functionFallback h => exact .inl (Signature.mem_references_iff.2 ⟨t, h, htoken⟩)
    | mixinBody => exact .inr (Text.mem_references_iff.2 htoken)
    | functionBody => exact .inr (Text.mem_references_iff.2 htoken)
    | animation => exact .inr (Text.mem_references_iff.2 htoken)
    | raw => exact .inr (Text.mem_references_iff.2 htoken)

theorem Rule.mem_allReferences_iff {rules : List Rule} {name : Text} :
    name ∈ (Rule.allValues rules).flatMap Value.references ++ Rule.allTextReferences rules ↔
      ∃ rule ∈ rules, name ∈ rule.references := by
  induction rules with
  | nil => simp [allValues, allTextReferences]
  | cons rule rules ih =>
      rw [List.exists_mem_cons_iff, ← ih]
      simp only [allValues, allTextReferences, List.flatMap_append, List.mem_append, references]
      tauto

/-- What a selector references: the tokens of its header, of its clauses and of the rules inside. -/
theorem Rule.mem_references_selector {place : Place} {header name : Text}
    {declarations : List Declaration} {children : List Rule} :
    name ∈ (Rule.selector place header declarations children).references ↔
      header.HasToken name ∨ (∃ d ∈ declarations, name ∈ d.clause.references) ∨
        ∃ rule ∈ children, name ∈ rule.references := by
  rw [← mem_allReferences_iff, ← Text.mem_references_iff]
  simp only [references, values, textReferences, Clause.references, List.flatMap_append,
    List.mem_append, List.mem_flatMap]
  constructor
  · rintro ((⟨v, ⟨d, hd, hv⟩, hname⟩ | hvalues) | (hheader | ⟨d, hd, hname⟩) | htexts)
    · exact .inr (.inl ⟨d, hd, .inl ⟨v, hv, hname⟩⟩)
    · exact .inr (.inr (.inl hvalues))
    · exact .inl hheader
    · exact .inr (.inl ⟨d, hd, .inr hname⟩)
    · exact .inr (.inr (.inr htexts))
  · rintro (hheader | ⟨d, hd, ⟨v, hv, hname⟩ | hname⟩ | hvalues | htexts)
    · exact .inr (.inl (.inl hheader))
    · exact .inl (.inl ⟨v, ⟨d, hd, hv⟩, hname⟩)
    · exact .inr (.inl (.inr ⟨d, hd, hname⟩))
    · exact .inl (.inr hvalues)
    · exact .inr (.inr htexts)

/-- What holds of blocks, and of a selector if it holds of the rules inside it, holds of every
rule. -/
theorem Rule.inductionOn {motive : Rule → Prop} (rule : Rule)
    (selector : ∀ place header declarations children, (∀ rule ∈ children, motive rule) →
      motive (.selector place header declarations children))
    (block : ∀ place b, motive (.block place b)) : motive rule :=
  @Rule.rec motive (fun rules => ∀ rule ∈ rules, motive rule) selector block
    (fun _ h => by cases h) (fun _ _ hfirst hrest => List.forall_mem_cons.2 ⟨hfirst, hrest⟩) rule

/-- A rule references the names of the tokens in its texts, at any depth. -/
theorem Rule.mem_references_iff {rule : Rule} {name : Text} :
    name ∈ rule.references ↔ ∃ t, rule.Payload t ∧ t.HasToken name := by
  induction rule using Rule.inductionOn with
  | selector place header declarations children ih =>
      rw [Rule.mem_references_selector]
      constructor
      · rintro (hheader | ⟨d, hd, hname⟩ | ⟨rule, hrule, hname⟩)
        · exact ⟨header, .header, hheader⟩
        · obtain ⟨t, ht, htoken⟩ := Clause.mem_references_iff.1 hname
          exact ⟨t, .clause hd ht, htoken⟩
        · obtain ⟨t, ht, htoken⟩ := (ih rule hrule).1 hname
          exact ⟨t, .child hrule ht, htoken⟩
      · rintro ⟨t, hpayload, htoken⟩
        cases hpayload with
        | header => exact .inl htoken
        | clause hd h => exact .inr (.inl ⟨_, hd, Clause.mem_references_iff.2 ⟨t, h, htoken⟩⟩)
        | child hrule h => exact .inr (.inr ⟨_, hrule, (ih _ hrule).2 ⟨t, h, htoken⟩⟩)
  | block place b =>
      change name ∈ b.references ↔ _
      rw [Block.mem_references_iff]
      constructor
      · rintro ⟨t, ht, htoken⟩
        exact ⟨t, .block ht, htoken⟩
      · rintro ⟨t, hpayload, htoken⟩
        cases hpayload with
        | block ht => exact ⟨t, ht, htoken⟩

namespace SourceFile

/-- A token stands in a text of a rule of some file of the tree. -/
def UsesInRules (f : SourceFile) (name : Text) : Prop :=
  ∃ file ∈ f.files, ∃ rule ∈ file.rules, ∃ t, rule.Payload t ∧ t.HasToken name

theorem mem_ruleReferences_iff {f : SourceFile} {name : Text} :
    name ∈ f.ruleReferences ↔ f.UsesInRules name := by
  have hfile (file : SourceFile) :
      (∃ rule ∈ file.rules, ∃ t, rule.Payload t ∧ t.HasToken name) ↔
        name ∈ (Rule.allValues file.rules).flatMap Value.references ∨
          name ∈ Rule.allTextReferences file.rules := by
    rw [← List.mem_append, Rule.mem_allReferences_iff]
    simp only [Rule.mem_references_iff]
  simp only [UsesInRules, hfile, ruleReferences, SourceFile.values, List.mem_append,
    List.mem_flatMap]
  constructor
  · rintro (⟨v, ⟨file, hmem, hv⟩, hname⟩ | ⟨file, hmem, hname⟩)
    · exact ⟨file, hmem, .inl ⟨v, hv, hname⟩⟩
    · exact ⟨file, hmem, .inr hname⟩
  · rintro ⟨file, hmem, ⟨v, hv, hname⟩ | hname⟩
    · exact .inl ⟨v, ⟨file, hmem, hv⟩, hname⟩
    · exact .inr ⟨file, hmem, hname⟩

end SourceFile

/-! ### The report -/

namespace UnusedVariable

/-- The line of the report for a site. -/
def ofSite (site : Path × Variable) : UnusedVariable :=
  ⟨site.2.name, site.1, site.2.position⟩

/-- Whether the site at an index is used, given the names referenced elsewhere and all sites. -/
def isUsed (used : List Text) (sites : List (Path × Variable)) (index : Nat) (name : Text) :
    Bool :=
  used.contains name || (sites.eraseIdx index).any (·.2.value.references.contains name)

/-- The report keeps the sites that are not used, each looked at by its index among all sites. -/
theorem among_eq (used : List Text) (earlier later : List (Path × Variable)) :
    among used earlier later =
      ((List.finRange later.length).filter fun i : Fin later.length =>
        !isUsed used (earlier ++ later) (earlier.length + i) (later.get i).2.name).map
          fun i => ofSite (later.get i) := by
  induction later generalizing earlier with
  | nil => rfl
  | cons site later ih =>
      have hfirst : isUsed used (earlier ++ site :: later) earlier.length site.2.name =
          (used.contains site.2.name ||
            (earlier ++ later).any (·.2.value.references.contains site.2.name)) := by
        rw [isUsed, List.eraseIdx_append_of_length_le (Nat.le_refl _), Nat.sub_self,
          List.eraseIdx_cons_zero]
      have hrange : List.finRange (site :: later).length =
          0 :: (List.finRange later.length).map Fin.succ := List.finRange_succ
      -- The sites are the same with `site` among the earlier ones; only their indices move by one.
      have hrest := ih (earlier ++ [site])
      simp only [List.append_assoc, List.singleton_append, List.length_append,
        List.length_singleton, Nat.add_assoc, Nat.add_comm 1] at hrest
      rw [among, hrange, hrest, ← hfirst]
      simp only [List.filter_cons, List.filter_map]
      by_cases hused : isUsed used (earlier ++ site :: later) earlier.length site.2.name = true
      · simp [hused, Function.comp_def]
      · simp [hused, Function.comp_def, ofSite]

end UnusedVariable

namespace SourceFile

/-- The token of a variable stands neither in the rules of the tree nor in the value of another
variable of it. -/
structure Unused (f : SourceFile) (i : Fin f.variableSites.length) : Prop where
  rules : ¬f.UsesInRules (f.variableSites.get i).2.name
  values : ∀ j, j ≠ i → ∀ t ∈ (f.variableSites.get j).2.value.tokens,
    ¬t.HasToken (f.variableSites.get i).2.name

theorem not_isUsed_iff {f : SourceFile} {i : Fin f.variableSites.length} :
    UnusedVariable.isUsed f.ruleReferences f.variableSites i (f.variableSites.get i).2.name =
      false ↔ f.Unused i := by
  have hothers : (f.variableSites.eraseIdx i).any
      (·.2.value.references.contains (f.variableSites.get i).2.name) = true ↔
      ∃ j, j ≠ i ∧ ∃ t ∈ (f.variableSites.get j).2.value.tokens,
        t.HasToken (f.variableSites.get i).2.name := by
    simp only [List.any_eq_true, List.contains_iff_mem, Value.mem_references_iff,
      List.mem_eraseIdx_iff_getElem]
    constructor
    · rintro ⟨_, ⟨j, hlt, hne, rfl⟩, htoken⟩
      exact ⟨⟨j, hlt⟩, fun heq => hne (congrArg Fin.val heq), htoken⟩
    · rintro ⟨j, hne, htoken⟩
      exact ⟨_, ⟨j, j.isLt, fun heq => hne (Fin.ext heq), rfl⟩, htoken⟩
  rw [UnusedVariable.isUsed, Bool.or_eq_false_iff, ← Bool.not_eq_true, ← Bool.not_eq_true, hothers,
    List.contains_iff_mem, mem_ruleReferences_iff]
  constructor
  · rintro ⟨hrules, hvalues⟩
    exact ⟨hrules, fun j hne t ht htoken => hvalues ⟨j, hne, t, ht, htoken⟩⟩
  · rintro ⟨hrules, hvalues⟩
    exact ⟨hrules, fun ⟨j, hne, t, ht, htoken⟩ => hvalues j hne t ht htoken⟩

theorem unused_eq (f : SourceFile) :
    f.unused = ((List.finRange f.variableSites.length).filter fun i : Fin f.variableSites.length =>
      !UnusedVariable.isUsed f.ruleReferences f.variableSites i (f.variableSites.get i).2.name).map
        fun i => .ofSite (f.variableSites.get i) := by
  have hreport := UnusedVariable.among_eq f.ruleReferences [] f.variableSites
  unfold unused
  simpa only [List.nil_append, List.length_nil, Nat.zero_add] using hreport

/-- The report lists the unused variables and no others, file by file in the order in which they are
declared. -/
theorem unused_exact (f : SourceFile) :
    ∃ kept : List (Fin f.variableSites.length), kept.Pairwise (· < ·) ∧
      (∀ i, i ∈ kept ↔ f.Unused i) ∧
      f.unused = kept.map fun i => .ofSite (f.variableSites.get i) := by
  refine ⟨_, (List.pairwise_lt_finRange _).filter _, fun i => ?_, f.unused_eq⟩
  rw [← not_isUsed_iff]
  simp

/-- A variable whose name starts with a digit, and a rule with the name behind a `$` in its
header. -/
def digitFirst : SourceFile :=
  ⟨"a.scss".toList, [.selector ⟨1, ⟨2, 0⟩⟩ ".x-#\x7b$1a\x7d".toList [] []],
    [⟨"1a".toList, .string "left".toList, [], ⟨1, 0⟩⟩], []⟩

/-- A name that starts with a digit has no token. This one stands behind a `$` in a header, and its
variable is reported: the report does not list just the variables whose names occur nowhere else. -/
theorem unused_of_digit_first :
    digitFirst.unused = [⟨"1a".toList, "a.scss".toList, ⟨1, 0⟩⟩] ∧
      ¬∃ kept : List (Fin digitFirst.variableSites.length), kept.Pairwise (· < ·) ∧
        (∀ i, i ∈ kept ↔
          (¬∃ file ∈ digitFirst.files, ∃ rule ∈ file.rules, ∃ t, rule.Payload t ∧
            t.Occurs (digitFirst.variableSites.get i).2.name) ∧
          ∀ j, j ≠ i → ∀ t ∈ (digitFirst.variableSites.get j).2.value.tokens,
            ¬t.Occurs (digitFirst.variableSites.get i).2.name) ∧
        digitFirst.unused = kept.map fun i => .ofSite (digitFirst.variableSites.get i) := by
  have hunused : digitFirst.unused = [⟨"1a".toList, "a.scss".toList, ⟨1, 0⟩⟩] := by
    decide +kernel
  have hname : ∀ i, (digitFirst.variableSites.get i).2.name = "1a".toList := by
    decide +kernel
  refine ⟨hunused, ?_⟩
  rintro ⟨kept, _, hkept, hreport⟩
  have hnone : ∀ i, i ∉ kept := by
    intro i hi
    refine ((hkept i).1 hi).1 ⟨_, List.mem_cons_self, _, List.mem_cons_self, _, .header, ?_⟩
    rw [hname i]
    exact ⟨".x-#\x7b".toList, "1a\x7d".toList, rfl, rfl⟩
  rw [hunused, List.eq_nil_iff_forall_not_mem.2 hnone] at hreport
  cases hreport

end SourceFile

/-! ### Names are not searched -/

/-- A token stands in an interpolation of a text. -/
def Text.Interpolates (t name : Text) : Prop :=
  ∃ before inside after : Text, t = before ++ '#' :: '{' :: inside ++ '}' :: after ∧
    '}' ∉ inside ∧ inside.HasToken name

/-- The name of a property or of the selector that is extended. -/
def Clause.names : Clause → List Text
  | .property name _ => [name]
  | .extension name => [name]
  | _ => []

def Clause.rename (g : Text → Text) : Clause → Clause
  | .property name value => .property (g name) value
  | .extension name => .extension (g name)
  | c => c

/-- The name of an animation. -/
def Block.names : Block → List Text
  | .animation name _ => [name]
  | _ => []

def Block.rename (g : Text → Text) : Block → Block
  | .animation name body => .animation (g name) body
  | b => b

def Declaration.rename (g : Text → Text) (d : Declaration) : Declaration :=
  { d with clause := d.clause.rename g }

mutual

def Rule.names : Rule → List Text
  | .selector _ _ declarations children =>
      declarations.flatMap (·.clause.names) ++ Rule.allNames children
  | .block _ b => b.names

def Rule.allNames : List Rule → List Text
  | [] => []
  | rule :: rules => rule.names ++ Rule.allNames rules

end

mutual

def Rule.rename (g : Text → Text) : Rule → Rule
  | .selector place header declarations children =>
      .selector place header (declarations.map (Declaration.rename g)) (Rule.allRename g children)
  | .block place b => .block place (b.rename g)

def Rule.allRename (g : Text → Text) : List Rule → List Rule
  | [] => []
  | rule :: rules => rule.rename g :: Rule.allRename g rules

end

mutual

/-- The tree with other names for properties, extended selectors and animations. -/
def SourceFile.rename (g : Text → Text) : SourceFile → SourceFile
  | ⟨path, rules, vars, imports⟩ =>
      ⟨path, Rule.allRename g rules, vars, ImportedFile.allRename g imports⟩

def ImportedFile.allRename (g : Text → Text) : List ImportedFile → List ImportedFile
  | [] => []
  | ⟨name, file⟩ :: others => ⟨name, file.rename g⟩ :: ImportedFile.allRename g others

end

/-- The names of properties, extended selectors and animations in a tree, file by file. -/
def SourceFile.names (f : SourceFile) : List Text :=
  f.files.flatMap fun file => Rule.allNames file.rules

theorem Clause.rename_spec (g : Text → Text) (c : Clause) :
    (c.rename g).names = c.names.map g ∧ (c.rename g).values = c.values ∧
      (c.rename g).textReferences = c.textReferences := by
  cases c <;> exact ⟨rfl, rfl, rfl⟩

theorem Block.rename_spec (g : Text → Text) (b : Block) :
    (b.rename g).names = b.names.map g ∧ (b.rename g).values = b.values ∧
      (b.rename g).textReferences = b.textReferences := by
  cases b <;> exact ⟨rfl, rfl, rfl⟩

mutual

/-- Renaming changes the names of a rule and neither its values nor what its texts reference. -/
theorem Rule.rename_spec (g : Text → Text) : (rule : Rule) →
    (rule.rename g).names = rule.names.map g ∧ (rule.rename g).values = rule.values ∧
      (rule.rename g).textReferences = rule.textReferences
  | .selector place header declarations children => by
      obtain ⟨hnames, hvalues, htexts⟩ := Rule.allRename_spec g children
      refine ⟨?_, ?_, ?_⟩
      · simp [rename, names, hnames, List.flatMap_map, List.map_flatMap, Declaration.rename,
          (Clause.rename_spec g _).1]
      · simp [rename, values, hvalues, List.flatMap_map, Declaration.rename,
          (Clause.rename_spec g _).2.1]
      · simp [rename, textReferences, htexts, List.flatMap_map, Declaration.rename,
          (Clause.rename_spec g _).2.2]
  | .block place b => Block.rename_spec g b

theorem Rule.allRename_spec (g : Text → Text) : (rules : List Rule) →
    allNames (allRename g rules) = (allNames rules).map g ∧
      allValues (allRename g rules) = allValues rules ∧
      allTextReferences (allRename g rules) = allTextReferences rules
  | [] => ⟨rfl, rfl, rfl⟩
  | rule :: rules => by
      obtain ⟨hnames, hvalues, htexts⟩ := Rule.allRename_spec g rules
      obtain ⟨hname, hvalue, htext⟩ := Rule.rename_spec g rule
      simp [allRename, allNames, allValues, allTextReferences, hname, hvalue, htext, hnames,
        hvalues, htexts]

end

theorem SourceFile.rules_rename (g : Text → Text) (f : SourceFile) :
    (f.rename g).rules = Rule.allRename g f.rules := by
  cases f
  rfl

theorem SourceFile.vars_rename (g : Text → Text) (f : SourceFile) : (f.rename g).vars = f.vars := by
  cases f
  rfl

theorem SourceFile.path_rename (g : Text → Text) (f : SourceFile) : (f.rename g).path = f.path := by
  cases f
  rfl

mutual

theorem SourceFile.files_rename (g : Text → Text) : (f : SourceFile) →
    (f.rename g).files = f.files.map (SourceFile.rename g)
  | ⟨path, rules, vars, imports⟩ => by
      simp [SourceFile.rename, SourceFile.files, ImportedFile.allFiles_allRename g imports]

theorem ImportedFile.allFiles_allRename (g : Text → Text) : (imports : List ImportedFile) →
    ImportedFile.allFiles (ImportedFile.allRename g imports) =
      (ImportedFile.allFiles imports).map (SourceFile.rename g)
  | [] => rfl
  | ⟨name, file⟩ :: others => by
      simp [ImportedFile.allRename, ImportedFile.allFiles, SourceFile.files_rename g file,
        ImportedFile.allFiles_allRename g others]

end

namespace SourceFile

/-- A token in a text of a rule is always a use. The names of properties, extended selectors and
animations have no part in the report: with any other names in their place it is the same. -/
theorem unused_rename (f : SourceFile) :
    (∀ u ∈ f.unused, ¬f.UsesInRules u.name) ∧
      ∀ g, (f.rename g).names = f.names.map g ∧ (f.rename g).unused = f.unused := by
  refine ⟨fun u hu => ?_, fun g => ⟨?_, ?_⟩⟩
  · rw [unused_eq, List.mem_map] at hu
    obtain ⟨i, hi, rfl⟩ := hu
    have hunused : f.Unused i := not_isUsed_iff.1 (by simpa using hi)
    exact hunused.rules
  · simp [names, files_rename, List.flatMap_map, List.map_flatMap, rules_rename,
      (Rule.allRename_spec g _).1]
  · have hsites : (f.rename g).variableSites = f.variableSites := by
      simp [variableSites, files_rename, List.flatMap_map, vars_rename, path_rename]
    have hreferences : (f.rename g).ruleReferences = f.ruleReferences := by
      simp [ruleReferences, SourceFile.values, files_rename, List.flatMap_map, rules_rename,
        (Rule.allRename_spec g _).2]
    rw [unused, unused, hsites, hreferences]

/-- A property, an extended selector and an animation, each with a variable in its name. -/
def interpolatedNames : Text :=
  "$a: left; $b: c; $d: e; .x { margin-#{$a}: 0; @extend .#{$b} } @keyframes k-#{$d} { }".toList

/-- Three variables, each in an interpolation of a name, and all of them reported. -/
theorem unused_of_interpolated_names :
    ∃ loaded, ((⟨⟨[], [], []⟩, none⟩ : Workspace).loadSource interpolatedNames
        "a.scss".toList).result = .ok loaded ∧
      (∀ v ∈ loaded.file.vars, ∃ t ∈ loaded.file.names, t.Interpolates v.name) ∧
      loaded.file.unused.map UnusedVariable.name = ["a", "b", "d"].map String.toList := by
  have hread : ((⟨⟨[], [], []⟩, none⟩ : Workspace).loadSource interpolatedNames
      "a.scss".toList).result.toOption.map (fun loaded =>
        (loaded.file.vars.map Variable.name, loaded.file.names,
          loaded.file.unused.map UnusedVariable.name)) =
      some (["a", "b", "d"].map String.toList,
        ["margin-#{$a}", ".#{$b}", "k-#{$d}"].map String.toList,
        ["a", "b", "d"].map String.toList) := by
    decide +kernel
  obtain ⟨loaded, hload, hfound⟩ := exists_ok_of_toOption_map hread
  obtain ⟨hvars, hnames, hunused⟩ : _ ∧ _ ∧ _ := by simpa only [Prod.mk.injEq] using hfound
  refine ⟨loaded, hload, fun v hv => ?_, hunused⟩
  have hname : v.name ∈ ["a", "b", "d"].map String.toList := hvars ▸ List.mem_map_of_mem hv
  have htoken (c : Char) (hc : isNameStart c = true) : Text.HasToken ['$', c] [c] :=
    ⟨⟨c, rfl, hc⟩, [], [c], rfl, by simp [Text.isNameChar_of_isNameStart hc]⟩
  rw [hnames]
  simp only [List.map_cons, List.map_nil, List.mem_cons, List.not_mem_nil, or_false] at hname
  rcases hname with h | h | h
  · rw [h]
    exact ⟨_, List.mem_cons_self, "margin-".toList, ['$', 'a'], [], rfl, by decide, htoken 'a' rfl⟩
  · rw [h]
    exact ⟨_, List.mem_cons_of_mem _ List.mem_cons_self, ['.'], ['$', 'b'], [], rfl, by decide,
      htoken 'b' rfl⟩
  · rw [h]
    exact ⟨_, List.mem_cons_of_mem _ (List.mem_cons_of_mem _ List.mem_cons_self), ['k', '-'],
      ['$', 'd'], [], rfl, by decide, htoken 'd' rfl⟩

end SourceFile

end Stylesheet
