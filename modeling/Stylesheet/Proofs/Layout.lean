import Stylesheet.Config.Document
import Stylesheet.Json
import Stylesheet.Lists

/-! The layout of JSON documents.

A document written over several lines is told by its text. Strings are read back by the reader of
configurations, a number ends before the first character that stands in no number, and the first
character of a value tells its kind. What follows a value never matters (`Json.Determined`), so that
the items of arrays and the members of objects are told one after the other. -/

namespace Stylesheet

/-! ### Strings -/

namespace Document

theorem codes?_named {e c : Char} (he : escape? e = some c) (rest : Text) :
    codes? ('\\' :: e :: rest) =
      (codes? rest).map fun (codes, rest) => (.inl c :: codes, rest) := by
  have hu : e ≠ 'u' := by
    rintro rfl
    cases he
  rw [codes?, he]
  · cases codes? rest <;> rfl
  · exact fun _ _ _ _ _ h => absurd h hu

theorem codes?_number {a b c d : Char} {n : Nat} (h : hexNumber? [a, b, c, d] = some n)
    (rest : Text) :
    codes? ('\\' :: 'u' :: a :: b :: c :: d :: rest) =
      (codes? rest).map fun (codes, rest) => (.inr n :: codes, rest) := by
  rw [codes?, h]
  cases codes? rest <;> rfl

theorem codes?_plain {c : Char} (hquote : c ≠ '"') (hslash : c ≠ '\\') (hcontrol : ¬c.toNat < 32)
    (rest : Text) :
    codes? (c :: rest) = (codes? rest).map fun (codes, rest) => (.inl c :: codes, rest) := by
  rw [codes?]
  · rw [if_neg (by simp [hslash, hcontrol])]
    cases codes? rest <;> rfl
  · exact hquote
  · exact fun _ _ _ _ _ h => absurd h hslash
  · exact fun _ _ h => absurd h hslash

theorem hexNumber?_control {n : Nat} (h : n < 32) :
    hexNumber? ['0', '0', Nat.digitChar (n / 16), Nat.digitChar (n % 16)] = some n := by
  revert n
  decide

theorem text?_control {n : Nat} (h : n < 32) (codes : List Code) :
    text? (.inr n :: codes) = (text? codes).map (Char.ofNat n :: ·) := by
  have hhigh : isHigh n = false := by simp [isHigh]; omega
  have hlow : isLow n = false := by simp [isLow]; omega
  rw [text?.eq_def]
  simp [hhigh, hlow]

end Document

namespace Json

open Document in
/-- A character inside a string is read back, as one unit of it. -/
theorem exists_unit (c : Char) :
    ∃ unit : Code,
      (∀ rest, codes? (escaped c ++ rest) =
        (codes? rest).map fun (codes, rest) => (unit :: codes, rest)) ∧
      ∀ codes, text? (unit :: codes) = (text? codes).map (c :: ·) := by
  have hnamed {e d : Char} (h : c = d) (he : escape? e = some d) :
      ∃ unit : Code, (∀ rest, codes? (['\\', e] ++ rest) =
        (codes? rest).map fun (codes, rest) => (unit :: codes, rest)) ∧
      ∀ codes, text? (unit :: codes) = (text? codes).map (c :: ·) :=
    ⟨.inl c, codes?_named (h ▸ he), fun _ => rfl⟩
  unfold escaped
  split
  · next h => exact hnamed h rfl
  next hquote =>
  split
  · next h => exact hnamed h rfl
  next hslash =>
  split
  · next h => exact hnamed h rfl
  split
  · next h => exact hnamed h rfl
  split
  · next h => exact hnamed h rfl
  split
  · next h => exact hnamed h rfl
  split
  · next h => exact hnamed h rfl
  split
  · next hcontrol =>
    refine ⟨.inr c.toNat, codes?_number (hexNumber?_control hcontrol), fun codes => ?_⟩
    rw [text?_control hcontrol, Char.ofNat_toNat]
  · next hcontrol => exact ⟨.inl c, codes?_plain hquote hslash hcontrol, fun _ => rfl⟩

/-- A string is read back, whatever follows it. -/
theorem exists_codes (t rest : Text) :
    ∃ codes, Document.codes? (t.flatMap escaped ++ '"' :: rest) = some (codes, rest) ∧
      Document.text? codes = some t := by
  induction t with
  | nil => exact ⟨[], rfl, rfl⟩
  | cons c t ih =>
      obtain ⟨codes, hcodes, htext⟩ := ih
      obtain ⟨unit, hunit, hchar⟩ := exists_unit c
      refine ⟨unit :: codes, ?_, ?_⟩
      · rw [List.flatMap_cons, List.append_assoc, hunit, hcodes]
        rfl
      · rw [hchar, htext]
        rfl

theorem quote_append_inj {t t' rest rest' : Text} (h : quote t ++ rest = quote t' ++ rest') :
    t = t' ∧ rest = rest' := by
  obtain ⟨codes, hcodes, htext⟩ := exists_codes t rest
  obtain ⟨codes', hcodes', htext'⟩ := exists_codes t' rest'
  have hinside : t.flatMap escaped ++ '"' :: rest = t'.flatMap escaped ++ '"' :: rest' := by
    simpa [quote] using h
  rw [hinside, hcodes'] at hcodes
  obtain ⟨rfl, rfl⟩ := Prod.mk.inj (Option.some.inj hcodes)
  rw [htext'] at htext
  exact ⟨(Option.some.inj htext).symm, rfl⟩

/-! ### Numbers -/

/-- A character of a number. -/
def isNumberChar (c : Char) : Bool :=
  isDigit c || c == '-' || c == '+' || c == '.' || c == 'e'

/-- A text that is written as a number: it starts with a digit or a minus sign. -/
structure IsNumber (written : Text) : Prop where
  first : ∃ c ∈ written.head?, isDigit c = true ∨ c = '-'
  chars : ∀ c ∈ written, isNumberChar c = true

/-- No number goes on into a text. -/
def Stops (t : Text) : Prop :=
  ∀ c ∈ t.head?, isNumberChar c = false

theorem takeWhile_number {written rest : Text} (h : IsNumber written) (hrest : Stops rest) :
    (written ++ rest).takeWhile isNumberChar = written :=
  takeWhile_run h.chars hrest

theorem number_append_inj {written written' rest rest' : Text} (hw : IsNumber written)
    (hw' : IsNumber written') (hrest : Stops rest) (hrest' : Stops rest')
    (h : written ++ rest = written' ++ rest') : written = written' ∧ rest = rest' := by
  have hwritten : written = written' := by
    rw [← takeWhile_number hw hrest, h, takeWhile_number hw' hrest']
  subst hwritten
  exact ⟨rfl, List.append_cancel_left h⟩

/-! ### Values -/

/-- The kinds of values. -/
inductive Kind where
  | null
  | bool
  | number
  | string
  | array
  | object
deriving DecidableEq

/-- The kind of a value. -/
def kind : Json → Kind
  | .null => .null
  | .bool _ => .bool
  | .number _ => .number
  | .string _ => .string
  | .array _ => .array
  | .object _ => .object

/-- The kind of the value whose text starts with a character. -/
def Kind.ofFirst (c : Char) : Kind :=
  if c = 'n' then .null
  else if c = 't' ∨ c = 'f' then .bool
  else if c = '"' then .string
  else if c = '[' then .array
  else if c = '{' then .object
  else .number

/-- Every number is written as one, and the keys of every object are distinct. -/
inductive WellFormed : Json → Prop
  | null : WellFormed .null
  | bool (value : Bool) : WellFormed (.bool value)
  | number {written : Text} (h : IsNumber written) : WellFormed (.number written)
  | string (text : Text) : WellFormed (.string text)
  | array {items : List Json} (h : ∀ item ∈ items, WellFormed item) : WellFormed (.array items)
  | object {members : List (Text × Json)} (hkeys : (members.map Prod.fst).Nodup)
      (h : ∀ m ∈ members, WellFormed m.2) : WellFormed (.object members)

theorem Kind.ofFirst_number {c : Char} (h : isDigit c = true ∨ c = '-') :
    Kind.ofFirst c = .number := by
  have hne {d : Char} (hd : isDigit d = false) (hminus : d ≠ '-') : c ≠ d := by
    rintro rfl
    rcases h with h | h
    · rw [h] at hd
      cases hd
    · exact hminus h
  unfold ofFirst
  rw [if_neg (hne rfl (by decide)), if_neg, if_neg (hne rfl (by decide)),
    if_neg (hne rfl (by decide)), if_neg (hne rfl (by decide))]
  exact not_or.2 ⟨hne rfl (by decide), hne rfl (by decide)⟩

/-- The first character of a value tells its kind. -/
theorem exists_first {j : Json} (h : WellFormed j) (level : Nat) :
    ∃ c rest, pretty level j = c :: rest ∧ Kind.ofFirst c = j.kind := by
  cases h with
  | null => exact ⟨'n', _, rfl, rfl⟩
  | bool value =>
      cases value with
      | false => exact ⟨'f', _, rfl, rfl⟩
      | true => exact ⟨'t', _, rfl, rfl⟩
  | @number written h =>
      obtain ⟨c, hc, hfirst⟩ := h.first
      obtain ⟨rest, rfl⟩ := List.head?_eq_some_iff.1 hc
      exact ⟨c, rest, by rw [pretty], Kind.ofFirst_number hfirst⟩
  | string text => exact ⟨'"', _, by rw [pretty, quote, List.cons_append], rfl⟩
  | @array items h =>
      cases items with
      | nil => exact ⟨'[', _, by rw [pretty]; rfl, rfl⟩
      | cons item items => exact ⟨'[', _, by rw [pretty]; simp only [List.cons_append]; rfl, rfl⟩
  | @object members hkeys h =>
      cases members with
      | nil => exact ⟨'{', _, by rw [pretty], rfl⟩
      | cons m members => exact ⟨'{', _, by rw [pretty]; simp only [List.cons_append]; rfl, rfl⟩

theorem kind_eq {j j' : Json} {level : Nat} {rest rest' : Text} (hj : WellFormed j)
    (hj' : WellFormed j') (h : pretty level j ++ rest = pretty level j' ++ rest') :
    j.kind = j'.kind := by
  obtain ⟨c, more, hc, hkind⟩ := exists_first hj level
  obtain ⟨c', more', hc', hkind'⟩ := exists_first hj' level
  rw [hc, hc'] at h
  obtain ⟨rfl, _⟩ := List.cons.inj h
  rw [← hkind, ← hkind']

/-! ### Lists of values -/

theorem prettyItems_eq (level : Nat) (items : List Json) :
    prettyItems level items =
      items.flatMap fun item => ',' :: newline level ++ pretty level item := by
  induction items with
  | nil => rw [prettyItems, List.flatMap_nil]
  | cons item items ih => rw [prettyItems, List.flatMap_cons, ih]

theorem prettyMembers_eq (level : Nat) (members : List (Text × Json)) :
    prettyMembers level members =
      members.flatMap fun m => ',' :: newline level ++ prettyMember level m := by
  induction members with
  | nil => rw [prettyMembers, List.flatMap_nil]
  | cons m members ih => rw [prettyMembers, List.flatMap_cons, ih]

section Listed

variable {α : Type} {write : α → Text} {lead : Text}

/-- Two things are told apart by their texts, whatever follows them. -/
def Told (write : α → Text) (a b : α) : Prop :=
  ∀ rest rest', Stops rest → Stops rest' → write a ++ rest = write b ++ rest' →
    a = b ∧ rest = rest'

theorem stops_listed (xs : List α) {rest : Text} (hrest : rest.head? = some '\n') :
    Stops ((xs.flatMap fun a => ',' :: lead ++ write a) ++ rest) := by
  intro c hc
  cases xs with
  | nil =>
      rw [List.flatMap_nil, List.nil_append, hrest] at hc
      cases hc
      rfl
  | cons a xs =>
      cases hc
      rfl

/-- Things in a list, all but the first behind commas, are told one after the other. -/
theorem listed_inj {x y : α} {xs ys : List α} {rest rest' : Text}
    (htold : ∀ a ∈ x :: xs, ∀ b ∈ y :: ys, Told write a b) (hrest : rest.head? = some '\n')
    (hrest' : rest'.head? = some '\n')
    (h : write x ++ ((xs.flatMap fun a => ',' :: lead ++ write a) ++ rest) =
      write y ++ ((ys.flatMap fun a => ',' :: lead ++ write a) ++ rest')) :
    x :: xs = y :: ys ∧ rest = rest' := by
  induction xs generalizing x y ys with
  | nil =>
      obtain ⟨rfl, htail⟩ := htold x List.mem_cons_self y List.mem_cons_self _ _
        (stops_listed [] hrest) (stops_listed ys hrest') h
      cases ys with
      | nil => exact ⟨rfl, htail⟩
      | cons b ys =>
          rw [List.flatMap_nil, List.nil_append] at htail
          rw [htail] at hrest
          cases hrest
  | cons a xs ih =>
      obtain ⟨rfl, htail⟩ := htold x List.mem_cons_self y List.mem_cons_self _ _
        (stops_listed (a :: xs) hrest) (stops_listed ys hrest') h
      cases ys with
      | nil =>
          rw [List.flatMap_nil, List.nil_append] at htail
          rw [← htail] at hrest'
          cases hrest'
      | cons b ys =>
          have hnext : write a ++ ((xs.flatMap fun a => ',' :: lead ++ write a) ++ rest) =
              write b ++ ((ys.flatMap fun a => ',' :: lead ++ write a) ++ rest') := by
            simpa using htail
          obtain ⟨hlist, hend⟩ := ih (fun a' ha' b' hb' => htold a' (List.mem_cons_of_mem x ha') b'
            (List.mem_cons_of_mem x hb')) hnext
          exact ⟨by rw [hlist], hend⟩

end Listed

/-! ### Documents -/

/-- A value is told by its text at every level, whatever follows it. -/
def Determined (j : Json) : Prop :=
  ∀ level j', WellFormed j' → Told (pretty level) j j'

theorem told_member {m m' : Text × Json} (level : Nat) (hm : Determined m.2)
    (hm' : WellFormed m'.2) : Told (prettyMember level) m m' := by
  intro rest rest' hrest hrest' h
  obtain ⟨key, value⟩ := m
  obtain ⟨key', value'⟩ := m'
  simp only [prettyMember, List.append_assoc, List.cons_append] at h
  obtain ⟨rfl, hvalues⟩ := quote_append_inj h
  obtain ⟨rfl, hend⟩ := hm level value' hm' rest rest' hrest hrest' (by simpa using hvalues)
  exact ⟨rfl, hend⟩

theorem told_bool (level : Nat) (value value' : Bool) :
    Told (pretty level) (.bool value) (.bool value') := by
  intro rest rest' _ _ h
  cases value <;> cases value' <;> simp_all [pretty]

theorem told_array {items items' : List Json} (level : Nat)
    (hitems : ∀ item ∈ items, Determined item) (hitems' : ∀ item ∈ items', WellFormed item) :
    Told (pretty level) (.array items) (.array items') := by
  intro rest rest' _ _ h
  cases items with
  | nil =>
      cases items' with
      | nil => exact ⟨rfl, List.append_cancel_left h⟩
      | cons item' items' => simp [pretty, newline] at h
  | cons item items =>
      cases items' with
      | nil => simp [pretty, newline] at h
      | cons item' items' =>
          have hlisted : pretty (level + 1) item ++ (prettyItems (level + 1) items ++
              (newline level ++ ']' :: rest)) =
              pretty (level + 1) item' ++ (prettyItems (level + 1) items' ++
                (newline level ++ ']' :: rest')) := by
            simpa [pretty] using h
          rw [prettyItems_eq, prettyItems_eq] at hlisted
          obtain ⟨hlist, hend⟩ := listed_inj
            (fun a ha b hb => hitems a ha (level + 1) b (hitems' b hb)) rfl rfl hlisted
          rw [hlist]
          exact ⟨rfl, by simpa using hend⟩

theorem told_object {members members' : List (Text × Json)} (level : Nat)
    (hmembers : ∀ m ∈ members, Determined m.2) (hmembers' : ∀ m ∈ members', WellFormed m.2) :
    Told (pretty level) (.object members) (.object members') := by
  intro rest rest' _ _ h
  cases members with
  | nil =>
      cases members' with
      | nil => exact ⟨rfl, List.append_cancel_left h⟩
      | cons m' members' => simp [pretty, newline] at h
  | cons m members =>
      cases members' with
      | nil => simp [pretty, newline] at h
      | cons m' members' =>
          have hlisted : prettyMember (level + 1) m ++ (prettyMembers (level + 1) members ++
              (newline level ++ '}' :: rest)) =
              prettyMember (level + 1) m' ++ (prettyMembers (level + 1) members' ++
                (newline level ++ '}' :: rest')) := by
            simpa [pretty] using h
          rw [prettyMembers_eq, prettyMembers_eq] at hlisted
          obtain ⟨hlist, hend⟩ := listed_inj
            (fun a ha b hb => told_member (level + 1) (hmembers a ha) (hmembers' b hb))
            rfl rfl hlisted
          rw [hlist]
          exact ⟨rfl, by simpa using hend⟩

/-- Values of different kinds start with different characters, so only those of one kind are to be
told apart. -/
theorem determined_of_kind {j : Json} (hj : WellFormed j)
    (h : ∀ level j', WellFormed j' → j'.kind = j.kind → Told (pretty level) j j') :
    Determined j :=
  fun level j' hj' rest rest' hrest hrest' heq =>
    h level j' hj' (kind_eq hj hj' heq).symm rest rest' hrest hrest' heq

theorem determined {j : Json} (h : WellFormed j) : Determined j := by
  induction h with
  | null =>
      refine determined_of_kind .null fun level j' hj' hkind => ?_
      cases hj' with
      | null => exact fun rest rest' _ _ heq => ⟨rfl, List.append_cancel_left heq⟩
      | _ => cases hkind
  | bool value =>
      refine determined_of_kind (.bool value) fun level j' hj' hkind => ?_
      cases hj' with
      | bool value' => exact told_bool level value value'
      | _ => cases hkind
  | number hw =>
      refine determined_of_kind (.number hw) fun level j' hj' hkind => ?_
      cases hj' with
      | number hw' =>
          intro rest rest' hrest hrest' heq
          obtain ⟨rfl, hend⟩ := number_append_inj hw hw' hrest hrest' heq
          exact ⟨rfl, hend⟩
      | _ => cases hkind
  | string text =>
      refine determined_of_kind (.string text) fun level j' hj' hkind => ?_
      cases hj' with
      | string text' =>
          intro rest rest' _ _ heq
          obtain ⟨rfl, hend⟩ := quote_append_inj heq
          exact ⟨rfl, hend⟩
      | _ => cases hkind
  | array hitems ih =>
      refine determined_of_kind (.array hitems) fun level j' hj' hkind => ?_
      cases hj' with
      | array hitems' => exact told_array level ih hitems'
      | _ => cases hkind
  | object hkeys hmembers ih =>
      refine determined_of_kind (.object hkeys hmembers) fun level j' hj' hkind => ?_
      cases hj' with
      | object _ hmembers' => exact told_object level ih hmembers'
      | _ => cases hkind

/-- A document is told by its text. -/
theorem eq_of_pretty_eq {j j' : Json} (hj : WellFormed j) (hj' : WellFormed j') {level : Nat}
    (h : pretty level j = pretty level j') : j = j' :=
  (determined hj level j' hj' [] [] (by simp [Stops]) (by simp [Stops]) (by rw [h])).1

end Json

end Stylesheet
