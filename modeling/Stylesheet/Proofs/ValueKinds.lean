import Mathlib.Data.List.Forall2
import Stylesheet.Proofs.Cuts

/-! Which kind of value a text is.

Every text is tried as a calculation, a colour, an address and a list of sizes, in this order, and
the first test that holds decides. The tests are stated here by the characters of the text: a part
of it that is spelled in a certain way, a `#` with the digits of a colour behind it
(`Color.StandsIn`), and words that are numbers with an optional unit (`Size.Written`). No word of a
list of sizes has a parenthesis, a `#` or the letters of a colour's function in it, so the earlier
tests take nothing from the sizes, and a text that reads as a list of sizes is one. -/

namespace Stylesheet

/-- A part stands somewhere in a text. -/
def Text.Contains (t : Text) (part : String) : Prop :=
  part.toList <:+: t

/-! ### Colours -/

namespace Color

/-- A hexadecimal digit, in either case. -/
def isHexDigit (c : Char) : Bool :=
  isDigit c || ('a' ≤ c && c ≤ 'f') || ('A' ≤ c && c ≤ 'F')

/-- The digits of a colour: one or two for each of three or four channels. -/
structure HasDigits (run : Text) : Prop where
  length : run.length ∈ [3, 4, 6, 8]
  digits : ∀ c ∈ run, isHexDigit c = true

theorem isSome_digit? (c : Char) : (digit? c).isSome = isHexDigit c := by
  unfold digit? isHexDigit
  cases isDigit c <;> cases ('a' ≤ c && c ≤ 'f' : Bool) <;>
    cases ('A' ≤ c && c ≤ 'F' : Bool) <;> rfl

theorem isSome_ofDigits?_iff (digits : List Nat) :
    (ofDigits? digits).isSome = true ↔ digits.length ∈ [3, 4, 6, 8] := by
  rcases digits with
    _ | ⟨_, _ | ⟨_, _ | ⟨_, _ | ⟨_, _ | ⟨_, _ | ⟨_, _ | ⟨_, _ | ⟨_, _ | ⟨_, _⟩⟩⟩⟩⟩⟩⟩⟩⟩ <;>
      simp [ofDigits?]

theorem isSome_ofHex?_iff (run : Text) : (ofHex? ('#' :: run)).isSome = true ↔ HasDigits run := by
  have hrun : (Text.after? ['#'] ('#' :: run)).getD ('#' :: run) = run := by
    simp [Text.after?, List.isPrefixOf?]
  rw [ofHex?, hrun]
  constructor
  · intro h
    obtain ⟨color, hcolor⟩ := Option.isSome_iff_exists.1 h
    obtain ⟨digits, hdigits, hcolor⟩ := Option.bind_eq_some_iff.1 hcolor
    refine ⟨?_, fun c hc => ?_⟩
    · rw [length_eq_of_mapM hdigits]
      exact (isSome_ofDigits?_iff digits).1 (Option.isSome_iff_exists.2 ⟨color, hcolor⟩)
    · obtain ⟨d, hd⟩ := exists_of_mapM hdigits hc
      rw [← isSome_digit?, hd]
      rfl
  · rintro ⟨hlength, hrun⟩
    obtain ⟨digits, hdigits⟩ : ∃ digits, run.mapM digit? = some digits :=
      exists_mapM_iff.2 fun c hc => Option.isSome_iff_exists.1 ((isSome_digit? c).trans (hrun c hc))
    rw [length_eq_of_mapM hdigits] at hlength
    rw [hdigits]
    exact (isSome_ofDigits?_iff digits).2 hlength

/-- A colour stands in a text: a `#` and, as far as letters and digits go behind it, the digits of a
colour. -/
def StandsIn (t : Text) : Prop :=
  ∃ before run after, t = before ++ '#' :: (run ++ after) ∧ HasDigits run ∧
    ∀ c ∈ after.head?, isLetter c = false ∧ isDigit c = false

theorem isLetter_or_isDigit_of_isHexDigit {c : Char} (h : isHexDigit c = true) :
    (isLetter c || isDigit c) = true := by
  simp only [isHexDigit, isLetter, Bool.or_eq_true, Bool.and_eq_true, decide_eq_true_eq] at h ⊢
  rcases h with (hdigit | hlower) | hupper
  · exact .inr hdigit
  · exact .inl (.inl ⟨hlower.1, Char.le_trans hlower.2 (by decide)⟩)
  · exact .inl (.inr ⟨hupper.1, Char.le_trans hupper.2 (by decide)⟩)

/-- The digits of a colour at the start of a text are all the letters and digits there. -/
theorem takeWhile_of_hasDigits {run after : Text} (hrun : HasDigits run)
    (hafter : ∀ c ∈ after.head?, isLetter c = false ∧ isDigit c = false) :
    (run ++ after).takeWhile (fun c => isLetter c || isDigit c) = run := by
  refine takeWhile_run (fun c hc => isLetter_or_isDigit_of_isHexDigit (hrun.digits c hc)) ?_
  intro c hc
  simp [hafter c hc]

/-- A colour stands in a text right behind `front`. -/
structure StandsAt (t front run : Text) : Prop where
  digits : HasDigits run
  place : ∃ after, t = front ++ '#' :: (run ++ after) ∧
    ∀ c ∈ after.head?, isLetter c = false ∧ isDigit c = false

theorem standsIn_iff (t : Text) : StandsIn t ↔ ∃ front run, StandsAt t front run := by
  constructor
  · rintro ⟨front, run, after, hsplit, hrun, hafter⟩
    exact ⟨front, run, hrun, after, hsplit, hafter⟩
  · rintro ⟨front, run, hrun, after, hsplit, hafter⟩
    exact ⟨front, run, after, hsplit, hrun, hafter⟩

theorem standsAt_cons_iff {c : Char} {t front run : Text} :
    StandsAt (c :: t) front run ↔
      (front = [] ∧ c = '#' ∧ run = t.takeWhile (fun d => isLetter d || isDigit d) ∧
        HasDigits run) ∨
        ∃ front', front = c :: front' ∧ StandsAt t front' run := by
  constructor
  · rintro ⟨hrun, after, hsplit, hafter⟩
    cases front with
    | nil =>
        obtain ⟨rfl, rfl⟩ := List.cons.inj hsplit
        exact .inl ⟨rfl, rfl, (takeWhile_of_hasDigits hrun hafter).symm, hrun⟩
    | cons d front =>
        obtain ⟨rfl, rfl⟩ := List.cons.inj hsplit
        exact .inr ⟨front, rfl, hrun, after, rfl, hafter⟩
  · rintro (⟨rfl, rfl, rfl, hrun⟩ | ⟨front, rfl, hrun, after, rfl, hafter⟩)
    · refine ⟨hrun, t.dropWhile fun d => isLetter d || isDigit d, ?_, fun d hd => ?_⟩
      · rw [List.takeWhile_append_dropWhile]
        rfl
      · simpa using head?_dropWhile hd
    · exact ⟨hrun, after, rfl, hafter⟩

theorem standsIn_cons_iff {c : Char} {t : Text} :
    StandsIn (c :: t) ↔
      (c = '#' ∧ HasDigits (t.takeWhile fun d => isLetter d || isDigit d)) ∨ StandsIn t := by
  rw [standsIn_iff, standsIn_iff]
  constructor
  · rintro ⟨front, run, h⟩
    rcases standsAt_cons_iff.1 h with ⟨_, hc, rfl, hrun⟩ | ⟨front, _, hlater⟩
    · exact .inl ⟨hc, hrun⟩
    · exact .inr ⟨front, run, hlater⟩
  · rintro (⟨hc, hrun⟩ | ⟨front, run, hlater⟩)
    · exact ⟨[], _, standsAt_cons_iff.2 (.inl ⟨rfl, hc, rfl, hrun⟩)⟩
    · exact ⟨c :: front, run, standsAt_cons_iff.2 (.inr ⟨front, rfl, hlater⟩)⟩

theorem isSome_hexToken?_iff (t : Text) : (hexToken? t).isSome = true ↔ StandsIn t := by
  induction t with
  | nil =>
      constructor
      · intro h
        cases h
      · rintro ⟨before, run, after, hsplit, _⟩
        cases before <;> cases hsplit
  | cons c t ih =>
      rw [standsIn_cons_iff, ← isSome_ofHex?_iff, ← ih, hexToken?]
      split
      · next hcolor => simp [hcolor]
      · next hcolor => simp [hcolor]

end Color

/-! ### Sizes -/

namespace Size

/-- The digits of a number: some of them with or without a point behind, and further ones behind the
point, or a point and some digits. -/
inductive Figures : Text → Prop
  | whole {digits : Text} (hne : digits ≠ []) (h : ∀ c ∈ digits, isDigit c = true) : Figures digits
  | point {digits more : Text} (hne : digits ≠ []) (h : ∀ c ∈ digits, isDigit c = true)
      (hmore : ∀ c ∈ more, isDigit c = true) : Figures (digits ++ '.' :: more)
  | fraction {digits : Text} (hne : digits ≠ []) (h : ∀ c ∈ digits, isDigit c = true) :
      Figures ('.' :: digits)

/-- What may stand before the digits of a number. -/
def signs : List Text :=
  [[], ['+'], ['-']]

/-- A unit as it is written behind a number, or nothing. -/
def unitText (unit : Option LengthUnit) : Text :=
  (unit.map LengthUnit.symbol).getD []

/-- A size as it is written, with its unit: an optional sign, the digits of a number and an optional
unit. -/
inductive Written : Text → Option LengthUnit → Prop
  | intro {sign figures : Text} (unit : Option LengthUnit) (hsign : sign ∈ signs)
      (hfigures : Figures figures) : Written (sign ++ (figures ++ unitText unit)) unit

theorem unit?_eq_some_iff {t : Text} {unit : Option LengthUnit} :
    unit? t = some unit ↔ t = unitText unit := by
  constructor
  · intro h
    unfold unit? at h
    split at h
    · next hempty =>
      cases h
      exact List.isEmpty_iff.1 hempty
    · obtain ⟨u, hu, rfl⟩ := Option.map_eq_some_iff.1 h
      have hsymbol : u.symbol = t := by simpa using List.find?_some hu
      exact hsymbol.symm
  · rintro rfl
    cases unit with
    | none => rfl
    | some u => cases u <;> rfl

/-- No unit goes on with a number. -/
theorem head?_unitText {unit : Option LengthUnit} {c : Char} (h : c ∈ (unitText unit).head?) :
    isDigit c = false ∧ c ≠ '.' := by
  cases unit with
  | none => cases h
  | some u =>
      cases u <;> cases h <;> decide

theorem exists_sign (t : Text) : ∃ lead ∈ signs, t = lead ++ (sign t).2 := by
  unfold sign
  split
  · exact ⟨['+'], by decide, rfl⟩
  · exact ⟨['-'], by decide, rfl⟩
  · exact ⟨[], by decide, rfl⟩

theorem sign_append {lead t : Text} (hlead : lead ∈ signs)
    (ht : ∀ c ∈ t.head?, c ≠ '+' ∧ c ≠ '-') : (sign (lead ++ t)).2 = t := by
  simp only [signs, List.mem_cons, List.not_mem_nil, or_false] at hlead
  rcases hlead with rfl | rfl | rfl
  · rw [List.nil_append, sign]
    · rintro rest rfl
      exact (ht '+' rfl).1 rfl
    · rintro rest rfl
      exact (ht '-' rfl).2 rfl
  · rfl
  · rfl

/-- A number with a point. -/
theorem numeral?_point {t more : Text} (h : (sign t).2.dropWhile isDigit = '.' :: more) :
    numeral? t =
      if ((sign t).2.takeWhile isDigit).isEmpty && (more.takeWhile isDigit).isEmpty then none
      else some (⟨(sign t).1, (sign t).2.takeWhile isDigit, more.takeWhile isDigit⟩,
        more.dropWhile isDigit) := by
  simp [numeral?, h]

/-- A number without a point. -/
theorem numeral?_whole {t : Text} (h : ((sign t).2.dropWhile isDigit).head? ≠ some '.') :
    numeral? t =
      if ((sign t).2.takeWhile isDigit).isEmpty then none
      else some (⟨(sign t).1, (sign t).2.takeWhile isDigit, []⟩, (sign t).2.dropWhile isDigit) := by
  unfold numeral?
  dsimp only
  split
  · next more hmore =>
    rw [hmore] at h
    exact absurd rfl h
  · simp

/-- A numeral is read off the start of a text. -/
theorem figures_of_numeral? {t rest : Text} {n : Numeral} (h : numeral? t = some (n, rest)) :
    ∃ lead ∈ signs, ∃ figures, Figures figures ∧ t = lead ++ (figures ++ rest) := by
  obtain ⟨lead, hlead, hsplit⟩ := exists_sign t
  have hdigits (s : Text) : ∀ c ∈ s.takeWhile isDigit, isDigit c = true :=
    fun c hc => List.mem_takeWhile_imp hc
  have hsigned : (sign t).2 = (sign t).2.takeWhile isDigit ++ (sign t).2.dropWhile isDigit :=
    List.takeWhile_append_dropWhile.symm
  refine ⟨lead, hlead, ?_⟩
  by_cases hpoint : ((sign t).2.dropWhile isDigit).head? = some '.'
  · obtain ⟨more, hmore⟩ := List.head?_eq_some_iff.1 hpoint
    rw [numeral?_point hmore] at h
    obtain ⟨hne, h⟩ := Option.ite_none_left_eq_some.1 h
    cases h
    have hwhole : (sign t).2 = ((sign t).2.takeWhile isDigit ++ '.' :: more.takeWhile isDigit) ++
        more.dropWhile isDigit := by
      rw [List.append_assoc, List.cons_append, List.takeWhile_append_dropWhile, ← hmore]
      exact hsigned
    refine ⟨_, ?_, hsplit.trans (congrArg (lead ++ ·) hwhole)⟩
    by_cases hwhole : (sign t).2.takeWhile isDigit = []
    · rw [hwhole]
      exact .fraction (by simpa [hwhole] using hne) (hdigits _)
    · exact .point hwhole (hdigits _) (hdigits _)
  · rw [numeral?_whole hpoint] at h
    obtain ⟨hne, h⟩ := Option.ite_none_left_eq_some.1 h
    cases h
    exact ⟨_, .whole (by simpa using hne) (hdigits _), hsplit.trans (congrArg (lead ++ ·) hsigned)⟩

theorem Figures.head? {figures : Text} (h : Figures figures) (rest : Text) :
    ∀ c ∈ (figures ++ rest).head?, c ≠ '+' ∧ c ≠ '-' := by
  have hdigit {c : Char} (hc : isDigit c = true) : c ≠ '+' ∧ c ≠ '-' := by
    constructor <;> rintro rfl <;> cases hc
  cases h with
  | whole hne h =>
      obtain ⟨d, digits, rfl⟩ := List.exists_cons_of_ne_nil hne
      rintro c ⟨⟩
      exact hdigit (h d List.mem_cons_self)
  | point hne h =>
      obtain ⟨d, digits, rfl⟩ := List.exists_cons_of_ne_nil hne
      rintro c ⟨⟩
      exact hdigit (h d List.mem_cons_self)
  | fraction =>
      rintro c ⟨⟩
      decide

/-- The digits of a number are read before any text that does not go on with them. -/
theorem exists_numeral? {lead figures rest : Text} (hlead : lead ∈ signs) (h : Figures figures)
    (hrest : ∀ c ∈ rest.head?, isDigit c = false ∧ c ≠ '.') :
    ∃ n, numeral? (lead ++ (figures ++ rest)) = some (n, rest) := by
  have hsign := sign_append hlead (h.head? rest)
  have hstop : ∀ c ∈ rest.head?, isDigit c = false := fun c hc => (hrest c hc).1
  have hpoint {s : Text} : ∀ c ∈ ('.' :: s).head?, isDigit c = false := by
    rintro c ⟨⟩
    rfl
  cases h with
  | whole hne hdigits =>
      have hdrop := dropWhile_run hdigits hstop
      have hnot : ((figures ++ rest).dropWhile isDigit).head? ≠ some '.' := by
        rw [hdrop]
        exact fun hhead => (hrest '.' hhead).2 rfl
      rw [numeral?_whole (by rwa [hsign]), hsign, hdrop, takeWhile_run hdigits hstop]
      simp [hne]
  | @point digits more hne hdigits hmore =>
      rw [List.append_assoc, List.cons_append] at hsign ⊢
      have hdrop := dropWhile_run hdigits (hpoint (s := more ++ rest))
      rw [numeral?_point (by rwa [hsign]), hsign, takeWhile_run hdigits hpoint,
        dropWhile_run hmore hstop, takeWhile_run hmore hstop]
      simp [hne]
  | @fraction digits hne hdigits =>
      rw [List.cons_append] at hsign ⊢
      have hdrop : ('.' :: (digits ++ rest)).dropWhile isDigit = '.' :: (digits ++ rest) := rfl
      rw [numeral?_point (by rwa [hsign]), hsign, dropWhile_run hdigits hstop,
        takeWhile_run hdigits hstop]
      simp [hne]

/-- A word is a size exactly if it is written as one, and it has the unit that is written. -/
theorem unit_ofText?_iff {t : Text} {unit : Option LengthUnit} :
    (∃ s, ofText? t = some s ∧ s.unit = unit) ↔ Written t unit := by
  constructor
  · rintro ⟨s, h, rfl⟩
    obtain ⟨⟨n, rest⟩, hnumeral, h⟩ := Option.bind_eq_some_iff.1 h
    obtain ⟨unit, hunit, h⟩ := Option.bind_eq_some_iff.1 h
    cases h
    obtain ⟨lead, hlead, figures, hfigures, rfl⟩ := figures_of_numeral? hnumeral
    obtain rfl := unit?_eq_some_iff.1 hunit
    exact .intro unit hlead hfigures
  · rintro ⟨unit, hlead, hfigures⟩
    obtain ⟨n, hnumeral⟩ :=
      exists_numeral? hlead hfigures fun c (hc : c ∈ (unitText unit).head?) => head?_unitText hc
    have hunit : unit? (unitText unit) = some unit := unit?_eq_some_iff.2 rfl
    exact ⟨⟨n.magnitude, unit⟩, by simp [ofText?, hnumeral, hunit], rfl⟩

/-- A text that reads as a list of sizes. -/
def IsList (t : Text) : Prop :=
  t ≠ [] ∧ ∀ w ∈ t.words, ∃ unit, Written w unit

theorem exists_list?_iff {t : Text} : (∃ sizes, list? t = some sizes) ↔ IsList t := by
  unfold list? IsList
  by_cases hempty : t = []
  · simp [hempty]
  · have hword (w : Text) : (∃ s, ofText? w = some s) ↔ ∃ unit, Written w unit := by
      simp only [← unit_ofText?_iff]
      exact ⟨fun ⟨s, hs⟩ => ⟨s.unit, s, hs, rfl⟩, fun ⟨_, s, hs, _⟩ => ⟨s, hs⟩⟩
    simp only [List.isEmpty_iff, hempty, if_false, exists_mapM_iff, hword, ne_eq,
      not_false_eq_true, true_and]

theorem units_of_list? {t : Text} {sizes : List Size} (h : list? t = some sizes) :
    List.Forall₂ (fun w s => Written w s.unit) t.words sizes := by
  unfold list? at h
  split at h
  · cases h
  · have hread := mapM_eq_some_iff.1 h
    rw [← List.forall₂_eq_eq_eq, List.forall₂_map_left_iff, List.forall₂_map_right_iff] at hread
    exact hread.imp fun w s hs => unit_ofText?_iff.1 ⟨s, hs, rfl⟩

/-- A character that no size is written with. -/
def isForeign (c : Char) : Bool :=
  !isDigit c && !"+-.".toList.contains c && LengthUnit.all.all (!·.symbol.contains c)

theorem Figures.isDigit_or_point {figures : Text} (h : Figures figures) {c : Char}
    (hc : c ∈ figures) : isDigit c = true ∨ c = '.' := by
  cases h with
  | whole _ hdigits => exact .inl (hdigits c hc)
  | point _ hdigits hmore =>
      rcases List.mem_append.1 hc with hwhole | hrest
      · exact .inl (hdigits c hwhole)
      · rcases List.mem_cons.1 hrest with rfl | hfraction
        · exact .inr rfl
        · exact .inl (hmore c hfraction)
  | fraction _ hdigits =>
      rcases List.mem_cons.1 hc with rfl | hfraction
      · exact .inr rfl
      · exact .inl (hdigits c hfraction)

theorem Written.not_mem {t : Text} {unit : Option LengthUnit} (h : Written t unit) {c : Char}
    (hc : isForeign c = true) : c ∉ t := by
  simp only [isForeign, Bool.and_eq_true, Bool.not_eq_true', List.all_eq_true,
    List.contains_eq_mem, decide_eq_false_iff_not] at hc
  obtain ⟨⟨hdigit, hsigns⟩, hunits⟩ := hc
  obtain ⟨unit, hlead, hfigures⟩ := h
  simp only [List.mem_append, not_or]
  refine ⟨fun hmem => hsigns ?_, fun hmem => ?_, fun hmem => ?_⟩
  · simp only [signs, List.mem_cons, List.not_mem_nil, or_false] at hlead
    rcases hlead with rfl | rfl | rfl
    · cases hmem
    · obtain rfl := List.mem_singleton.1 hmem
      decide
    · obtain rfl := List.mem_singleton.1 hmem
      decide
  · rcases hfigures.isDigit_or_point hmem with hd | rfl
    · rw [hdigit] at hd
      cases hd
    · exact hsigns (by decide)
  · cases unit with
    | none => cases hmem
    | some u => exact hunits u (by cases u <;> decide) hmem

/-- A list of sizes has none of the characters by which other kinds of values are told. -/
theorem IsList.not_mem {t : Text} (h : IsList t) {c : Char} (hc : isForeign c = true)
    (hblank : isBlank c = false) : c ∉ t := by
  intro hmem
  obtain ⟨w, hw, hcw⟩ := Text.exists_mem_words hblank hmem
  obtain ⟨unit, hwritten⟩ := h.2 w hw
  exact hwritten.not_mem hc hcw

theorem IsList.excludes {t : Text} (h : IsList t) :
    ¬t.Contains "calc(" ∧ ¬Color.StandsIn t ∧ ¬t.Contains "rgb" ∧ ¬t.Contains "url(" := by
  have hopen : '(' ∉ t := h.not_mem (by decide) (by decide)
  have hletter : 'g' ∉ t := h.not_mem (by decide) (by decide)
  have hhash : '#' ∉ t := h.not_mem (by decide) (by decide)
  refine ⟨fun hpart => hopen (hpart.mem (by decide)), ?_,
    fun hpart => hletter (hpart.mem (by decide)), fun hpart => hopen (hpart.mem (by decide))⟩
  rintro ⟨before, run, after, rfl, _⟩
  exact hhash (by simp)

end Size

/-! ### Values -/

namespace Value

/-- The kind of a value by the characters of its text. -/
structure KindOf (t : Text) (v : Value) : Prop where
  calculation : (∃ expression, v = .calc expression) ↔ t.Contains "calc("
  hexadecimal : (∃ raw, v = .color .hexadecimal raw) ↔ ¬t.Contains "calc(" ∧ Color.StandsIn t
  rgb : (∃ raw, v = .color .rgb raw) ↔
    ¬t.Contains "calc(" ∧ ¬Color.StandsIn t ∧ t.Contains "rgb"
  size : (∃ sizes, v = .size sizes) ↔ Size.IsList t
  url : (∃ raw, v = .url raw) ↔
    ¬t.Contains "calc(" ∧ ¬Color.StandsIn t ∧ ¬t.Contains "rgb" ∧ ¬Size.IsList t ∧
      t.Contains "url("
  string : (∃ raw, v = .string raw) ↔
    ¬t.Contains "calc(" ∧ ¬Color.StandsIn t ∧ ¬t.Contains "rgb" ∧ ¬Size.IsList t ∧
      ¬t.Contains "url("
  /-- A colour and a plain text are kept as they are. -/
  kept : ∀ raw, (v = .string raw ∨ ∃ encoding, v = .color encoding raw) → raw = t
  /-- There is one size for each word, with the unit of the word. -/
  units : ∀ sizes, v = .size sizes →
    List.Forall₂ (fun w size => Size.Written w size.unit) t.words sizes

/-- The test that decides, given that no earlier one holds. -/
inductive Decided (t : Text) : Value → Prop
  | calculation {expression : Text} (h : t.Contains "calc(") : Decided t (.calc expression)
  | hexadecimal (hcalc : ¬t.Contains "calc(") (h : Color.StandsIn t) :
      Decided t (.color .hexadecimal t)
  | rgb (hcalc : ¬t.Contains "calc(") (hhex : ¬Color.StandsIn t) (h : t.Contains "rgb") :
      Decided t (.color .rgb t)
  | url {raw : Text} (hcalc : ¬t.Contains "calc(") (hhex : ¬Color.StandsIn t)
      (hrgb : ¬t.Contains "rgb") (h : t.Contains "url(") : Decided t (.url raw)
  | size {sizes : List Size} (h : Size.list? t = some sizes) : Decided t (.size sizes)
  | string (hcalc : ¬t.Contains "calc(") (hhex : ¬Color.StandsIn t)
      (hrgb : ¬t.Contains "rgb") (hurl : ¬t.Contains "url(") (hsize : ¬Size.IsList t) :
      Decided t (.string t)

theorem decided_classify (t : Text) : Decided t.trim (classify t) := by
  have hnone {part : String} (h : Text.afterFirst? part.toList t.trim = none) :
      ¬t.trim.Contains part := by
    rw [Text.Contains, ← Text.isSome_afterFirst?_iff, h]
    exact Bool.false_ne_true
  have hsome {part : String} {rest : Text} (h : Text.afterFirst? part.toList t.trim = some rest) :
      t.trim.Contains part := by
    rw [Text.Contains, ← Text.isSome_afterFirst?_iff, h]
    rfl
  unfold classify
  dsimp only
  split
  · next hcalc => exact .calculation (hsome hcalc)
  next hcalc =>
  split
  · next hhex => exact .hexadecimal (hnone hcalc) ((Color.isSome_hexToken?_iff _).1 hhex)
  next hhex =>
  rw [Color.isSome_hexToken?_iff] at hhex
  split
  · next hrgb => exact .rgb (hnone hcalc) hhex (Text.isSome_afterFirst?_iff.1 hrgb)
  next hrgb =>
  rw [Text.mentions, Text.isSome_afterFirst?_iff] at hrgb
  split
  · next hurl => exact .url (hnone hcalc) hhex hrgb (hsome hurl)
  next hurl =>
  split
  · next hsizes => exact .size hsizes
  · next hsizes =>
    refine .string (hnone hcalc) hhex hrgb (hnone hurl) fun hlist => ?_
    obtain ⟨sizes, hlist⟩ := Size.exists_list?_iff.2 hlist
    rw [hsizes] at hlist
    cases hlist

/-- What kind of value a text is follows from the text alone, as `KindOf` lists it. -/
theorem kindOf_classify (t : Text) : KindOf t.trim (classify t) := by
  have hdecided := decided_classify t
  generalize classify t = v at hdecided ⊢
  cases hdecided with
  | calculation h =>
      have hlist : ¬Size.IsList t.trim := fun hlist => hlist.excludes.1 h
      constructor <;> simp [h, hlist]
  | hexadecimal hcalc h =>
      have hlist : ¬Size.IsList t.trim := fun hlist => hlist.excludes.2.1 h
      constructor <;> simp [hcalc, h, hlist]
  | rgb hcalc hhex h =>
      have hlist : ¬Size.IsList t.trim := fun hlist => hlist.excludes.2.2.1 h
      constructor <;> simp [hcalc, hhex, h, hlist]
  | url hcalc hhex hrgb h =>
      have hlist : ¬Size.IsList t.trim := fun hlist => hlist.excludes.2.2.2 h
      constructor <;> simp [hcalc, hhex, hrgb, h, hlist]
  | size h =>
      have hlist : Size.IsList t.trim := Size.exists_list?_iff.1 ⟨_, h⟩
      obtain ⟨hcalc, hhex, hrgb, hurl⟩ := hlist.excludes
      constructor <;> simp [hcalc, hhex, hrgb, hurl, hlist, Size.units_of_list? h]
  | string hcalc hhex hrgb hurl hsize =>
      constructor <;> simp [hcalc, hhex, hrgb, hurl, hsize]

end Value

end Stylesheet
