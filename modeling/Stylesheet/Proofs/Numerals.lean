import Mathlib.Data.List.TakeWhile
import Mathlib.Tactic.Push
import Stylesheet.Number.Style
import Stylesheet.Proofs.Layout

/-! The texts of numbers.

The digits of a decimal are digits, and only the decimal of zero has none: the interval around a
positive number is bounded away from zero, so no coefficient taken from it is zero. Every number
that a JSON document holds is therefore written as one, with an exponent or without. -/

namespace Stylesheet

/-! ### Whole numbers -/

theorem Text.isDigit_of_mem_ofNat {n : Nat} {c : Char} (h : c ∈ Text.ofNat n) :
    isDigit c = true := by
  have hdigit := Nat.isDigit_of_mem_toDigits (by decide) (by decide) h
  simpa [Char.isDigit, isDigit, Char.le_def] using hdigit

theorem Text.ofNat_inj {n n' : Nat} (h : Text.ofNat n = Text.ofNat n') : n = n' := by
  have hvalue := congrArg (Nat.ofDigitChars 10 · 0) h
  simpa [Text.ofNat, Nat.ofDigitChars_ten_toDigits] using hvalue

/-- Only zero is written with zeros alone. -/
theorem Text.exists_ne_zero_of_ne {n : Nat} (h : n ≠ 0) : ∃ c ∈ Text.ofNat n, c ≠ '0' := by
  by_contra hzeros
  push Not at hzeros
  have hreplicate : Text.ofNat n = List.replicate (Text.ofNat n).length '0' :=
    List.eq_replicate_of_mem hzeros
  have hzero (k : Nat) : Nat.ofDigitChars 10 (List.replicate k '0') 0 = 0 := by
    induction k with
    | zero => rfl
    | succ k ih => simpa [Nat.ofDigitChars, List.replicate_succ] using ih
  apply h
  rw [← Nat.ofDigitChars_ten_toDigits (n := n)]
  change Nat.ofDigitChars 10 (Text.ofNat n) 0 = 0
  rw [hreplicate, hzero]

/-! ### Decimals -/

namespace Decimal

theorem isDigit_of_mem_ofScaled {coefficient : Nat} {power : Int} {c : Char}
    (h : c ∈ (ofScaled coefficient power).digits) : isDigit c = true := by
  have hreversed : c ∈ (Text.ofNat coefficient).reverse.dropWhile (· == '0') := by
    simpa [ofScaled] using h
  have hmem := (List.dropWhile_sublist _).subset hreversed
  exact Text.isDigit_of_mem_ofNat (List.mem_reverse.1 hmem)

theorem ofScaled_ne_nil {coefficient : Nat} (power : Int) (h : coefficient ≠ 0) :
    (ofScaled coefficient power).digits ≠ [] := by
  obtain ⟨c, hc, hne⟩ := Text.exists_ne_zero_of_ne h
  intro hnil
  have hzeros : ∀ d ∈ (Text.ofNat coefficient).reverse, (d == '0') = true := by
    simpa [ofScaled, List.dropWhile_eq_nil_iff] using hnil
  exact hne (by simpa using hzeros c (List.mem_reverse.2 hc))

/-- The decimal of zero, or one with digits. -/
def Proper (d : Decimal) : Prop :=
  (d = ⟨[], 0⟩ ∨ d.digits ≠ []) ∧ ∀ c ∈ d.digits, isDigit c = true

theorem proper_zero : Proper ⟨[], 0⟩ :=
  ⟨.inl rfl, by simp⟩

end Decimal

namespace Binary

theorem interval_low_pos {f : Format} {significand : Nat} {exponent : Int} (h : significand ≠ 0) :
    0 < (interval f significand exponent).low := by
  simp only [interval]
  split <;> omega

theorem proper_neighbour {f : Format} {tie : Tie} {significand digits : Nat} {exponent : Int}
    {d : Decimal} (hpositive : significand ≠ 0)
    (h : neighbour? f tie significand exponent digits = some d) : d.Proper := by
  unfold neighbour? at h
  extract_lets around first power unit quarter below excess inside belowNearer coefficient at h
  obtain ⟨n, hn, rfl⟩ := Option.map_eq_some_iff.1 h
  -- the coefficient lies in the interval, and zero is below its lower end
  have hinside : inside n = true := by
    simp only [coefficient] at hn
    split at hn
    · next hbelow =>
      cases hn
      exact (Bool.and_eq_true_iff.1 hbelow).1
    split at hn
    · next habove =>
      cases hn
      exact habove
    · cases hn
  have hlow : 0 < around.low * quarter :=
    Nat.mul_pos (interval_low_pos hpositive)
      (Nat.mul_pos (Nat.pow_pos (by decide)) (Nat.pow_pos (by decide)))
  have hne : n ≠ 0 := by
    rintro rfl
    simp only [inside, Nat.zero_mul] at hinside
    split at hinside
    · simp only [Bool.and_eq_true, decide_eq_true_eq] at hinside
      omega
    · simp only [Bool.and_eq_true, decide_eq_true_eq] at hinside
      omega
  exact ⟨.inr (Decimal.ofScaled_ne_nil _ hne), fun c hc => Decimal.isDigit_of_mem_ofScaled hc⟩

theorem proper_shortest (f : Format) (tie : Tie) (significand : Nat) (exponent : Int) :
    (shortest f tie significand exponent).Proper := by
  unfold shortest
  split
  · exact Decimal.proper_zero
  next hpositive =>
  cases hfound : (List.range' 1 f.digits).findSome? (neighbour? f tie significand exponent) with
  | none => exact Decimal.proper_zero
  | some d =>
      obtain ⟨digits, _, hneighbour⟩ := List.exists_of_findSome?_eq_some hfound
      exact proper_neighbour hpositive hneighbour

end Binary

/-! ### Numbers in documents -/

namespace Json

theorem isNumberChar_of_isDigit {c : Char} (h : isDigit c = true) : isNumberChar c = true := by
  simp [isNumberChar, h]

theorem isNumber_append {digits : Text} (rest : Text) (hne : digits ≠ [])
    (hdigits : ∀ c ∈ digits, isDigit c = true) (hrest : ∀ c ∈ rest, isNumberChar c = true) :
    IsNumber (digits ++ rest) := by
  obtain ⟨c, more, rfl⟩ := List.exists_cons_of_ne_nil hne
  refine ⟨⟨c, rfl, .inl (hdigits c List.mem_cons_self)⟩, List.forall_mem_append.2 ⟨?_, hrest⟩⟩
  exact fun d hd => isNumberChar_of_isDigit (hdigits d hd)

theorem isNumber_ofNat (n : Nat) : IsNumber (Text.ofNat n) := by
  rw [← List.append_nil (Text.ofNat n)]
  exact isNumber_append [] Nat.toDigits_ne_nil (fun _ => Text.isDigit_of_mem_ofNat) (by simp)

theorem IsNumber.negative {written : Text} (h : IsNumber written) : IsNumber ('-' :: written) :=
  ⟨⟨'-', rfl, .inr rfl⟩, List.forall_mem_cons.2 ⟨rfl, h.chars⟩⟩

end Json

open Json

theorem Decimal.isNumber_positional {d : Decimal} (h : d.Proper) (keepsPoint : Bool) :
    IsNumber (d.positional keepsPoint) := by
  have hchars : ∀ c ∈ d.digits, isNumberChar c = true :=
    fun c hc => isNumberChar_of_isDigit (h.2 c hc)
  have hzeros (k : Nat) : ∀ c ∈ List.replicate k '0', isNumberChar c = true := by
    intro c hc
    rw [List.eq_of_mem_replicate hc]
    rfl
  unfold positional
  extract_lets whole ending
  have hending : ∀ c ∈ ending, isNumberChar c = true := by
    simp only [ending]
    split
    · simp [isNumberChar, isDigit]
    · simp
  have hzero {rest : Text} (hrest : ∀ c ∈ rest, isNumberChar c = true) : IsNumber ('0' :: rest) :=
    ⟨⟨'0', rfl, .inl rfl⟩, List.forall_mem_cons.2 ⟨rfl, hrest⟩⟩
  split
  · exact hzero hending
  next hempty =>
  have hne : d.digits ≠ [] := by simpa using hempty
  split
  · exact hzero (List.forall_mem_cons.2 ⟨rfl, List.forall_mem_append.2 ⟨hzeros _, hchars⟩⟩)
  next hexponent =>
  split
  · rw [List.append_assoc]
    exact isNumber_append _ hne h.2 (List.forall_mem_append.2 ⟨hzeros _, hending⟩)
  · have htake : d.digits.take whole ≠ [] := by
      have hwhole : whole ≠ 0 := by omega
      simpa [List.take_eq_nil_iff, hwhole] using hne
    refine isNumber_append _ htake (fun c hc => h.2 c (List.mem_of_mem_take hc)) ?_
    exact List.forall_mem_cons.2 ⟨rfl, fun c hc => hchars c (List.mem_of_mem_drop hc)⟩

theorem Decimal.isNumber_scientific {d : Decimal} (h : d.Proper) (hne : d.digits ≠ []) :
    IsNumber d.scientific := by
  have htake : d.digits.take 1 ≠ [] := by simpa [List.take_eq_nil_iff] using hne
  unfold scientific
  extract_lets fraction sign
  have hfraction : ∀ c ∈ fraction, isNumberChar c = true := by
    simp only [fraction]
    split
    · simp
    · refine List.forall_mem_cons.2 ⟨rfl, fun c hc => ?_⟩
      exact isNumberChar_of_isDigit (h.2 c (List.mem_of_mem_drop hc))
  have hsign : isNumberChar sign = true := by
    simp only [sign]
    split <;> rfl
  rw [List.append_assoc]
  refine isNumber_append _ htake (fun c hc => h.2 c (List.mem_of_mem_take hc)) ?_
  refine List.forall_mem_append.2 ⟨hfraction, List.forall_mem_cons.2 ⟨rfl, ?_⟩⟩
  exact List.forall_mem_cons.2 ⟨hsign, (isNumber_ofNat _).chars⟩

/-- Every number in a document is written as one. Zero is never written with an exponent. -/
theorem isNumber_write (negative : Bool) (significand : Nat) (exponent : Int) :
    IsNumber (NumberStyle.json.write .double (.finite negative significand exponent)) := by
  have hproper := Binary.proper_shortest .double .even significand exponent
  have hunsigned : IsNumber
      (NumberStyle.json.write .double (.finite false significand exponent)) := by
    simp only [NumberStyle.write, Bool.false_eq_true, if_false]
    split
    · exact Decimal.isNumber_positional hproper true
    next hposition =>
    refine Decimal.isNumber_scientific hproper (hproper.1.resolve_left fun hzero => hposition ?_)
    change NumberStyle.json.isPositional (Binary.shortest .double .even significand exponent) = true
    rw [hzero]
    rfl
  cases negative with
  | false => exact hunsigned
  | true => exact hunsigned.negative

end Stylesheet
