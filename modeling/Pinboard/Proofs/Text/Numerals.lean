import Mathlib.Algebra.Order.Field.Rat
import Mathlib.Data.List.DropRight
import Mathlib.Tactic.NormNum
import Mathlib.Tactic.Positivity
import Pinboard.Numeric.Decimal
import Pinboard.Proofs.Text.Grammar

/-!
# What numerals denote

A numeral denotes a rational number (`denoted?`), by the rules by which numerals are read. `IsCanonical` says which
numerals are without superfluous zeros and signs. Main statement: a count of thousandths is written as a canonical
numeral that denotes it (`isCanonical_thousandthsText`, `denoted?_thousandthsText`).
-/

namespace Pinboard.Text

open Binary64 (signed thousandthsText)

/-- The rational number that a numeral denotes. -/
def Numeral.exactValue (n : Numeral) : ℚ :=
  signed n.negative (ofDigits (n.whole ++ n.fraction.getD [])) / 10 ^ (n.fraction.getD []).length

/-- The rational number that a text denotes, if it is a numeral. -/
def denoted? (text : String) : Option ℚ := (Numeral.read? text).map Numeral.exactValue

/-! ## Digits -/

theorem ofDigits_map (digits : List Char) :
    ofDigits (digits.map fun c => c.toNat - 48) = Nat.ofDigitChars 10 digits 0 := by
  rw [ofDigits, List.foldl_map]
  rfl

theorem ofDigitChars_append_eq (front back : List Char) :
    Nat.ofDigitChars 10 (front ++ back) 0 =
      10 ^ back.length * Nat.ofDigitChars 10 front 0 + Nat.ofDigitChars 10 back 0 := by
  rw [Nat.ofDigitChars_append, Nat.ofDigitChars_eq_ofDigitChars_zero]

/-- The first digit of a number is zero only for the number zero. -/
theorem head?_toDigits_ne {n : Nat} (h : n ≠ 0) : (Nat.toDigits 10 n).head? ≠ some '0' := by
  induction n using Nat.strongRecOn with
  | ind n ih =>
    rcases Nat.lt_or_ge n 10 with hlt | hge
    · rw [Nat.toDigits_of_lt_base hlt, List.head?_singleton]
      intro hzero
      exact h (Nat.digitChar_eq_zero.1 (Option.some.inj hzero))
    · have hfront := ih (n / 10) (by omega) (by omega)
      rw [Nat.toDigits_of_base_le (by decide) hge, List.head?_append_of_ne_nil _ Nat.toDigits_ne_nil]
      exact hfront

theorem isDigit_of_mem_lastDigits {places n : Nat} {c : Char} (h : c ∈ lastDigits places n) : c.isDigit = true := by
  induction places generalizing n with
  | zero => cases h
  | succ places ih =>
    rw [lastDigits, List.mem_append, List.mem_singleton] at h
    rcases h with h | rfl
    · exact ih h
    · rw [Nat.isDigit_digitChar]
      exact decide_eq_true (Nat.mod_lt n (by decide))

theorem ofDigitChars_lastDigits (places n : Nat) :
    Nat.ofDigitChars 10 (lastDigits places n) 0 = n % 10 ^ places := by
  induction places generalizing n with
  | zero => rw [pow_zero, Nat.mod_one]; rfl
  | succ places ih =>
    have hlast : (Nat.digitChar (n % 10)).toNat - 48 = n % 10 :=
      Nat.toNat_digitChar_sub_48_of_lt_ten (Nat.mod_lt n (by decide))
    rw [lastDigits, Nat.ofDigitChars_append, ih, pow_succ', Nat.mod_mul, Nat.add_comm]
    show 10 * (n / 10 % 10 ^ places) + (_ - 48) = _
    rw [hlast]

/-! ## Trailing zeros -/

/-- What is trimmed off are zeros. -/
theorem exists_trimZeros_append (digits : List Char) :
    ∃ zeros, trimZeros digits ++ List.replicate zeros '0' = digits := by
  have hzeros : digits.rtakeWhile (· == '0') = List.replicate (digits.rtakeWhile (· == '0')).length '0' :=
    List.eq_replicate_iff.2 ⟨rfl, fun c hc => beq_iff_eq.1 (List.mem_rtakeWhile_imp (p := (· == '0')) hc)⟩
  refine ⟨(digits.rtakeWhile (· == '0')).length, ?_⟩
  rw [← hzeros]
  exact List.rdropWhile_append_rtakeWhile

theorem getLast?_trimZeros_ne (digits : List Char) : (trimZeros digits).getLast? ≠ some '0' := by
  intro h
  have hne : trimZeros digits ≠ [] := by
    intro hnil
    rw [hnil] at h
    cases h
  have hlast := List.rdropWhile_last_not (· == '0') digits hne
  rw [List.getLast?_eq_some_getLast hne] at h
  exact hlast (beq_iff_eq.2 (Option.some.inj h))

/-! ## Numerals as they are written -/

/-- A numeral of a sign, the digits of its integer part, and its decimals if there are any. -/
def written (negative : Bool) (whole decimals : List Char) : List Char :=
  (if negative then ['-'] else []) ++ whole ++ (if decimals.isEmpty then [] else '.' :: decimals)

/-- The digits of an integer without leading zeros; zero is a single digit. -/
structure IsWhole (digits : List Char) : Prop where
  ne_nil : digits ≠ []
  isDigit : ∀ c ∈ digits, c.isDigit = true
  eq_zero : digits.head? = some '0' → digits = ['0']

/-- Up to three decimals, of which the last is not zero. -/
structure AreDecimals (digits : List Char) : Prop where
  isDigit : ∀ c ∈ digits, c.isDigit = true
  length_le : digits.length ≤ 3
  getLast?_ne : digits.getLast? ≠ some '0'

/-- A numeral of up to three decimals without superfluous zeros, and without a sign if it is zero. -/
def IsCanonical (text : String) : Prop :=
  text ≠ "-0" ∧
    ∃ negative whole decimals, text.toList = written negative whole decimals ∧ IsWhole whole ∧ AreDecimals decimals

theorem isWhole_toDigits (n : Nat) : IsWhole (Nat.toDigits 10 n) where
  ne_nil := Nat.toDigits_ne_nil
  isDigit _ h := Nat.isDigit_of_mem_toDigits (by decide) (by decide) h
  eq_zero h := by
    by_cases hn : n = 0
    · rw [hn, Nat.toDigits_zero]
    · exact absurd h (head?_toDigits_ne hn)

theorem areDecimals_trimZeros {digits : List Char} (hdigits : ∀ c ∈ digits, c.isDigit = true)
    (hlength : digits.length ≤ 3) : AreDecimals (trimZeros digits) := by
  obtain ⟨zeros, hzeros⟩ := exists_trimZeros_append digits
  refine ⟨fun c hc => hdigits c ?_, ?_, getLast?_trimZeros_ne digits⟩
  · rw [← hzeros]
    exact List.mem_append_left _ hc
  · rw [← hzeros, List.length_append] at hlength
    omega

section
variable {whole decimals : List Char} (hne : whole ≠ []) (hwhole : ∀ c ∈ whole, c.isDigit = true)
  (hdecimals : ∀ c ∈ decimals, c.isDigit = true)

include hne hwhole hdecimals

theorem spells_written (negative : Bool) :
    Spells (written negative whole decimals) ⟨negative, whole.map fun c => c.toNat - 48,
      if decimals.isEmpty then none else some (decimals.map fun c => c.toNat - 48)⟩ := by
  have hsign : IsSign (if negative then ['-'] else []) negative := by
    cases negative with
    | true => exact .minus
    | false => exact .none
  have hfraction : IsFraction (if decimals.isEmpty then [] else '.' :: decimals)
      (if decimals.isEmpty then none else some (decimals.map fun c => c.toNat - 48)) := by
    cases decimals with
    | nil => exact .none
    | cons c decimals => exact .point (areDigits_of_isDigit (List.cons_ne_nil c decimals) hdecimals)
  rw [written, List.append_assoc]
  exact .intro hsign (areDigits_of_isDigit hne hwhole) hfraction

/-- A numeral denotes the integer of all its digits, in parts of a power of ten. -/
theorem denoted?_written (negative : Bool) :
    denoted? (String.ofList (written negative whole decimals)) =
      some ((signed negative (Nat.ofDigitChars 10 (whole ++ decimals) 0) : ℚ) / 10 ^ decimals.length) := by
  have hspells := spells_written hne hwhole hdecimals negative
  rw [← String.toList_ofList (l := written negative whole decimals)] at hspells
  have hdigits : (if decimals.isEmpty then none else some (decimals.map fun c => c.toNat - 48)).getD [] =
      decimals.map fun c => c.toNat - 48 := by
    cases decimals <;> rfl
  rw [denoted?, read?_eq_some_iff.2 (.inl hspells), Option.map_some, Numeral.exactValue, hdigits, ← List.map_append,
    ofDigits_map, List.length_map]

end

/-! ## Thousandths -/

theorem toList_thousandthsText (negative : Bool) (n : Nat) :
    (thousandthsText negative n).toList =
      written (negative && n != 0) (Nat.toDigits 10 (n / 1000)) (trimZeros (lastDigits 3 n)) := by
  rw [thousandthsText, written]
  simp only [String.toList_append, Nat.toList_repr]
  congr 1
  · congr 1
    split <;> rfl
  · split
    · rfl
    · rw [String.toList_append]
      exact congrArg ('.' :: ·) String.toList_ofList

/-- All digits that are written for a count of thousandths, behind which zeros have been trimmed off. -/
theorem exists_zeros (n : Nat) :
    ∃ zeros, (trimZeros (lastDigits 3 n)).length + zeros = 3 ∧
      10 ^ zeros * Nat.ofDigitChars 10 (Nat.toDigits 10 (n / 1000) ++ trimZeros (lastDigits 3 n)) 0 = n := by
  obtain ⟨zeros, hzeros⟩ := exists_trimZeros_append (lastDigits 3 n)
  have hlength := congrArg List.length hzeros
  rw [List.length_append, List.length_replicate, length_lastDigits] at hlength
  refine ⟨zeros, hlength, ?_⟩
  rw [← Nat.ofDigitChars_replicate_zero, ← Nat.ofDigitChars_append, List.append_assoc, hzeros, ofDigitChars_append_eq,
    Nat.ofDigitChars_ten_toDigits, ofDigitChars_lastDigits, length_lastDigits]
  exact Nat.div_add_mod n 1000

theorem areDecimals_thousandths (n : Nat) : AreDecimals (trimZeros (lastDigits 3 n)) :=
  areDecimals_trimZeros (fun _ => isDigit_of_mem_lastDigits) (Nat.le_of_eq (length_lastDigits 3 n))

/-- What is written for a count of thousandths denotes it. -/
theorem denoted?_thousandthsText (negative : Bool) (n : Nat) :
    denoted? (thousandthsText negative n) = some ((signed negative n : ℚ) / 1000) := by
  have hwhole := isWhole_toDigits (n / 1000)
  have htext := congrArg String.ofList (toList_thousandthsText negative n)
  obtain ⟨zeros, hlength, hvalue⟩ := exists_zeros n
  rw [String.ofList_toList] at htext
  rw [htext, denoted?_written hwhole.ne_nil hwhole.isDigit (areDecimals_thousandths n).isDigit]
  generalize Nat.ofDigitChars 10 (Nat.toDigits 10 (n / 1000) ++ trimZeros (lastDigits 3 n)) 0 = digits at hvalue
  have hsigned : signed (negative && n != 0) digits * 10 ^ zeros = signed negative n := by
    rw [← hvalue]
    by_cases hdigits : digits = 0
    · simp [hdigits, signed]
    · cases negative <;> simp [hdigits, signed, mul_comm]
  rw [← hsigned, Option.some.injEq, div_eq_div_iff (by positivity) (by positivity)]
  push_cast
  rw [mul_assoc, ← pow_add, Nat.add_comm, hlength]
  norm_num

theorem eq_zero_of_denoted? {negative : Bool} {n : Nat} (h : denoted? (thousandthsText negative n) = some 0) :
    n = 0 := by
  rw [denoted?_thousandthsText, Option.some.injEq] at h
  cases negative <;> simpa [signed] using h

/-- Only for zero the text of zero is written. -/
theorem thousandthsText_eq_zero_iff (negative : Bool) (n : Nat) : thousandthsText negative n = "0" ↔ n = 0 := by
  have hzero : denoted? "0" = some 0 := by decide +kernel
  constructor
  · intro h
    exact eq_zero_of_denoted? (h ▸ hzero)
  · rintro rfl
    cases negative <;> decide

theorem isCanonical_thousandthsText (negative : Bool) (n : Nat) : IsCanonical (thousandthsText negative n) := by
  refine ⟨?_, _, _, _, toList_thousandthsText negative n, isWhole_toDigits (n / 1000), areDecimals_thousandths n⟩
  intro h
  have hzero : denoted? "-0" = some 0 := by decide +kernel
  have hn : n = 0 := eq_zero_of_denoted? (h ▸ hzero)
  rw [(thousandthsText_eq_zero_iff negative n).2 hn] at h
  exact absurd h (by decide)

/-- Thousandths that make up an integer are written as the integer. -/
theorem thousandthsText_mul (negative : Bool) (n : Nat) :
    thousandthsText negative (n * 1000) = integerText (signed negative n) := by
  have hdecimals : trimZeros (lastDigits 3 (n * 1000)) = [] := by
    have h0 : n * 1000 % 10 = 0 := by omega
    have h1 : n * 1000 / 10 % 10 = 0 := by omega
    have h2 : n * 1000 / 10 / 10 % 10 = 0 := by omega
    simp only [lastDigits, h0, h1, h2]
    decide
  have hwhole : n * 1000 / 1000 = n := Nat.mul_div_cancel n (by decide)
  rw [thousandthsText, hdecimals, hwhole, integerText]
  by_cases hn : n = 0
  · subst hn
    cases negative <;> rfl
  · cases negative <;> simp [signed, hn]

end Pinboard.Text
