import Mathlib.Tactic.Linarith
import Pinboard.Proofs.Numeric.Thousandths
import Pinboard.Proofs.Numeric.Worth
import Pinboard.Proofs.Text.Numerals

/-!
# Numbers as they are written

A finite number is written as a count of thousandths (`numberText_finite`). Main statements: what is written is a
canonical numeral (`numberText_canonical`); it is within half a thousandth of the number exactly if the number is not
flattened to a distant integer (`numberText_accurate_iff`), which happens to large numbers only; and larger numbers
are never written as smaller ones (`numberText_mono`).
-/

namespace Pinboard.Binary64

open Text (denoted? IsCanonical denoted?_thousandthsText isCanonical_thousandthsText thousandthsText_eq_zero_iff
  thousandthsText_mul)

variable {x y : Binary64}

/-- A number that counts as an integer although it is more than half a thousandth away from it. -/
def IsFlattened (x : Binary64) : Prop :=
  ∃ n : ℤ, x.round = .ok n ∧ isClose integerTolerance x (ofInt n) = true ∧ 1 / 2000 < |n - x.worth|

/-- A finite number is written as its thousandths, whether it is written as an integer or not. -/
theorem numberText_finite (s : Bool) (a : Magnitude) :
    numberText (.finite s a) = .ok (thousandthsText s a.thousandths) := by
  have hclose := isClose_nearest_iff s a
  show Except.ok (if isClose integerTolerance (.finite s a) (ofInt (signed s a.nearest)) = true then
    integerText (signed s a.nearest) else thousandthsText s (scaled 3 a)) = _
  unfold Magnitude.thousandths
  by_cases h : a.IsNearInteger
  · rw [if_pos h, if_pos (hclose.2 h), thousandthsText_mul]
  · rw [if_neg h, if_neg (mt hclose.1 h)]

/-! ## Accuracy -/

theorem abs_thousandths_sub_le_iff (s : Bool) (n : Nat) (a : Magnitude) :
    |(signed s n : ℚ) / 1000 - worth (.finite s a)| ≤ 1 / 2000 ↔
      2 * ((n * unitsPerOne : Nat) - (a.units * 1000 : Nat) : Int).natAbs ≤ unitsPerOne := by
  have h := abs_sub_le_inv_iff (n := n) (m := a.units) (c := 1000) (k := 2000) (by decide) unitsPerOne_pos (by decide)
  rw [← abs_signed_sub s] at h
  refine h.trans ?_
  omega

theorem abs_nearest_sub_le_iff (s : Bool) (a : Magnitude) :
    |(signed s a.nearest : ℚ) - worth (.finite s a)| ≤ 1 / 2000 ↔ 2000 * a.distance ≤ unitsPerOne := by
  have h := abs_sub_le_inv_iff (n := a.nearest) (m := a.units) (c := 1) (k := 2000) (by decide) unitsPerOne_pos
    (by decide)
  rw [← abs_signed_sub s, Nat.cast_one, div_one, Nat.one_mul, Nat.mul_one] at h
  exact h

theorem isFlattened_iff (s : Bool) (a : Magnitude) :
    IsFlattened (.finite s a) ↔ a.IsNearInteger ∧ unitsPerOne < 2000 * a.distance := by
  have hdistance := not_congr (abs_nearest_sub_le_iff s a)
  rw [not_le, not_le] at hdistance
  rw [← hdistance, ← isClose_nearest_iff s a]
  constructor
  · rintro ⟨n, hn, hclose, hfar⟩
    cases hn
    exact ⟨hclose, hfar⟩
  · rintro ⟨hclose, hfar⟩
    exact ⟨_, rfl, hclose, hfar⟩

/-- The thousandths that are written are the nearest ones, unless the number is flattened. -/
theorem abs_written_sub_le_iff (s : Bool) (a : Magnitude) :
    |(signed s a.thousandths : ℚ) / 1000 - worth (.finite s a)| ≤ 1 / 2000 ↔ ¬IsFlattened (.finite s a) := by
  rw [abs_thousandths_sub_le_iff, isFlattened_iff]
  by_cases h : a.IsNearInteger
  · have hthousandths : a.thousandths * unitsPerOne = a.nearest * unitsPerOne * 1000 := by
      rw [Magnitude.thousandths, if_pos h, Nat.mul_right_comm]
    have hdistance :
        ((a.thousandths * unitsPerOne : Nat) - (a.units * 1000 : Nat) : Int).natAbs = 1000 * a.distance := by
      rw [hthousandths, Magnitude.distance]
      omega
    simp only [h, true_and, hdistance]
    omega
  · have hthousandths : a.thousandths = roundQuotient (a.units * 1000) unitsPerOne := if_neg h
    have hupper := two_mul_roundQuotient_mul_le (a.units * 1000) unitsPerOne
    have hlower := le_two_mul_roundQuotient_mul (a.units * 1000) unitsPerOne_pos
    simp only [h, false_and, not_false_iff, iff_true]
    rw [hthousandths]
    omega

/-- Up to half a million the tolerance for integers is less than half a thousandth. -/
theorem not_isFlattened_of_small (hx : x.isFinite = true) (hsmall : |x.worth| ≤ 499999) : ¬IsFlattened x := by
  obtain ⟨s, a, rfl⟩ := isFinite_iff.1 hx
  have hunits := (abs_worth_le_iff _ 499999).1 hsmall
  rw [exact, natAbs_signed] at hunits
  have hmax : max a.units (a.nearest * unitsPerOne) ≤ 499999 * unitsPerOne :=
    Nat.max_le.2 ⟨hunits, Nat.mul_le_mul_right _ (Magnitude.nearest_le hunits)⟩
  have hallowance : 2000 * allowance (499999 * unitsPerOne) ≤ unitsPerOne := by decide +kernel
  rw [isFlattened_iff]
  rintro ⟨hnear, hfar⟩
  have hdistance := Nat.le_trans hnear (allowance_mono hmax)
  omega

theorem numberText_of_near (s : Bool) {a : Magnitude} (h : a.IsNearInteger) :
    numberText (.finite s a) = .ok (integerText (signed s a.nearest)) := by
  rw [numberText_finite, Magnitude.thousandths, if_pos h, thousandthsText_mul]

/-- An integer is written as it is, however large. -/
theorem numberText_of_integer {n : ℤ} (hx : x.isFinite = true) (hn : x.worth = n) :
    numberText x = .ok (integerText n) := by
  obtain ⟨s, a, rfl⟩ := isFinite_iff.1 hx
  have hpos : (0 : Int) < unitsPerOne := by exact_mod_cast unitsPerOne_pos
  have hexact : signed s a.units = n * unitsPerOne := by
    rw [worth, div_eq_iff cast_unitsPerOne_pos.ne'] at hn
    exact_mod_cast hn
  have hunits : a.units = n.natAbs * unitsPerOne := by
    have habs := congrArg Int.natAbs hexact
    rwa [natAbs_signed, Int.natAbs_mul, Int.natAbs_natCast] at habs
  have hnearest := Magnitude.nearest_eq hunits
  have hnear : a.IsNearInteger := by
    have hzero : a.distance = 0 := by
      rw [Magnitude.distance, hnearest, hunits]
      omega
    exact hzero.trans_le (Nat.zero_le _)
  have hsigned : signed s n.natAbs = n := by
    rw [hunits, signed_mul] at hexact
    exact Int.eq_of_mul_eq_mul_right hpos.ne' hexact
  rw [numberText_of_near s hnear, hnearest, hsigned]

/-- A finite number is written as a numeral of thousandths. It is within half a thousandth of the number unless the
number is flattened, and no number of up to half a million is; a flattened number is written as the nearest integer,
and an integer as itself. -/
theorem numberText_accurate_iff (hx : x.isFinite = true) :
    ∃ text value, numberText x = .ok text ∧ denoted? text = some value ∧ (∃ k : ℤ, value = k / 1000) ∧
      (|value - x.worth| ≤ 1 / 2000 ↔ ¬IsFlattened x) ∧ (|x.worth| ≤ 499999 → ¬IsFlattened x) ∧
        (IsFlattened x → ∃ n, x.round = .ok n ∧ text = integerText n) ∧
          ∀ n : ℤ, x.worth = n → text = integerText n := by
  obtain ⟨s, a, rfl⟩ := isFinite_iff.1 hx
  have htext := numberText_finite s a
  refine ⟨_, _, htext, denoted?_thousandthsText s a.thousandths, ⟨_, rfl⟩, abs_written_sub_le_iff s a,
    not_isFlattened_of_small hx, fun hflat => ?_, fun n hn => ?_⟩
  · have hnear := ((isFlattened_iff s a).1 hflat).1
    exact ⟨_, rfl, Except.ok.inj (htext.symm.trans (numberText_of_near s hnear))⟩
  · exact Except.ok.inj (htext.symm.trans (numberText_of_integer hx hn))

/-- The tolerance for integers is just not enough for this number. -/
theorem numberText_accurate_iff_half_a_million :
    ∃ value, numberText 499998.9994 = .ok "499998.999" ∧ denoted? "499998.999" = some value ∧
      |value - worth 499998.9994| ≤ 1 / 2000 := by
  have htext : numberText 499998.9994 = .ok "499998.999" := by decide +kernel
  have hsmall : |worth 499998.9994| ≤ 499999 := (abs_worth_le_iff _ 499999).2 (by decide +kernel)
  obtain ⟨text, value, h, hvalue, -, hiff, hnot, -⟩ := numberText_accurate_iff (x := 499998.9994) (by decide +kernel)
  cases htext.symm.trans h
  exact ⟨value, htext, hvalue, hiff.2 (hnot hsmall)⟩

/-- A number with a half is written as an integer, half of one away from it. -/
theorem numberText_flattened :
    ∃ value, numberText 1000000000.5 = .ok "1000000000" ∧ denoted? "1000000000" = some value ∧
      worth 1000000000.5 = 1000000000 + 1 / 2 ∧ ¬|value - worth 1000000000.5| ≤ 1 / 2000 := by
  have htext : numberText 1000000000.5 = .ok "1000000000" := by decide +kernel
  have hexact : (1000000000.5 : Binary64).exact * 2 = 2000000001 * unitsPerOne := by decide +kernel
  have hvalue : denoted? "1000000000" = some (((1000000000 : Int) : ℚ) / 10 ^ 0) := by rfl
  have hworth : worth 1000000000.5 = 1000000000 + 1 / 2 := by
    have hcast : ((1000000000.5 : Binary64).exact : ℚ) * 2 = 2000000001 * unitsPerOne := by exact_mod_cast hexact
    rw [worth, div_eq_iff cast_unitsPerOne_pos.ne']
    linarith
  refine ⟨_, htext, hvalue, hworth, ?_⟩
  rw [hworth]
  norm_num [abs_div]

/-! ## The form -/

/-- What is written for a finite number is a canonical numeral, and that of zero for all that is rounded to zero;
for infinities and NaN nothing is written. -/
theorem numberText_canonical :
    (∀ s a, ∃ text, numberText (.finite s a) = .ok text ∧ IsCanonical text ∧
      (text = "0" ↔ |worth (.finite s a)| ≤ 1 / 2000)) ∧
      (∀ s, numberText (.infinite s) = .error .infinityToInteger) ∧ numberText .nan = .error .nanToInteger := by
  refine ⟨fun s a => ?_, fun _ => rfl, rfl⟩
  refine ⟨_, numberText_finite s a, isCanonical_thousandthsText s a.thousandths, ?_⟩
  rw [thousandthsText_eq_zero_iff, Magnitude.thousandths_eq_zero_iff, abs_worth, exact, natAbs_signed,
    div_le_div_iff₀ cast_unitsPerOne_pos (by norm_num), one_mul, mul_comm]
  exact_mod_cast Iff.rfl

/-! ## The order -/

theorem signed_thousandths_le {s t : Bool} {a b : Magnitude} (h : signed s a.units ≤ signed t b.units) :
    signed s a.thousandths ≤ signed t b.thousandths := by
  cases s with
  | false =>
    cases t with
    | false =>
      have hmono := Magnitude.thousandths_mono (a := a) (b := b) (Int.ofNat_le.1 h)
      rw [signed_false, signed_false]
      omega
    | true =>
      -- a number without a sign is no larger than one with a sign only if both are zero
      rw [signed_false, signed_true] at h ⊢
      have hzero := (Magnitude.thousandths_eq_zero_iff a).2 (by omega)
      have hzero' := (Magnitude.thousandths_eq_zero_iff b).2 (by omega)
      omega
  | true =>
    cases t with
    | false =>
      rw [signed_true, signed_false]
      omega
    | true =>
      rw [signed_true, signed_true] at h ⊢
      have hmono := Magnitude.thousandths_mono (a := b) (b := a) (by omega)
      omega

/-- What is written for a number denotes no more than what is written for a larger number. -/
theorem numberText_mono (hx : x.isFinite = true) (hy : y.isFinite = true) (h : x ≤ y) :
    ∃ text text' value value', numberText x = .ok text ∧ numberText y = .ok text' ∧
      denoted? text = some value ∧ denoted? text' = some value' ∧ value ≤ value' := by
  have hexact := (le_iff_exact hx hy).1 h
  obtain ⟨s, a, rfl⟩ := isFinite_iff.1 hx
  obtain ⟨t, b, rfl⟩ := isFinite_iff.1 hy
  refine ⟨_, _, _, _, numberText_finite s a, numberText_finite t b, denoted?_thousandthsText s a.thousandths,
    denoted?_thousandthsText t b.thousandths, ?_⟩
  rw [div_le_div_iff_of_pos_right (by norm_num)]
  exact_mod_cast signed_thousandths_le hexact

/-- Two numbers that have the same thousandths, of which one is written as an integer. -/
theorem numberText_mono_at_tolerance :
    (699999.9992 : Binary64) ≤ 699999.9994 ∧ numberText 699999.9992 = .ok "699999.999" ∧
      numberText 699999.9994 = .ok "700000" ∧
      ∃ value value', denoted? "699999.999" = some value ∧ denoted? "700000" = some value' ∧ value ≤ value' := by
  have hle : (699999.9992 : Binary64) ≤ 699999.9994 := by decide +kernel
  have htext : numberText 699999.9992 = .ok "699999.999" := by decide +kernel
  have htext' : numberText 699999.9994 = .ok "700000" := by decide +kernel
  obtain ⟨_, _, value, value', h, h', hvalue, hvalue', hmono⟩ :=
    numberText_mono (by decide +kernel) (by decide +kernel) hle
  cases htext.symm.trans h
  cases htext'.symm.trans h'
  exact ⟨hle, htext, htext', value, value', hvalue, hvalue', hmono⟩

end Pinboard.Binary64
