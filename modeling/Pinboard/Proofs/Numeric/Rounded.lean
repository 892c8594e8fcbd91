import Mathlib.Tactic.Linarith
import Pinboard.Proofs.Numeric.Nearest
import Pinboard.Proofs.Numeric.Worth

/-!
# What a rational number is rounded to

`Binary64.IsRounding` says which number of the format stands for a rational number, without saying how it is found: the
nearest one, of two equally near ones that with an even last place, and none from `overflowBound` on. There is at most
one such number (`IsRounding.unique`). Main statement: it is the one that quotients of units are rounded to, and where
there is none the rounding is not finite (`isRounding_iff_rounded`).
-/

namespace Pinboard

variable {n d m k e : Nat}

/-! ## Distances -/

/-- How far `m` is from `n / d`, in parts of one `d`-th. -/
def gap (m n d : Nat) : Nat := ((m * d : Nat) - (n : Int)).natAbs

theorem gap_mul (k p n d : Nat) : gap (k * p) n d = gap k n (d * p) := by
  rw [gap, gap, Nat.mul_assoc, Nat.mul_comm p d]

/-- Two integers are one apart at least, so that they cannot both be near. -/
theorem le_gap_add_gap (hne : k ≠ m) (n d : Nat) : d ≤ gap k n d + gap m n d := by
  unfold gap
  rcases Nat.lt_or_gt_of_ne hne with hlt | hgt
  · have hstep := Nat.mul_le_mul_right d hlt
    rw [Nat.succ_mul] at hstep
    omega
  · have hstep := Nat.mul_le_mul_right d hgt
    rw [Nat.succ_mul] at hstep
    omega

theorem two_mul_gap_roundQuotient_le (hd : 0 < d) : 2 * gap (roundQuotient n d) n d ≤ d := by
  have hupper := two_mul_roundQuotient_mul_le n d
  have hlower := le_two_mul_roundQuotient_mul n hd
  unfold gap
  omega

/-- No integer is nearer to a quotient than the one it is rounded to. -/
theorem gap_roundQuotient_le (hd : 0 < d) (k : Nat) : gap (roundQuotient n d) n d ≤ gap k n d := by
  by_cases hk : k = roundQuotient n d
  · rw [hk]
  · have hapart := le_gap_add_gap hk n d
    have hhalf := two_mul_gap_roundQuotient_le (n := n) hd
    omega

/-- A half goes to the even neighbour. -/
theorem even_roundQuotient (hd : 0 < d) (hk : k ≠ roundQuotient n d) (h : gap k n d ≤ gap (roundQuotient n d) n d) :
    2 ∣ roundQuotient n d := by
  have hhalf : d ≤ 2 * gap (roundQuotient n d) n d := by
    have hapart := le_gap_add_gap hk n d
    omega
  have hdiv := Nat.div_add_mod n d
  have hmod := Nat.mod_lt n hd
  have hnext := Nat.succ_mul (n / d) d
  rw [Nat.mul_comm] at hdiv
  revert hhalf
  simp only [roundQuotient, gap]
  split
  next hdown =>
    intro hhalf
    omega
  next hup =>
    intro hhalf
    rw [hnext] at hhalf
    omega

/-! ## The last place -/

theorem log2_sub_le (h : m < Nat.pow 2 (53 + e)) : m.log2 - 52 ≤ e := by
  by_cases h0 : m = 0
  · rw [h0, Nat.log2_zero]
    exact Nat.zero_le e
  · have hlog : m.log2 < 53 + e := (Nat.log2_lt h0).2 h
    omega

/-- The weight of the last place of a magnitude. -/
def lastPlace (m : Nat) : Nat := Nat.pow 2 (m.log2 - 52)

/-- The last place of a magnitude is even. -/
def IsEvenMagnitude (m : Nat) : Prop := 2 * lastPlace m ∣ m

theorem lastPlace_dvd (h : Representable m) : lastPlace m ∣ m := by
  by_cases h0 : m.log2 - 52 = 0
  · rw [lastPlace, h0]
    exact Nat.one_dvd m
  · have hm : m ≠ 0 := by
      rintro rfl
      rw [Nat.log2_zero] at h0
      exact h0 rfl
    refine twoPow_dvd_of_representable h ?_
    have hlog : 52 + (m.log2 - 52) = m.log2 := by omega
    rw [hlog]
    exact Nat.log2_self_le hm

/-- Larger magnitudes have a wider last place. -/
theorem lastPlace_dvd_lastPlace (h : m ≤ k) : lastPlace m ∣ lastPlace k := by
  refine Nat.pow_dvd_pow 2 (Nat.sub_le_sub_right ?_ 52)
  by_cases hm : m = 0
  · rw [hm, Nat.log2_zero]
    exact Nat.zero_le _
  · exact (Nat.le_log2 (by omega)).2 (Nat.le_trans (Nat.log2_self_le hm) h)

/-- A magnitude is on a grid, unless it is below the first full significand of the grid. -/
theorem grid_or_below (h : Representable m) (e : Nat) :
    (∃ k, m = k * Nat.pow 2 e) ∨ 0 < e ∧ m < Nat.pow 2 52 * Nat.pow 2 e := by
  rcases Nat.lt_or_ge m (Nat.pow 2 52 * Nat.pow 2 e) with hlt | hge
  · rcases Nat.eq_zero_or_pos e with rfl | he
    · exact .inl ⟨m, (Nat.mul_one m).symm⟩
    · exact .inr ⟨he, hlt⟩
  · rw [← twoPow_add] at hge
    obtain ⟨k, hk⟩ := twoPow_dvd_of_representable h hge
    exact .inl ⟨k, hk.trans (Nat.mul_comm _ _)⟩

/-- An even significand of a grid is an even magnitude. -/
theorem isEvenMagnitude_mul (hk : k ≤ Nat.pow 2 53) (heven : 2 ∣ k) : IsEvenMagnitude (k * Nat.pow 2 e) := by
  rcases Nat.lt_or_eq_of_le hk with hlt | rfl
  · have hle := log2_sub_le (mul_twoPow_lt e hlt)
    exact Nat.mul_dvd_mul heven (Nat.pow_dvd_pow 2 hle)
  · have hlog : (Nat.pow 2 53 * Nat.pow 2 e).log2 - 52 = e + 1 := by
      have hpow : (Nat.pow 2 (53 + e)).log2 = 53 + e := Nat.log2_two_pow
      rw [← twoPow_add, hpow]
      omega
    have hdvd : Nat.pow 2 (e + 1 + 1) ∣ Nat.pow 2 (53 + e) := Nat.pow_dvd_pow 2 (by omega)
    rw [IsEvenMagnitude, lastPlace, hlog, ← twoPow_succ, ← twoPow_add]
    exact hdvd

/-! ## Rounded magnitudes -/

/-- Below the grid of a quotient all magnitudes are further away than what it is rounded to. -/
theorem gap_lt_of_below (hd : 0 < d) (he : 0 < spacingExponent n d)
    (hm : m < Nat.pow 2 52 * Nat.pow 2 (spacingExponent n d)) : gap (roundedUnits n d) n d < gap m n d := by
  have hfull := twoPow_le_div he
  rw [twoPow_add, Nat.le_div_iff_mul_le hd] at hfull
  have hnearest := gap_roundQuotient_le (n := n) (Nat.mul_pos hd (twoPow_pos (spacingExponent n d))) (Nat.pow 2 52)
  rw [← gap_mul, ← gap_mul] at hnearest
  have hlt := Nat.mul_lt_mul_of_pos_right hm hd
  rw [roundedUnits]
  unfold gap at hnearest ⊢
  omega

/-- No magnitude is nearer to a quotient than the one it is rounded to. -/
theorem gap_roundedUnits_le (hd : 0 < d) (hm : Representable m) : gap (roundedUnits n d) n d ≤ gap m n d := by
  rcases grid_or_below hm (spacingExponent n d) with ⟨k, rfl⟩ | ⟨he, hlt⟩
  · rw [roundedUnits, gap_mul, gap_mul]
    exact gap_roundQuotient_le (Nat.mul_pos hd (twoPow_pos _)) k
  · exact Nat.le_of_lt (gap_lt_of_below hd he hlt)

/-- If another magnitude is as near, what a quotient is rounded to is even. -/
theorem isEvenMagnitude_roundedUnits (hd : 0 < d) (hm : Representable m) (hne : m ≠ roundedUnits n d)
    (hle : gap m n d ≤ gap (roundedUnits n d) n d) : IsEvenMagnitude (roundedUnits n d) := by
  rcases grid_or_below hm (spacingExponent n d) with ⟨k, rfl⟩ | ⟨he, hlt⟩
  · rw [roundedUnits, gap_mul, gap_mul] at hle
    have hk : k ≠ roundQuotient n (d * Nat.pow 2 (spacingExponent n d)) := by
      rintro rfl
      exact hne rfl
    refine isEvenMagnitude_mul ?_ (even_roundQuotient (Nat.mul_pos hd (twoPow_pos _)) hk hle)
    exact Nat.le_trans (roundQuotient_le _ _) (div_spacing_lt n d)
  · exact absurd hle (Nat.not_le.2 (gap_lt_of_below hd he hlt))

/-- Between two even magnitudes there is another one. -/
theorem exists_between_of_even (hm : Representable m) (hk : Representable k) (hlt : m < k) (hmeven : IsEvenMagnitude m)
    (hkeven : IsEvenMagnitude k) : ∃ c, Representable c ∧ m < c ∧ c < k := by
  have hpos : 0 < lastPlace m := twoPow_pos _
  have hdvd := lastPlace_dvd_lastPlace (Nat.le_of_lt hlt)
  obtain ⟨i, hi⟩ := hmeven
  obtain ⟨j, hj⟩ := Nat.dvd_trans (Nat.mul_dvd_mul_left 2 hdvd) hkeven
  -- the two are apart by an even number of last places
  have hij : i < j := by
    rw [hi, hj] at hlt
    exact Nat.lt_of_mul_lt_mul_left hlt
  have hstep := Nat.mul_le_mul_left (2 * lastPlace m) hij
  rw [Nat.mul_succ, ← hi, ← hj] at hstep
  obtain ⟨s, hs⟩ := lastPlace_dvd hm
  have hsmall : s < Nat.pow 2 53 := by
    refine Nat.lt_of_mul_lt_mul_left (a := lastPlace m) ?_
    rw [← hs, lastPlace, Nat.mul_comm, ← twoPow_add]
    refine Nat.lt_of_lt_of_le (lt_twoPow_log2_succ m) (twoPow_le (by omega))
  have hnext : m + lastPlace m = (s + 1) * Nat.pow 2 (m.log2 - 52) := by
    rw [Nat.add_mul, Nat.one_mul, Nat.mul_comm]
    exact congrArg (· + lastPlace m) hs
  have hrange : m + lastPlace m < unitLimit := by
    have hlimit := hk.1
    omega
  refine ⟨m + lastPlace m, ?_, by omega, by omega⟩
  rw [hnext] at hrange ⊢
  exact representable_mul_pow hsmall hrange

/-! ## The end of the range -/

/-- Half way between the largest number and two to the power 1024; from here on nothing is rounded to a finite number. -/
def overflowBound : Nat := Nat.pow 2 1024 - Nat.pow 2 970

theorem unitLimit_le_roundedUnits (hd : 0 < d) (h : overflowBound * unitsPerOne * d ≤ n) :
    unitLimit ≤ roundedUnits n d := by
  have htie : unitLimit ≤ roundedUnits (overflowBound * unitsPerOne) 1 := by decide +kernel
  refine Nat.le_trans htie (roundedUnits_mono Nat.one_pos hd ?_)
  rw [Nat.mul_one]
  exact h

/-- A quotient that misses the last significand by less than a half is not rounded beyond it. -/
theorem roundQuotient_lt_of_lt (h : n < (Nat.pow 2 54 - 1) * Nat.pow 2 e * d) :
    roundQuotient n (d * Nat.pow 2 (e + 1)) < Nat.pow 2 53 := by
  have hwide : d * Nat.pow 2 (e + 1) = 2 * (Nat.pow 2 e * d) := by
    rw [twoPow_succ, Nat.mul_comm d, Nat.mul_assoc]
  have hpow : Nat.pow 2 53 = 9007199254740992 := rfl
  have hpow' : Nat.pow 2 54 = 18014398509481984 := rfl
  rw [hpow', Nat.mul_assoc] at h
  rw [hwide, hpow]
  generalize Nat.pow 2 e * d = half at h ⊢
  have hupper := two_mul_roundQuotient_mul_le n (2 * half)
  refine Nat.lt_of_not_le fun hle => ?_
  have hmul := Nat.mul_le_mul_right (2 * half) hle
  omega

/-- What misses the last significand of a spacing by less than a half is rounded to a magnitude below its end. -/
theorem roundedUnits_lt_twoPow (hlt : n < (Nat.pow 2 54 - 1) * Nat.pow 2 e * d) :
    roundedUnits n d < Nat.pow 2 (53 + (e + 1)) := by
  have hle : (Nat.pow 2 54 - 1) * Nat.pow 2 e ≤ Nat.pow 2 (53 + (e + 1)) := by
    have hend : Nat.pow 2 (53 + (e + 1)) = Nat.pow 2 54 * Nat.pow 2 e := by
      rw [← twoPow_add]
      exact congrArg (Nat.pow 2) (by omega)
    rw [hend]
    exact Nat.mul_le_mul_right _ (Nat.sub_le _ _)
  have hspacing : spacingExponent n d ≤ e + 1 := by
    refine log2_sub_le (Nat.div_lt_of_lt_mul (Nat.lt_of_lt_of_le hlt ?_))
    rw [Nat.mul_comm]
    exact Nat.mul_le_mul_left d hle
  rcases Nat.lt_or_eq_of_le hspacing with hnarrow | hwide
  · exact Nat.lt_of_le_of_lt (roundedUnits_le_twoPow n d) (twoPow_lt (by omega))
  · rw [roundedUnits, hwide]
    exact mul_twoPow_lt (e + 1) (roundQuotient_lt_of_lt hlt)

theorem roundedUnits_lt_unitLimit (h : n < overflowBound * unitsPerOne * d) : roundedUnits n d < unitLimit := by
  obtain ⟨e, hbound, hlimit⟩ : ∃ e, overflowBound * unitsPerOne = (Nat.pow 2 54 - 1) * Nat.pow 2 e ∧
      Nat.pow 2 (53 + (e + 1)) = unitLimit := ⟨2044, by decide +kernel, by decide +kernel⟩
  rw [hbound] at h
  rw [← hlimit]
  exact roundedUnits_lt_twoPow h

theorem roundedUnits_lt_unitLimit_iff (hd : 0 < d) :
    roundedUnits n d < unitLimit ↔ n < overflowBound * unitsPerOne * d :=
  ⟨fun h => Nat.lt_of_not_le fun hge => Nat.not_lt.2 (unitLimit_le_roundedUnits hd hge) h,
    roundedUnits_lt_unitLimit⟩

/-! ## Rational numbers -/

/-- How far a magnitude is from a quotient of units. -/
theorem abs_units_sub (hd : 0 < d) (m n : Nat) :
    |(m : ℚ) / unitsPerOne - n / (d * unitsPerOne)| = gap m n d / (d * unitsPerOne) := by
  have hd' : (0 : ℚ) < d := by exact_mod_cast hd
  have hpos := mul_pos hd' Binary64.cast_unitsPerOne_pos
  have hcast : (gap m n d : ℚ) = |(m : ℚ) * d - n| := by
    rw [gap, Nat.cast_natAbs]
    push_cast
    rfl
  have hsub : (m : ℚ) / unitsPerOne - n / (d * unitsPerOne) = (m * d - n) / (d * unitsPerOne) := by
    rw [sub_div, mul_comm (d : ℚ), mul_div_mul_right _ _ hd'.ne']
  rw [hsub, abs_div, abs_of_pos hpos, hcast]

namespace Binary64

variable {x y : Binary64} {s : Bool} {q : ℚ}

/-- A number of the format with the given sign is what a rational number is rounded to. -/
structure IsRounding (s : Bool) (q : ℚ) (x : Binary64) : Prop where
  sign : ∃ a, x = .finite s a
  inRange : |q| < overflowBound
  nearest : ∀ y : Binary64, y.isFinite = true → |x.worth - q| ≤ |y.worth - q|
  /-- Where another number with the sign is as near, the last place is even. -/
  even : ∀ b : Magnitude, .finite s b ≠ x → |(finite s b).worth - q| ≤ |x.worth - q| → IsEvenMagnitude x.exact.natAbs

theorem worth_finite (s : Bool) (a : Magnitude) : (finite s a).worth = (signed s a.units : ℚ) / unitsPerOne := rfl

/-- Numbers with one sign are in the order of their magnitudes, or in the reverse order. -/
theorem worth_between (s : Bool) {a b c : Magnitude} (hac : a.units < c.units) (hcb : c.units < b.units) :
    (finite s a).worth < (finite s c).worth ∧ (finite s c).worth < (finite s b).worth ∨
      (finite s b).worth < (finite s c).worth ∧ (finite s c).worth < (finite s a).worth := by
  simp only [worth_finite, div_lt_div_iff_of_pos_right cast_unitsPerOne_pos, Int.cast_lt]
  cases s with
  | false => simp only [signed_false]; omega
  | true => simp only [signed_true]; omega

/-- What lies between two numbers that are equally near is nearer. -/
theorem abs_sub_lt_of_between {u v w : ℚ} (h : |u - q| = |v - q|) (hw : u < w ∧ w < v ∨ v < w ∧ w < u) :
    |w - q| < |u - q| := by
  rcases abs_cases (u - q) with hu | hu <;> rcases abs_cases (v - q) with hv | hv <;>
    rcases abs_cases (w - q) with hw' | hw' <;> rcases hw with hw | hw <;> linarith

/-- Two even magnitudes are not equally near without a nearer one. -/
theorem not_nearest_of_even {a b : Magnitude} (hlt : a.units < b.units) (ha : IsEvenMagnitude a.units)
    (hb : IsEvenMagnitude b.units) (h : |(finite s a).worth - q| = |(finite s b).worth - q|) :
    ∃ y : Binary64, y.isFinite = true ∧ |y.worth - q| < |(finite s a).worth - q| := by
  obtain ⟨c, hc, hac, hcb⟩ := exists_between_of_even a.representable b.representable hlt ha hb
  exact ⟨finite s ⟨c, hc⟩, rfl, abs_sub_lt_of_between h (worth_between s hac hcb)⟩

/-- There is only one number that a rational number is rounded to. -/
theorem IsRounding.unique (hx : IsRounding s q x) (hy : IsRounding s q y) : x = y := by
  obtain ⟨a, rfl⟩ := hx.sign
  obtain ⟨b, rfl⟩ := hy.sign
  by_contra hne
  have hsame := le_antisymm (hx.nearest _ rfl) (hy.nearest _ rfl)
  have hxeven := hx.even b (Ne.symm hne) hsame.ge
  have hyeven := hy.even a hne hsame.le
  rw [exact, natAbs_signed] at hxeven hyeven
  rcases Nat.lt_trichotomy a.units b.units with hlt | heq | hgt
  · obtain ⟨z, hz, hnear⟩ := not_nearest_of_even hlt hxeven hyeven hsame
    exact absurd (hx.nearest z hz) (not_le.2 hnear)
  · obtain ⟨m, hm⟩ := a
    obtain ⟨k, hk⟩ := b
    cases heq
    exact hne rfl
  · obtain ⟨z, hz, hnear⟩ := not_nearest_of_even hgt hyeven hxeven hsame.symm
    exact absurd (hy.nearest z hz) (not_le.2 hnear)

/-! ## Rounding -/

/-- A quotient of units with a sign, as a rational number. -/
def quotientOfUnits (s : Bool) (n d : Nat) : ℚ := (signed s n : ℚ) / (d * unitsPerOne)

theorem abs_quotientOfUnits (s : Bool) (n d : Nat) : |quotientOfUnits s n d| = n / (d * unitsPerOne) := by
  have habs : |(signed s n : ℚ)| = n := by
    rw [← Int.cast_abs, ← Int.natCast_natAbs, natAbs_signed, Int.cast_natCast]
  have hpos : (0 : ℚ) ≤ d * unitsPerOne := by exact_mod_cast Nat.zero_le _
  rw [quotientOfUnits, abs_div, habs, abs_of_nonneg hpos]

theorem abs_quotientOfUnits_lt_iff (hd : 0 < d) (s : Bool) (n : Nat) :
    |quotientOfUnits s n d| < overflowBound ↔ roundedUnits n d < unitLimit := by
  have hpos : (0 : ℚ) < d * unitsPerOne := mul_pos (by exact_mod_cast hd) cast_unitsPerOne_pos
  rw [abs_quotientOfUnits, div_lt_iff₀ hpos, roundedUnits_lt_unitLimit_iff hd, Nat.mul_assoc,
    Nat.mul_comm unitsPerOne]
  exact_mod_cast Iff.rfl

/-- How far a number with the sign of a quotient is from it. -/
theorem abs_worth_sub_quotient (hd : 0 < d) (a : Magnitude) (n : Nat) :
    |(finite s a).worth - quotientOfUnits s n d| = gap a.units n d / (d * unitsPerOne) := by
  rw [worth_finite, quotientOfUnits, abs_signed_sub, abs_units_sub hd]

/-- With another sign a number is no nearer than with the sign of the quotient. -/
theorem le_abs_worth_sub_quotient (hd : 0 < d) (hy : y.isFinite = true) (n : Nat) :
    ∃ b : Magnitude, (gap b.units n d : ℚ) / (d * unitsPerOne) ≤ |y.worth - quotientOfUnits s n d| := by
  obtain ⟨t, b, rfl⟩ := isFinite_iff.1 hy
  refine ⟨b, ?_⟩
  have habs := abs_abs_sub_abs_le (finite t b).worth (quotientOfUnits s n d)
  rwa [abs_quotientOfUnits, abs_worth, exact, natAbs_signed, abs_units_sub hd] at habs

theorem isRounding_rounded (hd : 0 < d) (h : roundedUnits n d < unitLimit) :
    IsRounding s (quotientOfUnits s n d) (rounded s n d) := by
  have hpos : (0 : ℚ) < d * unitsPerOne := mul_pos (by exact_mod_cast hd) cast_unitsPerOne_pos
  rw [rounded, dif_pos h]
  refine ⟨⟨_, rfl⟩, (abs_quotientOfUnits_lt_iff hd s n).2 h, fun y hy => ?_, fun b hne hle => ?_⟩
  · obtain ⟨b, hb⟩ := le_abs_worth_sub_quotient (s := s) hd hy n
    refine LE.le.trans ?_ hb
    rw [abs_worth_sub_quotient hd, div_le_div_iff_of_pos_right hpos]
    exact_mod_cast gap_roundedUnits_le hd b.representable
  · rw [abs_worth_sub_quotient hd, abs_worth_sub_quotient hd, div_le_div_iff_of_pos_right hpos] at hle
    rw [exact, natAbs_signed]
    refine isEvenMagnitude_roundedUnits hd b.representable (fun heq => hne ?_) (by exact_mod_cast hle)
    obtain ⟨m, hm⟩ := b
    cases heq
    rfl

/-- What a quotient of units is rounded to is what `IsRounding` says, and it is not finite if there is no such number. -/
theorem isRounding_iff_rounded (hd : 0 < d) :
    IsRounding s (quotientOfUnits s n d) x ↔ x = rounded s n d ∧ x.isFinite = true := by
  constructor
  · intro h
    have hrounded := isRounding_rounded (s := s) hd ((abs_quotientOfUnits_lt_iff hd s n).1 h.inRange)
    obtain ⟨a, ha⟩ := h.sign
    exact ⟨h.unique hrounded, isFinite_iff.2 ⟨s, a, ha⟩⟩
  · rintro ⟨hx, hfinite⟩
    rw [hx] at hfinite ⊢
    exact isRounding_rounded hd (rounded_isFinite_iff.1 hfinite)

/-! ## Decimals -/

theorem quotientOfUnits_decimal (s : Bool) (digits places : Nat) :
    quotientOfUnits s (digits * unitsPerOne) (Nat.pow 10 places) = (signed s digits : ℚ) / 10 ^ places := by
  have hten : ((Nat.pow 10 places : Nat) : ℚ) = 10 ^ places := by exact_mod_cast rfl
  rw [quotientOfUnits, signed_mul, hten, Int.cast_mul, Int.cast_natCast,
    mul_div_mul_right _ _ cast_unitsPerOne_pos.ne']

section
variable (digits places : Nat)

/-- A decimal is read as what it is rounded to. -/
theorem isRounding_iff_ofDecimal :
    IsRounding s (signed s digits / 10 ^ places) x ↔ x = ofDecimal s digits places ∧ x.isFinite = true := by
  have hpos : 0 < Nat.pow 10 places := Nat.pow_pos (by decide)
  rw [← quotientOfUnits_decimal, isRounding_iff_rounded hpos, ofDecimal]

theorem isFinite_ofDecimal_iff :
    (ofDecimal s digits places).isFinite = true ↔ |(signed s digits : ℚ) / 10 ^ places| < overflowBound := by
  have hpos : 0 < Nat.pow 10 places := Nat.pow_pos (by decide)
  rw [← quotientOfUnits_decimal, abs_quotientOfUnits_lt_iff hpos, ofDecimal, rounded_isFinite_iff]

end

end Binary64
end Pinboard
