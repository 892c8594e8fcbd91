import Pinboard.Numeric.Decimal
import Pinboard.Proofs.Numeric.Order

/-!
# How near a number is to an integer

The distance of a number from the nearest integer is a number itself (`Magnitude.representable_distance`), so it is
compared with the tolerance without an error of its own. Main statement: whether a number is close to the nearest
integer is a comparison of its distance with what the format makes of the tolerance (`isClose_nearest_iff`).
-/

namespace Pinboard

/-! ## Rounded quotients -/

section
variable {n m d : Nat} (hd : 0 < d)

include hd

theorem le_roundQuotient (h : n * d ≤ m) : n ≤ roundQuotient m d := by
  rw [← roundQuotient_mul_right n hd]
  exact roundQuotient_mono hd hd (Nat.mul_le_mul_right d h)

theorem roundQuotient_le_of_le_mul (h : m ≤ n * d) : roundQuotient m d ≤ n := by
  rw [← roundQuotient_mul_right n hd]
  exact roundQuotient_mono hd hd (Nat.mul_le_mul_right d h)

/-- Up to a half everything is rounded to zero, which is even. -/
theorem roundQuotient_eq_zero_iff : roundQuotient m d = 0 ↔ 2 * m ≤ d := by
  constructor
  · intro h
    have hle := le_two_mul_roundQuotient_mul m hd
    rw [h] at hle
    omega
  · intro h
    rw [roundQuotient, Nat.div_eq_of_lt (by omega), Nat.mod_eq_of_lt (by omega)]
    exact if_pos (by omega)

end

/-! ## Grids of magnitudes -/

/-- From a power of two on, all magnitudes are on one grid. -/
theorem twoPow_dvd_of_representable {m k : Nat} (h : Representable m) (hm : Nat.pow 2 (52 + k) ≤ m) :
    Nat.pow 2 k ∣ m := by
  obtain ⟨-, s, e, hs, rfl⟩ := h
  have hk : k ≤ e := by
    refine Nat.le_of_not_lt fun hlt => ?_
    have hpow : Nat.pow 2 (53 + e) ≤ Nat.pow 2 (52 + k) := twoPow_le (by omega)
    exact Nat.lt_irrefl _ (Nat.lt_of_lt_of_le (mul_twoPow_lt e hs) (Nat.le_trans hpow hm))
  obtain ⟨j, rfl⟩ := Nat.exists_eq_add_of_le hk
  refine ⟨s * Nat.pow 2 j, ?_⟩
  rw [twoPow_add]
  ac_rfl

/-- The magnitudes from a half on are multiples of two to this power. -/
@[irreducible]
def halfExponent : Nat := 1021

/-- The magnitudes from a half on are multiples of this. -/
def halfSpacing : Nat := Nat.pow 2 halfExponent

theorem unitExponent_eq : unitExponent = 53 + halfExponent := by
  unfold halfExponent
  rfl

theorem unitsPerOne_eq_mul : unitsPerOne = Nat.pow 2 53 * halfSpacing := by
  unfold unitsPerOne halfSpacing
  rw [unitExponent_eq, twoPow_add]

theorem halfSpacing_dvd {m : Nat} (h : Representable m) (hm : unitsPerOne ≤ 2 * m) : halfSpacing ∣ m := by
  have hpow : Nat.pow 2 (52 + halfExponent) = Nat.pow 2 52 * halfSpacing := twoPow_add 52 halfExponent
  have hdouble : Nat.pow 2 53 = 2 * Nat.pow 2 52 := twoPow_succ 52
  rw [unitsPerOne_eq_mul, hdouble, Nat.mul_assoc] at hm
  exact twoPow_dvd_of_representable h (Nat.le_trans (Nat.le_of_eq hpow) (Nat.le_of_mul_le_mul_left hm Nat.two_pos))

/-- From one on, the magnitudes are on a grid that is twice as wide. -/
theorem two_mul_halfSpacing_dvd {m : Nat} (h : Representable m) (hm : unitsPerOne ≤ m) : 2 * halfSpacing ∣ m := by
  have hpow : Nat.pow 2 (halfExponent + 1) = 2 * halfSpacing := twoPow_succ halfExponent
  rw [← hpow]
  refine twoPow_dvd_of_representable h (Nat.le_trans (Nat.le_of_eq ?_) hm)
  rw [twoPow_add, hpow, unitsPerOne_eq_mul, ← Nat.mul_assoc]

/-- What is on the grid of a half, and no larger than one, is a magnitude. -/
theorem representable_of_halfSpacing_dvd {n : Nat} (hdvd : halfSpacing ∣ n) (hle : n ≤ unitsPerOne) :
    Representable n := by
  obtain ⟨q, rfl⟩ := hdvd
  have hlt : unitsPerOne < unitLimit := by
    unfold unitsPerOne
    exact two_pow_lt_unitLimit (by decide)
  have hrange := Nat.lt_of_le_of_lt hle hlt
  rw [unitsPerOne_eq_mul, Nat.mul_comm] at hle
  rw [Nat.mul_comm] at hrange ⊢
  exact representable_mul_pow (Nat.le_of_mul_le_mul_right hle (twoPow_pos halfExponent)) hrange

namespace Magnitude

variable {a b : Magnitude}

/-! ## The nearest integer -/

/-- The integer nearest to a magnitude. -/
def nearest (a : Magnitude) : Nat := roundQuotient a.units unitsPerOne

/-- How far a magnitude is from the nearest integer, in units. -/
def distance (a : Magnitude) : Nat := ((a.nearest * unitsPerOne : Nat) - (a.units : Int)).natAbs

theorem nearest_bounds (a : Magnitude) :
    2 * (a.nearest * unitsPerOne) ≤ 2 * a.units + unitsPerOne ∧
      2 * a.units ≤ 2 * (a.nearest * unitsPerOne) + unitsPerOne :=
  ⟨two_mul_roundQuotient_mul_le _ _, le_two_mul_roundQuotient_mul _ unitsPerOne_pos⟩

theorem nearest_mono (h : a.units ≤ b.units) : a.nearest ≤ b.nearest :=
  roundQuotient_mono unitsPerOne_pos unitsPerOne_pos (Nat.mul_le_mul_right _ h)

theorem le_nearest {n : Nat} (h : n * unitsPerOne ≤ a.units) : n ≤ a.nearest :=
  le_roundQuotient unitsPerOne_pos h

theorem nearest_le {n : Nat} (h : a.units ≤ n * unitsPerOne) : a.nearest ≤ n :=
  roundQuotient_le_of_le_mul unitsPerOne_pos h

theorem nearest_eq {n : Nat} (h : a.units = n * unitsPerOne) : a.nearest = n := by
  rw [nearest, h, roundQuotient_mul_right n unitsPerOne_pos]

theorem distance_eq_units (h : a.nearest = 0) : a.distance = a.units := by
  rw [distance, h, Nat.zero_mul]
  omega

/-- Magnitudes that are this large are integers. -/
theorem unitsPerOne_dvd (h : Nat.pow 2 53 < a.nearest) : unitsPerOne ∣ a.units := by
  have hmul : (Nat.pow 2 53 + 1) * unitsPerOne ≤ a.nearest * unitsPerOne := Nat.mul_le_mul_right _ h
  have hlarge : Nat.pow 2 (52 + unitExponent) ≤ a.units := by
    have hbounds := a.nearest_bounds
    have hpow := twoPow_le (show 52 + unitExponent ≤ 53 + unitExponent by omega)
    rw [twoPow_add 53] at hpow
    rw [Nat.add_mul, Nat.one_mul] at hmul
    unfold unitsPerOne at hmul hbounds
    omega
  unfold unitsPerOne
  exact twoPow_dvd_of_representable a.representable hlarge

/-- The nearest integer is a number of the format. -/
theorem representable_nearest (a : Magnitude) : Representable (a.nearest * unitsPerOne) := by
  rcases Nat.lt_or_ge (Nat.pow 2 53) a.nearest with hlt | hle
  · obtain ⟨q, hq⟩ := unitsPerOne_dvd hlt
    have hunits : a.units = q * unitsPerOne := hq.trans (Nat.mul_comm _ _)
    rw [nearest_eq hunits, ← hunits]
    exact a.representable
  · have hpow := Nat.mul_le_mul_right unitsPerOne hle
    have hlt : Nat.pow 2 53 * unitsPerOne < unitLimit := by
      unfold unitsPerOne
      rw [← twoPow_add]
      exact two_pow_lt_unitLimit (by decide)
    unfold unitsPerOne at hpow hlt ⊢
    exact representable_mul_pow hle (Nat.lt_of_le_of_lt hpow hlt)

/-- The distance from the nearest integer is a number of the format. -/
theorem representable_distance (a : Magnitude) : Representable a.distance := by
  have hbounds := a.nearest_bounds
  rcases Nat.eq_zero_or_pos a.nearest with hzero | hpos
  · rw [distance_eq_units hzero]
    exact a.representable
  · have hle := Nat.le_mul_of_pos_left unitsPerOne hpos
    have hunits := halfSpacing_dvd a.representable (by omega)
    have hnearest : halfSpacing ∣ a.nearest * unitsPerOne := by
      rw [unitsPerOne_eq_mul, ← Nat.mul_assoc]
      exact Nat.dvd_mul_left _ _
    refine representable_of_halfSpacing_dvd ?_ ?_
    · exact Int.ofNat_dvd_left.1 (Int.dvd_sub (Int.ofNat_dvd.2 hnearest) (Int.ofNat_dvd.2 hunits))
    · rw [distance]
      omega

end Magnitude

/-! ## The tolerance -/

namespace Binary64

variable {x y : Binary64} {s : Bool}

/-- The relative tolerance for integers, in units. -/
def toleranceUnits : Nat := roundedUnits unitsPerOne (Nat.pow 10 9)

theorem four_mul_toleranceUnits_le : 4 * toleranceUnits ≤ unitsPerOne := by decide +kernel

theorem integerTolerance_eq :
    ∃ t : Magnitude, t.units = toleranceUnits ∧ integerTolerance = .finite false t := by
  have hlt : toleranceUnits < unitLimit := by decide +kernel
  refine ⟨⟨toleranceUnits, representable_roundedUnits hlt⟩, rfl, ?_⟩
  rw [integerTolerance, ofDecimal, Nat.one_mul]
  exact dif_pos hlt

/-- How far a number of some units may be from an integer that it counts as. -/
def allowance (units : Nat) : Nat := roundedUnits (toleranceUnits * units) unitsPerOne

theorem allowance_mono {m n : Nat} (h : m ≤ n) : allowance m ≤ allowance n :=
  roundedUnits_mono unitsPerOne_pos unitsPerOne_pos (Nat.mul_le_mul_right _ (Nat.mul_le_mul_left _ h))

theorem le_allowance_max_iff {n i j : Nat} : n ≤ allowance (max i j) ↔ n ≤ allowance i ∨ n ≤ allowance j := by
  rcases Nat.le_total i j with h | h
  · have hmono := allowance_mono h
    rw [Nat.max_eq_right h]
    omega
  · have hmono := allowance_mono h
    rw [Nat.max_eq_left h]
    omega

theorem abs_ne_nan (hx : x ≠ .nan) : x.abs ≠ .nan := by
  cases x with
  | nan => exact absurd rfl hx
  | infinite _ => simp [abs]
  | finite _ _ => simp [abs]

theorem place_abs (hx : x ≠ .nan) : x.abs.place = x.place.natAbs := by
  cases x with
  | nan => exact absurd rfl hx
  | infinite s => rw [place, natAbs_signed]; rfl
  | finite s a => rw [place, natAbs_signed]; rfl

/-- Whether a difference is small for a number is decided without an error, if the difference is a number itself. -/
theorem abs_sub_le_iff {a : Magnitude} (hx : x.isFinite = true) (hy : y.isFinite = true)
    (hexact : Representable (x.exact - y.exact).natAbs) :
    (x - y).abs ≤ (integerTolerance * .finite s a).abs ↔ (x.exact - y.exact).natAbs ≤ allowance a.units := by
  obtain ⟨t, ht, htolerance⟩ := integerTolerance_eq
  have hlt := hexact.1
  have hleft : (x - y).abs.place = (x.exact - y.exact).natAbs := by
    obtain ⟨r, hsum, -⟩ := add_eq_rounded hx ((isFinite_neg y).trans hy)
    rw [exact_neg, ← Int.sub_eq_add_neg] at hsum
    have hsame := roundedUnits_mul hexact Nat.one_pos
    rw [Nat.mul_one] at hsame
    rw [place_abs (sub_ne_nan hx hy)]
    show ((x + -y).place.natAbs : Int) = _
    rw [hsum, place_rounded, natAbs_signed, hsame, Nat.min_eq_left (Nat.le_of_lt hlt)]
  have hmul : integerTolerance * .finite s a = rounded (false ^^ s) (t.units * a.units) unitsPerOne := by
    rw [htolerance]
    show Binary64.mul _ _ = _
    rw [Binary64.mul]
  have hright : (integerTolerance * .finite s a).abs.place = (min (allowance a.units) unitLimit : Nat) := by
    rw [hmul, place_abs (rounded_ne_nan _ _ _), place_rounded, natAbs_signed, ht]
    rfl
  have hne : integerTolerance * .finite s a ≠ .nan := hmul ▸ rounded_ne_nan _ _ _
  rw [le_iff_place (abs_ne_nan (sub_ne_nan hx hy)) (abs_ne_nan hne), hleft, hright]
  omega

/-- The sign of a number has no part in its distance from the nearest integer. -/
theorem natAbs_signed_nearest_sub (s : Bool) (a : Magnitude) :
    (signed s (a.nearest * unitsPerOne) - signed s a.units).natAbs = a.distance := by
  rw [Magnitude.distance]
  cases s with
  | false => rfl
  | true =>
    rw [signed_true, signed_true]
    omega

/-- The nearest integer of a number is a number. -/
theorem exists_ofInt_nearest (s : Bool) (a : Magnitude) :
    ∃ (t : Bool) (m : Magnitude), ofInt (signed s a.nearest) = .finite t m ∧ m.units = a.nearest * unitsPerOne ∧
      signed t m.units = signed s m.units := by
  have hexact := roundedUnits_mul a.representable_nearest Nat.one_pos
  have hten : Nat.pow 10 0 = 1 := rfl
  have hlt : roundedUnits (a.nearest * unitsPerOne) 1 < unitLimit := by
    rw [Nat.mul_one] at hexact
    rw [hexact]
    exact a.representable_nearest.1
  rw [Nat.mul_one] at hexact
  rw [ofInt, ofDecimal, natAbs_signed, hten, rounded, dif_pos hlt]
  refine ⟨_, _, rfl, hexact, ?_⟩
  show signed _ (roundedUnits _ 1) = signed _ (roundedUnits _ 1)
  rw [hexact]
  cases s with
  | false => rw [signed_false, decide_eq_false (by omega)]
  | true =>
    by_cases hzero : a.nearest = 0
    · rw [hzero, Nat.zero_mul]
      rfl
    · rw [signed_true, decide_eq_true (by omega)]

end Binary64

/-! ## Near an integer -/

/-- A magnitude that is written as the nearest integer. -/
def Magnitude.IsNearInteger (a : Magnitude) : Prop :=
  a.distance ≤ Binary64.allowance (max a.units (a.nearest * unitsPerOne))

instance (a : Magnitude) : Decidable a.IsNearInteger := inferInstanceAs (Decidable (_ ≤ _))

/-- A number is close to the nearest integer if its magnitude is. -/
theorem Binary64.isClose_nearest_iff (s : Bool) (a : Magnitude) :
    isClose integerTolerance (.finite s a) (ofInt (signed s a.nearest)) = true ↔ a.IsNearInteger := by
  obtain ⟨t, m, hm, hunits, hsigned⟩ := exists_ofInt_nearest s a
  have hdistance : (Binary64.exact (.finite t m) - Binary64.exact (.finite s a)).natAbs = a.distance := by
    show (signed t m.units - signed s a.units).natAbs = _
    rw [hsigned, hunits, natAbs_signed_nearest_sub]
  have hexact := hdistance ▸ a.representable_distance
  have hequal : equal (.finite s a) (.finite t m) = true → a.distance ≤ allowance m.units := by
    intro h
    have hsame : signed s a.units = signed t m.units := beq_iff_eq.1 h
    rw [← hdistance]
    show (signed t m.units - signed s a.units).natAbs ≤ _
    omega
  have hinfinite (r : Bool) (c : Magnitude) : (!isInfinite (.finite r c)) = true := rfl
  rw [hm, isClose, hinfinite, hinfinite, Magnitude.IsNearInteger, ← hunits, le_allowance_max_iff]
  simp only [Bool.true_and, Bool.or_eq_true, decide_eq_true_eq, abs_sub_le_iff rfl rfl hexact, hdistance]
  constructor
  · rintro (h | h | h)
    · exact .inr (hequal h)
    · exact .inr h
    · exact .inl h
  · exact fun h => .inr h.symm

end Pinboard
