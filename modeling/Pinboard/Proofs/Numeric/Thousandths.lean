import Pinboard.Proofs.Numeric.Nearest

/-!
# The thousandths of a number

A number is written in whole ones where it is near to an integer, and else in thousandths, both rounded. Main
statements: what lies between a number and its nearest integer is near to that integer if the number is
(`Magnitude.IsNearInteger.below`, `Magnitude.IsNearInteger.above`), and so the thousandths that are written for a
magnitude grow with it (`Magnitude.thousandths_mono`).
-/

namespace Pinboard.Magnitude

open Binary64 (scaled toleranceUnits allowance allowance_mono four_mul_toleranceUnits_le representable_half)

variable {a b : Magnitude}

/-! ## Between a number and an integer -/

/-- Between a magnitude and the integer above it that it is near to, all magnitudes are near to the integer. -/
theorem IsNearInteger.below (ha : a.IsNearInteger) (hab : a.units ≤ b.units)
    (hb : b.units ≤ a.nearest * unitsPerOne) : b.IsNearInteger := by
  have hnearest : b.nearest = a.nearest := Nat.le_antisymm (nearest_le hb) (nearest_mono hab)
  rw [IsNearInteger, Nat.max_eq_right (Nat.le_trans hab hb)] at ha
  rw [IsNearInteger, hnearest, Nat.max_eq_right hb]
  refine Nat.le_trans ?_ ha
  rw [distance, distance, hnearest]
  omega

/-- Only zero is near to zero. -/
theorem IsNearInteger.eq_zero (ha : a.IsNearInteger) (hzero : a.nearest = 0) : a.units = 0 := by
  rw [IsNearInteger, distance_eq_units hzero, hzero, Nat.zero_mul, Nat.max_eq_left (Nat.zero_le _)] at ha
  have hhalf : allowance a.units ≤ (a.units + 1) / 2 := by
    refine roundedUnits_le (representable_half a.representable) unitsPerOne_pos ?_
    have htolerance := Nat.mul_le_mul_right a.units four_mul_toleranceUnits_le
    have hround : unitsPerOne * a.units ≤ unitsPerOne * (2 * ((a.units + 1) / 2)) :=
      Nat.mul_le_mul_left unitsPerOne (by omega)
    rw [Nat.mul_assoc] at htolerance
    rw [Nat.mul_left_comm, Nat.mul_comm unitsPerOne ((a.units + 1) / 2)] at hround
    omega
  have hone : allowance 1 = 0 := by decide +kernel
  rcases Nat.lt_or_ge 1 a.units with hlt | hle
  · omega
  · have hmono := allowance_mono hle
    omega

/-- In the upper half behind an integer, the middle between two distances from the integer is a number. -/
theorem exists_middle (ha : b.nearest * unitsPerOne ≤ a.units) (hab : a.units ≤ b.units) (hpos : 0 < b.nearest) :
    ∃ middle, Representable middle ∧
      2 * middle = (a.units - b.nearest * unitsPerOne) + (b.units - b.nearest * unitsPerOne) := by
  have hone := Nat.le_mul_of_pos_left unitsPerOne hpos
  have hbounds := b.nearest_bounds
  have hinteger := two_mul_halfSpacing_dvd b.representable_nearest hone
  have hleft := Nat.dvd_sub (two_mul_halfSpacing_dvd a.representable (Nat.le_trans hone ha)) hinteger
  have hright := Nat.dvd_sub (two_mul_halfSpacing_dvd b.representable (by omega)) hinteger
  obtain ⟨q, hq⟩ := Nat.dvd_add hleft hright
  rw [Nat.mul_assoc] at hq
  exact ⟨halfSpacing * q, representable_of_halfSpacing_dvd (Nat.dvd_mul_right _ _) (by omega), hq.symm⟩

/-- Where a magnitude is too far from its integer, the allowance of a larger one does not reach beyond the middle of
the two distances: it grows much less than the magnitude does. -/
theorem allowance_le_middle {middle : Nat} (hfar : allowance a.units < a.distance) (hab : a.units ≤ b.units)
    (hmiddle : Representable middle) (htwice : 2 * middle = 2 * a.distance + (b.units - a.units)) :
    allowance b.units ≤ middle := by
  have hbelow : toleranceUnits * a.units < a.distance * unitsPerOne := by
    refine Nat.lt_of_not_le fun hle => Nat.not_le_of_lt hfar ?_
    exact le_roundedUnits a.representable_distance unitsPerOne_pos hle
  have hgrowth : 4 * (toleranceUnits * (b.units - a.units)) ≤ (b.units - a.units) * unitsPerOne := by
    rw [← Nat.mul_assoc, Nat.mul_comm _ unitsPerOne]
    exact Nat.mul_le_mul_right _ four_mul_toleranceUnits_le
  have hsplit : toleranceUnits * b.units =
      toleranceUnits * a.units + toleranceUnits * (b.units - a.units) := by
    rw [← Nat.mul_add, Nat.add_sub_cancel' hab]
  have hscaled : 2 * (middle * unitsPerOne) =
      2 * (a.distance * unitsPerOne) + (b.units - a.units) * unitsPerOne := by
    rw [← Nat.mul_assoc, htwice, Nat.add_mul, Nat.mul_assoc]
  exact roundedUnits_le hmiddle unitsPerOne_pos (by omega)

/-- Between a magnitude and the integer below it that it is near to, all magnitudes are near to the integer. -/
theorem IsNearInteger.above (hb : b.IsNearInteger) (ha : b.nearest * unitsPerOne ≤ a.units)
    (hab : a.units ≤ b.units) : a.IsNearInteger := by
  have hnearest : a.nearest = b.nearest := Nat.le_antisymm (nearest_mono hab) (le_nearest ha)
  have hpos : a.units < b.units → 0 < b.nearest := by
    refine fun hlt => Nat.pos_of_ne_zero fun hzero => ?_
    have hunits := hb.eq_zero hzero
    omega
  have hdistance : a.distance = a.units - b.nearest * unitsPerOne := by
    rw [distance, hnearest]
    omega
  have hdistance' : b.distance = b.units - b.nearest * unitsPerOne := by
    rw [distance]
    omega
  rw [IsNearInteger, Nat.max_eq_left (Nat.le_trans ha hab)] at hb
  rw [IsNearInteger, hnearest, Nat.max_eq_left ha]
  rcases Nat.lt_or_eq_of_le hab with hlt | heq
  · refine Nat.le_of_not_lt fun hfar => ?_
    obtain ⟨middle, hmiddle, hsum⟩ := exists_middle ha hab (hpos hlt)
    have hle := allowance_le_middle (b := b) hfar hab hmiddle (by omega)
    omega
  · have hsame : a.distance = b.distance := by rw [hdistance, hdistance', heq]
    simpa only [hsame, heq] using hb

/-! ## Thousandths -/

/-- The thousandths that are written for a magnitude. -/
def thousandths (a : Magnitude) : Nat := if a.IsNearInteger then a.nearest * 1000 else scaled 3 a

theorem scaled_mono (h : a.units ≤ b.units) : scaled 3 a ≤ scaled 3 b :=
  roundQuotient_mono unitsPerOne_pos unitsPerOne_pos (Nat.mul_le_mul_right _ (Nat.mul_le_mul_right _ h))

theorem le_scaled {n : Nat} (h : n * unitsPerOne ≤ a.units) : n * 1000 ≤ scaled 3 a := by
  refine le_roundQuotient unitsPerOne_pos ?_
  rw [Nat.mul_right_comm]
  exact Nat.mul_le_mul_right 1000 h

theorem scaled_le {n : Nat} (h : a.units ≤ n * unitsPerOne) : scaled 3 a ≤ n * 1000 := by
  refine roundQuotient_le_of_le_mul unitsPerOne_pos ?_
  rw [Nat.mul_right_comm]
  exact Nat.mul_le_mul_right 1000 h

/-- A larger magnitude has no fewer thousandths, whichever of the two is written as an integer. -/
theorem thousandths_mono (h : a.units ≤ b.units) : a.thousandths ≤ b.thousandths := by
  unfold thousandths
  by_cases ha : a.IsNearInteger
  · by_cases hb : b.IsNearInteger
    · rw [if_pos ha, if_pos hb]
      exact Nat.mul_le_mul_right 1000 (nearest_mono h)
    · rw [if_pos ha, if_neg hb]
      exact le_scaled (Nat.le_of_not_le fun hle => hb (ha.below h hle))
  · by_cases hb : b.IsNearInteger
    · rw [if_neg ha, if_pos hb]
      exact scaled_le (Nat.le_of_not_le fun hle => ha (hb.above hle h))
    · rw [if_neg ha, if_neg hb]
      exact scaled_mono h

/-- No thousandths are written for magnitudes of up to half a thousandth. -/
theorem thousandths_eq_zero_iff (a : Magnitude) : a.thousandths = 0 ↔ 2000 * a.units ≤ unitsPerOne := by
  have hscaled : scaled 3 a = 0 ↔ 2 * (a.units * 1000) ≤ unitsPerOne := roundQuotient_eq_zero_iff unitsPerOne_pos
  unfold thousandths
  by_cases ha : a.IsNearInteger
  · have hzero : a.nearest = 0 ↔ 2 * a.units ≤ unitsPerOne := roundQuotient_eq_zero_iff unitsPerOne_pos
    have hpos := unitsPerOne_pos
    rw [if_pos ha]
    constructor
    · intro h
      have hunits := ha.eq_zero (by omega)
      omega
    · intro h
      have hnearest := hzero.2 (by omega)
      omega
  · rw [if_neg ha, hscaled]
    omega

end Pinboard.Magnitude
