import Pinboard.Numeric.Conversion
import Pinboard.Proofs.Numeric.Monotone

/-!
# What finite numbers are worth

A finite number is worth a whole number of units (`Binary64.exact`), and an operation is the operation on
those integers, rounded. Main statements: a sum is finite as soon as it lies between two integers that
round to finite numbers (`isFinite_add_of_between`), a half lies between zero and half a unit beyond the
half (`exact_half`), and dividing by a positive integer never leaves the range (`divideBy_ok`).
-/

namespace Pinboard.Binary64

variable {x y : Binary64} {s : Bool} {n d : Nat}

/-- The worth of a finite number in units. -/
def exact : Binary64 → Int
  | .finite s a => signed s a.units
  | _ => 0

theorem isFinite_iff : x.isFinite = true ↔ ∃ s a, x = .finite s a := by
  cases x <;> simp [isFinite]

@[simp]
theorem natAbs_signed (s : Bool) (n : Nat) : (signed s n).natAbs = n := by
  cases s <;> simp [signed]

theorem representable_exact (x : Binary64) : Representable x.exact.natAbs := by
  cases x with
  | finite s a =>
    rw [exact, natAbs_signed]
    exact a.representable
  | _ => exact representable_zero

/-! ## Rounded results -/

theorem rounded_isFinite_iff : (rounded s n d).isFinite = true ↔ roundedUnits n d < unitLimit := by
  rw [rounded]
  split
  next h => exact ⟨fun _ => h, fun _ => rfl⟩
  next h => exact ⟨fun hf => by simp [isFinite] at hf, fun hlt => absurd hlt h⟩

theorem exact_rounded (h : roundedUnits n d < unitLimit) :
    (rounded s n d).exact = signed s (roundedUnits n d) := by
  rw [rounded, dif_pos h]
  rfl

/-- The integers that round to finite numbers. -/
def InRange (n : Int) : Prop := roundedUnits n.natAbs 1 < unitLimit

theorem inRange_exact (x : Binary64) : InRange x.exact := by
  have h := representable_exact x
  have hle := roundedUnits_le h Nat.one_pos (Nat.le_of_eq (Nat.mul_one _).symm)
  exact Nat.lt_of_le_of_lt hle h.1

theorem inRange_zero : InRange 0 := by
  have hle := roundedUnits_le representable_zero Nat.one_pos (Nat.zero_le (0 * 1))
  exact Nat.lt_of_le_of_lt hle unitLimit_pos

/-- Between two integers in range every integer is. -/
theorem InRange.between {k low high : Int} (hlow : InRange low) (hhigh : InRange high) (h1 : low ≤ k)
    (h2 : k ≤ high) : InRange k := by
  have hmono {n m : Nat} (h : n ≤ m) : roundedUnits n 1 ≤ roundedUnits m 1 :=
    roundedUnits_mono Nat.one_pos Nat.one_pos (Nat.mul_le_mul_right 1 h)
  rcases Int.le_total 0 k with h | h
  · exact Nat.lt_of_le_of_lt (hmono (show k.natAbs ≤ high.natAbs by omega)) hhigh
  · exact Nat.lt_of_le_of_lt (hmono (show k.natAbs ≤ low.natAbs by omega)) hlow

/-! ## Signs, sums and differences -/

@[simp]
theorem isFinite_neg (x : Binary64) : (-x).isFinite = x.isFinite := by
  cases x <;> rfl

@[simp]
theorem exact_neg (x : Binary64) : (-x).exact = -x.exact := by
  cases x with
  | finite s a =>
    show signed (!s) a.units = -signed s a.units
    cases s <;> simp [signed]
  | _ => rfl

theorem add_eq_rounded (hx : x.isFinite = true) (hy : y.isFinite = true) :
    ∃ s, x + y = rounded s (x.exact + y.exact).natAbs 1 ∧
      (x.exact + y.exact ≠ 0 → s = decide (x.exact + y.exact < 0)) := by
  obtain ⟨s, a, rfl⟩ := isFinite_iff.1 hx
  obtain ⟨t, b, rfl⟩ := isFinite_iff.1 hy
  show ∃ r, Binary64.add (.finite s a) (.finite t b) = rounded r _ 1 ∧ _
  rw [Binary64.add]
  exact ⟨_, rfl, fun hne => if_neg hne⟩

theorem isFinite_add_iff (hx : x.isFinite = true) (hy : y.isFinite = true) :
    (x + y).isFinite = true ↔ InRange (x.exact + y.exact) := by
  obtain ⟨s, h, -⟩ := add_eq_rounded hx hy
  rw [h, rounded_isFinite_iff, InRange]

/-- A sum that lies between two integers in range is finite. -/
theorem isFinite_add_of_between {low high : Int} (hx : x.isFinite = true) (hy : y.isFinite = true)
    (hlow : InRange low) (hhigh : InRange high) (h1 : low ≤ x.exact + y.exact)
    (h2 : x.exact + y.exact ≤ high) : (x + y).isFinite = true :=
  (isFinite_add_iff hx hy).2 (hlow.between hhigh h1 h2)

/-- A finite sum is worth at most twice what its terms are, and has their sign. -/
theorem exact_add (hx : x.isFinite = true) (hy : y.isFinite = true) (hf : (x + y).isFinite = true) :
    (x + y).exact.natAbs ≤ 2 * (x.exact + y.exact).natAbs ∧
      (0 ≤ x.exact + y.exact → 0 ≤ (x + y).exact) ∧ (x.exact + y.exact ≤ 0 → (x + y).exact ≤ 0) := by
  obtain ⟨s, h, hs⟩ := add_eq_rounded hx hy
  have hexact := exact_rounded (s := s) ((isFinite_add_iff hx hy).1 hf)
  have hle := roundedUnits_one_le (x.exact + y.exact).natAbs
  rw [h, hexact, natAbs_signed]
  refine ⟨hle, ?_⟩
  by_cases h0 : x.exact + y.exact = 0
  · have hzero : roundedUnits (x.exact + y.exact).natAbs 1 = 0 := by omega
    rw [hzero]
    cases s <;> simp [signed]
  · rw [hs h0, signed]
    by_cases hneg : x.exact + y.exact < 0
    · rw [decide_eq_true hneg, if_pos rfl]
      omega
    · rw [decide_eq_false hneg, if_neg Bool.false_ne_true]
      omega

/-- A difference that lies between two integers in range is finite. -/
theorem isFinite_sub_of_between {low high : Int} (hx : x.isFinite = true) (hy : y.isFinite = true)
    (hlow : InRange low) (hhigh : InRange high) (h1 : low ≤ x.exact - y.exact)
    (h2 : x.exact - y.exact ≤ high) : (x - y).isFinite = true := by
  refine isFinite_add_of_between (y := -y) hx ((isFinite_neg y).trans hy) hlow hhigh ?_ ?_
  · rwa [exact_neg]
  · rwa [exact_neg]

theorem exact_sub (hx : x.isFinite = true) (hy : y.isFinite = true) (hf : (x - y).isFinite = true) :
    (x - y).exact.natAbs ≤ 2 * (x.exact - y.exact).natAbs ∧
      (0 ≤ x.exact - y.exact → 0 ≤ (x - y).exact) ∧ (x.exact - y.exact ≤ 0 → (x - y).exact ≤ 0) := by
  have h := exact_add hx ((isFinite_neg y).trans hy) hf
  rwa [exact_neg] at h

/-! ## Small integers, halves and quotients -/

theorem representable_mul_unitsPerOne {k : Nat} (hk : k < Nat.pow 2 53) : Representable (k * unitsPerOne) := by
  have hlt := mul_twoPow_lt unitExponent hk
  unfold unitsPerOne
  exact representable_mul_pow (Nat.le_of_lt hk) (Nat.lt_trans hlt (two_pow_lt_unitLimit (by decide)))

/-- A small integer is a number. -/
theorem ofNat_eq {k : Nat} (hk : k < Nat.pow 2 53) :
    (OfNat.ofNat k : Binary64) = .finite false ⟨k * unitsPerOne, representable_mul_unitsPerOne hk⟩ := by
  have h := roundedUnits_mul (representable_mul_unitsPerOne hk) Nat.one_pos
  rw [Nat.mul_one] at h
  have hten : Nat.pow 10 0 = 1 := rfl
  show ofDecimal false k 0 = _
  rw [ofDecimal, hten]
  have hlt : roundedUnits (k * unitsPerOne) 1 < unitLimit := by
    rw [h]
    exact (representable_mul_unitsPerOne hk).1
  rw [rounded, dif_pos hlt]
  simp only [h]

theorem isFinite_ofNat {k : Nat} (hk : k < Nat.pow 2 53) : (OfNat.ofNat k : Binary64).isFinite = true := by
  rw [ofNat_eq hk]
  rfl

/-- A half, rounded up to a unit, is a magnitude of the format as well. -/
theorem representable_half {m : Nat} (h : Representable m) : Representable ((m + 1) / 2) := by
  obtain ⟨hlt, s, k, hs, rfl⟩ := h
  refine ⟨by omega, ?_⟩
  cases k with
  | zero => exact ⟨(s + 1) / 2, 0, by omega, by simp⟩
  | succ k =>
    refine ⟨s, k, hs, ?_⟩
    have hdouble : s * Nat.pow 2 (k + 1) = 2 * (s * Nat.pow 2 k) := by
      rw [twoPow_succ]
      ac_rfl
    show (s * Nat.pow 2 (k + 1) + 1) / 2 = s * Nat.pow 2 k
    rw [hdouble]
    omega

theorem half_eq_rounded (s : Bool) (a : Magnitude) :
    (.finite s a / 2 : Binary64) = rounded (s ^^ false) (a.units * unitsPerOne) (2 * unitsPerOne) := by
  rw [ofNat_eq (by decide)]
  show Binary64.div _ _ = _
  rw [Binary64.div, if_neg (Nat.ne_of_gt (Nat.mul_pos Nat.two_pos unitsPerOne_pos))]

/-- A half is finite, has the sign of the whole, and is rounded by at most half a unit. -/
theorem exact_half (hx : x.isFinite = true) :
    (x / 2).isFinite = true ∧ (x / 2).exact.natAbs ≤ (x.exact.natAbs + 1) / 2 ∧
      (0 ≤ x.exact → 0 ≤ (x / 2).exact) ∧ (x.exact ≤ 0 → (x / 2).exact ≤ 0) := by
  obtain ⟨s, a, rfl⟩ := isFinite_iff.1 hx
  have hpos := unitsPerOne_pos
  have hle : roundedUnits (a.units * unitsPerOne) (2 * unitsPerOne) ≤ (a.units + 1) / 2 := by
    refine roundedUnits_le (representable_half a.representable) (by omega) ?_
    rw [← Nat.mul_assoc]
    exact Nat.mul_le_mul_right _ (by omega)
  have hlt := a.representable.1
  have hfin : roundedUnits (a.units * unitsPerOne) (2 * unitsPerOne) < unitLimit := by omega
  rw [half_eq_rounded, exact_rounded hfin, rounded_isFinite_iff]
  refine ⟨hfin, by simpa [exact] using hle, ?_⟩
  cases s <;> simp [exact, signed] <;> omega

/-- A positive integer in range is worth at least one. -/
theorem unitsPerOne_le_ofInt {n : Nat} (hn : 0 < n) (h : (ofInt n).isFinite = true) :
    ∃ a : Magnitude, ofInt n = .finite false a ∧ unitsPerOne ≤ a.units := by
  have hone := representable_mul_unitsPerOne (k := 1) (by decide)
  rw [Nat.one_mul] at hone
  have hten : Nat.pow 10 0 = 1 := rfl
  have hneg : decide ((n : Int) < 0) = false := decide_eq_false (by omega)
  rw [ofInt, ofDecimal, Int.natAbs_natCast, hten, hneg] at h ⊢
  have hlt := rounded_isFinite_iff.1 h
  rw [rounded, dif_pos hlt]
  refine ⟨_, rfl, le_roundedUnits hone Nat.one_pos ?_⟩
  rw [Nat.mul_one]
  exact Nat.le_mul_of_pos_left unitsPerOne hn

/-- Dividing a finite number by a positive integer in range gives a finite number. -/
theorem divideBy_ok {n : Nat} (hx : x.isFinite = true) (hn : 0 < n) (h : (ofInt n).isFinite = true) :
    ∃ y : Binary64, x.divideBy n = .ok y ∧ y.isFinite = true := by
  obtain ⟨b, hb, hle⟩ := unitsPerOne_le_ofInt hn h
  obtain ⟨s, a, rfl⟩ := isFinite_iff.1 hx
  have hpos := unitsPerOne_pos
  have hzero : equal (.finite false b) 0 = false := by
    rw [ofNat_eq (by decide), equal]
    simp only [Nat.zero_mul, signed]
    simp
    omega
  refine ⟨.finite s a / .finite false b, ?_, ?_⟩
  · rw [divideBy, ofInt?, if_pos h, hb]
    simp only [bind, Except.bind]
    rw [quotient, if_neg (by simp [hzero])]
  · show (Binary64.div _ _).isFinite = true
    rw [Binary64.div, if_neg (by omega), rounded_isFinite_iff]
    refine Nat.lt_of_le_of_lt (roundedUnits_le a.representable (by omega) ?_) a.representable.1
    exact Nat.mul_le_mul_left a.units hle

/-- An integer that is too large is no divisor. -/
theorem divideBy_error {n : Int} (h : (ofInt n).isFinite = false) : x.divideBy n = .error .integerTooLarge := by
  rw [divideBy, ofInt?, if_neg (by simp [h])]
  rfl

/-- Integers up to a power of two in range are in range. -/
theorem ofInt_isFinite {n k : Nat} (hn : n ≤ Nat.pow 2 k) (hk : k + unitExponent < limitExponent) :
    (ofInt n).isFinite = true := by
  have hten : Nat.pow 10 0 = 1 := rfl
  have hpow : Representable (1 * Nat.pow 2 (k + unitExponent)) := by
    refine representable_mul_pow (twoPow_pos 53) ?_
    rw [Nat.one_mul]
    exact two_pow_lt_unitLimit hk
  rw [Nat.one_mul] at hpow
  rw [ofInt, ofDecimal, Int.natAbs_natCast, hten, rounded_isFinite_iff]
  refine Nat.lt_of_le_of_lt (roundedUnits_le hpow Nat.one_pos ?_) hpow.1
  unfold unitsPerOne
  rw [Nat.mul_one]
  exact mul_twoPow_le unitExponent hn

/-! ## The order -/

theorem lt_iff (hx : x.isFinite = true) (hy : y.isFinite = true) : x < y ↔ x.exact < y.exact := by
  obtain ⟨s, a, rfl⟩ := isFinite_iff.1 hx
  obtain ⟨t, b, rfl⟩ := isFinite_iff.1 hy
  show lt _ _ = true ↔ _
  rw [lt, decide_eq_true_iff]
  rfl

/-- The smaller of two finite numbers is one of them. -/
theorem exact_min (hx : x.isFinite = true) (hy : y.isFinite = true) :
    (min x y).isFinite = true ∧ (min x y).exact = min x.exact y.exact := by
  show (Binary64.min x y).isFinite = true ∧ (Binary64.min x y).exact = _
  rw [Binary64.min]
  have h := lt_iff hy hx
  by_cases hlt : y < x
  · have hlt' := h.1 hlt
    rw [if_pos hlt]
    exact ⟨hy, by omega⟩
  · have hlt' := mt h.2 hlt
    rw [if_neg hlt]
    exact ⟨hx, by omega⟩

theorem exact_max (hx : x.isFinite = true) (hy : y.isFinite = true) :
    (max x y).isFinite = true ∧ (max x y).exact = max x.exact y.exact := by
  show (Binary64.max x y).isFinite = true ∧ (Binary64.max x y).exact = _
  rw [Binary64.max]
  have h := lt_iff hx hy
  by_cases hlt : x < y
  · have hlt' := h.1 hlt
    rw [if_pos hlt]
    exact ⟨hy, by omega⟩
  · have hlt' := mt h.2 hlt
    rw [if_neg hlt]
    exact ⟨hx, by omega⟩

end Pinboard.Binary64
