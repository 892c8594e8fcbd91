import Pinboard.Proofs.Numeric.Zeros

/-!
# Arithmetic without rounding

A sum or a half that is a number of the format is not rounded (`exact_add_eq`, `exact_half_eq`), and neither is a
product with zero or one. So multiples of one power of two that are not too large are added and halved exactly
(`IsMultiple.add`, `IsMultiple.half`). Where a sum is rounded, the order of sums is kept (`exact_add_mono`).
-/

namespace Pinboard.Binary64

variable {x y x' y' : Binary64}

/-! ## Finite results -/

/-- A finite sum has finite terms. -/
theorem isFinite_of_add (h : (x + y).isFinite = true) : x.isFinite = true ∧ y.isFinite = true := by
  change (Binary64.add x y).isFinite = true at h
  cases x with
  | nan => cases h
  | infinite s =>
    cases y with
    | nan | finite => cases h
    | infinite t => cases s <;> cases t <;> cases h
  | finite s a =>
    cases y with
    | nan | infinite => cases h
    | finite t b => exact ⟨rfl, rfl⟩

/-- A finite product has finite factors. -/
theorem isFinite_of_mul (h : (x * y).isFinite = true) : x.isFinite = true ∧ y.isFinite = true := by
  change (Binary64.mul x y).isFinite = true at h
  cases x with
  | nan => cases h
  | infinite s =>
    cases y with
    | nan | infinite => cases h
    | finite t b =>
      rw [Binary64.mul] at h
      split at h <;> cases h
  | finite s a =>
    cases y with
    | nan => cases h
    | infinite t =>
      rw [Binary64.mul] at h
      split at h <;> cases h
    | finite t b => exact ⟨rfl, rfl⟩

/-! ## Results that are numbers of the format -/

theorem rounded_mul {m d : Nat} (h : Representable m) (hd : 0 < d) (s : Bool) :
    rounded s (m * d) d = .finite s ⟨m, h⟩ := by
  have hround := roundedUnits_mul h hd
  have hlt : roundedUnits (m * d) d < unitLimit := Nat.lt_of_le_of_lt (Nat.le_of_eq hround) h.1
  rw [rounded, dif_pos hlt]
  simp only [hround]

/-- A finite sum is worth the sum of the terms, rounded without its sign. -/
theorem exact_add_eq_signed (hx : x.isFinite = true) (hy : y.isFinite = true) (hf : (x + y).isFinite = true) :
    (x + y).exact = signed (decide (x.exact + y.exact < 0)) (roundedUnits (x.exact + y.exact).natAbs 1) := by
  obtain ⟨s, hsum, hs⟩ := add_eq_rounded hx hy
  have hexact := exact_rounded (s := s) ((isFinite_add_iff hx hy).1 hf)
  rw [hsum, hexact]
  by_cases hzero : x.exact + y.exact = 0
  · have hround := roundedUnits_one_le (x.exact + y.exact).natAbs
    rw [Nat.eq_zero_of_le_zero (by omega : roundedUnits (x.exact + y.exact).natAbs 1 ≤ 0), hzero]
    cases s <;> rfl
  · rw [hs hzero]

theorem signed_decide_natAbs (n : Int) : signed (decide (n < 0)) n.natAbs = n := by
  by_cases h : n < 0
  · rw [decide_eq_true h, signed_true]
    omega
  · rw [decide_eq_false h, signed_false]
    omega

/-- A sum that is a number of the format is exact. -/
theorem exact_add_eq (hx : x.isFinite = true) (hy : y.isFinite = true)
    (h : Representable (x.exact + y.exact).natAbs) :
    (x + y).isFinite = true ∧ (x + y).exact = x.exact + y.exact := by
  have hround := roundedUnits_mul h Nat.one_pos
  rw [Nat.mul_one] at hround
  have hfinite : (x + y).isFinite = true := (isFinite_add_iff hx hy).2 (by rw [InRange, hround]; exact h.1)
  rw [exact_add_eq_signed hx hy hfinite, hround, signed_decide_natAbs]
  exact ⟨hfinite, rfl⟩

/-- A half that is a number of the format is exact. -/
theorem exact_half_eq {n : Int} (hx : x.isFinite = true) (hn : x.exact = 2 * n) (h : Representable n.natAbs) :
    (x / 2).isFinite = true ∧ (x / 2).exact = n := by
  obtain ⟨s, a, rfl⟩ := isFinite_iff.1 hx
  have hunits : a.units = 2 * n.natAbs := by
    rw [← natAbs_signed s a.units]
    change (exact (.finite s a)).natAbs = _
    rw [hn, Int.natAbs_mul]
    rfl
  rw [half_eq_rounded, hunits, Nat.mul_comm 2, Nat.mul_assoc,
    rounded_mul h (Nat.mul_pos Nat.two_pos unitsPerOne_pos), Bool.xor_false]
  refine ⟨rfl, ?_⟩
  rw [exact, hunits] at hn
  rw [exact]
  cases s <;> simp only [signed_true, signed_false] at hn ⊢ <;> omega

/-- Rounding keeps the order of sums. -/
theorem exact_add_mono (hx : x.isFinite = true) (hy : y.isFinite = true) (hx' : x'.isFinite = true)
    (hy' : y'.isFinite = true) (hf : (x + y).isFinite = true) (hf' : (x' + y').isFinite = true)
    (hle : x.exact + y.exact ≤ x'.exact + y'.exact) : (x + y).exact ≤ (x' + y').exact := by
  have hmono {m n : Nat} (h : m ≤ n) : roundedUnits m 1 ≤ roundedUnits n 1 :=
    roundedUnits_mono Nat.one_pos Nat.one_pos (Nat.mul_le_mul_right 1 h)
  rw [exact_add_eq_signed hx hy hf, exact_add_eq_signed hx' hy' hf']
  generalize x.exact + y.exact = m at hle
  generalize x'.exact + y'.exact = n at hle
  -- between a sum below zero and one that is not there is zero; otherwise the magnitudes compare, or do the other way
  by_cases hm : m < 0
  · by_cases hn : n < 0
    · have h := hmono (show n.natAbs ≤ m.natAbs by omega)
      rw [decide_eq_true hm, decide_eq_true hn, signed_true, signed_true]
      omega
    · rw [decide_eq_true hm, decide_eq_false hn, signed_true, signed_false]
      omega
  · have hn : ¬n < 0 := by omega
    have h := hmono (show m.natAbs ≤ n.natAbs by omega)
    rw [decide_eq_false hm, decide_eq_false hn, signed_false, signed_false]
    omega

/-! ## Products -/

theorem one_eq : ∃ h, (1 : Binary64) = .finite false ⟨unitsPerOne, h⟩ := by
  have hunits := Nat.one_mul unitsPerOne
  have hrepresentable := representable_mul_unitsPerOne (k := 1) (by decide)
  refine ⟨hunits ▸ hrepresentable, (ofNat_eq (k := 1) (by decide)).trans ?_⟩
  simp only [hunits]

theorem zero_eq : (0 : Binary64) = zero false := by
  refine (ofNat_eq (k := 0) (by decide)).trans ?_
  simp only [Nat.zero_mul]
  rfl

theorem finite_mul (s t : Bool) (a b : Magnitude) :
    (.finite s a * .finite t b : Binary64) = rounded (s ^^ t) (a.units * b.units) unitsPerOne := by
  show Binary64.mul _ _ = _
  rw [Binary64.mul]

theorem mul_one (hx : x.isFinite = true) : x * 1 = x := by
  obtain ⟨s, a, rfl⟩ := isFinite_iff.1 hx
  obtain ⟨_, hone⟩ := one_eq
  rw [hone, finite_mul, rounded_mul a.representable unitsPerOne_pos, Bool.xor_false]

theorem mul_zero (hx : x.isFinite = true) : ∃ s, x * 0 = zero s := by
  obtain ⟨s, a, rfl⟩ := isFinite_iff.1 hx
  have hround := rounded_mul representable_zero unitsPerOne_pos (s ^^ false)
  rw [Nat.zero_mul] at hround
  refine ⟨s ^^ false, ?_⟩
  rw [zero_eq, zero, finite_mul, Nat.mul_zero, hround, zero]

theorem zero_mul (hx : x.isFinite = true) : ∃ s, 0 * x = zero s := by
  obtain ⟨s, a, rfl⟩ := isFinite_iff.1 hx
  have hround := rounded_mul representable_zero unitsPerOne_pos (false ^^ s)
  rw [Nat.zero_mul] at hround
  refine ⟨false ^^ s, ?_⟩
  rw [zero_eq, zero, finite_mul, Nat.zero_mul, hround, zero]

/-- A half is two to this power, in units. -/
@[irreducible]
def halfPower : Nat := 1073

theorem unitsPerOne_eq_two_mul : unitsPerOne = 2 * Nat.pow 2 halfPower := by
  have hexponent : unitExponent = halfPower + 1 := by
    unfold halfPower
    rfl
  unfold unitsPerOne
  rw [hexponent, twoPow_succ]

theorem half_eq : ∃ h, (0.5 : Binary64) = .finite false ⟨Nat.pow 2 halfPower, h⟩ := by
  have hpower := Nat.one_mul (Nat.pow 2 halfPower)
  have hone := unitsPerOne_eq_two_mul
  have hrepresentable : Representable (1 * Nat.pow 2 halfPower) := by
    refine representable_mul_pow (by decide) ?_
    have hlt : unitsPerOne < unitLimit := by
      unfold unitsPerOne
      exact two_pow_lt_unitLimit (by decide)
    omega
  rw [hpower] at hrepresentable
  have hunits : 5 * unitsPerOne = Nat.pow 2 halfPower * Nat.pow 10 1 := by
    rw [hone]
    show 5 * (2 * _) = _ * 10
    omega
  refine ⟨hrepresentable, ?_⟩
  have hdecimal : (0.5 : Binary64) = ofDecimal false 5 1 := if_pos rfl
  rw [hdecimal, ofDecimal, hunits, rounded_mul hrepresentable (by decide)]

/-- A product with a half that is a number of the format is exact. -/
theorem exact_mul_half_eq {n : Int} (hx : x.isFinite = true) (hn : x.exact = 2 * n) (h : Representable n.natAbs) :
    (x * 0.5).isFinite = true ∧ (x * 0.5).exact = n := by
  obtain ⟨s, a, rfl⟩ := isFinite_iff.1 hx
  obtain ⟨_, hhalf⟩ := half_eq
  have hunits : a.units = 2 * n.natAbs := by
    rw [← natAbs_signed s a.units]
    change (exact (.finite s a)).natAbs = _
    rw [hn, Int.natAbs_mul]
    rfl
  have hone : 2 * n.natAbs * Nat.pow 2 halfPower = n.natAbs * unitsPerOne := by
    rw [unitsPerOne_eq_two_mul]
    ac_rfl
  rw [hhalf, finite_mul, hunits, hone, rounded_mul h unitsPerOne_pos, Bool.xor_false]
  refine ⟨rfl, ?_⟩
  rw [exact, hunits] at hn
  rw [exact]
  cases s <;> simp only [signed_true, signed_false] at hn ⊢ <;> omega

/-! ## Multiples of a power of two -/

/-- A finite number that is worth so many times two to a power, in units. -/
structure IsMultiple (k : Nat) (n : Int) (x : Binary64) : Prop where
  finite : x.isFinite = true
  exact : x.exact = n * (Nat.pow 2 k : Nat)

theorem representable_natAbs_mul {k : Nat} {n : Int} (hk : 53 + k < limitExponent) (hn : n.natAbs ≤ Nat.pow 2 53) :
    Representable (n * (Nat.pow 2 k : Nat)).natAbs := by
  rw [Int.natAbs_mul, Int.natAbs_natCast]
  exact representable_mul_pow hn (Nat.lt_of_le_of_lt (mul_twoPow_le k hn) (two_pow_lt_unitLimit hk))

namespace IsMultiple

variable {k : Nat} {m n : Int}

theorem double (h : IsMultiple (k + 1) n x) : IsMultiple k (2 * n) x := by
  refine ⟨h.finite, ?_⟩
  rw [h.exact, twoPow_succ, Int.natCast_mul]
  ac_rfl

theorem same (hx : IsMultiple k n x) (hy : IsMultiple k n y) : Same x y :=
  same_of_exact hx.finite hy.finite (hx.exact.trans hy.exact.symm)

theorem of_same (h : IsMultiple k n x) (hs : Same x y) : IsMultiple k n y :=
  ⟨hs.isFinite_eq ▸ h.finite, hs.exact_eq ▸ h.exact⟩

theorem add (hk : 53 + k < limitExponent) (hx : IsMultiple k m x) (hy : IsMultiple k n y)
    (hle : (m + n).natAbs ≤ Nat.pow 2 53) : IsMultiple k (m + n) (x + y) := by
  have hsum : x.exact + y.exact = (m + n) * (Nat.pow 2 k : Nat) := by rw [hx.exact, hy.exact, Int.add_mul]
  have hrepresentable := representable_natAbs_mul hk hle
  rw [← hsum] at hrepresentable
  obtain ⟨hfinite, hexact⟩ := exact_add_eq hx.finite hy.finite hrepresentable
  exact ⟨hfinite, hexact.trans hsum⟩

theorem neg (hx : IsMultiple k n x) : IsMultiple k (-n) (-x) := by
  refine ⟨(isFinite_neg x).trans hx.finite, ?_⟩
  rw [exact_neg, hx.exact, Int.neg_mul]

theorem sub (hk : 53 + k < limitExponent) (hx : IsMultiple k m x) (hy : IsMultiple k n y)
    (hle : (m - n).natAbs ≤ Nat.pow 2 53) : IsMultiple k (m - n) (x - y) := by
  rw [Int.sub_eq_add_neg] at hle ⊢
  exact add hk hx hy.neg hle

theorem exact_double (h : IsMultiple (k + 1) n x) : x.exact = 2 * (n * (Nat.pow 2 k : Nat)) := by
  rw [h.double.exact, Int.mul_assoc]

theorem half (hk : 53 + k < limitExponent) (hx : IsMultiple (k + 1) n x) (hle : n.natAbs ≤ Nat.pow 2 53) :
    IsMultiple k n (x / 2) := by
  obtain ⟨hfinite, hexact⟩ := exact_half_eq hx.finite hx.exact_double (representable_natAbs_mul hk hle)
  exact ⟨hfinite, hexact⟩

theorem mul_half (hk : 53 + k < limitExponent) (hx : IsMultiple (k + 1) n x) (hle : n.natAbs ≤ Nat.pow 2 53) :
    IsMultiple k n (x * 0.5) := by
  obtain ⟨hfinite, hexact⟩ := exact_mul_half_eq hx.finite hx.exact_double (representable_natAbs_mul hk hle)
  exact ⟨hfinite, hexact⟩

end IsMultiple

/-- A finite number without more than so many binary places, and no larger than `2^50` times the last of them. -/
def HasPlaces (places : Nat) (x : Binary64) : Prop :=
  x.isFinite = true ∧ ∃ n : Int, n.natAbs ≤ Nat.pow 2 50 ∧ x.exact * (Nat.pow 2 places : Nat) = n * (unitsPerOne : Nat)

theorem HasPlaces.isMultiple {places : Nat} (h : HasPlaces places x) (hplaces : places ≤ unitExponent) :
    ∃ n : Int, n.natAbs ≤ Nat.pow 2 50 ∧ IsMultiple (unitExponent - places) n x := by
  obtain ⟨hfinite, n, hn, hexact⟩ := h
  refine ⟨n, hn, hfinite, ?_⟩
  have hpos : ((Nat.pow 2 places : Nat) : Int) ≠ 0 := by exact_mod_cast Nat.ne_of_gt (twoPow_pos places)
  have hunits : unitsPerOne = Nat.pow 2 (unitExponent - places) * Nat.pow 2 places := by
    unfold unitsPerOne
    rw [← twoPow_add, Nat.sub_add_cancel hplaces]
  rw [hunits, Int.natCast_mul, ← Int.mul_assoc] at hexact
  exact Int.eq_of_mul_eq_mul_right hpos hexact

end Pinboard.Binary64
