import Pinboard.Proofs.Numeric.Exact

/-!
# The order of numbers

Apart from NaN every number has a place in one line (`Binary64.place`), infinities at its two ends, and
numbers compare as their places do. Main statements: below a number is what is not above it (`not_lt_iff`),
and multiples of a positive number keep the order of their factors (`mul_le_mul`), so that more lines of text
are never lower (`ofInt_mul_le`).
-/

namespace Pinboard.Binary64

variable {x y z : Binary64} {s : Bool} {n d : Nat}

/-- Where a number stands among all others; the infinities are next to the largest numbers. -/
def place : Binary64 → Int
  | .nan => 0
  | .infinite s => signed s unitLimit
  | .finite s a => signed s a.units

theorem natAbs_place_le (x : Binary64) : x.place.natAbs ≤ unitLimit := by
  cases x with
  | nan => exact Nat.zero_le _
  | infinite s => exact Nat.le_of_eq (natAbs_signed s unitLimit)
  | finite s a =>
    rw [place, natAbs_signed]
    exact Nat.le_of_lt a.representable.1

@[simp]
theorem signed_false (n : Nat) : signed false n = n := rfl

@[simp]
theorem signed_true (n : Nat) : signed true n = -n := rfl

/-- Between the limits in both directions there are the numbers of a smaller magnitude. -/
theorem signed_limit {limit n : Nat} (h : n < limit) (s t : Bool) :
    (signed s limit < signed t n ↔ s = true) ∧ (signed t n < signed s limit ↔ s = false) ∧
      signed s limit ≠ signed t n := by
  cases s <;> cases t <;> simp <;> omega

theorem signed_limits {limit : Nat} (h : 0 < limit) (s t : Bool) :
    (signed s limit < signed t limit ↔ (s && !t) = true) ∧ (signed s limit = signed t limit ↔ s = t) := by
  cases s <;> cases t <;> simp <;> omega

theorem lt_iff_place (hx : x ≠ .nan) (hy : y ≠ .nan) : x < y ↔ x.place < y.place := by
  show lt x y = true ↔ _
  cases x with
  | nan => exact absurd rfl hx
  | infinite s =>
    cases y with
    | nan => exact absurd rfl hy
    | infinite t => exact (signed_limits unitLimit_pos s t).1.symm
    | finite t b => exact (signed_limit b.representable.1 s t).1.symm
  | finite s a =>
    cases y with
    | nan => exact absurd rfl hy
    | infinite t =>
      rw [lt, Bool.not_eq_true']
      exact (signed_limit a.representable.1 t s).2.1.symm
    | finite t b => exact decide_eq_true_iff

theorem equal_iff_place (hx : x ≠ .nan) (hy : y ≠ .nan) : equal x y = true ↔ x.place = y.place := by
  cases x with
  | nan => exact absurd rfl hx
  | infinite s =>
    cases y with
    | nan => exact absurd rfl hy
    | infinite t =>
      rw [equal, beq_iff_eq]
      exact (signed_limits unitLimit_pos s t).2.symm
    | finite t b => exact iff_of_false Bool.false_ne_true (signed_limit b.representable.1 s t).2.2
  | finite s a =>
    cases y with
    | nan => exact absurd rfl hy
    | infinite t => exact iff_of_false Bool.false_ne_true (signed_limit a.representable.1 t s).2.2.symm
    | finite t b => exact beq_iff_eq

theorem le_iff_place (hx : x ≠ .nan) (hy : y ≠ .nan) : x ≤ y ↔ x.place ≤ y.place := by
  have hlt : lt x y = true ↔ x.place < y.place := lt_iff_place hx hy
  show (lt x y || equal x y) = true ↔ _
  rw [Bool.or_eq_true, hlt, equal_iff_place hx hy]
  omega

/-- NaN compares with nothing. -/
theorem ne_nan_of_le (h : x ≤ y) : x ≠ .nan ∧ y ≠ .nan := by
  have h' : (lt x y || equal x y) = true := h
  constructor
  · rintro rfl
    cases y <;> simp [lt, equal] at h'
  · rintro rfl
    cases x <;> simp [lt, equal] at h'

theorem not_nan_lt (x : Binary64) : ¬Binary64.nan < x := by
  show ¬lt .nan x = true
  simp [lt]

theorem not_lt_iff (hx : x ≠ .nan) (hy : y ≠ .nan) : ¬x < y ↔ y ≤ x := by
  rw [lt_iff_place hx hy, le_iff_place hy hx, Int.not_lt]

theorem le_of_lt (hx : x ≠ .nan) (hy : y ≠ .nan) (h : x < y) : x ≤ y := by
  rw [lt_iff_place hx hy] at h
  rw [le_iff_place hx hy]
  omega

theorem lt_of_lt_of_le (hx : x ≠ .nan) (hxy : x < y) (hyz : y ≤ z) : x < z := by
  obtain ⟨hy, hz⟩ := ne_nan_of_le hyz
  rw [lt_iff_place hx hy] at hxy
  rw [le_iff_place hy hz] at hyz
  rw [lt_iff_place hx hz]
  omega

theorem ne_nan_of_isFinite (h : x.isFinite = true) : x ≠ .nan := by
  rintro rfl
  cases h

theorem le_trans (hxy : x ≤ y) (hyz : y ≤ z) : x ≤ z := by
  obtain ⟨hx, hy⟩ := ne_nan_of_le hxy
  have hz := (ne_nan_of_le hyz).2
  rw [le_iff_place hx hy] at hxy
  rw [le_iff_place hy hz] at hyz
  rw [le_iff_place hx hz]
  omega

theorem zero_ne_nan : (0 : Binary64) ≠ .nan := ne_nan_of_isFinite (isFinite_ofNat (by decide))

theorem place_zero : (0 : Binary64).place = 0 := by
  rw [ofNat_eq (by decide), place]
  simp only [Nat.zero_mul, signed]
  rfl

/-! ## The larger of two numbers -/

theorem max_ne_nan (hx : x ≠ .nan) (hy : y ≠ .nan) : max x y ≠ .nan := by
  show Binary64.max x y ≠ .nan
  rw [Binary64.max]
  split
  · exact hy
  · exact hx

theorem place_max (hx : x ≠ .nan) (hy : y ≠ .nan) : (max x y).place = max x.place y.place := by
  show (Binary64.max x y).place = _
  rw [Binary64.max]
  by_cases h : x < y
  · rw [if_pos h]
    rw [lt_iff_place hx hy] at h
    omega
  · rw [if_neg h]
    rw [lt_iff_place hx hy] at h
    omega

theorem max_eq_or (x y : Binary64) : max x y = x ∨ max x y = y := by
  show Binary64.max x y = x ∨ Binary64.max x y = y
  rw [Binary64.max]
  split
  · exact .inr rfl
  · exact .inl rfl

theorem le_max (hx : x ≠ .nan) (hy : y ≠ .nan) : x ≤ max x y ∧ y ≤ max x y := by
  have hmax := max_ne_nan hx hy
  rw [le_iff_place hx hmax, le_iff_place hy hmax, place_max hx hy]
  exact ⟨Int.le_max_left _ _, Int.le_max_right _ _⟩

/-! ## Rounded numbers and products -/

theorem rounded_ne_nan (s : Bool) (n d : Nat) : rounded s n d ≠ .nan := by
  rw [rounded]
  split <;> simp

/-- Finite numbers have a difference, if only an infinite one. -/
theorem sub_ne_nan (hx : x.isFinite = true) (hy : y.isFinite = true) : x - y ≠ .nan := by
  obtain ⟨s, h, -⟩ := add_eq_rounded hx ((isFinite_neg y).trans hy)
  show x + -y ≠ .nan
  rw [h]
  exact rounded_ne_nan _ _ _

theorem place_rounded (s : Bool) (n d : Nat) :
    (rounded s n d).place = signed s (min (roundedUnits n d) unitLimit) := by
  rw [rounded]
  split
  next h =>
    rw [Nat.min_eq_left (Nat.le_of_lt h)]
    rfl
  next h =>
    rw [Nat.min_eq_right (Nat.le_of_not_lt h)]
    rfl

/-- Rounding a larger quotient gives no smaller number. -/
theorem place_rounded_le {n' d' : Nat} (hd : 0 < d) (hd' : 0 < d') (h : n * d' ≤ n' * d) :
    (rounded false n d).place ≤ (rounded false n' d').place := by
  have hmono := roundedUnits_mono hd hd' h
  rw [place_rounded, place_rounded]
  show ((min _ _ : Nat) : Int) ≤ ((min _ _ : Nat) : Int)
  omega

theorem ofInt_natCast (n : Nat) : ofInt n = rounded false (n * unitsPerOne) 1 := by
  have hneg : decide ((n : Int) < 0) = false := decide_eq_false (by omega)
  rw [ofInt, ofDecimal, hneg]
  rfl

theorem place_ofInt_le {j k : Nat} (h : j ≤ k) : (ofInt j).place ≤ (ofInt k).place := by
  rw [ofInt_natCast, ofInt_natCast]
  exact place_rounded_le Nat.one_pos Nat.one_pos (Nat.mul_le_mul_right 1 (Nat.mul_le_mul_right unitsPerOne h))

/-- A number that is written without a minus sign. -/
def IsUnsigned (x : Binary64) : Prop := x = .infinite false ∨ ∃ a, x = .finite false a

theorem isUnsigned_ofInt (n : Nat) : (ofInt n).IsUnsigned := by
  rw [ofInt_natCast, rounded]
  split
  next h => exact .inr ⟨_, rfl⟩
  next h => exact .inl rfl

theorem exists_of_pos (hx : x.isFinite = true) (h : 0 < x) : ∃ a, x = .finite false a ∧ 0 < a.units := by
  obtain ⟨s, a, rfl⟩ := isFinite_iff.1 hx
  rw [lt_iff_place zero_ne_nan (ne_nan_of_isFinite hx), place_zero] at h
  cases s with
  | false => exact ⟨a, rfl, Int.ofNat_lt.1 h⟩
  | true =>
    rw [place, signed_true] at h
    omega

/-- Multiplying by a positive number keeps the order. -/
theorem mul_le_mul (hz : z.isFinite = true) (hpos : 0 < z) (hx : x.IsUnsigned) (hy : y.IsUnsigned)
    (h : x.place ≤ y.place) : x * z ≤ y * z := by
  obtain ⟨c, rfl, hc⟩ := exists_of_pos hz hpos
  have hinfinite : Binary64.mul (.infinite false) (.finite false c) = .infinite false := by
    rw [Binary64.mul, if_neg (Nat.ne_of_gt hc)]
    rfl
  show Binary64.mul _ _ ≤ Binary64.mul _ _
  rcases hx with rfl | ⟨a, rfl⟩
  · rcases hy with rfl | ⟨b, rfl⟩
    · rw [hinfinite]
      exact (le_iff_place (by simp) (by simp)).2 (Int.le_refl _)
    · exact absurd (Int.ofNat_le.1 h) (Nat.not_le.2 b.representable.1)
  · rcases hy with rfl | ⟨b, rfl⟩
    · rw [hinfinite, Binary64.mul, le_iff_place (rounded_ne_nan _ _ _) (by simp)]
      have hle := natAbs_place_le (rounded (false ^^ false) (a.units * c.units) unitsPerOne)
      show _ ≤ ((unitLimit : Nat) : Int)
      omega
    · rw [Binary64.mul, Binary64.mul, le_iff_place (rounded_ne_nan _ _ _) (rounded_ne_nan _ _ _)]
      refine place_rounded_le unitsPerOne_pos unitsPerOne_pos ?_
      have hab : a.units ≤ b.units := Int.ofNat_le.1 h
      exact Nat.mul_le_mul_right _ (Nat.mul_le_mul_right _ hab)

/-- More of something with a positive size is no smaller. -/
theorem ofInt_mul_le {j k : Nat} (hz : z.isFinite = true) (hpos : 0 < z) (h : j ≤ k) : ofInt j * z ≤ ofInt k * z :=
  mul_le_mul hz hpos (isUnsigned_ofInt j) (isUnsigned_ofInt k) (place_ofInt_le h)

end Pinboard.Binary64
