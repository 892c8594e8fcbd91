import Mathlib.Data.Rat.Floor
import Mathlib.Tactic.NormNum
import Mathlib.Tactic.Positivity
import Pinboard.Proofs.Numeric.Order

/-!
# Finite numbers as rational numbers

A finite number is a rational number (`Binary64.worth`). How far quotients of integers are apart is a question about
integers (`abs_sub_le_inv_iff`).
-/

namespace Pinboard

/-- How far two quotients are apart, in integers. -/
theorem abs_sub_le_inv_iff {n m c d k : Nat} (hc : 0 < c) (hd : 0 < d) (hk : 0 < k) :
    |(n : ℚ) / c - m / d| ≤ 1 / k ↔ k * ((n * d : Nat) - (m * c : Nat) : Int).natAbs ≤ c * d := by
  have hc' : (0 : ℚ) < c := by exact_mod_cast hc
  have hd' : (0 : ℚ) < d := by exact_mod_cast hd
  have hk' : (0 : ℚ) < k := by exact_mod_cast hk
  have hcast : |(n : ℚ) * d - c * m| = (((n * d : Nat) - (m * c : Nat) : Int).natAbs : ℚ) := by
    rw [Nat.cast_natAbs]
    push_cast
    rw [mul_comm (c : ℚ)]
  rw [div_sub_div _ _ hc'.ne' hd'.ne', abs_div, abs_of_pos (mul_pos hc' hd'), div_le_div_iff₀ (mul_pos hc' hd') hk',
    one_mul, hcast, mul_comm]
  exact_mod_cast Iff.rfl

namespace Binary64

variable {x y : Binary64}

/-- The rational number that a finite number is. -/
def worth (x : Binary64) : ℚ := x.exact / unitsPerOne

theorem cast_unitsPerOne_pos : (0 : ℚ) < unitsPerOne := by exact_mod_cast unitsPerOne_pos

theorem cast_signed (s : Bool) (n : Nat) : (signed s n : ℚ) = if s then -(n : ℚ) else n := by
  cases s <;> simp

theorem signed_mul (s : Bool) (m n : Nat) : signed s (m * n) = signed s m * n := by
  cases s with
  | false => exact Int.natCast_mul m n
  | true => rw [signed_true, signed_true, Int.natCast_mul, Int.neg_mul]

/-- The sign of two numbers has no part in their distance. -/
theorem abs_signed_sub (s : Bool) (m n : Nat) (c d : ℚ) :
    |(signed s m : ℚ) / c - (signed s n : ℚ) / d| = |(m : ℚ) / c - n / d| := by
  cases s with
  | false => rfl
  | true =>
    rw [cast_signed, cast_signed, if_pos rfl, if_pos rfl, neg_div, neg_div, ← abs_neg]
    congr 1
    ring

theorem abs_worth (x : Binary64) : |x.worth| = x.exact.natAbs / unitsPerOne := by
  rw [worth, abs_div, abs_of_pos cast_unitsPerOne_pos, Nat.cast_natAbs, Int.cast_abs]

theorem abs_worth_le_iff (x : Binary64) (n : Nat) : |x.worth| ≤ n ↔ x.exact.natAbs ≤ n * unitsPerOne := by
  rw [abs_worth, div_le_iff₀ cast_unitsPerOne_pos]
  exact_mod_cast Iff.rfl

/-- Finite numbers compare as rational numbers. -/
theorem le_iff_exact (hx : x.isFinite = true) (hy : y.isFinite = true) : x ≤ y ↔ x.exact ≤ y.exact := by
  obtain ⟨s, a, rfl⟩ := isFinite_iff.1 hx
  obtain ⟨t, b, rfl⟩ := isFinite_iff.1 hy
  exact le_iff_place (ne_nan_of_isFinite hx) (ne_nan_of_isFinite hy)

theorem floor_worth (x : Binary64) : ⌊x.worth⌋ = x.exact / unitsPerOne :=
  Rat.floor_intCast_div_natCast x.exact unitsPerOne

end Binary64
end Pinboard
