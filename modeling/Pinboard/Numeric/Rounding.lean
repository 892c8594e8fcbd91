/-!
# Rounding a quotient to an integer

The one rounding rule of the library: the nearest integer, and a half goes to the even neighbour.
`two_mul_roundQuotient_mul_le` and `le_two_mul_roundQuotient_mul` bound the error by half a unit
on either side; `roundQuotient_mul_right` says that an exact quotient is kept.
-/

namespace Pinboard

/-- The integer nearest to `n / d`; a half goes to the even neighbour. -/
def roundQuotient (n d : Nat) : Nat :=
  let rest := 2 * (n % d)
  if rest < d ∨ (rest = d ∧ n / d % 2 = 0) then n / d else n / d + 1

theorem div_le_roundQuotient (n d : Nat) : n / d ≤ roundQuotient n d := by
  simp only [roundQuotient]
  split <;> omega

theorem roundQuotient_le (n d : Nat) : roundQuotient n d ≤ n / d + 1 := by
  simp only [roundQuotient]
  split <;> omega

/-- An exact quotient is its own rounding. -/
theorem roundQuotient_mul_right (n : Nat) {d : Nat} (hd : 0 < d) : roundQuotient (n * d) d = n := by
  simp [roundQuotient, Nat.mul_div_cancel n hd, hd]

/-- The rounding exceeds the quotient by half a unit at most. -/
theorem two_mul_roundQuotient_mul_le (n d : Nat) : 2 * (roundQuotient n d * d) ≤ 2 * n + d := by
  have hn := Nat.div_add_mod n d
  rw [Nat.mul_comm] at hn
  simp only [roundQuotient]
  split
  · omega
  · rw [Nat.add_mul]
    omega

/-- The rounding falls short of the quotient by half a unit at most. -/
theorem le_two_mul_roundQuotient_mul (n : Nat) {d : Nat} (hd : 0 < d) :
    2 * n ≤ 2 * (roundQuotient n d * d) + d := by
  have hn := Nat.div_add_mod n d
  rw [Nat.mul_comm] at hn
  have hm := Nat.mod_lt n hd
  simp only [roundQuotient]
  split
  · omega
  · rw [Nat.add_mul]
    omega

/-- The integer nearest to the square root of `n / d`; a half goes to the even neighbour. -/
def roundRoot (n d : Nat) : Nat :=
  let root := (n / d).sqrt
  let middle := (2 * root + 1) * (2 * root + 1) * d
  if 4 * n < middle ∨ (4 * n = middle ∧ root % 2 = 0) then root else root + 1

theorem roundRoot_le (n d : Nat) : roundRoot n d ≤ (n / d).sqrt + 1 := by
  simp only [roundRoot]
  split <;> omega

end Pinboard
