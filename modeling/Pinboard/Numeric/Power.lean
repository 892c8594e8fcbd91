/-!
# Powers of two

The few facts about powers of two that the format of numbers rests on.
-/

namespace Pinboard

theorem twoPow_pos (n : Nat) : 0 < Nat.pow 2 n := Nat.two_pow_pos n

theorem twoPow_add (m n : Nat) : Nat.pow 2 (m + n) = Nat.pow 2 m * Nat.pow 2 n := Nat.pow_add 2 m n

theorem twoPow_succ (n : Nat) : Nat.pow 2 (n + 1) = 2 * Nat.pow 2 n := Nat.mul_comm _ _

theorem twoPow_le {m n : Nat} (h : m ≤ n) : Nat.pow 2 m ≤ Nat.pow 2 n := Nat.pow_le_pow_right (by decide) h

theorem twoPow_lt {m n : Nat} (h : m < n) : Nat.pow 2 m < Nat.pow 2 n := Nat.pow_lt_pow_right (by decide) h

theorem mul_twoPow_lt {k j : Nat} (n : Nat) (h : k < Nat.pow 2 j) : k * Nat.pow 2 n < Nat.pow 2 (j + n) := by
  rw [twoPow_add]
  exact Nat.mul_lt_mul_of_pos_right h (twoPow_pos n)

theorem mul_twoPow_le {k j : Nat} (n : Nat) (h : k ≤ Nat.pow 2 j) : k * Nat.pow 2 n ≤ Nat.pow 2 (j + n) := by
  rw [twoPow_add]
  exact Nat.mul_le_mul_right _ h

theorem fourPow (n : Nat) : Nat.pow 4 n = Nat.pow 2 n * Nat.pow 2 n := Nat.mul_pow 2 2 n

theorem lt_twoPow_log2_succ (n : Nat) : n < Nat.pow 2 (n.log2 + 1) := Nat.lt_log2_self

end Pinboard
