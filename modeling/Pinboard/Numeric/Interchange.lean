import Pinboard.Numeric.Binary64

/-!
# The 64-bit interchange form of a number

A word holds the sign, a biased exponent of eleven bits and a fraction of 52 bits. Every word is read;
all words of a NaN read as the one NaN, which is written with the first fraction bit alone.
-/

namespace Pinboard

theorem representable_fraction {fraction : Nat} (h : fraction < Nat.pow 2 52) : Representable fraction :=
  ⟨Nat.lt_trans h (two_pow_lt_unitLimit (by decide)), fraction, 0, Nat.lt_trans h (twoPow_lt (by decide)),
    (Nat.mul_one fraction).symm⟩

theorem representable_normal {fraction exponent : Nat} (hf : fraction < Nat.pow 2 52)
    (he : exponent ≤ 2045) : Representable ((Nat.pow 2 52 + fraction) * Nat.pow 2 exponent) := by
  have hs : Nat.pow 2 52 + fraction < Nat.pow 2 53 := by
    rw [twoPow_succ 52, Nat.two_mul]
    exact Nat.add_lt_add_left hf _
  refine ⟨?_, Nat.pow 2 52 + fraction, exponent, hs, rfl⟩
  refine Nat.lt_of_lt_of_le (Nat.mul_lt_mul_of_pos_right hs (twoPow_pos _)) ?_
  rw [← twoPow_add]
  unfold unitLimit
  exact twoPow_le (by simp only [limitExponent]; omega)

namespace Binary64

/-- The number that a word holds. -/
def ofBits (word : UInt64) : Binary64 :=
  let negative := decide (Nat.pow 2 63 ≤ word.toNat)
  let exponent := word.toNat / Nat.pow 2 52 % 2048
  let fraction := word.toNat % Nat.pow 2 52
  have hf : fraction < Nat.pow 2 52 := Nat.mod_lt _ (twoPow_pos 52)
  if exponent = 2047 then
    if fraction = 0 then .infinite negative else .nan
  else if exponent = 0 then
    .finite negative ⟨fraction, representable_fraction hf⟩
  else if he : exponent - 1 ≤ 2045 then
    .finite negative ⟨(Nat.pow 2 52 + fraction) * Nat.pow 2 (exponent - 1), representable_normal hf he⟩
  else
    .nan

/-- The sign bit of a word. -/
def signBit (negative : Bool) : Nat := if negative then Nat.pow 2 63 else 0

/-- The word that holds a number. -/
def toBits : Binary64 → UInt64
  | .nan => UInt64.ofNat (2047 * Nat.pow 2 52 + Nat.pow 2 51)
  | .infinite s => UInt64.ofNat (signBit s + 2047 * Nat.pow 2 52)
  | .finite s a =>
    if a.units < Nat.pow 2 52 then UInt64.ofNat (signBit s + a.units)
    else
      let exponent := a.units.log2 - 51
      UInt64.ofNat
        (signBit s + exponent * Nat.pow 2 52 + (a.units / Nat.pow 2 (exponent - 1) - Nat.pow 2 52))

end Binary64
end Pinboard
