import Pinboard.Numeric.Binary64

/-!
# Rounding keeps the order

Rounding to the format never turns two quotients around (`roundedUnits_mono`) and leaves the magnitudes
of the format as they are (`roundedUnits_mul`). So a quotient below a magnitude of the format is not
rounded beyond it (`roundedUnits_le`, `le_roundedUnits`), which is how all bounds on results are found.
-/

namespace Pinboard

variable {n d n' d' m : Nat}

/-! ## Quotients -/

theorem div_le_div_of_mul_le (hd : 0 < d) (hd' : 0 < d') (h : n * d' ≤ n' * d) : n / d ≤ n' / d' := by
  rw [Nat.le_div_iff_mul_le hd']
  refine Nat.le_of_mul_le_mul_right ?_ hd
  calc n / d * d' * d = n / d * d * d' := by ac_rfl
    _ ≤ n * d' := Nat.mul_le_mul_right d' (Nat.div_mul_le_self n d)
    _ ≤ n' * d := h

/-- Quotients with one integer part compare as their remainders do. -/
theorem mod_mul_le (h : n * d' ≤ n' * d) (hq : n / d = n' / d') : n % d * d' ≤ n' % d' * d := by
  have hn := Nat.div_add_mod n d
  have hn' := Nat.div_add_mod n' d'
  rw [← hn, ← hn', hq, Nat.add_mul, Nat.add_mul] at h
  have hsame : d * (n' / d') * d' = d' * (n' / d') * d := by ac_rfl
  rw [hsame] at h
  exact Nat.le_of_add_le_add_left h

/-- A remainder of up to a half is one for a smaller quotient as well. -/
theorem two_mul_mod_le (hd' : 0 < d') (hmod : n % d * d' ≤ n' % d' * d) (h : 2 * (n' % d') ≤ d') :
    2 * (n % d) ≤ d := by
  refine Nat.le_of_mul_le_mul_right ?_ hd'
  calc 2 * (n % d) * d' = 2 * (n % d * d') := Nat.mul_assoc _ _ _
    _ ≤ 2 * (n' % d' * d) := Nat.mul_le_mul_left 2 hmod
    _ = 2 * (n' % d') * d := (Nat.mul_assoc _ _ _).symm
    _ ≤ d' * d := Nat.mul_le_mul_right d h
    _ = d * d' := Nat.mul_comm _ _

theorem two_mul_mod_lt (hd : 0 < d) (hmod : n % d * d' ≤ n' % d' * d)
    (h : 2 * (n' % d') < d') : 2 * (n % d) < d := by
  refine Nat.lt_of_mul_lt_mul_right (a := d') ?_
  calc 2 * (n % d) * d' = 2 * (n % d * d') := Nat.mul_assoc _ _ _
    _ ≤ 2 * (n' % d' * d) := Nat.mul_le_mul_left 2 hmod
    _ = 2 * (n' % d') * d := (Nat.mul_assoc _ _ _).symm
    _ < d' * d := Nat.mul_lt_mul_of_pos_right h hd
    _ = d * d' := Nat.mul_comm _ _

theorem roundQuotient_mono (hd : 0 < d) (hd' : 0 < d') (h : n * d' ≤ n' * d) :
    roundQuotient n d ≤ roundQuotient n' d' := by
  rcases Nat.lt_or_eq_of_le (div_le_div_of_mul_le hd hd' h) with hlt | hq
  · exact Nat.le_trans (roundQuotient_le n d) (Nat.le_trans hlt (div_le_roundQuotient n' d'))
  · have hmod := mod_mul_le h hq
    simp only [roundQuotient, hq]
    -- with one integer part only the remainders decide, and what rounds down with the larger one
    -- rounds down with the smaller one
    by_cases hdown : 2 * (n' % d') < d' ∨ 2 * (n' % d') = d' ∧ n' / d' % 2 = 0
    · have hsmall : 2 * (n % d) < d ∨ 2 * (n % d) = d ∧ n' / d' % 2 = 0 := by
        rcases hdown with hlt | ⟨heq, heven⟩
        · exact .inl (two_mul_mod_lt hd hmod hlt)
        · have hle := two_mul_mod_le hd' hmod (Nat.le_of_eq heq)
          omega
      exact Nat.le_of_eq (by rw [if_pos hdown, if_pos hsmall])
    · rw [if_neg hdown]
      split <;> omega

/-! ## Magnitudes -/

theorem spacingExponent_mono (hd : 0 < d) (hd' : 0 < d') (h : n * d' ≤ n' * d) :
    spacingExponent n d ≤ spacingExponent n' d' := by
  have hdiv := div_le_div_of_mul_le hd hd' h
  have hlog : (n / d).log2 ≤ (n' / d').log2 := by
    by_cases h0 : n / d = 0
    · rw [h0, Nat.log2_zero]
      exact Nat.zero_le _
    · have hpos := Nat.lt_of_lt_of_le (Nat.pos_of_ne_zero h0) hdiv
      exact (Nat.le_log2 (Nat.ne_of_gt hpos)).2 (Nat.le_trans (Nat.log2_self_le h0) hdiv)
  simp only [spacingExponent]
  omega

/-- Below a magnitude with wider spacing there is a power of two, and no rounding goes beyond it. -/
theorem roundedUnits_le_twoPow (n d : Nat) : roundedUnits n d ≤ Nat.pow 2 (53 + spacingExponent n d) := by
  rw [twoPow_add]
  exact Nat.mul_le_mul_right _ (Nat.le_trans (roundQuotient_le _ _) (div_spacing_lt n d))

theorem twoPow_le_div (hpos : 0 < spacingExponent n d) : Nat.pow 2 (52 + spacingExponent n d) ≤ n / d := by
  have hlog : (n / d).log2 = 52 + spacingExponent n d := by
    simp only [spacingExponent] at hpos ⊢
    omega
  have hne : n / d ≠ 0 := by
    intro h0
    rw [h0, Nat.log2_zero] at hlog
    omega
  exact hlog ▸ Nat.log2_self_le hne

theorem twoPow_le_roundedUnits (hpos : 0 < spacingExponent n d) :
    Nat.pow 2 (52 + spacingExponent n d) ≤ roundedUnits n d := by
  have hle := twoPow_le_div hpos
  rw [twoPow_add] at hle ⊢
  refine Nat.mul_le_mul_right _ (Nat.le_trans ?_ (div_le_roundQuotient _ _))
  rw [← Nat.div_div_eq_div_mul, Nat.le_div_iff_mul_le (twoPow_pos _)]
  exact hle

theorem roundedUnits_mono (hd : 0 < d) (hd' : 0 < d') (h : n * d' ≤ n' * d) :
    roundedUnits n d ≤ roundedUnits n' d' := by
  rcases Nat.lt_or_eq_of_le (spacingExponent_mono hd hd' h) with hlt | heq
  · calc roundedUnits n d ≤ Nat.pow 2 (53 + spacingExponent n d) := roundedUnits_le_twoPow n d
      _ ≤ Nat.pow 2 (52 + spacingExponent n' d') := twoPow_le (by omega)
      _ ≤ roundedUnits n' d' := twoPow_le_roundedUnits (Nat.lt_of_le_of_lt (Nat.zero_le _) hlt)
  · have hpow := twoPow_pos (spacingExponent n' d')
    rw [roundedUnits, roundedUnits, heq]
    refine Nat.mul_le_mul_right _ (roundQuotient_mono (Nat.mul_pos hd hpow) (Nat.mul_pos hd' hpow) ?_)
    rw [← Nat.mul_assoc, ← Nat.mul_assoc]
    exact Nat.mul_le_mul_right _ h

/-- A magnitude of the format is its own rounding. -/
theorem roundedUnits_mul (h : Representable m) (hd : 0 < d) : roundedUnits (m * d) d = m := by
  obtain ⟨-, s, k, hs, rfl⟩ := h
  have hk : spacingExponent (s * Nat.pow 2 k * d) d ≤ k := by
    rw [spacingExponent, Nat.mul_div_cancel _ hd]
    by_cases h0 : s * Nat.pow 2 k = 0
    · rw [h0, Nat.log2_zero]
      omega
    · have hlog := (Nat.log2_lt h0).2 (mul_twoPow_lt k hs)
      omega
  rw [roundedUnits]
  generalize spacingExponent (s * Nat.pow 2 k * d) d = e at hk
  obtain ⟨j, rfl⟩ := Nat.exists_eq_add_of_le hk
  have hexact : s * Nat.pow 2 (e + j) * d = s * Nat.pow 2 j * (d * Nat.pow 2 e) := by
    rw [twoPow_add]
    ac_rfl
  rw [hexact, roundQuotient_mul_right _ (Nat.mul_pos hd (twoPow_pos e)), twoPow_add]
  ac_rfl

/-- A quotient up to a magnitude of the format is not rounded beyond it. -/
theorem roundedUnits_le (hm : Representable m) (hd : 0 < d) (h : n ≤ m * d) : roundedUnits n d ≤ m := by
  rw [← roundedUnits_mul hm hd]
  exact roundedUnits_mono hd hd (Nat.mul_le_mul_right d h)

/-- A quotient from a magnitude of the format on is not rounded below it. -/
theorem le_roundedUnits (hm : Representable m) (hd : 0 < d) (h : m * d ≤ n) : m ≤ roundedUnits n d := by
  rw [← roundedUnits_mul hm hd]
  exact roundedUnits_mono hd hd (Nat.mul_le_mul_right d h)

/-- Rounding an integer at most doubles it. -/
theorem roundedUnits_one_le (n : Nat) : roundedUnits n 1 ≤ 2 * n := by
  have herr := two_mul_roundQuotient_mul_le n (1 * Nat.pow 2 (spacingExponent n 1))
  rw [roundedUnits]
  rw [Nat.one_mul] at herr ⊢
  rcases Nat.eq_zero_or_pos (spacingExponent n 1) with h0 | hpos
  · have hexact := roundQuotient_mul_right n Nat.one_pos
    rw [Nat.mul_one] at hexact
    rw [h0]
    show roundQuotient n 1 * 1 ≤ 2 * n
    omega
  · have hle := twoPow_le_div hpos
    have hpow : Nat.pow 2 (spacingExponent n 1) ≤ Nat.pow 2 (52 + spacingExponent n 1) :=
      twoPow_le (Nat.le_add_left _ _)
    rw [Nat.div_one] at hle
    omega

end Pinboard
