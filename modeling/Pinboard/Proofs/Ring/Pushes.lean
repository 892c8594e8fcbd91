import Pinboard.Proofs.Ring.Layout

/-!
# Pushing

A push writes one slot, and where that fills the last free one the slots are doubled. Main statements:
a ring that holds `xs` holds `a :: xs` or `xs ++ [a]` after a push (`Holds.pushFront`, `Holds.pushBack`),
as long as the elements stay fewer than the slots of the largest ring, and a ring made of a list holds
that list (`ofList_holds`).
-/

namespace Pinboard.Ring

variable {α : Type} [Inhabited α] {slots : List α} {head : Nat} {xs : List α} {r : Ring α}

/-! ## Doubling -/

/-- Below the largest capacity there is room for twice the slots. -/
theorem two_mul_le_maxCapacity {capacity : Nat} (hc : ∃ k, capacity = Nat.pow 2 k)
    (hlt : capacity < maxCapacity) : 2 * capacity ≤ maxCapacity := by
  obtain ⟨k, rfl⟩ := hc
  have hk : k < 30 := (Nat.pow_lt_pow_iff_right (by decide)).1 hlt
  have hle : Nat.pow 2 (k + 1) ≤ Nat.pow 2 30 := Nat.pow_le_pow_right (by decide) hk
  exact Nat.le_trans (Nat.le_of_eq (Nat.mul_comm _ _)) hle

/-- The slots of a full ring, turned so that the first element comes first. -/
theorem Layout.turn_eq (l : Layout slots head xs) (hfull : xs.length = slots.length) :
    piece slots head slots.length ++ piece slots 0 head = xs := by
  have hh := l.head_lt
  have hhigh : (piece slots head slots.length).length = _ := length_piece (by omega) (by omega) (by omega)
  have hlow : (piece slots 0 head).length = _ := length_piece (by omega) (by omega) (by omega)
  refine ext_getD default (by rw [List.length_append, hhigh, hlow]; omega) fun i hi => ?_
  rw [List.length_append, hhigh, hlow] at hi
  rw [← l.at_around (by omega), around]
  split
  · rw [List.getD_append _ _ _ _ (by omega), getD_piece (by omega) (by omega) (by omega) (by omega)]
    rfl
  · rw [List.getD_append_right _ _ _ _ (by omega), hhigh,
      getD_piece (by omega) (by omega) (by omega) (by omega)]
    congr 1
    omega

/-- Twice the slots hold the elements from the first slot on. -/
theorem Layout.double (l : Layout slots head xs) (hfull : xs.length = slots.length)
    (hlt : slots.length < maxCapacity) : Layout (xs ++ List.replicate slots.length default) 0 xs := by
  obtain ⟨k, hk⟩ := l.pow
  have hleast := l.least
  have hlen : (xs ++ List.replicate slots.length (default : α)).length = 2 * slots.length := by
    rw [List.length_append, List.length_replicate]; omega
  refine ⟨⟨k + 1, ?_⟩, ?_, ?_, ?_, ?_, fun p hp => ?_⟩
  · rw [hlen, hk]; exact Nat.mul_comm _ _
  · omega
  · rw [hlen]; exact two_mul_le_maxCapacity l.pow hlt
  · rw [hlen]; simp only [minCapacity] at hleast; omega
  · omega
  · rw [offset, if_pos (Nat.zero_le p), Nat.sub_zero]
    grind

theorem Layout.doubleCapacity (l : Layout slots head xs) (hfull : xs.length = slots.length)
    (hlt : slots.length < maxCapacity) :
    ∃ r, doubleCapacity ⟨slots.toArray, head, head⟩ = .ok r ∧ r.Holds xs := by
  have hleast := l.least
  have hroom := two_mul_le_maxCapacity l.pow hlt
  refine ⟨_, ?_, .mk _ 0 (l.double hfull hlt) ?_⟩
  · simp only [Ring.doubleCapacity, capacity_mk]
    rw [if_neg (by simp), if_neg (by omega), l.turn_eq hfull]
    congr 2
    rw [around, if_pos] <;> simp only [List.length_append, List.length_replicate, minCapacity] at * <;> omega
  · simp only [List.length_append, List.length_replicate, minCapacity] at *; omega

/-! ## One more element -/

/-- Writing the slot before the first element. -/
theorem Layout.cons (l : Layout slots head xs) (hroom : xs.length < slots.length) (a : α) :
    Layout (slots.set (around slots.length head (slots.length - 1)) a)
      (around slots.length head (slots.length - 1)) (a :: xs) := by
  have hh := l.head_lt
  have hlt := around_lt hh (i := slots.length - 1) (by omega)
  refine l.rearrange List.length_set hlt hroom fun p hp => ?_
  rw [getD_set, offset_pred hh hp]
  by_cases hp0 : p = around slots.length head (slots.length - 1)
  · rw [if_pos ⟨hp0.symm, hp⟩, if_pos hp0]; rfl
  · rw [if_neg (by omega), if_neg hp0, l.slot p hp]; rfl

/-- Writing the slot behind the last element. -/
theorem Layout.concat (l : Layout slots head xs) (hroom : xs.length < slots.length) (a : α) :
    Layout (slots.set (around slots.length head xs.length) a) head (xs ++ [a]) := by
  have hh := l.head_lt
  refine l.rearrange List.length_set hh (by simp; omega) fun p hp => ?_
  rw [getD_set]
  have hiff := offset_eq_iff hh hp hroom
  by_cases hp0 : p = around slots.length head xs.length
  · rw [if_pos ⟨hp0.symm, hp⟩, hiff.2 hp0]; simp
  · rw [if_neg (by omega), l.slot p hp]
    have hne : offset slots.length head p ≠ xs.length := fun h => hp0 (hiff.1 h)
    grind

theorem Holds.pushFront (h : r.Holds xs) (a : α) (hlt : xs.length + 1 < maxCapacity) :
    ∃ r', r.pushFront a = .ok r' ∧ r'.Holds (a :: xs) := by
  obtain ⟨slots, head, l, hr⟩ := h
  have hh := l.head_lt
  have hl := l.cons hr a
  simp only [Ring.pushFront, capacity_mk, wrap_pred l.pow hh, List.setIfInBounds_toArray]
  by_cases hfull : (a :: xs).length = slots.length
  · have hmeet : around slots.length head xs.length = around slots.length head (slots.length - 1) := by
      rw [← hfull]; rfl
    rw [if_pos (by rw [hmeet]), hmeet]
    exact hl.doubleCapacity (by simpa using hfull) (by simpa [← hfull] using hlt)
  · have hne : around slots.length head (slots.length - 1) ≠ around slots.length head xs.length := by
      rw [List.length_cons] at hfull
      unfold around; split_ifs <;> omega
    rw [if_neg (by omega)]
    refine ⟨_, rfl, ?_⟩
    have htail : around slots.length head xs.length
        = around slots.length (around slots.length head (slots.length - 1)) (a :: xs).length := by
      rw [List.length_cons] at *
      unfold around; split_ifs <;> omega
    rw [htail]
    simpa using Holds.mk _ _ hl (by simp at hfull ⊢; omega)

theorem Holds.pushBack (h : r.Holds xs) (a : α) (hlt : xs.length + 1 < maxCapacity) :
    ∃ r', r.pushBack a = .ok r' ∧ r'.Holds (xs ++ [a]) := by
  obtain ⟨slots, head, l, hr⟩ := h
  have hh := l.head_lt
  have ht := around_lt hh hr
  have hl := l.concat hr a
  have htail : around slots.length (around slots.length head xs.length) 1
      = around slots.length head (xs.length + 1) := by
    unfold around; split_ifs <;> omega
  have hclip : clip slots.length (around slots.length head xs.length) = around slots.length head xs.length :=
    clip_eq (by omega) (by omega)
  simp only [Ring.pushBack, capacity_mk, hclip, List.setIfInBounds_toArray]
  rw [wrap_succ l.pow ht, htail]
  by_cases hfull : xs.length + 1 = slots.length
  · have hmeet : around slots.length head (xs.length + 1) = head := by
      unfold around; split_ifs <;> omega
    rw [if_pos (by rw [hmeet]), hmeet]
    exact hl.doubleCapacity (by simpa using hfull) (by simpa [← hfull] using hlt)
  · have hne : around slots.length head (xs.length + 1) ≠ head := by
      unfold around; split_ifs <;> omega
    rw [if_neg (by omega)]
    refine ⟨_, rfl, ?_⟩
    simpa using Holds.mk _ _ hl (by simp; omega)

/-! ## Several more elements -/

theorem Holds.pushAll (h : r.Holds xs) (ys : List α) (hlt : xs.length + ys.length < maxCapacity) :
    ∃ r', r.pushAll ys = .ok r' ∧ r'.Holds (xs ++ ys) := by
  induction ys generalizing r xs with
  | nil => exact ⟨r, rfl, by simpa using h⟩
  | cons y ys ih =>
    rw [List.length_cons] at hlt
    obtain ⟨r1, h1, hr1⟩ := h.pushBack y (by omega)
    obtain ⟨r2, h2, hr2⟩ := ih hr1 (by simp; omega)
    refine ⟨r2, ?_, by simpa using hr2⟩
    rw [Ring.pushAll, List.foldlM_cons, h1]
    exact h2

/-- A push to a list. -/
def Push.onList (xs : List α) : Push α → List α
  | .front a => a :: xs
  | .back a => xs ++ [a]

omit [Inhabited α] in
theorem Push.length_foldl_onList (pushes : List (Push α)) (xs : List α) :
    (pushes.foldl onList xs).length = xs.length + pushes.length := by
  induction pushes generalizing xs with
  | nil => rfl
  | cons p pushes ih =>
    rw [List.foldl_cons, ih]
    cases p <;> simp [onList] <;> omega

theorem Holds.push (h : r.Holds xs) (p : Push α) (hlt : xs.length + 1 < maxCapacity) :
    ∃ r', r.push p = .ok r' ∧ r'.Holds (p.onList xs) := by
  cases p with
  | front a => exact h.pushFront a hlt
  | back a => exact h.pushBack a hlt

theorem Holds.pushes (h : r.Holds xs) (pushes : List (Push α)) (hlt : xs.length + pushes.length < maxCapacity) :
    ∃ r', pushes.foldlM Ring.push r = .ok r' ∧ r'.Holds (pushes.foldl Push.onList xs) := by
  induction pushes generalizing r xs with
  | nil => exact ⟨r, rfl, h⟩
  | cons p pushes ih =>
    rw [List.length_cons] at hlt
    obtain ⟨r1, h1, hr1⟩ := h.push p (by omega)
    have hlen := Push.length_foldl_onList [p] xs
    obtain ⟨r2, h2, hr2⟩ := ih hr1 (by simp at hlen; omega)
    refine ⟨r2, ?_, hr2⟩
    rw [List.foldlM_cons, h1]
    exact h2

/-! ## Making a ring -/

/-- The slots of a new ring have room for its elements. -/
theorem capacityFor_spec {n : Nat} (hn : n < maxCapacity) :
    ∃ c, capacityFor n = .ok c ∧ (∃ k, c = Nat.pow 2 k) ∧ minCapacity ≤ c ∧ c ≤ maxCapacity ∧ n < c := by
  rw [capacityFor]
  by_cases hsmall : (n : Int) < minCapacity
  · exact ⟨minCapacity, if_pos hsmall, ⟨3, rfl⟩, Nat.le_refl _, by decide, by omega⟩
  · have hn0 : n ≠ 0 := by rintro rfl; exact hsmall (by decide)
    have hlog : n < Nat.pow 2 (n.log2 + 1) := Nat.lt_log2_self
    have hlow : minCapacity < Nat.pow 2 (n.log2 + 1) := by omega
    have hhigh : Nat.pow 2 (n.log2 + 1) ≤ maxCapacity :=
      Nat.pow_le_pow_right (by decide) ((Nat.log2_lt hn0).2 hn)
    refine ⟨Nat.pow 2 (n.log2 + 1), ?_, ⟨_, rfl⟩, Nat.le_of_lt hlow, hhigh, hlog⟩
    simp only [if_neg hsmall, Int.toNat_natCast, bitLength, if_neg hn0]
    rw [if_neg (by omega)]

/-- Slots that all hold the default element. -/
theorem Layout.replicate {c : Nat} (hpow : ∃ k, c = Nat.pow 2 k) (hleast : minCapacity ≤ c)
    (hmost : c ≤ maxCapacity) : Layout (List.replicate c (default : α)) 0 [] := by
  have hpos : 0 < c := Nat.lt_of_lt_of_le (by decide) hleast
  exact ⟨by simpa using hpow, by simpa using hleast, by simpa using hmost, by simpa using hpos, by simp,
    fun p hp => by simp at hp; simp [hp]⟩

theorem replicate_holds {c : Nat} (hpow : ∃ k, c = Nat.pow 2 k) (hleast : minCapacity ≤ c)
    (hmost : c ≤ maxCapacity) : Holds ⟨Array.replicate c (default : α), 0, 0⟩ [] := by
  have hpos : 0 < c := Nat.lt_of_lt_of_le (by decide) hleast
  simpa [around, hpos] using Holds.mk _ 0 (Layout.replicate (α := α) hpow hleast hmost) (by simpa using hpos)

theorem empty_holds : (empty : Ring α).Holds [] := replicate_holds ⟨3, rfl⟩ (Nat.le_refl _) (by decide)

theorem ofList_holds (xs : List α) (hlt : xs.length < maxCapacity) : ∃ r, ofList xs = .ok r ∧ r.Holds xs := by
  obtain ⟨c, hc, hpow, hleast, hmost, hn⟩ := capacityFor_spec hlt
  obtain ⟨r, hr, hh⟩ := (replicate_holds hpow hleast hmost).pushAll xs (by simpa using hlt)
  exact ⟨r, by rw [ofList, hc]; exact hr, hh⟩

/-- The largest ring has no room for as many elements as it has slots. -/
theorem capacityFor_error {n : Nat} (hge : maxCapacity ≤ n) : capacityFor n = .error (.tooManyElements n) := by
  have hne : n ≠ 0 := Nat.ne_of_gt (Nat.lt_of_lt_of_le (by decide) hge)
  have hlog : 30 ≤ n.log2 := (Nat.le_log2 hne).2 hge
  have hcap : maxCapacity < Nat.pow 2 (n.log2 + 1) := Nat.pow_lt_pow_right (by decide) (by omega)
  have hmin : minCapacity ≤ maxCapacity := by decide
  rw [capacityFor, if_neg (by omega)]
  simp only [Int.toNat_natCast, bitLength, if_neg hne, if_pos hcap]

theorem ofList_error {xs : List α} (hge : maxCapacity ≤ xs.length) :
    ofList xs = .error (.tooManyElements xs.length) := by
  rw [ofList, capacityFor_error hge]
  rfl

theorem singleton_holds (a : α) : ∃ r, singleton a = .ok r ∧ r.Holds [a] :=
  empty_holds.pushBack a (show 0 + 1 < maxCapacity by decide)

end Pinboard.Ring
