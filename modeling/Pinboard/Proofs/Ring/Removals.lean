import Mathlib.Data.List.Basic
import Pinboard.Proofs.Ring.Layout

/-!
# Removing from the two ends

Taking an element off an end empties its slot and moves a cursor by one. What removes several elements
takes them off one after the other. Main statements: `Holds.dropFront`, `Holds.dropBack`, `Holds.clear`,
`Holds.truncateTo` (the first elements stay) and `Holds.trimLeading` (the elements from the first that
fails the test stay).
-/

namespace Pinboard.Ring

variable {α : Type} [Inhabited α] {slots : List α} {head : Nat} {xs : List α} {r : Ring α}

/-! ## One element less -/

/-- Emptying the slot of the first element. -/
theorem Layout.tail {x : α} (l : Layout slots head (x :: xs)) :
    Layout (slots.set head default) (around slots.length head 1) xs := by
  have hh := l.head_lt
  have hfits := l.fits
  have hleast := l.least
  simp only [List.length_cons, minCapacity] at hfits hleast
  have h1 := around_lt hh (i := 1) (by omega)
  refine l.rearrange List.length_set h1 (by omega) fun p hp => ?_
  rw [getD_set, offset_succ hh hp]
  by_cases hp0 : p = head
  · rw [if_pos ⟨hp0.symm, hp⟩, if_pos hp0, List.getD_eq_default _ _ (by omega)]
  · have hpos := Nat.pos_of_ne_zero (mt (offset_eq_zero hh).1 hp0)
    obtain ⟨i, hi⟩ := Nat.exists_eq_add_of_lt hpos
    rw [if_neg (by omega), if_neg hp0, l.slot p hp, hi]
    simp

/-- Emptying the slot of the last element. -/
theorem Layout.dropLast {x : α} (l : Layout slots head (xs ++ [x])) :
    Layout (slots.set (around slots.length head xs.length) default) head xs := by
  have hh := l.head_lt
  have hfits := l.fits
  rw [List.length_append, List.length_singleton] at hfits
  refine l.rearrange List.length_set hh (by omega) fun p hp => ?_
  rw [getD_set]
  have hiff := offset_eq_iff hh hp (i := xs.length) (by omega)
  by_cases hp0 : p = around slots.length head xs.length
  · rw [if_pos ⟨hp0.symm, hp⟩, hiff.2 hp0, List.getD_eq_default _ _ (Nat.le_refl _)]
  · rw [if_neg (by omega), l.slot p hp]
    have hne : offset slots.length head p ≠ xs.length := fun h => hp0 (hiff.1 h)
    grind

theorem Holds.dropFront {x : α} (h : r.Holds (x :: xs)) : r.dropFront.Holds xs := by
  obtain ⟨slots, head, l, hr⟩ := h
  have hh := l.head_lt
  rw [List.length_cons] at hr
  have htail : around slots.length head (xs.length + 1)
      = around slots.length (around slots.length head 1) xs.length := by
    rw [around_around hh (by omega), Nat.add_comm]
  simp only [Ring.dropFront, capacity_mk, wrap_succ l.pow hh, List.setIfInBounds_toArray, Int.toNat_natCast,
    List.length_cons, htail]
  simpa using Holds.mk _ _ l.tail (by simp; omega)

theorem Holds.dropBack {x : α} (h : r.Holds (xs ++ [x])) : r.dropBack.Holds xs := by
  obtain ⟨slots, head, l, hr⟩ := h
  have hh := l.head_lt
  have hlast := wrap_pred l.pow (around_lt hh hr)
  rw [List.length_append, List.length_singleton] at hr hlast
  rw [around_pred hh hr] at hlast
  simp only [Ring.dropBack, capacity_mk, List.length_append, List.length_singleton, hlast,
    List.setIfInBounds_toArray]
  simpa using Holds.mk _ _ l.dropLast (by simp; omega)

theorem Holds.popFront {x : α} (h : r.Holds (x :: xs)) :
    r.popFront = .ok (x, r.dropFront) ∧ r.dropFront.Holds xs := by
  refine ⟨?_, h.dropFront⟩
  rw [Ring.popFront, h.isEmpty_eq, h.read_head]; rfl

theorem Holds.popBack {x : α} (h : r.Holds (xs ++ [x])) :
    r.popBack = .ok (x, r.dropBack) ∧ r.dropBack.Holds xs := by
  refine ⟨?_, h.dropBack⟩
  rw [Ring.popBack, h.isEmpty_eq, h.read_last, if_neg (by simp)]

theorem Holds.popFront_nil (h : r.Holds []) : r.popFront = .error .popEmpty := by
  rw [Ring.popFront, h.isEmpty_eq]; rfl

theorem Holds.popBack_nil (h : r.Holds []) : r.popBack = .error .popEmpty := by
  rw [Ring.popBack, h.isEmpty_eq]; rfl

/-! ## Several elements less -/

/-- Emptying the slots of all elements, one after the other. -/
theorem Layout.emptySlots (l : Layout slots head xs) :
    ∃ cleared : List α, emptySlots slots.toArray xs.length head = cleared.toArray ∧
      cleared.length = slots.length ∧ ∀ p, cleared.getD p default = default := by
  induction xs generalizing slots head with
  | nil =>
    refine ⟨slots, rfl, rfl, ?_⟩
    intro p
    by_cases hp : p < slots.length
    · simpa using l.slot p hp
    · exact List.getD_eq_default _ _ (by omega)
  | cons x xs ih =>
    have hh := l.head_lt
    obtain ⟨cleared, heq, hlen, hd⟩ := ih l.tail
    refine ⟨cleared, ?_, by simpa using hlen, hd⟩
    simp only [List.length_cons, Ring.emptySlots, List.setIfInBounds_toArray, List.size_toArray,
      wrap_succ l.pow hh]
    exact heq

theorem Holds.clear (h : r.Holds xs) : r.clear.Holds [] := by
  have hempty := h.isEmpty_iff
  have hlength := h.length_eq
  rw [Ring.clear]
  split
  next he => rw [hempty.1 he] at h; exact h
  next =>
    obtain ⟨slots, head, l, hr⟩ := h
    obtain ⟨cleared, heq, hlen, hd⟩ := l.emptySlots
    have hpos : 0 < cleared.length := by have := l.head_lt; omega
    have hl : Layout cleared 0 [] := l.rearrange hlen (by omega) (Nat.zero_le _) fun p _ => by simpa using hd p
    have hz : around cleared.length 0 0 = 0 := around_zero hpos
    rw [hlength, Int.toNat_natCast, heq]
    simpa [hz] using Holds.mk _ 0 hl (by simpa using hpos)

theorem Holds.dropBacks (h : r.Holds xs) {n : Nat} (hn : n ≤ xs.length) :
    (dropBacks n r).Holds (xs.take (xs.length - n)) := by
  induction n generalizing r xs with
  | zero => simpa [Ring.dropBacks] using h
  | succ n ih =>
    rcases List.eq_nil_or_concat' xs with rfl | ⟨ys, y, rfl⟩
    · simp at hn
    · have hys : n ≤ ys.length := by simpa using hn
      have hd := ih h.dropBack hys
      rw [Ring.dropBacks, List.length_append, List.length_singleton, Nat.add_sub_add_right,
        List.take_append_of_le_length (by omega)]
      exact hd

theorem Holds.truncateTo (h : r.Holds xs) (n : Int) : (r.truncateTo n).Holds (xs.take n.toNat) := by
  rw [Ring.truncateTo]
  split
  next hn => rw [Int.toNat_of_nonpos hn]; simpa using h.clear
  next hn =>
    have hd := h.dropBacks (n := xs.length - n.toNat) (by omega)
    rw [h.length_eq]
    by_cases hle : n.toNat ≤ xs.length
    · rwa [Nat.sub_sub_self hle] at hd
    · rw [Nat.sub_eq_zero_of_le (by omega)] at hd ⊢
      rw [Nat.sub_zero, List.take_length] at hd
      rwa [List.take_of_length_le (by omega)]

theorem Holds.trimFronts (h : r.Holds xs) (test : α → Bool) {n : Nat} (hn : xs.length ≤ n) :
    (trimFronts test n r).Holds (xs.dropWhile test) := by
  induction n generalizing r xs with
  | zero =>
    obtain rfl : xs = [] := List.eq_nil_of_length_eq_zero (by omega)
    exact h
  | succ n ih =>
    cases xs with
    | nil => rw [Ring.trimFronts, h.isEmpty_eq]; exact h
    | cons x xs =>
      rw [Ring.trimFronts, h.isEmpty_eq, h.read_head, List.dropWhile_cons]
      by_cases ht : test x = true
      · rw [if_neg (by simp [ht]), if_pos ht]
        exact ih h.dropFront (by simpa using hn)
      · rw [if_pos (by simp [ht]), if_neg ht]
        exact h

theorem Holds.trimLeading (h : r.Holds xs) (test : α → Bool) :
    (r.trimLeading test).Holds (xs.dropWhile test) := by
  rw [Ring.trimLeading, h.length_eq]
  exact h.trimFronts test (Nat.le_refl _)

end Pinboard.Ring
