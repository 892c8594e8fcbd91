import Pinboard.Proofs.Ring.Pushes

/-!
# Changing in place and copying

Main statements: writing at an index writes the list at that index (`Holds.set`, `Holds.edit`), swapping
pairs inwards reverses the list (`Holds.reverse`), and a slice holds the piece of the list between the
two bounds, read as bounds of a list (`Holds.slice`).
-/

namespace Pinboard.Ring

variable {α : Type} [Inhabited α] {slots : List α} {head : Nat} {xs : List α} {r : Ring α}

/-! ## Writing at an index -/

/-- Writing the slot of the element at an index. -/
theorem Layout.set (l : Layout slots head xs) {i : Nat} (hi : i < xs.length) (a : α) :
    Layout (slots.set (around slots.length head i) a) head (xs.set i a) := by
  have hh := l.head_lt
  have hfits := l.fits
  refine l.rearrange List.length_set hh (by simpa using hfits) fun p hp => ?_
  rw [getD_set, getD_set]
  have hiff := offset_eq_iff hh hp (i := i) (by omega)
  by_cases hp0 : p = around slots.length head i
  · rw [if_pos ⟨hp0.symm, hp⟩, hiff.2 hp0, if_pos ⟨rfl, hi⟩]
  · have hne : offset slots.length head p ≠ i := fun h => hp0 (hiff.1 h)
    rw [if_neg (by omega), if_neg (by omega), l.slot p hp]

/-- The slot of an element may be written. -/
theorem Holds.write (h : r.Holds xs) {i : Nat} (hi : i < xs.length) (a : α) :
    Holds { r with slots := r.slots.setIfInBounds (r.slot i) a } (xs.set i a) := by
  obtain ⟨slots, head, l, hr⟩ := h
  simp only [slot, capacity_mk, wrap_add l.pow l.head_lt (by omega : i ≤ slots.length), List.setIfInBounds_toArray]
  simpa using Holds.mk _ _ (l.set hi a) (by simpa using hr)

theorem Holds.set (h : r.Holds xs) {i : Nat} (hi : i < xs.length) (a : α) :
    ∃ r', r.set i a = .ok r' ∧ r'.Holds (xs.set i a) :=
  ⟨_, if_pos ((h.hasIndex_iff i).2 ⟨by omega, by omega⟩), h.write hi a⟩

theorem Holds.edit (h : r.Holds xs) {i : Nat} (hi : i < xs.length) (update : α → α) :
    ∃ r', r.edit i update = .ok r' ∧ r'.Holds (xs.set i (update xs[i])) := by
  refine ⟨_, if_pos ((h.hasIndex_iff i).2 ⟨by omega, by omega⟩), ?_⟩
  rw [h.read_slot hi]
  exact h.write hi _

/-! ## Reversing -/

omit [Inhabited α] in
theorem getD_swap {i k : Nat} (hi : i < xs.length) (hk : k < xs.length) (p : Nat) (d : α) :
    ((xs.set i (xs.getD k d)).set k (xs.getD i d)).getD p d =
      xs.getD (if p = k then i else if p = i then k else p) d := by
  rw [getD_set, getD_set, List.length_set]
  rcases Decidable.em (p = k) with rfl | hpk
  · rw [if_pos ⟨rfl, hk⟩, if_pos rfl]
  rcases Decidable.em (p = i) with rfl | hpi
  · rw [if_neg (by omega), if_pos ⟨rfl, hi⟩, if_neg hpk, if_pos rfl]
  · rw [if_neg (by omega), if_neg (by omega), if_neg hpk, if_neg hpi]

/-- The index that `i` is swapped with when the pairs from `first` up to `last` are: the same distance
from the other end. -/
def mirrored (n first last i : Nat) : Nat :=
  if first ≤ i ∧ i < last ∨ first ≤ n - 1 - i ∧ n - 1 - i < last then n - 1 - i else i

/-- Swapping `count` pairs from index `j` on mirrors the indices of those pairs and no others. -/
theorem Layout.swapInwards (l : Layout slots head xs) (count j : Nat) (hc : 2 * (j + count) ≤ xs.length) :
    ∃ slots' ys, swapInwards slots.toArray count (around slots.length head j)
        (around slots.length head (xs.length - 1 - j)) = slots'.toArray ∧
      slots'.length = slots.length ∧ Layout slots' head ys ∧ ys.length = xs.length ∧
      ∀ i < xs.length, ys.getD i default = xs.getD (mirrored xs.length j (j + count) i) default := by
  induction count generalizing slots xs j with
  | zero =>
    refine ⟨slots, xs, rfl, rfl, l, rfl, ?_⟩
    intro i hi
    rw [mirrored, if_neg (by omega)]
  | succ count ih =>
    have hh := l.head_lt
    have hfits := l.fits
    have hn := l.set (i := j) (by omega) (xs.getD (xs.length - 1 - j) default)
    have hs := hn.set (i := xs.length - 1 - j) (by simp; omega) (xs.getD j default)
    rw [List.length_set] at hs
    obtain ⟨slots', ys, heq, hlen, hl, hylen, hget⟩ := ih hs (j + 1) (by simp; omega)
    have hfront : wrap slots.length ((around slots.length head j : Nat) + 1 : Int)
        = around slots.length head (j + 1) := by
      rw [wrap_succ l.pow (around_lt hh (by omega)), around_around hh (by omega)]
    have hback : wrap slots.length ((around slots.length head (xs.length - 1 - j) : Nat) - 1 : Int)
        = around slots.length head (xs.length - 1 - (j + 1)) := by
      rw [wrap_pred l.pow (around_lt hh (by omega))]
      unfold around; split_ifs <;> omega
    simp only [List.length_set] at heq hlen hylen hget
    refine ⟨slots', ys, ?_, hlen, hl, hylen, fun i hi => ?_⟩
    · rw [← heq, Ring.swapInwards]
      simp only [List.size_toArray, List.setIfInBounds_toArray]
      rw [hfront, hback, ← l.at_around (by omega), ← l.at_around (by omega)]
      simp
    · rw [hget i hi, getD_swap (by omega) (by omega)]
      congr 1
      unfold mirrored; split_ifs <;> omega

theorem Holds.reverse (h : r.Holds xs) : r.reverse.Holds xs.reverse := by
  have hlength := h.length_eq
  obtain ⟨slots, head, l, hr⟩ := h
  have hh := l.head_lt
  rw [Ring.reverse, hlength]
  rcases Nat.eq_zero_or_pos xs.length with hnil | hpos
  · obtain rfl := List.eq_nil_of_length_eq_zero hnil
    simpa [Ring.swapInwards] using Holds.mk _ _ l hr
  · have hback : wrap slots.length ((around slots.length head xs.length : Nat) - 1 : Int)
        = around slots.length head (xs.length - 1 - 0) := by
      rw [wrap_pred l.pow (around_lt hh hr)]
      unfold around; split_ifs <;> omega
    obtain ⟨slots', ys, heq, hlen, hl, hylen, hget⟩ := l.swapInwards (xs.length / 2) 0 (by omega)
    have hys : ys = xs.reverse := by
      refine ext_getD default (by simpa using hylen) fun i hi => ?_
      rw [hget i (by omega), List.getD_reverse i (by omega)]
      congr 1
      unfold mirrored; split_ifs <;> omega
    rw [around_zero hh] at heq
    simp only [capacity_mk, Int.toNat_natCast, hback, heq]
    rw [hys] at hl
    simpa [hlen] using Holds.mk _ _ hl (by simpa [hlen] using hr)

/-! ## Slices -/

/-- The elements at consecutive indices, read one by one, are a piece of the list. -/
theorem Holds.map_read (h : r.Holds xs) (first last : Nat) (hle : first ≤ last) (hlast : last ≤ xs.length) :
    (List.range (last - first)).map (fun (i : Nat) => r.read (r.slot ((first : Int) + (i : Nat)))) =
      (xs.take last).drop first := by
  refine ext_getD default (by simp; omega) fun i hi => ?_
  rw [List.length_map, List.length_range] at hi
  have hread := h.read_slot (i := first + i) (by omega)
  rw [Int.natCast_add] at hread
  have hi' : first + i < last := by omega
  have hx : first + i < xs.length := by omega
  simp [hi, hread, hi', hx]

/-- A slice reads its bounds as a list does: from the end below zero, and cut to the elements. -/
theorem Holds.slice (h : r.Holds xs) (start : Int) (stop : Option Int) (hlt : xs.length < maxCapacity) :
    ∃ r', r.slice start stop = .ok r' ∧ r'.Holds (piece xs start (stop.getD xs.length)) := by
  simp only [Ring.slice, h.length_eq, piece]
  generalize stop.getD xs.length = stop
  generalize hf : max (if start < 0 then start + xs.length else start) 0 = first
  generalize hl : min (if stop < 0 then stop + xs.length else stop) (xs.length : Int) = last
  have hfirst : clip xs.length start = min first.toNat xs.length := by
    rw [clip, ← hf]; split_ifs <;> grind
  have hlast : clip xs.length stop = last.toNat := by
    rw [clip, ← hl]; split_ifs <;> grind
  rw [hfirst, hlast]
  by_cases hle : last ≤ first
  · refine ⟨empty, if_pos hle, ?_⟩
    rw [List.drop_eq_nil_of_le (by simp; omega)]
    exact empty_holds
  · have hmap := h.map_read first.toNat last.toNat (by omega) (by omega)
    rw [Int.toNat_of_nonneg (by omega), ← Int.toNat_sub'' (by omega) (by omega)] at hmap
    rw [if_neg hle, hmap, Nat.min_eq_left (by omega)]
    exact ofList_holds _ (by simp; omega)

end Pinboard.Ring
