import Pinboard.Proofs.Ring.Pushes

/-!
# Deleting inside a ring

Both sides close up by moving a piece of the slots by one slot, in one step or around the end in three
(`getD_moveUp`, `getD_moveDown`). Read slot by slot, the four layouts come to two rules: the slots that
lie up to the deleted one take over from the slot before, or those from the deleted one on from the slot
behind. Main statement: the ring then holds the list without the element at the index
(`Holds.deleteAt`).
-/

namespace Pinboard.Ring

variable {α : Type} [Inhabited α] {slots : List α} {head : Nat} {xs : List α} {r : Ring α}

/-! ## Moving a piece by one slot -/

section
variable {middle : List α} {first last : Int} {d : α} {p : Nat}

omit [Inhabited α] in
theorem length_replacePiece (h0 : 0 ≤ first) (h1 : first ≤ last) (h2 : last ≤ slots.length)
    (hm : middle.length = (last - first).toNat) :
    (replacePiece slots first last middle).length = slots.length := by
  rw [replacePiece, clip_eq (by omega) h2, clip_eq h0 (by omega)]
  have hmax : Nat.max first.toNat last.toNat = last.toNat := Nat.max_eq_right (by omega)
  rw [hmax]
  simp
  omega

omit [Inhabited α] in
theorem getD_replacePiece (h0 : 0 ≤ first) (h1 : first ≤ last) (h2 : last ≤ slots.length)
    (hm : middle.length = (last - first).toNat) :
    (replacePiece slots first last middle).getD p d =
      if first ≤ p ∧ p < last then middle.getD (p - first.toNat) d else slots.getD p d := by
  rw [replacePiece, clip_eq (by omega) h2, clip_eq h0 (by omega)]
  have hmax : Nat.max first.toNat last.toNat = last.toNat := Nat.max_eq_right (by omega)
  have hlow : (slots.take first.toNat).length = first.toNat := List.length_take_of_le (by omega)
  have hboth : (slots.take first.toNat ++ middle).length = last.toNat := by
    rw [List.length_append, hlow, hm]
    omega
  rw [hmax]
  by_cases hbehind : last ≤ p
  · rw [if_neg (by omega), List.getD_append_right _ _ _ _ (by omega), hboth]
    simp only [List.getD_eq_getElem?_getD, List.getElem?_drop]
    congr 2
    omega
  rw [List.getD_append _ _ _ _ (by omega)]
  by_cases hin : first ≤ p
  · rw [if_pos ⟨hin, by omega⟩, List.getD_append_right _ _ _ _ (by omega), hlow]
  · rw [if_neg (by omega), List.getD_append _ _ _ _ (by omega)]
    simp only [List.getD_eq_getElem?_getD, List.getElem?_take]
    rw [if_pos (by omega)]

/-- Each slot behind `first` up to `last` takes over from the one before. -/
def moveUp (slots : List α) (first last : Int) : List α :=
  replacePiece slots (first + 1) (last + 1) (piece slots first last)

/-- Each slot from `first` on before `last` takes over from the one behind. -/
def moveDown (slots : List α) (first last : Int) : List α :=
  replacePiece slots first last (piece slots (first + 1) (last + 1))

omit [Inhabited α] in
theorem length_moveUp (h0 : 0 ≤ first) (h1 : first ≤ last) (h2 : last < slots.length) :
    (moveUp slots first last).length = slots.length :=
  length_replacePiece (by omega) (by omega) (by omega)
    (by rw [length_piece h0 h1 (by omega)]; omega)

omit [Inhabited α] in
theorem getD_moveUp (h0 : 0 ≤ first) (h1 : first ≤ last) (h2 : last < slots.length) :
    (moveUp slots first last).getD p d = slots.getD (if first < p ∧ p ≤ last then p - 1 else p) d := by
  rw [moveUp, getD_replacePiece (by omega) (by omega) (by omega)
    (by rw [length_piece h0 h1 (by omega)]; omega)]
  by_cases hp : first < p ∧ p ≤ last
  · rw [if_pos (by omega), if_pos hp, getD_piece h0 h1 (by omega) (by omega)]
    congr 1
    omega
  · rw [if_neg (by omega), if_neg hp]

omit [Inhabited α] in
theorem length_moveDown (h0 : 0 ≤ first) (h1 : first ≤ last) (h2 : last < slots.length) :
    (moveDown slots first last).length = slots.length :=
  length_replacePiece h0 h1 (by omega) (by rw [length_piece (by omega) (by omega) (by omega)]; omega)

omit [Inhabited α] in
theorem getD_moveDown (h0 : 0 ≤ first) (h1 : first ≤ last) (h2 : last < slots.length) :
    (moveDown slots first last).getD p d = slots.getD (if first ≤ p ∧ p < last then p + 1 else p) d := by
  rw [moveDown, getD_replacePiece h0 h1 (by omega)
    (by rw [length_piece (by omega) (by omega) (by omega)]; omega)]
  by_cases hp : first ≤ p ∧ p < last
  · rw [if_pos hp, if_pos hp, getD_piece (by omega) (by omega) (by omega) (by omega)]
    congr 1
    omega
  · rw [if_neg hp, if_neg hp]

omit [Inhabited α] in
/-- Copying a slot to another one. -/
theorem getD_copy {i j : Nat} (hj : j < slots.length) :
    (slots.set j (slots.getD i d)).getD p d = slots.getD (if p = j then i else p) d := by
  rw [getD_set]
  by_cases hp : p = j
  · rw [if_pos ⟨hp.symm, hp ▸ hj⟩, if_pos hp]
  · rw [if_neg (by omega), if_neg hp]

end

/-! ## The two sides, slot by slot -/

theorem closeFromFront_eq (slots : List α) (first p : Int) :
    closeFromFront slots first p =
      (if first ≤ p then moveUp slots first p
        else moveUp ((moveUp slots 0 p).set 0 ((moveUp slots 0 p).getD (slots.length - 1) default))
          first (slots.length - 1 : Nat)).set first.toNat default := rfl

theorem closeFromBack_eq (slots : List α) (p last : Int) :
    closeFromBack slots p last =
      if p < last then moveDown slots p last
      else moveDown ((moveDown slots p (slots.length - 1 : Nat)).set (slots.length - 1)
        ((moveDown slots p (slots.length - 1 : Nat)).getD 0 default)) 0 last := rfl

theorem length_closeFromFront {p : Nat} (hh : head < slots.length) (hp : p < slots.length) :
    (closeFromFront slots head p).length = slots.length := by
  rw [closeFromFront_eq, List.length_set]
  split
  · exact length_moveUp (by omega) (by omega) (by omega)
  · have hlow : (moveUp slots 0 p).length = slots.length := length_moveUp (by omega) (by omega) (by omega)
    rw [length_moveUp (by omega) (by omega) (by rw [List.length_set]; omega), List.length_set, hlow]

/-- Closing from the front: the slots behind `head` up to the deleted one take over from the slot
before, around the end, and `head` is emptied. -/
theorem getD_closeFromFront {p q : Nat} (hh : head < slots.length) (hp : p < slots.length)
    (hq : q < slots.length) :
    (closeFromFront slots head p).getD q default =
      if q = head then default
      else slots.getD
        (if offset slots.length head q ≤ offset slots.length head p then around slots.length q (slots.length - 1)
          else q) default := by
  have hlen := length_closeFromFront hh hp
  rw [closeFromFront_eq, List.length_set] at hlen
  rw [closeFromFront_eq, getD_set, Int.toNat_natCast, hlen]
  by_cases hqh : q = head
  · rw [if_pos ⟨hqh.symm, hq⟩, if_pos hqh]
  rw [if_neg (by omega), if_neg hqh]
  by_cases hle : (head : Int) ≤ p
  · rw [if_pos hle, getD_moveUp (by omega) hle (by omega)]
    congr 1
    unfold offset around; split_ifs <;> omega
  · have hlow : (moveUp slots 0 p).length = slots.length := length_moveUp (by omega) (by omega) (by omega)
    rw [if_neg hle, getD_moveUp (by omega) (by omega) (by rw [List.length_set, hlow]; omega),
      getD_copy (by omega), getD_moveUp (by omega) (by omega) (by omega)]
    congr 1
    unfold offset around; split_ifs <;> omega

theorem length_closeFromBack {p t : Nat} (hp : p < slots.length) (ht : t < slots.length) :
    (closeFromBack slots p t).length = slots.length := by
  rw [closeFromBack_eq]
  split
  · exact length_moveDown (by omega) (by omega) (by omega)
  · have hhigh : (moveDown slots p (slots.length - 1 : Nat)).length = slots.length :=
      length_moveDown (by omega) (by omega) (by omega)
    rw [length_moveDown (by omega) (by omega) (by rw [List.length_set, hhigh]; omega), List.length_set, hhigh]

/-- Closing from the back: the slots from the deleted one on up to the tail take over from the slot
behind, around the end. -/
theorem getD_closeFromBack {p t q : Nat} (hp : p < slots.length) (ht : t < slots.length)
    (hpt : p ≠ t) (hq : q < slots.length) :
    (closeFromBack slots p t).getD q default =
      slots.getD
        (if offset slots.length p q < offset slots.length p t then around slots.length q 1 else q) default := by
  rw [closeFromBack_eq]
  by_cases hlt : (p : Int) < t
  · rw [if_pos hlt, getD_moveDown (by omega) (by omega) (by omega)]
    congr 1
    unfold offset around; split_ifs <;> omega
  · have hhigh : (moveDown slots p (slots.length - 1 : Nat)).length = slots.length :=
      length_moveDown (by omega) (by omega) (by omega)
    rw [if_neg hlt, getD_moveDown (by omega) (by omega) (by rw [List.length_set, hhigh]; omega),
      getD_copy (by omega), getD_moveDown (by omega) (by omega) (by omega)]
    congr 1
    unfold offset around; split_ifs <;> omega

/-! ## Deleting -/

omit [Inhabited α] in
theorem getD_eraseIdx (i j : Nat) (d : α) :
    (xs.eraseIdx i).getD j d = if j < i then xs.getD j d else xs.getD (j + 1) d := by
  simp only [List.getD_eq_getElem?_getD, List.getElem?_eraseIdx]
  split <;> rfl

/-- Closing from the front over the element at an index. -/
theorem Layout.closeFromFront (l : Layout slots head xs) {i : Nat} (hi : i < xs.length) :
    Layout (closeFromFront slots head (around slots.length head i)) (around slots.length head 1)
      (xs.eraseIdx i) := by
  have hh := l.head_lt
  have hfits := l.fits
  have hleast := l.least
  simp only [minCapacity] at hleast
  have hp := around_lt hh (i := i) (by omega)
  refine l.rearrange (length_closeFromFront hh hp) (around_lt hh (by omega))
    (by rw [List.length_eraseIdx_of_lt hi]; omega) fun q hq => ?_
  rw [getD_closeFromFront hh hp hq, offset_around hh (by omega), offset_succ hh hq]
  by_cases hqh : q = head
  · rw [if_pos hqh, if_pos hqh,
      List.getD_eq_default _ _ (by rw [List.length_eraseIdx_of_lt hi]; omega)]
  · rw [if_neg hqh, if_neg hqh, getD_eraseIdx]
    have hpos := mt (offset_eq_zero hh).1 hqh
    by_cases hle : offset slots.length head q ≤ i
    · rw [if_pos hle, l.slot _ (around_lt hq (by omega)), offset_prev hh hq, if_neg hpos, if_pos (by omega)]
    · rw [if_neg hle, l.slot q hq, if_neg (by omega)]
      congr 1
      omega

/-- Closing from the back over the element at an index. -/
theorem Layout.closeFromBack (l : Layout slots head xs) (hr : xs.length < slots.length) {i : Nat}
    (hi : i < xs.length) :
    Layout (closeFromBack slots (around slots.length head i) (around slots.length head xs.length)) head
      (xs.eraseIdx i) := by
  have hh := l.head_lt
  have hp := around_lt hh (i := i) (by omega)
  have ht := around_lt hh hr
  refine l.rearrange (length_closeFromBack hp ht) hh
    (by rw [List.length_eraseIdx_of_lt hi]; omega) fun q hq => ?_
  have hbound := offset_lt hh hq
  have hne : around slots.length head i ≠ around slots.length head xs.length := by
    unfold around; split_ifs <;> omega
  have htail : offset slots.length (around slots.length head i) (around slots.length head xs.length)
      = xs.length - i := by
    rw [offset_from hh ht (by omega), offset_around hh hr, if_neg (by omega)]
  rw [getD_closeFromBack hp ht hne hq, offset_from hh hq (by omega), htail, getD_eraseIdx]
  by_cases hlt : offset slots.length head q < i
  · rw [if_pos hlt, if_neg (by omega), l.slot q hq, if_pos hlt]
  · rw [if_neg hlt, if_neg hlt]
    by_cases hin : offset slots.length head q < xs.length
    · rw [if_pos (by omega), l.slot _ (around_lt hq (by omega)), offset_next hh hq, if_neg (by omega)]
    · rw [if_neg (by omega), l.slot q hq, List.getD_eq_default _ _ (by omega),
        List.getD_eq_default _ _ (by omega)]

/-- The slot of an element may be deleted. -/
theorem Holds.deleteSlot (h : r.Holds xs) {i : Nat} (hi : i < xs.length) :
    ∃ r', r.deleteSlot (r.slot i) = .ok r' ∧ r'.Holds (xs.eraseIdx i) := by
  have hlength := h.length_eq
  obtain ⟨slots, head, l, hr⟩ := h
  have hh := l.head_lt
  have hp := around_lt hh (i := i) (by omega)
  have ht := around_lt hh hr
  have hslot : slot ⟨slots.toArray, head, around slots.length head xs.length⟩ i = around slots.length head i := by
    rw [slot, capacity_mk, wrap_add l.pow hh (by omega)]
  simp only [Ring.deleteSlot, hlength, hslot, capacity_mk, wrap_sub l.pow hp hh, wrap_sub l.pow ht hp,
    offset_around hh (by omega : i < slots.length)]
  rw [if_neg (by omega)]
  have herase := List.length_eraseIdx_of_lt hi
  split
  · refine ⟨_, rfl, ?_⟩
    have hlen := length_closeFromFront hh hp
    have htail : around slots.length head xs.length
        = around slots.length (around slots.length head 1) (xs.eraseIdx i).length := by
      rw [herase, around_around hh (by omega)]
      congr 1
      omega
    rw [wrap_succ l.pow hh, htail]
    simpa [hlen] using Holds.mk _ _ (l.closeFromFront hi) (by omega)
  · refine ⟨_, rfl, ?_⟩
    have hlen := length_closeFromBack hp ht
    have htail : (if (around slots.length head i : Int) < around slots.length head xs.length
          then (around slots.length head xs.length : Int) - 1
          else wrap slots.length ((around slots.length head xs.length : Int) - 1))
        = around slots.length head (xs.eraseIdx i).length := by
      rw [wrap_pred l.pow ht, herase]
      unfold around; split_ifs <;> omega
    rw [htail]
    simpa [hlen] using Holds.mk _ _ (l.closeFromBack hr hi) (by omega)

theorem Holds.deleteAt (h : r.Holds xs) {i : Nat} (hi : i < xs.length) :
    ∃ r', r.deleteAt i = .ok r' ∧ r'.Holds (xs.eraseIdx i) := by
  rw [Ring.deleteAt, if_pos ((h.hasIndex_iff i).2 ⟨by omega, by omega⟩)]
  exact h.deleteSlot hi

end Pinboard.Ring
