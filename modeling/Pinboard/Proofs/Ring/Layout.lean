import Mathlib.Data.List.GetD
import Mathlib.Tactic.SplitIfs
import Pinboard.Ring.Operation

/-!
# The layout of a ring

`Layout slots head xs` says that the elements `xs` lie in the slots from `head` on, around the end,
and that every other slot holds the default element. It is stated slot by slot: the slot `p` holds the
element `offset p`, so a change of a few slots is followed by arithmetic on offsets.

`Holds r xs` says the same of a ring with its cursors. Main statements: what a ring that holds `xs`
answers when it is only read (`Holds.toList_eq`, `Holds.length_eq`, `Holds.read_slot`).
-/

namespace Pinboard.Ring

/-! ## Positions around the end -/

/-- How many slots a slot lies behind `head`, around the end. -/
def offset (capacity head p : Nat) : Nat := if head ≤ p then p - head else p + capacity - head

/-- The slot at a distance behind `head`, around the end. -/
def around (capacity head i : Nat) : Nat :=
  if head + i < capacity then head + i else head + i - capacity

theorem around_lt {capacity head i : Nat} (hh : head < capacity) (hi : i < capacity) :
    around capacity head i < capacity := by
  unfold around; split_ifs <;> omega

theorem offset_lt {capacity head p : Nat} (hh : head < capacity) (hp : p < capacity) :
    offset capacity head p < capacity := by
  unfold offset; split_ifs <;> omega

theorem offset_around {capacity head i : Nat} (hh : head < capacity) (hi : i < capacity) :
    offset capacity head (around capacity head i) = i := by
  unfold offset around; split_ifs <;> omega

@[simp]
theorem around_zero {capacity head : Nat} (hh : head < capacity) : around capacity head 0 = head := by
  unfold around; split_ifs <;> omega

theorem offset_pred {capacity head p : Nat} (hh : head < capacity) (hp : p < capacity) :
    offset capacity (around capacity head (capacity - 1)) p =
      if p = around capacity head (capacity - 1) then 0 else offset capacity head p + 1 := by
  unfold offset around; split_ifs <;> omega

theorem offset_succ {capacity head p : Nat} (hh : head < capacity) (hp : p < capacity) :
    offset capacity (around capacity head 1) p =
      if p = head then capacity - 1 else offset capacity head p - 1 := by
  unfold offset around; split_ifs <;> omega

theorem offset_eq_iff {capacity head p i : Nat} (hh : head < capacity) (hp : p < capacity) (hi : i < capacity) :
    offset capacity head p = i ↔ p = around capacity head i := by
  unfold offset around; split_ifs <;> omega

/-- Distances from a slot further on. -/
theorem offset_from {capacity head p i : Nat} (hh : head < capacity) (hp : p < capacity) (hi : i < capacity) :
    offset capacity (around capacity head i) p =
      if offset capacity head p < i then offset capacity head p + capacity - i
      else offset capacity head p - i := by
  unfold offset around; split_ifs <;> omega

theorem offset_next {capacity head p : Nat} (hh : head < capacity) (hp : p < capacity) :
    offset capacity head (around capacity p 1) =
      if offset capacity head p + 1 = capacity then 0 else offset capacity head p + 1 := by
  unfold offset around; split_ifs <;> omega

theorem offset_prev {capacity head p : Nat} (hh : head < capacity) (hp : p < capacity) :
    offset capacity head (around capacity p (capacity - 1)) =
      if offset capacity head p = 0 then capacity - 1 else offset capacity head p - 1 := by
  unfold offset around; split_ifs <;> omega

theorem offset_eq_zero {capacity head p : Nat} (hh : head < capacity) :
    offset capacity head p = 0 ↔ p = head := by
  unfold offset; split_ifs <;> omega

/-- Going on twice is going on once. -/
theorem around_around {capacity head i j : Nat} (hh : head < capacity) (hij : i + j ≤ capacity) :
    around capacity (around capacity head i) j = around capacity head (i + j) := by
  unfold around; split_ifs <;> omega

/-- One slot back from just behind the elements is the slot of the last one. -/
theorem around_pred {capacity head n : Nat} (hh : head < capacity) (hn : n + 1 < capacity) :
    around capacity (around capacity head (n + 1)) (capacity - 1) = around capacity head n := by
  unfold around; split_ifs <;> omega

/-- Masking a position that is off by one turn at most. -/
theorem wrap_cast {capacity : Nat} (hc : ∃ k, capacity = Nat.pow 2 k) (position : Int)
    (hlo : -(capacity : Int) ≤ position) (hhi : position < 2 * capacity) :
    (wrap capacity position : Int) =
      if position < 0 then position + capacity
      else if position < capacity then position else position - capacity := by
  obtain ⟨k, rfl⟩ := hc
  rw [wrap_two_pow]
  generalize Nat.pow 2 k = c at *
  split
  · rw [← Int.add_emod_right, Int.emod_eq_of_lt (by omega) (by omega)]; omega
  · split
    · rw [Int.emod_eq_of_lt (by omega) (by omega)]; omega
    · have h := Int.sub_emod_right position c
      rw [← h, Int.emod_eq_of_lt (by omega) (by omega)]; omega

theorem wrap_add {capacity : Nat} (hc : ∃ k, capacity = Nat.pow 2 k) {head i : Nat}
    (hh : head < capacity) (hi : i ≤ capacity) :
    wrap capacity ((head : Int) + i) = around capacity head i := by
  have h := wrap_cast hc ((head : Int) + i) (by omega) (by omega)
  unfold around
  split at h
  · omega
  · split at h <;> split <;> omega

theorem wrap_succ {capacity : Nat} (hc : ∃ k, capacity = Nat.pow 2 k) {p : Nat} (hp : p < capacity) :
    wrap capacity ((p : Int) + 1) = around capacity p 1 :=
  wrap_add hc hp (i := 1) (by omega)

theorem wrap_pred {capacity : Nat} (hc : ∃ k, capacity = Nat.pow 2 k) {p : Nat} (hp : p < capacity) :
    wrap capacity ((p : Int) - 1) = around capacity p (capacity - 1) := by
  have h := wrap_cast hc ((p : Int) - 1) (by omega) (by omega)
  unfold around
  split at h
  · split <;> omega
  · split at h <;> split <;> omega

theorem wrap_sub {capacity : Nat} (hc : ∃ k, capacity = Nat.pow 2 k) {p head : Nat}
    (hp : p < capacity) (hh : head < capacity) :
    wrap capacity ((p : Int) - head) = offset capacity head p := by
  have h := wrap_cast hc ((p : Int) - head) (by omega) (by omega)
  unfold offset
  split at h
  · split <;> omega
  · split at h <;> split <;> omega

/-! ## The layout -/

variable {α : Type} [Inhabited α]

/-- The elements `xs` lie from `head` on, and every slot behind them holds the default element. They
may fill all slots, as they do for the moment before a ring doubles. -/
structure Layout (slots : List α) (head : Nat) (xs : List α) : Prop where
  pow : ∃ k, slots.length = Nat.pow 2 k
  least : minCapacity ≤ slots.length
  most : slots.length ≤ maxCapacity
  head_lt : head < slots.length
  fits : xs.length ≤ slots.length
  slot : ∀ p < slots.length, slots.getD p default = xs.getD (offset slots.length head p) default

/-- A ring whose elements are `xs`. It is never full. -/
inductive Holds : Ring α → List α → Prop
  | mk (slots : List α) (head : Nat) {xs : List α} (layout : Layout slots head xs)
    (room : xs.length < slots.length) :
    Holds ⟨slots.toArray, head, around slots.length head xs.length⟩ xs

omit [Inhabited α] in
theorem getD_set (xs : List α) (i j : Nat) (a d : α) :
    (xs.set i a).getD j d = if i = j ∧ j < xs.length then a else xs.getD j d := by
  grind

omit [Inhabited α] in
theorem ext_getD {xs ys : List α} (d : α) (hlen : xs.length = ys.length)
    (h : ∀ i < xs.length, xs.getD i d = ys.getD i d) : xs = ys := by
  apply List.ext_getElem hlen
  intro i h1 h2
  simpa [h1, h2] using h i h1

/-- Other elements in as many slots are laid out as soon as every slot holds its own. -/
theorem Layout.rearrange {slots slots' : List α} {head head' : Nat} {xs xs' : List α} (l : Layout slots head xs)
    (hlen : slots'.length = slots.length) (hh : head' < slots.length) (hfits : xs'.length ≤ slots.length)
    (hslot : ∀ p < slots.length, slots'.getD p default = xs'.getD (offset slots.length head' p) default) :
    Layout slots' head' xs' where
  pow := by rw [hlen]; exact l.pow
  least := by rw [hlen]; exact l.least
  most := by rw [hlen]; exact l.most
  head_lt := by rwa [hlen]
  fits := by rwa [hlen]
  slot := by rwa [hlen]

theorem Layout.at_around {slots : List α} {head : Nat} {xs : List α} (l : Layout slots head xs) {i : Nat}
    (hi : i < slots.length) : slots.getD (around slots.length head i) default = xs.getD i default := by
  rw [l.slot _ (around_lt l.head_lt hi), offset_around l.head_lt hi]

/-! ## Pieces between bounds that are in range -/

section
variable {slots middle : List α} {first last : Int} {d : α} {p : Nat}

omit [Inhabited α] in
theorem clip_eq {size : Nat} (h0 : 0 ≤ first) (h1 : first ≤ size) : clip size first = first.toNat := by
  rw [clip, if_neg (by omega)]
  exact Nat.min_eq_left (by omega)

omit [Inhabited α] in
theorem length_piece (h0 : 0 ≤ first) (h1 : first ≤ last) (h2 : last ≤ slots.length) :
    (piece slots first last).length = (last - first).toNat := by
  rw [piece, clip_eq (by omega) h2, clip_eq h0 (by omega), List.length_drop, List.length_take]
  omega

omit [Inhabited α] in
theorem getD_piece (h0 : 0 ≤ first) (h1 : first ≤ last) (h2 : last ≤ slots.length)
    (hp : p < (last - first).toNat) : (piece slots first last).getD p d = slots.getD (first.toNat + p) d := by
  rw [piece, clip_eq (by omega) h2, clip_eq h0 (by omega)]
  simp only [List.getD_eq_getElem?_getD, List.getElem?_drop, List.getElem?_take]
  rw [if_pos (by omega)]

end

/-! ## What a ring answers when it is only read -/

section
variable {slots : List α} {head tail : Nat} {r : Ring α} {xs : List α}

omit [Inhabited α] in
@[simp]
theorem capacity_mk (first last : Int) : capacity ⟨slots.toArray, first, last⟩ = slots.length := by
  simp [capacity]

@[simp]
theorem read_mk (first last : Int) (p : Nat) : read ⟨slots.toArray, first, last⟩ p = slots.getD p default := by
  simp [read]

theorem Holds.length_lt (h : r.Holds xs) : xs.length < r.capacity := by
  obtain ⟨slots, head, l, hr⟩ := h
  rwa [capacity_mk]

theorem Holds.pow (h : r.Holds xs) : ∃ k, r.capacity = Nat.pow 2 k := by
  obtain ⟨slots, head, l, hr⟩ := h
  rw [capacity_mk]
  exact l.pow

theorem Holds.capacity_le (h : r.Holds xs) : r.capacity ≤ maxCapacity := by
  obtain ⟨slots, head, l, hr⟩ := h
  rw [capacity_mk]
  exact l.most

theorem Holds.length_eq (h : r.Holds xs) : r.length = xs.length := by
  obtain ⟨slots, head, l, hr⟩ := h
  rw [length, capacity_mk, wrap_sub l.pow (around_lt l.head_lt hr) l.head_lt, offset_around l.head_lt hr]

theorem Holds.isEmpty_iff (h : r.Holds xs) : r.isEmpty = true ↔ xs = [] := by
  obtain ⟨slots, head, l, hr⟩ := h
  have hh := l.head_lt
  simp only [isEmpty, beq_iff_eq, ← List.length_eq_zero_iff]
  unfold around
  split <;> omega

theorem Holds.isEmpty_eq (h : r.Holds xs) : r.isEmpty = xs.isEmpty := by
  rw [Bool.eq_iff_iff, h.isEmpty_iff, List.isEmpty_iff]

theorem Holds.hasIndex_iff (h : r.Holds xs) (index : Int) :
    r.hasIndex index = true ↔ 0 ≤ index ∧ index < xs.length := by
  simp [hasIndex, h.length_eq]

/-- The slot of an element, and what it holds. -/
theorem Holds.read_slot (h : r.Holds xs) {i : Nat} (hi : i < xs.length) : r.read (r.slot i) = xs[i] := by
  obtain ⟨slots, head, l, hr⟩ := h
  rw [slot, capacity_mk, wrap_add l.pow l.head_lt (by omega), read_mk, l.at_around (by omega)]
  simp [hi]

/-- The first element is in the slot at `head`. -/
theorem Holds.read_head {x : α} (h : r.Holds (x :: xs)) : r.read r.head.toNat = x := by
  obtain ⟨slots, head, l, hr⟩ := h
  have hat := l.at_around (i := 0) (by have := l.head_lt; omega)
  rw [around_zero l.head_lt] at hat
  simpa using hat

/-- The last element is in the slot before `tail`. -/
theorem Holds.read_last {x : α} (h : r.Holds (xs ++ [x])) :
    r.read (wrap r.capacity (r.tail - 1)) = x := by
  obtain ⟨slots, head, l, hr⟩ := h
  have hr' : xs.length + 1 < slots.length := by simpa using hr
  have hlast := around_pred l.head_lt hr'
  rw [capacity_mk, wrap_pred l.pow (around_lt l.head_lt hr), read_mk, List.length_append, List.length_singleton, hlast,
    l.at_around (by omega)]
  simp

/-- The slots from `head` up to the tail are the elements, in one piece or in two. -/
theorem Holds.toList_eq (h : r.Holds xs) : r.toList = xs := by
  obtain ⟨slots, head, l, hr⟩ := h
  have hh := l.head_lt
  simp only [toList]
  by_cases hn : head + xs.length < slots.length
  · have ht : around slots.length head xs.length = head + xs.length := if_pos hn
    rw [ht, if_pos (by omega)]
    have hlen : (piece slots head (head + xs.length : Nat)).length = xs.length := by
      rw [length_piece (by omega) (by omega) (by omega)]; omega
    refine ext_getD default hlen fun i hi => ?_
    rw [getD_piece (by omega) (by omega) (by omega) (by omega), ← l.at_around (by omega), around,
      if_pos (by omega)]
    rfl
  · have ht : around slots.length head xs.length = head + xs.length - slots.length := if_neg hn
    rw [ht, if_neg (by omega)]
    have hlow : (piece slots 0 (head + xs.length - slots.length : Nat)).length = _ :=
      length_piece (by omega) (by omega) (by omega)
    have hhigh : (piece slots head slots.length).length = _ := length_piece (by omega) (by omega) (by omega)
    refine ext_getD default (by rw [List.length_append, hlow, hhigh]; omega) fun i hi => ?_
    rw [List.length_append, hlow, hhigh] at hi
    rw [← l.at_around (by omega), around]
    split
    · rw [List.getD_append _ _ _ _ (by omega), getD_piece (by omega) (by omega) (by omega) (by omega)]
      rfl
    · rw [List.getD_append_right _ _ _ _ (by omega), hhigh,
        getD_piece (by omega) (by omega) (by omega) (by omega)]
      congr 1
      omega

end

end Pinboard.Ring
