import Pinboard.Proofs.Ring.Capacity
import Pinboard.Proofs.Ring.Validity

/-!
# Which slots may be deleted

A slot to delete is looked at through the mask of the ring, so the test whether it holds an element sees only where it
lies after whole turns around the slots. Main statement: of a ring that is in order, a slot is refused exactly if no
element lies there after whole turns, and the slot of an element is deleted as it should be (`deleteSlot_exact`). A
number that is not the number of any slot is therefore accepted if it is whole turns away from the slot of an element,
and then the slots that move are not those that should (`deleteSlot_beyond_slots`).
-/

namespace Pinboard.Ring

variable {α : Type} [Inhabited α] {r : Ring α} {xs : List α}

/-- Whether the slot of an element is whole turns around the slots away from a position. -/
def MeetsElement (r : Ring α) (position : Int) : Prop := ∃ i < r.length, position % r.capacity = r.slot i

omit [Inhabited α] in
/-- Masking a distance from a slot sees only where the position lies after whole turns. -/
theorem wrap_sub_emod {capacity head : Nat} (hc : ∃ k, capacity = Nat.pow 2 k) (hh : head < capacity) (position : Int) :
    wrap capacity (position - head) = offset capacity head (position % capacity).toNat := by
  have hlow := Int.emod_nonneg position (by omega : (capacity : Int) ≠ 0)
  have hhigh := Int.emod_lt_of_pos position (by omega : (0 : Int) < capacity)
  have hturned : wrap capacity (position - head) = wrap capacity (position % capacity - head) := by
    obtain ⟨k, rfl⟩ := hc
    rw [wrap_two_pow, wrap_two_pow, Int.emod_sub_emod]
  rw [hturned, ← Int.toNat_of_nonneg hlow, wrap_sub hc (by omega) hh, Int.toNat_natCast]

/-- The test for an element at a position, as the deletion makes it. -/
theorem Holds.meetsElement_iff (h : r.Holds xs) (position : Int) :
    r.MeetsElement position ↔ wrap r.capacity (position - r.head) < r.length := by
  have hlength := h.length_eq
  obtain ⟨slots, head, l, hr⟩ := h
  have hh := l.head_lt
  have hlow := Int.emod_nonneg position (by omega : (slots.length : Int) ≠ 0)
  have hhigh := Int.emod_lt_of_pos position (by omega : (0 : Int) < slots.length)
  have hslot (i : Nat) (hi : i < xs.length) :
      slot ⟨slots.toArray, head, around slots.length head xs.length⟩ i = around slots.length head i := by
    rw [slot, capacity_mk, wrap_add l.pow hh (by omega)]
  rw [MeetsElement, hlength, capacity_mk, wrap_sub_emod l.pow hh]
  have hp : (position % slots.length).toNat < slots.length := by omega
  constructor
  · rintro ⟨i, hi, hposition⟩
    rw [hslot i hi] at hposition
    have hoffset := (offset_eq_iff hh hp (by omega : i < slots.length)).2 (by omega)
    rwa [hoffset]
  · intro hlt
    refine ⟨_, hlt, ?_⟩
    have haround := (offset_eq_iff hh hp (offset_lt hh hp)).1 rfl
    rw [hslot _ hlt]
    omega

/-- A position is refused exactly if no element is whole turns away. -/
theorem Holds.deleteSlot_error_iff (h : r.Holds xs) (position : Int) (cause : RingError) :
    r.deleteSlot position = .error cause ↔
      ¬r.MeetsElement position ∧ cause = .outsideRing position r.head r.tail := by
  rw [h.meetsElement_iff, Nat.not_lt]
  simp only [Ring.deleteSlot]
  split
  next hle =>
    rw [Except.error.injEq]
    exact ⟨fun h => ⟨hle, h.symm⟩, fun h => h.2.symm⟩
  next hnot =>
    refine iff_of_false ?_ (fun h => absurd h.1 hnot)
    intro h
    split at h <;> cases h

/-- Every other position is accepted. -/
theorem Holds.deleteSlot_ok_iff (h : r.Holds xs) (position : Int) :
    (∃ r', r.deleteSlot position = .ok r') ↔ r.MeetsElement position := by
  have herror := h.deleteSlot_error_iff position
  cases hdelete : r.deleteSlot position with
  | ok r' =>
    refine iff_of_true ⟨r', rfl⟩ ?_
    by_contra hnone
    cases hdelete.symm.trans ((herror _).2 ⟨hnone, rfl⟩)
  | error cause => exact iff_of_false nofun ((herror cause).1 hdelete).1

omit [Inhabited α] in
/-- Among the numbers of the slots themselves nothing is whole turns away from anything else. -/
theorem meetsElement_of_slot {position : Int} (hlow : 0 ≤ position) (hhigh : position < r.capacity) :
    r.MeetsElement position ↔ ∃ i < r.length, position = r.slot i := by
  rw [MeetsElement, Int.emod_eq_of_lt hlow hhigh]

/-- Of a ring that is in order, the slot of each element can be deleted. That element goes and no other, the ring is in
order again, and it has as many slots. A position is refused exactly if no element lies there after whole turns around
the slots, with its number and the cursors in the words for it, and then the ring stays as it is. For the slots
themselves these are all the positions at which there is no element; beyond them, and below zero, a position is
accepted although it is no slot if it is whole turns away from an element. -/
theorem deleteSlot_exact (h : r.IsSound) :
    (∀ i < r.length, ∃ r', r.deleteSlot (r.slot i) = .ok r' ∧ r'.toList = r.toList.eraseIdx i ∧ r'.IsSound ∧
        r'.capacity = r.capacity) ∧
      (∀ position, ¬r.MeetsElement position → Ring.run perform r [.deleteSlot position] =
        [⟨r, .deleteSlot position, .error (.outsideRing position r.head r.tail), r⟩]) ∧
      (∀ position, (∃ r', r.deleteSlot position = .ok r') ↔ r.MeetsElement position) ∧
      ∀ position : Int, 0 ≤ position → position < r.capacity →
        (r.MeetsElement position ↔ ∃ i < r.length, position = r.slot i) := by
  have hholds := h.holds
  refine ⟨?_, ?_, hholds.deleteSlot_ok_iff, fun position => meetsElement_of_slot⟩
  · intro i hi
    rw [hholds.length_eq] at hi
    obtain ⟨r', hr', hholds'⟩ := hholds.deleteSlot hi
    exact ⟨r', hr', hholds'.toList_eq, hholds'.isSound, hholds.capacity_deleteSlot hi hr'⟩
  · intro position hnone
    have herror := (hholds.deleteSlot_error_iff position _).2 ⟨hnone, rfl⟩
    have hperform : r.perform (.deleteSlot position) = .error (.outsideRing position r.head r.tail) := by
      rw [perform, herror]
      rfl
    simp only [Ring.run, hperform]

/-- Three elements around the end of the slots, from the last slot on. -/
def turnedRing : Ring Nat := ⟨#[2, 3, 0, 0, 0, 0, 0, 1], 7, 2⟩

theorem turnedRing_isSound : turnedRing.IsSound := by
  obtain ⟨r, hr, hholds⟩ := ofList_holds [2, 3] (by decide)
  obtain ⟨r', hr', hholds'⟩ := hholds.pushFront 1 (by decide)
  cases hr
  cases hr'
  exact hholds'.isSound

/-- The slot across the end is deleted, and the free ones are refused. -/
theorem deleteSlot_exact_turned :
    turnedRing.IsSound ∧ (∃ r', turnedRing.deleteSlot 0 = .ok r' ∧ r'.toList = [1, 3] ∧ r'.IsSound ∧ r'.capacity = 8) ∧
      Ring.run perform turnedRing [.deleteSlot 5] =
        [⟨turnedRing, .deleteSlot 5, .error (.outsideRing 5 7 2), turnedRing⟩] := by
  obtain ⟨hdelete, hrefuse, -, -⟩ := deleteSlot_exact turnedRing_isSound
  exact ⟨turnedRing_isSound, hdelete 1 (by decide), hrefuse 5 (by unfold MeetsElement; decide)⟩

/-- Three elements in the first slots. -/
def straightRing : Ring Nat := ⟨#[1, 2, 3, 0, 0, 0, 0, 0], 0, 3⟩

/-- Position 8 is one turn away from the first element and no slot, and yet it is accepted: afterwards there are nine
slots, and the element that is out of sight is the last one. -/
theorem deleteSlot_beyond_slots :
    straightRing.IsSound ∧ (∀ i < straightRing.length, (8 : Int) ≠ straightRing.slot i) ∧
      ∃ r', straightRing.deleteSlot 8 = .ok r' ∧ r'.slots = #[0, 1, 2, 3, 0, 0, 0, 0, 0] ∧ r'.toList = [1, 2] ∧
        ¬r'.IsSound := by
  obtain ⟨r, hr, hholds⟩ := ofList_holds [1, 2, 3] (by decide)
  cases hr
  refine ⟨hholds.isSound, by decide, _, rfl, rfl, rfl, ?_⟩
  intro hsound
  obtain ⟨k, hk⟩ := hsound.valid.pow
  have hnine : 9 = Nat.pow 2 k := hk
  cases k with
  | zero => cases hnine
  | succ k =>
    have heven : 9 = Nat.pow 2 k * 2 := hnine
    omega

end Pinboard.Ring
