import Pinboard.Proofs.Ring.Capacity
import Pinboard.Proofs.Ring.Validity

/-!
# What a deletion leaves in place

The element at an index is closed over from the side with fewer elements, so those of the other side stay in their
slots, and only the cursor behind the side that has moved moves too (`ClosesUp`). Main statement: this is so for every
index of every ring that there can be, however its elements lie around the end of the slots
(`deleteAt_closesUp`). That there can be a ring means that it was made, or left or copied out by a public request
(`Reachable`); no ring is followed past a push that finds no room.
-/

namespace Pinboard.Ring

variable {α : Type} [Inhabited α]

/-! ## The rings that there can be -/

/-- A ring that was made, or that came out of such a ring by public requests. -/
inductive Reachable : Ring α → Prop
  | made (origin : Origin α) {r : Ring α} (h : origin.ring = .ok r) : Reachable r
  | left {r r' : Ring α} {request : Operation α} {answer : Answer α} (before : Reachable r)
    (hpub : request.isPublic = true) (h : r.perform request = .ok (r', answer)) : Reachable r'
  | copied {r s : Ring α} {start : Int} {stop : Option Int} (before : Reachable r)
    (h : r.slice start stop = .ok s) : Reachable s

variable {r r' : Ring α} {xs : List α}

theorem Origin.length_lt {origin : Origin α} (h : origin.ring = .ok r) : origin.elements.length < maxCapacity := by
  cases origin with
  | empty => exact show 0 < maxCapacity by decide
  | singleton a => exact show 1 < maxCapacity by decide
  | ofList xs =>
    refine Nat.lt_of_not_le fun hle => ?_
    have herror := ofList_error hle
    cases h.symm.trans herror

theorem Holds.length_lt_maxCapacity (h : r.Holds xs) : xs.length < maxCapacity :=
  Nat.lt_of_lt_of_le h.length_lt h.capacity_le

theorem two_mul_le_of_doubleCapacity (h : r.doubleCapacity = .ok r') : 2 * r.capacity ≤ maxCapacity := by
  rw [doubleCapacity] at h
  split at h
  · cases h
  split at h
  · cases h
  · omega

/-- A push that takes the last free slot doubles the slots, for which there has to be room. -/
theorem Holds.two_mul_le_of_push (h : r.Holds xs) {p : Push α} (hpush : r.push p = .ok r')
    (hfull : xs.length + 1 = r.capacity) : 2 * r.capacity ≤ maxCapacity := by
  obtain ⟨slots, head, l, hr⟩ := h
  have hh := l.head_lt
  have ht := around_lt hh hr
  rw [capacity_mk] at hfull
  cases p with
  | front a =>
    have hmeet : around slots.length head (slots.length - 1) = around slots.length head xs.length := by
      rw [← hfull]
      rfl
    simp only [Ring.push, Ring.pushFront, capacity_mk, wrap_pred l.pow hh, hmeet, if_true] at hpush
    simpa [capacity] using two_mul_le_of_doubleCapacity hpush
  | back a =>
    have hmeet : around slots.length (around slots.length head xs.length) 1 = head := by
      unfold around; split_ifs <;> omega
    simp only [Ring.push, Ring.pushBack, capacity_mk, wrap_succ l.pow ht, hmeet, if_true] at hpush
    simpa [capacity] using two_mul_le_of_doubleCapacity hpush

/-- A push that is not refused has found room. -/
theorem Holds.of_push (h : r.Holds xs) {p : Push α} (hpush : r.push p = .ok r') : r'.Holds (p.onList xs) := by
  have hroom : xs.length + 1 < maxCapacity := by
    have hlt := h.length_lt
    have hle := h.capacity_le
    have hfull := h.two_mul_le_of_push hpush
    omega
  obtain ⟨s, hs, hholds⟩ := h.push p hroom
  cases hpush.symm.trans hs
  exact hholds

theorem Holds.of_pushes (h : r.Holds xs) {pushes : List (Push α)} (hpushes : pushes.foldlM Ring.push r = .ok r') :
    r'.Holds (pushes.foldl Push.onList xs) := by
  induction pushes generalizing r xs with
  | nil =>
    cases hpushes
    exact h
  | cons p pushes ih =>
    rw [List.foldlM_cons] at hpushes
    cases hpush : r.push p with
    | error cause =>
      rw [hpush] at hpushes
      cases hpushes
    | ok next =>
      rw [hpush] at hpushes
      exact ih (h.of_push hpush) hpushes

theorem Agree.holds {request : Operation α} {answer : Answer α} (h : Agree r xs request)
    (hperform : r.perform request = .ok (r', answer)) : ∃ ys, r'.Holds ys := by
  cases h with
  | refused cause hring hlist => cases hperform.symm.trans hring
  | done next out ys hring hlist hholds =>
    cases hperform.symm.trans hring
    exact ⟨ys, hholds⟩

/-- A public request that is not refused leaves a ring that holds some list. -/
theorem Holds.of_perform (h : r.Holds xs) {request : Operation α} {answer : Answer α}
    (hpub : request.isPublic = true) (hperform : r.perform request = .ok (r', answer)) : ∃ ys, r'.Holds ys := by
  cases request with
  | pushFront a =>
    cases hpush : r.pushFront a <;> rw [perform, hpush] at hperform <;> cases hperform
    exact ⟨_, h.of_push (p := .front a) hpush⟩
  | pushBack a =>
    cases hpush : r.pushBack a <;> rw [perform, hpush] at hperform <;> cases hperform
    exact ⟨_, h.of_push (p := .back a) hpush⟩
  | forEach pushes =>
    cases hpushes : (pushesAt pushes r.toList).foldlM Ring.push r <;> rw [perform, hpushes] at hperform <;>
      cases hperform
    exact ⟨_, h.of_pushes hpushes⟩
  | popFront | popBack | peekFront | peekBack => exact (h.agree_end (by simp)).holds hperform
  | get index | getD index _ | set index _ | edit index _ | deleteAt index | hasIndex index =>
    exact (h.agree_index index (by simp)).holds hperform
  | slice start stop =>
    cases hslice : r.slice start stop <;> rw [perform, hslice] at hperform <;> cases hperform
    exact ⟨xs, h⟩
  | isEmpty | length =>
    cases hperform
    exact ⟨xs, h⟩
  | clear =>
    cases hperform
    exact ⟨_, h.clear⟩
  | reverse =>
    cases hperform
    exact ⟨_, h.reverse⟩
  | truncateTo length =>
    cases hperform
    exact ⟨_, h.truncateTo length⟩
  | trimLeading test =>
    cases hperform
    exact ⟨_, h.trimLeading test⟩
  | deleteSlot _ | doubleCapacity => cases hpub

/-- A ring that there can be holds some list. -/
theorem Reachable.holds (h : r.Reachable) : ∃ xs, r.Holds xs := by
  induction h with
  | made origin h =>
    obtain ⟨s, hs, hholds⟩ := origin.ring_holds (Origin.length_lt h)
    cases h.symm.trans hs
    exact ⟨_, hholds⟩
  | left _ hpub h ih =>
    obtain ⟨xs, hholds⟩ := ih
    exact hholds.of_perform hpub h
  | copied _ h ih =>
    obtain ⟨xs, hholds⟩ := ih
    obtain ⟨copy, hcopy, hcopied⟩ := hholds.slice _ _ hholds.length_lt_maxCapacity
    cases h.symm.trans hcopy
    exact ⟨_, hcopied⟩

/-! ## Slots -/

omit [Inhabited α] in
/-- Going on from a slot is going on from the position that has been masked. -/
theorem wrap_wrap_add {capacity : Nat} (hc : ∃ k, capacity = Nat.pow 2 k) (position way : Int) :
    wrap capacity ((wrap capacity position : Nat) + way) = wrap capacity (position + way) := by
  obtain ⟨k, rfl⟩ := hc
  have hpos : (0 : Int) < (Nat.pow 2 k : Nat) := Int.natCast_pos.2 (Nat.two_pow_pos k)
  have hmod := Int.emod_nonneg position (Int.ne_of_gt hpos)
  simp only [wrap_two_pow]
  rw [Int.toNat_of_nonneg hmod, Int.emod_add_emod]

omit [Inhabited α] in
/-- A slot ahead of the one at `head` is as far ahead as it was once the cursor has moved up by one. -/
theorem slot_of_head_succ (hc : ∃ k, r.capacity = Nat.pow 2 k) (hcapacity : r'.capacity = r.capacity)
    (hhead : r'.head = wrap r.capacity (r.head + 1)) {j : Nat} (hj : 0 < j) : r'.slot (j - 1 : Nat) = r.slot j := by
  rw [slot, slot, hcapacity, hhead, wrap_wrap_add hc]
  congr 1
  omega

omit [Inhabited α] in
/-- Without the first slot or without the last one there are no more slots between the cursors. -/
theorem Occupies.of_cursors {capacity p : Nat} (hc : ∃ k, capacity = Nat.pow 2 k)
    (hhead : 0 ≤ r.head ∧ r.head < capacity) (htail : 0 ≤ r.tail ∧ r.tail < capacity) (hne : r.head ≠ r.tail)
    (hcursors : r'.head = wrap capacity (r.head + 1) ∧ r'.tail = r.tail ∨
      r'.tail = wrap capacity (r.tail - 1) ∧ r'.head = r.head) (h : r'.Occupies p) : r.Occupies p := by
  have hnext := wrap_cast hc (r.head + 1) (by omega) (by omega)
  have hlast := wrap_cast hc (r.tail - 1) (by omega) (by omega)
  unfold Occupies at h ⊢
  rcases hcursors with ⟨hh, ht⟩ | ⟨ht, hh⟩
  · rw [hh, ht, hnext] at h
    split_ifs at h ⊢ <;> omega
  · rw [hh, ht, hlast] at h
    split_ifs at h ⊢ <;> omega

/-! ## Deleting -/

/-- How a ring is closed over the element at an index. If there are no more elements before it than behind it, the
head moves up, and the elements behind it stay in their slots; else the tail moves back, and the elements before it
stay. Slots that were free are free. -/
structure ClosesUp (r : Ring α) (i : Nat) (r' : Ring α) : Prop where
  elements : r'.toList = r.toList.eraseIdx i
  capacity : r'.capacity = r.capacity
  front : i ≤ r.length - 1 - i →
    r'.head = wrap r.capacity (r.head + 1) ∧ r'.tail = r.tail ∧
      ∀ j, i < j → j < r.length → r'.slot (j - 1 : Nat) = r.slot j ∧ r'.read (r.slot j) = r.read (r.slot j)
  back : r.length - 1 - i < i →
    r'.tail = wrap r.capacity (r.tail - 1) ∧ r'.head = r.head ∧
      ∀ j < i, r'.slot j = r.slot j ∧ r'.read (r.slot j) = r.read (r.slot j)
  free : ∀ p < r.capacity, ¬r.Occupies p → r.slots[p]? = some default ∧ r'.slots[p]? = some default

/-- The cursor on the side with fewer elements moves by one slot. -/
theorem Holds.cursors_of_deleteSlot (h : r.Holds xs) {i : Nat} (hi : i < xs.length)
    (hr : r.deleteSlot (r.slot i) = .ok r') :
    (i ≤ xs.length - 1 - i → r'.head = wrap r.capacity (r.head + 1) ∧ r'.tail = r.tail) ∧
      (xs.length - 1 - i < i → r'.tail = wrap r.capacity (r.tail - 1) ∧ r'.head = r.head) := by
  have hlength := h.length_eq
  obtain ⟨slots, head, l, hroom⟩ := h
  have hh := l.head_lt
  have hp := around_lt hh (i := i) (by omega)
  have ht := around_lt hh hroom
  have hslot : slot ⟨slots.toArray, head, around slots.length head xs.length⟩ i = around slots.length head i := by
    rw [slot, capacity_mk, wrap_add l.pow hh (by omega)]
  have hback : offset slots.length (around slots.length head i) (around slots.length head xs.length)
      = xs.length - i := by
    rw [offset_from hh ht (by omega), offset_around hh hroom, if_neg (by omega)]
  have hlast := wrap_cast l.pow ((around slots.length head xs.length : Int) - 1) (by omega) (by omega)
  simp only [Ring.deleteSlot, hlength, hslot, capacity_mk, wrap_sub l.pow hp hh, wrap_sub l.pow ht hp,
    offset_around hh (by omega : i < slots.length), hback] at hr
  rw [if_neg (by omega)] at hr
  split at hr
  next hfront =>
    cases hr
    refine ⟨fun _ => ⟨by rw [capacity_mk], rfl⟩, fun _ => ?_⟩
    omega
  next hfront =>
    cases hr
    refine ⟨fun _ => ?_, fun _ => ⟨?_, rfl⟩⟩
    · omega
    rw [capacity_mk]
    dsimp only
    rw [hlast]
    split_ifs <;> omega

/-- An element that has kept its slot is still read there. -/
theorem Holds.read_eq (h : r.Holds xs) {ys : List α} (h' : r'.Holds ys) {i j : Nat} (hi : i < xs.length)
    (hj : j < ys.length) (hslot : r'.slot j = r.slot i) (helement : ys[j] = xs[i]) :
    r'.read (r.slot i) = r.read (r.slot i) := by
  rw [← hslot, h'.read_slot hj, hslot, h.read_slot hi, helement]

theorem Holds.closesUp (h : r.Holds xs) {i : Nat} (hi : i < xs.length) (hr : r.deleteSlot (r.slot i) = .ok r')
    (h' : r'.Holds (xs.eraseIdx i)) : r.ClosesUp i r' := by
  have hlength := h.length_eq
  have hcapacity := h.capacity_deleteSlot hi hr
  have herase := List.length_eraseIdx_of_lt hi
  have hvalid := h.isValid
  obtain ⟨hfront, hback⟩ := h.cursors_of_deleteSlot hi hr
  refine ⟨by rw [h'.toList_eq, h.toList_eq], hcapacity, fun hle => ?_, fun hlt => ?_, fun p hp hfree => ?_⟩
  · obtain ⟨hhead, htail⟩ := hfront (by omega)
    refine ⟨hhead, htail, fun j hij hj => ?_⟩
    have hslot : r'.slot (j - 1 : Nat) = r.slot j := slot_of_head_succ h.pow hcapacity hhead (by omega)
    refine ⟨hslot, h.read_eq h' (by omega) (by omega) hslot ?_⟩
    rw [List.getElem_eraseIdx, dif_neg (by omega)]
    congr 1
    omega
  · obtain ⟨htail, hhead⟩ := hback (by omega)
    refine ⟨htail, hhead, fun j hj => ?_⟩
    have hslot : r'.slot j = r.slot j := by rw [slot, slot, hcapacity, hhead]
    refine ⟨hslot, h.read_eq h' (by omega) (by omega) hslot ?_⟩
    rw [List.getElem_eraseIdx, dif_pos hj]
  · have hp' : p < r'.capacity := by rwa [hcapacity]
    refine ⟨hvalid.free p hp hfree, h'.isValid.free p hp' fun hoccupied => hfree ?_⟩
    have hne : r.head ≠ r.tail := mt hvalid.empty_iff.1 (by omega)
    refine hoccupied.of_cursors h.pow hvalid.head_range hvalid.tail_range hne ?_
    rcases Nat.lt_or_ge (xs.length - 1 - i) i with hlt | hle
    · exact .inr (hback hlt)
    · exact .inl (hfront hle)

/-- Whatever was done to a ring before, deleting the element at an index moves the shorter side of the elements by one
slot and leaves the longer one where it is. -/
theorem deleteAt_closesUp (h : r.Reachable) {i : Nat} (hi : i < r.length) :
    ∃ r', r.deleteAt i = .ok r' ∧ r.ClosesUp i r' := by
  obtain ⟨xs, hholds⟩ := h.holds
  rw [hholds.length_eq] at hi
  obtain ⟨r', hr, hholds'⟩ := hholds.deleteSlot hi
  refine ⟨r', ?_, hholds.closesUp hi hr hholds'⟩
  rw [Ring.deleteAt, if_pos ((hholds.hasIndex_iff i).2 ⟨by omega, by omega⟩), hr]

/-- The elements lie around the end of the slots: the first one is in the last slot. Deleting the second one moves the
head across the end, and deleting the fifth one moves the tail back. -/
theorem deleteAt_closesUp_wrapped :
    ∃ r : Ring Nat, r.toList = [9, 1, 2, 3, 4, 5] ∧ r.head = 7 ∧ r.tail = 5 ∧
      (∃ r', r.deleteAt (1 : Nat) = .ok r' ∧ r.ClosesUp 1 r') ∧
      ∃ r', r.deleteAt (4 : Nat) = .ok r' ∧ r.ClosesUp 4 r' := by
  have hmade : (⟨#[1, 2, 3, 4, 5, 0, 0, 0], 0, 5⟩ : Ring Nat).Reachable := .made (.ofList [1, 2, 3, 4, 5]) rfl
  have hpush : perform ⟨#[1, 2, 3, 4, 5, 0, 0, 0], 0, 5⟩ (.pushFront 9)
      = .ok ((⟨#[1, 2, 3, 4, 5, 0, 0, 9], 7, 5⟩ : Ring Nat), .nothing) := rfl
  have hpushed := hmade.left rfl hpush
  refine ⟨⟨#[1, 2, 3, 4, 5, 0, 0, 9], 7, 5⟩, rfl, rfl, rfl, ?_, ?_⟩
  · exact deleteAt_closesUp hpushed (i := 1) (by decide)
  · exact deleteAt_closesUp hpushed (i := 4) (by decide)

end Pinboard.Ring
