import Mathlib.Order.Bounds.Defs
import Pinboard.Proofs.Ring.Capacity
import Pinboard.Proofs.Ring.Validity

/-!
# The capacity for a count is the least one

A new ring is given its slots for a count of elements, which may be any integer. Main statement: it gets the least
power of two from eight on that is more than the count, or none if the largest ring has no more slots than that; more
elements get no fewer slots, and as many pushes as the count, in whatever order at both ends, do not fill an empty ring
of that capacity (`capacityFor_isLeast`).
-/

namespace Pinboard.Ring

/-- A ring with so many slots may exist and still has a free one when it holds so many elements. -/
structure IsCapacityFor (count : Int) (capacity : Nat) : Prop where
  pow : ∃ k, capacity = Nat.pow 2 k
  least : 8 ≤ capacity
  room : count < capacity

variable {count : Int} {c : Nat}

/-- A count below zero is as good as none. -/
theorem capacityFor_toNat (count : Int) : capacityFor count.toNat = capacityFor count := by
  rcases Int.le_total 0 count with h | h
  · rw [Int.toNat_of_nonneg h]
  · have hsmall : count < minCapacity := Int.lt_of_le_of_lt h (by decide)
    have hzero : (count.toNat : Int) < minCapacity := by
      rw [Int.toNat_of_nonpos h]
      decide
    rw [capacityFor, capacityFor, if_pos hsmall, if_pos hzero]

theorem isCapacityFor_toNat : IsCapacityFor count.toNat c ↔ IsCapacityFor count c := by
  constructor
  · rintro ⟨hpow, hleast, hroom⟩
    exact ⟨hpow, hleast, by omega⟩
  · rintro ⟨hpow, hleast, hroom⟩
    exact ⟨hpow, hleast, by omega⟩

/-- The capacity that is given is one for the count, and none below it is. -/
theorem isLeast_of_capacityFor (h : capacityFor count = .ok c) :
    c ≤ maxCapacity ∧ IsLeast {d | IsCapacityFor count d} c := by
  rw [← capacityFor_toNat] at h
  obtain ⟨hpow, hleast, hmost, hlt, hle⟩ := capacityFor_of_ok h
  refine ⟨hmost, isCapacityFor_toNat.1 ⟨hpow, hleast, by omega⟩, ?_⟩
  intro d hd
  obtain ⟨hdpow, hdleast, hdroom⟩ := isCapacityFor_toNat.2 hd
  rcases hle with rfl | hle
  · exact hdleast
  · by_contra hlower
    have htwice := two_mul_le_of_lt hdpow hpow (Nat.lt_of_not_le hlower)
    omega

/-- A capacity is given as long as the largest ring has more slots than the count. -/
theorem capacityFor_ok_of_lt (h : count < maxCapacity) : ∃ c, capacityFor count = .ok c := by
  rw [← capacityFor_toNat]
  have hmost : 0 < maxCapacity := by decide
  obtain ⟨c, hc, -⟩ := capacityFor_spec (n := count.toNat) (by omega)
  exact ⟨c, hc⟩

theorem capacityFor_ok_iff : capacityFor count = .ok c ↔ c ≤ maxCapacity ∧ IsLeast {d | IsCapacityFor count d} c := by
  refine ⟨isLeast_of_capacityFor, ?_⟩
  rintro ⟨hmost, hleast⟩
  have hroom := hleast.1.room
  obtain ⟨d, hd⟩ := capacityFor_ok_of_lt (by omega : count < maxCapacity)
  obtain ⟨-, hmem, hlower⟩ := isLeast_of_capacityFor hd
  rw [hd, Nat.le_antisymm (hlower hleast.1) (hleast.2 hmem)]

theorem capacityFor_error_iff (cause : RingError) :
    capacityFor count = .error cause ↔ maxCapacity ≤ count ∧ cause = .tooManyElements count := by
  rcases Int.lt_or_le count maxCapacity with h | h
  · obtain ⟨c, hc⟩ := capacityFor_ok_of_lt h
    rw [hc]
    exact iff_of_false nofun fun hcause => by omega
  · have hnonneg : 0 ≤ count := by omega
    have herror := capacityFor_error (n := count.toNat) (by omega)
    rw [Int.toNat_of_nonneg hnonneg] at herror
    rw [herror, Except.error.injEq, eq_comm]
    exact (and_iff_right h).symm

/-- Up to the largest ring there is a capacity for the count exactly if that ring has more slots. -/
theorem exists_isCapacityFor_iff : (∃ c ≤ maxCapacity, IsCapacityFor count c) ↔ count < maxCapacity := by
  constructor
  · rintro ⟨c, hmost, hc⟩
    have hroom := hc.room
    omega
  · intro h
    exact ⟨maxCapacity, Nat.le_refl _, ⟨30, rfl⟩, by decide, h⟩

/-- More elements get no fewer slots. -/
theorem capacityFor_mono {more : Int} {d : Nat} (hle : count ≤ more) (hc : capacityFor count = .ok c)
    (hd : capacityFor more = .ok d) : c ≤ d := by
  obtain ⟨hpow, hleast, hroom⟩ := (isLeast_of_capacityFor hd).2.1
  exact (isLeast_of_capacityFor hc).2.2 ⟨hpow, hleast, by omega⟩

/-- A ring without elements that has the capacity for a count takes as many pushes, at either end, and keeps its slots:
one of them is free still. -/
theorem IsSound.pushes_of_capacityFor {α : Type} [Inhabited α] {r : Ring α} (h : r.IsSound) (hempty : r.isEmpty = true)
    (hc : capacityFor count = .ok r.capacity) {pushes : List (Push α)} (hle : pushes.length ≤ count) :
    ∃ s, pushes.foldlM Ring.push r = .ok s ∧ s.toList = pushes.foldl Push.onList [] ∧ s.capacity = r.capacity ∧
      s.length < s.capacity := by
  have hholds := h.holds
  rw [hholds.isEmpty_iff.1 hempty] at hholds
  have hroom := (isLeast_of_capacityFor hc).2.1.room
  have hfree : ([] : List α).length + pushes.length < r.capacity := by
    rw [List.length_nil]
    omega
  obtain ⟨s, hs, hpushed, hsame⟩ := hholds.pushes_room hfree
  exact ⟨s, hs, hpushed.toList_eq, hsame, hpushed.length_eq ▸ hpushed.length_lt⟩

/-- For every count, the capacity is the least power of two from eight on that is more than the count. It is refused
exactly if the count is the slots of the largest ring or more, which is when no such power is a capacity of a ring. So
more elements get no fewer slots; and an empty ring of that capacity, wherever its cursors are, takes as many pushes as
the count without being filled: after any number of them up to the count it has the slots that it had, and one of them
is free. -/
theorem capacityFor_isLeast {α : Type} [Inhabited α] (count : Int) :
    (∀ c, capacityFor count = .ok c ↔ c ≤ Nat.pow 2 30 ∧ IsLeast {c | IsCapacityFor count c} c) ∧
      (∀ cause, capacityFor count = .error cause ↔ (Nat.pow 2 30 : Nat) ≤ count ∧ cause = .tooManyElements count) ∧
      ((Nat.pow 2 30 : Nat) ≤ count ↔ ¬∃ c ≤ Nat.pow 2 30, IsCapacityFor count c) ∧
      (∀ more c d, count ≤ more → capacityFor count = .ok c → capacityFor more = .ok d → c ≤ d) ∧
      ∀ (r : Ring α) (pushes : List (Push α)), r.IsSound → r.isEmpty = true → capacityFor count = .ok r.capacity →
        pushes.length ≤ count →
          ∃ s, pushes.foldlM Ring.push r = .ok s ∧ s.toList = pushes.foldl Push.onList [] ∧ s.capacity = r.capacity ∧
            s.length < s.capacity := by
  refine ⟨fun _ => capacityFor_ok_iff, capacityFor_error_iff, ?_, fun _ _ _ => capacityFor_mono, ?_⟩
  · exact Int.not_lt.symm.trans (not_congr exists_isCapacityFor_iff.symm)
  · intro r pushes hsound hempty hcapacity hle
    exact hsound.pushes_of_capacityFor hempty hcapacity hle

/-- Eight elements get sixteen slots: an empty ring of that size with its cursors at the last slot takes eight pushes
at both ends. -/
theorem capacityFor_isLeast_eight :
    capacityFor 8 = .ok 16 ∧ IsLeast {c | IsCapacityFor 8 c} 16 ∧
      ∃ s, [Push.back 1, .front 2, .back 3, .back 4, .front 5, .back 6, .back 7, .front 8].foldlM Ring.push
          (⟨Array.replicate 16 0, 15, 15⟩ : Ring Nat) = .ok s ∧
        s.toList = [8, 5, 2, 1, 3, 4, 6, 7] ∧ s.capacity = 16 ∧ s.length < s.capacity := by
  have hcapacity : capacityFor 8 = .ok 16 := rfl
  have hlayout : Layout (List.replicate 16 0) 15 ([] : List Nat) :=
    (Layout.replicate ⟨4, rfl⟩ (by decide) (by decide)).rearrange rfl (by decide) (by decide) (by decide)
  have hholds : (⟨Array.replicate 16 0, 15, 15⟩ : Ring Nat).Holds [] := .mk _ 15 hlayout (by decide)
  obtain ⟨hok, -, -, -, hpushes⟩ := capacityFor_isLeast (α := Nat) 8
  exact ⟨hcapacity, ((hok 16).1 hcapacity).2, hpushes _ _ hholds.isSound rfl hcapacity (by decide)⟩

end Pinboard.Ring
