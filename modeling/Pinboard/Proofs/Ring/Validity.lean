import Pinboard.Proofs.Ring.Refinement

/-!
# The slots and cursors of a ring

What holds of the slots and the cursors of a ring with `count` elements at all times is `IsValid`: the slots
are a power of two and at least eight, both cursors are slots, there is a free slot at least, and every slot
that is not from `head` up to `tail` holds the default element. Main statement: it holds of every ring that is
made, after every request, between any two pushes of a request that pushes for each element, and of every ring
that is copied out (`run_isValid`). The count is that of the list to which the same was done, not the distance
of the cursors.
-/

namespace Pinboard.Ring

variable {α : Type}

/-- Whether a slot is from `head` up to but not including `tail`, around the end. -/
def Occupies (r : Ring α) (p : Nat) : Prop :=
  if r.head ≤ r.tail then r.head ≤ p ∧ p < r.tail else r.head ≤ p ∨ p < r.tail

variable [Inhabited α]

/-- The slots and the cursors of a ring with so many elements are in order. -/
structure IsValid (r : Ring α) (count : Nat) : Prop where
  pow : ∃ k, r.slots.size = Nat.pow 2 k
  least : 8 ≤ r.slots.size
  head_range : 0 ≤ r.head ∧ r.head < r.slots.size
  tail_range : 0 ≤ r.tail ∧ r.tail < r.slots.size
  not_full : count < r.slots.size
  empty_iff : r.head = r.tail ↔ count = 0
  free : ∀ p < r.slots.size, ¬r.Occupies p → r.slots[p]? = some default

variable {r : Ring α} {xs : List α}

/-- A slot that is not between the cursors lies behind the last element. -/
theorem Layout.length_le_offset {slots : List α} {head p : Nat} (l : Layout slots head xs)
    (hr : xs.length < slots.length)
    (hfree : ¬Occupies ⟨slots.toArray, head, around slots.length head xs.length⟩ p) :
    xs.length ≤ offset slots.length head p := by
  have hh := l.head_lt
  unfold Occupies at hfree
  unfold around at hfree
  unfold offset
  dsimp only at hfree
  split_ifs at hfree ⊢ <;> omega

/-- A ring that holds a list is in order. -/
theorem Holds.isValid (h : r.Holds xs) : r.IsValid xs.length := by
  have hempty := h.isEmpty_iff
  rw [isEmpty, beq_iff_eq, ← List.length_eq_zero_iff] at hempty
  obtain ⟨slots, head, l, hr⟩ := h
  have hh := l.head_lt
  have ht := around_lt hh hr
  refine ⟨?_, ?_, ?_, ?_, ?_, hempty, ?_⟩
  · simpa using l.pow
  · simpa [minCapacity] using l.least
  · simp; omega
  · simp; omega
  · simpa using hr
  · intro p hp hfree
    rw [List.size_toArray] at hp
    have hslot := l.slot p hp
    rw [List.getD_eq_default _ _ (l.length_le_offset hr hfree)] at hslot
    simpa [hp] using hslot

/-! ## Rings that are in order for the elements that they show -/

/-- The slots and the cursors of a ring are in order for as many elements as the cursors are apart, and there are
no more slots than in the largest ring. -/
structure IsSound (r : Ring α) : Prop where
  valid : r.IsValid r.length
  most : r.capacity ≤ maxCapacity

theorem Holds.isSound (h : r.Holds xs) : r.IsSound := ⟨h.length_eq ▸ h.isValid, h.capacity_le⟩

omit [Inhabited α] in
/-- A slot that lies as far behind `head` as there are elements, or farther, is not between the cursors. -/
theorem not_occupies_of_le {slots : Array α} {head tail p : Nat} (hh : head < slots.size) (hp : p < slots.size)
    (hle : offset slots.size head tail ≤ offset slots.size head p) :
    ¬Occupies ⟨slots, head, tail⟩ p := by
  unfold offset at hle
  unfold Occupies
  dsimp only
  split_ifs at hle ⊢ <;> omega

/-- A ring that is in order holds the elements that it shows. -/
theorem IsSound.holds (h : r.IsSound) : r.Holds r.toList := by
  obtain ⟨⟨hpow, hleast, hheadRange, htailRange, hfull, -, hfree⟩, hmost⟩ := h
  obtain ⟨slots, head, tail⟩ := r
  obtain ⟨head, rfl⟩ := Int.eq_ofNat_of_zero_le hheadRange.1
  obtain ⟨tail, rfl⟩ := Int.eq_ofNat_of_zero_le htailRange.1
  dsimp only at hpow hleast hheadRange htailRange hfull hfree
  have hh : head < slots.size := by omega
  have ht : tail < slots.size := by omega
  have hlength : length ⟨slots, head, tail⟩ = offset slots.size head tail := wrap_sub hpow ht hh
  rw [hlength] at hfull
  -- the elements are what the slots from `head` on hold, as many as the cursors are apart
  let xs := (List.range (offset slots.size head tail)).map fun i => slots.toList.getD (around slots.size head i) default
  have hxs : xs.length = offset slots.size head tail := by simp [xs]
  have hlayout : Layout slots.toList head xs := by
    refine ⟨by simpa using hpow, by simpa [minCapacity] using hleast, by simpa [capacity] using hmost, by simpa using hh,
      by simp only [hxs, Array.length_toList]; omega, ?_⟩
    intro p hp
    rw [Array.length_toList] at hp ⊢
    by_cases hin : offset slots.size head p < offset slots.size head tail
    · have hback : around slots.size head (offset slots.size head p) = p :=
        ((offset_eq_iff hh hp (offset_lt hh hp)).1 rfl).symm
      simp [xs, List.getD_eq_getElem?_getD, hin, hback]
    · have hslot := hfree p hp (not_occupies_of_le hh hp (by omega))
      rw [List.getD_eq_default xs _ (by omega), List.getD_eq_getElem?_getD, Array.getElem?_toList, hslot]
      rfl
  have htail : around slots.toList.length head xs.length = tail := by
    rw [Array.length_toList, hxs]
    exact ((offset_eq_iff hh ht (offset_lt hh ht)).1 rfl).symm
  have hholds := Holds.mk slots.toList head hlayout (by rw [hxs, Array.length_toList]; exact hfull)
  rw [htail] at hholds
  exact hholds.toList_eq.symm ▸ hholds

/-! ## Copies -/

omit [Inhabited α] in
/-- Only slices give back elements. -/
theorem exists_slice_of_elements {request : Operation α} {ys zs : List α}
    (h : performOnList xs request = .ok (ys, .elements zs)) : ∃ start stop, request = .slice start stop := by
  cases request with
  | slice start stop => exact ⟨start, stop, rfl⟩
  | popFront | popBack | peekFront | peekBack | get _ | set _ _ | edit _ _ | deleteAt _ =>
    simp only [performOnList] at h
    split at h <;> cases h
  | _ => cases h

/-- A ring that is given back holds the elements that the list gives back. -/
theorem Holds.copy (h : r.Holds xs) (hlt : xs.length < maxCapacity) {request : Operation α} {r' s : Ring α}
    {ys zs : List α} (hring : r.perform request = .ok (r', .ring s))
    (hlist : performOnList xs request = .ok (ys, .elements zs)) : s.Holds zs := by
  obtain ⟨start, stop, rfl⟩ := exists_slice_of_elements hlist
  obtain ⟨copy, hcopy, hholds⟩ := h.slice start stop hlt
  rw [perform, hcopy] at hring
  cases hring
  cases hlist
  exact hholds

/-! ## Runs -/

/-- What an event of a ring shall show beside the event of the list to which the same is done. -/
structure Event.StaysValid (e : Event (Ring α) (Operation α) (Answer α))
    (m : Event (List α) (Operation α) (ListAnswer α)) : Prop where
  before : e.before.IsValid m.before.length
  after : e.after.IsValid m.after.length
  copy : ∀ s zs, e.outcome = .ok (.ring s) → m.outcome = .ok (.elements zs) → s.IsValid zs.length
  /-- The ring is in order after each of the pushes that are made for its elements. -/
  between : ∀ pushes, e.request = .forEach pushes → ∀ made, made <+: pushesAt pushes m.before →
    ∃ s, made.foldlM push e.before = .ok s ∧ s.IsValid (m.before.length + made.length)

/-- The pushes that are made for the elements, up to any of them. -/
theorem Holds.between (h : r.Holds xs) {pushes : Nat → α → List (Push α)}
    (hroom : ((pushesAt pushes xs).foldl Push.onList xs).length < maxCapacity) {made : List (Push α)}
    (hmade : made <+: pushesAt pushes xs) :
    ∃ s, made.foldlM Ring.push r = .ok s ∧ s.IsValid (xs.length + made.length) := by
  have hle := hmade.length_le
  rw [Push.length_foldl_onList] at hroom
  obtain ⟨s, hs, hholds⟩ := h.pushes made (by omega)
  have hvalid := hholds.isValid
  rw [Push.length_foldl_onList] at hvalid
  exact ⟨s, hs, hvalid⟩

/-- A run of a ring beside the run of the list that it holds. -/
theorem Holds.run_staysValid (h : r.Holds xs) (hlt : xs.length < maxCapacity) (requests : List (Operation α))
    (hpub : ∀ request ∈ requests, request.isPublic = true)
    (hroom : ∀ e ∈ Ring.run performOnList xs requests, e.after.length < maxCapacity) :
    List.Forall₂ Event.StaysValid (Ring.run perform r requests) (Ring.run performOnList xs requests) := by
  induction requests generalizing r xs with
  | nil => exact .nil
  | cons request rest ih =>
    obtain ⟨hreq, hrest⟩ := List.forall_mem_cons.1 hpub
    have hfits : ∀ ys answer, performOnList xs request = .ok (ys, answer) → ys.length < maxCapacity := by
      intro ys answer hl
      simp only [Ring.run, hl] at hroom
      exact (List.forall_mem_cons.1 hroom).1
    have hbetween : ∀ pushes, request = .forEach pushes → ∀ made, made <+: pushesAt pushes xs →
        ∃ s, made.foldlM Ring.push r = .ok s ∧ s.IsValid (xs.length + made.length) := by
      rintro pushes rfl made hmade
      exact h.between (hfits _ _ rfl) hmade
    cases h.agree hreq hlt hfits with
    | refused cause hr hl =>
      simp only [Ring.run, hl, hr] at hroom ⊢
      refine .cons ⟨h.isValid, h.isValid, ?_, hbetween⟩ (ih h hlt hrest (List.forall_mem_cons.1 hroom).2)
      intro s zs hs
      cases hs
    | done r' answer ys hr hl hh =>
      simp only [Ring.run, hl, hr] at hroom ⊢
      obtain ⟨hys, hroom⟩ := List.forall_mem_cons.1 hroom
      refine .cons ⟨h.isValid, hh.isValid, ?_, hbetween⟩ (ih hh hys hrest hroom)
      rintro s zs ⟨⟩ hzs
      rw [Except.ok.injEq] at hzs
      exact (h.copy hlt hr (hzs ▸ hl)).isValid

/-- A ring is in order when it is made, in whatever way, and after every public request, whatever was asked
for before, as long as the elements stay fewer than the slots of the largest ring. So are the rings that are
copied out of it, and the ring itself after each of the pushes of one request. -/
theorem run_isValid (origin : Origin α) (requests : List (Operation α))
    (hpub : ∀ request ∈ requests, request.isPublic = true)
    (hstart : origin.elements.length < maxCapacity)
    (hroom : ∀ e ∈ Ring.run performOnList origin.elements requests, e.after.length < maxCapacity) :
    ∃ r, origin.ring = .ok r ∧ r.IsValid origin.elements.length ∧
      List.Forall₂ Event.StaysValid (Ring.run perform r requests) (Ring.run performOnList origin.elements requests) := by
  obtain ⟨r, hr, hh⟩ := origin.ring_holds hstart
  exact ⟨r, hr, hh.isValid, hh.run_staysValid hstart requests hpub hroom⟩

/-- A ring that lies around the end of its slots, doubles in the middle of a request, closes up from both sides
and is emptied. -/
theorem run_isValid_doubled :
    ∃ r, Origin.ring (.ofList [1, 2, 3, 4, 5, 6]) = .ok r ∧ r.IsValid 6 ∧
      List.Forall₂ Event.StaysValid
        (Ring.run perform r
          [.pushFront 0, .deleteAt 1, .forEach fun place a => [.front a, .back place], .deleteAt 15, .slice (-3) none,
            .reverse, .truncateTo 2, .clear])
        (Ring.run performOnList [1, 2, 3, 4, 5, 6]
          [.pushFront 0, .deleteAt 1, .forEach fun place a => [.front a, .back place], .deleteAt 15, .slice (-3) none,
            .reverse, .truncateTo 2, .clear]) :=
  run_isValid (.ofList [1, 2, 3, 4, 5, 6])
    [.pushFront 0, .deleteAt 1, .forEach fun place a => [.front a, .back place], .deleteAt 15, .slice (-3) none,
      .reverse, .truncateTo 2, .clear]
    (by decide) (by decide) (by decide)

end Pinboard.Ring
