import Pinboard.Proofs.Ring.Refinement

/-!
# The slots of a ring tell how many elements it has held

A push doubles the slots when it fills the last of them, and nothing else changes how many there are
(`Holds.adapts`). The capacity that a new ring gets follows the same rule: it is the least power of two above
the number of its elements, from the smallest capacity on (`capacityFor_eq_iff`). So at each moment of a run
the capacity is the one for the most elements that there have been up to then. Main statement:
`run_sizedByPeak`.
-/

namespace Pinboard.Ring

variable {α : Type}

/-! ## The capacity for a number of elements -/

/-- A power of two below another one is at most half of it. -/
theorem two_mul_le_of_lt {a b : Nat} (ha : ∃ k, a = Nat.pow 2 k) (hb : ∃ k, b = Nat.pow 2 k) (h : a < b) :
    2 * a ≤ b := by
  obtain ⟨j, rfl⟩ := ha
  obtain ⟨k, rfl⟩ := hb
  have hjk : j < k := (Nat.pow_lt_pow_iff_right (by decide)).1 h
  have hle : Nat.pow 2 (j + 1) ≤ Nat.pow 2 k := Nat.pow_le_pow_right (by decide) hjk
  exact Nat.le_trans (Nat.le_of_eq (Nat.mul_comm _ _)) hle

theorem capacityFor_of_ok {n c : Nat} (h : capacityFor n = .ok c) :
    (∃ k, c = Nat.pow 2 k) ∧ minCapacity ≤ c ∧ c ≤ maxCapacity ∧ n < c ∧ (c = minCapacity ∨ c ≤ 2 * n) := by
  rw [capacityFor] at h
  split at h
  next hsmall =>
    cases h
    exact ⟨⟨3, rfl⟩, Nat.le_refl _, by decide, by omega, .inl rfl⟩
  next hlarge =>
    have hn : n ≠ 0 := by
      rintro rfl
      exact hlarge (by decide)
    simp only [Int.toNat_natCast, bitLength, if_neg hn] at h
    split at h
    next => cases h
    next hmost =>
      cases h
      have hlog : n < Nat.pow 2 (n.log2 + 1) := Nat.lt_log2_self
      have hhalf : Nat.pow 2 n.log2 ≤ n := Nat.log2_self_le hn
      have hsucc : Nat.pow 2 (n.log2 + 1) = Nat.pow 2 n.log2 * 2 := rfl
      exact ⟨⟨_, rfl⟩, by omega, by omega, hlog, .inr (by omega)⟩

/-- The capacity for some elements is the least power of two above their number that is not below the smallest
capacity. -/
theorem capacityFor_eq_iff {n c : Nat} :
    capacityFor n = .ok c ↔
      (∃ k, c = Nat.pow 2 k) ∧ minCapacity ≤ c ∧ c ≤ maxCapacity ∧ n < c ∧ (c = minCapacity ∨ c ≤ 2 * n) := by
  refine ⟨capacityFor_of_ok, ?_⟩
  rintro ⟨hpow, hleast, hmost, hlt, hle⟩
  obtain ⟨c', hc', -⟩ := capacityFor_spec (Nat.lt_of_lt_of_le hlt hmost)
  obtain ⟨hpow', hleast', -, hlt', hle'⟩ := capacityFor_of_ok hc'
  rw [hc', Except.ok.injEq]
  rcases Nat.lt_trichotomy c c' with hlt2 | heq | hlt2
  · have hdouble := two_mul_le_of_lt hpow hpow' hlt2
    omega
  · exact heq.symm
  · have hdouble := two_mul_le_of_lt hpow' hpow hlt2
    omega

/-- More elements get the same capacity as long as they do not fill it. -/
theorem capacityFor_max {m n c : Nat} (h : capacityFor m = .ok c) (hn : n < c) :
    capacityFor (max m n : Nat) = .ok c := by
  obtain ⟨hpow, hleast, hmost, hlt, hle⟩ := capacityFor_eq_iff.1 h
  exact capacityFor_eq_iff.2 ⟨hpow, hleast, hmost, by omega, by omega⟩

/-- As many elements as the capacity get twice the capacity. -/
theorem capacityFor_full {m c : Nat} (h : capacityFor m = .ok c) (hmost : 2 * c ≤ maxCapacity) :
    capacityFor (max m c : Nat) = .ok (2 * c) := by
  obtain ⟨⟨k, hk⟩, hleast, -, hlt, -⟩ := capacityFor_eq_iff.1 h
  have hpow : ∃ j, 2 * c = Nat.pow 2 j := ⟨k + 1, by rw [hk]; exact Nat.mul_comm _ _⟩
  exact capacityFor_eq_iff.2 ⟨hpow, by omega, hmost, by omega, by omega⟩

variable [Inhabited α] {xs ys : List α} {r r' : Ring α} {rs : List (Ring α)} {ls : List (List α)}

/-! ## The capacity after a push -/

/-- How a ring with the elements `ys` follows a ring: the slots stay as they are, or the elements have become as
many as the slots and then there are twice as many. -/
inductive Adapts (r : Ring α) (ys : List α) (r' : Ring α) : Prop
  | kept (room : ys.length < r.capacity) (same : r'.capacity = r.capacity)
  | doubled (full : ys.length = r.capacity) (twice : r'.capacity = 2 * r.capacity)

/-- As long as the capacity is the same there is room. -/
theorem Holds.adapts_of_eq (h : r'.Holds ys) (hsame : r'.capacity = r.capacity) : Adapts r ys r' :=
  .kept (hsame ▸ h.length_lt) hsame

omit [Inhabited α] in
theorem clip_le (size : Nat) (position : Int) : clip size position ≤ size := by
  rw [clip]
  split
  · omega
  · exact Nat.min_le_right _ _

omit [Inhabited α] in
/-- Turning the slots loses none of them. -/
theorem length_turned (slots : List α) (first : Int) :
    (piece slots first slots.length ++ piece slots 0 first).length = slots.length := by
  have hle := clip_le slots.length first
  have hend : clip slots.length slots.length = slots.length := clip_eq (by omega) (by omega)
  have hstart : clip slots.length 0 = 0 := clip_eq (by omega) (by omega)
  rw [piece, piece, hend, hstart, List.take_length, List.drop_zero, List.length_append, List.length_drop,
    List.length_take_of_le hle]
  omega

theorem doubleCapacity_spec (h : r.doubleCapacity = .ok r') :
    r'.capacity = 2 * r.capacity ∧ r'.head = 0 ∧ r'.tail = r.capacity := by
  rw [doubleCapacity] at h
  split at h
  · cases h
  split at h
  · cases h
  cases h
  refine ⟨?_, rfl, rfl⟩
  rw [capacity_mk, List.length_append, length_turned, List.length_replicate, Array.length_toList, capacity]
  omega

/-- A push leaves the slots as many as they are, or has doubled them. -/
theorem push_spec {p : Push α} (h : r.push p = .ok r') :
    r'.capacity = r.capacity ∨ r'.capacity = 2 * r.capacity ∧ r'.head = 0 ∧ r'.tail = r.capacity := by
  cases p with
  | front a =>
    simp only [Ring.push, Ring.pushFront] at h
    split at h
    · have hdouble := doubleCapacity_spec h
      simp only [capacity, Array.size_setIfInBounds] at hdouble ⊢
      exact .inr hdouble
    · cases h
      exact .inl (Array.size_setIfInBounds ..)
  | back a =>
    simp only [Ring.push, Ring.pushBack] at h
    split at h
    · have hdouble := doubleCapacity_spec h
      simp only [capacity, Array.size_setIfInBounds] at hdouble ⊢
      exact .inr hdouble
    · cases h
      exact .inl (Array.size_setIfInBounds ..)

/-- A push doubles the slots exactly if the elements have become as many. -/
theorem Holds.adapts_push (h : r.Holds xs) (p : Push α) (hlt : xs.length + 1 < maxCapacity) :
    ∃ r', r.push p = .ok r' ∧ r'.Holds (p.onList xs) ∧ Adapts r (p.onList xs) r' := by
  obtain ⟨r', hr, hh⟩ := h.push p hlt
  refine ⟨r', hr, hh, ?_⟩
  rcases push_spec hr with hsame | ⟨htwice, hhead, htail⟩
  · exact hh.adapts_of_eq hsame
  · have hpos := h.length_lt
    -- the cursors of a ring that has been doubled are as far apart as it had slots
    have hlength : r'.length = r.capacity := by
      have hwrap : wrap r'.capacity ((0 : Nat) + (r.capacity : Int)) = around r'.capacity 0 r.capacity :=
        wrap_add hh.pow (by omega) (by omega)
      rw [Ring.length, hhead, htail, Int.sub_zero]
      rw [Int.ofNat_zero, Int.zero_add] at hwrap
      rw [hwrap, around, if_pos (by omega), Nat.zero_add]
    exact .doubled (hh.length_eq.symm.trans hlength) htwice

/-! ## The capacity after any other request -/

@[simp]
theorem capacity_dropFront (r : Ring α) : r.dropFront.capacity = r.capacity := by simp [dropFront, capacity]

@[simp]
theorem capacity_dropBack (r : Ring α) : r.dropBack.capacity = r.capacity := by simp [dropBack, capacity]

theorem size_emptySlots (slots : Array α) (count slot : Nat) : (emptySlots slots count slot).size = slots.size := by
  induction count generalizing slots slot with
  | zero => rfl
  | succ count ih => rw [emptySlots, ih, Array.size_setIfInBounds]

theorem size_swapInwards (slots : Array α) (count front back : Nat) :
    (swapInwards slots count front back).size = slots.size := by
  induction count generalizing slots front back with
  | zero => rfl
  | succ count ih => simp only [swapInwards, ih, Array.size_setIfInBounds]

@[simp]
theorem capacity_clear (r : Ring α) : r.clear.capacity = r.capacity := by
  rw [clear]
  split
  · rfl
  · exact size_emptySlots _ _ _

@[simp]
theorem capacity_reverse (r : Ring α) : r.reverse.capacity = r.capacity := size_swapInwards _ _ _ _

@[simp]
theorem capacity_dropBacks (count : Nat) (r : Ring α) : (dropBacks count r).capacity = r.capacity := by
  induction count generalizing r with
  | zero => rfl
  | succ count ih => rw [dropBacks, ih, capacity_dropBack]

@[simp]
theorem capacity_truncateTo (r : Ring α) (length : Int) : (r.truncateTo length).capacity = r.capacity := by
  rw [truncateTo]
  split <;> simp

@[simp]
theorem capacity_trimFronts (test : α → Bool) (count : Nat) (r : Ring α) :
    (trimFronts test count r).capacity = r.capacity := by
  induction count generalizing r with
  | zero => rfl
  | succ count ih =>
    rw [trimFronts]
    split
    · rfl
    · rw [ih, capacity_dropFront]

/-- Closing up from either side moves slots and loses none. -/
theorem Holds.capacity_deleteSlot (h : r.Holds xs) {i : Nat} (hi : i < xs.length)
    (hr : r.deleteSlot (r.slot i) = .ok r') : r'.capacity = r.capacity := by
  obtain ⟨slots, head, l, hroom⟩ := h
  have hp := around_lt l.head_lt (i := i) (by omega)
  have ht := around_lt l.head_lt hroom
  have hslot : slot ⟨slots.toArray, head, around slots.length head xs.length⟩ i = around slots.length head i := by
    rw [slot, capacity_mk, wrap_add l.pow l.head_lt (by omega)]
  simp only [Ring.deleteSlot, hslot] at hr
  split at hr
  · cases hr
  split at hr
  · cases hr
    exact length_closeFromFront l.head_lt hp
  · cases hr
    exact length_closeFromBack hp ht

/-- Whether a request can add elements. -/
def Operation.adds : Operation α → Bool
  | .pushFront _ | .pushBack _ | .forEach _ => true
  | _ => false

/-- Only requests that can add elements change how many slots there are. -/
theorem Holds.capacity_perform (h : r.Holds xs) {request : Operation α} {answer : Answer α}
    (hpub : request.isPublic = true) (hadds : request.adds = false)
    (hperform : r.perform request = .ok (r', answer)) : r'.capacity = r.capacity := by
  cases request with
  | pushFront _ | pushBack _ | forEach _ => cases hadds
  | deleteSlot _ | doubleCapacity => cases hpub
  | popFront =>
    rw [perform, Ring.popFront] at hperform
    split at hperform
    · cases hperform
    · cases hperform
      exact capacity_dropFront r
  | popBack =>
    rw [perform, Ring.popBack] at hperform
    split at hperform
    · cases hperform
    · cases hperform
      exact capacity_dropBack r
  | peekFront =>
    cases hpeek : r.peekFront <;> rw [perform, hpeek] at hperform <;> cases hperform
    rfl
  | peekBack =>
    cases hpeek : r.peekBack <;> rw [perform, hpeek] at hperform <;> cases hperform
    rfl
  | get index =>
    cases hget : r.get index <;> rw [perform, hget] at hperform <;> cases hperform
    rfl
  | slice start stop =>
    cases hslice : r.slice start stop <;> rw [perform, hslice] at hperform <;> cases hperform
    rfl
  | set index a =>
    rw [perform, Ring.set] at hperform
    split at hperform <;> cases hperform
    exact Array.size_setIfInBounds ..
  | edit index update =>
    rw [perform, Ring.edit] at hperform
    split at hperform <;> cases hperform
    exact Array.size_setIfInBounds ..
  | deleteAt index =>
    rw [perform, Ring.deleteAt] at hperform
    rcases h.at_index index with ⟨i, hi, rfl, hin, -⟩ | ⟨hout, -⟩
    · rw [if_pos hin] at hperform
      cases hdelete : r.deleteSlot (r.slot i) <;> rw [hdelete] at hperform <;> cases hperform
      exact h.capacity_deleteSlot hi hdelete
    · rw [hout] at hperform
      cases hperform
  | clear =>
    cases hperform
    exact capacity_clear r
  | reverse =>
    cases hperform
    exact capacity_reverse r
  | truncateTo length =>
    cases hperform
    exact capacity_truncateTo r length
  | trimLeading test =>
    cases hperform
    exact capacity_trimFronts test r.length r
  | getD _ _ | hasIndex _ | isEmpty | length =>
    cases hperform
    rfl

/-! ## The moments of a run -/

/-- The rings after each of some pushes. -/
def afterPushes (r : Ring α) : List (Push α) → List (Ring α)
  | [] => []
  | p :: pushes =>
    match r.push p with
    | .ok r' => r' :: afterPushes r' pushes
    | .error _ => []

omit [Inhabited α] in
/-- The lists after each of some pushes. -/
def Push.afterEach (xs : List α) : List (Push α) → List (List α)
  | [] => []
  | p :: pushes => p.onList xs :: afterEach (p.onList xs) pushes

/-- The rings that an event goes through: the one that it leaves, and before it those after each push that is
made for the elements. -/
def Event.rings (e : Event (Ring α) (Operation α) (Answer α)) : List (Ring α) :=
  match e.request with
  | .forEach pushes => afterPushes e.before (pushesAt pushes e.before.toList) ++ [e.after]
  | _ => [e.after]

omit [Inhabited α] in
/-- The lists that an event of a list goes through. -/
def Event.lists (e : Event (List α) (Operation α) (ListAnswer α)) : List (List α) :=
  match e.request with
  | .forEach pushes => Push.afterEach e.before (pushesAt pushes e.before) ++ [e.after]
  | _ => [e.after]

/-- The ring at each moment of a run. -/
def moments (r : Ring α) (requests : List (Operation α)) : List (Ring α) :=
  r :: (Ring.run perform r requests).flatMap Event.rings

omit [Inhabited α] in
/-- The elements at each moment of a run. -/
def listMoments (xs : List α) (requests : List (Operation α)) : List (List α) :=
  xs :: (Ring.run performOnList xs requests).flatMap Event.lists

omit [Inhabited α] in
/-- The most elements at some moments. -/
def peak (lists : List (List α)) : Nat := lists.foldr (fun xs most => max xs.length most) 0

/-- A ring that holds some elements, and the rings that follow it one after the other with their elements. -/
inductive Course : Ring α → List α → List (Ring α) → List (List α) → Prop
  | nil {r : Ring α} {xs : List α} (holds : r.Holds xs) : Course r xs [] []
  | cons {r r' : Ring α} {xs ys : List α} {rs : List (Ring α)} {ls : List (List α)} (holds : r.Holds xs)
    (adapts : Adapts r ys r') (rest : Course r' ys rs ls) : Course r xs (r' :: rs) (ys :: ls)

theorem Course.holds (h : Course r xs rs ls) : r.Holds xs := by
  cases h with
  | nil holds => exact holds
  | cons holds _ _ => exact holds

/-- A ring that stays as it is for a moment. -/
theorem Course.again (h : Course r xs rs ls) : Course r xs (r :: rs) (xs :: ls) :=
  .cons h.holds (h.holds.adapts_of_eq rfl) h

/-- Pushes lead from one ring to another, through those after each of them. -/
theorem Holds.course_pushes (h : r.Holds xs) {pushes : List (Push α)}
    (hlt : xs.length + pushes.length < maxCapacity) (hend : pushes.foldlM Ring.push r = .ok r')
    (rest : Course r' (pushes.foldl Push.onList xs) rs ls) :
    Course r xs (afterPushes r pushes ++ rs) (Push.afterEach xs pushes ++ ls) := by
  induction pushes generalizing r xs with
  | nil =>
    cases hend
    exact rest
  | cons p pushes ih =>
    rw [List.length_cons] at hlt
    obtain ⟨next, hpush, hnext, hadapts⟩ := h.adapts_push p (by omega)
    have hlength := Push.length_foldl_onList [p] xs
    rw [List.foldlM_cons, hpush] at hend
    rw [afterPushes, hpush]
    exact .cons h hadapts (ih hnext (by simp at hlength; omega) hend rest)

/-- One event leads from the ring that it meets to the ring that it leaves. -/
theorem Holds.course_event (h : r.Holds xs) {request : Operation α} (hpub : request.isPublic = true)
    {answer : Answer α} {out : ListAnswer α}
    (hring : r.perform request = .ok (r', answer)) (hlist : performOnList xs request = .ok (ys, out))
    (hys : ys.length < maxCapacity) (hholds : r'.Holds ys) (rest : Course r' ys rs ls) :
    Course r xs (Event.rings ⟨r, request, .ok answer, r'⟩ ++ rs)
      (Event.lists ⟨xs, request, .ok out, ys⟩ ++ ls) := by
  cases request with
  | pushFront a =>
    obtain ⟨next, hpush, -, hadapts⟩ := h.adapts_push (.front a) (by cases hlist; exact hys)
    rw [Ring.push] at hpush
    rw [perform, hpush] at hring
    cases hring
    cases hlist
    exact .cons h hadapts rest
  | pushBack a =>
    obtain ⟨next, hpush, -, hadapts⟩ := h.adapts_push (.back a) (by cases hlist; simpa using hys)
    rw [Ring.push] at hpush
    rw [perform, hpush] at hring
    cases hring
    cases hlist
    exact .cons h hadapts rest
  | forEach pushes =>
    cases hlist
    have hlength := Push.length_foldl_onList (pushesAt pushes xs) xs
    simp only [Event.rings, Event.lists, h.toList_eq, List.append_assoc, List.singleton_append]
    rw [perform, h.toList_eq] at hring
    cases hend : (pushesAt pushes xs).foldlM Ring.push r <;> rw [hend] at hring <;> cases hring
    exact h.course_pushes (hlength ▸ hys) hend rest.again
  | _ => exact .cons h (hholds.adapts_of_eq (h.capacity_perform hpub rfl hring)) rest

/-- A run leads through all its moments. -/
theorem Holds.course_run (h : r.Holds xs) (hlt : xs.length < maxCapacity) (requests : List (Operation α))
    (hpub : ∀ request ∈ requests, request.isPublic = true)
    (hroom : ∀ e ∈ Ring.run performOnList xs requests, e.after.length < maxCapacity) :
    Course r xs ((Ring.run perform r requests).flatMap Event.rings)
      ((Ring.run performOnList xs requests).flatMap Event.lists) := by
  induction requests generalizing r xs with
  | nil => exact .nil h
  | cons request rest ih =>
    obtain ⟨hreq, hrest⟩ := List.forall_mem_cons.1 hpub
    have hfits : ∀ ys answer, performOnList xs request = .ok (ys, answer) → ys.length < maxCapacity := by
      intro ys answer hl
      simp only [Ring.run, hl] at hroom
      exact (List.forall_mem_cons.1 hroom).1
    cases h.agree hreq hlt hfits with
    | refused cause hr hl =>
      simp only [Ring.run, hl, hr, List.flatMap_cons] at hroom ⊢
      have hcourse := ih h hlt hrest (List.forall_mem_cons.1 hroom).2
      cases request with
      | forEach pushes => cases hl
      | _ => exact hcourse.again
    | done r' answer ys hr hl hh =>
      simp only [Ring.run, hl, hr, List.flatMap_cons] at hroom ⊢
      obtain ⟨hys, hroom⟩ := List.forall_mem_cons.1 hroom
      exact h.course_event hreq hr hl hys hh (ih hh hys hrest hroom)

/-! ## The capacity at each moment -/

/-- The rings at some moments hold some elements each. The capacity is always the one for the most elements up to
then; it doubles exactly when the elements become as many, and so it never shrinks. -/
structure SizedByPeak (rs : List (Ring α)) (ls : List (List α)) : Prop where
  contents : rs.map toList = ls
  fitting : ∀ (k : Nat) (r : Ring α), rs[k]? = some r → capacityFor (peak (ls.take (k + 1))) = .ok r.capacity
  doubling : ∀ (k : Nat) (r r' : Ring α) (ys : List α), rs[k]? = some r → rs[k + 1]? = some r' →
    ls[k + 1]? = some ys → r'.capacity = if ys.length = r.capacity then 2 * r.capacity else r.capacity
  growing : (rs.map capacity).Pairwise (· ≤ ·)

omit [Inhabited α] in
theorem Adapts.capacity_eq (h : Adapts r ys r') :
    r'.capacity = if ys.length = r.capacity then 2 * r.capacity else r.capacity := by
  cases h with
  | kept room same => rw [if_neg (Nat.ne_of_lt room), same]
  | doubled full twice => rw [if_pos full, twice]

omit [Inhabited α] in
theorem Adapts.capacity_le (h : Adapts r ys r') : r.capacity ≤ r'.capacity := by
  rw [h.capacity_eq]
  split <;> omega

/-- The rule for new rings goes on to hold. -/
theorem Adapts.capacityFor_max {m : Nat} (h : Adapts r ys r') (hholds : r'.Holds ys)
    (hm : capacityFor m = .ok r.capacity) : capacityFor (max m ys.length : Nat) = .ok r'.capacity := by
  cases h with
  | kept room same =>
    rw [same]
    exact Ring.capacityFor_max hm room
  | doubled full twice =>
    rw [full, twice]
    exact capacityFor_full hm (twice ▸ hholds.capacity_le)

theorem Course.map_toList (h : Course r xs rs ls) : (r :: rs).map toList = xs :: ls := by
  induction h with
  | nil holds => rw [List.map_singleton, holds.toList_eq]
  | cons holds _ _ ih => rw [List.map_cons, holds.toList_eq, ih]

/-- The most elements are counted from those `m` that there were before. -/
theorem Course.fitting {m : Nat} (h : Course r xs rs ls) (hm : capacityFor (max m xs.length : Nat) = .ok r.capacity)
    (k : Nat) {s : Ring α} (hk : (r :: rs)[k]? = some s) :
    capacityFor (max m (peak ((xs :: ls).take (k + 1))) : Nat) = .ok s.capacity := by
  induction h generalizing m k with
  | nil _ =>
    cases k with
    | zero =>
      cases hk
      simpa [peak] using hm
    | succ k => simp at hk
  | @cons r r' xs ys _ ls _ adapts rest ih =>
    cases k with
    | zero =>
      cases hk
      simpa [peak] using hm
    | succ k =>
      have hnext := ih (adapts.capacityFor_max rest.holds hm) k hk
      have hpeak : peak ((xs :: ys :: ls).take (k + 1 + 1)) = max xs.length (peak ((ys :: ls).take (k + 1))) := rfl
      rwa [hpeak, ← Nat.max_assoc]

theorem Course.doubling (h : Course r xs rs ls) (k : Nat) {s s' : Ring α} (hs : (r :: rs)[k]? = some s)
    (hs' : (r :: rs)[k + 1]? = some s') (hys : (xs :: ls)[k + 1]? = some ys) :
    s'.capacity = if ys.length = s.capacity then 2 * s.capacity else s.capacity := by
  induction h generalizing k with
  | nil _ => simp at hs'
  | cons _ adapts _ ih =>
    cases k with
    | zero =>
      cases hs
      cases hs'
      cases hys
      exact adapts.capacity_eq
    | succ k => exact ih k hs hs' hys

theorem Course.growing (h : Course r xs rs ls) : ((r :: rs).map capacity).Pairwise (· ≤ ·) := by
  induction h with
  | nil _ => exact List.pairwise_singleton _ _
  | cons _ adapts _ ih =>
    refine List.pairwise_cons.2 ⟨?_, ih⟩
    intro c hc
    rcases List.mem_cons.1 hc with rfl | hc
    · exact adapts.capacity_le
    · exact Nat.le_trans adapts.capacity_le ((List.pairwise_cons.1 ih).1 c hc)

/-! ## New rings -/

/-- The ring without elements that a new ring begins as. -/
def Origin.bare : Origin α → Except RingError (Ring α)
  | .empty | .singleton _ => .ok Ring.empty
  | .ofList xs => return ⟨Array.replicate (← capacityFor xs.length) default, 0, 0⟩

/-- The bare ring has the capacity for the elements that are pushed to it. -/
theorem Origin.bare_spec (origin : Origin α) (hlt : origin.elements.length < maxCapacity) :
    ∃ bare, origin.bare = .ok bare ∧ bare.Holds [] ∧ capacityFor origin.elements.length = .ok bare.capacity ∧
      origin.ring = bare.pushAll origin.elements := by
  cases origin with
  | empty => exact ⟨_, rfl, empty_holds, rfl, rfl⟩
  | singleton a => exact ⟨_, rfl, empty_holds, rfl, (bind_pure _).symm⟩
  | ofList xs =>
    obtain ⟨c, hc, hpow, hleast, hmost, -⟩ := capacityFor_spec (n := xs.length) hlt
    have hsize : (⟨Array.replicate c default, 0, 0⟩ : Ring α).capacity = c := Array.size_replicate
    refine ⟨_, ?_, replicate_holds hpow hleast hmost, hc.trans (congrArg _ hsize.symm), ?_⟩
    · rw [bare, hc]
      rfl
    · rw [ring, Ring.ofList, hc]
      rfl

/-- As long as there is room for all of them, elements are pushed without a change of the slots. -/
theorem Holds.pushes_room (h : r.Holds xs) {pushes : List (Push α)} (hroom : xs.length + pushes.length < r.capacity) :
    ∃ s, pushes.foldlM Ring.push r = .ok s ∧ s.Holds (pushes.foldl Push.onList xs) ∧ s.capacity = r.capacity := by
  induction pushes generalizing r xs with
  | nil => exact ⟨r, rfl, h, rfl⟩
  | cons p pushes ih =>
    have hmost := h.capacity_le
    have hlength := Push.length_foldl_onList [p] xs
    rw [List.foldl_cons, List.foldl_nil, List.length_singleton] at hlength
    rw [List.length_cons] at hroom
    obtain ⟨next, hpush, hnext, hadapts⟩ := h.adapts_push p (by omega)
    have hsame : next.capacity = r.capacity := by
      rw [hadapts.capacity_eq, if_neg (by omega)]
    obtain ⟨s, hs, hholds, hcapacity⟩ := ih hnext (by omega)
    refine ⟨s, ?_, hholds, hcapacity.trans hsame⟩
    rw [List.foldlM_cons, hpush]
    exact hs

omit [Inhabited α] in
theorem Push.foldl_onList_back (xs ys : List α) : (ys.map Push.back).foldl onList xs = xs ++ ys := by
  induction ys generalizing xs with
  | nil => rw [List.map_nil, List.foldl_nil, List.append_nil]
  | cons y ys ih => rw [List.map_cons, List.foldl_cons, ih, onList, List.append_assoc, List.singleton_append]

theorem Holds.pushAll_room (h : r.Holds xs) (hroom : xs.length + ys.length < r.capacity) :
    ∃ s, r.pushAll ys = .ok s ∧ s.Holds (xs ++ ys) ∧ s.capacity = r.capacity := by
  have hmapped : xs.length + (ys.map Push.back).length < r.capacity := by rwa [List.length_map]
  obtain ⟨s, hs, hholds, hcapacity⟩ := h.pushes_room hmapped
  rw [List.foldlM_map] at hs
  rw [Push.foldl_onList_back] at hholds
  exact ⟨s, hs, hholds, hcapacity⟩

/-- At every moment of a run, however the ring was made and whatever is asked of it, the capacity is the one for
the most elements that the ring has held so far, as long as they stay fewer than the slots of the largest ring.
A new ring has its capacity before the first of its elements is pushed. -/
theorem run_sizedByPeak (origin : Origin α) (requests : List (Operation α))
    (hpub : ∀ request ∈ requests, request.isPublic = true)
    (hstart : origin.elements.length < maxCapacity)
    (hroom : ∀ e ∈ Ring.run performOnList origin.elements requests, e.after.length < maxCapacity) :
    ∃ bare r, origin.bare = .ok bare ∧ bare.pushAll origin.elements = .ok r ∧ origin.ring = .ok r ∧
      (∀ made, made <+: origin.elements → ∃ s, bare.pushAll made = .ok s ∧ s.capacity = bare.capacity) ∧
      SizedByPeak (moments r requests) (listMoments origin.elements requests) := by
  obtain ⟨bare, hbare, hempty, hcapacity, hring⟩ := origin.bare_spec hstart
  have hlt := (capacityFor_of_ok hcapacity).2.2.2.1
  have hmade : ∀ made, made <+: origin.elements →
      ∃ s, bare.pushAll made = .ok s ∧ s.Holds made ∧ s.capacity = bare.capacity := by
    intro made hprefix
    have hle := hprefix.length_le
    have hfree : ([] : List α).length + made.length < bare.capacity := by
      rw [List.length_nil]
      omega
    exact hempty.pushAll_room hfree
  obtain ⟨r, hr, hholds, hsame⟩ := hmade _ List.prefix_rfl
  refine ⟨bare, r, hbare, hr, hring.trans hr, ?_, ?_⟩
  · intro made hprefix
    obtain ⟨s, hs, -, hsame⟩ := hmade made hprefix
    exact ⟨s, hs, hsame⟩
  · have hcourse := hholds.course_run hstart requests hpub hroom
    refine ⟨hcourse.map_toList, ?_, fun k _ _ _ => hcourse.doubling k, hcourse.growing⟩
    intro k s hk
    have hfitting := hcourse.fitting (m := 0) (by rw [Nat.zero_max, hsame]; exact hcapacity) k hk
    rwa [Nat.zero_max] at hfitting

/-- Six elements, pushed once more while they are gone through, most of them dropped, and two more. -/
theorem run_sizedByPeak_repeated :
    (∃ bare r, Origin.bare (.ofList [1, 2, 3, 4, 5, 6]) = .ok bare ∧ bare.pushAll [1, 2, 3, 4, 5, 6] = .ok r ∧
      Origin.ring (.ofList [1, 2, 3, 4, 5, 6]) = .ok r ∧
      (∀ made, made <+: [1, 2, 3, 4, 5, 6] → ∃ s, bare.pushAll made = .ok s ∧ s.capacity = bare.capacity) ∧
      SizedByPeak (moments r [.repeatElements, .truncateTo 6, .pushFront 0, .pushBack 7])
        (listMoments [1, 2, 3, 4, 5, 6] [.repeatElements, .truncateTo 6, .pushFront 0, .pushBack 7])) ∧
      ((Origin.ring (.ofList [1, 2, 3, 4, 5, 6])).toOption.map fun r =>
        (moments r [.repeatElements, .truncateTo 6, .pushFront 0, .pushBack 7]).map capacity) =
        some [8, 8, 16, 16, 16, 16, 16, 16, 16, 16, 16] :=
  ⟨run_sizedByPeak (.ofList [1, 2, 3, 4, 5, 6]) [.repeatElements, .truncateTo 6, .pushFront 0, .pushBack 7]
    (by decide) (by decide) (by decide), by decide +kernel⟩

end Pinboard.Ring
