import Pinboard.Proofs.Ring.Deletion
import Pinboard.Proofs.Ring.InPlace
import Pinboard.Proofs.Ring.Removals

/-!
# A ring is a list

`performOnList` answers the requests to a ring on a plain list. Main statements:

* one request to a ring that holds `xs` has the outcome it has for `xs`, and leaves a ring that holds
  what the list has become (`Holds.agree`);
* so a whole run, from every way of making a ring, is the run of the list, with the same answers and
  the same refusals (`run_refines`). The elements only have to stay fewer than the slots of the largest
  ring.
-/

namespace Pinboard.Ring

variable {α : Type}

/-! ## The requests to a list -/

/-- The requests that are about elements. The other two are about slots, which a list has not. -/
def Operation.isPublic : Operation α → Bool
  | .deleteSlot _ | .doubleCapacity => false
  | _ => true

/-- What a request to a list gives back. -/
inductive ListAnswer (α : Type)
  | nothing
  | element (a : α)
  | flag (value : Bool)
  | count (value : Nat)
  | elements (xs : List α)

/-- An answer with the elements of a ring in place of the ring. -/
def Answer.view : Answer α → ListAnswer α
  | .nothing => .nothing
  | .element a => .element a
  | .flag value => .flag value
  | .count value => .count value
  | .ring r => .elements r.toList

/-- The element of a list at an index; none below zero. -/
def elementAt (xs : List α) (index : Int) : Option α := if index < 0 then none else xs[index.toNat]?

/-- The list after a request, and the answer. -/
def performOnList (xs : List α) : Operation α → Except RingError (List α × ListAnswer α)
  | .pushFront a => .ok (a :: xs, .nothing)
  | .pushBack a => .ok (xs ++ [a], .nothing)
  | .popFront =>
    match xs with
    | [] => .error .popEmpty
    | x :: rest => .ok (rest, .element x)
  | .popBack =>
    match xs.getLast? with
    | none => .error .popEmpty
    | some x => .ok (xs.dropLast, .element x)
  | .peekFront =>
    match xs.head? with
    | none => .error .peekEmpty
    | some x => .ok (xs, .element x)
  | .peekBack =>
    match xs.getLast? with
    | none => .error .peekEmpty
    | some x => .ok (xs, .element x)
  | .get index =>
    match elementAt xs index with
    | none => .error .noElement
    | some x => .ok (xs, .element x)
  | .getD index fallback => .ok (xs, .element ((elementAt xs index).getD fallback))
  | .set index a =>
    match elementAt xs index with
    | none => .error .noElementToSet
    | some _ => .ok (xs.set index.toNat a, .nothing)
  | .edit index update =>
    match elementAt xs index with
    | none => .error .noElementToSet
    | some x => .ok (xs.set index.toNat (update x), .nothing)
  | .deleteAt index =>
    match elementAt xs index with
    | none => .error .noElementToDelete
    | some _ => .ok (xs.eraseIdx index.toNat, .nothing)
  | .hasIndex index => .ok (xs, .flag (elementAt xs index).isSome)
  | .isEmpty => .ok (xs, .flag xs.isEmpty)
  | .length => .ok (xs, .count xs.length)
  | .clear => .ok ([], .nothing)
  | .reverse => .ok (xs.reverse, .nothing)
  | .slice start stop => .ok (xs, .elements (piece xs start (stop.getD xs.length)))
  | .truncateTo length => .ok (xs.take length.toNat, .nothing)
  | .trimLeading test => .ok (xs.dropWhile test, .nothing)
  | .forEach pushes => .ok ((pushesAt pushes xs).foldl Push.onList xs, .nothing)
  | .deleteSlot _ | .doubleCapacity => .error .notFull

/-- Whether a request asks for an element that `n` elements do not have: any at the ends of no elements,
or one at an index that is not from zero to `n - 1`. -/
def Operation.isOutside (n : Nat) : Operation α → Bool
  | .popFront | .popBack | .peekFront | .peekBack => n == 0
  | .get index | .set index _ | .edit index _ | .deleteAt index => decide (¬(0 ≤ index ∧ index < n))
  | _ => false

/-- The causes that are about an index or about the end of no elements. -/
def isIndexError : RingError → Bool
  | .popEmpty | .peekEmpty | .noElement | .noElementToSet | .noElementToDelete => true
  | _ => false

theorem elementAt_of_lt {xs : List α} {i : Nat} (hi : i < xs.length) : elementAt xs i = some xs[i] := by
  rw [elementAt, if_neg (by omega), Int.toNat_natCast, List.getElem?_eq_getElem hi]

theorem elementAt_eq_none {xs : List α} {index : Int} (h : ¬(0 ≤ index ∧ index < xs.length)) :
    elementAt xs index = none := by
  by_cases h0 : index < 0
  · exact if_pos h0
  · rw [elementAt, if_neg h0, List.getElem?_eq_none (by omega)]

/-- An index is one of an element, or there is no element at it. -/
theorem elementAt_cases (xs : List α) (index : Int) :
    (∃ i : Nat, ∃ hi : i < xs.length, index = i ∧ elementAt xs index = some xs[i]) ∨
      ¬(0 ≤ index ∧ index < xs.length) ∧ elementAt xs index = none := by
  by_cases h : 0 ≤ index ∧ index < xs.length
  · obtain ⟨i, rfl⟩ := Int.eq_ofNat_of_zero_le h.1
    have hi : i < xs.length := by omega
    exact .inl ⟨i, hi, rfl, elementAt_of_lt hi⟩
  · exact .inr ⟨h, elementAt_eq_none h⟩

/-- A list refuses the requests for an element that it does not have, with an index error, and no other. -/
theorem performOnList_outcome {request : Operation α} (hpub : request.isPublic = true) (xs : List α) :
    (request.isOutside xs.length = true ∧
        ∃ cause, performOnList xs request = .error cause ∧ isIndexError cause = true) ∨
      (request.isOutside xs.length = false ∧ ∃ result, performOnList xs request = .ok result) := by
  cases request with
  | popFront | peekFront =>
    cases xs <;> simp [performOnList, Operation.isOutside, isIndexError]
  | popBack | peekBack =>
    rcases List.eq_nil_or_concat' xs with rfl | ⟨ys, y, rfl⟩ <;>
      simp [performOnList, Operation.isOutside, isIndexError]
  | get index | set index _ | edit index _ | deleteAt index =>
    rcases elementAt_cases xs index with ⟨i, hi, rfl, hx⟩ | ⟨hi, hx⟩
    · exact .inr ⟨decide_eq_false (by omega), by simp [performOnList, hx]⟩
    · exact .inl ⟨decide_eq_true hi, by simp [performOnList, hx, isIndexError]⟩
  | deleteSlot _ | doubleCapacity => cases hpub
  | _ => exact .inr ⟨rfl, _, rfl⟩

theorem isOutside_of_error {xs : List α} {request : Operation α} {cause : RingError}
    (hpub : request.isPublic = true) (h : performOnList xs request = .error cause) :
    request.isOutside xs.length = true ∧ isIndexError cause = true := by
  rcases performOnList_outcome hpub xs with ⟨hout, cause', he, hindex⟩ | ⟨-, result, hok⟩
  · rw [h] at he
    cases he
    exact ⟨hout, hindex⟩
  · rw [h] at hok
    cases hok

theorem not_isOutside_of_ok {xs : List α} {request : Operation α} {result : List α × ListAnswer α}
    (hpub : request.isPublic = true) (h : performOnList xs request = .ok result) :
    request.isOutside xs.length = false := by
  rcases performOnList_outcome hpub xs with ⟨-, cause, he, -⟩ | ⟨hin, -⟩
  · rw [h] at he
    cases he
  · exact hin

variable [Inhabited α] {xs : List α} {r : Ring α}

/-! ## One request -/

/-- A ring and a list answer a request alike: both refuse for one cause, or both move on. -/
inductive Agree (r : Ring α) (xs : List α) (request : Operation α) : Prop
  | refused (cause : RingError) (ring : r.perform request = .error cause)
    (list : performOnList xs request = .error cause)
  | done (r' : Ring α) (answer : Answer α) (ys : List α) (ring : r.perform request = .ok (r', answer))
    (list : performOnList xs request = .ok (ys, answer.view)) (holds : r'.Holds ys)

/-- What a ring answers when it is asked at an index. -/
theorem Holds.at_index (h : r.Holds xs) (index : Int) :
    (∃ i : Nat, ∃ hi : i < xs.length, index = i ∧ r.hasIndex index = true ∧ elementAt xs index = some xs[i]) ∨
      r.hasIndex index = false ∧ elementAt xs index = none := by
  rcases elementAt_cases xs index with ⟨i, hi, rfl, hx⟩ | ⟨hi, hx⟩
  · exact .inl ⟨i, hi, rfl, (h.hasIndex_iff i).2 (by omega), hx⟩
  · exact .inr ⟨Bool.eq_false_iff.2 (mt (h.hasIndex_iff index).1 hi), hx⟩

/-- A request that only reads, or that removes, at one of the ends. -/
theorem Holds.agree_end (h : r.Holds xs) {request : Operation α}
    (hend : request = .popFront ∨ request = .popBack ∨ request = .peekFront ∨ request = .peekBack) :
    Agree r xs request := by
  rcases hend with rfl | rfl | rfl | rfl
  · cases xs with
    | nil => exact .refused .popEmpty (by rw [perform, h.popFront_nil]; rfl) rfl
    | cons x xs =>
      obtain ⟨hp, hh⟩ := h.popFront
      exact .done _ (.element x) xs (by rw [perform, hp]; rfl) rfl hh
  · rcases List.eq_nil_or_concat' xs with rfl | ⟨ys, y, rfl⟩
    · exact .refused .popEmpty (by rw [perform, h.popBack_nil]; rfl) rfl
    · obtain ⟨hp, hh⟩ := h.popBack
      exact .done _ (.element y) ys (by rw [perform, hp]; rfl) (by simp [performOnList, Answer.view]) hh
  · cases xs with
    | nil => exact .refused .peekEmpty (by rw [perform, peekFront, h.isEmpty_eq]; rfl) rfl
    | cons x xs =>
      have hp : r.peekFront = .ok x := by rw [peekFront, h.isEmpty_eq, h.read_head]; rfl
      exact .done r (.element x) (x :: xs) (by rw [perform, hp]; rfl) rfl h
  · rcases List.eq_nil_or_concat' xs with rfl | ⟨ys, y, rfl⟩
    · exact .refused .peekEmpty (by rw [perform, peekBack, h.isEmpty_eq]; rfl) rfl
    · have hp : r.peekBack = .ok y := by rw [peekBack, h.isEmpty_eq, h.read_last, if_neg (by simp)]
      exact .done r (.element y) (ys ++ [y]) (by rw [perform, hp]; rfl)
        (by simp [performOnList, Answer.view]) h

/-- A request at an index. -/
theorem Holds.agree_index (h : r.Holds xs) (index : Int) {request : Operation α}
    (hindex : request = .get index ∨ (∃ fallback, request = .getD index fallback) ∨
      (∃ a, request = .set index a) ∨ (∃ update, request = .edit index update) ∨
      request = .deleteAt index ∨ request = .hasIndex index) : Agree r xs request := by
  rcases h.at_index index with ⟨i, hi, rfl, hin, hx⟩ | ⟨hout, hx⟩
  · have hread := h.read_slot hi
    rcases hindex with rfl | ⟨fallback, rfl⟩ | ⟨a, rfl⟩ | ⟨update, rfl⟩ | rfl | rfl
    · exact .done r (.element xs[i]) xs (by rw [perform, Ring.get, if_pos hin, hread]; rfl)
        (by rw [performOnList, hx]; rfl) h
    · exact .done r (.element xs[i]) xs (by rw [perform, Ring.getD, if_pos hin, hread]; rfl)
        (by rw [performOnList, hx]; rfl) h
    · obtain ⟨r', hr, hh⟩ := h.set hi a
      exact .done r' .nothing _ (by rw [perform, hr]; rfl) (by rw [performOnList, hx]; rfl) hh
    · obtain ⟨r', hr, hh⟩ := h.edit hi update
      exact .done r' .nothing _ (by rw [perform, hr]; rfl) (by rw [performOnList, hx]; rfl) hh
    · obtain ⟨r', hr, hh⟩ := h.deleteAt hi
      exact .done r' .nothing _ (by rw [perform, hr]; rfl) (by rw [performOnList, hx]; rfl) hh
    · exact .done r (.flag true) xs (by rw [perform, hin]; rfl) (by rw [performOnList, hx]; rfl) h
  · have hno : ¬r.hasIndex index = true := by simp [hout]
    rcases hindex with rfl | ⟨fallback, rfl⟩ | ⟨a, rfl⟩ | ⟨update, rfl⟩ | rfl | rfl
    · exact .refused _ (by rw [perform, Ring.get, if_neg hno]; rfl) (by rw [performOnList, hx])
    · exact .done r (.element fallback) xs (by rw [perform, Ring.getD, if_neg hno]; rfl)
        (by rw [performOnList, hx]; rfl) h
    · exact .refused _ (by rw [perform, Ring.set, if_neg hno]; rfl) (by rw [performOnList, hx])
    · exact .refused _ (by rw [perform, Ring.edit, if_neg hno]; rfl) (by rw [performOnList, hx])
    · exact .refused _ (by rw [perform, Ring.deleteAt, if_neg hno]; rfl) (by rw [performOnList, hx])
    · exact .done r (.flag false) xs (by rw [perform, hout]; rfl) (by rw [performOnList, hx]; rfl) h

/-- One request to a ring is the same request to the list that it holds. -/
theorem Holds.agree (h : r.Holds xs) {request : Operation α} (hpub : request.isPublic = true)
    (hlt : xs.length < maxCapacity)
    (hroom : ∀ ys answer, performOnList xs request = .ok (ys, answer) → ys.length < maxCapacity) :
    Agree r xs request := by
  cases request with
  | pushFront a =>
    obtain ⟨r', hr, hh⟩ := h.pushFront a (hroom _ _ rfl)
    exact .done r' .nothing _ (by rw [perform, hr]; rfl) rfl hh
  | pushBack a =>
    obtain ⟨r', hr, hh⟩ := h.pushBack a (by simpa using hroom _ _ rfl)
    exact .done r' .nothing _ (by rw [perform, hr]; rfl) rfl hh
  | popFront | popBack | peekFront | peekBack => exact h.agree_end (by simp)
  | get index | getD index _ | set index _ | edit index _ | deleteAt index | hasIndex index =>
    exact h.agree_index index (by simp)
  | isEmpty => exact .done r (.flag xs.isEmpty) xs (by rw [perform, h.isEmpty_eq]; rfl) rfl h
  | length => exact .done r (.count xs.length) xs (by rw [perform, h.length_eq]; rfl) rfl h
  | clear => exact .done _ .nothing _ rfl rfl h.clear
  | reverse => exact .done _ .nothing _ rfl rfl h.reverse
  | slice start stop =>
    obtain ⟨r', hr, hh⟩ := h.slice start stop hlt
    exact .done r (.ring r') xs (by rw [perform, hr]; rfl) (by rw [Answer.view, hh.toList_eq]; rfl) h
  | truncateTo length => exact .done _ .nothing _ rfl rfl (h.truncateTo length)
  | trimLeading test => exact .done _ .nothing _ rfl rfl (h.trimLeading test)
  | forEach pushes =>
    have hlen := Push.length_foldl_onList (pushesAt pushes xs) xs
    obtain ⟨r', hr, hh⟩ := h.pushes (pushesAt pushes xs) (hlen ▸ hroom _ _ rfl)
    exact .done r' .nothing _ (by rw [perform, h.toList_eq, hr]; rfl) rfl hh
  | deleteSlot _ | doubleCapacity => cases hpub

/-! ## Runs -/

/-- A request in a run: the state it met, what came of it, and the state it left. -/
structure Event (σ ρ ω : Type) where
  before : σ
  request : ρ
  outcome : Except RingError ω
  after : σ

/-- The requests one after the other. One that fails leaves the state that it met. -/
def run {σ ρ ω : Type} (perform : σ → ρ → Except RingError (σ × ω)) : σ → List ρ → List (Event σ ρ ω)
  | _, [] => []
  | s, request :: rest =>
    match perform s request with
    | .ok (s', answer) => ⟨s, request, .ok answer, s'⟩ :: run perform s' rest
    | .error cause => ⟨s, request, .error cause, s⟩ :: run perform s rest

/-- An event with the elements of each ring in place of the ring. -/
def Event.view (e : Event (Ring α) (Operation α) (Answer α)) :
    Event (List α) (Operation α) (ListAnswer α) :=
  ⟨e.before.toList, e.request, e.outcome.map Answer.view, e.after.toList⟩

/-- The ways of making a ring. -/
inductive Origin (α : Type)
  | empty
  | ofList (xs : List α)
  | singleton (a : α)

def Origin.ring : Origin α → Except RingError (Ring α)
  | .empty => .ok Ring.empty
  | .ofList xs => Ring.ofList xs
  | .singleton a => Ring.singleton a

/-- The elements that a new ring shall have. -/
def Origin.elements : Origin α → List α
  | .empty => []
  | .ofList xs => xs
  | .singleton a => [a]

theorem Origin.ring_holds (origin : Origin α) (hlt : origin.elements.length < maxCapacity) :
    ∃ r, origin.ring = .ok r ∧ r.Holds origin.elements := by
  cases origin with
  | empty => exact ⟨_, rfl, empty_holds⟩
  | ofList xs => exact ofList_holds xs hlt
  | singleton a => exact singleton_holds a

/-- What an event of a ring shall show: a refusal is an index error, it leaves the ring as it was, slots
and cursors, and it comes exactly when the request asks for an element that is not there. -/
structure Event.Sound (e : Event (Ring α) (Operation α) (Answer α)) : Prop where
  refuses_iff : (∃ cause, e.outcome = .error cause) ↔ e.request.isOutside e.before.toList.length = true
  refusal : ∀ cause, e.outcome = .error cause → isIndexError cause = true ∧ e.after = e.before

theorem Holds.run (h : r.Holds xs) (hlt : xs.length < maxCapacity) (requests : List (Operation α))
    (hpub : ∀ request ∈ requests, request.isPublic = true)
    (hroom : ∀ e ∈ Ring.run performOnList xs requests, e.after.length < maxCapacity) :
    (Ring.run perform r requests).map Event.view = Ring.run performOnList xs requests ∧
      ∀ e ∈ Ring.run perform r requests, e.Sound := by
  induction requests generalizing r xs with
  | nil => exact ⟨rfl, fun e he => by cases he⟩
  | cons request rest ih =>
    obtain ⟨hreq, hrest⟩ := List.forall_mem_cons.1 hpub
    have hfits : ∀ ys answer, performOnList xs request = .ok (ys, answer) → ys.length < maxCapacity := by
      intro ys answer hl
      simp only [Ring.run, hl] at hroom
      exact (List.forall_mem_cons.1 hroom).1
    cases h.agree hreq hlt hfits with
    | refused cause hr hl =>
      simp only [Ring.run, hl, hr] at hroom ⊢
      obtain ⟨hmap, hsound⟩ := ih h hlt hrest (List.forall_mem_cons.1 hroom).2
      obtain ⟨hout, hindex⟩ := isOutside_of_error hreq hl
      refine ⟨?_, List.forall_mem_cons.2 ⟨⟨?_, ?_⟩, hsound⟩⟩
      · rw [List.map_cons, hmap, Event.view, h.toList_eq]; rfl
      · rw [h.toList_eq]
        exact ⟨fun _ => hout, fun _ => ⟨cause, rfl⟩⟩
      · rintro _ ⟨⟩
        exact ⟨hindex, rfl⟩
    | done r' answer ys hr hl hh =>
      simp only [Ring.run, hl, hr] at hroom ⊢
      obtain ⟨hys, hroom⟩ := List.forall_mem_cons.1 hroom
      obtain ⟨hmap, hsound⟩ := ih hh hys hrest hroom
      have hin := not_isOutside_of_ok hreq hl
      refine ⟨?_, List.forall_mem_cons.2 ⟨⟨?_, ?_⟩, hsound⟩⟩
      · rw [List.map_cons, hmap, Event.view, h.toList_eq, hh.toList_eq]; rfl
      · rw [h.toList_eq, hin]
        constructor
        · rintro ⟨_, ⟨⟩⟩
        · intro hout
          cases hout
      · rintro _ ⟨⟩

/-- A run of public requests to a ring, made in any way, is the run of the same requests to the list of
its elements: after every step the ring has the elements of the list, every answer is that of the list,
and every refusal is. -/
theorem run_refines (origin : Origin α) (requests : List (Operation α))
    (hpub : ∀ request ∈ requests, request.isPublic = true)
    (hstart : origin.elements.length < maxCapacity)
    (hroom : ∀ e ∈ Ring.run performOnList origin.elements requests, e.after.length < maxCapacity) :
    ∃ r, origin.ring = .ok r ∧ r.toList = origin.elements ∧
      (Ring.run perform r requests).map Event.view = Ring.run performOnList origin.elements requests ∧
      ∀ e ∈ Ring.run perform r requests, e.Sound := by
  obtain ⟨r, hr, hh⟩ := origin.ring_holds hstart
  obtain ⟨hmap, hsound⟩ := hh.run hstart requests hpub hroom
  exact ⟨r, hr, hh.toList_eq, hmap, hsound⟩

/-- The elements lie around the end of the slots, the slots double, a deletion moves the wrapped side, and
one request asks for an element that is not there. -/
theorem run_refines_wrapped :
    ∃ r, Origin.ring (.ofList [1, 2, 3, 4, 5, 6]) = .ok r ∧ r.toList = [1, 2, 3, 4, 5, 6] ∧
      (Ring.run perform r
        [.pushFront 0, .deleteAt 1, .forEach fun place a => [.front a, .back place], .get (-1), .slice (-3) none]).map
          Event.view =
        Ring.run performOnList [1, 2, 3, 4, 5, 6]
          [.pushFront 0, .deleteAt 1, .forEach fun place a => [.front a, .back place], .get (-1), .slice (-3) none] ∧
      ∀ e ∈ Ring.run perform r
        [.pushFront 0, .deleteAt 1, .forEach fun place a => [.front a, .back place], .get (-1), .slice (-3) none],
        e.Sound :=
  run_refines (.ofList [1, 2, 3, 4, 5, 6])
    [.pushFront 0, .deleteAt 1, .forEach fun place a => [.front a, .back place], .get (-1), .slice (-3) none]
    (by decide) (by decide) (by decide)

end Pinboard.Ring
