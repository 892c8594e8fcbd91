import Pinboard.Ring.Error

/-!
# A double-ended queue on a ring of slots

The elements lie in a circular range of slots, from `head` up to but not including `tail`. The
number of slots is a power of two, and a ring is never full: a push that makes the cursors meet
doubles the slots, so the cursors are equal exactly when the ring is empty. A slot without an element
holds the default element.

Positions wrap around by masking: only the bits of `capacity - 1` count (`wrap_two_pow`). The
elements front to back are `Ring.toList`, the view in which every operation is a list operation.
-/

namespace Pinboard

/-- A queue with two ends: its slots, the slot of the first element, and the slot after the last. -/
structure Ring (α : Type) where
  slots : Array α
  head : Int
  tail : Int
deriving DecidableEq, Repr

namespace Ring

/-- The slots of a ring with few elements. -/
def minCapacity : Nat := 8

/-- The slots of the largest ring. -/
def maxCapacity : Nat := Nat.pow 2 30

/-- The bits of the binary numeral of `n`; zero has none. -/
def bitLength (n : Nat) : Nat := if n = 0 then 0 else n.log2 + 1

/-- The slots of a new ring for `count` elements: the least power of two above `count`, but at least
`minCapacity`, since a ring is never full. -/
def capacityFor (count : Int) : Except RingError Nat :=
  if count < minCapacity then
    .ok minCapacity
  else
    let capacity := Nat.pow 2 (bitLength count.toNat)
    if maxCapacity < capacity then .error (.tooManyElements count) else .ok capacity

/-- The slot at a position: the bits of the position that `capacity - 1` has. -/
def wrap (capacity : Nat) (position : Int) : Nat :=
  (position % (Nat.pow 2 (capacity.log2 + 1) : Nat)).toNat &&& (capacity - 1)

theorem wrap_two_pow (k : Nat) (position : Int) :
    wrap (Nat.pow 2 k) position = (position % (Nat.pow 2 k : Nat)).toNat := by
  have hpos (n : Nat) : (0 : Int) < (Nat.pow 2 n : Nat) := Int.natCast_pos.2 (Nat.two_pow_pos n)
  have hmod := Int.emod_nonneg position (Int.ne_of_gt (hpos (k + 1)))
  have hk := Int.emod_nonneg position (Int.ne_of_gt (hpos k))
  have hdvd : ((Nat.pow 2 k : Nat) : Int) ∣ (Nat.pow 2 (k + 1) : Nat) := Int.natCast_dvd_natCast.2 ⟨2, rfl⟩
  have hlog : (Nat.pow 2 k).log2 = k := Nat.log2_two_pow
  have hand (n : Nat) : n &&& (Nat.pow 2 k - 1) = n % Nat.pow 2 k := Nat.and_two_pow_sub_one_eq_mod n k
  rw [wrap, hlog, hand]
  apply Int.ofNat.inj
  show ((_ : Nat) : Int) = ((_ : Nat) : Int)
  rw [Int.natCast_emod, Int.toNat_of_nonneg hmod, Int.toNat_of_nonneg hk]
  exact Int.emod_emod_of_dvd position hdvd

variable {α : Type}

/-! ## Pieces of the slots

A position below zero counts from the end of the slots, and a piece is cut to the slots there are. -/

/-- A bound of a piece, brought between zero and the number of slots. -/
def clip (size : Nat) (position : Int) : Nat :=
  if position < 0 then (position + size).toNat else Nat.min position.toNat size

/-- The slots from position `first` up to but not including `last`. -/
def piece (slots : List α) (first last : Int) : List α :=
  (slots.take (clip slots.length last)).drop (clip slots.length first)

/-- The slots with those from `first` up to but not including `last` replaced. -/
def replacePiece (slots : List α) (first last : Int) (middle : List α) : List α :=
  slots.take (clip slots.length first) ++ middle
    ++ slots.drop (Nat.max (clip slots.length first) (clip slots.length last))

/-! ## Reading -/

/-- The number of slots. -/
def capacity (r : Ring α) : Nat := r.slots.size

/-- The number of elements. -/
def length (r : Ring α) : Nat := wrap r.capacity (r.tail - r.head)

/-- The elements, front to back. -/
def toList (r : Ring α) : List α :=
  let slots := r.slots.toList
  if r.head ≤ r.tail then piece slots r.head r.tail
  else piece slots r.head slots.length ++ piece slots 0 r.tail

def isEmpty (r : Ring α) : Bool := r.head == r.tail

/-- Whether an index is one of an element. -/
def hasIndex (r : Ring α) (index : Int) : Bool := decide (0 ≤ index) && decide (index < r.length)

/-- The slot of the element at an index. -/
def slot (r : Ring α) (index : Int) : Nat := wrap r.capacity (r.head + index)

variable [Inhabited α]

/-- What a slot holds. -/
def read (r : Ring α) (slot : Nat) : α := r.slots.getD slot default

/-- The element at an index. -/
def get (r : Ring α) (index : Int) : Except RingError α :=
  if r.hasIndex index then .ok (r.read (r.slot index)) else .error .noElement

/-- The element at an index, or `fallback` outside the elements. -/
def getD (r : Ring α) (index : Int) (fallback : α) : α :=
  if r.hasIndex index then r.read (r.slot index) else fallback

/-- The first element. -/
def peekFront (r : Ring α) : Except RingError α :=
  if r.isEmpty then .error .peekEmpty else .ok (r.read r.head.toNat)

/-- The last element. -/
def peekBack (r : Ring α) : Except RingError α :=
  if r.isEmpty then .error .peekEmpty else .ok (r.read (wrap r.capacity (r.tail - 1)))

/-! ## Growing -/

/-- A ring without elements. -/
def empty : Ring α := ⟨Array.replicate minCapacity default, 0, 0⟩

instance : Inhabited (Ring α) where
  default := empty

/-- Twice the slots for a ring whose cursors have met: the slots from `head` on come first. -/
def doubleCapacity (r : Ring α) : Except RingError (Ring α) :=
  if r.head ≠ r.tail then
    .error .notFull
  else if maxCapacity < 2 * r.capacity then
    .error .capacityExceeded
  else
    let slots := r.slots.toList
    let turned := piece slots r.head slots.length ++ piece slots 0 r.head
    .ok ⟨(turned ++ List.replicate r.capacity default).toArray, 0, r.capacity⟩

/-- One more element before the first. -/
def pushFront (r : Ring α) (a : α) : Except RingError (Ring α) :=
  let head := wrap r.capacity (r.head - 1)
  let pushed := { r with slots := r.slots.setIfInBounds head a, head := head }
  if pushed.head = pushed.tail then pushed.doubleCapacity else .ok pushed

/-- One more element after the last. -/
def pushBack (r : Ring α) (a : α) : Except RingError (Ring α) :=
  let pushed :=
    { r with
      slots := r.slots.setIfInBounds (clip r.capacity r.tail) a
      tail := wrap r.capacity (r.tail + 1) }
  if pushed.tail = pushed.head then pushed.doubleCapacity else .ok pushed

/-- One more element after the last for each of a list. -/
def pushAll (r : Ring α) (elements : List α) : Except RingError (Ring α) :=
  elements.foldlM pushBack r

/-- A ring with the elements of a list. -/
def ofList (elements : List α) : Except RingError (Ring α) := do
  let capacity ← capacityFor elements.length
  pushAll ⟨Array.replicate capacity default, 0, 0⟩ elements

/-- A ring with one element. -/
def singleton (a : α) : Except RingError (Ring α) := empty.pushBack a

/-! ## Shrinking -/

/-- The ring without its first element, which there has to be. -/
def dropFront (r : Ring α) : Ring α :=
  { r with
    slots := r.slots.setIfInBounds r.head.toNat default
    head := wrap r.capacity (r.head + 1) }

/-- The ring without its last element, which there has to be. -/
def dropBack (r : Ring α) : Ring α :=
  let last := wrap r.capacity (r.tail - 1)
  { r with slots := r.slots.setIfInBounds last default, tail := last }

/-- The first element and the ring without it. -/
def popFront (r : Ring α) : Except RingError (α × Ring α) :=
  if r.isEmpty then .error .popEmpty else .ok (r.read r.head.toNat, r.dropFront)

/-- The last element and the ring without it. -/
def popBack (r : Ring α) : Except RingError (α × Ring α) :=
  if r.isEmpty then .error .popEmpty
  else .ok (r.read (wrap r.capacity (r.tail - 1)), r.dropBack)

/-- The slots with `count` of them from `slot` on emptied. -/
def emptySlots (slots : Array α) : Nat → Nat → Array α
  | 0, _ => slots
  | count + 1, slot =>
    emptySlots (slots.setIfInBounds slot default) count (wrap slots.size (slot + 1))

/-- The ring without its elements; the cursors of an empty ring stay where they are. -/
def clear (r : Ring α) : Ring α :=
  if r.isEmpty then r else ⟨emptySlots r.slots r.length r.head.toNat, 0, 0⟩

/-- The ring with `count` elements fewer at the back. -/
def dropBacks : Nat → Ring α → Ring α
  | 0, r => r
  | count + 1, r => dropBacks count r.dropBack

/-- The first `length` elements; none for a length below zero. -/
def truncateTo (r : Ring α) (length : Int) : Ring α :=
  if length ≤ 0 then r.clear else dropBacks (r.length - length.toNat) r

/-- The ring without those of its first `count` elements that come before the first that fails a test. -/
def trimFronts (test : α → Bool) : Nat → Ring α → Ring α
  | 0, r => r
  | count + 1, r =>
    if r.isEmpty || !test (r.read r.head.toNat) then r else trimFronts test count r.dropFront

/-- The ring without the elements before the first that fails a test. -/
def trimLeading (r : Ring α) (test : α → Bool) : Ring α := trimFronts test r.length r

/-! ## Changing in place -/

/-- Another element at an index. -/
def set (r : Ring α) (index : Int) (a : α) : Except RingError (Ring α) :=
  if r.hasIndex index then .ok { r with slots := r.slots.setIfInBounds (r.slot index) a }
  else .error .noElementToSet

/-- The element at an index replaced by a function of it. -/
def edit (r : Ring α) (index : Int) (update : α → α) : Except RingError (Ring α) :=
  if r.hasIndex index then
    let slot := r.slot index
    .ok { r with slots := r.slots.setIfInBounds slot (update (r.read slot)) }
  else
    .error .noElementToSet

/-- The slots with `count` pairs swapped, one slot going forwards and the other backwards. -/
def swapInwards (slots : Array α) : Nat → Nat → Nat → Array α
  | 0, _, _ => slots
  | count + 1, front, back =>
    let a := slots.getD front default
    let b := slots.getD back default
    swapInwards ((slots.setIfInBounds front b).setIfInBounds back a) count
      (wrap slots.size (front + 1)) (wrap slots.size ((back : Int) - 1))

/-- The elements in the opposite order. -/
def reverse (r : Ring α) : Ring α :=
  { r with
    slots := swapInwards r.slots (r.length / 2) r.head.toNat (wrap r.capacity (r.tail - 1)) }

/-! ## Copying -/

/-- A new ring with the elements from index `start` up to but not including `stop`. A bound below zero
counts from the end, a missing `stop` is the end, and bounds outside the elements are cut to them. -/
def slice (r : Ring α) (start : Int) (stop : Option Int) : Except RingError (Ring α) :=
  let length : Int := r.length
  let stop := stop.getD length
  let first := max (if start < 0 then start + length else start) 0
  let last := min (if stop < 0 then stop + length else stop) length
  if last ≤ first then .ok empty
  else
    ofList ((List.range (last - first).toNat).map fun (offset : Nat) => r.read (r.slot (first + offset)))

end Ring
end Pinboard
