import Pinboard.Ring.Basic

/-!
# Deleting inside a ring

The element at an index goes and the shorter side of the elements moves up by one slot. A side may lie
across the end of the slots, so there are four layouts: the front or the back moves, in one piece or
around the end.
-/

namespace Pinboard.Ring

variable {α : Type} [Inhabited α]

/-- The slots after the elements from `head` up to `slot` have moved one slot on, over `slot`. -/
def closeFromFront (slots : List α) (head slot : Int) : List α :=
  let last := slots.length - 1
  let moved :=
    if head ≤ slot then
      replacePiece slots (head + 1) (slot + 1) (piece slots head slot)
    else
      let low := replacePiece slots 1 (slot + 1) (piece slots 0 slot)
      let carried := low.set 0 (low.getD last default)
      replacePiece carried (head + 1) (last + 1) (piece carried head last)
  moved.set head.toNat default

/-- The slots after the elements beyond `slot` have moved one slot back, over `slot`. The pieces that
move end with the empty slot at `tail`. -/
def closeFromBack (slots : List α) (slot tail : Int) : List α :=
  let last := slots.length - 1
  if slot < tail then
    replacePiece slots slot tail (piece slots (slot + 1) (tail + 1))
  else
    let high := replacePiece slots slot last (piece slots (slot + 1) (last + 1))
    let carried := high.set last (high.getD 0 default)
    replacePiece carried 0 tail (piece carried 1 (tail + 1))

/-- The ring without the element in a slot. The shorter side moves. -/
def deleteSlot (r : Ring α) (slot : Int) : Except RingError (Ring α) :=
  let front := wrap r.capacity (slot - r.head)
  let back := wrap r.capacity (r.tail - slot)
  if r.length ≤ front then
    .error (.outsideRing slot r.head r.tail)
  else if front < back then
    .ok
      { r with
        slots := (closeFromFront r.slots.toList r.head slot).toArray
        head := wrap r.capacity (r.head + 1) }
  else
    .ok
      { r with
        slots := (closeFromBack r.slots.toList slot r.tail).toArray
        tail := if slot < r.tail then r.tail - 1 else wrap r.capacity (r.tail - 1) }

/-- The ring without the element at an index. -/
def deleteAt (r : Ring α) (index : Int) : Except RingError (Ring α) :=
  if r.hasIndex index then r.deleteSlot (r.slot index) else .error .noElementToDelete

end Pinboard.Ring
