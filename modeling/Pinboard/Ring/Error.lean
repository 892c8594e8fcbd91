/-!
# What a ring refuses

The causes for which an operation on a ring has no result, and the words for each.
-/

namespace Pinboard

/-- Why an operation on a ring fails. -/
inductive RingError
  | popEmpty
  | peekEmpty
  /-- Reading at an index outside the elements. -/
  | noElement
  /-- Writing at an index outside the elements. -/
  | noElementToSet
  /-- Deleting at an index outside the elements. -/
  | noElementToDelete
  /-- A slot that holds no element, with the cursors that say so. -/
  | outsideRing (slot head tail : Int)
  /-- Doubling while the cursors are apart. -/
  | notFull
  | capacityExceeded
  | tooManyElements (count : Int)
deriving DecidableEq, Repr

/-- The words for a cause. -/
def RingError.message : RingError → String
  | .popEmpty => "pop from an empty deque"
  | .peekEmpty => "peek at an empty deque"
  | .noElement => "deque index out of range"
  | .noElementToSet => "deque assignment index out of range"
  | .noElementToDelete => "deque deletion index out of range"
  | .outsideRing slot head tail =>
    "slot " ++ Int.repr slot ++ " is outside the ring (head=" ++ Int.repr head ++ ", tail="
      ++ Int.repr tail ++ ")"
  | .notFull => "capacity doubled while the ring was not full"
  | .capacityExceeded => "RingDeque capacity exceeded"
  | .tooManyElements count => "RingDeque cannot hold " ++ Int.repr count ++ " elements"

end Pinboard
