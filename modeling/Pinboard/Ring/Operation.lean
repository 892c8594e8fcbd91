import Pinboard.Ring.Deletion

/-!
# Operations on a ring as values

`Ring.Operation` lists what can be asked of a ring, and `Ring.perform` answers one request. An
operation that fails has no new ring, so the old one stands.
-/

namespace Pinboard.Ring

/-- One more element at one of the two ends. -/
inductive Push (α : Type)
  | front (a : α)
  | back (a : α)

/-- A request to a ring. -/
inductive Operation (α : Type)
  | pushFront (a : α)
  | pushBack (a : α)
  | popFront
  | popBack
  | peekFront
  | peekBack
  | get (index : Int)
  | getD (index : Int) (fallback : α)
  | set (index : Int) (a : α)
  | edit (index : Int) (update : α → α)
  | deleteAt (index : Int)
  | hasIndex (index : Int)
  | isEmpty
  | length
  | clear
  | reverse
  | slice (start : Int) (stop : Option Int)
  | truncateTo (length : Int)
  | trimLeading (test : α → Bool)
  /-- Go through the elements that the ring has at the start, and make the given pushes at each, by its place. -/
  | forEach (pushes : Nat → α → List (Push α))
  | deleteSlot (slot : Int)
  | doubleCapacity

/-- What a request gives back. -/
inductive Answer (α : Type)
  | nothing
  | element (a : α)
  | flag (value : Bool)
  | count (value : Nat)
  | ring (r : Ring α)

variable {α : Type}

/-- Push each element that the ring has at the start once more at the back. -/
def Operation.repeatElements : Operation α := .forEach fun _ a => [.back a]

/-- The pushes that are made at the elements of a list, one after the other. -/
def pushesAt (pushes : Nat → α → List (Push α)) (xs : List α) : List (Push α) :=
  xs.zipIdx.flatMap fun (a, place) => pushes place a

variable [Inhabited α]

/-- The ring after a push. -/
def push (r : Ring α) : Push α → Except RingError (Ring α)
  | .front a => r.pushFront a
  | .back a => r.pushBack a

/-- The ring after a request, and the answer. -/
def perform (r : Ring α) : Operation α → Except RingError (Ring α × Answer α)
  | .pushFront a => return (← r.pushFront a, .nothing)
  | .pushBack a => return (← r.pushBack a, .nothing)
  | .popFront => do
    let (a, rest) ← r.popFront
    return (rest, .element a)
  | .popBack => do
    let (a, rest) ← r.popBack
    return (rest, .element a)
  | .peekFront => return (r, .element (← r.peekFront))
  | .peekBack => return (r, .element (← r.peekBack))
  | .get index => return (r, .element (← r.get index))
  | .getD index fallback => return (r, .element (r.getD index fallback))
  | .set index a => return (← r.set index a, .nothing)
  | .edit index update => return (← r.edit index update, .nothing)
  | .deleteAt index => return (← r.deleteAt index, .nothing)
  | .hasIndex index => return (r, .flag (r.hasIndex index))
  | .isEmpty => return (r, .flag r.isEmpty)
  | .length => return (r, .count r.length)
  | .clear => return (r.clear, .nothing)
  | .reverse => return (r.reverse, .nothing)
  | .slice start stop => return (r, .ring (← r.slice start stop))
  | .truncateTo length => return (r.truncateTo length, .nothing)
  | .trimLeading test => return (r.trimLeading test, .nothing)
  | .forEach pushes => return (← (pushesAt pushes r.toList).foldlM push r, .nothing)
  | .deleteSlot slot => return (← r.deleteSlot slot, .nothing)
  | .doubleCapacity => return (← r.doubleCapacity, .nothing)

end Pinboard.Ring
