import Pinboard.Numeric.Binary64
import Pinboard.Numeric.Fault

/-!
# Between numbers and integers

Rounding a number to an integer (ties to even), dropping its fraction, comparing it with an integer,
and dividing by an integer. Where there is no result the cause is given.
-/

namespace Pinboard.Binary64

/-- The nearest integer, ties to even. -/
def round : Binary64 → Computed Int
  | .nan => .error .nanToInteger
  | .infinite _ => .error .infinityToInteger
  | .finite s a => .ok (signed s (roundQuotient a.units unitsPerOne))

/-- The integer part: the fraction is dropped. -/
def truncate : Binary64 → Computed Int
  | .nan => .error .nanToInteger
  | .infinite _ => .error .infinityToInteger
  | .finite s a => .ok (signed s (a.units / unitsPerOne))

/-- Whether a number lies above an integer; NaN does not. -/
def exceeds (x : Binary64) (n : Int) : Bool :=
  match x with
  | .nan => false
  | .infinite s => !s
  | .finite s a => decide (n * unitsPerOne < signed s a.units)

/-- The number nearest to an integer, which has to be in range. -/
def ofInt? (n : Int) : Computed Binary64 :=
  if (ofInt n).isFinite then .ok (ofInt n) else .error .integerTooLarge

/-- The quotient of two numbers, where the divisor is not zero. -/
def quotient (a b : Binary64) : Computed Binary64 :=
  if equal b 0 then .error .divisionByZero else .ok (a / b)

/-- The quotient of a number by an integer, which is first rounded to a number. -/
def divideBy (a : Binary64) (n : Int) : Computed Binary64 := do
  quotient a (← ofInt? n)

/-- Whether a number is one of the two infinities. -/
def isInfinite : Binary64 → Bool
  | .infinite _ => true
  | _ => false

/-- Whether two numbers are equal, or both short of infinity and no further apart than a part
`relative` of one of them. -/
def isClose (relative a b : Binary64) : Bool :=
  equal a b ||
    !isInfinite a && !isInfinite b &&
      (decide ((b - a).abs ≤ (relative * b).abs) || decide ((b - a).abs ≤ (relative * a).abs))

end Pinboard.Binary64
