import Pinboard.Numeric.Power
import Pinboard.Numeric.Rounding

/-!
# Binary64 numbers

Every finite binary64 number is a whole number of units of `2^-1074`, so an operation is an exact
integer computation followed by one rounding. `Representable` says which magnitudes a number can
have, `Binary64.rounded` is the only place where a result is rounded, and
`representable_roundedUnits` says that rounding lands on a magnitude of the format unless it
overflows.

There is one NaN. The order and the numeric equality are those of the format: NaN is incomparable
and the two zeros are equal.
-/

namespace Pinboard

/-- The least positive number is one unit, two to the power of minus this. -/
def unitExponent : Nat := 1074

/-- The numbers end below two to this power, counted in units. -/
def limitExponent : Nat := 2098

/-- The units in the number one. -/
def unitsPerOne : Nat := Nat.pow 2 unitExponent

/-- The first power of two that is out of range, in units. -/
def unitLimit : Nat := Nat.pow 2 limitExponent

/-- A magnitude of the format: a significand of 53 bits times a power of two, in range. -/
def Representable (units : Nat) : Prop :=
  units < unitLimit ∧
    ∃ significand exponent, significand < Nat.pow 2 53 ∧ units = significand * Nat.pow 2 exponent

/-- The absolute value of a finite number. -/
structure Magnitude where
  units : Nat
  representable : Representable units
deriving DecidableEq

/-- A binary64 number. Zero has both signs. -/
inductive Binary64
  | nan
  | infinite (negative : Bool)
  | finite (negative : Bool) (magnitude : Magnitude)
deriving DecidableEq

theorem unitsPerOne_pos : 0 < unitsPerOne := by
  unfold unitsPerOne
  exact twoPow_pos unitExponent

theorem unitLimit_pos : 0 < unitLimit := by
  unfold unitLimit
  exact twoPow_pos limitExponent

theorem two_pow_lt_unitLimit {n : Nat} (h : n < limitExponent) : Nat.pow 2 n < unitLimit := by
  unfold unitLimit
  exact twoPow_lt h

theorem representable_zero : Representable 0 :=
  ⟨unitLimit_pos, 0, 0, by decide, rfl⟩

/-! ## Rounding to the format -/

/-- The exponent of the spacing of the magnitudes near `n / d` units. -/
def spacingExponent (n d : Nat) : Nat := (n / d).log2 - 52

/-- The magnitude nearest to `n / d` units, ties to even, as if there were no largest number. -/
def roundedUnits (n d : Nat) : Nat :=
  roundQuotient n (d * Nat.pow 2 (spacingExponent n d)) * Nat.pow 2 (spacingExponent n d)

/-- The magnitude nearest to the square root of `n` square units. -/
def roundedRootUnits (n : Nat) : Nat :=
  let exponent := n.sqrt.log2 - 52
  roundRoot n (Nat.pow 4 exponent) * Nat.pow 2 exponent

theorem div_spacing_lt (n d : Nat) : n / (d * Nat.pow 2 (spacingExponent n d)) < Nat.pow 2 53 := by
  rw [← Nat.div_div_eq_div_mul]
  apply Nat.div_lt_of_lt_mul
  rw [← twoPow_add]
  refine Nat.lt_of_lt_of_le (lt_twoPow_log2_succ _) (twoPow_le ?_)
  simp only [spacingExponent]
  omega

theorem representable_mul_pow {significand exponent : Nat} (hs : significand ≤ Nat.pow 2 53)
    (hlt : significand * Nat.pow 2 exponent < unitLimit) :
    Representable (significand * Nat.pow 2 exponent) := by
  refine ⟨hlt, ?_⟩
  rcases Nat.lt_or_ge significand (Nat.pow 2 53) with h | h
  · exact ⟨significand, exponent, h, rfl⟩
  · refine ⟨Nat.pow 2 52, exponent + 1, twoPow_lt (by decide), ?_⟩
    rw [Nat.le_antisymm hs h, twoPow_succ exponent, twoPow_succ 52, ← Nat.mul_assoc,
      Nat.mul_comm 2 (Nat.pow 2 52)]

theorem representable_roundedUnits {n d : Nat} (hlt : roundedUnits n d < unitLimit) :
    Representable (roundedUnits n d) := by
  refine representable_mul_pow ?_ hlt
  exact Nat.le_trans (roundQuotient_le _ _) (div_spacing_lt n d)

theorem sqrt_div_spacing_lt (n : Nat) : (n / Nat.pow 4 (n.sqrt.log2 - 52)).sqrt < Nat.pow 2 53 := by
  have hroot : n.sqrt + 1 ≤ Nat.pow 2 (53 + (n.sqrt.log2 - 52)) :=
    Nat.le_trans (lt_twoPow_log2_succ n.sqrt) (twoPow_le (by omega))
  have hn : n < Nat.pow 2 53 * Nat.pow 2 53 * Nat.pow 4 (n.sqrt.log2 - 52) := by
    refine Nat.lt_of_lt_of_le (Nat.lt_succ_sqrt n) (Nat.le_trans (Nat.mul_le_mul hroot hroot) ?_)
    rw [fourPow, twoPow_add]
    exact Nat.le_of_eq (by ac_rfl)
  have hdiv : n / Nat.pow 4 (n.sqrt.log2 - 52) < Nat.pow 2 53 * Nat.pow 2 53 :=
    Nat.div_lt_of_lt_mul (by rwa [Nat.mul_comm])
  exact Nat.lt_of_not_le fun h =>
    Nat.lt_irrefl _ (Nat.lt_of_le_of_lt (Nat.le_trans (Nat.mul_le_mul h h) (Nat.sqrt_le _)) hdiv)

theorem representable_roundedRootUnits {n : Nat} (hlt : roundedRootUnits n < unitLimit) :
    Representable (roundedRootUnits n) := by
  refine representable_mul_pow ?_ hlt
  exact Nat.le_trans (roundRoot_le _ _) (sqrt_div_spacing_lt n)

namespace Binary64

/-- The number nearest to `n / d` units with the given sign; out of range it is infinite. -/
def rounded (negative : Bool) (n d : Nat) : Binary64 :=
  if h : roundedUnits n d < unitLimit then
    .finite negative ⟨roundedUnits n d, representable_roundedUnits h⟩
  else
    .infinite negative

/-- The number nearest to the square root of `n` square units; out of range it is infinite. -/
def roundedRoot (n : Nat) : Binary64 :=
  if h : roundedRootUnits n < unitLimit then
    .finite false ⟨roundedRootUnits n, representable_roundedRootUnits h⟩
  else
    .infinite false

/-! ## Numbers from integers and decimals -/

/-- Zero with the given sign. -/
def zero (negative : Bool) : Binary64 := .finite negative ⟨0, representable_zero⟩

/-- The number nearest to `digits / 10 ^ places`. -/
def ofDecimal (negative : Bool) (digits places : Nat) : Binary64 :=
  rounded negative (digits * unitsPerOne) (Nat.pow 10 places)

/-- The number nearest to an integer; zero is positive. -/
def ofInt (n : Int) : Binary64 := ofDecimal (n < 0) n.natAbs 0

instance : OfScientific Binary64 where
  ofScientific digits negativeExponent exponent :=
    if negativeExponent then ofDecimal false digits exponent
    else ofDecimal false (digits * Nat.pow 10 exponent) 0

instance (n : Nat) : OfNat Binary64 n where
  ofNat := ofDecimal false n 0

instance : Inhabited Binary64 where
  default := zero false

/-! ## Order -/

def isFinite : Binary64 → Bool
  | .finite _ _ => true
  | _ => false

/-- An integer with the sign of a number and its magnitude. -/
def signed (negative : Bool) (n : Nat) : Int := if negative then -n else n

/-- The strict order of the format: false as soon as one side is NaN. -/
def lt : Binary64 → Binary64 → Bool
  | .nan, _ => false
  | _, .nan => false
  | .infinite s, .infinite t => s && !t
  | .infinite s, .finite _ _ => s
  | .finite _ _, .infinite t => !t
  | .finite s a, .finite t b => decide (signed s a.units < signed t b.units)

/-- The numeric equality of the format: the two zeros are equal and NaN equals nothing. -/
def equal : Binary64 → Binary64 → Bool
  | .infinite s, .infinite t => s == t
  | .finite s a, .finite t b => signed s a.units == signed t b.units
  | _, _ => false

/-- The order of the format, with equality. -/
def le (a b : Binary64) : Bool := lt a b || equal a b

instance : LT Binary64 where
  lt a b := lt a b

instance : LE Binary64 where
  le a b := le a b

instance (a b : Binary64) : Decidable (a < b) := inferInstanceAs (Decidable (lt a b = true))

instance (a b : Binary64) : Decidable (a ≤ b) := inferInstanceAs (Decidable (le a b = true))

/-- The smaller of two numbers, the first one unless the second is below it. -/
protected def min (a b : Binary64) : Binary64 := if b < a then b else a

/-- The larger of two numbers, the first one unless the second is above it. -/
protected def max (a b : Binary64) : Binary64 := if a < b then b else a

instance : Min Binary64 where
  min := Binary64.min

instance : Max Binary64 where
  max := Binary64.max

/-! ## Arithmetic -/

protected def neg : Binary64 → Binary64
  | .nan => .nan
  | .infinite s => .infinite !s
  | .finite s a => .finite (!s) a

/-- The absolute value. -/
def abs : Binary64 → Binary64
  | .nan => .nan
  | .infinite _ => .infinite false
  | .finite _ a => .finite false a

/-- The sum of two numbers. An exact zero is negative only when both terms are. -/
protected def add : Binary64 → Binary64 → Binary64
  | .nan, _ => .nan
  | _, .nan => .nan
  | .infinite s, .infinite t => if s = t then .infinite s else .nan
  | .infinite s, .finite _ _ => .infinite s
  | .finite _ _, .infinite t => .infinite t
  | .finite s a, .finite t b =>
    let sum := signed s a.units + signed t b.units
    rounded (if sum = 0 then s && t else decide (sum < 0)) sum.natAbs 1

protected def mul : Binary64 → Binary64 → Binary64
  | .nan, _ => .nan
  | _, .nan => .nan
  | .infinite s, .infinite t => .infinite (s ^^ t)
  | .infinite s, .finite t b => if b.units = 0 then .nan else .infinite (s ^^ t)
  | .finite s a, .infinite t => if a.units = 0 then .nan else .infinite (s ^^ t)
  | .finite s a, .finite t b => rounded (s ^^ t) (a.units * b.units) unitsPerOne

/-- The quotient of two numbers; by zero it is infinite, and NaN where both are zero. -/
protected def div : Binary64 → Binary64 → Binary64
  | .nan, _ => .nan
  | _, .nan => .nan
  | .infinite _, .infinite _ => .nan
  | .infinite s, .finite t _ => .infinite (s ^^ t)
  | .finite s _, .infinite t => zero (s ^^ t)
  | .finite s a, .finite t b =>
    if b.units = 0 then if a.units = 0 then .nan else .infinite (s ^^ t)
    else rounded (s ^^ t) (a.units * unitsPerOne) b.units

instance : Neg Binary64 where
  neg := Binary64.neg

instance : Add Binary64 where
  add := Binary64.add

instance : Sub Binary64 where
  sub a b := a + -b

instance : Mul Binary64 where
  mul := Binary64.mul

instance : Div Binary64 where
  div := Binary64.div

/-- The length of the hypotenuse over two legs, rounded once. -/
def hypotenuse : Binary64 → Binary64 → Binary64
  | .infinite _, _ => .infinite false
  | _, .infinite _ => .infinite false
  | .finite _ a, .finite _ b => roundedRoot (a.units * a.units + b.units * b.units)
  | _, _ => .nan

end Binary64
end Pinboard
