import Pinboard.Numeric.Decimal

/-!
# The shortest numeral that reads back

`shortestDigits` finds the fewest decimal digits that round to a given number, and of those the
nearest to it. For each count of digits the two neighbours of the number on that decimal grid are tried.
`readableText` writes them: positionally for exponents from -4 to 15, otherwise with an exponent.
-/

namespace Pinboard.Binary64

/-- The integer part of `units` divided by ten to the power `exponent`, as a count of ones. -/
def floorScaled (units : Nat) (exponent : Int) : Nat :=
  if 0 ≤ exponent then units / (unitsPerOne * Nat.pow 10 exponent.toNat)
  else units * Nat.pow 10 (-exponent).toNat / unitsPerOne

/-- The magnitude nearest to `digits` times ten to the power `exponent`, in units. -/
def unitsOfDecimal (digits : Nat) (exponent : Int) : Nat :=
  if 0 ≤ exponent then roundedUnits (digits * Nat.pow 10 exponent.toNat * unitsPerOne) 1
  else roundedUnits (digits * unitsPerOne) (Nat.pow 10 (-exponent).toNat)

/-- The exponent of the first decimal digit of a magnitude that is not zero. -/
def leadingExponent (units : Nat) : Int :=
  ((Nat.toDigits 10 (floorScaled units (-400))).length : Int) - 401

/-- Compares a magnitude with `digits` times ten to the power `exponent`. -/
def compareDecimal (units digits : Nat) (exponent : Int) : Ordering :=
  if 0 ≤ exponent then compare units (digits * Nat.pow 10 exponent.toNat * unitsPerOne)
  else compare (units * Nat.pow 10 (-exponent).toNat) (digits * unitsPerOne)

/-- Whether the upper of two neighbours on a decimal grid is the nearer one; an exact half goes to the
even one. -/
def upperIsNearer (units lower : Nat) (exponent : Int) : Bool :=
  match compareDecimal units (10 * lower + 5) (exponent - 1) with
  | .lt => false
  | .eq => lower % 2 == 1
  | .gt => true

/-- A decimal of the grid with the given exponent that rounds to the magnitude. -/
def readsBackOn (units : Nat) (exponent : Int) : Option (Nat × Int) :=
  let lower := floorScaled units exponent
  let reads (digits : Nat) : Bool := unitsOfDecimal digits exponent == units
  match reads lower, reads (lower + 1) with
  | true, true => some (if upperIsNearer units lower exponent then lower + 1 else lower, exponent)
  | true, false => some (lower, exponent)
  | false, true => some (lower + 1, exponent)
  | false, false => none

/-- The fewest digits that round to a magnitude other than zero, and the exponent of the last. -/
def shortestDigits (a : Magnitude) : Nat × Int :=
  let first := leadingExponent a.units
  ((List.range 18).findSome? fun (more : Nat) => readsBackOn a.units (first - more)).getD (a.units, 0)

/-- An exponent with its sign and at least two digits. -/
def exponentText (exponent : Int) : List Char :=
  let digits := Nat.toDigits 10 exponent.natAbs
  (if exponent < 0 then '-' else '+') :: (if digits.length < 2 then '0' :: digits else digits)

/-- The digits of a numeral with the point after the first `point` of them. -/
def placePoint (digits : List Char) (point : Int) : List Char :=
  if point ≤ -4 ∨ 16 < point then
    match digits with
    | [] => []
    | [d] => d :: 'e' :: exponentText (point - 1)
    | d :: ds => d :: '.' :: ds ++ 'e' :: exponentText (point - 1)
  else if point ≤ 0 then
    '0' :: '.' :: List.replicate (-point).toNat '0' ++ digits
  else if digits.length ≤ point.toNat then
    digits ++ List.replicate (point.toNat - digits.length) '0' ++ ['.', '0']
  else
    digits.take point.toNat ++ '.' :: digits.drop point.toNat

/-- The shortest numeral that reads back as the number; it shows that it is no integer. -/
def readableText : Binary64 → String
  | .nan => "nan"
  | .infinite s => if s then "-inf" else "inf"
  | .finite s a =>
    let sign := if s then ['-'] else []
    if a.units = 0 then String.ofList (sign ++ ['0', '.', '0'])
    else
      let (digits, exponent) := shortestDigits a
      let all := Nat.toDigits 10 digits
      String.ofList (sign ++ placePoint (trimZeros all) (all.length + exponent))

end Pinboard.Binary64
