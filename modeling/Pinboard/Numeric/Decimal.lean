import Pinboard.Numeric.Conversion

/-!
# Decimal numerals

`fixedText` writes a number with a fixed count of decimals, from its exact value and with ties to
even. `numberText` is the form of the numbers in a drawing: an integer when the number is as good as
one, otherwise up to three decimals without trailing zeros.
-/

namespace Pinboard

/-- The numeral of an integer. -/
def integerText (n : Int) : String :=
  if n < 0 then "-" ++ Nat.repr n.natAbs else Nat.repr n.natAbs

/-- The last `places` decimal digits of `n`, leading zeros included. -/
def lastDigits : Nat → Nat → List Char
  | 0, _ => []
  | places + 1, n => lastDigits places (n / 10) ++ [Nat.digitChar (n % 10)]

@[simp]
theorem length_lastDigits (places n : Nat) : (lastDigits places n).length = places := by
  induction places generalizing n with
  | zero => rfl
  | succ places ih => simp [lastDigits, ih]

/-- A list of digits without its trailing zeros. -/
def trimZeros (digits : List Char) : List Char :=
  (digits.reverse.dropWhile (· == '0')).reverse

namespace Binary64

/-- The magnitude in parts of `1 / 10 ^ places`, ties to even. -/
def scaled (places : Nat) (a : Magnitude) : Nat :=
  roundQuotient (a.units * Nat.pow 10 places) unitsPerOne

/-- A number with exactly `places` decimals; a negative one keeps its sign even where all digits are zero. -/
def fixedText (places : Nat) : Binary64 → String
  | .nan => "nan"
  | .infinite s => if s then "-inf" else "inf"
  | .finite s a =>
    let n := scaled places a
    (if s then "-" else "") ++ Nat.repr (n / Nat.pow 10 places)
      ++ (if places = 0 then "" else "." ++ String.ofList (lastDigits places n))

/-- A count of thousandths as a numeral of up to three decimals. -/
def thousandthsText (negative : Bool) (n : Nat) : String :=
  let decimals := trimZeros (lastDigits 3 n)
  (if negative && n != 0 then "-" else "") ++ Nat.repr (n / 1000)
    ++ (if decimals.isEmpty then "" else "." ++ String.ofList decimals)

/-- How near to an integer, relative to its size, a number has to be to be written as one. -/
def integerTolerance : Binary64 := ofDecimal false 1 9

/-- The numeral that a drawing shows for a number, which has to be finite. -/
def numberText : Binary64 → Computed String
  | .nan => .error .nanToInteger
  | .infinite _ => .error .infinityToInteger
  | .finite s a =>
    let nearest := signed s (roundQuotient a.units unitsPerOne)
    .ok <|
      if isClose integerTolerance (.finite s a) (ofInt nearest) then integerText nearest
      else thousandthsText s (scaled 3 a)

end Binary64
end Pinboard
