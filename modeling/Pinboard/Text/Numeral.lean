import Pinboard.Text.Digit
import Pinboard.Numeric.Conversion

/-!
# Numerals

A numeral is an optional sign, one or more decimal digits, and optionally a point with one or more
digits after it. It has no exponent, and nothing around it but one line feed that may follow.
`Numeral.read?` reads it; `Numeral.value` is the nearest number and `Numeral.integer` the integer of one
without a point.
-/

namespace Pinboard.Text

/-- The parts of a numeral, its digits as values. A numeral without a point has no fraction. -/
structure Numeral where
  negative : Bool
  whole : List Nat
  fraction : Option (List Nat)
deriving DecidableEq, Repr

/-- The digits at the front, and what follows them. -/
def takeDigits : List Char → List Nat × List Char
  | [] => ([], [])
  | c :: cs =>
    match digitValue? c with
    | none => ([], c :: cs)
    | some d => (d :: (takeDigits cs).1, (takeDigits cs).2)

/-- The number that a list of digits denotes. -/
def ofDigits (digits : List Nat) : Nat := digits.foldl (fun n d => 10 * n + d) 0

/-- Text without one line feed at its end. -/
def dropLineFeed (cs : List Char) : List Char :=
  match cs.reverse with
  | '\n' :: rest => rest.reverse
  | _ => cs

namespace Numeral

/-- The sign at the front of a numeral, and what follows it. -/
def takeSign : List Char → Bool × List Char
  | '-' :: cs => (true, cs)
  | '+' :: cs => (false, cs)
  | cs => (false, cs)

/-- The numeral without sign that is all of the text. -/
def readUnsigned (negative : Bool) (cs : List Char) : Option Numeral :=
  match takeDigits cs with
  | ([], _) => none
  | (whole, []) => some ⟨negative, whole, none⟩
  | (whole, '.' :: rest) =>
    match takeDigits rest with
    | ([], _) => none
    | (fraction, []) => some ⟨negative, whole, some fraction⟩
    | _ => none
  | _ => none

/-- The numeral that a token is, if it is one. -/
def read? (token : String) : Option Numeral :=
  let (negative, cs) := takeSign (dropLineFeed token.toList)
  readUnsigned negative cs

/-- The number nearest to a numeral. -/
def value (n : Numeral) : Binary64 :=
  let fraction := n.fraction.getD []
  Binary64.ofDecimal n.negative (ofDigits (n.whole ++ fraction)) fraction.length

/-- The integer that a numeral without a point denotes; it may have only so many digits. -/
def integer (n : Numeral) : Computed Int :=
  if digitLimit < n.whole.length then .error (.tooManyDigits n.whole.length)
  else .ok (Binary64.signed n.negative (ofDigits n.whole))

/-- Whether a numeral has no point. -/
def isInteger (n : Numeral) : Bool := n.fraction.isNone

end Numeral
end Pinboard.Text
