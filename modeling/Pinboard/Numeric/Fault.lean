/-!
# What can go wrong in arithmetic

The causes that stop a computation on numbers, and the words for each.
-/

namespace Pinboard

/-- Why an operation on numbers has no result. -/
inductive ArithmeticFault
  | divisionByZero
  /-- An infinity has no integer part. -/
  | infinityToInteger
  | nanToInteger
  /-- An integer lies beyond the largest finite number. -/
  | integerTooLarge
  /-- A numeral has more digits than an integer may be read from. -/
  | tooManyDigits (digits : Nat)
deriving DecidableEq, Repr

/-- The result of a computation with numbers. -/
abbrev Computed (α : Type) := Except ArithmeticFault α

/-- The most digits that an integer is read from. -/
def digitLimit : Nat := 4300

/-- The words for a cause. -/
def ArithmeticFault.message : ArithmeticFault → String
  | .divisionByZero => "float division by zero"
  | .infinityToInteger => "cannot convert float infinity to integer"
  | .nanToInteger => "cannot convert float NaN to integer"
  | .integerTooLarge => "int too large to convert to float"
  | .tooManyDigits digits =>
    "Exceeds the limit (" ++ Nat.repr digitLimit ++ " digits) for integer string conversion: value has "
      ++ Nat.repr digits ++ " digits; use sys.set_int_max_str_digits() to increase the limit"

end Pinboard
