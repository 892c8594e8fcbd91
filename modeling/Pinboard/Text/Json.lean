import Pinboard.Text.Quoted

/-!
# Reading JSON

The reader of a JSON object without arrays and further objects in it, with numbers that are natural. It accepts only
what JSON allows: names and texts between double quotation marks, with no hidden characters but in escapes; numbers
without needless zeros; and blanks around all of them.
-/

namespace Pinboard.Text

/-- A value in JSON. -/
inductive JsonValue
  | null
  | boolean (b : Bool)
  | number (n : Nat)
  | string (s : String)
deriving DecidableEq, Repr

namespace Json

/-! ## Strings -/

/-- The value of a hexadecimal digit. -/
def hexValue? (c : Char) : Option Nat :=
  if '0' ≤ c ∧ c ≤ '9' then some (c.toNat - 48)
  else if 'a' ≤ c ∧ c ≤ 'f' then some (c.toNat - 87)
  else if 'A' ≤ c ∧ c ≤ 'F' then some (c.toNat - 55)
  else none

/-- The number that hexadecimal digits write. -/
def hexNumber? (digits : List Char) : Option Nat :=
  digits.foldlM (fun n c => (hexValue? c).map (16 * n + ·)) 0

/-- The codes of the characters that escapes of one letter stand for. -/
def escapes : List (Char × Nat) :=
  [('"', 0x22), ('\\', 0x5c), ('/', 0x2f), ('b', 0x08), ('f', 0x0c), ('n', 0x0a), ('r', 0x0d), ('t', 0x09)]

/-- A code in front of those that are read. -/
def addCode (code : Option Nat) (reading : Option (List Nat × List Char)) : Option (List Nat × List Char) := do
  let code ← code
  let (codes, rest) ← reading
  return (code :: codes, rest)

/-- The codes in a string up to its closing mark, and what is behind it. An escape by digits gives a unit of 16 bits. -/
def readCodes : List Char → Option (List Nat × List Char)
  | [] => none
  | '"' :: rest => some ([], rest)
  | '\\' :: 'u' :: a :: b :: c :: d :: rest => addCode (hexNumber? [a, b, c, d]) (readCodes rest)
  | '\\' :: c :: rest => addCode (escapes.lookup c) (readCodes rest)
  | c :: rest => addCode (if c.toNat < 0x20 then none else some c.toNat) (readCodes rest)

/-- The code of the character that two units stand for. -/
def pairCode (high low : Nat) : Nat := 0x10000 + 0x400 * (high - 0xd800) + (low - 0xdc00)

/-- The characters that codes stand for. A unit that is no character has to be the first half of a pair. -/
def joinCodes : List Nat → Option (List Char)
  | [] => some []
  | [code] => if code.isValidChar then some [Char.ofNat code] else none
  | code :: next :: codes =>
    if code.isValidChar then (joinCodes (next :: codes)).map (Char.ofNat code :: ·)
    else if code < 0xdc00 ∧ 0xdc00 ≤ next ∧ next < 0xe000 then
      (joinCodes codes).map (Char.ofNat (pairCode code next) :: ·)
    else none

/-- The string behind an opening mark, and what is behind it. -/
def readString (cs : List Char) : Option (String × List Char) := do
  let (codes, rest) ← readCodes cs
  return (String.ofList (← joinCodes codes), rest)

/-! ## Values -/

/-- The number at the front of some characters, and what is behind it. -/
def readNumber (cs : List Char) : Option (Nat × List Char) :=
  let digits := cs.takeWhile Char.isDigit
  let n := Nat.ofDigitChars 10 digits 0
  if (Nat.repr n).toList = digits then some (n, cs.dropWhile Char.isDigit) else none

/-- The value at the front of some characters, and what is behind it. -/
def readValue : List Char → Option (JsonValue × List Char)
  | 'n' :: 'u' :: 'l' :: 'l' :: rest => some (.null, rest)
  | 't' :: 'r' :: 'u' :: 'e' :: rest => some (.boolean true, rest)
  | 'f' :: 'a' :: 'l' :: 's' :: 'e' :: rest => some (.boolean false, rest)
  | '"' :: rest => (readString rest).map fun (s, rest) => (.string s, rest)
  | rest => (readNumber rest).map fun (n, rest) => (.number n, rest)

/-! ## Objects -/

/-- The characters between the parts of an object. -/
def isBlank (c : Char) : Bool := c == ' ' || c == '\t' || c == '\n' || c == '\r'

def skipBlanks (cs : List Char) : List Char := cs.dropWhile isBlank

/-- The colon and the value of the member with a name, and what is behind them. -/
def readMemberValue (name : String) (cs : List Char) : Option ((String × JsonValue) × List Char) :=
  match skipBlanks cs with
  | ':' :: rest => (readValue (skipBlanks rest)).map fun (value, rest) => ((name, value), skipBlanks rest)
  | _ => none

/-- The member at the front of some characters, and what is behind it. -/
def readMember (cs : List Char) : Option ((String × JsonValue) × List Char) :=
  match skipBlanks cs with
  | '"' :: rest => do
    let (name, rest) ← readString rest
    readMemberValue name rest
  | _ => none

/-- The members of an object up to its closing brace, and what is behind it. The number bounds how many there are. -/
def readMembers : Nat → List Char → Option (List (String × JsonValue) × List Char)
  | 0, _ => none
  | most + 1, cs => do
    let (entry, rest) ← readMember cs
    match rest with
    | ',' :: rest =>
      let (entries, rest) ← readMembers most rest
      return (entry :: entries, rest)
    | '\x7d' :: rest => return ([entry], rest)
    | _ => none

/-- The members of an object behind its opening brace, and what is behind it. -/
def readBody : List Char → Option (List (String × JsonValue) × List Char)
  | '\x7d' :: rest => some ([], rest)
  | cs => readMembers cs.length cs

/-- The members of the object that a text is. -/
def readObject (s : String) : Option (List (String × JsonValue)) :=
  match skipBlanks s.toList with
  | '\x7b' :: rest =>
    (readBody (skipBlanks rest)).bind fun (entries, rest) => if (skipBlanks rest).isEmpty then some entries else none
  | _ => none

end Json
end Pinboard.Text
