/-!
# Reading bytes as UTF-8

Every sequence of bytes is either text or has a first place where it is not. A fault tells where it
is and how many bytes it takes up: a byte that begins no character, a character that another byte
breaks off, or one that the end breaks off.
-/

namespace Pinboard.Text

/-- How bytes fail to be text. -/
inductive Utf8Reason
  | invalidStart
  | invalidContinuation
  | unexpectedEnd
deriving DecidableEq, Repr

/-- The first place where bytes fail to be text. -/
structure Utf8Fault where
  position : Nat
  count : Nat
  first : UInt8
  reason : Utf8Reason
deriving DecidableEq, Repr

/-- The last two hexadecimal digits of a byte. -/
def byteDigits (b : UInt8) : String :=
  String.ofList [Nat.digitChar (b.toNat / 16), Nat.digitChar (b.toNat % 16)]

/-- The words for a fault. -/
def Utf8Fault.message (f : Utf8Fault) : String :=
  let place :=
    if f.count = 1 then "byte 0x" ++ byteDigits f.first ++ " in position " ++ Nat.repr f.position
    else "bytes in position " ++ Nat.repr f.position ++ "-" ++ Nat.repr (f.position + f.count - 1)
  let reason := match f.reason with
    | .invalidStart => "invalid start byte"
    | .invalidContinuation => "invalid continuation byte"
    | .unexpectedEnd => "unexpected end of data"
  "'utf-8' codec can't decode " ++ place ++ ": " ++ reason

/-- Whether a byte goes on with a character. -/
def isContinuation (b : UInt8) : Bool := 0x80 ≤ b && b < 0xc0

/-- Whether a second byte may follow the first: it goes on, and the character needs all its bytes, is no
surrogate and lies within the code. -/
def mayFollow (first second : UInt8) : Bool :=
  isContinuation second
    && !(first == 0xe0 && second < 0xa0) && !(first == 0xed && 0xa0 ≤ second)
    && !(first == 0xf0 && second < 0x90) && !(first == 0xf4 && 0x90 ≤ second)

/-- The six bits of a byte that goes on. -/
def lowBits (b : UInt8) : Nat := b.toNat % 64

/-- The characters of the bytes from a position on. -/
def decodeFrom (position : Nat) : List UInt8 → Except Utf8Fault (List Char)
  | [] => .ok []
  | b :: rest =>
    let fault (count : Nat) (reason : Utf8Reason) : Except Utf8Fault (List Char) :=
      .error ⟨position, count, b, reason⟩
    if b < 0x80 then
      return Char.ofNat b.toNat :: (← decodeFrom (position + 1) rest)
    else if b < 0xc2 ∨ 0xf5 ≤ b then
      fault 1 .invalidStart
    else if b < 0xe0 then
      match rest with
      | [] => fault 1 .unexpectedEnd
      | b₁ :: rest =>
        if !mayFollow b b₁ then fault 1 .invalidContinuation
        else return Char.ofNat (b.toNat % 32 * 64 + lowBits b₁) :: (← decodeFrom (position + 2) rest)
    else if b < 0xf0 then
      match rest with
      | [] => fault 1 .unexpectedEnd
      | b₁ :: rest =>
        if !mayFollow b b₁ then fault 1 .invalidContinuation
        else match rest with
        | [] => fault 2 .unexpectedEnd
        | b₂ :: rest =>
          if !isContinuation b₂ then fault 2 .invalidContinuation
          else
            return Char.ofNat ((b.toNat % 16 * 64 + lowBits b₁) * 64 + lowBits b₂)
              :: (← decodeFrom (position + 3) rest)
    else
      match rest with
      | [] => fault 1 .unexpectedEnd
      | b₁ :: rest =>
        if !mayFollow b b₁ then fault 1 .invalidContinuation
        else match rest with
        | [] => fault 2 .unexpectedEnd
        | b₂ :: rest =>
          if !isContinuation b₂ then fault 2 .invalidContinuation
          else match rest with
          | [] => fault 3 .unexpectedEnd
          | b₃ :: rest =>
            if !isContinuation b₃ then fault 3 .invalidContinuation
            else
              return Char.ofNat (((b.toNat % 8 * 64 + lowBits b₁) * 64 + lowBits b₂) * 64 + lowBits b₃)
                :: (← decodeFrom (position + 4) rest)

/-- The text that bytes are. -/
def decode (bytes : List UInt8) : Except Utf8Fault String :=
  String.ofList <$> decodeFrom 0 bytes

/-- The bytes of a text. -/
def encode (s : String) : List UInt8 := s.toUTF8.toList

end Pinboard.Text
