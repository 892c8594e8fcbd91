import Pinboard.Text.Utf8

/-!
# Stray bytes

An argument need not be UTF-8. A byte of it that is part of no character is a character of its own in the text of the
argument. It is carried along like any other, but a text that has it has no encoding. There are no code points for
such characters here, so a row of those for private use stands for them; which row is left open. Where a text is quoted
they are escaped by the code points that they have here.
-/

namespace Pinboard.Text

/-- The characters that stand for stray bytes: a row of characters for private use from a code point on. -/
structure StrayBytes where
  first : Nat
  isPrivate : 0xf0000 ≤ first

/-- The first stray bytes of a text in a row: their place, their number, and the first of them. -/
structure EncodeFault where
  position : Nat
  count : Nat
  first : UInt8
deriving DecidableEq, Repr

/-- The words for a fault. -/
def EncodeFault.message (f : EncodeFault) : String :=
  let place :=
    if f.count = 1 then "character '\\udc" ++ byteDigits f.first ++ "' in position " ++ Nat.repr f.position
    else "characters in position " ++ Nat.repr f.position ++ "-" ++ Nat.repr (f.position + f.count - 1)
  "'utf-8' codec can't encode " ++ place ++ ": surrogates not allowed"

namespace StrayBytes

/-- No character stands for a stray byte. -/
def absent : StrayBytes := ⟨0x110000, by decide⟩

/-- The byte that a character stands for. A byte below 0x80 is never astray. -/
def byte? (strays : StrayBytes) (c : Char) : Option UInt8 :=
  if strays.first ≤ c.toNat ∧ c.toNat < strays.first + 0x80 then some (UInt8.ofNat (c.toNat - strays.first + 0x80))
  else none

/-- The first stray bytes among the characters from a position on. -/
def faultFrom (strays : StrayBytes) (position : Nat) : List Char → Option EncodeFault
  | [] => none
  | c :: rest =>
    match strays.byte? c with
    | none => strays.faultFrom (position + 1) rest
    | some b => some ⟨position, 1 + (rest.takeWhile fun d => (strays.byte? d).isSome).length, b⟩

/-- Why a text has no encoding, if it has none. -/
def fault? (strays : StrayBytes) (s : String) : Option EncodeFault := strays.faultFrom 0 s.toList

end StrayBytes
end Pinboard.Text
