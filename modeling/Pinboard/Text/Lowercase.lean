import Pinboard.Text.CaseTable

/-!
# Small letters

`lowercase` turns capital letters into small ones. Two letters need more than a table: the dotted
capital I becomes two characters, and a capital sigma becomes the final form at the end of a word,
that is after a letter with case and not before one.
-/

namespace Pinboard.Text

/-- The code point of the small letter, by the given runs. -/
def lowerCodeFrom : List LowerRun → Nat → Nat
  | [], n => n
  | run :: runs, n =>
    if n < run.first then n
    else if n ≤ run.last ∧ (n - run.first) % run.step = 0 then run.target + (n - run.first)
    else lowerCodeFrom runs n

/-- Whether the first character that is not passed over is a letter with case. -/
def startsCased (cs : List Char) : Bool :=
  match cs.dropWhile fun c => transparentRanges.covers c.toNat with
  | [] => false
  | c :: _ => casedRanges.covers c.toNat

/-- The small form of one character, with the characters before it (nearest first) and after it. -/
def lowerChar (before : List Char) (c : Char) (after : List Char) : List Char :=
  if c = 'Σ' then
    if startsCased before && !startsCased after then ['ς'] else ['σ']
  else if c = 'İ' then
    ['i', '\u0307']
  else
    [Char.ofNat (lowerCodeFrom lowerRuns c.toNat)]

/-- The small form of the characters that follow `before`. -/
def lowerFrom (before : List Char) : List Char → List Char
  | [] => []
  | c :: cs => lowerChar before c cs ++ lowerFrom (c :: before) cs

/-- A string with its capital letters turned into small ones. -/
def lowercase (s : String) : String := String.ofList (lowerFrom [] s.toList)

end Pinboard.Text
