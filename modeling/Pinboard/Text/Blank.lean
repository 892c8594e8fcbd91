import Pinboard.Text.CodeRanges

/-!
# Blank characters

The white space of text: the space characters of all scripts together with the control characters
that separate lines, files, groups, records and units. `strip` and `words` are what blanks are for.
-/

namespace Pinboard.Text

/-- The code points of the blank characters. -/
def blankRanges : CodeRanges :=
  [(0x09, 0x0d), (0x1c, 0x20), (0x85, 0x85), (0xa0, 0xa0), (0x1680, 0x1680), (0x2000, 0x200a),
   (0x2028, 0x2029), (0x202f, 0x202f), (0x205f, 0x205f), (0x3000, 0x3000)]

def isBlank (c : Char) : Bool := blankRanges.covers c.toNat

/-- Text without the blanks at its two ends. -/
def stripBlanks (cs : List Char) : List Char :=
  ((cs.dropWhile isBlank).reverse.dropWhile isBlank).reverse

/-- A string without the blanks at its two ends. -/
def strip (s : String) : String := String.ofList (stripBlanks s.toList)

/-- Whether a string has a character that is not blank. -/
def hasInk (s : String) : Bool := s.toList.any fun c => !isBlank c

end Pinboard.Text
