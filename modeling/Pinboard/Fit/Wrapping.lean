import Pinboard.Numeric.Conversion
import Pinboard.Text.Split

/-!
# Filling lines with words

A measurer tells how wide a text is in a font size, and how high a line. The words of a paragraph are filled
into lines one by one: a word goes onto the line if the line with it is no wider than the limit, and otherwise
begins the next line. A word alone on a line may be wider than the limit. A paragraph without words takes one
empty line.
-/

namespace Pinboard

/-- The usual distance between two lines of text in a font size. -/
def lineHeight (size : Binary64) : Binary64 := size * 1.2

/-- How wide a text is in a font size, and how high its lines are. -/
structure Measurer where
  width : String → Binary64 → Computed Binary64
  lineHeight : Binary64 → Binary64 := Pinboard.lineHeight

namespace Fit

/-- A line as text. -/
def lineText (words : List String) : String := " ".intercalate words

/-- The lines for the words to come, the first of them begun with the given words. -/
def fillFrom (m : Measurer) (limit size : Binary64) (line : List String) :
    List String → Computed (List (List String))
  | [] => return [line]
  | word :: words => do
    if line.isEmpty then
      fillFrom m limit size [word] words
    else if limit < (← m.width (lineText (line ++ [word])) size) then
      return line :: (← fillFrom m limit size [word] words)
    else
      fillFrom m limit size (line ++ [word]) words

/-- The lines of a paragraph with the given words. -/
def fill (m : Measurer) (limit size : Binary64) (words : List String) : Computed (List (List String)) :=
  fillFrom m limit size [] words

/-- How many lines the paragraphs of a text take in all. -/
def lineCount (m : Measurer) (limit size : Binary64) (text : String) : Computed Nat := do
  let filled ← (Text.paragraphs text).mapM fun p => fill m limit size (Text.words p)
  return filled.flatten.length

end Fit

/-- A measurer that adds up the widths of the characters, a width for size 20 each. -/
def Measurer.byCharacter (widths : List (Char × Int)) (default : Int) : Measurer where
  width text size := do
    let total := text.toList.foldl (fun sum c => sum + (widths.lookup c).getD default) 0
    return (← Binary64.ofInt? total) * size / 20

end Pinboard
