import Pinboard.Text.Blank

/-!
# Cutting text into parts

Every cut keeps all characters but the separators. `cutAt` cuts at each separator, `cutAtRuns` at each
run of separators, `cutLines` at the ends of lines (line feed, carriage return, or the two together) and
`cutBreaks` at the breaks inside a label (a line feed, or a backslash followed by `n`). There is always one
part more than there are cuts, so the parts at the ends may be empty.
-/

namespace Pinboard.Text

/-- One character more at the front of the first part. -/
def consFirst (c : Char) : List (List Char) → List (List Char)
  | [] => [[c]]
  | part :: parts => (c :: part) :: parts

/-- The parts between the characters that pass a test. -/
def cutAt (isSeparator : Char → Bool) : List Char → List (List Char)
  | [] => [[]]
  | c :: cs =>
    if isSeparator c then [] :: cutAt isSeparator cs else consFirst c (cutAt isSeparator cs)

/-- The parts between the runs of characters that pass a test; `inRun` says that the run at the front
has been counted already. -/
def cutAtRunsFrom (isSeparator : Char → Bool) (inRun : Bool) : List Char → List (List Char)
  | [] => [[]]
  | c :: cs =>
    if isSeparator c then
      if inRun then cutAtRunsFrom isSeparator true cs
      else [] :: cutAtRunsFrom isSeparator true cs
    else consFirst c (cutAtRunsFrom isSeparator false cs)

/-- The parts between the runs of characters that pass a test. -/
def cutAtRuns (isSeparator : Char → Bool) (cs : List Char) : List (List Char) :=
  cutAtRunsFrom isSeparator false cs

/-- The lines of a text, without their ends. -/
def cutLines : List Char → List (List Char)
  | [] => [[]]
  | '\r' :: '\n' :: cs => [] :: cutLines cs
  | c :: cs => if c = '\r' ∨ c = '\n' then [] :: cutLines cs else consFirst c (cutLines cs)

/-- The parts of a label between its breaks. -/
def cutBreaks : List Char → List (List Char)
  | [] => [[]]
  | '\\' :: 'n' :: cs => [] :: cutBreaks cs
  | c :: cs => if c = '\n' then [] :: cutBreaks cs else consFirst c (cutBreaks cs)

/-- Text with each backslash followed by `n` turned into a line feed. -/
def expandBreaks : List Char → List Char
  | [] => []
  | '\\' :: 'n' :: cs => '\n' :: expandBreaks cs
  | c :: cs => c :: expandBreaks cs

/-- Text with each end of a line turned into a line feed. -/
def joinLineEnds : List Char → List Char
  | [] => []
  | '\r' :: '\n' :: cs => '\n' :: joinLineEnds cs
  | c :: cs => (if c = '\r' then '\n' else c) :: joinLineEnds cs

/-- The parts of a string under a cut of its characters. -/
def parts (cut : List Char → List (List Char)) (s : String) : List String :=
  (cut s.toList).map String.ofList

/-- The lines of a string. -/
def lines (s : String) : List String := parts cutLines s

/-- The paragraphs of a label text: what lies between line feeds. -/
def paragraphs (s : String) : List String := parts (cutAt (· == '\n')) s

/-- The cells of a table text: what lies between bars. -/
def cells (s : String) : List String := parts (cutAt (· == '|')) s

/-- The words of a string: the runs of characters that are not blank. -/
def words (s : String) : List String := (parts (cutAt isBlank) s).filter (· != "")

/-- The tokens of a line: what lies between runs of spaces and tabs. -/
def tokens (s : String) : List String := parts (cutAtRuns fun c => c == ' ' || c == '\t') s

theorem consFirst_ne_nil (c : Char) (parts : List (List Char)) : consFirst c parts ≠ [] := by
  cases parts <;> simp [consFirst]

theorem cutAt_ne_nil (isSeparator : Char → Bool) (cs : List Char) : cutAt isSeparator cs ≠ [] := by
  cases cs with
  | nil => simp [cutAt]
  | cons c cs =>
    simp only [cutAt]
    split
    · simp
    · exact consFirst_ne_nil _ _

theorem cutAtRunsFrom_ne_nil (isSeparator : Char → Bool) (inRun : Bool) (cs : List Char) :
    cutAtRunsFrom isSeparator inRun cs ≠ [] := by
  induction cs generalizing inRun with
  | nil => simp [cutAtRunsFrom]
  | cons c cs ih =>
    simp only [cutAtRunsFrom]
    split
    · split
      · exact ih true
      · simp
    · exact consFirst_ne_nil _ _

end Pinboard.Text
