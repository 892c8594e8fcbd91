import Mathlib.Data.List.Forall2
import Mathlib.Order.Bounds.Basic
import Pinboard.Fit.Wrapping
import Pinboard.Proofs.Fit.Packing
import Pinboard.Proofs.Numeric.Order
import Pinboard.Proofs.Text.Cuts

/-!
# The lines of a text are as few as can be

With a measurer under which a run of words is never narrower than a part of it (`Measurer.IsWidening`), the
lines that the wrapping counts are those of `pack` (`lineCount_eq`), one filling for each paragraph (`layout`).
Among all the ways of cutting the paragraphs into lines (`IsLayout`) in which no line but a single word is
wider than the limit (`IsAllowed`), none has fewer. Main statement: `lineCount_isLeast`.
-/

namespace Pinboard

/-- A measurer that gives every run of words a width in a font size, under which a run is never narrower than
a part of it. -/
structure Measurer.IsWidening (m : Measurer) (size : Binary64) : Prop where
  measures : ∀ run : List String, (∀ word ∈ run, Text.isWord word = true) → run ≠ [] →
    ∃ x, m.width (Fit.lineText run) size = .ok x
  widens : ∀ (before run after : List String) (x y : Binary64),
    (∀ word ∈ before ++ run ++ after, Text.isWord word = true) → run ≠ [] →
      m.width (Fit.lineText run) size = .ok x → m.width (Fit.lineText (before ++ run ++ after)) size = .ok y → x ≤ y

/-- The width of a text. -/
def Measurer.widthOf (m : Measurer) (size : Binary64) (text : String) : Binary64 :=
  match m.width text size with
  | .ok x => x
  | .error _ => .nan

namespace Measurer.IsWidening

variable {m : Measurer} {size : Binary64} (hm : m.IsWidening size)

include hm

theorem width_eq {run : List String} (hwords : ∀ word ∈ run, Text.isWord word = true) (hne : run ≠ []) :
    m.width (Fit.lineText run) size = .ok (m.widthOf size (Fit.lineText run)) := by
  obtain ⟨x, hx⟩ := hm.measures run hwords hne
  rw [widthOf, hx]

/-- Adding words to the ends of a run makes it no narrower. -/
theorem widthOf_le {before run after : List String}
    (hwords : ∀ word ∈ before ++ run ++ after, Text.isWord word = true) (hne : run ≠ []) :
    m.widthOf size (Fit.lineText run) ≤ m.widthOf size (Fit.lineText (before ++ run ++ after)) := by
  have hrun : ∀ word ∈ run, Text.isWord word = true := fun word h => hwords word (by simp [h])
  exact hm.widens before run after _ _ hwords hne (hm.width_eq hrun hne) (hm.width_eq hwords (by simp [hne]))

theorem widthOf_ne_nan {run : List String} (hwords : ∀ word ∈ run, Text.isWord word = true) (hne : run ≠ []) :
    m.widthOf size (Fit.lineText run) ≠ .nan := by
  have hwhole : ∀ word ∈ [] ++ run ++ [], Text.isWord word = true := by simpa using hwords
  exact (Binary64.ne_nan_of_le (hm.widthOf_le hwhole hne)).1

end Measurer.IsWidening

namespace Fit

variable {m : Measurer} {limit size : Binary64}

/-! ## Layouts -/

/-- The lines of each paragraph are made of its words. -/
def IsLayout (paragraphs : List String) (layout : List (List (List String))) : Prop :=
  List.Forall₂ (fun paragraph lines => Breaks (Text.words paragraph) lines) paragraphs layout

/-- The lines of a layout are made of words. -/
theorem isWord_of_mem_line {paragraphs : List String} {lines : List (List (List String))}
    (h : IsLayout paragraphs lines)
    {line : List String} (hline : line ∈ lines.flatten) : ∀ word ∈ line, Text.isWord word = true := by
  induction h with
  | nil => simp at hline
  | @cons paragraph part _ _ hbreaks _ ih =>
    rw [List.flatten_cons] at hline
    rcases List.mem_append.1 hline with hline | hline
    · intro word hword
      refine Text.isWord_of_mem_words (s := paragraph) ?_
      rw [← hbreaks.flatten]
      exact List.mem_flatten_of_mem hline hword
    · exact ih hline

/-- Whether some words make a line that is no wider than a limit. -/
def fits (m : Measurer) (limit size : Binary64) (line : List String) : Bool :=
  line.all Text.isWord && !decide (limit < m.widthOf size (lineText line))

/-- The lines that the paragraphs of a text are filled into. -/
def layout (m : Measurer) (limit size : Binary64) (text : String) : List (List (List String)) :=
  (Text.paragraphs text).map fun paragraph => pack (fits m limit size) [] (Text.words paragraph)

theorem isLayout_layout (m : Measurer) (limit size : Binary64) (text : String) :
    IsLayout (Text.paragraphs text) (layout m limit size text) := by
  rw [IsLayout, layout, List.forall₂_map_right_iff, List.forall₂_same]
  intro paragraph _
  exact breaks_pack _ _

theorem length_layout_pos (m : Measurer) (limit size : Binary64) (text : String) :
    0 < (layout m limit size text).flatten.length := by
  have hne : Text.paragraphs text ≠ [] := by simp [Text.paragraphs, Text.parts, Text.cutAt_ne_nil]
  obtain ⟨first, rest, hparagraphs⟩ := List.exists_cons_of_ne_nil hne
  have hpos := List.length_pos_iff.2 (pack_ne_nil (fits m limit size) [] (Text.words first))
  rw [layout, hparagraphs, List.map_cons, List.flatten_cons, List.length_append]
  omega

/-- A line of the filling may stand, unless it has no words. -/
theorem mayStand_of_mem_layout {text : String} {line : List String}
    (hline : line ∈ (layout m limit size text).flatten) (hne : line ≠ []) : MayStand (fits m limit size) line := by
  obtain ⟨lines, hlines, hmem⟩ := List.mem_flatten.1 hline
  obtain ⟨paragraph, -, rfl⟩ := List.mem_map.1 hlines
  exact mayStand_pack hmem hne

theorem fits_iff {line : List String} (hwords : ∀ word ∈ line, Text.isWord word = true) :
    fits m limit size line = true ↔ ¬limit < m.widthOf size (lineText line) := by
  have hall : line.all Text.isWord = true := List.all_eq_true.2 hwords
  simp [fits, hall]

section
variable (hm : m.IsWidening size)
include hm

/-- A limit that is no number keeps nothing off a line. -/
theorem closedUnderParts_fits : ClosedUnderParts (fits m limit size) := by
  intro before run after hne hfits
  have hwords : ∀ word ∈ before ++ run ++ after, Text.isWord word = true := by
    rw [fits, Bool.and_eq_true] at hfits
    exact List.all_eq_true.1 hfits.1
  rw [fits_iff hwords] at hfits
  have hrun : ∀ word ∈ run, Text.isWord word = true := fun word h => hwords word (by simp [h])
  rw [fits_iff hrun]
  intro hlt
  refine hfits (Binary64.lt_of_lt_of_le ?_ hlt (hm.widthOf_le hwords hne))
  rintro rfl
  exact Binary64.not_nan_lt _ hlt

theorem fillFrom_eq {line words : List String} (hwords : ∀ word ∈ line ++ words, Text.isWord word = true) :
    fillFrom m limit size line words = .ok (pack (fits m limit size) line words) := by
  induction words generalizing line with
  | nil => rfl
  | cons word words ih =>
    have hsingle : ∀ w ∈ [word] ++ words, Text.isWord w = true := fun w h => hwords w (List.mem_append_right _ h)
    have hlonger : ∀ w ∈ line ++ [word] ++ words, Text.isWord w = true := by simpa using hwords
    have hline : ∀ w ∈ line ++ [word], Text.isWord w = true := fun w h => hlonger w (List.mem_append_left _ h)
    rw [fillFrom, pack, hm.width_eq hline (by simp), ih hsingle, ih hlonger]
    by_cases hempty : line.isEmpty = true
    · rw [if_pos hempty, if_pos hempty]
    rw [if_neg hempty, if_neg hempty]
    by_cases hfits : fits m limit size (line ++ [word]) = true
    · rw [if_pos hfits]
      rw [fits_iff hline] at hfits
      show (if limit < m.widthOf size (lineText (line ++ [word])) then _ else _) = _
      rw [if_neg hfits]
    · rw [if_neg hfits]
      rw [fits_iff hline, Decidable.not_not] at hfits
      show (if limit < m.widthOf size (lineText (line ++ [word])) then _ else _) = _
      rw [if_pos hfits]
      rfl

theorem lineCount_eq (text : String) :
    lineCount m limit size text = .ok (layout m limit size text).flatten.length := by
  have hfill : (fun p => fill m limit size (Text.words p)) =
      fun p => pure (pack (fits m limit size) [] (Text.words p)) := by
    funext p
    refine fillFrom_eq hm ?_
    intro word hword
    exact Text.isWord_of_mem_words hword
  rw [lineCount, hfill, List.mapM_pure]
  rfl

/-- Filling the lines takes no more of them than any other layout. -/
theorem length_layout_le {text : String} {other : List (List (List String))}
    (hother : IsLayout (Text.paragraphs text) other)
    (hstand : ∀ line ∈ other.flatten, line ≠ [] → MayStand (fits m limit size) line) :
    (layout m limit size text).flatten.length ≤ other.flatten.length := by
  have hparts : ClosedUnderParts (fits m limit size) := closedUnderParts_fits hm
  rw [layout]
  generalize Text.paragraphs text = paragraphs at hother
  induction hother with
  | nil => simp
  | cons hbreaks _ ih =>
    rw [List.flatten_cons, List.forall_mem_append] at hstand
    have hfirst := length_pack_le hparts hbreaks hstand.1
    have hrest := ih hstand.2
    simp only [List.map_cons, List.flatten_cons, List.length_append]
    omega

end

/-! ## The fewest lines -/

/-- A line of at most one word is allowed, however wide; a longer one has to be no wider than the limit. A
limit that is no number is none. -/
def IsAllowed (m : Measurer) (limit size : Binary64) (line : List String) : Prop :=
  line.length ≤ 1 ∨ ∃ x, m.width (lineText line) size = .ok x ∧ (limit ≠ .nan → x ≤ limit)

/-- The numbers of lines that a text can be cut into so that all of them are allowed. -/
def lineCounts (m : Measurer) (limit size : Binary64) (text : String) : Set Nat :=
  {count | ∃ lines, IsLayout (Text.paragraphs text) lines ∧ (∀ line ∈ lines.flatten, IsAllowed m limit size line) ∧
    lines.flatten.length = count}

/-- A larger limit allows at least the same lines. -/
theorem IsAllowed.mono {larger : Binary64} {line : List String} (h : IsAllowed m limit size line)
    (hle : limit ≤ larger) : IsAllowed m larger size line := by
  rcases h with hshort | ⟨x, hx, hxle⟩
  · exact .inl hshort
  · exact .inr ⟨x, hx, fun _ => Binary64.le_trans (hxle (Binary64.ne_nan_of_le hle).1) hle⟩

theorem lineCounts_mono {larger : Binary64} (hle : limit ≤ larger) (text : String) :
    lineCounts m limit size text ⊆ lineCounts m larger size text := by
  rintro count ⟨lines, hlayout, hallowed, hcount⟩
  exact ⟨lines, hlayout, fun line hline => (hallowed line hline).mono hle, hcount⟩

section
variable (hm : m.IsWidening size)
include hm

/-- The lines that are allowed are those that may stand. -/
theorem isAllowed_iff {line : List String} (hwords : ∀ word ∈ line, Text.isWord word = true) (hne : line ≠ []) :
    IsAllowed m limit size line ↔ MayStand (fits m limit size) line := by
  have hsingle : line.length ≤ 1 ↔ ∃ word, line = [word] := by
    rw [← List.length_eq_one_iff]
    have hpos := List.length_pos_iff.2 hne
    omega
  have hfits : (∃ x, m.width (lineText line) size = .ok x ∧ (limit ≠ .nan → x ≤ limit)) ↔
      fits m limit size line = true := by
    rw [fits_iff hwords, hm.width_eq hwords hne]
    have hwidth := hm.widthOf_ne_nan hwords hne
    by_cases hlimit : limit = .nan
    · simp [hlimit, Binary64.not_nan_lt]
    · simp [hlimit, Binary64.not_lt_iff hlimit hwidth]
  rw [IsAllowed, MayStand, hsingle, hfits, or_comm]

/-- The wrapping takes the fewest lines that a text can be cut into with all of them allowed, and with a larger
limit it takes no more. -/
theorem lineCount_isLeast (limit : Binary64) (text : String) :
    ∃ count, lineCount m limit size text = .ok count ∧ IsLeast (lineCounts m limit size text) count ∧
      ∀ larger, limit ≤ larger → ∃ fewer, lineCount m larger size text = .ok fewer ∧ fewer ≤ count := by
  have hleast : ∀ limit, IsLeast (lineCounts m limit size text) (layout m limit size text).flatten.length := by
    intro limit
    have hlayout := isLayout_layout m limit size text
    refine ⟨⟨_, hlayout, fun line hline => ?_, rfl⟩, ?_⟩
    · by_cases hne : line = []
      · exact .inl (by simp [hne])
      · exact (isAllowed_iff hm (isWord_of_mem_line hlayout hline) hne).2 (mayStand_of_mem_layout hline hne)
    · rintro count ⟨other, hother, hallowed, rfl⟩
      refine length_layout_le hm hother fun line hline hne => ?_
      exact (isAllowed_iff hm (isWord_of_mem_line hother hline) hne).1 (hallowed line hline)
  refine ⟨_, lineCount_eq hm text, hleast limit, fun larger hle => ⟨_, lineCount_eq hm text, ?_⟩⟩
  exact (hleast larger).2 (lineCounts_mono hle text (hleast limit).1)

end

/-- A measurer for which all characters are as wide as they are high. -/
def evenMeasurer : Measurer where
  width text size := .ok (Binary64.ofInt text.length * size)

theorem length_lineText_le {before run after : List String} (hne : run ≠ []) :
    (lineText run).length ≤ (lineText (before ++ run ++ after)).length := by
  have hleft : (lineText run).length ≤ (lineText (before ++ run)).length := by
    cases before with
    | nil => exact Nat.le_refl _
    | cons word before =>
      rw [lineText, lineText, String.intercalate_append_of_ne_nil (by simp) hne, String.length_append]
      exact Nat.le_add_left _ _
  cases after with
  | nil => simpa using hleft
  | cons word after =>
    rw [lineText, lineText, String.intercalate_append_of_ne_nil (by simp [hne]) (by simp), String.append_assoc,
      String.length_append]
    exact Nat.le_add_right_of_le hleft

theorem evenMeasurer_isWidening (hfinite : size.isFinite = true) (hpos : 0 < size) :
    evenMeasurer.IsWidening size := by
  refine ⟨fun run _ _ => ⟨_, rfl⟩, ?_⟩
  intro before run after x y _ hne hx hy
  rw [← Except.ok.inj hx, ← Except.ok.inj hy]
  exact Binary64.ofInt_mul_le hfinite hpos (length_lineText_le hne)

/-- Two words that just fill a line, a word that is too wide for one, a paragraph without words and a last word. -/
def raggedText : String := "to be overwhelmed\n\nx"

theorem lineCount_isLeast_raggedText :
    lineCount evenMeasurer 60 12 raggedText = .ok 4 ∧ IsLeast (lineCounts evenMeasurer 60 12 raggedText) 4 ∧
      ∃ fewer, lineCount evenMeasurer 240 12 raggedText = .ok fewer ∧ fewer ≤ 4 := by
  have hcount : lineCount evenMeasurer 60 12 raggedText = .ok 4 := by decide +kernel
  have hlimits : (60 : Binary64) ≤ 240 := by decide +kernel
  have hm : evenMeasurer.IsWidening 12 := evenMeasurer_isWidening (by decide +kernel) (by decide +kernel)
  obtain ⟨count, h, hleast, hlarger⟩ := lineCount_isLeast hm 60 raggedText
  cases hcount.symm.trans h
  exact ⟨hcount, hleast, hlarger 240 hlimits⟩

end Fit
end Pinboard
