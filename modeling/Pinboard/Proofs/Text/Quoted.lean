import Pinboard.Proofs.Text.Cuts
import Pinboard.Proofs.Text.Json
import Pinboard.Proofs.Text.Numerals
import Pinboard.Text.Quoted

/-!
# Text on one line

Readers of lines do not agree on what ends one: besides the line feed and the carriage return there are separators
that some take for line ends (`lineBreaks`). None of them is printable, and quoted text is printable whatever it
quotes (`isPrintableText_quoted`). Main statement: printable texts, each followed by a line feed, are the lines of what
they are joined to, for every reader (`allLines_join`).
-/

namespace Pinboard.Text

/-! ## Printable texts -/

/-- The characters that end a line for some readers. -/
def lineBreaks : List Char := ['\n', '\r', '\x0b', '\x0c', '\x1c', '\x1d', '\x1e', '\u0085', '\u2028', '\u2029']

/-- The lines of a text for a reader who takes every such character for the end of one. -/
def allLines (s : String) : List String := parts (cutAt lineBreaks.contains) s

/-- Whether all characters of a text are printable. -/
def isPrintableText (s : String) : Bool := s.toList.all isPrintable

/-- What is printable ends no line. -/
theorem contains_lineBreaks_of_isPrintable {c : Char} (h : isPrintable c = true) : lineBreaks.contains c = false := by
  have hhidden : (lineBreaks.all fun d => !isPrintable d) = true := by decide +kernel
  rw [← Bool.not_eq_true, List.contains_iff_mem]
  intro hmem
  have hc := List.all_eq_true.1 hhidden c hmem
  rw [h] at hc
  cases hc

theorem isPrintableText_append (s t : String) :
    isPrintableText (s ++ t) = (isPrintableText s && isPrintableText t) := by
  rw [isPrintableText, String.toList_append, List.all_append]
  rfl

theorem isPrintable_of_isPlain {c : Char} (h : Json.IsPlain c) : isPrintable c = true := by
  obtain ⟨hlow, hhigh⟩ := h
  -- plain characters are those between the first two ranges of hidden ones
  have hranges : ∃ rest, hiddenRanges = (0x00, 0x1f) :: (0x7f, 0xa0) :: rest := ⟨_, rfl⟩
  obtain ⟨rest, hrest⟩ := hranges
  have hfirst : ¬c.toNat ≤ 0x1f := by omega
  have hsecond : ¬0x7f ≤ c.toNat := by omega
  rw [isPrintable, hrest, CodeRanges.covers, CodeRanges.covers, decide_eq_false hfirst, decide_eq_false hsecond]
  simp

theorem isPrintableText_of_isPlain {s : String} (h : ∀ c ∈ s.toList, Json.IsPlain c) : isPrintableText s = true :=
  List.all_eq_true.2 fun c hc => isPrintable_of_isPlain (h c hc)

theorem isPlain_of_isDigit {c : Char} (h : c.isDigit = true) : Json.IsPlain c := by
  simp only [Char.isDigit, Bool.and_eq_true, decide_eq_true_eq] at h
  obtain ⟨hlow, hhigh⟩ := h
  constructor
  · exact Nat.le_trans (by decide) hlow
  · exact Nat.lt_of_le_of_lt hhigh (by decide)

theorem isPrintableText_repr (n : Nat) : isPrintableText (Nat.repr n) = true :=
  isPrintableText_of_isPlain fun _ hc => isPlain_of_isDigit (Json.isDigit_of_mem_repr hc)

/-- Numbers with a fixed count of decimals are printable, and so is what stands for those that are none. -/
theorem isPrintableText_fixedText (places : Nat) (x : Binary64) : isPrintableText (x.fixedText places) = true := by
  have hdecimals (n : Nat) : isPrintableText (String.ofList (lastDigits places n)) = true := by
    refine isPrintableText_of_isPlain fun c hc => ?_
    rw [String.toList_ofList] at hc
    exact isPlain_of_isDigit (isDigit_of_mem_lastDigits hc)
  have hsign : ∀ s : Bool, isPrintableText (if s then "-" else "") = true := by decide
  cases x with
  | nan => exact (by decide : isPrintableText "nan" = true)
  | infinite s =>
    have hname : ∀ s : Bool, isPrintableText (if s then "-inf" else "inf") = true := by decide
    exact hname s
  | finite s a =>
    simp only [Binary64.fixedText, isPrintableText_append, hsign, isPrintableText_repr, Bool.true_and]
    split
    · decide
    · rw [isPrintableText_append, hdecimals]
      decide

/-! ## Quoted texts -/

theorem isPrintable_codeEscape (n : Nat) : ∀ c ∈ codeEscape n, isPrintable c = true := by
  have hescape (letter : Char) (hletter : Json.IsPlain letter) (places : Nat) :
      ∀ c ∈ '\\' :: letter :: hexDigits places n, isPrintable c = true := by
    intro c hc
    refine isPrintable_of_isPlain ?_
    rcases List.mem_cons.1 hc with rfl | hc
    · decide
    rcases List.mem_cons.1 hc with rfl | hc
    · exact hletter
    · exact Json.isPlain_hexDigits places n c hc
  unfold codeEscape
  split_ifs
  · exact hescape 'x' (by decide) 2
  · exact hescape 'u' (by decide) 4
  · exact hescape 'U' (by decide) 8

/-- A character is quoted by printable ones. -/
theorem isPrintable_quotedChar {mark : Char} (hmark : isPrintable mark = true) (c : Char) :
    ∀ d ∈ quotedChar mark c, isPrintable d = true := by
  have hslash : isPrintable '\\' = true := by decide
  unfold quotedChar
  split_ifs with hown htab hfeed hreturn hshown
  · refine List.forall_mem_cons.2 ⟨hslash, List.forall_mem_singleton.2 ?_⟩
    rcases hown with rfl | rfl
    · exact hmark
    · exact hslash
  · exact List.all_eq_true.1 (by decide)
  · exact List.all_eq_true.1 (by decide)
  · exact List.all_eq_true.1 (by decide)
  · exact List.forall_mem_singleton.2 hshown
  · exact isPrintable_codeEscape c.toNat

theorem isPrintable_quotationMark (cs : List Char) : isPrintable (quotationMark cs) = true := by
  unfold quotationMark
  split <;> decide

/-- A quoted text is printable, whatever is in the text. -/
theorem isPrintableText_quoted (s : String) : isPrintableText (quoted s) = true := by
  have hmark := isPrintable_quotationMark s.toList
  refine List.all_eq_true.2 fun d hd => ?_
  rw [quoted, String.toList_ofList, List.cons_append, List.mem_cons, List.mem_append, List.mem_singleton] at hd
  rcases hd with rfl | hd | rfl
  · exact hmark
  · obtain ⟨c, -, hc⟩ := List.mem_flatMap.1 hd
    exact isPrintable_quotedChar hmark c d hc
  · exact hmark

/-! ## Lines -/

/-- Printable texts with a line feed behind each are the lines of what they make together. -/
theorem allLines_join {lines : List String} (h : ∀ line ∈ lines, isPrintableText line = true) :
    allLines (String.join (lines.map (· ++ "\n"))) = lines ++ [""] := by
  induction lines with
  | nil => rfl
  | cons line lines ih =>
    obtain ⟨hline, hlines⟩ := List.forall_mem_cons.1 h
    have hfree : ∀ c ∈ line.toList, lineBreaks.contains c = false := fun c hc =>
      contains_lineBreaks_of_isPrintable (List.all_eq_true.1 hline c hc)
    have hrest := ih hlines
    rw [allLines, parts] at hrest ⊢
    have htext : (String.join ((line :: lines).map (· ++ "\n"))).toList =
        line.toList ++ '\n' :: (String.join (lines.map (· ++ "\n"))).toList := by
      simp [String.join_cons]
    rw [htext, cutAt_append _ _ _ (by decide), cutAt_of_free hfree, List.map_append, hrest]
    simp

end Pinboard.Text
