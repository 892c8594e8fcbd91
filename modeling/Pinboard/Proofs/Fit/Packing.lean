import Pinboard.Fit.Wrapping

/-!
# Filling lines one by one is best

`pack` is the filling of lines with a test for the lines that fit in place of a measurer. It cuts the words
into lines that may stand (`breaks_pack`, `mayStand_pack`), and no other way to do so takes fewer lines
(`length_pack_le`), provided that what is left of a line that fits, when words are taken away at its ends,
fits as well. The reason is that the last line of the filling never begins before the last line of any other
way that is as far: beginning a line later can only help (`length_pack_suffix`).
-/

namespace Pinboard.Fit

variable {fits : List String → Bool} {line words : List String}

/-- The lines for the words to come, the first of them begun with the given words. -/
def pack (fits : List String → Bool) (line : List String) : List String → List (List String)
  | [] => [line]
  | word :: words =>
    if line.isEmpty then pack fits [word] words
    else if fits (line ++ [word]) then pack fits (line ++ [word]) words
    else line :: pack fits [word] words

/-- The words of a paragraph are cut into lines; a paragraph without words takes one line. -/
structure Breaks (words : List String) (lines : List (List String)) : Prop where
  flatten : lines.flatten = words
  filled : words ≠ [] → [] ∉ lines
  single : words = [] → lines = [[]]

/-- A line may stand if it fits; a single word may in any case. -/
def MayStand (fits : List String → Bool) (line : List String) : Prop := fits line = true ∨ ∃ word, line = [word]

/-- Parts of lines that fit do so as well. -/
def ClosedUnderParts (fits : List String → Bool) : Prop :=
  ∀ before run after, run ≠ [] → fits (before ++ run ++ after) = true → fits run = true

/-! ## The lines of the filling -/

theorem pack_nil_cons (fits : List String → Bool) (word : String) (words : List String) :
    pack fits [] (word :: words) = pack fits [word] words := by
  simp [pack]

theorem pack_of_fits {word : String} (hline : line ≠ []) (h : fits (line ++ [word]) = true) (words : List String) :
    pack fits line (word :: words) = pack fits (line ++ [word]) words := by
  simp [pack, hline, h]

theorem pack_of_not_fits {word : String} (hline : line ≠ []) (h : ¬fits (line ++ [word]) = true)
    (words : List String) : pack fits line (word :: words) = line :: pack fits [word] words := by
  simp [pack, hline, h]

theorem flatten_pack (fits : List String → Bool) (line words : List String) :
    (pack fits line words).flatten = line ++ words := by
  fun_induction pack fits line words with
  | case1 line => simp
  | case2 line word words hline ih =>
    rw [ih, List.isEmpty_iff.1 hline]
    rfl
  | case3 line word words hline hfits ih => rw [ih, List.append_assoc, List.singleton_append]
  | case4 line word words hline hfits ih => rw [List.flatten_cons, ih, List.singleton_append]

theorem pack_ne_nil (fits : List String → Bool) (line words : List String) : pack fits line words ≠ [] := by
  fun_induction pack fits line words with
  | case1 line => simp
  | case2 line word words hline ih => exact ih
  | case3 line word words hline hfits ih => exact ih
  | case4 line word words hline hfits ih => simp

/-- Every line has a word and may stand, once there is a word to begin with. -/
theorem mem_pack (hline : line ≠ []) (hstand : MayStand fits line) {l : List String}
    (hl : l ∈ pack fits line words) : l ≠ [] ∧ MayStand fits l := by
  fun_induction pack fits line words with
  | case1 line =>
    rw [List.mem_singleton.1 hl]
    exact ⟨hline, hstand⟩
  | case2 line word words hempty ih => exact absurd (List.isEmpty_iff.1 hempty) hline
  | case3 line word words hempty hfits ih => exact ih (by simp) (.inl hfits) hl
  | case4 line word words hempty hfits ih =>
    rcases List.mem_cons.1 hl with rfl | hl
    · exact ⟨hline, hstand⟩
    · exact ih (by simp) (.inr ⟨word, rfl⟩) hl

theorem breaks_pack (fits : List String → Bool) (words : List String) : Breaks words (pack fits [] words) := by
  cases words with
  | nil => exact ⟨rfl, fun h => absurd rfl h, fun _ => rfl⟩
  | cons word words =>
    refine ⟨flatten_pack _ _ _, ?_, fun h => by cases h⟩
    intro _ hmem
    rw [pack_nil_cons] at hmem
    exact (mem_pack (by simp) (.inr ⟨word, rfl⟩) hmem).1 rfl

theorem mayStand_pack {l : List String} (hl : l ∈ pack fits [] words) (hne : l ≠ []) : MayStand fits l := by
  cases words with
  | nil => exact absurd (List.mem_singleton.1 hl) hne
  | cons word words =>
    rw [pack_nil_cons] at hl
    exact (mem_pack (by simp) (.inr ⟨word, rfl⟩) hl).2

/-! ## No other way takes fewer lines -/

variable (hparts : ClosedUnderParts fits)

include hparts

/-- A line that begins later needs no more lines after it, and at most one less. -/
theorem length_pack_suffix (words : List String) (before : List String) (hline : line ≠ []) :
    (pack fits line words).length ≤ (pack fits (before ++ line) words).length ∧
      (pack fits (before ++ line) words).length ≤ (pack fits line words).length + 1 := by
  induction words generalizing line before with
  | nil => simp [pack]
  | cons word words ih =>
    have hlong : before ++ line ≠ [] := by simp [hline]
    by_cases hfits : fits (before ++ line ++ [word]) = true
    · have hshort : fits (line ++ [word]) = true := by
        refine hparts before (line ++ [word]) [] (by simp) ?_
        simpa using hfits
      rw [pack_of_fits hline hshort, pack_of_fits hlong hfits, List.append_assoc]
      exact ih before (by simp)
    · rw [pack_of_not_fits hlong hfits, List.length_cons]
      by_cases hshort : fits (line ++ [word]) = true
      · rw [pack_of_fits hline hshort]
        -- only the longer line is full: the next one begins with the word, and the shorter one goes on
        obtain ⟨hle, hge⟩ := @ih [word] line (by simp)
        exact ⟨hge, Nat.succ_le_succ hle⟩
      · rw [pack_of_not_fits hline hshort, List.length_cons]
        exact ⟨Nat.le_refl _, Nat.le_succ _⟩

/-- Words that may stand on one line are filled into one. -/
theorem pack_append {more : List String} (hline : line ≠ []) (hstand : MayStand fits (line ++ words)) :
    pack fits line (words ++ more) = pack fits (line ++ words) more := by
  induction words generalizing line with
  | nil => simp
  | cons word words ih =>
    have hfits : fits (line ++ [word]) = true := by
      rcases hstand with h | ⟨w, h⟩
      · refine hparts [] (line ++ [word]) words (by simp) ?_
        simpa using h
      · -- two words at least are no single word
        have hlength := congrArg List.length h
        have hpos := List.length_pos_iff.2 hline
        simp only [List.length_append, List.length_cons, List.length_nil] at hlength
        omega
    have hsplit : line ++ word :: words = line ++ [word] ++ words := by simp
    rw [List.cons_append, pack_of_fits hline hfits, hsplit]
    exact ih (by simp) (hsplit ▸ hstand)

/-- After any line the rest of the words is filled into no more lines than it is cut into. -/
theorem length_pack_flatten_le {lines : List (List String)} (hfilled : [] ∉ lines)
    (hstand : ∀ l ∈ lines, MayStand fits l) (hline : line ≠ []) :
    (pack fits line lines.flatten).length ≤ lines.length + 1 := by
  induction lines generalizing line with
  | nil => simp [pack]
  | cons next lines ih =>
    obtain ⟨hnext, hrest⟩ := List.forall_mem_cons.1 hstand
    rw [List.mem_cons, not_or] at hfilled
    cases next with
    | nil => exact absurd rfl hfilled.1
    | cons word words =>
      have hone : (pack fits line (word :: (words ++ lines.flatten))).length ≤
          (pack fits [word] (words ++ lines.flatten)).length + 1 := by
        by_cases hfits : fits (line ++ [word]) = true
        · rw [pack_of_fits hline hfits]
          exact (length_pack_suffix hparts _ line (by simp)).2
        · rw [pack_of_not_fits hline hfits]
          exact Nat.le_refl _
      rw [pack_append hparts (by simp) hnext] at hone
      refine Nat.le_trans hone ?_
      rw [List.length_cons]
      exact Nat.succ_le_succ (ih hfilled.2 hrest (by simp))

/-- The filling takes the fewest lines. -/
theorem length_pack_le {lines : List (List String)} (h : Breaks words lines)
    (hstand : ∀ l ∈ lines, l ≠ [] → MayStand fits l) : (pack fits [] words).length ≤ lines.length := by
  by_cases hwords : words = []
  · rw [hwords, h.single hwords]
    exact Nat.le_refl _
  have hfilled := h.filled hwords
  cases lines with
  | nil => exact absurd h.flatten.symm hwords
  | cons first lines =>
    rw [List.mem_cons, not_or] at hfilled
    have hmem : ∀ l ∈ lines, MayStand fits l := by
      intro l hl
      refine hstand l (List.mem_cons_of_mem _ hl) ?_
      rintro rfl
      exact hfilled.2 hl
    cases first with
    | nil => exact absurd rfl hfilled.1
    | cons word rest =>
      have hfirst := hstand _ List.mem_cons_self (List.cons_ne_nil word rest)
      have hflatten : words = word :: (rest ++ lines.flatten) := h.flatten.symm
      rw [hflatten, pack_nil_cons, pack_append hparts (by simp) hfirst]
      exact length_pack_flatten_le hparts hfilled.2 hmem (by simp)

end Pinboard.Fit
