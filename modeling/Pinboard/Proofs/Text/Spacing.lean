import Mathlib.Data.List.TakeWhile
import Pinboard.Proofs.Text.Letters

/-!
# Spaces in a line

A line says what its tokens say, and its first token does so in capital or in small letters. `phraseOf` is
what is left of a line without the blanks around it, cut into its tokens, with the first one in small letters.
`LineEdit` lists the ways to set a line differently: spaces and tabs at its ends, the runs of them between two
tokens, and the letters of its keyword. Main statement: a line that is set differently is the same phrase
(`LineEdit.phraseOf_eq`).
-/

namespace Pinboard.Text

variable {cs ds line line' : List Char}

/-! ## Blanks at the ends -/

theorem isBlank_of_isGap {c : Char} (h : isGap c = true) : isBlank c = true := by
  rw [isGap, Bool.or_eq_true, beq_iff_eq, beq_iff_eq] at h
  rcases h with rfl | rfl <;> rfl

/-- Text without the blanks at its end. -/
def trimEnd (cs : List Char) : List Char := (cs.reverse.dropWhile isBlank).reverse

theorem stripBlanks_eq (cs : List Char) : stripBlanks cs = trimEnd (cs.dropWhile isBlank) := rfl

theorem trimEnd_eq_nil_iff : trimEnd cs = [] ↔ ∀ c ∈ cs, isBlank c = true := by
  simp [trimEnd]

theorem trimEnd_append (cs ds : List Char) :
    trimEnd (cs ++ ds) = if trimEnd ds = [] then trimEnd cs else cs ++ trimEnd ds := by
  unfold trimEnd
  rw [List.reverse_append, List.dropWhile_append]
  cases ds.reverse.dropWhile isBlank with
  | nil => simp
  | cons c blanks => simp

theorem exists_append_of_trimEnd (cs : List Char) : ∃ blanks, cs = trimEnd cs ++ blanks := by
  refine ⟨(cs.reverse.takeWhile isBlank).reverse, ?_⟩
  rw [trimEnd, ← List.reverse_append, List.takeWhile_append_dropWhile, List.reverse_reverse]

theorem mem_of_mem_stripBlanks {c : Char} (h : c ∈ stripBlanks cs) : c ∈ cs := by
  rw [stripBlanks, List.mem_reverse] at h
  exact (List.dropWhile_sublist _).subset (List.mem_reverse.1 ((List.dropWhile_sublist _).subset h))

theorem stripBlanks_blanks_append (h : ∀ c ∈ cs, isBlank c = true) : stripBlanks (cs ++ ds) = stripBlanks ds := by
  rw [stripBlanks_eq, stripBlanks_eq, List.dropWhile_append_of_pos h]

theorem stripBlanks_append_blanks (h : ∀ c ∈ ds, isBlank c = true) : stripBlanks (cs ++ ds) = stripBlanks cs := by
  have hds : trimEnd ds = [] := trimEnd_eq_nil_iff.2 h
  rw [stripBlanks_eq, stripBlanks_eq, List.dropWhile_append]
  split
  next hcs => rw [List.dropWhile_eq_nil_iff.2 h, List.isEmpty_iff.1 hcs]
  next => rw [trimEnd_append, if_pos hds]

/-- Between two texts that are not blank, all stays. -/
theorem stripBlanks_append_append (mid : List Char) (hcs : cs.dropWhile isBlank ≠ []) (hds : trimEnd ds ≠ []) :
    stripBlanks (cs ++ mid ++ ds) = cs.dropWhile isBlank ++ mid ++ trimEnd ds := by
  rw [stripBlanks_eq, List.append_assoc, List.dropWhile_append, if_neg (by simpa using hcs), ← List.append_assoc,
    trimEnd_append, if_neg hds]

theorem stripBlanks_head {c : Char} (h : (stripBlanks cs).head? = some c) : isBlank c = false := by
  obtain ⟨blanks, hsplit⟩ := exists_append_of_trimEnd (cs.dropWhile isBlank)
  rw [← stripBlanks_eq] at hsplit
  have hhead : (cs.dropWhile isBlank).head? = some c := by
    rw [hsplit, List.head?_append, h]
    rfl
  simpa [hhead] using List.head?_dropWhile_not isBlank cs

theorem stripBlanks_getLast {c : Char} (h : (stripBlanks cs).getLast? = some c) : isBlank c = false := by
  rw [stripBlanks_eq, trimEnd, List.getLast?_reverse] at h
  simpa [h] using List.head?_dropWhile_not isBlank (cs.dropWhile isBlank).reverse

/-- No word behind the first one of a line is empty, if there are no blanks around the line. -/
theorem tokens_strip_ne_empty {s token : String} (h : token ∈ (tokens (strip s)).tail) : token ≠ "" := by
  rintro rfl
  have hne : (tokens (strip s)).tail ≠ [] := List.ne_nil_of_mem h
  rw [← List.dropLast_concat_getLast hne, List.mem_append, List.mem_singleton] at h
  rcases h with h | h
  · exact (areTokens_tokens (strip s)).inner "" h rfl
  -- the last token is empty only behind a gap, and there is none at the end
  have hlast : (cutAtRunsFrom isGap false (stripBlanks s.toList)).getLast? = some [] := by
    have htokens : (tokens (strip s)).getLast? = some "" := by
      rw [h, List.getLast_tail, List.getLast?_eq_some_getLast]
    rw [tokens, parts, strip, String.toList_ofList, List.getLast?_map] at htokens
    obtain ⟨part, hpart, hempty⟩ := Option.map_eq_some_iff.1 htokens
    rw [String.ofList_eq_empty_iff] at hempty
    exact hempty ▸ hpart
  cases hstrip : (stripBlanks s.toList).getLast? with
  | none =>
    rw [tokens, strip, parts, String.toList_ofList, List.getLast?_eq_none_iff.1 hstrip] at hne
    exact hne rfl
  | some c =>
    have hblank := isBlank_of_isGap (isSeparator_of_getLast?_cutAtRunsFrom hlast hstrip)
    rw [stripBlanks_getLast hstrip] at hblank
    cases hblank

/-! ## Runs of separators -/

section
variable {isSeparator : Char → Bool} {gap : List Char}

theorem cutAtRunsFrom_gap_append (hne : gap ≠ []) (hgap : ∀ c ∈ gap, isSeparator c = true) (inRun : Bool)
    (cs : List Char) :
    cutAtRunsFrom isSeparator inRun (gap ++ cs) =
      if inRun then cutAtRunsFrom isSeparator true cs else [] :: cutAtRunsFrom isSeparator true cs := by
  have hrest : ∀ gap : List Char, (∀ c ∈ gap, isSeparator c = true) →
      cutAtRunsFrom isSeparator true (gap ++ cs) = cutAtRunsFrom isSeparator true cs := by
    intro gap hgap
    induction gap with
    | nil => rfl
    | cons c gap ih =>
      obtain ⟨hc, hgap⟩ := List.forall_mem_cons.1 hgap
      rw [List.cons_append, cutAtRunsFrom, if_pos hc, if_pos rfl, ih hgap]
  cases gap with
  | nil => exact absurd rfl hne
  | cons c gap =>
    obtain ⟨hc, hgap⟩ := List.forall_mem_cons.1 hgap
    rw [List.cons_append, cutAtRunsFrom, if_pos hc, hrest gap hgap]

/-- Text in front keeps that two texts are cut alike. -/
theorem cutAtRunsFrom_append_congr
    (h : ∀ inRun, cutAtRunsFrom isSeparator inRun cs = cutAtRunsFrom isSeparator inRun ds) (front : List Char)
    (inRun : Bool) :
    cutAtRunsFrom isSeparator inRun (front ++ cs) = cutAtRunsFrom isSeparator inRun (front ++ ds) := by
  induction front generalizing inRun with
  | nil => exact h inRun
  | cons c front ih => rw [List.cons_append, List.cons_append, cutAtRunsFrom, cutAtRunsFrom, ih true, ih false]

end

/-! ## Phrases -/

/-- Tokens with the first of them in small letters of the alphabet. -/
def smallFirst : List (List Char) → List (List Char)
  | [] => []
  | token :: tokens => token.map Char.toLower :: tokens

/-- What a line says. -/
def phraseOf (line : List Char) : List (List Char) := smallFirst (cutAtRuns isGap (stripBlanks line))

/-- A phrase begins as the line does. -/
theorem phraseOf_head (line : List Char) :
    (phraseOf line).head?.bind List.head? = (stripBlanks line).head?.map Char.toLower := by
  rw [phraseOf, cutAtRuns]
  cases hline : stripBlanks line with
  | nil => rfl
  | cons c cs =>
    have hstart : (stripBlanks line).head? = some c := by rw [hline]; rfl
    have hink : isBlank c = false := stripBlanks_head hstart
    have hc : ¬isGap c = true := fun hgap => by simp [isBlank_of_isGap hgap] at hink
    obtain ⟨token, tokens, htokens⟩ := List.exists_cons_of_ne_nil (cutAtRunsFrom_ne_nil isGap false cs)
    rw [cutAtRunsFrom, if_neg hc, htokens]
    rfl

/-- What a keyword is like: it begins with ink and there is no gap in it. -/
structure IsKeyword (word : List Char) : Prop where
  inked : ∃ c, word.head? = some c ∧ isBlank c = false
  whole : ∀ c ∈ word, isGap c = false

/-- A way to set a line differently. -/
inductive LineEdit : List Char → List Char → Prop
  | front (gap line : List Char) (hgap : ∀ c ∈ gap, isGap c = true) : LineEdit line (gap ++ line)
  | back (line gap : List Char) (hgap : ∀ c ∈ gap, isGap c = true) : LineEdit line (line ++ gap)
  | between (before gap gap' after : List Char) (hne : gap ≠ []) (hgap : ∀ c ∈ gap, isGap c = true)
      (hne' : gap' ≠ []) (hgap' : ∀ c ∈ gap', isGap c = true) :
      LineEdit (before ++ gap ++ after) (before ++ gap' ++ after)
  | keyword (blanks word word' rest : List Char) (hblanks : ∀ c ∈ blanks, isBlank c = true) (hword : IsKeyword word)
      (hsame : word'.map Char.toLower = word.map Char.toLower) (hrest : ∀ c, rest.head? = some c → isGap c = true) :
      LineEdit (blanks ++ word ++ rest) (blanks ++ word' ++ rest)

/-- A property of characters that is the same for capital and small letters. -/
theorem all_of_map_toLower {p : Char → Bool} (hp : ∀ c : Char, p c.toLower = p c) {b : Bool}
    (hsame : ds.map Char.toLower = cs.map Char.toLower) (h : ∀ c ∈ cs, p c = b) : ∀ d ∈ ds, p d = b := by
  intro d hd
  have hmem : d.toLower ∈ cs.map Char.toLower := hsame ▸ List.mem_map_of_mem hd
  obtain ⟨c, hc, heq⟩ := List.mem_map.1 hmem
  rw [← hp d, ← heq, hp c]
  exact h c hc

theorem IsKeyword.of_map_toLower {word word' : List Char} (h : IsKeyword word)
    (hsame : word'.map Char.toLower = word.map Char.toLower) : IsKeyword word' := by
  refine ⟨?_, all_of_map_toLower isGap_toLower hsame h.whole⟩
  obtain ⟨c, hc, hink⟩ := h.inked
  have hhead := congrArg List.head? hsame
  rw [List.head?_map, List.head?_map, hc] at hhead
  obtain ⟨d, hd, heq⟩ := Option.map_eq_some_iff.1 hhead
  exact ⟨d, hd, by rw [← isBlank_toLower, heq, isBlank_toLower, hink]⟩

theorem trimEnd_map_toLower (cs : List Char) : trimEnd (cs.map Char.toLower) = (trimEnd cs).map Char.toLower := by
  have hblank : isBlank ∘ Char.toLower = isBlank := funext isBlank_toLower
  rw [trimEnd, trimEnd, ← List.map_reverse, List.dropWhile_map, hblank, List.map_reverse]

/-- The phrase of a line with a keyword depends on the small form of the keyword alone. -/
theorem phraseOf_keyword {blanks word rest : List Char} (hblanks : ∀ c ∈ blanks, isBlank c = true)
    (hword : IsKeyword word) (hrest : ∀ c, rest.head? = some c → isGap c = true) :
    phraseOf (blanks ++ word ++ rest) =
      match trimEnd rest with
      | [] => [trimEnd (word.map Char.toLower)]
      | _ :: rest => word.map Char.toLower :: cutAtRunsFrom isGap true rest := by
  obtain ⟨c, hc, hink⟩ := hword.inked
  have hstart : (word ++ rest).dropWhile isBlank = word ++ rest := by
    obtain ⟨ds, rfl⟩ := List.head?_eq_some_iff.1 hc
    rw [List.cons_append, List.dropWhile_cons_of_neg (by simp [hink])]
  rw [phraseOf, List.append_assoc, stripBlanks_blanks_append hblanks, stripBlanks_eq, hstart, trimEnd_append]
  obtain ⟨blanks', hsplit⟩ := exists_append_of_trimEnd rest
  cases htrim : trimEnd rest with
  | nil =>
    obtain ⟨ends, hends⟩ := exists_append_of_trimEnd word
    have hfree : ∀ c ∈ trimEnd word, isGap c = false := fun c hc => hword.whole c (by rw [hends]; simp [hc])
    rw [if_pos rfl, cutAtRuns, (cutAtRunsFrom_of_free hfree).1, smallFirst, trimEnd_map_toLower]
  | cons d rest' =>
    have hd : isGap d = true := hrest d (by rw [hsplit, htrim]; rfl)
    rw [if_neg (by simp), cutAtRuns, (cutAtRunsFrom_of_free hword.whole).2 d rest' hd, smallFirst]

/-- A line that is set differently is the same phrase. -/
theorem LineEdit.phraseOf_eq (h : LineEdit line line') : phraseOf line' = phraseOf line := by
  cases h with
  | front gap line hgap =>
    rw [phraseOf, stripBlanks_blanks_append fun c hc => isBlank_of_isGap (hgap c hc), phraseOf]
  | back line gap hgap =>
    rw [phraseOf, stripBlanks_append_blanks fun c hc => isBlank_of_isGap (hgap c hc), phraseOf]
  | between before gap gap' after hne hgap hne' hgap' =>
    have hblank : ∀ c ∈ gap, isBlank c = true := fun c hc => isBlank_of_isGap (hgap c hc)
    have hblank' : ∀ c ∈ gap', isBlank c = true := fun c hc => isBlank_of_isGap (hgap' c hc)
    -- with nothing but blanks on one side the run is at an end of the line
    by_cases hbefore : before.dropWhile isBlank = []
    · have hall := List.dropWhile_eq_nil_iff.1 hbefore
      rw [phraseOf, phraseOf, List.append_assoc, List.append_assoc, stripBlanks_blanks_append hall,
        stripBlanks_blanks_append hall, stripBlanks_blanks_append hblank, stripBlanks_blanks_append hblank']
    by_cases hafter : trimEnd after = []
    · have hall := trimEnd_eq_nil_iff.1 hafter
      rw [phraseOf, phraseOf, stripBlanks_append_blanks hall, stripBlanks_append_blanks hall,
        stripBlanks_append_blanks hblank, stripBlanks_append_blanks hblank']
    have hcut : ∀ inRun, cutAtRunsFrom isGap inRun (gap' ++ trimEnd after) =
        cutAtRunsFrom isGap inRun (gap ++ trimEnd after) := by
      intro inRun
      rw [cutAtRunsFrom_gap_append hne' hgap', cutAtRunsFrom_gap_append hne hgap]
    rw [phraseOf, phraseOf, stripBlanks_append_append _ hbefore hafter, stripBlanks_append_append _ hbefore hafter,
      List.append_assoc, List.append_assoc, cutAtRuns, cutAtRunsFrom_append_congr hcut, cutAtRuns]
  | keyword blanks word word' rest hblanks hword hsame hrest =>
    rw [phraseOf_keyword hblanks hword hrest, phraseOf_keyword hblanks (hword.of_map_toLower hsame) hrest, hsame]

/-- Setting a line differently puts no line end into it. -/
theorem LineEdit.free (h : LineEdit line line') (hfree : ∀ c ∈ line, isLineEnd c = false) :
    ∀ c ∈ line', isLineEnd c = false := by
  have hgaps {gap : List Char} (hgap : ∀ c ∈ gap, isGap c = true) : ∀ c ∈ gap, isLineEnd c = false := by
    intro c hc
    have hc := hgap c hc
    rw [isGap, Bool.or_eq_true, beq_iff_eq, beq_iff_eq] at hc
    rcases hc with rfl | rfl <;> rfl
  cases h with
  | front gap line hgap => exact List.forall_mem_append.2 ⟨hgaps hgap, hfree⟩
  | back line gap hgap => exact List.forall_mem_append.2 ⟨hfree, hgaps hgap⟩
  | between before gap gap' after hne hgap hne' hgap' =>
    obtain ⟨hfront, hafter⟩ := List.forall_mem_append.1 hfree
    obtain ⟨hbefore, -⟩ := List.forall_mem_append.1 hfront
    exact List.forall_mem_append.2 ⟨List.forall_mem_append.2 ⟨hbefore, hgaps hgap'⟩, hafter⟩
  | keyword blanks word word' rest hblanks hword hsame hrest =>
    obtain ⟨hfront, hrest⟩ := List.forall_mem_append.1 hfree
    obtain ⟨hblanks, hword⟩ := List.forall_mem_append.1 hfront
    have hword' := all_of_map_toLower isLineEnd_toLower hsame hword
    exact List.forall_mem_append.2 ⟨List.forall_mem_append.2 ⟨hblanks, hword'⟩, hrest⟩

end Pinboard.Text
