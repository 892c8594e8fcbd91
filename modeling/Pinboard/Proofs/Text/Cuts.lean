import Pinboard.Text.Split

/-!
# Cutting text that is put together

A text that is put together from parts with a separator between them is cut into the cuts of its parts.
Main statements: the lines of two texts with a line feed between them are those of the one and then those of
the other, unless the first ends in half of a line end (`cutLines_append`); blanks at the ends of a text are
part of no word (`words_strip`); and the tokens of a line are what they are in the line that is written from
them with single spaces (`tokens_intercalate`).
-/

namespace Pinboard.Text

/-- What passes a test at the front of a text ends where a character follows that does not. -/
theorem takeWhile_dropWhile_append {test : Char → Bool} {cs ds : List Char} (hcs : ∀ c ∈ cs, test c = true)
    (hds : ∀ d ∈ ds.head?, test d = false) : (cs ++ ds).takeWhile test = cs ∧ (cs ++ ds).dropWhile test = ds := by
  rw [List.takeWhile_append_of_pos hcs, List.dropWhile_append_of_pos hcs]
  cases ds with
  | nil => simp
  | cons d ds =>
    have hd : ¬test d = true := by simp [hds d rfl]
    rw [List.takeWhile_cons_of_neg hd, List.dropWhile_cons_of_neg hd, List.append_nil]
    exact ⟨rfl, rfl⟩

theorem consFirst_append (c : Char) {parts : List (List Char)} (h : parts ≠ []) (more : List (List Char)) :
    consFirst c (parts ++ more) = consFirst c parts ++ more := by
  cases parts with
  | nil => exact absurd rfl h
  | cons part parts => rfl

/-- Parts without a separator stay so when a character is put before the first of them that is none. -/
theorem free_of_mem_consFirst {isSeparator : Char → Bool} {c : Char} {parts : List (List Char)}
    (hc : isSeparator c = false) (h : ∀ part ∈ parts, ∀ d ∈ part, isSeparator d = false) :
    ∀ part ∈ consFirst c parts, ∀ d ∈ part, isSeparator d = false := by
  cases parts with
  | nil => exact List.forall_mem_singleton.2 (List.forall_mem_singleton.2 hc)
  | cons first rest =>
    obtain ⟨hfirst, hrest⟩ := List.forall_mem_cons.1 h
    exact List.forall_mem_cons.2 ⟨List.forall_mem_cons.2 ⟨hc, hfirst⟩, hrest⟩

theorem tail_consFirst (c : Char) (parts : List (List Char)) : (consFirst c parts).tail = parts.tail := by
  cases parts <;> rfl

/-! ## Lines -/

theorem cutLines_ne_nil (cs : List Char) : cutLines cs ≠ [] := by
  fun_cases cutLines cs
  case case1 => simp
  case case2 => simp
  case case3 => simp
  case case4 => exact consFirst_ne_nil _ _

theorem getLast?_ne_of_cons {c d : Char} {cs : List Char} (h : (c :: cs).getLast? ≠ some d) : cs.getLast? ≠ some d := by
  cases cs with
  | nil => simp
  | cons e cs => simpa using h

/-- A line feed between two texts ends the last line of the first one, unless it is the second half of a
line end. -/
theorem cutLines_append (cs ds : List Char) (h : cs.getLast? ≠ some '\r') :
    cutLines (cs ++ '\n' :: ds) = cutLines cs ++ cutLines ds := by
  fun_induction cutLines cs with
  | case1 => simp [cutLines]
  | case2 cs ih =>
    have hlast := getLast?_ne_of_cons (getLast?_ne_of_cons h)
    simp [cutLines, ih hlast]
  | case3 c cs hpair hend ih =>
    have hlast := getLast?_ne_of_cons h
    rw [List.cons_append, cutLines, if_pos hend, ih hlast, List.cons_append]
    -- what follows a carriage return is in the first text still
    rintro es rfl heq
    cases cs with
    | nil => exact h rfl
    | cons d cs =>
      cases heq
      exact hpair cs rfl rfl
  | case4 c cs hpair hend ih =>
    have hlast := getLast?_ne_of_cons h
    rw [List.cons_append, cutLines, if_neg hend, ih hlast, consFirst_append _ (cutLines_ne_nil _)]
    rintro es rfl heq
    exact hend (.inl rfl)

/-! ## Words -/

/-- A separator between two texts is a cut between them. -/
theorem cutAt_append (isSeparator : Char → Bool) (cs ds : List Char) {c : Char} (hc : isSeparator c = true) :
    cutAt isSeparator (cs ++ c :: ds) = cutAt isSeparator cs ++ cutAt isSeparator ds := by
  induction cs with
  | nil => simp [cutAt, hc]
  | cons d cs ih =>
    rw [List.cons_append, cutAt, cutAt, ih]
    split
    · rfl
    · exact consFirst_append d (cutAt_ne_nil _ _) _

/-- Characters that are no separators stand at the front of the first part. -/
theorem cutAt_append_of_free {isSeparator : Char → Bool} {cs : List Char} (h : ∀ c ∈ cs, isSeparator c = false)
    {ds front : List Char} {parts : List (List Char)} (hds : cutAt isSeparator ds = front :: parts) :
    cutAt isSeparator (cs ++ ds) = (cs ++ front) :: parts := by
  induction cs with
  | nil => exact hds
  | cons c cs ih =>
    obtain ⟨hc, hcs⟩ := List.forall_mem_cons.1 h
    rw [List.cons_append, cutAt, if_neg (by simp [hc]), ih hcs]
    rfl

/-- Characters that are no separators are one part. -/
theorem cutAt_of_free {isSeparator : Char → Bool} {cs : List Char} (h : ∀ c ∈ cs, isSeparator c = false) :
    cutAt isSeparator cs = [cs] := by
  have hcut : cutAt isSeparator [] = [[]] := rfl
  simpa using cutAt_append_of_free h hcut

/-- The parts between separators have none. -/
theorem mem_cutAt {isSeparator : Char → Bool} {cs part : List Char} (h : part ∈ cutAt isSeparator cs) :
    ∀ c ∈ part, isSeparator c = false := by
  induction cs generalizing part with
  | nil =>
    rw [cutAt, List.mem_singleton] at h
    simp [h]
  | cons d cs ih =>
    rw [cutAt] at h
    split at h
    next =>
      rcases List.mem_cons.1 h with rfl | h
      · simp
      · exact ih h
    next hd => exact free_of_mem_consFirst (Bool.eq_false_iff.2 hd) (fun _ h => ih h) part h

/-- Whether a string is a word: it has characters, none of them blank. -/
def isWord (s : String) : Bool := s != "" && s.toList.all fun c => !isBlank c

theorem isWord_of_mem_words {s word : String} (h : word ∈ words s) : isWord word = true := by
  obtain ⟨hmem, hne⟩ := List.mem_filter.1 h
  obtain ⟨part, hpart, rfl⟩ := List.mem_map.1 hmem
  have hfree := mem_cutAt hpart
  rw [isWord, hne, Bool.true_and, String.toList_ofList]
  simpa using hfree

/-- The words of some characters. -/
def wordsOf (cs : List Char) : List String := ((cutAt isBlank cs).map String.ofList).filter (· != "")

theorem wordsOf_append_blank (cs ds : List Char) {c : Char} (hc : isBlank c = true) :
    wordsOf (cs ++ c :: ds) = wordsOf cs ++ wordsOf ds := by
  rw [wordsOf, cutAt_append isBlank cs ds hc, List.map_append, List.filter_append]
  rfl

theorem wordsOf_nil : wordsOf [] = [] := rfl

theorem wordsOf_dropWhile (cs : List Char) : wordsOf (cs.dropWhile isBlank) = wordsOf cs := by
  induction cs with
  | nil => rfl
  | cons c cs ih =>
    by_cases hc : isBlank c = true
    · rw [List.dropWhile_cons_of_pos hc, ih]
      exact (wordsOf_append_blank [] cs hc).symm
    · rw [List.dropWhile_cons_of_neg hc]

theorem wordsOf_reverse_dropWhile (cs : List Char) :
    wordsOf (cs.dropWhile isBlank).reverse = wordsOf cs.reverse := by
  induction cs with
  | nil => rfl
  | cons c cs ih =>
    by_cases hc : isBlank c = true
    · rw [List.dropWhile_cons_of_pos hc, ih, List.reverse_cons, wordsOf_append_blank _ [] hc, wordsOf_nil,
        List.append_nil]
    · rw [List.dropWhile_cons_of_neg hc]

/-- Blanks at the ends of a text are part of no word. -/
theorem words_strip (s : String) : words (strip s) = words s := by
  have h := wordsOf_reverse_dropWhile (s.toList.dropWhile isBlank).reverse
  rw [List.reverse_reverse, wordsOf_dropWhile] at h
  rw [words, parts, strip, String.toList_ofList]
  exact h

/-! ## Tokens -/

/-- Whether a character stands between tokens. -/
def isGap (c : Char) : Bool := c == ' ' || c == '\t'

/-- Whether there is no gap in a string. -/
def isWhole (s : String) : Bool := s.toList.all fun c => !isGap c

theorem isWhole_iff {s : String} : isWhole s = true ↔ ∀ c ∈ s.toList, isGap c = false := by
  simp [isWhole]

theorem isWhole_append {s t : String} (hs : isWhole s = true) (ht : isWhole t = true) : isWhole (s ++ t) = true := by
  rw [isWhole, String.toList_append, List.all_append]
  exact Bool.and_eq_true_iff.2 ⟨hs, ht⟩

/-- What tokens of a line are like: there is no gap in them, and only the first and the last may be empty. -/
structure AreTokens (ts : List String) : Prop where
  whole : ∀ t ∈ ts, isWhole t = true
  inner : ∀ t ∈ ts.tail.dropLast, t ≠ ""

variable {isSeparator : Char → Bool}

/-- The parts between runs of separators have none. -/
theorem mem_cutAtRunsFrom {inRun : Bool} {cs part : List Char} (h : part ∈ cutAtRunsFrom isSeparator inRun cs) :
    ∀ c ∈ part, isSeparator c = false := by
  induction cs generalizing inRun part with
  | nil =>
    rw [cutAtRunsFrom, List.mem_singleton] at h
    simp [h]
  | cons d cs ih =>
    rw [cutAtRunsFrom] at h
    split at h
    next =>
      split at h
      · exact ih h
      · rcases List.mem_cons.1 h with rfl | h
        · simp
        · exact ih h
    next hd => exact free_of_mem_consFirst (Bool.eq_false_iff.2 hd) (fun _ h => ih h) part h

/-- What no character of a text is, no character of its parts is. -/
theorem free_of_mem_cutAtRunsFrom {test : Char → Bool} {inRun : Bool} {cs part : List Char}
    (hcs : ∀ c ∈ cs, test c = false) (h : part ∈ cutAtRunsFrom isSeparator inRun cs) : ∀ c ∈ part, test c = false := by
  induction cs generalizing inRun part with
  | nil =>
    rw [cutAtRunsFrom, List.mem_singleton] at h
    simp [h]
  | cons d cs ih =>
    obtain ⟨hd, hcs⟩ := List.forall_mem_cons.1 hcs
    rw [cutAtRunsFrom] at h
    split at h
    next =>
      split at h
      · exact ih hcs h
      · rcases List.mem_cons.1 h with rfl | h
        · simp
        · exact ih hcs h
    next => exact free_of_mem_consFirst hd (fun _ h => ih hcs h) part h

/-- Between two runs of separators there is something; inside a run what comes next is no first part. -/
theorem ne_nil_of_mem_cutAtRunsFrom (cs : List Char) :
    (∀ part ∈ (cutAtRunsFrom isSeparator false cs).tail.dropLast, part ≠ []) ∧
      ∀ part ∈ (cutAtRunsFrom isSeparator true cs).dropLast, part ≠ [] := by
  induction cs with
  | nil => simp [cutAtRunsFrom]
  | cons c cs ih =>
    obtain ⟨houter, hrun⟩ := ih
    rw [cutAtRunsFrom, cutAtRunsFrom]
    by_cases hc : isSeparator c = true
    · simp only [hc, if_true]
      exact ⟨hrun, hrun⟩
    · simp only [hc]
      rw [if_neg (by simp), tail_consFirst]
      refine ⟨houter, ?_⟩
      intro part hpart
      cases hcut : cutAtRunsFrom isSeparator false cs with
      | nil => exact absurd hcut (cutAtRunsFrom_ne_nil _ _ _)
      | cons first rest =>
        rw [hcut] at hpart houter
        cases rest with
        | nil => simp [consFirst] at hpart
        | cons next rest =>
          rcases List.mem_cons.1 hpart with rfl | hpart
          · simp
          · exact houter part hpart

/-- What is cut off behind the last run of separators is empty only if the text ends with the run. -/
theorem isSeparator_of_getLast?_cutAtRunsFrom {inRun : Bool} {cs : List Char} {c : Char}
    (hlast : (cutAtRunsFrom isSeparator inRun cs).getLast? = some []) (hc : cs.getLast? = some c) :
    isSeparator c = true := by
  induction cs generalizing inRun with
  | nil => cases hc
  | cons d cs ih =>
    have hrest (inRun : Bool) (h : (cutAtRunsFrom isSeparator inRun cs).getLast? = some []) (hcs : cs ≠ []) :
        isSeparator c = true := by
      obtain ⟨d', cs, rfl⟩ := List.exists_cons_of_ne_nil hcs
      exact ih h (List.getLast?_cons_cons ▸ hc)
    rw [cutAtRunsFrom] at hlast
    by_cases hd : isSeparator d = true
    · rw [if_pos hd] at hlast
      have hrun : (cutAtRunsFrom isSeparator true cs).getLast? = some [] := by
        split at hlast
        · exact hlast
        · obtain ⟨part, parts, hparts⟩ := List.exists_cons_of_ne_nil (cutAtRunsFrom_ne_nil isSeparator true cs)
          rwa [hparts, List.getLast?_cons_cons, ← hparts] at hlast
      by_cases hcs : cs = []
      · subst hcs
        cases hc
        exact hd
      · exact hrest true hrun hcs
    · rw [if_neg hd] at hlast
      cases hcut : cutAtRunsFrom isSeparator false cs with
      | nil => exact absurd hcut (cutAtRunsFrom_ne_nil isSeparator false cs)
      | cons part parts =>
        rw [hcut] at hlast
        cases parts with
        | nil => simp [consFirst] at hlast
        | cons next parts =>
          rw [consFirst, List.getLast?_cons_cons, ← List.getLast?_cons_cons (a := part), ← hcut] at hlast
          refine hrest false hlast ?_
          rintro rfl
          cases hcut

/-- A line has tokens at all, and they are as they should be. -/
theorem areTokens_tokens (line : String) : AreTokens (tokens line) := by
  refine ⟨?_, ?_⟩
  · intro t ht
    obtain ⟨part, hpart, rfl⟩ := List.mem_map.1 ht
    rw [isWhole_iff, String.toList_ofList]
    exact mem_cutAtRunsFrom hpart
  · intro t ht
    rw [tokens, parts, ← List.map_tail, ← List.map_dropLast] at ht
    obtain ⟨part, hpart, rfl⟩ := List.mem_map.1 ht
    have hne : part ≠ [] := (ne_nil_of_mem_cutAtRunsFrom line.toList).1 part hpart
    simpa using hne

/-- Characters without a separator are one part, and what follows them is cut on its own. -/
theorem cutAtRunsFrom_of_free {cs : List Char} (h : ∀ c ∈ cs, isSeparator c = false) :
    cutAtRunsFrom isSeparator false cs = [cs] ∧
      ∀ (d : Char) (ds : List Char), isSeparator d = true →
        cutAtRunsFrom isSeparator false (cs ++ d :: ds) = cs :: cutAtRunsFrom isSeparator true ds := by
  induction cs with
  | nil =>
    refine ⟨rfl, ?_⟩
    intro d ds hd
    simp [cutAtRunsFrom, hd]
  | cons c cs ih =>
    obtain ⟨hc, hcs⟩ := List.forall_mem_cons.1 h
    obtain ⟨halone, hfollowed⟩ := ih hcs
    refine ⟨?_, ?_⟩
    · simp [cutAtRunsFrom, hc, halone, consFirst]
    · intro d ds hd
      simp [cutAtRunsFrom, hc, hfollowed d ds hd, consFirst]

/-- After a run it makes no difference that there was one. -/
theorem cutAtRunsFrom_true_eq {cs : List Char} (h : ∀ c, cs.head? = some c → isSeparator c = false) :
    cutAtRunsFrom isSeparator true cs = cutAtRunsFrom isSeparator false cs := by
  cases cs with
  | nil => rfl
  | cons c cs => simp [cutAtRunsFrom, h c rfl]

/-- Parts with a space between them are cut there and nowhere else. -/
theorem cutAtRuns_intercalate {parts : List (List Char)} (hne : parts ≠ [])
    (hfree : ∀ part ∈ parts, ∀ c ∈ part, isGap c = false) (hinner : ∀ part ∈ parts.tail.dropLast, part ≠ []) :
    cutAtRunsFrom isGap false ([' '].intercalate parts) = parts := by
  induction parts with
  | nil => exact absurd rfl hne
  | cons part parts ih =>
    obtain ⟨hpart, hrest⟩ := List.forall_mem_cons.1 hfree
    cases parts with
    | nil =>
      rw [List.intercalate_singleton]
      exact (cutAtRunsFrom_of_free hpart).1
    | cons next parts =>
      have htail : ∀ p ∈ parts.dropLast, p ≠ [] := by
        intro p hp
        refine hinner p ?_
        cases parts with
        | nil => simp at hp
        | cons q parts => exact List.mem_cons_of_mem _ hp
      have hstart : ∀ c, ([' '].intercalate (next :: parts)).head? = some c → isGap c = false := by
        intro c hc
        cases parts with
        | nil =>
          rw [List.intercalate_singleton] at hc
          exact hrest next List.mem_cons_self c (List.mem_of_mem_head? hc)
        | cons q parts =>
          -- with another part after it the next one is not empty
          have hnext := hinner next List.mem_cons_self
          obtain ⟨d, ds, rfl⟩ := List.exists_cons_of_ne_nil hnext
          rw [List.intercalate_cons_cons] at hc
          cases hc
          exact hrest _ List.mem_cons_self _ List.mem_cons_self
      have hih := ih (by simp) hrest htail
      rw [List.intercalate_cons_cons, List.append_assoc]
      show cutAtRunsFrom isGap false (part ++ ' ' :: [' '].intercalate (next :: parts)) = _
      rw [(cutAtRunsFrom_of_free hpart).2 ' ' _ rfl, cutAtRunsFrom_true_eq hstart, hih]

/-- Tokens that are written with single spaces between them are the tokens of what is written. -/
theorem tokens_intercalate {ts : List String} (hne : ts ≠ []) (h : AreTokens ts) :
    tokens (" ".intercalate ts) = ts := by
  have hcut : cutAtRunsFrom isGap false ([' '].intercalate (ts.map String.toList)) = ts.map String.toList := by
    refine cutAtRuns_intercalate (by simpa using hne) ?_ ?_
    · intro part hpart
      obtain ⟨t, ht, rfl⟩ := List.mem_map.1 hpart
      exact isWhole_iff.1 (h.whole t ht)
    · intro part hpart
      rw [← List.map_tail, ← List.map_dropLast] at hpart
      obtain ⟨t, ht, rfl⟩ := List.mem_map.1 hpart
      simpa using h.inner t ht
  rw [tokens, parts, String.toList_intercalate]
  show (cutAtRunsFrom isGap false _).map String.ofList = ts
  rw [show " ".toList = [' '] from rfl, hcut, List.map_map]
  simp

end Pinboard.Text
