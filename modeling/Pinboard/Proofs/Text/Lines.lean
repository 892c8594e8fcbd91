import Pinboard.Proofs.Text.Cuts

/-!
# The lines of a text

A line ends with a line feed, a carriage return, or the two together. Main statements: a line of a text stands after
as many line ends as there are lines before it (`exists_of_getElem?_cutLines`); line ends of any kind cut alike
(`lines_joinLineEnds`); and what is read off the lines one by one is put together from what is read off the parts
of the text, if they are cut at a line end and nothing is read off an empty line (`filterMap_cutAt_append`).
-/

namespace Pinboard.Text

/-- Whether a character is an end of a line, or half of one. -/
def isLineEnd (c : Char) : Bool := c == '\n' || c == '\r'

theorem isLineEnd_eq_false {c : Char} : isLineEnd c = false ↔ ¬(c = '\r' ∨ c = '\n') := by
  simp [isLineEnd, and_comm]

/-- Lines have no line ends in them. -/
theorem mem_cutLines {cs line : List Char} (h : line ∈ cutLines cs) : ∀ c ∈ line, isLineEnd c = false := by
  fun_induction cutLines cs generalizing line with
  | case1 =>
    rw [List.mem_singleton] at h
    simp [h]
  | case2 cs ih | case3 c cs hpair hend ih =>
    rcases List.mem_cons.1 h with rfl | h
    · simp
    · exact ih h
  | case4 c cs hpair hend ih => exact free_of_mem_consFirst (isLineEnd_eq_false.2 hend) (fun _ h => ih h) line h

/-- Text without line ends is one line. -/
theorem cutLines_of_free {cs : List Char} (h : ∀ c ∈ cs, isLineEnd c = false) : cutLines cs = [cs] := by
  fun_induction cutLines cs with
  | case1 => rfl
  | case2 cs ih => exact absurd (h '\r' List.mem_cons_self) (by decide)
  | case3 c cs hpair hend ih => exact absurd hend (isLineEnd_eq_false.1 (h c List.mem_cons_self))
  | case4 c cs hpair hend ih =>
    rw [ih fun d hd => h d (List.mem_cons_of_mem _ hd)]
    rfl

/-- Line ends may be turned into line feeds without a difference to the lines. -/
theorem cutLines_joinLineEnds (cs : List Char) : cutLines (joinLineEnds cs) = cutLines cs := by
  have hfeed (rest : List Char) : cutLines ('\n' :: rest) = [] :: cutLines rest := by simp [cutLines]
  fun_induction cutLines cs with
  | case1 => simp [joinLineEnds, cutLines]
  | case2 cs ih => rw [joinLineEnds, hfeed, ih]
  | case3 c cs hpair hend ih =>
    have hjoined : joinLineEnds (c :: cs) = '\n' :: joinLineEnds cs := by
      rw [joinLineEnds]
      · rcases hend with rfl | rfl <;> rfl
      · exact fun rest hc hrest => hpair rest hc hrest
    rw [hjoined, hfeed, ih]
  | case4 c cs hpair hend ih =>
    have hreturn : c ≠ '\r' := fun h => hend (.inl h)
    have hjoined : joinLineEnds (c :: cs) = c :: joinLineEnds cs := by
      rw [joinLineEnds, if_neg hreturn]
      exact fun rest hc _ => hreturn hc
    rw [hjoined, cutLines, if_neg hend, ih]
    exact fun rest hc _ => hreturn hc

theorem lines_joinLineEnds (s : String) : lines (String.ofList (joinLineEnds s.toList)) = lines s := by
  rw [lines, parts, String.toList_ofList, cutLines_joinLineEnds]
  rfl

/-- The lines of a text have no line ends in them. -/
theorem mem_lines {s line : String} (h : line ∈ lines s) : ∀ c ∈ line.toList, isLineEnd c = false := by
  obtain ⟨part, hpart, rfl⟩ := List.mem_map.1 h
  rw [String.toList_ofList]
  exact mem_cutLines hpart

/-! ## Where a line stands -/

/-- A text is empty or has come to the end of a line. -/
def StartsLine (cs : List Char) : Prop := ∀ c, cs.getLast? = some c → isLineEnd c = true

/-- A text is empty or goes on with the end of a line. -/
def EndsLine (cs : List Char) : Prop := ∀ c, cs.head? = some c → isLineEnd c = true

theorem StartsLine.nil : StartsLine [] := by
  intro c hc
  cases hc

theorem EndsLine.nil : EndsLine [] := by
  intro c hc
  cases hc

theorem EndsLine.cons {c : Char} (hc : isLineEnd c = true) (cs : List Char) : EndsLine (c :: cs) := by
  intro d hd
  cases hd
  exact hc

theorem StartsLine.cons {c : Char} {cs : List Char} (h : StartsLine cs) (hne : cs ≠ [] ∨ isLineEnd c = true) :
    StartsLine (c :: cs) := by
  intro d hd
  cases cs with
  | nil =>
    cases hd
    exact hne.resolve_left fun hne => hne rfl
  | cons e cs => exact h d (by simpa using hd)

/-- How many line ends there are in a text; a carriage return and a line feed after it are one. -/
def countLineEnds : List Char → Nat
  | [] => 0
  | '\r' :: '\n' :: cs => countLineEnds cs + 1
  | c :: cs => if c = '\r' ∨ c = '\n' then countLineEnds cs + 1 else countLineEnds cs

theorem countLineEnds_pair (cs : List Char) : countLineEnds ('\r' :: '\n' :: cs) = countLineEnds cs + 1 := by
  rw [countLineEnds]

/-- A line end on its own is no first half of a pair. -/
theorem countLineEnds_single {c : Char} {cs : List Char} (hc : isLineEnd c = true)
    (hpair : ¬(c = '\r' ∧ cs.head? = some '\n')) : countLineEnds (c :: cs) = countLineEnds cs + 1 := by
  have hend : c = '\r' ∨ c = '\n' := by
    rw [isLineEnd, Bool.or_eq_true, beq_iff_eq, beq_iff_eq] at hc
    exact hc.symm
  rw [countLineEnds, if_pos hend]
  rintro ds rfl rfl
  exact hpair ⟨rfl, rfl⟩

theorem countLineEnds_other {c : Char} (hc : isLineEnd c = false) (cs : List Char) :
    countLineEnds (c :: cs) = countLineEnds cs := by
  have hend := isLineEnd_eq_false.1 hc
  rw [countLineEnds, if_neg hend]
  rintro ds rfl rfl
  exact hend (.inl rfl)

/-- Where a line begins no line has ended only at the very front. -/
theorem StartsLine.eq_nil {cs : List Char} (h : StartsLine cs) (hcount : countLineEnds cs = 0) : cs = [] := by
  fun_induction countLineEnds cs with
  | case1 => rfl
  | case2 cs ih => cases hcount
  | case3 c cs hpair hend ih => cases hcount
  | case4 c cs hpair hend ih =>
    cases cs with
    | nil =>
      have hc : isLineEnd c = true := h c rfl
      rw [isLineEnd_eq_false.2 hend] at hc
      cases hc
    | cons d cs =>
      have hrest : StartsLine (d :: cs) := fun e he => h e (by simpa using he)
      exact absurd (ih hrest hcount) (by simp)

/-- A text between two others is one whole line: there is no line end in it, there is one on either side unless the
text begins or ends there, and the one before is not cut in two. -/
structure IsLineBetween (before line after : List Char) : Prop where
  free : ∀ c ∈ line, isLineEnd c = false
  starts : StartsLine before
  ends : EndsLine after
  whole : ¬(before.getLast? = some '\r' ∧ (line ++ after).head? = some '\n')

/-- One character more in front, which ends a line if it is the only one. -/
theorem IsLineBetween.cons {before line after : List Char} (h : IsLineBetween before line after) {c : Char}
    (hc : before ≠ [] ∨ isLineEnd c = true ∧ ¬(c = '\r' ∧ (line ++ after).head? = some '\n')) :
    IsLineBetween (c :: before) line after := by
  refine ⟨h.free, h.starts.cons (hc.imp_right And.left), h.ends, ?_⟩
  rintro ⟨hlast, hhead⟩
  cases before with
  | nil => exact (hc.resolve_left fun hne => hne rfl).2 ⟨by simpa using hlast, hhead⟩
  | cons d before => exact h.whole ⟨by simpa using hlast, hhead⟩

/-- A line stands after as many line ends as there are lines before it. -/
theorem exists_of_getElem?_cutLines {cs line : List Char} {i : Nat} (h : (cutLines cs)[i]? = some line) :
    ∃ before after, cs = before ++ line ++ after ∧ IsLineBetween before line after ∧ countLineEnds before = i := by
  fun_induction cutLines cs generalizing line i with
  | case1 =>
    cases i with
    | zero =>
      cases h
      exact ⟨[], [], rfl, ⟨by simp, .nil, .nil, by simp⟩, rfl⟩
    | succ i => cases h
  | case2 cs ih =>
    cases i with
    | zero =>
      cases h
      exact ⟨[], _, rfl, ⟨by simp, .nil, .cons rfl _, by simp⟩, rfl⟩
    | succ i =>
      obtain ⟨before, after, rfl, hline, hcount⟩ := ih h
      refine ⟨'\r' :: '\n' :: before, after, rfl, ?_, by rw [countLineEnds_pair, hcount]⟩
      exact (hline.cons (.inr ⟨rfl, by simp⟩)).cons (.inl (by simp))
  | case3 c cs hpair hend ih =>
    have hc : isLineEnd c = true := by rcases hend with rfl | rfl <;> rfl
    cases i with
    | zero =>
      cases h
      exact ⟨[], _, rfl, ⟨by simp, .nil, .cons hc _, by simp⟩, rfl⟩
    | succ i =>
      obtain ⟨before, after, rfl, hline, hcount⟩ := ih h
      -- what follows a carriage return is no line feed here
      have hhead : ¬(c = '\r' ∧ (before ++ line ++ after).head? = some '\n') := by
        rintro ⟨hreturn, hfeed⟩
        obtain ⟨ds, hds⟩ := List.head?_eq_some_iff.1 hfeed
        exact hpair ds hreturn hds
      refine ⟨c :: before, after, rfl, hline.cons ?_, ?_⟩
      · cases before with
        | nil => exact .inr ⟨hc, hhead⟩
        | cons d before => exact .inl (by simp)
      · have hpair' : ¬(c = '\r' ∧ before.head? = some '\n') := fun h => hhead ⟨h.1, by simp [h.2]⟩
        rw [countLineEnds_single hc hpair', hcount]
  | case4 c cs hpair hend ih =>
    have hc : isLineEnd c = false := isLineEnd_eq_false.2 hend
    obtain ⟨first, more, hcut⟩ := List.exists_cons_of_ne_nil (cutLines_ne_nil cs)
    rw [hcut] at h ih
    cases i with
    | zero =>
      cases h
      obtain ⟨before, after, rfl, hline, hcount⟩ := ih (List.getElem?_cons_zero)
      obtain rfl := hline.starts.eq_nil hcount
      exact ⟨[], after, rfl, ⟨List.forall_mem_cons.2 ⟨hc, hline.free⟩, .nil, hline.ends, by simp⟩, rfl⟩
    | succ i =>
      obtain ⟨before, after, rfl, hline, hcount⟩ := ih (i := i + 1) h
      refine ⟨c :: before, after, rfl, hline.cons (.inl ?_), by rw [countLineEnds_other hc, hcount]⟩
      rintro rfl
      cases hcount

/-! ## What is read off the lines -/

theorem head?_consFirst (c : Char) (parts : List (List Char)) :
    (consFirst c parts).head? = some (c :: parts.head?.getD []) := by
  cases parts <;> rfl

section
variable {β : Type} {f : List Char → Option β}

theorem filterMap_eq_of_head_tail {parts others : List (List Char)} (hhead : parts.head? = others.head?)
    (htail : parts.tail.filterMap f = others.tail.filterMap f) : parts.filterMap f = others.filterMap f := by
  cases parts with
  | nil =>
    cases others with
    | nil => rfl
    | cons other others => cases hhead
  | cons part parts =>
    cases others with
    | nil => cases hhead
    | cons other others =>
      cases hhead
      rw [List.tail_cons, List.tail_cons] at htail
      rw [List.filterMap_cons, List.filterMap_cons, htail]

/-- The empty line that stands between the two halves of a line end makes no difference. -/
theorem filterMap_cutLines (hf : f [] = none) (cs : List Char) :
    (cutLines cs).filterMap f = (cutAt isLineEnd cs).filterMap f := by
  -- the two cuts have the first line in common, and the same is read off the others
  have hboth : (cutLines cs).head? = (cutAt isLineEnd cs).head? ∧
      (cutLines cs).tail.filterMap f = (cutAt isLineEnd cs).tail.filterMap f := by
    fun_induction cutLines cs with
    | case1 => exact ⟨rfl, rfl⟩
    | case2 cs ih =>
      have hcut : cutAt isLineEnd ('\r' :: '\n' :: cs) = [] :: [] :: cutAt isLineEnd cs := rfl
      refine ⟨rfl, ?_⟩
      rw [hcut, List.tail_cons, List.tail_cons, List.filterMap_cons, hf]
      exact filterMap_eq_of_head_tail ih.1 ih.2
    | case3 c cs hpair hend ih =>
      have hc : isLineEnd c = true := by rcases hend with rfl | rfl <;> rfl
      rw [cutAt, if_pos hc]
      exact ⟨rfl, filterMap_eq_of_head_tail ih.1 ih.2⟩
    | case4 c cs hpair hend ih =>
      have hc : ¬isLineEnd c = true := by simp [isLineEnd_eq_false.2 hend]
      rw [cutAt, if_neg hc, tail_consFirst, tail_consFirst, head?_consFirst, head?_consFirst, ih.1]
      exact ⟨rfl, ih.2⟩
  exact filterMap_eq_of_head_tail hboth.1 hboth.2

/-- What is read off two texts is what is read off the one that is put together from them at the end of a line. -/
theorem filterMap_cutAt_append (hf : f [] = none) {cs ds : List Char} (h : StartsLine cs ∨ EndsLine ds) :
    (cutAt isLineEnd (cs ++ ds)).filterMap f =
      (cutAt isLineEnd cs).filterMap f ++ (cutAt isLineEnd ds).filterMap f := by
  have hempty : (cutAt isLineEnd []).filterMap f = [] := by simp [cutAt, hf]
  rcases h with h | h
  · rcases List.eq_nil_or_concat cs with rfl | ⟨cs, c, rfl⟩
    · rw [hempty]
      rfl
    · have hc : isLineEnd c = true := h c (by simp)
      rw [List.concat_eq_append, List.append_assoc, List.singleton_append, cutAt_append _ _ _ hc, cutAt_append _ _ _ hc,
        List.filterMap_append, List.filterMap_append, hempty, List.append_nil]
  · cases ds with
    | nil => rw [hempty, List.append_nil, List.append_nil]
    | cons d ds =>
      have hd : isLineEnd d = true := h d rfl
      have hds : (cutAt isLineEnd (d :: ds)).filterMap f = (cutAt isLineEnd ds).filterMap f := by
        rw [cutAt, if_pos hd, List.filterMap_cons, hf]
      rw [cutAt_append _ _ _ hd, List.filterMap_append, hds]

end

end Pinboard.Text
