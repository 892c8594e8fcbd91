import Pinboard.Proofs.Text.Cuts

/-!
# Breaks in labels

A break in a label is a line feed or is written with a backslash. Turning the written ones into line feeds and cutting
there comes to the same as cutting at all breaks (`cutAt_expandBreaks`). Main statement: a change of characters that has
nothing to do with breaks changes the parts between them, each by itself (`cutBreaks_map`).
-/

namespace Pinboard.Text

theorem cutAt_expandBreaks (cs : List Char) : cutAt (· == '\n') (expandBreaks cs) = cutBreaks cs := by
  fun_induction cutBreaks cs with
  | case1 => rfl
  | case2 cs ih => simp only [expandBreaks, cutAt, ih, beq_self_eq_true, if_true]
  | case3 cs hbreak ih =>
    rw [expandBreaks]
    · simp only [cutAt, ih, beq_self_eq_true, if_true]
    · exact hbreak
  | case4 c cs hbreak hc ih =>
    rw [expandBreaks]
    · simp only [cutAt, ih, beq_iff_eq, hc, if_false]
    · exact hbreak

/-- The paragraphs of a text whose breaks have become line feeds are its parts between the breaks. -/
theorem paragraphs_expandBreaks (text : String) :
    paragraphs (String.ofList (expandBreaks text.toList)) = parts cutBreaks text := by
  rw [paragraphs, parts, String.toList_ofList, cutAt_expandBreaks, parts]

theorem cutBreaks_ne_nil (cs : List Char) : cutBreaks cs ≠ [] :=
  cutAt_expandBreaks cs ▸ cutAt_ne_nil _ _

theorem consFirst_map (f : Char → Char) (c : Char) (parts : List (List Char)) :
    (consFirst c parts).map (List.map f) = consFirst (f c) (parts.map (List.map f)) := by
  cases parts <;> rfl

/-- A change of characters that takes none away from a break and makes none. -/
structure KeepsBreaks (f : Char → Char) : Prop where
  lineFeed (c : Char) : f c = '\n' ↔ c = '\n'
  backslash (c : Char) : f c = '\\' ↔ c = '\\'
  letter (c : Char) : f c = 'n' ↔ c = 'n'

theorem cutBreaks_map {f : Char → Char} (hf : KeepsBreaks f) (cs : List Char) :
    cutBreaks (cs.map f) = (cutBreaks cs).map (List.map f) := by
  -- no break is made where there is none
  have hfree {c : Char} {cs : List Char} (h : ∀ rest, c = '\\' → cs = 'n' :: rest → False) :
      ∀ rest, f c = '\\' → cs.map f = 'n' :: rest → False := by
    intro rest hc hcs
    obtain ⟨d, more, rfl, hd, -⟩ := List.map_eq_cons_iff.1 hcs
    exact h more ((hf.backslash c).1 hc) (by rw [(hf.letter d).1 hd])
  fun_induction cutBreaks cs with
  | case1 => rfl
  | case2 cs ih =>
    rw [List.map_cons, List.map_cons, (hf.backslash '\\').2 rfl, (hf.letter 'n').2 rfl, cutBreaks, ih]
    rfl
  | case3 cs hbreak ih =>
    rw [List.map_cons, cutBreaks, if_pos ((hf.lineFeed _).2 rfl), ih]
    · rfl
    · exact hfree hbreak
  | case4 c cs hbreak hc ih =>
    rw [List.map_cons, cutBreaks, if_neg (mt (hf.lineFeed c).1 hc), ih, consFirst_map]
    exact hfree hbreak

/-- What stands between separators is all that is none. -/
theorem exists_mem_cutAt_iff {isSeparator : Char → Bool} {cs : List Char} {c : Char} (hc : isSeparator c = false) :
    (∃ part ∈ cutAt isSeparator cs, c ∈ part) ↔ c ∈ cs := by
  have hfirst (d : Char) (parts : List (List Char)) :
      (∃ part ∈ consFirst d parts, c ∈ part) ↔ c = d ∨ ∃ part ∈ parts, c ∈ part := by
    cases parts <;> simp [consFirst, or_assoc]
  induction cs with
  | nil => simp [cutAt]
  | cons d cs ih =>
    rw [cutAt]
    split
    next hd =>
      have hne : c ≠ d := by
        rintro rfl
        rw [hc] at hd
        cases hd
      simpa [hne] using ih
    next => exact (hfirst d _).trans ((or_congr_right ih).trans List.mem_cons.symm)

end Pinboard.Text
