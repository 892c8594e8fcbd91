import Mathlib.Data.Nat.Sqrt
import Pinboard.Proofs.Chart.Drafting
import Pinboard.Proofs.Chart.Reading

/-!
# Tables and their columns

A count of columns may have any number of digits, and a table text any number of cells. `columnFault` is
what a table makes of those that are beyond what it can work with; it is the only way in which a shape can
fail without a complaint (`ShapeCommand.draw_ends`), and it does fail so as soon as the same table with one
column and without text can be drawn (`ShapeCommand.draw_breaks_iff`).
-/

namespace Pinboard

open Work
open Binary64 (ofInt)
open Pinboard.Ring (maxCapacity)

/-! ## What is wrong with the columns -/

/-- What is wrong with the text of a table of so many columns. -/
def sizeFault (columns : Int) (text : String) : Option Breakdown :=
  if text.isEmpty then none
  else if maxCapacity ≤ (Text.cells text).length then
    some (.words (.tooManyElements (Text.cells text).length))
  else if (ofInt columns).isFinite then none
  else some (.arithmetic .integerTooLarge)

/-- What is wrong with a count of columns that is an integer from zero on: it has too many digits to be
read, or, where there is text to share out, it is beyond the range of numbers. -/
def columnFault (columns text : String) : Option Breakdown :=
  match (Text.Numeral.read? columns).filter Text.Numeral.isInteger with
  | none => none
  | some numeral =>
    match numeral.integer with
    | .error fault => some (.arithmetic fault)
    | .ok n => if n < 0 then none else sizeFault n text

/-- A word for columns complains, or is at fault whatever the text, or is a number of columns. -/
theorem columns_cases (command columns text : String) :
    (∃ c, Meaning.columns command columns = Meaning.complain c ∧ columnFault columns text = none) ∨
      (∃ e, Meaning.columns command columns = .error (.breakdown (.arithmetic e)) ∧
        columnFault columns text = some (.arithmetic e)) ∨
      ∃ n : Nat, Meaning.columns command columns = .ok n ∧ columnFault columns text = sizeFault n text := by
  rw [Meaning.columns, columnFault]
  cases (Text.Numeral.read? columns).filter Text.Numeral.isInteger with
  | none => exact .inl ⟨_, rfl, rfl⟩
  | some numeral =>
    cases h : numeral.integer with
    | error e => exact .inr (.inl ⟨e, by simp only [h], by simp only [h]⟩)
    | ok n =>
      by_cases hn : n < 0
      · exact .inl ⟨.negativeColumns command n, by simp only [h, if_pos hn], by simp only [h, if_pos hn]⟩
      · refine .inr (.inr ⟨n.toNat, by simp only [h, if_neg hn], ?_⟩)
        rw [Int.toNat_of_nonneg (by omega)]
        simp only [h, if_neg hn]

/-! ## Cells -/

theorem tableCells_ok {text : String} (hlt : (Text.cells text).length < maxCapacity) :
    tableCells text = .ok (Text.cells text) := by
  obtain ⟨words, hw, hh⟩ := wordsOf_holds hlt
  rw [tableCells, hw, ← hh.toList_eq]
  rfl

theorem tableCells_error {text : String} (hge : maxCapacity ≤ (Text.cells text).length) :
    tableCells text = .error (.breakdown (.words (.tooManyElements (Text.cells text).length))) := by
  rw [tableCells, wordsOf_error hge]
  rfl

/-- The columns that a table is drawn with are at least one, and in range if the count is. -/
theorem tableColumns_spec {n : Nat} {cells : List String} (hcells : cells.length ≤ Nat.pow 2 30) :
    0 < tableColumns n cells ∧ (ofInt (tableColumns n cells)).isFinite = (ofInt n).isFinite := by
  rw [tableColumns]
  split
  next h =>
    subst h
    have hle : max 1 cells.length.sqrt ≤ Nat.pow 2 30 :=
      Nat.max_le.2 ⟨twoPow_pos 30, Nat.le_trans (Nat.sqrt_le_self _) hcells⟩
    have hzero : (ofInt (0 : Nat)).isFinite = true :=
      Binary64.ofInt_isFinite (k := 0) (Nat.zero_le _) (by decide)
    rw [hzero]
    exact ⟨Nat.le_max_left _ _, Binary64.ofInt_isFinite hle (by decide)⟩
  next h => exact ⟨by omega, rfl⟩

/-! ## Drawing a table -/

variable {b : Board} {s : ShapeCommand} {columns : String} {bd : Breakdown}

/-- The breakdown that a fault is, if it is not about what the line says. -/
def Fault.breakdown? : Fault → Option Breakdown
  | .complaint _ => none
  | .breakdown bd => some bd

theorem Fault.breakdown?_eq_some {f : Fault} : f.breakdown? = some bd ↔ f = .breakdown bd := by
  cases f <;> simp [breakdown?]

/-- The corners of a table are pins, and not too far apart. -/
def Spans (b : Board) (s : ShapeCommand) : Prop :=
  ∃ bounds, Meaning.corners b.pins "Table" s.first s.second = .ok bounds

/-- Before it comes to its columns a table complains unless it has its corners. -/
theorem drawTable_apart (hb : b.IsFinite) (h : ¬Spans b s) :
    Ends (drawTable columns s) b (fun _ _ => False) (Complains b) := by
  refine .pins_bind (.given_bind (Meaning.corners_gives _ hb.pins _ _) (fun bounds hc _ => ?_) complains)
  exact absurd ⟨bounds, hc⟩ h

/-- A table with its corners is drawn or complains if its columns are in order, and fails as they do
otherwise. -/
theorem drawTable_spans (columns : String) (hb : b.IsFinite) (hs : Spans b s) :
    Ends (drawTable columns s) b (fun _ b' => b.Labels b' ∧ columnFault columns s.text = none)
      (fun f b' => f.breakdown? = columnFault columns s.text ∧ b' = b) := by
  obtain ⟨bounds, hbounds⟩ := hs
  have hsound := (Meaning.corners_gives "Table" hb.pins s.first s.second).ok hbounds
  refine .pins_bind ?_
  rw [hbounds]
  refine .of_bind (fun bounds' h => ?_) fun f h => by cases h
  cases h
  rcases columns_cases "Table" columns s.text with ⟨c, hc, hfault⟩ | ⟨e, he, hfault⟩ | ⟨n, hn, hfault⟩
  · rw [hc, hfault]
    exact .of_bind (fun n hn => by cases hn) fun f hf => by cases hf; exact ⟨rfl, rfl⟩
  · rw [he, hfault]
    exact .of_bind (fun n hn => by cases hn) fun f hf => by cases hf; exact ⟨rfl, rfl⟩
  rw [hn, hfault, sizeFault]
  refine .of_bind (fun n' hn' => ?_) fun f hf => by cases hf
  cases hn'
  refine .get_bind ?_
  obtain ⟨figure, hfig⟩ := Drawing.rectangle_ok hsound.area b.fill none (by simp)
  rw [hfig]
  refine .computed_bind (fun figure _ => ?_) fun e he => by cases he
  by_cases htext : s.text.isEmpty = true
  · rw [if_pos htext, if_pos htext]
    exact .pure ⟨.refl b, rfl⟩
  rw [if_neg htext, if_neg htext]
  by_cases hcells : maxCapacity ≤ (Text.cells s.text).length
  · rw [if_pos hcells, tableCells_error hcells]
    exact .of_bind (fun cells hc => by cases hc) fun f hf => by cases hf; exact ⟨rfl, rfl⟩
  have hlt := Nat.lt_of_not_le hcells
  obtain ⟨hpos, hcolumns⟩ := tableColumns_spec (n := n) (Nat.le_of_lt hlt)
  rw [if_neg hcells, tableCells_ok hlt]
  refine .of_bind (fun cells hc => ?_) fun f hf => by cases hf
  cases hc
  by_cases h : (ofInt n).isFinite = true
  · rw [if_pos h]
    refine (textBlock_ends hsound.area (Nat.le_of_lt hlt) hpos (hcolumns.trans h) .box _).bind fun _ _ hl => ?_
    exact .pure ⟨hl, rfl⟩
  · rw [if_neg h]
    have hrange := hcolumns.trans (Bool.eq_false_iff.2 h)
    refine ((textBlock_tooLarge hsound.area hrange _ .box).mono_bad ?_).bind fun _ _ hfalse => hfalse.elim
    rintro f b' ⟨rfl, rfl⟩
    exact ⟨rfl, rfl⟩

/-- With its corners a table of one column without text is drawn. -/
theorem drawTable_plain (hs : Spans b s) (hb : b.IsFinite) :
    Ends (drawTable "1" { s with text := "" }) b (fun _ _ => True) (fun _ _ => False) := by
  obtain ⟨bounds, hbounds⟩ := hs
  have hsound := (Meaning.corners_gives "Table" hb.pins s.first s.second).ok hbounds
  have hone : Meaning.columns "Table" "1" = .ok 1 := by decide
  refine .pins_bind ?_
  rw [hbounds, hone]
  refine .of_bind (fun bounds' h => ?_) fun f h => by cases h
  cases h
  refine .of_bind (fun n _ => ?_) fun f h => by cases h
  refine .get_bind ?_
  obtain ⟨figure, hfig⟩ := Drawing.rectangle_ok hsound.area b.fill none (by simp)
  rw [hfig]
  exact .computed_bind (fun figure _ => .pure trivial) fun e he => by cases he

/-! ## Drawing shapes -/

namespace ShapeCommand

/-- What is wrong with the columns of a shape, if it has any. -/
def fault (s : ShapeCommand) : Option Breakdown :=
  match s.shape with
  | .table columns => columnFault columns s.text
  | _ => none

/-- A table with one column and without text in place of a table. -/
def plain (s : ShapeCommand) : ShapeCommand :=
  match s.shape with
  | .table _ => { s with shape := .table "1", text := "" }
  | _ => s

/-- A fault that a shape may meet: with the line, or with its columns. -/
def MayMeet (s : ShapeCommand) (f : Fault) : Prop := f.IsComplaint ∨ f.breakdown? = s.fault

theorem MayMeet.eq_breakdown {s : ShapeCommand} {bd : Breakdown} (h : s.MayMeet (.breakdown bd)) : s.fault = some bd := by
  rcases h with ⟨c, hc⟩ | hf
  · cases hc
  · exact hf.symm

/-- A shape adds labels and nothing else, or fails and leaves the board as it is. -/
theorem draw_ends (hb : b.IsFinite) (s : ShapeCommand) :
    Ends s.draw b (fun _ b' => b.Labels b' ∧ s.fault = none) (fun f b' => s.MayMeet f ∧ b' = b) := by
  have hplain {w : Work Fragment} (h : Ends w b (fun _ b' => b.Labels b') (Complains b)) (hs : s.fault = none) :
      Ends w b (fun _ b' => b.Labels b' ∧ s.fault = none) (fun f b' => s.MayMeet f ∧ b' = b) :=
    h.mono (fun _ _ h => ⟨h, hs⟩) fun _ _ h => ⟨.inl h.1, h.2⟩
  obtain ⟨shape, first, second, text⟩ := s
  cases shape with
  | box small => cases small <;> exact hplain (drawBox_ends hb _ _ _) rfl
  | pill => exact hplain (drawPill_ends hb _) rfl
  | hex => exact hplain (drawHex_ends hb _) rfl
  | tiltBox skew => exact hplain (drawTiltBox_ends hb _ _) rfl
  | trapBox top bottom => exact hplain (drawTrapBox_ends hb _ _ _) rfl
  | notchBox outward side => exact hplain (drawNotchBox_ends hb _ _ _) rfl
  | table columns =>
    by_cases hs : Spans b ⟨.table columns, first, second, text⟩
    · exact (drawTable_spans columns hb hs).mono_bad fun _ _ h => ⟨.inr h.1, h.2⟩
    · exact (drawTable_apart hb hs).mono (fun _ _ h => h.elim) fun _ _ h => ⟨.inl h.1, h.2⟩

/-- A shape breaks exactly if its columns are at fault and without them it could be drawn. -/
theorem draw_breaks_iff (hb : b.IsFinite) (s : ShapeCommand) (bd : Breakdown) :
    (∃ b', s.draw b = .error (.breakdown bd) b') ↔
      s.fault = some bd ∧ ∃ fragment b', s.plain.draw b = .ok fragment b' := by
  obtain ⟨shape, first, second, text⟩ := s
  constructor
  · rintro ⟨b', h⟩
    have hf := ((draw_ends hb _).error h).1.eq_breakdown
    refine ⟨hf, ?_⟩
    cases shape with
    | table columns =>
      have hs : Spans b ⟨.table columns, first, second, text⟩ := by
        by_contra hs
        obtain ⟨⟨c, hc⟩, -⟩ := (drawTable_apart hb hs).error h
        cases hc
      exact (drawTable_plain hs hb).exists_ok
    | _ => cases hf
  · rintro ⟨hf, fragment, b', h⟩
    cases shape with
    | table columns =>
      have hs : Spans b ⟨.table "1", first, second, ""⟩ := by
        by_contra hs
        exact (drawTable_apart hb hs).ok h
      have hends := drawTable_spans columns hb (show Spans b ⟨.table columns, first, second, text⟩ from hs)
      cases hw : drawTable columns ⟨.table columns, first, second, text⟩ b with
      | ok fragment b'' =>
        have hnone := (hends.ok hw).2.symm.trans hf
        cases hnone
      | error f b'' =>
        obtain rfl := Fault.breakdown?_eq_some.1 ((hends.error hw).1.trans hf)
        exact ⟨b'', hw⟩
    | _ => cases hf

end ShapeCommand

end Pinboard
