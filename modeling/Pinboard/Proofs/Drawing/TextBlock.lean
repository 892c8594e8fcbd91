import Mathlib.Algebra.Order.Floor.Div
import Mathlib.Data.List.Forall2
import Pinboard.Drawing.TextBlock
import Pinboard.Proofs.Drawing.Identifiers
import Pinboard.Proofs.Text.Breaks

/-!
# What a block of text shows

The cells of a block fill its rows from left to right, and the text of a cell is cut into pieces at its breaks.
`Element.ShowsGrid` reads this off the markup: the divisions for rows and cells and nothing beside them, and in a cell
its pieces with breaks between them. Main statements: a list that is cut into rows fills them, all but the last of the
full size (`fillsRows_rowsOf`), and a block shows the pieces of its texts in such rows (`textBlock_shows`).
-/

namespace Pinboard

/-! ## Reading the markup -/

namespace Element

/-- An element shows pieces of text: they stand around breaks, and breaks are all that is inside the element. -/
structure ShowsText (e : Element) (pieces : List String) : Prop where
  pieces : e.pieces = pieces
  breaks : ∀ child ∈ e.children, child.1 = .leaf "xhtml:br" []

/-- A division whose style begins in a given way consists of parts, each of which shows one of some contents. -/
def IsDivision {α : Type} (style : String) (Shows : Element → α → Prop) (e : Element) (contents : List α) : Prop :=
  ∃ more parts, e = .branch "xhtml:div" [("style", style ++ more)] parts ∧ List.Forall₂ Shows parts contents

/-- A cell shows the pieces of one text. -/
def ShowsCell (e : Element) (pieces : List String) : Prop :=
  e.IsDivision "display: table-cell; " ShowsText [pieces]

/-- A block shows, in an area, the pieces of texts in rows of cells. -/
def ShowsGrid (block : Element) (a : Area) (grid : List (List (List String))) : Prop :=
  ∃ place table, Drawing.areaAttributes a = .ok place ∧
    block = .branch "foreignObject" (place ++ [("transform", "translate(0,0)")]) [table] ∧
      table.IsDivision "display: table; " (IsDivision "display: table-row" ShowsCell) grid

end Element

namespace Drawing

/-! ## Texts -/

theorem withText_shows (tag : String) (attributes : List (String × String)) (text : String) :
    (withText tag attributes text).ShowsText (Text.parts Text.cutBreaks text) := by
  have hne : Text.parts Text.cutBreaks text ≠ [] := by simpa [Text.parts] using Text.cutBreaks_ne_nil text.toList
  unfold withText
  split
  next hnil => exact absurd hnil hne
  next first rest hparts =>
    rw [hparts]
    constructor
    · rw [Element.pieces, Element.text, Element.children, List.map_map]
      exact congrArg (first :: ·) (List.map_id rest)
    · intro child hchild
      obtain ⟨part, -, rfl⟩ := List.mem_map.1 hchild
      rfl

/-! ## Rows -/

/-- Items fill rows of a size: read row by row they are all there in order, and all rows but the last have that size. -/
structure FillsRows {α : Type} (size : Nat) (items : List α) (rows : List (List α)) : Prop where
  flatten : rows.flatten = items
  length : rows.length = items.length ⌈/⌉ size
  sizes : ∃ full last, rows = full ++ [last] ∧ (∀ row ∈ full, row.length = size) ∧
    1 ≤ last.length ∧ last.length ≤ size

namespace FillsRows

variable {α β : Type} {size : Nat}

/-- There are as many rows as it takes, if no row but the last is short. -/
theorem of_sizes (full : List (List α)) (last : List α) (hfull : ∀ row ∈ full, row.length = size)
    (hpos : 1 ≤ last.length) (hle : last.length ≤ size) : FillsRows size (full.flatten ++ last) (full ++ [last]) where
  flatten := by simp
  length := by
    have hlengths : (full.flatten ++ last).length = last.length - 1 + 1 + size * full.length := by
      rw [List.length_append, List.length_flatten, List.map_congr_left hfull, List.map_const', List.sum_replicate_nat,
        Nat.mul_comm size]
      omega
    have hsize : last.length - 1 + 1 + size * full.length + size - 1 = last.length - 1 + size * (full.length + 1) := by
      rw [Nat.mul_add]
      omega
    rw [hlengths, Nat.ceilDiv_eq_add_pred_div, hsize, Nat.add_mul_div_left _ _ (by omega),
      Nat.div_eq_of_lt (by omega)]
    simp
  sizes := ⟨full, last, rfl, hfull, hpos, hle⟩

theorem map (f : α → β) {items : List α} {rows : List (List α)} (h : FillsRows size items rows) :
    FillsRows size (items.map f) (rows.map (List.map f)) := by
  obtain ⟨rfl, -, full, last, rfl, hfull, hpos, hle⟩ := h
  have hmap : FillsRows size _ _ := of_sizes (full.map (List.map f)) (last.map f) (by simpa using hfull)
    (by simpa using hpos) (by simpa using hle)
  simpa [List.map_flatten] using hmap

end FillsRows

variable {α : Type} {size : Nat}

theorem rowsWithin_succ (size count : Nat) {items : List α} (hne : items ≠ []) :
    rowsWithin size (count + 1) items = items.take size :: rowsWithin size count (items.drop size) := by
  cases items with
  | nil => exact absurd rfl hne
  | cons item items => rfl

@[simp]
theorem rowsWithin_nil (size count : Nat) : rowsWithin size count ([] : List α) = [] := by
  cases count <;> rfl

theorem fillsRows_rowsWithin (hsize : 0 < size) (count : Nat) (items : List α) (hne : items ≠ [])
    (hcount : items.length ≤ count) : FillsRows size items (rowsWithin size count items) := by
  induction count generalizing items with
  | zero => exact absurd (List.length_eq_zero_iff.1 (Nat.le_zero.1 hcount)) hne
  | succ count ih =>
    rcases Nat.lt_or_ge size items.length with hlt | hle
    · -- the first row is full, and there is something left for the others
      have hdrop : (items.drop size).length = items.length - size := List.length_drop
      have hrest : items.drop size ≠ [] := by
        intro hnil
        rw [hnil, List.length_nil] at hdrop
        omega
      obtain ⟨hflatten, -, full, last, hrows, hfull, hpos, hlast⟩ := ih (items.drop size) hrest (by omega)
      have hcut : rowsWithin size (count + 1) items = (items.take size :: full) ++ [last] := by
        rw [rowsWithin_succ size count hne, hrows, List.cons_append]
      have hitems : (items.take size :: full).flatten ++ last = items := by
        have hback : full.flatten ++ last = items.drop size := by simpa [hrows] using hflatten
        rw [List.flatten_cons, List.append_assoc, hback, List.take_append_drop]
      have hfills := FillsRows.of_sizes (items.take size :: full) last
        (List.forall_mem_cons.2 ⟨List.length_take_of_le hlt.le, hfull⟩) hpos hlast
      rwa [hitems, ← hcut] at hfills
    · have hfills := FillsRows.of_sizes [] items (by simp) (List.length_pos_iff.2 hne) hle
      rw [rowsWithin_succ size count hne, List.take_of_length_le hle, List.drop_of_length_le hle, rowsWithin_nil]
      simpa using hfills

/-- A list that is cut into rows fills them. -/
theorem fillsRows_rowsOf (hsize : 0 < size) {items : List α} (hne : items ≠ []) :
    FillsRows size items (rowsOf size items) :=
  fillsRows_rowsWithin hsize items.length items hne (Nat.le_refl _)

example : rowsOf 2 ["a", "b", "c"] = [["a", "b"], ["c"]] := by decide

/-! ## Blocks -/

theorem forall₂_mapIdx {β γ : Type} {R : β → γ → Prop} {f : Nat → α → β} {g : α → γ} (h : ∀ i a, R (f i a) (g a))
    (as : List α) : List.Forall₂ R (as.mapIdx f) (as.map g) := by
  induction as generalizing f with
  | nil => exact .nil
  | cons a as ih =>
    rw [List.mapIdx_cons, List.map_cons]
    exact .cons (h 0 a) (ih fun i => h (i + 1))

theorem cell_shows (style : CellStyle) (firstRow : Bool) (column : Nat) (text : String) :
    (cell style firstRow column text).ShowsCell (Text.parts Text.cutBreaks text) := by
  rw [cell, String.append_assoc]
  exact ⟨_, _, rfl, .cons (withText_shows _ _ text) .nil⟩

theorem row_shows (style : CellStyle) (firstRow : Bool) (texts : List String) :
    (row style firstRow texts).IsDivision "display: table-row" Element.ShowsCell
      (texts.map (Text.parts Text.cutBreaks)) :=
  ⟨"", _, rfl, forall₂_mapIdx (cell_shows style firstRow) texts⟩

/-- A block shows the pieces of its texts in rows of so many columns. -/
theorem textBlock_shows {a : Area} {texts : List String} {columns : Nat} {css : String} {block : Element}
    (h : textBlock a texts columns css = .ok block) :
    block.ShowsGrid a ((rowsOf columns texts).map (List.map (Text.parts Text.cutBreaks))) := by
  obtain ⟨place, hplace, h⟩ := exists_of_except_bind_ok h
  obtain ⟨height, -, h⟩ := exists_of_except_bind_ok h
  obtain ⟨quotient, -, h⟩ := exists_of_except_bind_ok h
  obtain ⟨width, -, h⟩ := exists_of_except_bind_ok h
  cases h
  have hstyle : "display: table; height: " ++ height ++ "px; margin: auto; padding: 0 1px 0 1px;" =
      "display: table; " ++ ("height: " ++ height ++ "px; margin: auto; padding: 0 1px 0 1px;") := by
    have hstart : "display: table; height: " = "display: table; " ++ "height: " := by decide
    rw [hstart]
    simp only [String.append_assoc]
  refine ⟨place, _, hplace, rfl, _, _, by rw [hstyle], ?_⟩
  exact forall₂_mapIdx (fun index texts => row_shows _ (index == 0) texts) _

end Drawing
end Pinboard
