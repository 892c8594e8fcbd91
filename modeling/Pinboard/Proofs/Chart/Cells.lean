import Pinboard.Proofs.Chart.OwnCommand
import Pinboard.Proofs.Drawing.TextBlock

/-!
# The cells of a shape and their labels

The text of a shape is drawn in a block and recorded in labels, and the two come about apart from each other: the block
cuts the cells into rows and the texts at their breaks, while the labels have the room of a cell from a rounded quotient
and their texts with the breaks turned into line feeds. Main statement: whatever command a shape is drawn by, its block
shows all of its cells in full rows but for the last one, and there is one label for each cell that is not blank, with
the room and the paragraphs that the cell has in the block (`executeAt_laysOut`).
-/

namespace Pinboard

open Work
open Pinboard.Ring (maxCapacity)

/-! ## What a shape makes of its text -/

def Shape.kind : Shape → ShapeKind
  | .box false => .box
  | .box true => .smallBox
  | .table _ => .table
  | .pill => .pill
  | .hex => .hex
  | .tiltBox _ => .tiltBox
  | .trapBox _ _ => .trapBox
  | .notchBox true _ => .boxOut
  | .notchBox false _ => .boxIn

/-- The kind of the text in a shape. -/
def Shape.textClass : Shape → TextClass
  | .box true => .smallBox
  | _ => .box

/-- The columns that a shape has for so many cells: those that a table is given, or for zero those of the largest square
that the cells fill; and one where the shape is no table. -/
def Shape.HasColumns (cells columns : Nat) : Shape → Prop
  | .table word => ∃ given, Meaning.columns "Table" word = .ok given ∧
      if given = 0 then columns * columns ≤ cells ∧ cells < (columns + 1) * (columns + 1) else columns = given
  | _ => columns = 1

/-- The area that a shape between some bounds leaves for its text. The round ends of a pill and the points of a hexagon
take half of their depth from it on either side, and a skew shifts it by a half. -/
def Shape.Leaves (bounds : Bounds) (a : Area) : Shape → Prop
  | .pill | .hex =>
    let depth := min bounds.area.width bounds.area.height / 2
    a = { bounds.area with left := bounds.left + depth / 2, width := bounds.area.width - depth }
  | .tiltBox word => ∃ skew, Meaning.number "TiltBox" "skew" word = .ok skew ∧
      a = { bounds.area with left := bounds.left + skew / 2 }
  | _ => a = bounds.area

/-- The cells of a shape: what lies between the bars of a table text, or else the text as a whole. -/
def ShapeCommand.cells (s : ShapeCommand) : List String :=
  match s.shape with
  | .table _ => Text.cells s.text
  | _ => [s.text]

/-- The area that a shape leaves for its text between two pins. -/
def ShapeCommand.HasRoom (s : ShapeCommand) (pins : PinTable) (a : Area) : Prop :=
  ∃ bounds, Meaning.corners pins s.shape.kind.title s.first s.second = .ok bounds ∧ s.shape.Leaves bounds a

/-- A label from a line for a cell of an area with so many columns and rows. -/
structure Label.IsForCell (l : Label) (number : Nat) (textClass : TextClass) (a : Area) (columns rows : Nat) : Prop where
  kind : l.kind = .box
  textClass : l.textClass = textClass
  width : a.width.divideBy columns = .ok l.width
  height : a.height.divideBy rows = .ok l.height
  line : l.line = number

/-- A shape that stands on a line lays out its text in an area: a block shows it in a grid, and labels record it. -/
structure ShapeCommand.LaysOut (s : ShapeCommand) (pins : PinTable) (number : Nat) (a : Area) (columns : Nat)
    (grid : List (List (List String))) (block : Element) (labels : List Label) : Prop where
  room : s.HasRoom pins a
  positive : 1 ≤ columns
  count : s.shape.HasColumns s.cells.length columns
  shows : block.ShowsGrid a grid
  rows : Drawing.FillsRows columns (s.cells.map (Text.parts Text.cutBreaks)) grid
  texts : labels.map (fun l => Text.paragraphs l.text) =
    (s.cells.filter Text.hasInk).map (Text.parts Text.cutBreaks)
  rooms : ∀ l ∈ labels, l.IsForCell number s.shape.textClass a columns grid.length

/-! ## Recording -/

/-- Labels are added for those of some cells that are not blank. -/
def Board.Records (b : Board) (a : Area) (columns rows : Nat) (textClass : TextClass) (cells : List String)
    (b' : Board) : Prop :=
  ∃ labels : List Label, b' = { b with labels := b.labels ++ labels } ∧
    labels.map (fun l => Text.paragraphs l.text) = (cells.filter Text.hasInk).map (Text.parts Text.cutBreaks) ∧
      ∀ l ∈ labels, l.IsForCell b.lineNumber textClass a columns rows

variable {b b' b'' : Board} {a : Area} {columns rows : Nat} {textClass : TextClass} {cells more : List String}

namespace Board.Records

theorem nil (b : Board) : b.Records a columns rows textClass [] b := ⟨[], by simp, rfl, by simp⟩

theorem blank {cell : String} (h : Text.hasInk cell = false) : b.Records a columns rows textClass [cell] b :=
  ⟨[], by simp, by simp [h], by simp⟩

theorem inked {cell : String} (hink : Text.hasInk cell = true) {width height : Binary64}
    (hwidth : a.width.divideBy columns = .ok width) (hheight : a.height.divideBy rows = .ok height) :
    b.Records a columns rows textClass [cell]
      { b with labels := b.labels ++ [⟨.box, String.ofList (Text.expandBreaks cell.toList), textClass, width, height,
        b.lineNumber⟩] } := by
  refine ⟨_, rfl, ?_, List.forall_mem_singleton.2 ⟨rfl, rfl, hwidth, hheight, rfl⟩⟩
  simp [hink, Text.paragraphs_expandBreaks]

theorem append (h : b.Records a columns rows textClass cells b') (h' : b'.Records a columns rows textClass more b'') :
    b.Records a columns rows textClass (cells ++ more) b'' := by
  obtain ⟨labels, rfl, htexts, hrooms⟩ := h
  obtain ⟨labels', rfl, htexts', hrooms'⟩ := h'
  refine ⟨labels ++ labels', by simp, ?_, List.forall_mem_append.2 ⟨hrooms, hrooms'⟩⟩
  rw [List.map_append, htexts, htexts', List.filter_append, List.map_append]

end Board.Records

/-- The number of rows is rounded up from a quotient, and there is one at least. -/
theorem recordCells_records (a : Area) (cells : List String) (columns : Nat) (textClass : TextClass) :
    Ends (recordCells a cells columns textClass) b
      (fun _ b' => b.Records a columns (max 1 (cells.length ⌈/⌉ columns)) textClass cells b') fun _ _ => True := by
  rw [recordCells, Nat.ceilDiv_eq_add_pred_div]
  -- the rows are those of all cells, also where only some of them are left to be recorded
  generalize max 1 ((cells.length + columns - 1) / columns) = rows
  refine Ends.bind (?_ : Ends _ b (fun _ b' => b.Records a columns rows textClass cells b') _) fun _ _ h => .pure h
  induction cells generalizing b with
  | nil => exact .pure (.nil b)
  | cons cell cells ih =>
    rw [List.forIn_cons]
    refine Ends.bind
      (?_ : Ends _ b (fun r b' => r = .yield ⟨⟩ ∧ b.Records a columns rows textClass [cell] b') _) ?_
    · split
      next hink =>
        refine .computed_bind (fun width hwidth => ?_) fun _ _ => trivial
        refine .computed_bind (fun height hheight => ?_) fun _ _ => trivial
        exact .get_bind (.change_bind (.pure ⟨rfl, .inked hink hwidth hheight⟩))
      next hink => exact .pure ⟨rfl, .blank (Bool.eq_false_iff.2 hink)⟩
    · rintro _ b' ⟨rfl, hcell⟩
      exact ih.mono_good fun _ _ hcells => hcell.append hcells

/-! ## Shapes -/

/-- A figure in a colour: a rectangle or an outline. -/
def Drawing.IsFigure (fill : Option String) (figure : Element) : Prop :=
  (∃ a radius, Drawing.rectangle a fill radius = .ok figure) ∨ ∃ points, Drawing.polygon points fill = .ok figure

/-- A block with some cells is drawn beside a figure, and the cells are recorded. -/
def Board.Writes (b : Board) (figure : Element) (a : Area) (cells : List String) (columns : Nat)
    (textClass : TextClass) (fragment : Fragment) (b' : Board) : Prop :=
  ∃ block, fragment = [figure, block] ∧ Drawing.textBlock a cells columns textClass.name = .ok block ∧
    b.Records a columns (max 1 (cells.length ⌈/⌉ columns)) textClass cells b'

theorem textBlock_writes (figure : Element) (a : Area) (cells : List String) (columns : Nat) (textClass : TextClass) :
    Ends (do return [figure, ← textBlock a cells columns textClass]) b (b.Writes figure a cells columns textClass)
      fun _ _ => True := by
  refine Ends.bind (?_ : Ends _ b (fun block b' => Drawing.textBlock a cells columns textClass.name = .ok block ∧
    b.Records a columns (max 1 (cells.length ⌈/⌉ columns)) textClass cells b') _) ?_
  · refine (recordCells_records a cells columns textClass).bind fun _ b' hrecords => ⟨?_⟩
    cases hblock : Drawing.textBlock a cells columns textClass.name with
    | ok block => exact ⟨rfl, hrecords⟩
    | error e => exact trivial
  · rintro block b' ⟨hblock, hrecords⟩
    exact .pure ⟨block, rfl, hblock, hrecords⟩

theorem outline_isFigure (command : String) (points : List Point) :
    Ends (outline command points) b (fun figure b' => Drawing.IsFigure b.fill figure ∧ b' = b) fun _ _ => True := by
  unfold outline
  split
  · refine .get_bind ⟨?_⟩
    cases hfigure : Drawing.polygon points b.fill with
    | ok figure => exact ⟨.inr ⟨points, hfigure⟩, rfl⟩
    | error e => exact trivial
  · exact .throw trivial

/-- The columns of a table are those that it is given, or those of the largest square that its cells fill. -/
theorem tableColumns_hasColumns {word : String} {given : Nat} (hgiven : Meaning.columns "Table" word = .ok given)
    (hcells : cells ≠ []) :
    1 ≤ tableColumns given cells ∧ (Shape.table word).HasColumns cells.length (tableColumns given cells) := by
  have hpos : 1 ≤ cells.length.sqrt := Nat.sqrt_pos.2 (List.length_pos_iff.2 hcells)
  by_cases hzero : given = 0
  · rw [tableColumns, if_pos hzero, Nat.max_eq_right hpos]
    refine ⟨hpos, given, hgiven, ?_⟩
    rw [if_pos hzero]
    exact ⟨Nat.sqrt_le _, Nat.lt_succ_sqrt _⟩
  · rw [tableColumns, if_neg hzero]
    refine ⟨Nat.one_le_iff_ne_zero.2 hzero, given, hgiven, ?_⟩
    rw [if_neg hzero]

/-- The cells that have waited in a ring are the same afterwards. -/
theorem tableCells_eq {text : String} (h : tableCells text = .ok cells) : Text.cells text = cells := by
  rcases Nat.lt_or_ge (Text.cells text).length maxCapacity with hlt | hge
  · rw [tableCells_ok hlt] at h
    exact Except.ok.inj h
  · rw [tableCells_error hge] at h
    cases h

namespace ShapeCommand

variable {s : ShapeCommand} {fragment : Fragment}

theorem cells_ne_nil (s : ShapeCommand) : s.cells ≠ [] := by
  unfold cells
  split
  · simpa [Text.cells, Text.parts] using Text.cutAt_ne_nil _ _
  · exact List.cons_ne_nil _ _

/-- A shape is drawn as a figure, and beside it writes its cells in the room that it leaves for them, unless it has no
text. -/
def Writes (s : ShapeCommand) (b : Board) (fragment : Fragment) (b' : Board) : Prop :=
  ∃ figure, Drawing.IsFigure b.fill figure ∧
    ((s.text = "" ∧ fragment = [figure] ∧ b' = b) ∨
      s.text ≠ "" ∧ ∃ a columns, s.HasRoom b.pins a ∧ (1 ≤ columns ∧ s.shape.HasColumns s.cells.length columns) ∧
        b.Writes figure a s.cells columns s.shape.textClass fragment b')

/-- What is no table has its text in one cell. -/
theorem single_of_kind (h : s.shape.kind ≠ .table) : s.cells = [s.text] ∧ s.shape.HasColumns s.cells.length 1 := by
  obtain ⟨shape, first, second, text⟩ := s
  cases shape with
  | table word => exact absurd rfl h
  | _ => exact ⟨rfl, rfl⟩

theorem shapeText_writes (hkind : s.shape.kind ≠ .table) {figure : Element}
    (hfigure : Drawing.IsFigure b.fill figure) (hroom : s.HasRoom b.pins a) :
    Ends (do return figure :: (← shapeText a s.text s.shape.textClass)) b (s.Writes b) fun _ _ => True := by
  rw [shapeText]
  split
  next hempty => exact .pure ⟨figure, hfigure, .inl ⟨String.isEmpty_iff.1 hempty, rfl, rfl⟩⟩
  next hempty =>
    have htext : s.text ≠ "" := fun h => hempty (String.isEmpty_iff.2 h)
    obtain ⟨hcells, hcolumns⟩ := single_of_kind hkind
    rw [bind_assoc, ← hcells]
    refine (textBlock_writes figure a s.cells 1 _).mono_good fun fragment b' h => ?_
    exact ⟨figure, hfigure, .inr ⟨htext, a, 1, hroom, ⟨Nat.le_refl 1, hcolumns⟩, h⟩⟩

theorem drawTable_writes (word first second text : String) :
    Ends (drawTable word ⟨.table word, first, second, text⟩) b (Writes ⟨.table word, first, second, text⟩ b)
      fun _ _ => True := by
  refine .pins_bind (.of_bind (fun bounds hbounds => ?_) fun _ _ => trivial)
  refine .of_bind (fun given hgiven => ?_) fun _ _ => trivial
  refine .get_bind (.computed_bind (fun figure hfigure => ?_) fun _ _ => trivial)
  have hfigure : Drawing.IsFigure b.fill figure := .inl ⟨_, _, hfigure⟩
  split
  next hempty => exact .pure ⟨figure, hfigure, .inl ⟨String.isEmpty_iff.1 hempty, rfl, rfl⟩⟩
  next hempty =>
    have htext : text ≠ "" := fun h => hempty (String.isEmpty_iff.2 h)
    refine .of_bind (fun cells hcells => ?_) fun _ _ => trivial
    obtain rfl := tableCells_eq hcells
    have hcolumns := tableColumns_hasColumns hgiven (cells_ne_nil ⟨.table word, first, second, text⟩)
    refine (textBlock_writes figure bounds.area _ _ .box).mono_good fun fragment b' h => ?_
    exact ⟨figure, hfigure, .inr ⟨htext, bounds.area, _, ⟨bounds, hbounds, rfl⟩, hcolumns, h⟩⟩

/-- A shape writes its text, or fails. -/
theorem draw_writes (s : ShapeCommand) : Ends s.draw b (s.Writes b) fun _ _ => True := by
  have hgiven {α : Type} {m : Meaning α} {k : α → Work Fragment}
      (hk : ∀ x, m = .ok x → Ends (k x) b (s.Writes b) fun _ _ => True) :
      Ends (of m >>= k) b (s.Writes b) fun _ _ => True :=
    .of_bind hk fun _ _ => trivial
  have hrectangle {radius : Option Binary64} {a : Area} {k : Element → Work Fragment}
      (hk : ∀ figure, Drawing.IsFigure b.fill figure → Ends (k figure) b (s.Writes b) fun _ _ => True) :
      Ends (MonadState.get >>= fun b : Board => ofComputed (Drawing.rectangle a b.fill radius) >>= k) b
        (s.Writes b) fun _ _ => True :=
    .get_bind (.computed_bind (fun figure h => hk figure (.inl ⟨a, radius, h⟩)) fun _ _ => trivial)
  have houtline {command : String} {points : List Point} {k : Element → Work Fragment}
      (hk : ∀ figure, Drawing.IsFigure b.fill figure → Ends (k figure) b (s.Writes b) fun _ _ => True) :
      Ends (outline command points >>= k) b (s.Writes b) fun _ _ => True := by
    refine (outline_isFigure command points).bind fun figure b' h => ?_
    obtain ⟨hfigure, rfl⟩ := h
    exact hk figure hfigure
  obtain ⟨shape, first, second, text⟩ := s
  cases shape with
  | box small =>
    cases small <;>
      exact .pins_bind (hgiven fun bounds h => hrectangle fun _ hfigure =>
        shapeText_writes (by simp [Shape.kind]) hfigure ⟨bounds, h, rfl⟩)
  | table word => exact drawTable_writes word first second text
  | pill =>
    exact .pins_bind (hgiven fun bounds h => hrectangle fun _ hfigure =>
      shapeText_writes (by simp [Shape.kind]) hfigure ⟨bounds, h, rfl⟩)
  | hex =>
    exact .pins_bind (hgiven fun bounds h => houtline fun _ hfigure =>
      shapeText_writes (by simp [Shape.kind]) hfigure ⟨bounds, h, rfl⟩)
  | tiltBox word =>
    exact hgiven fun skew hskew => .pins_bind (hgiven fun bounds h => houtline fun _ hfigure =>
      shapeText_writes (by simp [Shape.kind]) hfigure ⟨bounds, h, skew, hskew, rfl⟩)
  | trapBox top bottom =>
    exact hgiven fun _ _ => hgiven fun _ _ => .pins_bind (hgiven fun bounds h => houtline fun _ hfigure =>
      shapeText_writes (by simp [Shape.kind]) hfigure ⟨bounds, h, rfl⟩)
  | notchBox outward side =>
    cases outward <;>
      exact hgiven fun _ _ => .pins_bind (hgiven fun bounds h => houtline fun _ hfigure =>
        shapeText_writes (by simp [Shape.kind]) hfigure ⟨bounds, h, rfl⟩)

/-- A shape that is drawn lays out its text. -/
theorem draw_laysOut (htext : s.text ≠ "") (h : s.draw b = .ok fragment b') :
    ∃ figure block a columns grid labels, fragment = [figure, block] ∧
      b' = { b with labels := b.labels ++ labels } ∧ s.LaysOut b.pins b.lineNumber a columns grid block labels := by
  obtain ⟨figure, -, ⟨hempty, -⟩ | ⟨-, a, columns, hroom, ⟨hpos, hcolumns⟩, hwrites⟩⟩ := s.draw_writes.ok h
  · exact absurd hempty htext
  obtain ⟨block, rfl, hblock, labels, rfl, htexts, hrooms⟩ := hwrites
  have hrows := (Drawing.fillsRows_rowsOf hpos s.cells_ne_nil).map (Text.parts Text.cutBreaks)
  have hcount : max 1 (s.cells.length ⌈/⌉ columns) =
      ((Drawing.rowsOf columns s.cells).map (List.map (Text.parts Text.cutBreaks))).length := by
    -- a shape has a cell at least, and so a row
    rw [hrows.length, List.length_map]
    refine Nat.max_eq_right ?_
    obtain ⟨full, last, hsizes, -⟩ := hrows.sizes
    rw [← List.length_map (f := Text.parts Text.cutBreaks), ← hrows.length, hsizes, List.length_append]
    exact Nat.le_add_left _ _
  rw [hcount] at hrooms
  exact ⟨figure, block, a, columns, _, labels, rfl, rfl, hroom, hpos, hcolumns, Drawing.textBlock_shows hblock, hrows,
    htexts, hrooms⟩

end ShapeCommand

/-! ## Lines -/

/-- The kind of the shape that a command draws between given pins or between its own. -/
def Verb.shapeKind? : Verb → Option ShapeKind
  | .shape kind | .auto kind => some kind
  | _ => none

/-- The text behind the words that a command cannot do without. -/
def Verb.trailingText (verb : Verb) (line : String) : String :=
  " ".intercalate ((Text.tokens line).drop (verb.needs + 1))

/-- The shape that a command draws, be it the shape's own command or one that sets its pins as well. -/
def Command.shape? : Command → Option ShapeCommand
  | .shape s => some s
  | .auto c => c.shape.toOption
  | _ => none

/-- The shape that a line draws. -/
def shapeOn (line : String) : Option ShapeCommand := (Command.ofLine line).toOption.bind Command.shape?

variable {kind : ShapeKind} {words : List String} {number : Nat} {line : String} {verb : Verb} {fragment : Fragment}

theorem ShapeCommand.ofWords_eq_some {s : ShapeCommand} (h : ShapeCommand.ofWords kind words = some s) :
    s.shape.kind = kind ∧ s.text = " ".intercalate (words.drop (2 + kind.parameters)) := by
  revert h
  fun_cases ShapeCommand.ofWords kind words <;> intro h <;> cases h <;> exact ⟨rfl, rfl⟩

theorem AutoCommand.ofWords_eq_some {c : AutoCommand} (h : AutoCommand.ofWords kind words = some c) :
    c.kind = kind ∧ c.rest = words.drop (5 + kind.parameters) := by
  revert h
  fun_cases AutoCommand.ofWords kind words <;> intro h <;> cases h
  exact ⟨rfl, by rw [← List.drop_drop]; rfl⟩

/-- Behind the corners and the parameters of a shape stands its text. -/
theorem AutoCommand.IsSound.drop_shapeWords {c : AutoCommand} (hc : c.IsSound) :
    c.shapeWords.drop (2 + c.kind.parameters) = c.rest := by
  rw [shapeWords]
  refine List.drop_left' ?_
  rw [← hc.parameters]
  split <;> simp <;> omega

/-- A line that draws a shape has drawn it at the end, with its trailing text, and has added no label before. -/
theorem exists_shapeOn (hverb : verbOf line = some verb) (hkind : verb.shapeKind? = some kind)
    (h : executeAt number line b = .ok fragment b') :
    ∃ s b₁, shapeOn line = some s ∧ (s.shape.kind = kind ∧ s.text = verb.trailingText line) ∧
      (b₁.labels = b.labels ∧ b₁.lineNumber = number) ∧ s.draw b₁ = .ok fragment b' := by
  rw [executeAt_eq] at h
  obtain ⟨c, hc, hrun⟩ := of_bind_ok h
  obtain ⟨first, words, htokens, hlt, hwords⟩ := Command.ofLine_words hverb hc
  rw [Verb.trailingText, htokens, List.drop_succ_cons]
  cases verb with
  | shape kind' =>
    cases hkind
    obtain ⟨s, hs, rfl⟩ := Option.map_eq_some_iff.1 hwords
    exact ⟨s, b.onLine number, by rw [shapeOn, hc]; rfl, ShapeCommand.ofWords_eq_some hs, ⟨rfl, rfl⟩, hrun⟩
  | auto kind' =>
    cases hkind
    obtain ⟨auto, hauto, rfl⟩ := Option.map_eq_some_iff.1 hwords
    obtain ⟨hsound, -⟩ := AutoCommand.ofWords_spec hauto (by omega)
    obtain ⟨rfl, hrest⟩ := AutoCommand.ofWords_eq_some hauto
    obtain ⟨s, hs, -, -⟩ := AutoCommand.ofWords_shapeWords hsound
    obtain ⟨b₁, hpins, hdraw⟩ := AutoCommand.exists_draw hsound hs hrun
    obtain ⟨hshape, htext⟩ := ShapeCommand.ofWords_eq_some hs
    have hon : shapeOn line = auto.shape.toOption := by
      rw [shapeOn, hc]
      rfl
    rw [AutoCommand.shape_eq hsound hs] at hon
    rw [hsound.drop_shapeWords, hrest] at htext
    exact ⟨s, b₁, hon, ⟨hshape, htext⟩, AutoCommand.setPins_labels hpins, hdraw⟩
  | _ => cases hkind

/-- A line that draws a shape with a text draws a figure and a block and adds labels. The block shows the cells in rows,
all of them in order and all rows full but the last; and there is one label for each cell that is not blank, with the
paragraphs that the cell is shown in and with the room of one of the columns and of one of the rows that are shown. -/
theorem executeAt_laysOut (hverb : verbOf line = some verb) (hkind : verb.shapeKind? = some kind)
    (htext : verb.trailingText line ≠ "") (h : executeAt number line b = .ok fragment b') :
    ∃ s figure block a columns grid labels,
      (shapeOn line = some s ∧ s.shape.kind = kind ∧ s.text = verb.trailingText line) ∧
        fragment = [figure, block] ∧ b'.labels = b.labels ++ labels ∧
          s.LaysOut b'.pins number a columns grid block labels := by
  obtain ⟨s, b₁, hon, ⟨hshape, hs⟩, ⟨hlabels, rfl⟩, hdraw⟩ := exists_shapeOn hverb hkind h
  obtain ⟨figure, block, a, columns, grid, labels, rfl, rfl, hlays⟩ := s.draw_laysOut (hs ▸ htext) hdraw
  exact ⟨s, figure, block, a, columns, grid, labels, ⟨hon, hshape, hs⟩, rfl, congrArg (· ++ labels) hlabels, hlays⟩

/-- A table of five cells, one of them blank, without a count of columns. -/
def fiveCells : ShapeCommand := ⟨.table "0", "t_tl", "t_br", "one\\ntwo| |three|four|five"⟩

/-- The five cells stand in two columns and three rows, and the blank one has no label. -/
theorem executeAt_laysOut_fiveCells :
    ∃ (figure block : Element) (a : Area) (grid : List (List (List String))) (labels : List Label) (b' : Board),
      executeAt 7 "AutoTable t 0 0 300 90 0 one\\ntwo| |three|four|five" Board.start = .ok [figure, block] b' ∧
        fiveCells.LaysOut b'.pins 7 a 2 grid block labels ∧ grid.length = 3 ∧ b'.labels = labels ∧
          labels.map (fun l => Text.paragraphs l.text) = [["one", "two"], ["three"], ["four"], ["five"]] := by
  have hverb : verbOf "AutoTable t 0 0 300 90 0 one\\ntwo| |three|four|five" = some (.auto .table) := by decide +kernel
  have hcount : labelCount (executeAt 7 "AutoTable t 0 0 300 90 0 one\\ntwo| |three|four|five") Board.start = some 4 := by
    decide +kernel
  obtain ⟨fragment, b', h, -⟩ := exists_of_labelCount hcount
  obtain ⟨s, figure, block, a, columns, grid, labels, ⟨hon, -, -⟩, rfl, hlabels, hlays⟩ :=
    executeAt_laysOut hverb rfl (by decide +kernel) h
  have hshape : shapeOn "AutoTable t 0 0 300 90 0 one\\ntwo| |three|four|five" = some fiveCells := by decide +kernel
  obtain rfl := Option.some.inj (hshape.symm.trans hon)
  have hcells : fiveCells.cells = ["one\\ntwo", " ", "three", "four", "five"] := by decide +kernel
  have htwo : columns = 2 := by
    obtain ⟨given, hgiven, hsquare⟩ := hlays.count
    have hzero : Meaning.columns "Table" "0" = .ok 0 := by decide +kernel
    obtain rfl := Except.ok.inj (hzero.symm.trans hgiven)
    rw [hcells, if_pos rfl] at hsquare
    obtain ⟨hle, hlt⟩ := hsquare
    have hlow : columns < 3 := Nat.mul_self_lt_mul_self_iff.1 (Nat.lt_of_le_of_lt hle (by decide))
    have hhigh : 2 < columns + 1 := Nat.mul_self_lt_mul_self_iff.1 (Nat.lt_of_le_of_lt (by decide) hlt)
    omega
  subst htwo
  refine ⟨figure, block, a, grid, labels, b', h, hlays, ?_, hlabels, ?_⟩
  · rw [hlays.rows.length, List.length_map, hcells]
    decide
  · rw [hlays.texts, hcells]
    decide +kernel

end Pinboard
