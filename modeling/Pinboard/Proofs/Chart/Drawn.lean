import Pinboard.Proofs.Chart.Cells
import Pinboard.Proofs.Drawing.Forms

/-!
# What each line draws

A program that is carried out draws what its lines draw, one after the other (`Board.drawn`): the labels of
its chart are those of the lines, each with the number of its line (`Drawn.labels_line`), and its fragments
are those of the lines that draw any (`Chart.run_drawn`). A line between two pins can be drawn with any
identifier, with the same labels (`LineCommand.drawWith_renamed`); what any other command draws has the forms of
the elements of shapes, and no identifier (`Command.run_figures`).
-/

namespace Pinboard

open Work

/-- Whether a fragment has an identifier. -/
def isNumbered (fragment : Fragment) : Bool := fragment.any Element.hasId

/-! ## Labels and the lines that they stand on -/

/-- Labels are added for the line that is being carried out, which stays the same. -/
structure Board.Marks (b b' : Board) : Prop where
  labels : ∃ labels : List Label, (∀ l ∈ labels, l.line = b.lineNumber) ∧ b'.labels = b.labels ++ labels
  lineNumber : b'.lineNumber = b.lineNumber

namespace Board.Marks

variable {b b' b'' : Board}

theorem refl (b : Board) : b.Marks b := ⟨⟨[], by simp, by simp⟩, rfl⟩

theorem trans (h : b.Marks b') (h' : b'.Marks b'') : b.Marks b'' := by
  obtain ⟨⟨labels, hlines, hlabels⟩, hnumber⟩ := h
  obtain ⟨⟨labels', hlines', hlabels'⟩, hnumber'⟩ := h'
  refine ⟨⟨labels ++ labels', ?_, ?_⟩, hnumber'.trans hnumber⟩
  · intro l hl
    rcases List.mem_append.1 hl with hl | hl
    · exact hlines l hl
    · exact (hlines' l hl).trans hnumber
  · rw [hlabels', hlabels, List.append_assoc]

/-- One more label for the line. -/
theorem concat (h : b.Marks b') {l : Label} (hl : l.line = b'.lineNumber) :
    b.Marks { b' with labels := b'.labels ++ [l] } := by
  refine h.trans ⟨⟨[l], ?_, rfl⟩, rfl⟩
  simpa using hl

/-- What adds no labels marks none. -/
theorem of_labels (hlabels : b'.labels = b.labels) (hnumber : b'.lineNumber = b.lineNumber) : b.Marks b' :=
  ⟨⟨[], by simp, by simp [hlabels]⟩, hnumber⟩

end Board.Marks

/-! ## Shapes -/

/-- What holds of every element of which shapes are put together in a fill colour. -/
structure Paints (fill : Option String) (P : Element → Prop) : Prop where
  rectangle : ∀ {a radius figure}, Drawing.rectangle a fill radius = .ok figure → P figure
  polygon : ∀ {points figure}, Drawing.polygon points fill = .ok figure → P figure
  textBlock : ∀ {a texts columns css block}, Drawing.textBlock a texts columns css = .ok block → P block

/-- The forms of the elements have nothing to do with the colour. -/
theorem paints_forms (fill : Option String) : Paints fill (·.HasForms shapeForms) :=
  ⟨Drawing.rectangle_forms, Drawing.polygon_forms, Drawing.textBlock_forms⟩

section
variable {b : Board} {P : Element → Prop}

/-- A fragment of elements for which something holds, and labels for the line. -/
def Figures (P : Element → Prop) (b : Board) (fragment : Fragment) (b' : Board) : Prop :=
  (∀ e ∈ fragment, P e) ∧ b.Marks b'

/-- A shape is put together of such elements, and its labels stand on its line. -/
theorem ShapeCommand.draw_marks (hP : Paints b.fill P) (s : ShapeCommand) :
    Ends s.draw b (Figures P b) fun _ _ => True := by
  refine s.draw_writes.mono_good fun fragment b' h => ?_
  obtain ⟨figure, hfigure, hwrites⟩ := h
  have hpainted : P figure := by
    rcases hfigure with ⟨a, radius, h⟩ | ⟨points, h⟩
    · exact hP.rectangle h
    · exact hP.polygon h
  rcases hwrites with ⟨-, rfl, rfl⟩ | ⟨-, a, columns, -, -, block, rfl, hblock, labels, rfl, -, hrooms⟩
  · exact ⟨List.forall_mem_singleton.2 hpainted, .refl _⟩
  · refine ⟨List.forall_mem_cons.2 ⟨hpainted, List.forall_mem_singleton.2 (hP.textBlock hblock)⟩, ?_⟩
    exact ⟨⟨labels, fun l hl => (hrooms l hl).line, rfl⟩, rfl⟩

/-- The same holds of a shape that sets its own pins, which changes no colour. -/
theorem AutoCommand.draw_marks (hP : Paints b.fill P) {c : AutoCommand} (hc : c.IsSound) :
    Ends c.draw b (Figures P b) fun _ _ => True := by
  obtain ⟨s, hs, -, -⟩ := ofWords_shapeWords hc
  constructor
  cases h : c.draw b with
  | error fault b' => exact trivial
  | ok fragment b' =>
    obtain ⟨b₁, hpins, hdraw⟩ := exists_draw hc hs h
    obtain ⟨hlabels, hnumber⟩ := setPins_labels hpins
    have hfill : b₁.fill = b.fill := ((setPins_ends c).ok hpins).among.same.1
    obtain ⟨hfigures, hmarks⟩ := (s.draw_marks (hfill ▸ hP)).ok hdraw
    exact ⟨hfigures, (Board.Marks.of_labels hlabels hnumber).trans hmarks⟩

end

/-! ## Lines between pins -/

/-- The identifier with a number. -/
def lineId (number : Nat) : String := "curve_" ++ Nat.repr number

namespace LineCommand

/-- A line between two points with a given identifier. -/
def drawWith (l : LineCommand) (id : String) (start finish : Point) : Work Fragment := do
  let (first, last, rightToLeft) := orient l.kind.flipped start finish
  let style : Drawing.LineStyle := ⟨l.kind.arrow, rightToLeft, l.kind.flipped⟩
  let path ← ofComputed (Drawing.linePath id first last style (← get).stroke)
  if l.text.isEmpty then return [path]
  let length := Binary64.hypotenuse (last.x - first.x) (last.y - first.y)
  let label := String.ofList (Text.expandBreaks l.text.toList)
  record ⟨.line, label, .line, length, 0, (← get).lineNumber⟩
  return [path, Drawing.lineText id (String.ofList (l.text.toList.map lineTextChar)) style]

/-- A line is drawn with the next identifier. -/
theorem draw_eq (l : LineCommand) :
    l.draw = (do
      let start ← of (Meaning.pin (← pins) l.kind.title l.start)
      let finish ← of (Meaning.pin (← pins) l.kind.title l.finish)
      let id ← nextLineId
      l.drawWith id start finish) := rfl

variable {l : LineCommand} {id : String} {start finish : Point} {b b' c : Board} {fragment : Fragment}

/-- With the same identifier a line is the same whatever the number of the next one is. -/
theorem drawWith_acts : Acts { draws := true } (l.drawWith id start finish) := by
  unfold drawWith
  generalize orient l.kind.flipped start finish = path
  obtain ⟨first, last, rightToLeft⟩ := path
  refine .get_bind (fun b b' h => ?_) fun b => .bind (.ofComputed _) fun path => ?_
  · simp only [h.stroke]
  split
  · exact .pure _
  · refine .get_bind (fun b b' h => ?_) fun b => .bind (record_acts rfl _) fun _ => .pure _
    simp only [h.lineNumber]

/-- With another identifier a line is drawn as before, but for that identifier. -/
theorem drawWith_renamed (h : l.drawWith id start finish b = .ok fragment b') (id' : String) :
    l.drawWith id' start finish b = .ok (fragment.map (.withId id')) b' ∧ isNumbered fragment = true ∧ b.Marks b' := by
  unfold drawWith at h ⊢
  generalize orient l.kind.flipped start finish = path at h ⊢
  obtain ⟨first, last, rightToLeft⟩ := path
  change (ofComputed (Drawing.linePath id first last _ b.stroke) >>= _) b = _ at h
  change (ofComputed (Drawing.linePath id' first last _ b.stroke) >>= _) b = _ ∧ _
  cases hpath : Drawing.linePath id first last ⟨l.kind.arrow, rightToLeft, l.kind.flipped⟩ b.stroke with
  | error e =>
    rw [hpath] at h
    cases h
  | ok path =>
    obtain ⟨hrenamed, hid⟩ := Drawing.linePath_withId id' hpath
    rw [hpath] at h
    rw [hrenamed]
    by_cases htext : l.text.isEmpty = true
    · simp only [htext, if_true] at h ⊢
      cases h
      exact ⟨rfl, by simp [isNumbered, hid], .refl b⟩
    · simp only [htext] at h ⊢
      cases h
      refine ⟨?_, by simp [isNumbered, hid], .concat (.refl b) rfl⟩
      rw [List.map_cons, List.map_cons, List.map_nil, Drawing.lineText_withId]
      rfl

/-- A line is its path in the stroke colour; with a text it is also the text, of which there is a label. -/
theorem drawWith_ok (h : l.drawWith id start finish b = .ok fragment b') :
    ∃ first last style path, Drawing.linePath id first last style b.stroke = .ok path ∧
      ((l.text = "" ∧ fragment = [path] ∧ b' = b) ∨
        (l.text ≠ "" ∧ fragment = [path, Drawing.lineText id (String.ofList (l.text.toList.map lineTextChar)) style] ∧
          ∃ label : Label, label.text = String.ofList (Text.expandBreaks l.text.toList) ∧
            b' = { b with labels := b.labels ++ [label] })) := by
  unfold drawWith at h
  generalize orient l.kind.flipped start finish = ends at h
  obtain ⟨first, last, rightToLeft⟩ := ends
  obtain ⟨path, hpath, h⟩ := ofComputed_bind_ok (b := b) h
  refine ⟨first, last, _, path, hpath, ?_⟩
  split at h
  next htext =>
    cases h
    exact .inl ⟨String.isEmpty_iff.1 htext, rfl, rfl⟩
  next htext =>
    cases h
    exact .inr ⟨fun hempty => htext (String.isEmpty_iff.2 hempty), rfl, _, rfl, rfl⟩

/-- A line whose pins are there is drawn between them with the next identifier. -/
theorem draw_between (hstart : Meaning.pin b.pins l.kind.title l.start = .ok start)
    (hfinish : Meaning.pin b.pins l.kind.title l.finish = .ok finish) :
    l.draw b = l.drawWith (lineId b.lineCounter) start finish { b with lineCounter := b.lineCounter + 1 } := by
  rw [draw_eq]
  change (of (Meaning.pin b.pins l.kind.title l.start) >>= _) b = _
  rw [hstart]
  change (of (Meaning.pin b.pins l.kind.title l.finish) >>= _) b = _
  rw [hfinish]
  rfl

theorem exists_drawWith (h : l.draw b = .ok fragment b') :
    ∃ start finish, Meaning.pin b.pins l.kind.title l.start = .ok start ∧
      Meaning.pin b.pins l.kind.title l.finish = .ok finish ∧
        l.drawWith (lineId b.lineCounter) start finish { b with lineCounter := b.lineCounter + 1 } =
          .ok fragment b' := by
  have hdraw := h
  rw [draw_eq] at hdraw
  obtain ⟨start, hstart, hdraw⟩ := of_bind_ok (b := b) hdraw
  obtain ⟨finish, hfinish, -⟩ := of_bind_ok (b := b) hdraw
  exact ⟨start, finish, hstart, hfinish, (draw_between hstart hfinish).symm.trans h⟩

end LineCommand

/-! ## All lines -/

section
variable {b b' : Board} {fragment : Fragment}

/-- The labels of every command stand on the line that is being carried out. -/
theorem Command.run_marks {c : Command} (hc : c.IsSound) (h : c.run b = .ok fragment b') : b.Marks b' := by
  have hquiet (hdraws : c.footprint.draws = false) : b.Marks b' := by
    obtain ⟨e, he, rfl, -⟩ := (run_acts hc).alike_of_ok h (.refl _ b)
    refine .of_labels ?_ rfl
    rw [Board.apply, he.labels hdraws, List.append_nil]
  cases c with
  | shape s => exact ((s.draw_marks (paints_forms _)).ok h).2
  | auto a => exact ((AutoCommand.draw_marks (paints_forms _) hc).ok h).2
  | line l =>
    obtain ⟨start, finish, -, -, hdraw⟩ := l.exists_drawWith h
    obtain ⟨-, -, hlabels, hnumber⟩ := l.drawWith_renamed hdraw ""
    exact ⟨hlabels, hnumber⟩
  | _ => exact hquiet rfl

/-- All commands but those of lines between pins draw such elements of shapes, if any. -/
theorem Command.run_paints {P : Element → Prop} (hP : Paints b.fill P) {c : Command} (hc : c.IsSound)
    (hcounts : c.footprint.counts = false) (h : c.run b = .ok fragment b') : ∀ e ∈ fragment, P e := by
  have hquiet {w : Work Unit} (h : (w >>= fun _ => pure ([] : Fragment)) b = .ok fragment b') :
      ∀ e ∈ fragment, P e := by
    obtain ⟨_, b₁, -, h⟩ := exists_of_bind_ok h
    cases h
    nofun
  cases c with
  | shape s => exact ((s.draw_marks hP).ok h).1
  | auto a => exact ((AutoCommand.draw_marks hP hc).ok h).1
  | line l => cases hcounts
  | _ => exact hquiet h

/-- They have the forms of those elements. -/
theorem Command.run_figures {c : Command} (hc : c.IsSound) (hcounts : c.footprint.counts = false)
    (h : c.run b = .ok fragment b') : ∀ e ∈ fragment, e.HasForms shapeForms :=
  run_paints (paints_forms _) hc hcounts h

/-- What has the forms of shapes has no identifier. -/
theorem isNumbered_eq_false (h : ∀ e ∈ fragment, e.HasForms shapeForms) : isNumbered fragment = false := by
  rw [isNumbered, List.any_eq_false]
  intro e he
  simp [Drawing.hasId_of_forms (h e he)]

/-- A line that is carried out adds labels with its number. -/
theorem executeAt_marks {number : Nat} {line : String} (h : executeAt number line b = .ok fragment b') :
    ∃ labels : List Label, (∀ l ∈ labels, l.line = number) ∧ b'.labels = b.labels ++ labels := by
  rw [executeAt_eq] at h
  obtain ⟨c, hc, hrun⟩ := of_bind_ok h
  exact (Command.run_marks (Command.ofLine_spec hc).1 hrun).labels

end

/-! ## All of a program -/

/-- What a line of a program draws. -/
structure Drawn where
  number : Nat
  line : String
  fragment : Fragment
  labels : List Label

/-- What a line draws, and the board after it, unless it fails. -/
def Board.draws (b : Board) (line : Nat × String) : Option (Drawn × Board) :=
  match executeAt line.1 line.2 b with
  | .ok fragment b' => some (⟨line.1, line.2, fragment, b'.labels.drop b.labels.length⟩, b')
  | .error _ _ => none

/-- What each of some lines draws, up to the first one that fails. -/
def Board.drawn (b : Board) : List (Nat × String) → List Drawn
  | [] => []
  | line :: lines => (b.draws line).elim [] fun next => next.1 :: next.2.drawn lines

/-- What each command line of a program draws. -/
def drawnBy (program : String) : List Drawn := Board.start.drawn (commandLines program)

/-- Whether a line draws an element. -/
def Drawn.isVisible (d : Drawn) : Bool := !d.fragment.isEmpty

/-- The fragments of the lines that draw any. -/
def fragmentsOf (drawn : List Drawn) : List Fragment := (drawn.filter Drawn.isVisible).map Drawn.fragment

variable {b b' : Board} {lines : List (Nat × String)}

theorem Board.drawn_cons (b : Board) (line : Nat × String) (lines : List (Nat × String)) :
    b.drawn (line :: lines) = (b.draws line).elim [] fun next => next.1 :: next.2.drawn lines := rfl

theorem Board.drawn_cons_of_ok {number : Nat} {line : String} {fragment : Fragment}
    (h : executeAt number line b = .ok fragment b') :
    b.drawn ((number, line) :: lines) =
      ⟨number, line, fragment, b'.labels.drop b.labels.length⟩ :: b'.drawn lines := by
  have hdraws : b.draws (number, line) = some (⟨number, line, fragment, b'.labels.drop b.labels.length⟩, b') := by
    unfold draws
    simp only [h]
  rw [drawn_cons, hdraws, Option.elim_some]

theorem Board.drawn_cons_of_error {number : Nat} {line : String} {fault : Fault}
    (h : executeAt number line b = .error fault b') : b.drawn ((number, line) :: lines) = [] := by
  have hdraws : b.draws (number, line) = none := by
    unfold draws
    simp only [h]
  rw [drawn_cons, hdraws, Option.elim_none]

/-- The labels that a line draws have its number. -/
theorem Drawn.labels_line {d : Drawn} (h : d ∈ b.drawn lines) : ∀ l ∈ d.labels, l.line = d.number := by
  induction lines generalizing b with
  | nil => cases h
  | cons line lines ih =>
    obtain ⟨number, line⟩ := line
    cases hline : executeAt number line b with
    | error fault b' =>
      rw [Board.drawn_cons_of_error hline] at h
      cases h
    | ok fragment b' =>
      rw [Board.drawn_cons_of_ok hline] at h
      rcases List.mem_cons.1 h with rfl | h
      · obtain ⟨labels, hlines, hlabels⟩ := executeAt_marks hline
        simpa [hlabels] using hlines
      · exact ih h

/-- The labels of a chart are those of its lines, and its fragments are those of the lines that draw any. -/
theorem Chart.run_drawn {chart chart' : Chart} (h : chart.run lines = .ok chart') :
    (chart.board.drawn lines).map (fun d => (d.number, d.line)) = lines ∧
      chart'.board.labels = chart.board.labels ++ (chart.board.drawn lines).flatMap Drawn.labels ∧
        chart'.fragments = chart.fragments ++ fragmentsOf (chart.board.drawn lines) := by
  induction lines generalizing chart with
  | nil =>
    cases h
    simp [Board.drawn, fragmentsOf]
  | cons line lines ih =>
    obtain ⟨number, line⟩ := line
    cases hline : executeAt number line chart.board with
    | error fault b' => cases (run_cons_of_error (step_of_error hline) lines).symm.trans h
    | ok fragment b' =>
      rw [run_cons_of_ok (step_of_ok hline)] at h
      obtain ⟨hlines, hlabels, hfragments⟩ := ih h
      obtain ⟨labels, -, hadds⟩ := executeAt_marks hline
      rw [Board.drawn_cons_of_ok hline]
      refine ⟨?_, ?_, ?_⟩
      · rw [List.map_cons, hlines]
      · rw [hlabels, hadds]
        simp
      · rw [hfragments]
        cases fragment <;> simp [fragmentsOf, Drawn.isVisible]

/-- A program that is carried out draws what its lines draw. -/
theorem interpret_drawn {program : String} {chart : Chart} (h : interpret program = .ok chart) :
    (drawnBy program).map (fun d => (d.number, d.line)) = commandLines program ∧
      chart.board.labels = (drawnBy program).flatMap Drawn.labels ∧ chart.fragments = fragmentsOf (drawnBy program) := by
  have hdrawn : Chart.blank.board.drawn (commandLines program) = drawnBy program := rfl
  have hlabels : Chart.blank.board.labels = [] := rfl
  have hfragments : Chart.blank.fragments = [] := rfl
  have hrun := Chart.run_drawn h
  rw [hdrawn, hlabels, hfragments, List.nil_append, List.nil_append] at hrun
  exact hrun

end Pinboard
