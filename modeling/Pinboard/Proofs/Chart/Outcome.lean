import Pinboard.Chart.Document
import Pinboard.Proofs.Chart.Session

/-!
# How a program ends

A program is carried out, or it stops at one of its lines with a complaint about that line, or it stops
there with a breakdown. Main statement: when it ends in which way, and that making the document of the chart
adds no other (`interpret_error`).
-/

namespace Pinboard

open Pinboard.Ring (maxCapacity)

/-! ## Lines that break -/

/-- The columns of the table on a line are at fault, and with one column and no text instead the command
could be carried out; or the line has more words than there is room for. -/
def Breaks (b : Board) (line : String) (bd : Breakdown) : Prop :=
  (∃ c, Command.ofLine line = .ok c ∧ c.fault = some bd ∧ ∃ fragment b', c.plain.run b = .ok fragment b') ∨
    maxCapacity ≤ (Text.tokens line).length ∧ bd = .words (.tooManyElements (Text.tokens line).length)

variable {b : Board} {number : Nat} {line : String} {bd : Breakdown}

theorem execute_of_ok {c : Command} (h : Command.ofLine line = .ok c) : execute line b = c.run b := by
  rw [execute, h]
  rfl

theorem execute_of_error {f : Fault} (h : Command.ofLine line = .error f) : execute line b = .error f b := by
  rw [execute, h]
  rfl

theorem execute_breaks_iff (hb : b.IsFinite) :
    (∃ b', execute line b = .error (.breakdown bd) b') ↔ Breaks b line bd := by
  constructor
  · rintro ⟨b', h⟩
    rcases Command.ofLine_cases line with ⟨c, hc⟩ | ⟨hge, hc⟩ | ⟨c, hc, hsound, -⟩
    · cases (execute_of_error hc).symm.trans h
    · cases (execute_of_error hc).symm.trans h
      exact .inr ⟨hge, rfl⟩
    · exact .inl ⟨c, hc, (Command.run_breaks_iff hb hsound bd).1 ⟨b', (execute_of_ok hc).symm.trans h⟩⟩
  · rintro (⟨c, hc, hplain⟩ | ⟨hge, rfl⟩)
    · rw [execute_of_ok hc]
      exact (Command.run_breaks_iff hb (Command.ofLine_spec hc).1 bd).2 hplain
    · refine ⟨b, execute_of_error ?_⟩
      rw [Command.ofLine_eq, if_pos hge]

/-! ## Where a program stops -/

namespace Chart

variable {chart : Chart} {fault : ProgramFault}

theorem step_error_iff :
    chart.step (number, line) = .error fault ↔
      ∃ f b', executeAt number line chart.board = .error f b' ∧ fault = f.onLine number line := by
  cases h : executeAt number line chart.board with
  | ok fragment b' =>
    rw [step_of_ok h]
    simp
  | error f b' =>
    rw [step_of_error h]
    constructor
    · intro hf
      cases hf
      exact ⟨f, b', rfl, rfl⟩
    · rintro ⟨f', b'', heq, rfl⟩
      cases heq
      rfl

/-- A run fails where its first line fails. -/
theorem run_error_iff {lines : List (Nat × String)} :
    chart.run lines = .error fault ↔
      ∃ before line after chart', lines = before ++ line :: after ∧ chart.run before = .ok chart' ∧
        chart'.step line = .error fault := by
  induction lines generalizing chart with
  | nil =>
    constructor
    · intro h
      cases h
    · rintro ⟨before, line, after, chart', h, -⟩
      cases before <;> cases h
  | cons line lines ih =>
    constructor
    · intro h
      cases hstep : chart.step line with
      | error f =>
        rw [run_cons_of_error hstep] at h
        exact ⟨[], line, lines, chart, rfl, rfl, hstep.trans h⟩
      | ok next =>
        rw [run_cons_of_ok hstep] at h
        obtain ⟨before, line', after, chart', rfl, hbefore, hfault⟩ := ih.1 h
        exact ⟨line :: before, line', after, chart', rfl, (run_cons_of_ok hstep before).trans hbefore, hfault⟩
    · rintro ⟨before, line', after, chart', h, hbefore, hfault⟩
      cases before with
      | nil =>
        cases h
        cases hbefore
        exact run_cons_of_error hfault lines
      | cons _ before =>
        cases h
        cases hstep : chart.step line with
        | error f => cases (run_cons_of_error hstep before).symm.trans hbefore
        | ok next =>
          rw [run_cons_of_ok hstep] at hbefore ⊢
          exact ih.2 ⟨before, line', after, chart', rfl, hbefore, hfault⟩

end Chart

/-- A program comes to a line with a board: all lines before it are carried out. -/
def Reaches (program : String) (number : Nat) (line : String) (b : Board) : Prop :=
  ∃ before after chart, commandLines program = before ++ (number, line) :: after ∧
    Chart.blank.run before = .ok chart ∧ b = { chart.board with lineNumber := number }

theorem Reaches.isFinite {program : String} (h : Reaches program number line b) : b.IsFinite := by
  obtain ⟨before, after, chart, -, hrun, rfl⟩ := h
  exact (Chart.run_adds Board.start_isFinite hrun).1.onLine number

/-- A program fails with the fault of the line that it comes to. -/
theorem interpret_error_iff {program : String} {fault : ProgramFault} :
    interpret program = .error fault ↔
      ∃ number line b, Reaches program number line b ∧
        ∃ f b', execute line b = .error f b' ∧ fault = f.onLine number line := by
  rw [interpret, Chart.run_error_iff]
  constructor
  · rintro ⟨before, ⟨number, line⟩, after, chart, hlines, hrun, hfault⟩
    exact ⟨number, line, _, ⟨before, after, chart, hlines, hrun, rfl⟩, Chart.step_error_iff.1 hfault⟩
  · rintro ⟨number, line, _, ⟨before, after, chart, hlines, hrun, rfl⟩, hfault⟩
    exact ⟨before, (number, line), after, chart, hlines, hrun, Chart.step_error_iff.2 hfault⟩

/-! ## The numbers of lines -/

theorem mem_numberLines {first : Nat} {lines : List String} (h : (number, line) ∈ numberLines first lines) :
    first ≤ number ∧ (lines[number - first]?).map Text.strip = some line := by
  induction lines generalizing first with
  | nil => cases h
  | cons raw lines ih =>
    rw [numberLines] at h
    rcases List.mem_cons.1 h with heq | hmem
    · cases heq
      simp
    · obtain ⟨hle, hline⟩ := ih hmem
      refine ⟨by omega, ?_⟩
      rw [show number - first = number - (first + 1) + 1 by omega]
      exact hline

/-- A program comes to its own lines, counted from one and without the blanks around them. -/
theorem Reaches.stands {program : String} (h : Reaches program number line b) :
    1 ≤ number ∧ ((Text.lines program)[number - 1]?).map Text.strip = some line := by
  obtain ⟨before, after, chart, hlines, -, -⟩ := h
  have hmem : (number, line) ∈ commandLines program := by
    rw [hlines]
    simp
  exact mem_numberLines (List.mem_filter.1 hmem).1

/-! ## The document -/

namespace Canvas

theorem grow_ok {x : Binary64} (hx : x.isFinite = true) (extent : Int) : ∃ n, grow extent x = .ok n := by
  rw [grow]
  split
  · cases x with
    | nan => cases hx
    | infinite negative => cases hx
    | finite negative a => exact ⟨_, rfl⟩
  · exact ⟨extent, rfl⟩

/-- Finite points have an extent. -/
theorem size_ok {points : List Point} (h : ∀ p ∈ points, p.isFinite = true) : ∃ size, Canvas.size points = .ok size := by
  have hextent (start : Int × Int) :
      ∃ e, points.foldlM (fun e p => do return (← grow e.1 p.x, ← grow e.2 p.y)) start = Except.ok e := by
    induction points generalizing start with
    | nil => exact ⟨start, rfl⟩
    | cons p points ih =>
      obtain ⟨hp, hpoints⟩ := List.forall_mem_cons.1 h
      obtain ⟨hx, hy⟩ := (Point.isFinite_iff p).1 hp
      obtain ⟨width, hwidth⟩ := grow_ok hx start.1
      obtain ⟨height, hheight⟩ := grow_ok hy start.2
      rw [List.foldlM_cons, hwidth, hheight]
      exact ih hpoints (width, height)
  obtain ⟨e, he⟩ := hextent (minimum, minimum)
  exact ⟨_, by rw [size, extent, he]; rfl⟩

end Canvas

/-- There is a canvas for the pins of a board. -/
theorem Board.IsFinite.exists_size {b : Board} (hb : b.IsFinite) : ∃ size, Canvas.size b.pins.points = .ok size := by
  refine Canvas.size_ok fun p hp => ?_
  obtain ⟨e, he, rfl⟩ := List.mem_map.1 hp
  exact hb.pins e he

/-- A chart has a document. -/
theorem Chart.document_ok {chart : Chart} (hb : chart.board.IsFinite) :
    ∃ document, chart.document = .ok document := by
  obtain ⟨size, hsize⟩ := hb.exists_size
  exact ⟨_, by rw [document, hsize]; rfl⟩

/-- The document of a program has no fault of its own. -/
theorem render_error_iff {program : String} {fault : ProgramFault} :
    render program = .error fault ↔ interpret program = .error fault := by
  rw [render]
  cases h : interpret program with
  | error f =>
    constructor
    · intro hf
      cases hf
      rfl
    · intro hf
      cases hf
      rfl
  | ok chart =>
    obtain ⟨document, hdocument⟩ := Chart.document_ok (Chart.run_adds Board.start_isFinite h).1
    constructor
    · intro hf
      simp only [bind, Except.bind, hdocument] at hf
      cases hf
    · intro hf
      cases hf

/-! ## The ways to end -/

/-- Whether a computation on a board has a result. -/
def succeeds {α : Type} (w : Work α) (b : Board) : Bool :=
  match w b with
  | .ok _ _ => true
  | .error _ _ => false

theorem succeeds_iff {α : Type} {w : Work α} : succeeds w b = true ↔ ∃ a b', w b = .ok a b' := by
  unfold succeeds
  cases w b <;> simp

/-- Where there are two pins, a table between them breaks down as its columns do. -/
theorem breaks_table {cs row columns : List Char}
    (hcut : Text.cutLines cs = ["Pin a 0 0".toList, "Pin b 1 1".toList, row]) (hstrip : Text.stripBlanks row = row)
    (hrow : isCommandLine (String.ofList row) = true)
    (htokens : Text.tokens (String.ofList row) = ["Table", "a", "b", String.ofList columns, "x"])
    (hfault : columnFault (String.ofList columns) "x" = some bd) :
    ∃ b, Reaches (String.ofList cs) 3 (String.ofList row) b ∧ Breaks b (String.ofList row) bd := by
  have hlines : commandLines (String.ofList cs) = [(1, "Pin a 0 0"), (2, "Pin b 1 1"), (3, String.ofList row)] := by
    have hfirst : Text.strip "Pin a 0 0" = "Pin a 0 0" ∧ isCommandLine "Pin a 0 0" = true := by decide +kernel
    have hsecond : Text.strip "Pin b 1 1" = "Pin b 1 1" ∧ isCommandLine "Pin b 1 1" = true := by decide +kernel
    have hthird : Text.strip (String.ofList row) = String.ofList row := by
      rw [Text.strip, String.toList_ofList, hstrip]
    rw [commandLines, Text.lines, Text.parts, String.toList_ofList, hcut]
    simp only [List.map, String.ofList_toList, numberLines, hfirst, hsecond, hthird, List.filter, hrow]
  have hcommand : Command.ofLine (String.ofList row) = .ok (.shape ⟨.table (String.ofList columns), "a", "b", "x"⟩) := by
    rw [Command.ofLine_eq, htokens]
    rfl
  have hdrawn : (Chart.blank.run [(1, "Pin a 0 0"), (2, "Pin b 1 1")]).toOption.any (fun chart =>
      succeeds (Command.shape ⟨.table "1", "a", "b", ""⟩).run { chart.board with lineNumber := 3 }) = true := by
    decide +kernel
  cases hrun : Chart.blank.run [(1, "Pin a 0 0"), (2, "Pin b 1 1")] with
  | error f =>
    rw [hrun] at hdrawn
    cases hdrawn
  | ok chart =>
    rw [hrun] at hdrawn
    refine ⟨_, ⟨[(1, "Pin a 0 0"), (2, "Pin b 1 1")], [], chart, hlines, hrun, rfl⟩, .inl ⟨_, hcommand, hfault, ?_⟩⟩
    exact succeeds_iff.1 hdrawn

/-- A program complains about a line exactly if it comes to that line, which then complains; the line is
given by its number and its text. It breaks down exactly if it comes to a line that does. The document has
no fault of its own. -/
theorem interpret_error (program : String) :
    (∀ c number line, interpret program = .error (.complaint c number line) ↔
      ∃ b b', Reaches program number line b ∧ execute line b = .error (.complaint c) b') ∧
    (∀ number line b, Reaches program number line b →
      1 ≤ number ∧ ((Text.lines program)[number - 1]?).map Text.strip = some line) ∧
    (∀ bd, interpret program = .error (.breakdown bd) ↔
      ∃ number line b, Reaches program number line b ∧ Breaks b line bd) ∧
    ∀ fault, render program = .error fault ↔ interpret program = .error fault := by
  refine ⟨?_, ?_, ?_, ?_⟩
  · intro c number line
    rw [interpret_error_iff]
    constructor
    · rintro ⟨number', line', b, hreaches, f, b', hf, heq⟩
      cases f with
      | complaint c' =>
        cases heq
        exact ⟨b, b', hreaches, hf⟩
      | breakdown bd => cases heq
    · rintro ⟨b, b', hreaches, hf⟩
      exact ⟨number, line, b, hreaches, _, b', hf, rfl⟩
  · intro number line b hreaches
    exact hreaches.stands
  · intro bd
    rw [interpret_error_iff]
    constructor
    · rintro ⟨number, line, b, hreaches, f, b', hf, heq⟩
      cases f with
      | complaint c => cases heq
      | breakdown bd' =>
        cases heq
        exact ⟨number, line, b, hreaches, (execute_breaks_iff hreaches.isFinite).1 ⟨b', hf⟩⟩
    · rintro ⟨number, line, b, hreaches, hbreaks⟩
      obtain ⟨b', hf⟩ := (execute_breaks_iff hreaches.isFinite).2 hbreaks
      exact ⟨number, line, b, hreaches, _, b', hf, rfl⟩
  · intro fault
    exact render_error_iff

/-- Columns of 309 digits. -/
def wideColumns : List Char := '2' :: List.replicate 308 '0'

/-- A table with a text breaks down on columns of 309 digits. -/
theorem interpret_error_wide_table :
    interpret (String.ofList ("Pin a 0 0\nPin b 1 1\nTable a b ".toList ++ wideColumns ++ " x".toList)) =
      .error (.breakdown (.arithmetic .integerTooLarge)) := by
  have hcut : Text.cutLines ("Pin a 0 0\nPin b 1 1\nTable a b ".toList ++ wideColumns ++ " x".toList) =
      ["Pin a 0 0".toList, "Pin b 1 1".toList, "Table a b ".toList ++ wideColumns ++ " x".toList] := by decide +kernel
  have htokens : Text.tokens (String.ofList ("Table a b ".toList ++ wideColumns ++ " x".toList)) =
      ["Table", "a", "b", String.ofList wideColumns, "x"] := by
    rw [Text.tokens, Text.parts, String.toList_ofList]
    decide +kernel
  have hfault : columnFault (String.ofList wideColumns) "x" = some (.arithmetic .integerTooLarge) := by
    rw [columnFault, Text.Numeral.read?, String.toList_ofList]
    decide +kernel
  obtain ⟨b, hreaches, hbreaks⟩ := breaks_table hcut (by decide +kernel) (by decide +kernel) htokens hfault
  obtain ⟨-, -, hbreakdown, -⟩ := interpret_error
    (String.ofList ("Pin a 0 0\nPin b 1 1\nTable a b ".toList ++ wideColumns ++ " x".toList))
  exact (hbreakdown _).2 ⟨3, _, b, hreaches, hbreaks⟩

end Pinboard
