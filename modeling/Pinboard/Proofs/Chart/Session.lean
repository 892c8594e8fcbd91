import Pinboard.Proofs.Chart.Commands

/-!
# Lines, one after the other

A session goes on after a line that fails, from the board that the line leaves behind. Main statements: what
a failing line may have changed, on any board of a session (`execute_keeps`); and that all points of a
session are finite at all times, that no pin is lost, and that the pins of a program that succeeds are those
that its lines create (`pins_of_lines`).
-/

namespace Pinboard

open Pinboard.Ring (maxCapacity)

/-! ## One line -/

/-- The verb that a line begins with. -/
def verbOf (line : String) : Option Verb :=
  (Text.tokens line).head?.bind fun word => Verb.ofKeyword? (Text.lowercase word)

/-- The name on a line, its second word. -/
def nameOn (line : String) : Option String := (Text.tokens line)[1]?

/-- The names of the pins that the command on a line creates. -/
def createdNames (line : String) : List String :=
  match verbOf line, nameOn line with
  | some verb, some name => verb.creates name
  | _, _ => []

/-- The names of the pins that the command on a line may have changed when it fails. -/
def leftNames (line : String) : List String :=
  match verbOf line, nameOn line with
  | some verb, some name => verb.leavings name
  | _, _ => []

/-- A line is at fault, or has more words than there is room for, or holds a command about the name on the
line. -/
theorem Command.ofLine_cases (line : String) :
    (∃ c, Command.ofLine line = .error (.complaint c)) ∨
      (maxCapacity ≤ (Text.tokens line).length ∧
        Command.ofLine line = .error (.breakdown (.words (.tooManyElements (Text.tokens line).length)))) ∨
      ∃ c, Command.ofLine line = .ok c ∧ c.IsSound ∧ c.creates = createdNames line ∧ c.leavings = leftNames line := by
  rw [Command.ofLine_eq, createdNames, leftNames, verbOf, nameOn]
  cases htokens : Text.tokens line with
  | nil => exact absurd htokens (tokens_ne_nil line)
  | cons first words =>
    by_cases hge : maxCapacity ≤ (first :: words).length
    · exact .inr (.inl ⟨hge, if_pos hge⟩)
    rw [if_neg hge, Command.ofTokens, List.head?_cons, Option.bind_some]
    cases Verb.ofKeyword? (Text.lowercase first) with
    | none => exact .inl ⟨_, rfl⟩
    | some verb =>
      cases hc : Command.ofWords verb words with
      | none => exact .inl ⟨_, by simp only [Verb.parse, hc]; rfl⟩
      | some c =>
        rw [List.length_cons] at hge
        have hspec := Command.ofWords_spec hc (by omega)
        refine .inr (.inr ⟨c, by simp only [Verb.parse, hc], ?_⟩)
        cases words with
        | nil => exact hspec
        | cons name rest => exact hspec

/-- A command that is read off a line is about the name on the line. -/
theorem Command.ofLine_spec {line : String} {c : Command} (h : Command.ofLine line = .ok c) :
    c.IsSound ∧ c.creates = createdNames line ∧ c.leavings = leftNames line := by
  rcases Command.ofLine_cases line with ⟨_, hline⟩ | ⟨-, hline⟩ | ⟨c', hline, hspec⟩
  · cases hline.symm.trans h
  · cases hline.symm.trans h
  · cases hline.symm.trans h
    exact hspec

variable {b b' : Board}

/-- The contract of a line. -/
theorem execute_ends (hb : b.IsFinite) (line : String) :
    Ends (execute line) b (fun _ b' => b.Adds (createdNames line) b')
      (fun _ b' => b.SetsAmong (leftNames line) b') := by
  refine .of_bind (fun c hc => ?_) fun f _ => .refl _ _
  obtain ⟨hsound, hcreates, hleavings⟩ := Command.ofLine_spec hc
  rw [← hcreates, ← hleavings]
  exact (Command.run_ends hb hsound).mono (fun _ _ h => h.2) fun _ _ h => h.2

/-! ## Many lines -/

namespace Board

/-- The board after a line, whether the line failed or not. -/
def after (b : Board) (line : Nat × String) : Board :=
  match executeAt line.1 line.2 b with
  | .ok _ b' => b'
  | .error _ b' => b'

/-- The board after some lines, those that failed included. -/
def session (lines : List (Nat × String)) : Board := lines.foldl after .start

theorem session_append (lines more : List (Nat × String)) :
    session (lines ++ more) = more.foldl after (session lines) := by
  rw [session, session, List.foldl_append]

/-- All points are finite still, and the table has all its names still. -/
structure Keeps (b b' : Board) : Prop where
  finite : b'.IsFinite
  names : ∀ name ∈ b.pins.names, name ∈ b'.pins.names

theorem IsFinite.onLine (hb : b.IsFinite) (number : Nat) : { b with lineNumber := number : Board }.IsFinite :=
  ⟨hb.pins, hb.offset⟩

theorem Adds.keeps {names : List String} (h : b.Adds names b') : b.Keeps b' :=
  ⟨h.finite, fun name hname => (h.names name).2 (.inr hname)⟩

theorem SetsAmong.keeps {names : List String} (h : b.SetsAmong names b') (hb : b.IsFinite) : b.Keeps b' := by
  refine ⟨h.isFinite hb, ?_⟩
  intro name hname
  obtain ⟨pins, -, -, rfl⟩ := h
  exact (PinTable.mem_names_setAll _ _ _).2 (.inr hname)

/-- A line with its number, which no pin depends on. -/
theorem executeAt_ends (hb : b.IsFinite) (number : Nat) (line : String) :
    Ends (executeAt number line) b (fun _ b' => b.Adds (createdNames line) b') (fun _ b' => b.Keeps b') := by
  refine .change_bind ((execute_ends (hb.onLine number) line).mono (fun _ b' h => ?_) fun _ b' h => ?_)
  · exact ⟨h.finite, h.names, h.labels⟩
  · obtain ⟨hfinite, hnames⟩ := h.keeps (hb.onLine number)
    exact ⟨hfinite, hnames⟩

/-- The step of a session. -/
theorem after_keeps (hb : b.IsFinite) (line : Nat × String) : b.Keeps (b.after line) := by
  have hends := executeAt_ends hb line.1 line.2
  unfold after
  cases h : executeAt line.1 line.2 b with
  | ok fragment b' => exact (hends.ok h).keeps
  | error f b' => exact hends.error h

/-- A session from any board on. -/
theorem foldl_keeps (hb : b.IsFinite) (lines : List (Nat × String)) : b.Keeps (lines.foldl after b) := by
  induction lines generalizing b with
  | nil => exact ⟨hb, fun _ h => h⟩
  | cons line lines ih =>
    have hline := after_keeps hb line
    have hlines := ih hline.finite
    exact ⟨hlines.finite, fun name hname => hlines.names name (hline.names name hname)⟩

theorem session_isFinite (lines : List (Nat × String)) : (session lines).IsFinite :=
  (foldl_keeps start_isFinite lines).finite

end Board

/-! ## Lines that fail -/

/-- Only the verbs that set the pins of a shape leave any behind. -/
theorem leftNames_eq_nil {line : String} (h : ∀ kind, verbOf line ≠ some (.auto kind)) : leftNames line = [] := by
  rw [leftNames]
  split
  next verb name hverb hname =>
    cases verb with
    | auto kind => exact absurd hverb (h kind)
    | _ => rfl
  next => rfl

/-- A line that fails leaves the colours, the offset and the counter for lines as they are. It leaves all
pins as they are, unless it begins with a verb that sets the pins of a shape; such a verb may have changed
the eight pins of its name, and no others. -/
theorem execute_keeps (lines : List (Nat × String)) (line : String) {fault : Fault}
    (h : execute line (Board.session lines) = .error fault b') :
    b'.fill = (Board.session lines).fill ∧ b'.stroke = (Board.session lines).stroke ∧
      b'.offset = (Board.session lines).offset ∧ b'.lineCounter = (Board.session lines).lineCounter ∧
      ((∀ kind, verbOf line ≠ some (.auto kind)) → b'.pins = (Board.session lines).pins) ∧
      ∀ name, name ∉ leftNames line → b'.pins.point? name = (Board.session lines).pins.point? name := by
  have hsets := (execute_ends (Board.session_isFinite lines) line).error h
  obtain ⟨hfill, hstroke, hoffset, hcounter⟩ := hsets.same
  refine ⟨hfill, hstroke, hoffset, hcounter, ?_, ?_⟩
  · intro hverb
    rw [leftNames_eq_nil hverb] at hsets
    rw [hsets.eq_of_nil]
  · intro name hname
    exact hsets.point? hname

/-- A table with a negative count of columns has set its pins when it fails, and nothing else has changed. -/
theorem execute_keeps_negative_columns :
    ∃ fault b', execute "AutoTable t 1 2 30 40 -1 x" (Board.session [(1, "Pin a 5 5"), (2, "Fill red")]) = .error fault b' ∧
      b'.pins.names = "a" :: autoNames "t" ∧ b'.fill = some "red" ∧
        b'.pins.point? "a" = (Board.session [(1, "Pin a 5 5"), (2, "Fill red")]).pins.point? "a" := by
  have hnames : (match execute "AutoTable t 1 2 30 40 -1 x" (Board.session [(1, "Pin a 5 5"), (2, "Fill red")]) with
      | .ok _ _ => []
      | .error _ b' => b'.pins.names) = "a" :: autoNames "t" := by decide +kernel
  cases h : execute "AutoTable t 1 2 30 40 -1 x" (Board.session [(1, "Pin a 5 5"), (2, "Fill red")]) with
  | ok fragment b' =>
    rw [h] at hnames
    cases hnames
  | error fault b' =>
    rw [h] at hnames
    obtain ⟨hfill, -, -, -, -, hpoint⟩ := execute_keeps _ _ h
    refine ⟨fault, b', rfl, hnames, ?_, hpoint "a" (by decide +kernel)⟩
    rw [hfill]
    decide +kernel

/-! ## Programs that succeed -/

namespace Chart

variable {chart chart' : Chart} {number : Nat} {line : String}

theorem step_of_ok {fragment : Fragment} (h : executeAt number line chart.board = .ok fragment b') :
    chart.step (number, line) =
      .ok ⟨b', if fragment.isEmpty then chart.fragments else chart.fragments ++ [fragment]⟩ := by
  unfold step
  simp only [h]

theorem step_of_error {f : Fault} (h : executeAt number line chart.board = .error f b') :
    chart.step (number, line) = .error (f.onLine number line) := by
  unfold step
  simp only [h]

theorem run_cons_of_ok {line : Nat × String} (h : chart.step line = .ok chart') (lines : List (Nat × String)) :
    chart.run (line :: lines) = chart'.run lines := by
  rw [run, List.foldlM_cons, h]
  rfl

theorem run_cons_of_error {line : Nat × String} {fault : ProgramFault} (h : chart.step line = .error fault)
    (lines : List (Nat × String)) : chart.run (line :: lines) = .error fault := by
  rw [run, List.foldlM_cons, h]
  rfl

/-- The step of a program that is carried out. -/
theorem step_adds (hb : chart.board.IsFinite) (h : chart.step (number, line) = .ok chart') :
    chart.board.Adds (createdNames line) chart'.board := by
  cases hw : executeAt number line chart.board with
  | ok fragment b' =>
    cases (step_of_ok hw).symm.trans h
    exact (Board.executeAt_ends hb number line).ok hw
  | error fault b' => cases (step_of_error hw).symm.trans h

/-- A program that is carried out adds the names of its lines, and no others. -/
theorem run_adds {lines : List (Nat × String)} (hb : chart.board.IsFinite) (h : chart.run lines = .ok chart') :
    chart'.board.IsFinite ∧
      ∀ name, name ∈ chart'.board.pins.names ↔
        (∃ line ∈ lines, name ∈ createdNames line.2) ∨ name ∈ chart.board.pins.names := by
  induction lines generalizing chart with
  | nil =>
    cases h
    exact ⟨hb, by simp⟩
  | cons line lines ih =>
    obtain ⟨number, line⟩ := line
    cases hstep : chart.step (number, line) with
    | error fault => cases (run_cons_of_error hstep lines).symm.trans h
    | ok next =>
      rw [run_cons_of_ok hstep] at h
      have hadds := step_adds hb hstep
      obtain ⟨hfinite, hnames⟩ := ih hadds.finite h
      refine ⟨hfinite, ?_⟩
      intro name
      rw [hnames, hadds.names, List.exists_mem_cons_iff]
      constructor
      · rintro (h | h | h)
        · exact .inl (.inr h)
        · exact .inl (.inl h)
        · exact .inr h
      · rintro ((h | h) | h)
        · exact .inr (.inl h)
        · exact .inl h
        · exact .inr (.inr h)

/-- The labels of a program that is carried out have finite room. -/
theorem run_hasRoom {lines : List (Nat × String)} (hb : chart.board.IsFinite)
    (hlabels : ∀ l ∈ chart.board.labels, l.HasRoom) (h : chart.run lines = .ok chart') :
    ∀ l ∈ chart'.board.labels, l.HasRoom := by
  induction lines generalizing chart with
  | nil =>
    cases h
    exact hlabels
  | cons line lines ih =>
    obtain ⟨number, line⟩ := line
    cases hstep : chart.step (number, line) with
    | error fault => cases (run_cons_of_error hstep lines).symm.trans h
    | ok next =>
      rw [run_cons_of_ok hstep] at h
      have hadds := step_adds hb hstep
      obtain ⟨labels, hroom, heq⟩ := hadds.labels
      refine ih hadds.finite ?_ h
      rw [heq]
      exact List.forall_mem_append.2 ⟨hlabels, hroom⟩

end Chart

/-- In a session all points are finite at all times and no pin is ever lost. The pins of a program that
succeeds are those that its lines create. -/
theorem pins_of_lines (lines more : List (Nat × String)) :
    (Board.session lines).IsFinite ∧
      (∀ name ∈ (Board.session lines).pins.names, name ∈ (Board.session (lines ++ more)).pins.names) ∧
      ∀ program chart, interpret program = .ok chart → ∀ name,
        name ∈ chart.board.pins.names ↔ ∃ line ∈ commandLines program, name ∈ createdNames line.2 := by
  refine ⟨Board.session_isFinite lines, ?_, ?_⟩
  · rw [Board.session_append]
    exact (Board.foldl_keeps (Board.session_isFinite lines) more).names
  · intro program chart h name
    rw [(Chart.run_adds Board.start_isFinite h).2]
    constructor
    · rintro (h | h)
      · exact h
      · cases h
    · exact .inl

/-- The pins that a failing line has set stay when the next line fails as well; and a program of three lines
has the pins that two of them create. -/
theorem pins_of_lines_box :
    "t_br" ∈ (Board.session ([(1, "AutoTable t 1 2 30 40 -1")] ++ [(2, "Pin t_br here 0")])).pins.names ∧
      ∃ chart, interpret "Pin a 0 0\nAutoBox s 5 5 9 9\nLine a s_tl" = .ok chart ∧
        ∀ name, name ∈ chart.board.pins.names ↔ name = "a" ∨ name ∈ autoNames "s" := by
  obtain ⟨-, hstays, hnames⟩ := pins_of_lines [(1, "AutoTable t 1 2 30 40 -1")] [(2, "Pin t_br here 0")]
  refine ⟨hstays "t_br" (by decide +kernel), ?_⟩
  have hruns : (interpret "Pin a 0 0\nAutoBox s 5 5 9 9\nLine a s_tl").isOk = true := by decide +kernel
  have hlines : commandLines "Pin a 0 0\nAutoBox s 5 5 9 9\nLine a s_tl" =
      [(1, "Pin a 0 0"), (2, "AutoBox s 5 5 9 9"), (3, "Line a s_tl")] := by decide +kernel
  have hpin : createdNames "Pin a 0 0" = ["a"] := by decide +kernel
  have hbox : createdNames "AutoBox s 5 5 9 9" = autoNames "s" := by decide +kernel
  have hline : createdNames "Line a s_tl" = [] := by decide +kernel
  cases h : interpret "Pin a 0 0\nAutoBox s 5 5 9 9\nLine a s_tl" with
  | error fault =>
    rw [h] at hruns
    cases hruns
  | ok chart =>
    refine ⟨chart, rfl, ?_⟩
    intro name
    rw [hnames _ chart h, hlines]
    simp [hpin, hbox, hline]

end Pinboard
