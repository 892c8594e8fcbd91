import Pinboard.Proofs.Chart.Outcome
import Pinboard.Proofs.Text.Cuts

/-!
# One program below another

A program that is put below another one goes on where that one ends: with its board, its count of lines and
nothing else. Main statement: a program that fails still does so with anything below it, and otherwise the
lines below are carried out from its board on, numbered from its last line on (`interpret_append`).
-/

namespace Pinboard

/-! ## The numbers of lines -/

theorem numberLines_append (first : Nat) (lines more : List String) :
    numberLines first (lines ++ more) = numberLines first lines ++ numberLines (first + lines.length) more := by
  induction lines generalizing first with
  | nil => rfl
  | cons line lines ih =>
    rw [List.cons_append, numberLines, ih, numberLines, List.cons_append, List.length_cons, Nat.add_right_comm,
      Nat.add_assoc]

/-- Lines that stand below some others. -/
def below (above : Nat) (line : Nat × String) : Nat × String := (above + line.1, line.2)

theorem numberLines_below (above first : Nat) (lines : List String) :
    numberLines (above + first) lines = (numberLines first lines).map (below above) := by
  induction lines generalizing first with
  | nil => rfl
  | cons line lines ih =>
    rw [numberLines, numberLines, List.map_cons, Nat.add_assoc, ih]
    rfl

/-- The command lines of one program and then those of the other, numbered on. -/
theorem commandLines_append {p : String} (hp : p.toList.getLast? ≠ some '\r') (q : String) :
    commandLines (p ++ "\n" ++ q) = commandLines p ++ (commandLines q).map (below (Text.lines p).length) := by
  have hlines : Text.lines (p ++ "\n" ++ q) = Text.lines p ++ Text.lines q := by
    rw [Text.lines, Text.parts, String.toList_append, String.toList_append, List.append_assoc]
    show (Text.cutLines (p.toList ++ '\n' :: q.toList)).map _ = _
    rw [Text.cutLines_append _ _ hp, List.map_append]
    rfl
  rw [commandLines, hlines, numberLines_append, List.filter_append, Nat.add_comm 1, numberLines_below,
    List.filter_map]
  rfl

/-! ## Runs -/

namespace Chart

theorem run_append (chart : Chart) (lines more : List (Nat × String)) :
    chart.run (lines ++ more) = chart.run lines >>= fun next => next.run more := by
  rw [run, List.foldlM_append]
  rfl

/-- The chart drawn on top of other fragments. -/
def onTopOf (drawn : List Fragment) (chart : Chart) : Chart := ⟨chart.board, drawn ++ chart.fragments⟩

theorem step_onTopOf (chart : Chart) (drawn : List Fragment) (line : Nat × String) :
    (chart.onTopOf drawn).step line = (chart.step line).map (onTopOf drawn) := by
  obtain ⟨number, line⟩ := line
  cases h : executeAt number line chart.board with
  | ok fragment b' =>
    have h' : executeAt number line (chart.onTopOf drawn).board = .ok fragment b' := h
    rw [step_of_ok h, step_of_ok h']
    cases fragment <;> simp [onTopOf, Except.map]
  | error f b' =>
    have h' : executeAt number line (chart.onTopOf drawn).board = .error f b' := h
    rw [step_of_error h, step_of_error h']
    rfl

/-- What has been drawn before has no part in what is drawn. -/
theorem run_onTopOf (chart : Chart) (drawn : List Fragment) (lines : List (Nat × String)) :
    (chart.onTopOf drawn).run lines = (chart.run lines).map (onTopOf drawn) := by
  induction lines generalizing chart with
  | nil => rfl
  | cons line lines ih =>
    have hstep := step_onTopOf chart drawn line
    cases h : chart.step line with
    | ok next =>
      rw [h] at hstep
      rw [run_cons_of_ok h, run_cons_of_ok hstep, ih]
    | error fault =>
      rw [h] at hstep
      rw [run_cons_of_error h, run_cons_of_error hstep]
      rfl

/-- A run complains about one of its lines. -/
theorem mem_of_run_complaint {chart : Chart} {lines : List (Nat × String)} {c : Complaint} {number : Nat}
    {source : String} (h : chart.run lines = .error (.complaint c number source)) : (number, source) ∈ lines := by
  obtain ⟨before, ⟨number', line⟩, rest, chart', rfl, -, hstep⟩ := run_error_iff.1 h
  obtain ⟨f, b', -, hf⟩ := step_error_iff.1 hstep
  cases f with
  | complaint c' =>
    cases hf
    simp
  | breakdown bd => cases hf

end Chart

/-! ## Two programs -/

/-- A program that fails does so whatever stands below it. Below a program that is carried out, the lines of
another one are carried out on its board, numbered on from its last line, and what they draw comes after what
it has drawn; so a complaint about them names the number of its lines and theirs together. -/
theorem interpret_append (p q : String) (hp : p.toList.getLast? ≠ some '\r') :
    (∀ fault, interpret p = .error fault → interpret (p ++ "\n" ++ q) = .error fault) ∧
      ∀ chart, interpret p = .ok chart →
        interpret (p ++ "\n" ++ q) =
            (Chart.run ⟨chart.board, []⟩ ((commandLines q).map (below (Text.lines p).length))).map
              (Chart.onTopOf chart.fragments) ∧
          ∀ c number source, interpret (p ++ "\n" ++ q) = .error (.complaint c number source) →
            ∃ j, number = (Text.lines p).length + j ∧ (j, source) ∈ commandLines q := by
  have happend : interpret (p ++ "\n" ++ q) =
      interpret p >>= fun next => next.run ((commandLines q).map (below (Text.lines p).length)) := by
    rw [interpret, commandLines_append hp, Chart.run_append]
    rfl
  refine ⟨?_, ?_⟩
  · intro fault h
    rw [happend, h]
    rfl
  · intro chart h
    have hbelow : interpret (p ++ "\n" ++ q) = chart.run ((commandLines q).map (below (Text.lines p).length)) := by
      rw [happend, h]
      rfl
    refine ⟨?_, ?_⟩
    · rw [hbelow, ← Chart.run_onTopOf]
      simp [Chart.onTopOf]
    · intro c number source hfault
      rw [hbelow] at hfault
      obtain ⟨⟨j, line⟩, hmem, heq⟩ := List.mem_map.1 (Chart.mem_of_run_complaint hfault)
      cases heq
      exact ⟨j, rfl, hmem⟩

/-- Three lines with three kinds of line ends, and a fault on the second line below them, which is the
fifth. -/
theorem interpret_append_mixed_ends :
    ∃ chart, interpret "Pin a 0 0\r\n# two\rFill red" = .ok chart ∧
      interpret ("Pin a 0 0\r\n# two\rFill red" ++ "\n" ++ "\nPin b 1 x") =
        (Chart.run ⟨chart.board, []⟩ [(5, "Pin b 1 x")]).map (Chart.onTopOf chart.fragments) := by
  have hruns : (interpret "Pin a 0 0\r\n# two\rFill red").isOk = true := by decide +kernel
  have hlines : (commandLines "\nPin b 1 x").map (below (Text.lines "Pin a 0 0\r\n# two\rFill red").length) =
      [(5, "Pin b 1 x")] := by decide +kernel
  obtain ⟨-, hok⟩ := interpret_append "Pin a 0 0\r\n# two\rFill red" "\nPin b 1 x" (by decide +kernel)
  cases h : interpret "Pin a 0 0\r\n# two\rFill red" with
  | error fault =>
    rw [h] at hruns
    cases hruns
  | ok chart =>
    obtain ⟨heq, -⟩ := hok chart h
    rw [hlines] at heq
    exact ⟨chart, rfl, heq⟩

end Pinboard
