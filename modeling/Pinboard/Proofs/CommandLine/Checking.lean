import Pinboard.Proofs.CommandLine.Ends
import Pinboard.Proofs.Fit.Reports

/-!
# What a check prints

A check that gets a program without a file prints the lines of its report and nothing else: one for each issue, in the
order of the labels, or the one that says that there is none. Every line begins with the name of the source and the
number of the line that drew the label, and is one line for every reader whatever the label says
(`allLines_checkReport`). Main statement: every program that can be carried out is reported on in this way
(`run_check_reports`), but for a blank one on the standard input, which a run refuses.
-/

namespace Pinboard.CommandLine

/-- The check gets a program without a file: as an argument, or on the standard input if it is not blank. In reports
the program has the name of where it comes from. -/
inductive CheckRequest.Gets (r : CheckRequest) (standardInput : Option (Except Text.Utf8Fault String))
    (program : String) : String → Prop
  | argument : given r.file = none → r.program = some program → r.Gets standardInput program "<text>"
  | input : given r.file = none → r.program = none → standardInput = some (.ok program) → Text.hasInk program = true →
    r.Gets standardInput program "<stdin>"

/-- What a check has to print for the issues of a program. -/
structure ReportsOn (m : Measurer) (name program : String) (chart : Chart) (issues : List FitIssue) (output : String) :
    Prop where
  /-- Every label is checked, and the issues are in the order of the labels. -/
  checked : ∀ l ∈ chart.board.labels, Fit.check m l = .ok (Fit.verdict m l)
  found : issues = chart.board.labels.filterMap (Fit.verdict m)
  /-- Behind the last line, which is ended as well, there is nothing. -/
  lines : issues ≠ [] → Text.allLines output = (issues.map fun i => name ++ ":" ++ i.report) ++ [""]
  begins : ∀ i ∈ issues, ∃ rest, i.report = "line " ++ Nat.repr i.line ++ ": " ++ rest
  fits : issues = [] → Text.allLines output = [name ++ ": all labels fit"] ++ [""]
  /-- The number is that of the line that drew the label. -/
  numbered : ∀ i ∈ issues, ∃ d ∈ drawnBy program, StandsAs program d.number d.line ∧ i.line = d.number ∧
    ∃ l ∈ d.labels, Fit.check m l = .ok (some i)
  ordered : issues.Pairwise fun i next => i.line ≤ next.line

/-- The lines of a report are those that it is written of. -/
theorem allLines_checkReport (source : Source) (hname : Text.isPrintableText source.name = true)
    (issues : List FitIssue) :
    Text.allLines (checkReport source issues) =
      (if issues.isEmpty then [source.name ++ ": all labels fit"]
        else issues.map fun i => source.name ++ ":" ++ i.report) ++ [""] := by
  refine Text.allLines_join ?_
  have hsays : Text.isPrintableText ": all labels fit" = true ∧ Text.isPrintableText ":" = true := by decide
  split
  · rw [List.forall_mem_singleton, Text.isPrintableText_append, hname, hsays.1]
    rfl
  · intro line hline
    obtain ⟨i, -, rfl⟩ := List.mem_map.1 hline
    rw [Text.isPrintableText_append, Text.isPrintableText_append, hname, hsays.2, i.isPrintableText_report]
    rfl

variable {σ : Type}

theorem CheckRequest.Gets.found {r : CheckRequest} {standardInput : Option (Except Text.Utf8Fault String)}
    {program name : String} (h : r.Gets standardInput program name) (fs : FileSystem σ) (files : σ) :
    fs.found standardInput files r.file r.program = .ok ⟨name, program, none⟩ ∧ Text.isPrintableText name = true := by
  cases h with
  | argument hfile hprogram =>
    rw [hprogram]
    exact ⟨FileSystem.found_argument hfile program, by decide⟩
  | input hfile hprogram hinput hink =>
    rw [hprogram, hinput]
    exact ⟨(FileSystem.found_input hfile program).trans (if_pos hink), by decide⟩

/-- A check that gets a program that can be carried out, without a file, prints the report on it. -/
theorem run_check_reports (fs : FileSystem σ) (strays : Text.StrayBytes) {measurer : Measurer} (hm : measurer.Measures)
    (standardInput : Option (Except Text.Utf8Fault String)) (traceVariable : Option String) (files : σ)
    {arguments : List String} {r : CheckRequest} (hask : AsksFor arguments (.check r)) {program name : String}
    (hgets : r.Gets standardInput program name) {chart : Chart} (h : interpret program = .ok chart) :
    ∃ issues output,
      (run (fs.host strays measurer standardInput traceVariable) arguments).run files =
          (.answered output (if r.strict && !issues.isEmpty then 1 else 0), files) ∧
        ReportsOn measurer name program chart issues output := by
  obtain ⟨hne, request, hrequest, htask⟩ := hask
  obtain ⟨hfound, hname⟩ := hgets.found fs files
  let issues := chart.board.labels.filterMap (Fit.verdict measurer)
  have hissues : Fit.checkProgram measurer program = .ok issues := Fit.checkProgram_eq hm h
  have hlines := allLines_checkReport ⟨name, program, none⟩ hname issues
  refine ⟨issues, checkReport ⟨name, program, none⟩ issues, ?_, ?_⟩
  · have hperform := CheckRequest.perform_run fs strays measurer standardInput traceVariable files r
    simp only [hfound, hissues] at hperform
    rw [run_request fs strays measurer standardInput traceVariable files hne hrequest]
    simp only [Request.perform, htask, Task.perform, hperform, ended, outcome_checkLines,
      Text.StrayBytes.fault?_of_isPrintableText hname]
  · exact {
      checked := fun l _ => (Fit.check_spec hm l).1
      found := rfl
      lines := fun hsome => by rw [hlines, if_neg (by simpa using hsome)]
      begins := fun i _ => i.report_begins
      fits := fun hnone => by rw [hlines, if_pos (by simp [hnone])]
      numbered := fun i hi => Fit.exists_drawn_of_mem hm h hi
      ordered := Fit.issues_pairwise hm h }

/-- A box with a label that is too wide and has breaks and marks in it. -/
def noisyBox : String := "Pin a 0 0\nPin b 20 30\n\nBox a b one\\ntwo\u2028\x0b'"

/-- A check where there are no files. -/
def checkOnEmptyDisk (input : Option String) (arguments : List String) : Outcome × Disk :=
  (run (Disk.fileSystem.host .absent Fit.evenMeasurer (input.map .ok) none) ("check" :: arguments)).run ⟨[]⟩

theorem run_check_reports_noisyBox :
    ∃ chart issues output, interpret noisyBox = .ok chart ∧
      checkOnEmptyDisk none ["--text", noisyBox] = (.answered output 0, ⟨[]⟩) ∧
      ReportsOn Fit.evenMeasurer "<text>" noisyBox chart issues output ∧
      Text.allLines output =
        ["<text>:line 4: box label \"one\\ntwo\\u2028\\x0b'\" needs 36.0px of width but has 18.0px", ""] := by
  have hruns : (interpret noisyBox).isOk = true := by decide +kernel
  cases h : interpret noisyBox with
  | error fault =>
    rw [h] at hruns
    cases hruns
  | ok chart =>
    have hask : AsksFor ["check", "--text", noisyBox] (.check { program := some noisyBox }) :=
      asksFor_of_ofArguments (by decide) (by decide +kernel)
    obtain ⟨issues, output, hrun, hreports⟩ := run_check_reports Disk.fileSystem .absent
      Fit.evenMeasurer_isSteady.measures none none ⟨[]⟩ hask (.argument rfl rfl) h
    have houtput : Text.allLines (checkOnEmptyDisk none ["--text", noisyBox]).1.output =
        ["<text>:line 4: box label \"one\\ntwo\\u2028\\x0b'\" needs 36.0px of width but has 18.0px", ""] := by
      decide +kernel
    rw [checkOnEmptyDisk, Option.map_none, hrun] at houtput
    exact ⟨chart, issues, output, rfl, hrun, hreports, houtput⟩

/-- A blank program can be carried out, but a check refuses it on the standard input. -/
theorem blank_input_unreported :
    (interpret " \n").isOk = true ∧ checkOnEmptyDisk (some " \n") [] = (.failed "" .blankInput .text false, ⟨[]⟩) ∧
      ¬∃ chart issues, ReportsOn Fit.evenMeasurer "<stdin>" " \n" chart issues
        (checkOnEmptyDisk (some " \n") []).1.output := by
  have hrun : checkOnEmptyDisk (some " \n") [] = (.failed "" .blankInput .text false, ⟨[]⟩) := by rfl
  refine ⟨by decide +kernel, hrun, ?_⟩
  rintro ⟨chart, issues, hreports⟩
  rw [hrun] at hreports
  have hnothing : Text.allLines (Outcome.failed "" .blankInput .text false).output = [""] := by decide
  by_cases hnone : issues = []
  · have hlines := congrArg List.length (hnothing.symm.trans (hreports.fits hnone))
    exact absurd hlines (by simp)
  · have hlines := congrArg List.length (hreports.lines hnone)
    have hpos := List.length_pos_of_ne_nil hnone
    rw [hnothing, List.length_append, List.length_map] at hlines
    simp only [List.length_singleton] at hlines
    omega

end Pinboard.CommandLine
