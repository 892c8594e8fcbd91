import Pinboard.Proofs.CommandLine.Options
import Pinboard.Proofs.CommandLine.Printing
import Pinboard.Proofs.Text.Lines
import Pinboard.Proofs.Text.Utf8

/-!
# Where a program comes from

A program is given in an argument, comes from the standard input, or is in a file (`Way`). In a file the ends of its
lines become line feeds, so the text that is read is another one, but its lines are the same, and nothing but the lines
of a program counts (`render_of_lines`, `Fit.checkProgram_of_lines`). Main statement: what a run says, and what it
draws or finds, does not depend on where the program comes from, and a document that is written is the one that is
printed (`EndsAlike`, `run_of_any_source`).
-/

namespace Pinboard

/-! ## Only the lines of a program count -/

section
variable {p q : String} (h : Text.lines p = Text.lines q)

include h in
theorem interpret_of_lines : interpret p = interpret q := by
  rw [interpret, interpret, commandLines, commandLines, h]

include h in
theorem render_of_lines : render p = render q := by
  rw [render, render, interpret_of_lines h]

include h in
theorem Fit.checkProgram_of_lines (m : Measurer) : checkProgram m p = checkProgram m q := by
  rw [checkProgram, checkProgram, interpret_of_lines h]

end

namespace CommandLine

/-! ## Ways to hand over a program -/

/-- Where a program comes from. -/
inductive Way
  | argument
  | input
  | file

/-- A file holds a text, and its path is neither empty nor taken for an option. -/
structure FileSystem.Holds {σ : Type} (fs : FileSystem σ) (files : σ) (file text : String) : Prop where
  named : file ≠ ""
  drawn : IsOperand DrawRequest.grammar.switches file
  checked : IsOperand CheckRequest.grammar.switches file
  usable : (Path.ofString file).hasZero = false
  content : fs.read files (.ofString file) = .content (Text.encode text)

namespace Way

/-- What is on the standard input. It may be anything if the program comes from elsewhere. -/
def standardInput (program : String) (other : Option (Except Text.Utf8Fault String)) :
    Way → Option (Except Text.Utf8Fault String)
  | input => some (.ok program)
  | _ => other

/-- The arguments that say where a program to be checked comes from. -/
def arguments (program file : String) : Way → List String
  | argument => ["--text=" ++ program]
  | input => []
  | Way.file => [file]

/-- The arguments that say where a program to be drawn comes from, and that its document is to be printed. -/
def printing (program file : String) : Way → List String
  | Way.file => [file, "--stdout"]
  | way => way.arguments program file

/-- The program with the source that it is found in. -/
def source (program file : String) : Way → Source
  | argument => ⟨"<text>", program, none⟩
  | input => ⟨"<stdin>", program, none⟩
  | Way.file =>
    ⟨(Path.ofString file).text, String.ofList (Text.joinLineEnds program.toList), some (Path.ofString file)⟩

/-- The file that is asked for. -/
def fileOf (file : String) : Way → Option String
  | Way.file => some file
  | _ => none

/-- The program that is given in an argument. -/
def programOf (program : String) : Way → Option String
  | argument => some program
  | _ => none

/-- Only the document of a program in a file has to be asked to be printed. -/
def isFile : Way → Bool
  | Way.file => true
  | _ => false

theorem lines_source (program file : String) (way : Way) :
    Text.lines (way.source program file).program = Text.lines program := by
  cases way with
  | file => exact Text.lines_joinLineEnds program
  | _ => rfl

end Way

section
variable {σ : Type} {fs : FileSystem σ} {files : σ} {program file : String}

theorem FileSystem.found_of_way (hink : Text.hasInk program = true) (hfile : fs.Holds files file program)
    (other : Option (Except Text.Utf8Fault String)) (way : Way) :
    fs.found (way.standardInput program other) files (way.fileOf file) (way.programOf program) =
      .ok (way.source program file) := by
  cases way with
  | argument => exact found_argument rfl program
  | input => exact (found_input rfl program).trans (if_pos hink)
  | file =>
    have hgiven : given (some file) = some file := by simp [given, hfile.named]
    refine (found_file hgiven).trans ?_
    simp [content, hfile.usable, hfile.content, Text.decode_encode, Way.source]

end

/-! ## The requests -/

section
variable {σ : Type} {fs : FileSystem σ} {files : σ} {program file : String} {before after : List PageOption}

theorem isNamed_text (program : String) : IsNamed ("--text=" ++ program) := isNamed_append rfl (by decide) program

/-- Behind a file there are no two dashes alone. -/
theorem PageOption.head?_arguments (h : ∀ o ∈ after, o.IsReadable) :
    (after.flatMap PageOption.arguments).head? ≠ some "--" := by
  intro hhead
  obtain ⟨o, ho, hargument⟩ := List.mem_flatMap.1 (List.mem_of_mem_head? hhead)
  exact (PageOption.isNamed (h o ho) _ hargument).1 rfl

theorem Way.ofArguments_printing (hfile : fs.Holds files file program) (hbefore : ∀ o ∈ before, o.IsReadable)
    (hafter : ∀ o ∈ after, o.IsReadable) (way : Way) :
    Request.ofArguments (drawArguments before (way.printing program file) after) =
      .ok { task := some (.draw { PageOption.wishes (before ++ after) with
        file := way.fileOf file, program := way.programOf program, printed := way.isFile }) } := by
  obtain ⟨inPage, title, hwishes⟩ := PageOption.wishes_eq (before ++ after)
  cases way with
  | argument =>
    have hrequest := Request.ofArguments_render (f := fun r => { r with program := some program }) hbefore hafter
      (List.forall_mem_singleton.2 (isNamed_text program)) (fun r => DrawRequest.readFrom_text r _ program)
      (fun r o => by cases o <;> rfl)
    rw [hwishes] at hrequest ⊢
    exact hrequest
  | input =>
    have hrequest := Request.ofArguments_render (f := id) hbefore hafter (List.forall_mem_nil _) (fun r => rfl)
      (fun r o => rfl)
    rw [hwishes] at hrequest ⊢
    exact hrequest
  | file =>
    have hstdout : IsNamed "--stdout" := isNamed_of_toList rfl (by decide)
    have hnamed : ∀ argument ∈ [file, "--stdout"], IsNamed argument := by
      simpa using ⟨hfile.drawn.isNamed (by decide) (by decide), hstdout⟩
    have hrequest := Request.ofArguments_render (f := fun r => { r with file := some file, printed := true }) hbefore
      hafter hnamed
      (fun r => (Grammar.readFrom_operand hfile.drawn (by simp)).trans (DrawRequest.readFrom_stdout _ _))
      (fun r o => by cases o <;> rfl)
    rw [hwishes] at hrequest ⊢
    exact hrequest

theorem ofArguments_writing (hfile : fs.Holds files file program) (hbefore : ∀ o ∈ before, o.IsReadable)
    (hafter : ∀ o ∈ after, o.IsReadable) :
    Request.ofArguments (drawArguments before [file] after) =
      .ok { task := some (.draw { PageOption.wishes (before ++ after) with file := some file }) } :=
  Request.ofArguments_render (f := fun r => { r with file := some file }) hbefore hafter
    (List.forall_mem_singleton.2 (hfile.drawn.isNamed (by decide) (by decide)))
    (fun r => Grammar.readFrom_operand hfile.drawn (PageOption.head?_arguments hafter))
    (fun r o => by cases o <;> rfl)

theorem Way.ofArguments_checking (hfile : fs.Holds files file program) (strict : Bool) (way : Way) :
    Request.ofArguments ("check" :: (way.arguments program file ++ if strict then ["--strict"] else [])) =
      .ok { task := some (.check
        { file := way.fileOf file, program := way.programOf program, strict := strict }) } := by
  have hstrictNamed : IsNamed "--strict" := isNamed_of_toList rfl (by decide)
  have hstrict {operands : Operands CheckRequest} (r : CheckRequest) (hr : r.strict = false) :
      CheckRequest.grammar.readFrom operands r (if strict then ["--strict"] else []) =
        .ok ({ r with strict := strict }, []) := by
    cases strict with
    | true => exact CheckRequest.readFrom_strict r []
    | false =>
      obtain ⟨file, program, strict⟩ := r
      obtain rfl := hr
      rfl
  have hread : CheckRequest.grammar.read {} (way.arguments program file ++ if strict then ["--strict"] else []) =
      .ok ({ file := way.fileOf file, program := way.programOf program, strict := strict }, []) := by
    cases way with
    | argument => exact (CheckRequest.readFrom_text {} _ program).trans (hstrict _ rfl)
    | input => exact hstrict {} rfl
    | file =>
      have hhead : (if strict then ["--strict"] else []).head? ≠ some "--" := by cases strict <;> simp
      exact (Grammar.readFrom_operand hfile.checked hhead).trans (hstrict _ rfl)
  refine Request.ofArguments_command (isOperand_of_head _ (by decide)) ?_ ?_
  · intro argument hargument
    rcases List.mem_append.1 hargument with h | h
    · cases way with
      | argument =>
        obtain rfl := List.mem_singleton.1 h
        exact isNamed_text program
      | input => cases h
      | file =>
        obtain rfl := List.mem_singleton.1 h
        exact hfile.checked.isNamed (by decide) (by decide)
    · cases strict with
      | true =>
        obtain rfl := List.mem_singleton.1 h
        exact hstrictNamed
      | false => cases h
  · show (CheckRequest.grammar.read {} _ >>= fun reading => pure (Task.check reading.1, reading.2)) = _
    rw [hread]
    rfl

end

/-! ## What a run says -/

/-- What is heard of a run: its output, its exit status, and the code, the line and the message of its failure. -/
structure Said where
  output : String
  exitStatus : Nat
  failure : Option (String × Option Nat × String)
deriving DecidableEq

def Outcome.said (outcome : Outcome) : Said where
  output := outcome.output
  exitStatus := outcome.exitStatus
  failure :=
    match outcome with
    | .answered _ _ => none
    | .failed _ failure _ _ => some (failure.group.code, failure.line, failure.message)

/-- The name of the source is not among it. -/
theorem said_program (name name' : String) (fault : ProgramFault) (format format' : ReportFormat)
    (traced traced' : Bool) :
    (Outcome.failed "" (.program name fault) format traced).said =
      (Outcome.failed "" (.program name' fault) format' traced').said := by
  cases fault <;> rfl

theorem Outcome.failure_said_of_status {outcome : Outcome} (h : outcome.exitStatus = 0) :
    outcome.said.failure = none := by
  cases outcome with
  | answered => rfl
  | failed _ failure => exact absurd h failure.group.exitStatus_ne_zero

/-- The drawing of a program, in a page with the given title if that is asked for. -/
def DrawRequest.around (r : DrawRequest) (drawing : String) : String :=
  if r.inPage then Page.wrap ((given r.title).getD "") drawing else drawing

theorem DrawRequest.document_of_way {r : DrawRequest} (htitle : r.inPage = true → given r.title ≠ none)
    (program file : String) (way : Way) :
    r.document (way.source program file) =
      match render program with
      | .error fault => .error (.program (way.source program file).name fault)
      | .ok drawing => .ok (r.around drawing) := by
  rw [document, render_of_lines (way.lines_source program file)]
  cases render program with
  | error fault => rfl
  | ok drawing =>
    by_cases hpage : r.inPage = true
    · obtain ⟨title, hgiven⟩ := Option.ne_none_iff_exists'.1 (htitle hpage)
      simp only [hpage, if_true, around, pageTitle, hgiven, Option.getD_some]
    · simp only [hpage, Bool.false_eq_true, if_false, around]

section
variable {σ : Type} {fs : FileSystem σ} (strays : Text.StrayBytes) (measurer : Measurer)
  (other : Option (Except Text.Utf8Fault String)) (traceVariable : Option String) {files : σ} {program file : String}
  {arguments : List String}

/-- A program is drawn wherever it comes from. -/
theorem run_draw (hink : Text.hasInk program = true) (hfile : fs.Holds files file program) (way : Way)
    {r : DrawRequest} (hne : arguments ≠ [])
    (hrequest : Request.ofArguments arguments = .ok { task := some (.draw r) }) (hrfile : r.file = way.fileOf file)
    (hrprogram : r.program = way.programOf program) (htarget : r.target = none)
    (htitle : r.inPage = true → given r.title ≠ none) :
    ∃ traced, (run (fs.host strays measurer (way.standardInput program other) traceVariable) arguments).run files =
      match render program with
      | .error fault => (.failed "" (.program (way.source program file).name fault) .text traced, files)
      | .ok drawing =>
        ended strays .text traced (fs.deliver strays files r (way.source program file) (r.around drawing)) := by
  refine ⟨Request.asksForTrace arguments || traceVariable == some "1", ?_⟩
  have hboth : ¬(r.printed && (given r.target).isSome) = true := by simp [htarget, given]
  have hperform := DrawRequest.perform_run fs strays measurer (way.standardInput program other) traceVariable files r
  rw [if_neg hboth, hrfile, hrprogram, fs.found_of_way hink hfile] at hperform
  simp only [DrawRequest.document_of_way htitle] at hperform
  rw [run_request fs strays measurer _ traceVariable files hne hrequest]
  simp only [Request.perform, Task.perform, hperform]
  cases render program <;> rfl

/-- The labels of a program are checked wherever it comes from. -/
theorem run_check (hink : Text.hasInk program = true) (hfile : fs.Holds files file program) (way : Way)
    {strict : Bool} (hne : arguments ≠ [])
    (hrequest : Request.ofArguments arguments = .ok { task := some (.check
      { file := way.fileOf file, program := way.programOf program, strict := strict }) }) :
    ∃ traced, (run (fs.host strays measurer (way.standardInput program other) traceVariable) arguments).run files =
      match Fit.checkProgram measurer program with
      | .error fault => (.failed "" (.program (way.source program file).name fault) .text traced, files)
      | .ok issues =>
        ((⟨checkLines (way.source program file) issues, if strict && !issues.isEmpty then 1 else 0⟩ : Answer).outcome
          strays .text traced, files) := by
  refine ⟨Request.asksForTrace arguments || traceVariable == some "1", ?_⟩
  have hperform := CheckRequest.perform_run fs strays measurer (way.standardInput program other) traceVariable files
    { file := way.fileOf file, program := way.programOf program, strict := strict }
  simp only [fs.found_of_way hink hfile, Fit.checkProgram_of_lines (way.lines_source program file)] at hperform
  rw [run_request fs strays measurer _ traceVariable files hne hrequest]
  simp only [Request.perform, Task.perform, hperform]
  cases Fit.checkProgram measurer program <;> rfl

end

/-! ## All sources -/

section
variable {σ : Type} (fs : FileSystem σ) (strays : Text.StrayBytes) (measurer : Measurer)
  (other : Option (Except Text.Utf8Fault String)) (traceVariable : Option String) (files : σ) {program file : String}
  {before after : List PageOption}

theorem run_print (hink : Text.hasInk program = true) (hfile : fs.Holds files file program)
    (hbefore : ∀ o ∈ before, o.IsReadable) (hafter : ∀ o ∈ after, o.IsReadable)
    (htitle : PageOption.AreTitled (before ++ after)) (way : Way) :
    ∃ traced, (run (fs.host strays measurer (way.standardInput program other) traceVariable)
        (drawArguments before (way.printing program file) after)).run files =
      match render program with
      | .error fault => (.failed "" (.program (way.source program file).name fault) .text traced, files)
      | .ok drawing =>
        ((⟨[endLine ((PageOption.wishes (before ++ after)).around drawing)], 0⟩ : Answer).outcome strays .text traced,
          files) := by
  obtain ⟨inPage, title, hwishes⟩ := PageOption.wishes_eq (before ++ after)
  have hrequest := way.ofArguments_printing hfile hbefore hafter
  unfold PageOption.AreTitled at htitle
  rw [hwishes] at htitle hrequest ⊢
  obtain ⟨traced, hrun⟩ :=
    run_draw strays measurer other traceVariable hink hfile way (List.cons_ne_nil _ _) hrequest rfl rfl rfl htitle
  refine ⟨traced, hrun.trans ?_⟩
  cases render program with
  | error fault => rfl
  | ok drawing => cases way <;> rfl

/-- The file for the document of a program in a file. -/
def documentPath (file : String) (options : List PageOption) : Path :=
  (Path.ofString file).withSuffix (if (PageOption.wishes options).inPage then ".html" else ".svg")

theorem hasZero_documentPath (hfile : fs.Holds files file program) (options : List PageOption) :
    (documentPath file options).hasZero = false :=
  Path.hasZero_withSuffix hfile.usable (by split <;> decide)

theorem run_write (hink : Text.hasInk program = true) (hfile : fs.Holds files file program)
    (hbefore : ∀ o ∈ before, o.IsReadable) (hafter : ∀ o ∈ after, o.IsReadable)
    (htitle : PageOption.AreTitled (before ++ after)) :
    ∃ traced, (run (fs.host strays measurer other traceVariable) (drawArguments before [file] after)).run files =
      match render program with
      | .error fault => (.failed "" (.program (Path.ofString file).text fault) .text traced, files)
      | .ok drawing =>
        match fs.save strays files (documentPath file (before ++ after))
            ((PageOption.wishes (before ++ after)).around drawing) with
        | (.ok (), files') =>
          ((⟨[writtenLine (documentPath file (before ++ after))], 0⟩ : Answer).outcome strays .text traced, files')
        | (.error failure, files') => (.failed "" failure .text traced, files') := by
  obtain ⟨inPage, title, hwishes⟩ := PageOption.wishes_eq (before ++ after)
  have hrequest := ofArguments_writing hfile hbefore hafter
  unfold PageOption.AreTitled at htitle
  rw [hwishes] at htitle hrequest ⊢
  obtain ⟨traced, hrun⟩ := run_draw (r := { file := some file, inPage := inPage, title := title }) strays measurer
    other traceVariable hink hfile .file (List.cons_ne_nil _ _) hrequest rfl rfl rfl htitle
  refine ⟨traced, hrun.trans ?_⟩
  cases render program with
  | error fault => rfl
  | ok drawing =>
    have hpath : DrawRequest.targetPath { file := some file, inPage := inPage, title := title } (Path.ofString file) =
        documentPath file (before ++ after) := by
      rw [documentPath, hwishes]
      rfl
    have haround : ({ file := some file, inPage := inPage, title := title } : DrawRequest).around drawing =
        ({ inPage := inPage, title := title } : DrawRequest).around drawing := rfl
    simp only [FileSystem.deliver, Way.source, hpath, haround, Bool.false_eq_true, if_false]
    generalize fs.save strays files (documentPath file (before ++ after))
      (({ inPage := inPage, title := title } : DrawRequest).around drawing) = saved
    obtain ⟨result, files'⟩ := saved
    cases result <;> rfl

end

section
variable {σ : Type} (fs : FileSystem σ) (strays : Text.StrayBytes) (files : σ) (target : Path) (document : String)

/-- The system refuses to open a file at a path, or does not take the whole document. -/
def FileSystem.Refuses : Prop :=
  (∃ fault, fs.create files target = .error fault) ∨
    ∃ opened fault, fs.create files target = .ok opened ∧ (fs.fill opened target document).1 = some fault

/-- How a run ends that is to write a document, next to one that is to print it. A document with stray bytes makes both
fail alike, if the file for it can be opened. Any other is printed, and is what stands in its file afterwards, unless
the system refuses it; where it is can be said if the path has no stray bytes. -/
inductive EndsAlike (printed : Outcome) (written : Outcome × σ) : Prop
  | unencodable : strays.fault? document ≠ none → printed.said.failure ≠ none →
    (written.1.said = printed.said ∨ ∃ fault, fs.create files target = .error fault) → EndsAlike printed written
  | refused : printed = .answered (endLine document) 0 → fs.Refuses files target document → EndsAlike printed written
  | written {place : Place} : printed = .answered (endLine document) 0 →
    (written.1 = .answered (writtenLine target) 0 ∨ strays.fault? target.text ≠ none) →
    fs.locate files target = .ok place → fs.at? written.2 place = some (.file (Text.encode document)) →
    EndsAlike printed written

end

section
variable {σ : Type} {fs : FileSystem σ} {strays : Text.StrayBytes} {files : σ} {target : Path} {document : String}

theorem endsAlike_of_save {printed : Outcome} {written : Outcome × σ} {format : ReportFormat}
    {traced tracedWritten : Bool} (hzero : target.hasZero = false)
    (hprinted : printed = (⟨[endLine document], 0⟩ : Answer).outcome strays format traced)
    (hwritten : written =
      match fs.save strays files target document with
      | (.ok (), files') => ((⟨[writtenLine target], 0⟩ : Answer).outcome strays format tracedWritten, files')
      | (.error failure, files') => (.failed "" failure format tracedWritten, files')) :
    EndsAlike fs strays files target document printed written := by
  rw [outcome_single, fault?_endLine] at hprinted
  cases hsave : fs.save strays files target document with
  | mk result files' =>
    rw [hsave] at hwritten
    subst hprinted hwritten
    cases hfault : strays.fault? document with
    | some fault =>
      refine .unencodable (by simp [hfault]) nofun ?_
      cases FileSystem.saves_of_save hsave with
      | unusable h => cases hzero.symm.trans h
      | unopened _ hcreate => exact .inr ⟨_, hcreate⟩
      | unencodable _ h =>
        cases hfault.symm.trans h
        exact .inl rfl
      | unfilled _ h => cases hfault.symm.trans h
      | whole _ h => cases hfault.symm.trans h
    | none =>
      cases FileSystem.saves_of_save hsave with
      | unusable h => cases hzero.symm.trans h
      | unopened _ hcreate => exact .refused rfl (.inl ⟨_, hcreate⟩)
      | unencodable _ h => cases hfault.symm.trans h
      | unfilled hcreate _ hfill => exact .refused rfl (.inr ⟨_, _, hcreate, congrArg Prod.fst hfill⟩)
      | whole hcreate _ hfill =>
        obtain ⟨bytes, ⟨place, hplace, hcontent, -⟩, -, hwhole⟩ := FileSystem.puts_fill hcreate hfill
        obtain rfl := hwhole rfl
        refine .written rfl ?_ hplace hcontent
        dsimp only
        rw [outcome_single]
        cases hline : strays.fault? (writtenLine target) with
        | none => exact .inl rfl
        | some fault =>
          refine .inr fun htext => ?_
          cases hline.symm.trans ((fault?_writtenLine target).2 htext)

end

/-- Wherever a program comes from, a run that draws it says the same and leaves all files as they were. If it cannot be
drawn, a run that is to write the document beside the file of the program fails alike; if it can, the document that the
others print is what stands in the file afterwards, unless the system refuses to write it or nothing can be printed of
it. A run that checks the labels says the same if it fails, and otherwise reports the same issues in the same order,
unless the name of the file cannot be printed. -/
theorem run_of_any_source {σ : Type} (fs : FileSystem σ) (strays : Text.StrayBytes) (measurer : Measurer)
    (other : Option (Except Text.Utf8Fault String)) (traceVariable : Option String) (files : σ) {program file : String}
    {before after : List PageOption} (strict : Bool) (hink : Text.hasInk program = true)
    (hfile : fs.Holds files file program) (hbefore : ∀ o ∈ before, o.IsReadable) (hafter : ∀ o ∈ after, o.IsReadable)
    (htitle : PageOption.AreTitled (before ++ after)) :
    let ran (input : Option (Except Text.Utf8Fault String)) (arguments : List String) :=
      (run (fs.host strays measurer input traceVariable) arguments).run files
    let drawn (way : Way) :=
      ran (way.standardInput program other) (drawArguments before (way.printing program file) after)
    let written := ran other (drawArguments before [file] after)
    let checked (way : Way) :=
      ran (way.standardInput program other)
        ("check" :: (way.arguments program file ++ if strict then ["--strict"] else []))
    let page := PageOption.wishes (before ++ after)
    let target := documentPath file (before ++ after)
    (∀ way, (drawn way).1.said = (drawn .argument).1.said ∧ (drawn way).2 = files) ∧
      ((∃ fault, render program = .error fault) ∧ (drawn .argument).1.said.failure ≠ none ∧
          written.1.said = (drawn .argument).1.said ∧ written.2 = files ∨
        ∃ drawing, render program = .ok drawing ∧
          EndsAlike fs strays files target (page.around drawing) (drawn .argument).1 written) ∧
      ((∃ fault, Fit.checkProgram measurer program = .error fault) ∧
          (∀ way, (checked way).1.said = (checked .argument).1.said ∧ (checked way).1.said.failure ≠ none ∧
            (checked way).2 = files) ∨
        ∃ issues, Fit.checkProgram measurer program = .ok issues ∧ ∀ way, (checked way).2 = files ∧
          ((checked way).1 = .answered (checkReport (way.source program file) issues)
              (if strict && !issues.isEmpty then 1 else 0) ∨
            way = .file ∧ strays.fault? (Path.ofString file).text ≠ none ∧ (checked way).1.said.failure ≠ none)) := by
  intro ran drawn written checked page target
  have hdrawn := run_print fs strays measurer other traceVariable files hink hfile hbefore hafter htitle
  have hchecked (way : Way) := run_check strays measurer other traceVariable hink hfile way (List.cons_ne_nil _ _)
    (way.ofArguments_checking hfile strict)
  obtain ⟨traced, hargument⟩ := hdrawn .argument
  obtain ⟨tracedWritten, hwritten⟩ :=
    run_write fs strays measurer other traceVariable files hink hfile hbefore hafter htitle
  refine ⟨?_, ?_, ?_⟩
  · intro way
    obtain ⟨tracedWay, hway⟩ := hdrawn way
    simp only [drawn, ran, hway, hargument]
    cases render program with
    | error fault => exact ⟨said_program _ _ _ _ _ _ _, rfl⟩
    | ok drawing =>
      simp only [outcome_single]
      cases strays.fault? (endLine ((PageOption.wishes (before ++ after)).around drawing)) <;> exact ⟨rfl, trivial⟩
  · cases hrender : render program with
    | error fault =>
      rw [hrender] at hargument hwritten
      simp only [drawn, written, ran, hargument, hwritten]
      exact .inl ⟨⟨fault, rfl⟩, nofun, said_program _ _ _ _ _ _ _, trivial⟩
    | ok drawing =>
      rw [hrender] at hargument hwritten
      refine .inr ⟨drawing, rfl, ?_⟩
      exact endsAlike_of_save (hasZero_documentPath fs files hfile _) (congrArg Prod.fst hargument) hwritten
  · obtain ⟨tracedCheck, hcheck⟩ := hchecked .argument
    cases hissues : Fit.checkProgram measurer program with
    | error fault =>
      refine .inl ⟨⟨fault, rfl⟩, fun way => ?_⟩
      obtain ⟨tracedWay, hway⟩ := hchecked way
      rw [hissues] at hway hcheck
      simp only [checked, ran, hway, hcheck]
      exact ⟨said_program _ _ _ _ _ _ _, nofun, trivial⟩
    | ok issues =>
      refine .inr ⟨issues, rfl, fun way => ?_⟩
      obtain ⟨tracedWay, hway⟩ := hchecked way
      rw [hissues] at hway
      simp only [outcome_checkLines] at hway
      simp only [checked, ran, hway]
      refine ⟨trivial, ?_⟩
      have hplain {name : String} (h : Text.isPrintableText name = true) : strays.fault? name = none :=
        Text.StrayBytes.fault?_of_isPrintableText h
      cases hfault : strays.fault? (way.source program file).name with
      | none => exact .inl rfl
      | some fault =>
        have hfile : way = .file := by
          cases way with
          | argument => cases hfault.symm.trans (hplain (by decide : Text.isPrintableText "<text>" = true))
          | input => cases hfault.symm.trans (hplain (by decide : Text.isPrintableText "<stdin>" = true))
          | file => rfl
        subst hfile
        exact .inr ⟨rfl, fun hnone => (by cases hfault.symm.trans hnone), nofun⟩

/-- A program with all three ends of lines. -/
def mixedEnds : String := "Pin a 0 0\r\nPin b 9 9\rLine a b\n"

/-- A run where a file holds it. -/
def runOnMixedEnds (input : Option (Except Text.Utf8Fault String)) (arguments : List String) : Outcome × Disk :=
  (run (Disk.fileSystem.host .absent (.byCharacter [] 10) input none) arguments).run
    ⟨[(["a.pin"], .file (Text.encode mixedEnds))]⟩

theorem run_of_any_source_mixed_ends :
    ∃ document,
      (runOnMixedEnds none ["render", "--html", "--text=" ++ mixedEnds, "--title", "T"]).1 =
          .answered (endLine document) 0 ∧
        (runOnMixedEnds (some (.ok mixedEnds)) ["render", "--html", "--title", "T"]).1.said =
          ⟨endLine document, 0, none⟩ ∧
        (runOnMixedEnds none ["render", "--html", "a.pin", "--stdout", "--title", "T"]).1.said =
          ⟨endLine document, 0, none⟩ ∧
        Disk.fileSystem.at? (runOnMixedEnds none ["render", "--html", "a.pin", "--title", "T"]).2 ["a.html"] =
          some (.file (Text.encode document)) := by
  have hfile : Disk.fileSystem.Holds ⟨[(["a.pin"], .file (Text.encode mixedEnds))]⟩ "a.pin" mixedEnds :=
    ⟨by decide, isOperand_of_head _ (by decide), isOperand_of_head _ (by decide), by decide, rfl⟩
  have hbefore : ∀ o ∈ [PageOption.html], o.IsReadable := by simp [PageOption.IsReadable]
  have hafter : ∀ o ∈ [PageOption.titleNext "T"], o.IsReadable :=
    List.forall_mem_singleton.2 (isOperand_of_head _ (by decide))
  have htitle : PageOption.AreTitled ([.html] ++ [.titleNext "T"]) := by
    intro _
    decide
  have hink : Text.hasInk mixedEnds = true := by decide
  have hrequest : Request.ofArguments ["render", "--html", "--text=" ++ mixedEnds, "--title", "T"] =
      .ok { task := some (.draw { program := some mixedEnds, inPage := true, title := some "T" }) } := by decide +kernel
  have hstatus : (runOnMixedEnds none ["render", "--html", "--text=" ++ mixedEnds, "--title", "T"]).1.exitStatus = 0 :=
    Disk.run_exitStatus _ _ _ _ (by simp) hrequest nofun rfl (by decide +kernel) nofun
  obtain ⟨hsame, hends, -⟩ := run_of_any_source Disk.fileSystem .absent (.byCharacter [] 10) none none _ false hink
    hfile hbefore hafter htitle
  rcases hends with ⟨-, hfailure, -⟩ | ⟨drawing, -, hends⟩
  · exact absurd (Outcome.failure_said_of_status hstatus) hfailure
  · generalize (PageOption.wishes ([.html] ++ [.titleNext "T"])).around drawing = document at hends
    have hends : EndsAlike Disk.fileSystem .absent ⟨[(["a.pin"], .file (Text.encode mixedEnds))]⟩
        (documentPath "a.pin" ([.html] ++ [.titleNext "T"])) document
        (runOnMixedEnds none ["render", "--html", "--text=" ++ mixedEnds, "--title", "T"]).1
        (runOnMixedEnds none ["render", "--html", "a.pin", "--title", "T"]) := hends
    cases hends with
    | unencodable hfault => exact absurd (Text.StrayBytes.fault?_absent document) hfault
    | refused _ hrefused =>
      rcases hrefused with ⟨fault, hfault⟩ | ⟨opened, fault, hcreate, hfill⟩
      · cases hfault
      · cases hcreate
        cases hfill
    | written hdocument _ hplace hcontent =>
      have hsaid := congrArg Outcome.said hdocument
      cases hplace
      exact ⟨document, hdocument, (hsame .input).1.trans hsaid, (hsame .file).1.trans hsaid, hcontent⟩

end CommandLine
end Pinboard
