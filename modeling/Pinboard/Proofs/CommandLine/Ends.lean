import Pinboard.Proofs.Chart.Outcome
import Pinboard.Proofs.CommandLine.Printing

/-!
# How a run ends

What a run has to print comes last, and before it nothing changes but the file for the document of a program in a
file. So a run that fails has one of few causes, each with a code and an exit status of its own, and leaves no trace but
its report (`FailsWith`), unless it breaks off when it has opened that file: then the file is left with a first part of
the document in it, which may be nothing or all of it (`BreaksOff`). Main statement: a run fails in one of these ways or
answers without a report, and then the file for the document is the only one that it may have changed
(`run_fails_or_answers`).
-/

namespace Pinboard.CommandLine

variable {σ : Type}

/-- The arguments ask for a task. -/
def AsksFor (arguments : List String) (task : Task) : Prop :=
  arguments ≠ [] ∧ ∃ request, Request.ofArguments arguments = .ok request ∧ request.task = some task

theorem asksFor_of_ofArguments {arguments : List String} {task : Task} (hne : arguments ≠ [])
    (h : Request.ofArguments arguments = .ok { task := some task }) : AsksFor arguments task :=
  ⟨hne, _, h, rfl⟩

/-- The file and the program that a task names, if it is about a program at all. -/
def Task.input : Task → Option (Option String × Option String)
  | .draw r => some (r.file, r.program)
  | .check r => some (r.file, r.program)
  | .reference => none

/-! ## Causes of failures -/

section
variable (fs : FileSystem σ) (strays : Text.StrayBytes) (measurer : Measurer)
  (standardInput : Option (Except Text.Utf8Fault String)) (arguments : List String) (files : σ)

/-- The arguments ask for a task about the program of a source. -/
def IsAbout (source : Source) : Prop :=
  ∃ task file program, AsksFor arguments task ∧ task.input = some (file, program) ∧
    fs.found standardInput files file program = .ok source

/-- The arguments ask for the document of a program in a file, which is not to be printed but to be written to a
path. -/
def IsToWrite (target : Path) (document : String) : Prop :=
  ∃ r source file, AsksFor arguments (.draw r) ∧ r.printed = false ∧
    fs.found standardInput files r.file r.program = .ok source ∧ source.path = some file ∧
      target = r.targetPath file ∧ r.document source = .ok document

/-- What can make a run fail before it has changed anything, with the code and the exit status for it. -/
inductive FailsWith : String → Nat → Prop
  | usage {fault : UsageFault} : Request.ofArguments arguments = .error (.fault fault) → FailsWith "E_ARGS" 2
  | noCommand : (arguments = [] ∨ ∃ request, Request.ofArguments arguments = .ok request ∧ request.task = none) →
    FailsWith "E_ARGS" 2
  /-- The document is to be printed and to be written to a file. -/
  | twoTargets {r : DrawRequest} : AsksFor arguments (.draw r) → r.printed = true → given r.target ≠ none →
    FailsWith "E_ARGS" 2
  /-- Both a program and a file with a program are given. -/
  | twoPrograms {task : Task} {file program : Option String} : AsksFor arguments task →
    task.input = some (file, program) → given file ≠ none → program ≠ none → FailsWith "E_ARGS" 2
  | noInput {task : Task} {file program : Option String} : AsksFor arguments task →
    task.input = some (file, program) → given file = none → program = none →
    (standardInput = none ∨ ∃ text, standardInput = some (.ok text) ∧ Text.hasInk text = false) → FailsWith "E_ARGS" 2
  /-- The standard input is no text. -/
  | inputNotText {task : Task} {file program : Option String} {fault : Text.Utf8Fault} : AsksFor arguments task →
    task.input = some (file, program) → given file = none → program = none → standardInput = some (.error fault) →
    FailsWith "E_INTERNAL" 1
  /-- The file with the program is not there, or is not one to be read. -/
  | unread {task : Task} {name : String} {file program : Option String} : AsksFor arguments task →
    task.input = some (file, program) → given file = some name → program = none →
    ((Path.ofString name).hasZero = true ∨ fs.read files (.ofString name) = .absent ∨
      ∃ fault, fs.read files (.ofString name) = .refused fault) → FailsWith "E_IO_READ" 2
  /-- It cannot be found out whether the file with the program is there, or it holds no text. -/
  | unclear {task : Task} {name : String} {file program : Option String} : AsksFor arguments task →
    task.input = some (file, program) → given file = some name → program = none →
    ((∃ fault, fs.read files (.ofString name) = .unclear fault) ∨
      ∃ bytes fault, fs.read files (.ofString name) = .content bytes ∧ Text.decode bytes = .error fault) →
    FailsWith "E_INTERNAL" 1
  | complaint {source : Source} {c : Complaint} {line : Nat} {text : String} :
    IsAbout fs standardInput arguments files source → interpret source.program = .error (.complaint c line text) →
    FailsWith c.kind.code 3
  | breakdown {source : Source} {bd : Breakdown} : IsAbout fs standardInput arguments files source →
    (interpret source.program = .error (.breakdown bd) ∨
      Fit.checkProgram measurer source.program = .error (.breakdown bd)) → FailsWith "E_INTERNAL" 1
  /-- The document is to be printed, and has stray bytes. -/
  | unprintable {r : DrawRequest} {source : Source} {document : String} : AsksFor arguments (.draw r) →
    fs.found standardInput files r.file r.program = .ok source → (source.path = none ∨ r.printed = true) →
    r.document source = .ok document → strays.fault? document ≠ none → FailsWith "E_INTERNAL" 1
  /-- The labels are to be reported on, and the name of the source has stray bytes. -/
  | unreportable {r : CheckRequest} {source : Source} {issues : List FitIssue} : AsksFor arguments (.check r) →
    fs.found standardInput files r.file r.program = .ok source → Fit.checkProgram measurer source.program = .ok issues →
    strays.fault? source.name ≠ none → FailsWith "E_INTERNAL" 1
  /-- The path for the document has a character that no name can have. -/
  | unusable {target : Path} {document : String} : IsToWrite fs standardInput arguments files target document →
    target.hasZero = true → FailsWith "E_INTERNAL" 1
  /-- The file for the document cannot be opened. -/
  | unopened {target : Path} {document : String} {fault : PathFault} :
    IsToWrite fs standardInput arguments files target document → fs.create files target = .error fault →
    FailsWith "E_IO_WRITE" 4

/-- What can make a run fail when the file for the document is open, with the code and the exit status for it, and the
bytes that it leaves in the file. -/
inductive BreaksOff (target : Path) (document : String) : String → Nat → List UInt8 → Prop
  /-- The document has stray bytes. -/
  | unencodable {opened : σ} : fs.create files target = .ok opened → strays.fault? document ≠ none →
    BreaksOff target document "E_INTERNAL" 1 []
  /-- The system does not take the whole document. -/
  | unfilled {opened files' : σ} {fault : PathFault} {bytes : List UInt8} : fs.create files target = .ok opened →
    strays.fault? document = none → fs.fill opened target document = (some fault, files') →
    bytes <+: Text.encode document → BreaksOff target document "E_IO_WRITE" 4 bytes
  /-- The path has stray bytes, so that it cannot be said where the document is. -/
  | unannounced {opened files' : σ} : fs.create files target = .ok opened → strays.fault? document = none →
    fs.fill opened target document = (none, files') → strays.fault? target.text ≠ none →
    BreaksOff target document "E_INTERNAL" 1 (Text.encode document)

end

/-! ## Reports -/

/-- A report begins with a code, in the form for people or in that for programs. -/
def Announces (code report : String) : Prop :=
  ∃ rest, report = "error[" ++ code ++ "]: " ++ rest ∨
    report = "\x7b\"ok\": false, \"code\": \"" ++ code ++ "\"" ++ rest

theorem jsonText_code (group : FailureGroup) : Text.jsonText group.code = "\"" ++ group.code ++ "\"" := by
  cases group with
  | complaint kind => cases kind <;> decide
  | _ => decide

theorem report_announces (failure : Failure) (format : ReportFormat) :
    Announces failure.group.code (failure.report format) := by
  cases format with
  | text =>
    refine ⟨failure.message ++ ("\n" ++ failure.hint.elim "" fun hint => "hint: " ++ hint ++ "\n"), .inl ?_⟩
    rw [Failure.report, Failure.textReport]
    cases failure.hint <;> simp only [Option.elim_none, Option.elim_some, String.append_assoc]
  | json =>
    have hfirst (ok code message : String) (more : List String) :
        commaList (ok :: code :: message :: more) = ok ++ ", " ++ (code ++ (", " ++ commaList (message :: more))) := by
      simp only [commaList, String.intercalate_cons_cons, String.append_assoc]
    have hok : Text.jsonText "ok" ++ ": " ++ "false" = "\"ok\": false" := by decide
    have hcode : Text.jsonText "code" ++ ": " = "\"code\": " := by decide
    rw [Failure.report, Failure.jsonReport]
    simp only [List.map_cons, List.map_nil]
    rw [hfirst, hok, hcode, jsonText_code]
    generalize commaList _ = rest
    refine ⟨", " ++ rest ++ "\x7d\n", .inr ?_⟩
    have hfront : "\x7b" ++ ("\"ok\": false" ++ (", " ++ ("\"code\": " ++ "\""))) = "\x7b\"ok\": false, \"code\": \"" := by
      decide
    rw [← hfront]
    simp only [String.append_assoc]

/-! ## Answers -/

theorem AsksFor.unique {arguments : List String} {task task' : Task} (h : AsksFor arguments task)
    (h' : AsksFor arguments task') : task = task' := by
  obtain ⟨-, request, hrequest, htask⟩ := h
  obtain ⟨-, request', hrequest', htask'⟩ := h'
  cases hrequest.symm.trans hrequest'
  exact Option.some.inj (htask.symm.trans htask')

section
variable (fs : FileSystem σ) (strays : Text.StrayBytes) (measurer : Measurer)
  (standardInput : Option (Except Text.Utf8Fault String)) (arguments : List String) (files : σ)

/-- A run that answers reports nothing, and its exit status tells about the issues of a strict check alone. It leaves
all files as they were; or it draws a program in a file, not to be printed, and has put the document into the file for
it and changed no other. -/
structure Answers (outcome : Outcome) (files' : σ) : Prop where
  report : outcome.report = ""
  trace : outcome.trace = none
  status : outcome.exitStatus = 0 ∨ outcome.exitStatus = 1
  strict : outcome.exitStatus = 1 ↔
    ∃ r source issues, AsksFor arguments (.check r) ∧ r.strict = true ∧
      fs.found standardInput files r.file r.program = .ok source ∧
        Fit.checkProgram measurer source.program = .ok issues ∧ issues ≠ []
  files : files' = files ∨
    ∃ target document, IsToWrite fs standardInput arguments files target document ∧
      fs.Puts files target (Text.encode document) files'

/-- How a run may end. In the first two cases a failure is reported, and nothing else is printed. -/
inductive RunEnds (outcome : Outcome) (files' : σ) : Prop
  | fails {code : String} (cause : FailsWith fs strays measurer standardInput arguments files code outcome.exitStatus)
    (report : Announces code outcome.report) (output : outcome.output = "") (unchanged : files' = files)
  | breaksOff {target : Path} {document code : String} {bytes : List UInt8}
    (isToWrite : IsToWrite fs standardInput arguments files target document)
    (cause : BreaksOff fs strays files target document code outcome.exitStatus bytes)
    (report : Announces code outcome.report) (output : outcome.output = "") (puts : fs.Puts files target bytes files')
  | answers (h : Answers fs measurer standardInput arguments files outcome files')

variable {fs strays measurer standardInput arguments files} {failure : Failure} {format : ReportFormat} {traced : Bool}
  {files' : σ}

theorem runEnds_failed
    (h : FailsWith fs strays measurer standardInput arguments files failure.group.code failure.group.exitStatus) :
    RunEnds fs strays measurer standardInput arguments files (.failed "" failure format traced) files :=
  .fails h (report_announces failure format) rfl rfl

theorem runEnds_brokenOff {target : Path} {document : String} {bytes : List UInt8}
    (hwrite : IsToWrite fs standardInput arguments files target document)
    (h : BreaksOff fs strays files target document failure.group.code failure.group.exitStatus bytes)
    (hputs : fs.Puts files target bytes files') :
    RunEnds fs strays measurer standardInput arguments files (.failed "" failure format traced) files' :=
  .breaksOff hwrite h (report_announces failure format) rfl hputs

/-- An answer that is not that of a check has the status 0. -/
theorem runEnds_answered {output : String} (hcheck : ∀ r, ¬AsksFor arguments (.check r))
    (hfiles : files' = files ∨ ∃ target document, IsToWrite fs standardInput arguments files target document ∧
      fs.Puts files target (Text.encode document) files') :
    RunEnds fs strays measurer standardInput arguments files (.answered output 0) files' := by
  refine .answers ⟨rfl, rfl, .inl rfl, ⟨nofun, ?_⟩, hfiles⟩
  rintro ⟨r, -, -, hasks, -⟩
  exact absurd hasks (hcheck r)

/-! ## Runs -/

/-- Where no program is found, the arguments, the standard input or the file for it is to blame. -/
theorem failsWith_of_found {task : Task} {file program : Option String} {failure : Failure}
    (hasks : AsksFor arguments task) (hinput : task.input = some (file, program))
    (h : fs.found standardInput files file program = .error failure) :
    FailsWith fs strays measurer standardInput arguments files failure.group.code failure.group.exitStatus := by
  cases hfile : given file with
  | some name =>
    cases program with
    | some text =>
      unfold FileSystem.found at h
      rw [hfile] at h
      cases h
      exact .twoPrograms hasks hinput (by simp [hfile]) (by simp)
    | none =>
      rw [FileSystem.found_file hfile] at h
      unfold FileSystem.content at h
      split at h
      next hzero =>
        cases h
        exact .unread hasks hinput hfile rfl (.inl hzero)
      next =>
        split at h
        next habsent =>
          cases h
          exact .unread hasks hinput hfile rfl (.inr (.inl habsent))
        next fault hunclear =>
          cases h
          exact .unclear hasks hinput hfile rfl (.inl ⟨fault, hunclear⟩)
        next fault hrefused =>
          cases h
          exact .unread hasks hinput hfile rfl (.inr (.inr ⟨fault, hrefused⟩))
        next bytes hbytes =>
          split at h
          next fault hfault =>
            cases h
            exact .unclear hasks hinput hfile rfl (.inr ⟨bytes, fault, hbytes, hfault⟩)
          next => cases h
  | none =>
    cases program with
    | some text =>
      rw [FileSystem.found_argument hfile] at h
      cases h
    | none =>
      rcases standardInput with _ | fault | text
      · unfold FileSystem.found at h
        rw [hfile] at h
        cases h
        exact .noInput hasks hinput hfile rfl (.inl rfl)
      · unfold FileSystem.found at h
        rw [hfile] at h
        cases h
        exact .inputNotText hasks hinput hfile rfl rfl
      · rw [FileSystem.found_input hfile] at h
        split at h
        next => cases h
        next hink =>
          cases h
          exact .noInput hasks hinput hfile rfl (.inr ⟨text, rfl, by simpa using hink⟩)

/-- A program that cannot be drawn or checked is to blame itself. -/
theorem failsWith_of_fault {source : Source} {fault : ProgramFault}
    (habout : IsAbout fs standardInput arguments files source)
    (h : interpret source.program = .error fault ∨ Fit.checkProgram measurer source.program = .error fault) :
    FailsWith fs strays measurer standardInput arguments files (Failure.program source.name fault).group.code
      (Failure.program source.name fault).group.exitStatus := by
  cases fault with
  | breakdown bd => exact .breakdown habout h
  | complaint c line text =>
    suffices hcomplaint : interpret source.program = .error (.complaint c line text) from .complaint habout hcomplaint
    rcases h with h | h
    · exact h
    · rw [Fit.checkProgram] at h
      cases hchart : interpret source.program with
      | error fault =>
        rw [hchart] at h
        cases h
        rfl
      | ok chart =>
        rw [hchart] at h
        simp only [bind, Except.bind] at h
        split at h <;> cases h

/-- A document that is to be printed is printed, unless it has stray bytes. -/
theorem runEnds_printed {r : DrawRequest} {source : Source} {document : String} (hasks : AsksFor arguments (.draw r))
    (hfound : fs.found standardInput files r.file r.program = .ok source)
    (hprinted : source.path = none ∨ r.printed = true) (hdocument : r.document source = .ok document) :
    RunEnds fs strays measurer standardInput arguments files
      ((⟨[endLine document], 0⟩ : Answer).outcome strays format traced) files := by
  rw [outcome_single, fault?_endLine]
  cases hfault : strays.fault? document with
  | none => exact runEnds_answered (fun r' h => by cases hasks.unique h) (.inl rfl)
  | some fault => exact runEnds_failed (.unprintable hasks hfound hprinted hdocument (by simp [hfault]))

/-- A document that is to be written to a file is put into it, unless the run fails or breaks off. -/
theorem runEnds_saved {target : Path} {document : String} {result : Except Failure Unit} {files' : σ}
    (hcheck : ∀ r, ¬AsksFor arguments (.check r)) (hwrite : IsToWrite fs standardInput arguments files target document)
    (h : fs.save strays files target document = (result, files')) :
    RunEnds fs strays measurer standardInput arguments files
      (match result with
        | .ok () => (⟨[writtenLine target], 0⟩ : Answer).outcome strays format traced
        | .error failure => .failed "" failure format traced) files' := by
  cases FileSystem.saves_of_save h with
  | unusable hzero => exact runEnds_failed (.unusable hwrite hzero)
  | unopened _ hcreate => exact runEnds_failed (.unopened hwrite hcreate)
  | unencodable hcreate hfault =>
    exact runEnds_brokenOff hwrite (.unencodable hcreate (by simp [hfault])) (FileSystem.puts_create hcreate)
  | unfilled hcreate hfault hfill =>
    obtain ⟨bytes, hputs, hpart, -⟩ := FileSystem.puts_fill hcreate hfill
    exact runEnds_brokenOff hwrite (.unfilled hcreate hfault hfill hpart) hputs
  | whole hcreate hfault hfill =>
    obtain ⟨bytes, hputs, -, hwhole⟩ := FileSystem.puts_fill hcreate hfill
    obtain rfl := hwhole rfl
    dsimp only
    rw [outcome_single]
    cases hline : strays.fault? (writtenLine target) with
    | none => exact runEnds_answered hcheck (.inr ⟨target, document, hwrite, hputs⟩)
    | some fault =>
      refine runEnds_brokenOff hwrite (.unannounced hcreate hfault hfill fun htext => ?_) hputs
      cases hline.symm.trans ((fault?_writtenLine target).2 htext)

theorem DrawRequest.ended_ends {r : DrawRequest} (hasks : AsksFor arguments (.draw r))
    (traceVariable : Option String) :
    let final := ended strays format traced
      ((r.perform (fs.host strays measurer standardInput traceVariable)).run.run files)
    RunEnds fs strays measurer standardInput arguments files final.1 final.2 := by
  have hcheck (r' : CheckRequest) : ¬AsksFor arguments (.check r') := fun h => by cases hasks.unique h
  dsimp only
  rw [perform_run]
  split
  next hboth =>
    obtain ⟨hp, ht⟩ := Bool.and_eq_true_iff.1 hboth
    refine runEnds_failed (.twoTargets hasks hp ?_)
    rintro hnone
    simp [hnone] at ht
  next =>
    cases hfound : fs.found standardInput files r.file r.program with
    | error failure => exact runEnds_failed (failsWith_of_found hasks rfl hfound)
    | ok source =>
      have habout : IsAbout fs standardInput arguments files source := ⟨.draw r, r.file, r.program, hasks, rfl, hfound⟩
      cases hdocument : r.document source with
      | error failure =>
        simp only [hdocument]
        rw [document] at hdocument
        cases hrender : render source.program with
        | ok drawing =>
          rw [hrender] at hdocument
          cases hdocument
        | error fault =>
          rw [hrender] at hdocument
          cases hdocument
          exact runEnds_failed (failsWith_of_fault habout (.inl (render_error_iff.1 hrender)))
      | ok document =>
        simp only [hdocument, FileSystem.deliver]
        cases hpath : source.path with
        | none => exact runEnds_printed hasks hfound (.inl hpath) hdocument
        | some file =>
          by_cases hp : r.printed = true
          · simp only [hp, if_true]
            exact runEnds_printed hasks hfound (.inr hp) hdocument
          simp only [hp, Bool.false_eq_true, if_false]
          rw [Bool.not_eq_true] at hp
          have hwrite : IsToWrite fs standardInput arguments files (r.targetPath file) document :=
            ⟨r, source, file, hasks, hp, hfound, hpath, rfl, hdocument⟩
          cases hsave : fs.save strays files (r.targetPath file) document with
          | mk result files' => cases result <;> exact runEnds_saved hcheck hwrite hsave

theorem CheckRequest.ended_ends {r : CheckRequest} (hasks : AsksFor arguments (.check r))
    (traceVariable : Option String) :
    let final := ended strays format traced
      ((r.perform (fs.host strays measurer standardInput traceVariable)).run.run files)
    RunEnds fs strays measurer standardInput arguments files final.1 final.2 := by
  dsimp only
  rw [perform_run]
  cases hfound : fs.found standardInput files r.file r.program with
  | error failure => exact runEnds_failed (failsWith_of_found hasks rfl hfound)
  | ok source =>
    have habout : IsAbout fs standardInput arguments files source := ⟨.check r, r.file, r.program, hasks, rfl, hfound⟩
    cases hissues : Fit.checkProgram measurer source.program with
    | error fault =>
      simp only [hissues]
      exact runEnds_failed (failsWith_of_fault habout (.inr hissues))
    | ok issues =>
      simp only [hissues, ended, outcome_checkLines]
      cases hname : strays.fault? source.name with
      | some fault => exact runEnds_failed (.unreportable hasks hfound hissues (by simp [hname]))
      | none =>
        have hstatus : ((if r.strict && !issues.isEmpty then 1 else 0 : Nat) = 1) ↔ r.strict = true ∧ issues ≠ [] := by
          cases r.strict <;> cases issues <;> simp
        refine .answers ⟨rfl, rfl, ?_, ?_, .inl rfl⟩
        · show (if r.strict && !issues.isEmpty then 1 else 0 : Nat) = 0 ∨ _ = 1
          split
          · exact .inr rfl
          · exact .inl rfl
        · refine hstatus.trans ⟨fun ⟨hs, hne⟩ => ⟨r, source, issues, hasks, hs, hfound, hissues, hne⟩, ?_⟩
          rintro ⟨r', source', issues', hasks', hs, hfound', hissues', hne⟩
          cases hasks.unique hasks'
          cases hfound.symm.trans hfound'
          cases hissues.symm.trans hissues'
          exact ⟨hs, hne⟩

end

/-- Every run ends, and fails or answers. If it fails, it reports a code, has the exit status for it and prints nothing.
Then it leaves all files as they were, or it has opened the file for the document of a program in a file, and leaves a
first part of the document in it: nothing if the document has stray bytes, what the system has taken of it, or all of it
if the path has stray bytes. If it answers, it reports nothing; its exit status is 0, or 1 if a strict check has found
an issue; and the file for the document is the only one that it may have changed. -/
theorem run_fails_or_answers (fs : FileSystem σ) (strays : Text.StrayBytes) (measurer : Measurer)
    (standardInput : Option (Except Text.Utf8Fault String)) (traceVariable : Option String) (arguments : List String)
    (files : σ) :
    ∃ outcome files',
      (run (fs.host strays measurer standardInput traceVariable) arguments).run files = (outcome, files') ∧
        RunEnds fs strays measurer standardInput arguments files outcome files' := by
  by_cases hne : arguments = []
  · subst hne
    exact ⟨_, _, rfl, runEnds_failed (.noCommand (.inl rfl))⟩
  cases hrequest : Request.ofArguments arguments with
  | error interruption =>
    have hnone (task : Task) : ¬AsksFor arguments task := by
      rintro ⟨-, request, h, -⟩
      cases hrequest.symm.trans h
    unfold run
    rw [if_neg fun h => hne (List.isEmpty_iff.1 h), hrequest]
    cases interruption with
    | help page => exact ⟨_, _, rfl, runEnds_answered (fun r => hnone _) (.inl rfl)⟩
    | fault fault => exact ⟨_, _, rfl, runEnds_failed (.usage hrequest)⟩
  | ok request =>
    refine ⟨_, _, run_request fs strays measurer standardInput traceVariable files hne hrequest, ?_⟩
    unfold Request.perform
    cases htask : request.task with
    | none => exact runEnds_failed (.noCommand (.inr ⟨request, hrequest, htask⟩))
    | some task =>
      have hasks : AsksFor arguments task := ⟨hne, request, hrequest, htask⟩
      cases task with
      | draw r => exact DrawRequest.ended_ends hasks traceVariable
      | check r => exact CheckRequest.ended_ends hasks traceVariable
      | reference =>
        simp only [Task.perform, run_pure]
        rw [outcome_single, fault?_commandReference]
        exact runEnds_answered (fun r h => by cases hasks.unique h) (.inl rfl)

/-- A page with a stray byte in its title cannot be written. That is reported, and yet a file is new: the one for the
page, with nothing in it. -/
theorem run_breaks_off_at_stray_title :
    let strays : Text.StrayBytes := ⟨0x10ff80, by decide⟩
    let stray := Char.ofNat 0x10ffff
    let disk : Disk := ⟨[(["a.pin"], .file (Text.encode "Pin p 1 1"))]⟩
    let host := Disk.fileSystem.host strays (.byCharacter [] 10) none none
    let final := (run host ["render", "a.pin", "--html", "--title", String.singleton stray]).run disk
    strays.byte? stray = some 0xff ∧ final.1.exitStatus = 1 ∧ final.1.report ≠ "" ∧
      disk.at? ["a.html"] = none ∧ final.2.at? ["a.html"] = some (.file []) := by
  intro strays stray disk host final
  let r : DrawRequest := { file := some "a.pin", inPage := true, title := some (String.singleton stray) }
  let source : Source := ⟨"a.pin", "Pin p 1 1", some (.ofString "a.pin")⟩
  have hrequest : Request.ofArguments ["render", "a.pin", "--html", "--title", String.singleton stray] =
      .ok { task := some (.draw r) } := by decide +kernel
  have htraced : Request.asksForTrace ["render", "a.pin", "--html", "--title", String.singleton stray] = false := by
    decide +kernel
  have hfound : Disk.fileSystem.found none disk r.file r.program = .ok source := by decide +kernel
  obtain ⟨drawing, hdrawing⟩ := exists_of_isOk (by decide +kernel : (render source.program).isOk = true)
  have htitle : strays.fault? (String.singleton stray) ≠ none := by decide +kernel
  obtain ⟨fault, hfault⟩ := Option.ne_none_iff_exists'.1 (fault?_wrap_of_title htitle drawing)
  have hdocument : r.document source = .ok (Page.wrap (String.singleton stray) drawing) := by
    rw [DrawRequest.document, hdrawing]
    rfl
  have hsave : Disk.fileSystem.save strays disk (r.targetPath (.ofString "a.pin"))
      (Page.wrap (String.singleton stray) drawing) = (.error (.unencodable fault), disk.put ["a.html"] []) := by
    have hzero : (r.targetPath (.ofString "a.pin")).hasZero = false := by decide +kernel
    have hcreate : Disk.fileSystem.create disk (r.targetPath (.ofString "a.pin")) = .ok (disk.put ["a.html"] []) := by
      decide +kernel
    unfold FileSystem.save
    rw [hzero, hcreate, hfault]
    rfl
  have hfinal : final = (.failed "" (.unencodable fault) .text false, disk.put ["a.html"] []) := by
    refine (run_deliver _ _ _ _ _ _ (by simp) hrequest rfl nofun hfound hdocument).trans ?_
    dsimp only [FileSystem.deliver, source]
    rw [if_neg (by decide), hsave, htraced]
    rfl
  have hreport : (Failure.unencodable fault).textReport ≠ "" := by
    simp [Failure.textReport]
  rw [hfinal]
  exact ⟨by decide, rfl, hreport, by decide, Disk.at?_put (by decide) _⟩

end Pinboard.CommandLine
