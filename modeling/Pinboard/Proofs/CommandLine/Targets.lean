import Pinboard.Proofs.CommandLine.Ends

/-!
# Where a document goes

A document is written to a file (`Written`) or printed (`Printed`). Which of the two is decided by where its program is
and by the wish to have it printed (`run_draw_delivers`); the path that is given for it has no part in the choice.
Main statement: a path for the document is heeded if the program is in a file that is given, and passed over if it is
given in an argument or comes from the standard input (`run_heeds_target_of_file`).
-/

namespace Pinboard.CommandLine

variable {σ : Type}

section
variable (fs : FileSystem σ) (files : σ)

/-- A document is the new content of the file at a path, which is all that is said of it. No other file changes. -/
structure Written (path : Path) (document : String) (ended : Outcome × σ) : Prop where
  said : ended.1 = .answered (writtenLine path) 0
  content : fs.Puts files path (Text.encode document) ended.2

/-- A document is printed, and all files are as they were. -/
structure Printed (document : String) (ended : Outcome × σ) : Prop where
  said : ended.1 = .answered (endLine document) 0
  files : ended.2 = files

end

section
variable {fs : FileSystem σ} {strays : Text.StrayBytes} {standardInput : Option (Except Text.Utf8Fault String)}
  {arguments : List String} {files : σ} {r : DrawRequest}

/-- A program is in a file if a file is given for it. -/
theorem FileSystem.path_of_found {file program : Option String} {source : Source}
    (h : fs.found standardInput files file program = .ok source) :
    source.path = (given file).map Path.ofString := by
  cases hfile : given file with
  | none =>
    cases program with
    | some text =>
      rw [found_argument hfile] at h
      cases h
      rfl
    | none =>
      rcases standardInput with _ | fault | text
      · unfold found at h
        rw [hfile] at h
        cases h
      · unfold found at h
        rw [hfile] at h
        cases h
      · rw [found_input hfile] at h
        split at h <;> cases h
        rfl
  | some name =>
    cases program with
    | some text =>
      unfold found at h
      rw [hfile] at h
      cases h
    | none =>
      rw [found_file hfile] at h
      unfold content at h
      split at h
      · cases h
      · split at h
        any_goals cases h
        split at h <;> cases h
        rfl

/-- A document that is delivered is written if its program is in a file and it is not to be printed. -/
theorem FileSystem.deliver_ends {source : Source} {document : String} {answer : Answer} {files' : σ}
    (h : fs.deliver strays files r source document = (.ok answer, files')) :
    (∃ file, source.path = some file ∧ r.printed = false ∧ answer = ⟨[writtenLine (r.targetPath file)], 0⟩ ∧
        fs.Puts files (r.targetPath file) (Text.encode document) files') ∨
      (source.path = none ∨ r.printed = true) ∧ answer = ⟨[endLine document], 0⟩ ∧ files' = files := by
  unfold deliver at h
  cases hpath : source.path with
  | none =>
    rw [hpath] at h
    cases h
    exact .inr ⟨.inl rfl, rfl, rfl⟩
  | some file =>
    simp only [hpath] at h
    cases hprinted : r.printed with
    | true =>
      rw [hprinted] at h
      cases h
      exact .inr ⟨.inr rfl, rfl, rfl⟩
    | false =>
      simp only [hprinted, Bool.false_eq_true, if_false] at h
      split at h
      next files'' hsave =>
        cases h
        cases saves_of_save hsave with
        | whole hcreate _ hfill =>
          obtain ⟨bytes, hputs, -, hwhole⟩ := puts_fill hcreate hfill
          obtain rfl := hwhole rfl
          exact .inl ⟨file, rfl, rfl, rfl, hputs⟩
      next => cases h

/-- A run that draws a program ends well in two ways only. It writes the document if the program is in a file that is
given and the document is not to be printed; otherwise it prints it. -/
theorem run_draw_delivers (fs : FileSystem σ) (strays : Text.StrayBytes) (measurer : Measurer)
    (standardInput : Option (Except Text.Utf8Fault String)) (traceVariable : Option String) (files : σ)
    (hasks : AsksFor arguments (.draw r))
    (hstatus : ((run (fs.host strays measurer standardInput traceVariable) arguments).run files).1.exitStatus = 0) :
    ∃ source document, fs.found standardInput files r.file r.program = .ok source ∧
      r.document source = .ok document ∧ (r.printed = true → given r.target = none) ∧
        ((∃ file, given r.file = some file ∧ r.printed = false ∧
            Written fs files (r.targetPath (.ofString file)) document
              ((run (fs.host strays measurer standardInput traceVariable) arguments).run files)) ∨
          (given r.file = none ∨ r.printed = true) ∧
            Printed files document
              ((run (fs.host strays measurer standardInput traceVariable) arguments).run files)) := by
  obtain ⟨hne, request, hrequest, htask⟩ := hasks
  have hperform := DrawRequest.perform_run fs strays measurer standardInput traceVariable files r
  rw [run_request fs strays measurer standardInput traceVariable files hne hrequest] at hstatus ⊢
  simp only [Request.perform, htask, Task.perform] at hstatus ⊢
  generalize (r.perform (fs.host strays measurer standardInput traceVariable)).run.run files = performed
    at hperform hstatus ⊢
  obtain ⟨result, files'⟩ := performed
  cases result with
  | error failure => exact absurd hstatus failure.group.exitStatus_ne_zero
  | ok answer =>
    split at hperform
    · cases hperform
    next hboth =>
      have htargets : r.printed = true → given r.target = none := by simpa using hboth
      cases hfound : fs.found standardInput files r.file r.program with
      | error failure =>
        rw [hfound] at hperform
        cases hperform
      | ok source =>
        cases hdocument : r.document source with
        | error failure =>
          simp only [hfound, hdocument] at hperform
          cases hperform
        | ok document =>
          simp only [hfound, hdocument] at hperform
          have hpath := FileSystem.path_of_found hfound
          refine ⟨source, document, rfl, hdocument, htargets, ?_⟩
          rcases FileSystem.deliver_ends hperform.symm with
            ⟨path, hsource, hprinted, rfl, hputs⟩ | ⟨hwhy, rfl, rfl⟩
          · obtain ⟨file, hfile, rfl⟩ := Option.map_eq_some_iff.1 (hpath.symm.trans hsource)
            exact .inl ⟨file, hfile, hprinted, outcome_single_of_status hstatus, hputs⟩
          · refine .inr ⟨hwhy.imp_left fun hnone => ?_, outcome_single_of_status hstatus, rfl⟩
            exact Option.map_eq_none_iff.1 (hpath.symm.trans hnone)

/-- A run that draws a program and is given a path for the document, and ends well: if the program is in a file that is
given, the document is the new content of the file at that path, and is not printed. If the program is given in an
argument or comes from the standard input, the document is printed and nothing is written anywhere. -/
theorem run_heeds_target_of_file (fs : FileSystem σ) (strays : Text.StrayBytes) (measurer : Measurer)
    (standardInput : Option (Except Text.Utf8Fault String)) (traceVariable : Option String) (files : σ)
    {target : String} (hasks : AsksFor arguments (.draw r)) (htarget : given r.target = some target)
    (hstatus : ((run (fs.host strays measurer standardInput traceVariable) arguments).run files).1.exitStatus = 0) :
    ∃ source document, fs.found standardInput files r.file r.program = .ok source ∧
      r.document source = .ok document ∧
        (given r.file ≠ none ∧ Written fs files (.ofString target) document
            ((run (fs.host strays measurer standardInput traceVariable) arguments).run files) ∨
          given r.file = none ∧
            Printed files document
              ((run (fs.host strays measurer standardInput traceVariable) arguments).run files)) := by
  obtain ⟨source, document, hfound, hdocument, htargets, hends⟩ :=
    run_draw_delivers fs strays measurer standardInput traceVariable files hasks hstatus
  have hnot : r.printed ≠ true := fun h => by cases htarget.symm.trans (htargets h)
  refine ⟨source, document, hfound, hdocument, ?_⟩
  rcases hends with ⟨file, hfile, -, hwritten⟩ | ⟨hwhy, hprinted⟩
  · refine .inl ⟨by simp [hfile], ?_⟩
    have hpath : r.targetPath (.ofString file) = .ofString target := by rw [DrawRequest.targetPath, htarget]
    rwa [hpath] at hwritten
  · exact .inr ⟨hwhy.resolve_right hnot, hprinted⟩

end

/-- A disk with one program, that of a single pin. -/
def pinDisk : Disk := ⟨[(["a.pin"], .file (Text.encode "Pin p 1 1"))]⟩

/-- A run on that disk. -/
def runOnPinDisk (arguments : List String) : Outcome × Disk :=
  (run (Disk.fileSystem.host .absent (.byCharacter [] 10) none none) arguments).run pinDisk

theorem run_heeds_target_of_file_on_disk :
    (∃ document, Written Disk.fileSystem pinDisk (.ofString "b.svg") document
      (runOnPinDisk ["render", "a.pin", "-o", "b.svg"])) ∧
      ∃ document, Printed pinDisk document (runOnPinDisk ["render", "--text", "Pin p 1 1", "-o", "b.svg"]) := by
  have hfileRequest : Request.ofArguments ["render", "a.pin", "-o", "b.svg"] =
      .ok { task := some (.draw { file := some "a.pin", target := some "b.svg" }) } := by decide +kernel
  have htextRequest : Request.ofArguments ["render", "--text", "Pin p 1 1", "-o", "b.svg"] =
      .ok { task := some (.draw { program := some "Pin p 1 1", target := some "b.svg" }) } := by decide +kernel
  have hfileFound : Disk.fileSystem.found none pinDisk (some "a.pin") none =
      .ok ⟨"a.pin", "Pin p 1 1", some (.ofString "a.pin")⟩ := by decide +kernel
  have hrender : (render "Pin p 1 1").isOk = true := by decide +kernel
  have hfileStatus : (runOnPinDisk ["render", "a.pin", "-o", "b.svg"]).1.exitStatus = 0 := by
    refine Disk.run_exitStatus _ _ _ _ (by simp) hfileRequest nofun hfileFound hrender ?_
    rintro _ ⟨⟩ -
    exact ⟨by decide +kernel, by decide +kernel⟩
  have htextStatus : (runOnPinDisk ["render", "--text", "Pin p 1 1", "-o", "b.svg"]).1.exitStatus = 0 :=
    Disk.run_exitStatus _ _ _ _ (by simp) htextRequest nofun rfl hrender nofun
  refine ⟨?_, ?_⟩
  · obtain ⟨source, document, -, -, ⟨-, hwritten⟩ | ⟨hnone, -⟩⟩ := run_heeds_target_of_file Disk.fileSystem
      .absent (.byCharacter [] 10) none none pinDisk
      (asksFor_of_ofArguments (by simp) hfileRequest) rfl hfileStatus
    · exact ⟨document, hwritten⟩
    · exact absurd hnone (by decide)
  · obtain ⟨source, document, -, -, ⟨hsome, -⟩ | ⟨-, hprinted⟩⟩ := run_heeds_target_of_file Disk.fileSystem
      .absent (.byCharacter [] 10) none none pinDisk
      (asksFor_of_ofArguments (by simp) htextRequest) rfl htextStatus
    · exact absurd rfl hsome
    · exact ⟨document, hprinted⟩

/-- A program in an argument, with a path for its document: the run ends well and prints the document, and there is no
file at the path. -/
theorem target_without_file_unheeded :
    AsksFor ["render", "--text", "Pin a 0 0", "-o", "out.svg"]
        (.draw { program := some "Pin a 0 0", target := some "out.svg" }) ∧
      (runOnPinDisk ["render", "--text", "Pin a 0 0", "-o", "out.svg"]).1.exitStatus = 0 ∧
      (∃ drawing, render "Pin a 0 0" = .ok drawing ∧
        Printed pinDisk drawing (runOnPinDisk ["render", "--text", "Pin a 0 0", "-o", "out.svg"])) ∧
      pinDisk.at? ["out.svg"] = none := by
  have hrequest : Request.ofArguments ["render", "--text", "Pin a 0 0", "-o", "out.svg"] =
      .ok { task := some (.draw { program := some "Pin a 0 0", target := some "out.svg" }) } := by decide +kernel
  have hasks := asksFor_of_ofArguments (by simp) hrequest
  have hstatus : (runOnPinDisk ["render", "--text", "Pin a 0 0", "-o", "out.svg"]).1.exitStatus = 0 :=
    Disk.run_exitStatus _ _ _ _ (by simp) hrequest nofun rfl (by decide +kernel) nofun
  obtain ⟨source, document, hfound, hdocument, -, ⟨file, hfile, -⟩ | ⟨-, hprinted⟩⟩ :=
    run_draw_delivers Disk.fileSystem .absent (.byCharacter [] 10) none none pinDisk hasks hstatus
  · cases hfile
  · cases hfound
    rw [DrawRequest.document] at hdocument
    cases hrender : render "Pin a 0 0" with
    | error fault =>
      rw [hrender] at hdocument
      cases hdocument
    | ok drawing =>
      rw [hrender] at hdocument
      cases hdocument
      exact ⟨hasks, hstatus, ⟨_, rfl, hprinted⟩, by decide⟩

end Pinboard.CommandLine
