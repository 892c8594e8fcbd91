import Pinboard.CommandLine.FileSystem
import Pinboard.CommandLine.Run

/-!
# Runs on files

A run asks for files one at a time, in a monad. On files that can be looked at as a whole (`FileSystem`, of which a
disk is one) it is a function of the files: what it finds (`found`), what becomes of the document
(`FileSystem.deliver`), and with these the results of the tasks (`DrawRequest.perform_run`,
`CheckRequest.perform_run`) and of runs that ask for one (`run_request`). Only `FileSystem.save` has other files in its
result than it was given.
-/

namespace Pinboard.CommandLine

/-! ## Paths -/

namespace Path

theorem mem_intercalate {separator : String} {c : Char} (hc : c ∉ separator.toList) (names : List String) :
    c ∈ (separator.intercalate names).toList ↔ ∃ name ∈ names, c ∈ name.toList := by
  induction names with
  | nil => simp
  | cons name names ih =>
    cases names with
    | nil => simp
    | cons next names =>
      rw [String.intercalate_cons_cons, String.toList_append, String.toList_append]
      simp only [List.mem_append, hc, or_false, ih, List.mem_cons, exists_eq_or_imp]

theorem hasZero_eq_false_iff (p : Path) : p.hasZero = false ↔ ∀ name ∈ p.names, '\x00' ∉ name.toList := by
  have hnames := mem_intercalate (by decide : '\x00' ∉ "/".toList) p.names
  have htext : '\x00' ∈ p.text.toList ↔ '\x00' ∈ ("/".intercalate p.names).toList := by
    unfold text
    cases p.root with
    | here =>
      cases hempty : p.names with
      | nil => simp
      | cons name names => simp
    | slash => simp
    | doubleSlash => simp
  rw [hasZero, ← Bool.not_eq_true, List.contains_iff_mem, htext, hnames]
  simp

theorem mem_fileName_of_mem_stem {p : Path} {c : Char} (h : c ∈ p.stem.toList) : c ∈ p.fileName.toList := by
  unfold stem cutName at h
  dsimp only at h
  split at h
  next d front hbackwards =>
    split at h
    · exact h
    · have hmem : c ∈ p.fileName.toList.reverse.dropWhile (· ≠ '.') := by
        rw [hbackwards]
        exact List.mem_cons_of_mem _ (by simpa [or_comm] using h)
      exact List.mem_reverse.1 ((List.dropWhile_sublist _).subset hmem)
  next => exact h

/-- Another suffix on the last name does not make a path unusable. -/
theorem hasZero_withSuffix {p : Path} (h : p.hasZero = false) {suffix : String} (hsuffix : '\x00' ∉ suffix.toList) :
    (p.withSuffix suffix).hasZero = false := by
  rw [hasZero_eq_false_iff] at h ⊢
  intro name hname hzero
  rcases List.mem_append.1 hname with hname | hname
  · exact h name ((List.dropLast_sublist _).subset hname) hzero
  · obtain rfl := List.mem_singleton.1 hname
    rw [String.toList_append, List.mem_append] at hzero
    have hlast := mem_fileName_of_mem_stem (hzero.resolve_right hsuffix)
    unfold fileName at hlast
    cases hnames : p.names.getLast? with
    | none => simp [hnames] at hlast
    | some last =>
      rw [hnames] at hlast
      exact h last (List.mem_of_getLast? hnames) hlast

end Path

variable {σ : Type}

/-! ## Steps of a run -/

theorem exists_of_isOk {ε α : Type} {result : Except ε α} (h : result.isOk = true) : ∃ a, result = .ok a := by
  cases result with
  | ok a => exact ⟨a, rfl⟩
  | error e => cases h

section
variable {α β : Type} (files : σ)

@[simp]
theorem run_pure (a : α) : (pure a : ExceptT Failure (StateM σ) α).run.run files = (.ok a, files) := rfl

@[simp]
theorem run_throw (failure : Failure) :
    (throw failure : ExceptT Failure (StateM σ) α).run.run files = (.error failure, files) := rfl

/-- A question to the surroundings, and what is done with the answer. -/
@[simp]
theorem run_ask (question : StateM σ α) (k : α → ExceptT Failure (StateM σ) β) :
    (liftM question >>= k).run.run files = (k (question.run files).1).run.run (question.run files).2 := rfl

/-- A result that is there or not, and what is done with it. -/
theorem run_given (c : Except Failure α) (k : α → ExceptT Failure (StateM σ) β) :
    (liftM c >>= k).run.run files =
      match c with
      | .ok a => (k a).run.run files
      | .error failure => (.error failure, files) := by
  cases c <;> rfl

theorem run_bind_ok {w : ExceptT Failure (StateM σ) α} {a : α} {files' : σ} (h : w.run.run files = (.ok a, files'))
    (k : α → ExceptT Failure (StateM σ) β) : (w >>= k).run.run files = (k a).run.run files' := by
  rw [ExceptT.run_bind, StateT.run_bind, h]
  rfl

theorem run_bind_error {w : ExceptT Failure (StateM σ) α} {failure : Failure} {files' : σ}
    (h : w.run.run files = (.error failure, files')) (k : α → ExceptT Failure (StateM σ) β) :
    (w >>= k).run.run files = (.error failure, files') := by
  rw [ExceptT.run_bind, StateT.run_bind, h]
  rfl

end

/-! ## Sources -/

/-- The program in a file. -/
def FileSystem.content (fs : FileSystem σ) (files : σ) (path : Path) : Except Failure Source :=
  if path.hasZero then .error (.fileMissing path)
  else
    match fs.read files path with
    | .absent => .error (.fileMissing path)
    | .unclear fault => .error (.fileUnclear path fault)
    | .refused fault => .error (.fileRefused path fault)
    | .content bytes =>
      match Text.decode bytes with
      | .error fault => .error (.fileNotText fault)
      | .ok text => .ok ⟨path.text, String.ofList (Text.joinLineEnds text.toList), some path⟩

/-- What a run finds: the program that is given, or is in the file that is given, or is on the standard input. -/
def FileSystem.found (fs : FileSystem σ) (standardInput : Option (Except Text.Utf8Fault String)) (files : σ)
    (file program : Option String) : Except Failure Source :=
  match given file, program with
  | some _, some _ => .error .twoPrograms
  | none, some text => .ok ⟨"<text>", text, none⟩
  | some file, none => fs.content files (.ofString file)
  | none, none =>
    match standardInput with
    | none => .error .noInput
    | some (.error fault) => .error (.inputNotText fault)
    | some (.ok text) => if Text.hasInk text then .ok ⟨"<stdin>", text, none⟩ else .error .blankInput

namespace FileSystem

variable {fs : FileSystem σ} {standardInput : Option (Except Text.Utf8Fault String)} {files : σ} {file : Option String}

theorem found_argument (h : given file = none) (program : String) :
    fs.found standardInput files file (some program) = .ok ⟨"<text>", program, none⟩ := by
  unfold found
  rw [h]

theorem found_file {name : String} (h : given file = some name) :
    fs.found standardInput files file none = fs.content files (.ofString name) := by
  unfold found
  rw [h]

theorem found_input (h : given file = none) (text : String) :
    fs.found (some (.ok text)) files file none =
      if Text.hasInk text then .ok ⟨"<stdin>", text, none⟩ else .error .blankInput := by
  unfold found
  rw [h]

end FileSystem

section
variable (fs : FileSystem σ) (strays : Text.StrayBytes) (measurer : Measurer)
  (standardInput : Option (Except Text.Utf8Fault String)) (traceVariable : Option String) (files : σ)

theorem Source.ofFile_run (path : Path) :
    (ofFile (fs.host strays measurer standardInput traceVariable) path).run.run files =
      (fs.content files path, files) := by
  have hread : ((fs.host strays measurer standardInput traceVariable).readFile path).run files =
      (fs.read files path, files) := rfl
  unfold ofFile FileSystem.content
  by_cases hzero : path.hasZero = true
  · rw [if_pos hzero, if_pos hzero]
    rfl
  · simp only [hzero, Bool.false_eq_true, if_false, run_ask, hread]
    cases fs.read files path with
    | content bytes => cases hdecode : Text.decode bytes <;> simp only [hdecode, run_throw, run_pure]
    | _ => rfl

theorem Source.find_run (file program : Option String) :
    (find (fs.host strays measurer standardInput traceVariable) file program).run.run files =
      (fs.found standardInput files file program, files) := by
  have hinput : (fs.host strays measurer standardInput traceVariable).standardInput.run files =
      (standardInput, files) := rfl
  unfold find FileSystem.found
  cases given file with
  | some file =>
    cases program with
    | some text => rfl
    | none => exact ofFile_run fs strays measurer standardInput traceVariable files _
  | none =>
    cases program with
    | some text => rfl
    | none =>
      simp only [ofInput, run_ask, hinput]
      rcases standardInput with _ | fault | text
      · rfl
      · rfl
      · cases hink : Text.hasInk text <;> simp only [hink] <;> rfl

end

/-! ## Documents -/

/-- Some bytes are put into the file at a path, and no other file changes. -/
def FileSystem.Puts (fs : FileSystem σ) (files : σ) (path : Path) (bytes : List UInt8) (files' : σ) : Prop :=
  ∃ place, fs.locate files path = .ok place ∧ fs.at? files' place = some (.file bytes) ∧
    ∀ other, other ≠ place → fs.at? files' other = fs.at? files other

/-- A file that is open is empty. -/
theorem FileSystem.puts_create {fs : FileSystem σ} {files opened : σ} {path : Path}
    (h : fs.create files path = .ok opened) : fs.Puts files path [] opened :=
  fs.at?_create h

/-- A file that is filled has a first part of the text in it, and all of it if there is no fault. -/
theorem FileSystem.puts_fill {fs : FileSystem σ} {files opened files' : σ} {path : Path} {text : String}
    {fault : Option PathFault} (hcreate : fs.create files path = .ok opened)
    (hfill : fs.fill opened path text = (fault, files')) :
    ∃ bytes, fs.Puts files path bytes files' ∧ bytes <+: Text.encode text ∧
      (fault = none → bytes = Text.encode text) := by
  obtain ⟨place, hplace, -, hopened⟩ := fs.at?_create hcreate
  obtain ⟨⟨bytes, hbytes, hpart, hwhole⟩, hother⟩ := fs.at?_fill hcreate hplace hfill
  exact ⟨bytes, ⟨place, hplace, hbytes, fun other hne => (hother other hne).trans (hopened other hne)⟩, hpart, hwhole⟩

/-- What comes of writing a document to a file. -/
def FileSystem.save (fs : FileSystem σ) (strays : Text.StrayBytes) (files : σ) (target : Path) (document : String) :
    Except Failure Unit × σ :=
  if target.hasZero then (.error .targetUnusable, files)
  else
    match fs.create files target with
    | .error fault => (.error (.targetRefused target fault), files)
    | .ok opened =>
      match strays.fault? document with
      | some fault => (.error (.unencodable fault), opened)
      | none =>
        match fs.fill opened target document with
        | (some fault, files') => (.error (.targetUnfilled target fault), files')
        | (none, files') => (.ok (), files')

/-- All that can come of writing a document to a file: a result, and the files then. -/
inductive FileSystem.Saves (fs : FileSystem σ) (strays : Text.StrayBytes) (files : σ) (target : Path)
    (document : String) : Except Failure Unit → σ → Prop
  | unusable : target.hasZero = true → Saves fs strays files target document (.error .targetUnusable) files
  | unopened {fault : PathFault} : target.hasZero = false → fs.create files target = .error fault →
    Saves fs strays files target document (.error (.targetRefused target fault)) files
  | unencodable {opened : σ} {fault : Text.EncodeFault} : fs.create files target = .ok opened →
    strays.fault? document = some fault → Saves fs strays files target document (.error (.unencodable fault)) opened
  | unfilled {opened files' : σ} {fault : PathFault} : fs.create files target = .ok opened →
    strays.fault? document = none → fs.fill opened target document = (some fault, files') →
    Saves fs strays files target document (.error (.targetUnfilled target fault)) files'
  | whole {opened files' : σ} : fs.create files target = .ok opened → strays.fault? document = none →
    fs.fill opened target document = (none, files') → Saves fs strays files target document (.ok ()) files'

theorem FileSystem.saves_of_save {fs : FileSystem σ} {strays : Text.StrayBytes} {files files' : σ} {target : Path}
    {document : String} {result : Except Failure Unit}
    (h : fs.save strays files target document = (result, files')) :
    fs.Saves strays files target document result files' := by
  unfold save at h
  split at h
  next hzero =>
    cases h
    exact .unusable hzero
  next hzero =>
    split at h
    next fault hcreate =>
      cases h
      exact .unopened (Bool.not_eq_true _ ▸ hzero) hcreate
    next opened hcreate =>
      split at h
      next fault hfault =>
        cases h
        exact .unencodable hcreate hfault
      next hfault =>
        split at h
        next fault filled hfill =>
          cases h
          exact .unfilled hcreate hfault hfill
        next filled hfill =>
          cases h
          exact .whole hcreate hfault hfill

/-- A disk takes every document that has an encoding, once the file for it is open. -/
theorem Disk.save_ok {disk : Disk} {strays : Text.StrayBytes} {target : Path} {document : String}
    (hzero : target.hasZero = false) (hcreate : (disk.create target).isOk = true)
    (hfault : strays.fault? document = none) :
    ∃ disk', fileSystem.save strays disk target document = (.ok (), disk') := by
  obtain ⟨opened, hopened⟩ := exists_of_isOk hcreate
  obtain ⟨place, hplace, hfolder, rfl⟩ := create_ok hopened
  have hcreated : fileSystem.create disk target = .ok (disk.put place []) := hopened
  have hfill : fileSystem.fill (disk.put place []) target document =
      (none, (disk.put place []).put place (Text.encode document)) := by
    change (disk.put place []).fill target document = _
    rw [fill, locate_put hplace hfolder]
  refine ⟨(disk.put place []).put place (Text.encode document), ?_⟩
  simp only [FileSystem.save, hzero, hcreated, hfault, hfill, Bool.false_eq_true, if_false]

/-- What becomes of a document: it is written to a file if its program is in a file and it is not to be printed. -/
def FileSystem.deliver (fs : FileSystem σ) (strays : Text.StrayBytes) (files : σ) (r : DrawRequest) (source : Source)
    (document : String) : Except Failure Answer × σ :=
  match source.path with
  | some file =>
    if r.printed then (.ok ⟨[endLine document], 0⟩, files)
    else
      match fs.save strays files (r.targetPath file) document with
      | (.ok (), files') => (.ok ⟨[writtenLine (r.targetPath file)], 0⟩, files')
      | (.error failure, files') => (.error failure, files')
  | none => (.ok ⟨[endLine document], 0⟩, files)

/-! ## Tasks -/

section
variable (fs : FileSystem σ) (strays : Text.StrayBytes) (measurer : Measurer)
  (standardInput : Option (Except Text.Utf8Fault String)) (traceVariable : Option String) (files : σ)

theorem createFile_ok {target : Path} {opened : σ} (h : fs.create files target = .ok opened) :
    ((fs.host strays measurer standardInput traceVariable).createFile target).run files = (none, opened) := by
  simp only [FileSystem.host, StateT.run_bind, StateT.run_get, pure_bind, h]
  rfl

theorem createFile_error {target : Path} {fault : PathFault} (h : fs.create files target = .error fault) :
    ((fs.host strays measurer standardInput traceVariable).createFile target).run files = (some fault, files) := by
  simp only [FileSystem.host, StateT.run_bind, StateT.run_get, pure_bind, h]
  rfl

theorem writeDocument_run (target : Path) (document : String) :
    (writeDocument (fs.host strays measurer standardInput traceVariable) target document).run.run files =
      fs.save strays files target document := by
  have hstrays : (fs.host strays measurer standardInput traceVariable).strays = strays := rfl
  have hfill (opened : σ) : ((fs.host strays measurer standardInput traceVariable).fillFile target document).run opened =
      fs.fill opened target document := rfl
  unfold writeDocument FileSystem.save
  by_cases hzero : target.hasZero = true
  · rw [if_pos hzero, if_pos hzero]
    rfl
  simp only [hzero, Bool.false_eq_true, if_false, run_ask, hstrays]
  cases hcreate : fs.create files target with
  | error fault =>
    rw [createFile_error fs strays measurer standardInput traceVariable files hcreate]
    rfl
  | ok opened =>
    rw [createFile_ok fs strays measurer standardInput traceVariable files hcreate]
    cases strays.fault? document with
    | some fault => rfl
    | none =>
      simp only [run_ask, hfill]
      obtain ⟨fault, files'⟩ := fs.fill opened target document
      cases fault <;> rfl

theorem DrawRequest.perform_run (r : DrawRequest) :
    (r.perform (fs.host strays measurer standardInput traceVariable)).run.run files =
      if r.printed && (given r.target).isSome then (.error .twoTargets, files)
      else
        match fs.found standardInput files r.file r.program with
        | .error failure => (.error failure, files)
        | .ok source =>
          match r.document source with
          | .error failure => (.error failure, files)
          | .ok document => fs.deliver strays files r source document := by
  have hfind := Source.find_run fs strays measurer standardInput traceVariable files r.file r.program
  unfold perform
  by_cases hboth : (r.printed && (given r.target).isSome) = true
  · rw [if_pos hboth, if_pos hboth]
    rfl
  rw [if_neg hboth, if_neg hboth]
  cases hfound : fs.found standardInput files r.file r.program with
  | error failure =>
    rw [hfound] at hfind
    exact run_bind_error files hfind _
  | ok source =>
    rw [hfound] at hfind
    refine (run_bind_ok files hfind _).trans ?_
    simp only [run_given]
    cases r.document source with
    | error failure => rfl
    | ok document =>
      simp only [FileSystem.deliver]
      cases source.path with
      | none => rfl
      | some file =>
        have hwrite :=
          writeDocument_run fs strays measurer standardInput traceVariable files (r.targetPath file) document
        by_cases hprinted : r.printed = true
        · simp only [hprinted, if_true]
          rfl
        simp only [hprinted, Bool.false_eq_true, if_false]
        generalize fs.save strays files (r.targetPath file) document = saved at hwrite ⊢
        obtain ⟨result, files'⟩ := saved
        cases result with
        | ok _ => exact run_bind_ok files hwrite _
        | error failure => exact run_bind_error files hwrite _

theorem CheckRequest.perform_run (r : CheckRequest) :
    (r.perform (fs.host strays measurer standardInput traceVariable)).run.run files =
      (match fs.found standardInput files r.file r.program with
        | .error failure => .error failure
        | .ok source =>
          match Fit.checkProgram measurer source.program with
          | .error fault => .error (.program source.name fault)
          | .ok issues => .ok ⟨checkLines source issues, if r.strict && !issues.isEmpty then 1 else 0⟩,
        files) := by
  have hfind := Source.find_run fs strays measurer standardInput traceVariable files r.file r.program
  unfold perform
  cases hfound : fs.found standardInput files r.file r.program with
  | error failure =>
    rw [hfound] at hfind
    exact run_bind_error files hfind _
  | ok source =>
    rw [hfound] at hfind
    refine (run_bind_ok files hfind _).trans ?_
    have hmeasurer : (fs.host strays measurer standardInput traceVariable).measurer = measurer := rfl
    rw [hmeasurer]
    cases hissues : Fit.checkProgram measurer source.program <;> simp only [hissues] <;> rfl

/-- How a run ends when its task is carried out. -/
def ended (format : ReportFormat) (traced : Bool) : Except Failure Answer × σ → Outcome × σ
  | (.ok answer, files') => (answer.outcome strays format traced, files')
  | (.error failure, files') => (.failed "" failure format traced, files')

/-- A run with arguments that make a request ends as the request does; a failure is reported. -/
theorem run_request {arguments : List String} {request : Request} (hne : arguments ≠ [])
    (hrequest : Request.ofArguments arguments = .ok request) :
    (run (fs.host strays measurer standardInput traceVariable) arguments).run files =
      ended strays request.format (Request.asksForTrace arguments || traceVariable == some "1")
        ((request.perform (fs.host strays measurer standardInput traceVariable)).run.run files) := by
  have hempty : ¬arguments.isEmpty = true := fun h => hne (List.isEmpty_iff.1 h)
  unfold run
  rw [if_neg hempty, hrequest]
  simp only [StateT.run_bind]
  generalize StateT.run (request.perform (fs.host strays measurer standardInput traceVariable)).run files = performed
  obtain ⟨result, files'⟩ := performed
  cases result <;> rfl

/-- A run that finds its program and can draw it ends as the document is delivered. -/
theorem run_deliver {arguments : List String} {request : Request} {r : DrawRequest} {source : Source}
    {document : String} (hne : arguments ≠ []) (hrequest : Request.ofArguments arguments = .ok request)
    (htask : request.task = some (.draw r)) (htargets : r.printed = true → given r.target = none)
    (hfound : fs.found standardInput files r.file r.program = .ok source)
    (hdocument : r.document source = .ok document) :
    (run (fs.host strays measurer standardInput traceVariable) arguments).run files =
      ended strays request.format (Request.asksForTrace arguments || traceVariable == some "1")
        (fs.deliver strays files r source document) := by
  have hboth : ¬(r.printed && (given r.target).isSome) = true := by simpa using htargets
  rw [run_request fs strays measurer standardInput traceVariable files hne hrequest]
  simp only [Request.perform, htask, Task.perform]
  rw [DrawRequest.perform_run, if_neg hboth, hfound]
  simp only [hdocument]

end

end Pinboard.CommandLine
