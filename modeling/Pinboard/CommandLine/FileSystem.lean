import Pinboard.CommandLine.Disk

/-!
# File systems

What a run can rely on where files are concerned, on a disk and elsewhere. A file is written at the place that its path
leads to, and no other file changes. Opening it leaves nothing in it; filling it may be broken off, with any first part
of the text in it.
-/

namespace Pinboard.CommandLine

/-- Files that a run can reach. -/
structure FileSystem (σ : Type) where
  read : σ → Path → FileAnswer
  /-- Open a file to be written. -/
  create : σ → Path → Except PathFault σ
  /-- Put a text into a file that is open. -/
  fill : σ → Path → String → Option PathFault × σ
  /-- What stands at a place. -/
  at? : σ → Place → Option Node
  /-- The place that a path leads to. -/
  locate : σ → Path → Except PathFault Place
  at?_create : ∀ {files opened : σ} {p : Path}, create files p = .ok opened →
    ∃ place, locate files p = .ok place ∧ at? opened place = some (.file []) ∧
      ∀ other, other ≠ place → at? opened other = at? files other
  at?_fill : ∀ {files opened files' : σ} {p : Path} {place : Place} {text : String} {fault : Option PathFault},
    create files p = .ok opened → locate files p = .ok place → fill opened p text = (fault, files') →
      (∃ bytes, at? files' place = some (.file bytes) ∧ bytes <+: Text.encode text ∧
        (fault = none → bytes = Text.encode text)) ∧
      ∀ other, other ≠ place → at? files' other = at? opened other

/-- The surroundings of a run with some files. -/
def FileSystem.host {σ : Type} (fs : FileSystem σ) (strays : Text.StrayBytes) (measurer : Measurer)
    (standardInput : Option (Except Text.Utf8Fault String)) (traceVariable : Option String) : Host (StateM σ) where
  strays := strays
  standardInput := return standardInput
  readFile p := return fs.read (← get) p
  createFile p := do
    match fs.create (← get) p with
    | .ok files =>
      set files
      return none
    | .error fault => return some fault
  fillFile p text := modifyGet fun files => fs.fill files p text
  measurer := measurer
  traceVariable := traceVariable

namespace Disk

variable {disk disk' : Disk} {p : Path} {text : String} {place other : Place}

theorem isAbove_eq_false (h : disk.at? place ≠ some .folder) : place.isAbove = false := by
  rw [← Bool.not_eq_true]
  intro habove
  exact h (by rw [at?, if_pos habove])

theorem at?_put (hplace : place.isAbove = false) (bytes : List UInt8) :
    (disk.put place bytes).at? place = some (.file bytes) := by
  simp [at?, put, hplace]

theorem at?_put_of_ne (h : other ≠ place) (bytes : List UInt8) :
    (disk.put place bytes).at? other = disk.at? other := by
  have hlookup : ∀ nodes : List (Place × Node),
      (nodes.filter fun entry => entry.1 != place).lookup other = nodes.lookup other := by
    intro nodes
    induction nodes with
    | nil => rfl
    | cons entry nodes ih =>
      obtain ⟨name, node⟩ := entry
      by_cases hname : name = place
      · have hother : (other == name) = false := by simpa [hname] using h
        rw [List.filter_cons_of_neg (by simp [hname]), ih, List.lookup_cons, hother]
      · rw [List.filter_cons_of_pos (by simp [hname]), List.lookup_cons, List.lookup_cons, ih]
  have hother : (other == place) = false := by simpa using h
  unfold at? put
  rw [List.lookup_cons, hother, hlookup]

/-- A file is opened at the place that its path leads to, where no folder may stand. -/
theorem create_ok (h : disk.create p = .ok disk') :
    ∃ place, disk.locate p = .ok place ∧ disk.at? place ≠ some .folder ∧ disk' = disk.put place [] := by
  unfold create at h
  cases hplace : disk.locate p with
  | error fault =>
    rw [hplace] at h
    cases h
  | ok place =>
    rw [hplace] at h
    simp only [bind, Except.bind] at h
    split at h
    next => cases h
    next hfolder =>
      cases h
      exact ⟨place, rfl, hfolder, rfl⟩

/-- A path leads through folders only, so a file that changes leaves it as it is. -/
theorem locate_put {target : Place} (h : disk.locate p = .ok place) (htarget : disk.at? target ≠ some .folder)
    (bytes : List UInt8) : (disk.put target bytes).locate p = .ok place := by
  have hstep {from' : Place} {name : String} {next : Place} (h : disk.step from' name = .ok next) :
      (disk.put target bytes).step from' name = .ok next := by
    have hne : from' ≠ target := by
      rintro rfl
      unfold step at h
      split at h
      next => cases h
      next => cases h
      next hfolder => exact htarget hfolder
    rw [step, at?_put_of_ne hne]
    exact h
  have hwalk : ∀ (names : List String) (from' : Place), names.foldlM disk.step from' = .ok place →
      names.foldlM (disk.put target bytes).step from' = .ok place := by
    intro names
    induction names with
    | nil => exact fun _ h => h
    | cons name names ih =>
      intro from' h
      rw [List.foldlM_cons] at h ⊢
      cases hname : disk.step from' name with
      | error fault =>
        rw [hname] at h
        cases h
      | ok next =>
        rw [hname] at h
        rw [hstep hname]
        exact ih next h
  unfold locate at h ⊢
  split at h
  next => cases h
  next hlength =>
    rw [if_neg hlength]
    exact hwalk _ _ h

theorem at?_create (h : disk.create p = .ok disk') :
    ∃ place, disk.locate p = .ok place ∧ disk'.at? place = some (.file []) ∧
      ∀ other, other ≠ place → disk'.at? other = disk.at? other := by
  obtain ⟨place, hplace, hfolder, rfl⟩ := create_ok h
  exact ⟨place, hplace, at?_put (isAbove_eq_false hfolder) _, fun other hother => at?_put_of_ne hother _⟩

theorem at?_fill {opened : Disk} {fault : Option PathFault} (hcreate : disk.create p = .ok opened)
    (hlocate : disk.locate p = .ok place) (hfill : opened.fill p text = (fault, disk')) :
    (∃ bytes, disk'.at? place = some (.file bytes) ∧ bytes <+: Text.encode text ∧
      (fault = none → bytes = Text.encode text)) ∧
    ∀ other, other ≠ place → disk'.at? other = opened.at? other := by
  obtain ⟨place, hplace, hfolder, rfl⟩ := create_ok hcreate
  cases hplace.symm.trans hlocate
  rw [fill, locate_put hplace hfolder] at hfill
  cases hfill
  exact ⟨⟨_, at?_put (isAbove_eq_false hfolder) _, List.prefix_rfl, fun _ => rfl⟩,
    fun other hother => at?_put_of_ne hother _⟩

/-- A disk as files that a run can reach. -/
def fileSystem : FileSystem Disk := ⟨read, create, fill, at?, locate, at?_create, at?_fill⟩

end Disk
end Pinboard.CommandLine
