import Pinboard.Proofs.CommandLine.Files
import Pinboard.Proofs.Fit.Reports
import Pinboard.Proofs.Text.Stray

/-!
# What is printed

Texts are printed one after the other up to the first one with stray bytes. A document and the line about a file are
one text each (`outcome_single`). A report on labels is printed line by line, but its lines are at fault together: the
name of the source is in front of each, and nothing behind it has stray bytes (`outcome_checkLines`). So nothing is
printed by a run that fails at it. Without stray bytes, drawing on a disk fails only if the file for the document cannot
be opened (`Disk.run_exitStatus`).
-/

namespace Pinboard.CommandLine

open Text.StrayBytes (fault?_append_right fault?_append_eq_none_iff fault?_eq_none_iff fault?_intercalate
  fault?_ofList_of_lt fault?_of_isPrintableText fault?_lineFeed)

variable {strays : Text.StrayBytes}

/-! ## Printing -/

/-- Texts that have an encoding are printed one behind the other. -/
theorem printTexts_of_encodable {texts : List String} (h : ∀ text ∈ texts, strays.fault? text = none) :
    printTexts strays texts = (String.join texts, none) := by
  induction texts with
  | nil => rfl
  | cons text texts ih =>
    obtain ⟨htext, htexts⟩ := List.forall_mem_cons.1 h
    rw [printTexts, htext, ih htexts, String.join_cons]

theorem printTexts_cons_of_fault {text : String} {fault : Text.EncodeFault} (h : strays.fault? text = some fault)
    (texts : List String) : printTexts strays (text :: texts) = ("", some fault) := by
  rw [printTexts, h]

theorem outcome_single (text : String) (exitStatus : Nat) (format : ReportFormat) (traced : Bool) :
    (⟨[text], exitStatus⟩ : Answer).outcome strays format traced =
      match strays.fault? text with
      | none => .answered text exitStatus
      | some fault => .failed "" (.unencodable fault) format traced := by
  unfold Answer.outcome
  cases h : strays.fault? text with
  | none => simp [printTexts_of_encodable (List.forall_mem_singleton.2 h)]
  | some fault => simp [printTexts_cons_of_fault h]

theorem FailureGroup.exitStatus_ne_zero (group : FailureGroup) : group.exitStatus ≠ 0 := by
  cases group <;> exact Nat.succ_ne_zero _

theorem outcome_single_of_status {text : String} {format : ReportFormat} {traced : Bool}
    (h : ((⟨[text], 0⟩ : Answer).outcome strays format traced).exitStatus = 0) :
    (⟨[text], 0⟩ : Answer).outcome strays format traced = .answered text 0 := by
  rw [outcome_single] at h ⊢
  cases hfault : strays.fault? text with
  | none => rfl
  | some fault =>
    rw [hfault] at h
    exact absurd h (Failure.unencodable fault).group.exitStatus_ne_zero

/-! ## Texts that are printed -/

theorem fault?_endLine (s : String) : strays.fault? (endLine s) = strays.fault? s := by
  unfold endLine
  split
  · rfl
  · exact fault?_append_right fault?_lineFeed

theorem fault?_writtenLine (target : Path) :
    strays.fault? (writtenLine target) = none ↔ strays.fault? target.text = none := by
  have hwrote : strays.fault? "Wrote " = none := fault?_of_isPrintableText (by decide)
  rw [writtenLine, fault?_append_right fault?_lineFeed, fault?_append_eq_none_iff]
  exact and_iff_right hwrote

set_option maxRecDepth 4000 in
/-- The command reference has no stray bytes. -/
theorem fault?_commandReference : strays.fault? (commandReference ++ "\n") = none := by
  rw [fault?_append_right fault?_lineFeed]
  refine fault?_intercalate fault?_lineFeed ?_
  -- Line by line, as a text that is written out is a list of characters to the kernel, and one that is joined is not.
  unfold commandReferenceLines
  repeat refine List.forall_mem_cons.2 ⟨fault?_ofList_of_lt (by decide +kernel), ?_⟩
  exact List.forall_mem_nil _

/-- A title with stray bytes makes them part of the page. -/
theorem fault?_wrap_of_title {title : String} (h : strays.fault? title ≠ none) (drawing : String) :
    strays.fault? (Page.wrap title drawing) ≠ none := by
  intro hwrap
  unfold Page.wrap at hwrap
  rw [fault?_append_eq_none_iff, fault?_append_eq_none_iff, fault?_append_eq_none_iff,
    fault?_append_eq_none_iff] at hwrap
  obtain ⟨⟨⟨⟨-, htitle⟩, -⟩, -⟩, -⟩ := hwrap
  refine h (fault?_eq_none_iff.2 fun c hc => ?_)
  rcases Nat.lt_or_ge c.toNat 0xf0000 with hlt | hge
  · exact strays.byte?_of_lt hlt
  · -- A character that is replaced by a reference is not one for private use.
    have hkept : Page.escapeTitle c = [c] := by
      unfold Page.escapeTitle Markup.escapeText
      repeat' split
      all_goals first | exact absurd hge (by decide) | rfl
    refine fault?_eq_none_iff.1 htitle c ?_
    rw [String.toList_ofList, List.mem_flatMap]
    exact ⟨c, hc, by simp [hkept]⟩

/-! ## Reports on labels -/

/-- The lines of a report begin with the name of the source, and have no stray bytes behind it. -/
theorem exists_checkLines (strays : Text.StrayBytes) (source : Source) (issues : List FitIssue) :
    ∃ first more, checkLines source issues = (first :: more).map (source.name ++ ·) ∧
      ∀ behind ∈ first :: more, strays.fault? behind = none := by
  have hline {s : String} (h : Text.isPrintableText s = true) : strays.fault? (s ++ "\n") = none :=
    (fault?_append_right fault?_lineFeed).trans (fault?_of_isPrintableText h)
  have hissue (i : FitIssue) : Text.isPrintableText (":" ++ i.report) = true := by
    rw [Text.isPrintableText_append, i.isPrintableText_report]
    decide
  unfold checkLines
  cases issues with
  | nil =>
    refine ⟨": all labels fit" ++ "\n", [], ?_, List.forall_mem_singleton.2 (hline (by decide))⟩
    simp only [List.isEmpty_nil, if_true, List.map_cons, List.map_nil, String.append_assoc]
  | cons i issues =>
    refine ⟨":" ++ i.report ++ "\n", issues.map fun i => ":" ++ i.report ++ "\n", ?_, ?_⟩
    · simp only [List.isEmpty_cons, Bool.false_eq_true, if_false, List.map_cons, List.map_map, Function.comp_def,
        String.append_assoc]
    · refine List.forall_mem_cons.2 ⟨hline (hissue i), fun behind hbehind => ?_⟩
      obtain ⟨i, -, rfl⟩ := List.mem_map.1 hbehind
      exact hline (hissue i)

/-- A report is printed as a whole, or nothing of it on account of the name of the source. -/
theorem outcome_checkLines (source : Source) (issues : List FitIssue) (exitStatus : Nat) (format : ReportFormat)
    (traced : Bool) :
    (⟨checkLines source issues, exitStatus⟩ : Answer).outcome strays format traced =
      match strays.fault? source.name with
      | none => .answered (checkReport source issues) exitStatus
      | some fault => .failed "" (.unencodable fault) format traced := by
  obtain ⟨first, more, hlines, hbehind⟩ := exists_checkLines strays source issues
  have hfirst : strays.fault? (source.name ++ first) = strays.fault? source.name :=
    fault?_append_right (hbehind first List.mem_cons_self)
  unfold Answer.outcome
  cases hname : strays.fault? source.name with
  | none =>
    have hall : ∀ line ∈ checkLines source issues, strays.fault? line = none := by
      rw [hlines]
      intro line hline
      obtain ⟨behind, hmem, rfl⟩ := List.mem_map.1 hline
      exact fault?_append_eq_none_iff.2 ⟨hname, hbehind behind hmem⟩
    simp only [printTexts_of_encodable hall, checkReport]
  | some fault =>
    rw [hlines, List.map_cons]
    simp only [printTexts_cons_of_fault (hfirst.trans hname)]

/-! ## Runs that end well -/

/-- Without stray bytes, a run on a disk that can draw its program ends well if the file for the document can be opened,
or none is needed. -/
theorem Disk.run_exitStatus (disk : Disk) (measurer : Measurer)
    (standardInput : Option (Except Text.Utf8Fault String)) (traceVariable : Option String) {arguments : List String}
    {r : DrawRequest} {source : Source} (hne : arguments ≠ [])
    (hrequest : Request.ofArguments arguments = .ok { task := some (.draw r) })
    (htargets : r.printed = true → given r.target = none)
    (hfound : fileSystem.found standardInput disk r.file r.program = .ok source)
    (hrender : (render source.program).isOk = true)
    (hopen : ∀ file, source.path = some file → r.printed = false →
      (r.targetPath file).hasZero = false ∧ (disk.create (r.targetPath file)).isOk = true) :
    ((run (fileSystem.host .absent measurer standardInput traceVariable) arguments).run disk).1.exitStatus = 0 := by
  have hprints (text : String) (traced : Bool) :
      ((⟨[text], 0⟩ : Answer).outcome .absent .text traced).exitStatus = 0 := by
    rw [outcome_single, Text.StrayBytes.fault?_absent]
    rfl
  obtain ⟨drawing, hdrawing⟩ := exists_of_isOk hrender
  have hdocument : r.document source = .ok (if r.inPage then Page.wrap (r.pageTitle source) drawing else drawing) := by
    rw [DrawRequest.document, hdrawing]
  generalize (if r.inPage then Page.wrap (r.pageTitle source) drawing else drawing) = document at hdocument
  rw [run_deliver fileSystem .absent measurer standardInput traceVariable disk hne hrequest rfl htargets hfound
    hdocument, FileSystem.deliver]
  cases hpath : source.path with
  | none => exact hprints _ _
  | some file =>
    by_cases hprinted : r.printed = true
    · simp only [hprinted, if_true]
      exact hprints _ _
    · obtain ⟨hzero, hcreate⟩ := hopen file hpath (Bool.not_eq_true _ ▸ hprinted)
      obtain ⟨disk', hsave⟩ := save_ok hzero hcreate (Text.StrayBytes.fault?_absent document)
      simp only [hprinted, Bool.false_eq_true, if_false, hsave]
      exact hprints _ _

end Pinboard.CommandLine
