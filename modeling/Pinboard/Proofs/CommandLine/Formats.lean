import Mathlib.Data.List.TakeWhile
import Pinboard.Proofs.CommandLine.Arguments
import Pinboard.Proofs.CommandLine.Targets
import Pinboard.Proofs.Text.Json

/-!
# The form of a report

The option for the form of a report may be abbreviated, and its value may stand in the same argument (`JsonSpelling`).
All these spellings are read alike, and no other option changes what they ask for (`Request.format_of_jsonSpelling`).
Main statement: a run that is asked for JSON in any of them and fails reports on one line of JSON, unless the arguments
themselves are at fault; then it does so for the first of the spellings only (`run_reports_in_json_iff`).
-/

namespace Pinboard.CommandLine

open Text (JsonValue)

variable {σ : Type}

/-! ## Reports in JSON -/

/-- What a report for programs says about a failure. -/
def Failure.members (f : Failure) : List (String × JsonValue) :=
  [("ok", .boolean false), ("code", .string f.group.code), ("message", .string f.message),
   ("file", f.source.elim .null .string), ("line", f.line.elim .null .number), ("hint", f.hint.elim .null .string)]

/-- A report is one line with a JSON object, which says about a failure what there is to say. -/
def IsJsonReport (f : Failure) (report : String) : Prop :=
  ∃ line, report = line ++ "\n" ∧ '\n' ∉ line.toList ∧ Text.Json.readObject line = some f.members

theorem Failure.jsonReport_eq (f : Failure) : f.jsonReport = Text.Json.objectText f.members ++ "\n" := by
  have hvalue {α : Type} (write : α → JsonValue) (o : Option α) :
      Text.Json.valueText (o.elim .null write) = jsonOption (fun a => Text.Json.valueText (write a)) o := by
    cases o <;> rfl
  have hend : "\x7d\n" = "\x7d" ++ "\n" := by decide
  unfold jsonReport Text.Json.objectText members commaList
  simp only [List.map_cons, List.map_nil, Text.Json.memberText, hvalue, hend, String.append_assoc]
  rfl

theorem Failure.isJsonReport_jsonReport (f : Failure) : IsJsonReport f f.jsonReport := by
  refine ⟨_, f.jsonReport_eq, ?_, Text.Json.readObject_objectText _⟩
  intro hline
  exact absurd (Text.Json.isPlain_objectText _ _ hline) (by decide)

/-- A report for people is no JSON. -/
theorem Failure.not_isJsonReport_textReport (f : Failure) : ¬IsJsonReport f f.textReport := by
  rintro ⟨line, hreport, -, hread⟩
  have hfirst : ∃ rest, f.textReport.toList = 'e' :: rest := by
    unfold textReport
    simp only [String.toList_append]
    exact ⟨_, rfl⟩
  obtain ⟨rest, hfirst⟩ := hfirst
  rw [hreport, String.toList_append] at hfirst
  cases hline : line.toList with
  | nil =>
    rw [hline] at hfirst
    cases hfirst
  | cons c cs =>
    rw [hline] at hfirst
    obtain ⟨rfl, -⟩ := List.cons.inj hfirst
    unfold Text.Json.readObject at hread
    rw [hline] at hread
    cases hread

theorem Failure.isJsonReport_iff (f : Failure) (format : ReportFormat) :
    IsJsonReport f (f.report format) ↔ format = .json := by
  cases format with
  | text => exact ⟨fun h => absurd h f.not_isJsonReport_textReport, nofun⟩
  | json => exact ⟨fun _ => rfl, fun _ => f.isJsonReport_jsonReport⟩

/-! ## Spellings of an option -/

/-- A reading that comes to something has come to something in its first part. -/
theorem Reading.exists_of_bind_ok {α β : Type} {reading : Reading α} {k : α → Reading β} {b : β}
    (h : (reading >>= k) = .ok b) : ∃ a, reading = .ok a ∧ k a = .ok b := by
  cases reading with
  | error interruption => cases h
  | ok a => exact ⟨a, rfl, h⟩

namespace Token

variable {switches : List (Switch σ)} {argument text : String} {s : Switch σ} {attached : Attachment}

/-- Where no two names begin alike, the beginning of one of them stands for it. -/
theorem ofName_of_prefix (hnodup : (switches.map fun s => s.name.toList.head?).Nodup) (hs : s ∈ switches) {c : Char}
    {cs rest : List Char} {value : Option (List Char)} (hcut : cutMark rest = (c :: cs, value))
    (hbegins : c :: cs <+: s.name.toList) (argument : String) :
    ofName switches argument rest = .ok (.option argument s (attachment value)) := by
  have hone := length_filter_isPrefixOf switches hnodup c cs
  have hnamed : s ∈ switches.filter fun s => (c :: cs).isPrefixOf s.name.toList :=
    List.mem_filter.2 ⟨hs, List.isPrefixOf_iff_prefix.2 hbegins⟩
  have honly : (switches.filter fun s => (c :: cs).isPrefixOf s.name.toList) = [s] := by
    generalize (switches.filter fun s => (c :: cs).isPrefixOf s.name.toList) = named at hone hnamed
    match named with
    | [] => cases hnamed
    | [t] => rw [List.mem_singleton.1 hnamed]
    | _ :: _ :: _ => simp at hone
  unfold ofName
  simp only [hcut]
  split
  next t ht =>
    have hname : t.name.toList = c :: cs := by simpa using List.find?_some ht
    have hmem : t ∈ switches.filter fun s => (c :: cs).isPrefixOf s.name.toList :=
      List.mem_filter.2 ⟨List.mem_of_find?_eq_some ht, List.isPrefixOf_iff_prefix.2 (hname ▸ List.prefix_rfl)⟩
    rw [honly] at hmem
    rw [List.mem_singleton.1 hmem]
  next => rw [honly]

/-- An argument with two dashes is taken only for an option of which it has the beginning of the name. -/
theorem prefix_of_ofName {rest : List Char} (h : ofName switches argument rest = .ok (.option text s attached)) :
    s ∈ switches ∧ (cutMark rest).1 <+: s.name.toList := by
  unfold ofName at h
  dsimp only at h
  split at h
  next t ht =>
    cases h
    have hname : s.name.toList = (cutMark rest).1 := by simpa using List.find?_some ht
    exact ⟨List.mem_of_find?_eq_some ht, hname ▸ List.prefix_rfl⟩
  next =>
    split at h
    · unfold ofOther at h
      split at h <;> cases h
    next t hfilter =>
      cases h
      have hmem : s ∈ switches.filter fun s => (cutMark rest).1.isPrefixOf s.name.toList := by simp [hfilter]
      exact ⟨(List.mem_filter.1 hmem).1, List.isPrefixOf_iff_prefix.1 (List.mem_filter.1 hmem).2⟩
    · cases h

theorem mem_of_ofArgument (h : ofArgument switches argument = .ok (.option text s attached)) : s ∈ switches := by
  unfold ofArgument at h
  split at h
  · exact (prefix_of_ofName h).1
  · split at h
    next t ht =>
      cases h
      exact List.mem_of_find?_eq_some ht
    next =>
      unfold ofOther at h
      split at h <;> cases h
  · cases h

theorem exists_of_mem_ofArguments {arguments : List String} {ts : List (Token σ)}
    (h : ofArguments switches arguments = .ok ts) (hmem : .option text s attached ∈ ts) :
    ∃ argument ∈ arguments, ofArgument switches argument = .ok (.option text s attached) := by
  induction arguments generalizing ts with
  | nil =>
    cases h
    cases hmem
  | cons argument arguments ih =>
    by_cases hdashes : argument = "--"
    · rw [ofArguments, if_pos hdashes] at h
      cases h
      simp at hmem
    · rw [ofArguments, if_neg hdashes] at h
      obtain ⟨t, ht, h⟩ := Reading.exists_of_bind_ok h
      obtain ⟨more, hmore, h⟩ := Reading.exists_of_bind_ok h
      cases h
      rcases List.mem_cons.1 hmem with rfl | hmem
      · exact ⟨argument, List.mem_cons_self, ht⟩
      · obtain ⟨argument', hargument', hkind⟩ := ih hmore hmem
        exact ⟨argument', List.mem_cons_of_mem _ hargument', hkind⟩

/-- Of several options none is meant by nothing. -/
theorem cutMark_ne_nil_of_ofName (hswitches : 2 ≤ switches.length) (hnames : ∀ s ∈ switches, s.name ≠ "")
    {rest : List Char} (h : ofName switches argument rest = .ok (.option text s attached)) :
    (cutMark rest).1 ≠ [] := by
  intro hnil
  have hnone : (switches.find? fun s => s.name.toList == []) = none := by
    rw [List.find?_eq_none]
    intro s hs
    simpa using hnames s hs
  have hall : (switches.filter fun s => List.isPrefixOf [] s.name.toList) = switches := by simp
  unfold ofName at h
  simp only [hnil, hnone, hall] at h
  rcases switches with _ | ⟨s, _ | ⟨t, more⟩⟩
  · simp at hswitches
  · simp at hswitches
  · cases h

theorem cutMark_eq_self {cs : List Char} (h : '=' ∉ cs) : cutMark cs = (cs, none) := by
  have hfree : ∀ c ∈ cs, decide (c ≠ '=') = true := by
    intro c hc
    rw [decide_eq_true_iff]
    rintro rfl
    exact h hc
  have hnone := List.dropWhile_eq_nil_iff.2 hfree
  unfold cutMark
  rw [hnone]

/-- The name and what is behind the mark make up the whole. -/
theorem cutMark_split (cs : List Char) :
    cs = (cutMark cs).1 ++ (cutMark cs).2.elim [] ('=' :: ·) := by
  unfold cutMark
  have happend := List.takeWhile_append_dropWhile (p := (· ≠ '=')) (l := cs)
  split
  next mark value hdrop =>
    have hmark : mark = '=' := by
      have := List.head?_dropWhile_not (· ≠ '=') cs
      rw [hdrop] at this
      simpa using this
    rw [hdrop, hmark] at happend
    exact happend.symm
  next => simp

end Token

/-! ## The option for the form of a report -/

/-- A beginning of the name of the option for the form of a report. No other option begins like it. -/
def Abbreviates (name : String) : Prop := name ≠ "" ∧ name.toList <+: "error-format".toList

/-- The arguments by which a report in JSON is asked for. -/
inductive JsonSpelling : List String → Prop
  | apart {name : String} : Abbreviates name → JsonSpelling ["--" ++ name, "json"]
  | joined {name : String} : Abbreviates name → JsonSpelling ["--" ++ name ++ "=" ++ "json"]

/-- An argument is the option for the form of a report, maybe with a value. -/
def IsFormatOption (argument : String) : Prop :=
  ∃ name, Abbreviates name ∧ (argument = "--" ++ name ∨ ∃ value, argument = "--" ++ name ++ "=" ++ value)

theorem jsonSpelling_joined : JsonSpelling ["--error-format=json"] := by
  have hjoined : "--" ++ "error-format" ++ "=" ++ "json" = "--error-format=json" := by decide
  exact hjoined ▸ .joined ⟨by decide, List.prefix_rfl⟩

/-- An operand is no option. -/
theorem not_isFormatOption_of_head {argument : String} (h : argument.toList.head? ≠ some '-') :
    ¬IsFormatOption argument := by
  rintro ⟨name, -, rfl | ⟨value, rfl⟩⟩ <;> simp at h

namespace Request

/-- The option for the form of a report. -/
def formatSwitch : Switch Request :=
  ⟨none, "error-format", .setting fun value r => do
    return { r with format := ← Switch.choose formatOption formats value }⟩

theorem formatSwitch_mem : formatSwitch ∈ grammar.switches := List.mem_cons_of_mem _ List.mem_cons_self

theorem ofArgument_format {name : String} (h : Abbreviates name) (value : Option String) :
    Token.ofArgument grammar.switches ("--" ++ name ++ (value.elim "" ("=" ++ ·))) =
      .ok (.option ("--" ++ name ++ (value.elim "" ("=" ++ ·))) formatSwitch
        (Token.attachment (value.map String.toList))) := by
  obtain ⟨hne, hbegins⟩ := h
  obtain ⟨c, cs, hname⟩ : ∃ c cs, name.toList = c :: cs := by
    refine List.exists_cons_of_ne_nil fun hnil => hne ?_
    exact String.toList_inj.1 hnil
  have hmark : '=' ∉ name.toList := fun hmem => absurd (hbegins.subset hmem) (by decide)
  have hcut : Token.cutMark (name.toList ++ (value.map String.toList).elim [] ('=' :: ·)) =
      (c :: cs, value.map String.toList) := by
    rw [← hname]
    cases value with
    | none => rw [Option.map_none, Option.elim_none, List.append_nil, Token.cutMark_eq_self hmark]
    | some value => exact Token.cutMark_append hmark value.toList
  have hchars : ("--" ++ name ++ (value.elim "" ("=" ++ ·))).toList =
      '-' :: '-' :: (name.toList ++ (value.map String.toList).elim [] ('=' :: ·)) := by
    cases value <;> simp
  unfold Token.ofArgument
  rw [hchars]
  exact Token.ofName_of_prefix (by decide) formatSwitch_mem hcut (hname ▸ hbegins) _

/-- Nothing else is taken for this option. -/
theorem isFormatOption_of_ofArgument {argument text : String} {attached : Attachment}
    (h : Token.ofArgument grammar.switches argument = .ok (.option text formatSwitch attached)) :
    IsFormatOption argument := by
  unfold Token.ofArgument at h
  split at h
  next rest hchars =>
    obtain ⟨-, hbegins⟩ := Token.prefix_of_ofName h
    have hne := Token.cutMark_ne_nil_of_ofName (by decide) (by decide) h
    have hsplit := Token.cutMark_split rest
    generalize Token.cutMark rest = cut at hbegins hne hsplit
    obtain ⟨name, value⟩ := cut
    refine ⟨String.ofList name, ⟨fun hempty => hne ?_, by rwa [String.toList_ofList]⟩, ?_⟩
    · simpa using congrArg String.toList hempty
    · cases value with
      | none =>
        refine .inl (String.toList_inj.1 ?_)
        rw [hchars, hsplit]
        simp
      | some value =>
        refine .inr ⟨String.ofList value, String.toList_inj.1 ?_⟩
        rw [hchars, hsplit]
        simp
  next c rest hchars =>
    split at h
    next s hs =>
      cases h
      have hletter := List.find?_some hs
      cases hletter
    next =>
      unfold Token.ofOther at h
      split at h <;> cases h
  next => cases h

/-! ## Other options -/

/-- What an option does leaves the form of a report as it is. -/
def KeepsFormat (set : Request → Reading Request) : Prop := ∀ r r', set r = .ok r' → r'.format = r.format

/-- An option takes no value and leaves the form of a report as it is. -/
def IsBystander (s : Switch Request) : Prop := ∃ set, s.effect = .flag set ∧ KeepsFormat set

theorem isBystander_of_ne {s : Switch Request} (hs : s ∈ grammar.switches) (hne : s ≠ formatSwitch) :
    IsBystander s := by
  have hswitches : grammar.switches = [.help help, formatSwitch, .flag "debug" id] := rfl
  rw [hswitches] at hs
  simp only [List.mem_cons, List.not_mem_nil, or_false] at hs
  rcases hs with rfl | rfl | rfl
  · exact ⟨_, rfl, fun _ _ h => by cases h⟩
  · exact absurd rfl hne
  · exact ⟨_, rfl, fun _ _ h => by cases h; rfl⟩

theorem isBystander_of_letter {c : Char} {s : Switch Request} (h : Token.ofLetter? grammar.switches c = some s) :
    IsBystander s := by
  refine isBystander_of_ne (List.mem_of_find?_eq_some h) ?_
  rintro rfl
  cases List.find?_some h

theorem IsBystander.keepsFormat {s : Switch Request} (hs : IsBystander s) {set : Request → Reading Request}
    (hset : s.effect = .flag set) : KeepsFormat set := by
  obtain ⟨set', hset', hkeeps⟩ := hs
  cases hset.symm.trans hset'
  exact hkeeps

theorem IsBystander.effect_ne {s : Switch Request} (hs : IsBystander s) {set : String → Request → Reading Request} :
    s.effect ≠ .setting set := by
  obtain ⟨flag, hflag, -⟩ := hs
  intro hset
  cases hset.symm.trans hflag

/-- What a bundle of options does leaves the form of a report as it is, and it takes no value from the next argument. -/
structure AreBystanders (bundle : Bundle Request) : Prop where
  awaiting : bundle.awaiting = none
  effects : ∀ effect ∈ bundle.effects, KeepsFormat effect

theorem areBystanders_ofMarked {s : Switch Request} (hs : IsBystander s) {value : List Char} {bundle : Bundle Request}
    (h : Bundle.ofMarked s value = .ok bundle) : AreBystanders bundle := by
  obtain ⟨set, hset, -⟩ := hs
  rw [Bundle.ofMarked, hset] at h
  cases h

/-- The only letter is that of an option without a value, so there is none at the end of a bundle. -/
theorem areBystanders_ofDirect {s : Switch Request} (hs : IsBystander s) {text : List Char} {bundle : Bundle Request}
    (h : Bundle.ofDirect grammar.switches s text = .ok bundle) : AreBystanders bundle := by
  have hcons {set : Request → Reading Request} (hset : KeepsFormat set) {bundle : Bundle Request}
      (hb : AreBystanders bundle) : AreBystanders { bundle with effects := set :: bundle.effects } :=
    ⟨hb.awaiting, List.forall_mem_cons.2 ⟨hset, hb.effects⟩⟩
  fun_induction Bundle.ofDirect grammar.switches s text generalizing bundle with
  | case1 s set hset => exact absurd hset hs.effect_ne
  | case2 s set hset =>
    cases h
    exact ⟨rfl, List.forall_mem_singleton.2 (hs.keepsFormat hset)⟩
  | case3 s c rest set hset => exact absurd hset hs.effect_ne
  | case4 s rest set hset => cases h
  | case5 s c rest set hset hc hnone =>
    cases h
    exact ⟨rfl, List.forall_mem_singleton.2 (hs.keepsFormat hset)⟩
  | case6 s c set hset hc next hnext join value =>
    obtain ⟨behind, hbehind, hb⟩ := Reading.exists_of_bind_ok h
    cases hb
    exact hcons (hs.keepsFormat hset) (areBystanders_ofMarked (isBystander_of_letter hnext) hbehind)
  | case7 s c set hset hc next hnext join rest hrest ih =>
    obtain ⟨behind, hbehind, hb⟩ := Reading.exists_of_bind_ok h
    cases hb
    exact hcons (hs.keepsFormat hset) (ih (isBystander_of_letter hnext) hbehind)

theorem areBystanders_ofAttachment {s : Switch Request} (hs : IsBystander s) {attached : Attachment}
    {bundle : Bundle Request} (h : Bundle.ofAttachment grammar.switches s attached = .ok bundle) :
    AreBystanders bundle := by
  cases attached with
  | direct text => exact areBystanders_ofDirect hs h
  | marked value => exact areBystanders_ofMarked hs h

theorem AreBystanders.keepsFormat {bundle : Bundle Request} (h : AreBystanders bundle) : KeepsFormat bundle.apply := by
  obtain ⟨-, heffects⟩ := h
  unfold Bundle.apply
  generalize bundle.effects = effects at heffects
  induction effects with
  | nil =>
    rintro r _ ⟨⟩
    rfl
  | cons effect effects ih =>
    obtain ⟨heffect, heffects⟩ := List.forall_mem_cons.1 heffects
    intro r r' hr
    have hr : (effect :: effects).foldlM (fun r effect => effect r) r = .ok r' := hr
    rw [List.foldlM_cons] at hr
    obtain ⟨r₁, hfirst, hrest⟩ := Reading.exists_of_bind_ok hr
    exact (ih heffects r₁ r' hrest).trans (heffect r r₁ hfirst)

/-- A command says nothing about the form of a report. -/
theorem format_of_command {command : String} {arguments : List String} {r r' : Request} {leftover : List String}
    (h : (do
      let (task, leftover) ← Task.read command arguments
      return ({ r with task := some task }, leftover) : Reading (Request × List String)) = .ok (r', leftover)) :
    r'.format = r.format := by
  obtain ⟨⟨task, rest⟩, -, hrest⟩ := Reading.exists_of_bind_ok h
  cases hrest
  rfl

theorem keep_ok {leftover rest : List String} {reading : Reading (σ × List String)} {r : σ}
    (h : Grammar.keep leftover reading = .ok (r, rest)) : ∃ rest', reading = .ok (r, rest') := by
  cases reading with
  | error interruption => cases h
  | ok result =>
    cases h
    exact ⟨_, rfl⟩

/-- Arguments without the option for it leave the form of a report as it is. -/
theorem format_of_readTokens {ts : List (Token Request)}
    (h : ∀ text s attached, .option text s attached ∈ ts → IsBystander s) {r r' : Request} {leftover : List String}
    (hread : Grammar.readTokens grammar.switches grammar.operands r ts = .ok (r', leftover)) :
    r'.format = r.format := by
  induction ts generalizing r leftover with
  | nil =>
    cases hread
    rfl
  | cons t ts ih =>
    have hts : ∀ text s attached, .option text s attached ∈ ts → IsBystander s :=
      fun text s attached hmem => h text s attached (List.mem_cons_of_mem _ hmem)
    cases t with
    | operand text => exact format_of_command hread
    | unknown text =>
      obtain ⟨rest, hread⟩ := keep_ok hread
      exact ih hts hread
    | dashes =>
      cases ts with
      | nil =>
        cases hread
        rfl
      | cons next ts => exact format_of_command hread
    | option text s attached =>
      rw [Grammar.readTokens] at hread
      obtain ⟨bundle, hbundle, hread⟩ := Reading.exists_of_bind_ok hread
      have hb := areBystanders_ofAttachment (h text s attached List.mem_cons_self) hbundle
      rw [hb.awaiting] at hread
      obtain ⟨r₁, hr₁, hread⟩ := Reading.exists_of_bind_ok hread
      obtain ⟨rest, hread⟩ := keep_ok hread
      exact (ih hts hread).trans (hb.keepsFormat r r₁ hr₁)

theorem isBystander_of_mem {arguments : List String} (hfree : ∀ argument ∈ arguments, ¬IsFormatOption argument)
    {ts : List (Token Request)} (hts : Token.ofArguments grammar.switches arguments = .ok ts) :
    ∀ text s attached, .option text s attached ∈ ts → IsBystander s := by
  intro text s attached hmem
  obtain ⟨argument, hargument, hkind⟩ := Token.exists_of_mem_ofArguments hts hmem
  refine isBystander_of_ne (Token.mem_of_ofArgument hkind) ?_
  rintro rfl
  exact hfree argument hargument (isFormatOption_of_ofArgument hkind)

/-- Each spelling is read as the wish for JSON, and the rest of the arguments goes on from there. -/
theorem readFrom_jsonSpelling {spelling : List String} (hspelling : JsonSpelling spelling) (rest : List String) :
    grammar.readFrom grammar.operands {} (spelling ++ rest) =
      grammar.readFrom grammar.operands { format := .json } rest := by
  cases hspelling with
  | @apart name hname =>
    have hoption := ofArgument_format hname none
    rw [Option.elim_none, String.append_empty] at hoption
    have hne : "--" ++ name ≠ "--" := by
      intro h
      have hchars := congrArg String.toList h
      rw [String.toList_append] at hchars
      exact hname.1 (String.toList_inj.1 (List.append_right_eq_self.1 hchars))
    exact Grammar.readFrom_setting hne hoption rfl (isOperand_of_head _ (by decide)) rfl rest
  | @joined name hname =>
    have hoption := ofArgument_format hname (some "json")
    rw [Option.elim_some, ← String.append_assoc] at hoption
    have hne : "--" ++ name ++ "=" ++ "json" ≠ "--" := by
      intro h
      have hchars := congrArg String.toList h
      simp at hchars
    exact Grammar.readFrom_option [_] hne hoption rfl rfl rest

/-- All spellings are read alike, and no other argument takes back what they ask for. -/
theorem format_of_jsonSpelling {spelling rest : List String} (hspelling : JsonSpelling spelling)
    (hfree : ∀ argument ∈ rest, ¬IsFormatOption argument) {request : Request}
    (h : ofArguments (spelling ++ rest) = .ok request) : request.format = .json := by
  obtain ⟨⟨r, leftover⟩, hread, hend⟩ := Reading.exists_of_bind_ok h
  have hread : grammar.readFrom grammar.operands {} (spelling ++ rest) = .ok (r, leftover) := hread
  rw [readFrom_jsonSpelling hspelling] at hread
  obtain ⟨ts, hts, hread⟩ := Reading.exists_of_bind_ok hread
  have hformat := format_of_readTokens (isBystander_of_mem hfree hts) hread
  cases leftover with
  | nil =>
    cases hend
    exact hformat
  | cons argument leftover => cases hend

theorem isFormatOption_formatOption : IsFormatOption formatOption :=
  ⟨"error-format", ⟨by decide, List.prefix_rfl⟩, .inl (by decide)⟩

/-- Where the arguments are at fault, only the option written out and apart from its value counts. -/
theorem formatOfArguments_jsonSpelling {spelling rest : List String} (hspelling : JsonSpelling spelling)
    (hfree : ∀ argument ∈ rest, ¬IsFormatOption argument) :
    formatOfArguments (spelling ++ rest) = .json ↔ spelling = ["--error-format", "json"] := by
  have hrest : ∀ argument ∈ rest, argument ≠ formatOption := by
    rintro _ hmem rfl
    exact hfree _ hmem isFormatOption_formatOption
  have htext (h : ∀ argument ∈ spelling, argument ≠ formatOption) :
      formatOfArguments (spelling ++ rest) = .text := by
    have hall : ∀ argument ∈ spelling ++ rest, decide (argument ≠ formatOption) = true := fun argument hmem =>
      decide_eq_true ((List.mem_append.1 hmem).elim (h argument) (hrest argument))
    have hnone := List.dropWhile_eq_nil_iff.2 hall
    unfold formatOfArguments
    rw [hnone]
  constructor
  · intro hjson
    by_contra hne
    suffices h : ∀ argument ∈ spelling, argument ≠ formatOption by cases (htext h).symm.trans hjson
    cases hspelling with
    | @apart name hname =>
      have hname : "--" ++ name ≠ formatOption := by
        intro h
        exact hne (by rw [h]; rfl)
      have hvalue : "json" ≠ formatOption := by decide
      simpa using ⟨hname, hvalue⟩
    | @joined name hname =>
      have hmark : '=' ∈ ("--" ++ name ++ "=" ++ "json").toList := by simp
      refine List.forall_mem_singleton.2 fun h => ?_
      rw [h] at hmark
      exact absurd hmark (by decide)
  · rintro rfl
    rfl

end Request

/-! ## Runs -/

/-- The form of the report on a failed run with arguments: that of the request, if they make one. -/
theorem format_of_run (fs : FileSystem σ) (strays : Text.StrayBytes) (measurer : Measurer)
    (standardInput : Option (Except Text.Utf8Fault String)) (traceVariable : Option String) (files : σ)
    {arguments : List String} (hne : arguments ≠ []) {printed : String} {failure : Failure} {format : ReportFormat}
    {traced : Bool} {files' : σ}
    (h : (run (fs.host strays measurer standardInput traceVariable) arguments).run files =
      (.failed printed failure format traced, files')) :
    (∃ request, Request.ofArguments arguments = .ok request ∧ format = request.format) ∨
      (∀ request, Request.ofArguments arguments ≠ .ok request) ∧ format = Request.formatOfArguments arguments := by
  cases hrequest : Request.ofArguments arguments with
  | error interruption =>
    have hempty : ¬arguments.isEmpty = true := fun h => hne (List.isEmpty_iff.1 h)
    unfold run at h
    rw [if_neg hempty, hrequest] at h
    cases interruption <;> cases h
    exact .inr ⟨nofun, rfl⟩
  | ok request =>
    refine .inl ⟨request, rfl, ?_⟩
    rw [run_request fs strays measurer standardInput traceVariable files hne hrequest] at h
    unfold ended at h
    split at h
    next answer files'' hperform =>
      have houtcome := congrArg Prod.fst h
      dsimp only [Answer.outcome] at houtcome
      split at houtcome <;> cases houtcome
      rfl
    next =>
      cases h
      rfl

/-- A run that is asked for JSON by some spelling of the option, with no such option behind it, and fails. Its report
is one line of JSON if the option is written out and apart from its value, or if the arguments are in order; otherwise
it is not, though the spelling is one that is read as the wish for JSON. -/
theorem run_reports_in_json_iff (fs : FileSystem σ) (strays : Text.StrayBytes) (measurer : Measurer)
    (standardInput : Option (Except Text.Utf8Fault String)) (traceVariable : Option String) (files : σ)
    {spelling rest : List String} (hspelling : JsonSpelling spelling)
    (hfree : ∀ argument ∈ rest, ¬IsFormatOption argument) {printed : String} {failure : Failure} {format : ReportFormat}
    {traced : Bool} {files' : σ}
    (hrun : (run (fs.host strays measurer standardInput traceVariable) (spelling ++ rest)).run files =
      (.failed printed failure format traced, files')) :
    IsJsonReport failure (Outcome.failed printed failure format traced).report ↔
      spelling = ["--error-format", "json"] ∨ ∃ request, Request.ofArguments (spelling ++ rest) = .ok request := by
  have hne : spelling ++ rest ≠ [] := by cases hspelling <;> exact List.cons_ne_nil _ _
  refine (failure.isJsonReport_iff format).trans ?_
  have hformat := format_of_run fs strays measurer standardInput traceVariable files hne hrun
  rcases hformat with ⟨request, hrequest, rfl⟩ | ⟨hnone, rfl⟩
  · exact ⟨fun _ => .inr ⟨request, hrequest⟩, fun _ => Request.format_of_jsonSpelling hspelling hfree hrequest⟩
  · refine (Request.formatOfArguments_jsonSpelling hspelling hfree).trans ⟨.inl, ?_⟩
    rintro (h | ⟨request, hrequest⟩)
    · exact h
    · exact absurd hrequest (hnone request)

/-- A run without files and without a standard input. -/
def runOnEmptyDisk (arguments : List String) : Outcome × Disk :=
  (run (Disk.fileSystem.host .absent (.byCharacter [] 10) none none) arguments).run ⟨[]⟩

theorem run_reports_in_json_iff_joined :
    IsJsonReport .noInput (runOnEmptyDisk (["--error-format=json"] ++ ["render"])).1.report ∧
      ¬IsJsonReport (.usage (.unrecognized ["more"]))
        (runOnEmptyDisk (["--error-format=json"] ++ ["cheatsheet", "more"])).1.report := by
  have hinput : runOnEmptyDisk (["--error-format=json"] ++ ["render"]) = (.failed "" .noInput .json false, ⟨[]⟩) := by
    decide +kernel
  have hmore : runOnEmptyDisk (["--error-format=json"] ++ ["cheatsheet", "more"]) =
      (.failed "" (.usage (.unrecognized ["more"])) .text false, ⟨[]⟩) := by decide +kernel
  have hrequest : Request.ofArguments (["--error-format=json"] ++ ["render"]) =
      .ok { format := .json, task := some (.draw {}) } := by decide +kernel
  have hfault : Request.ofArguments (["--error-format=json"] ++ ["cheatsheet", "more"]) =
      .error (.fault (.unrecognized ["more"])) := by decide +kernel
  have hfree : ∀ argument ∈ ["cheatsheet", "more", "render"], ¬IsFormatOption argument := by
    simp only [List.forall_mem_cons]
    exact ⟨not_isFormatOption_of_head (by decide), not_isFormatOption_of_head (by decide),
      not_isFormatOption_of_head (by decide), List.forall_mem_nil _⟩
  refine ⟨?_, ?_⟩
  · rw [hinput]
    refine (run_reports_in_json_iff Disk.fileSystem .absent (.byCharacter [] 10) none none ⟨[]⟩
      jsonSpelling_joined (fun argument h => hfree argument ?_) hinput).2 (.inr ⟨_, hrequest⟩)
    exact List.mem_cons_of_mem _ (List.mem_cons_of_mem _ h)
  · rw [hmore]
    rw [run_reports_in_json_iff Disk.fileSystem .absent (.byCharacter [] 10) none none ⟨[]⟩
      jsonSpelling_joined (fun argument h => hfree argument (List.mem_append_left ["render"] h)) hmore]
    rintro (h | ⟨request, hrequest⟩)
    · exact absurd h (by decide)
    · cases hfault.symm.trans hrequest

/-- The option with its value in the same argument asks for JSON, but a command that there is not is not reported in
it. -/
theorem json_unheeded_for_unknown_command :
    JsonSpelling ["--error-format=json"] ∧ (∀ argument ∈ ["bogus"], ¬IsFormatOption argument) ∧
      ∃ printed failure format traced disk,
        runOnEmptyDisk (["--error-format=json"] ++ ["bogus"]) = (.failed printed failure format traced, disk) ∧
          ¬IsJsonReport failure (Outcome.failed printed failure format traced).report := by
  have hrun : runOnEmptyDisk (["--error-format=json"] ++ ["bogus"]) =
      (.failed "" (.usage (.invalidChoice "command" "bogus" ["render", "check", "cheatsheet"])) .text false, ⟨[]⟩) := by
    decide +kernel
  exact ⟨jsonSpelling_joined, List.forall_mem_singleton.2 (not_isFormatOption_of_head (by decide)), _, _, _, _, _, hrun,
    Failure.not_isJsonReport_textReport _⟩

end Pinboard.CommandLine
