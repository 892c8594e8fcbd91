import Pinboard.CommandLine.Run
import Pinboard.Proofs.CommandLine.Arguments

/-!
# Options about the page

The page around a document is asked for by options (`PageOption`), which may stand before and after the arguments that
say what is drawn. Main statement: whatever these ask for is asked for together with the page
(`Request.ofArguments_render`).
-/

namespace Pinboard.CommandLine

/-- An option about the page around a document. -/
inductive PageOption
  | html
  /-- The title behind an equals sign. -/
  | title (value : String)
  /-- The title in the next argument. -/
  | titleNext (value : String)

namespace PageOption

/-- The arguments that an option consists of. -/
def arguments : PageOption → List String
  | html => ["--html"]
  | title value => ["--title=" ++ value]
  | titleNext value => ["--title", value]

/-- What an option asks for. -/
def apply (r : DrawRequest) : PageOption → DrawRequest
  | html => { r with inPage := true }
  | title value | titleNext value => { r with title := some value }

/-- The next argument is not taken for an option. -/
def IsReadable : PageOption → Prop
  | titleNext value => IsOperand DrawRequest.grammar.switches value
  | _ => True

/-- What options ask for, the last title among them. -/
def wishes (options : List PageOption) : DrawRequest := options.foldl apply {}

/-- If a page is asked for, it has a title. -/
def AreTitled (options : List PageOption) : Prop :=
  (wishes options).inPage = true → given (wishes options).title ≠ none

theorem foldl_apply (options : List PageOption) (r : DrawRequest) :
    ∃ inPage title, options.foldl apply r = { r with inPage := inPage, title := title } := by
  induction options generalizing r with
  | nil => exact ⟨r.inPage, r.title, rfl⟩
  | cons o options ih =>
    obtain ⟨inPage, title, h⟩ := ih (o.apply r)
    refine ⟨inPage, title, h.trans ?_⟩
    cases o <;> rfl

theorem wishes_eq (options : List PageOption) :
    ∃ inPage title, wishes options = { inPage := inPage, title := title } := foldl_apply options {}

/-- Options about the page may come before or after what they have nothing to do with. -/
theorem foldl_apply_comm {f : DrawRequest → DrawRequest} (hf : ∀ r o, apply (f r) o = f (apply r o))
    (before after : List PageOption) (r : DrawRequest) :
    after.foldl apply (f (before.foldl apply r)) = f ((before ++ after).foldl apply r) := by
  rw [List.foldl_append]
  exact List.foldl_hom f hf

end PageOption

/-! ## Reading the options -/

section
variable {operands : Operands DrawRequest} (r : DrawRequest) (rest : List String)

theorem DrawRequest.readFrom_html :
    grammar.readFrom operands r ("--html" :: rest) = grammar.readFrom operands { r with inPage := true } rest := by
  have hoption : Token.ofArgument grammar.switches "--html" =
      .ok (.option "--html" (.flag "html" fun r => { r with inPage := true }) (.direct [])) := rfl
  exact Grammar.readFrom_flag (by decide) hoption rfl rfl rest

theorem DrawRequest.readFrom_stdout :
    grammar.readFrom operands r ("--stdout" :: rest) = grammar.readFrom operands { r with printed := true } rest := by
  have hoption : Token.ofArgument grammar.switches "--stdout" =
      .ok (.option "--stdout" (.flag "stdout" fun r => { r with printed := true }) (.direct [])) := rfl
  exact Grammar.readFrom_flag (by decide) hoption rfl rfl rest

theorem DrawRequest.readFrom_text (program : String) :
    grammar.readFrom operands r (("--text=" ++ program) :: rest) =
      grammar.readFrom operands { r with program := some program } rest := by
  have hfind : (grammar.switches.find? fun s => s.name.toList == "text".toList) =
      some (.setting none "text" fun value r => { r with program := some value }) := rfl
  exact Grammar.readFrom_marked "text" (by decide) hfind rfl rfl rest

theorem DrawRequest.readFrom_title (value : String) :
    grammar.readFrom operands r (("--title=" ++ value) :: rest) =
      grammar.readFrom operands { r with title := some value } rest := by
  have hfind : (grammar.switches.find? fun s => s.name.toList == "title".toList) =
      some (.setting none "title" fun value r => { r with title := some value }) := rfl
  exact Grammar.readFrom_marked "title" (by decide) hfind rfl rfl rest

theorem DrawRequest.readFrom_titleNext {value : String} (h : IsOperand grammar.switches value) :
    grammar.readFrom operands r ("--title" :: value :: rest) =
      grammar.readFrom operands { r with title := some value } rest := by
  have hoption : Token.ofArgument grammar.switches "--title" =
      .ok (.option "--title" (.setting none "title" fun value r => { r with title := some value }) (.direct [])) := rfl
  exact Grammar.readFrom_setting (by decide) hoption rfl h rfl rest

theorem DrawRequest.readFrom_pageOptions {options : List PageOption} (h : ∀ o ∈ options, o.IsReadable) :
    grammar.readFrom operands r (options.flatMap PageOption.arguments ++ rest) =
      grammar.readFrom operands (options.foldl PageOption.apply r) rest := by
  induction options generalizing r with
  | nil => rfl
  | cons o options ih =>
    obtain ⟨ho, hoptions⟩ := List.forall_mem_cons.1 h
    rw [List.flatMap_cons, List.append_assoc, List.foldl_cons, ← ih (o.apply r) hoptions]
    cases o with
    | html => exact readFrom_html r _
    | title value => exact readFrom_title r _ value
    | titleNext value => exact readFrom_titleNext r _ ho

end

section
variable {operands : Operands CheckRequest} (r : CheckRequest) (rest : List String)

theorem CheckRequest.readFrom_text (program : String) :
    grammar.readFrom operands r (("--text=" ++ program) :: rest) =
      grammar.readFrom operands { r with program := some program } rest := by
  have hfind : (grammar.switches.find? fun s => s.name.toList == "text".toList) =
      some (.setting none "text" fun value r => { r with program := some value }) := rfl
  exact Grammar.readFrom_marked "text" (by decide) hfind rfl rfl rest

theorem CheckRequest.readFrom_strict :
    grammar.readFrom operands r ("--strict" :: rest) = grammar.readFrom operands { r with strict := true } rest := by
  have hoption : Token.ofArgument grammar.switches "--strict" =
      .ok (.option "--strict" (.flag "strict" fun r => { r with strict := true }) (.direct [])) := rfl
  exact Grammar.readFrom_flag (by decide) hoption rfl rfl rest

end

theorem PageOption.isNamed {o : PageOption} (h : o.IsReadable) : ∀ argument ∈ o.arguments, IsNamed argument := by
  have hhtml : IsNamed "--html" := isNamed_of_toList rfl (by decide)
  have htitle : IsNamed "--title" := isNamed_of_toList rfl (by decide)
  cases o with
  | html => simpa [arguments] using hhtml
  | title value =>
    have hmarked : IsNamed ("--title=" ++ value) := isNamed_append rfl (by decide) value
    simpa [arguments] using hmarked
  | titleNext value =>
    have hvalue : IsNamed value := h.isNamed (by decide) (by decide)
    simpa [arguments] using ⟨htitle, hvalue⟩

/-! ## Requests to draw -/

/-- The arguments of a run that draws: options about the page, and other arguments between them. -/
def drawArguments (before : List PageOption) (middle : List String) (after : List PageOption) : List String :=
  "render" :: (before.flatMap PageOption.arguments ++ (middle ++ after.flatMap PageOption.arguments))

/-- Between the options about the page there are arguments that ask for something else. -/
theorem Request.ofArguments_render {before after : List PageOption} (hbefore : ∀ o ∈ before, o.IsReadable)
    (hafter : ∀ o ∈ after, o.IsReadable) {middle : List String} (hnamed : ∀ argument ∈ middle, IsNamed argument)
    {operands : Operands DrawRequest} {f : DrawRequest → DrawRequest}
    (hmiddle : ∀ r, DrawRequest.grammar.readFrom DrawRequest.grammar.operands r
        (middle ++ after.flatMap PageOption.arguments) =
      DrawRequest.grammar.readFrom operands (f r) (after.flatMap PageOption.arguments))
    (hf : ∀ r o, PageOption.apply (f r) o = f (PageOption.apply r o)) :
    ofArguments (drawArguments before middle after) =
      .ok { task := some (.draw (f (PageOption.wishes (before ++ after)))) } := by
  have hoptions {options : List PageOption} (h : ∀ o ∈ options, o.IsReadable) :
      ∀ argument ∈ options.flatMap PageOption.arguments, IsNamed argument := by
    intro argument hargument
    obtain ⟨o, ho, hargument⟩ := List.mem_flatMap.1 hargument
    exact PageOption.isNamed (h o ho) argument hargument
  have hread : DrawRequest.grammar.read {}
      (before.flatMap PageOption.arguments ++ (middle ++ after.flatMap PageOption.arguments)) =
        .ok (f (PageOption.wishes (before ++ after)), []) := by
    have hend : DrawRequest.grammar.readFrom operands (f (before.foldl PageOption.apply {}))
        (after.flatMap PageOption.arguments ++ []) = .ok (f (PageOption.wishes (before ++ after)), []) := by
      rw [DrawRequest.readFrom_pageOptions _ _ hafter, PageOption.foldl_apply_comm hf]
      rfl
    rw [List.append_nil] at hend
    calc DrawRequest.grammar.readFrom DrawRequest.grammar.operands {}
          (before.flatMap PageOption.arguments ++ (middle ++ after.flatMap PageOption.arguments))
        = DrawRequest.grammar.readFrom DrawRequest.grammar.operands (before.foldl PageOption.apply {})
            (middle ++ after.flatMap PageOption.arguments) := DrawRequest.readFrom_pageOptions _ _ hbefore
      _ = DrawRequest.grammar.readFrom operands (f (before.foldl PageOption.apply {}))
            (after.flatMap PageOption.arguments) := hmiddle _
      _ = .ok (f (PageOption.wishes (before ++ after)), []) := hend
  refine ofArguments_command (isOperand_of_head _ (by decide)) ?_ ?_
  · intro argument hargument
    rcases List.mem_append.1 hargument with h | h
    · exact hoptions hbefore argument h
    · rcases List.mem_append.1 h with h | h
      · exact hnamed argument h
      · exact hoptions hafter argument h
  · show (DrawRequest.grammar.read {} _ >>= fun reading => pure (Task.draw reading.1, reading.2)) = _
    rw [hread]
    rfl

end Pinboard.CommandLine
