import Pinboard.CommandLine.Request

/-!
# Arguments, one after the other

The arguments of a command are classified first and carried out then. For an argument at the front that comes to the
same as carrying it out and going on with the rest (`Grammar.readFrom_flag`, `Grammar.readFrom_marked`,
`Grammar.readFrom_setting`, `Grammar.readFrom_operand`). Main statement: a command at the front is given all the
arguments behind it as they stand (`Request.ofArguments_command`).
-/

namespace Pinboard.CommandLine

variable {σ : Type}

/-! ## Kinds of arguments -/

/-- The arguments of a command take an argument for an operand. -/
def IsOperand (switches : List (Switch σ)) (argument : String) : Prop :=
  argument ≠ "--" ∧ Token.ofArgument switches argument = .ok (.operand argument)

/-- An argument that does not begin with a dash is an operand. -/
theorem isOperand_of_head (switches : List (Switch σ)) {argument : String} (h : argument.toList.head? ≠ some '-') :
    IsOperand switches argument := by
  refine ⟨?_, ?_⟩
  · rintro rfl
    exact h rfl
  · unfold Token.ofArgument
    split
    next heq => simp [heq] at h
    next heq => simp [heq] at h
    next => rfl

namespace Token

theorem text_ofOther (argument : String) (rest : List Char) :
    (ofOther argument rest : Token σ).text = argument := by
  unfold ofOther
  split <;> rfl

/-- An argument is kept in its kind. -/
theorem text_ofArgument {switches : List (Switch σ)} {argument : String} {t : Token σ}
    (h : ofArgument switches argument = .ok t) : t.text = argument := by
  unfold ofArgument at h
  split at h
  · unfold ofName at h
    dsimp only at h
    split at h
    · cases h
      rfl
    · split at h
      · cases h
        exact text_ofOther _ _
      · cases h
        rfl
      · cases h
  · split at h
    · cases h
      rfl
    · cases h
      exact text_ofOther _ _
  · cases h
    rfl

theorem cutMark_append {name : List Char} (h : '=' ∉ name) (value : List Char) :
    cutMark (name ++ '=' :: value) = (name, some value) := by
  have hfree : ∀ c ∈ name, decide (c ≠ '=') = true := by
    intro c hc
    rw [decide_eq_true_iff]
    rintro rfl
    exact h hc
  unfold cutMark
  rw [List.dropWhile_append_of_pos hfree, List.takeWhile_append_of_pos hfree]
  simp

/-- An option with its name written out and a value behind an equals sign. -/
theorem ofArgument_marked {switches : List (Switch σ)} {s : Switch σ} {name : String} (hname : '=' ∉ name.toList)
    (hfind : (switches.find? fun s => s.name.toList == name.toList) = some s) (value : String) :
    ofArgument switches ("--" ++ name ++ "=" ++ value) =
      .ok (.option ("--" ++ name ++ "=" ++ value) s (.marked value.toList)) := by
  have hchars : ("--" ++ name ++ "=" ++ value).toList = '-' :: '-' :: (name.toList ++ '=' :: value.toList) := by
    simp
  unfold ofArgument
  rw [hchars]
  simp only [ofName, cutMark_append hname, hfind]
  rfl

/-- Two dashes alone are told apart before an argument is given a kind. -/
theorem ofArgument_ne_dashes {switches : List (Switch σ)} {argument : String} {t : Token σ} (hne : argument ≠ "--")
    (h : ofArgument switches argument = .ok t) : t ≠ .dashes := by
  rintro rfl
  exact hne (text_ofArgument h).symm

theorem ofArguments_cons {switches : List (Switch σ)} {argument : String} {t : Token σ} (hne : argument ≠ "--")
    (h : ofArgument switches argument = .ok t) (arguments : List String) :
    ofArguments switches (argument :: arguments) = (ofArguments switches arguments).map (t :: ·) := by
  rw [ofArguments, if_neg hne, h]
  cases ofArguments switches arguments <;> rfl

/-- Arguments that all have a kind, none of them two dashes alone, are kept in their kinds. -/
theorem exists_ofArguments {switches : List (Switch σ)} {arguments : List String}
    (h : ∀ argument ∈ arguments, argument ≠ "--" ∧ ∃ t, ofArgument switches argument = .ok t) :
    ∃ ts, ofArguments switches arguments = .ok ts ∧ ts.map text = arguments := by
  induction arguments with
  | nil => exact ⟨[], rfl, rfl⟩
  | cons argument arguments ih =>
    obtain ⟨⟨hne, t, ht⟩, hrest⟩ := List.forall_mem_cons.1 h
    obtain ⟨ts, hts, htexts⟩ := ih hrest
    refine ⟨t :: ts, ?_, ?_⟩
    · rw [ofArguments_cons hne ht, hts]
      rfl
    · rw [List.map_cons, text_ofArgument ht, htexts]

end Token

/-! ## Reading from the front -/

namespace Grammar

variable {g : Grammar σ} {operands : Operands σ} {request request' : σ}

/-- Carry out arguments on a request, where the command still takes the given operands. -/
def readFrom (g : Grammar σ) (operands : Operands σ) (request : σ) (arguments : List String) :
    Reading (σ × List String) := do
  readTokens g.switches operands request (← Token.ofArguments g.switches arguments)

theorem keep_nil (reading : Reading (σ × List String)) : keep [] reading = reading := by
  cases reading <;> rfl

/-- An option that needs nothing behind it is carried out. -/
theorem readFrom_option {argument text : String} {s : Switch σ} {attachment : Attachment}
    (effects : List (σ → Reading σ)) (hne : argument ≠ "--")
    (hoption : Token.ofArgument g.switches argument = .ok (.option text s attachment))
    (hbundle : Bundle.ofAttachment g.switches s attachment = .ok ⟨effects, none, []⟩)
    (happly : effects.foldlM (fun r effect => effect r) request = .ok request') (rest : List String) :
    g.readFrom operands request (argument :: rest) = g.readFrom operands request' rest := by
  have happly : (⟨effects, none, []⟩ : Bundle σ).apply request = .ok request' := happly
  unfold readFrom
  rw [Token.ofArguments_cons hne hoption]
  cases Token.ofArguments g.switches rest with
  | error interruption => rfl
  | ok ts =>
    simp only [Except.map, bind, Except.bind]
    rw [readTokens, hbundle]
    simp only [bind, Except.bind, happly, keep_nil]

/-- A flag in an argument of its own. -/
theorem readFrom_flag {argument text : String} {s : Switch σ} {set : σ → Reading σ} (hne : argument ≠ "--")
    (hoption : Token.ofArgument g.switches argument = .ok (.option text s (.direct []))) (hflag : s.effect = .flag set)
    (hset : set request = .ok request') (rest : List String) :
    g.readFrom operands request (argument :: rest) = g.readFrom operands request' rest := by
  refine readFrom_option [set] hne hoption ?_ ?_ rest
  · rw [Bundle.ofAttachment, Bundle.ofDirect, hflag]
  · rw [List.foldlM_cons, hset]
    rfl

/-- A setting with its value behind an equals sign. -/
theorem readFrom_marked (name : String) {value : String} {s : Switch σ} {set : String → σ → Reading σ}
    (hname : '=' ∉ name.toList) (hfind : (g.switches.find? fun s => s.name.toList == name.toList) = some s)
    (hsetting : s.effect = .setting set) (hset : set value request = .ok request') (rest : List String) :
    g.readFrom operands request (("--" ++ name ++ "=" ++ value) :: rest) = g.readFrom operands request' rest := by
  have hne : "--" ++ name ++ "=" ++ value ≠ "--" := by
    intro h
    have hchars := congrArg String.toList h
    simp at hchars
  refine readFrom_option [set value] hne (Token.ofArgument_marked hname hfind value) ?_ ?_ rest
  · rw [Bundle.ofAttachment, Bundle.ofMarked, hsetting, String.ofList_toList]
  · rw [List.foldlM_cons, hset]
    rfl

/-- A setting with its value in the argument behind it. -/
theorem readFrom_setting {argument text value : String} {s : Switch σ} {set : String → σ → Reading σ}
    (hne : argument ≠ "--") (hoption : Token.ofArgument g.switches argument = .ok (.option text s (.direct [])))
    (hsetting : s.effect = .setting set) (hvalue : IsOperand g.switches value)
    (hset : set value request = .ok request') (rest : List String) :
    g.readFrom operands request (argument :: value :: rest) = g.readFrom operands request' rest := by
  have hbundle : Bundle.ofAttachment g.switches s (.direct []) = .ok ⟨[], some (s, set), []⟩ := by
    rw [Bundle.ofAttachment, Bundle.ofDirect, hsetting]
  have happly : (⟨[], some (s, set), []⟩ : Bundle σ).apply request = .ok request := rfl
  unfold readFrom
  rw [Token.ofArguments_cons hne hoption, Token.ofArguments_cons hvalue.1 hvalue.2]
  cases Token.ofArguments g.switches rest with
  | error interruption => rfl
  | ok ts =>
    simp only [Except.map, bind, Except.bind]
    rw [readTokens, hbundle]
    simp only [bind, Except.bind, happly, hset, keep_nil]

/-- The operand of a command that takes one. Two dashes behind it would go with it. -/
theorem readFrom_operand {argument : String} {set : String → σ → σ} {rest : List String}
    (hoperand : IsOperand g.switches argument) (hrest : rest.head? ≠ some "--") :
    g.readFrom (.one set) request (argument :: rest) = g.readFrom .none (set argument request) rest := by
  unfold readFrom
  rw [Token.ofArguments_cons hoperand.1 hoperand.2]
  cases hts : Token.ofArguments g.switches rest with
  | error interruption => rfl
  | ok ts =>
    simp only [Except.map, bind, Except.bind]
    rw [readTokens]
    rintro more rfl
    cases rest with
    | nil => cases hts
    | cons next rest =>
      have hne : next ≠ "--" := by simpa using hrest
      rw [Token.ofArguments, if_neg hne] at hts
      cases hnext : Token.ofArgument g.switches next with
      | error interruption =>
        rw [hnext] at hts
        cases hts
      | ok t =>
        rw [hnext] at hts
        cases hmore : Token.ofArguments g.switches rest with
        | error interruption =>
          rw [hmore] at hts
          cases hts
        | ok ts =>
          rw [hmore] at hts
          cases hts
          exact Token.ofArgument_ne_dashes hne hnext rfl

end Grammar

/-! ## Commands -/

/-- An argument that begins with two dashes has some name behind them. -/
def IsNamed (argument : String) : Prop :=
  argument ≠ "--" ∧ ∀ value, argument.toList ≠ '-' :: '-' :: '=' :: value

theorem isNamed_of_toList {argument : String} {c : Char} {rest : List Char}
    (h : argument.toList = '-' :: '-' :: c :: rest) (hc : c ≠ '=') : IsNamed argument := by
  constructor
  · rintro rfl
    cases h
  · intro value hvalue
    rw [h] at hvalue
    cases hvalue
    exact hc rfl

theorem isNamed_append {argument : String} {c : Char} {rest : List Char}
    (h : argument.toList = '-' :: '-' :: c :: rest) (hc : c ≠ '=') (value : String) : IsNamed (argument ++ value) := by
  have happend : (argument ++ value).toList = '-' :: '-' :: c :: (rest ++ value.toList) := by
    rw [String.toList_append, h]
    rfl
  exact isNamed_of_toList happend hc

theorem Token.cutMark_fst_ne_nil {c : Char} (hc : c ≠ '=') (cs : List Char) : (cutMark (c :: cs)).1 ≠ [] := by
  unfold cutMark
  split
  · rw [List.takeWhile_cons_of_pos (by simpa using hc)]
    exact List.cons_ne_nil _ _
  · exact List.cons_ne_nil _ _

/-- Of names with different first letters no two begin alike. -/
theorem Token.length_filter_isPrefixOf (switches : List (Switch σ))
    (h : (switches.map fun s => s.name.toList.head?).Nodup) (c : Char) (cs : List Char) :
    (switches.filter fun s => (c :: cs).isPrefixOf s.name.toList).length ≤ 1 := by
  have hheads : ∀ letter ∈ (switches.filter fun s => (c :: cs).isPrefixOf s.name.toList).map fun s => s.name.toList.head?,
      letter = some c := by
    intro letter hletter
    obtain ⟨s, hs, rfl⟩ := List.mem_map.1 hletter
    obtain ⟨more, hmore⟩ := List.isPrefixOf_iff_prefix.1 (List.mem_filter.1 hs).2
    rw [← hmore]
    rfl
  have hnodup := h.sublist (List.filter_sublist.map _ : List.Sublist
    ((switches.filter fun s => (c :: cs).isPrefixOf s.name.toList).map fun s => s.name.toList.head?) _)
  rw [List.eq_replicate_of_mem hheads, List.nodup_replicate, List.length_map] at hnodup
  exact hnodup

/-- In front of a command every argument with a name has a kind. -/
theorem Request.exists_ofArgument {argument : String} (h : IsNamed argument) :
    ∃ t, Token.ofArgument grammar.switches argument = .ok t := by
  unfold Token.ofArgument
  split
  next rest hrest =>
    cases rest with
    | nil => exact absurd (String.toList_inj.1 hrest) h.1
    | cons c cs =>
      have hc : c ≠ '=' := by
        rintro rfl
        exact h.2 cs hrest
      obtain ⟨d, ds, hname⟩ := List.exists_cons_of_ne_nil (Token.cutMark_fst_ne_nil hc cs)
      have hone := Token.length_filter_isPrefixOf grammar.switches (by decide) d ds
      unfold Token.ofName
      dsimp only
      rw [hname]
      split
      · exact ⟨_, rfl⟩
      · generalize grammar.switches.filter _ = named at hone
        match named with
        | [] => exact ⟨_, rfl⟩
        | [s] => exact ⟨_, rfl⟩
        | _ :: _ :: _ => simp at hone
  next =>
    split
    · exact ⟨_, rfl⟩
    · exact ⟨_, rfl⟩
  next => exact ⟨_, rfl⟩

/-- Where there are several options, all their names begin with nothing. -/
theorem IsOperand.isNamed {switches : List (Switch σ)} {argument : String} (hswitches : 2 ≤ switches.length)
    (hnames : ∀ s ∈ switches, s.name ≠ "") (h : IsOperand switches argument) : IsNamed argument := by
  refine ⟨h.1, fun value hvalue => ?_⟩
  have hnone : (switches.find? fun s => s.name.toList == []) = none := by
    rw [List.find?_eq_none]
    intro s hs
    simpa using hnames s hs
  have hkind := h.2
  have hcut : Token.cutMark ('=' :: value) = ([], some value) := rfl
  unfold Token.ofArgument at hkind
  rw [hvalue] at hkind
  simp only [Token.ofName, hcut, hnone] at hkind
  have hall : (switches.filter fun s => List.isPrefixOf [] s.name.toList) = switches := by simp
  rw [hall] at hkind
  rcases switches with _ | ⟨s, _ | ⟨t, more⟩⟩
  · simp at hswitches
  · simp at hswitches
  · cases hkind

theorem Request.ofArguments_command {command : String} {arguments : List String} {task : Task}
    (hcommand : IsOperand grammar.switches command)
    (harguments : ∀ argument ∈ arguments, IsNamed argument)
    (htask : Task.read command arguments = .ok (task, [])) :
    ofArguments (command :: arguments) = .ok { task := some task } := by
  obtain ⟨ts, hts, htexts⟩ :=
    Token.exists_ofArguments fun argument h => ⟨(harguments argument h).1, exists_ofArgument (harguments argument h)⟩
  unfold ofArguments Grammar.read
  rw [Token.ofArguments_cons hcommand.1 hcommand.2, hts]
  simp only [Except.map, bind, Except.bind]
  have hread : Grammar.readTokens grammar.switches grammar.operands {} (.operand command :: ts) =
      .ok ({ task := some task }, []) := by
    unfold grammar
    rw [Grammar.readTokens, htexts]
    simp only [bind, Except.bind, htask]
    rfl
  rw [hread]
  rfl

end Pinboard.CommandLine
