import Mathlib.Logic.Relation
import Pinboard.Proofs.Chart.Drawn
import Pinboard.Proofs.Chart.Numbering
import Pinboard.Proofs.Chart.Outcome
import Pinboard.Proofs.Text.Spacing

/-!
# The layout of a program

How a program is laid out is the author's business: how its lines end, which blank lines and comments stand
between them, how a line is indented and spaced, and whether its keyword is in capitals. `Edit` lists the ways to
lay out a text differently, one at a time, and `SameSource` says that any number of them lead from one program to
another. Each edit keeps the commands that a text holds (`Edit.commandsIn_eq`). Main statement: programs of the
same source have the same outcome but for the numbers of lines, and those are counted in each program's own text
(`interpret_layout`).
-/

namespace Pinboard

open Text (isBlank isGap isLineEnd StartsLine EndsLine IsLineBetween LineEdit)

/-! ## What a line of a text says -/

/-- The command on a line as it stands in a text, or what is wrong with it; there is none on a blank line or in
a comment. -/
def commandOn (line : List Char) : Option (Except Fault Command) :=
  if isCommandLine (Text.strip (String.ofList line)) then some (Command.ofLine (Text.strip (String.ofList line)))
  else none

/-- The commands on the lines of a text. -/
def commandsIn (text : List Char) : List (Except Fault Command) := (Text.cutAt isLineEnd text).filterMap commandOn

theorem isCommandLine_ofList_iff {cs : List Char} :
    isCommandLine (String.ofList cs) = true ↔ ∃ c, cs.head? = some c ∧ c ≠ '#' := by
  have hcomment : (String.ofList cs).startsWith "#" = true ↔ ['#'] <+: cs := by
    rw [String.startsWith_string_iff, show "#".toList = ['#'] from rfl, String.toList_ofList]
  rw [isCommandLine, Bool.and_eq_true, Bool.not_eq_true', Bool.not_eq_true', ← Bool.not_eq_true, ← Bool.not_eq_true,
    hcomment]
  cases cs with
  | nil => simp
  | cons c cs => simp [@eq_comm _ '#']

theorem commandsOn_numberLines (first : Nat) (lines : List (List Char)) :
    commandsOn ((numberLines first (lines.map String.ofList)).filter fun line => isCommandLine line.2) =
      lines.filterMap commandOn := by
  induction lines generalizing first with
  | nil => rfl
  | cons line lines ih =>
    rw [List.map_cons, numberLines, List.filter_cons, List.filterMap_cons, commandOn]
    by_cases hcommand : isCommandLine (Text.strip (String.ofList line)) = true
    · rw [if_pos hcommand, if_pos hcommand, ← ih (first + 1)]
      rfl
    · rw [if_neg hcommand, if_neg hcommand, ← ih (first + 1)]

theorem commandOn_nil : commandOn [] = none := by
  rw [commandOn, if_neg (by decide)]

theorem commandsOn_commandLines (program : String) :
    commandsOn (commandLines program) = commandsIn program.toList := by
  rw [commandLines, Text.lines, Text.parts, commandsOn_numberLines, Text.filterMap_cutLines commandOn_nil, commandsIn]

/-- The first token counts in small letters alone. -/
theorem Command.ofLine_congr {line line' first first' : String} {rest : List String}
    (h : Text.tokens line = first :: rest) (h' : Text.tokens line' = first' :: rest)
    (hfirst : Text.lowercase first' = Text.lowercase first) : Command.ofLine line' = Command.ofLine line := by
  rw [Command.ofLine_eq, Command.ofLine_eq, h, h', Command.ofTokens, Command.ofTokens, hfirst, List.length_cons,
    List.length_cons]

section
variable {line line' : List Char} (h : Text.phraseOf line' = Text.phraseOf line)
include h

theorem isCommandLine_congr :
    isCommandLine (Text.strip (String.ofList line')) = isCommandLine (Text.strip (String.ofList line)) := by
  have hhead := Text.phraseOf_head line'
  rw [h, Text.phraseOf_head line] at hhead
  rw [Bool.eq_iff_iff, Text.strip, Text.strip, String.toList_ofList, String.toList_ofList, isCommandLine_ofList_iff,
    isCommandLine_ofList_iff]
  have hhash (c : Char) : c.toLower = '#' ↔ c = '#' := Text.toLower_eq_iff (by decide) c
  cases hline : (Text.stripBlanks line).head? with
  | none =>
    rw [hline] at hhead
    rw [Option.map_eq_none_iff.1 hhead.symm]
  | some c =>
    rw [hline] at hhead
    obtain ⟨d, hd, heq⟩ := Option.map_eq_some_iff.1 hhead.symm
    have hsame : d = '#' ↔ c = '#' := by rw [← hhash d, heq, hhash c]
    simp [hd, hsame]

theorem Command.ofLine_strip_congr :
    Command.ofLine (Text.strip (String.ofList line')) = Command.ofLine (Text.strip (String.ofList line)) := by
  obtain ⟨token, tokens, htokens⟩ :=
    List.exists_cons_of_ne_nil (Text.cutAtRunsFrom_ne_nil isGap false (Text.stripBlanks line))
  obtain ⟨token', tokens', htokens'⟩ :=
    List.exists_cons_of_ne_nil (Text.cutAtRunsFrom_ne_nil isGap false (Text.stripBlanks line'))
  have htokensOf {line : List Char} :
      Text.tokens (Text.strip (String.ofList line)) =
        (Text.cutAtRuns isGap (Text.stripBlanks line)).map String.ofList := by
    rw [Text.tokens, Text.parts, Text.strip, String.toList_ofList, String.toList_ofList]
    rfl
  rw [Text.phraseOf, Text.phraseOf, Text.cutAtRuns, Text.cutAtRuns, htokens, htokens'] at h
  obtain ⟨hfirst, rfl⟩ := List.cons.inj h
  refine Command.ofLine_congr (by rw [htokensOf, Text.cutAtRuns, htokens]; rfl)
    (by rw [htokensOf, Text.cutAtRuns, htokens']; rfl) ?_
  rw [← Text.lowercase_toLower token', hfirst, Text.lowercase_toLower]

/-- Lines with the same phrase say the same. -/
theorem commandOn_congr : commandOn line' = commandOn line := by
  rw [commandOn, isCommandLine_congr h, Command.ofLine_strip_congr h, commandOn]

end

/-! ## Lines that say nothing -/

/-- A line is blank, or it is a comment. -/
inductive IsIdle : List Char → Prop
  | blank {line : List Char} (h : ∀ c ∈ line, isBlank c = true) : IsIdle line
  | comment {blanks : List Char} (h : ∀ c ∈ blanks, isBlank c = true) (rest : List Char) :
      IsIdle (blanks ++ '#' :: rest)

theorem IsIdle.commandOn_eq {line : List Char} (h : IsIdle line) : commandOn line = none := by
  have hhead : ∀ c, (Text.stripBlanks line).head? = some c → c = '#' := by
    cases h with
    | blank h =>
      have hempty : Text.stripBlanks ([] ++ line) = Text.stripBlanks [] := Text.stripBlanks_append_blanks h
      rw [List.nil_append] at hempty
      rw [hempty]
      intro c hc
      cases hc
    | comment h rest =>
      rw [Text.stripBlanks_blanks_append h, Text.stripBlanks_eq, List.dropWhile_cons_of_neg (by decide)]
      intro c hc
      obtain ⟨blanks', hsplit⟩ := Text.exists_append_of_trimEnd ('#' :: rest)
      have hhead := congrArg List.head? hsplit
      rw [List.head?_append, hc] at hhead
      cases hhead
      rfl
  rw [commandOn, Text.strip, String.toList_ofList, if_neg]
  intro hcommand
  obtain ⟨c, hc, hne⟩ := isCommandLine_ofList_iff.1 hcommand
  exact hne (hhead c hc)

/-! ## Laying out a text differently -/

/-- The ways to end a line. -/
def lineEnds : List (List Char) := [['\n'], ['\r'], ['\r', '\n']]

/-- A way to lay out a text differently: another end of a line, an idle line more above or below a place where a
line begins or ends, or a line that is set differently. -/
inductive Edit : List Char → List Char → Prop
  | stop (before after : List Char) {stop stop' : List Char} (hstop : stop ∈ lineEnds) (hstop' : stop' ∈ lineEnds) :
      Edit (before ++ stop ++ after) (before ++ stop' ++ after)
  | above (before after : List Char) {idle stop : List Char} (hbefore : StartsLine before) (hidle : IsIdle idle)
      (hfree : ∀ c ∈ idle, isLineEnd c = false) (hstop : stop ∈ lineEnds) :
      Edit (before ++ after) (before ++ (idle ++ stop) ++ after)
  | below (before after : List Char) {idle stop : List Char} (hafter : EndsLine after) (hidle : IsIdle idle)
      (hfree : ∀ c ∈ idle, isLineEnd c = false) (hstop : stop ∈ lineEnds) :
      Edit (before ++ after) (before ++ (stop ++ idle) ++ after)
  | within (before after : List Char) {line line' : List Char} (hline : IsLineBetween before line after)
      (h : LineEdit line line') : Edit (before ++ line ++ after) (before ++ line' ++ after)

/-- Two programs differ in their layout alone. -/
def SameSource (p q : String) : Prop := Relation.EqvGen Edit p.toList q.toList

theorem commandsIn_append {before after : List Char} (h : StartsLine before ∨ EndsLine after) :
    commandsIn (before ++ after) = commandsIn before ++ commandsIn after :=
  Text.filterMap_cutAt_append commandOn_nil h

theorem commandsIn_of_free {line : List Char} (h : ∀ c ∈ line, isLineEnd c = false) :
    commandsIn line = (commandOn line).toList := by
  rw [commandsIn, ← Text.filterMap_cutLines commandOn_nil, Text.cutLines_of_free h, List.filterMap_cons,
    List.filterMap_nil]
  cases commandOn line <;> rfl

theorem commandsIn_idle {idle : List Char} (h : IsIdle idle) (hfree : ∀ c ∈ idle, isLineEnd c = false) :
    commandsIn idle = [] := by
  rw [commandsIn_of_free hfree, h.commandOn_eq]
  rfl

section
variable {stop : List Char} (h : stop ∈ lineEnds)
include h

theorem startsLine_of_mem_lineEnds : StartsLine stop := by
  simp only [lineEnds, List.mem_cons, List.not_mem_nil, or_false] at h
  rcases h with rfl | rfl | rfl <;> exact fun c hc => by cases hc; rfl

theorem endsLine_of_mem_lineEnds (after : List Char) : EndsLine (stop ++ after) := by
  simp only [lineEnds, List.mem_cons, List.not_mem_nil, or_false] at h
  rcases h with rfl | rfl | rfl <;> exact .cons rfl _

theorem commandsIn_stop : commandsIn stop = [] := by
  simp only [lineEnds, List.mem_cons, List.not_mem_nil, or_false] at h
  rcases h with rfl | rfl | rfl <;> simp [commandsIn, Text.cutAt, isLineEnd, commandOn_nil]

/-- A line end parts two texts. -/
theorem commandsIn_parted (before after : List Char) :
    commandsIn (before ++ stop ++ after) = commandsIn before ++ commandsIn after := by
  rw [List.append_assoc, commandsIn_append (.inr (endsLine_of_mem_lineEnds h after)),
    commandsIn_append (.inl (startsLine_of_mem_lineEnds h)), commandsIn_stop h, List.nil_append]

end

/-- A text that is laid out differently holds the same commands. -/
theorem Edit.commandsIn_eq {text text' : List Char} (h : Edit text text') : commandsIn text' = commandsIn text := by
  cases h with
  | stop before after hstop hstop' => rw [commandsIn_parted hstop', commandsIn_parted hstop]
  | above before after hbefore hidle hfree hstop =>
    rw [List.append_assoc, commandsIn_append (.inl hbefore), commandsIn_append (.inl hbefore),
      commandsIn_parted hstop, commandsIn_idle hidle hfree, List.nil_append]
  | below before after hafter hidle hfree hstop =>
    rw [commandsIn_append (.inr hafter), commandsIn_append (.inr hafter), ← List.append_assoc,
      commandsIn_parted hstop, commandsIn_idle hidle hfree, List.append_nil]
  | within before after hline h =>
    rw [commandsIn_append (.inr hline.ends), commandsIn_append (.inr hline.ends),
      commandsIn_append (.inl hline.starts), commandsIn_append (.inl hline.starts),
      commandsIn_of_free (h.free hline.free), commandsIn_of_free hline.free, commandOn_congr h.phraseOf_eq]

theorem commandsIn_eq_of_eqvGen {text text' : List Char} (h : Relation.EqvGen Edit text text') :
    commandsIn text' = commandsIn text := by
  induction h with
  | rel text text' h => exact h.commandsIn_eq
  | refl text => rfl
  | symm text text' _ ih => exact ih.symm
  | trans text mid text' _ _ hfirst hsecond => exact hsecond.trans hfirst

/-- Charts that are the same but for the numbers of lines have the same document. -/
theorem SameOutcome.render_iff {p q : String} (h : SameOutcome (interpret p) (interpret q)) (svg : String) :
    render p = .ok svg ↔ render q = .ok svg := by
  rw [render, render]
  generalize interpret p = r at h ⊢
  generalize interpret q = r' at h ⊢
  cases h with
  | @ok chart chart' hboard hfragments =>
    have hdocument : chart'.document = chart.document := by
      rw [Chart.document, Chart.document, hboard.pins, hfragments]
    simp only [bind, Except.bind, hdocument]
  | complaint c number number' source source' =>
    constructor <;> intro h <;> cases h
  | breakdown bd => exact Iff.rfl

/-! ## The numbers of lines -/

/-- A line of a program, less the blanks around it, stands after one line end less than its number. -/
def StandsAs (program : String) (number : Nat) (line : String) : Prop :=
  ∃ before raw after, program.toList = before ++ raw ++ after ∧ IsLineBetween before raw after ∧
    Text.strip (String.ofList raw) = line ∧ number = 1 + Text.countLineEnds before

theorem standsAs_of_mem {program line : String} {number : Nat} (h : (number, line) ∈ commandLines program) :
    StandsAs program number line := by
  obtain ⟨hle, hline⟩ := mem_numberLines (List.mem_filter.1 h).1
  obtain ⟨rawLine, hrawLine, rfl⟩ := Option.map_eq_some_iff.1 hline
  rw [Text.lines, Text.parts, List.getElem?_map] at hrawLine
  obtain ⟨raw, hraw, rfl⟩ := Option.map_eq_some_iff.1 hrawLine
  obtain ⟨before, after, hprogram, hbetween, hcount⟩ := Text.exists_of_getElem?_cutLines hraw
  exact ⟨before, raw, after, hprogram, hbetween, rfl, by omega⟩

/-- The numbers that a program hands out are those of its own lines: a label has the number of the line that
recorded it, and a complaint that of the line that it is about. -/
structure NumbersLines (program : String) : Prop where
  labels : ∀ chart, interpret program = .ok chart →
    (drawnBy program).map (fun d => (d.number, d.line)) = commandLines program ∧
      chart.board.labels = (drawnBy program).flatMap Drawn.labels ∧
        ∀ d ∈ drawnBy program, StandsAs program d.number d.line ∧ ∀ l ∈ d.labels, l.line = d.number
  complaints : ∀ c number source, interpret program = .error (.complaint c number source) →
    StandsAs program number source ∧
      ∃ b b', Reaches program number source b ∧ execute source b = .error (.complaint c) b'

theorem numbersLines (program : String) : NumbersLines program := by
  refine ⟨?_, ?_⟩
  · intro chart h
    obtain ⟨hlines, hlabels, -⟩ := interpret_drawn h
    refine ⟨hlines, hlabels, fun d hd => ⟨standsAs_of_mem ?_, Drawn.labels_line hd⟩⟩
    rw [← hlines]
    exact List.mem_map.2 ⟨d, hd, rfl⟩
  · intro c number source h
    obtain ⟨number', line, b, hreaches, fault, b', hexecute, hfault⟩ := interpret_error_iff.1 h
    cases fault with
    | breakdown bd => cases hfault
    | complaint c' =>
      cases hfault
      obtain ⟨before, after, chart, hlines, -, -⟩ := id hreaches
      exact ⟨standsAs_of_mem (by rw [hlines]; simp), b, b', hreaches, hexecute⟩

/-- Programs that differ in their layout alone end in the same way: with the same pins, colours, offset, count of
lines, fragments and labels but for their numbers, and so with the same document, or with the same complaint. The
numbers are those of each program's own lines. -/
theorem interpret_layout {p q : String} (h : SameSource p q) :
    SameOutcome (interpret p) (interpret q) ∧ (∀ svg, render p = .ok svg ↔ render q = .ok svg) ∧
      NumbersLines p ∧ NumbersLines q := by
  have hcommands : commandsOn (commandLines q) = commandsOn (commandLines p) := by
    rw [commandsOn_commandLines, commandsOn_commandLines]
    exact commandsIn_eq_of_eqvGen h
  have houtcome : SameOutcome (interpret p) (interpret q) := Chart.run_matches hcommands (.refl _) rfl
  exact ⟨houtcome, houtcome.render_iff, numbersLines p, numbersLines q⟩

/-- With a comment above, other line ends, an indented line, its keyword in other letters and its words further apart,
the box of a program is the same, and its label has the number of another line. -/
theorem interpret_layout_spaced :
    SameSource "Pin a 0 0\nBox a a x" "# c\r\n\tpIN a 0\t 0 \rBox a a x\n" ∧
      ∃ chart chart', interpret "Pin a 0 0\nBox a a x" = .ok chart ∧
        interpret "# c\r\n\tpIN a 0\t 0 \rBox a a x\n" = .ok chart' ∧ chart'.fragments = chart.fragments ∧
          chart.board.labels.map Label.line = [2] ∧ chart'.board.labels.map Label.line = [3] := by
  have hline {line : List Char} (h : line.any isLineEnd = false) : IsLineBetween [] line "\nBox a a x".toList :=
    ⟨fun c hc => by simpa using List.any_eq_false.1 h c hc, .nil, .cons rfl _, by simp⟩
  have hkeyword : LineEdit "Pin a 0 0".toList "pIN a 0 0".toList :=
    .keyword [] ['P', 'i', 'n'] ['p', 'I', 'N'] " a 0 0".toList (by simp) ⟨⟨'P', rfl, rfl⟩, by simp [isGap]⟩ rfl
      fun c hc => by cases hc; rfl
  have hfront : LineEdit "pIN a 0 0".toList "\tpIN a 0 0".toList := .front ['\t'] _ (by simp [isGap])
  have hbetween : LineEdit "\tpIN a 0 0".toList "\tpIN a 0\t 0".toList :=
    .between "\tpIN a 0".toList [' '] ['\t', ' '] ['0'] (by simp) (by simp [isGap]) (by simp) (by simp [isGap])
  have hback : LineEdit "\tpIN a 0\t 0".toList "\tpIN a 0\t 0 ".toList := .back _ [' '] (by simp [isGap])
  have hstop : Edit ("\tpIN a 0\t 0 ".toList ++ ['\n'] ++ "Box a a x".toList)
      ("\tpIN a 0\t 0 ".toList ++ ['\r'] ++ "Box a a x".toList) := .stop _ _ (by decide) (by decide)
  have habove : Edit ([] ++ "\tpIN a 0\t 0 \rBox a a x".toList)
      ([] ++ (([] ++ ['#', ' ', 'c']) ++ ['\r', '\n']) ++ "\tpIN a 0\t 0 \rBox a a x".toList) :=
    .above _ _ .nil (.comment (by simp) _) (by simp [isLineEnd]) (by decide)
  have hbelow : Edit ("# c\r\n\tpIN a 0\t 0 \rBox a a x".toList ++ [])
      ("# c\r\n\tpIN a 0\t 0 \rBox a a x".toList ++ (['\n'] ++ []) ++ []) :=
    .below _ _ .nil (.blank (by simp)) (by simp) (by decide)
  have hsource : SameSource "Pin a 0 0\nBox a a x" "# c\r\n\tpIN a 0\t 0 \rBox a a x\n" := by
    refine .trans _ _ _ (.rel _ _ (.within [] _ (hline (by rfl)) hkeyword)) ?_
    refine .trans _ _ _ (.rel _ _ (.within [] _ (hline (by rfl)) hfront)) ?_
    refine .trans _ _ _ (.rel _ _ (.within [] _ (hline (by rfl)) hbetween)) ?_
    refine .trans _ _ _ (.rel _ _ (.within [] _ (hline (by rfl)) hback)) ?_
    refine .trans _ _ _ (.rel _ _ hstop) ?_
    exact .trans _ _ _ (.rel _ _ habove) (.rel _ _ hbelow)
  refine ⟨hsource, ?_⟩
  obtain ⟨houtcome, -, hp, hq⟩ := interpret_layout hsource
  have hruns : (interpret "Pin a 0 0\nBox a a x").isOk = true := by decide +kernel
  have hlabels : ((drawnBy "Pin a 0 0\nBox a a x").flatMap Drawn.labels).map Label.line = [2] := by decide +kernel
  have hlabels' :
      ((drawnBy "# c\r\n\tpIN a 0\t 0 \rBox a a x\n").flatMap Drawn.labels).map Label.line = [3] := by
    decide +kernel
  cases h : interpret "Pin a 0 0\nBox a a x" with
  | error fault =>
    rw [h] at hruns
    cases hruns
  | ok chart =>
    rw [h] at houtcome
    obtain ⟨chart', h', -, hfragments⟩ := houtcome.exists_of_ok
    refine ⟨chart, chart', rfl, h', hfragments, ?_, ?_⟩
    · rw [(hp.labels chart h).2.1]
      exact hlabels
    · rw [(hq.labels chart' h').2.1]
      exact hlabels'

end Pinboard
