import Pinboard.Proofs.Chart.References
import Pinboard.Proofs.Drawing.TextBlock
import Pinboard.Proofs.Text.Breaks

/-!
# The text along a line

The text of a line between pins is drawn along its path and recorded in a label, so that it can be found out whether
it fits. Both come from the same words, and both are cut at the same breaks; but in what is drawn the underscores have
become spaces, and in the label they have not. Main statement: the label has the text that is drawn if there is no
underscore in it, and in no other case (`line_label_iff`).
-/

namespace Pinboard

/-! ## Texts -/

/-- The text along a line as it is drawn. -/
def shownText (s : String) : String := String.ofList (s.toList.map lineTextChar)

/-- The text of a line between pins: what is behind its two pins. -/
def lineTextOf (line : String) : String := " ".intercalate ((Text.tokens line).drop 3)

theorem lineTextChar_eq_iff {c d : Char} (hd : d ≠ '_') (hspace : d ≠ '\u00a0') : lineTextChar c = d ↔ c = d := by
  unfold lineTextChar
  split
  next hc =>
    subst hc
    exact iff_of_false (Ne.symm hspace) (Ne.symm hd)
  next => exact Iff.rfl

theorem keepsBreaks_lineTextChar : Text.KeepsBreaks lineTextChar where
  lineFeed _ := lineTextChar_eq_iff (by decide) (by decide)
  backslash _ := lineTextChar_eq_iff (by decide) (by decide)
  letter _ := lineTextChar_eq_iff (by decide) (by decide)

theorem map_eq_self_iff {α : Type} {f : α → α} {as : List α} : as.map f = as ↔ ∀ a ∈ as, f a = a := by
  have h := List.map_inj_left (f := f) (g := id) (l := as)
  rwa [List.map_id] at h

theorem shownText_eq_self_iff (s : String) : shownText s = s ↔ '_' ∉ s.toList := by
  have hchar (c : Char) : lineTextChar c = c ↔ c ≠ '_' := by
    unfold lineTextChar
    split
    next hc =>
      subst hc
      exact iff_of_false (by decide) (by simp)
    next hc => exact iff_of_true rfl hc
  rw [← String.toList_inj, shownText, String.toList_ofList, map_eq_self_iff]
  simp only [hchar]
  exact ⟨fun h hmem => h _ hmem rfl, fun h c hc hunder => h (hunder ▸ hc)⟩

/-- The parts of a label between its breaks, as they are drawn. -/
theorem parts_shownText (text : String) :
    Text.parts Text.cutBreaks (shownText text) =
      (Text.paragraphs (String.ofList (Text.expandBreaks text.toList))).map shownText := by
  rw [Text.paragraphs_expandBreaks, Text.parts, shownText, String.toList_ofList,
    Text.cutBreaks_map keepsBreaks_lineTextChar]
  simp [Text.parts, shownText]

theorem map_shownText_paragraphs_iff (s : String) :
    (Text.paragraphs s).map shownText = Text.paragraphs s ↔ '_' ∉ s.toList := by
  have hunder : (∃ part ∈ Text.paragraphs s, '_' ∈ part.toList) ↔ '_' ∈ s.toList := by
    have hcut : (∃ part ∈ Text.cutAt (· == '\n') s.toList, '_' ∈ part) ↔ '_' ∈ s.toList :=
      Text.exists_mem_cutAt_iff (by decide)
    rw [← hcut, Text.paragraphs, Text.parts]
    simp
  rw [map_eq_self_iff, ← hunder]
  simp only [shownText_eq_self_iff, not_exists, not_and]

/-! ## Elements -/

namespace Drawing

/-- Inside a text there are breaks only. -/
theorem filter_elements_withText {tag : String} (htag : tag ≠ "xhtml:br") (attributes : List (String × String))
    (text : String) :
    (withText tag attributes text).elements.filter (·.tag == tag) = [withText tag attributes text] := by
  unfold withText
  split
  · rw [Element.elements_leaf]
    simp [Element.leaf, Element.tag]
  next first rest hparts =>
    rw [Element.elements, elementsIn_eq, List.flatMap_map, List.filter_cons_of_pos (by simp [Element.tag])]
    congr 1
    rw [List.filter_eq_nil_iff]
    intro e he
    obtain ⟨part, -, he⟩ := List.mem_flatMap.1 he
    rw [Element.elements_leaf, List.mem_singleton] at he
    subst he
    simpa [Element.leaf, Element.tag] using htag.symm

/-- A text along a line has one element for the text itself, in the parts between its breaks. -/
theorem textPath_lineText (id text : String) (style : LineStyle) :
    ∃ shown, (lineText id text style).elements.filter (·.tag == "textPath") = [shown] ∧
      shown.pieces = Text.parts Text.cutBreaks text := by
  refine ⟨_, ?_, (withText_shows "textPath" [("xlink:href", "#" ++ id), ("startOffset", "50%"), ("class", "lineText")]
    text).pieces⟩
  rw [lineText, Element.elements_branch, List.filter_cons_of_neg (by simp [Element.branch, Element.tag]),
    List.flatMap_singleton]
  exact filter_elements_withText (by decide) _ text

end Drawing

/-! ## Lines between pins -/

/-- The command of a line between pins has the words behind its pins for its text. -/
theorem Command.ofLine_drawsLine {line : String} {c : Command} (hline : drawsLine line = true)
    (h : Command.ofLine line = .ok c) : ∃ l, c = .line l ∧ l.text = lineTextOf line := by
  unfold drawsLine at hline
  split at hline
  next kind hverb =>
    obtain ⟨first, words, htokens, -, hwords⟩ := Command.ofLine_words hverb h
    obtain ⟨l, hl, rfl⟩ := Option.map_eq_some_iff.1 hwords
    refine ⟨l, rfl, ?_⟩
    unfold LineCommand.ofWords at hl
    split at hl
    next start finish rest =>
      cases hl
      rw [lineTextOf, htokens]
      rfl
    next => cases hl
  next => cases hline

/-- A line between pins with a text that is carried out records one label and draws one text. The text that is drawn is
that of the label, cut at its line feeds, with spaces for its underscores; so the two agree if and only if there is no
underscore. -/
theorem line_label_iff {b b' : Board} {number : Nat} {line : String} {fragment : Fragment}
    (hline : drawsLine line = true) (htext : lineTextOf line ≠ "")
    (h : executeAt number line b = .ok fragment b') :
    ∃ label shown, b'.labels = b.labels ++ [label] ∧
      (elementsOf fragment).filter (·.tag == "textPath") = [shown] ∧
        shown.pieces = (Text.paragraphs label.text).map shownText ∧
          (Text.paragraphs label.text = shown.pieces ↔ '_' ∉ label.text.toList) := by
  rw [executeAt_eq] at h
  obtain ⟨c, hc, hrun⟩ := Work.of_bind_ok h
  obtain ⟨l, rfl, hl⟩ := Command.ofLine_drawsLine hline hc
  obtain ⟨start, finish, -, -, hdraw⟩ := l.exists_drawWith hrun
  obtain ⟨first, last, style, path, hpath, hends⟩ := l.drawWith_ok hdraw
  obtain ⟨hempty, -⟩ | ⟨-, rfl, label, hlabel, rfl⟩ := hends
  · exact absurd (hl ▸ hempty) htext
  obtain ⟨hinside, htag, -⟩ := Drawing.linePath_attributes hpath
  obtain ⟨shown, hshown, hpieces⟩ := Drawing.textPath_lineText (lineId b.lineCounter) (shownText l.text) style
  have hparts : shown.pieces = (Text.paragraphs label.text).map shownText := by
    rw [hpieces, hlabel, parts_shownText]
  refine ⟨label, shown, rfl, ?_, hparts, ?_⟩
  · rw [elementsOf, List.flatMap_cons, List.flatMap_singleton, hinside, List.singleton_append,
      List.filter_cons_of_neg (by simp [htag])]
    exact hshown
  · rw [hparts, eq_comm]
    exact map_shownText_paragraphs_iff label.text

/-- A board with two pins. -/
def twoPinBoard : Board :=
  { Board.start with pins := (PinTable.empty.set "a" ⟨0, 0⟩).set "b" ⟨100, 0⟩ }

theorem line_label_iff_two_pins :
    (∃ fragment b' label shown, executeAt 3 "Arrow a b one\\ntwo" twoPinBoard = .ok fragment b' ∧ b'.labels = [label] ∧
      (elementsOf fragment).filter (·.tag == "textPath") = [shown] ∧ Text.paragraphs label.text = shown.pieces) ∧
      ∃ fragment b' label shown, executeAt 3 "Line a b x_y" twoPinBoard = .ok fragment b' ∧ b'.labels = [label] ∧
        (elementsOf fragment).filter (·.tag == "textPath") = [shown] ∧ Text.paragraphs label.text ≠ shown.pieces := by
  have hends (line : String) (unders : Bool) (hline : drawsLine line = true) (htext : lineTextOf line ≠ "")
      (hlabels : (twoPinBoard.draws (3, line)).map (fun next => next.2.labels.map fun label =>
        label.text.toList.contains '_') = some [unders]) :
      ∃ fragment b' label shown, executeAt 3 line twoPinBoard = .ok fragment b' ∧ b'.labels = [label] ∧
        (elementsOf fragment).filter (·.tag == "textPath") = [shown] ∧
          (Text.paragraphs label.text = shown.pieces ↔ unders = false) := by
    unfold Board.draws at hlabels
    cases h : executeAt 3 line twoPinBoard with
    | error fault b' => simp [h] at hlabels
    | ok fragment b' =>
      obtain ⟨label, shown, hlabel, hshown, -, hiff⟩ := line_label_iff hline htext h
      have hlabel : b'.labels = [label] := hlabel
      refine ⟨fragment, b', label, shown, rfl, hlabel, hshown, hiff.trans ?_⟩
      have hunders : label.text.toList.contains '_' = unders := by simpa [h, hlabel] using hlabels
      rw [← hunders, ← Bool.not_eq_true, List.contains_iff_mem]
  refine ⟨?_, ?_⟩
  · obtain ⟨fragment, b', label, shown, hrun, hlabel, hshown, hiff⟩ :=
      hends "Arrow a b one\\ntwo" false (by decide +kernel) (by decide +kernel) (by decide +kernel)
    exact ⟨fragment, b', label, shown, hrun, hlabel, hshown, hiff.2 rfl⟩
  · obtain ⟨fragment, b', label, shown, hrun, hlabel, hshown, hiff⟩ :=
      hends "Line a b x_y" true (by decide +kernel) (by decide +kernel) (by decide +kernel)
    exact ⟨fragment, b', label, shown, hrun, hlabel, hshown, fun h => absurd (hiff.1 h) (by decide)⟩

/-- In a program with a line whose text has an underscore, the label of the line has another text than is drawn. -/
theorem line_label_ne_drawn_text :
    ∃ chart, interpret "Pin a 0 0\nPin b 100 0\nLine a b x_y" = .ok chart ∧
      ∃ label shown, chart.board.labels = [label] ∧
        (elementsOf chart.fragments.flatten).filter (·.tag == "textPath") = [shown] ∧
          Text.paragraphs label.text ≠ shown.pieces := by
  have hruns : (interpret "Pin a 0 0\nPin b 100 0\nLine a b x_y").isOk = true := by decide +kernel
  have htexts : ((drawnBy "Pin a 0 0\nPin b 100 0\nLine a b x_y").flatMap Drawn.labels).map Label.text = ["x_y"] := by
    decide +kernel
  have hpieces : ((elementsOf (fragmentsOf (drawnBy "Pin a 0 0\nPin b 100 0\nLine a b x_y")).flatten).filter
      (·.tag == "textPath")).map Element.pieces = [["x\u00a0y"]] := by
    decide +kernel
  cases h : interpret "Pin a 0 0\nPin b 100 0\nLine a b x_y" with
  | error fault =>
    rw [h] at hruns
    cases hruns
  | ok chart =>
    obtain ⟨-, hlabels, hfragments⟩ := interpret_drawn h
    obtain ⟨label, hlabel, htext⟩ := List.map_eq_singleton_iff.1 htexts
    obtain ⟨shown, hshown, hpiece⟩ := List.map_eq_singleton_iff.1 hpieces
    refine ⟨chart, rfl, label, shown, hlabels.trans hlabel, by rw [hfragments, hshown], ?_⟩
    rw [htext, hpiece]
    decide

end Pinboard
