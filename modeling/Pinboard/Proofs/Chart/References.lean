import Mathlib.Data.List.Nodup
import Pinboard.Proofs.Chart.Fragments
import Pinboard.Proofs.Drawing.References

/-!
# Identifiers and references in a document

A line between pins takes the next identifier when it succeeds, and none when it fails (`Board.after_lineCounter`). So
the lines between pins of a session have the identifiers from one on, in their order (`Board.linesDrawn_spec`), and
the identifiers of a document are those of the markers and then those of its lines (`Counted.ids`). Main statement:
no identifier stands twice in a document, and every reference is to an element of the document that has the
identifier (`references_resolve`).
-/

namespace Pinboard

open Drawing (IsLine)

/-! ## Identifiers -/

theorem lineId_injective : Function.Injective lineId := by
  intro first second h
  have hrepr : Nat.repr first = Nat.repr second := (String.append_right_inj "curve_").1 h
  have hdigits : Nat.toDigits 10 first = Nat.toDigits 10 second := by
    rw [← Nat.toList_repr, ← Nat.toList_repr, hrepr]
  rw [← Nat.ofDigitChars_toDigits (b := 10) (n := first) (by decide) (by decide), hdigits,
    Nat.ofDigitChars_toDigits (by decide) (by decide)]

/-- The identifiers of lines are not those of markers. -/
theorem lineId_ne_marker (number : Nat) : lineId number ∉ ["dot", "arrow_l2r", "arrow_r2l"] := by
  have hfirst : (lineId number).toList.head? = some 'c' := by
    rw [lineId, String.toList_append]
    rfl
  intro h
  simp only [List.mem_cons, List.not_mem_nil, or_false] at h
  rcases h with h | h | h <;>
  · rw [h] at hfirst
    cases hfirst

/-! ## Sessions -/

/-- What a line between pins draws, if it succeeds; no other line counts. -/
def Board.lineDrawn (b : Board) (line : Nat × String) : List Fragment :=
  match executeAt line.1 line.2 b with
  | .ok fragment _ => if drawsLine line.2 then [fragment] else []
  | .error _ _ => []

/-- What the lines between pins of a session draw: a fragment for each one that succeeds. -/
def Board.linesDrawn (b : Board) : List (Nat × String) → List Fragment
  | [] => []
  | line :: lines => b.lineDrawn line ++ (b.after line).linesDrawn lines

variable {b : Board}

/-- The step of a session: a line between pins that succeeds takes the next identifier, and no other line takes
one. -/
theorem Board.after_lineCounter (hb : b.IsFinite) (line : Nat × String) :
    (b.lineDrawn line = [] ∧ (b.after line).lineCounter = b.lineCounter) ∨
      ∃ fragment, b.lineDrawn line = [fragment] ∧ IsLine (lineId b.lineCounter) fragment ∧
        (b.after line).lineCounter = b.lineCounter + 1 := by
  obtain ⟨number, line⟩ := line
  unfold lineDrawn after
  cases h : executeAt number line b with
  | error fault b' =>
    rw [executeAt_eq] at h
    exact .inl ⟨rfl, ((execute_ends (hb.onLine number) line).error h).same.2.2.2⟩
  | ok fragment b' =>
    rcases executeAt_fragment h with ⟨hdraws, hline, hnext⟩ | ⟨hdraws, -, hnext⟩
    · exact .inr ⟨fragment, if_pos hdraws, hline, hnext⟩
    · exact .inl ⟨if_neg (by simp [hdraws]), hnext⟩

/-- In a session from some board on, the lines between pins have the identifiers from that of the board on. -/
theorem Board.linesDrawn_spec (hb : b.IsFinite) (lines : List (Nat × String)) :
    (lines.foldl Board.after b).lineCounter = b.lineCounter + (b.linesDrawn lines).length ∧
      ∀ i fragment, (b.linesDrawn lines)[i]? = some fragment → IsLine (lineId (b.lineCounter + i)) fragment := by
  induction lines generalizing b with
  | nil => simp [linesDrawn]
  | cons line lines ih =>
    obtain ⟨hcounter, hlines⟩ := ih (after_keeps hb line).finite
    rw [List.foldl_cons, linesDrawn]
    rcases after_lineCounter hb line with ⟨hnone, hsame⟩ | ⟨fragment, hsome, hline, hnext⟩
    · rw [hnone, List.nil_append]
      rw [hsame] at hcounter hlines
      exact ⟨hcounter, hlines⟩
    · rw [hsome, List.singleton_append, List.length_cons]
      rw [hnext] at hcounter hlines
      refine ⟨by omega, fun i fragment' hi => ?_⟩
      cases i with
      | zero =>
        cases hi
        exact hline
      | succ i =>
        have hlater := hlines i fragment' hi
        rwa [Nat.add_assoc, Nat.add_comm 1] at hlater

/-! ## Documents -/

namespace Counted

variable {count : Nat} {fragments : List Fragment}

theorem ids (h : Counted count fragments) :
    ∃ lines, idsOf (elementsOf fragments.flatten) = (List.range' count lines).map lineId := by
  induction h with
  | nil => exact ⟨0, rfl⟩
  | line hline _ ih =>
    obtain ⟨lines, hids⟩ := ih
    refine ⟨lines + 1, ?_⟩
    rw [List.flatten_cons, elementsOf_append, idsOf_append, hline.ids, hids]
    rfl
  | shape hshape _ ih =>
    rw [List.flatten_cons, elementsOf_append, idsOf_append, idsOf_eq_nil hshape (by decide), List.nil_append]
    exact ih

/-- Fragments are shapes or lines with some identifier. -/
theorem cases_of_mem (h : Counted count fragments) {fragment : Fragment} (hmem : fragment ∈ fragments) :
    (∃ number, IsLine (lineId number) fragment) ∨ ∀ e ∈ fragment, e.HasForms shapeForms := by
  induction h with
  | nil => cases hmem
  | line hline _ ih =>
    rcases List.mem_cons.1 hmem with rfl | hmem
    · exact .inl ⟨_, hline⟩
    · exact ih hmem
  | shape hshape _ ih =>
    rcases List.mem_cons.1 hmem with rfl | hmem
    · exact .inr hshape
    · exact ih hmem

end Counted

/-- The identifiers of the markers and some identifiers of lines are different from each other. -/
theorem nodup_ids (count lines : Nat) :
    (["dot", "arrow_l2r", "arrow_r2l"] ++ (List.range' count lines).map lineId).Nodup := by
  refine List.nodup_append.2 ⟨by decide, (List.nodup_range' 1).map lineId_injective, ?_⟩
  rintro marker hmarker id hid rfl
  obtain ⟨number, -, rfl⟩ := List.mem_map.1 hid
  exact lineId_ne_marker number hmarker

section
variable {drawn : List Drawn} {width height : Int} {e : Element}

/-- What is not drawn by a line has another form. -/
theorem exists_drawn_of_form (he : e ∈ (Document.root width height (drawn.map Drawn.fragment).flatten).elements)
    (hform : e.form ∉ documentForms) : ∃ d ∈ drawn, e ∈ elementsOf d.fragment := by
  have hdefinitions : ∀ figure ∈ [Document.styleDefinitions, Drawing.markers], figure.HasForms documentForms := by
    simpa using And.intro Document.styleDefinitions_forms Drawing.markers_forms
  rw [Document.elements_root, List.mem_cons, List.mem_append] at he
  rcases he with rfl | he | he
  · exact absurd (by rw [Document.form_root]; decide) hform
  · exact absurd (form_mem_of_mem hdefinitions he) hform
  · obtain ⟨figure, hfigure, he⟩ := List.mem_flatMap.1 he
    obtain ⟨fragment, hfragment, hfigure⟩ := List.mem_flatten.1 hfigure
    obtain ⟨d, hd, rfl⟩ := List.mem_map.1 hfragment
    exact ⟨d, hd, List.mem_flatMap.2 ⟨figure, hfigure, he⟩⟩

theorem mem_elements_of_drawn {d : Drawn} (hd : d ∈ drawn) (he : e ∈ d.fragment) :
    e ∈ (Document.root width height (drawn.map Drawn.fragment).flatten).elements := by
  rw [Document.elements_root]
  refine List.mem_cons_of_mem _ (List.mem_append_right _ (List.mem_flatMap.2 ⟨e, ?_, e.mem_elements⟩))
  exact List.mem_flatten.2 ⟨d.fragment, List.mem_map_of_mem hd, he⟩

/-- The text along a path refers to the path that the same line draws. -/
theorem exists_path_of_textPath (hcounted : Counted 1 (drawn.map Drawn.fragment))
    (he : e ∈ (Document.root width height (drawn.map Drawn.fragment).flatten).elements) (htag : e.tag = "textPath") :
    ∃ d ∈ drawn, e ∈ elementsOf d.fragment ∧
      ∃ path ∈ d.fragment, path ∈ (Document.root width height (drawn.map Drawn.fragment).flatten).elements ∧
        path.tag = "path" ∧ ∃ id, path.attribute? "id" = some id ∧ e.attribute? "xlink:href" = some ("#" ++ id) := by
  have hother : ∀ form ∈ documentForms ++ shapeForms, form.1 ≠ "textPath" := by decide
  obtain ⟨d, hd, hmem⟩ := exists_drawn_of_form he fun hform => hother _ (List.mem_append_left _ hform) htag
  rcases hcounted.cases_of_mem (List.mem_map_of_mem hd) with ⟨number, hline⟩ | hshape
  · obtain ⟨path, rest, hfragment, hpath, hid, -⟩ := hline.exists_path
    have hown : path ∈ d.fragment := by simp [hfragment]
    exact ⟨d, hd, hmem, path, hown, mem_elements_of_drawn hd hown, hpath, _, hid, hline.textPath hmem htag⟩
  · exact absurd htag (hother _ (List.mem_append_right _ (form_mem_of_mem hshape hmem)))

/-- The heads of lines refer to markers. -/
theorem exists_marker_of_head (hcounted : Counted 1 (drawn.map Drawn.fragment))
    (he : e ∈ (Document.root width height (drawn.map Drawn.fragment).flatten).elements) {name reference : String}
    (hname : name = "marker-start" ∨ name = "marker-end") (hreference : e.attribute? name = some reference) :
    ∃ marker ∈ (Document.root width height (drawn.map Drawn.fragment).flatten).elements, marker.tag = "marker" ∧
      ∃ id, marker.attribute? "id" = some id ∧ reference = "url(#" ++ id ++ ")" := by
  have hother : ∀ form ∈ documentForms ++ shapeForms, "marker-start" ∉ form.2 ∧ "marker-end" ∉ form.2 := by decide
  have hform : e.form ∉ documentForms ++ shapeForms := by
    intro hform
    have hnone : e.attribute? name = none := by
      obtain ⟨hstart, hend⟩ := hother _ hform
      rcases hname with rfl | rfl
      · exact Element.attribute?_eq_none hstart
      · exact Element.attribute?_eq_none hend
    cases hnone.symm.trans hreference
  obtain ⟨d, hd, hmem⟩ := exists_drawn_of_form he fun h => hform (List.mem_append_left _ h)
  rcases hcounted.cases_of_mem (List.mem_map_of_mem hd) with ⟨number, hline⟩ | hshape
  · exact Document.exists_marker width height _ (hline.head hmem hname hreference)
  · exact absurd (List.mem_append_right _ (form_mem_of_mem hshape hmem)) hform

end

/-- In a session, failing lines included, the lines between pins that succeed have the identifiers from one on, each
on its path, and the next identifier is counted from their number. In a document no identifier stands twice; the
text along a path refers to the path that the same line draws, and a path refers to markers of the document. -/
theorem references_resolve :
    (∀ lines : List (Nat × String),
      (Board.session lines).lineCounter = 1 + (Board.start.linesDrawn lines).length ∧
        ∀ i fragment, (Board.start.linesDrawn lines)[i]? = some fragment →
          ∃ path rest, fragment = path :: rest ∧ path.tag = "path" ∧
            path.attribute? "id" = some ("curve_" ++ Nat.repr (i + 1)) ∧ ∀ e ∈ elementsOf rest, e.tag ≠ "path") ∧
      ∀ program svg, render program = .ok svg →
        ∃ chart document, interpret program = .ok chart ∧ chart.document = .ok document ∧
          svg = Markup.print document ∧ (idsOf document.elements).Nodup ∧
            (∀ e ∈ document.elements, e.tag = "textPath" →
              ∃ d ∈ drawnBy program, e ∈ elementsOf d.fragment ∧
                ∃ path ∈ d.fragment, path ∈ document.elements ∧ path.tag = "path" ∧
                  ∃ id, path.attribute? "id" = some id ∧ e.attribute? "xlink:href" = some ("#" ++ id)) ∧
              ∀ e ∈ document.elements, ∀ name reference, name = "marker-start" ∨ name = "marker-end" →
                e.attribute? name = some reference →
                  ∃ marker ∈ document.elements, marker.tag = "marker" ∧
                    ∃ id, marker.attribute? "id" = some id ∧ reference = "url(#" ++ id ++ ")" := by
  refine ⟨fun lines => ?_, fun program svg h => ?_⟩
  · obtain ⟨hcounter, hlines⟩ := Board.linesDrawn_spec Board.start_isFinite lines
    refine ⟨hcounter, fun i fragment hi => ?_⟩
    have hline := hlines i fragment hi
    rw [show Board.start.lineCounter = 1 from rfl, Nat.add_comm] at hline
    exact hline.exists_path
  · obtain ⟨chart, width, height, hchart, hdocument, hsvg⟩ := exists_document h
    have hcounted := drawnBy_counted program
    refine ⟨chart, _, hchart, hdocument, hsvg, ?_, ?_, ?_⟩
    · obtain ⟨lines, hids⟩ := hcounted.ids
      rw [Document.ids_root, hids]
      exact nodup_ids 1 lines
    · exact fun e he htag => exists_path_of_textPath hcounted he htag
    · exact fun e he name reference hname hreference => exists_marker_of_head hcounted he hname hreference

/-- A line that fails takes no identifier from the two lines behind it; and the text of a program's second line
between pins refers to the second path, the head of which is a marker. -/
theorem references_resolve_failing_and_flipped :
    (Board.session [(1, "Pin a 0 0"), (2, "Pin b 9 9"), (3, "Line a c x"), (4, "Arrow b a z"), (5, "FlipLine a b")]).lineCounter
        = 3 ∧
      ∃ chart document, interpret "Pin a 0 0\nPin b 9 9\nLine a b x\nBox a b y\nFlipArrow b a z" = .ok chart ∧
        chart.document = .ok document ∧ (idsOf document.elements).Nodup ∧
          (∃ path ∈ document.elements, path.tag = "path" ∧ path.attribute? "id" = some "curve_2") ∧
            ∃ marker ∈ document.elements, marker.tag = "marker" ∧ marker.attribute? "id" = some "arrow_l2r" := by
  obtain ⟨hsession, hdocuments⟩ := references_resolve
  have hcount : (Board.start.linesDrawn [(1, "Pin a 0 0"), (2, "Pin b 9 9"), (3, "Line a c x"), (4, "Arrow b a z"),
      (5, "FlipLine a b")]).length = 2 := by decide +kernel
  have helements : (match interpret "Pin a 0 0\nPin b 9 9\nLine a b x\nBox a b y\nFlipArrow b a z" with
      | .error _ => false
      | .ok chart =>
        match chart.document with
        | .error _ => false
        | .ok document =>
          document.elements.any (fun e => e.tag == "textPath" && e.attribute? "xlink:href" == some "#curve_2") &&
            document.elements.any fun e => e.attribute? "marker-end" == some "url(#arrow_l2r)") = true := by
    decide +kernel
  refine ⟨by rw [(hsession _).1, hcount], ?_⟩
  cases h : render "Pin a 0 0\nPin b 9 9\nLine a b x\nBox a b y\nFlipArrow b a z" with
  | error fault =>
    rw [render_error_iff.1 h] at helements
    cases helements
  | ok svg =>
    obtain ⟨chart, document, hchart, hdocument, -, hids, htexts, hheads⟩ := hdocuments _ svg h
    rw [hchart] at helements
    simp only [hdocument, Bool.and_eq_true, List.any_eq_true, beq_iff_eq] at helements
    obtain ⟨⟨text, htext, htag, hhref⟩, path, hpath, hhead⟩ := helements
    refine ⟨chart, document, hchart, hdocument, hids, ?_, ?_⟩
    · obtain ⟨d, -, -, target, -, htarget, htargetTag, id, hid, heq⟩ := htexts text htext htag
      have hnames : "#curve_2" = "#" ++ id := Option.some.inj (hhref.symm.trans heq)
      obtain rfl : "curve_2" = id := (String.append_right_inj "#").1 hnames
      exact ⟨target, htarget, htargetTag, hid⟩
    · obtain ⟨marker, hmarker, hmarkerTag, id, hid, heq⟩ := hheads path hpath _ _ (.inr rfl) hhead
      have hnames : "url(#" ++ ("arrow_l2r" ++ ")") = "url(#" ++ (id ++ ")") := by rwa [← String.append_assoc]
      obtain rfl : "arrow_l2r" = id := (String.append_left_inj ")").1 ((String.append_right_inj _).1 hnames)
      exact ⟨marker, hmarker, hmarkerTag, hid⟩

end Pinboard
