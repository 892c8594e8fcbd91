import Mathlib.Data.List.Triplewise
import Pinboard.Markup.Page
import Pinboard.Markup.Template
import Pinboard.Proofs.Text.Cuts

/-!
# What a page shows of its title and its drawing

The page is its template with the two places filled (`fill_template`). Neither of what fills them can be taken for
something else: the title is written without brackets, so the first mark for the end of a title is the one of the
template, whatever the drawing says (`readTitle?_wrap`), and the drawing ends where the template goes on. Main
statement: the title and the drawing can both be read off the page, by everyone who reads character references for
what they stand for (`wrap_recovers`).
-/

namespace Pinboard.Template

/-! ## Filling places -/

/-- Whether a string can be the name of a place. -/
def isName (s : String) : Bool :=
  match s.toList with
  | [] => false
  | c :: cs => isNameStart c && cs.all isNameChar

/-- A place without braces ends where a character follows that may not stand in its name. -/
theorem readPlace?_append {name : String} (h : isName name = true) {behind : List Char}
    (hbehind : ∀ c ∈ behind.head?, isNameChar c = false) :
    readPlace? (name.toList ++ behind) = some (name, behind) := by
  rw [isName] at h
  split at h
  next => cases h
  next c cs hname =>
    rw [Bool.and_eq_true] at h
    obtain ⟨hc, hcs⟩ := h
    obtain ⟨htake, hdrop⟩ := Text.takeWhile_dropWhile_append (List.all_eq_true.1 hcs) hbehind
    have hbrace : c ≠ '\x7b' := by
      rintro rfl
      exact absurd hc (by decide)
    rw [hname, List.cons_append, readPlace?.eq_def]
    split
    next heq =>
      cases heq
      exact absurd rfl hbrace
    next =>
      rw [readName?, if_pos hc, htake, hdrop, ← hname, String.ofList_toList]

/-- The value for a place stands where the place was, as it is. -/
theorem fillPieces_place {values : List (String × String)} {name value : String} (hname : isName name = true)
    (hvalue : values.lookup name = some value) {behind : List Char}
    (hbehind : ∀ c ∈ behind.head?, isNameChar c = false) (pieces : List (List Char)) :
    fillPieces values ((name.toList ++ behind) :: pieces) =
      (fillPieces values pieces).map (value.toList ++ behind ++ ·) := by
  have hplace := readPlace?_append hname hbehind
  have hne : name.toList ++ behind ≠ [] := by
    intro heq
    rw [heq] at hplace
    cases hplace
  rw [fillPieces, hplace]
  · simp only [Option.bind_eq_bind, Option.bind_some, hvalue]
    cases fillPieces values pieces <;> rfl
  · intro literal pieces heq
    exact absurd heq hne

end Pinboard.Template

namespace Pinboard.Page

/-! ## Reading a page -/

/-- The references that a title may be written with, and the characters that they stand for. -/
def references : List (Char × String) :=
  [('&', "&amp;"), ('<', "&lt;"), ('>', "&gt;"), ('"', "&quot;"), ('\'', "&#x27;")]

/-- What is asked of a reading of text with references in it: characters other than the sign for references are
read as they are, and the references of a title for what they stand for. -/
structure ReadsReferences (read : List Char → List Char) : Prop where
  nil : read [] = []
  plain : ∀ c cs, c ≠ '&' → read (c :: cs) = c :: read cs
  reference : ∀ c s, (c, s) ∈ references → ∀ cs, read (s.toList ++ cs) = c :: read cs

/-- Text with the references of a title resolved. -/
def readReferences : List Char → List Char
  | [] => []
  | '&' :: 'a' :: 'm' :: 'p' :: ';' :: cs => '&' :: readReferences cs
  | '&' :: 'l' :: 't' :: ';' :: cs => '<' :: readReferences cs
  | '&' :: 'g' :: 't' :: ';' :: cs => '>' :: readReferences cs
  | '&' :: 'q' :: 'u' :: 'o' :: 't' :: ';' :: cs => '"' :: readReferences cs
  | '&' :: '#' :: 'x' :: '2' :: '7' :: ';' :: cs => '\'' :: readReferences cs
  | c :: cs => c :: readReferences cs

theorem readsReferences : ReadsReferences readReferences where
  nil := rfl
  plain := by
    intro c cs hc
    conv =>
      lhs
      unfold readReferences
    split <;> simp_all
  reference := by
    intro c s h cs
    simp only [references, List.mem_cons, Prod.mk.injEq, List.not_mem_nil, or_false] at h
    rcases h with ⟨rfl, rfl⟩ | ⟨rfl, rfl⟩ | ⟨rfl, rfl⟩ | ⟨rfl, rfl⟩ | ⟨rfl, rfl⟩
    all_goals simp [readReferences]

/-- What is between the first mark for the beginning of a title and the first mark for the end of one behind it,
and what is behind that. -/
def readTitle? (page : List Char) : Option (List Char × List Char) := do
  let (_, behind) ← page.dropInfix? "<title>".toList
  behind.dropInfix? "</title>".toList

/-- The title and the drawing of a page: the drawing is what is between the beginning of the body behind the title
and the end of the page. -/
def unwrap? (unescape : List Char → List Char) (page : String) : Option (String × String) := do
  let (content, behind) ← readTitle? page.toList
  let (_, body) ← behind.dropInfix? "<body>\n".toList
  let drawing ← body.dropSuffix? afterDrawing.toList
  some (String.ofList (unescape content), String.ofList drawing)

/-- A title as it stands on the page. -/
def escape (title : String) : String := String.ofList (title.toList.flatMap escapeTitle)

/-! ## The first place of a mark -/

/-- The first place of a mark in a text that ends with it is the first one whatever follows. -/
theorem dropInfix?_append {text mark front : List Char} (h : text.dropInfix? mark = some (front, []))
    (rest : List Char) : (text ++ rest).dropInfix? mark = some (front, rest) := by
  obtain ⟨⟨mark₀, htext, hmark₀⟩, hfirst⟩ := List.dropInfix?_eq_some_iff.1 h
  refine List.dropInfix?_eq_some_iff.2 ⟨⟨mark₀, by simp [htext], hmark₀⟩, ?_⟩
  intro front' mark' rest' heq hmark
  refine Nat.le_of_not_lt ?_
  intro hlt
  have hlength : mark'.length = mark₀.length := by rw [eq_of_beq hmark, eq_of_beq hmark₀]
  -- a place further ahead would end in the text
  have hplace : front' ++ mark' <+: text ++ rest := by
    rw [heq]
    exact List.prefix_append _ _
  have hends : (front' ++ mark').length ≤ text.length := by
    rw [htext]
    simp only [List.length_append, List.length_nil]
    omega
  have hprefix : front' ++ mark' <+: text := List.prefix_of_prefix_length_le hplace (List.prefix_append _ _) hends
  obtain ⟨rest'', hrest⟩ := hprefix
  exact absurd (hfirst front' mark' rest'' hrest.symm hmark) (Nat.not_le_of_lt hlt)

theorem exists_dropInfix?_append {text mark : List Char} (h : (text.dropInfix? mark).map Prod.snd = some [])
    (rest : List Char) : ∃ front, (text ++ rest).dropInfix? mark = some (front, rest) := by
  obtain ⟨⟨front, behind⟩, hfront, rfl⟩ := Option.map_eq_some_iff.1 h
  exact ⟨front, dropInfix?_append hfront rest⟩

/-- A text has no place of a mark if it does not have the first character of it. -/
theorem dropInfix?_of_free {front : List Char} {c : Char} (h : ∀ d ∈ front, d ≠ c) (cs : List Char) :
    (front ++ c :: cs).dropInfix? (c :: cs) = some (front, []) := by
  refine List.dropInfix?_eq_some_iff.2 ⟨⟨c :: cs, by simp, by simp⟩, ?_⟩
  intro front' mark' rest' heq hmark
  obtain rfl : mark' = c :: cs := by simpa using hmark
  refine Nat.le_of_not_lt ?_
  intro hlt
  have hmem : (front ++ c :: cs)[front'.length]? = some c := by
    rw [heq, List.append_assoc, List.getElem?_append_right (Nat.le_refl _)]
    simp
  rw [List.getElem?_append_left hlt] at hmem
  exact h c (List.mem_of_getElem? hmem) rfl

/-! ## The title -/

/-- A character of a title is written as the reference for it, or as it is if there is none. -/
theorem escapeTitle_eq (c : Char) :
    (∃ s, (c, s) ∈ references ∧ escapeTitle c = s.toList) ∨
      (∀ d s, (d, s) ∈ references → c ≠ d) ∧ escapeTitle c = [c] := by
  unfold escapeTitle Markup.escapeText
  split
  · exact .inl ⟨"&quot;", by decide, rfl⟩
  · exact .inl ⟨"&#x27;", by decide, rfl⟩
  next hquote hapostrophe =>
    split
    · exact .inl ⟨"&amp;", by decide, rfl⟩
    · exact .inl ⟨"&lt;", by decide, rfl⟩
    · exact .inl ⟨"&gt;", by decide, rfl⟩
    next hamp hlt hgt =>
      refine .inr ⟨?_, rfl⟩
      rintro d s h rfl
      simp only [references, List.mem_cons, Prod.mk.injEq, List.not_mem_nil, or_false] at h
      rcases h with ⟨h, -⟩ | ⟨h, -⟩ | ⟨h, -⟩ | ⟨h, -⟩ | ⟨h, -⟩
      · exact hamp h
      · exact hlt h
      · exact hgt h
      · exact hquote h
      · exact hapostrophe h

theorem reference_free {c : Char} {s : String} (h : (c, s) ∈ references) : ∀ d ∈ s.toList, d ≠ '<' ∧ d ≠ '>' := by
  have hall : (references.all fun p => p.2.toList.all fun d => d != '<' && d != '>') = true := by decide
  intro d hd
  simpa using List.all_eq_true.1 (List.all_eq_true.1 hall (c, s) h) d hd

/-- A title is written without brackets. -/
theorem escape_free (title : String) : ∀ c ∈ (escape title).toList, c ≠ '<' ∧ c ≠ '>' := by
  intro d hd
  rw [escape, String.toList_ofList] at hd
  obtain ⟨c, -, hc⟩ := List.mem_flatMap.1 hd
  rcases escapeTitle_eq c with ⟨s, hs, heq⟩ | ⟨hnone, heq⟩
  · exact reference_free hs d (heq ▸ hc)
  · obtain rfl : d = c := by simpa [heq] using hc
    exact ⟨hnone '<' "&lt;" (by decide), hnone '>' "&gt;" (by decide)⟩

/-- A title is read as it was before it was written. -/
theorem ReadsReferences.read_escape {read : List Char → List Char} (h : ReadsReferences read) (title : String) :
    read (escape title).toList = title.toList := by
  rw [escape, String.toList_ofList]
  induction title.toList with
  | nil => exact h.nil
  | cons c cs ih =>
    rw [List.flatMap_cons]
    rcases escapeTitle_eq c with ⟨s, hs, heq⟩ | ⟨hnone, heq⟩
    · rw [heq, h.reference c s hs, ih]
    · rw [heq, List.singleton_append, h.plain c _ (hnone '&' "&amp;" (by decide)), ih]

/-! ## The page as its template with the places filled -/

/-- What the template has between the end of the title and the drawing. -/
def behindTitle : List Char := betweenTitleAndDrawing.toList.drop "</title>".toList.length

/-- Whether there is no place in some characters. -/
def isPlaceless (cs : List Char) : Bool := cs.all (· != '$')

-- the parts of the template are long, so each is looked at once for all that is asked of it
theorem beforeTitle_marks :
    isPlaceless beforeTitle.toList = true ∧ "<title>".toList <:+ beforeTitle.toList ∧
      (beforeTitle.toList.dropInfix? "<title>".toList).map Prod.snd = some [] := by
  decide +kernel

theorem betweenTitleAndDrawing_marks :
    isPlaceless ("title".toList ++ betweenTitleAndDrawing.toList) = true ∧
      betweenTitleAndDrawing.toList = "</title>".toList ++ behindTitle ∧
      betweenTitleAndDrawing.toList.head? = some '<' ∧
      (behindTitle.dropInfix? "<body>\n".toList).map Prod.snd = some [] := by
  decide +kernel

theorem afterDrawing_marks :
    isPlaceless ("svg".toList ++ afterDrawing.toList) = true ∧ afterDrawing.toList.head? = some '\n' := by
  decide +kernel

theorem cutAt_template :
    Text.cutAt (· == '$') template.toList =
      [beforeTitle.toList, "title".toList ++ betweenTitleAndDrawing.toList, "svg".toList ++ afterDrawing.toList] := by
  have htemplate : template.toList = beforeTitle.toList ++
      '$' :: ("title".toList ++ betweenTitleAndDrawing.toList ++ '$' :: ("svg".toList ++ afterDrawing.toList)) := by
    simp [template]
  have hplain {cs : List Char} (h : isPlaceless cs = true) : Text.cutAt (· == '$') cs = [cs] := by
    refine Text.cutAt_of_free ?_
    simpa [isPlaceless] using h
  rw [htemplate, Text.cutAt_append _ _ _ rfl, Text.cutAt_append _ _ _ rfl, hplain beforeTitle_marks.1,
    hplain betweenTitleAndDrawing_marks.1, hplain afterDrawing_marks.1]
  rfl

theorem toList_wrap (title drawing : String) :
    (wrap title drawing).toList =
      beforeTitle.toList ++ ((escape title).toList ++ "</title>".toList ++
        (behindTitle ++ (drawing.toList ++ afterDrawing.toList))) := by
  have h := betweenTitleAndDrawing_marks.2.1
  simp only [wrap, escape, String.toList_append, String.toList_ofList, List.append_assoc, h]

/-- The page is the template with the title in one place and the drawing in the other. -/
theorem fill_template (title drawing : String) :
    Template.fill [("title", escape title), ("svg", drawing)] template = some (wrap title drawing) := by
  have htitle : [("title", escape title), ("svg", drawing)].lookup "title" = some (escape title) := rfl
  have hsvg : [("title", escape title), ("svg", drawing)].lookup "svg" = some drawing := rfl
  have hbracket : ∀ c ∈ betweenTitleAndDrawing.toList.head?, Template.isNameChar c = false := by
    rw [betweenTitleAndDrawing_marks.2.2.1]
    rintro c ⟨⟩
    rfl
  have hfeed : ∀ c ∈ afterDrawing.toList.head?, Template.isNameChar c = false := by
    rw [afterDrawing_marks.2]
    rintro c ⟨⟩
    rfl
  rw [Template.fill, cutAt_template]
  simp only
  rw [Template.fillPieces_place (by decide) htitle hbracket, Template.fillPieces_place (by decide) hsvg hfeed,
    Template.fillPieces]
  simp [wrap, escape, String.ext_iff]

/-! ## Reading the page -/

/-- The title ends at the mark of the template, since it is written without brackets. -/
theorem readTitle?_wrap (title drawing : String) :
    readTitle? (wrap title drawing).toList =
      some ((escape title).toList, behindTitle ++ (drawing.toList ++ afterDrawing.toList)) := by
  obtain ⟨front, hfront⟩ := exists_dropInfix?_append beforeTitle_marks.2.2
    ((escape title).toList ++ "</title>".toList ++ (behindTitle ++ (drawing.toList ++ afterDrawing.toList)))
  have hfree : ∀ c ∈ (escape title).toList, c ≠ '<' := fun c hc => (escape_free title c hc).1
  have hmark : "</title>".toList = '<' :: "/title>".toList := by decide
  have hcontent := dropInfix?_append (dropInfix?_of_free hfree "/title>".toList)
    (behindTitle ++ (drawing.toList ++ afterDrawing.toList))
  rw [← hmark] at hcontent
  simp only [readTitle?, toList_wrap, hfront, Option.bind_eq_bind, Option.bind_some, hcontent]

/-- What a page shows is what it was made of. -/
theorem unwrap?_wrap {unescape : List Char → List Char} (h : ReadsReferences unescape) (title drawing : String) :
    unwrap? unescape (wrap title drawing) = some (title, drawing) := by
  obtain ⟨front, hfront⟩ := exists_dropInfix?_append betweenTitleAndDrawing_marks.2.2.2
    (drawing.toList ++ afterDrawing.toList)
  have hdrawing : (drawing.toList ++ afterDrawing.toList).dropSuffix? afterDrawing.toList = some drawing.toList :=
    List.dropSuffix?_eq_some_iff.2 ⟨afterDrawing.toList, rfl, by simp⟩
  rw [unwrap?, readTitle?_wrap]
  simp only [Option.bind_eq_bind, Option.bind_some, hfront, hdrawing]
  rw [h.read_escape, String.ofList_toList, String.ofList_toList]

theorem drawing_infix_wrap (title drawing : String) : drawing.toList <:+: (wrap title drawing).toList := by
  refine ⟨beforeTitle.toList ++ ((escape title).toList ++ "</title>".toList ++ behindTitle),
    afterDrawing.toList, ?_⟩
  simp only [toList_wrap, List.append_assoc]

theorem title_infix_wrap (title drawing : String) :
    ("<title>".toList ++ (escape title).toList ++ "</title>".toList) <:+: (wrap title drawing).toList := by
  obtain ⟨front, hfront⟩ := beforeTitle_marks.2.1
  refine ⟨front, behindTitle ++ (drawing.toList ++ afterDrawing.toList), ?_⟩
  simp only [toList_wrap, ← hfront, List.append_assoc]

/-- The page holds the drawing as it is and the title as one title element without brackets in it, which is the first
one of the page and is read as the title. So the page tells what it was made of: no other title and no other drawing
make the same page. -/
theorem wrap_recovers {unescape : List Char → List Char} (h : ReadsReferences unescape) :
    (∀ title drawing : String,
      Template.fill [("title", escape title), ("svg", drawing)] template = some (wrap title drawing) ∧
      drawing.toList <:+: (wrap title drawing).toList ∧
      (∃ content behind, ("<title>".toList ++ content ++ "</title>".toList) <:+: (wrap title drawing).toList ∧
        readTitle? (wrap title drawing).toList = some (content, behind) ∧
        (∀ c ∈ content, c ≠ '<' ∧ c ≠ '>') ∧ unescape content = title.toList) ∧
      unwrap? unescape (wrap title drawing) = some (title, drawing)) ∧
    Function.Injective fun page : String × String => wrap page.1 page.2 := by
  constructor
  · intro title drawing
    exact ⟨fill_template title drawing, drawing_infix_wrap title drawing,
      ⟨(escape title).toList, _, title_infix_wrap title drawing, readTitle?_wrap title drawing, escape_free title,
        h.read_escape title⟩, unwrap?_wrap h title drawing⟩
  · rintro ⟨title, drawing⟩ ⟨title', drawing'⟩ heq
    have hread := congrArg (unwrap? unescape) heq
    simp only [unwrap?_wrap h] at hread
    exact Option.some.inj hread

theorem wrap_recovers_marks :
    unwrap? readReferences (wrap "</title>$svg &lt; \"'" "$title </body></html> <title>$$</title>") =
        some ("</title>$svg &lt; \"'", "$title </body></html> <title>$$</title>") ∧
      wrap "$svg" "a" ≠ wrap "a" "$svg" := by
  obtain ⟨hpage, hinjective⟩ := wrap_recovers readsReferences
  refine ⟨(hpage _ _).2.2.2, ?_⟩
  intro heq
  have hsame : ("$svg", "a") = ("a", "$svg") := hinjective heq
  exact absurd hsame (by decide)

end Pinboard.Page
