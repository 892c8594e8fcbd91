import Pinboard.Markup.Printer
import Pinboard.Markup.Reader
import Pinboard.Proofs.Markup.Inside
import Pinboard.Proofs.Text.Cuts

/-!
# What is written can be read

Text and values are written without the characters that delimit them, and resolving the references in them undoes
the writing (`readText_writeText`, `readText_escapeValue`). So a tag ends where its writing ends (`readTag_name`,
`readTag_closing`), and what stands behind an element is read as if the element were not there
(`readContent_writeElement`). Main statement: an element whose tags and attributes have names is read as it was
written (`read_print`).
-/

namespace Pinboard.Markup

/-! ## References -/

theorem resolve_cons {c : Char} (hc : c ≠ '&') (cs : List Char) : resolve (c :: cs) = c :: resolve cs := by
  conv =>
    lhs
    unfold resolve
  split <;> simp_all

theorem resolve_escapeText (c : Char) (cs : List Char) : resolve (escapeText c ++ cs) = c :: resolve cs := by
  unfold escapeText
  split
  · simp [resolve]
  · simp [resolve]
  · simp [resolve]
  · next hamp _ _ => exact resolve_cons (fun h => hamp h) cs

theorem resolve_escapeValue (c : Char) (cs : List Char) : resolve (escapeValue c ++ cs) = c :: resolve cs := by
  unfold escapeValue
  split
  · simp [resolve]
  · simp [resolve]
  · simp [resolve]
  · simp [resolve]
  · exact resolve_escapeText c cs

theorem resolve_flatMap {escape : Char → List Char} (h : ∀ c cs, resolve (escape c ++ cs) = c :: resolve cs)
    (s cs : List Char) : resolve (s.flatMap escape ++ cs) = s ++ resolve cs := by
  induction s with
  | nil => rfl
  | cons c s ih => rw [List.flatMap_cons, List.append_assoc, h, ih, List.cons_append]

/-- Text is written without opening brackets, and with no quotation marks but its own. -/
theorem escapeText_free (c : Char) : ∀ d ∈ escapeText c, d ≠ '<' ∧ (d = '"' → c = '"') := by
  unfold escapeText
  split
  · simp
  · simp
  · simp
  · next hlt _ => simpa using fun h => hlt h

/-- Values are written without opening brackets and without quotation marks. -/
theorem escapeValue_free (c : Char) : ∀ d ∈ escapeValue c, d ≠ '<' ∧ d ≠ '"' := by
  unfold escapeValue
  split
  · simp
  · simp
  · simp
  · simp
  · next hquote _ _ _ =>
    intro d hd
    obtain ⟨hlt, hown⟩ := escapeText_free c d hd
    exact ⟨hlt, fun h => hquote (hown h)⟩

theorem writeText_free (s : String) : ∀ d ∈ writeText s, d ≠ '<' := by
  intro d hd
  obtain ⟨c, -, hc⟩ := List.mem_flatMap.1 hd
  exact (escapeText_free c d hc).1

theorem readText_writeText (s : String) (cs : List Char) : readText (writeText s ++ cs) = s ++ readText cs := by
  rw [readText, writeText, resolve_flatMap resolve_escapeText, String.ofList_append, String.ofList_toList, readText]

theorem readText_escapeValue (s : String) : readText (s.toList.flatMap escapeValue) = s := by
  rw [readText, ← List.append_nil (List.flatMap _ _), resolve_flatMap resolve_escapeValue, resolve, List.append_nil,
    String.ofList_toList]

/-! ## Names -/

/-- Whether a string can be the name of an element or of an attribute. -/
def isName (s : String) : Bool := s != "" && s.toList.all isNameChar

/-- A name ends where a character follows that may not stand in one. -/
theorem readName_append {name : String} (h : isName name = true) {cs : List Char}
    (hcs : ∀ c ∈ cs.head?, isNameChar c = false) : readName (name.toList ++ cs) = (name, cs) := by
  have hall : ∀ d ∈ name.toList, isNameChar d = true := by
    rw [isName, Bool.and_eq_true] at h
    exact List.all_eq_true.1 h.2
  obtain ⟨htake, hdrop⟩ := Text.takeWhile_dropWhile_append hall hcs
  rw [readName, htake, hdrop, String.ofList_toList]

theorem toList_ne_slash {name : String} (h : isName name = true) : ∃ c cs, name.toList = c :: cs ∧ c ≠ '/' := by
  rw [isName, Bool.and_eq_true] at h
  cases hname : name.toList with
  | nil =>
    have hempty : name = "" := by simpa using hname
    simp [hempty] at h
  | cons c cs =>
    refine ⟨c, cs, rfl, ?_⟩
    rintro rfl
    rw [hname] at h
    simp [isNameChar] at h

/-! ## Tags -/

/-- The attributes of an element have names. -/
def AreNamed (attributes : List (String × String)) : Prop := ∀ entry ∈ attributes, isName entry.1 = true

/-- An attribute with a name is read as it was written. -/
theorem readAttribute?_write {entry : String × String} (h : isName entry.1 = true) (cs : List Char) :
    readAttribute? (writeAttribute entry ++ cs) = some (entry, cs) := by
  obtain ⟨name, value⟩ := entry
  have hvalue : ∀ d ∈ value.toList.flatMap escapeValue, (d ≠ '"') = true := by
    intro d hd
    obtain ⟨c, -, hc⟩ := List.mem_flatMap.1 hd
    simpa using (escapeValue_free c d hc).2
  have hwritten : writeAttribute (name, value) ++ cs =
      ' ' :: (name.toList ++ '=' :: '"' :: (value.toList.flatMap escapeValue ++ '"' :: cs)) := by
    simp [writeAttribute]
  have hname : readName (name.toList ++ '=' :: '"' :: (value.toList.flatMap escapeValue ++ '"' :: cs)) = (name, _) :=
    readName_append h (by simp [isNameChar])
  have htake : (value.toList.flatMap escapeValue ++ '"' :: cs).takeWhile (· ≠ '"') =
      value.toList.flatMap escapeValue := by
    rw [List.takeWhile_append_of_pos (by simpa using hvalue)]
    simp
  have hdrop : (value.toList.flatMap escapeValue ++ '"' :: cs).dropWhile (· ≠ '"') = '"' :: cs := by
    rw [List.dropWhile_append_of_pos (by simpa using hvalue)]
    simp
  rw [hwritten, readAttribute?]
  simp only [hname, hdrop, htake, readText_escapeValue]

theorem readAttributes_write {attributes : List (String × String)} (h : AreNamed attributes) {cs : List Char}
    (hcs : readAttribute? cs = none) :
    readAttributes (attributes.flatMap writeAttribute ++ cs) = (attributes, cs) := by
  induction attributes with
  | nil => exact readAttributes_of_none hcs
  | cons entry attributes ih =>
    obtain ⟨hentry, hrest⟩ := List.forall_mem_cons.1 h
    rw [List.flatMap_cons, List.append_assoc, readAttributes_of_some (readAttribute?_write hentry _), ih hrest]

section
variable {name : String} (hname : isName name = true)
include hname

/-- A tag that begins with a name is that of the beginning of an element. -/
theorem readTag_name {attributes : List (String × String)} (hattributes : AreNamed attributes) {cs : List Char}
    (hcs : readAttribute? cs = none) (hstop : ∀ c ∈ cs.head?, isNameChar c = false) :
    readTag (name.toList ++ (attributes.flatMap writeAttribute ++ cs)) = readTagEnd name attributes cs := by
  have hread : readName (name.toList ++ (attributes.flatMap writeAttribute ++ cs)) =
      (name, attributes.flatMap writeAttribute ++ cs) := by
    refine readName_append hname ?_
    cases attributes with
    | nil => exact hstop
    | cons entry attributes => simp [writeAttribute, isNameChar]
  obtain ⟨d, ds, hd, hne⟩ := toList_ne_slash hname
  rw [hd, List.cons_append] at hread ⊢
  rw [readTag]
  · simp only [hread, readAttributes_write hattributes hcs]
  · intro es heq
    exact hne (List.cons.inj heq).1

theorem readTag_closing (cs : List Char) : readTag ('/' :: (name.toList ++ '>' :: cs)) = some (.closing name, cs) := by
  have hread : readName (name.toList ++ '>' :: cs) = (name, '>' :: cs) := readName_append hname (by simp [isNameChar])
  simp only [readTag, hread]

end

/-! ## Contents -/

/-- Text at the front is read as text. -/
theorem readContent_writeText {cs : List Char} {content : Content} (h : readContent cs = some content) (s : String) :
    readContent (writeText s ++ cs) = some { content with text := s ++ content.text } := by
  have hfree : ∀ c ∈ writeText s, (c == '<') = false := by simpa using writeText_free s
  unfold readContent at h ⊢
  cases hcut : Text.cutAt (· == '<') cs with
  | nil => exact absurd hcut (Text.cutAt_ne_nil _ _)
  | cons front pieces =>
    rw [hcut] at h
    obtain ⟨behind, hbehind, rfl⟩ := Option.map_eq_some_iff.1 h
    rw [Text.cutAt_append_of_free hfree hcut]
    simp only [hbehind, Option.map_some, readText_writeText]

/-- Behind the bracket that opens it there is no text in front of a tag. -/
theorem add_text {content content' : Content} {tag : Tag} (h : content.add tag = some content') :
    content'.text = "" := by
  revert h
  unfold Content.add
  split
  · rintro ⟨⟩
    rfl
  · rintro ⟨⟩
    rfl
  · split
    · split
      · rintro ⟨⟩
        rfl
      · nofun
    · nofun

/-- One more tag at the front. -/
theorem readContent_tag {body cs : List Char} {content : Content} {tag : Tag} (hbody : ∀ c ∈ body, c ≠ '<')
    (htag : ∀ rest, readTag (body ++ rest) = some (tag, rest)) (h : readContent cs = some content) :
    readContent ('<' :: (body ++ cs)) = content.add tag := by
  have hfree : ∀ c ∈ body, (c == '<') = false := by simpa using hbody
  unfold readContent at h ⊢
  cases hcut : Text.cutAt (· == '<') cs with
  | nil => exact absurd hcut (Text.cutAt_ne_nil _ _)
  | cons front pieces =>
    rw [hcut] at h
    obtain ⟨behind, hbehind, rfl⟩ := Option.map_eq_some_iff.1 h
    have hcuts : Text.cutAt (· == '<') ('<' :: (body ++ cs)) = [] :: (body ++ front) :: pieces := by
      rw [Text.cutAt, if_pos (beq_self_eq_true _), Text.cutAt_append_of_free hfree hcut]
    rw [hcuts]
    simp only [readPieces, htag, hbehind, Option.bind_eq_bind, Option.bind_some]
    cases hadd : Content.add { behind with text := readText front } tag with
    | none => rfl
    | some content' =>
      have htext := add_text hadd
      obtain ⟨text, children, outer⟩ := content'
      cases htext
      rfl

/-! ## Elements -/

/-- Whether the tag and the attributes of the elements of some form have names. -/
def isNamed (form : String × List String) : Bool := isName form.1 && form.2.all isName

theorem isNamed_form {tag : String} {attributes : List (String × String)} {text : String}
    {children : List (Element × String)} (h : isNamed (Element.node tag attributes text children).form = true) :
    isName tag = true ∧ AreNamed attributes := by
  obtain ⟨htag, hattributes⟩ := Bool.and_eq_true_iff.1 h
  exact ⟨htag, by simpa [Element.form, Element.attributes, AreNamed] using hattributes⟩

theorem toList_free {name : String} (h : isName name = true) : ∀ c ∈ name.toList, c ≠ '<' := by
  rw [isName, Bool.and_eq_true, List.all_eq_true] at h
  rintro c hc rfl
  have hchar := h.2 _ hc
  simp [isNameChar] at hchar

theorem writeAttributes_free {attributes : List (String × String)} (h : AreNamed attributes) :
    ∀ c ∈ attributes.flatMap writeAttribute, c ≠ '<' := by
  intro c hc
  obtain ⟨⟨name, value⟩, hentry, hc⟩ := List.mem_flatMap.1 hc
  have hname := toList_free (h _ hentry)
  have hvalue : ∀ d ∈ value.toList.flatMap escapeValue, d ≠ '<' := by
    intro d hd
    obtain ⟨e, -, he⟩ := List.mem_flatMap.1 hd
    exact (escapeValue_free e d he).1
  simp only [writeAttribute, List.mem_append, List.mem_cons, List.not_mem_nil, or_false] at hc
  rcases hc with ((rfl | hc) | rfl | rfl | hc) | rfl
  · simp
  · exact hname c hc
  · simp
  · simp
  · exact hvalue c hc
  · simp

mutual

/-- An element whose tags and attributes have names is read as it was written, in front of anything. -/
theorem readContent_writeElement : ∀ (e : Element) {cs : List Char} {content : Content},
    (∀ x ∈ e.elements, isNamed x.form = true) → readContent cs = some content →
      readContent (writeElement e ++ cs) = some ⟨"", (e, content.text) :: content.children, content.outer⟩
  | .node tag attributes text children, cs, content, hnamed, h => by
    rw [Element.elements, List.forall_mem_cons] at hnamed
    obtain ⟨htag, hattributes⟩ := isNamed_form hnamed.1
    have hfree : ∀ c ∈ tag.toList ++ attributes.flatMap writeAttribute, c ≠ '<' :=
      List.forall_mem_append.2 ⟨toList_free htag, writeAttributes_free hattributes⟩
    by_cases hempty : (text.isEmpty && children.isEmpty) = true
    · have hwritten : writeElement (.node tag attributes text children) ++ cs =
          '<' :: (tag.toList ++ attributes.flatMap writeAttribute ++ [' ', '/', '>'] ++ cs) := by
        simp [writeElement, hempty]
      have hread (rest : List Char) :
          readTag (tag.toList ++ attributes.flatMap writeAttribute ++ [' ', '/', '>'] ++ rest) =
            some (.lone tag attributes, rest) := by
        rw [List.append_assoc, List.append_assoc]
        exact readTag_name htag hattributes (by rfl) (by simp [isNameChar])
      rw [Bool.and_eq_true, String.isEmpty_iff, List.isEmpty_iff] at hempty
      obtain ⟨rfl, rfl⟩ := hempty
      rw [hwritten, readContent_tag (List.forall_mem_append.2 ⟨hfree, by simp⟩) hread h]
      rfl
    · have hwritten : writeElement (.node tag attributes text children) ++ cs =
          '<' :: (tag.toList ++ attributes.flatMap writeAttribute ++ ['>'] ++ (writeText text ++
            (writeChildren children ++ '<' :: ('/' :: tag.toList ++ ['>'] ++ cs)))) := by
        simp [writeElement, hempty]
      have hopening (rest : List Char) :
          readTag (tag.toList ++ attributes.flatMap writeAttribute ++ ['>'] ++ rest) =
            some (.opening tag attributes, rest) := by
        rw [List.append_assoc, List.append_assoc]
        exact readTag_name htag hattributes (by rfl) (by simp [isNameChar])
      have hclosing (rest : List Char) : readTag ('/' :: tag.toList ++ ['>'] ++ rest) = some (.closing tag, rest) := by
        rw [List.append_assoc]
        exact readTag_closing htag rest
      have hend : readContent ('<' :: ('/' :: tag.toList ++ ['>'] ++ cs)) =
          some ⟨"", [], ⟨tag, content.text, content.children⟩ :: content.outer⟩ :=
        readContent_tag (List.forall_mem_append.2 ⟨by simpa using toList_free htag, by simp⟩) hclosing h
      have hchildren := readContent_writeChildren children hnamed.2 hend
      rw [hwritten, readContent_tag (List.forall_mem_append.2 ⟨hfree, by simp⟩) hopening
        (readContent_writeText hchildren text)]
      simp [Content.add]

/-- Children are read with the texts behind them. -/
theorem readContent_writeChildren : ∀ (children : List (Element × String)) {cs : List Char} {outer : List Enclosing},
    (∀ x ∈ elementsIn children, isNamed x.form = true) → readContent cs = some ⟨"", [], outer⟩ →
      readContent (writeChildren children ++ cs) = some ⟨"", children, outer⟩
  | [], _, _, _, h => h
  | (child, tail) :: rest, cs, outer, hnamed, h => by
    rw [elementsIn, List.forall_mem_append] at hnamed
    have hrest := readContent_writeText (readContent_writeChildren rest hnamed.2 h) tail
    rw [writeChildren, List.append_assoc, List.append_assoc, readContent_writeElement child hnamed.1 hrest]
    simp

end

/-- An element whose tags and attributes have names, also those inside it, is read as it was written. -/
theorem read_print {e : Element} (h : ∀ x ∈ e.elements, isNamed x.form = true) : read (print e) = some e := by
  have hend : readContent [] = some ⟨"", [], []⟩ := rfl
  have hread := readContent_writeElement e h hend
  rw [List.append_nil] at hread
  rw [read, print, String.toList_ofList]
  simp [hread]

end Pinboard.Markup
