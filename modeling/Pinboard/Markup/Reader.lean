import Pinboard.Markup.Element
import Pinboard.Text.Split

/-!
# Reading markup

The reader knows what delimits markup and what the references in it stand for, and nothing about the elements
that a document may have. A text is cut where its tags begin, and its tags are gone through from the last one to
the first: the end of an element opens the place for its children, and its beginning closes it. Ends that match
no beginning, and text around the outermost element, are refused.
-/

namespace Pinboard.Markup

/-- Text with its references resolved. -/
def resolve : List Char → List Char
  | [] => []
  | '&' :: 'a' :: 'm' :: 'p' :: ';' :: cs => '&' :: resolve cs
  | '&' :: 'l' :: 't' :: ';' :: cs => '<' :: resolve cs
  | '&' :: 'g' :: 't' :: ';' :: cs => '>' :: resolve cs
  | '&' :: 'q' :: 'u' :: 'o' :: 't' :: ';' :: cs => '"' :: resolve cs
  | '&' :: '#' :: '1' :: '3' :: ';' :: cs => '\r' :: resolve cs
  | '&' :: '#' :: '1' :: '0' :: ';' :: cs => '\n' :: resolve cs
  | '&' :: '#' :: '0' :: '9' :: ';' :: cs => '\t' :: resolve cs
  | c :: cs => c :: resolve cs

/-- The text that some characters of markup stand for. -/
def readText (cs : List Char) : String := String.ofList (resolve cs)

/-- Whether a character may stand in the name of an element or an attribute. -/
def isNameChar (c : Char) : Bool := c.isAlphanum || c == ':' || c == '-' || c == '_' || c == '.'

/-- The name at the front of some characters, and what is behind it. -/
def readName (cs : List Char) : String × List Char :=
  (String.ofList (cs.takeWhile isNameChar), cs.dropWhile isNameChar)

/-- The attribute at the front of some characters, and what is behind it. -/
def readAttribute? : List Char → Option ((String × String) × List Char)
  | ' ' :: cs =>
    match readName cs with
    | (name, '=' :: '"' :: value) =>
      match value.dropWhile (· ≠ '"') with
      | '"' :: rest => some ((name, readText (value.takeWhile (· ≠ '"'))), rest)
      | _ => none
    | _ => none
  | _ => none

theorem length_lt_of_readAttribute? {cs rest : List Char} {entry : String × String}
    (h : readAttribute? cs = some (entry, rest)) : rest.length < cs.length := by
  revert h
  fun_cases readAttribute? cs
  case case1 cs name value hname rest' hvalue =>
    intro h
    cases h
    have hfront : (readName cs).2.length ≤ cs.length := (List.dropWhile_sublist isNameChar).length_le
    have hrest := (List.dropWhile_sublist (l := value) (· ≠ '"')).length_le
    rw [hname] at hfront
    rw [hvalue] at hrest
    simp only [List.length_cons] at hfront hrest ⊢
    omega
  all_goals simp

/-- The attributes at the front of some characters, and what is behind them. -/
def readAttributes (cs : List Char) : List (String × String) × List Char :=
  match h : readAttribute? cs with
  | some (entry, rest) =>
    have := length_lt_of_readAttribute? h
    let (attributes, behind) := readAttributes rest
    (entry :: attributes, behind)
  | none => ([], cs)
termination_by cs.length

theorem readAttributes_of_none {cs : List Char} (h : readAttribute? cs = none) : readAttributes cs = ([], cs) := by
  rw [readAttributes]
  split
  next h' => cases h.symm.trans h'
  next => rfl

theorem readAttributes_of_some {cs rest : List Char} {entry : String × String}
    (h : readAttribute? cs = some (entry, rest)) :
    readAttributes cs = (entry :: (readAttributes rest).1, (readAttributes rest).2) := by
  rw [readAttributes]
  split
  next h' =>
    cases h.symm.trans h'
    rfl
  next h' => cases h.symm.trans h'

/-- A tag. -/
inductive Tag
  | opening (name : String) (attributes : List (String × String))
  /-- The tag of an element without content. -/
  | lone (name : String) (attributes : List (String × String))
  | closing (name : String)

/-- The end of a tag with a name and attributes, and what is behind it. -/
def readTagEnd (name : String) (attributes : List (String × String)) : List Char → Option (Tag × List Char)
  | '>' :: rest => some (.opening name attributes, rest)
  | ' ' :: '/' :: '>' :: rest => some (.lone name attributes, rest)
  | _ => none

/-- The tag behind an opening bracket, and what is behind it. -/
def readTag : List Char → Option (Tag × List Char)
  | '/' :: cs =>
    match readName cs with
    | (name, '>' :: rest) => some (.closing name, rest)
    | _ => none
  | cs =>
    let (name, behind) := readName cs
    let (attributes, rest) := readAttributes behind
    readTagEnd name attributes rest

/-- An element of which the end has been read: its name, the text behind it, and the elements that follow it. -/
structure Enclosing where
  name : String
  tail : String
  next : List (Element × String)

/-- What has been read of a text from its end on. -/
structure Content where
  /-- The text at the front. -/
  text : String
  /-- The elements that follow it, each with the text behind it. -/
  children : List (Element × String)
  /-- The elements around them, from the inside out. -/
  outer : List Enclosing

/-- One more tag in front of what has been read. -/
def Content.add (content : Content) : Tag → Option Content
  | .lone name attributes =>
    some ⟨"", (.node name attributes "" [], content.text) :: content.children, content.outer⟩
  | .closing name => some ⟨"", [], ⟨name, content.text, content.children⟩ :: content.outer⟩
  | .opening name attributes =>
    match content.outer with
    | enclosing :: outer =>
      if enclosing.name = name then
        let element := Element.node name attributes content.text content.children
        some ⟨"", (element, enclosing.tail) :: enclosing.next, outer⟩
      else none
    | [] => none

/-- What is behind the first opening bracket of a text, cut at the others. -/
def readPieces : List (List Char) → Option Content
  | [] => some ⟨"", [], []⟩
  | piece :: pieces => do
    let (tag, text) ← readTag piece
    let content ← readPieces pieces
    { content with text := readText text }.add tag

/-- What a text holds. -/
def readContent (cs : List Char) : Option Content :=
  match Text.cutAt (· == '<') cs with
  | [] => none
  | front :: pieces => (readPieces pieces).map fun content => { content with text := readText front }

/-- The element that a text is. -/
def read (s : String) : Option Element :=
  match readContent s.toList with
  | some ⟨text, [(element, tail)], []⟩ => if text.isEmpty && tail.isEmpty then some element else none
  | _ => none

end Pinboard.Markup
