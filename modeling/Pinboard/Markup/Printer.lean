import Pinboard.Markup.Element

/-!
# Writing markup

The characters that delimit markup are replaced by character references: three of them in text, and in
an attribute value also the quotation mark and the characters that end or align a line. An element
without content is closed in its start tag.
-/

namespace Pinboard.Markup

/-- A character of text. -/
def escapeText (c : Char) : List Char :=
  match c with
  | '&' => "&amp;".toList
  | '<' => "&lt;".toList
  | '>' => "&gt;".toList
  | c => [c]

/-- A character of an attribute value. -/
def escapeValue (c : Char) : List Char :=
  match c with
  | '"' => "&quot;".toList
  | '\r' => "&#13;".toList
  | '\n' => "&#10;".toList
  | '\t' => "&#09;".toList
  | c => escapeText c

/-- The characters of a text. -/
def writeText (s : String) : List Char := s.toList.flatMap escapeText

/-- The characters of an attribute, with the space before it. -/
def writeAttribute : String × String → List Char
  | (name, value) => ' ' :: name.toList ++ '=' :: '"' :: value.toList.flatMap escapeValue ++ ['"']

mutual

/-- The characters of an element. -/
def writeElement : Element → List Char
  | .node tag attributes text children =>
    let opening := '<' :: tag.toList ++ attributes.flatMap writeAttribute
    if text.isEmpty && children.isEmpty then
      opening ++ [' ', '/', '>']
    else
      opening ++ '>' :: writeText text ++ writeChildren children
        ++ '<' :: '/' :: tag.toList ++ ['>']

/-- The characters of the children of an element and of the text after each. -/
def writeChildren : List (Element × String) → List Char
  | [] => []
  | (child, tail) :: rest => writeElement child ++ writeText tail ++ writeChildren rest

end

/-- An element as text. -/
def print (e : Element) : String := String.ofList (writeElement e)

end Pinboard.Markup
