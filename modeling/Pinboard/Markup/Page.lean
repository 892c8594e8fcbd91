import Pinboard.Markup.Printer

/-!
# A page around a drawing

The page is a fixed text with two places to fill: the title, in which the characters that delimit markup
or quotations are replaced by character references, and the drawing, which stands there as it is.
-/

namespace Pinboard.Page

/-- A character of a title. -/
def escapeTitle (c : Char) : List Char :=
  match c with
  | '"' => "&quot;".toList
  | '\'' => "&#x27;".toList
  | c => Markup.escapeText c

/-- The page up to its title. -/
def beforeTitle : String :=
  "<!DOCTYPE html>\n<html>\n<head>\n<meta charset=\"utf-8\">\n<title>"

/-- The page between its title and the drawing. -/
def betweenTitleAndDrawing : String :=
  "</title>\n<style>\n"
    ++ "body \x7b font-family: sans-serif; margin: 1em; background: #fff; \x7d\n"
    ++ "svg \x7b max-width: 100%; height: auto; \x7d\n"
    ++ "</style>\n</head>\n<body>\n"

/-- The page from the drawing on. -/
def afterDrawing : String := "\n</body>\n</html>\n"

/-- The page with a title and a drawing. -/
def wrap (title drawing : String) : String :=
  beforeTitle ++ String.ofList (title.toList.flatMap escapeTitle) ++ betweenTitleAndDrawing ++ drawing
    ++ afterDrawing

end Pinboard.Page
