import Pinboard.Markup.Page
import Pinboard.Text.Split

/-!
# Filling the places of a text

A place is a dollar sign with a name behind it, in braces or not, and two dollar signs stand for one. A text is cut
at its dollar signs, and what is between them is gone through once from the front: the value for a place is put
behind what has been gone through and is not looked at again. A dollar sign with no name behind it and a place that
has no value are refused.
-/

namespace Pinboard.Template

/-- Whether the name of a place may begin with a character. -/
def isNameStart (c : Char) : Bool := c.isAlpha || c == '_'

/-- Whether a character may stand in the name of a place. -/
def isNameChar (c : Char) : Bool := c.isAlphanum || c == '_'

/-- The name at the front of some characters, and what is behind it. -/
def readName? : List Char → Option (String × List Char)
  | [] => none
  | c :: cs =>
    if isNameStart c then some (String.ofList (c :: cs.takeWhile isNameChar), cs.dropWhile isNameChar) else none

/-- The name of the place at the front of the characters behind a dollar sign, and what is behind the place. -/
def readPlace? : List Char → Option (String × List Char)
  | '\x7b' :: cs =>
    match readName? cs with
    | some (name, '\x7d' :: behind) => some (name, behind)
    | _ => none
  | cs => readName? cs

/-- What stands behind the first dollar sign of a text, cut at the others, with its places filled. -/
def fillPieces (values : List (String × String)) : List (List Char) → Option (List Char)
  | [] => some []
  | [] :: literal :: pieces => do
    let rest ← fillPieces values pieces
    some ('$' :: literal ++ rest)
  | piece :: pieces => do
    let (name, behind) ← readPlace? piece
    let value ← values.lookup name
    let rest ← fillPieces values pieces
    some (value.toList ++ behind ++ rest)

/-- A text with its places filled. -/
def fill (values : List (String × String)) (text : String) : Option String :=
  match Text.cutAt (· == '$') text.toList with
  | [] => none
  | front :: pieces => (fillPieces values pieces).map fun rest => String.ofList (front ++ rest)

end Pinboard.Template

namespace Pinboard.Page

/-- The page with a place for the title and one for the drawing. -/
def template : String := beforeTitle ++ "$title" ++ betweenTitleAndDrawing ++ "$svg" ++ afterDrawing

end Pinboard.Page
