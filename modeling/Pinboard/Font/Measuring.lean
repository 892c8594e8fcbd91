import Pinboard.Fit.Wrapping
import Pinboard.Font.Book

/-!
# What is asked of a font book

A book is asked for the file of a family, for the font in a size, for the width of a text and for the height of a line.
What there is to find and to open may have changed since the last request.
-/

namespace Pinboard.Font

inductive Request
  | locate (family : String)
  | face (size : Binary64)
  | width (text : String) (size : Binary64)
  | lineHeight (size : Binary64)

inductive Answer
  | path (file : Option String)
  | face (face : Face)
  | width (width : Binary64)
  | height (height : Binary64)

/-- What comes of a request: the answer or a fault of its arithmetic, the files that were tried, and the book. -/
structure Reply where
  answer : Computed Answer
  tried : List String
  book : Book

/-- The reply to a request for which the font in a size is needed. -/
def Book.withFace (b : Book) (shelf : Shelf) (size : Binary64) (answer : Face → Computed Answer) : Reply :=
  match wholeSize size with
  | .error fault => ⟨.error fault, [], b⟩
  | .ok whole =>
    let (face, tried, b) := b.face shelf whole
    ⟨answer face, tried, b⟩

/-- The reply to a request; how wide a text is in a font is told by `widthOf`. -/
def Book.perform (widthOf : Face → String → Computed Binary64) (b : Book) (shelf : Shelf) : Request → Reply
  | .locate family =>
    let (file, b) := b.locate shelf.directories family
    ⟨.ok (.path file), [], b⟩
  | .face size => b.withFace shelf size fun face => .ok (.face face)
  | .width text size => b.withFace shelf size fun face => Answer.width <$> widthOf face text
  | .lineHeight size => ⟨.ok (.height (lineHeight size)), [], b⟩

end Pinboard.Font
