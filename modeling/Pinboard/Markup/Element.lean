/-!
# Markup elements

An element has a tag, attributes in the order in which they are written, text before its first child,
and children, each with the text that follows it. Text that is absent is the empty text.
-/

namespace Pinboard

/-- An element with all that is inside it. -/
inductive Element
  | node (tag : String) (attributes : List (String × String)) (text : String)
      (children : List (Element × String))
deriving BEq

namespace Element

instance : Inhabited Element where
  default := .node "" [] "" []

def tag : Element → String
  | .node t _ _ _ => t

def attributes : Element → List (String × String)
  | .node _ a _ _ => a

/-- The text before the first child. -/
def text : Element → String
  | .node _ _ t _ => t

/-- The children, each with the text that follows it. -/
def children : Element → List (Element × String)
  | .node _ _ _ c => c

/-- The value of an attribute. -/
def attribute? (e : Element) (name : String) : Option String := e.attributes.lookup name

/-- An element without content. -/
def leaf (tag : String) (attributes : List (String × String)) : Element := .node tag attributes "" []

/-- An element whose content is a list of elements. -/
def branch (tag : String) (attributes : List (String × String)) (children : List Element) : Element :=
  .node tag attributes "" (children.map fun child => (child, ""))

/-- An element whose content is a list of elements on lines of their own. -/
def onLines (tag : String) (attributes : List (String × String)) (text : String)
    (children : List Element) : Element :=
  .node tag attributes text (children.map fun child => (child, "\n"))

/-- The pieces of text between the children. -/
def pieces (e : Element) : List String := e.text :: e.children.map Prod.snd

end Element
end Pinboard
