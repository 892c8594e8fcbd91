import Pinboard.Chart.Board
import Pinboard.Chart.Command
import Pinboard.Text.Numeral

/-!
# What the words of a command mean

Numbers, column counts, sides, pins and groups of pins are looked up here, and points are checked before
they become pins. Each look-up fails with the complaint that names the command and the word.
-/

namespace Pinboard

/-- What a word means, unless it is at fault. -/
abbrev Meaning (α : Type) := Except Fault α

namespace Meaning

def complain {α : Type} (c : Complaint) : Meaning α := .error (.complaint c)

/-- The number that a word is. -/
def number (command what word : String) : Meaning Binary64 :=
  match Text.Numeral.read? word with
  | none => complain (.notNumeric command what word)
  | some numeral =>
    if numeral.value.isFinite then .ok numeral.value
    else complain (.numberOutOfRange command what word)

/-- The count of columns that a word is. -/
def columns (command word : String) : Meaning Nat :=
  match (Text.Numeral.read? word).filter Text.Numeral.isInteger with
  | none => complain (.columnsNotInteger command word)
  | some numeral =>
    match numeral.integer with
    | .error fault => .error (.breakdown (.arithmetic fault))
    | .ok n => if n < 0 then complain (.negativeColumns command n) else .ok n.toNat

/-- The side that a word in small letters is. -/
def sideOfWord? : String → Option Side
  | "left" | "l" => some .left
  | "right" | "r" => some .right
  | "top" | "t" => some .top
  | "bottom" | "b" => some .bottom
  | _ => none

/-- The side that a word is. -/
def side (command word : String) : Meaning Side :=
  match sideOfWord? (Text.lowercase word) with
  | some side => .ok side
  | none => complain (.notASide command word)

/-- The point of a pin. -/
def pin (pins : PinTable) (command name : String) : Meaning Point :=
  match pins.point? name with
  | some p => .ok p
  | none => complain (.undefinedPin command name)

/-- The pins of a group, each once, in the order in which they are first named. -/
def group (pins : PinTable) (command : String) (names : List String) : Meaning (List (String × Point)) :=
  names.eraseDups.mapM fun name => do return (name, ← pin pins command name)

/-- A point that may become a pin. -/
def finitePoint (command : String) (p : Point) : Meaning Point :=
  if p.isFinite then .ok p else complain (.pinOutOfRange command)

/-- The smallest rectangle around some points. -/
def extent : List Point → Meaning Bounds
  | [] => .error (.breakdown .emptyGroup)
  | p :: ps =>
    .ok
      { left := ps.foldl (fun x q => min x q.x) p.x
        top := ps.foldl (fun y q => min y q.y) p.y
        right := ps.foldl (fun x q => max x q.x) p.x
        bottom := ps.foldl (fun y q => max y q.y) p.y }

/-- The rectangle between two corner pins. Its width and height have to be numbers. -/
def corners (pins : PinTable) (command first second : String) : Meaning Bounds := do
  let a ← pin pins command first
  let b ← pin pins command second
  let bounds : Bounds := ⟨min a.x b.x, min a.y b.y, max a.x b.x, max a.y b.y⟩
  if (bounds.right - bounds.left).isFinite && (bounds.bottom - bounds.top).isFinite then
    return bounds
  else
    complain (.shapeTooLarge command)

end Meaning
end Pinboard
