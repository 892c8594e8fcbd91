import Pinboard.Geometry

/-!
# Pins

A pin is a point with a name. The table keeps the pins in the order in which their names were first
set; setting a name again changes its point in place. `point?_set` says that setting a pin changes that
pin and no other.
-/

namespace Pinboard

/-- The pins of a chart. -/
structure PinTable where
  entries : List (String × Point)
deriving DecidableEq

namespace PinTable

def empty : PinTable := ⟨[]⟩

instance : Inhabited PinTable where
  default := empty

/-- The point of a pin. -/
def point? (t : PinTable) (name : String) : Option Point := t.entries.lookup name

def names (t : PinTable) : List String := t.entries.map Prod.fst

def points (t : PinTable) : List Point := t.entries.map Prod.snd

/-- The entries with one pin set. -/
def setEntry (name : String) (p : Point) : List (String × Point) → List (String × Point)
  | [] => [(name, p)]
  | entry :: rest => if name == entry.1 then (entry.1, p) :: rest else entry :: setEntry name p rest

/-- The table with one pin set. -/
def set (t : PinTable) (name : String) (p : Point) : PinTable := ⟨setEntry name p t.entries⟩

/-- The table with several pins set, one after the other. -/
def setAll (t : PinTable) (pins : List (String × Point)) : PinTable :=
  pins.foldl (fun t pin => t.set pin.1 pin.2) t

theorem lookup_setEntry (name other : String) (p : Point) (entries : List (String × Point)) :
    (setEntry name p entries).lookup other = if other = name then some p else entries.lookup other := by
  induction entries with
  | nil =>
    rcases Decidable.em (other = name) with h | h
    · simp [setEntry, h]
    · simp [setEntry, List.lookup_cons, beq_false_of_ne h, h]
  | cons entry rest ih =>
    obtain ⟨key, q⟩ := entry
    rcases Decidable.em (name = key) with hk | hk
    · subst hk
      rcases Decidable.em (other = name) with h | h
      · simp [setEntry, h]
      · simp [setEntry, List.lookup_cons, beq_false_of_ne h, h]
    · rcases Decidable.em (other = key) with h | h
      · subst h
        simp [setEntry, beq_false_of_ne hk, Ne.symm hk]
      · simp [setEntry, List.lookup_cons, beq_false_of_ne hk, beq_false_of_ne h, ih]

@[simp]
theorem point?_set (t : PinTable) (name other : String) (p : Point) :
    (t.set name p).point? other = if other = name then some p else t.point? other :=
  lookup_setEntry name other p t.entries

end PinTable
end Pinboard
