import Pinboard.Numeric.Shortest
import Pinboard.Text.Quoted

/-!
# Values of any kind

What a general ring may hold: nothing, truth values, integers, numbers, texts, lists and records.
`Value.text` writes a value with its texts quoted, `Value.plainText` leaves a text as it is, and
`Value.same` compares values: truth values count as the integers one and zero, and the order of the
fields of a record does not matter.
-/

namespace Pinboard

/-- A value of any kind. -/
inductive Value
  | nothing
  | truth (value : Bool)
  | integer (value : Int)
  | number (value : Binary64)
  | text (value : String)
  | list (items : List Value)
  | record (fields : List (String × Value))

namespace Value

instance : Inhabited Value where
  default := .nothing

mutual

/-- A value with its texts quoted. -/
def display : Value → String
  | .nothing => "None"
  | .truth true => "True"
  | .truth false => "False"
  | .integer n => integerText n
  | .number x => x.readableText
  | .text s => Text.quoted s
  | .list items => "[" ++ ", ".intercalate (displayItems items) ++ "]"
  | .record fields => "\x7b" ++ ", ".intercalate (displayFields fields) ++ "\x7d"

/-- The items of a list with their texts quoted. -/
def displayItems : List Value → List String
  | [] => []
  | item :: items => display item :: displayItems items

/-- The fields of a record with their texts quoted. -/
def displayFields : List (String × Value) → List String
  | [] => []
  | (name, value) :: fields => (Text.quoted name ++ ": " ++ display value) :: displayFields fields

end

/-- A value as text: a text is written as it is. -/
def plainText : Value → String
  | .text s => s
  | value => value.display

/-- A list of values in the form of a ring of them. -/
def displayRing (items : List Value) : String :=
  "RingDeque([" ++ ", ".intercalate (items.map display) ++ "])"

/-- A value as a number, if it is one. -/
def asInteger? : Value → Option Int
  | .truth b => some (if b then 1 else 0)
  | .integer n => some n
  | _ => none

/-- Whether a number is the given integer, exactly. -/
def isInteger (x : Binary64) (n : Int) : Bool :=
  match x with
  | .finite s a => Binary64.signed s a.units == n * unitsPerOne
  | _ => false

mutual

/-- Whether two values are equal. -/
def same : Value → Value → Bool
  | .nothing, .nothing => true
  | .text s, .text t => s == t
  | .number x, .number y => x.equal y
  | .list items, .list others => sameItems items others
  | .record fields, .record others => fields.length == others.length && sameFields fields others
  | a, .number y => (asInteger? a).any (isInteger y)
  | .number x, b => (asInteger? b).any (isInteger x)
  | a, b => (asInteger? a).isSome && asInteger? a == asInteger? b

/-- Whether two lists hold equal values in the same order. -/
def sameItems : List Value → List Value → Bool
  | [], [] => true
  | a :: items, b :: others => same a b && sameItems items others
  | _, _ => false

/-- Whether every field has an equal one of its name among the others. -/
def sameFields : List (String × Value) → List (String × Value) → Bool
  | [], _ => true
  | (name, a) :: fields, others =>
    (match others.lookup name with
      | some b => same a b
      | none => false) && sameFields fields others

end

end Value
end Pinboard
