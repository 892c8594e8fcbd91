import Pinboard.Text.Quoted

/-!
# Options

An option has a name, may have a letter, and has an effect on the request that is being read. A flag
stands alone; a setting takes a value.
-/

namespace Pinboard.CommandLine

/-- What is wrong with the arguments of a command. -/
inductive UsageFault
  /-- An abbreviation that stands for several options. -/
  | ambiguous (argument : String) (candidates : List String)
  | missingValue (option : String)
  /-- A value for an option that takes none. -/
  | unwantedValue (option value : String)
  | invalidChoice (argument value : String) (choices : List String)
  | unrecognized (arguments : List String)
deriving DecidableEq, Repr

/-- Items in one list, with commas between them. -/
def commaList (items : List String) : String := ", ".intercalate items

/-- The words for a fault. -/
def UsageFault.message : UsageFault → String
  | .ambiguous argument candidates =>
    "ambiguous option: " ++ argument ++ " could match " ++ commaList candidates
  | .missingValue option => "argument " ++ option ++ ": expected one argument"
  | .unwantedValue option value =>
    "argument " ++ option ++ ": ignored explicit argument " ++ Text.quoted value
  | .invalidChoice argument value choices =>
    "argument " ++ argument ++ ": invalid choice: " ++ Text.quoted value
      ++ " (choose from " ++ commaList (choices.map Text.quoted) ++ ")"
  | .unrecognized arguments => "unrecognized arguments: " ++ " ".intercalate arguments

/-- Why the reading of arguments ends before their end. -/
inductive Interruption
  /-- Help was asked for, and is on the page. -/
  | help (page : String)
  | fault (f : UsageFault)
deriving DecidableEq, Repr

/-- Something read from arguments. -/
abbrev Reading (α : Type) := Except Interruption α

/-- A fault in the arguments. -/
def Reading.refuse {α : Type} (f : UsageFault) : Reading α := .error (.fault f)

/-- What an option does to a request. -/
inductive Effect (σ : Type)
  | flag (set : σ → Reading σ)
  | setting (set : String → σ → Reading σ)

/-- An option of a command that builds a request. -/
structure Switch (σ : Type) where
  letter : Option Char
  /-- The name without the dashes before it. -/
  name : String
  effect : Effect σ

namespace Switch

variable {σ : Type}

/-- The name as it stands in an argument. -/
def longForm (s : Switch σ) : String := "--" ++ s.name

/-- The letter, if there is one, and the name, as reports give them. -/
def title (s : Switch σ) : String :=
  match s.letter with
  | some c => String.ofList ['-', c, '/'] ++ s.longForm
  | none => s.longForm

/-- An option that stands alone and always succeeds. -/
def flag (name : String) (set : σ → σ) : Switch σ := ⟨none, name, .flag fun r => .ok (set r)⟩

/-- An option that takes any value. -/
def setting (letter : Option Char) (name : String) (set : String → σ → σ) : Switch σ :=
  ⟨letter, name, .setting fun value r => .ok (set value r)⟩

/-- The option that asks for a page of help. -/
def help (page : String) : Switch σ := ⟨some 'h', "help", .flag fun _ => .error (.help page)⟩

/-- A value out of a list of choices, or a fault of the argument that was to be one of them. -/
def choose {α : Type} (argument : String) (choices : List (String × α)) (value : String) : Reading α :=
  match choices.lookup value with
  | some a => .ok a
  | none => Reading.refuse (.invalidChoice argument value (choices.map Prod.fst))

end Switch
end Pinboard.CommandLine
