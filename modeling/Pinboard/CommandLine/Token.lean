import Pinboard.CommandLine.Switch
import Pinboard.Text.Numeral

/-!
# The kinds of arguments

An argument is an option if it begins with a dash, an operand otherwise. The name of an option may be
abbreviated as long as it stands for one option only. The value of an option may stand in the same
argument: behind an equals sign, or directly behind a letter. Behind two dashes alone there are only
operands. A negative number that is no option is an operand, and so is an unknown option with a space
in it.
-/

namespace Pinboard.CommandLine

/-- What stands in one argument behind the name or letter of an option. -/
inductive Attachment
  /-- Characters directly behind a letter; none if the option stands alone. -/
  | direct (text : List Char)
  /-- What is behind an equals sign. -/
  | marked (text : List Char)
deriving DecidableEq, Repr

/-- An argument and its kind. -/
inductive Token (σ : Type)
  | operand (text : String)
  | option (text : String) (s : Switch σ) (attachment : Attachment)
  /-- An option that the command does not have. -/
  | unknown (text : String)
  /-- The two dashes that end the options. -/
  | dashes

namespace Token

variable {σ : Type}

/-- The argument itself. -/
def text : Token σ → String
  | .operand text | .option text _ _ | .unknown text => text
  | .dashes => "--"

/-- Whether characters are decimal digits, possibly none. -/
def allDigits (cs : List Char) : Bool := (Text.takeDigits cs).2.isEmpty

/-- Whether what is behind a dash makes a negative number: digits, or a point with digits behind it. -/
def isNumber (cs : List Char) : Bool :=
  let cs := Text.dropLineFeed cs
  match Text.takeDigits cs with
  | (_ :: _, []) => true
  | (_, '.' :: fraction) => !fraction.isEmpty && allDigits fraction
  | _ => false

/-- An argument that begins with a dash and is no option of the command; the rest of it is given. -/
def ofOther (argument : String) (rest : List Char) : Token σ :=
  if isNumber rest || rest.contains ' ' then .operand argument else .unknown argument

/-- What is before the first equals sign, and what is behind it if there is one. -/
def cutMark (cs : List Char) : List Char × Option (List Char) :=
  match cs.dropWhile (· ≠ '=') with
  | _ :: value => (cs.takeWhile (· ≠ '='), some value)
  | [] => (cs, none)

/-- The attachment with the given text behind an equals sign, if any. -/
def attachment : Option (List Char) → Attachment
  | some value => .marked value
  | none => .direct []

/-- An argument that begins with two dashes; what is behind them is given. -/
def ofName (switches : List (Switch σ)) (argument : String) (rest : List Char) : Reading (Token σ) :=
  let (name, value) := cutMark rest
  match switches.find? fun s => s.name.toList == name with
  | some s => .ok (.option argument s (attachment value))
  | none =>
    match switches.filter fun s => name.isPrefixOf s.name.toList with
    | [] => .ok (ofOther argument ('-' :: rest))
    | [s] => .ok (.option argument s (attachment value))
    | several => Reading.refuse (.ambiguous argument (several.map Switch.longForm))

/-- The option with a letter. -/
def ofLetter? (switches : List (Switch σ)) (c : Char) : Option (Switch σ) :=
  switches.find? fun s => s.letter == some c

/-- What stands behind a letter. -/
def behindLetter : List Char → Attachment
  | '=' :: value => .marked value
  | text => .direct text

/-- The kind of an argument that is not behind two dashes alone. -/
def ofArgument (switches : List (Switch σ)) (argument : String) : Reading (Token σ) :=
  match argument.toList with
  | '-' :: '-' :: rest => ofName switches argument rest
  | '-' :: c :: rest =>
    match ofLetter? switches c with
    | some s => .ok (.option argument s (behindLetter rest))
    | none => .ok (ofOther argument (c :: rest))
  | _ => .ok (.operand argument)

/-- The kinds of all arguments. -/
def ofArguments (switches : List (Switch σ)) : List String → Reading (List (Token σ))
  | [] => .ok []
  | argument :: arguments =>
    if argument = "--" then
      .ok (.dashes :: arguments.map .operand)
    else do
      let token ← ofArgument switches argument
      return token :: (← ofArguments switches arguments)

end Token
end Pinboard.CommandLine
