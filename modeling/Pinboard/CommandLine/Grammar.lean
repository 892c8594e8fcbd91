import Pinboard.CommandLine.Token

/-!
# Reading the arguments of a command

A grammar says which options and operands a command takes. Its reader carries out the effects of the
arguments in their order on a request, and hands back the arguments that it has no use for.
-/

namespace Pinboard.CommandLine

/-- What a command takes besides options. -/
inductive Operands (σ : Type)
  | none
  /-- One operand, which may be left out. -/
  | one (set : String → σ → σ)
  /-- The name of another command, and all arguments behind it. It hands back those that it has no
  use for. -/
  | command (set : String → List String → σ → Reading (σ × List String))

/-- What a command takes. -/
structure Grammar (σ : Type) where
  switches : List (Switch σ)
  operands : Operands σ

/-- What one argument with options asks for. -/
structure Bundle (σ : Type) where
  effects : List (σ → Reading σ)
  /-- An option that takes the next argument as its value. -/
  awaiting : Option (Switch σ × (String → σ → Reading σ))
  /-- Letters that are no options. -/
  leftover : List String

namespace Bundle

variable {σ : Type}

/-- An option with a value behind an equals sign. -/
def ofMarked (s : Switch σ) (value : List Char) : Reading (Bundle σ) :=
  let value := String.ofList value
  match s.effect with
  | .setting set => .ok ⟨[set value], none, []⟩
  | .flag _ => Reading.refuse (.unwantedValue s.title value)

/-- An option with characters directly behind its letter: the value of a setting, or the letters of further
options behind a flag. -/
def ofDirect (switches : List (Switch σ)) (s : Switch σ) : List Char → Reading (Bundle σ)
  | [] =>
    match s.effect with
    | .setting set => .ok ⟨[], some (s, set), []⟩
    | .flag set => .ok ⟨[set], none, []⟩
  | c :: rest =>
    match s.effect with
    | .setting set => .ok ⟨[set (String.ofList (c :: rest))], none, []⟩
    | .flag set =>
      if c = '-' then
        Reading.refuse (.unwantedValue s.title (String.ofList (c :: rest)))
      else
        match Token.ofLetter? switches c with
        | none => .ok ⟨[set], none, [String.ofList ('-' :: c :: rest)]⟩
        | some next => do
          let bundle ← match rest with
            | '=' :: value => ofMarked next value
            | rest => ofDirect switches next rest
          return { bundle with effects := set :: bundle.effects }

/-- An option with what is attached to it. -/
def ofAttachment (switches : List (Switch σ)) (s : Switch σ) : Attachment → Reading (Bundle σ)
  | .marked value => ofMarked s value
  | .direct text => ofDirect switches s text

/-- Carry out the effects. -/
def apply (bundle : Bundle σ) (request : σ) : Reading σ :=
  bundle.effects.foldlM (fun r effect => effect r) request

end Bundle

namespace Grammar

variable {σ : Type}

/-- Put arguments without use in front of those that follow. -/
def keep (leftover : List String) : Reading (σ × List String) → Reading (σ × List String)
  | .ok (request, rest) => .ok (request, leftover ++ rest)
  | .error e => .error e

/-- Carry out arguments on a request. -/
def readTokens (switches : List (Switch σ)) :
    Operands σ → σ → List (Token σ) → Reading (σ × List String)
  | _, request, [] => .ok (request, [])
  | operands, request, .unknown text :: rest => keep [text] (readTokens switches operands request rest)
  | operands, request, .option _ s attachment :: rest => do
    let bundle ← Bundle.ofAttachment switches s attachment
    match bundle.awaiting with
    | none =>
      let request ← bundle.apply request
      keep bundle.leftover (readTokens switches operands request rest)
    | some (awaiting, set) =>
      match rest with
      | .operand value :: rest =>
        let request ← set value (← bundle.apply request)
        keep bundle.leftover (readTokens switches operands request rest)
      | _ => Reading.refuse (.missingValue awaiting.title)
  | .none, request, .operand text :: rest => keep [text] (readTokens switches .none request rest)
  | .none, request, .dashes :: rest => keep ["--"] (readTokens switches .none request rest)
  | .one set, request, .operand text :: .dashes :: rest =>
    readTokens switches .none (set text request) rest
  | .one set, request, .operand text :: rest => readTokens switches .none (set text request) rest
  | .one set, request, .dashes :: rest => readTokens switches (.one set) request rest
  | .command set, request, .operand text :: rest => set text (rest.map Token.text) request
  | .command _, request, [.dashes] => .ok (request, ["--"])
  | .command set, request, .dashes :: rest => set "--" (rest.map Token.text) request

/-- Carry out the arguments of a command on a request, and hand back those without use. -/
def read (g : Grammar σ) (request : σ) (arguments : List String) : Reading (σ × List String) := do
  readTokens g.switches g.operands request (← Token.ofArguments g.switches arguments)

end Grammar
end Pinboard.CommandLine
