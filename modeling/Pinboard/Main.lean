import Pinboard.CommandLine.Run

/-!
# The program

The surroundings of a run on the real system, and the entry point. Nothing is decided here.
-/

namespace Pinboard.CommandLine

/-- The fault with a number, which some parts of the system count below zero. -/
def PathFault.ofNumber (number : UInt32) (words : String) : PathFault :=
  let number := if 0x80000000 ≤ number then (0 - number).toNat else number.toNat
  match [missing, notFolder, isFolder, tooLong].find? fun fault => fault.number == number with
  | some fault => fault
  | none => ⟨number, words⟩

/-- The fault of a path behind an error of the system. -/
def PathFault.ofError : IO.Error → PathFault
  | .noFileOrDirectory _ number words | .alreadyExists _ number words | .invalidArgument _ number words
  | .permissionDenied _ number words | .resourceExhausted _ number words
  | .inappropriateType _ number words | .noSuchThing _ number words | .interrupted _ number words
  | .otherError number words | .resourceBusy number words | .resourceVanished number words
  | .unsupportedOperation number words | .hardwareFault number words
  | .unsatisfiedConstraints number words | .illegalOperation number words
  | .protocolError number words | .timeExpired number words => .ofNumber number words
  | .unexpectedEof => ⟨5, "Input/output error"⟩
  | .userError words => ⟨5, words⟩

/-- All bytes that are left on a stream, behind those read so far. -/
partial def readAll (stream : IO.FS.Stream) (bytes : ByteArray) : IO ByteArray := do
  let more ← stream.read 65536
  if more.isEmpty then return bytes else readAll stream (bytes ++ more)

/-- The real system. -/
def systemHost (traceVariable : Option String) : Host IO where
  strays := .absent
  standardInput := do
    let stream ← IO.getStdin
    if ← stream.isTty then
      return none
    return some (Text.decode (← readAll stream .empty).toList)
  readFile p := do
    match ← EIO.toIO' (IO.FS.readBinFile p.text) with
    | .ok bytes => return .content bytes.toList
    | .error e =>
      let fault := PathFault.ofError e
      return if fault.meansAbsence then .absent else if fault = .tooLong then .unclear fault else .refused fault
  createFile p := do
    match ← EIO.toIO' (IO.FS.writeFile p.text "") with
    | .ok () => return none
    | .error e => return some (.ofError e)
  fillFile p text := do
    match ← EIO.toIO' (IO.FS.writeFile p.text text) with
    | .ok () => return none
    | .error e => return some (.ofError e)
  measurer := .byCharacter [] 10
  traceVariable := traceVariable

end Pinboard.CommandLine

/-- Run with the arguments of the process. -/
def main (arguments : List String) : IO UInt32 := do
  let host := Pinboard.CommandLine.systemHost (← IO.getEnv "DRAIG_DEBUG")
  let outcome ← Pinboard.CommandLine.run host arguments
  (← IO.getStdout).putStr outcome.output
  let errors ← IO.getStderr
  errors.putStr outcome.report
  if let some failure := outcome.trace then
    errors.putStrLn (toString (repr failure))
  return UInt32.ofNat outcome.exitStatus
