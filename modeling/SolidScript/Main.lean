import SolidScript.CommandLine.Run

/-!
# The program

Gives the command its files, its input and its variables, and prints what it answers.
-/

namespace SolidScript

/-- A failed look-up of a path tells its reason with a negative code, a failed read with a positive one. -/
def hasReason (reason code : UInt32) : Bool := code = reason || code = 0 - reason

def fileError : IO.Error → FileError
  | .noFileOrDirectory .. => .absent
  | .inappropriateType _ code details =>
    if hasReason 20 code then .notDirectory else if hasReason 21 code then .directory else .unreadable details
  | .invalidArgument _ code details => if hasReason 36 code then .nameTooLong else .unreadable details
  | e => .unreadable (toString e)

def attempt (read : IO ByteArray) : IO (Except FileError String) := do
  match ← read.toBaseIO with
  | .ok bytes => return (String.fromUTF8? bytes).elim (.error .notText) .ok
  | .error e => return .error (fileError e)

def surroundings : Surroundings IO where
  fileText path := attempt (IO.FS.readBinFile path)
  inputText := attempt (do (← IO.getStdin).readBinToEnd)
  getVariable name := IO.getEnv name

end SolidScript

open SolidScript in
def main (arguments : List String) : IO UInt32 := do
  let start ← IO.monoMsNow
  let outcome ← CommandLine.run surroundings arguments
  for line in outcome.output do
    IO.println line
  if outcome.timed then
    let time := (← IO.monoMsNow) - start
    IO.println s!"Time: {time}ms"
  for line in outcome.errors do
    IO.eprintln line
  return UInt32.ofNat outcome.code
