import ModulePack.Command.Run
import ModulePack.Disk.Image
import ModulePack.Json.Reader
import ModulePack.Json.Writer

/-!
# The program

Reads the image of a file system from standard input, runs the command in the directory `/`, and
prints the image as it is afterwards. Log lines and messages go to standard error.
-/

namespace ModulePack.Command

/-- What is shown where the arguments give nothing to run. -/
def usage : Text :=
  "usage: umdpack [-v] [-c FILE] build [-p PACKAGE] [-s SOURCE] [-o OUTPUT] [-n NAME]\n".toList

def readAll (input : IO.FS.Stream) : IO Text := do
  let mut text := ""
  repeat
    let line ← input.getLine
    if line.isEmpty then break
    text := text ++ line
  return text.toList

def elapsedText (milliseconds : Nat) : Text :=
  Duration.text ⟨milliseconds / 1000, milliseconds % 1000 * 1000000⟩

def runCommand (invocation : Invocation) : IO UInt32 := do
  let text ← readAll (← IO.getStdin)
  match Json.parse? text >>= Disk.ofImage? with
  | none =>
    IO.eprintln "standard input holds no image of a file system"
    return 2
  | some disk =>
    let started ← IO.monoMsNow
    let outcome := run invocation ['/'] disk
    for line in outcome.log do
      if invocation.verbose || line.level != .debug then
        IO.eprintln (String.ofList line.render)
    let elapsed := elapsedText ((← IO.monoMsNow) - started)
    IO.eprint (String.ofList (outcome.messages elapsed))
    IO.println (String.ofList outcome.disk.image.compact)
    match outcome.result with
    | .ok _ => return 0
    | .error (stage, failure) =>
      IO.eprintln (String.ofList (stage.text ++ ": ".toList ++ failure.message))
      return 1

def start (arguments : List Text) : IO UInt32 := do
  match parse arguments with
  | .ok invocation => runCommand invocation
  | .error stop =>
    IO.eprint (String.ofList usage)
    return UInt32.ofNat stop.exitCode

end ModulePack.Command

def main (arguments : List String) : IO UInt32 :=
  ModulePack.Command.start (arguments.map String.toList)
