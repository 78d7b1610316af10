import Lockstep.Command.Arguments

/-!
# The program

The thin layer that reads the input file, prints, and writes the report. A command line that is none
ends with status 2, a command that fails with status 1.
-/

namespace Lockstep

/-- The log line of an event. -/
def logLine (e : Event) : String :=
  let fields := e.fields.map fun (name, text) => s!" {name}={text}"
  e.level.word ++ " " ++ e.message ++ String.join fields

/-- The fault behind an error of the system. -/
def faultOf : IO.Error → FileFault
  | .noFileOrDirectory .. => .notFound
  | .inappropriateType .. => .isDirectory
  | e => .other (toString e)

/-- The text of a file. -/
def readInput (path : String) : IO (Except FileFault String) := do
  try
    let bytes ← IO.FS.readBinFile path
    return decodeText bytes
  catch e => return .error (faultOf e)

/-- Write a file, if there is one to write. -/
def writeOutput : Option Saving → IO (Option FileFault)
  | none => return none
  | some s => do
    try
      IO.FS.writeFile s.path s.contents
      return none
    catch e => return some (faultOf e)

/-- Tell the failure of a command. -/
def reportFailure (f : Failure) : IO UInt32 := do
  IO.eprintln ("Error: " ++ String.intercalate ": " f.chain)
  return 1

/-- Run a command line. -/
def runCommandLine (args : List String) : IO UInt32 := do
  match Command.parse false args with
  | none =>
    IO.eprintln "usage: [-v] verify FILE | enumerate FILE | scenarios"
    return 2
  | some invocation =>
    let contents ← match invocation.command.input? with
      | some path => readInput path
      | none => pure (.ok "")
    let session := invocation.command.run contents
    for e in session.log do
      if invocation.verbose || e.level != .debug then
        IO.eprintln (logLine e)
    match session.outcome with
    | .error f => reportFailure f
    | .ok finished =>
      IO.print (Finished.unlines finished.lines)
      let fault ← writeOutput finished.saving
      match finished.saving, (finished.conclude fault).2 with
      | some s, .ok _ =>
        IO.println s.notice
        return 0
      | none, .ok _ => return 0
      | _, .error f => reportFailure f

end Lockstep

/-- The program. -/
def main (args : List String) : IO UInt32 := Lockstep.runCommandLine args
