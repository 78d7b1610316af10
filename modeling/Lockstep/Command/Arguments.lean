import Lockstep.Command.Enumerate
import Lockstep.Command.Scenarios
import Lockstep.Command.Verify

/-!
# The command line

A command line names a command, its file if it has one, and options in any place, as `--option value`
or `--option=value`. Nothing may be given twice, except that the flag for verbose logging may stand
once before and once after the name of the command. After `--` everything is a file name.
-/

namespace Lockstep

/-- A command with its arguments. -/
inductive Command where
  | verify (args : Command.Verify)
  | enumerate (args : Command.Enumerate)
  | scenarios (args : Command.Scenarios)

namespace Command

/-- A command and how much of its log to show. -/
structure Invocation where
  verbose : Bool
  command : Command

/-- A natural of 64 bits in decimal, perhaps with a plus sign. -/
def parseCount? (s : String) : Option Nat :=
  let digits := match s.toList with
    | '+' :: rest => rest
    | cs => cs
  if digits.isEmpty || !digits.all Char.isDigit then none
  else
    let n := Json.digitsValue digits
    if n < Nat.pow 2 64 then some n else none

/-- The name of a file may be anything but empty. -/
def parsePath? (s : String) : Option String := if s.isEmpty then none else some s

/-- What the arguments after a command's name say. -/
structure Given where
  verbose : Bool := false
  maxStates : Option Nat := none
  json : Option String := none
  file : Option String := none

/-- Which arguments a command has a use for. -/
structure Accepts where
  file : Bool
  json : Bool

namespace Given

/-- Give the bound. -/
def giveMaxStates (g : Given) (value : String) : Option Given :=
  match g.maxStates with
  | some _ => none
  | none => (parseCount? value).map fun n => { g with maxStates := some n }

/-- Give the place of the report. -/
def giveJson (accepts : Accepts) (g : Given) (value : String) : Option Given :=
  match accepts.json, g.json with
  | true, none => (parsePath? value).map fun path => { g with json := some path }
  | _, _ => none

/-- Give the input file. -/
def giveFile (accepts : Accepts) (g : Given) (value : String) : Option Given :=
  match accepts.file, g.file with
  | true, none => (parsePath? value).map fun path => { g with file := some path }
  | _, _ => none

/-- Ask for verbose logging. -/
def giveVerbose (g : Given) : Option Given := if g.verbose then none else some { g with verbose := true }

end Given

/-- Whether an argument is an option and cannot be the value of one. A single dash is a name. -/
def looksLikeOption (s : String) : Bool :=
  match s.toList with
  | '-' :: _ :: _ => true
  | _ => false

/-- The value of an option that is written with an equals sign. -/
def valueAfter? (option arg : String) : Option String :=
  let mark := option.toList ++ ['=']
  let cs := arg.toList
  if mark.isPrefixOf cs then some (String.ofList (cs.drop mark.length)) else none

/-- Read the arguments after a command's name. -/
def parseGiven (accepts : Accepts) : Given → List String → Option Given
  | g, [] => some g
  | g, "--" :: rest => rest.foldlM (Given.giveFile accepts) g
  | g, "-v" :: rest | g, "--verbose" :: rest => do
    let g ← g.giveVerbose
    parseGiven accepts g rest
  | g, "--max-states" :: value :: rest =>
    if looksLikeOption value then none
    else do
      let g ← g.giveMaxStates value
      parseGiven accepts g rest
  | g, "--json" :: value :: rest =>
    if looksLikeOption value then none
    else do
      let g ← g.giveJson accepts value
      parseGiven accepts g rest
  | g, arg :: rest => do
    let g ← match valueAfter? "--max-states" arg, valueAfter? "--json" arg with
      | some value, _ => g.giveMaxStates value
      | none, some value => g.giveJson accepts value
      | none, none => if looksLikeOption arg then none else g.giveFile accepts arg
    parseGiven accepts g rest

/-- The command with the given name and arguments. -/
def parseCommand (name : String) (rest : List String) : Option (Bool × Command) :=
  match name with
  | "verify" => do
    let g ← parseGiven ⟨true, true⟩ {} rest
    let file ← g.file
    pure (g.verbose, .verify { file, maxStates := g.maxStates, json := g.json })
  | "enumerate" => do
    let g ← parseGiven ⟨true, false⟩ {} rest
    let file ← g.file
    pure (g.verbose,
      .enumerate { file, maxStates := g.maxStates.getD Config.defaultMaxStates })
  | "scenarios" => do
    let g ← parseGiven ⟨false, true⟩ {} rest
    pure (g.verbose, .scenarios { maxStates := g.maxStates, json := g.json })
  | _ => none

/-- Read a command line; nothing if it is not one. -/
def parse (verbose : Bool) : List String → Option Invocation
  | "-v" :: rest | "--verbose" :: rest => if verbose then none else parse true rest
  | name :: rest =>
    (parseCommand name rest).map fun (v, command) => { verbose := verbose || v, command }
  | [] => none

/-- The file that a command reads. -/
def input? : Command → Option String
  | .verify args => some args.file
  | .enumerate args => some args.file
  | .scenarios _ => none

/-- Run any command, its result left aside. -/
def run (c : Command) (contents : Except FileFault String) : Session (Finished Unit) :=
  match c with
  | .verify args => do
    let f ← args.run contents
    pure { f with result := () }
  | .enumerate args => do
    let f ← args.run contents
    pure { f with result := () }
  | .scenarios args => do
    let f ← args.run
    pure { f with result := () }

end Command

end Lockstep
