import Lockstep.Decode.Records

/-!
# Running a command

A command is a pure function from its arguments and the contents of its input file to what it prints,
what it wants written to a file, and its result. Everything that can fail before a command prints does
so before it prints; only writing the file comes after, so a session ends in two steps: the command
says what it wants (`Finished`), and `Finished.conclude` adds what came of it.
-/

namespace Lockstep

/-- Why a file could not be read or written. -/
inductive FileFault where
  | notFound
  | isDirectory
  /-- The bytes of the file are no text. -/
  | notText
  /-- Any other reason, in the words of the system. -/
  | other (reason : String)
  deriving Repr, DecidableEq

namespace FileFault

def message : FileFault → String
  | notFound => "No such file or directory (os error 2)"
  | isDirectory => "Is a directory (os error 21)"
  | notText => "stream did not contain valid UTF-8"
  | other reason => reason

end FileFault

/-- The text of a file's bytes. -/
def decodeText (bytes : ByteArray) : Except FileFault String :=
  match String.fromUTF8? bytes with
  | some s => .ok s
  | none => .error .notText

/-- What ended a command. -/
inductive Cause where
  /-- An operation of the library was refused. -/
  | refused (e : Error)
  /-- The input file could not be read. -/
  | unreadable (fault : FileFault)
  /-- The input file is not what it should be. -/
  | malformed (path : String) (e : DecodeError)
  /-- A file could not be written. -/
  | unwritable (fault : FileFault)
  deriving Repr, DecidableEq

namespace Cause

/-- The error of the library that a cause amounts to, if it is one. -/
def error? : Cause → Option Error
  | refused e => some e
  | unreadable fault => some (.unreadable fault.message)
  | malformed path e => some (.definition s!"{path}: {(Error.definition e.message).message}")
  | unwritable _ => none

def message (c : Cause) : String :=
  match c with
  | unwritable fault => fault.message
  | c => (c.error?.map Error.message).getD ""

end Cause

/-- A cause and what the command was doing, outermost first. -/
structure Failure where
  context : List String := []
  cause : Cause
  deriving Repr, DecidableEq

/-- The failure as it is told: what the command was doing, then why it failed. -/
def Failure.chain (f : Failure) : List String := f.context ++ [f.cause.message]

/-- A step of a command, with its log. -/
abbrev Session (α : Type) := Traced Failure α

namespace Session

variable {α : Type}

/-- A step of the library, perhaps with a note on what it is for. -/
def run (x : Traced Error α) (context : List String := []) : Session α :=
  x.mapError fun e => { context, cause := .refused e }

/-- Read the composition file of a command. -/
def load (path : String) (contents : Except FileFault String) : Session CompositionFile :=
  let context := [s!"loading composition {path}"]
  match contents with
  | .error fault => .fail { context, cause := .unreadable fault }
  | .ok text =>
    match Format.toml.decode Decode.compositionFile text with
    | .error e => .fail { context, cause := .malformed path e }
    | .ok file => pure file

end Session

/-- A file to be written once a command has printed. -/
structure Saving where
  path : String
  contents : String
  /-- What is printed when the file is there. -/
  notice : String

/-- A command that has printed. -/
structure Finished (α : Type) where
  /-- The printed lines. -/
  lines : List String
  saving : Option Saving := none
  result : α

namespace Finished

variable {α : Type}

/-- Lines of text, each with its end. -/
def unlines (lines : List String) : String := String.join (lines.map (· ++ "\n"))

/-- What was printed in the end and what the command came to, given what came of writing the file. -/
def conclude (f : Finished α) (fault : Option FileFault) : String × Except Failure α :=
  match f.saving, fault with
  | none, _ => (unlines f.lines, .ok f.result)
  | some s, none => (unlines (f.lines ++ [s.notice]), .ok f.result)
  | some s, some fault =>
    (unlines f.lines, .error { context := [s!"writing {s.path}"], cause := .unwritable fault })

end Finished

/-- A text filled up with blanks on the right. -/
def padRight (width : Nat) (s : String) : String :=
  s ++ String.ofList (List.replicate (width - s.length) ' ')

/-- A text filled up with blanks on the left. -/
def padLeft (width : Nat) (s : String) : String :=
  String.ofList (List.replicate (width - s.length) ' ') ++ s

/-- The lines for one verdict: a table row, and below it the violation if there is one. -/
def verdictLines (label : String) (v : Verdict) : List String :=
  let word := if v.holds then (if v.boundReached then "BOUNDED" else "HOLDS") else "VIOLATED"
  let row := s!"  {padRight 9 word} {padRight 40 label} {v.statesChecked} states checked"
  let indent := "            "
  match v.counterexample with
  | some cx => [row, indent ++ v.summary, indent ++ "at " ++ cx.render]
  | none => [row]

end Lockstep
