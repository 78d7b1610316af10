import Lockstep.Command.Session

/-!
# Checking a composition file

Every property of the composition is checked and its verdict printed. A violation is a result, not a
failure.
-/

namespace Lockstep.Command

/-- The arguments of the command. -/
structure Verify where
  file : String
  /-- Overrides the bound of the file. -/
  maxStates : Option Nat := none
  /-- Where to write the report as well. -/
  json : Option String := none

namespace Verify

/-- The lines printed for a report. -/
def lines (r : Report) : List String :=
  let composition := String.intercalate " & " r.protocols
  [s!"Composition: {composition} ({r.stateSpaceSize} joint states, bound {r.maxStates})",
    "Priority:    " ++ String.intercalate " > " r.priority] ++
  (r.results.entries.flatMap fun (p, v) => verdictLines p.name v) ++
  (if r.isComplete then []
   else ["Some checks stopped at the state bound; raise --max-states for full coverage."])

/-- Run the command on the contents of its file. -/
def run (args : Verify) (contents : Except FileFault String) : Session (Finished Report) := do
  let file ← Session.load args.file contents
  let config : Config := { maxStates := args.maxStates.getD file.verifier.maxStates }
  let priority := file.effectivePriority
  let protocols ← Session.run file.build ["building protocols"]
  let verifier ← Session.run (.lift (Verifier.ofConfig config))
  let results ← Session.run (verifier.verifyAll protocols (some priority))
  let composition ← Session.run (.lift (compose protocols))
  let report := Report.ofRun composition priority verifier.maxStates results
  pure {
    lines := lines report
    saving := args.json.map fun path =>
      { path, contents := report.toJsonPretty, notice := s!"JSON report written to {path}" }
    result := report }

end Verify

end Lockstep.Command
