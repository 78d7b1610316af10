import Lockstep.Catalog
import Lockstep.Command.Session
import Lockstep.Dominance

/-!
# The governance scenarios

The protocols of the catalogue, put through every property: monotonic restriction on two and on three
protocols, deadlock freedom on the standard composition and on one with a sink, and priority ordering
under a ranking that puts security first, together with who dominates where.
-/

namespace Lockstep.Command

/-- The arguments of the command. -/
structure Scenarios where
  /-- The bound of every check. -/
  maxStates : Option Nat := none
  /-- Where to write the results as well. -/
  json : Option String := none

/-- Monotonic restriction on compositions of growing size. -/
structure MonotonicScenario where
  twoProtocol : Verdict
  threeProtocol : Verdict
  /-- What passes at the start of each composition. -/
  initialPermittedTwo : List String
  initialPermittedThree : List String
  /-- The protocol with the most permitting transitions, and their number. -/
  mostPermissive : Option String
  mostPermissiveCount : Nat

/-- Deadlock freedom without and with the sink. -/
structure DeadlockScenario where
  standard : Verdict
  broken : Verdict

/-- Priority ordering under a fixed ranking. -/
structure PriorityScenario where
  priorityOrder : List String
  result : Verdict
  dominance : Dominance

/-- The results of all scenarios. -/
structure Suite where
  maxStates : Nat
  monotonic : MonotonicScenario
  deadlock : DeadlockScenario
  priority : PriorityScenario

namespace Suite

/-- Every verdict under its label. -/
def labelled (s : Suite) : List (String × Verdict) :=
  [("monotonic_restriction (ATP + ASP)", s.monotonic.twoProtocol),
    ("monotonic_restriction (ATP + ASP + AEAP)", s.monotonic.threeProtocol),
    ("deadlock_freedom (standard)", s.deadlock.standard),
    ("deadlock_freedom (with BROKEN)", s.deadlock.broken),
    ("priority_ordering (ASP > ATP > AEAP)", s.priority.result)]

/-- The written form. -/
def toJson (s : Suite) : Json :=
  .obj [("max_states", .nat s.maxStates),
    ("monotonic", .obj [
      ("two_protocol", s.monotonic.twoProtocol.toJson),
      ("three_protocol", s.monotonic.threeProtocol.toJson),
      ("initial_permitted_two", .texts s.monotonic.initialPermittedTwo),
      ("initial_permitted_three", .texts s.monotonic.initialPermittedThree),
      ("most_permissive", .optText s.monotonic.mostPermissive),
      ("most_permissive_count", .nat s.monotonic.mostPermissiveCount)]),
    ("deadlock", .obj [
      ("standard", s.deadlock.standard.toJson),
      ("broken", s.deadlock.broken.toJson)]),
    ("priority", .obj [
      ("priority_order", .texts s.priority.priorityOrder),
      ("result", s.priority.result.toJson),
      ("dominance", s.priority.dominance.toJson)])]

end Suite

namespace Scenarios

/-- Security before trust before budget. -/
def securityFirst : List String := ["ASP", "ATP", "AEAP"]

/-- Monotonic restriction on two and on three protocols. -/
def runMonotonic (v : Verifier) (two three : List Protocol) : Traced Error MonotonicScenario := do
  let twoProtocol ← v.verifyMonotonic two
  let threeProtocol ← v.verifyMonotonic three
  let small ← compose two
  let large ← compose three
  let leader := mostPermissive three
  pure {
    twoProtocol
    threeProtocol
    initialPermittedTwo := small.initiallyPermitted
    initialPermittedThree := large.initiallyPermitted
    mostPermissive := leader.map Prod.fst
    mostPermissiveCount := (leader.map Prod.snd).getD 0 }

/-- Deadlock freedom without and with the sink. -/
def runDeadlock (v : Verifier) (three : List Protocol) : Traced Error DeadlockScenario := do
  let standard ← v.verifyDeadlock three
  let sinking ← buildAll [Catalog.atp, Catalog.broken]
  let broken ← v.verifyDeadlock sinking
  pure { standard, broken }

/-- Priority ordering with security first. Dominance is tallied over the full product, so a small
bound for the checks does not lower its ceiling. -/
def runPriority (v : Verifier) : Traced Error PriorityScenario := do
  let protocols ← buildAll Catalog.standard
  let c ← compose protocols
  let result ← v.verifyPriority protocols securityFirst
  let dominance ← c.dominance securityFirst (max v.maxStates Config.defaultMaxStates)
  pure { priorityOrder := securityFirst, result, dominance }

/-- Run every scenario. -/
def runSuite (v : Verifier) : Traced Error Suite := do
  let two ← buildAll [Catalog.atp, Catalog.asp]
  let three ← buildAll Catalog.standard
  let monotonic ← runMonotonic v two three
  Traced.emit (.initialPermissions monotonic.initialPermittedTwo.length
    monotonic.initialPermittedThree.length)
  let deadlock ← runDeadlock v three
  let priority ← runPriority v
  pure { maxStates := v.maxStates, monotonic, deadlock, priority }

/-- A share in percent, with one decimal. -/
def percent (share : Binary64) : String := (share.mul (.ofNat 100)).toFixed 1

/-- The lines printed for the scenarios. -/
def lines (s : Suite) : List String :=
  let two := s.monotonic.initialPermittedTwo.length
  let three := s.monotonic.initialPermittedThree.length
  let dominance := s.priority.dominance
  [s!"Governance scenarios (bound {s.maxStates})"] ++
  (s.labelled.flatMap fun (label, v) => verdictLines label v) ++
  [s!"Initial permissions: {two} actions for ATP + ASP, {three} for ATP + ASP + AEAP"] ++
  (match s.monotonic.mostPermissive with
    | some name =>
      [s!"Most permissive protocol: {name} ({s.monotonic.mostPermissiveCount} " ++
        "permitting transitions)"]
    | none => []) ++
  [s!"Denial dominance over {dominance.total} joint states:"] ++
  (dominance.counts.entries.map fun (name, n) =>
    s!"  {padRight 6 name} {padLeft 4 (toString n)} ({percent (dominance.share name)}%)") ++
  [s!"  none   {padLeft 4 (toString dominance.none)}"]

/-- Run the command. -/
def run (args : Scenarios) : Session (Finished Suite) := do
  let config : Config := { maxStates := args.maxStates.getD Config.defaultMaxStates }
  let verifier ← Session.run (.lift (Verifier.ofConfig config))
  let suite ← Session.run (runSuite verifier)
  pure {
    lines := lines suite
    saving := args.json.map fun path =>
      { path, contents := suite.toJson.pretty, notice := s!"JSON summary written to {path}" }
    result := suite }

end Scenarios

end Lockstep.Command
