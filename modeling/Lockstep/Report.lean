import Lockstep.Json.Printer
import Lockstep.Verifier

/-!
# Reports

Everything that a full verification found out about one composition, ready to be written down.
-/

namespace Lockstep

/-- The summary of a full verification. -/
structure Report where
  /-- The composed protocols, in order. -/
  protocols : List String
  /-- The priority list of the priority check. -/
  priority : List String
  /-- The bound of every check. -/
  maxStates : Nat
  /-- The size of the full product. -/
  stateSpaceSize : Nat
  /-- The catalogue entries of the checked properties. -/
  properties : List PropertySpec
  /-- The verdicts, in the order of the checks. -/
  results : OrderedMap Property Verdict
  deriving DecidableEq

namespace Report

/-- The report of a run over a composition. -/
def ofRun (c : Composition) (priority : List String) (maxStates : Nat)
    (results : OrderedMap Property Verdict) : Report where
  protocols := c.names
  priority
  maxStates
  stateSpaceSize := c.stateSpaceSize
  properties := results.keys.map fun p => .ofProperty p priority
  results

/-- Whether every property held. -/
def allHold (r : Report) : Bool := r.results.values.all Verdict.holds

/-- Whether no verdict was cut short. -/
def isComplete (r : Report) : Bool := r.results.values.all Verdict.isConclusive

/-- The verdicts of the properties that failed. -/
def violations (r : Report) : List Verdict := r.results.values.filter (!·.holds)

/-- The written form. -/
def toJson (r : Report) : Json :=
  .obj [("protocols", .texts r.protocols), ("priority", .texts r.priority),
    ("max_states", .nat r.maxStates), ("state_space_size", .nat r.stateSpaceSize),
    ("properties", .arr (r.properties.map PropertySpec.toJson)),
    ("results", .obj (r.results.entries.map fun (p, v) => (p.name, v.toJson)))]

/-- The text of the report. -/
def toJsonPretty (r : Report) : String := r.toJson.pretty

end Report

end Lockstep
