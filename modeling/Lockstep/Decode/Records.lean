import Lockstep.CompositionFile
import Lockstep.Decode.Basic
import Lockstep.Json.Reader
import Lockstep.Report
import Lockstep.Toml.Reader

/-!
# Reading the records of the library

One decoder per record, member by member in order of declaration, and the way from text through a
document to a record.
-/

namespace Lockstep.Decode

/-- A property by its name. -/
def property : Decoder Property := name Property.ofName?

def state : Decoder State := fun dialect depth d => do
  let m ← members ["name", "accepting", "metadata"] dialect depth d
  let name ← m.required 0 "name" (text dialect (depth + 1))
  let accepting ← m.withDefault 1 true (bool dialect (depth + 1))
  let metadata ← m.withDefault 2 .empty (map .ok annotation dialect (depth + 1))
  pure { name, accepting, metadata }

def transition : Decoder Transition := fun dialect depth d => do
  let m ← members ["from", "to", "action", "permitted", "guard"] dialect depth d
  let source ← m.required 0 "from" (text dialect (depth + 1))
  let target ← m.required 1 "to" (text dialect (depth + 1))
  let action ← m.required 2 "action" (text dialect (depth + 1))
  let permitted ← m.required 3 "permitted" (bool dialect (depth + 1))
  let guard ← m.withDefault 4 none (option text dialect (depth + 1))
  pure { source, target, action, permitted, guard }

def definition : Decoder Definition := fun dialect depth d => do
  let m ← members ["name", "initial_state", "states", "transitions"] dialect depth d
  let name ← m.required 0 "name" (text dialect (depth + 1))
  let initialState ← m.required 1 "initial_state" (text dialect (depth + 1))
  let states ← m.required 2 "states" (list state dialect (depth + 1))
  let transitions ← m.withDefault 3 [] (list transition dialect (depth + 1))
  pure { name, initialState, states, transitions }

def config : Decoder Config := fun dialect depth d => do
  let m ← members ["max_states"] dialect depth d
  let maxStates ← m.withDefault 0 Config.defaultMaxStates (nat dialect (depth + 1))
  pure { maxStates }

def compositionFile : Decoder CompositionFile := fun dialect depth d => do
  let m ← members ["verifier", "priority", "protocols"] dialect depth d
  let verifier ← m.withDefault 0 {} (config dialect (depth + 1))
  let priority ← m.withDefault 1 none (option (list text) dialect (depth + 1))
  let protocols ← m.required 2 "protocols" (list definition dialect (depth + 1))
  pure { verifier, priority, protocols }

def snapshot : Decoder Snapshot := fun dialect depth d => do
  let m ← members ["states", "actions"] dialect depth d
  let states ← m.required 0 "states" (map .ok text dialect (depth + 1))
  let actions ← m.required 1 "actions" (list text dialect (depth + 1))
  pure { states, actions }

def counterexample : Decoder Counterexample := fun dialect depth d => do
  let m ← members ["state", "action"] dialect depth d
  let state ← m.required 0 "state" (snapshot dialect (depth + 1))
  let action ← m.optional 1 "action" (option text dialect (depth + 1))
  pure { state, action }

def verdict : Decoder Verdict := fun dialect depth d => do
  let m ← members ["property", "holds", "states_checked", "bound_reached", "counterexample",
    "violating_protocol"] dialect depth d
  let property ← m.required 0 "property" (property dialect (depth + 1))
  let holds ← m.required 1 "holds" (bool dialect (depth + 1))
  let statesChecked ← m.required 2 "states_checked" (nat dialect (depth + 1))
  let boundReached ← m.required 3 "bound_reached" (bool dialect (depth + 1))
  let counterexample ← m.optional 4 "counterexample" (option counterexample dialect (depth + 1))
  let violatingProtocol ← m.optional 5 "violating_protocol" (option text dialect (depth + 1))
  pure { property, holds, statesChecked, boundReached, counterexample, violatingProtocol }

def propertySpec : Decoder PropertySpec := fun dialect depth d => do
  let m ← members ["kind", "name", "description", "priority_order"] dialect depth d
  let kind ← m.required 0 "kind" (property dialect (depth + 1))
  let name ← m.required 1 "name" (text dialect (depth + 1))
  let description ← m.required 2 "description" (text dialect (depth + 1))
  let priorityOrder ← m.withDefault 3 [] (list text dialect (depth + 1))
  pure { kind, name, description, priorityOrder }

/-- The property that a member is named after. -/
def propertyKey (s : String) : Except DecodeError Property :=
  match Property.ofName? s with
  | some p => .ok p
  | none => .error (.expected "a known name")

def report : Decoder Report := fun dialect depth d => do
  let m ← members ["protocols", "priority", "max_states", "state_space_size", "properties",
    "results"] dialect depth d
  let protocols ← m.required 0 "protocols" (list text dialect (depth + 1))
  let priority ← m.required 1 "priority" (list text dialect (depth + 1))
  let maxStates ← m.required 2 "max_states" (nat dialect (depth + 1))
  let stateSpaceSize ← m.required 3 "state_space_size" (nat dialect (depth + 1))
  let properties ← m.required 4 "properties" (list propertySpec dialect (depth + 1))
  let results ← m.required 5 "results" (map propertyKey verdict dialect (depth + 1))
  pure { protocols, priority, maxStates, stateSpaceSize, properties, results }

end Lockstep.Decode

namespace Lockstep

/-- The text formats that records can be read from. -/
inductive Format where
  | json
  | toml
  deriving Repr, DecidableEq

namespace Format

/-- The document of a text. -/
def read? : Format → String → Option Doc
  | json => Json.read?
  | toml => Toml.read?

def dialect : Format → Dialect
  | json => .json
  | toml => .toml

/-- Read a text as a record. -/
def decode {α : Type} (f : Format) (decoder : Decoder α) (s : String) : Except DecodeError α :=
  match f.read? s with
  | some d => decoder f.dialect 0 d
  | none => .error .malformed

end Format

end Lockstep
