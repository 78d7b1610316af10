import Lockstep.Json.Basic
import Lockstep.OrderedMap

/-!
# Joint states by name

Inside a composition a joint state is a list of positions. Towards the user it is a snapshot: the
state of every protocol by name, and the actions that led there.
-/

namespace Lockstep

/-- How a path of actions is shown. -/
def showPath (actions : List String) : String :=
  if actions.isEmpty then "(initial state)" else String.intercalate " -> " actions

/-- A joint state by name, with the actions that reached it. -/
structure Snapshot where
  /-- The state of each protocol, in protocol order. -/
  states : OrderedMap String String
  /-- The actions taken from the joint initial state. -/
  actions : List String
  deriving DecidableEq

namespace Snapshot

/-- The state of the named protocol. -/
def stateOf? (s : Snapshot) (protocol : String) : Option String := s.states.get? protocol

/-- Whether no action was needed to get here. -/
def isInitial (s : Snapshot) : Bool := s.actions.isEmpty

/-- The path as text. -/
def path (s : Snapshot) : String := showPath s.actions

/-- The snapshot as text. -/
def render (s : Snapshot) : String :=
  let parts := s.states.entries.map fun (protocol, state) => s!"{protocol}={state}"
  "\x7b" ++ String.intercalate ", " parts ++ "\x7d via " ++ s.path

/-- The written form. -/
def toJson (s : Snapshot) : Json :=
  .obj [("states", .obj (s.states.entries.map fun (protocol, state) => (protocol, .str state))),
    ("actions", .texts s.actions)]

end Snapshot

/-- A joint state that disproves a property, and the action at fault if a single one is. -/
structure Counterexample where
  state : Snapshot
  action : Option String
  deriving DecidableEq

namespace Counterexample

/-- The counterexample as text. -/
def render (c : Counterexample) : String :=
  match c.action with
  | some action => s!"{c.state.render} on '{action}'"
  | none => c.state.render

/-- The written form. -/
def toJson (c : Counterexample) : Json :=
  .obj [("state", c.state.toJson), ("action", .optText c.action)]

end Counterexample

end Lockstep
