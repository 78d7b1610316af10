import Lockstep.Text.Quoted

/-!
# What can go wrong

Every failure of the library is a cause, not a text: the constructor says which rule was broken and
its arguments say where. The wording lives in `Error.message` alone.
-/

namespace Lockstep

/-- The end of a transition that an error is about. -/
inductive Endpoint where
  | source
  | target
  deriving Repr, DecidableEq

/-- The word for an endpoint in messages. -/
def Endpoint.word : Endpoint → String
  | .source => "from"
  | .target => "to"

/-- Why an operation was refused. -/
inductive Error where
  /-- The initial state is not among the declared ones. -/
  | undeclaredInitialState (protocol state : String) (declared : List String)
  /-- A transition starts or ends in a state that is not declared. -/
  | undeclaredTransitionState (protocol action : String) (endpoint : Endpoint) (state : String)
  /-- A state name is declared twice. -/
  | duplicateState (protocol state : String)
  /-- A state was asked for that the protocol does not declare. -/
  | unknownState (protocol state : String)
  /-- An operation needs at least one protocol. -/
  | emptyComposition (operation : String)
  /-- Two composed protocols share a name. -/
  | duplicateProtocol (protocol : String)
  /-- A priority list names protocols that are not composed. -/
  | unknownPriorityProtocol (unknown known : List String)
  /-- The full product is larger than the caller is prepared to hold. -/
  | stateSpaceTooLarge (size ceiling : Nat)
  /-- A configuration value is out of range. -/
  | invalidConfig (reason : String)
  /-- A definition could not be read. -/
  | definition (reason : String)
  /-- A value could not be converted to or from its written form. -/
  | serialization (reason : String)
  deriving Repr, DecidableEq

namespace Error

/-- The text shown to the user. -/
def message : Error → String
  | undeclaredInitialState protocol state declared =>
    s!"protocol '{protocol}': initial state '{state}' is not a declared state (declared: " ++
      Text.quoteList declared ++ ")"
  | undeclaredTransitionState protocol action endpoint state =>
    s!"protocol '{protocol}': transition on '{action}' references undeclared {endpoint.word} " ++
      s!"state '{state}'"
  | duplicateState protocol state =>
    s!"protocol '{protocol}': state '{state}' is declared more than once"
  | unknownState protocol state => s!"protocol '{protocol}': unknown state '{state}'"
  | emptyComposition operation => s!"{operation}: at least one protocol is required"
  | duplicateProtocol protocol =>
    s!"protocol name '{protocol}' appears more than once in the composition"
  | unknownPriorityProtocol unknown known =>
    "priority list contains unknown protocol names " ++ Text.quoteList unknown ++ " (known: " ++
      Text.quoteList known ++ ")"
  | stateSpaceTooLarge size ceiling =>
    s!"joint state space has {size} states, above the ceiling of {ceiling}"
  | invalidConfig reason => s!"Invalid configuration: {reason}"
  | definition reason => s!"Definition error: {reason}"
  | serialization reason => s!"Serialization error: {reason}"

/-- Whether the fault lies in how a protocol is declared. -/
def isStructural : Error → Bool
  | undeclaredInitialState .. | undeclaredTransitionState .. | duplicateState .. => true
  | _ => false

/-- Whether the fault lies in how the library is called. -/
def isUsage : Error → Bool
  | unknownState .. | emptyComposition .. | duplicateProtocol .. | unknownPriorityProtocol ..
  | stateSpaceTooLarge .. | invalidConfig .. => true
  | _ => false

/-- A definition that could not be read from its file, for the given reason. -/
def unreadable (reason : String) : Error :=
  definition s!"failed to read definition: {reason}"

end Error

end Lockstep
