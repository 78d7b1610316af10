import Lockstep.Protocol.Basic

/-!
# Building definitions step by step

A builder collects states and transitions in the order in which they are mentioned. The first state
is the initial one unless another is chosen.
-/

namespace Lockstep

/-- A definition that is being put together. -/
structure Builder where
  name : String
  states : List State := []
  transitions : List Transition := []
  /-- The chosen initial state. -/
  start : Option String := none

namespace Builder

/-- Declare a state in full. -/
def withState (b : Builder) (s : State) : Builder := { b with states := b.states ++ [s] }

/-- Declare a valid state. -/
def state (b : Builder) (name : String) : Builder := b.withState (.accept name)

/-- Declare valid states in order. -/
def withStates (b : Builder) (names : List String) : Builder := names.foldl state b

/-- Add a transition. -/
def transition (b : Builder) (t : Transition) : Builder :=
  { b with transitions := b.transitions ++ [t] }

/-- Add a transition that allows its action. -/
def permit (b : Builder) (source target action : String) : Builder :=
  b.transition (.permit source target action)

/-- Add a transition that denies its action. -/
def deny (b : Builder) (source target action : String) : Builder :=
  b.transition (.deny source target action)

/-- Choose the initial state. -/
def startAt (b : Builder) (state : String) : Builder := { b with start := some state }

/-- The definition so far. Without any state, the initial one has the empty name. -/
def toDefinition (b : Builder) : Definition where
  name := b.name
  initialState := b.start.getD ((b.states.head?.map State.name).getD "")
  states := b.states
  transitions := b.transitions

/-- Build the protocol. -/
def build (b : Builder) : Traced Error Protocol := b.toDefinition.build

end Builder

end Lockstep
