import Lockstep.Lookup
import Lockstep.Protocol.Decision
import Lockstep.Protocol.Table

/-!
# Protocols

A protocol is a well-formed definition with the places of its states, its transition table and a cursor.
Being well formed is part of the type: the map of places exists only if state names are distinct, the
initial state is in it, and the table is the one that wiring the definition gives, which exists only if
every transition starts and ends in a declared state. `Definition.build` is the way from a definition to a
protocol; it reports the first defect in a fixed precedence, first repeated states, then the initial state,
then the transitions in order.

Decisions come in two flavours. `decide` answers at the cursor; `decideAt` answers at any state and
moves nothing, which is what composition is built on. What a decision looks up is written for any monad of
look-ups (`decideAtM`), and `decideAt` is how it is read in `Id`.
-/

namespace Lockstep

/-- A protocol: a well-formed definition, the places of its states, its transition table and a cursor. -/
structure Protocol where
  definition : Definition
  /-- Where each state is declared. -/
  places : Places
  /-- The map is that of the definition, so no state is declared twice. -/
  placed : definition.places = .ok places
  /-- The place of the initial state. -/
  initialId : Fin definition.states.length
  /-- It is where the definition says. -/
  initial_placed : places.get? definition.initialState = some initialId.val
  /-- Which transition decides which action where. -/
  table : Table
  /-- It is the table of the definition. -/
  wired : (definition.wire places).outcome = .ok table
  /-- The state under the cursor. -/
  position : Fin definition.states.length

/-- Build a protocol, its cursor at the initial state. -/
def Definition.build (d : Definition) : Traced Error Protocol :=
  match hp : d.places with
  | .error e => .fail e
  | .ok places =>
    match hi : places.get? d.initialState with
    | none => .fail (.undeclaredInitialState d.name d.initialState d.stateNames)
    | some i =>
      match hw : d.wire places with
      | ⟨log, .error e⟩ => ⟨log, .error e⟩
      | ⟨log, .ok table⟩ =>
        let start : Fin d.states.length := ⟨i, Definition.lt_of_places hp hi⟩
        ⟨log ++ [.constructed d.name d.states.length d.transitions.length],
          .ok {
            definition := d
            places
            placed := hp
            initialId := start
            initial_placed := hi
            table
            wired := by rw [hw]
            position := start }⟩

namespace Protocol

variable {m : Type → Type} [Monad m] [Lookup m]

/-! ## The declaration -/

def name (p : Protocol) : String := p.definition.name

def states (p : Protocol) : List State := p.definition.states

def transitions (p : Protocol) : List Transition := p.definition.transitions

def stateCount (p : Protocol) : Nat := p.states.length

def stateNames (p : Protocol) : List String := p.definition.stateNames

/-- The place of a declared state. -/
def stateId? (p : Protocol) (state : String) : Option Nat := p.places.get? state

/-- The name of the state at a place. -/
def stateName? (p : Protocol) (id : Nat) : Option String := (p.states[id]?).map State.name

/-- Look up the name of the state at a place. The stand-in is the empty name. -/
def stateNameM (p : Protocol) (id : Nat) : m String := found (p.stateName? id) ""

def stateName (p : Protocol) (id : Nat) : String := Id.run (p.stateNameM id)

theorem stateName_eq (p : Protocol) (id : Nat) : p.stateName id = (p.stateName? id).getD "" := rfl

/-- The state the protocol starts in. -/
def initialState (p : Protocol) : String := p.stateName p.initialId

/-- The state under the cursor. -/
def currentState (p : Protocol) : String := p.stateName p.position

/-- The place of a declared state, or the error that it is not declared. -/
def requireState (p : Protocol) (state : String) : Except Error Nat :=
  match p.stateId? state with
  | some id => .ok id
  | none => .error (.unknownState p.name state)

/-- The definition that a protocol was built from, wherever its cursor is. -/
def toDefinition (p : Protocol) : Definition where
  name := p.name
  initialState := p.initialState
  states := p.states
  transitions := p.transitions

/-- The protocol as text. -/
def render (p : Protocol) : String :=
  s!"{p.name} [" ++ String.intercalate ", " p.stateNames ++ s!"] @ {p.currentState}"

/-! ## Decisions -/

/-- Look up the transition that decides an action in a state, if any does: the slot of the state, and the
transition that the slot points to. -/
def transitionForM (p : Protocol) (id : Nat) (action : String) : m (Option Transition) := do
  let slot ← found p.table[id]? []
  match slot.find? action with
  | some i => found ((p.transitions[i]?).map some) none
  | none => pure none

def transitionFor? (p : Protocol) (id : Nat) (action : String) : Option Transition :=
  Id.run (p.transitionForM id action)

/-- Look up the place a transition leads to. Every transition ends in a declared state, so the stand-in, the
place `0`, is never made up. -/
def targetIdM (p : Protocol) (t : Transition) : m Nat := found (p.stateId? t.target) 0

def targetId (p : Protocol) (t : Transition) : Nat := Id.run (p.targetIdM t)

/-- The decision of a declared transition that leads to the place `next`. -/
def decisionOf (p : Protocol) (t : Transition) (next : Nat) : Decision where
  permitted := t.permitted
  nextState := t.target
  nextStateId := next
  protocol := p.name
  reason := if t.permitted then none else some (.explicitDeny t.guard)

/-- The denial of what no transition is declared for. The protocol stays where it is. -/
def silentDenial (p : Protocol) (id : Nat) (state : String) : Decision where
  permitted := false
  nextState := state
  nextStateId := id
  protocol := p.name
  reason := some .noMatchingTransition

/-- What the protocol says to an action in a state. -/
def decideAtM (p : Protocol) (id : Nat) (action : String) : m Decision := do
  match ← p.transitionForM id action with
  | some t => return p.decisionOf t (← p.targetIdM t)
  | none => return p.silentDenial id (← p.stateNameM id)

def decideAt (p : Protocol) (id : Nat) (action : String) : Decision := Id.run (p.decideAtM id action)

theorem transitionFor?_eq (p : Protocol) (id : Nat) (action : String) :
    p.transitionFor? id action = (p.table.find? id action).bind (p.transitions[·]?) := by
  have hrun : p.transitionFor? id action =
      match ((p.table[id]?).getD []).find? action with
      | some i => ((p.transitions[i]?).map some).getD none
      | none => none := rfl
  rw [hrun, Table.find?]
  cases p.table[id]? with
  | none => rfl
  | some slot =>
    dsimp only [Option.getD_some]
    cases slot.find? action with
    | none => rfl
    | some i =>
      dsimp only [Option.bind_some]
      cases p.transitions[i]? with
      | none => rfl
      | some t => rfl

theorem decideAt_eq (p : Protocol) (id : Nat) (action : String) :
    p.decideAt id action =
      match p.transitionFor? id action with
      | some t => p.decisionOf t (p.targetId t)
      | none => p.silentDenial id (p.stateName id) := rfl

theorem targetId_eq (p : Protocol) (t : Transition) : p.targetId t = (p.stateId? t.target).getD 0 := rfl

/-- `decideAt`, refusing a place where there is no state. -/
def decideAt? (p : Protocol) (id : Nat) (action : String) : Option Decision :=
  if id < p.stateCount then some (p.decideAt id action) else none

/-- The state after an action, if the action is permitted. -/
def stepAt? (p : Protocol) (id : Nat) (action : String) : Option Nat :=
  match p.transitionFor? id action with
  | some t => if t.permitted then some (p.targetId t) else none
  | none => none

/-! ## The cursor -/

/-- What the protocol says to an action at its cursor. -/
def decide (p : Protocol) (action : String) : Decision := p.decideAt p.position action

/-- Move the cursor to a place, if there is a state there. -/
def moveTo (p : Protocol) (id : Nat) : Protocol :=
  if h : id < p.definition.states.length then { p with position := ⟨id, h⟩ } else p

/-- Decide an action and follow it if it is permitted. -/
def apply (p : Protocol) (action : String) : Decision × Protocol :=
  let d := p.decide action
  (d, if d.permitted then p.moveTo d.nextStateId else p)

/-- Return the cursor to the initial state. -/
def reset (p : Protocol) : Protocol := { p with position := p.initialId }

/-- Put the cursor on a named state. -/
def setPosition (p : Protocol) (state : String) : Except Error Protocol :=
  match p.requireState state with
  | .ok id => .ok (p.moveTo id)
  | .error e => .error e

/-! ## Actions -/

/-- Every action of the declaration, sorted. -/
def allActions (p : Protocol) : List String :=
  Text.sortDistinct (p.transitions.map Transition.action)

/-- The actions that leave a state, permitted or denied, sorted. -/
def actionsFrom (p : Protocol) (state : String) : Except Error (List String) :=
  match p.requireState state with
  | .ok id =>
    match p.table[id]? with
    | some slot => .ok (slot.map Prod.fst)
    | none => .ok []
  | .error e => .error e

/-- The actions that some declared transition permits in a state, sorted. A transition that an
earlier one shadows counts as well; a state that is not declared has none. -/
def permittedActionsFrom (p : Protocol) (state : String) : List String :=
  Text.sortDistinct
    ((p.transitions.filter fun t => t.permitted && t.source = state).map Transition.action)

/-- How many transitions of the declaration permit their action. -/
def permittedCount (p : Protocol) : Nat := p.transitions.countP Transition.permitted

end Protocol

end Lockstep
