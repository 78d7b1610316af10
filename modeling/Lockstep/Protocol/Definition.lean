import Lockstep.Json.Annotation
import Lockstep.OrderedMap

/-!
# Protocol definitions

A protocol is declared by its states, its labelled transitions and the state it starts in. A
transition either permits its action or denies it outright; an action without a transition is denied
as well, but silently. A definition is plain data: nothing here says that names are distinct or that
transitions lead anywhere. `Lockstep.Protocol.Basic` decides that.
-/

namespace Lockstep

/-- A state of a protocol. -/
structure State where
  /-- The name, unique in a well-formed protocol. -/
  name : String
  /-- Whether the state is a valid configuration rather than an error. -/
  accepting : Bool := true
  /-- Annotations for display. -/
  metadata : OrderedMap String Annotation := .empty

namespace State

/-- A valid state without annotations. -/
def accept (name : String) : State := { name }

/-- An error state without annotations. -/
def reject (name : String) : State := { name, accepting := false }

/-- Attach an annotation. -/
def annotate (s : State) (key : String) (value : Annotation) : State :=
  { s with metadata := s.metadata.insert key value }

/-- The written form. Annotations are left out when there are none. -/
def toJson (s : State) : Json :=
  .obj ([("name", .str s.name), ("accepting", .bool s.accepting)] ++
    (if s.metadata.isEmpty then []
     else [("metadata", .obj (s.metadata.entries.map fun (k, a) => (k, a.value)))]))

end State

/-- A labelled edge between two states. -/
structure Transition where
  /-- The state it leaves. -/
  source : String
  /-- The state it leads to. -/
  target : String
  /-- The action that triggers it. -/
  action : String
  /-- Whether the action is allowed, or denied outright. -/
  permitted : Bool
  /-- A description of a further condition, never evaluated. -/
  guard : Option String := none
  deriving Repr, DecidableEq

namespace Transition

/-- A transition that allows its action. -/
def permit (source target action : String) : Transition :=
  { source, target, action, permitted := true }

/-- A transition that denies its action outright. -/
def deny (source target action : String) : Transition :=
  { source, target, action, permitted := false }

/-- Attach the description of a further condition. -/
def withGuard (t : Transition) (guard : String) : Transition :=
  { t with guard := some guard }

/-- Whether the transition leaves the named state on the named action. -/
def fits (t : Transition) (state action : String) : Bool :=
  t.source = state && t.action = action

/-- The written form. A missing guard is left out. -/
def toJson (t : Transition) : Json :=
  .obj ([("from", .str t.source), ("to", .str t.target), ("action", .str t.action),
    ("permitted", .bool t.permitted)] ++
    (match t.guard with
      | none => []
      | some g => [("guard", .str g)]))

end Transition

/-- The declaration of a protocol. -/
structure Definition where
  name : String
  /-- The name of the state to start in. -/
  initialState : String
  states : List State
  /-- In order of declaration: of two that leave one state on one action, the first decides. -/
  transitions : List Transition

namespace Definition

/-- The declared names, in order. -/
def stateNames (d : Definition) : List String := d.states.map State.name

/-- The place of a state in the order of declaration. -/
def stateId? (d : Definition) (name : String) : Option Nat := d.stateNames.idxOf? name

/-- The written form. -/
def toJson (d : Definition) : Json :=
  .obj [("name", .str d.name), ("initial_state", .str d.initialState),
    ("states", .arr (d.states.map State.toJson)),
    ("transitions", .arr (d.transitions.map Transition.toJson))]

theorem length_stateNames (d : Definition) : d.stateNames.length = d.states.length := by
  simp [stateNames]

/-- A declared state has a place among the declared ones. -/
theorem stateId?_lt {d : Definition} {name : String} {i : Nat} (h : d.stateId? name = some i) :
    i < d.states.length := by
  rw [← d.length_stateNames]
  unfold stateId? at h
  rw [List.idxOf?] at h
  exact (List.findIdx?_eq_some_iff_getElem.mp h).1

end Definition

end Lockstep
