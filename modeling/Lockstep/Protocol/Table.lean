import Lockstep.Event
import Lockstep.Protocol.Places

/-!
# The transition table

Looking an action up by scanning the declaration would be correct and slow. The table fixes, once and
for all, which transition decides: for every state, in order of declaration, the actions that leave it
in increasing order, each with the index of the first transition declared for it.

The table is wired one transition at a time. A transition with an undeclared end stops the wiring; one
whose state and action are already decided is left out, and the log is told which earlier one wins.
-/

namespace Lockstep

/-- The actions that leave one state, in increasing order, each with the index of the transition that
decides it. -/
abbrev Slot := List (String × Nat)

namespace Slot

/-- The transition that decides an action. -/
def find? (slot : Slot) (action : String) : Option Nat :=
  (List.find? (fun e => e.1 = action) slot).map Prod.snd

/-- Let a transition decide an action that nothing decides yet. -/
def insert (action : String) (index : Nat) : Slot → Slot
  | [] => [(action, index)]
  | (a, i) :: rest =>
    if action < a then (action, index) :: (a, i) :: rest
    else (a, i) :: insert action index rest

end Slot

/-- For every state, in order of declaration, its outgoing actions. -/
abbrev Table := List Slot

namespace Table

/-- The table of a protocol with the given number of states and no transitions. -/
def blank (states : Nat) : Table := List.replicate states []

/-- The transition that decides an action in a state. -/
def find? (table : Table) (state : Nat) (action : String) : Option Nat :=
  match table[state]? with
  | some slot => slot.find? action
  | none => none

/-- Let a transition decide an action in a state where nothing decides it yet. -/
def insert (table : Table) (state : Nat) (action : String) (index : Nat) : Table :=
  table.modify state (Slot.insert action index)

end Table

namespace Definition

/-- The place of a transition's end among the declared states. -/
def endpoint (d : Definition) (places : Places) (t : Transition) (e : Endpoint) : Except Error Nat :=
  let state := match e with
    | .source => t.source
    | .target => t.target
  match places.get? state with
  | some i => .ok i
  | none => .error (.undeclaredTransitionState d.name t.action e state)

/-- Wire the transitions `index, index + 1, …` into a table. -/
def wireFrom (d : Definition) (places : Places) : Nat → List Transition → Table → Traced Error Table
  | _, [], table => pure table
  | index, t :: rest, table =>
    match d.endpoint places t .source, d.endpoint places t .target with
    | .error e, _ => .fail e
    | .ok _, .error e => .fail e
    | .ok source, .ok _ =>
      match table.find? source t.action with
      | some winner =>
        Traced.emit (.shadowed d.name t.source t.action winner index) >>= fun _ =>
          d.wireFrom places (index + 1) rest table
      | none => d.wireFrom places (index + 1) rest (table.insert source t.action index)

/-- The table of a definition, with the log of its shadowed transitions. -/
def wire (d : Definition) (places : Places) : Traced Error Table :=
  d.wireFrom places 0 d.transitions (Table.blank d.states.length)

end Definition

end Lockstep
