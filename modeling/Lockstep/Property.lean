import Lockstep.Snapshot

/-!
# The catalogue of properties

The three properties of a composition that can be checked, with the names and descriptions used in
reports.
-/

namespace Lockstep

/-- A property of a composition. -/
inductive Property where
  /-- The composition never permits what a component denies. -/
  | monotonicRestriction
  /-- Every reachable joint state has a globally permitted action. -/
  | deadlockFreedom
  /-- A denial of higher priority is never overridden. -/
  | priorityOrdering
  deriving Repr, DecidableEq

namespace Property

/-- Every property, in the order in which they are checked. -/
def all : List Property := [monotonicRestriction, deadlockFreedom, priorityOrdering]

/-- The stable name. -/
def name : Property → String
  | monotonicRestriction => "monotonic_restriction"
  | deadlockFreedom => "deadlock_freedom"
  | priorityOrdering => "priority_ordering"

/-- The property with the given name. -/
def ofName? (s : String) : Option Property := all.find? (fun p => p.name = s)

/-- What a report says the property means. -/
def description (p : Property) (priority : List String) : String :=
  match p with
  | monotonicRestriction =>
    "Composing protocols never increases permissions: the composed system is at most as " ++
      "permissive as the most restrictive component."
  | deadlockFreedom =>
    "No reachable composed state exists in which every action in the union alphabet is blocked " ++
      "by at least one protocol."
  | priorityOrdering =>
    "Higher-priority protocols always override lower ones. Verified order: " ++
      String.intercalate " > " priority ++ "."

/-- What a violation reached by the given actions is called. -/
def describeViolation (p : Property) (actions : List String) : String :=
  let path := showPath actions
  match p with
  | monotonicRestriction =>
    s!"Monotonic restriction violated: composition expanded permissions after actions: {path}"
  | deadlockFreedom => s!"Deadlock found after actions: {path}"
  | priorityOrdering =>
    "Priority ordering violated: lower-priority protocol overrode higher-priority denial " ++
      s!"after actions: {path}"

end Property

/-- A catalogue entry, as reports carry it. -/
structure PropertySpec where
  kind : Property
  name : String
  description : String
  /-- From highest to lowest priority; empty unless the property is about priority. -/
  priorityOrder : List String := []
  deriving Repr, DecidableEq

namespace PropertySpec

/-- The entry of a property; only priority ordering has a use for the priority list. -/
def ofProperty (p : Property) (priority : List String) : PropertySpec where
  kind := p
  name := p.name
  description := p.description priority
  priorityOrder := match p with
    | .priorityOrdering => priority
    | _ => []

/-- The written form. An empty priority order is left out. -/
def toJson (s : PropertySpec) : Json :=
  .obj ([("kind", .str s.kind.name), ("name", .str s.name), ("description", .str s.description)] ++
    (if s.priorityOrder.isEmpty then [] else [("priority_order", .texts s.priorityOrder)]))

end PropertySpec

end Lockstep
