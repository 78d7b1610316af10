import Lockstep.Protocol.Decision

/-!
# Decisions of a composition

One action, every protocol's decision on it, and the verdict over all of them. The rule of lock-step
composition is conjunction: an action passes when nobody denies it.
-/

namespace Lockstep

/-- The position of every composed protocol, in protocol order. -/
abbrev JointState := List Nat

/-- The order of joint states: by the first position in which they differ, and a shorter one before
its continuations. -/
def JointState.compare : JointState → JointState → Ordering
  | [], [] => .eq
  | [], _ :: _ => .lt
  | _ :: _, [] => .gt
  | a :: as, b :: bs => if a < b then .lt else if b < a then .gt else JointState.compare as bs

/-- What a composition says to an action. -/
structure JointDecision where
  action : String
  /-- Whether the composition lets the action pass. -/
  globallyPermitted : Bool
  /-- The decision of each protocol, in protocol order. -/
  individual : List Decision
  /-- The protocols that denied, in protocol order. -/
  blocking : List String
  deriving Repr, DecidableEq

/-- A way to decide an action in a joint state. The rule of a composition is `Composition.composeAt`;
the checks of `Lockstep.Verifier` take any other as well. -/
abbrev Rule := JointState → String → JointDecision

namespace JointDecision

/-- The decisions that permit the action. -/
def permitting (d : JointDecision) : List Decision := d.individual.filter (·.permitted)

/-- The decisions that deny the action. -/
def denying (d : JointDecision) : List Decision := d.individual.filter (·.isDenied)

/-- The joint state that every protocol would move to. -/
def nextJoint (d : JointDecision) : JointState := d.individual.map Decision.nextStateId

/-- Combine decisions so that one denial is enough to block. -/
def conjunction (action : String) (decisions : List Decision) : JointDecision :=
  let blocking := (decisions.filter (·.isDenied)).map Decision.protocol
  { action
    globallyPermitted := blocking.isEmpty
    individual := decisions
    blocking }

end JointDecision

end Lockstep
