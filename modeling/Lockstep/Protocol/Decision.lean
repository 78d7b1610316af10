import Lockstep.Json.Basic

/-!
# Decisions of a single protocol

Asked about an action, a protocol permits it and names the state it would move to, or denies it. A
denial is explicit, by a transition that says so, or comes from the absence of any transition; in the
second case the protocol stays where it is.
-/

namespace Lockstep

/-- Why an action was refused. -/
inductive DenialReason where
  /-- No transition leaves the state on the action. -/
  | noMatchingTransition
  /-- The transition on the action denies it; its guard is passed on. -/
  | explicitDeny (guard : Option String)
  deriving Repr, DecidableEq

/-- The reason as text. -/
def DenialReason.render : DenialReason → String
  | .noMatchingTransition => "no matching transition"
  | .explicitDeny (some guard) => s!"explicitly denied ({guard})"
  | .explicitDeny none => "explicitly denied"

/-- What a protocol says to an action. -/
structure Decision where
  permitted : Bool
  /-- The state the protocol would move to. -/
  nextState : String
  /-- The place of that state in the order of declaration. -/
  nextStateId : Nat
  /-- The protocol that decided. -/
  protocol : String
  /-- Why the action was refused; nothing if it was permitted. -/
  reason : Option DenialReason
  deriving Repr, DecidableEq

namespace Decision

def isDenied (d : Decision) : Bool := !d.permitted

end Decision

end Lockstep
