import Lockstep.Event

/-!
# Verdicts

The outcome of checking one property. A property that held over everything that was looked at may
still have been looked at only in part; a verdict says so, and is conclusive if it is a violation or
covered the whole state space.
-/

namespace Lockstep

/-- The outcome of checking one property. -/
structure Verdict where
  property : Property
  /-- Whether the property held in every joint state that was looked at. -/
  holds : Bool
  /-- How many joint states were looked at. -/
  statesChecked : Nat
  /-- Whether the bound cut the check short. -/
  boundReached : Bool
  /-- The first violation, if there is one. -/
  counterexample : Option Counterexample
  /-- The protocol to blame, where one can be named. -/
  violatingProtocol : Option String
  deriving DecidableEq

namespace Verdict

/-- The property held. -/
def holding (property : Property) (statesChecked : Nat) (boundReached : Bool) : Verdict where
  property
  holds := true
  statesChecked
  boundReached
  counterexample := none
  violatingProtocol := none

/-- The property failed in the last joint state that was looked at. -/
def violated (property : Property) (statesChecked : Nat) (counterexample : Counterexample)
    (violator : Option String) : Verdict where
  property
  holds := false
  statesChecked
  boundReached := false
  counterexample := some counterexample
  violatingProtocol := violator

/-- Whether looking further could not change the verdict. -/
def isConclusive (v : Verdict) : Bool := !v.holds || !v.boundReached

/-- The verdict in one line. -/
def summary (v : Verdict) : String :=
  match v.counterexample with
  | some cx =>
    v.property.describeViolation cx.state.actions ++
      (match v.violatingProtocol with
        | some protocol => s!" (protocol {protocol})"
        | none => "")
  | none =>
    if v.boundReached then
      s!"{v.property.name} holds within the first {v.statesChecked} states (bound reached)"
    else s!"{v.property.name} holds over {v.statesChecked} states"

/-- The written form. -/
def toJson (v : Verdict) : Json :=
  .obj [("property", .str v.property.name), ("holds", .bool v.holds),
    ("states_checked", .nat v.statesChecked), ("bound_reached", .bool v.boundReached),
    ("counterexample", .opt Counterexample.toJson v.counterexample),
    ("violating_protocol", .optText v.violatingProtocol)]

end Verdict

end Lockstep
