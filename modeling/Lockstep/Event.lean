import Lockstep.Error
import Lockstep.Property

/-!
# What the library tells its log

Every log line is an event: a value that says what happened, from which level, message and fields are
derived. Pure functions hand their events back with their results, in the order in which they
happened; `Traced` is a result together with them.
-/

namespace Lockstep

/-- How much attention an event deserves. -/
inductive Level where
  | debug
  | info
  | warn
  deriving Repr, DecidableEq

/-- The word for a level. -/
def Level.word : Level → String
  | .debug => "DEBUG"
  | .info => "INFO"
  | .warn => "WARN"

/-- Something worth telling the log. -/
inductive Event where
  /-- A transition can never decide, because an earlier one leaves the same state on the same
  action. Both are given by their place in the declaration. -/
  | shadowed (protocol source action : String) (winner loser : Nat)
  /-- A protocol was built. -/
  | constructed (protocol : String) (states transitions : Nat)
  /-- A reachability search ended. -/
  | explored (protocols : List String) (discovered maxStates : Nat) (truncated : Bool)
  /-- A reachable joint state permits nothing. -/
  | stuck (state : Snapshot)
  /-- A check stopped at its bound. -/
  | boundReached (property : Property) (maxStates statesChecked : Nat)
  /-- A check is done. -/
  | checked (property : Property) (holds : Bool) (statesChecked : Nat) (boundReached : Bool)
      (violatingProtocol : Option String)
  /-- How many actions two compositions permit at the start. -/
  | initialPermissions (two three : Nat)
  deriving DecidableEq

namespace Event

def level : Event → Level
  | shadowed .. | boundReached .. => .warn
  | constructed .. | explored .. | stuck .. => .debug
  | checked .. | initialPermissions .. => .info

def message : Event → String
  | shadowed .. => "duplicate transition shadowed by earlier declaration"
  | constructed .. => "protocol model constructed"
  | explored .. => "reachability search finished"
  | stuck .. => "no globally permitted action"
  | boundReached .. => "state bound reached; result holds only within the checked states"
  | checked .. => "property checked"
  | initialPermissions .. => "initial permissions"

/-- The fields of a log line, by name and as text. -/
def fields : Event → List (String × String)
  | shadowed protocol source action winner loser =>
    [("protocol", protocol), ("from_state", source), ("action", action),
      ("winner", toString winner), ("shadowed", toString loser)]
  | constructed protocol states transitions =>
    [("protocol", protocol), ("states", toString states), ("transitions", toString transitions)]
  | explored protocols discovered maxStates truncated =>
    [("protocols", Text.quoteList protocols), ("discovered", toString discovered),
      ("max_states", toString maxStates), ("truncated", toString truncated)]
  | stuck state => [("state", state.render)]
  | boundReached property maxStates statesChecked =>
    [("property", property.name), ("max_states", toString maxStates),
      ("states_checked", toString statesChecked)]
  | checked property holds statesChecked stopped violator =>
    [("property", property.name), ("holds", toString holds),
      ("states_checked", toString statesChecked), ("bound_reached", toString stopped),
      ("violating_protocol", violator.getD "-")]
  | initialPermissions two three => [("two", toString two), ("three", toString three)]

end Event

/-- The outcome of an operation together with the events on the way to it. A failed operation has a
log as well: what happened before it failed. -/
structure Traced (ε α : Type) where
  log : List Event
  outcome : Except ε α

namespace Traced

variable {ε ε' α β : Type}

/-- Note an event. -/
def emit (e : Event) : Traced ε Unit := ⟨[e], .ok ()⟩

/-- Fail. -/
def fail (e : ε) : Traced ε α := ⟨[], .error e⟩

/-- An outcome without events. -/
def lift (r : Except ε α) : Traced ε α := ⟨[], r⟩

/-- Go on with the result, unless the operation failed. The events of the second operation follow
those of the first. -/
def andThen (x : Traced ε α) (f : α → Traced ε β) : Traced ε β :=
  match x.outcome with
  | .error e => ⟨x.log, .error e⟩
  | .ok a =>
    let y := f a
    ⟨x.log ++ y.log, y.outcome⟩

instance : Monad (Traced ε) where
  pure a := ⟨[], .ok a⟩
  bind := andThen

instance : MonadLift (Except ε) (Traced ε) := ⟨lift⟩

/-- Restate the error of an operation that failed. -/
def mapError (f : ε → ε') (x : Traced ε α) : Traced ε' α := ⟨x.log, x.outcome.mapError f⟩

end Traced

end Lockstep
