import Lockstep.Composition.JointDecision
import Lockstep.Lookup

/-!
# Walking the full product

The joint states of a composition, reachable or not, are the tuples of positions below the protocols'
state counts. An odometer walks through them one at a time without holding them: the last position
turns fastest, and a position that runs over returns to zero and advances the one before it.
-/

namespace Lockstep

/-- A walk through the tuples below the given radices: the tuple to come, or nothing when the walk is
over. -/
structure Odometer where
  radices : List Nat
  upcoming : Option JointState

namespace Odometer

/-- The tuple after `digits`, if there is one. -/
def successor? : List Nat → JointState → Option JointState
  | r :: radices, d :: digits =>
    match successor? radices digits with
    | some rest => some (d :: rest)
    | none => if d + 1 < r then some ((d + 1) :: List.replicate digits.length 0) else none
  | _, _ => none

/-- The walk from the start. A radix of zero leaves nothing to walk through. -/
def start (radices : List Nat) : Odometer where
  radices
  upcoming := if radices.all (0 < ·) then some (List.replicate radices.length 0) else none

/-- The next tuple and the walk after it. A walk that is over stays over. -/
def next? (o : Odometer) : Option (JointState × Odometer) :=
  match o.upcoming with
  | some joint => some (joint, { o with upcoming := successor? o.radices joint })
  | none => none

/-- The next tuples, at most `n` of them. -/
def take : Nat → Odometer → List JointState
  | 0, _ => []
  | n + 1, o =>
    match o.next? with
    | some (joint, o') => joint :: take n o'
    | none => []

/-- Among the next `n` tuples, the first for which `f` has an answer, that answer, and how many tuples
were looked at up to and including it. Without an answer, the number of tuples there were. -/
@[specialize]
def searchM {m : Type → Type} [Monad m] {α : Type} (f : JointState → m (Option α)) :
    Nat → Nat → Odometer → m (Nat × Option (JointState × α))
  | 0, count, _ => return (count, none)
  | n + 1, count, o => do
    match o.next? with
    | none => return (count, none)
    | some (joint, o') =>
      match ← f joint with
      | some a => return (count + 1, some (joint, a))
      | none => searchM f n (count + 1) o'

def search {α : Type} (f : JointState → Option α) (n count : Nat) (o : Odometer) :
    Nat × Option (JointState × α) :=
  Id.run (searchM (m := Id) f n count o)

theorem search_succ {α : Type} (f : JointState → Option α) (n count : Nat) (o : Odometer) :
    search f (n + 1) count o =
      match o.next? with
      | none => (count, none)
      | some (joint, o') =>
        match f joint with
        | some a => (count + 1, some (joint, a))
        | none => search f n (count + 1) o' := by
  rw [search, searchM]
  cases o.next? with
  | none => rfl
  | some e => rfl

end Odometer

end Lockstep
