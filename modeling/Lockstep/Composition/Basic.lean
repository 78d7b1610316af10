import Lockstep.Composition.Odometer
import Lockstep.Protocol.Basic

/-!
# Compositions

A composition runs protocols in lock step: every protocol sees every action, and an action passes only
if each of them permits it. There is at least one protocol and no two share a name; both facts are
part of the type, as is the cached union alphabet.

Everything that explores or verifies works on explicit joint states. Only `decide`, `apply` and
`resetAll` read or move the protocols' cursors.

What looks up decisions or names is written for any monad of look-ups, under a name that ends in `M`; the same
name without it is the reading in `Id`, and an equation says what that comes to.
-/

namespace Lockstep

/-- The actions of any of the protocols, sorted. -/
def unionAlphabet (protocols : List Protocol) : List String :=
  Text.sortDistinct (protocols.flatMap Protocol.allActions)

/-- Protocols running in lock step. -/
structure Composition where
  protocols : List Protocol
  /-- There is something to compose. -/
  nonempty : protocols ≠ []
  /-- No two protocols share a name. -/
  distinct : (protocols.map Protocol.name).Nodup
  /-- The actions of any of the protocols, sorted. -/
  alphabet : List String
  alphabet_eq : alphabet = unionAlphabet protocols

/-- Compose protocols in the given order. -/
def compose (protocols : List Protocol) : Except Error Composition :=
  if hn : protocols = [] then .error (.emptyComposition "ProtocolComposer::new")
  else
    match hd : Text.firstRepeated (protocols.map Protocol.name) with
    | some name => .error (.duplicateProtocol name)
    | none => .ok {
        protocols
        nonempty := hn
        distinct := Text.nodup_of_firstRepeated_eq_none hd
        alphabet := unionAlphabet protocols
        alphabet_eq := rfl }

/-- The largest size that is told apart; larger products are reported as this one. -/
def maxSize : Nat := Nat.pow 2 64 - 1

namespace Composition

variable {m : Type → Type} [Monad m] [Lookup m]

/-- The protocols' names, in order. -/
def names (c : Composition) : List String := c.protocols.map Protocol.name

/-- The composition as text. -/
def render (c : Composition) : String :=
  "ProtocolComposer[" ++ String.intercalate " & " c.names ++ "]"

/-! ## Joint states -/

/-- Every protocol at its initial state. -/
def initialJoint (c : Composition) : JointState := c.protocols.map fun p => p.initialId.val

/-- Every protocol at its cursor. -/
def currentJoint (c : Composition) : JointState := c.protocols.map fun p => p.position.val

/-- The protocols' state counts. -/
def radices (c : Composition) : List Nat := c.protocols.map Protocol.stateCount

/-- How many joint states there are. -/
def productSize (c : Composition) : Nat := c.radices.foldr (· * ·) 1

/-- How many joint states there are, as far as sizes are told apart. -/
def stateSpaceSize (c : Composition) : Nat :=
  c.protocols.foldl (fun size p => min (size * p.stateCount) maxSize) 1

/-- The walk through all joint states. -/
def odometer (c : Composition) : Odometer := .start c.radices

/-- All joint states, in the order of the walk. -/
def jointStates (c : Composition) : List JointState := c.odometer.take c.productSize

/-- Whether every protocol has a state at the position given for it. Positions beyond the protocols,
and protocols beyond the positions, are not looked at. -/
def inRange (c : Composition) (joint : JointState) : Bool :=
  (c.protocols.zip joint).all fun (p, id) => id < p.stateCount

/-- A joint state by name. -/
def snapshotM (c : Composition) (joint : JointState) (actions : List String) : m Snapshot := do
  let entries ← (c.protocols.zip joint).mapM fun (p, id) => return (p.name, ← p.stateNameM id)
  return ⟨.ofList entries, actions⟩

def snapshot (c : Composition) (joint : JointState) (actions : List String) : Snapshot :=
  Id.run (c.snapshotM joint actions)

theorem snapshot_eq (c : Composition) (joint : JointState) (actions : List String) :
    c.snapshot joint actions =
      ⟨.ofList (c.protocols.zipWith (fun p id => (p.name, p.stateName id)) joint), actions⟩ := by
  have hall := mapM_zip_eq_pure (m := Id) (l := c.protocols) (k := joint)
    (f := fun p id => return (p.name, ← p.stateNameM id)) fun _ _ _ => rfl
  exact congrArg (fun entries => (⟨.ofList entries, actions⟩ : Snapshot)) hall

/-- `snapshot`, refusing a position where there is no state. -/
def snapshot? (c : Composition) (joint : JointState) (actions : List String) : Option Snapshot :=
  if c.inRange joint then some (c.snapshot joint actions) else none

/-- All joint states by name, unless there are more than `ceiling`. -/
def enumerateAllM (c : Composition) (ceiling : Nat) :
    m (Except Error (List (OrderedMap String String))) := do
  let size := c.stateSpaceSize
  if ceiling < size then return .error (.stateSpaceTooLarge size ceiling)
  let states ← c.jointStates.mapM fun joint => c.snapshotM joint []
  return .ok (states.map Snapshot.states)

def enumerateAll (c : Composition) (ceiling : Nat) :
    Except Error (List (OrderedMap String String)) :=
  Id.run (c.enumerateAllM ceiling)

theorem enumerateAll_eq (c : Composition) (ceiling : Nat) :
    c.enumerateAll ceiling =
      if ceiling < c.stateSpaceSize then .error (.stateSpaceTooLarge c.stateSpaceSize ceiling)
      else .ok (c.jointStates.map fun joint => (c.snapshot joint []).states) := by
  have hall := mapM_eq_pure (m := Id) (l := c.jointStates)
    (f := fun joint => c.snapshotM joint []) fun _ _ => rfl
  unfold enumerateAll enumerateAllM
  dsimp only
  rw [hall]
  split
  · rfl
  · exact congrArg Except.ok (List.map_map ..)

/-! ## Decisions -/

/-- What the composition says to an action in a joint state. There has to be one position for each
protocol. -/
def composeAtM (c : Composition) (joint : JointState) (action : String) : m JointDecision := do
  Lookup.require (joint.length = c.protocols.length)
  let decisions ← (c.protocols.zip joint).mapM fun (p, id) => p.decideAtM id action
  return .conjunction action decisions

def composeAt (c : Composition) : Rule := fun joint action => Id.run (c.composeAtM joint action)

theorem composeAt_eq (c : Composition) (joint : JointState) (action : String) :
    c.composeAt joint action =
      .conjunction action (c.protocols.zipWith (fun p id => p.decideAt id action) joint) := by
  have hall := mapM_zip_eq_pure (m := Id) (l := c.protocols) (k := joint)
    (f := fun p id => p.decideAtM id action) fun _ _ _ => rfl
  exact congrArg (JointDecision.conjunction action) hall

theorem individual_composeAt (c : Composition) (joint : JointState) (action : String) :
    (c.composeAt joint action).individual =
      c.protocols.zipWith (fun p id => p.decideAt id action) joint :=
  congrArg JointDecision.individual (c.composeAt_eq joint action)

theorem nextJoint_composeAt (c : Composition) (joint : JointState) (action : String) :
    (c.composeAt joint action).nextJoint =
      c.protocols.zipWith (fun p id => (p.decideAt id action).nextStateId) joint := by
  rw [JointDecision.nextJoint, individual_composeAt, List.map_zipWith]

/-- `composeAt`, refusing a position where there is no state. -/
def composeAt? (c : Composition) (joint : JointState) (action : String) : Option JointDecision :=
  if c.inRange joint then some (c.composeAt joint action) else none

/-- The joint state after an action, if the composition lets it pass. -/
def successorM (c : Composition) (joint : JointState) (action : String) : m (Option JointState) := do
  let d ← c.composeAtM joint action
  return if d.globallyPermitted then some d.nextJoint else none

def successor? (c : Composition) (joint : JointState) (action : String) : Option JointState :=
  Id.run (c.successorM joint action)

theorem successor?_eq (c : Composition) (joint : JointState) (action : String) :
    c.successor? joint action =
      if (c.composeAt joint action).globallyPermitted then some (c.composeAt joint action).nextJoint
      else none := rfl

/-- Whether some action passes in a joint state. -/
def isLiveM (c : Composition) (joint : JointState) : m Bool :=
  c.alphabet.anyM fun action => return (← c.composeAtM joint action).globallyPermitted

def isLive (c : Composition) (joint : JointState) : Bool := Id.run (c.isLiveM joint)

theorem isLive_eq (c : Composition) (joint : JointState) :
    c.isLive joint = c.alphabet.any fun action => (c.composeAt joint action).globallyPermitted :=
  anyM_eq_pure (m := Id) fun _ _ => rfl

/-- The actions that pass at the joint initial state, sorted. -/
def initiallyPermitted (c : Composition) : List String :=
  c.alphabet.filter fun action => (c.composeAt c.initialJoint action).globallyPermitted

/-! ## Cursors -/

/-- Change every protocol in a way that leaves its definition alone. -/
def mapProtocols (c : Composition) (f : Protocol → Protocol)
    (hf : ∀ p, (f p).definition = p.definition) : Composition where
  protocols := c.protocols.map f
  nonempty := by simpa using c.nonempty
  distinct := by
    have h : Protocol.name ∘ f = Protocol.name := funext fun p => by
      simp [Protocol.name, hf p]
    rw [List.map_map, h]
    exact c.distinct
  alphabet := c.alphabet
  alphabet_eq := by
    have h : (fun p => (f p).allActions) = Protocol.allActions := funext fun p => by
      simp [Protocol.allActions, Protocol.transitions, hf p]
    rw [c.alphabet_eq, unionAlphabet, unionAlphabet, List.flatMap_map, h]

end Composition

theorem Protocol.definition_moveTo (p : Protocol) (id : Nat) :
    (p.moveTo id).definition = p.definition := by
  unfold Protocol.moveTo
  split <;> rfl

theorem Protocol.definition_apply (p : Protocol) (action : String) :
    (p.apply action).2.definition = p.definition := by
  unfold Protocol.apply
  dsimp only
  split
  · exact p.definition_moveTo _
  · rfl

namespace Composition

/-- What the composition says to an action at its cursors. -/
def decide (c : Composition) (action : String) : JointDecision := c.composeAt c.currentJoint action

/-- Decide an action and, if it passes, let every protocol follow it. -/
def apply (c : Composition) (action : String) : JointDecision × Composition :=
  let d := c.decide action
  (d, if d.globallyPermitted then
      c.mapProtocols (fun p => (p.apply action).2) (fun p => p.definition_apply action)
    else c)

/-- Return every cursor to its initial state. -/
def resetAll (c : Composition) : Composition := c.mapProtocols Protocol.reset (fun _ => rfl)

end Composition

end Lockstep
