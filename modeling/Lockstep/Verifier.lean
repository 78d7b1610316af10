import Lockstep.Composition.Exploration
import Lockstep.Ranking
import Lockstep.Verdict

/-!
# Bounded checks

Monotonic restriction and priority ordering are checked over the full product, in the order of the
odometer; deadlock freedom over the joint states reachable from the start, in the order of discovery.
Each check looks at no more joint states than the verifier's bound, stops at the first violation, and
says whether the bound cut it short. That is a verdict, never an error.

The two product checks judge every joint state by a rule. The rule of a composition is its own
`composeAt`; a check can also be asked about any other.

A check is a pure function to its verdict. What the log is told follows from the verdict
(`Verifier.verdictEvents`), and for a search also from what was found.
-/

namespace Lockstep

/-- Settings of a verifier. -/
structure Config where
  /-- How many joint states a check looks at, at most. -/
  maxStates : Nat := 10000
  deriving Repr, DecidableEq

namespace Config

/-- The bound of a verifier that is not told otherwise. -/
def defaultMaxStates : Nat := ({} : Config).maxStates

/-- A bound of zero would check nothing. -/
def validate (c : Config) : Except Error Unit :=
  if c.maxStates = 0 then .error (.invalidConfig "max_states must be at least 1") else .ok ()

theorem pos_of_validate {c : Config} (h : c.validate = .ok ()) : 0 < c.maxStates := by
  unfold validate at h
  split at h
  · exact absurd h (by simp)
  · omega

end Config

/-- A checker with a bound on the joint states that a check looks at. -/
structure Verifier where
  maxStates : Nat
  /-- The bound lets something be checked. -/
  pos : 0 < maxStates

namespace Verifier

variable {m : Type → Type} [Monad m] [Lookup m]

/-- The verifier with the given settings, if they are valid. -/
def ofConfig (config : Config) : Except Error Verifier :=
  match h : config.validate with
  | .ok () => .ok ⟨config.maxStates, Config.pos_of_validate h⟩
  | .error e => .error e

/-- The protocol at fault if the rule permits an action that one of its decisions denies. -/
def monotonicFault (d : JointDecision) : Option String :=
  if d.globallyPermitted then d.denying.head?.map Decision.protocol else none

/-- The protocol at fault if an action is decided against the ranking. A permission over any denial is
blamed on the highest-ranking protocol that denied; a denial of an action that a higher-ranking
protocol permits is blamed on the lowest-ranking protocol that denied. -/
def priorityFault (r : Ranking) (d : JointDecision) : Option String :=
  match r.highest d.denying with
  | none => none
  | some denier =>
    if d.globallyPermitted then some denier.protocol
    else
      match r.highest d.permitting with
      | none => none
      | some permitter =>
        if r.rank permitter.protocol < r.rank denier.protocol then
          (r.lowest d.denying).map Decision.protocol
        else none

/-- The first action of an alphabet that the rule decides wrongly in a joint state, with the protocol
at fault. -/
def firstFaultM (fault : JointDecision → Option String) (alphabet : List String)
    (rule : JointState → String → m JointDecision) (joint : JointState) : m (Option (String × String)) :=
  alphabet.findSomeM? fun action => return (fault (← rule joint action)).map (action, ·)

def firstFault (fault : JointDecision → Option String) (alphabet : List String) (rule : Rule)
    (joint : JointState) : Option (String × String) :=
  Id.run (firstFaultM fault alphabet rule joint)

theorem firstFault_eq (fault : JointDecision → Option String) (alphabet : List String) (rule : Rule)
    (joint : JointState) :
    firstFault fault alphabet rule joint =
      alphabet.findSome? fun action => (fault (rule joint action)).map (action, ·) :=
  findSomeM?_eq_pure (m := Id) fun _ _ => rfl

/-- Look for a fault in the joint states of the product, as many as the bound allows. -/
def checkProductM (v : Verifier) (property : Property) (fault : JointDecision → Option String)
    (c : Composition) (rule : JointState → String → m JointDecision) : m Verdict := do
  match ← c.odometer.searchM (firstFaultM fault c.alphabet rule) v.maxStates 0 with
  | (checked, some (joint, action, protocol)) =>
    let state ← c.snapshotM joint []
    return .violated property checked ⟨state, some action⟩ (some protocol)
  | (checked, none) => return .holding property checked (checked < c.stateSpaceSize)

def checkProduct (v : Verifier) (property : Property) (fault : JointDecision → Option String)
    (c : Composition) (rule : Rule) : Verdict :=
  Id.run (v.checkProductM property fault c rule)

theorem checkProduct_eq (v : Verifier) (property : Property) (fault : JointDecision → Option String)
    (c : Composition) (rule : Rule) :
    v.checkProduct property fault c rule =
      match c.odometer.search (firstFault fault c.alphabet rule) v.maxStates 0 with
      | (checked, some (joint, action, protocol)) =>
        .violated property checked ⟨c.snapshot joint [], some action⟩ (some protocol)
      | (checked, none) => .holding property checked (checked < c.stateSpaceSize) := rfl

/-- Check that the rule never permits what one of its decisions denies. -/
def checkMonotonic (v : Verifier) (c : Composition) (rule : Rule) : Verdict :=
  v.checkProduct .monotonicRestriction monotonicFault c rule

/-- Check that the rule never decides against the ranking. -/
def checkPriority (v : Verifier) (c : Composition) (rule : Rule) (r : Ranking) : Verdict :=
  v.checkProduct .priorityOrdering (priorityFault r) c rule

/-- The first joint state of a list in which nothing passes, with its place in the list from `1`. -/
@[specialize]
def firstStuckM (c : Composition) : Nat → List (JointState × Snapshot) → m (Option (Nat × Snapshot))
  | _, [] => return none
  | count, (joint, state) :: rest => do
    if ← c.isLiveM joint then firstStuckM c (count + 1) rest else return some (count + 1, state)

def firstStuck (c : Composition) (count : Nat) (l : List (JointState × Snapshot)) :
    Option (Nat × Snapshot) :=
  Id.run (firstStuckM c count l)

theorem firstStuck_nil (c : Composition) (count : Nat) : firstStuck c count [] = none := rfl

theorem firstStuck_cons (c : Composition) (count : Nat) (joint : JointState) (state : Snapshot)
    (rest : List (JointState × Snapshot)) :
    firstStuck c count ((joint, state) :: rest) =
      if c.isLive joint then firstStuck c (count + 1) rest else some (count + 1, state) := rfl

/-- The verdict on deadlock freedom that an exploration supports. -/
def judgeExplorationM (c : Composition) (e : Exploration) : m Verdict := do
  match ← firstStuckM c 0 (e.joints.zip e.states) with
  | some (checked, state) => return .violated .deadlockFreedom checked ⟨state, none⟩ none
  | none => return .holding .deadlockFreedom e.states.length e.truncated

def judgeExploration (c : Composition) (e : Exploration) : Verdict := Id.run (judgeExplorationM c e)

theorem judgeExploration_eq (c : Composition) (e : Exploration) :
    judgeExploration c e =
      match firstStuck c 0 (e.joints.zip e.states) with
      | some (checked, state) => .violated .deadlockFreedom checked ⟨state, none⟩ none
      | none => .holding .deadlockFreedom e.states.length e.truncated := rfl

/-- Check that something passes in every reachable joint state. -/
def checkDeadlockM (v : Verifier) (c : Composition) : m Verdict := do
  judgeExplorationM c (← c.exploreM v.maxStates)

def checkDeadlock (v : Verifier) (c : Composition) : Verdict := Id.run (v.checkDeadlockM c)

theorem checkDeadlock_eq (v : Verifier) (c : Composition) :
    v.checkDeadlock c = judgeExploration c (c.explore v.maxStates) := rfl

/-! ## With a log -/

/-- What the log is told of a verdict. -/
def verdictEvents (v : Verifier) (r : Verdict) : List Event :=
  (if r.boundReached then [.boundReached r.property v.maxStates r.statesChecked] else []) ++
    [.checked r.property r.holds r.statesChecked r.boundReached r.violatingProtocol]

/-- `checkMonotonic` with its log. -/
def traceMonotonic (v : Verifier) (c : Composition) (rule : Rule) : Traced Error Verdict :=
  let r := v.checkMonotonic c rule
  ⟨v.verdictEvents r, .ok r⟩

/-- `checkPriority` with its log. -/
def tracePriority (v : Verifier) (c : Composition) (rule : Rule) (ranking : Ranking) :
    Traced Error Verdict :=
  let r := v.checkPriority c rule ranking
  ⟨v.verdictEvents r, .ok r⟩

/-- `checkDeadlock` with its log. -/
def traceDeadlock (v : Verifier) (c : Composition) : Traced Error Verdict :=
  let e := c.explore v.maxStates
  let r := judgeExploration c e
  let stuck := match r.counterexample with
    | some cx => [.stuck cx.state]
    | none => []
  ⟨c.exploreEvents v.maxStates e ++ stuck ++ v.verdictEvents r, .ok r⟩

/-! ## From a list of protocols -/

/-- Compose protocols on behalf of the named operation. -/
def composeFor (operation : String) (protocols : List Protocol) : Except Error Composition :=
  if protocols.isEmpty then .error (.emptyComposition operation) else compose protocols

/-- Check that composing the protocols never adds a permission. -/
def verifyMonotonic (v : Verifier) (protocols : List Protocol) : Traced Error Verdict := do
  let c ← composeFor "verify_monotonic_restriction" protocols
  v.traceMonotonic c c.composeAt

/-- Check that no reachable joint state of the protocols is stuck. -/
def verifyDeadlock (v : Verifier) (protocols : List Protocol) : Traced Error Verdict := do
  let c ← composeFor "verify_deadlock_freedom" protocols
  v.traceDeadlock c

/-- Check that no denial of the protocols goes against a priority list. -/
def verifyPriority (v : Verifier) (protocols : List Protocol) (priority : List String) :
    Traced Error Verdict := do
  let c ← composeFor "verify_priority_ordering" protocols
  let r ← Ranking.ofPriority c priority
  v.tracePriority c c.composeAt r

/-- Run every check. Without a priority list the protocols rank in the order in which they are
given. -/
def verifyAll (v : Verifier) (protocols : List Protocol) (priority : Option (List String)) :
    Traced Error (OrderedMap Property Verdict) := do
  let c ← composeFor "verify_all" protocols
  let r ← Ranking.resolve c priority
  let monotonic ← v.traceMonotonic c c.composeAt
  let deadlock ← v.traceDeadlock c
  let ordering ← v.tracePriority c c.composeAt r
  pure (.ofList [(.monotonicRestriction, monotonic), (.deadlockFreedom, deadlock),
    (.priorityOrdering, ordering)])

end Verifier

end Lockstep
