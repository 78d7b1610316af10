import Lockstep.Composition.Basic
import Std.Data.HashSet

/-!
# Exploring what is reachable

A breadth-first search from the joint initial state, following the actions of the union alphabet in
increasing order. Joint states are recorded in the order of their discovery, each with the actions
that first led to it, and expanded in the same order: the recorded states are the queue, and a mark
separates those already expanded.

The search is bounded. Once the bound is reached it goes on only to learn whether anything was left
out; the first new joint state it meets then ends it.
-/

namespace Lockstep

/-- A joint state and the actions that led to it. -/
structure Found where
  joint : JointState
  path : List String
  deriving Repr, DecidableEq

/-- A search on its way. -/
structure Search where
  /-- The recorded joint states, in order of discovery. -/
  found : Array Found
  /-- The same joint states, for fast look-up. -/
  seen : Std.HashSet JointState
  /-- How many of the recorded joint states have been expanded. -/
  expanded : Nat
  /-- Whether a joint state was met that the bound kept from being recorded. -/
  truncated : Bool

namespace Search

variable {m : Type → Type} [Monad m] [Lookup m]

/-- A search that has recorded one joint state and expanded none. -/
def start (joint : JointState) : Search where
  found := #[⟨joint, []⟩]
  seen := Std.HashSet.emptyWithCapacity.insert joint
  expanded := 0
  truncated := false

/-- Record a joint state that an action leads to, unless it is known or the bound is reached. -/
def record (bound : Nat) (here : Found) (action : String) (next : JointState) (s : Search) : Search :=
  if s.seen.contains next then s
  else if bound ≤ s.found.size then { s with truncated := true }
  else
    { s with
      found := s.found.push ⟨next, here.path ++ [action]⟩
      seen := s.seen.insert next }

/-- Follow one action from a recorded joint state, recording at most `bound` joint states. -/
def followM (c : Composition) (bound : Nat) (here : Found) (s : Search) (action : String) :
    m Search := do
  if s.truncated then return s
  match ← c.successorM here.joint action with
  | none => return s
  | some next => return s.record bound here action next

def follow (c : Composition) (bound : Nat) (here : Found) (s : Search) (action : String) : Search :=
  Id.run (followM c bound here s action)

/-- Follow every action from a recorded joint state. -/
def expandM (c : Composition) (bound : Nat) (here : Found) (s : Search) : m Search :=
  c.alphabet.foldlM (followM c bound here) s

def expand (c : Composition) (bound : Nat) (here : Found) (s : Search) : Search :=
  Id.run (s.expandM c bound here)

/-- Expand recorded joint states until none is left or the bound shows. -/
@[specialize]
def runM (c : Composition) (bound : Nat) : Nat → Search → m Search
  | 0, s => return s
  | fuel + 1, s => do
    if s.truncated then return s
    match s.found[s.expanded]? with
    | none => return s
    | some here =>
      let marked := { s with expanded := s.expanded + 1 }
      runM c bound fuel (← marked.expandM c bound here)

def run (c : Composition) (bound fuel : Nat) (s : Search) : Search := Id.run (runM c bound fuel s)

theorem follow_eq (c : Composition) (bound : Nat) (here : Found) (s : Search) (action : String) :
    follow c bound here s action =
      if s.truncated then s
      else
        match c.successor? here.joint action with
        | none => s
        | some next => s.record bound here action next := by
  unfold follow followM
  split
  · rfl
  · rfl

theorem expand_eq (c : Composition) (bound : Nat) (here : Found) (s : Search) :
    s.expand c bound here = c.alphabet.foldl (follow c bound here) s :=
  foldlM_eq_pure (m := Id) (fun _ _ _ => rfl) s

theorem run_succ (c : Composition) (bound fuel : Nat) (s : Search) :
    run c bound (fuel + 1) s =
      if s.truncated then s
      else
        match s.found[s.expanded]? with
        | none => s
        | some here =>
          run c bound fuel (expand c bound here { s with expanded := s.expanded + 1 }) := by
  rw [run, runM]
  split
  · rfl
  · cases s.found[s.expanded]? with
    | none => rfl
    | some here => rfl

end Search

/-- What a bounded search found. -/
structure Exploration where
  /-- The discovered joint states by name, in order of discovery. -/
  states : List Snapshot
  /-- The same joint states by position. -/
  joints : List JointState
  /-- Whether the bound left a reachable joint state out. -/
  truncated : Bool
  deriving DecidableEq

namespace Composition

variable {m : Type → Type} [Monad m] [Lookup m]

/-- The search of a composition, ended. Every round expands one of at most `bound` joint states, so
`bound` rounds are enough. -/
def searchedM (c : Composition) (bound : Nat) : m Search :=
  Search.runM c bound bound (.start c.initialJoint)

def searched (c : Composition) (bound : Nat) : Search := Id.run (c.searchedM bound)

theorem searched_eq (c : Composition) (bound : Nat) :
    c.searched bound = Search.run c bound bound (.start c.initialJoint) := rfl

/-- The joint states reachable from the start, at most `bound` of them. -/
def exploreM (c : Composition) (bound : Nat) : m Exploration := do
  if bound = 0 then return { states := [], joints := [], truncated := true }
  let s ← c.searchedM bound
  let states ← s.found.toList.mapM fun f => c.snapshotM f.joint f.path
  return { states, joints := s.found.toList.map Found.joint, truncated := s.truncated }

def explore (c : Composition) (bound : Nat) : Exploration := Id.run (c.exploreM bound)

theorem explore_eq (c : Composition) (bound : Nat) :
    c.explore bound =
      if bound = 0 then { states := [], joints := [], truncated := true }
      else
        { states := (c.searched bound).found.toList.map fun f => c.snapshot f.joint f.path
          joints := (c.searched bound).found.toList.map Found.joint
          truncated := (c.searched bound).truncated } := by
  have hall := mapM_eq_pure (m := Id) (l := (c.searched bound).found.toList)
    (f := fun f => c.snapshotM f.joint f.path) fun _ _ => rfl
  unfold explore exploreM
  split
  · rfl
  · exact congrArg (fun states => (⟨states, _, _⟩ : Exploration)) hall

/-- What the log is told of a search. A search with bound zero is none. -/
def exploreEvents (c : Composition) (bound : Nat) (e : Exploration) : List Event :=
  if bound = 0 then [] else [.explored c.names e.states.length bound e.truncated]

end Composition

end Lockstep
