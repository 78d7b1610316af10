import Lockstep.Ranking

/-!
# Who has the final say

Summaries over a composition: the protocol that permits most, and, for every joint state of the full
product, the highest-ranking protocol that denies something there.
-/

namespace Lockstep

/-- The protocol with the most permitting transitions and their number; the first of equals. -/
def mostPermissive (protocols : List Protocol) : Option (String × Nat) :=
  protocols.foldl (fun best p =>
    let count := p.permittedCount
    match best with
    | some (name, most) => if count ≤ most then some (name, most) else some (p.name, count)
    | none => some (p.name, count)) none

/-- In how many joint states each protocol was the highest-ranking one to deny something. -/
structure Dominance where
  /-- The number for each protocol: those of the priority list in its order, then the others. -/
  counts : OrderedMap String Nat
  /-- The joint states where nothing is denied. -/
  none : Nat
  /-- All joint states. -/
  total : Nat

namespace Dominance

/-- A tally over no joint states, listing the protocols of the ranking and then the others. -/
def blank (c : Composition) (r : Ranking) : Dominance where
  counts := c.names.foldl (fun m name => m.insertIfNew name 0) (.ofList (r.order.map (·, 0)))
  none := 0
  total := 0

/-- Count one joint state for the protocol that dominates it. -/
def count (t : Dominance) (dominant : Option String) : Dominance :=
  match dominant with
  | some name =>
    { t with
      counts := t.counts.insert name ((t.counts.get? name).getD 0 + 1)
      total := t.total + 1 }
  | .none => { t with none := t.none + 1, total := t.total + 1 }

/-- The part of all joint states that a protocol dominates, between zero and one. -/
def share (t : Dominance) (protocol : String) : Binary64 :=
  if t.total = 0 then .zero false
  else (Binary64.ofNat ((t.counts.get? protocol).getD 0)).div (.ofNat t.total)

/-- The written form. -/
def toJson (t : Dominance) : Json :=
  .obj [("counts", .obj (t.counts.entries.map fun (name, n) => (name, .nat n))),
    ("none", .nat t.none), ("total", .nat t.total)]

end Dominance

namespace Composition

variable {m : Type → Type} [Monad m] [Lookup m]

/-- The highest-ranking protocol that denies some action of the alphabet in a joint state. Decisions
are taken action by action, and within an action in protocol order. -/
def dominantM (c : Composition) (r : Ranking) (joint : JointState) : m (Option String) := do
  let decisions ← c.alphabet.mapM (c.composeAtM joint)
  return (r.highest (decisions.flatMap JointDecision.denying)).map Decision.protocol

def dominant (c : Composition) (r : Ranking) (joint : JointState) : Option String :=
  Id.run (c.dominantM r joint)

theorem dominant_eq (c : Composition) (r : Ranking) (joint : JointState) :
    c.dominant r joint =
      (r.highest (c.alphabet.flatMap fun action => (c.composeAt joint action).denying)).map
        Decision.protocol := by
  have hall := mapM_eq_pure (m := Id) (l := c.alphabet) (f := c.composeAtM joint) fun _ _ => rfl
  unfold dominant dominantM
  rw [hall]
  exact congrArg (fun denials => (r.highest denials).map Decision.protocol) (List.flatMap_map ..)

/-- The dominant protocol of every joint state, tallied, unless there are more than `ceiling` of
them. -/
def dominanceM (c : Composition) (priority : List String) (ceiling : Nat) :
    m (Except Error Dominance) := do
  let size := c.stateSpaceSize
  if ceiling < size then return .error (.stateSpaceTooLarge size ceiling)
  match Ranking.ofPriority c priority with
  | .error e => return .error e
  | .ok r =>
    let tally ← c.jointStates.foldlM (fun t joint => return t.count (← c.dominantM r joint))
      (Dominance.blank c r)
    return .ok tally

def dominance (c : Composition) (priority : List String) (ceiling : Nat) :
    Except Error Dominance :=
  Id.run (c.dominanceM priority ceiling)

theorem dominance_eq (c : Composition) (priority : List String) (ceiling : Nat) :
    c.dominance priority ceiling =
      if ceiling < c.stateSpaceSize then .error (.stateSpaceTooLarge c.stateSpaceSize ceiling)
      else
        match Ranking.ofPriority c priority with
        | .error e => .error e
        | .ok r =>
          .ok (c.jointStates.foldl (fun t joint => t.count (c.dominant r joint)) (.blank c r)) := by
  unfold dominance dominanceM
  dsimp only
  split
  · rfl
  · cases Ranking.ofPriority c priority with
    | error e => rfl
    | ok r =>
      exact congrArg Except.ok (foldlM_eq_pure (m := Id) (fun _ _ _ => rfl) (Dominance.blank c r))

end Composition

end Lockstep
