import Lockstep.Proofs.Exploration
import Lockstep.Proofs.MixedRadix

/-!
# The search as a loop with a queue

The records of a search are its queue: a mark separates those that have been expanded from those that wait. Here
is the same search with everything kept apart, as one would write it down first. A loop takes the front of a
queue, follows every action from it, and enters what is new in four places: the set of visited joint states, the
records by position and by name, and the end of the queue. It ends with the queue, or in the middle of a turn when
there is no room for something new.

One turn of the loop is one round of the search, so nothing about the loop has to be proved twice
(`Worklist.turns_eq_run`). What is kept in step from turn to turn is `Worklist.InStep`. Nothing in it decreases,
and the queue may well grow; that the loop ends is for another reason. What has been dequeued is a list of records,
no joint state is recorded twice, and the records are joint states of the product.
-/

namespace Lockstep

/-! ## The loop -/

/-- The variables of the loop. -/
structure Worklist where
  /-- The joint states met so far. -/
  visited : Std.HashSet JointState
  /-- What was recorded, by name. -/
  states : List Snapshot
  /-- What was recorded, by position. -/
  joints : List JointState
  /-- What is still to be expanded, with the actions that led there. -/
  queue : List Found
  /-- Whether something was left out. -/
  truncated : Bool

namespace Worklist

/-- The loop before its first turn. -/
def start (c : Composition) : Worklist where
  visited := Std.HashSet.emptyWithCapacity.insert c.initialJoint
  states := [c.snapshot c.initialJoint []]
  joints := [c.initialJoint]
  queue := [⟨c.initialJoint, []⟩]
  truncated := false

/-- Follow one action from what was dequeued. Where there is no room, nothing is followed any more. -/
def consider (c : Composition) (bound : Nat) (here : Found) (w : Worklist) (action : String) : Worklist :=
  if w.truncated then w
  else
    match c.successor? here.joint action with
    | none => w
    | some next =>
      if w.visited.contains next then w
      else if bound ≤ w.states.length then { w with truncated := true }
      else
        { w with
          visited := w.visited.insert next
          states := w.states ++ [c.snapshot next (here.path ++ [action])]
          joints := w.joints ++ [next]
          queue := w.queue ++ [⟨next, here.path ++ [action]⟩] }

/-- One turn: what is dequeued, and the loop after it has been expanded. There is none if the queue is empty or
the loop was left in the turn before. -/
def turn (c : Composition) (bound : Nat) (w : Worklist) : Option (Found × Worklist) :=
  if w.truncated then none
  else
    match w.queue with
    | [] => none
    | here :: rest => some (here, c.alphabet.foldl (consider c bound here) { w with queue := rest })

/-- The loop after some turns, with what was dequeued in them. -/
inductive Turns (c : Composition) (bound : Nat) : List Found → Worklist → Prop
  | start : Turns c bound [] (.start c)
  | turn {dequeued : List Found} {w w' : Worklist} {here : Found} (turns : Turns c bound dequeued w)
    (next : w.turn c bound = some (here, w')) : Turns c bound (dequeued ++ [here]) w'

/-- The variables are in step with each other and with what has been dequeued. -/
structure InStep (c : Composition) (bound : Nat) (dequeued : List Found) (w : Worklist) : Prop where
  /-- Visited is what is recorded. -/
  visited_iff : ∀ joint, w.visited.contains joint = true ↔ joint ∈ w.joints
  /-- There are as many records by position as by name. -/
  same_length : w.joints.length = w.states.length
  /-- There are no more than the bound allows. -/
  bounded : w.joints.length ≤ bound
  /-- Nothing is recorded twice. -/
  distinct : w.joints.Nodup
  /-- The records are what was dequeued and then what is in the queue, -/
  joints_eq : w.joints = (dequeued ++ w.queue).map Found.joint
  /-- with the same paths. -/
  states_eq : w.states = (dequeued ++ w.queue).map fun f => c.snapshot f.joint f.path
  /-- Before each turn, wherever an action leads that passes in what was dequeued has been visited. -/
  closed : w.truncated = false → ∀ f ∈ dequeued, ∀ action next,
    c.successor? f.joint action = some next → w.visited.contains next = true

/-! ## One turn is one round -/

/-- The variables of the loop, read off a search: the queue is what the mark has not passed. -/
def ofSearch (c : Composition) (s : Search) : Worklist where
  visited := s.seen
  states := s.found.toList.map fun f => c.snapshot f.joint f.path
  joints := s.found.toList.map Found.joint
  queue := s.found.toList.drop s.expanded
  truncated := s.truncated

variable {c : Composition} {bound : Nat} {here : Found} {s : Search}

@[simp]
theorem visited_ofSearch (c : Composition) (s : Search) : (ofSearch c s).visited = s.seen := rfl

@[simp]
theorem truncated_ofSearch (c : Composition) (s : Search) : (ofSearch c s).truncated = s.truncated := rfl

@[simp]
theorem length_states_ofSearch (c : Composition) (s : Search) :
    (ofSearch c s).states.length = s.found.size := by
  simp [ofSearch]

/-- **Following an action means the same to both.** A new record goes to the end of the queue, because the mark is
no further than the records are. -/
theorem consider_ofSearch (h : s.expanded ≤ s.found.size) (action : String) :
    consider c bound here (ofSearch c s) action = ofSearch c (s.follow c bound here action) := by
  rw [consider, Search.follow_eq, truncated_ofSearch, length_states_ofSearch, visited_ofSearch]
  by_cases htruncated : s.truncated = true
  · rw [if_pos htruncated, if_pos htruncated]
  · rw [if_neg htruncated, if_neg htruncated]
    cases c.successor? here.joint action with
    | none => rfl
    | some next =>
      dsimp only
      unfold Search.record
      by_cases hseen : s.seen.contains next = true
      · rw [if_pos hseen, if_pos hseen]
      · rw [if_neg hseen, if_neg hseen]
        by_cases hfull : bound ≤ s.found.size
        · rw [if_pos hfull, if_pos hfull]
          rfl
        · rw [if_neg hfull, if_neg hfull]
          have hdrop : s.expanded ≤ s.found.toList.length := h
          simp [ofSearch, List.drop_append_of_le_length hdrop]

theorem foldl_consider_ofSearch (actions : List String) : ∀ {s : Search}, s.expanded ≤ s.found.size →
    actions.foldl (consider c bound here) (ofSearch c s) =
      ofSearch c (actions.foldl (Search.follow c bound here) s) := by
  induction actions with
  | nil => intro s _; rfl
  | cons action actions ih =>
    intro s h
    have hgrown := (Search.follow_found c bound here s action).length_le
    rw [Array.length_toList, Array.length_toList] at hgrown
    rw [List.foldl_cons, List.foldl_cons, consider_ofSearch h]
    refine ih ?_
    rw [Search.expanded_follow]
    omega

/-- **One turn is one round.** -/
theorem turn_ofSearch (hopen : s.truncated = false) (hk : s.found.toList[s.expanded]? = some here) :
    (ofSearch c s).turn c bound =
      some (here, ofSearch c (Search.expand c bound here { s with expanded := s.expanded + 1 })) := by
  obtain ⟨hlt, hhere⟩ := List.getElem?_eq_some_iff.mp hk
  have hqueue : (ofSearch c s).queue = here :: s.found.toList.drop (s.expanded + 1) := by
    rw [← hhere]
    exact List.drop_eq_getElem_cons hlt
  have hmark : s.expanded + 1 ≤ s.found.size := hlt
  rw [turn, truncated_ofSearch, hopen, if_neg (by simp), hqueue]
  dsimp only
  rw [Search.expand_eq, ← foldl_consider_ofSearch c.alphabet hmark]
  rfl

theorem turn_ofSearch_of_ended (h : s.Ended) : (ofSearch c s).turn c bound = none := by
  rw [turn, truncated_ofSearch]
  rcases h with htruncated | hnone
  · rw [if_pos htruncated]
  · have hqueue : (ofSearch c s).queue = [] := List.drop_eq_nil_of_le (List.getElem?_eq_none_iff.mp hnone)
    rw [hqueue]
    split <;> rfl

/-! ## Turn after turn -/

variable {dequeued : List Found} {w : Worklist}

/-- **Some turns of the loop are as many rounds of the search**, and what was dequeued in them are the records
that the mark has passed. -/
theorem turns_eq_run (h : Turns c bound dequeued w) :
    ∃ s, s = Search.run c bound dequeued.length (.start c.initialJoint) ∧ w = ofSearch c s ∧
      s.expanded = dequeued.length ∧ s.found.toList.take s.expanded = dequeued := by
  induction h with
  | start => exact ⟨_, rfl, rfl, rfl, rfl⟩
  | @turn dequeued w w' here _ hnext ih =>
    obtain ⟨s, hs, rfl, hmark, hdequeued⟩ := ih
    rcases s.ended_or_front with hended | ⟨hopen, front, hk⟩
    · rw [turn_ofSearch_of_ended hended] at hnext
      exact absurd hnext (by simp)
    · rw [turn_ofSearch hopen hk] at hnext
      obtain ⟨rfl, rfl⟩ := Prod.mk.inj (Option.some.inj hnext)
      refine ⟨_, ?_, rfl, ?_, ?_⟩
      · rw [List.length_append, List.length_singleton, Search.run_add, ← hs, Search.run_of_front hopen hk]
        rfl
      · rw [Search.expanded_expand, List.length_append, List.length_singleton, hmark]
      · -- the records of before are still in front, and the one just expanded is the next of them
        obtain ⟨hlt, hfront⟩ := List.getElem?_eq_some_iff.mp hk
        obtain ⟨more, hmore⟩ := Search.expand_found c bound front { s with expanded := s.expanded + 1 }
        have hle : s.expanded + 1 ≤ s.found.toList.length := hlt
        rw [Search.expanded_expand, ← hmore]
        dsimp only
        rw [List.take_append_of_le_length hle, List.take_succ_eq_append_getElem hlt, hfront, hdequeued]

/-! ## What is kept in step -/

/-- **After any number of turns the variables are in step.** -/
theorem inStep_of_turns (hbound : 0 < bound) (h : Turns c bound dequeued w) :
    w.InStep c bound dequeued := by
  obtain ⟨s, hs, rfl, _, hdequeued⟩ := turns_eq_run h
  obtain ⟨⟨k, done, hkept⟩, hopen⟩ := Search.kept_run (c := c) hbound dequeued.length
  rw [← hs] at hkept hopen
  have hrecords : dequeued ++ (ofSearch c s).queue = s.found.toList := by
    rw [← hdequeued]
    exact List.take_append_drop s.expanded s.found.toList
  refine
    { visited_iff := hkept.seen_iff
      same_length := by simp [ofSearch]
      bounded := by simpa [ofSearch] using hkept.size_le
      distinct := hkept.records.distinct
      joints_eq := by rw [hrecords]; rfl
      states_eq := by rw [hrecords]; rfl
      closed := ?_ }
  intro htruncated f hf action next hstep
  have hround := hopen htruncated
  rw [← hdequeued] at hf
  obtain ⟨i, hi, hfi⟩ := List.mem_take_iff_getElem.mp hf
  have hlt : i < s.expanded := by omega
  have hrecord : s.found.toList[i]? = some f := List.getElem?_eq_some_iff.mpr ⟨by omega, hfi⟩
  obtain ⟨g, hg, rfl, _⟩ := hround.records.covered hrecord (Or.inl hlt) hstep
  exact (hround.seen_iff g.joint).mpr (List.mem_map_of_mem hg)

/-- No joint state is dequeued twice. -/
theorem InStep.nodup_dequeued (h : w.InStep c bound dequeued) : (dequeued.map Found.joint).Nodup := by
  have hnodup := h.distinct
  rw [h.joints_eq, List.map_append] at hnodup
  exact (List.nodup_append.mp hnodup).1

theorem InStep.length_dequeued_le (h : w.InStep c bound dequeued) : dequeued.length ≤ bound := by
  have hbounded := h.bounded
  rw [h.joints_eq, List.length_map, List.length_append] at hbounded
  omega

/-- **There are no more turns than joint states in the product.** -/
theorem length_dequeued_le_prod (hbound : 0 < bound) (h : Turns c bound dequeued w) :
    dequeued.length ≤ (c.protocols.map Protocol.stateCount).prod := by
  obtain ⟨s, hs, _, _, hdequeued⟩ := turns_eq_run h
  obtain ⟨⟨k, done, hkept⟩, _⟩ := Search.kept_run (c := c) hbound dequeued.length
  rw [← hs] at hkept
  have hfits : ∀ joint ∈ dequeued.map Found.joint, joint ∈ c.jointStates := by
    intro joint hjoint
    obtain ⟨f, hf, rfl⟩ := List.mem_map.mp hjoint
    rw [← hdequeued] at hf
    exact Composition.mem_jointStates.mpr (hkept.records.fits (List.mem_of_mem_take hf))
  have hle := ((inStep_of_turns hbound h).nodup_dequeued.subperm hfits).length_le
  rw [List.length_map, c.jointStates_eq_digits, List.length_map, List.length_range,
    c.productSize_eq_prod] at hle
  exact hle

/-! ## The end -/

/-- **The loop ends.** -/
theorem exists_last_turn (hbound : 0 < bound) :
    ∃ dequeued w, Turns c bound dequeued w ∧ w.turn c bound = none := by
  by_contra hnever
  -- with a turn after every turn there would be any number of them
  have hturns : ∀ k, ∃ dequeued w, Turns c bound dequeued w ∧ dequeued.length = k := by
    intro k
    induction k with
    | zero => exact ⟨[], _, .start, rfl⟩
    | succ k ih =>
      obtain ⟨dequeued, w, hturns, hlength⟩ := ih
      cases hnext : w.turn c bound with
      | none => exact absurd ⟨dequeued, w, hturns, hnext⟩ hnever
      | some next =>
        obtain ⟨here, w'⟩ := next
        exact ⟨dequeued ++ [here], w', hturns.turn hnext, by simp [hlength]⟩
  obtain ⟨dequeued, w, hmany, hlength⟩ := hturns ((c.protocols.map Protocol.stateCount).prod + 1)
  have hle := length_dequeued_le_prod hbound hmany
  omega

/-- An exploration is what the loop has recorded when it is over. -/
theorem explore_of_last_turn (hbound : 0 < bound) (h : Turns c bound dequeued w)
    (hlast : w.turn c bound = none) : c.explore bound = ⟨w.states, w.joints, w.truncated⟩ := by
  have hlength := (inStep_of_turns hbound h).length_dequeued_le
  obtain ⟨s, hs, rfl, _, _⟩ := turns_eq_run h
  have hended : s.Ended := by
    rcases s.ended_or_front with hended | ⟨hopen, here, hk⟩
    · exact hended
    · rw [turn_ofSearch hopen hk] at hlast
      exact absurd hlast (by simp)
  have hsearched : c.searched bound = s := by
    obtain ⟨rest, hrest⟩ := Nat.exists_eq_add_of_le hlength
    rw [Composition.searched_eq]
    nth_rewrite 2 [hrest]
    rw [Search.run_add, ← hs, Search.run_of_ended hended]
  rw [Composition.explore_eq, if_neg (by omega), hsearched]
  rfl

end Worklist

/--
**The search loop ends, and keeps its variables in step until then.**

With bound zero there is no loop. Otherwise, after any number of turns: what is visited is what is recorded, by
position and by name alike, each once and no more than the bound allows; the queue is what was recorded and has
not been dequeued, in that order and with the same paths; and before a further turn everything that an action
leads to from what was dequeued has been visited. No joint state is dequeued twice, so there are no more turns
than joint states in the product, and after the last one the records are the exploration. The variables after
some turns are those of the search after as many rounds.
-/
theorem Composition.explore_in_step (c : Composition) (bound : Nat) (hbound : 0 < bound) :
    c.explore 0 = ⟨[], [], true⟩ ∧
    (∀ dequeued w, Worklist.Turns c bound dequeued w →
      w = .ofSearch c (Search.run c bound dequeued.length (.start c.initialJoint)) ∧
      w.InStep c bound dequeued ∧
      (dequeued.map Found.joint).Nodup ∧
      dequeued.length ≤ (c.protocols.map Protocol.stateCount).prod) ∧
    ∃ dequeued w, Worklist.Turns c bound dequeued w ∧ w.turn c bound = none ∧
      c.explore bound = ⟨w.states, w.joints, w.truncated⟩ := by
  refine ⟨rfl, ?_, ?_⟩
  · intro dequeued w hturns
    obtain ⟨s, rfl, hw, _⟩ := Worklist.turns_eq_run hturns
    have hstep := Worklist.inStep_of_turns hbound hturns
    exact ⟨hw, hstep, hstep.nodup_dequeued, Worklist.length_dequeued_le_prod hbound hturns⟩
  · obtain ⟨dequeued, w, hturns, hlast⟩ := Worklist.exists_last_turn (c := c) hbound
    exact ⟨dequeued, w, hturns, hlast, Worklist.explore_of_last_turn hbound hturns hlast⟩

theorem Composition.explore_in_step_metered :
    0 < 2 ∧ (Worklist.start metered).InStep metered 2 [] ∧
    ∃ dequeued w, Worklist.Turns metered 2 dequeued w ∧ w.turn metered 2 = none ∧
      w.InStep metered 2 dequeued ∧ (dequeued.map Found.joint).Nodup ∧ dequeued.length ≤ 6 ∧
      metered.explore 2 = ⟨w.states, w.joints, w.truncated⟩ := by
  obtain ⟨_, hturns, dequeued, w, hlast, hnone, hexplore⟩ := explore_in_step metered 2 (by decide)
  obtain ⟨_, hstart, _⟩ := hturns [] _ .start
  obtain ⟨_, hstep, hnodup, hle⟩ := hturns dequeued w hlast
  exact ⟨by decide, hstart, dequeued, w, hlast, hnone, hstep, hnodup, hle, hexplore⟩

end Lockstep
