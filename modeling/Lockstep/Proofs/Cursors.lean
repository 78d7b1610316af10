import Lockstep.Proofs.Exploration

/-!
# Cursors follow joint states

A composition can be driven in two ways. Everything that explores or verifies hands it a joint state and
is told the decision there. A user lets it keep the joint state itself, in the cursors of its protocols:
`apply` decides, and if the action passes every protocol decides once more, on its own, and moves.

The two never part. A call moves the cursors as one, to the joint state that the decision names, or not
at all (`Composition.call_callAt`); and since a cursor is no part of what decides, the composition after
a call is still the one before it for anybody who hands it a joint state. Step by step this carries over
to runs of any length, and from there to the search: what a user can get to from the start is what an
exploration lists, by the paths that it lists.
-/

namespace Lockstep

/-! ## Protocols that differ only in their cursors -/

namespace Protocol

variable {p q : Protocol}

/-- **Where the cursor is has no say in a decision.** The map of places and the table follow from the
declaration. -/
theorem decideAt_of_definition_eq (h : p.definition = q.definition) : p.decideAt = q.decideAt := by
  obtain ⟨d, places, hplaced, _, _, table, hwired, _⟩ := p
  obtain ⟨d', places', hplaced', _, _, table', hwired', _⟩ := q
  dsimp only at h
  subst h
  obtain rfl : places = places' := Except.ok.inj (hplaced.symm.trans hplaced')
  obtain rfl : table = table' := Except.ok.inj (hwired.symm.trans hwired')
  rfl

theorem initialId_of_definition_eq (h : p.definition = q.definition) :
    p.initialId.val = q.initialId.val := by
  have hsame : p.definition.stateId? p.definition.initialState =
      q.definition.stateId? q.definition.initialState := by rw [h]
  rw [p.initial_declared, q.initial_declared] at hsame
  exact Option.some.inj hsame

theorem position_moveTo {id : Nat} (hid : id < p.stateCount) : (p.moveTo id).position.val = id := by
  have hlt : id < p.definition.states.length := hid
  rw [moveTo, dif_pos hlt]

/-- A protocol that permits an action moves to the state that its decision names. -/
theorem position_apply {action : String} (h : (p.decide action).permitted = true) :
    (p.apply action).2.position.val = (p.decide action).nextStateId := by
  unfold apply
  dsimp only
  rw [if_pos h]
  exact position_moveTo (nextStateId_lt p.position.isLt action)

end Protocol

namespace Composition

variable {c d : Composition}

/-- The declarations of the composed protocols. -/
def definitions (c : Composition) : List Definition := c.protocols.map Protocol.definition

theorem forall₂_of_definitions_eq (h : c.definitions = d.definitions) :
    List.Forall₂ (fun p q => p.definition = q.definition) c.protocols d.protocols := by
  unfold definitions at h
  rw [← List.forall₂_eq_eq_eq, List.forall₂_map_left_iff, List.forall₂_map_right_iff] at h
  exact h

theorem composeAt_of_definitions_eq (h : c.definitions = d.definitions) :
    c.composeAt = d.composeAt := by
  funext joint action
  have hall := forall₂_of_definitions_eq h
  rw [composeAt_eq, composeAt_eq]
  generalize c.protocols = ps at hall ⊢
  generalize d.protocols = qs at hall ⊢
  congr 1
  induction hall generalizing joint with
  | nil => rfl
  | cons hpq _ ih =>
    cases joint with
    | nil => rfl
    | cons id joint =>
      rw [List.zipWith_cons_cons, List.zipWith_cons_cons, ih joint,
        Protocol.decideAt_of_definition_eq hpq]

theorem initialJoint_of_definitions_eq (h : c.definitions = d.definitions) :
    c.initialJoint = d.initialJoint := by
  have hall := forall₂_of_definitions_eq h
  unfold initialJoint
  rw [← List.forall₂_eq_eq_eq, List.forall₂_map_left_iff, List.forall₂_map_right_iff]
  exact hall.imp fun _ _ => Protocol.initialId_of_definition_eq

theorem definitions_mapProtocols (f : Protocol → Protocol)
    (hf : ∀ p, (f p).definition = p.definition) :
    (c.mapProtocols f hf).definitions = c.definitions := by
  unfold definitions mapProtocols
  rw [List.map_map]
  exact List.map_congr_left fun p _ => hf p

/-! ## One call -/

/-- At the cursors, every protocol decides as it does on its own. -/
theorem individual_decide (c : Composition) (action : String) :
    (c.composeAt c.currentJoint action).individual = c.protocols.map fun p => p.decide action := by
  rw [individual_composeAt, currentJoint, List.zipWith_map_right, List.zipWith_self]
  rfl

/-- **An action that passes moves every cursor**, to where the decision says. -/
theorem currentJoint_apply {action : String}
    (h : (c.composeAt c.currentJoint action).globallyPermitted = true) :
    (c.apply action).2.currentJoint = (c.composeAt c.currentJoint action).nextJoint := by
  have hall : ∀ p ∈ c.protocols, (p.decide action).permitted = true := by
    intro p hp
    have hmem : p.decide action ∈ (c.composeAt c.currentJoint action).individual := by
      rw [individual_decide]
      exact List.mem_map_of_mem hp
    exact permitted_iff_individual.mp h _ hmem
  have hmoved : (c.apply action).2 =
      c.mapProtocols (fun p => (p.apply action).2) (fun p => p.definition_apply action) :=
    if_pos h
  rw [hmoved, JointDecision.nextJoint, individual_decide, List.map_map]
  unfold currentJoint mapProtocols
  rw [List.map_map]
  exact List.map_congr_left fun p hp => Protocol.position_apply (hall p hp)

/-- An action that is blocked moves nothing. -/
theorem apply_of_blocked {action : String}
    (h : (c.composeAt c.currentJoint action).globallyPermitted = false) :
    (c.apply action).2 = c := by
  refine if_neg ?_
  rw [Bool.not_eq_true]
  exact h

theorem currentJoint_resetAll (c : Composition) : c.resetAll.currentJoint = c.initialJoint := by
  unfold currentJoint resetAll mapProtocols initialJoint
  rw [List.map_map]
  rfl

end Composition

/-- What a user asks of a composition. -/
inductive Call where
  /-- Take an action. -/
  | act (action : String)
  /-- Go back to the start. -/
  | reset

namespace Call

/-- Calls one after the other: their answers, and the state after the last one. -/
def run {σ : Type} (step : σ → Call → Option JointDecision × σ) :
    σ → List Call → List (Option JointDecision) × σ
  | s, [] => ([], s)
  | s, call :: calls =>
    let rest := run step (step s call).2 calls
    ((step s call).1 :: rest.1, rest.2)

end Call

namespace Composition

variable {c d : Composition}

/-- Carry out a call with the cursors. Going back to the start has no answer. -/
def call (c : Composition) : Call → Option JointDecision × Composition
  | .act action => (some (c.apply action).1, (c.apply action).2)
  | .reset => (none, c.resetAll)

/-- The same call on a joint state that is handed over. -/
def callAt (c : Composition) (joint : JointState) : Call → Option JointDecision × JointState
  | .act action =>
    let decision := c.composeAt joint action
    (some decision, if decision.globallyPermitted then decision.nextJoint else joint)
  | .reset => (none, c.initialJoint)

theorem definitions_call (c : Composition) (call : Call) :
    (c.call call).2.definitions = c.definitions := by
  cases call with
  | act action =>
    cases hp : (c.composeAt c.currentJoint action).globallyPermitted with
    | true =>
      have hmoved : (c.apply action).2 =
          c.mapProtocols (fun p => (p.apply action).2) (fun p => p.definition_apply action) :=
        if_pos hp
      show (c.apply action).2.definitions = _
      rw [hmoved, definitions_mapProtocols]
    | false =>
      show (c.apply action).2.definitions = _
      rw [apply_of_blocked hp]
  | reset => exact definitions_mapProtocols Protocol.reset (fun _ => rfl)

/-- **One call at the cursors is the call at their joint state.** -/
theorem call_callAt (c : Composition) (call : Call) :
    (c.call call).1 = (c.callAt c.currentJoint call).1 ∧
      (c.call call).2.currentJoint = (c.callAt c.currentJoint call).2 := by
  cases call with
  | act action =>
    refine ⟨rfl, ?_⟩
    dsimp only [Composition.call, callAt]
    cases hp : (c.composeAt c.currentJoint action).globallyPermitted with
    | true => rw [if_pos rfl, currentJoint_apply hp]
    | false => rw [if_neg (by simp), apply_of_blocked hp]
  | reset => exact ⟨rfl, c.currentJoint_resetAll⟩

theorem callAt_of_definitions_eq (h : c.definitions = d.definitions) : c.callAt = d.callAt := by
  funext joint call
  cases call with
  | act action => rw [callAt, callAt, composeAt_of_definitions_eq h]
  | reset => rw [callAt, callAt, initialJoint_of_definitions_eq h]

/-! ## Runs -/

theorem definitions_run (calls : List Call) : ∀ (c : Composition),
    (Call.run Composition.call c calls).2.definitions = c.definitions := by
  induction calls with
  | nil => intro c; rfl
  | cons call calls ih =>
    intro c
    exact (ih (c.call call).2).trans (c.definitions_call call)

/-- **A run with cursors is the run from their joint state**, answer for answer and to its end. -/
theorem run_call (calls : List Call) : ∀ (c : Composition),
    (Call.run Composition.call c calls).1 = (Call.run c.callAt c.currentJoint calls).1 ∧
      (Call.run Composition.call c calls).2.currentJoint =
        (Call.run c.callAt c.currentJoint calls).2 := by
  induction calls with
  | nil => intro c; exact ⟨rfl, rfl⟩
  | cons call calls ih =>
    intro c
    obtain ⟨hanswer, hjoint⟩ := c.call_callAt call
    obtain ⟨hanswers, hlast⟩ := ih (c.call call).2
    -- the composition after the call decides like the one before it
    rw [callAt_of_definitions_eq (c.definitions_call call), hjoint] at hanswers hlast
    dsimp only [Call.run]
    exact ⟨by rw [hanswer, hanswers], hlast⟩

theorem callAt_mem_reachable {joint : JointState} (h : joint ∈ c.reachable) (call : Call) :
    (c.callAt joint call).2 ∈ c.reachable := by
  cases call with
  | act action =>
    dsimp only [callAt]
    split
    · rename_i hp
      exact successor_mem_reachable h (successor?_eq_some_iff.mpr ⟨hp, rfl⟩)
    · exact h
  | reset => exact c.initialJoint_mem_reachable

theorem run_callAt_mem_reachable (calls : List Call) : ∀ {joint : JointState},
    joint ∈ c.reachable → (Call.run c.callAt joint calls).2 ∈ c.reachable := by
  induction calls with
  | nil => intro joint h; exact h
  | cons call calls ih => intro joint h; exact ih (callAt_mem_reachable h call)

/-- Taking the actions of a word that can be replayed passes at every step and ends where it leads. -/
theorem run_callAt_of_replay (word : List String) : ∀ {joint last : JointState},
    c.replay joint word = some last →
    (∀ answer ∈ (Call.run c.callAt joint (word.map .act)).1,
        ∃ decision, answer = some decision ∧ decision.globallyPermitted = true) ∧
      (Call.run c.callAt joint (word.map .act)).2 = last := by
  induction word with
  | nil =>
    intro joint last h
    exact ⟨by simp [Call.run], Option.some.inj h⟩
  | cons action word ih =>
    intro joint last h
    rw [replay_cons] at h
    obtain ⟨next, hstep, hrest⟩ := Option.bind_eq_some_iff.mp h
    obtain ⟨hp, hnext⟩ := successor?_eq_some_iff.mp hstep
    have hmoved : (c.callAt joint (.act action)).2 = next := by
      dsimp only [callAt]
      rw [if_pos hp, hnext]
    obtain ⟨hanswers, hlast⟩ := ih hrest
    simp only [List.map_cons, Call.run, hmoved]
    refine ⟨?_, hlast⟩
    intro answer ha
    rcases List.mem_cons.mp ha with rfl | ha
    · exact ⟨_, rfl, hp⟩
    · exact hanswers answer ha

/-- The joint states that a user who begins at the start can get to are the reachable ones. -/
theorem exists_run_iff {joint : JointState} (hstart : c.currentJoint = c.initialJoint) :
    (∃ calls, (Call.run Composition.call c calls).2.currentJoint = joint) ↔ joint ∈ c.reachable := by
  constructor
  · rintro ⟨calls, rfl⟩
    rw [(run_call calls c).2, hstart]
    exact run_callAt_mem_reachable calls c.initialJoint_mem_reachable
  · rintro ⟨word, hword⟩
    refine ⟨word.map .act, ?_⟩
    rw [(run_call _ c).2, hstart]
    exact (run_callAt_of_replay word hword).2

/-- After going back to the start, a user who takes the actions of a recorded path is never blocked and
ends in the recorded joint state. -/
theorem run_path {n : Nat} {f : Found} (hf : f ∈ c.records n) :
    (∀ answer ∈ (Call.run Composition.call c.resetAll (f.path.map .act)).1,
        ∃ decision, answer = some decision ∧ decision.globallyPermitted = true) ∧
      (Call.run Composition.call c.resetAll (f.path.map .act)).2.currentJoint = f.joint := by
  have hsame : c.resetAll.definitions = c.definitions := c.definitions_call .reset
  obtain ⟨hanswers, hlast⟩ := run_call (f.path.map .act) c.resetAll
  rw [hanswers, hlast, callAt_of_definitions_eq hsame, currentJoint_resetAll]
  exact run_callAt_of_replay f.path (replay_path_of_mem hf)

/--
**Driving a composition by its cursors is driving it by joint states.**

Wherever the cursors are, a run of calls gives the answers and ends at the joint state that the same
calls give from the joint state under the cursors. At any moment of it an action is answered by the
decision at the cursors, and moves all of them, to the joint state that the decision names, or none;
going back to the start moves them there. So from the start a user gets to exactly what a complete
exploration lists, and the listed paths are ways to get there.
-/
theorem run_follows_joints (c : Composition) :
    (∀ calls,
      (Call.run Composition.call c calls).1 = (Call.run c.callAt c.currentJoint calls).1 ∧
      (Call.run Composition.call c calls).2.currentJoint =
        (Call.run c.callAt c.currentJoint calls).2) ∧
    (∀ calls now, (Call.run Composition.call c calls).2 = now →
      now.composeAt = c.composeAt ∧ now.initialJoint = c.initialJoint ∧
      now.resetAll.currentJoint = now.initialJoint ∧
      ∀ action decision, now.composeAt now.currentJoint action = decision →
        (now.apply action).1 = decision ∧
        (decision.globallyPermitted = true →
          (now.apply action).2.currentJoint = decision.nextJoint) ∧
        (decision.globallyPermitted = false → (now.apply action).2 = now)) ∧
    (∀ n, c.currentJoint = c.initialJoint → (c.explore n).truncated = false →
      ∀ joint, (∃ calls, (Call.run Composition.call c calls).2.currentJoint = joint) ↔
        joint ∈ (c.explore n).joints) ∧
    (∀ (n i : Nat) (state : Snapshot), (c.explore n).states[i]? = some state →
      (∀ answer ∈ (Call.run Composition.call c.resetAll (state.actions.map .act)).1,
        ∃ decision, answer = some decision ∧ decision.globallyPermitted = true) ∧
      (c.explore n).joints[i]? =
        some (Call.run Composition.call c.resetAll (state.actions.map .act)).2.currentJoint) := by
  refine ⟨fun calls => run_call calls c, ?_, ?_, ?_⟩
  · rintro calls now rfl
    have hsame := definitions_run calls c
    refine ⟨composeAt_of_definitions_eq hsame, initialJoint_of_definitions_eq hsame,
      currentJoint_resetAll _, ?_⟩
    rintro action decision rfl
    exact ⟨rfl, currentJoint_apply, apply_of_blocked⟩
  · intro n hstart hcomplete joint
    rw [exists_run_iff hstart, explore_joints]
    rcases explore_ends c n with ⟨htrunc, _⟩ | ⟨_, _, hall⟩
    · exact absurd (htrunc.symm.trans hcomplete) (by simp)
    · exact (hall joint).symm
  · intro n i state hstate
    obtain ⟨f, hf, rfl⟩ := exists_record hstate
    obtain ⟨hanswers, hlast⟩ := run_path (List.mem_of_getElem? hf)
    refine ⟨hanswers, ?_⟩
    rw [explore_joints, List.getElem?_map, hf]
    exact congrArg some hlast.symm

end Composition

end Lockstep
