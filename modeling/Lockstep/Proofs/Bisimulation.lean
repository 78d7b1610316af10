import Lockstep.Proofs.LeastWords
import Lockstep.Proofs.Sweep

/-!
# Compositions that run alike

Two compositions may lay their joint states out differently and still let the same words pass. A relation
between their joint states shows it if it starts related, follows every action from related to related
joint states, and pairs each joint state with at most one other. The last point is what a search needs:
two words lead to one joint state here if and only if they do there, so the least words are the same, and
with them everything that an exploration is made of. Discovery order, truncation and deadlocks follow
with no further look at the search.
-/

namespace Lockstep

theorem exists_of_rel_some {α β : Type} {R : α → β → Prop} {a : α} {y : Option β}
    (h : Option.Rel R (some a) y) : ∃ b, y = some b ∧ R a b := by
  cases h with
  | some hR => exact ⟨_, rfl, hR⟩

/-- A relation between joint states under which two compositions run alike. -/
structure Bisimulation (c d : Composition) (R : JointState → JointState → Prop) : Prop where
  /-- Only joint states that fit are related. -/
  fits : ∀ {joint joint'}, R joint joint' → c.Fits joint ∧ d.Fits joint'
  /-- The starts are related. -/
  start : R c.initialJoint d.initialJoint
  /-- Related joint states let the same actions pass, and lead to related ones. -/
  step : ∀ {joint joint'}, R joint joint' → ∀ action,
    Option.Rel R (c.successor? joint action) (d.successor? joint' action)
  /-- A joint state is related to at most one other, in either direction. -/
  unique : ∀ {j j' k k'}, R j j' → R k k' → (j = k ↔ j' = k')

/-- Verdicts that agree in everything but the layout of the joint states they show. -/
structure Verdict.SameCourse (x y : Verdict) : Prop where
  holds : x.holds = y.holds
  statesChecked : x.statesChecked = y.statesChecked
  boundReached : x.boundReached = y.boundReached
  /-- Both show a counterexample, by one path, or neither does. -/
  path : x.counterexample.map (·.state.actions) = y.counterexample.map (·.state.actions)

namespace Bisimulation

variable {c d : Composition} {R : JointState → JointState → Prop}

theorem symm (h : Bisimulation c d R) : Bisimulation d c (fun j k => R k j) where
  fits := fun hR => (h.fits hR).symm
  start := h.start
  step := by
    intro joint joint' hR action
    have hstep := h.step hR action
    generalize c.successor? joint' action = x at hstep ⊢
    generalize d.successor? joint action = y at hstep ⊢
    cases hstep with
    | none => exact .none
    | some hnext => exact .some hnext
  unique := fun hj hk => (h.unique hj hk).symm

/-- **A word passes here if and only if it does there**, and leads to related joint states. -/
theorem replay (h : Bisimulation c d R) (word : List String) : ∀ {joint joint' : JointState},
    R joint joint' → Option.Rel R (c.replay joint word) (d.replay joint' word) := by
  induction word with
  | nil => intro joint joint' hR; exact .some hR
  | cons action word ih =>
    intro joint joint' hR
    have hstep := h.step hR action
    rw [Composition.replay_cons, Composition.replay_cons]
    generalize c.successor? joint action = x at hstep ⊢
    generalize d.successor? joint' action = y at hstep ⊢
    cases hstep with
    | none => exact .none
    | some hnext => exact ih hnext

theorem replay_some (h : Bisimulation c d R) {word : List String} {joint : JointState}
    (hword : c.replay c.initialJoint word = some joint) :
    ∃ joint', d.replay d.initialJoint word = some joint' ∧ R joint joint' := by
  have hrel := h.replay word h.start
  rw [hword] at hrel
  exact exists_of_rel_some hrel

theorem leastWords_subset (h : Bisimulation c d R) : c.leastWords ⊆ d.leastWords := by
  rintro word ⟨joint, hword, hleast⟩
  obtain ⟨joint', hword', hR⟩ := h.replay_some hword
  refine ⟨joint', hword', ?_⟩
  intro other hother
  -- a word that leads to the same joint state there does so here
  obtain ⟨k, hk, hkR⟩ := h.symm.replay_some hother
  have hsame : joint = k := (h.unique hR hkR).mpr rfl
  exact hleast other (hsame ▸ hk)

theorem leastWords_eq (h : Bisimulation c d R) : c.leastWords = d.leastWords :=
  Set.Subset.antisymm h.leastWords_subset h.symm.leastWords_subset

/-! ## Explorations -/

/-- **The searches record related joint states by the same paths**, one by one. -/
theorem records (h : Bisimulation c d R) (n : Nat) :
    List.Forall₂ (fun f g => f.path = g.path ∧ R f.joint g.joint) (c.records n) (d.records n) := by
  have hpaths := Composition.paths_eq h.leastWords_eq n
  rw [← c.map_recordOf_paths n, ← d.map_recordOf_paths n, ← hpaths, List.forall₂_map_left_iff,
    List.forall₂_map_right_iff, List.forall₂_same]
  intro word hword
  obtain ⟨f, hf, rfl⟩ := List.mem_map.mp hword
  obtain ⟨joint', hword', hR⟩ := h.replay_some (Composition.replay_path_of_mem hf)
  have hthere : (d.recordOf f.path).joint = joint' := by
    rw [Composition.recordOf, hword', Option.getD_some]
  rw [Composition.recordOf_path hf, hthere]
  exact ⟨rfl, hR⟩

theorem joints_related (h : Bisimulation c d R) (n : Nat) :
    List.Forall₂ R (c.explore n).joints (d.explore n).joints := by
  rw [Composition.explore_joints, Composition.explore_joints, List.forall₂_map_left_iff,
    List.forall₂_map_right_iff]
  exact (h.records n).imp fun _ _ hrelated => hrelated.2

/-- What is true of the snapshots of related joint states is true of the states that are shown, one by one. -/
theorem states_related (h : Bisimulation c d R) {T : Snapshot → Snapshot → Prop}
    (hT : ∀ {j k}, R j k → ∀ path, T (c.snapshot j path) (d.snapshot k path)) (n : Nat) :
    List.Forall₂ T (c.explore n).states (d.explore n).states := by
  rw [Composition.explore_states, Composition.explore_states, List.forall₂_map_left_iff,
    List.forall₂_map_right_iff]
  refine (h.records n).imp ?_
  rintro f g ⟨hpath, hR⟩
  rw [hpath]
  exact hT hR g.path

theorem truncated_eq (h : Bisimulation c d R) (n : Nat) :
    (c.explore n).truncated = (d.explore n).truncated := by
  rw [Composition.explore_truncated, Composition.explore_truncated, ← c.ncard_leastWords,
    h.leastWords_eq, d.ncard_leastWords]

/-! ## Deadlocks -/

theorem permitted_of_permitted (h : Bisimulation c d R) {joint joint' : JointState}
    (hR : R joint joint') {action : String}
    (hp : (c.composeAt joint action).globallyPermitted = true) :
    (d.composeAt joint' action).globallyPermitted = true := by
  have hstep := h.step hR action
  rw [Composition.successor?_eq_some_iff.mpr ⟨hp, rfl⟩] at hstep
  obtain ⟨next, hnext, _⟩ := exists_of_rel_some hstep
  exact (Composition.successor?_eq_some_iff.mp hnext).1

theorem live_of_live (h : Bisimulation c d R) {joint joint' : JointState} (hR : R joint joint')
    (hlive : c.Live joint) : d.Live joint' := by
  obtain ⟨action, hp⟩ := hlive
  exact ⟨action, h.permitted_of_permitted hR hp⟩

theorem isLive_eq (h : Bisimulation c d R) {joint joint' : JointState} (hR : R joint joint') :
    c.isLive joint = d.isLive joint' := by
  obtain ⟨hfits, hfits'⟩ := h.fits hR
  rw [Bool.eq_iff_iff, hfits.isLive_iff, hfits'.isLive_iff]
  exact ⟨h.live_of_live hR, h.symm.live_of_live hR⟩

/-- What is true of the snapshots of related joint states is true of the deadlocks that are reported. -/
theorem stuckFault_related (h : Bisimulation c d R) {T : Snapshot → Snapshot → Prop}
    (hT : ∀ {j k}, R j k → ∀ path, T (c.snapshot j path) (d.snapshot k path)) (n : Nat) :
    List.Forall₂ (fun f g => Option.Rel
        (fun e e' => T e.1.state e'.1.state ∧ e.1.action = e'.1.action ∧ e.2 = e'.2)
        (Verifier.stuckFault c f) (Verifier.stuckFault d g))
      (c.records n) (d.records n) := by
  refine (h.records n).imp ?_
  rintro f g ⟨hpath, hR⟩
  unfold Verifier.stuckFault
  rw [h.isLive_eq hR, hpath]
  split
  · exact .none
  · exact .some ⟨hT hR g.path, rfl, rfl⟩

/-- **Deadlocks are found at the same place, by the same path.** -/
theorem checkDeadlock (h : Bisimulation c d R) (v : Verifier) :
    (v.checkDeadlock c).SameCourse (v.checkDeadlock d) := by
  have hfaults := h.stuckFault_related (T := fun s t => s.actions = t.actions) (fun _ _ => rfl) v.maxStates
  rw [Verifier.checkDeadlock_eq_sweep, Verifier.checkDeadlock_eq_sweep, h.truncated_eq]
  rcases Verdict.sweep_related hfaults with ⟨k, e, e', ⟨hpath, _⟩, hc, hd⟩ | ⟨k, hc, hd⟩
  · rw [hc, hd]
    exact ⟨rfl, rfl, rfl, congrArg some hpath⟩
  · rw [hc, hd]
    exact ⟨rfl, rfl, rfl, rfl⟩

/-! ## Joint states that read the same -/

/-- Where related joint states have one snapshot, explorations show the same states. -/
theorem states_eq (h : Bisimulation c d R)
    (hsnapshot : ∀ {j k}, R j k → ∀ path, c.snapshot j path = d.snapshot k path) (n : Nat) :
    (c.explore n).states = (d.explore n).states := by
  rw [← List.forall₂_eq_eq_eq]
  exact h.states_related hsnapshot n

/-- Where related joint states have one snapshot, the verdicts on deadlocks are the same. -/
theorem checkDeadlock_eq (h : Bisimulation c d R)
    (hsnapshot : ∀ {j k}, R j k → ∀ path, c.snapshot j path = d.snapshot k path) (v : Verifier) :
    v.checkDeadlock c = v.checkDeadlock d := by
  have hfaults := h.stuckFault_related hsnapshot v.maxStates
  rw [Verifier.checkDeadlock_eq_sweep, Verifier.checkDeadlock_eq_sweep, h.truncated_eq]
  rcases Verdict.sweep_related hfaults with
    ⟨k, ⟨⟨s, a⟩, x⟩, ⟨⟨t, b⟩, y⟩, ⟨hstate, haction, hblamed⟩, hc, hd⟩ | ⟨k, hc, hd⟩
  · dsimp only at hstate haction hblamed
    rw [hc, hd, hstate, haction, hblamed]
  · rw [hc, hd]

end Bisimulation

end Lockstep
