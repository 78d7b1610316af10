import Lockstep.Proofs.Building
import Lockstep.Proofs.Exploration

/-!
# Deadlock freedom

The check explores within its bound and looks for the first record in which nothing passes. Since a
record's path is the least word to it and records come in the order of their paths, the first stuck
record is a stuck joint state closest to the start, and the bound does not matter for that: whatever is
reached by a shorter word has been recorded before.

`Verifier.checkDeadlock_cases` is all that the rest needs to know about the check. `DeadlockVerdict`
spells out what a verdict promises, for bounds below, at and above the number of reachable joint states.
-/

namespace Lockstep

namespace Verifier

/-! ## The first stuck record -/

theorem firstStuck_eq_none {c : Composition} : ∀ {l : List (JointState × Snapshot)} {count : Nat},
    firstStuck c count l = none → ∀ e ∈ l, c.isLive e.1 = true := by
  intro l
  induction l with
  | nil => intro count _ e he; exact absurd he (by simp)
  | cons x l ih =>
    intro count h e he
    obtain ⟨joint, state⟩ := x
    rw [firstStuck_cons] at h
    split at h
    · rename_i hlive
      rcases List.mem_cons.mp he with rfl | he
      · exact hlive
      · exact ih h e he
    · exact absurd h (by simp)

theorem firstStuck_eq_some {c : Composition} {checked : Nat} {state : Snapshot} :
    ∀ {l : List (JointState × Snapshot)} {count : Nat}, firstStuck c count l = some (checked, state) →
      ∃ i joint, l[i]? = some (joint, state) ∧ checked = count + i + 1 ∧ c.isLive joint = false ∧
        ∀ m < i, ∀ e, l[m]? = some e → c.isLive e.1 = true := by
  intro l
  induction l with
  | nil => intro count h; exact absurd h (by simp [firstStuck_nil])
  | cons x l ih =>
    intro count h
    obtain ⟨joint, snapshot⟩ := x
    rw [firstStuck_cons] at h
    split at h
    · rename_i hlive
      obtain ⟨i, stuck, hi, hchecked, hstuck, hbefore⟩ := ih h
      refine ⟨i + 1, stuck, by simpa using hi, by omega, hstuck, ?_⟩
      intro m hm e he
      cases m with
      | zero =>
        have hx : (joint, snapshot) = e := by simpa using he
        exact hx ▸ hlive
      | succ m => exact hbefore m (by omega) e (by simpa using he)
    · rename_i hlive
      injection h with h
      injection h with hchecked hstate
      refine ⟨0, joint, by simp [hstate], by omega, by simpa using hlive, ?_⟩
      intro m hm
      omega

/-! ## What the check can say -/

variable {v : Verifier} {c : Composition}

theorem zip_explore (c : Composition) (n : Nat) :
    (c.explore n).joints.zip (c.explore n).states =
      (c.records n).map fun f => (f.joint, c.snapshot f.joint f.path) := by
  rw [c.explore_joints, c.explore_states, List.zip_map']

/-- **The two verdicts on deadlock freedom.** Either the first stuck record, or that all are live. -/
theorem checkDeadlock_cases (v : Verifier) (c : Composition) :
    (∃ i f, (c.records v.maxStates)[i]? = some f ∧ c.Stuck f.joint ∧
        (∀ m < i, ∀ g, (c.records v.maxStates)[m]? = some g → c.Live g.joint) ∧
        v.checkDeadlock c =
          .violated .deadlockFreedom (i + 1) ⟨c.snapshot f.joint f.path, none⟩ none) ∨
      (∀ f ∈ c.records v.maxStates, c.Live f.joint) ∧
        v.checkDeadlock c = .holding .deadlockFreedom (c.records v.maxStates).length
          (c.explore v.maxStates).truncated := by
  have hlive : ∀ f ∈ c.records v.maxStates, (c.isLive f.joint = true ↔ c.Live f.joint) :=
    fun f hf => (Composition.fits_of_mem_reachable (Composition.records_mem_reachable hf)).isLive_iff
  rw [checkDeadlock_eq, judgeExploration_eq, zip_explore]
  split
  · rename_i checked state hstuck
    obtain ⟨i, joint, hi, hchecked, hdead, hbefore⟩ := firstStuck_eq_some hstuck
    rw [List.getElem?_map] at hi
    obtain ⟨f, hf, hpair⟩ := Option.map_eq_some_iff.mp hi
    injection hpair with hjoint hstate
    subst hjoint hstate
    refine Or.inl ⟨i, f, hf, ?_, ?_, by rw [hchecked, Nat.zero_add]⟩
    · rw [← Composition.not_live_iff, ← hlive f (List.mem_of_getElem? hf), hdead]
      simp
    · intro m hm g hg
      rw [← hlive g (List.mem_of_getElem? hg)]
      exact hbefore m hm (g.joint, c.snapshot g.joint g.path) (by rw [List.getElem?_map, hg]; rfl)
  · rename_i hnone
    refine Or.inr ⟨?_, by rw [c.explore_states, List.length_map]⟩
    intro f hf
    rw [← hlive f hf]
    exact firstStuck_eq_none hnone _ (List.mem_map_of_mem hf)

/-- What a shorter word reaches has been recorded before. -/
theorem exists_earlier_record {n i : Nat} {f : Found} {word : List String} {joint : JointState}
    (hf : (c.records n)[i]? = some f) (hword : c.replay c.initialJoint word = some joint)
    (hlt : word.length < f.path.length) :
    ∃ m < i, ∃ g, (c.records n)[m]? = some g ∧ g.joint = joint := by
  have hmem := List.mem_of_getElem? hf
  obtain ⟨k, done, h⟩ := Composition.recorded_records (c := c) (Composition.pos_of_mem_records hmem)
  have hbefore : Before word f.path := Before.of_length_lt hlt
  obtain ⟨g, hg, hjoint, hle⟩ := h.exists_noLater word hword hmem (Or.inr hbefore)
  obtain ⟨m, hm⟩ := List.mem_iff_getElem?.mp hg
  exact ⟨m, h.lt_of_before hm hf (hle.trans_before hbefore), g, hm, hjoint⟩

/-! ## What a verdict promises -/

/-- A stuck joint state as the check reports it, found as the `index`-th record. -/
structure ClosestDeadlock (c : Composition) (bound : Nat) (r : Verdict) (index : Nat)
    (joint : JointState) (state : Snapshot) : Prop where
  /-- It is discovered at its place, under its names. -/
  joint_found : (c.explore bound).joints[index]? = some joint
  state_found : (c.explore bound).states[index]? = some state
  /-- No action whatsoever passes in it. -/
  stuck : c.Stuck joint
  /-- Its path leads to it from the start, one permitted action after the other. -/
  replays : c.replay c.initialJoint state.actions = some joint
  /-- No shorter word leads to a stuck joint state. -/
  closest : ∀ (word : List String) (other : JointState),
    c.replay c.initialJoint word = some other → c.Stuck other →
    state.actions.length ≤ word.length
  /-- What was discovered before it is live. -/
  first : ∀ m < index, ∀ other, (c.explore bound).joints[m]? = some other → c.Live other
  /-- The verdict shows it, with no action and nobody to blame. -/
  shown : r.counterexample = some ⟨state, none⟩
  unblamed : r.violatingProtocol = none
  /-- It is the last joint state that was looked at. -/
  counted : r.statesChecked = index + 1

/-- What a verdict on deadlock freedom within a bound promises. -/
structure DeadlockVerdict (c : Composition) (bound : Nat) (r : Verdict) : Prop where
  /-- An unlimited pass covers everything reachable. -/
  pass : r.holds = true → r.boundReached = false → ∀ joint ∈ c.reachable, c.Live joint
  /-- A failure shows a reachable stuck joint state closest to the start. -/
  fail : r.holds = false → ∃ index joint state,
    joint ∈ c.reachable ∧ ClosestDeadlock c bound r index joint state
  /-- A pass is limited exactly if there is more to reach than the bound, and all that was discovered
  is live. -/
  limited_iff : r.holds = true ∧ r.boundReached = true ↔
    bound < c.reachable.ncard ∧ ∀ joint ∈ (c.explore bound).joints, c.Live joint
  /-- Then the bound is the number of joint states that were discovered, and of those looked at. -/
  limited_count : r.holds = true → r.boundReached = true →
    (c.explore bound).joints.length = bound ∧ r.statesChecked = bound
  /-- A bound that covers everything reachable decides. -/
  decides : c.reachable.ncard ≤ bound → (r.holds = true ↔ ¬ ∃ joint ∈ c.reachable, c.Stuck joint)

theorem closestDeadlock_of_first {bound i : Nat} {f : Found} (hf : (c.records bound)[i]? = some f)
    (hstuck : c.Stuck f.joint)
    (hbefore : ∀ m < i, ∀ g, (c.records bound)[m]? = some g → c.Live g.joint) :
    ClosestDeadlock c bound
      (.violated .deadlockFreedom (i + 1) ⟨c.snapshot f.joint f.path, none⟩ none) i f.joint
      (c.snapshot f.joint f.path) where
  joint_found := by rw [c.explore_joints, List.getElem?_map, hf]; rfl
  state_found := by rw [c.explore_states, List.getElem?_map, hf]; rfl
  stuck := hstuck
  replays := by
    have hmem := List.mem_of_getElem? hf
    obtain ⟨k, done, h⟩ := Composition.recorded_records (c := c)
      (Composition.pos_of_mem_records hmem)
    exact h.replay_path hmem
  closest := by
    intro word other hword hother
    by_contra hlt
    obtain ⟨m, hm, g, hg, rfl⟩ := exists_earlier_record hf hword (Nat.lt_of_not_le hlt)
    exact Composition.not_live_iff.mpr hother (hbefore m hm g hg)
  first := by
    intro m hm other hother
    rw [c.explore_joints, List.getElem?_map] at hother
    obtain ⟨g, hg, rfl⟩ := Option.map_eq_some_iff.mp hother
    exact hbefore m hm g hg
  shown := rfl
  unblamed := rfl
  counted := rfl

theorem checkDeadlock_verdict (v : Verifier) (c : Composition) :
    DeadlockVerdict c v.maxStates (v.checkDeadlock c) := by
  rcases checkDeadlock_cases v c with ⟨i, f, hf, hstuck, hbefore, hr⟩ | ⟨hlive, hr⟩
  · -- a stuck record: the verdict is a failure, and every other promise is about passes
    have hreach := Composition.records_mem_reachable (List.mem_of_getElem? hf)
    rw [hr]
    exact
      { pass := fun hholds => absurd hholds (by simp [Verdict.violated])
        fail := fun _ => ⟨i, f.joint, _, hreach, closestDeadlock_of_first hf hstuck hbefore⟩
        limited_iff := by
          refine ⟨fun ⟨hholds, _⟩ => absurd hholds (by simp [Verdict.violated]), ?_⟩
          rintro ⟨_, hall⟩
          refine absurd (hall f.joint ?_) (Composition.not_live_iff.mpr hstuck)
          rw [c.explore_joints]
          exact List.mem_map_of_mem (List.mem_of_getElem? hf)
        limited_count := fun hholds => absurd hholds (by simp [Verdict.violated])
        decides := fun _ => by
          refine ⟨fun hholds => absurd hholds (by simp [Verdict.violated]), ?_⟩
          intro hnone
          exact absurd ⟨f.joint, hreach, hstuck⟩ hnone }
  · -- all records are live: the verdict is a pass, limited if the exploration was
    have hall : ∀ joint ∈ (c.explore v.maxStates).joints, c.Live joint := by
      intro joint hj
      rw [c.explore_joints] at hj
      obtain ⟨f, hf, rfl⟩ := List.mem_map.mp hj
      exact hlive f hf
    rw [hr]
    rcases Composition.explore_ends c v.maxStates with
      ⟨htrunc, hlen, hcard⟩ | ⟨hopen, hlen, hcomplete⟩
    · exact
        { pass := fun _ hbound => absurd (htrunc.symm.trans hbound) (by simp)
          fail := fun hholds => absurd hholds (by simp [Verdict.holding])
          limited_iff := ⟨fun _ => ⟨hcard, hall⟩, fun _ => ⟨rfl, htrunc⟩⟩
          limited_count := fun _ _ => ⟨by rw [c.explore_joints, List.length_map, hlen], hlen⟩
          decides := fun hle => absurd hcard (Nat.not_lt.mpr hle) }
    · have hevery : ∀ joint ∈ c.reachable, c.Live joint := by
        intro joint hj
        refine hall joint ?_
        rw [c.explore_joints]
        exact (hcomplete joint).mpr hj
      have hcard := Composition.ncard_reachable_of_complete hcomplete
      exact
        { pass := fun _ _ => hevery
          fail := fun hholds => absurd hholds (by simp [Verdict.holding])
          limited_iff :=
            ⟨fun ⟨_, hbound⟩ => absurd (hopen.symm.trans hbound) (by simp),
              fun ⟨hlt, _⟩ => absurd hlt (by omega)⟩
          limited_count := fun _ hbound => absurd (hopen.symm.trans hbound) (by simp)
          decides := fun _ => by
            refine ⟨?_, fun _ => rfl⟩
            rintro _ ⟨joint, hj, hstuck⟩
            exact Composition.not_live_iff.mpr hstuck (hevery joint hj) }

theorem verifyDeadlock_ok {protocols : List Protocol} (hc : compose protocols = .ok c) :
    (v.verifyDeadlock protocols).outcome = .ok (v.checkDeadlock c) := by
  unfold verifyDeadlock
  rw [Traced.outcome_bind (composeFor_eq_ok hc _)]
  rfl

/--
**The verdict on deadlock freedom is exact**, within what its bound lets it see.

For any protocols that compose there is a verdict. An unlimited pass means that something passes in
every reachable joint state; a failure shows a stuck one, as close to the start as any; a limited pass
means that there is more to reach than the bound, and that all it saw is live.
-/
theorem verifyDeadlock_exact (v : Verifier) (protocols : List Protocol) (hne : protocols ≠ [])
    (hd : (protocols.map Protocol.name).Nodup) :
    ∃ c r, compose protocols = .ok c ∧ (v.verifyDeadlock protocols).outcome = .ok r ∧
      DeadlockVerdict c v.maxStates r := by
  obtain ⟨c, hc, _⟩ := exists_compose_ok hne hd
  exact ⟨c, _, hc, verifyDeadlock_ok hc, checkDeadlock_verdict v c⟩

theorem verifyDeadlock_standard :
    ∃ protocols : List Protocol, protocols.map Protocol.definition = Catalog.standard ∧
      protocols ≠ [] ∧ (protocols.map Protocol.name).Nodup ∧
      ∃ c r, compose protocols = .ok c ∧
        (Verifier.verifyDeadlock ⟨2, by decide⟩ protocols).outcome = .ok r ∧
        DeadlockVerdict c 2 r := by
  obtain ⟨c, hc⟩ := Catalog.exists_standard
  exact ⟨c.protocols, hc, c.nonempty, c.distinct,
    verifyDeadlock_exact ⟨2, by decide⟩ c.protocols c.nonempty c.distinct⟩

end Verifier

end Lockstep
