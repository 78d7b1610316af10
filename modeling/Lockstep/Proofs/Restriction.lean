import Lockstep.Proofs.Exploration
import Lockstep.Proofs.Interpreter
import Mathlib.Data.List.Sort

/-!
# Composing more only restricts

Put more protocols behind those of a composition. The larger composition knows more actions, has longer
joint states and is searched in another order; still it can do nothing that the smaller one cannot. Cut
to the positions of the first protocols, a joint state of the larger composition is one of the smaller,
and an action that passes there passes here, with the cut of the joint state it leads to.

That is a simulation, and what a simulation gives is said for any of them: a word that passes in the one
composition passes in the other, to the view of the joint state it led to. So every discovery of the one
search has its view among the discoveries of the other, if that one is complete. Its path there can only
be earlier: the other composition may have more words to choose from, but it has this one too.
-/

namespace Lockstep

/-- A view of the joint states of `d` under which `c` follows whatever `d` does. -/
structure Simulation (d c : Composition) (view : JointState → JointState) : Prop where
  /-- The start is seen as the start. -/
  start : view d.initialJoint = c.initialJoint
  /-- What passes in a joint state passes in its view, and leads to what is then seen. -/
  step : ∀ {joint next : JointState} {action : String}, d.successor? joint action = some next →
    c.successor? (view joint) action = some (view next)

namespace Simulation

variable {c d : Composition} {view : JointState → JointState} {m n : Nat}

/-- **A word that passes in `d` passes in `c`**, and leads to the view of where it led. -/
theorem replay (h : Simulation d c view) (word : List String) : ∀ {joint last : JointState},
    d.replay joint word = some last → c.replay (view joint) word = some (view last) := by
  induction word with
  | nil =>
    intro joint last hword
    have hlast : joint = last := Option.some.inj hword
    rw [hlast]
    rfl
  | cons action word ih =>
    intro joint last hword
    rw [Composition.replay_cons] at hword ⊢
    obtain ⟨next, hstep, hrest⟩ := Option.bind_eq_some_iff.mp hword
    rw [h.step hstep]
    exact ih hrest

/-- The path of a discovery in `d` leads, in `c`, to its view. -/
theorem replay_path (h : Simulation d c view) {f : Found} (hf : f ∈ d.records n) :
    c.replay c.initialJoint f.path = some (view f.joint) := by
  rw [← h.start]
  exact h.replay f.path (Composition.replay_path_of_mem hf)

/-- **What `d` discovers is seen in a complete exploration of `c`**, by a path that is no later. -/
theorem exists_record (h : Simulation d c view) {f : Found} (hf : f ∈ d.records n)
    (hcomplete : (c.explore m).truncated = false) :
    ∃ g ∈ c.records m, g.joint = view f.joint ∧ NoLater g.path f.path := by
  have hword := h.replay_path hf
  rcases c.explore_ends m with ⟨htrunc, _, _⟩ | ⟨_, _, hall⟩
  · exact absurd (htrunc.symm.trans hcomplete) (by simp)
  · have hmem := (hall (view f.joint)).mpr ⟨f.path, hword⟩
    obtain ⟨g, hg, hjoint⟩ := List.mem_map.mp hmem
    rw [← hjoint] at hword
    exact ⟨g, hg, hjoint, Composition.path_noLater_of_mem hg hword⟩

end Simulation

/-! ## The first protocols of a composition -/

namespace Composition

variable {c d : Composition} {others : List Protocol}

/-- The first protocols decide as they do on their own. -/
theorem individual_take (h : d.protocols = c.protocols ++ others) (joint : JointState)
    (action : String) :
    (d.composeAt joint action).individual.take c.protocols.length =
      (c.composeAt (joint.take c.protocols.length) action).individual := by
  rw [individual_composeAt, individual_composeAt, List.take_zipWith, h, List.take_left]

theorem nextJoint_take (h : d.protocols = c.protocols ++ others) (joint : JointState)
    (action : String) :
    (d.composeAt joint action).nextJoint.take c.protocols.length =
      (c.composeAt (joint.take c.protocols.length) action).nextJoint := by
  unfold JointDecision.nextJoint
  rw [← List.map_take, individual_take h]

/-- **An action that passes among all passes among the first.** -/
theorem permitted_take (h : d.protocols = c.protocols ++ others) {joint : JointState}
    {action : String} (hp : (d.composeAt joint action).globallyPermitted = true) :
    (c.composeAt (joint.take c.protocols.length) action).globallyPermitted = true := by
  have hall : ∀ x ∈ (d.composeAt joint action).individual, x.permitted = true :=
    permitted_iff_individual.mp hp
  refine permitted_iff_individual.mpr ?_
  intro x hx
  have hx : x ∈ (c.composeAt (joint.take c.protocols.length) action).individual := hx
  rw [← individual_take h] at hx
  exact hall x (List.mem_of_mem_take hx)

theorem initialJoint_take (h : d.protocols = c.protocols ++ others) :
    d.initialJoint.take c.protocols.length = c.initialJoint := by
  unfold initialJoint
  rw [← List.map_take, h, List.take_left]

/-- **The first protocols follow the whole composition.** -/
theorem simulation_take (h : d.protocols = c.protocols ++ others) :
    Simulation d c (List.take c.protocols.length) where
  start := initialJoint_take h
  step := by
    intro joint next action hstep
    obtain ⟨hp, hnext⟩ := successor?_eq_some_iff.mp hstep
    rw [← hnext, nextJoint_take h]
    exact successor?_eq_some_iff.mpr ⟨permitted_take h hp, rfl⟩

/-- The actions that pass at the start are, in the same order, among those of the first protocols. -/
theorem initiallyPermitted_sublist (h : d.protocols = c.protocols ++ others) :
    d.initiallyPermitted.Sublist c.initiallyPermitted := by
  have hsorted : ∀ e : Composition, e.initiallyPermitted.Pairwise (· < ·) := fun e =>
    e.alphabet_increasing.sublist List.filter_sublist
  have hsub : d.initiallyPermitted ⊆ c.initiallyPermitted := by
    intro action haction
    have hp := (List.mem_filter.mp haction).2
    have hp' := permitted_take h hp
    rw [initialJoint_take h] at hp'
    -- the smaller alphabet has the action too, since an action that passes is declared
    have hdeclared := mem_alphabet_of_permitted c.fits_initialJoint hp'
    exact List.mem_filter.mpr ⟨hdeclared, hp'⟩
  have hnodup : d.initiallyPermitted.Nodup := (hsorted d).imp ne_of_lt
  exact List.sublist_of_subperm_of_pairwise (hnodup.subperm hsub) (hsorted d) (hsorted c)

end Composition

/--
**Composing more protocols only restricts.**

Whatever passes in a joint state of all the protocols passes in the part of it that belongs to the first
ones, and leads them where it leads them among all. So at the start no action passes that did not pass
before; and the path of every state discovered among all can be taken by the first ones alone, to their
part of that state. A complete exploration of the first ones lists that part, by a path that is no later.
-/
theorem composing_restricts (ps qs : List Protocol) (hne : ps ≠ [])
    (hd : ((ps ++ qs).map Protocol.name).Nodup) :
    ∃ c d, compose ps = .ok c ∧ compose (ps ++ qs) = .ok d ∧
      (∀ (joint rest : JointState) (action : String), joint.length = ps.length →
        (d.composeAt (joint ++ rest) action).globallyPermitted = true →
        (c.composeAt joint action).globallyPermitted = true ∧
          (c.composeAt joint action).nextJoint =
            (d.composeAt (joint ++ rest) action).nextJoint.take ps.length) ∧
      d.initiallyPermitted.Sublist c.initiallyPermitted ∧
      ∀ (n i : Nat) (state : Snapshot), (d.explore n).states[i]? = some state →
        ∃ joint, (d.explore n).joints[i]? = some joint ∧
          c.replay c.initialJoint state.actions = some (joint.take ps.length) ∧
          ∀ m, (c.explore m).truncated = false →
            ∃ (k : Nat) (seen : Snapshot),
              (c.explore m).joints[k]? = some (joint.take ps.length) ∧
              (c.explore m).states[k]? = some seen ∧ NoLater seen.actions state.actions := by
  have hd' : (ps.map Protocol.name).Nodup := by
    rw [List.map_append] at hd
    exact hd.of_append_left
  obtain ⟨c, hc, rfl⟩ := exists_compose_ok hne hd'
  obtain ⟨d, hd, hall⟩ := exists_compose_ok (List.append_ne_nil_of_left_ne_nil hne qs) hd
  have hsim := Composition.simulation_take hall
  refine ⟨c, d, hc, hd, ?_, Composition.initiallyPermitted_sublist hall, ?_⟩
  · intro joint rest action hlen hp
    have hpart : (joint ++ rest).take c.protocols.length = joint := by
      rw [← hlen, List.take_left]
    have hp' := Composition.permitted_take hall hp
    have hnext := Composition.nextJoint_take hall (joint ++ rest) action
    rw [hpart] at hp' hnext
    exact ⟨hp', hnext.symm⟩
  · intro n i state hstate
    obtain ⟨f, hf, rfl⟩ := Composition.exists_record hstate
    have hmem := List.mem_of_getElem? hf
    refine ⟨f.joint, ?_, hsim.replay_path hmem, ?_⟩
    · rw [Composition.explore_joints, List.getElem?_map, hf]
      rfl
    · intro m hcomplete
      obtain ⟨g, hg, hjoint, hpath⟩ := hsim.exists_record hmem hcomplete
      obtain ⟨k, hk⟩ := List.getElem?_of_mem hg
      refine ⟨k, c.snapshot g.joint g.path, ?_, ?_, hpath⟩
      · rw [Composition.explore_joints, List.getElem?_map, hk, ← hjoint]
        rfl
      · rw [Composition.explore_states, List.getElem?_map, hk]
        rfl

/-- One protocol of the catalogue alone and before two others. -/
theorem composing_restricts_standard :
    ∃ ps qs : List Protocol, ps.map Protocol.definition = [Catalog.atp] ∧
      qs.map Protocol.definition = [Catalog.asp, Catalog.aeap] ∧ ps ≠ [] ∧
      ((ps ++ qs).map Protocol.name).Nodup ∧
      ∃ c d, compose ps = .ok c ∧ compose (ps ++ qs) = .ok d ∧
        (d.composeAt ([0] ++ [0, 0]) "write").globallyPermitted = true ∧
        (c.composeAt [0] "write").globallyPermitted = true ∧
        (c.composeAt [0] "write").nextJoint =
          (d.composeAt ([0] ++ [0, 0]) "write").nextJoint.take 1 ∧
        d.initiallyPermitted.Sublist c.initiallyPermitted ∧
        ∀ (i : Nat) (state : Snapshot), (d.explore 4).states[i]? = some state →
          ∃ joint, (d.explore 4).joints[i]? = some joint ∧
            c.replay c.initialJoint state.actions = some (joint.take 1) := by
  obtain ⟨p, _, hp⟩ := Definition.WellFormed.exists_build_ok (d := Catalog.atp) (by decide)
  obtain ⟨q, _, hq⟩ := Definition.WellFormed.exists_build_ok (d := Catalog.asp) (by decide)
  obtain ⟨r, _, hr⟩ := Definition.WellFormed.exists_build_ok (d := Catalog.aeap) (by decide)
  have hnames : (([p] ++ [q, r]).map Protocol.name).Nodup := by
    simp only [List.cons_append, List.nil_append, List.map_cons, List.map_nil, Protocol.name, hp, hq,
      hr]
    decide
  obtain ⟨c, d, hc, hd, hstep, hstart, hstates⟩ :=
    composing_restricts [p] [q, r] (by simp) hnames
  -- each of the three permits the first `write`
  have hwrite : ∀ {s : Protocol} {e : Definition} {state : String}, s.definition = e →
      e.stateNames[0]? = some state → (e.read state "write").permitted = true →
      (s.decideAt 0 "write").permitted = true := by
    intro s e state hs hstate hread
    subst hs
    have hname : s.stateName? 0 = some state := by
      rw [Protocol.stateName?_eq]
      exact hstate
    rw [Protocol.decideAt_eq_read hname]
    exact hread
  have hpass : (d.composeAt ([0] ++ [0, 0]) "write").globallyPermitted = true := by
    refine Composition.permitted_iff.mpr ?_
    rw [protocols_of_compose_ok hd]
    intro s id hs
    simp only [List.cons_append, List.nil_append, List.zip_cons_cons, List.zip_nil_right,
      List.mem_cons, List.not_mem_nil, or_false, Prod.mk.injEq] at hs
    rcases hs with ⟨rfl, rfl⟩ | ⟨rfl, rfl⟩ | ⟨rfl, rfl⟩
    · exact hwrite hp rfl (by decide)
    · exact hwrite hq rfl (by decide)
    · exact hwrite hr rfl (by decide)
  obtain ⟨hpass', hnext⟩ := hstep [0] [0, 0] "write" rfl hpass
  refine ⟨[p], [q, r], by simp [hp], by simp [hq, hr], by simp, hnames, c, d, hc, hd, hpass, hpass',
    hnext, hstart, ?_⟩
  intro i state hstate
  obtain ⟨joint, hjoint, hreplay, _⟩ := hstates 4 i state hstate
  exact ⟨joint, hjoint, hreplay⟩

end Lockstep
