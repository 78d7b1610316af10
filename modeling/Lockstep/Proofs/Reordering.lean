import Lockstep.Proofs.Bisimulation
import Lockstep.Proofs.Priority

/-!
# The order of composition does not matter

Composing protocols in another order lays joint states out differently and walks the product another way.
What can be reached, and how, stays the same. A joint state is an assignment of states to protocols, and
two joint states belong together if they are the same assignment: the protocols zipped with the positions
are the same list up to order. That relation is a bisimulation, because a decision is taken protocol by
protocol; and it is one-to-one, because no protocol occurs twice. So explorations go the same way and
find the same assignments, under any bound, and deadlocks with them (`order_irrelevant`).

The check of priority ordering stops at a violation that does depend on the walk. Whether there is one
does not: within a bound that covers the product the answer is a condition on the protocols, one by one.
-/

namespace Lockstep

/-! ## Maps with the same bindings -/

namespace OrderedMap

variable {κ β : Type} [DecidableEq κ] {m n : OrderedMap κ β}

/-- Looking a key up finds its binding. -/
theorem get?_eq_some_iff {k : κ} {v : β} : m.get? k = some v ↔ (k, v) ∈ m.entries := by
  unfold get?
  rw [Option.map_eq_some_iff]
  constructor
  · rintro ⟨⟨k', _⟩, hfind, rfl⟩
    have hk : k' = k := by simpa using List.find?_some hfind
    exact hk ▸ List.mem_of_find?_eq_some hfind
  · intro hmem
    obtain ⟨e, he⟩ := Option.isSome_iff_exists.mp
      (List.find?_isSome (p := fun e => Decidable.decide (e.1 = k)).mpr ⟨(k, v), hmem, by simp⟩)
    have hkey : e.1 = k := by simpa using List.find?_some he
    have heq : e = (k, v) :=
      List.inj_on_of_nodup_map m.nodup (List.mem_of_find?_eq_some he) hmem hkey
    exact ⟨e, he, by rw [heq]⟩

/-- The order of the bindings does not matter to looking keys up. -/
theorem get?_of_perm (h : m.entries.Perm n.entries) (k : κ) : m.get? k = n.get? k := by
  ext v
  rw [get?_eq_some_iff, get?_eq_some_iff, h.mem_iff]

end OrderedMap

/-- Snapshots with one path that assign the same states to the same protocols. -/
structure Snapshot.SameReading (s t : Snapshot) : Prop where
  path : s.actions = t.actions
  mapping : ∀ protocol, s.stateOf? protocol = t.stateOf? protocol

namespace Composition

variable {c d : Composition}

/-! ## The same assignment in two layouts -/

/-- Joint states of two compositions that put every protocol in the same state. -/
structure SameAssignment (c d : Composition) (joint joint' : JointState) : Prop where
  fits : c.Fits joint
  fits' : d.Fits joint'
  /-- Protocol by protocol, up to order. -/
  perm : (c.protocols.zip joint).Perm (d.protocols.zip joint')

theorem zip_initialJoint (c : Composition) :
    c.protocols.zip c.initialJoint = c.protocols.map fun p => (p, p.initialId.val) := by
  unfold initialJoint
  rw [List.map_prod_left_eq_zip]

/-- Every protocol moves on its own. -/
theorem zip_nextJoint (c : Composition) (joint : JointState) (action : String) :
    c.protocols.zip (c.composeAt joint action).nextJoint =
      (c.protocols.zip joint).map fun e => (e.1, (e.1.decideAt e.2 action).nextStateId) := by
  rw [nextJoint_composeAt]
  induction c.protocols generalizing joint with
  | nil => rfl
  | cons p ps ih =>
    cases joint with
    | nil => rfl
    | cons id joint =>
      rw [List.zipWith_cons_cons, List.zip_cons_cons, List.zip_cons_cons, List.map_cons, ih joint]

/-- Where no protocol occurs twice, an assignment has one layout. -/
theorem eq_of_zip_perm {ps : List Protocol} (hnd : ps.Nodup) : ∀ {j k : JointState},
    j.length = ps.length → k.length = ps.length → (ps.zip j).Perm (ps.zip k) → j = k := by
  induction ps with
  | nil =>
    intro j k hj hk _
    rw [List.length_eq_zero_iff.mp hj, List.length_eq_zero_iff.mp hk]
  | cons p ps ih =>
    intro j k hj hk hperm
    obtain ⟨hp, hps⟩ := List.nodup_cons.mp hnd
    cases j with
    | nil => exact absurd hj (by simp)
    | cons a j =>
      cases k with
      | nil => exact absurd hk (by simp)
      | cons b k =>
        rw [List.zip_cons_cons, List.zip_cons_cons] at hperm
        -- the position of `p` is the same, since `p` does not occur again
        have hab : a = b := by
          rcases List.mem_cons.mp (hperm.mem_iff.mp (List.mem_cons_self ..)) with heq | hmem
          · exact congrArg Prod.snd heq
          · exact absurd (List.of_mem_zip hmem).1 hp
        subst hab
        rw [ih hps (Nat.succ.inj hj) (Nat.succ.inj hk) hperm.cons_inv]

theorem nodup_protocols (c : Composition) : c.protocols.Nodup := List.Nodup.of_map _ c.distinct

theorem SameAssignment.symm {joint joint' : JointState} (h : c.SameAssignment d joint joint') :
    d.SameAssignment c joint' joint :=
  ⟨h.fits', h.fits, h.perm.symm⟩

theorem SameAssignment.eq {j j' k k' : JointState} (hj : c.SameAssignment d j j')
    (hk : c.SameAssignment d k k') (heq : j = k) : j' = k' := by
  subst heq
  exact eq_of_zip_perm d.nodup_protocols hj.fits'.length_eq hk.fits'.length_eq
    (hj.perm.symm.trans hk.perm)

theorem SameAssignment.permitted_eq {joint joint' : JointState}
    (h : c.SameAssignment d joint joint') (action : String) :
    (c.composeAt joint action).globallyPermitted =
      (d.composeAt joint' action).globallyPermitted := by
  rw [Bool.eq_iff_iff, permitted_iff, permitted_iff]
  simp only [h.perm.mem_iff]

/-- **Being the same assignment is a bisimulation** between compositions of the same protocols. -/
theorem bisimulation_of_perm (hperm : c.protocols.Perm d.protocols) :
    Bisimulation c d (c.SameAssignment d) where
  fits := fun h => ⟨h.fits, h.fits'⟩
  start := by
    refine ⟨c.fits_initialJoint, d.fits_initialJoint, ?_⟩
    rw [zip_initialJoint, zip_initialJoint]
    exact hperm.map _
  step := by
    intro joint joint' h action
    rw [successor?_eq, successor?_eq, h.permitted_eq]
    split
    · refine .some ⟨h.fits.nextJoint action, h.fits'.nextJoint action, ?_⟩
      rw [zip_nextJoint, zip_nextJoint]
      exact h.perm.map _
    · exact .none
  unique := fun hj hk => ⟨hj.eq hk, hj.symm.eq hk.symm⟩

/-! ## The same summaries -/

theorem alphabet_of_perm (hperm : c.protocols.Perm d.protocols) : c.alphabet = d.alphabet := by
  rw [c.alphabet_eq, d.alphabet_eq]
  refine Text.sortDistinct_eq_of_mem_iff ?_
  intro action
  simp only [List.mem_flatMap, hperm.mem_iff]

theorem prod_stateCount_of_perm (hperm : c.protocols.Perm d.protocols) :
    (c.protocols.map Protocol.stateCount).prod = (d.protocols.map Protocol.stateCount).prod :=
  (hperm.map Protocol.stateCount).prod_eq

theorem stateSpaceSize_of_perm (hperm : c.protocols.Perm d.protocols) :
    c.stateSpaceSize = d.stateSpaceSize := by
  rw [stateSpaceSize_eq, stateSpaceSize_eq, productSize_eq_prod, productSize_eq_prod,
    prod_stateCount_of_perm hperm]

theorem SameAssignment.sameReading {joint joint' : JointState}
    (h : c.SameAssignment d joint joint') (actions : List String) :
    (c.snapshot joint actions).SameReading (d.snapshot joint' actions) where
  path := rfl
  mapping := by
    refine OrderedMap.get?_of_perm ?_
    rw [h.fits.entries_snapshot, h.fits'.entries_snapshot, ← List.map_uncurry_zip_eq_zipWith,
      ← List.map_uncurry_zip_eq_zipWith]
    exact h.perm.map _

theorem explore_of_perm (hperm : c.protocols.Perm d.protocols) (n : Nat) :
    List.Forall₂ Snapshot.SameReading (c.explore n).states (d.explore n).states :=
  (bisimulation_of_perm hperm).states_related SameAssignment.sameReading n

end Composition

/-! ## Priority -/

/-- A priority list ranks exactly if it names no stranger. -/
theorem Ranking.ofPriority_cases (c : Composition) (priority : List String) :
    (∀ name ∈ priority, name ∈ c.names) ∧ Ranking.ofPriority c priority = .ok (.ofOrder priority) ∨
      (∃ name ∈ priority, name ∉ c.names) ∧ ∃ e, Ranking.ofPriority c priority = .error e := by
  unfold ofPriority
  dsimp only
  split
  · rename_i hnone
    rw [List.isEmpty_iff, List.filter_eq_nil_iff] at hnone
    exact Or.inl ⟨by simpa using hnone, rfl⟩
  · rename_i hsome
    rw [List.isEmpty_iff, List.filter_eq_nil_iff] at hsome
    exact Or.inr ⟨by simpa using hsome, _, rfl⟩

/-- A step that fails is the end. -/
theorem Traced.outcome_bind_error {ε α β : Type} {x : Traced ε α} {e : ε}
    (h : x.outcome = .error e) (f : α → Traced ε β) : (x >>= f).outcome = .error e := by
  obtain ⟨log, outcome⟩ := x
  cases h
  rfl

namespace Verifier

variable {v : Verifier} {c d : Composition} {r : Ranking}

theorem verifyPriority_error {protocols : List Protocol} {priority : List String} {e : Error}
    (hc : compose protocols = .ok c) (hr : Ranking.ofPriority c priority = .error e) :
    (v.verifyPriority protocols priority).outcome = .error e := by
  unfold verifyPriority
  rw [Traced.outcome_bind (composeFor_eq_ok hc _)]
  exact Traced.outcome_bind_error hr _

/-- **Whether priority ordering is violated does not depend on the walk**, if the bound covers the
product. -/
theorem checkPriority_holds_of_perm (hperm : c.protocols.Perm d.protocols)
    (hbound : (c.protocols.map Protocol.stateCount).prod ≤ v.maxStates) :
    (v.checkPriority c c.composeAt r).holds = (v.checkPriority d d.composeAt r).holds := by
  have hbound' := hbound
  rw [Composition.prod_stateCount_of_perm hperm] at hbound'
  rw [Bool.eq_iff_iff, checkPriority_holds_iff hbound, checkPriority_holds_iff hbound',
    Composition.alphabet_of_perm hperm]
  -- who is at the top, and who permits what somewhere, is said of the protocols one by one
  simp only [Composition.exists_outranked_iff, Ranking.IsTop, hperm.mem_iff]

end Verifier

/--
**The order of composition does not matter.**

Protocols composed in two orders know the same actions and span equally many joint states. Under every
bound the explorations are equally long, equally truncated, and find, one by one, the same assignments by
the same paths; a deadlock is found at the same place, by the same path, or by neither. A priority list
is refused by both or by neither, and if the bound covers the product the answers agree.
-/
theorem order_irrelevant (ps qs : List Protocol) (hne : ps ≠ [])
    (hd : (ps.map Protocol.name).Nodup) (hperm : ps.Perm qs) :
    ∃ c d, compose ps = .ok c ∧ compose qs = .ok d ∧
      c.alphabet = d.alphabet ∧ c.stateSpaceSize = d.stateSpaceSize ∧
      (∀ n, (c.explore n).joints.length = (d.explore n).joints.length ∧
        (c.explore n).truncated = (d.explore n).truncated ∧
        List.Forall₂ Snapshot.SameReading (c.explore n).states (d.explore n).states) ∧
      (∀ v : Verifier, (v.checkDeadlock c).SameCourse (v.checkDeadlock d)) ∧
      ∀ (v : Verifier) (priority : List String),
        (ps.map Protocol.stateCount).prod ≤ v.maxStates →
        (∀ name ∈ priority, name ∈ ps.map Protocol.name) ∧
            (∃ x y, (v.verifyPriority ps priority).outcome = .ok x ∧
              (v.verifyPriority qs priority).outcome = .ok y ∧ x.holds = y.holds) ∨
          (∃ name ∈ priority, name ∉ ps.map Protocol.name) ∧
            ∃ e e', (v.verifyPriority ps priority).outcome = .error e ∧
              (v.verifyPriority qs priority).outcome = .error e' := by
  obtain ⟨c, hc, rfl⟩ := exists_compose_ok hne hd
  have hne' : qs ≠ [] := fun hnil => hne (hnil ▸ hperm).eq_nil
  obtain ⟨d, hd, rfl⟩ := exists_compose_ok hne' ((hperm.map Protocol.name).nodup hd)
  have hbisim := Composition.bisimulation_of_perm hperm
  refine ⟨c, d, hc, hd, Composition.alphabet_of_perm hperm,
    Composition.stateSpaceSize_of_perm hperm, ?_, hbisim.checkDeadlock, ?_⟩
  · intro n
    refine ⟨?_, hbisim.truncated_eq n, Composition.explore_of_perm hperm n⟩
    rw [c.explore_joints, d.explore_joints, List.length_map, List.length_map]
    exact (hbisim.records n).length_eq
  · intro v priority hbound
    have hnames : ∀ name, name ∈ c.names ↔ name ∈ d.names := fun _ =>
      (hperm.map Protocol.name).mem_iff
    rcases Ranking.ofPriority_cases c priority with ⟨hknown, hr⟩ | ⟨⟨name, hname, hnew⟩, e, hr⟩
    · rcases Ranking.ofPriority_cases d priority with ⟨_, hr'⟩ | ⟨⟨name, hname, hnew⟩, _⟩
      · exact Or.inl ⟨hknown, _, _, Verifier.verifyPriority_ok hc hr,
          Verifier.verifyPriority_ok hd hr', Verifier.checkPriority_holds_of_perm hperm hbound⟩
      · exact absurd ((hnames name).mp (hknown name hname)) hnew
    · rcases Ranking.ofPriority_cases d priority with ⟨hknown, _⟩ | ⟨_, e', hr'⟩
      · exact absurd ((hnames name).mpr (hknown name hname)) hnew
      · exact Or.inr ⟨⟨name, hname, hnew⟩, e, e', Verifier.verifyPriority_error hc hr,
          Verifier.verifyPriority_error hd hr'⟩

theorem order_irrelevant_standard :
    ∃ ps : List Protocol, ps.map Protocol.definition = Catalog.standard ∧ ps ≠ [] ∧
      (ps.map Protocol.name).Nodup ∧ ps.Perm ps.reverse ∧
      (ps.map Protocol.stateCount).prod ≤ 27 ∧
      ∃ c d, compose ps = .ok c ∧ compose ps.reverse = .ok d ∧
        c.alphabet = d.alphabet ∧ c.stateSpaceSize = d.stateSpaceSize ∧
        List.Forall₂ Snapshot.SameReading (c.explore 4).states (d.explore 4).states ∧
        (Verifier.checkDeadlock ⟨4, by decide⟩ c).SameCourse
          (Verifier.checkDeadlock ⟨4, by decide⟩ d) ∧
        ∃ x y, (Verifier.verifyPriority ⟨27, by decide⟩ ps ["ASP"]).outcome = .ok x ∧
          (Verifier.verifyPriority ⟨27, by decide⟩ ps.reverse ["ASP"]).outcome = .ok y ∧
          x.holds = y.holds := by
  obtain ⟨b, hb⟩ := Catalog.exists_standard
  have hnames : b.protocols.map Protocol.name = Catalog.standard.map Definition.name := by
    rw [← hb, List.map_map]
    rfl
  have hcounts : b.protocols.map Protocol.stateCount =
      Catalog.standard.map fun e => e.states.length := by
    rw [← hb, List.map_map]
    rfl
  have hbound : (b.protocols.map Protocol.stateCount).prod ≤ 27 := by
    rw [hcounts]
    decide
  have hperm : b.protocols.Perm b.protocols.reverse := (List.reverse_perm _).symm
  obtain ⟨c, d, hc, hd, halphabet, hsize, hexplore, hdeadlock, hpriority⟩ :=
    order_irrelevant b.protocols b.protocols.reverse b.nonempty b.distinct hperm
  refine ⟨b.protocols, hb, b.nonempty, b.distinct, hperm, hbound, c, d, hc, hd, halphabet, hsize,
    (hexplore 4).2.2, hdeadlock _, ?_⟩
  rcases hpriority ⟨27, by decide⟩ ["ASP"] hbound with ⟨_, hanswers⟩ | ⟨⟨name, hname, hnew⟩, _⟩
  · exact hanswers
  · rw [hnames, List.mem_singleton.mp hname] at hnew
    exact absurd hnew (by decide)

end Lockstep
