import Lockstep.Dominance
import Lockstep.Proofs.Bisimulation
import Lockstep.Proofs.Cursors
import Lockstep.Proofs.Effect

/-!
# Results depend on effects alone

Take two compositions whose protocols have, one by one, the same effect, and which know the same actions.
Whatever is computed from them is the same: explorations, the verdicts of the three checks, the actions
permitted at the start, the tally of dominant protocols (`Composition.results_of_same_effect`). Nothing
else that a protocol carries can show in a result.

There are two ways for something else to get in, through the joint states and through the decisions.
Joint states are the same on both sides, and equality of those that fit is a bisimulation: where an
action passes, every protocol permitted it, and permitted decisions with one voice lead to one state.
Decisions differ on the two sides, but have the same voices, and a fault hears no more than that.
-/

namespace Lockstep

namespace Composition

/-- Compositions of protocols with the same effects that know the same actions. -/
structure SameEffect (c d : Composition) : Prop where
  protocols : List.Forall₂ Protocol.SameEffect c.protocols d.protocols
  alphabet : c.alphabet = d.alphabet

namespace SameEffect

variable {c d : Composition} {joint : JointState}

/-! ## The same joint states -/

theorem map_eq {β : Type} {f g : Protocol → β} (h : c.SameEffect d)
    (hfg : ∀ p q, p.SameEffect q → f p = g q) : c.protocols.map f = d.protocols.map g := by
  rw [← List.forall₂_eq_eq_eq, List.forall₂_map_left_iff, List.forall₂_map_right_iff]
  exact h.protocols.imp hfg

theorem names (h : c.SameEffect d) : c.names = d.names := h.map_eq fun _ _ hpq => hpq.name

theorem radices (h : c.SameEffect d) : c.radices = d.radices :=
  h.map_eq fun _ _ hpq => hpq.stateCount

theorem initialJoint (h : c.SameEffect d) : c.initialJoint = d.initialJoint :=
  h.map_eq fun _ _ hpq => hpq.initialId

theorem productSize (h : c.SameEffect d) : c.productSize = d.productSize := by
  rw [Composition.productSize, Composition.productSize, h.radices]

theorem stateSpaceSize (h : c.SameEffect d) : c.stateSpaceSize = d.stateSpaceSize := by
  rw [stateSpaceSize_eq, stateSpaceSize_eq, h.productSize]

theorem jointStates (h : c.SameEffect d) : c.jointStates = d.jointStates := by
  rw [jointStates_eq_tuples, jointStates_eq_tuples, h.radices]

theorem snapshot (h : c.SameEffect d) (joint : JointState) (actions : List String) :
    c.snapshot joint actions = d.snapshot joint actions := by
  have hzip : c.protocols.zipWith (fun p id => (p.name, p.stateName id)) joint =
      d.protocols.zipWith (fun p id => (p.name, p.stateName id)) joint := by
    have hall := h.protocols
    generalize c.protocols = ps at hall ⊢
    generalize d.protocols = qs at hall ⊢
    induction hall generalizing joint with
    | nil => rfl
    | cons hpq _ ih =>
      cases joint with
      | nil => rfl
      | cons id joint =>
        rw [List.zipWith_cons_cons, List.zipWith_cons_cons, hpq.name, hpq.stateName id, ih joint]
  rw [snapshot_eq, snapshot_eq, hzip]

/-! ## The same voices -/

/-- **Decisions at a joint state that fits have the same voices.** -/
theorem sameVoices (h : c.SameEffect d) (hfits : c.Fits joint) (action : String) :
    (c.composeAt joint action).SameVoices (d.composeAt joint action) := by
  rw [composeAt_eq, composeAt_eq]
  refine JointDecision.sameVoices_conjunction ?_
  have hall := h.protocols
  unfold Fits at hfits
  generalize c.protocols = ps at hall hfits ⊢
  generalize d.protocols = qs at hall ⊢
  induction hall generalizing joint with
  | nil => exact .nil
  | cons hpq _ ih =>
    cases hfits with
    | cons hid hrest => exact .cons (hpq.sameVoice hid action) (ih hrest)

theorem successor? (h : c.SameEffect d) (hfits : c.Fits joint) (action : String) :
    c.successor? joint action = d.successor? joint action := by
  have hvoices := h.sameVoices hfits action
  rw [successor?_eq, successor?_eq, ← hvoices.permitted]
  cases hp : (c.composeAt joint action).globallyPermitted with
  | false => rfl
  | true =>
    have hnext := JointDecision.nextJoint_of_sameVoice hvoices.individual
      (permitted_iff_individual.mp hp)
    exact congrArg some hnext

/-- **The same joint states are run through**, as far as they fit. -/
theorem bisimulation (h : c.SameEffect d) :
    Bisimulation c d (fun joint joint' => joint = joint' ∧ c.Fits joint) where
  fits := by
    rintro joint _ ⟨rfl, hfits⟩
    refine ⟨hfits, ?_⟩
    rw [fits_iff_mem_tuples, ← h.radices, ← fits_iff_mem_tuples]
    exact hfits
  start := ⟨h.initialJoint, c.fits_initialJoint⟩
  step := by
    rintro joint _ ⟨rfl, hfits⟩ action
    rw [← h.successor? hfits]
    cases hs : c.successor? joint action with
    | none => exact .none
    | some next => exact .some ⟨rfl, hfits.successor hs⟩
  unique := by
    rintro j _ k _ ⟨rfl, _⟩ ⟨rfl, _⟩
    exact Iff.rfl

/-! ## The same results -/

theorem snapshot_related (h : c.SameEffect d) {joint joint' : JointState}
    (hR : joint = joint' ∧ c.Fits joint) (path : List String) :
    c.snapshot joint path = d.snapshot joint' path := by
  rw [h.snapshot, hR.1]

theorem records (h : c.SameEffect d) (n : Nat) : c.records n = d.records n := by
  rw [← List.forall₂_eq_eq_eq]
  refine (h.bisimulation.records n).imp ?_
  rintro ⟨joint, path⟩ ⟨_, _⟩ ⟨rfl, rfl, _⟩
  rfl

theorem explore (h : c.SameEffect d) (n : Nat) : c.explore n = d.explore n := by
  have hstates : (c.explore n).states = (d.explore n).states :=
    h.bisimulation.states_eq h.snapshot_related n
  have hjoints : (c.explore n).joints = (d.explore n).joints := by
    rw [explore_joints, explore_joints, h.records]
  have htruncated := h.bisimulation.truncated_eq n
  generalize c.explore n = e at *
  generalize d.explore n = e' at *
  obtain ⟨states, joints, truncated⟩ := e
  obtain ⟨states', joints', truncated'⟩ := e'
  dsimp only at hstates hjoints htruncated
  rw [hstates, hjoints, htruncated]

theorem initiallyPermitted (h : c.SameEffect d) : c.initiallyPermitted = d.initiallyPermitted := by
  unfold Composition.initiallyPermitted
  rw [← h.alphabet, ← h.initialJoint]
  exact List.filter_congr fun action _ => (h.sameVoices c.fits_initialJoint action).permitted

theorem ofPriority (h : c.SameEffect d) (priority : List String) :
    Ranking.ofPriority c priority = Ranking.ofPriority d priority := by
  unfold Ranking.ofPriority
  rw [h.names]

theorem dominant (h : c.SameEffect d) (hfits : c.Fits joint) (r : Ranking) :
    c.dominant r joint = d.dominant r joint := by
  have hdenials : List.Forall₂ Decision.SameVoice
      (c.alphabet.flatMap fun action => (c.composeAt joint action).denying)
      (c.alphabet.flatMap fun action => (d.composeAt joint action).denying) := by
    induction c.alphabet with
    | nil => exact .nil
    | cons action actions ih => exact List.rel_append (h.sameVoices hfits action).denying ih
  rw [dominant_eq, dominant_eq, ← h.alphabet]
  exact map_eq_of_rel (r.sameVoice_highest hdenials) fun _ _ hd => hd.protocol

theorem tally (h : c.SameEffect d) (r : Ranking) :
    c.jointStates.foldl (fun t joint => Dominance.count t (c.dominant r joint)) (.blank c r) =
      d.jointStates.foldl (fun t joint => Dominance.count t (d.dominant r joint)) (.blank d r) := by
  have hblank : Dominance.blank c r = Dominance.blank d r := by
    rw [Dominance.blank, Dominance.blank, h.names]
  rw [← h.jointStates, hblank]
  refine List.foldl_ext _ _ _ ?_
  intro t joint hmem
  rw [jointStates_eq_tuples, ← fits_iff_mem_tuples] at hmem
  rw [h.dominant hmem]

theorem dominance (h : c.SameEffect d) (priority : List String) (ceiling : Nat) :
    c.dominance priority ceiling = d.dominance priority ceiling := by
  rw [dominance_eq, dominance_eq, h.stateSpaceSize, h.ofPriority]
  split
  · rfl
  · cases Ranking.ofPriority d priority with
    | error e => rfl
    | ok r => exact congrArg Except.ok (h.tally r)

end SameEffect

end Composition

namespace Verifier

variable {v : Verifier} {c d : Composition}

/-- A product check of each composition by its own rule gives one verdict, if its faults are heard from
the voices. -/
theorem checkProduct_of_sameEffect {property : Property} {fault : JointDecision → Option String}
    (h : c.SameEffect d) (hfault : ∀ {x y : JointDecision}, x.SameVoices y → fault x = fault y) :
    v.checkProduct property fault c c.composeAt = v.checkProduct property fault d d.composeAt := by
  rw [checkProduct_eq_sweep, checkProduct_eq_sweep, h.productSize, h.stateSpaceSize, h.jointStates]
  refine Verdict.sweep_congr ?_
  intro joint hmem
  have hfits : c.Fits joint := by
    rw [Composition.fits_iff_mem_tuples, h.radices, ← d.jointStates_eq_tuples]
    exact List.mem_of_mem_take hmem
  have hfirst : firstFault fault c.alphabet c.composeAt joint =
      firstFault fault d.alphabet d.composeAt joint := by
    rw [firstFault_eq, firstFault_eq, h.alphabet]
    congr 1
    funext action
    rw [hfault (h.sameVoices hfits action)]
  rw [productFault, productFault, hfirst, h.snapshot]

theorem checkDeadlock_of_sameEffect (h : c.SameEffect d) :
    v.checkDeadlock c = v.checkDeadlock d :=
  h.bisimulation.checkDeadlock_eq h.snapshot_related v

end Verifier

namespace Composition

/-- Everything that is computed from two compositions is the same, for all bounds, rankings and
ceilings. Each of them is its own rule in the checks. -/
structure SameResults (c d : Composition) : Prop where
  explore : ∀ n, c.explore n = d.explore n
  monotonic : ∀ v : Verifier, v.checkMonotonic c c.composeAt = v.checkMonotonic d d.composeAt
  ranking : ∀ priority, Ranking.ofPriority c priority = Ranking.ofPriority d priority
  priority : ∀ (v : Verifier) (r : Ranking),
    v.checkPriority c c.composeAt r = v.checkPriority d d.composeAt r
  deadlock : ∀ v : Verifier, v.checkDeadlock c = v.checkDeadlock d
  initiallyPermitted : c.initiallyPermitted = d.initiallyPermitted
  dominance : ∀ priority ceiling, c.dominance priority ceiling = d.dominance priority ceiling

theorem SameEffect.sameResults {c d : Composition} (h : c.SameEffect d) : c.SameResults d where
  explore := h.explore
  monotonic := fun _ => Verifier.checkProduct_of_sameEffect h Verifier.monotonicFault_eq
  ranking := h.ofPriority
  priority := fun _ r => Verifier.checkProduct_of_sameEffect h (Verifier.priorityFault_eq r)
  deadlock := fun _ => Verifier.checkDeadlock_of_sameEffect h
  initiallyPermitted := h.initiallyPermitted
  dominance := h.dominance

theorem forall₂_sameEffect {c d : Composition}
    (h : List.Forall₂ Definition.SameEffect c.definitions d.definitions) :
    List.Forall₂ Protocol.SameEffect c.protocols d.protocols := by
  unfold definitions at h
  rw [List.forall₂_map_left_iff, List.forall₂_map_right_iff] at h
  exact h.imp fun _ _ => Protocol.sameEffect_of_definition

/--
**Results depend on effects alone.**

Compositions that know the same actions give the same results if their protocols have, one by one, the
same name, the same states in the same order, the same start and the same steps. It is enough that their
declarations have the same effect, so no result can depend on anything else: the cursors, guards,
annotations and error marks, whether an action is denied by a transition or for lack of one, the target of
a denial, and transitions that an earlier one shadows.
-/
theorem results_of_same_effect (c d : Composition) (halphabet : c.alphabet = d.alphabet) :
    (List.Forall₂ Protocol.SameEffect c.protocols d.protocols → c.SameResults d) ∧
      (List.Forall₂ Definition.SameEffect c.definitions d.definitions → c.SameResults d) := by
  constructor
  · intro hprotocols
    exact SameEffect.sameResults ⟨hprotocols, halphabet⟩
  · intro hdefinitions
    exact SameEffect.sameResults ⟨forall₂_sameEffect hdefinitions, halphabet⟩

end Composition

/-! ## Declarations reduced to their effect -/

/-- A transition without its guard, which leads nowhere if it denies. -/
def Transition.bare (t : Transition) : Transition :=
  { t with guard := none, target := if t.permitted then t.target else t.source }

namespace Definition

/-- A declaration without annotations, error marks and guards, in which denials lead nowhere. -/
def bare (d : Definition) : Definition where
  name := d.name
  initialState := d.initialState
  states := d.states.map fun s => .accept s.name
  transitions := d.transitions.map Transition.bare

theorem sameEffect_bare (d : Definition) : d.SameEffect d.bare where
  name := rfl
  stateNames := by
    unfold bare stateNames
    rw [List.map_map]
    rfl
  initialState := rfl
  effect := by
    intro state _ action
    have hfind : d.bare.transitions.find? (·.fits state action) =
        (d.transitions.find? (·.fits state action)).map Transition.bare := List.find?_map
    unfold effect
    rw [hfind]
    cases d.transitions.find? (·.fits state action) with
    | none => rfl
    | some t =>
      dsimp only [Option.map_some, Transition.bare]
      split <;> rfl

end Definition

namespace Composition

theorem alphabet_eq_of_definitions (c : Composition) :
    c.alphabet = Text.sortDistinct (c.definitions.flatMap fun d =>
      Text.sortDistinct (d.transitions.map Transition.action)) := by
  rw [c.alphabet_eq, unionAlphabet, definitions, List.flatMap_map]
  rfl

theorem results_of_same_effect_standard :
    ∃ c d : Composition, c.definitions = Catalog.standard ∧
      d.definitions = Catalog.standard.map Definition.bare ∧ c.alphabet = d.alphabet ∧
      List.Forall₂ Protocol.SameEffect c.protocols d.protocols ∧
      List.Forall₂ Definition.SameEffect c.definitions d.definitions ∧ c.SameResults d := by
  obtain ⟨c, hc⟩ := Catalog.exists_standard
  have hc : c.definitions = Catalog.standard := hc
  obtain ⟨d, hd⟩ : ∃ d : Composition, d.definitions = Catalog.standard.map Definition.bare :=
    exists_composition (by decide) (by decide) (by decide)
  have halphabet : c.alphabet = d.alphabet := by
    rw [alphabet_eq_of_definitions, alphabet_eq_of_definitions, hc, hd, List.flatMap_map]
    simp only [Definition.bare, List.map_map]
    rfl
  have heffect : List.Forall₂ Definition.SameEffect c.definitions d.definitions := by
    rw [hc, hd, List.forall₂_map_right_iff, List.forall₂_same]
    exact fun e _ => e.sameEffect_bare
  exact ⟨c, d, hc, hd, halphabet, forall₂_sameEffect heffect, heffect,
    (results_of_same_effect c d halphabet).2 heffect⟩

end Composition

end Lockstep
