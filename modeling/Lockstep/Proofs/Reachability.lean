import Lockstep.Proofs.Odometer
import Mathlib.Data.Set.Finite.List

/-!
# What a composition can reach

A word of actions is replayed from a joint state one action at a time, each of which has to pass. The
joint states that some word leads to from the start are the reachable ones. The words are arbitrary:
nothing here restricts them to the alphabet.

Nothing has to, because of two facts that hold wherever every protocol has a position with a state at
it. Such a joint state leads only to others of its kind, and there an action passes only if it is in
the alphabet. So following the alphabet alone misses nothing, and the reachable joint states are among
the finitely many of the product.
-/

namespace Lockstep

theorem JointDecision.conjunction_permitted_iff {action : String} {decisions : List Decision} :
    (conjunction action decisions).globallyPermitted = true ↔ ∀ d ∈ decisions, d.permitted = true := by
  unfold conjunction
  dsimp only
  rw [List.isEmpty_iff, List.map_eq_nil_iff, List.filter_eq_nil_iff]
  simp [Decision.isDenied]

namespace Composition

/-! ## One step -/

theorem fits_initialJoint (c : Composition) : c.Fits c.initialJoint := by
  unfold Fits initialJoint
  rw [List.forall₂_map_right_iff, List.forall₂_same]
  intro p _
  exact p.initialId.isLt

/-- **A decision at a joint state that fits leads to one that fits**, whether it passes or not. -/
theorem Fits.nextJoint {c : Composition} {joint : JointState} (h : c.Fits joint) (action : String) :
    c.Fits (c.composeAt joint action).nextJoint := by
  rw [nextJoint_composeAt]
  unfold Fits at *
  generalize c.protocols = protocols at h ⊢
  induction h with
  | nil => simp
  | cons hid _ ih => exact List.Forall₂.cons (Protocol.nextStateId_lt hid action) ih

theorem mem_alphabet {c : Composition} {action : String} :
    action ∈ c.alphabet ↔ ∃ p ∈ c.protocols, action ∈ p.allActions := by
  rw [c.alphabet_eq, unionAlphabet, Text.mem_sortDistinct, List.mem_flatMap]

theorem alphabet_increasing (c : Composition) : c.alphabet.Pairwise (· < ·) := by
  rw [c.alphabet_eq]
  exact Text.sortDistinct_increasing _

theorem Fits.exists_position {c : Composition} {joint : JointState} (h : c.Fits joint)
    {p : Protocol} (hp : p ∈ c.protocols) : ∃ id, (p, id) ∈ c.protocols.zip joint := by
  obtain ⟨k, hk, rfl⟩ := List.mem_iff_getElem.mp hp
  have hk' : k < joint.length := h.length_eq ▸ hk
  refine ⟨joint[k], List.mem_iff_getElem.mpr ⟨k, by simp [hk, hk'], ?_⟩⟩
  simp

theorem Fits.lt_stateCount {c : Composition} {joint : JointState} (h : c.Fits joint)
    {p : Protocol} {id : Nat} (hm : (p, id) ∈ c.protocols.zip joint) : id < p.stateCount :=
  (List.forall₂_iff_zip.mp h).2 hm

/-- Joint states are put together freely: one state of each protocol, each chosen on its own. -/
theorem exists_fits {c : Composition} {P : Protocol → Nat → Prop}
    (h : ∀ p ∈ c.protocols, ∃ id < p.stateCount, P p id) :
    ∃ joint, c.Fits joint ∧ ∀ p id, (p, id) ∈ c.protocols.zip joint → P p id := by
  choose! position hposition using h
  have hall : List.Forall₂ (fun p id => id < p.stateCount ∧ P p id) c.protocols
      (c.protocols.map position) :=
    List.forall₂_map_right_iff.mpr (List.forall₂_same.mpr hposition)
  refine ⟨c.protocols.map position, hall.imp fun _ _ h => h.1, ?_⟩
  intro p id hm
  exact ((List.forall₂_iff_zip.mp hall).2 hm).2

theorem mem_individual {c : Composition} {joint : JointState} {action : String} {d : Decision} :
    d ∈ (c.composeAt joint action).individual ↔
      ∃ p id, (p, id) ∈ c.protocols.zip joint ∧ p.decideAt id action = d := by
  rw [individual_composeAt, ← List.map_uncurry_zip_eq_zipWith, List.mem_map]
  simp [Function.uncurry]

theorem permitted_iff_individual {c : Composition} {joint : JointState} {action : String} :
    (c.composeAt joint action).globallyPermitted = true ↔
      ∀ d ∈ (c.composeAt joint action).individual, d.permitted = true := by
  rw [composeAt_eq]
  exact JointDecision.conjunction_permitted_iff

/-- An action passes exactly if every protocol permits it at its position. -/
theorem permitted_iff {c : Composition} {joint : JointState} {action : String} :
    (c.composeAt joint action).globallyPermitted = true ↔
      ∀ p id, (p, id) ∈ c.protocols.zip joint → (p.decideAt id action).permitted = true := by
  rw [permitted_iff_individual]
  constructor
  · intro h p id hm
    exact h _ (mem_individual.mpr ⟨p, id, hm, rfl⟩)
  · intro h d hd
    obtain ⟨p, id, hm, rfl⟩ := mem_individual.mp hd
    exact h p id hm

/-- **Only actions of the alphabet pass.** One protocol is enough to see it: whoever permits an action
declares it. -/
theorem mem_alphabet_of_permitted {c : Composition} {joint : JointState} {action : String}
    (h : c.Fits joint) (hp : (c.composeAt joint action).globallyPermitted = true) :
    action ∈ c.alphabet := by
  obtain ⟨p, hmem⟩ := List.exists_mem_of_ne_nil _ c.nonempty
  obtain ⟨id, hm⟩ := h.exists_position hmem
  have hpermit := permitted_iff.mp hp p id hm
  exact mem_alphabet.mpr ⟨p, hmem, Protocol.mem_allActions_of_permitted (h.lt_stateCount hm) hpermit⟩

theorem successor?_eq_some_iff {c : Composition} {joint next : JointState} {action : String} :
    c.successor? joint action = some next ↔
      (c.composeAt joint action).globallyPermitted = true ∧
        (c.composeAt joint action).nextJoint = next := by
  rw [successor?_eq]
  split
  · rename_i hp
    simp [hp]
  · rename_i hp
    simp [hp]

theorem Fits.successor {c : Composition} {joint next : JointState} {action : String}
    (h : c.Fits joint) (hs : c.successor? joint action = some next) : c.Fits next := by
  obtain ⟨_, rfl⟩ := successor?_eq_some_iff.mp hs
  exact h.nextJoint action

/-! ## Words -/

/-- Where a word of actions leads from a joint state, if every action of it passes. -/
def replay (c : Composition) : JointState → List String → Option JointState
  | joint, [] => some joint
  | joint, action :: word =>
    if (c.composeAt joint action).globallyPermitted then
      c.replay (c.composeAt joint action).nextJoint word
    else none

theorem replay_cons (c : Composition) (joint : JointState) (action : String) (word : List String) :
    c.replay joint (action :: word) =
      (c.successor? joint action).bind fun next => c.replay next word := by
  rw [replay, successor?_eq]
  split <;> rfl

theorem replay_append (c : Composition) (u v : List String) : ∀ (joint : JointState),
    c.replay joint (u ++ v) = (c.replay joint u).bind fun next => c.replay next v := by
  induction u with
  | nil => intro joint; rfl
  | cons a u ih =>
    intro joint
    simp only [List.cons_append, replay_cons, Option.bind_assoc, ih]

theorem replay_snoc_eq_some_iff {c : Composition} {joint last : JointState} {word : List String}
    {action : String} :
    c.replay joint (word ++ [action]) = some last ↔
      ∃ next, c.replay joint word = some next ∧ c.successor? next action = some last := by
  have hone : ∀ next, c.replay next [action] = c.successor? next action := by
    intro next
    rw [replay_cons]
    cases c.successor? next action <;> rfl
  rw [replay_append, Option.bind_eq_some_iff]
  simp only [hone]

theorem Fits.replay {c : Composition} {word : List String} : ∀ {joint last : JointState},
    c.Fits joint → c.replay joint word = some last → c.Fits last := by
  induction word with
  | nil =>
    intro joint last h hr
    exact Option.some.inj hr ▸ h
  | cons a word ih =>
    intro joint last h hr
    rw [replay_cons] at hr
    obtain ⟨next, hs, hrest⟩ := Option.bind_eq_some_iff.mp hr
    exact ih (h.successor hs) hrest

/-- The joint states that some word leads to from the joint initial state. -/
def reachable (c : Composition) : Set JointState :=
  {joint | ∃ word, c.replay c.initialJoint word = some joint}

theorem initialJoint_mem_reachable (c : Composition) : c.initialJoint ∈ c.reachable := ⟨[], rfl⟩

theorem successor_mem_reachable {c : Composition} {joint next : JointState} {action : String}
    (h : joint ∈ c.reachable) (hs : c.successor? joint action = some next) :
    next ∈ c.reachable := by
  obtain ⟨word, hword⟩ := h
  exact ⟨word ++ [action], replay_snoc_eq_some_iff.mpr ⟨joint, hword, hs⟩⟩

theorem fits_of_mem_reachable {c : Composition} {joint : JointState} (h : joint ∈ c.reachable) :
    c.Fits joint := by
  obtain ⟨word, hword⟩ := h
  exact c.fits_initialJoint.replay hword

/-- Some action, of the alphabet or not, passes in a joint state. -/
def Live (c : Composition) (joint : JointState) : Prop :=
  ∃ action, (c.composeAt joint action).globallyPermitted = true

/-- Every action, of the alphabet or not, is blocked in a joint state. -/
def Stuck (c : Composition) (joint : JointState) : Prop :=
  ∀ action, (c.composeAt joint action).globallyPermitted = false

theorem not_live_iff {c : Composition} {joint : JointState} : ¬ c.Live joint ↔ c.Stuck joint := by
  unfold Live Stuck
  simp

/-- Trying the alphabet is enough to tell whether anything passes. -/
theorem Fits.isLive_iff {c : Composition} {joint : JointState} (h : c.Fits joint) :
    c.isLive joint = true ↔ c.Live joint := by
  unfold Live
  rw [isLive_eq, List.any_eq_true]
  constructor
  · rintro ⟨action, _, hp⟩
    exact ⟨action, hp⟩
  · rintro ⟨action, hp⟩
    exact ⟨action, mem_alphabet_of_permitted h hp, hp⟩

/-- **There are finitely many reachable joint states.** -/
theorem reachable_finite (c : Composition) : c.reachable.Finite := by
  refine (List.finite_toSet (Odometer.tuples c.radices)).subset ?_
  intro joint h
  exact fits_iff_mem_tuples.mp (fits_of_mem_reachable h)

end Composition

end Lockstep
