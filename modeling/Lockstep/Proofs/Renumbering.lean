import Lockstep.Proofs.Bisimulation
import Lockstep.Proofs.Exports
import Lockstep.Proofs.MixedRadix
import Mathlib.Data.Set.Function

/-!
# The order of states does not matter

Inside a composition a state is its place in the declaration, and a joint state a tuple of places. Declaring
the states of a protocol in another order renumbers them, so a search meets other tuples. It shows names, and
those stay the same (`state_order_irrelevant`).

Two joint states belong together if they read the same by name. A decision is the scan of the transitions at
the name of a state, and what it says by name mentions no place (`Decision.byName`). So joint states that read
the same decide the same and lead to joint states that read the same: that is a bisimulation, and it is
one-to-one because the states of a protocol have names of their own. Everything that an exploration shows by
name is then equal, and the tuples differ by the renumbering alone (`Protocol.renumber`).
-/

namespace Lockstep

/-! ## Declarations with their states in another order -/

/-- What a decision says by name: who decides, whether the action is permitted, and the state to move to. -/
def Decision.byName (x : Decision) : String × Bool × String := (x.protocol, x.permitted, x.nextState)

namespace Definition

/-- The same declaration, with its states in another order. -/
structure Redeclares (d e : Definition) : Prop where
  name : d.name = e.name
  initialState : d.initialState = e.initialState
  states : d.states.Perm e.states
  transitions : d.transitions = e.transitions

namespace Redeclares

variable {d e : Definition}

theorem symm (h : d.Redeclares e) : e.Redeclares d :=
  ⟨h.name.symm, h.initialState.symm, h.states.symm, h.transitions.symm⟩

theorem stateNames (h : d.Redeclares e) : d.stateNames.Perm e.stateNames := h.states.map State.name

theorem wellFormed (h : d.Redeclares e) (hd : d.WellFormed) : e.WellFormed where
  distinct := h.stateNames.nodup_iff.mp hd.distinct
  initial := by
    rw [← h.initialState]
    exact h.stateNames.mem_iff.mp hd.initial
  endpoints := by
    intro t ht
    rw [← h.transitions] at ht
    obtain ⟨hsource, htarget⟩ := hd.endpoints t ht
    exact ⟨h.stateNames.mem_iff.mp hsource, h.stateNames.mem_iff.mp htarget⟩

/-- The scan at a name finds the same transition; only the place of its target differs. -/
theorem byName_read (h : d.Redeclares e) (state action : String) :
    (d.read state action).byName = (e.read state action).byName := by
  unfold read Decision.byName
  rw [h.transitions, h.name]
  cases e.transitions.find? (·.fits state action) with
  | none => rfl
  | some t => rfl

end Redeclares

theorem forall_wellFormed_of_redeclares {ds es : List Definition} (h : List.Forall₂ Redeclares ds es)
    (hds : ∀ d ∈ ds, d.WellFormed) : ∀ e ∈ es, e.WellFormed := by
  induction h with
  | nil => exact hds
  | cons hde _ ih =>
    rw [List.forall_mem_cons] at hds ⊢
    exact ⟨hde.wellFormed hds.1, ih hds.2⟩

end Definition

/-! ## One protocol in two numberings -/

namespace Protocol

variable {p q : Protocol} {id id' : Nat}

/-- The same protocol, wherever its cursor is, with its states in another order. -/
def Redeclares (p q : Protocol) : Prop := p.definition.Redeclares q.definition

/-- The place in `q` of the state that `p` has at a place. -/
def renumber (p q : Protocol) (id : Nat) : Nat := q.stateNames.idxOf (p.stateName id)

theorem stateName?_of_lt (hid : id < p.stateCount) : p.stateName? id = some (p.stateName id) := by
  obtain ⟨name, hname⟩ := exists_stateName hid
  rw [stateName_of_stateName? hname]
  exact hname

/-- The place of a state is found by its name. -/
theorem renumber_eq (hid' : id' < q.stateCount) (hname : p.stateName id = q.stateName id') :
    p.renumber q id = id' := by
  rw [renumber, hname]
  exact Definition.idxOf_of_stateId? (stateId?_of_stateName? (stateName?_of_lt hid'))

/-- **Every state keeps what was declared of it**, at its new place. -/
theorem Redeclares.states_renumber (h : p.Redeclares q) (hid : id < p.stateCount) :
    q.states[p.renumber q id]? = p.states[id]? := by
  obtain ⟨s, hs⟩ : ∃ s, p.states[id]? = some s := ⟨_, List.getElem?_eq_getElem hid⟩
  have hmem : s ∈ q.states := h.states.mem_iff.mp (List.mem_of_getElem? hs)
  obtain ⟨k, hk⟩ := List.mem_iff_getElem?.mp hmem
  have hplace : p.renumber q id = k := by
    refine renumber_eq (List.getElem?_eq_some_iff.mp hk).1 ?_
    rw [stateName_eq, stateName_eq, stateName?, stateName?, hs, hk]
  rw [hplace, hs, hk]

theorem Redeclares.renumber_lt (h : p.Redeclares q) (hid : id < p.stateCount) :
    p.renumber q id < q.stateCount := by
  have hstate := h.states_renumber hid
  rw [List.getElem?_eq_getElem hid] at hstate
  exact (List.getElem?_eq_some_iff.mp hstate).1

theorem Redeclares.stateName_renumber (h : p.Redeclares q) (hid : id < p.stateCount) :
    q.stateName (p.renumber q id) = p.stateName id := by
  rw [stateName_eq, stateName_eq, stateName?, stateName?, h.states_renumber hid]

/-- **Renumbering is a permutation of the places.** -/
theorem Redeclares.bijOn_renumber (h : p.Redeclares q) :
    Set.BijOn (p.renumber q) (Set.Iio p.stateCount) (Set.Iio q.stateCount) := by
  have hback : q.Redeclares p := Definition.Redeclares.symm h
  -- renumbering back undoes it, on both sides
  have hinv : Set.InvOn (q.renumber p) (p.renumber q) (Set.Iio p.stateCount) (Set.Iio q.stateCount) := by
    constructor
    · intro id hid
      exact renumber_eq hid (h.stateName_renumber hid)
    · intro id hid
      exact renumber_eq hid (hback.stateName_renumber hid)
  exact hinv.bijOn (fun _ hid => h.renumber_lt hid) (fun _ hid => hback.renumber_lt hid)

/-- **At states of one name the decisions say the same by name.** -/
theorem Redeclares.byName_decideAt (h : p.Redeclares q) (hid : id < p.stateCount)
    (hid' : id' < q.stateCount) (hname : p.stateName id = q.stateName id') (action : String) :
    (p.decideAt id action).byName = (q.decideAt id' action).byName := by
  rw [decideAt_eq_read (stateName?_of_lt hid), decideAt_eq_read (stateName?_of_lt hid'), hname]
  exact Definition.Redeclares.byName_read h _ action

end Protocol

/-! ## Joint states that read the same -/

namespace Composition

variable {c d : Composition} {joint joint' : JointState}

/-- Joint states of two compositions that read the same by name. -/
structure SameNaming (c d : Composition) (joint joint' : JointState) : Prop where
  fits : c.Fits joint
  fits' : d.Fits joint'
  naming : c.naming joint = d.naming joint'

/-- The joint state that reads the same in a composition with the states in another order. -/
def renumber (c d : Composition) (joint : JointState) : JointState :=
  (c.protocols.zip d.protocols).zipWith (fun e id => e.1.renumber e.2 id) joint

theorem SameNaming.eq_renumber (h : c.SameNaming d joint joint') : joint' = c.renumber d joint := by
  obtain ⟨hfits, hfits', hnaming⟩ := h
  unfold Fits at hfits hfits'
  unfold Composition.naming at hnaming
  unfold renumber
  generalize c.protocols = ps at hfits hnaming ⊢
  generalize d.protocols = qs at hfits' hnaming ⊢
  induction hfits generalizing qs joint' with
  | nil =>
    -- nothing is named on the left, so there is nothing on the right
    cases hfits' with
    | nil => rfl
    | cons _ _ => exact absurd hnaming (by simp)
  | cons hid _ ih =>
    cases hfits' with
    | nil => exact absurd hnaming (by simp)
    | cons hid' hrest =>
      rw [List.zipWith_cons_cons, List.zipWith_cons_cons, List.cons.injEq, Prod.mk.injEq] at hnaming
      obtain ⟨⟨_, hname⟩, hnaming⟩ := hnaming
      rw [List.zip_cons_cons, List.zipWith_cons_cons, Protocol.renumber_eq hid' hname, ← ih _ hrest hnaming]

theorem SameNaming.snapshot_eq (h : c.SameNaming d joint joint') (path : List String) :
    c.snapshot joint path = d.snapshot joint' path := by
  have hnaming : c.naming joint = d.naming joint' := h.naming
  unfold Composition.naming at hnaming
  rw [Composition.snapshot_eq, Composition.snapshot_eq, hnaming]

theorem naming_initialJoint (c : Composition) :
    c.naming c.initialJoint = c.protocols.map fun p => (p.name, p.definition.initialState) := by
  unfold naming initialJoint
  rw [List.zipWith_map_right, List.zipWith_self]
  refine List.map_congr_left ?_
  intro p _
  rw [Protocol.stateName_of_stateName? p.stateName?_initialId]

/-- The next joint state reads as the decisions say. -/
theorem Fits.naming_nextJoint (h : c.Fits joint) (action : String) :
    c.naming (c.composeAt joint action).nextJoint =
      (c.composeAt joint action).individual.map fun x => (x.protocol, x.nextState) := by
  unfold Fits at h
  rw [nextJoint_composeAt, individual_composeAt, naming]
  generalize c.protocols = ps at h ⊢
  induction h with
  | nil => rfl
  | cons hid _ ih =>
    rw [List.zipWith_cons_cons, List.zipWith_cons_cons, List.zipWith_cons_cons, List.map_cons, ih,
      Protocol.decideAt_protocol, Protocol.stateName_of_stateName? (Protocol.stateName?_nextStateId hid action)]

/-- **Joint states that read the same decide the same**, protocol by protocol. -/
theorem SameNaming.byName_individual (h : c.SameNaming d joint joint')
    (hsame : List.Forall₂ Protocol.Redeclares c.protocols d.protocols) (action : String) :
    (c.composeAt joint action).individual.map Decision.byName =
      (d.composeAt joint' action).individual.map Decision.byName := by
  obtain ⟨hfits, hfits', hnaming⟩ := h
  unfold Fits at hfits hfits'
  unfold Composition.naming at hnaming
  rw [individual_composeAt, individual_composeAt]
  generalize c.protocols = ps at hsame hfits hnaming ⊢
  generalize d.protocols = qs at hsame hfits' hnaming ⊢
  induction hsame generalizing joint joint' with
  | nil =>
    cases hfits
    cases hfits'
    rfl
  | cons hpq _ ih =>
    cases hfits with
    | cons hid hrest =>
      cases hfits' with
      | cons hid' hrest' =>
        rw [List.zipWith_cons_cons, List.zipWith_cons_cons, List.cons.injEq, Prod.mk.injEq] at hnaming
        obtain ⟨⟨_, hname⟩, hnaming⟩ := hnaming
        rw [List.zipWith_cons_cons, List.zipWith_cons_cons, List.map_cons, List.map_cons,
          hpq.byName_decideAt hid hid' hname action, ih hrest hrest' hnaming]

theorem permitted_iff_byName (c : Composition) (joint : JointState) (action : String) :
    (c.composeAt joint action).globallyPermitted = true ↔
      ∀ x ∈ (c.composeAt joint action).individual.map Decision.byName, x.2.1 = true := by
  have hconj : (c.composeAt joint action).globallyPermitted = true ↔
      ∀ x ∈ (c.composeAt joint action).individual, x.permitted = true :=
    permitted_iff_individual
  rw [hconj, List.forall_mem_map]
  exact Iff.rfl

/-- **Reading the same is a bisimulation** between compositions that differ in the order of states. -/
theorem bisimulation_of_redeclares (hsame : List.Forall₂ Protocol.Redeclares c.protocols d.protocols) :
    Bisimulation c d (c.SameNaming d) where
  fits := fun h => ⟨h.fits, h.fits'⟩
  start := by
    refine ⟨c.fits_initialJoint, d.fits_initialJoint, ?_⟩
    rw [naming_initialJoint, naming_initialJoint, ← List.forall₂_eq_eq_eq, List.forall₂_map_left_iff,
      List.forall₂_map_right_iff]
    refine hsame.imp ?_
    intro p q hpq
    have hname : p.name = q.name := hpq.name
    rw [hname, hpq.initialState]
  step := by
    intro joint joint' h action
    have hbyName := h.byName_individual hsame action
    have hpermitted : (c.composeAt joint action).globallyPermitted =
        (d.composeAt joint' action).globallyPermitted := by
      rw [Bool.eq_iff_iff, permitted_iff_byName, permitted_iff_byName, hbyName]
    rw [successor?_eq, successor?_eq, hpermitted]
    split
    · refine .some ⟨h.fits.nextJoint action, h.fits'.nextJoint action, ?_⟩
      rw [h.fits.naming_nextJoint, h.fits'.naming_nextJoint]
      -- protocol and state are part of what a decision says by name
      have hnames := congrArg (List.map fun x : String × Bool × String => (x.1, x.2.2)) hbyName
      rw [List.map_map, List.map_map] at hnames
      exact hnames
    · exact .none
  unique := by
    intro j j' k k' hj hk
    constructor
    · rintro rfl
      exact hj.fits'.naming_inj hk.fits' (hj.naming.symm.trans hk.naming)
    · rintro rfl
      exact hj.fits.naming_inj hk.fits (hj.naming.trans hk.naming.symm)

/-- **The joint states that are met differ by the renumbering.** -/
theorem explore_joints_of_redeclares (hsame : List.Forall₂ Protocol.Redeclares c.protocols d.protocols)
    (n : Nat) : (d.explore n).joints = (c.explore n).joints.map (c.renumber d) := by
  rw [← List.forall₂_eq_eq_eq, List.forall₂_map_right_iff]
  refine ((bisimulation_of_redeclares hsame).joints_related n).flip.imp ?_
  intro joint' joint h
  exact h.eq_renumber

end Composition

/-! ## The order of states -/

/-- **The order of states does not matter.** Take distinctly named protocols, and declare the states of each
in another order. The new declarations build. However they are built, the places of every protocol's states
are permuted, and each state keeps its declaration. Both lists compose. Under every bound the explorations
show the same states by the same actions in the same order, and both stop early or neither does; the joint
states correspond place by place through the permutations. Deadlocks are judged the same. -/
theorem state_order_irrelevant (ps : List Protocol) (es : List Definition) (hne : ps ≠ [])
    (hd : (ps.map Protocol.name).Nodup)
    (h : List.Forall₂ Definition.Redeclares (ps.map Protocol.definition) es) :
    (∃ qs, Definition.Built es qs) ∧
      ∀ qs : List Protocol, qs.map Protocol.definition = es →
        ∃ c d, compose ps = .ok c ∧ compose qs = .ok d ∧
          (∀ p q, (p, q) ∈ ps.zip qs →
            Set.BijOn (p.renumber q) (Set.Iio p.stateCount) (Set.Iio q.stateCount) ∧
              ∀ id < p.stateCount, q.states[p.renumber q id]? = p.states[id]?) ∧
          (∀ n, (c.explore n).states = (d.explore n).states ∧
            (c.explore n).truncated = (d.explore n).truncated ∧
            (d.explore n).joints = (c.explore n).joints.map (c.renumber d)) ∧
          ∀ v : Verifier, v.checkDeadlock c = v.checkDeadlock d := by
  constructor
  · refine Definition.exists_built (Definition.forall_wellFormed_of_redeclares h ?_)
    intro e he
    obtain ⟨p, _, rfl⟩ := List.mem_map.mp he
    exact p.wellFormed
  · rintro qs rfl
    have hsame : List.Forall₂ Protocol.Redeclares ps qs := by
      rw [List.forall₂_map_left_iff, List.forall₂_map_right_iff] at h
      exact h
    have hnames : ps.map Protocol.name = qs.map Protocol.name := by
      rw [← List.forall₂_eq_eq_eq, List.forall₂_map_left_iff, List.forall₂_map_right_iff]
      exact hsame.imp fun _ _ hpq => hpq.name
    have hne' : qs ≠ [] := by
      rintro rfl
      exact hne (List.map_eq_nil_iff.mp hnames)
    obtain ⟨c, hc, rfl⟩ := exists_compose_ok hne hd
    obtain ⟨d, hd, rfl⟩ := exists_compose_ok hne' (hnames ▸ hd)
    have hbisim := Composition.bisimulation_of_redeclares hsame
    refine ⟨c, d, hc, hd, ?_, ?_, ?_⟩
    · intro p q hpq
      have hredeclares : p.Redeclares q := (List.forall₂_iff_zip.mp hsame).2 hpq
      exact ⟨hredeclares.bijOn_renumber, fun _ hid => hredeclares.states_renumber hid⟩
    · intro n
      exact ⟨hbisim.states_eq (fun h => h.snapshot_eq) n, hbisim.truncated_eq n,
        Composition.explore_joints_of_redeclares hsame n⟩
    · exact hbisim.checkDeadlock_eq fun h => h.snapshot_eq

/-- The declaration with its last state first. -/
def Definition.turned (d : Definition) : Definition := { d with states := d.states.reverse }

theorem Definition.redeclares_turned (d : Definition) : d.Redeclares d.turned :=
  ⟨rfl, rfl, (List.reverse_perm _).symm, rfl⟩

theorem Composition.initialJoint_eq_idxOf (c : Composition) :
    c.initialJoint = c.definitions.map fun d => d.stateNames.idxOf d.initialState := by
  rw [initialJoint, definitions, List.map_map]
  refine List.map_congr_left ?_
  intro p _
  exact (Definition.idxOf_of_stateId? p.initial_declared).symm

theorem state_order_irrelevant_standard :
    ∃ ps qs : List Protocol, ps ≠ [] ∧ (ps.map Protocol.name).Nodup ∧
      List.Forall₂ Definition.Redeclares (ps.map Protocol.definition) (Catalog.standard.map Definition.turned) ∧
      Definition.Built (Catalog.standard.map Definition.turned) qs ∧
      ∃ c d, compose ps = .ok c ∧ compose qs = .ok d ∧
        c.initialJoint = [0, 0, 0] ∧ d.initialJoint = [2, 2, 2] ∧
        (c.explore 4).states = (d.explore 4).states ∧
        (c.explore 4).truncated = (d.explore 4).truncated ∧
        (d.explore 4).joints = (c.explore 4).joints.map (c.renumber d) ∧
        Verifier.checkDeadlock ⟨4, by decide⟩ c = Verifier.checkDeadlock ⟨4, by decide⟩ d := by
  obtain ⟨b, hb⟩ := Catalog.exists_standard
  have hturned : List.Forall₂ Definition.Redeclares (b.protocols.map Protocol.definition)
      (Catalog.standard.map Definition.turned) := by
    rw [hb, List.forall₂_map_right_iff, List.forall₂_same]
    exact fun d _ => d.redeclares_turned
  obtain ⟨⟨qs, hqs⟩, hall⟩ := state_order_irrelevant b.protocols _ b.nonempty b.distinct hturned
  obtain ⟨c, d, hc, hd, _, hexplore, hdeadlock⟩ := hall qs hqs.definitions
  obtain ⟨hstates, htruncated, hjoints⟩ := hexplore 4
  -- the two searches start from different tuples
  have hstart : c.initialJoint = [0, 0, 0] := by
    rw [c.initialJoint_eq_idxOf, Composition.definitions, protocols_of_compose_ok hc, hb]
    decide
  have hstart' : d.initialJoint = [2, 2, 2] := by
    rw [d.initialJoint_eq_idxOf, Composition.definitions, protocols_of_compose_ok hd, hqs.definitions]
    decide
  exact ⟨b.protocols, qs, b.nonempty, b.distinct, hturned, hqs, c, d, hc, hd, hstart, hstart', hstates,
    htruncated, hjoints, hdeadlock _⟩

end Lockstep
