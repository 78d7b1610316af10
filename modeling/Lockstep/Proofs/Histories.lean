import Lockstep.Proofs.Interpreter
import Lockstep.Proofs.Lookups

/-!
# Whatever was done before

Protocols are built, their cursors may be put on named states, they are composed, the composition is driven
and reset, taken apart, composed again. Nothing in such a history leads out of range, and so no look-up
made afterwards comes back empty.

A cursor cannot be out of range, and moving one to a place without a state leaves it alone. That would
hide a wrong place instead of ruling it out. So beside the history of cursors stands the history of bare
positions, in which a position is overwritten by whatever number a decision or the list of states gives,
and which is read in `Option`, so that it ends where a look-up comes back empty. The two agree at every point:
the strict history never comes to nothing, and its positions are those of the cursors.
-/

namespace Lockstep

/-! ## Putting cursors on named states -/

/-- Put cursors on named states, move after move: the place of a protocol in the list, and a name. What
is not there, protocol or state, moves nothing. -/
def settle (ps : List Protocol) (moves : List (Nat × String)) : List Protocol :=
  moves.foldl (fun ps move => ps.modify move.1 fun p => (p.serve (.place move.2)).2) ps

/-- The same moves of bare positions. -/
def relocate (ds : List Definition) (joint : JointState) (moves : List (Nat × String)) : JointState :=
  moves.foldl (fun joint move =>
    match (ds[move.1]?).bind fun d => d.stateId? move.2 with
    | some id => joint.set move.1 id
    | none => joint) joint

theorem definitions_modify {f : Protocol → Protocol} (hf : ∀ p, (f p).definition = p.definition)
    (ps : List Protocol) : ∀ (i : Nat),
    (ps.modify i f).map Protocol.definition = ps.map Protocol.definition := by
  induction ps with
  | nil => intro i; simp
  | cons p ps ih =>
    intro i
    cases i with
    | zero => simp [hf p]
    | succ i => simp [ih i]

theorem positions_modify (state : String) (ps : List Protocol) : ∀ (i : Nat),
    (ps.modify i fun p => (p.serve (.place state)).2).map (fun p => p.position.val) =
      relocate (ps.map Protocol.definition) (ps.map fun p => p.position.val) [(i, state)] := by
  induction ps with
  | nil => intro i; simp [relocate]
  | cons p ps ih =>
    intro i
    cases i with
    | zero =>
      -- the move is this protocol's: it goes to the place of the state, or the name is refused
      rcases p.setPosition_cases state with ⟨id, hid, hset⟩ | ⟨hstate, hset⟩
      · have hmoved : (p.moveTo id).position.val = id :=
          Protocol.position_moveTo (Protocol.stateId?_lt hid)
        rw [p.stateId?_eq] at hid
        simp [relocate, Protocol.serve, hset, hid, hmoved]
      · have hid : p.definition.stateId? state = none := Definition.stateId?_eq_none_iff.mpr hstate
        simp [relocate, Protocol.serve, hset, hid]
    | succ i =>
      have hrest := ih i
      unfold relocate at hrest ⊢
      simp only [List.foldl_cons, List.foldl_nil] at hrest ⊢
      rw [List.modify_succ_cons, List.map_cons, List.map_cons, List.map_cons,
        List.getElem?_cons_succ, hrest]
      cases ((ps.map Protocol.definition)[i]?).bind fun d => d.stateId? state with
      | none => rfl
      | some id => rfl

theorem definitions_settle (moves : List (Nat × String)) : ∀ (ps : List Protocol),
    (settle ps moves).map Protocol.definition = ps.map Protocol.definition := by
  induction moves with
  | nil => intro ps; rfl
  | cons move moves ih =>
    intro ps
    exact (ih _).trans (definitions_modify (fun p => p.definition_serve _) ps move.1)

/-- **Cursors put on named states are where the names are.** -/
theorem positions_settle (moves : List (Nat × String)) : ∀ (ps : List Protocol),
    (settle ps moves).map (fun p => p.position.val) =
      relocate (ps.map Protocol.definition) (ps.map fun p => p.position.val) moves := by
  induction moves with
  | nil => intro ps; rfl
  | cons move moves ih =>
    intro ps
    have hrest := ih (ps.modify move.1 fun p => (p.serve (.place move.2)).2)
    rw [definitions_modify (fun p => p.definition_serve _), positions_modify] at hrest
    exact hrest

/-! ## Operations -/

/-- What can be done with composed protocols. -/
inductive Operation where
  /-- Let them take an action. -/
  | act (action : String)
  /-- Send them all back to the start. -/
  | reset
  /-- Take them out, put cursors on named states, and compose them again. -/
  | rebuild (moves : List (Nat × String))

namespace Composition

variable {c now : Composition} {joint : JointState}

/-- Carry out an operation with the cursors. -/
def operate (c : Composition) : Operation → Except Error Composition
  | .act action => .ok (c.apply action).2
  | .reset => .ok c.resetAll
  | .rebuild moves => compose (settle c.protocols moves)

/-- Carry out operations one after the other. -/
def operateAll (c : Composition) (operations : List Operation) : Except Error Composition :=
  operations.foldlM operate c

/-- The same operation on bare positions, which comes to nothing as soon as a look-up does. When an action
passes, every protocol decides it once more and its position becomes whatever it says. -/
def strictOperate (c : Composition) (joint : JointState) : Operation → Option JointState
  | .act action => do
    let decision ← c.composeAtM joint action
    if decision.globallyPermitted then
      (c.protocols.zip joint).mapM fun (p, id) => do
        let d ← p.decideAtM id action
        return if d.permitted then d.nextStateId else id
    else some joint
  | .reset => some c.initialJoint
  | .rebuild moves => some (relocate c.definitions joint moves)

/-- The same operations on bare positions, one after the other. -/
def strictOperateAll (c : Composition) (joint : JointState) (operations : List Operation) :
    Option JointState :=
  operations.foldlM c.strictOperate joint

theorem fits_currentJoint (c : Composition) : c.Fits c.currentJoint := by
  unfold Fits currentJoint
  rw [List.forall₂_map_right_iff, List.forall₂_same]
  intro p _
  exact p.position.isLt

theorem fits_iff_of_definitions_eq (h : now.definitions = c.definitions) :
    now.Fits joint ↔ c.Fits joint := by
  have hradices : ∀ e : Composition, e.radices = e.definitions.map fun d => d.states.length := by
    intro e
    unfold radices definitions
    rw [List.map_map]
    rfl
  rw [fits_iff_mem_tuples, fits_iff_mem_tuples, hradices, hradices, h]

/-- Protocols with the declarations of a composition can be composed. -/
theorem exists_compose_of_definitions_eq {ps : List Protocol}
    (h : ps.map Protocol.definition = c.definitions) :
    ∃ next, compose ps = .ok next ∧ next.protocols = ps := by
  have hnames : ps.map Protocol.name = c.names := by
    have hmap := congrArg (List.map Definition.name) h
    rw [definitions, List.map_map, List.map_map] at hmap
    exact hmap
  have hne : ps ≠ [] := by
    rintro rfl
    exact c.nonempty (List.map_eq_nil_iff.mp hnames.symm)
  exact exists_compose_ok hne (hnames ▸ c.distinct)

/-- An action on bare positions leads where the decision says, or nowhere. -/
theorem Fits.strictOperate_act (h : c.Fits joint) (action : String) :
    c.strictOperate joint (.act action) = some (c.callAt joint (.act action)).2 := by
  have hmove : ∀ (p : Protocol) (id : Nat), id < p.stateCount →
      (do
        let d ← p.decideAtM id action
        return if d.permitted then d.nextStateId else id : Option Nat) =
      some (if (p.decideAt id action).permitted then (p.decideAt id action).nextStateId else id) := by
    intro p id hid
    rw [Protocol.decideAtM_of_lt hid]
    rfl
  rw [strictOperate, h.composeAtM, callAt, pure_bind]
  dsimp only
  split
  · rename_i hp
    rw [h.mapM_zip hmove, nextJoint_composeAt]
    -- everybody permits an action that passes, so nobody stays behind
    rw [← List.map_uncurry_zip_eq_zipWith, ← List.map_uncurry_zip_eq_zipWith]
    refine congrArg some (List.map_congr_left ?_)
    rintro ⟨p, id⟩ hm
    exact if_pos (permitted_iff.mp hp p id hm)
  · rfl

/-- **An operation succeeds, and takes cursors where it takes bare positions.** -/
theorem operate_ok (hsame : now.definitions = c.definitions) (operation : Operation) :
    ∃ next, now.operate operation = .ok next ∧ next.definitions = c.definitions ∧
      c.strictOperate now.currentJoint operation = some next.currentJoint := by
  cases operation with
  | act action =>
    have hfits : c.Fits now.currentJoint := (fits_iff_of_definitions_eq hsame).mp now.fits_currentJoint
    have hmoved := (now.call_callAt (.act action)).2
    rw [callAt_of_definitions_eq hsame] at hmoved
    refine ⟨(now.apply action).2, rfl, (now.definitions_call (.act action)).trans hsame, ?_⟩
    rw [hfits.strictOperate_act, ← hmoved]
    rfl
  | reset =>
    refine ⟨now.resetAll, rfl, (now.definitions_call .reset).trans hsame, ?_⟩
    rw [currentJoint_resetAll, initialJoint_of_definitions_eq hsame]
    rfl
  | rebuild moves =>
    have hdefs := (definitions_settle moves now.protocols).trans hsame
    obtain ⟨next, hnext, hprotocols⟩ := exists_compose_of_definitions_eq hdefs
    refine ⟨next, hnext, ?_, ?_⟩
    · rw [definitions, hprotocols]
      exact hdefs
    · have hpositions := positions_settle moves now.protocols
      have hsame' : now.protocols.map Protocol.definition = c.definitions := hsame
      rw [← hprotocols, hsame'] at hpositions
      exact congrArg some hpositions.symm

/-- **A history succeeds, and takes cursors where it takes bare positions.** -/
theorem operateAll_ok (operations : List Operation) : ∀ {now : Composition},
    now.definitions = c.definitions →
    ∃ last, now.operateAll operations = .ok last ∧ last.definitions = c.definitions ∧
      c.strictOperateAll now.currentJoint operations = some last.currentJoint := by
  induction operations with
  | nil => intro now hsame; exact ⟨now, rfl, hsame, rfl⟩
  | cons operation operations ih =>
    intro now hsame
    obtain ⟨next, hnext, hsame', hstrict⟩ := operate_ok hsame operation
    obtain ⟨last, hlast, hsame'', hrest⟩ := ih hsame'
    refine ⟨last, ?_, hsame'', ?_⟩
    · unfold operateAll at hlast ⊢
      rw [List.foldlM_cons, hnext]
      exact hlast
    · unfold strictOperateAll at hrest ⊢
      rw [List.foldlM_cons, hstrict]
      exact hrest

/-! ## What a composition hands out -/

/-- The joint states that a composition hands out: those of its cursors and of the start, those of the
walk through the product and of an exploration, and where a decision at one of them points, whether it
passes or not. -/
inductive HandsOut (c : Composition) : JointState → Prop where
  | current : HandsOut c c.currentJoint
  | initial : HandsOut c c.initialJoint
  | walked {n : Nat} {joint : JointState} : joint ∈ c.odometer.take n → HandsOut c joint
  | explored {n : Nat} {joint : JointState} : joint ∈ (c.explore n).joints → HandsOut c joint
  | decided {joint : JointState} (action : String) : HandsOut c joint →
      HandsOut c (c.composeAt joint action).nextJoint

/-- **What is handed out fits.** -/
theorem HandsOut.fits (h : c.HandsOut joint) : c.Fits joint := by
  induction h with
  | current => exact c.fits_currentJoint
  | initial => exact c.fits_initialJoint
  | walked hmem => exact fits_of_mem_take hmem
  | explored hmem => exact fits_of_mem_joints hmem
  | decided action _ ih => exact ih.nextJoint action

/-- Every evaluation that a look-up could bring to nothing comes out as it does with stand-ins. -/
structure LookupsSucceed (c : Composition) : Prop where
  composeAt : ∀ joint, c.HandsOut joint → ∀ action,
    c.composeAtM joint action = some (c.composeAt joint action)
  snapshot : ∀ joint, c.HandsOut joint → ∀ actions,
    c.snapshotM joint actions = some (c.snapshot joint actions)
  explore : ∀ n, c.exploreM n = some (c.explore n)
  enumerateAll : ∀ ceiling, c.enumerateAllM ceiling = some (c.enumerateAll ceiling)
  dominance : ∀ priority ceiling,
    c.dominanceM priority ceiling = some (c.dominance priority ceiling)
  deadlock : ∀ v : Verifier, v.checkDeadlockM c = some (v.checkDeadlock c)
  monotonic : ∀ v : Verifier,
    v.checkProductM .monotonicRestriction Verifier.monotonicFault c c.composeAtM =
      some (v.checkMonotonic c c.composeAt)
  priority : ∀ (v : Verifier) (r : Ranking),
    v.checkProductM .priorityOrdering (Verifier.priorityFault r) c c.composeAtM =
      some (v.checkPriority c c.composeAt r)
  /-- A check by any other rule looks up no more than names. -/
  judged : ∀ (v : Verifier) property fault (rule : Rule),
    v.checkProductM property fault c (fun joint action => some (rule joint action)) =
      some (v.checkProduct property fault c rule)

theorem lookupsSucceed (c : Composition) : c.LookupsSucceed where
  composeAt := fun _ hjoint action => hjoint.fits.composeAtM action
  snapshot := fun _ hjoint actions => hjoint.fits.snapshotM actions
  explore := c.exploreM_eq
  enumerateAll := c.enumerateAllM_eq
  dominance := c.dominanceM_eq
  deadlock := fun v => v.checkDeadlockM_eq c
  monotonic := fun _ => Verifier.checkProductM_eq fun _ hfits => hfits.composeAtM
  priority := fun _ _ => Verifier.checkProductM_eq fun _ hfits => hfits.composeAtM
  judged := fun _ _ _ _ => Verifier.checkProductM_eq fun _ _ _ => rfl

end Composition

/--
**No look-up comes back empty, whatever was done before.**

Take protocols as they are built, put cursors on named states, compose, and go through any history. It
succeeds, and on bare positions, with every decision strict, it leads from the start to where the cursors
are. Whatever joint state is handed out afterwards has, for each protocol, a position below the number of
its states; and decisions, names, explorations, checks, enumerations and tallies find all they look up.
-/
theorem lookups_never_fail (ds : List Definition) (ps : List Protocol)
    (hbuilt : Definition.Built ds ps) (moves : List (Nat × String)) (c : Composition)
    (hc : compose (settle ps moves) = .ok c) (operations : List Operation) :
    ∃ now, c.operateAll operations = .ok now ∧ now.definitions = ds ∧
      c.strictOperateAll c.initialJoint (.rebuild moves :: operations) = some now.currentJoint ∧
      (∀ joint, now.HandsOut joint →
        List.Forall₂ (fun p id => id < p.stateCount) now.protocols joint) ∧
      now.LookupsSucceed := by
  have hdefs : c.definitions = ds := by
    rw [Composition.definitions, protocols_of_compose_ok hc, definitions_settle, hbuilt.definitions]
  -- the history begins with the protocols as they were built
  obtain ⟨fresh, _, hfresh⟩ :=
    Composition.exists_compose_of_definitions_eq (hbuilt.definitions.trans hdefs.symm)
  have hsame : fresh.definitions = c.definitions := by
    rw [hdefs, Composition.definitions, hfresh, hbuilt.definitions]
  have hstart : fresh.currentJoint = c.initialJoint := by
    rw [← Composition.initialJoint_of_definitions_eq hsame, Composition.currentJoint,
      Composition.initialJoint, hfresh]
    exact hbuilt.positions
  obtain ⟨now, hnow, hnowdefs, hstrict⟩ :=
    Composition.operateAll_ok (c := c) (.rebuild moves :: operations) hsame
  refine ⟨now, ?_, hnowdefs.trans hdefs, hstart ▸ hstrict, ?_, now.lookupsSucceed⟩
  · -- the first of its operations is the one that gave the composition
    rw [Composition.operateAll, List.foldlM_cons, Composition.operate, hfresh, hc] at hnow
    exact hnow
  · exact fun joint hjoint => hjoint.fits

/-- A cursor put on a state, one on no state, and a history with refusals and a second composition. -/
theorem lookups_never_fail_standard :
    ∃ (ps : List Protocol) (c now : Composition), Definition.Built Catalog.standard ps ∧
      compose (settle ps [(1, "lockdown"), (0, "nowhere")]) = .ok c ∧
      c.operateAll [.act "read", .reset, .rebuild [(2, "exhausted")], .act "write"] = .ok now ∧
      now.definitions = Catalog.standard ∧
      c.strictOperateAll c.initialJoint [.rebuild [(1, "lockdown"), (0, "nowhere")], .act "read", .reset,
        .rebuild [(2, "exhausted")], .act "write"] = some now.currentJoint ∧
      List.Forall₂ (fun p id => id < p.stateCount) now.protocols
        (now.composeAt now.currentJoint "delete").nextJoint ∧
      now.LookupsSucceed := by
  obtain ⟨ps, hbuilt⟩ : ∃ ps, Definition.Built Catalog.standard ps :=
    Definition.exists_built (by decide)
  obtain ⟨d, hd⟩ := Catalog.exists_standard
  have hdefs : (settle ps [(1, "lockdown"), (0, "nowhere")]).map Protocol.definition =
      d.definitions := by
    rw [definitions_settle, hbuilt.definitions]
    exact hd.symm
  obtain ⟨c, hc, _⟩ := Composition.exists_compose_of_definitions_eq hdefs
  obtain ⟨now, hnow, hsame, hstrict, hfits, hfind⟩ := lookups_never_fail Catalog.standard ps hbuilt
    [(1, "lockdown"), (0, "nowhere")] c hc
    [.act "read", .reset, .rebuild [(2, "exhausted")], .act "write"]
  exact ⟨ps, c, now, hbuilt, hc, hnow, hsame, hstrict, hfits _ (.decided "delete" .current), hfind⟩

end Lockstep
