import Lockstep.Proofs.Building
import Lockstep.Proofs.Effect

/-!
# A protocol reads its declaration from the top

The plainest way to run a declaration is to hold the name of the current state and, asked about an action,
to go through the transitions from the top until one fits. Nothing has to be prepared for that, and
nothing can get out of step with the declaration.

A protocol holds a place instead of a name and looks the deciding transition up in its table, and a
target's place in the list of states. Here it is shown to be the same machine. One decision at a place is
the scan at the name of that place (`Protocol.decideAt_eq_read`); a request keeps the cursor at the place
of the name that the plain machine holds, also a request that is refused; and so do runs of any length.
-/

namespace Lockstep

/-- What a user asks of a single protocol. -/
inductive Request where
  /-- Take an action. -/
  | act (action : String)
  /-- Go back to the initial state. -/
  | reset
  /-- Go to the named state. -/
  | place (state : String)

/-- What a user is told. -/
inductive Answer where
  | decision (d : Decision)
  | done
  | refused (e : Error)

/-- The answers to requests made one after the other, each with the name of the state after it. -/
def Request.trace {σ : Type} (step : σ → Request → Answer × σ) (current : σ → String) :
    σ → List Request → List (Answer × String)
  | _, [] => []
  | s, request :: requests =>
    ((step s request).1, current (step s request).2) ::
      trace step current (step s request).2 requests

/-! ## The plain machine -/

namespace Definition

/-- The decision on an action in a state: that of the first transition that fits, and a silent denial if
there is none. -/
def read (d : Definition) (state action : String) : Decision :=
  match d.transitions.find? (·.fits state action) with
  | some t =>
    { permitted := t.permitted
      nextState := t.target
      nextStateId := d.stateNames.idxOf t.target
      protocol := d.name
      reason := if t.permitted then none else some (.explicitDeny t.guard) }
  | none =>
    { permitted := false
      nextState := state
      nextStateId := d.stateNames.idxOf state
      protocol := d.name
      reason := some .noMatchingTransition }

/-- Answer a request, holding the name of a state and nothing else. -/
def serve (d : Definition) (state : String) : Request → Answer × String
  | .act action =>
    (.decision (d.read state action),
      if (d.read state action).permitted then (d.read state action).nextState else state)
  | .reset => (.done, d.initialState)
  | .place name =>
    if name ∈ d.stateNames then (.done, name) else (.refused (.unknownState d.name name), state)

theorem idxOf_of_stateId? {d : Definition} {name : String} {i : Nat} (h : d.stateId? name = some i) :
    d.stateNames.idxOf name = i := by
  unfold stateId? at h
  rw [List.idxOf_eq_getD_idxOf?, h, Option.getD_some]

end Definition

/-! ## The protocol beside it -/

namespace Protocol

variable {p : Protocol} {id : Nat} {name : String}

/-- Answer a request with the cursor. -/
def serve (p : Protocol) : Request → Answer × Protocol
  | .act action => (.decision (p.apply action).1, (p.apply action).2)
  | .reset => (.done, p.reset)
  | .place state =>
    match p.setPosition state with
    | .ok moved => (.done, moved)
    | .error e => (.refused e, p)

theorem stateName?_of_stateId? (h : p.stateId? name = some id) : p.stateName? id = some name := by
  rw [p.stateId?_eq] at h
  rw [stateName?_eq]
  exact Definition.stateNames_of_stateId? h

theorem stateName_of_stateName? (h : p.stateName? id = some name) : p.stateName id = name := by
  rw [stateName_eq, h, Option.getD_some]

/-- **One decision at a place is the scan at its name.** -/
theorem decideAt_eq_read (h : p.stateName? id = some name) (action : String) :
    p.decideAt id action = p.definition.read name action := by
  have hid : p.definition.stateNames.idxOf name = id :=
    Definition.idxOf_of_stateId? (stateId?_of_stateName? h)
  have hname : p.stateName id = name := stateName_of_stateName? h
  have hfind : p.transitionFor? id action =
      p.definition.transitions.find? (·.fits name action) := transitionFor?_eq_find? h action
  rw [decideAt_eq, Definition.read, hfind]
  cases hscan : p.definition.transitions.find? (·.fits name action) with
  | none =>
    dsimp only
    rw [hid, hname]
    rfl
  | some t =>
    have htarget : p.definition.stateNames.idxOf t.target = p.targetId t :=
      Definition.idxOf_of_stateId?
        ((p.stateId?_eq _).symm.trans (target_declared (List.mem_of_find?_eq_some hscan)))
    dsimp only
    rw [htarget]
    rfl

/-- A decision names the state whose place it gives. -/
theorem stateName?_nextStateId (hid : id < p.stateCount) (action : String) :
    p.stateName? (p.decideAt id action).nextStateId = some (p.decideAt id action).nextState := by
  obtain ⟨name, hname⟩ := exists_stateName hid
  rw [decideAt_eq]
  cases hfor : p.transitionFor? id action with
  | none =>
    dsimp only
    rw [stateName_of_stateName? hname]
    exact hname
  | some t =>
    rw [transitionFor?_eq_find? hname] at hfor
    exact stateName?_of_stateId? (target_declared (List.mem_of_find?_eq_some hfor))

theorem stateName?_position (p : Protocol) : p.stateName? p.position = some p.currentState := by
  obtain ⟨name, hname⟩ := exists_stateName p.position.isLt
  rw [currentState, stateName_of_stateName? hname]
  exact hname

/-- Moving to the place of a state makes it the current one. -/
theorem currentState_moveTo (h : p.stateName? id = some name) : (p.moveTo id).currentState = name := by
  have hid : id < p.definition.states.length := by
    have hsome : (p.stateName? id).isSome := by rw [h]; rfl
    exact stateName?_isSome_iff.mp hsome
  unfold moveTo
  rw [dif_pos hid]
  exact stateName_of_stateName? h

theorem currentState_reset (p : Protocol) : p.reset.currentState = p.definition.initialState :=
  stateName_of_stateName? (stateName?_initialId p)

/-! ## Requests and runs -/

/-- What putting the cursor on a named state can do. -/
theorem setPosition_cases (p : Protocol) (state : String) :
    (∃ id, p.stateId? state = some id ∧ p.setPosition state = .ok (p.moveTo id)) ∨
      (state ∉ p.definition.stateNames ∧
        p.setPosition state = .error (.unknownState p.name state)) := by
  unfold setPosition requireState
  cases hid : p.stateId? state with
  | some id => exact Or.inl ⟨id, rfl, rfl⟩
  | none => exact Or.inr ⟨stateId?_eq_none_iff.mp hid, rfl⟩

theorem definition_serve (p : Protocol) (request : Request) :
    (p.serve request).2.definition = p.definition := by
  cases request with
  | act action => exact p.definition_apply action
  | reset => rfl
  | place state =>
    rw [serve]
    rcases p.setPosition_cases state with ⟨id, _, hset⟩ | ⟨_, hset⟩
    · rw [hset]
      exact p.definition_moveTo id
    · rw [hset]

/-- **A request is answered by the name under the cursor**, and leaves the cursor where the plain machine
goes. -/
theorem serve_refines (p : Protocol) (request : Request) :
    (p.serve request).1 = (p.definition.serve p.currentState request).1 ∧
      (p.serve request).2.currentState = (p.definition.serve p.currentState request).2 := by
  cases request with
  | act action =>
    have hread : p.decide action = p.definition.read p.currentState action :=
      decideAt_eq_read p.stateName?_position action
    have hnext := stateName?_nextStateId (p := p) p.position.isLt action
    rw [serve, Definition.serve, apply, ← hread]
    refine ⟨rfl, ?_⟩
    dsimp only
    split
    · exact currentState_moveTo hnext
    · rfl
  | reset => exact ⟨rfl, p.currentState_reset⟩
  | place state =>
    rw [serve, Definition.serve]
    rcases p.setPosition_cases state with ⟨id, hid, hset⟩ | ⟨hstate, hset⟩
    · have hstate : state ∈ p.definition.stateNames :=
        stateId?_isSome_iff.mp (Option.isSome_of_eq_some hid)
      rw [hset, if_pos hstate]
      exact ⟨rfl, currentState_moveTo (stateName?_of_stateId? hid)⟩
    · rw [hset, if_neg hstate]
      exact ⟨rfl, rfl⟩

/-- **A run is the run of the plain machine**, answer for answer and state for state. -/
theorem trace_refines (requests : List Request) : ∀ (p : Protocol),
    Request.trace Protocol.serve currentState p requests =
      Request.trace p.definition.serve (fun name => name) p.currentState requests := by
  induction requests with
  | nil => intro p; rfl
  | cons request requests ih =>
    intro p
    obtain ⟨hanswer, hstate⟩ := p.serve_refines request
    -- the declaration stays, so the rest is run by the same plain machine
    have hrest := ih (p.serve request).2
    rw [p.definition_serve request, hstate] at hrest
    rw [Request.trace, Request.trace, hrest, hanswer, hstate]

end Protocol

/--
**A built protocol refines the scan of its declaration.**

In every declared state the first transition that fits an action decides it, whatever else is declared for
the same state and action, and the place that a decision gives is the place of the state that it names;
if none fits, the action is denied and the state stays. A step is a permitted decision. So a run of
requests, refused ones among them, is answered as the machine answers that holds the name of a state and
scans.
-/
theorem Definition.build_refines_scan (d : Definition) (p : Protocol) (h : d.build.outcome = .ok p) :
    (∀ state ∈ d.stateNames, ∃ id, p.stateId? state = some id ∧ ∀ action,
      (∀ t, d.transitions.find? (·.fits state action) = some t →
        (p.decideAt id action).permitted = t.permitted ∧
        (p.decideAt id action).nextState = t.target ∧
        p.stateName? (p.decideAt id action).nextStateId = some t.target ∧
        (p.decideAt id action).reason =
          if t.permitted then none else some (.explicitDeny t.guard)) ∧
      (d.transitions.find? (·.fits state action) = none →
        (p.decideAt id action).permitted = false ∧
        (p.decideAt id action).nextState = state ∧
        (p.decideAt id action).nextStateId = id ∧
        (p.decideAt id action).reason = some .noMatchingTransition) ∧
      (p.decideAt id action).protocol = d.name ∧
      p.stepAt? id action =
        if (p.decideAt id action).permitted then some (p.decideAt id action).nextStateId
        else none) ∧
    p.currentState = d.initialState ∧
    ∀ requests, Request.trace Protocol.serve Protocol.currentState p requests =
      Request.trace d.serve (fun name => name) d.initialState requests := by
  obtain ⟨rfl, hstart⟩ := build_ok h
  have hinitial : p.currentState = p.definition.initialState := by
    rw [Protocol.currentState, hstart]
    exact p.currentState_reset
  refine ⟨?_, hinitial, ?_⟩
  · intro state hstate
    obtain ⟨id, hid⟩ := p.exists_stateId hstate
    refine ⟨id, hid, ?_⟩
    intro action
    have hname : p.stateName? id = some state := Protocol.stateName?_of_stateId? hid
    have hread := Protocol.decideAt_eq_read hname action
    have hnext := Protocol.stateName?_nextStateId (Protocol.stateId?_lt hid) action
    refine ⟨?_, ?_, Protocol.decideAt_protocol p id action, p.stepAt?_eq_decideAt id action⟩
    · intro t ht
      rw [hnext, hread, read, ht]
      exact ⟨rfl, rfl, rfl, rfl⟩
    · intro hnone
      have hplace : p.definition.stateNames.idxOf state = id :=
        idxOf_of_stateId? ((p.stateId?_eq state).symm.trans hid)
      rw [hread, read, hnone]
      exact ⟨rfl, rfl, hplace, rfl⟩
  · intro requests
    rw [← hinitial]
    exact Protocol.trace_refines requests p

/-- A denial that names another state, and a permission behind it that never counts. -/
theorem Definition.build_refines_scan_shadowed :
    ∃ (d : Definition) (p : Protocol),
      d = { Catalog.asp with
        transitions := Catalog.asp.transitions ++ [.permit "normal" "normal" "delete"] } ∧
      d.build.outcome = .ok p ∧
      (∃ id, p.stateId? "normal" = some id ∧ (p.decideAt id "delete").permitted = false ∧
        p.stateName? (p.decideAt id "delete").nextStateId = some "lockdown" ∧
        p.stepAt? id "delete" = none) ∧
      (Request.trace Protocol.serve Protocol.currentState p
          [.act "delete", .place "nowhere", .place "elevated", .act "read", .act "execute"]).map
        Prod.snd = ["normal", "normal", "elevated", "normal", "elevated"] := by
  obtain ⟨d, hd⟩ : ∃ d : Definition, d = { Catalog.asp with
      transitions := Catalog.asp.transitions ++ [.permit "normal" "normal" "delete"] } := ⟨_, rfl⟩
  have hwf : d.WellFormed := by
    rw [hd]
    decide
  obtain ⟨p, hp, _⟩ := hwf.exists_build_ok
  obtain ⟨hscan, _, hruns⟩ := d.build_refines_scan p hp
  obtain ⟨id, hid, hactions⟩ := hscan "normal" (by rw [hd]; decide)
  obtain ⟨hfirst, _, _, hstep⟩ := hactions "delete"
  obtain ⟨hdenied, _, hplace, _⟩ := hfirst (.deny "normal" "lockdown" "delete") (by rw [hd]; decide)
  refine ⟨d, p, hd, hp, ⟨id, hid, hdenied, hplace, ?_⟩, ?_⟩
  · rw [hstep, hdenied]
    rfl
  · rw [hruns, hd]
    decide

end Lockstep
