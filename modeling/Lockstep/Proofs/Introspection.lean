import Lockstep.Proofs.Cursors
import Lockstep.Proofs.Interpreter

/-!
# What a protocol says about its actions

A protocol can be asked for its actions in three ways: for all of them, for those that leave a state, and
for those that are permitted there. The second list is read off the table, where the first transition for
a state and an action counts and no other; the first and the third are read off the declaration, where
every transition counts.

The lists agree with the decisions all the same, but for one case (`Protocol.actions_agree_with_decisions`).
An action is denied in a state that lists it as permitted exactly if its first transition there denies it
and a later one permits it (`Definition.Overruled`). What makes the second list come out in order is that
the table puts every action in its place, as a sorted list of names does (`Slot.keys_insert`).
-/

namespace Lockstep

/-- Every name comes once, and they increase by their bytes. -/
def Increasing (names : List String) : Prop := names.Pairwise fun a b => utf8 a < utf8 b

theorem increasing_iff {names : List String} : Increasing names ↔ names.Pairwise (· < ·) := by
  unfold Increasing
  simp only [utf8_lt_iff]

theorem Transition.fits_iff {t : Transition} {state action : String} :
    t.fits state action = true ↔ t.source = state ∧ t.action = action := by
  simp [fits]

/-! ## Slots are in order -/

theorem Slot.mem_keys_iff {slot : Slot} {action : String} :
    action ∈ slot.map Prod.fst ↔ (slot.find? action).isSome := by
  unfold Slot.find?
  rw [Option.isSome_map, List.find?_isSome, List.mem_map]
  simp only [decide_eq_true_eq]

/-- **A new action takes its place among the names.** -/
theorem Slot.keys_insert {slot : Slot} {action : String} (index : Nat)
    (hnew : action ∉ slot.map Prod.fst) :
    (slot.insert action index).map Prod.fst = Text.insertSorted action (slot.map Prod.fst) := by
  induction slot with
  | nil => rfl
  | cons e rest ih =>
    obtain ⟨a, i⟩ := e
    rw [List.map_cons, List.mem_cons, not_or] at hnew
    rw [Slot.insert, List.map_cons, Text.insertSorted]
    by_cases hlt : action < a
    · rw [if_pos hlt, if_pos hlt, List.map_cons, List.map_cons]
    · rw [if_neg hlt, if_neg hlt, if_neg (Ne.symm hnew.1), List.map_cons, ih hnew.2]

/-- The actions of every state increase. -/
def Table.InOrder (table : Table) : Prop := ∀ slot ∈ table, (slot.map Prod.fst).Pairwise (· < ·)

theorem Table.inOrder_blank (states : Nat) : (Table.blank states).InOrder := by
  intro slot hslot
  rw [(List.mem_replicate.mp hslot).2]
  exact List.Pairwise.nil

namespace Definition

/-- Entering one transition keeps the order. -/
theorem inOrder_wireStep {table : Table} (h : table.InOrder) (source : Nat) (action : String)
    (index : Nat) : (wireStep table source action index).InOrder := by
  cases hfind : table.find? source action with
  | some winner =>
    rw [wireStep, hfind]
    exact h
  | none =>
    have hstep : wireStep table source action index = table.insert source action index := by
      rw [wireStep, hfind]
    rw [hstep]
    intro slot hslot
    obtain ⟨i, hi⟩ := List.mem_iff_getElem?.mp hslot
    rw [Table.insert, List.getElem?_modify] at hi
    obtain ⟨old, hold, heq⟩ := Option.map_eq_some_iff.mp hi
    have hsorted := h old (List.mem_of_getElem? hold)
    by_cases hsource : source = i
    · -- the slot that is changed had no such action
      rw [if_pos hsource] at heq
      have hnone : old.find? action = none := by
        rw [← hfind, Table.find?, hsource, hold]
      have hnew : action ∉ old.map Prod.fst := by
        rw [Slot.mem_keys_iff, hnone]
        simp
      rw [← heq, Slot.keys_insert index hnew]
      exact Text.insertSorted_increasing hsorted
    · rw [if_neg hsource] at heq
      rw [← heq]
      exact hsorted

/-- **A wired table is in order.** -/
theorem inOrder_of_wireFrom_ok {d : Definition} {places : Places} (hx : d.Indexes places)
    {result : Table} :
    ∀ {rest : List Transition} {index : Nat} {table : Table}, table.InOrder →
      (d.wireFrom places index rest table).outcome = .ok result → result.InOrder := by
  intro rest
  induction rest with
  | nil =>
    intro index table h hok
    rw [wireFrom] at hok
    injection hok with hok
    exact hok ▸ h
  | cons t rest ih =>
    intro index table h hok
    obtain ⟨_, source, _, hrest⟩ := wireFrom_cons_ok hx hok
    exact ih (inOrder_wireStep h source t.action index) hrest

/-! ## Decisions and declared transitions -/

/-- The first transition that is declared for the state and the action denies it, and a later one permits
it. -/
def Overruled (d : Definition) (state action : String) : Prop :=
  ∃ before t after, d.transitions = before ++ t :: after ∧
    (∀ u ∈ before, u.fits state action = false) ∧ t.fits state action = true ∧ t.permitted = false ∧
    ∃ u ∈ after, u.fits state action = true ∧ u.permitted = true

variable {d : Definition} {state action : String}

theorem read_of_find? {t : Transition} (h : d.transitions.find? (·.fits state action) = some t) :
    (d.read state action).permitted = t.permitted ∧
      (d.read state action).reason = if t.permitted then none else some (.explicitDeny t.guard) := by
  rw [read, h]
  exact ⟨rfl, rfl⟩

/-- The silent denial is for actions that no transition is declared for. -/
theorem read_reason_iff :
    (d.read state action).reason ≠ some .noMatchingTransition ↔
      ∃ t ∈ d.transitions, t.fits state action = true := by
  cases hfind : d.transitions.find? (·.fits state action) with
  | none =>
    have hnone := List.find?_eq_none.mp hfind
    have hsilent : (d.read state action).reason = some .noMatchingTransition := by rw [read, hfind]
    refine iff_of_false (fun h => h hsilent) ?_
    intro h
    obtain ⟨t, ht, hfits⟩ := h
    exact hnone t ht hfits
  | some t =>
    have hfits := List.find?_some hfind
    refine iff_of_true ?_ ⟨t, List.mem_of_find?_eq_some hfind, hfits⟩
    rw [(read_of_find? hfind).2]
    by_cases hpermitted : t.permitted = true
    · simp [hpermitted]
    · simp [hpermitted]

/-- What is permitted has a transition that permits it. -/
theorem exists_permit_of_read (h : (d.read state action).permitted = true) :
    ∃ t ∈ d.transitions, t.fits state action = true ∧ t.permitted = true := by
  cases hfind : d.transitions.find? (·.fits state action) with
  | none =>
    rw [read, hfind] at h
    exact absurd h (by simp)
  | some t =>
    have hfits := List.find?_some hfind
    rw [(read_of_find? hfind).1] at h
    exact ⟨t, List.mem_of_find?_eq_some hfind, hfits, h⟩

/-- **A permission that does not count stands behind a denial.** -/
theorem overruled_iff :
    d.Overruled state action ↔
      (∃ t ∈ d.transitions, t.fits state action = true ∧ t.permitted = true) ∧
        (d.read state action).permitted = false := by
  constructor
  · intro h
    obtain ⟨before, t, after, hsplit, hbefore, hfits, hdenies, u, hu, hufits, hupermits⟩ := h
    have hfind : d.transitions.find? (·.fits state action) = some t := by
      rw [List.find?_eq_some_iff_append]
      refine ⟨hfits, before, after, hsplit, ?_⟩
      intro v hv
      rw [hbefore v hv]
      rfl
    refine ⟨⟨u, ?_, hufits, hupermits⟩, by rw [(read_of_find? hfind).1, hdenies]⟩
    rw [hsplit]
    exact List.mem_append_right _ (List.mem_cons_of_mem t hu)
  · intro h
    obtain ⟨⟨u, hu, hufits, hupermits⟩, hdenied⟩ := h
    cases hfind : d.transitions.find? (·.fits state action) with
    | none => exact absurd hufits (List.find?_eq_none.mp hfind u hu)
    | some t =>
      have hdenies : t.permitted = false := by rw [← (read_of_find? hfind).1, hdenied]
      obtain ⟨hfits, before, after, hsplit, hbefore⟩ := List.find?_eq_some_iff_append.mp hfind
      have hbefore : ∀ v ∈ before, v.fits state action = false := fun v hv => by
        simpa using hbefore v hv
      refine ⟨before, t, after, hsplit, hbefore, hfits, hdenies, u, ?_, hufits, hupermits⟩
      -- the permission is not among those before, which do not fit, and is not the denial itself
      rw [hsplit] at hu
      rcases List.mem_append.mp hu with hu | hu
      · rw [hbefore u hu] at hufits
        exact absurd hufits (by simp)
      · rcases List.mem_cons.mp hu with hu | hu
        · rw [hu, hdenies] at hupermits
          exact absurd hupermits (by simp)
        · exact hu

end Definition

/-! ## The three lists -/

namespace Protocol

variable {p : Protocol} {state action : String} {id : Nat}

theorem source_declared {t : Transition} (ht : t ∈ p.transitions) : t.source ∈ p.stateNames :=
  (Definition.endpoints_of_wireFrom_ok p.indexes p.wired t ht).1

theorem mem_allActions : action ∈ p.allActions ↔ ∃ t ∈ p.transitions, t.action = action := by
  unfold allActions
  rw [Text.mem_sortDistinct, List.mem_map]

theorem mem_permittedActionsFrom :
    action ∈ p.permittedActionsFrom state ↔
      ∃ t ∈ p.transitions, t.fits state action = true ∧ t.permitted = true := by
  unfold permittedActionsFrom
  rw [Text.mem_sortDistinct, List.mem_map]
  simp only [List.mem_filter, Bool.and_eq_true, decide_eq_true_eq, Transition.fits_iff]
  constructor
  · intro h
    obtain ⟨t, ⟨ht, hpermitted, hsource⟩, haction⟩ := h
    exact ⟨t, ht, ⟨hsource, haction⟩, hpermitted⟩
  · intro h
    obtain ⟨t, ht, ⟨hsource, haction⟩, hpermitted⟩ := h
    exact ⟨t, ⟨ht, hpermitted, hsource⟩, haction⟩

/-- The actions that leave a declared state are in order, and are those that a transition is declared
for. -/
theorem exists_actionsFrom (hid : p.stateId? state = some id) :
    ∃ actions, p.actionsFrom state = .ok actions ∧ Increasing actions ∧
      ∀ action, action ∈ actions ↔ ∃ t ∈ p.transitions, t.fits state action = true := by
  have hlt : id < p.table.length := by
    rw [p.length_table]
    exact stateId?_lt hid
  obtain ⟨slot, hslot⟩ : ∃ slot, p.table[id]? = some slot := ⟨_, List.getElem?_eq_getElem hlt⟩
  refine ⟨slot.map Prod.fst, ?_, ?_, ?_⟩
  · rw [actionsFrom, requireState, hid]
    dsimp only
    rw [hslot]
  · rw [increasing_iff]
    exact Definition.inOrder_of_wireFrom_ok p.indexes (Table.inOrder_blank _) p.wired slot
      (List.mem_of_getElem? hslot)
  · intro action
    have hfind : slot.find? action = p.transitions.findIdx? (·.fits state action) := by
      rw [← table_find?_eq (stateName?_of_stateId? hid), Table.find?, hslot]
    rw [Slot.mem_keys_iff, hfind, List.findIdx?_isSome, List.any_eq_true]

theorem actionsFrom_undeclared (h : state ∉ p.stateNames) :
    p.actionsFrom state = .error (.unknownState p.name state) := by
  rw [actionsFrom, requireState, stateId?_eq_none_iff.mpr h]

theorem permittedActionsFrom_undeclared (h : state ∉ p.stateNames) :
    p.permittedActionsFrom state = [] := by
  rw [List.eq_nil_iff_forall_not_mem]
  intro action hmem
  obtain ⟨t, ht, hfits, _⟩ := mem_permittedActionsFrom.mp hmem
  exact h ((Transition.fits_iff.mp hfits).1 ▸ source_declared ht)

theorem mem_actionsFrom {actions : List String} (h : p.actionsFrom state = .ok actions) :
    action ∈ actions ↔ ∃ t ∈ p.transitions, t.fits state action = true := by
  by_cases hstate : state ∈ p.stateNames
  · obtain ⟨id, hid⟩ := exists_stateId hstate
    obtain ⟨found, hfound, _, hmem⟩ := exists_actionsFrom hid
    have hsame : actions = found := Except.ok.inj (h.symm.trans hfound)
    rw [hsame]
    exact hmem action
  · rw [actionsFrom_undeclared hstate] at h
    exact absurd h (by simp)

/-- With the cursor on a state, the protocol decides as it does at the state's place. -/
theorem decide_moveTo (hid : id < p.stateCount) (action : String) :
    (p.moveTo id).decide action = p.decideAt id action := by
  rw [decide, position_moveTo hid, decideAt_of_definition_eq (p.definition_moveTo id)]

/--
**The lists of actions agree with the decisions.**

Each is in order of the actions' bytes without repetition, and each contains the next: all actions, those
that leave a state, those that are permitted there. An action leaves a declared state exactly if it is not
denied there for want of a transition, and it leaves some state if it is one of all. What is permitted in a
state is listed as permitted; what is listed and still denied is what a transition permits behind one that
denies it. A state that is not declared is refused by one list and has nothing in the other.
-/
theorem actions_agree_with_decisions (p : Protocol) (state : String) :
    Increasing p.allActions ∧
      Increasing (p.permittedActionsFrom state) ∧
      (∀ action, action ∈ p.allActions ↔
        ∃ source actions, p.actionsFrom source = .ok actions ∧ action ∈ actions) ∧
      (state ∈ p.stateNames →
        ∃ id moved actions, p.stateId? state = some id ∧ p.setPosition state = .ok moved ∧
          p.actionsFrom state = .ok actions ∧ Increasing actions ∧
          p.permittedActionsFrom state ⊆ actions ∧ actions ⊆ p.allActions ∧
          ∀ action, moved.decide action = p.decideAt id action ∧
            (action ∈ actions ↔ (p.decideAt id action).reason ≠ some .noMatchingTransition) ∧
            ((p.decideAt id action).permitted = true → action ∈ p.permittedActionsFrom state) ∧
            (action ∈ p.permittedActionsFrom state ∧ (p.decideAt id action).permitted = false ↔
              p.definition.Overruled state action)) ∧
      (state ∉ p.stateNames →
        p.actionsFrom state = .error (.unknownState p.name state) ∧
          p.permittedActionsFrom state = []) := by
  refine ⟨increasing_iff.mpr (Text.sortDistinct_increasing _),
    increasing_iff.mpr (Text.sortDistinct_increasing _), ?_, ?_, ?_⟩
  · intro action
    constructor
    · intro h
      obtain ⟨t, ht, rfl⟩ := mem_allActions.mp h
      obtain ⟨id, hid⟩ := exists_stateId (source_declared ht)
      obtain ⟨actions, hactions, _, hmem⟩ := exists_actionsFrom hid
      exact ⟨t.source, actions, hactions, (hmem t.action).mpr ⟨t, ht, Transition.fits_iff.mpr ⟨rfl, rfl⟩⟩⟩
    · intro h
      obtain ⟨source, actions, hactions, hmem⟩ := h
      obtain ⟨t, ht, hfits⟩ := (mem_actionsFrom hactions).mp hmem
      exact mem_allActions.mpr ⟨t, ht, (Transition.fits_iff.mp hfits).2⟩
  · intro hstate
    obtain ⟨id, hid⟩ := exists_stateId hstate
    have hlt : id < p.stateCount := stateId?_lt hid
    have hset : p.setPosition state = .ok (p.moveTo id) := by
      rw [setPosition, requireState, hid]
    obtain ⟨actions, hactions, hincreasing, hmem⟩ := exists_actionsFrom hid
    refine ⟨id, p.moveTo id, actions, hid, hset, hactions, hincreasing, ?_, ?_, ?_⟩
    · intro action h
      obtain ⟨t, ht, hfits, _⟩ := mem_permittedActionsFrom.mp h
      exact (hmem action).mpr ⟨t, ht, hfits⟩
    · intro action h
      obtain ⟨t, ht, hfits⟩ := (hmem action).mp h
      exact mem_allActions.mpr ⟨t, ht, (Transition.fits_iff.mp hfits).2⟩
    · intro action
      have hread := decideAt_eq_read (stateName?_of_stateId? hid) action
      refine ⟨decide_moveTo hlt action, ?_, ?_, ?_⟩
      · rw [hmem, hread, Definition.read_reason_iff]
        rfl
      · intro hpermitted
        rw [hread] at hpermitted
        exact mem_permittedActionsFrom.mpr (Definition.exists_permit_of_read hpermitted)
      · rw [mem_permittedActionsFrom, hread, Definition.overruled_iff]
        rfl
  · intro hstate
    exact ⟨actionsFrom_undeclared hstate, permittedActionsFrom_undeclared hstate⟩

end Protocol

/-! ## A permission that does not count -/

/-- Says no to `go` before it says yes, and has no answer to anything else. -/
def contested : Protocol where
  definition := ⟨"contested", "here", [.accept "here", .accept "there"],
    [.deny "here" "here" "go", .permit "here" "there" "go", .permit "there" "here" "go"]⟩
  places := ⟨[("here", 0), ("there", 1)], by decide⟩
  placed := rfl
  initialId := ⟨0, by decide⟩
  initial_placed := rfl
  table := [[("go", 0)], [("go", 2)]]
  wired := rfl
  position := ⟨1, by decide⟩

theorem Protocol.actions_agree_with_decisions_contested :
    "here" ∈ contested.stateNames ∧ "gone" ∉ contested.stateNames ∧
    (∃ actions, contested.actionsFrom "here" = .ok actions ∧ "go" ∈ actions ∧ "stay" ∉ actions) ∧
    "go" ∈ contested.permittedActionsFrom "here" ∧ (contested.decideAt 0 "go").permitted = false ∧
    contested.actionsFrom "gone" = .error (.unknownState "contested" "gone") ∧
    contested.permittedActionsFrom "gone" = [] := by
  have hhere : "here" ∈ contested.stateNames := by decide
  have hgone : "gone" ∉ contested.stateNames := by decide
  obtain ⟨_, _, _, hdeclared, _⟩ := actions_agree_with_decisions contested "here"
  obtain ⟨_, _, _, _, hundeclared⟩ := actions_agree_with_decisions contested "gone"
  obtain ⟨id, moved, actions, hid, _, hactions, _, _, _, hagree⟩ := hdeclared hhere
  obtain rfl : 0 = id := Option.some.inj hid
  have hoverruled : contested.definition.Overruled "here" "go" :=
    ⟨[], _, _, rfl, by simp, rfl, rfl, .permit "here" "there" "go", by simp, rfl, rfl⟩
  obtain ⟨hlisted, hdenied⟩ := (hagree "go").2.2.2.mpr hoverruled
  refine ⟨hhere, hgone, ⟨actions, hactions, ?_, ?_⟩, hlisted, hdenied, hundeclared hgone⟩
  · rw [(hagree "go").2.1]
    decide
  · rw [(hagree "stay").2.1]
    decide

end Lockstep
