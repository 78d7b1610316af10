import Lockstep.Proofs.Names
import Lockstep.Protocol.Basic
import Mathlib.Data.List.Nodup

/-!
# The table is the scan

The transition table of a protocol is wired incrementally, one transition at a time, with the first
one to claim a state and an action winning. What it amounts to is a plain scan of the declaration:
the transition that decides an action in a state is the first one that fits both
(`Protocol.transitionFor?_eq_find?`). Everything else about a single decision follows from that and
from the endpoints of every transition being declared.

For a composition two consequences matter. A decision at a state of the protocol names a state of the
protocol, permitted or not; and a permitted action is one of the actions of the declaration, so no
name from outside the alphabet is ever permitted.
-/

namespace Lockstep

/-! ## Places and names -/

theorem Definition.stateNames_of_stateId? {d : Definition} {name : String} {i : Nat}
    (h : d.stateId? name = some i) : d.stateNames[i]? = some name := by
  unfold Definition.stateId? at h
  rw [List.idxOf?] at h
  obtain ⟨hi, hname, _⟩ := List.findIdx?_eq_some_iff_getElem.mp h
  rw [List.getElem?_eq_getElem hi]
  exact congrArg some (eq_of_beq hname)

theorem Definition.stateId?_of_stateNames {d : Definition} (hd : d.stateNames.Nodup) {name : String}
    {i : Nat} (h : d.stateNames[i]? = some name) : d.stateId? name = some i := by
  obtain ⟨hi, rfl⟩ := List.getElem?_eq_some_iff.mp h
  unfold Definition.stateId?
  rw [List.idxOf?, List.findIdx?_eq_some_iff_getElem]
  refine ⟨hi, by simp, ?_⟩
  intro j hj hbeq
  have heq := eq_of_beq hbeq
  exact absurd (hd.getElem_inj_iff.mp heq) (Nat.ne_of_lt hj)

theorem Definition.stateId?_inj {d : Definition} {s t : String} {i : Nat}
    (hs : d.stateId? s = some i) (ht : d.stateId? t = some i) : s = t := by
  have hst := (stateNames_of_stateId? hs).symm.trans (stateNames_of_stateId? ht)
  exact Option.some.inj hst

theorem Definition.stateId?_isSome_iff {d : Definition} {name : String} :
    (d.stateId? name).isSome ↔ name ∈ d.stateNames := by
  unfold Definition.stateId?
  rw [List.isSome_idxOf?]

theorem Definition.stateId?_eq_none_iff {d : Definition} {name : String} :
    d.stateId? name = none ↔ name ∉ d.stateNames := by
  rw [← stateId?_isSome_iff, Option.not_isSome_iff_eq_none]

/-! ## Slots and tables -/

theorem Slot.find?_insert {action b : String} {index : Nat} {slot : Slot}
    (h : slot.find? action = none) :
    (slot.insert action index).find? b = if b = action then some index else slot.find? b := by
  induction slot with
  | nil =>
    by_cases hb : b = action
    · simp [Slot.insert, Slot.find?, hb]
    · simp [Slot.insert, Slot.find?, hb, Ne.symm hb]
  | cons e rest ih =>
    obtain ⟨a, i⟩ := e
    have hne : a ≠ action := by
      rintro rfl
      simp [Slot.find?] at h
    have hrest : Slot.find? rest action = none := by
      simpa [Slot.find?, hne] using h
    rw [Slot.insert]
    split
    · by_cases hb : b = action
      · simp [Slot.find?, hb]
      · simp [Slot.find?, hb, Ne.symm hb]
    · have ih' := ih hrest
      by_cases hab : a = b
      · simp [Slot.find?, hab, hab ▸ hne]
      · simpa [Slot.find?, hab] using ih'

theorem Table.find?_insert {table : Table} {state s : Nat} {action a : String} {index : Nat}
    (hs : state < table.length) (h : table.find? state action = none) :
    (table.insert state action index).find? s a =
      if s = state ∧ a = action then some index else table.find? s a := by
  unfold Table.find? Table.insert at *
  rw [List.getElem?_eq_getElem hs] at h
  rw [List.getElem?_modify]
  by_cases hss : s = state
  · subst hss
    rw [List.getElem?_eq_getElem hs]
    simp only [if_true, true_and]
    exact Slot.find?_insert h
  · simp only [if_neg (Ne.symm hss), id_map', hss, false_and, if_false]

@[simp]
theorem Table.length_insert (table : Table) (state : Nat) (action : String) (index : Nat) :
    (table.insert state action index).length = table.length := by
  simp [Table.insert]

theorem Table.find?_blank (states s : Nat) (a : String) : (Table.blank states).find? s a = none := by
  unfold Table.find? Table.blank
  rw [List.getElem?_replicate]
  split
  · rename_i heq
    split at heq
    · cases heq
      rfl
    · exact absurd heq (by simp)
  · rfl

/-! ## Wiring -/

namespace Definition

variable {d : Definition} {places : Places} {t : Transition}

/-- Distinct names can all be entered. -/
theorem exists_places (h : d.stateNames.Nodup) : ∃ places, d.places = .ok places ∧ d.Indexes places := by
  rcases d.places_cases with ⟨name, hagain, _⟩ | ⟨_, hplaces⟩
  · exact absurd (hagain.symm.trans (Text.firstRepeated_eq_none_iff.mpr h)) (by simp)
  · exact hplaces

/-- The error about a transition with an end that is not declared. The source is looked at first. -/
inductive LooseEnd (d : Definition) (t : Transition) : Error → Prop
  | source (undeclared : t.source ∉ d.stateNames) :
    LooseEnd d t (.undeclaredTransitionState d.name t.action .source t.source)
  | target (declared : t.source ∈ d.stateNames) (undeclared : t.target ∉ d.stateNames) :
    LooseEnd d t (.undeclaredTransitionState d.name t.action .target t.target)

theorem LooseEnd.not_declared {e : Error} (h : d.LooseEnd t e) :
    ¬ (t.source ∈ d.stateNames ∧ t.target ∈ d.stateNames) := by
  rintro ⟨hsource, htarget⟩
  cases h with
  | source hundeclared => exact hundeclared hsource
  | target _ hundeclared => exact hundeclared htarget

/-- The table after one transition: unchanged if its state and action are already decided. -/
def wireStep (table : Table) (source : Nat) (action : String) (index : Nat) : Table :=
  match table.find? source action with
  | some _ => table
  | none => table.insert source action index

theorem length_wireStep (table : Table) (source : Nat) (action : String) (index : Nat) :
    (wireStep table source action index).length = table.length := by
  unfold wireStep
  split
  · rfl
  · exact table.length_insert source action index

/-- **What wiring one more transition can come to**: an end of it is loose and nothing more is said, or it is
entered, with a warning if it comes too late, and the rest decides. -/
theorem wireFrom_cons_cases (hx : d.Indexes places) (index : Nat) (t : Transition) (rest : List Transition)
    (table : Table) :
    (∃ e, d.LooseEnd t e ∧ (d.wireFrom places index (t :: rest) table).outcome = .error e ∧
        (d.wireFrom places index (t :: rest) table).log = []) ∨
      (t.source ∈ d.stateNames ∧ t.target ∈ d.stateNames) ∧ ∃ source, d.stateId? t.source = some source ∧
        (d.wireFrom places index (t :: rest) table).outcome =
          (d.wireFrom places (index + 1) rest (wireStep table source t.action index)).outcome ∧
        (d.wireFrom places index (t :: rest) table).log =
          (table.find? source t.action).toList.map (.shadowed d.name t.source t.action · index) ++
            (d.wireFrom places (index + 1) rest (wireStep table source t.action index)).log := by
  rw [wireFrom, endpoint, endpoint, hx, hx]
  cases hsource : d.stateId? t.source with
  | none => exact Or.inl ⟨_, .source (stateId?_eq_none_iff.mp hsource), rfl, rfl⟩
  | some source =>
    have hs : t.source ∈ d.stateNames := stateId?_isSome_iff.mp (by rw [hsource]; rfl)
    cases htarget : d.stateId? t.target with
    | none => exact Or.inl ⟨_, .target hs (stateId?_eq_none_iff.mp htarget), rfl, rfl⟩
    | some target =>
      have ht : t.target ∈ d.stateNames := stateId?_isSome_iff.mp (by rw [htarget]; rfl)
      refine Or.inr ⟨⟨hs, ht⟩, source, rfl, ?_⟩
      dsimp only
      -- a transition that an earlier one shadows leaves the table as it is
      cases hfind : table.find? source t.action with
      | some winner =>
        have hstep : wireStep table source t.action index = table := by rw [wireStep, hfind]
        rw [hstep]
        exact ⟨rfl, rfl⟩
      | none =>
        have hstep : wireStep table source t.action index = table.insert source t.action index := by
          rw [wireStep, hfind]
        rw [hstep]
        exact ⟨rfl, rfl⟩

/-- Wiring one more transition succeeds only if both ends are declared, and then goes on from the table with
the transition entered. -/
theorem wireFrom_cons_ok (hx : d.Indexes places) {index : Nat} {rest : List Transition}
    {table result : Table} (h : (d.wireFrom places index (t :: rest) table).outcome = .ok result) :
    (t.source ∈ d.stateNames ∧ t.target ∈ d.stateNames) ∧ ∃ source, d.stateId? t.source = some source ∧
      (d.wireFrom places (index + 1) rest (wireStep table source t.action index)).outcome = .ok result := by
  rcases wireFrom_cons_cases hx index t rest table with ⟨e, _, hfails, _⟩ | ⟨hends, source, hs, hgoes, _⟩
  · exact absurd (hfails.symm.trans h) (by simp)
  · exact ⟨hends, source, hs, hgoes.symm.trans h⟩

/-- Every transition of a wired declaration starts and ends in a declared state. -/
theorem endpoints_of_wireFrom_ok (hx : d.Indexes places) {result : Table} :
    ∀ {rest : List Transition} {index : Nat} {table : Table},
      (d.wireFrom places index rest table).outcome = .ok result →
      ∀ t ∈ rest, t.source ∈ d.stateNames ∧ t.target ∈ d.stateNames := by
  intro rest
  induction rest with
  | nil => intro index table _ t ht; exact absurd ht (by simp)
  | cons t rest ih =>
    intro index table h u hu
    obtain ⟨hends, source, _, hrest⟩ := wireFrom_cons_ok hx h
    rcases List.mem_cons.mp hu with rfl | hu
    · exact hends
    · exact ih hrest u hu

/-- Wiring gives every state its slot and adds none. -/
theorem length_of_wireFrom_ok (hx : d.Indexes places) {result : Table} :
    ∀ {rest : List Transition} {index : Nat} {table : Table},
      (d.wireFrom places index rest table).outcome = .ok result → result.length = table.length := by
  intro rest
  induction rest with
  | nil =>
    intro index table h
    rw [wireFrom] at h
    injection h with h
    rw [h]
  | cons t rest ih =>
    intro index table h
    obtain ⟨_, source, _, hrest⟩ := wireFrom_cons_ok hx h
    rw [ih hrest, length_wireStep]

/-- **What entering one transition changes**: the action in the state that it fits, if nothing decided it. -/
theorem find?_wireStep {table : Table} {source id : Nat} {name a : String}
    (hs : d.stateId? t.source = some source) (hid : d.stateId? name = some id)
    (hlen : table.length = d.states.length) (index : Nat) :
    (wireStep table source t.action index).find? id a =
      (table.find? id a).or (if t.fits name a then some index else none) := by
  have hsource : source < table.length := hlen ▸ stateId?_lt hs
  by_cases hfits : t.fits name a = true
  · -- this transition fits: it wins unless an earlier one did
    have hname : t.source = name ∧ t.action = a := by
      simpa [Transition.fits] using hfits
    obtain ⟨rfl, rfl⟩ := hname
    have hsid : source = id := Option.some.inj (hs.symm.trans hid)
    subst hsid
    rw [if_pos hfits]
    unfold wireStep
    cases hfind : table.find? source t.action with
    | some winner => simp [hfind]
    | none => simp [Table.find?_insert hsource hfind]
  · -- it fits another state or another action, so `id` and `a` are looked up as before
    rw [if_neg hfits, Option.or_none]
    unfold wireStep
    cases hfind : table.find? source t.action with
    | some winner => rfl
    | none =>
      rw [Table.find?_insert hsource hfind, if_neg]
      rintro ⟨rfl, rfl⟩
      refine hfits ?_
      have hname := stateId?_inj hs hid
      simp [Transition.fits, hname]

/--
**A wired table answers like a scan.** What was decided before stays decided; anything else is decided
by the first of the remaining transitions that fits.
-/
theorem find?_of_wireFrom_ok (hx : d.Indexes places) {result : Table} {name a : String} {id : Nat}
    (hid : d.stateId? name = some id) :
    ∀ {rest : List Transition} {index : Nat} {table : Table},
      table.length = d.states.length →
      (d.wireFrom places index rest table).outcome = .ok result →
      result.find? id a = (table.find? id a).or
        ((rest.findIdx? (·.fits name a)).map (index + ·)) := by
  intro rest
  induction rest with
  | nil =>
    intro index table _ h
    rw [wireFrom] at h
    injection h with h
    simp [h]
  | cons t rest ih =>
    intro index table hlen h
    obtain ⟨_, source, hs, hrest⟩ := wireFrom_cons_ok hx h
    have hstep : (wireStep table source t.action index).length = d.states.length := by
      rw [length_wireStep, hlen]
    rw [ih hstep hrest, find?_wireStep hs hid hlen, List.findIdx?_cons, Option.or_assoc]
    by_cases hfits : t.fits name a = true
    · simp [hfits]
    · rw [if_neg hfits, if_neg hfits, Option.none_or, Option.map_map]
      congr 2
      funext i
      simp only [Function.comp_apply]
      omega

end Definition

/-! ## Decisions of a protocol -/

namespace Protocol

/-- **The map of a protocol says where its states are declared.** -/
theorem indexes (p : Protocol) : p.definition.Indexes p.places := Definition.indexes_of_places p.placed

theorem stateId?_eq (p : Protocol) (name : String) : p.stateId? name = p.definition.stateId? name :=
  p.indexes name

/-- No state is declared twice. -/
theorem distinct (p : Protocol) : p.definition.stateNames.Nodup := Definition.nodup_of_places p.placed

theorem stateId?_isSome_iff {p : Protocol} {name : String} :
    (p.stateId? name).isSome ↔ name ∈ p.stateNames := by
  rw [p.stateId?_eq]
  exact Definition.stateId?_isSome_iff

theorem stateId?_eq_none_iff {p : Protocol} {name : String} :
    p.stateId? name = none ↔ name ∉ p.stateNames := by
  rw [p.stateId?_eq]
  exact Definition.stateId?_eq_none_iff

theorem exists_stateId {p : Protocol} {name : String} (h : name ∈ p.stateNames) :
    ∃ id, p.stateId? name = some id :=
  Option.isSome_iff_exists.mp (stateId?_isSome_iff.mpr h)

theorem stateId?_lt {p : Protocol} {name : String} {id : Nat} (h : p.stateId? name = some id) :
    id < p.stateCount := by
  rw [p.stateId?_eq] at h
  exact Definition.stateId?_lt h

theorem initial_declared (p : Protocol) :
    p.definition.stateId? p.definition.initialState = some p.initialId.val := by
  rw [← p.indexes]
  exact p.initial_placed

theorem stateName?_isSome_iff {p : Protocol} {id : Nat} :
    (p.stateName? id).isSome ↔ id < p.stateCount := by
  unfold stateName? stateCount
  simp

theorem exists_stateName {p : Protocol} {id : Nat} (hid : id < p.stateCount) :
    ∃ name, p.stateName? id = some name :=
  Option.isSome_iff_exists.mp (stateName?_isSome_iff.mpr hid)

theorem stateId?_of_stateName? {p : Protocol} {id : Nat} {name : String}
    (h : p.stateName? id = some name) : p.definition.stateId? name = some id := by
  refine Definition.stateId?_of_stateNames p.distinct ?_
  rw [Definition.stateNames, List.getElem?_map]
  exact h

/-- The table points to the first declared transition that fits. -/
theorem table_find?_eq {p : Protocol} {id : Nat} {name : String} (h : p.stateName? id = some name)
    (action : String) : p.table.find? id action = p.transitions.findIdx? (·.fits name action) := by
  have hwired := p.wired
  rw [Definition.wire] at hwired
  have hfind := Definition.find?_of_wireFrom_ok (a := action) p.indexes (stateId?_of_stateName? h)
    (by simp [Table.blank]) hwired
  rw [hfind, Table.find?_blank, Option.none_or]
  unfold transitions
  cases p.definition.transitions.findIdx? (·.fits name action) with
  | none => rfl
  | some i => simp

/-- **The transition that decides is the first declared one that fits.** -/
theorem transitionFor?_eq_find? {p : Protocol} {id : Nat} {name : String}
    (h : p.stateName? id = some name) (action : String) :
    p.transitionFor? id action = p.transitions.find? (·.fits name action) := by
  rw [transitionFor?_eq, table_find?_eq h, List.find?_eq_bind_findIdx?_getElem?]

theorem target_declared {p : Protocol} {t : Transition} (ht : t ∈ p.transitions) :
    p.stateId? t.target = some (p.targetId t) := by
  have htarget := (Definition.endpoints_of_wireFrom_ok p.indexes p.wired t ht).2
  obtain ⟨i, hi⟩ := exists_stateId htarget
  rw [targetId_eq, hi]
  rfl

theorem targetId_lt {p : Protocol} {t : Transition} (ht : t ∈ p.transitions) :
    p.targetId t < p.stateCount :=
  stateId?_lt (target_declared ht)

/-- What a decision at a state of the protocol can be: that of a declared transition on the action, or
the silent denial. -/
theorem decideAt_cases {p : Protocol} {id : Nat} (hid : id < p.stateCount) (action : String) :
    (∃ t ∈ p.transitions, t.action = action ∧ (p.decideAt id action).permitted = t.permitted ∧
        (p.decideAt id action).nextStateId = p.targetId t) ∨
      ((p.decideAt id action).permitted = false ∧ (p.decideAt id action).nextStateId = id) := by
  obtain ⟨name, hname⟩ := exists_stateName hid
  rw [decideAt_eq, transitionFor?_eq_find? hname]
  cases hfind : p.transitions.find? (·.fits name action) with
  | none => exact Or.inr ⟨rfl, rfl⟩
  | some t =>
    have hfits := List.find?_some hfind
    simp only [Transition.fits, Bool.and_eq_true, decide_eq_true_eq] at hfits
    exact Or.inl ⟨t, List.mem_of_find?_eq_some hfind, hfits.2, rfl, rfl⟩

/-- **A decision never leads out of the protocol**, whether it permits or denies. -/
theorem nextStateId_lt {p : Protocol} {id : Nat} (hid : id < p.stateCount) (action : String) :
    (p.decideAt id action).nextStateId < p.stateCount := by
  rcases decideAt_cases hid action with ⟨t, ht, _, _, hnext⟩ | ⟨_, hnext⟩
  · rw [hnext]
    exact targetId_lt ht
  · rw [hnext]
    exact hid

/-- **Only declared actions are ever permitted.** -/
theorem mem_allActions_of_permitted {p : Protocol} {id : Nat} {action : String}
    (hid : id < p.stateCount) (h : (p.decideAt id action).permitted = true) :
    action ∈ p.allActions := by
  rcases decideAt_cases hid action with ⟨t, ht, hact, _, _⟩ | ⟨hdeny, _⟩
  · unfold allActions
    rw [Text.mem_sortDistinct, List.mem_map]
    exact ⟨t, ht, hact⟩
  · rw [hdeny] at h
    exact absurd h (by simp)

@[simp]
theorem decideAt_protocol (p : Protocol) (id : Nat) (action : String) :
    (p.decideAt id action).protocol = p.name := by
  rw [decideAt_eq]
  split <;> rfl

theorem stateCount_pos (p : Protocol) : 0 < p.stateCount :=
  Nat.lt_of_le_of_lt (Nat.zero_le _) p.initialId.isLt

/-- The table has a slot for every state and no other. -/
theorem length_table (p : Protocol) : p.table.length = p.stateCount := by
  rw [Definition.length_of_wireFrom_ok p.indexes p.wired]
  exact List.length_replicate

end Protocol

end Lockstep
