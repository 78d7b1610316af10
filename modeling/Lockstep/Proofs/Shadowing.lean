import Lockstep.Proofs.Defects
import Mathlib.Data.Finset.Card
import Mathlib.Data.List.TakeWhile

/-!
# Transitions that never count

Of several transitions that leave one state on one action only the first one ever decides. The others are
legal, but whoever declares them should know, so building warns of them on the way. It does so while it wires
the table, with what the table holds at that moment, and it stops at a loose end with whatever it has said by
then.

`Definition.warnings` says what there is to warn of, from the declaration alone: every transition before the
first loose end whose state and action an earlier transition has as well, with the place of the first one that
has them. What building tells the log is that list, and then that a protocol was constructed, if one was. The
reason is that the table always holds the first place of every state and action that was entered
(`Definition.Remembers`), so it knows whether there is an earlier transition, and which one is the first.

Once a protocol is there, the transitions without a warning are the ones that its table points to. There is one
for every state and action that the declaration has a transition for, and the rest are warned of.
-/

namespace Lockstep

/-- What decides whether a transition applies: the state that it leaves and the action. -/
def Transition.trigger (t : Transition) : String × String := (t.source, t.action)

theorem Transition.idxOf?_trigger (ts : List Transition) (state action : String) :
    (ts.map Transition.trigger).idxOf? (state, action) = ts.findIdx? (·.fits state action) := by
  rw [List.idxOf?, List.findIdx?_map]
  rfl

theorem idxOf?_of_mem {α : Type} [BEq α] [LawfulBEq α] {l : List α} {a : α} (h : a ∈ l) :
    l.idxOf? a = some (l.idxOf a) := by
  obtain ⟨i, hi⟩ := Option.isSome_iff_exists.mp (List.isSome_idxOf?.mpr h)
  rw [List.idxOf_eq_getD_idxOf?, hi, Option.getD_some]

namespace Definition

variable {d : Definition} {t : Transition} {before rest : List Transition} {table : Table}

/-! ## What there is to warn of -/

/-- The triggers of the transitions, in order of declaration. -/
def triggers (d : Definition) : List (String × String) := d.transitions.map Transition.trigger

/-- The warning about a transition at a place. It names the first transition with the same trigger. -/
def warning (d : Definition) (t : Transition) (index : Nat) : Event :=
  .shadowed d.name t.source t.action (d.triggers.idxOf t.trigger) index

/-- The warnings about the transitions `start, start + 1, …`: of those before the first loose end, about each
that has the trigger of an earlier one. -/
def warningsFrom (d : Definition) (start : Nat) (ts : List Transition) : List Event :=
  (((ts.takeWhile fun t => t.source ∈ d.stateNames ∧ t.target ∈ d.stateNames).zipIdx start).filter
    fun x => x.1.trigger ∈ d.triggers.take x.2).map fun x => d.warning x.1 x.2

/-- All warnings about a declaration. -/
def warnings (d : Definition) : List Event := d.warningsFrom 0 d.transitions

theorem warningsFrom_loose (start : Nat) (h : ¬ (t.source ∈ d.stateNames ∧ t.target ∈ d.stateNames)) :
    d.warningsFrom start (t :: rest) = [] := by
  unfold warningsFrom
  rw [List.takeWhile_cons_of_neg (by simpa using h)]
  rfl

theorem warningsFrom_declared (start : Nat) (h : t.source ∈ d.stateNames ∧ t.target ∈ d.stateNames) :
    d.warningsFrom start (t :: rest) =
      (if t.trigger ∈ d.triggers.take start then [d.warning t start] else []) ++
        d.warningsFrom (start + 1) rest := by
  unfold warningsFrom
  rw [List.takeWhile_cons_of_pos (by simpa using h), List.zipIdx_cons, List.filter_cons]
  by_cases hearlier : t.trigger ∈ d.triggers.take start
  · simp [hearlier]
  · simp [hearlier]

theorem level_of_mem_warnings {e : Event} (h : e ∈ d.warnings) : e.level = .warn := by
  obtain ⟨x, _, rfl⟩ := List.mem_map.mp h
  rfl

/-! ## What the table remembers -/

/-- The table has a slot for every state, and for every action the first place where one of the transitions
`before` leaves the state on it. -/
structure Remembers (d : Definition) (before : List Transition) (table : Table) : Prop where
  length : table.length = d.states.length
  first : ∀ {state : String} {id : Nat}, d.stateId? state = some id → ∀ action,
    table.find? id action = (before.map Transition.trigger).idxOf? (state, action)

theorem remembers_blank (d : Definition) : d.Remembers [] (Table.blank d.states.length) where
  length := List.length_replicate
  first _ action := Table.find?_blank _ _ action

/-- **Entering a transition keeps the first places**, and adds its own if its trigger is new. -/
theorem Remembers.wireStep {source : Nat} (h : d.Remembers before table)
    (hs : d.stateId? t.source = some source) :
    d.Remembers (before ++ [t]) (Definition.wireStep table source t.action before.length) where
  length := (length_wireStep table source t.action before.length).trans h.length
  first := by
    intro state id hid action
    rw [find?_wireStep hs hid h.length, h.first hid, Transition.idxOf?_trigger, Transition.idxOf?_trigger,
      List.findIdx?_append, List.findIdx?_singleton]
    by_cases hfits : t.fits state action = true
    · simp [hfits]
    · simp [hfits]

/-- **The table knows whether a transition comes too late**, and which one it has to name. -/
theorem Remembers.warning {source : Nat} (h : d.Remembers before table)
    (hsplit : d.transitions = before ++ t :: rest) (hs : d.stateId? t.source = some source) :
    (table.find? source t.action).toList.map (.shadowed d.name t.source t.action · before.length) =
      if t.trigger ∈ d.triggers.take before.length then [d.warning t before.length] else [] := by
  have htriggers : d.triggers = before.map Transition.trigger ++ (t :: rest).map Transition.trigger := by
    rw [triggers, hsplit, List.map_append]
  have htake : d.triggers.take before.length = before.map Transition.trigger := by
    rw [htriggers, List.take_left' (List.length_map _)]
  have hfirst : table.find? source t.action = (before.map Transition.trigger).idxOf? t.trigger :=
    h.first hs t.action
  rw [htake, hfirst]
  by_cases hearlier : t.trigger ∈ before.map Transition.trigger
  · -- the first among the earlier ones is the first of all
    have hwinner : d.triggers.idxOf t.trigger = (before.map Transition.trigger).idxOf t.trigger := by
      rw [htriggers, List.idxOf_append_of_mem hearlier]
    rw [if_pos hearlier, idxOf?_of_mem hearlier, Definition.warning, hwinner]
    rfl
  · rw [if_neg hearlier, List.idxOf?_eq_none_iff.mpr hearlier]
    rfl

/-- **Wiring warns of what there is to warn of**, whatever part of the declaration it has come to. -/
theorem log_wireFrom {places : Places} (hx : d.Indexes places) (rest : List Transition) :
    ∀ {before : List Transition} {table : Table},
    d.transitions = before ++ rest → d.Remembers before table →
      (d.wireFrom places before.length rest table).log = d.warningsFrom before.length rest := by
  induction rest with
  | nil => intro before table _ _; rfl
  | cons t rest ih =>
    intro before table hsplit hremembers
    rcases wireFrom_cons_cases hx before.length t rest table with
      ⟨e, hloose, _, hlog⟩ | ⟨hdeclared, source, hs, _, hlog⟩
    · rw [hlog, warningsFrom_loose _ hloose.not_declared]
    · have hnext := ih (by rw [hsplit, List.append_assoc]; rfl) (hremembers.wireStep hs)
      rw [List.length_append, List.length_singleton] at hnext
      rw [hlog, hremembers.warning hsplit hs, hnext, warningsFrom_declared _ hdeclared]

theorem log_wire {places : Places} (hx : d.Indexes places) : (d.wire places).log = d.warnings :=
  log_wireFrom hx d.transitions rfl d.remembers_blank

/-- **What building tells the log**: the warnings, and then that a protocol was constructed, if one was. -/
theorem log_build_cases (hdistinct : d.stateNames.Nodup) (hinitial : d.initialState ∈ d.stateNames) :
    (∃ e, d.build.outcome = .error e ∧ d.build.log = d.warnings) ∨
      ∃ p, d.build.outcome = .ok p ∧
        d.build.log = d.warnings ++ [.constructed d.name d.states.length d.transitions.length] := by
  cases d.building with
  | repeated again _ =>
    exact absurd (again.symm.trans (Text.firstRepeated_eq_none_iff.mpr hdistinct)) (by simp)
  | start _ undeclared _ => exact absurd hinitial undeclared
  | loose _ _ indexes _ ends =>
    rw [ends, log_wire indexes]
    exact Or.inl ⟨_, rfl, rfl⟩
  | @built p declared _ ends =>
    rw [ends, log_wire (declared ▸ p.indexes)]
    exact Or.inr ⟨p, rfl, rfl⟩

/-! ## Who is warned of, and how often -/

/-- The log has a warning about the transition at a place, whatever it says of it. -/
def Warned (log : List Event) (index : Nat) : Prop :=
  ∃ protocol source action winner, Event.shadowed protocol source action winner index ∈ log

/-- That a protocol was constructed is no warning. -/
theorem warned_append_constructed {log : List Event} {protocol : String} {states transitions i : Nat} :
    Warned (log ++ [.constructed protocol states transitions]) i ↔ Warned log i := by
  simp [Warned]

/-- The transitions that have the trigger of an earlier one, with their places. -/
def repeats (ts : List Transition) : List (Transition × Nat) :=
  ts.zipIdx.filter fun x => x.1.trigger ∈ (ts.map Transition.trigger).take x.2

theorem WellFormed.warnings_eq (h : d.WellFormed) :
    d.warnings = (repeats d.transitions).map fun x => d.warning x.1 x.2 := by
  have hall : (d.transitions.takeWhile fun t => t.source ∈ d.stateNames ∧ t.target ∈ d.stateNames) =
      d.transitions := by
    rw [List.takeWhile_eq_self_iff]
    intro t ht
    simpa using h.endpoints t ht
  rw [warnings, warningsFrom, hall]
  rfl

theorem getElem?_triggers {i : Nat} (ht : d.transitions[i]? = some t) : d.triggers[i]? = some t.trigger := by
  rw [triggers, List.getElem?_map, ht]
  rfl

theorem trigger_mem_triggers {i : Nat} (ht : d.transitions[i]? = some t) : t.trigger ∈ d.triggers :=
  List.mem_of_getElem? (getElem?_triggers ht)

/-- No transition comes before the first one with its trigger. -/
theorem idxOf_trigger_le {i : Nat} (ht : d.transitions[i]? = some t) : d.triggers.idxOf t.trigger ≤ i := by
  have htake : t.trigger ∈ d.triggers.take (i + 1) := by
    refine List.mem_of_getElem? (i := i) ?_
    rw [List.getElem?_take_of_lt (Nat.lt_succ_self i)]
    exact getElem?_triggers ht
  exact Nat.le_of_lt_succ ((List.mem_take_iff_idxOf_lt (trigger_mem_triggers ht)).mp htake)

/-- A transition repeats a trigger unless it is the first one that has it. -/
theorem mem_repeats_iff {i : Nat} (ht : d.transitions[i]? = some t) :
    (t, i) ∈ repeats d.transitions ↔ d.triggers.idxOf t.trigger ≠ i := by
  have hle := idxOf_trigger_le ht
  have hearlier : t.trigger ∈ d.triggers.take i ↔ d.triggers.idxOf t.trigger < i :=
    List.mem_take_iff_idxOf_lt (trigger_mem_triggers ht)
  rw [repeats, List.mem_filter, decide_eq_true_eq, ← triggers, hearlier]
  constructor
  · rintro ⟨_, hlt⟩
    exact Nat.ne_of_lt hlt
  · intro hne
    exact ⟨List.mem_zipIdx_iff_getElem?.mpr ht, by omega⟩

/-- **There is a warning about every transition but the first one with its trigger.** -/
theorem WellFormed.warned_iff {i : Nat} (h : d.WellFormed) (ht : d.transitions[i]? = some t) :
    Warned d.warnings i ↔ d.triggers.idxOf t.trigger ≠ i := by
  rw [h.warnings_eq, Warned, ← mem_repeats_iff ht]
  constructor
  · rintro ⟨protocol, source, action, winner, hmem⟩
    obtain ⟨⟨u, j⟩, hu, heq⟩ := List.mem_map.mp hmem
    injection heq with _ _ _ _ hij
    obtain rfl : j = i := hij
    -- only `t` is at that place
    have hplace : d.transitions[j]? = some u := List.mem_zipIdx_iff_getElem?.mp (List.mem_filter.mp hu).1
    obtain rfl : u = t := Option.some.inj (hplace.symm.trans ht)
    exact hu
  · intro hrepeats
    exact ⟨_, _, _, _, List.mem_map.mpr ⟨(t, i), hrepeats, rfl⟩⟩

/-- One more transition changes nothing about the earlier ones. -/
theorem repeats_snoc (ts : List Transition) (t : Transition) :
    repeats (ts ++ [t]) =
      repeats ts ++ if t.trigger ∈ ts.map Transition.trigger then [(t, ts.length)] else [] := by
  have hold : (ts.zipIdx.filter fun x => x.1.trigger ∈ ((ts ++ [t]).map Transition.trigger).take x.2) =
      repeats ts := by
    refine List.filter_congr ?_
    intro x hx
    have hlt : x.2 < ts.length := (List.getElem?_eq_some_iff.mp (List.mem_zipIdx_iff_getElem?.mp hx)).1
    rw [List.map_append, List.take_append_of_le_length]
    rw [List.length_map]
    exact Nat.le_of_lt hlt
  have hlast : ((ts ++ [t]).map Transition.trigger).take ts.length = ts.map Transition.trigger := by
    rw [List.map_append, List.take_left' (List.length_map _)]
  rw [repeats, List.zipIdx_append, List.filter_append, hold, Nat.zero_add, List.zipIdx_singleton,
    List.filter_singleton, hlast, Bool.cond_decide]

/-- **Every transition repeats an earlier trigger or brings a new one.** -/
theorem length_repeats_add_card (ts : List Transition) :
    (repeats ts).length + (ts.map Transition.trigger).toFinset.card = ts.length := by
  induction ts using List.reverseRecOn with
  | nil => rfl
  | append_singleton ts t ih =>
    have hset : ((ts ++ [t]).map Transition.trigger).toFinset =
        insert t.trigger (ts.map Transition.trigger).toFinset := by
      rw [List.map_append, List.toFinset_append, Finset.union_comm]
      rfl
    rw [repeats_snoc, hset, List.length_append, List.length_append, List.length_singleton]
    by_cases hrepeats : t.trigger ∈ ts.map Transition.trigger
    · rw [if_pos hrepeats, Finset.insert_eq_of_mem (List.mem_toFinset.mpr hrepeats), List.length_singleton]
      omega
    · rw [if_neg hrepeats, Finset.card_insert_of_notMem (mt List.mem_toFinset.mp hrepeats), List.length_nil]
      omega

theorem WellFormed.length_warnings (h : d.WellFormed) :
    d.warnings.length + d.triggers.toFinset.card = d.transitions.length := by
  rw [h.warnings_eq, List.length_map]
  exact length_repeats_add_card d.transitions

/-- **The table of a protocol points to the first transition with a trigger.** -/
theorem table_of_build {p : Protocol} {i : Nat} (hp : d.build.outcome = .ok p)
    (ht : d.transitions[i]? = some t) :
    ∃ id u, p.stateId? t.source = some id ∧ p.table.find? id t.action = some (d.triggers.idxOf t.trigger) ∧
      d.transitions[d.triggers.idxOf t.trigger]? = some u ∧ p.transitionFor? id t.action = some u := by
  obtain ⟨rfl, _⟩ := build_ok hp
  have hmem : t ∈ p.transitions := List.mem_of_getElem? ht
  obtain ⟨id, hid⟩ := Protocol.exists_stateId (endpoints_of_wireFrom_ok p.indexes p.wired t hmem).1
  have hplace : p.definition.triggers[p.definition.triggers.idxOf t.trigger]? = some t.trigger :=
    List.getElem?_idxOf (trigger_mem_triggers ht)
  rw [triggers, List.getElem?_map] at hplace
  obtain ⟨u, hu, _⟩ := Option.map_eq_some_iff.mp hplace
  have hfind : p.table.find? id t.action = some (p.definition.triggers.idxOf t.trigger) := by
    rw [Protocol.table_find?_eq (Protocol.stateName?_of_stateId? hid), ← Transition.idxOf?_trigger]
    exact idxOf?_of_mem (trigger_mem_triggers ht)
  refine ⟨id, u, hid, hfind, hu, ?_⟩
  rw [Protocol.transitionFor?_eq, hfind]
  exact hu

/--
**Building warns of exactly the transitions that never count.**

Let state names be distinct and the initial state be declared. The warnings in the log are then `warnings`: in
order, one about each transition before the first with an undeclared end, if an earlier transition leaves the
same state on the same action, with the place of the first that does. They are followed by the note that a
protocol was constructed, if building succeeds, and by nothing if it fails. If it succeeds, the table gives for
the state and the action of every transition the place of the one that decides, and this is the transition's own
place if and only if there is no warning about it; and there are as many warnings as transitions less different
pairs of a state and an action.
-/
theorem build_warns_of_shadowed (d : Definition) (hdistinct : d.stateNames.Nodup)
    (hinitial : d.initialState ∈ d.stateNames) :
    d.build.log.filter (·.level = .warn) = d.warnings ∧
    (∀ e, d.build.outcome = .error e → d.build.log = d.warnings) ∧
    ∀ p, d.build.outcome = .ok p →
      d.build.log = d.warnings ++ [.constructed d.name d.states.length d.transitions.length] ∧
      (∀ i t, d.transitions[i]? = some t → ∃ id winner u,
        p.stateId? t.source = some id ∧ p.table.find? id t.action = some winner ∧
        d.transitions[winner]? = some u ∧ p.transitionFor? id t.action = some u ∧
        (¬ Warned d.build.log i ↔ winner = i)) ∧
      d.warnings.length + d.triggers.toFinset.card = d.transitions.length := by
  have hwarn : d.warnings.filter (·.level = .warn) = d.warnings := by
    rw [List.filter_eq_self]
    intro e he
    rw [level_of_mem_warnings he]
    rfl
  rcases log_build_cases hdistinct hinitial with ⟨e, hfails, hlog⟩ | ⟨p, hp, hlog⟩
  · refine ⟨by rw [hlog, hwarn], fun _ _ => hlog, ?_⟩
    intro p hp
    exact absurd (hfails.symm.trans hp) (by simp)
  · have hwf : d.WellFormed := exists_build_ok_iff.mp ⟨p, hp⟩
    refine ⟨?_, ?_, ?_⟩
    · rw [hlog, List.filter_append, hwarn]
      exact List.append_nil _
    · intro e hfails
      exact absurd (hp.symm.trans hfails) (by simp)
    · intro q hq
      refine ⟨hlog, ?_, hwf.length_warnings⟩
      intro i t ht
      obtain ⟨id, u, hid, hfind, hu, hfor⟩ := table_of_build hq ht
      refine ⟨id, _, u, hid, hfind, hu, hfor, ?_⟩
      rw [hlog, warned_append_constructed, hwf.warned_iff ht, not_not]

/-- Three transitions leave `a` on `go`, with others between them. -/
def contending (between : Transition) : Definition :=
  trial "a" ["a", "b"] [.permit "a" "b" "go", .permit "b" "a" "go", .deny "a" "a" "go", between,
    .permit "a" "a" "go"]

-- In the second declaration the transition in between repeats `go` as well, but it has a loose end.
theorem build_warns_of_shadowed_contending :
    (∃ p, (contending (.permit "a" "b" "stop")).build.outcome = .ok p ∧
      (contending (.permit "a" "b" "stop")).build.log = [.shadowed "trial" "a" "go" 0 2,
        .shadowed "trial" "a" "go" 0 4, .constructed "trial" 2 5] ∧
      ∃ id, p.stateId? "a" = some id ∧ p.transitionFor? id "go" = some (.permit "a" "b" "go")) ∧
    (contending (.permit "a" "y" "go")).build.log = [.shadowed "trial" "a" "go" 0 2] := by
  constructor
  · obtain ⟨_, _, hsucceeds⟩ :=
      build_warns_of_shadowed (contending (.permit "a" "b" "stop")) (by decide) (by decide)
    have hwf : (contending (.permit "a" "b" "stop")).WellFormed := by decide
    obtain ⟨p, hp, _⟩ := hwf.exists_build_ok
    obtain ⟨hlog, htable, _⟩ := hsucceeds p hp
    have hevents : (contending (.permit "a" "b" "stop")).build.log = [.shadowed "trial" "a" "go" 0 2,
        .shadowed "trial" "a" "go" 0 4, .constructed "trial" 2 5] := by
      rw [hlog]
      decide
    obtain ⟨id, winner, u, hid, _, hu, hfor, hown⟩ := htable 0 (.permit "a" "b" "go") rfl
    have hwinner : winner = 0 := by
      refine hown.mp ?_
      rw [hevents]
      simp [Warned]
    rw [hwinner] at hu
    obtain rfl : u = .permit "a" "b" "go" := Option.some.inj hu.symm
    exact ⟨p, hp, hevents, id, hid, hfor⟩
  · obtain ⟨_, hfails, _⟩ :=
      build_warns_of_shadowed (contending (.permit "a" "y" "go")) (by decide) (by decide)
    rcases (contending (.permit "a" "y" "go")).build_cases with ⟨e, _, he⟩ | ⟨hwf, _⟩
    · rw [hfails e he]
      decide
    · exact absurd hwf (by decide)

end Definition

end Lockstep
