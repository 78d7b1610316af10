import Lockstep.Catalog
import Lockstep.Composition.Basic
import Lockstep.Proofs.Table
import Lockstep.Verifier

/-!
# Building succeeds on what is well formed

A declaration whose state names are distinct, whose initial state is declared and whose transitions
start and end in declared states gives a protocol; protocols with distinct names, at least one of them,
give a composition. Both conditions can be evaluated, and the protocols of the catalogue meet them.

At which stage building ends, what it comes to and what the log is told of it is said once
(`Definition.building`); what else is known about building follows from that.
-/

namespace Lockstep

namespace Definition

/-- What makes a declaration one of a protocol. -/
structure WellFormed (d : Definition) : Prop where
  /-- No state is declared twice. -/
  distinct : d.stateNames.Nodup
  /-- The initial state is declared. -/
  initial : d.initialState ∈ d.stateNames
  /-- Transitions start and end in declared states. -/
  endpoints : ∀ t ∈ d.transitions, t.source ∈ d.stateNames ∧ t.target ∈ d.stateNames

theorem wellFormed_iff {d : Definition} :
    d.WellFormed ↔ d.stateNames.Nodup ∧ d.initialState ∈ d.stateNames ∧
      ∀ t ∈ d.transitions, t.source ∈ d.stateNames ∧ t.target ∈ d.stateNames :=
  ⟨fun h => ⟨h.distinct, h.initial, h.endpoints⟩, fun ⟨hd, hi, he⟩ => ⟨hd, hi, he⟩⟩

instance (d : Definition) : Decidable d.WellFormed := decidable_of_iff _ wellFormed_iff.symm

theorem exists_wireFrom_ok {d : Definition} {places : Places} (hx : d.Indexes places) :
    ∀ {rest : List Transition} {index : Nat} {table : Table},
      (∀ t ∈ rest, t.source ∈ d.stateNames ∧ t.target ∈ d.stateNames) →
      ∃ result, (d.wireFrom places index rest table).outcome = .ok result := by
  intro rest
  induction rest with
  | nil => intro index table _; exact ⟨table, rfl⟩
  | cons t rest ih =>
    intro index table h
    rcases wireFrom_cons_cases hx index t rest table with ⟨e, hloose, _⟩ | ⟨_, source, _, hgoes, _⟩
    · exact absurd (h t (by simp)) hloose.not_declared
    · rw [hgoes]
      exact ih fun u hu => h u (List.mem_cons_of_mem _ hu)

/-- How building a declaration goes: which of its stages ends it, and what it comes to. -/
inductive Building (d : Definition) : Prop
  /-- A name is entered a second time. -/
  | repeated {state : String} (again : Text.firstRepeated d.stateNames = some state)
    (ends : d.build = .fail (.duplicateState d.name state))
  /-- Names are distinct, but the initial state is not among them. -/
  | start (distinct : d.stateNames.Nodup) (undeclared : d.initialState ∉ d.stateNames)
    (ends : d.build = .fail (.undeclaredInitialState d.name d.initialState d.stateNames))
  /-- The states are in order, but a transition cannot be wired. -/
  | loose {places : Places} {e : Error} (distinct : d.stateNames.Nodup)
    (declared : d.initialState ∈ d.stateNames) (indexes : d.Indexes places)
    (unwired : (d.wire places).outcome = .error e) (ends : d.build = ⟨(d.wire places).log, .error e⟩)
  /-- There is a protocol, its cursor at the start. -/
  | built {p : Protocol} (declared : p.definition = d) (fresh : p.position = p.initialId)
    (ends : d.build = ⟨(d.wire p.places).log ++
      [.constructed d.name d.states.length d.transitions.length], .ok p⟩)

/-- **What building can come to.** -/
theorem building (d : Definition) : d.Building := by
  obtain ⟨outcome, hends⟩ : ∃ outcome, d.build = outcome := ⟨_, rfl⟩
  -- one copy of the equation is taken apart, the other one is what each case has to give
  have hbuild := hends
  unfold build at hbuild
  split at hbuild
  · rename_i e he
    rcases d.places_cases with ⟨state, hagain, herror⟩ | ⟨_, places, hplaces, _⟩
    · refine .repeated hagain ?_
      rw [hends, ← hbuild, Except.error.inj (he.symm.trans herror)]
    · exact absurd (he.symm.trans hplaces) (by simp)
  · rename_i places hplaces
    have hx := indexes_of_places hplaces
    have hdistinct := nodup_of_places hplaces
    split at hbuild
    · rename_i hnone
      rw [hx] at hnone
      exact .start hdistinct (stateId?_eq_none_iff.mp hnone) (hends.trans hbuild.symm)
    · rename_i i hi
      have hdeclared : d.initialState ∈ d.stateNames := by
        rw [hx] at hi
        exact stateId?_isSome_iff.mp (Option.isSome_of_eq_some hi)
      split at hbuild
      · rename_i log e hwire
        refine .loose hdistinct hdeclared hx (congrArg Traced.outcome hwire) ?_
        rw [hends, ← hbuild, hwire]
      · rename_i log table hwire
        obtain rfl : (d.wire places).log = log := congrArg Traced.log hwire
        have hlt := lt_of_places hplaces hi
        exact .built (p := ⟨d, places, hplaces, ⟨i, hlt⟩, hi, table, congrArg Traced.outcome hwire,
          ⟨i, hlt⟩⟩) rfl rfl (hends.trans hbuild.symm)

/-- **A well-formed declaration gives a protocol.** -/
theorem WellFormed.exists_build_ok {d : Definition} (h : d.WellFormed) :
    ∃ p, d.build.outcome = .ok p ∧ p.definition = d := by
  cases d.building with
  | repeated again _ =>
    exact absurd (again.symm.trans (Text.firstRepeated_eq_none_iff.mpr h.distinct)) (by simp)
  | start _ undeclared _ => exact absurd h.initial undeclared
  | loose _ _ indexes unwired _ =>
    obtain ⟨table, hwired⟩ : ∃ table, (d.wire _).outcome = .ok table :=
      exists_wireFrom_ok indexes h.endpoints
    exact absurd (unwired.symm.trans hwired) (by simp)
  | built declared _ ends => exact ⟨_, congrArg Traced.outcome ends, declared⟩

/-- What is built is of the declaration, with its cursor at the start. -/
theorem build_ok {d : Definition} {p : Protocol} (h : d.build.outcome = .ok p) :
    p.definition = d ∧ p.position = p.initialId := by
  cases d.building with
  | repeated _ ends => rw [ends] at h; exact absurd h (by simp [Traced.fail])
  | start _ _ ends => rw [ends] at h; exact absurd h (by simp [Traced.fail])
  | loose _ _ _ _ ends => rw [ends] at h; exact absurd h (by simp)
  | built declared fresh ends =>
    rw [ends] at h
    obtain rfl := Except.ok.inj h
    exact ⟨declared, fresh⟩

/-- Protocols built from declarations, in their order. -/
def Built (ds : List Definition) (ps : List Protocol) : Prop :=
  List.Forall₂ (fun d p => d.build.outcome = .ok p) ds ps

theorem exists_built : ∀ {ds : List Definition}, (∀ d ∈ ds, d.WellFormed) → ∃ ps, Built ds ps := by
  intro ds
  induction ds with
  | nil => intro _; exact ⟨[], .nil⟩
  | cons d ds ih =>
    intro h
    obtain ⟨p, hp, _⟩ := (h d (by simp)).exists_build_ok
    obtain ⟨ps, hps⟩ := ih (fun e he => h e (List.mem_cons_of_mem _ he))
    exact ⟨p :: ps, .cons hp hps⟩

theorem Built.mapM_outcome {ds : List Definition} {ps : List Protocol} (h : Built ds ps) :
    (ds.mapM fun d => d.build.outcome) = .ok ps := by
  induction h with
  | nil => rfl
  | cons hp _ ih =>
    rw [List.mapM_cons, hp, ih]
    rfl

theorem Built.definitions {ds : List Definition} {ps : List Protocol} (h : Built ds ps) :
    ps.map Protocol.definition = ds := by
  induction h with
  | nil => rfl
  | cons hp _ ih => rw [List.map_cons, (build_ok hp).1, ih]

theorem Built.positions {ds : List Definition} {ps : List Protocol} (h : Built ds ps) :
    ps.map (fun p => p.position.val) = ps.map fun p => p.initialId.val := by
  induction h with
  | nil => rfl
  | cons hp _ ih => rw [List.map_cons, List.map_cons, (build_ok hp).2, ih]

end Definition

/-- **A protocol is one of a well-formed declaration.** -/
theorem Protocol.wellFormed (p : Protocol) : p.definition.WellFormed where
  distinct := p.distinct
  initial := Definition.stateId?_isSome_iff.mp (Option.isSome_of_eq_some p.initial_declared)
  endpoints := Definition.endpoints_of_wireFrom_ok p.indexes p.wired

/-! ## Compositions -/

/-- A composition is what composing its protocols gives. -/
theorem compose_protocols (c : Composition) : compose c.protocols = .ok c := by
  unfold compose
  rw [dif_neg c.nonempty]
  split
  · rename_i hrep
    exact absurd (hrep.symm.trans (Text.firstRepeated_eq_none_iff.mpr c.distinct)) (by simp)
  · obtain ⟨protocols, _, _, alphabet, halphabet⟩ := c
    subst halphabet
    rfl

/-- **Protocols with distinct names compose**, if there are any. -/
theorem exists_compose_ok {protocols : List Protocol} (hne : protocols ≠ [])
    (hd : (protocols.map Protocol.name).Nodup) :
    ∃ c, compose protocols = .ok c ∧ c.protocols = protocols := by
  let c : Composition := ⟨protocols, hne, hd, unionAlphabet protocols, rfl⟩
  exact ⟨c, compose_protocols c, rfl⟩

theorem protocols_of_compose_ok {protocols : List Protocol} {c : Composition}
    (h : compose protocols = .ok c) : c.protocols = protocols := by
  unfold compose at h
  split at h
  · exact absurd h (by simp)
  · split at h
    · exact absurd h (by simp)
    · injection h with h
      rw [← h]

/-- Build declarations and compose what they give. -/
def composeDefinitions (ds : List Definition) : Except Error Composition := do
  compose (← ds.mapM fun d => d.build.outcome)

/-- Well-formed declarations with distinct names can be built and composed, if there are any. -/
theorem exists_composeDefinitions_ok {ds : List Definition} (hwf : ∀ d ∈ ds, d.WellFormed)
    (hne : ds ≠ []) (hd : (ds.map Definition.name).Nodup) :
    ∃ c, composeDefinitions ds = .ok c ∧ c.protocols.map Protocol.definition = ds := by
  obtain ⟨protocols, hbuilt⟩ := Definition.exists_built hwf
  have hdefs := hbuilt.definitions
  rw [← hdefs] at hne hd
  rw [List.map_map] at hd
  obtain ⟨c, hc, rfl⟩ := exists_compose_ok (mt List.map_eq_nil_iff.mpr hne) hd
  refine ⟨c, ?_, hdefs⟩
  rw [composeDefinitions, hbuilt.mapM_outcome]
  exact hc

theorem exists_composition {ds : List Definition} (hwf : ∀ d ∈ ds, d.WellFormed) (hne : ds ≠ [])
    (hd : (ds.map Definition.name).Nodup) :
    ∃ c : Composition, c.protocols.map Protocol.definition = ds := by
  obtain ⟨c, _, hdefs⟩ := exists_composeDefinitions_ok hwf hne hd
  exact ⟨c, hdefs⟩

/-- The standard composition of the catalogue. -/
theorem Catalog.exists_standard :
    ∃ c : Composition, c.protocols.map Protocol.definition = Catalog.standard :=
  exists_composition (by decide) (by decide) (by decide)

/-- A step that succeeds hands its result on. -/
theorem Traced.outcome_bind {ε α β : Type} {x : Traced ε α} {a : α} (h : x.outcome = .ok a)
    (f : α → Traced ε β) : (x >>= f).outcome = (f a).outcome := by
  obtain ⟨log, outcome⟩ := x
  cases h
  rfl

theorem composeFor_eq_ok {protocols : List Protocol} {c : Composition}
    (hc : compose protocols = .ok c) (operation : String) :
    Verifier.composeFor operation protocols = .ok c := by
  cases protocols with
  | nil => exact absurd hc (by simp [compose])
  | cons p rest => exact hc

end Lockstep
