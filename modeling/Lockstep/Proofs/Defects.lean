import Lockstep.Proofs.Interpreter

/-!
# What is wrong with a declaration

A declaration that is not well formed has a first defect, and building reports that one. First means two
things: the names of the states come before the initial state, and that before the transitions; and among
several defects of one kind the one that is declared first counts. `Definition.FirstDefect` says so without
the maps and tables that are built on the way, and `Definition.outcome_build_eq_error_iff` that nothing else
is ever reported.

Names and transitions are both gone through from the top, so their first defect is a place that splits the
list: all is well before it. For the names that is `Text.firstRepeated_eq_some_iff`. Wiring a transition
fails at one of its ends or goes on to the rest, whatever table it has come to
(`Definition.wireFrom_cons_cases`).
-/

namespace Lockstep

namespace Definition

variable {d : Definition} {t : Transition} {e : Error}

/-! ## Loose ends -/

theorem LooseEnd.unique {e' : Error} (h : d.LooseEnd t e) (h' : d.LooseEnd t e') : e = e' := by
  cases h with
  | source hundeclared =>
    cases h' with
    | source _ => rfl
    | target hdeclared _ => exact absurd hdeclared hundeclared
  | target hdeclared _ =>
    cases h' with
    | source hundeclared => exact absurd hdeclared hundeclared
    | target _ _ => rfl

/-- **Wiring fails at the first transition with a loose end.** -/
theorem outcome_wireFrom_eq_error_iff {places : Places} (hx : d.Indexes places)
    {rest : List Transition} : ∀ {index : Nat} {table : Table},
    (d.wireFrom places index rest table).outcome = .error e ↔
      ∃ before t after, rest = before ++ t :: after ∧
        (∀ u ∈ before, u.source ∈ d.stateNames ∧ u.target ∈ d.stateNames) ∧ d.LooseEnd t e := by
  induction rest with
  | nil =>
    intro index table
    refine iff_of_false (by simp [wireFrom, pure]) ?_
    rintro ⟨before, t, after, hsplit, _⟩
    exact absurd hsplit (by simp)
  | cons t rest ih =>
    intro index table
    rcases wireFrom_cons_cases hx index t rest table with
      ⟨e', hloose, hfails, _⟩ | ⟨hdeclared, source, _, hgoes, _⟩
    · rw [hfails, Except.error.injEq]
      constructor
      · rintro rfl
        exact ⟨[], t, rest, rfl, by simp, hloose⟩
      · rintro ⟨before, u, after, hsplit, hbefore, hloose'⟩
        cases before with
        | nil =>
          obtain ⟨rfl, _⟩ := List.cons.inj hsplit
          exact hloose.unique hloose'
        | cons b before =>
          obtain ⟨rfl, _⟩ := List.cons.inj hsplit
          exact absurd (hbefore t (by simp)) hloose.not_declared
    · rw [hgoes, ih]
      constructor
      · rintro ⟨before, u, after, rfl, hbefore, hloose⟩
        exact ⟨t :: before, u, after, rfl, List.forall_mem_cons.mpr ⟨hdeclared, hbefore⟩, hloose⟩
      · rintro ⟨before, u, after, hsplit, hbefore, hloose⟩
        cases before with
        | nil =>
          obtain ⟨rfl, _⟩ := List.cons.inj hsplit
          exact absurd hdeclared hloose.not_declared
        | cons b before =>
          obtain ⟨rfl, rfl⟩ := List.cons.inj hsplit
          exact ⟨before, u, after, rfl, (List.forall_mem_cons.mp hbefore).2, hloose⟩

/-! ## The first defect -/

/-- The defect of a declaration that comes first, as an error. -/
inductive FirstDefect (d : Definition) : Error → Prop
  /-- A state has the name of an earlier one, and no state before it has. -/
  | repeated {before after : List String} {state : String}
    (split : d.stateNames = before ++ state :: after) (distinct : before.Nodup)
    (again : state ∈ before) : FirstDefect d (.duplicateState d.name state)
  /-- States have names of their own, but none is the initial one. -/
  | start (distinct : d.stateNames.Nodup) (undeclared : d.initialState ∉ d.stateNames) :
    FirstDefect d (.undeclaredInitialState d.name d.initialState d.stateNames)
  /-- There is nothing wrong with the states, but a transition has a loose end, and none before it has. -/
  | transition {before after : List Transition} {t : Transition} {e : Error}
    (distinct : d.stateNames.Nodup) (declared : d.initialState ∈ d.stateNames)
    (split : d.transitions = before ++ t :: after)
    (earlier : ∀ u ∈ before, u.source ∈ d.stateNames ∧ u.target ∈ d.stateNames)
    (loose : d.LooseEnd t e) : FirstDefect d e

theorem not_nodup_of_again {before after : List String} {state : String}
    (hsplit : d.stateNames = before ++ state :: after) (hagain : state ∈ before) : ¬ d.stateNames.Nodup := by
  rw [hsplit, List.nodup_append]
  rintro ⟨_, _, happart⟩
  exact happart state hagain state (by simp) rfl

theorem FirstDefect.not_wellFormed (h : d.FirstDefect e) : ¬ d.WellFormed := by
  intro hwf
  cases h with
  | repeated hsplit _ hagain => exact not_nodup_of_again hsplit hagain hwf.distinct
  | start _ hundeclared => exact hundeclared hwf.initial
  | @transition before after t _ _ _ hsplit _ hloose =>
    have ht : t ∈ d.transitions := by
      rw [hsplit]
      simp
    exact hloose.not_declared (hwf.endpoints t ht)

/-- There is one first defect at most. Each kind of defect excludes those that come after it, and what is
found first in a list does not depend on how the list is split. -/
theorem FirstDefect.unique {e' : Error} (h : d.FirstDefect e) (h' : d.FirstDefect e') : e = e' := by
  cases h with
  | repeated hsplit hdistinct hagain =>
    cases h' with
    | repeated hsplit' hdistinct' hagain' =>
      have hfirst := Text.firstRepeated_eq_some_iff.mpr ⟨_, _, hsplit, hdistinct, hagain⟩
      have hfirst' := Text.firstRepeated_eq_some_iff.mpr ⟨_, _, hsplit', hdistinct', hagain'⟩
      rw [Option.some.inj (hfirst.symm.trans hfirst')]
    | start hnodup _ => exact absurd hnodup (not_nodup_of_again hsplit hagain)
    | transition hnodup _ _ _ _ => exact absurd hnodup (not_nodup_of_again hsplit hagain)
  | start hnodup hundeclared =>
    cases h' with
    | repeated hsplit _ hagain => exact absurd hnodup (not_nodup_of_again hsplit hagain)
    | start _ _ => rfl
    | transition _ hdeclared _ _ _ => exact absurd hdeclared hundeclared
  | transition hnodup hdeclared hsplit hearlier hloose =>
    cases h' with
    | repeated hsplit _ hagain => exact absurd hnodup (not_nodup_of_again hsplit hagain)
    | start _ hundeclared => exact absurd hdeclared hundeclared
    | transition _ _ hsplit' hearlier' hloose' =>
      obtain ⟨places, _, hx⟩ := exists_places hnodup
      have hwire : (d.wire places).outcome = .error e :=
        (outcome_wireFrom_eq_error_iff hx).mpr ⟨_, _, _, hsplit, hearlier, hloose⟩
      have hwire' : (d.wire places).outcome = .error e' :=
        (outcome_wireFrom_eq_error_iff hx).mpr ⟨_, _, _, hsplit', hearlier', hloose'⟩
      exact Except.error.inj (hwire.symm.trans hwire')

/-- **What building can come to**: the first defect, or a protocol of a well-formed declaration. -/
theorem build_cases (d : Definition) :
    (∃ e, d.FirstDefect e ∧ d.build.outcome = .error e) ∨
      d.WellFormed ∧ ∃ p, d.build.outcome = .ok p := by
  cases d.building with
  | repeated again ends =>
    obtain ⟨before, after, hsplit, hdistinct, hagain⟩ := Text.firstRepeated_eq_some_iff.mp again
    exact Or.inl ⟨_, .repeated hsplit hdistinct hagain, congrArg Traced.outcome ends⟩
  | start distinct undeclared ends =>
    exact Or.inl ⟨_, .start distinct undeclared, congrArg Traced.outcome ends⟩
  | loose distinct declared indexes unwired ends =>
    obtain ⟨before, t, after, hsplit, hearlier, hloose⟩ :=
      (outcome_wireFrom_eq_error_iff indexes).mp unwired
    exact Or.inl ⟨_, .transition distinct declared hsplit hearlier hloose, congrArg Traced.outcome ends⟩
  | @built p declared _ ends =>
    exact Or.inr ⟨declared ▸ p.wellFormed, p, congrArg Traced.outcome ends⟩

/-- **Building reports the first defect, and nothing else.** -/
theorem outcome_build_eq_error_iff : d.build.outcome = .error e ↔ d.FirstDefect e := by
  rcases d.build_cases with ⟨e', hdefect, hfails⟩ | ⟨hwf, p, hp⟩
  · rw [hfails, Except.error.injEq]
    constructor
    · rintro rfl
      exact hdefect
    · exact hdefect.unique
  · refine iff_of_false ?_ fun hdefect => hdefect.not_wellFormed hwf
    rw [hp]
    simp

theorem exists_build_ok_iff : (∃ p, d.build.outcome = .ok p) ↔ d.WellFormed := by
  constructor
  · rintro ⟨p, hp⟩
    rcases d.build_cases with ⟨e, _, hfails⟩ | ⟨hwf, _⟩
    · exact absurd (hfails.symm.trans hp) (by simp)
    · exact hwf
  · intro hwf
    obtain ⟨p, hp, _⟩ := hwf.exists_build_ok
    exact ⟨p, hp⟩

/--
**Building accepts exactly what is well formed, and reports the first defect of anything else.**

It succeeds if and only if state names are distinct, the initial state is declared and transitions start and
end in declared states. It fails with an error if and only if that error is the first defect: the first state
with the name of an earlier one; else the initial state, with all declared names; else the source of the first
transition with an undeclared end, or the target if only that is undeclared. A protocol that is built has the
states and transitions of the declaration, its places and names determine each other, and its cursor is at the
initial state.
-/
theorem build_reports_first_defect (d : Definition) :
    ((∃ p, d.build.outcome = .ok p) ↔
      d.stateNames.Nodup ∧ d.initialState ∈ d.stateNames ∧
        ∀ t ∈ d.transitions, t.source ∈ d.stateNames ∧ t.target ∈ d.stateNames) ∧
    (∀ e, d.build.outcome = .error e ↔ d.FirstDefect e) ∧
    ∀ p, d.build.outcome = .ok p →
      p.name = d.name ∧ p.states = d.states ∧ p.transitions = d.transitions ∧
      (∀ state id, p.stateId? state = some id ↔ p.stateName? id = some state) ∧
      (∀ state, (p.stateId? state).isSome ↔ state ∈ d.stateNames) ∧
      (∀ id, (p.stateName? id).isSome ↔ id < d.states.length) ∧
      p.initialState = d.initialState ∧ p.currentState = d.initialState := by
  refine ⟨?_, fun e => outcome_build_eq_error_iff, ?_⟩
  · rw [exists_build_ok_iff, wellFormed_iff]
  · intro p hp
    obtain ⟨rfl, hstart⟩ := build_ok hp
    have hinitial : p.initialState = p.definition.initialState :=
      Protocol.stateName_of_stateName? p.stateName?_initialId
    refine ⟨rfl, rfl, rfl, ?_, fun state => Protocol.stateId?_isSome_iff,
      fun id => Protocol.stateName?_isSome_iff, hinitial, ?_⟩
    · intro state id
      refine ⟨Protocol.stateName?_of_stateId?, fun hname => ?_⟩
      rw [p.stateId?_eq, Protocol.stateId?_of_stateName? hname]
    · rw [Protocol.currentState, hstart]
      exact hinitial

/-- States, an initial state and transitions to try, under one name. -/
def trial (initialState : String) (names : List String) (transitions : List Transition) : Definition :=
  ⟨"trial", initialState, names.map .accept, transitions⟩

-- The first three have defects of all later kinds as well, and two repeated names or two loose ends.
theorem build_reports_first_defect_trial :
    (trial "x" ["a", "b", "c", "b", "a"] [.permit "a" "y" "go"]).build.outcome =
      .error (.duplicateState "trial" "b") ∧
    (trial "x" ["a", "b"] [.permit "a" "y" "go"]).build.outcome =
      .error (.undeclaredInitialState "trial" "x" ["a", "b"]) ∧
    (trial "a" ["a", "b"] [.permit "a" "b" "go", .deny "b" "y" "stop", .permit "x" "a" "go"]).build.outcome =
      .error (.undeclaredTransitionState "trial" "stop" .target "y") ∧
    ∃ p, (trial "b" ["a", "b"] [.permit "a" "b" "go"]).build.outcome = .ok p ∧
      p.stateId? "b" = some 1 ∧ p.stateName? 1 = some "b" ∧ p.currentState = "b" := by
  refine ⟨?_, ?_, ?_, ?_⟩
  · refine ((build_reports_first_defect _).2.1 _).mpr ?_
    exact @FirstDefect.repeated _ ["a", "b", "c"] ["a"] "b" rfl (by decide) (by decide)
  · refine ((build_reports_first_defect _).2.1 _).mpr ?_
    exact .start (by decide) (by decide)
  · refine ((build_reports_first_defect _).2.1 _).mpr ?_
    have hloose : LooseEnd (trial "a" ["a", "b"] [.permit "a" "b" "go", .deny "b" "y" "stop",
        .permit "x" "a" "go"]) (.deny "b" "y" "stop")
        (.undeclaredTransitionState "trial" "stop" .target "y") := .target (by decide) (by decide)
    exact @FirstDefect.transition _ [.permit "a" "b" "go"] [.permit "x" "a" "go"] _ _ (by decide)
      (by decide) rfl (by decide) hloose
  · obtain ⟨hsucceeds, _, hbuilt⟩ := build_reports_first_defect (trial "b" ["a", "b"] [.permit "a" "b" "go"])
    obtain ⟨p, hp⟩ := hsucceeds.mpr (by decide)
    obtain ⟨_, hstates, _, hinverse, _, _, _, hcurrent⟩ := hbuilt p hp
    have hname : p.stateName? 1 = some "b" := by
      rw [Protocol.stateName?, hstates]
      rfl
    exact ⟨p, hp, (hinverse "b" 1).mpr hname, hname, hcurrent⟩

end Definition

end Lockstep
