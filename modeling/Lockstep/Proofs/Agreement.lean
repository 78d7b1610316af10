import Lockstep.Command.Verify
import Lockstep.Proofs.Deadlock
import Lockstep.Proofs.Ranks

/-!
# One run of every check, or each check on its own

`Verifier.verifyAll` composes the protocols once and runs three checks on the composition; each check can
also be asked for on its own, and then composes for itself. Both ways the protocols are composed or refused
for the same reason, because composing asks who it is done for only when there is nothing to compose
(`composeFor_cases`). What is left is the ranking. Without a priority list it is made by another way than
with one, but from the names in order both ways make the same.
-/

namespace Lockstep

/-- The error of another operation: only an empty composition says what it was needed for. -/
def Error.onBehalfOf (operation : String) : Error → Error
  | .emptyComposition _ => .emptyComposition operation
  | e => e

/-- An operation in two parts that succeeds did so in both. -/
theorem Traced.exists_of_outcome_bind {ε α β : Type} {x : Traced ε α} {f : α → Traced ε β} {b : β}
    (h : (x >>= f).outcome = .ok b) : ∃ a, x.outcome = .ok a ∧ (f a).outcome = .ok b := by
  cases hx : x.outcome with
  | error e =>
    rw [Traced.outcome_bind_error hx] at h
    exact absurd h (by simp)
  | ok a =>
    rw [Traced.outcome_bind hx] at h
    exact ⟨a, rfl, h⟩

/-- An outcome without events leaves only what follows it. -/
theorem Traced.bind_of_ok {ε α β : Type} {x : Except ε α} {a : α} (h : x = .ok a) (f : α → Traced ε β) :
    (liftM x : Traced ε α) >>= f = f a := by
  rw [h]
  rfl

theorem Session.outcome_run {α : Type} (x : Traced Error α) (context : List String) :
    (Session.run x context).outcome = x.outcome.mapError fun e => { context, cause := .refused e } := rfl

namespace Verifier

variable {v : Verifier} {protocols : List Protocol} {c : Composition}

/-- **Whoever composes the protocols, they compose or not for the same reason.** -/
theorem composeFor_cases (protocols : List Protocol) :
    (∀ operation, composeFor operation protocols = .error (.emptyComposition operation)) ∨
      (∃ name, ∀ operation, composeFor operation protocols = .error (.duplicateProtocol name)) ∨
      ∃ c, compose protocols = .ok c := by
  by_cases hne : protocols = []
  · subst hne
    exact Or.inl fun _ => rfl
  · by_cases hd : (protocols.map Protocol.name).Nodup
    · obtain ⟨c, hc, _⟩ := exists_compose_ok hne hd
      exact Or.inr (Or.inr ⟨c, hc⟩)
    · have hcompose : ∃ name, compose protocols = .error (.duplicateProtocol name) := by
        unfold compose
        rw [dif_neg hne]
        split
        · exact ⟨_, rfl⟩
        · rename_i hnone
          exact absurd (Text.nodup_of_firstRepeated_eq_none hnone) hd
      obtain ⟨name, hname⟩ := hcompose
      refine Or.inr (Or.inl ⟨name, fun operation => ?_⟩)
      rw [composeFor, if_neg (by simpa using hne), hname]

theorem verifyMonotonic_ok (hc : compose protocols = .ok c) :
    (v.verifyMonotonic protocols).outcome = .ok (v.checkMonotonic c c.composeAt) := by
  unfold verifyMonotonic
  rw [Traced.outcome_bind (composeFor_eq_ok hc _)]
  rfl

/-! ## Every check at once -/

theorem verifyAll_ok {priority : Option (List String)} {r : Ranking} (hc : compose protocols = .ok c)
    (hr : Ranking.resolve c priority = .ok r) :
    (v.verifyAll protocols priority).outcome =
      .ok (.ofList [(.monotonicRestriction, v.checkMonotonic c c.composeAt),
        (.deadlockFreedom, v.checkDeadlock c), (.priorityOrdering, v.checkPriority c c.composeAt r)]) := by
  unfold verifyAll
  rw [Traced.outcome_bind (composeFor_eq_ok hc _), Traced.outcome_bind hr]
  rfl

theorem verifyAll_unranked {priority : Option (List String)} {e : Error} (hc : compose protocols = .ok c)
    (hr : Ranking.resolve c priority = .error e) :
    (v.verifyAll protocols priority).outcome = .error e := by
  unfold verifyAll
  rw [Traced.outcome_bind (composeFor_eq_ok hc _)]
  exact Traced.outcome_bind_error hr _

theorem verifyAll_uncomposed {priority : Option (List String)} {e : Error}
    (hc : composeFor "verify_all" protocols = .error e) :
    (v.verifyAll protocols priority).outcome = .error e :=
  Traced.outcome_bind_error hc _

theorem verifyPriority_uncomposed {priority : List String} {e : Error}
    (hc : composeFor "verify_priority_ordering" protocols = .error e) :
    (v.verifyPriority protocols priority).outcome = .error e :=
  Traced.outcome_bind_error hc _

theorem compose_of_verifyAll_ok {priority : Option (List String)} {results : OrderedMap Property Verdict}
    (h : (v.verifyAll protocols priority).outcome = .ok results) : ∃ c, compose protocols = .ok c := by
  rcases composeFor_cases protocols with hempty | ⟨name, hdup⟩ | hok
  · rw [verifyAll_uncomposed (hempty _)] at h
    exact absurd h (by simp)
  · rw [verifyAll_uncomposed (hdup _)] at h
    exact absurd h (by simp)
  · exact hok

/-- What a run of every check and a run of the priority check can come to together. -/
theorem verifyAll_cases (v : Verifier) (protocols : List Protocol) (priority : List String) :
    (∃ e, (v.verifyAll protocols (some priority)).outcome = .error (e.onBehalfOf "verify_all") ∧
        (v.verifyPriority protocols priority).outcome = .error e) ∨
      ∃ m d o, (v.verifyMonotonic protocols).outcome = .ok m ∧
        (v.verifyDeadlock protocols).outcome = .ok d ∧
        (v.verifyPriority protocols priority).outcome = .ok o ∧
        (v.verifyAll protocols (some priority)).outcome =
          .ok (.ofList [(.monotonicRestriction, m), (.deadlockFreedom, d), (.priorityOrdering, o)]) := by
  rcases composeFor_cases protocols with hempty | ⟨name, hdup⟩ | ⟨c, hc⟩
  · exact Or.inl ⟨_, verifyAll_uncomposed (hempty _), verifyPriority_uncomposed (hempty _)⟩
  · exact Or.inl ⟨_, verifyAll_uncomposed (hdup _), verifyPriority_uncomposed (hdup _)⟩
  · cases hr : Ranking.ofPriority c priority with
    | error e =>
      -- a list that names a stranger is refused without a word about who asked
      have hname : e.onBehalfOf "verify_all" = e := by
        unfold Ranking.ofPriority at hr
        dsimp only at hr
        split at hr
        · exact absurd hr (by simp)
        · injection hr with he
          rw [← he]
          rfl
      refine Or.inl ⟨e, ?_, verifyPriority_error hc hr⟩
      rw [hname]
      exact verifyAll_unranked hc hr
    | ok r =>
      exact Or.inr ⟨_, _, _, verifyMonotonic_ok hc, verifyDeadlock_ok hc, verifyPriority_ok hc hr,
        verifyAll_ok hc hr⟩

/-- **No priority list means the protocols in order**, in the log as well. -/
theorem verifyAll_none (v : Verifier) (protocols : List Protocol) :
    v.verifyAll protocols none = v.verifyAll protocols (some (protocols.map Protocol.name)) := by
  unfold verifyAll
  rcases composeFor_cases protocols with hempty | ⟨name, hdup⟩ | ⟨c, hc⟩
  · rw [hempty]
    rfl
  · rw [hdup]
    rfl
  · have hnames : protocols.map Protocol.name = c.names := by
      rw [Composition.names, protocols_of_compose_ok hc]
    -- the names in order name no stranger, so the list is accepted as it is
    have hranking : Ranking.resolve c (some c.names) = Ranking.resolve c none :=
      Ranking.ofPriority_names c
    rw [Traced.bind_of_ok (composeFor_eq_ok hc _), Traced.bind_of_ok (composeFor_eq_ok hc _), hnames,
      hranking]

end Verifier

/-! ## From a file -/

theorem built_of_buildAll_ok {ds : List Definition} {ps : List Protocol}
    (h : (buildAll ds).outcome = .ok ps) : Definition.Built ds ps := by
  induction ds generalizing ps with
  | nil =>
    cases h
    exact .nil
  | cons d ds ih =>
    unfold buildAll at h
    obtain ⟨p, hp, h⟩ := Traced.exists_of_outcome_bind h
    obtain ⟨rest, hrest, h⟩ := Traced.exists_of_outcome_bind h
    cases h
    exact .cons hp (ih hrest)

theorem CompositionFile.effectivePriority_eq {file : CompositionFile} {protocols : List Protocol}
    (hnone : file.priority = none) (hbuild : file.build.outcome = .ok protocols) :
    file.effectivePriority = protocols.map Protocol.name := by
  unfold effectivePriority
  rw [hnone, ← (built_of_buildAll_ok hbuild).definitions]
  exact List.map_map

/-- **A command without a priority list gives the verdicts of no priority list.** -/
theorem Command.Verify.results_run {args : Command.Verify} {contents : Except FileFault String}
    {file : CompositionFile} {v : Verifier} {protocols : List Protocol}
    (hload : (Session.load args.file contents).outcome = .ok file) (hnone : file.priority = none)
    (hbuild : file.build.outcome = .ok protocols)
    (hv : Verifier.ofConfig { maxStates := args.maxStates.getD file.verifier.maxStates } = .ok v) :
    (args.run contents).outcome.map (fun finished => finished.result.results) =
      (v.verifyAll protocols none).outcome.mapError fun e => { cause := .refused e } := by
  have hbuilt : (Session.run file.build ["building protocols"]).outcome = .ok protocols := by
    rw [Session.outcome_run, hbuild]
    rfl
  have hverifier : (Session.run (.lift (Verifier.ofConfig
      { maxStates := args.maxStates.getD file.verifier.maxStates })) []).outcome = .ok v := by
    rw [hv]
    rfl
  have hpriority : some file.effectivePriority = some (protocols.map Protocol.name) := by
    rw [CompositionFile.effectivePriority_eq hnone hbuild]
  unfold run
  rw [Traced.outcome_bind hload]
  dsimp only
  rw [Traced.outcome_bind hbuilt, Traced.outcome_bind hverifier, hpriority, ← v.verifyAll_none]
  cases hall : (v.verifyAll protocols none).outcome with
  | error e =>
    have hfail : (Session.run (v.verifyAll protocols none) []).outcome =
        .error { cause := .refused e } := by
      rw [Session.outcome_run, hall]
      rfl
    rw [Traced.outcome_bind_error hfail]
    rfl
  | ok results =>
    have hsuccess : (Session.run (v.verifyAll protocols none) []).outcome = .ok results := by
      rw [Session.outcome_run, hall]
      rfl
    obtain ⟨c, hc⟩ := Verifier.compose_of_verifyAll_ok hall
    have hcomposed : (Session.run (.lift (compose protocols)) []).outcome = .ok c := by
      rw [hc]
      rfl
    rw [Traced.outcome_bind hsuccess, Traced.outcome_bind hcomposed]
    rfl

/--
**A run of every check agrees with the checks run one by one.**

With a priority list it succeeds exactly if the priority check does, and then its entries are the three
verdicts in order; it fails as the priority check fails, except that an empty composition names the
operation. Without a list it is the run with the names in order, and so is a run from a file that gives none.
-/
theorem verifyAll_agrees (v : Verifier) (protocols : List Protocol) :
    (∀ priority,
      ((∃ results, (v.verifyAll protocols (some priority)).outcome = .ok results) ↔
        ∃ o, (v.verifyPriority protocols priority).outcome = .ok o) ∧
      (∀ results, (v.verifyAll protocols (some priority)).outcome = .ok results →
        ∃ m d o, (v.verifyMonotonic protocols).outcome = .ok m ∧
          (v.verifyDeadlock protocols).outcome = .ok d ∧
          (v.verifyPriority protocols priority).outcome = .ok o ∧
          results.entries =
            [(.monotonicRestriction, m), (.deadlockFreedom, d), (.priorityOrdering, o)]) ∧
      ∀ e, (v.verifyAll protocols (some priority)).outcome = .error e →
        ∃ e', (v.verifyPriority protocols priority).outcome = .error e' ∧
          e = e'.onBehalfOf "verify_all") ∧
    v.verifyAll protocols none = v.verifyAll protocols (some (protocols.map Protocol.name)) ∧
    (∀ file : CompositionFile, file.priority = none → file.build.outcome = .ok protocols →
      v.verifyAll protocols (some file.effectivePriority) = v.verifyAll protocols none) ∧
    ∀ (args : Command.Verify) (contents : Except FileFault String) (file : CompositionFile),
      (Session.load args.file contents).outcome = .ok file → file.priority = none →
      file.build.outcome = .ok protocols →
      Verifier.ofConfig { maxStates := args.maxStates.getD file.verifier.maxStates } = .ok v →
      (args.run contents).outcome.map (fun finished => finished.result.results) =
        (v.verifyAll protocols none).outcome.mapError fun e => { cause := .refused e } := by
  refine ⟨?_, v.verifyAll_none protocols, ?_, ?_⟩
  · intro priority
    rcases v.verifyAll_cases protocols priority with
      ⟨e, hall, hpriority⟩ | ⟨m, d, o, hmonotonic, hdeadlock, hpriority, hall⟩
    · rw [hall, hpriority]
      refine ⟨by simp, by simp, ?_⟩
      intro e' he'
      injection he' with he'
      exact ⟨e, rfl, he'.symm⟩
    · rw [hall, hpriority]
      refine ⟨by simp, ?_, by simp⟩
      intro results hresults
      injection hresults with hresults
      refine ⟨m, d, o, hmonotonic, hdeadlock, rfl, ?_⟩
      rw [← hresults]
      exact OrderedMap.entries_ofList (by simp)
  · intro file hnone hbuild
    rw [v.verifyAll_none, CompositionFile.effectivePriority_eq hnone hbuild]
  · intro args contents file hload hnone hbuild hv
    exact Command.Verify.results_run hload hnone hbuild hv

/-! ## Two protocols that disagree -/

theorem eq_ok_of_toOption {ε α : Type} {x : Except ε α} {a : α} (h : x.toOption = some a) : x = .ok a := by
  cases x with
  | error e => exact absurd h (by simp [Except.toOption])
  | ok b => exact congrArg Except.ok (Option.some.inj h)

/-- A file with two protocols and no priority list. The second denies what the first permits. -/
def opposedFile : String :=
  "protocols=[['P','s',[['s']],[['s','s','a',true]]],['Q','s',[['s']],[['s','s','a',false]]]]"

def fiveStates : Verifier := ⟨5, by decide⟩

/-- The denial goes against the order of the names, but not against the other order. -/
theorem exists_opposed : ∃ file protocols, (Session.load "" (.ok opposedFile)).outcome = .ok file ∧
    file.priority = none ∧ file.build.outcome = .ok protocols ∧
    protocols.map Protocol.name = ["P", "Q"] ∧
    (∃ o, (fiveStates.verifyPriority protocols ["P", "Q"]).outcome = .ok o ∧ o.holds = false) ∧
    ∃ o, (fiveStates.verifyPriority protocols ["Q", "P"]).outcome = .ok o ∧ o.holds = true := by
  have hread : ((Session.load "" (.ok opposedFile)).outcome.toOption.map fun file =>
      (file.priority, file.build.outcome.toOption.map fun protocols => (protocols.map Protocol.name,
        (fiveStates.verifyPriority protocols ["P", "Q"]).outcome.toOption.map Verdict.holds,
        (fiveStates.verifyPriority protocols ["Q", "P"]).outcome.toOption.map Verdict.holds))) =
      some (none, some (["P", "Q"], some false, some true)) := by
    decide +kernel
  obtain ⟨file, hfile, hfields⟩ := Option.map_eq_some_iff.mp hread
  obtain ⟨hnone, hbuilt⟩ := Prod.mk.inj hfields
  obtain ⟨protocols, hprotocols, hfields⟩ := Option.map_eq_some_iff.mp hbuilt
  obtain ⟨hnames, hfields⟩ := Prod.mk.inj hfields
  obtain ⟨hforth, hback⟩ := Prod.mk.inj hfields
  obtain ⟨o, ho, hholds⟩ := Option.map_eq_some_iff.mp hforth
  obtain ⟨o', ho', hholds'⟩ := Option.map_eq_some_iff.mp hback
  exact ⟨file, protocols, eq_ok_of_toOption hfile, hnone, eq_ok_of_toOption hprotocols, hnames,
    ⟨o, eq_ok_of_toOption ho, hholds⟩, o', eq_ok_of_toOption ho', hholds'⟩

/-- Two protocols in an order that matters, from a list, without one and from a file; and no protocols at
all. -/
theorem verifyAll_agrees_opposed :
    ∃ (v : Verifier) (protocols : List Protocol), protocols.map Protocol.name = ["P", "Q"] ∧
      (∃ results m d o, (v.verifyAll protocols (some ["P", "Q"])).outcome = .ok results ∧
        (v.verifyMonotonic protocols).outcome = .ok m ∧ (v.verifyDeadlock protocols).outcome = .ok d ∧
        (v.verifyPriority protocols ["P", "Q"]).outcome = .ok o ∧ o.holds = false ∧
        results.entries = [(.monotonicRestriction, m), (.deadlockFreedom, d), (.priorityOrdering, o)]) ∧
      (∃ results m d o, (v.verifyAll protocols (some ["Q", "P"])).outcome = .ok results ∧
        (v.verifyPriority protocols ["Q", "P"]).outcome = .ok o ∧ o.holds = true ∧
        results.entries = [(.monotonicRestriction, m), (.deadlockFreedom, d), (.priorityOrdering, o)]) ∧
      v.verifyAll protocols none = v.verifyAll protocols (some ["P", "Q"]) ∧
      ((Command.Verify.mk "" (some 5) none).run (.ok opposedFile)).outcome.map
        (fun finished => finished.result.results) =
          (v.verifyAll protocols none).outcome.mapError (fun e => { cause := .refused e }) ∧
      (v.verifyAll [] (some ["P"])).outcome = .error (.emptyComposition "verify_all") ∧
      ∃ e, (v.verifyPriority [] ["P"]).outcome = .error e ∧
        .emptyComposition "verify_all" = e.onBehalfOf "verify_all" := by
  obtain ⟨file, protocols, hload, hnone, hbuild, hnames, ⟨o, ho, hholds⟩, o', ho', hholds'⟩ :=
    exists_opposed
  obtain ⟨hagree, hdefault, _, hcommand⟩ := verifyAll_agrees fiveStates protocols
  -- each list has a run, with the verdict of the priority check as its last entry
  obtain ⟨results, hall⟩ := (hagree ["P", "Q"]).1.mpr ⟨o, ho⟩
  obtain ⟨m, d, _, hm, hd, hsame, hentries⟩ := (hagree ["P", "Q"]).2.1 results hall
  obtain rfl := Except.ok.inj (ho.symm.trans hsame)
  obtain ⟨results', hall'⟩ := (hagree ["Q", "P"]).1.mpr ⟨o', ho'⟩
  obtain ⟨m', d', _, _, _, hsame', hentries'⟩ := (hagree ["Q", "P"]).2.1 results' hall'
  obtain rfl := Except.ok.inj (ho'.symm.trans hsame')
  rw [hnames] at hdefault
  have hempty : (fiveStates.verifyAll [] (some ["P"])).outcome =
      .error (.emptyComposition "verify_all") := rfl
  exact ⟨fiveStates, protocols, hnames, ⟨results, m, d, o, hall, hm, hd, ho, hholds, hentries⟩,
    ⟨results', m', d', o', hall', ho', hholds', hentries'⟩, hdefault,
    hcommand ⟨"", some 5, none⟩ _ file hload hnone hbuild rfl, hempty,
    ((verifyAll_agrees fiveStates []).1 ["P"]).2.2 _ hempty⟩

end Lockstep
