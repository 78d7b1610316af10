import Lockstep.Proofs.MixedRadix
import Lockstep.Proofs.Priority

/-!
# What the product checks report

Both product checks go through the joint states in the order of the walk and, in each, through the alphabet
in order, up to the first decision of the rule that is wrong. What they report is told here without the
walk, for any rule whatsoever (`Verifier.ReportsFirst`): a violation exactly if the rule is wrong somewhere
within the bound, and then its first place; otherwise how far the check came.

Which decisions are wrong and who is blamed differs. Monotonic restriction is broken by a permission over
any denial, and the first who denied is blamed (`JointDecision.Overrides`). Priority ordering is broken by
that and by denials that some permission outranks (`JointDecision.Misranked`); blamed is the first of the
highest-ranking deniers in the first case and the first of the lowest-ranking ones in the second
(`JointDecision.culprit`).

So the second check takes more for wrong than the first, and it stops no later
(`Verifier.priority_includes_monotonic`).
-/

namespace Lockstep

/-! ## Permissions over denials -/

/-- The action passes although a protocol denies it. -/
def JointDecision.Overrides (d : JointDecision) : Prop :=
  d.globallyPermitted = true ∧ ∃ x ∈ d.individual, x.permitted = false

namespace Verifier

/-- **Permissions over a denial are found**, and blamed on the first who denied. -/
theorem monotonicFault_finds :
    Finds monotonicFault JointDecision.Overrides fun d => d.individual.find? Decision.isDenied := by
  intro d
  unfold monotonicFault JointDecision.denying JointDecision.Overrides
  rw [List.head?_filter]
  by_cases hpass : d.globallyPermitted = true
  · rw [if_pos hpass]
    cases hdenier : d.individual.find? Decision.isDenied with
    | some x =>
      have hx := List.find?_some hdenier
      rw [Decision.isDenied, Bool.not_eq_true'] at hx
      exact Or.inl ⟨⟨hpass, x, List.mem_of_find?_eq_some hdenier, hx⟩, x, hdenier, rfl⟩
    | none =>
      refine Or.inr ⟨?_, rfl⟩
      rintro ⟨_, x, hx, hdenied⟩
      have := List.find?_eq_none.mp hdenier x hx
      rw [Decision.isDenied, hdenied] at this
      exact this rfl
  · rw [if_neg hpass]
    exact Or.inr ⟨fun h => hpass h.1, rfl⟩

end Verifier

/-! ## The first wrong decision -/

namespace Composition

/-- The joint state at a place of the walk, from zero. -/
def jointAt (c : Composition) (i : Nat) : JointState := Odometer.digits c.radices i

/-- The rule is wrong about the action at this place of the walk, and about nothing before: no lesser action
there, and no action at an earlier place. -/
structure FirstWrong (c : Composition) (rule : Rule) (Wrong : JointDecision → Prop) (i : Nat)
    (action : String) : Prop where
  mem : action ∈ c.alphabet
  wrong : Wrong (rule (c.jointAt i) action)
  least : ∀ a ∈ c.alphabet, a < action → ¬ Wrong (rule (c.jointAt i) a)
  earliest : ∀ k < i, ∀ a ∈ c.alphabet, ¬ Wrong (rule (c.jointAt k) a)

theorem getElem?_take_jointStates (c : Composition) (n i : Nat) :
    (c.jointStates.take n)[i]? = if i < min c.productSize n then some (c.jointAt i) else none := by
  rw [List.getElem?_take, jointStates_eq_digits, List.getElem?_map]
  by_cases hn : i < n
  · by_cases hi : i < c.productSize
    · rw [if_pos hn, List.getElem?_range hi, if_pos (by omega)]
      rfl
    · rw [if_pos hn, List.getElem?_eq_none (by simpa using hi), if_neg (by omega)]
      rfl
  · rw [if_neg hn, if_neg (by omega)]

theorem mem_take_jointStates {c : Composition} {n : Nat} {joint : JointState} :
    joint ∈ c.jointStates.take n ↔ ∃ i < min c.productSize n, c.jointAt i = joint := by
  rw [List.mem_iff_getElem?]
  refine exists_congr fun i => ?_
  rw [getElem?_take_jointStates]
  by_cases hi : i < min c.productSize n
  · rw [if_pos hi, Option.some.injEq]
    exact (and_iff_right hi).symm
  · rw [if_neg hi]
    exact iff_of_false (by simp) fun h => hi h.1

end Composition

namespace Verifier

variable {v : Verifier} {property : Property} {fault : JointDecision → Option String}
  {Wrong : JointDecision → Prop} {blamed : JointDecision → Option Decision} {c : Composition}
  {rule : Rule}

/-- The fault of a joint state is in its least action with one. -/
theorem firstFault_eq_some {alphabet : List String} {joint : JointState} {action protocol : String}
    (hsorted : alphabet.Pairwise (· < ·))
    (h : firstFault fault alphabet rule joint = some (action, protocol)) :
    action ∈ alphabet ∧ fault (rule joint action) = some protocol ∧
      ∀ a ∈ alphabet, a < action → fault (rule joint a) = none := by
  rw [firstFault_eq] at h
  obtain ⟨before, b, after, rfl, hb, hbefore⟩ := List.findSome?_eq_some_iff.mp h
  obtain ⟨x, hx, heq⟩ := Option.map_eq_some_iff.mp hb
  obtain ⟨rfl, rfl⟩ := Prod.mk.inj heq
  refine ⟨by simp, hx, ?_⟩
  intro a ha hlt
  rw [List.pairwise_append, List.pairwise_cons] at hsorted
  rcases List.mem_append.mp ha with ha | ha
  · exact Option.map_eq_none_iff.mp (hbefore a ha)
  · -- what is not before the action is not less
    rcases List.mem_cons.mp ha with rfl | ha
    · exact absurd hlt Std.lt_irrefl
    · exact absurd (Std.lt_trans hlt (hsorted.2.1.1 a ha)) Std.lt_irrefl

/-- What a check over the product is to report about a rule: a violation exactly if the rule is wrong in one
of the joint states that the bound admits. Then the check came as far as the first such joint state, names
it and its first wrong action, and blames the right protocol. Otherwise it came as far as the bound and the
product allow, and says whether the bound stopped it. -/
structure ReportsFirst (v : Verifier) (property : Property) (c : Composition) (rule : Rule)
    (Wrong : JointDecision → Prop) (blamed : JointDecision → Option Decision) (verdict : Verdict) :
    Prop where
  about : verdict.property = property
  violated_iff : verdict.holds = false ↔
    ∃ i < min c.productSize v.maxStates, ∃ a ∈ c.alphabet, Wrong (rule (c.jointAt i) a)
  first : verdict.holds = false → ∃ i < min c.productSize v.maxStates, ∃ action,
    c.FirstWrong rule Wrong i action ∧ verdict.statesChecked = i + 1 ∧ verdict.boundReached = false ∧
    (∃ cx, verdict.counterexample = some cx ∧ cx.state.states.entries = c.naming (c.jointAt i) ∧
      cx.state.actions = [] ∧ cx.action = some action) ∧
    ∃ x, blamed (rule (c.jointAt i) action) = some x ∧ verdict.violatingProtocol = some x.protocol
  pass : verdict.holds = true →
    verdict.statesChecked = min c.productSize v.maxStates ∧
    (verdict.boundReached = true ↔ v.maxStates < c.stateSpaceSize) ∧
    verdict.counterexample = none ∧ verdict.violatingProtocol = none

theorem Finds.productFault_eq_none_iff (h : Finds fault Wrong blamed) {joint : JointState} :
    productFault fault c rule joint = none ↔ ∀ a ∈ c.alphabet, ¬ Wrong (rule joint a) := by
  rw [productFault, Option.map_eq_none_iff, firstFault_eq_none_iff]
  exact forall₂_congr fun a _ => (h.not_wrong_iff _).symm

theorem reportsFirst_violated {i : Nat} {action : String} {x : Decision}
    (hi : i < min c.productSize v.maxStates) (hfirst : c.FirstWrong rule Wrong i action)
    (hx : blamed (rule (c.jointAt i) action) = some x) :
    v.ReportsFirst property c rule Wrong blamed
      (.violated property (i + 1) ⟨c.snapshot (c.jointAt i) [], some action⟩ (some x.protocol)) where
  about := rfl
  violated_iff := iff_of_true rfl ⟨i, hi, action, hfirst.mem, hfirst.wrong⟩
  first _ := by
    have hfits : c.Fits (c.jointAt i) := Composition.fits_digits (by omega)
    exact ⟨i, hi, action, hfirst, rfl, rfl, ⟨_, rfl, hfits.entries_snapshot [], rfl, rfl⟩, x, hx, rfl⟩
  pass h := absurd h (by simp [Verdict.violated])

theorem reportsFirst_holding
    (h : ∀ i < min c.productSize v.maxStates, ∀ a ∈ c.alphabet, ¬ Wrong (rule (c.jointAt i) a)) :
    v.ReportsFirst property c rule Wrong blamed
      (.holding property (min c.productSize v.maxStates)
        (decide (min c.productSize v.maxStates < c.stateSpaceSize))) where
  about := rfl
  violated_iff := by
    refine iff_of_false (by simp [Verdict.holding]) ?_
    rintro ⟨i, hi, a, ha, hwrong⟩
    exact h i hi a ha hwrong
  first hfails := absurd hfails (by simp [Verdict.holding])
  pass _ := by
    refine ⟨rfl, ?_, rfl, rfl⟩
    -- a product that is gone through is no larger than its size
    have hle : c.stateSpaceSize ≤ c.productSize := by
      rw [c.stateSpaceSize_eq]
      exact Nat.min_le_left _ _
    show decide (min c.productSize v.maxStates < c.stateSpaceSize) = true ↔ _
    rw [decide_eq_true_eq]
    omega

/-- **A check over the product reports the first wrong decision.** -/
theorem checkProduct_reportsFirst (hfinds : Finds fault Wrong blamed) :
    v.ReportsFirst property c rule Wrong blamed (v.checkProduct property fault c rule) := by
  have hlength : (c.jointStates.take v.maxStates).length = min c.productSize v.maxStates := by
    rw [List.length_take, c.jointStates_eq_digits, List.length_map, List.length_range, Nat.min_comm]
  rw [checkProduct_eq_sweep, Nat.min_comm]
  rcases Verdict.sweep_cases property (productFault fault c rule)
      (decide (min c.productSize v.maxStates < c.stateSpaceSize)) (c.jointStates.take v.maxStates) 0 with
    ⟨i, joint, e, hjoint, he, hbefore, hverdict⟩ | ⟨hnone, hverdict⟩
  · have hplaces := c.getElem?_take_jointStates v.maxStates
    have hi : i < min c.productSize v.maxStates := by
      rw [← hlength]
      exact (List.getElem?_eq_some_iff.mp hjoint).1
    obtain rfl : c.jointAt i = joint := by
      rw [hplaces, if_pos hi] at hjoint
      exact Option.some.inj hjoint
    obtain ⟨⟨action, protocol⟩, hfault, rfl⟩ := Option.map_eq_some_iff.mp he
    obtain ⟨hmem, hprotocol, hleast⟩ := firstFault_eq_some c.alphabet_increasing hfault
    rcases hfinds (rule (c.jointAt i) action) with ⟨hwrong, x, hx, hxfault⟩ | ⟨_, hright⟩
    · obtain rfl : x.protocol = protocol := Option.some.inj (hxfault.symm.trans hprotocol)
      rw [hverdict, Nat.zero_add]
      refine reportsFirst_violated hi ⟨hmem, hwrong, ?_, ?_⟩ hx
      · intro a ha hlt
        exact (hfinds.not_wrong_iff _).mpr (hleast a ha hlt)
      · intro k hk
        refine hfinds.productFault_eq_none_iff.mp (hbefore k hk _ ?_)
        rw [hplaces, if_pos (by omega)]
    · exact absurd (hprotocol.symm.trans hright) (by simp)
  · rw [hverdict, Nat.zero_add, hlength]
    refine reportsFirst_holding ?_
    intro i hi
    exact hfinds.productFault_eq_none_iff.mp
      (hnone _ (Composition.mem_take_jointStates.mpr ⟨i, hi, rfl⟩))

/--
**The check of priority ordering reports exactly the first decision against the ranking**, whatever the rule.

A decision is against the ranking if someone denies the action and still it passes, or if someone permits it
whose rank number is below those of all who deny it. The violation is blamed on the first of lowest rank number
among the deniers if the action passes, and on the first of highest rank number among them otherwise.
-/
theorem checkPriority_reports_first (v : Verifier) (c : Composition) (rule : Rule) (r : Ranking) :
    v.ReportsFirst .priorityOrdering c rule (JointDecision.Misranked r) (JointDecision.culprit r)
      (v.checkPriority c rule r) :=
  checkProduct_reportsFirst (priorityFault_finds r)

-- the gate is open, and the quota denies although it ranks below
example : Verifier.checkPriority ⟨6, by decide⟩ metered metered.composeAt (.ofOrder ["gate"]) =
    .violated .priorityOrdering 3 ⟨metered.snapshot [0, 2] [], some "pass"⟩ (some "quota") := rfl

/--
**The check of monotonic restriction reports exactly the first permission over a denial**, whatever the rule,
and blames the first who denied. A composition under its own rule passes with any bound.
-/
theorem checkMonotonic_reports_first :
    (∀ (v : Verifier) (c : Composition) (rule : Rule),
      v.ReportsFirst .monotonicRestriction c rule JointDecision.Overrides
        (fun d => d.individual.find? Decision.isDenied) (v.checkMonotonic c rule)) ∧
    ∀ protocols : List Protocol, protocols ≠ [] → (protocols.map Protocol.name).Nodup →
      ∃ c, compose protocols = .ok c ∧
        ∀ v : Verifier, (v.checkMonotonic c c.composeAt).holds = true := by
  have hreports : ∀ (v : Verifier) (c : Composition) (rule : Rule),
      v.ReportsFirst .monotonicRestriction c rule JointDecision.Overrides
        (fun d => d.individual.find? Decision.isDenied) (v.checkMonotonic c rule) :=
    fun _ _ _ => checkProduct_reportsFirst monotonicFault_finds
  refine ⟨hreports, ?_⟩
  intro protocols hne hdistinct
  obtain ⟨c, hc, _⟩ := exists_compose_ok hne hdistinct
  refine ⟨c, hc, ?_⟩
  intro v
  rw [← Bool.not_eq_false, (hreports v c c.composeAt).violated_iff]
  rintro ⟨i, _, action, _, hpass, x, hx, hdenied⟩
  -- under conjunction an action passes only if nobody denies it
  have hpermitted := Composition.permitted_iff_individual.mp hpass x hx
  exact absurd (hpermitted.symm.trans hdenied) (by simp)

/-- The rule of a composition, with every denial overridden. -/
def overriding (c : Composition) : Rule := fun joint action =>
  { c.composeAt joint action with globallyPermitted := true }

theorem checkMonotonic_reports_first_metered :
    metered.protocols ≠ [] ∧ (metered.protocols.map Protocol.name).Nodup ∧
    (∃ c, compose metered.protocols = .ok c ∧
      ∀ v : Verifier, (v.checkMonotonic c c.composeAt).holds = true) ∧
    (Verifier.checkMonotonic ⟨4, by decide⟩ metered (overriding metered)).holds = false ∧
    ∃ i < 4, ∃ action, metered.FirstWrong (overriding metered) JointDecision.Overrides i action ∧
      (Verifier.checkMonotonic ⟨4, by decide⟩ metered (overriding metered)).statesChecked = i + 1 := by
  have hne : metered.protocols ≠ [] := metered.nonempty
  obtain ⟨hreports, hpasses⟩ := checkMonotonic_reports_first
  obtain ⟨i, hi, action, hfirst, hchecked, _⟩ :=
    (hreports ⟨4, by decide⟩ metered (overriding metered)).first rfl
  exact ⟨hne, metered.distinct, hpasses _ hne metered.distinct, rfl, i, hi, action, hfirst, hchecked⟩

end Verifier

/-! ## The stricter check stops first -/

/-- A permission over a denial is against every ranking. -/
theorem JointDecision.Overrides.misranked {d : JointDecision} (h : d.Overrides) (r : Ranking) :
    d.Misranked r := by
  obtain ⟨hpass, x, hx, hdenied⟩ := h
  have hdenier : x ∈ d.denying := mem_denying.mpr ⟨hx, hdenied⟩
  exact ⟨List.ne_nil_of_mem hdenier, Or.inl hpass⟩

namespace Verifier

section Stricter

variable {v : Verifier} {c : Composition} {rule : Rule} {property property' : Property}
  {Wrong Wrong' : JointDecision → Prop} {blamed blamed' : JointDecision → Option Decision}
  {verdict strict : Verdict}

/-- **Who takes more for wrong stops no later.** -/
theorem ReportsFirst.stops_no_later (h : v.ReportsFirst property c rule Wrong blamed verdict)
    (h' : v.ReportsFirst property' c rule Wrong' blamed' strict) (hstrict : ∀ d, Wrong d → Wrong' d)
    (hfails : verdict.holds = false) :
    strict.holds = false ∧ strict.statesChecked ≤ verdict.statesChecked := by
  obtain ⟨i, hi, action, hfirst, hchecked, _⟩ := h.first hfails
  have hwrong : Wrong' (rule (c.jointAt i) action) := hstrict _ hfirst.wrong
  have hfails' : strict.holds = false := h'.violated_iff.mpr ⟨i, hi, action, hfirst.mem, hwrong⟩
  obtain ⟨k, _, _, hfirst', hchecked', _⟩ := h'.first hfails'
  refine ⟨hfails', ?_⟩
  -- nothing is wrong in the strict sense before place `k`, so `i` is not before it
  by_cases hik : i < k
  · exact absurd hwrong (hfirst'.earliest i hik action hfirst.mem)
  · omega

/-- **Who takes less for wrong passes as well**, and comes as far. -/
theorem ReportsFirst.passes_as_well (h : v.ReportsFirst property c rule Wrong blamed verdict)
    (h' : v.ReportsFirst property' c rule Wrong' blamed' strict) (hstrict : ∀ d, Wrong d → Wrong' d)
    (hholds : strict.holds = true) :
    verdict.holds = true ∧ verdict.statesChecked = strict.statesChecked ∧
      verdict.boundReached = strict.boundReached := by
  have hpasses : verdict.holds = true := by
    by_contra hfails
    have hfails' := (h.stops_no_later h' hstrict (Bool.eq_false_of_not_eq_true hfails)).1
    exact absurd (hholds.symm.trans hfails') (by simp)
  obtain ⟨hchecked, hbound, _⟩ := h.pass hpasses
  obtain ⟨hchecked', hbound', _⟩ := h'.pass hholds
  refine ⟨hpasses, hchecked.trans hchecked'.symm, ?_⟩
  rw [Bool.eq_iff_iff, hbound, hbound']

end Stricter

/--
**Priority ordering includes monotonic restriction**, whatever the rule, the ranking and the bound.

Where the check of monotonic restriction finds a violation, the check of priority ordering finds one no
later in the walk; and where the latter passes, the former passes having looked at as many joint states, and
is cut short by the bound if and only if the latter is.
-/
theorem priority_includes_monotonic (v : Verifier) (c : Composition) (rule : Rule) (r : Ranking) :
    ((v.checkMonotonic c rule).holds = false →
      (v.checkPriority c rule r).holds = false ∧
      (v.checkPriority c rule r).statesChecked ≤ (v.checkMonotonic c rule).statesChecked) ∧
    ((v.checkPriority c rule r).holds = true →
      (v.checkMonotonic c rule).holds = true ∧
      (v.checkMonotonic c rule).statesChecked = (v.checkPriority c rule r).statesChecked ∧
      (v.checkMonotonic c rule).boundReached = (v.checkPriority c rule r).boundReached) := by
  have hmonotonic : v.ReportsFirst .monotonicRestriction c rule JointDecision.Overrides
      (fun d => d.individual.find? Decision.isDenied) (v.checkMonotonic c rule) :=
    checkProduct_reportsFirst monotonicFault_finds
  have hpriority : v.ReportsFirst .priorityOrdering c rule (JointDecision.Misranked r)
      (JointDecision.culprit r) (v.checkPriority c rule r) :=
    checkProduct_reportsFirst (priorityFault_finds r)
  have hstrict : ∀ d : JointDecision, d.Overrides → d.Misranked r := fun _ h => h.misranked r
  exact ⟨hmonotonic.stops_no_later hpriority hstrict, hmonotonic.passes_as_well hpriority hstrict⟩

/-- The rule of a composition, with denials overridden in one joint state. -/
def overridingAt (c : Composition) (place : JointState) : Rule := fun joint action =>
  if joint = place then overriding c joint action else c.composeAt joint action

-- Only where the gate is shut and the quota full does the action pass over a denial. A ranking that puts the
-- gate first is broken before that, where the gate is open and the quota empty.
theorem priority_includes_monotonic_metered :
    ∃ v : Verifier, v.maxStates = 5 ∧
      (v.checkMonotonic metered (overridingAt metered [1, 0])).holds = false ∧
      (v.checkMonotonic metered (overridingAt metered [1, 0])).statesChecked = 4 ∧
      ((v.checkPriority metered (overridingAt metered [1, 0]) (.ofOrder ["gate"])).holds = false ∧
        (v.checkPriority metered (overridingAt metered [1, 0]) (.ofOrder ["gate"])).statesChecked ≤ 4) ∧
      (v.checkPriority metered metered.composeAt (.ofOrder [])).holds = true ∧
      (v.checkMonotonic metered metered.composeAt).holds = true ∧
      (v.checkMonotonic metered metered.composeAt).statesChecked =
        (v.checkPriority metered metered.composeAt (.ofOrder [])).statesChecked ∧
      (v.checkMonotonic metered metered.composeAt).boundReached =
        (v.checkPriority metered metered.composeAt (.ofOrder [])).boundReached := by
  refine ⟨⟨5, by decide⟩, rfl, rfl, rfl, ?_, rfl, ?_⟩
  · exact (priority_includes_monotonic _ metered (overridingAt metered [1, 0]) (.ofOrder ["gate"])).1 rfl
  · exact (priority_includes_monotonic _ metered metered.composeAt (.ofOrder [])).2 rfl

end Verifier

end Lockstep
