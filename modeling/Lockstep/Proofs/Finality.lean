import Lockstep.Proofs.LeastWords
import Lockstep.Proofs.Sweep

/-!
# Verdicts that a larger bound cannot change

A check goes through a list of joint states up to the first fault, and a larger bound only makes the
list longer. So a violation stays what it is, and one that only the larger bound shows lies beyond the
smaller one. A pass stays if it was conclusive, since then there was nothing more to go through
(`Verdict.sweep_settles`).

What is left for the checks is to be honest about the end of the list. The records of a search are only
added to under a larger bound, and the search knows whether it left something out. With the product there
is a catch: its size is told apart only up to `maxSize`, and a check that has seen that many joint states
calls itself conclusive. No bound is larger than that.
-/

namespace Lockstep

namespace Verdict

/-- What a verdict within a bound says about the verdict within a larger one. -/
structure Settles (bound : Nat) (small large : Verdict) : Prop where
  /-- A conclusive verdict is final. -/
  final : small.isConclusive = true → large = small
  /-- A violation that was not seen lies beyond the bound. -/
  beyond : small.isConclusive = false → large.holds = false → bound < large.statesChecked

variable {α : Type} {property : Property} {fault : α → Option (Counterexample × Option String)}
  {more more' : Bool} {l : List α}

/-- **A longer list changes nothing that was settled**, if a list that is said to be the whole one is. -/
theorem sweep_settles {bound : Nat} {longer : List α} (hpre : l <+: longer)
    (hwhole : more = false → l = longer ∧ more' = false) (hcut : more = true → l.length = bound) :
    Settles bound (sweep property fault more 0 l) (sweep property fault more' 0 longer) := by
  obtain ⟨rest, rfl⟩ := hpre
  cases hholds : (sweep property fault more 0 l).holds with
  | false =>
    refine ⟨fun _ => sweep_append_of_fails hholds, ?_⟩
    intro hinconclusive
    exact absurd hinconclusive (by simp [isConclusive, hholds])
  | true =>
    obtain ⟨hpass, hgoOn⟩ := sweep_append_of_holds hholds more' rest
    cases hmore : more with
    | false =>
      obtain ⟨hall, hmore'⟩ := hwhole hmore
      subst hmore hmore'
      rw [← hall]
      refine ⟨fun _ => rfl, ?_⟩
      intro hinconclusive
      exact absurd hinconclusive (by simp [isConclusive, hpass, holding])
    | true =>
      subst hmore
      refine ⟨fun hconclusive => absurd hconclusive (by simp [isConclusive, hpass, holding]), ?_⟩
      intro _ hfails
      rw [hgoOn] at hfails ⊢
      have hlt := lt_statesChecked_of_fails hfails
      have hlen := hcut rfl
      omega

end Verdict

namespace Verifier

variable {v w : Verifier} {property : Property} {fault : JointDecision → Option String}
  {c : Composition} {rule : Rule}

theorem checkProduct_settles (hvw : v.maxStates ≤ w.maxStates) (hw : w.maxStates ≤ maxSize) :
    Verdict.Settles v.maxStates (v.checkProduct property fault c rule)
      (w.checkProduct property fault c rule) := by
  have hlen : c.jointStates.length = c.productSize := by
    rw [c.jointStates_eq_tuples, Odometer.length_tuples]
    rfl
  rw [checkProduct_eq_sweep, checkProduct_eq_sweep, c.stateSpaceSize_eq]
  refine Verdict.sweep_settles (List.take_prefix_take_left hvw) ?_ ?_
  · intro hwhole
    have hwhole := of_decide_eq_false hwhole
    -- all of the product was seen, or as much of it as can be counted
    have hcases : c.productSize ≤ v.maxStates ∨ v.maxStates = w.maxStates := by omega
    rcases hcases with hall | heq
    · rw [List.take_of_length_le (by omega), List.take_of_length_le (by omega)]
      exact ⟨rfl, decide_eq_false (by omega)⟩
    · rw [heq]
      exact ⟨rfl, decide_eq_false (by omega)⟩
  · intro hcut
    have hcut := of_decide_eq_true hcut
    rw [List.length_take]
    omega

theorem checkDeadlock_settles (hvw : v.maxStates ≤ w.maxStates) :
    Verdict.Settles v.maxStates (v.checkDeadlock c) (w.checkDeadlock c) := by
  have hlenv := c.length_records v.maxStates
  have hlenw := c.length_records w.maxStates
  rw [checkDeadlock_eq_sweep, checkDeadlock_eq_sweep, c.explore_truncated, c.explore_truncated]
  refine Verdict.sweep_settles (c.records_prefix hvw) ?_ ?_
  · intro hwhole
    have hwhole := of_decide_eq_false hwhole
    exact ⟨(c.records_prefix hvw).eq_of_length (by omega), decide_eq_false (by omega)⟩
  · intro hcut
    have hcut := of_decide_eq_true hcut
    omega

/--
**A conclusive verdict is final.**

Whatever the rule and the ranking, raising the bound of a check changes nothing in a verdict that is
conclusive, and after one that is not it shows violations only beyond the smaller bound.
-/
theorem conclusive_verdict_final (c : Composition) (rule : Rule) (r : Ranking) (v w : Verifier)
    (hvw : v.maxStates ≤ w.maxStates) (hw : w.maxStates ≤ maxSize) :
    Verdict.Settles v.maxStates (v.checkMonotonic c rule) (w.checkMonotonic c rule) ∧
      Verdict.Settles v.maxStates (v.checkPriority c rule r) (w.checkPriority c rule r) ∧
      Verdict.Settles v.maxStates (v.checkDeadlock c) (w.checkDeadlock c) :=
  ⟨checkProduct_settles hvw hw, checkProduct_settles hvw hw, checkDeadlock_settles hvw⟩

theorem conclusive_verdict_final_standard :
    ∃ c : Composition, c.protocols.map Protocol.definition = Catalog.standard ∧
      ∃ rule : Rule, (∀ joint action, (rule joint action).globallyPermitted = true) ∧
        4 ≤ 27 ∧ 27 ≤ maxSize ∧
        Verdict.Settles 4 (checkMonotonic ⟨4, by decide⟩ c rule)
          (checkMonotonic ⟨27, by decide⟩ c rule) ∧
        Verdict.Settles 4 (checkPriority ⟨4, by decide⟩ c rule (.ofOrder ["ASP"]))
          (checkPriority ⟨27, by decide⟩ c rule (.ofOrder ["ASP"])) ∧
        Verdict.Settles 4 (checkDeadlock ⟨4, by decide⟩ c) (checkDeadlock ⟨27, by decide⟩ c) := by
  obtain ⟨c, hstd⟩ := Catalog.exists_standard
  refine ⟨c, hstd, fun joint action => { c.composeAt joint action with globallyPermitted := true },
    fun _ _ => rfl, by decide, by decide, ?_⟩
  exact conclusive_verdict_final c _ (.ofOrder ["ASP"]) ⟨4, by decide⟩ ⟨27, by decide⟩ (by decide) (by decide)

end Verifier

end Lockstep
