import Lockstep.Dominance
import Lockstep.Proofs.FirstFaults
import Lockstep.Proofs.Reordering

/-!
# Products that are too large to be counted

Sizes are told apart up to `maxSize`; the product of the state counts has no such limit. The size is
multiplied up protocol by protocol and cut off after each factor, and still comes to the exact product cut
off once (`Composition.stateSpaceSize_eq`), so the order of the protocols does not matter to it.

Whoever compares the size with a number below `maxSize` compares the exact product with it. Two operations
do so to refuse a product that is larger than their ceiling, and two checks to say whether their bound cut
them short. With `maxSize` itself the comparison always comes out the same: no size is larger. There, and
only there, a product can be too large without anyone noticing (`Composition.saturation_only_at_top`).
-/

namespace Lockstep

namespace Composition

variable {c : Composition} {n ceiling : Nat}

/-! ## Sizes and products -/

theorem stateSpaceSize_le (c : Composition) : c.stateSpaceSize ≤ maxSize := by
  rw [c.stateSpaceSize_eq]
  exact Nat.min_le_right _ _

/-- **Below the largest size, the size answers for the product.** -/
theorem lt_stateSpaceSize_iff (hn : n < maxSize) :
    n < c.stateSpaceSize ↔ n < (c.protocols.map Protocol.stateCount).prod := by
  rw [c.stateSpaceSize_eq, ← c.productSize_eq_prod]
  omega

theorem exists_compose_of_perm {ps : List Protocol} (hperm : ps.Perm c.protocols) :
    ∃ d, compose ps = .ok d ∧ d.stateSpaceSize = c.stateSpaceSize := by
  have hne : ps ≠ [] := fun hnil => c.nonempty (hnil ▸ hperm).nil_eq.symm
  have hdistinct : (ps.map Protocol.name).Nodup := (hperm.map Protocol.name).nodup_iff.mpr c.distinct
  obtain ⟨d, hd, rfl⟩ := exists_compose_ok hne hdistinct
  exact ⟨d, hd, stateSpaceSize_of_perm hperm⟩

/-! ## Refusals -/

/-- The operation was refused because the product is too large. -/
def TooLarge {α : Type} (x : Except Error α) : Prop :=
  ∃ size limit, x = .error (.stateSpaceTooLarge size limit)

theorem not_tooLarge_ok {α : Type} (a : α) : ¬ TooLarge (.ok a) := by
  rintro ⟨size, limit, heq⟩
  exact absurd heq (by simp)

/-- Where the size is compared first, and what follows never refuses for it, the comparison decides. -/
theorem tooLarge_ite_iff {α : Type} {x : Except Error α} (hx : ¬ TooLarge x) :
    TooLarge (if ceiling < n then .error (.stateSpaceTooLarge n ceiling) else x) ↔ ceiling < n := by
  by_cases h : ceiling < n
  · rw [if_pos h]
    exact iff_of_true ⟨n, ceiling, rfl⟩ h
  · rw [if_neg h]
    exact iff_of_false hx h

/-- All joint states are listed unless the size is above the ceiling, and that is the only refusal. -/
theorem tooLarge_enumerateAll_iff : TooLarge (c.enumerateAll ceiling) ↔ ceiling < c.stateSpaceSize :=
  tooLarge_ite_iff (not_tooLarge_ok _)

theorem not_tooLarge_ofPriority (priority : List String) : ¬ TooLarge (Ranking.ofPriority c priority) := by
  rintro ⟨size, limit, heq⟩
  unfold Ranking.ofPriority at heq
  dsimp only at heq
  split at heq
  · exact not_tooLarge_ok _ ⟨size, limit, heq⟩
  · -- strangers in the list are another matter
    exact absurd heq (by simp)

/-- The tally is refused for its size before the priority list is looked at. A list that names strangers is
refused as well, but not as too large. -/
theorem tooLarge_dominance_iff (priority : List String) :
    TooLarge (c.dominance priority ceiling) ↔ ceiling < c.stateSpaceSize := by
  refine tooLarge_ite_iff ?_
  cases hr : Ranking.ofPriority c priority with
  | error e =>
    rintro ⟨size, limit, heq⟩
    have he : e = .stateSpaceTooLarge size limit := Except.error.inj heq
    exact not_tooLarge_ofPriority priority ⟨size, limit, by rw [hr, he]⟩
  | ok r => exact not_tooLarge_ok _

end Composition

/-! ## Bounds -/

namespace Verifier

variable {v : Verifier} {property : Property} {c : Composition} {rule : Rule}
  {Wrong : JointDecision → Prop} {blamed : JointDecision → Option Decision} {verdict : Verdict}

/-- A pass says that the bound cut it short exactly if it did, for a bound below the largest size. -/
theorem ReportsFirst.boundReached_iff (h : v.ReportsFirst property c rule Wrong blamed verdict)
    (hbound : v.maxStates < maxSize) (hholds : verdict.holds = true) :
    verdict.boundReached = true ↔ v.maxStates < (c.protocols.map Protocol.stateCount).prod := by
  obtain ⟨_, hreached, _⟩ := h.pass hholds
  rw [hreached, Composition.lt_stateSpaceSize_iff hbound]

/-- With the largest bound no check says that it was cut short. -/
theorem ReportsFirst.boundReached_eq_false (h : v.ReportsFirst property c rule Wrong blamed verdict)
    (hbound : v.maxStates = maxSize) : verdict.boundReached = false := by
  cases hholds : verdict.holds with
  | false =>
    obtain ⟨i, _, action, _, _, hreached, _⟩ := h.first hholds
    exact hreached
  | true =>
    obtain ⟨_, hreached, _⟩ := h.pass hholds
    have hle := c.stateSpaceSize_le
    rw [← Bool.not_eq_true, hreached]
    omega

end Verifier

namespace Composition

/--
**A size that is cut off hides nothing, except at the very top.**

The size of the product is the exact product of the state counts or `maxSize`, whichever is less, in any
order of the protocols. So with a ceiling below `maxSize` the listing of all joint states and the tally of
dominant protocols are refused as too large exactly if the exact product is above the ceiling, and with
`maxSize` for a ceiling never. Likewise a check over the product that passes, under any rule and ranking,
says that its bound was reached exactly if the exact product is above the bound, and with `maxSize` for a
bound no check ever says so.
-/
theorem saturation_only_at_top (c : Composition) :
    c.stateSpaceSize = min maxSize (c.protocols.map Protocol.stateCount).prod ∧
    (∀ ps : List Protocol, ps.Perm c.protocols →
      ∃ d, compose ps = .ok d ∧ d.stateSpaceSize = c.stateSpaceSize) ∧
    (∀ ceiling < maxSize,
      (TooLarge (c.enumerateAll ceiling) ↔ ceiling < (c.protocols.map Protocol.stateCount).prod) ∧
      ∀ priority, TooLarge (c.dominance priority ceiling) ↔
        ceiling < (c.protocols.map Protocol.stateCount).prod) ∧
    (¬ TooLarge (c.enumerateAll maxSize) ∧ ∀ priority, ¬ TooLarge (c.dominance priority maxSize)) ∧
    ∀ (v : Verifier) (rule : Rule) (r : Ranking),
      ∀ verdict ∈ [v.checkMonotonic c rule, v.checkPriority c rule r],
        (v.maxStates < maxSize → verdict.holds = true →
          (verdict.boundReached = true ↔ v.maxStates < (c.protocols.map Protocol.stateCount).prod)) ∧
        (v.maxStates = maxSize → verdict.boundReached = false) := by
  have htop : ¬ maxSize < c.stateSpaceSize := Nat.not_lt.mpr c.stateSpaceSize_le
  refine ⟨?_, fun ps => exists_compose_of_perm, ?_, ?_, ?_⟩
  · rw [c.stateSpaceSize_eq, c.productSize_eq_prod, Nat.min_comm]
  · intro ceiling hceiling
    refine ⟨?_, fun priority => ?_⟩
    · rw [tooLarge_enumerateAll_iff, lt_stateSpaceSize_iff hceiling]
    · rw [tooLarge_dominance_iff, lt_stateSpaceSize_iff hceiling]
  · refine ⟨?_, fun priority => ?_⟩
    · rw [tooLarge_enumerateAll_iff]
      exact htop
    · rw [tooLarge_dominance_iff]
      exact htop
  · intro v rule r verdict hverdict
    have hmonotonic : v.ReportsFirst .monotonicRestriction c rule JointDecision.Overrides
        (fun d => d.individual.find? Decision.isDenied) (v.checkMonotonic c rule) :=
      Verifier.checkProduct_reportsFirst Verifier.monotonicFault_finds
    have hpriority : v.ReportsFirst .priorityOrdering c rule (JointDecision.Misranked r)
        (JointDecision.culprit r) (v.checkPriority c rule r) :=
      Verifier.checkProduct_reportsFirst (Verifier.priorityFault_finds r)
    rcases List.mem_cons.mp hverdict with rfl | hverdict
    · exact ⟨hmonotonic.boundReached_iff, hmonotonic.boundReached_eq_false⟩
    · rw [List.mem_singleton.mp hverdict]
      exact ⟨hpriority.boundReached_iff, hpriority.boundReached_eq_false⟩

end Composition

example : maxSize = 18446744073709551615 := rfl

/-! ## One joint state too many -/

/-- The positions of a dial. -/
def positions : List String := (List.range 16).map toString

/-- A numbered dial. -/
def dial (i : Nat) : Definition where
  name := s!"dial {i}"
  initialState := "0"
  states := positions.map .accept
  transitions := [.permit "0" "1" "turn"]

theorem stateNames_dial (i : Nat) : (dial i).stateNames = positions := by
  unfold Definition.stateNames dial
  rw [List.map_map]
  exact List.map_id _

theorem wellFormed_dial (i : Nat) : (dial i).WellFormed where
  distinct := by
    rw [stateNames_dial]
    decide +kernel
  initial := by
    rw [stateNames_dial]
    show "0" ∈ positions
    decide
  endpoints := by
    rw [stateNames_dial]
    show ∀ t ∈ [Transition.permit "0" "1" "turn"], t.source ∈ positions ∧ t.target ∈ positions
    decide

/-- A rule that asks nobody. -/
def unopposed : Rule := fun _ action => .conjunction action []

-- Sixteen dials have one joint state more than can be told apart.
theorem Composition.saturation_only_at_top_dials :
    ∃ c : Composition, c.protocols.map Protocol.definition = (List.range 16).map dial ∧
      (c.protocols.map Protocol.stateCount).prod = maxSize + 1 ∧ c.stateSpaceSize = maxSize ∧
      (∃ d, compose c.protocols.reverse = .ok d ∧ d.stateSpaceSize = maxSize) ∧
      TooLarge (c.enumerateAll (maxSize - 1)) ∧ TooLarge (c.dominance [] (maxSize - 1)) ∧
      ¬ TooLarge (c.enumerateAll maxSize) ∧ ¬ TooLarge (c.dominance [] maxSize) ∧
      ∃ v w : Verifier, v.maxStates = maxSize - 1 ∧ w.maxStates = maxSize ∧
        (v.checkMonotonic c unopposed).holds = true ∧
        (v.checkMonotonic c unopposed).boundReached = true ∧
        (w.checkMonotonic c unopposed).boundReached = false := by
  obtain ⟨c, hc⟩ : ∃ c : Composition, c.protocols.map Protocol.definition = (List.range 16).map dial := by
    refine exists_composition ?_ (by decide) (by decide +kernel)
    intro d hd
    obtain ⟨i, _, rfl⟩ := List.mem_map.mp hd
    exact wellFormed_dial i
  have hcounts : c.protocols.map Protocol.stateCount =
      ((List.range 16).map dial).map fun d => d.states.length := by
    rw [← hc, List.map_map]
    rfl
  have hprod : (c.protocols.map Protocol.stateCount).prod = maxSize + 1 := by
    rw [hcounts]
    decide +kernel
  have hbelow : maxSize - 1 < maxSize := by decide
  have habove : maxSize - 1 < (c.protocols.map Protocol.stateCount).prod := by omega
  obtain ⟨hsize, horder, hceiling, ⟨hlist, htally⟩, hchecks⟩ := c.saturation_only_at_top
  have hfull : c.stateSpaceSize = maxSize := by
    rw [hsize, hprod]
    decide
  let v : Verifier := ⟨maxSize - 1, by decide⟩
  let w : Verifier := ⟨maxSize, by decide⟩
  have hholds : (v.checkMonotonic c unopposed).holds = true :=
    Verifier.checkProduct_holds_iff.mpr fun _ _ _ _ => rfl
  refine ⟨c, hc, hprod, hfull, ?_, (hceiling _ hbelow).1.mpr habove, ((hceiling _ hbelow).2 []).mpr habove,
    hlist, htally [], v, w, rfl, rfl, hholds, ?_, ?_⟩
  · rw [← hfull]
    exact horder _ (List.reverse_perm _)
  · exact ((hchecks v unopposed (.ofOrder []) _ (List.mem_cons_self ..)).1 hbelow hholds).mpr habove
  · exact (hchecks w unopposed (.ofOrder []) _ (List.mem_cons_self ..)).2 rfl

end Lockstep
