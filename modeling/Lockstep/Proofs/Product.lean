import Lockstep.Proofs.Reachability
import Lockstep.Verifier
import Mathlib.Algebra.BigOperators.Group.List.Basic

/-!
# Checks over the product

The two checks that look at every joint state, reachable or not, differ only in what they call a fault.
Both walk the odometer and stop at the first joint state with a faulty action. A pass says that no joint
state within the bound has one; and a bound that is at least the product of the state counts is no bound
at all, so a pass says then that no joint state that fits has one.
-/

namespace Lockstep

theorem Composition.productSize_eq_prod (c : Composition) :
    c.productSize = (c.protocols.map Protocol.stateCount).prod := by
  rw [productSize, radices, List.prod_eq_foldr]

namespace Verifier

variable {v : Verifier} {property : Property} {fault : JointDecision → Option String}
  {c : Composition} {rule : Rule}

theorem firstFault_eq_none_iff {alphabet : List String} {joint : JointState} :
    firstFault fault alphabet rule joint = none ↔
      ∀ action ∈ alphabet, fault (rule joint action) = none := by
  rw [firstFault_eq, List.findSome?_eq_none_iff]
  simp

/-- Searching with the odometer is scanning the joint states that the bound admits. -/
theorem search_eq_scan {α : Type} (c : Composition) (f : JointState → Option α) (n : Nat) :
    c.odometer.search f n 0 = Odometer.scan f 0 (c.jointStates.take n) := by
  rw [c.jointStates_eq_tuples]
  exact Odometer.search_of_walks (Odometer.walks_start c.radices)

/-- A pass means that there is no fault in the joint states that the bound admits. -/
theorem checkProduct_holds_iff :
    (v.checkProduct property fault c rule).holds = true ↔
      ∀ joint ∈ c.jointStates.take v.maxStates, ∀ action ∈ c.alphabet,
        fault (rule joint action) = none := by
  have hnone := @Odometer.scan_eq_none_iff _ (firstFault fault c.alphabet rule)
    (c.jointStates.take v.maxStates) 0
  simp only [firstFault_eq_none_iff] at hnone
  rw [← hnone]
  rw [checkProduct_eq, search_eq_scan]
  split
  · rename_i heq
    simp [heq, Verdict.violated]
  · rename_i heq
    simp [heq, Verdict.holding]

/-- **Within a bound no smaller than the product, a pass is about all joint states that fit.** -/
theorem checkProduct_holds_iff_of_product_le
    (hbound : (c.protocols.map Protocol.stateCount).prod ≤ v.maxStates) :
    (v.checkProduct property fault c rule).holds = true ↔
      ∀ joint, c.Fits joint → ∀ action ∈ c.alphabet, fault (rule joint action) = none := by
  have hall : c.jointStates.take v.maxStates = c.jointStates := by
    refine List.take_of_length_le ?_
    rw [c.jointStates_eq_tuples, Odometer.length_tuples]
    exact le_trans (le_of_eq c.productSize_eq_prod) hbound
  rw [checkProduct_holds_iff, hall, c.jointStates_eq_tuples]
  simp only [Composition.fits_iff_mem_tuples]

end Verifier

end Lockstep
