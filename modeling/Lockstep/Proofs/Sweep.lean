import Lockstep.Proofs.Deadlock
import Lockstep.Proofs.Product

/-!
# Going through a list up to the first fault

All three checks have one shape. Each has a list of joint states, no longer than its bound, and goes
through it until a fault shows; what is left over of the list does not matter, and where there is no fault
the verdict is a pass over the whole list. `Verdict.sweep` is that shape, and what is said here about it
holds of the checks: `Verifier.checkProduct_eq_sweep` and `Verifier.checkDeadlock_eq_sweep` name the list
and the fault of each. A comparison of two checks is then a comparison of two lists.
-/

namespace Lockstep

namespace Verdict

/-- The verdict of going through a list up to the first fault. Without one, the verdict is a pass over
all of it, with the given word on whether there would have been more. -/
def sweep {α : Type} (property : Property) (fault : α → Option (Counterexample × Option String))
    (more : Bool) : Nat → List α → Verdict
  | checked, [] => .holding property checked more
  | checked, x :: l =>
    match fault x with
    | some (cx, violator) => .violated property (checked + 1) cx violator
    | none => sweep property fault more (checked + 1) l

variable {α : Type} {property : Property} {fault : α → Option (Counterexample × Option String)}
  {more more' : Bool} {l rest : List α} {checked : Nat}

/-- A fault is the last thing that is looked at. -/
theorem sweep_append_of_fails (h : (sweep property fault more checked l).holds = false) :
    sweep property fault more' checked (l ++ rest) = sweep property fault more checked l := by
  induction l generalizing checked with
  | nil => exact absurd h (by simp [sweep, holding])
  | cons x l ih =>
    rw [List.cons_append, sweep, sweep]
    cases hx : fault x with
    | some e => rfl
    | none =>
      rw [sweep, hx] at h
      exact ih h

/-- A pass goes through the whole list, and on to what follows it. -/
theorem sweep_append_of_holds (h : (sweep property fault more checked l).holds = true)
    (more' : Bool) (rest : List α) :
    sweep property fault more checked l = .holding property (checked + l.length) more ∧
      sweep property fault more' checked (l ++ rest) =
        sweep property fault more' (checked + l.length) rest := by
  induction l generalizing checked with
  | nil => exact ⟨rfl, rfl⟩
  | cons x l ih =>
    rw [List.cons_append, sweep, sweep, List.length_cons, Nat.add_comm l.length,
      ← Nat.add_assoc]
    cases hx : fault x with
    | some e =>
      rw [sweep, hx] at h
      exact absurd h (by simp [violated])
    | none =>
      rw [sweep, hx] at h
      exact ih h

theorem lt_statesChecked_of_fails (h : (sweep property fault more checked l).holds = false) :
    checked < (sweep property fault more checked l).statesChecked := by
  induction l generalizing checked with
  | nil => exact absurd h (by simp [sweep, holding])
  | cons x l ih =>
    rw [sweep] at h ⊢
    cases hx : fault x with
    | some e => exact Nat.lt_succ_self checked
    | none =>
      rw [hx] at h
      exact Nat.lt_of_succ_lt (ih h)

/-- The verdict is about the first element with a fault, or about all of them. -/
theorem sweep_cases (property : Property) (fault : α → Option (Counterexample × Option String))
    (more : Bool) (l : List α) : ∀ checked : Nat,
    (∃ i x e, l[i]? = some x ∧ fault x = some e ∧
        (∀ k < i, ∀ y, l[k]? = some y → fault y = none) ∧
        sweep property fault more checked l = .violated property (checked + i + 1) e.1 e.2) ∨
      (∀ x ∈ l, fault x = none) ∧
        sweep property fault more checked l = .holding property (checked + l.length) more := by
  induction l with
  | nil => intro checked; exact Or.inr ⟨by simp, rfl⟩
  | cons x l ih =>
    intro checked
    rw [sweep]
    cases hx : fault x with
    | some e => exact Or.inl ⟨0, x, e, rfl, hx, by simp, rfl⟩
    | none =>
      rcases ih (checked + 1) with ⟨i, y, e, hy, he, hbefore, hverdict⟩ | ⟨hnone, hverdict⟩
      · refine Or.inl ⟨i + 1, y, e, hy, he, ?_, ?_⟩
        · intro k hk z hz
          cases k with
          | zero => exact Option.some.inj hz ▸ hx
          | succ k => exact hbefore k (Nat.lt_of_succ_lt_succ hk) z hz
        · have hplace : checked + (i + 1) + 1 = checked + 1 + i + 1 := by omega
          rw [hplace]
          exact hverdict
      · refine Or.inr ⟨?_, ?_⟩
        · intro z hz
          rcases List.mem_cons.mp hz with rfl | hz
          · exact hx
          · exact hnone z hz
        · rw [List.length_cons, Nat.add_comm l.length, ← Nat.add_assoc]
          exact hverdict

/-- **Lists with related faults give related verdicts**: the first fault of both at one place, or a pass
over equally many. -/
theorem sweep_related {β : Type} {fault' : β → Option (Counterexample × Option String)}
    {T : Counterexample × Option String → Counterexample × Option String → Prop} {l' : List β}
    (h : List.Forall₂ (fun x y => Option.Rel T (fault x) (fault' y)) l l') :
    (∃ k e e', T e e' ∧ sweep property fault more checked l = .violated property k e.1 e.2 ∧
        sweep property fault' more checked l' = .violated property k e'.1 e'.2) ∨
      ∃ k, sweep property fault more checked l = .holding property k more ∧
        sweep property fault' more checked l' = .holding property k more := by
  induction h generalizing checked with
  | nil => exact Or.inr ⟨checked, rfl, rfl⟩
  | @cons x y l l' hxy _ ih =>
    rw [sweep, sweep]
    generalize fault x = e at hxy ⊢
    generalize fault' y = e' at hxy ⊢
    cases hxy with
    | none => exact ih
    | some hT => exact Or.inl ⟨_, _, _, hT, rfl, rfl⟩

/-- Only the faults of what is in the list count. -/
theorem sweep_congr {fault' : α → Option (Counterexample × Option String)}
    (h : ∀ x ∈ l, fault x = fault' x) :
    sweep property fault more checked l = sweep property fault' more checked l := by
  have hall : List.Forall₂ (fun x y => Option.Rel Eq (fault x) (fault' y)) l l := by
    rw [List.forall₂_same]
    intro x hx
    rw [h x hx]
    cases fault' x with
    | none => exact .none
    | some e => exact .some rfl
  rcases sweep_related hall with ⟨k, e, _, rfl, hl, hl'⟩ | ⟨k, hl, hl'⟩
  · rw [hl, hl']
  · rw [hl, hl']

end Verdict

/-! ## The size of the product -/

theorem min_mul_maxSize (size count : Nat) :
    min (min size maxSize * count) maxSize = min (size * count) maxSize := by
  rcases Nat.eq_zero_or_pos count with rfl | hcount
  · simp
  · rcases Nat.le_total size maxSize with hle | hle
    · rw [Nat.min_eq_left hle]
    · have h₁ : maxSize ≤ maxSize * count := Nat.le_mul_of_pos_right _ hcount
      have h₂ : maxSize ≤ size * count := Nat.le_trans h₁ (Nat.mul_le_mul_right _ hle)
      rw [Nat.min_eq_right hle, Nat.min_eq_right h₁, Nat.min_eq_right h₂]

/-- **Sizes are exact up to `maxSize`, and stay there beyond it.** -/
theorem Composition.stateSpaceSize_eq (c : Composition) :
    c.stateSpaceSize = min c.productSize maxSize := by
  have hfold : ∀ (ps : List Protocol) (size : Nat),
      ps.foldl (fun size p => min (size * p.stateCount) maxSize) (min size maxSize) =
        min (size * (ps.map Protocol.stateCount).prod) maxSize := by
    intro ps
    induction ps with
    | nil => intro size; simp
    | cons p ps ih =>
      intro size
      rw [List.foldl_cons, min_mul_maxSize, ih, List.map_cons, List.prod_cons, Nat.mul_assoc]
  have hone : min 1 maxSize = 1 := by decide
  rw [c.productSize_eq_prod, ← Nat.one_mul (List.prod _), ← hfold, hone]
  rfl

/-! ## What the checks go through -/

namespace Verifier

variable {v : Verifier} {property : Property} {fault : JointDecision → Option String}
  {c : Composition} {rule : Rule}

/-- What a product check reports of a joint state. -/
def productFault (fault : JointDecision → Option String) (c : Composition) (rule : Rule)
    (joint : JointState) : Option (Counterexample × Option String) :=
  (firstFault fault c.alphabet rule joint).map fun (action, protocol) =>
    (⟨c.snapshot joint [], some action⟩, some protocol)

theorem scan_sweep {more : Bool} : ∀ {l : List JointState} {checked : Nat},
    (∃ k joint action protocol,
        Odometer.scan (firstFault fault c.alphabet rule) checked l =
          (k, some (joint, action, protocol)) ∧
        Verdict.sweep property (productFault fault c rule) more checked l =
          .violated property k ⟨c.snapshot joint [], some action⟩ (some protocol)) ∨
      Odometer.scan (firstFault fault c.alphabet rule) checked l = (checked + l.length, none) ∧
        Verdict.sweep property (productFault fault c rule) more checked l =
          .holding property (checked + l.length) more := by
  intro l
  induction l with
  | nil => intro checked; exact Or.inr ⟨rfl, rfl⟩
  | cons joint l ih =>
    intro checked
    rw [Odometer.scan, Verdict.sweep, productFault]
    cases hjoint : firstFault fault c.alphabet rule joint with
    | some e => exact Or.inl ⟨_, _, _, _, rfl, rfl⟩
    | none =>
      rw [List.length_cons, Nat.add_comm l.length, ← Nat.add_assoc]
      exact ih

/-- A product check goes through as much of the product as its bound admits. -/
theorem checkProduct_eq_sweep :
    v.checkProduct property fault c rule =
      Verdict.sweep property (productFault fault c rule)
        (decide (min v.maxStates c.productSize < c.stateSpaceSize)) 0
        (c.jointStates.take v.maxStates) := by
  have hlen : (c.jointStates.take v.maxStates).length = min v.maxStates c.productSize := by
    rw [List.length_take, c.jointStates_eq_tuples, Odometer.length_tuples]
    rfl
  rw [checkProduct_eq, search_eq_scan]
  rcases @scan_sweep property fault c rule
      (decide (min v.maxStates c.productSize < c.stateSpaceSize))
      (c.jointStates.take v.maxStates) 0 with
    ⟨k, joint, action, protocol, hscan, hsweep⟩ | ⟨hscan, hsweep⟩
  · rw [hscan, hsweep]
  · rw [hscan, hsweep, Nat.zero_add, hlen]

/-- What the check for deadlocks reports of a record. -/
def stuckFault (c : Composition) (f : Found) : Option (Counterexample × Option String) :=
  if c.isLive f.joint then none else some (⟨c.snapshot f.joint f.path, none⟩, none)

theorem firstStuck_sweep {more : Bool} : ∀ {l : List Found} {checked : Nat},
    (∃ k state,
        firstStuck c checked (l.map fun f => (f.joint, c.snapshot f.joint f.path)) =
          some (k, state) ∧
        Verdict.sweep .deadlockFreedom (stuckFault c) more checked l =
          .violated .deadlockFreedom k ⟨state, none⟩ none) ∨
      firstStuck c checked (l.map fun f => (f.joint, c.snapshot f.joint f.path)) = none ∧
        Verdict.sweep .deadlockFreedom (stuckFault c) more checked l =
          .holding .deadlockFreedom (checked + l.length) more := by
  intro l
  induction l with
  | nil => intro checked; exact Or.inr ⟨rfl, rfl⟩
  | cons f l ih =>
    intro checked
    rw [List.map_cons, firstStuck_cons, Verdict.sweep, stuckFault]
    cases c.isLive f.joint with
    | false => exact Or.inl ⟨_, _, rfl, rfl⟩
    | true =>
      rw [List.length_cons, Nat.add_comm l.length, ← Nat.add_assoc]
      exact ih

/-- The check for deadlocks goes through the records of a search. -/
theorem checkDeadlock_eq_sweep :
    v.checkDeadlock c =
      Verdict.sweep .deadlockFreedom (stuckFault c) (c.explore v.maxStates).truncated 0
        (c.records v.maxStates) := by
  rw [checkDeadlock_eq, judgeExploration_eq, zip_explore, c.explore_states, List.length_map]
  rcases @firstStuck_sweep c (c.explore v.maxStates).truncated (c.records v.maxStates) 0 with
    ⟨k, state, hstuck, hsweep⟩ | ⟨hnone, hsweep⟩
  · rw [hstuck, hsweep]
  · rw [hnone, hsweep, Nat.zero_add]

end Verifier

end Lockstep
