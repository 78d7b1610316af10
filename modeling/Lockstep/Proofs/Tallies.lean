import Lockstep.Dominance
import Lockstep.Proofs.Sweep

/-!
# Tallies count joint states

The tally of dominant protocols is a fold over the walk through the product, one joint state at a time. What
it holds in the end is said without the walk: for every protocol the number of joint states that it
dominates, and the number of those that nobody does (`Composition.exists_dominance`). Who dominates is not
looked into here.
-/

namespace Lockstep

/-! ## Maps -/

namespace OrderedMap

variable {κ β : Type} [DecidableEq κ]

theorem get?_insertIfNew (m : OrderedMap κ β) (k k' : κ) (v : β) :
    (m.insertIfNew k v).get? k' = (m.get? k').or (if k = k' then some v else none) := by
  unfold insertIfNew
  by_cases h : k = k'
  · subst h
    cases hm : m.get? k with
    | none => simp [get?_insert]
    | some w => simp [hm]
  · cases hm : m.get? k with
    | none => simp [get?_insert, h]
    | some w => simp [h]

end OrderedMap

/-! ## Tallies -/

namespace Dominance

/-- **Every protocol starts from zero**, and so does every listed name. -/
theorem get?_blank (c : Composition) (r : Ranking) (name : String) :
    (blank c r).counts.get? name = if name ∈ r.order ∨ name ∈ c.names then some 0 else .none := by
  have hlisted : ∀ (names : List String) (m : OrderedMap String Nat),
      ((names.map (·, 0)).foldl (fun m e => m.insert e.1 e.2) m).get? name =
        if name ∈ names then some 0 else m.get? name := by
    intro names
    induction names with
    | nil => intro m; simp
    | cons first names ih =>
      intro m
      rw [List.map_cons, List.foldl_cons, ih, OrderedMap.get?_insert]
      by_cases hmem : name ∈ names
      · simp [hmem]
      · by_cases hfirst : first = name
        · simp [hfirst]
        · simp [hmem, hfirst, Ne.symm hfirst]
  have hothers : ∀ (names : List String) (m : OrderedMap String Nat),
      (names.foldl (fun m name => m.insertIfNew name 0) m).get? name =
        (m.get? name).or (if name ∈ names then some 0 else .none) := by
    intro names
    induction names with
    | nil => intro m; simp
    | cons first names ih =>
      intro m
      rw [List.foldl_cons, ih, OrderedMap.get?_insertIfNew]
      by_cases hfirst : first = name
      · cases m.get? name <;> simp [hfirst]
      · simp [hfirst, Ne.symm hfirst]
  have hempty : (OrderedMap.empty : OrderedMap String Nat).get? name = .none := rfl
  -- listed names are bound first; the others are bound only where that left a gap
  unfold blank
  dsimp only
  rw [hothers, OrderedMap.ofList, hlisted, hempty]
  by_cases horder : name ∈ r.order
  · simp [horder]
  · simp [horder]

section Counting

variable {α : Type} (f : α → Option String)

theorem get?_foldl_count (l : List α) {name : String} :
    ∀ {t : Dominance} {n : Nat}, t.counts.get? name = some n →
      (l.foldl (fun t x => t.count (f x)) t).counts.get? name =
        some (n + l.countP fun x => f x = some name) := by
  induction l with
  | nil => intro t n h; simpa using h
  | cons x l ih =>
    intro t n h
    rw [List.foldl_cons, List.countP_cons]
    cases hx : f x with
    | none =>
      have hsame : (t.count .none).counts.get? name = some n := h
      rw [ih hsame]
      simp
    | some other =>
      by_cases hother : other = name
      · have hmore : (t.count (some other)).counts.get? name = some (n + 1) := by
          rw [count, OrderedMap.get?_insert, if_pos hother, hother, h, Option.getD_some]
        rw [ih hmore, if_pos (by rw [hother, decide_eq_true_eq])]
        congr 1
        omega
      · have hsame : (t.count (some other)).counts.get? name = some n := by
          rw [count, OrderedMap.get?_insert, if_neg hother, h]
        rw [ih hsame]
        simp [hother]

theorem none_foldl_count (l : List α) : ∀ t : Dominance,
    (l.foldl (fun t x => t.count (f x)) t).none = t.none + l.countP fun x => f x = .none := by
  induction l with
  | nil => intro t; simp
  | cons x l ih =>
    intro t
    rw [List.foldl_cons, ih, List.countP_cons]
    cases hx : f x with
    | none =>
      have hmore : (t.count .none).none = t.none + 1 := rfl
      rw [hmore, if_pos (by rw [decide_eq_true_eq])]
      omega
    | some other => simp [count]

end Counting

end Dominance

/-! ## The product -/

namespace Composition

variable {c : Composition}

/-- Counting along the walk counts joint states. -/
theorem countP_jointStates (c : Composition) (P : JointState → Bool) :
    c.jointStates.countP P = {joint | c.Fits joint ∧ P joint = true}.ncard := by
  have hnodup : (c.jointStates.filter P).Nodup := c.nodup_jointStates.filter P
  have hset : {joint | c.Fits joint ∧ P joint = true} = {joint | joint ∈ c.jointStates.filter P} := by
    ext joint
    rw [Set.mem_ofPred_eq, Set.mem_ofPred_eq, List.mem_filter, mem_jointStates]
  rw [hset, ncard_setOf_mem hnodup, List.countP_eq_length_filter]

/-- A tally under a ceiling that the product does not exceed. -/
theorem dominance_ok {priority : List String} {ceiling : Nat} {r : Ranking}
    (hr : Ranking.ofPriority c priority = .ok r) (hceiling : c.productSize ≤ ceiling) :
    c.dominance priority ceiling =
      .ok (c.jointStates.foldl (fun t joint => t.count (c.dominant r joint)) (.blank c r)) := by
  have hsize : ¬ ceiling < c.stateSpaceSize := by
    rw [c.stateSpaceSize_eq]
    omega
  rw [dominance_eq, if_neg hsize, hr]

/-- **The tally holds for every protocol how many joint states it dominates**, and how many nobody does. -/
theorem exists_dominance {priority : List String} {ceiling : Nat} {r : Ranking}
    (hr : Ranking.ofPriority c priority = .ok r) (hceiling : c.productSize ≤ ceiling) :
    ∃ t, c.dominance priority ceiling = .ok t ∧
      (∀ name ∈ c.names, t.counts.get? name =
        some {joint | c.Fits joint ∧ c.dominant r joint = some name}.ncard) ∧
      t.none = {joint | c.Fits joint ∧ c.dominant r joint = none}.ncard := by
  refine ⟨_, dominance_ok hr hceiling, ?_, ?_⟩
  · intro name hname
    have hstart : (Dominance.blank c r).counts.get? name = some 0 := by
      rw [Dominance.get?_blank, if_pos (Or.inr hname)]
    rw [Dominance.get?_foldl_count (c.dominant r) c.jointStates hstart, Nat.zero_add,
      countP_jointStates]
    simp only [decide_eq_true_eq]
  · have hstart : (Dominance.blank c r).none = 0 := rfl
    rw [Dominance.none_foldl_count (c.dominant r), hstart, Nat.zero_add, countP_jointStates]
    simp only [decide_eq_true_eq]

end Composition

end Lockstep
