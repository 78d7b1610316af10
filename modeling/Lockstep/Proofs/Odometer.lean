import Lockstep.Composition.Basic
import Lockstep.Proofs.Table
import Mathlib.Data.List.Forall2

/-!
# The walk through the product

An odometer holds one tuple and knows the next. Here the whole walk is written down beside it as a
list, `tuples`: all tuples below the radices, the last position turning fastest. The odometer started
at zero goes through that list and then stops (`walks_start`), so whatever it is asked to collect or to
look for can be read off the list.

Membership in the list says nothing about order or carries any more: a tuple is in it exactly if every
position is below its radix. For a composition these are the joint states that fit its protocols.
-/

namespace Lockstep

namespace Odometer

/-- The tuples below the given radices, in the order of the walk. -/
def tuples : List Nat → List JointState
  | [] => [[]]
  | r :: radices => (List.range r).flatMap fun d => (tuples radices).map (d :: ·)

theorem mem_tuples : ∀ {radices : List Nat} {joint : JointState},
    joint ∈ tuples radices ↔ List.Forall₂ (· < ·) joint radices := by
  intro radices
  induction radices with
  | nil => intro joint; simp [tuples]
  | cons r radices ih =>
    intro joint
    simp only [tuples, List.mem_flatMap, List.mem_range, List.mem_map, ih]
    constructor
    · rintro ⟨d, hd, rest, hrest, rfl⟩
      exact List.Forall₂.cons hd hrest
    · intro h
      cases h with
      | cons hd hrest => exact ⟨_, hd, _, hrest, rfl⟩

theorem length_of_mem_tuples {radices : List Nat} {joint : JointState}
    (h : joint ∈ tuples radices) : joint.length = radices.length :=
  (mem_tuples.mp h).length_eq

theorem length_tuples (radices : List Nat) : (tuples radices).length = radices.foldr (· * ·) 1 := by
  induction radices with
  | nil => rfl
  | cons r radices ih =>
    rw [tuples, List.length_flatMap, List.foldr_cons, ← ih]
    simp

theorem nodup_tuples (radices : List Nat) : (tuples radices).Nodup := by
  induction radices with
  | nil => simp [tuples]
  | cons r radices ih =>
    rw [tuples, List.nodup_flatMap]
    constructor
    · intro d _
      exact ih.map fun _ _ h => (List.cons.inj h).2
    · refine List.nodup_range.imp fun {d e} hne joint hd he => ?_
      obtain ⟨_, _, rfl⟩ := List.mem_map.mp hd
      obtain ⟨_, _, h⟩ := List.mem_map.mp he
      exact hne (List.cons.inj h).1.symm

/-! ## Going through a list -/

/-- From `a` to come, one element of the list after the other comes up, and `b` is to come then. -/
def Walks {α : Type} (next : α → Option α) : Option α → List α → Option α → Prop
  | a, [], b => a = b
  | a, x :: l, b => a = some x ∧ Walks next (next x) l b

theorem Walks.append {α : Type} {next : α → Option α} {b c : Option α} {l m : List α} :
    ∀ {a : Option α}, Walks next a l b → Walks next b m c → Walks next a (l ++ m) c := by
  induction l with
  | nil =>
    intro a hl hm
    have hab : a = b := hl
    exact hab ▸ hm
  | cons x l ih =>
    intro a hl hm
    exact ⟨hl.1, ih hl.2 hm⟩

/-- What comes after the last tuple with leading digit `d`: the digit advances and the rest returns to
zero, unless there is no further digit. -/
def carry (r : Nat) (radices : List Nat) (d : Nat) : Option JointState :=
  if d + 1 < r then some ((d + 1) :: List.replicate radices.length 0) else none

theorem successor?_cons {r d : Nat} {radices : List Nat} {digits : JointState}
    (h : digits.length = radices.length) :
    successor? (r :: radices) (d :: digits) =
      ((successor? radices digits).map (d :: ·)).or (carry r radices d) := by
  rw [successor?, carry, h]
  cases successor? radices digits <;> rfl

theorem walks_digit {r d : Nat} {radices : List Nat} {l : List JointState}
    (hl : ∀ x ∈ l, x.length = radices.length) :
    ∀ {a : Option JointState}, Walks (successor? radices) a l none →
      Walks (successor? (r :: radices)) ((a.map (d :: ·)).or (carry r radices d))
        (l.map (d :: ·)) (carry r radices d) := by
  induction l with
  | nil =>
    intro a ha
    have hnone : a = none := ha
    subst hnone
    rfl
  | cons x l ih =>
    intro a ha
    obtain ⟨rfl, hrest⟩ := ha
    refine ⟨rfl, ?_⟩
    rw [successor?_cons (hl x (by simp))]
    exact ih (fun y hy => hl y (List.mem_cons_of_mem _ hy)) hrest

/-- The tuples whose leading digit is `d` or more, `k + 1` digits before the last one. -/
theorem walks_digits {r : Nat} {radices : List Nat}
    (h : Walks (successor? radices) (some (List.replicate radices.length 0)) (tuples radices) none) :
    ∀ (k d : Nat), d + k + 1 = r →
      Walks (successor? (r :: radices)) (some (d :: List.replicate radices.length 0))
        ((List.range' d (k + 1)).flatMap fun e => (tuples radices).map (e :: ·)) none := by
  intro k
  induction k with
  | zero =>
    intro d hd
    have hlast : carry r radices d = none := by
      rw [carry, if_neg (by omega)]
    have hwalk := walks_digit (r := r) (d := d) (fun x hx => length_of_mem_tuples hx) h
    rw [hlast] at hwalk
    simpa using hwalk
  | succ k ih =>
    intro d hd
    have hnext : carry r radices d = some ((d + 1) :: List.replicate radices.length 0) := by
      rw [carry, if_pos (by omega)]
    have hwalk := walks_digit (r := r) (d := d) (fun x hx => length_of_mem_tuples hx) h
    rw [hnext] at hwalk
    rw [List.range'_succ, List.flatMap_cons]
    exact Walks.append hwalk (ih (d + 1) (by omega))

theorem walks_tuples : ∀ {radices : List Nat}, (∀ r ∈ radices, 0 < r) →
    Walks (successor? radices) (some (List.replicate radices.length 0)) (tuples radices) none := by
  intro radices
  induction radices with
  | nil => intro _; exact ⟨rfl, rfl⟩
  | cons r radices ih =>
    intro hpos
    have hr : 0 < r := hpos r (by simp)
    have hrest := ih (fun s hs => hpos s (List.mem_cons_of_mem _ hs))
    have hwalk := walks_digits (r := r) hrest (r - 1) 0 (by omega)
    rw [Nat.sub_add_cancel hr, ← List.range_eq_range'] at hwalk
    exact hwalk

theorem tuples_eq_nil {radices : List Nat} (h : 0 ∈ radices) : tuples radices = [] := by
  refine List.eq_nil_iff_forall_not_mem.mpr ?_
  intro joint hj
  have hzero : ∀ {j : JointState} {rs : List Nat}, List.Forall₂ (· < ·) j rs → 0 ∉ rs := by
    intro j rs hf
    induction hf with
    | nil => simp
    | cons hlt _ ih =>
      intro hm
      rcases List.mem_cons.mp hm with hm | hm
      · exact absurd hlt (by omega)
      · exact ih hm
  exact hzero (mem_tuples.mp hj) h

/-- **The odometer goes through all tuples and stops.** -/
theorem walks_start (radices : List Nat) :
    Walks (successor? radices) (start radices).upcoming (tuples radices) none := by
  unfold start
  dsimp only
  split
  · rename_i hpos
    refine walks_tuples ?_
    intro r hr
    exact of_decide_eq_true (List.all_eq_true.mp hpos r hr)
  · rename_i hpos
    have hzero : 0 ∈ radices := by
      by_contra hne
      refine hpos (List.all_eq_true.mpr ?_)
      intro r hr
      exact decide_eq_true (Nat.pos_of_ne_zero (fun h0 => hne (h0 ▸ hr)))
    rw [tuples_eq_nil hzero]
    rfl

/-! ## Collecting and searching -/

/-- Collecting reads the list from the front. -/
theorem take_of_walks {n : Nat} : ∀ {o : Odometer} {l : List JointState},
    Walks (successor? o.radices) o.upcoming l none → take n o = l.take n := by
  induction n with
  | zero => intro o l _; simp [take]
  | succ n ih =>
    intro o l h
    cases l with
    | nil =>
      have hnone : o.upcoming = none := h
      simp [take, next?, hnone]
    | cons x l =>
      obtain ⟨hx, hrest⟩ := h
      simp only [take, next?, hx, List.take_succ_cons]
      rw [ih (o := { o with upcoming := successor? o.radices x }) hrest]

/-- The first element of a list for which `f` has an answer, that answer, and the number of elements
up to and including it; without one, the number of elements. Counting starts at `count`. -/
def scan {α : Type} (f : JointState → Option α) : Nat → List JointState → Nat × Option (JointState × α)
  | count, [] => (count, none)
  | count, x :: l =>
    match f x with
    | some a => (count + 1, some (x, a))
    | none => scan f (count + 1) l

/-- Searching scans the list from the front. -/
theorem search_of_walks {α : Type} {f : JointState → Option α} {n : Nat} :
    ∀ {count : Nat} {o : Odometer} {l : List JointState},
      Walks (successor? o.radices) o.upcoming l none →
      search f n count o = scan f count (l.take n) := by
  induction n with
  | zero => intro count o l _; rfl
  | succ n ih =>
    intro count o l h
    cases l with
    | nil =>
      have hnone : o.upcoming = none := h
      simp [search_succ, scan, next?, hnone]
    | cons x l =>
      obtain ⟨hx, hrest⟩ := h
      simp only [search_succ, next?, hx, List.take_succ_cons, scan]
      cases f x with
      | some a => rfl
      | none => exact ih (o := { o with upcoming := successor? o.radices x }) hrest

theorem scan_eq_none_iff {α : Type} {f : JointState → Option α} {l : List JointState} :
    ∀ {count : Nat}, (scan f count l).2 = none ↔ ∀ x ∈ l, f x = none := by
  induction l with
  | nil => intro count; simp [scan]
  | cons x l ih =>
    intro count
    rw [scan]
    cases hx : f x with
    | some a => simp [hx]
    | none => simp [hx, ih]

end Odometer

/-! ## The joint states of a composition -/

namespace Composition

/-- One position for each protocol, and a state at every position. -/
def Fits (c : Composition) (joint : JointState) : Prop :=
  List.Forall₂ (fun p id => id < p.stateCount) c.protocols joint

theorem fits_iff_mem_tuples {c : Composition} {joint : JointState} :
    c.Fits joint ↔ joint ∈ Odometer.tuples c.radices := by
  rw [Odometer.mem_tuples, radices, List.forall₂_map_right_iff]
  exact ⟨List.Forall₂.flip, List.Forall₂.flip⟩

theorem Fits.length_eq {c : Composition} {joint : JointState} (h : c.Fits joint) :
    joint.length = c.protocols.length :=
  (List.Forall₂.length_eq h).symm

/-- **The walk lists exactly the joint states that fit.** -/
theorem jointStates_eq_tuples (c : Composition) : c.jointStates = Odometer.tuples c.radices := by
  unfold jointStates odometer productSize
  rw [Odometer.take_of_walks (Odometer.walks_start c.radices), ← Odometer.length_tuples,
    List.take_length]

theorem mem_jointStates {c : Composition} {joint : JointState} :
    joint ∈ c.jointStates ↔ c.Fits joint := by
  rw [jointStates_eq_tuples, fits_iff_mem_tuples]

theorem nodup_jointStates (c : Composition) : c.jointStates.Nodup := by
  rw [jointStates_eq_tuples]
  exact Odometer.nodup_tuples c.radices

end Composition

end Lockstep
