import Lockstep.Proofs.Sweep
import Mathlib.Algebra.Order.BigOperators.Ring.List

/-!
# The walk through the product counts

A tuple below the radices is a number written with a radix of its own for every position, the first
position weighing most. `Odometer.digits` writes a number down and `Odometer.value` reads it back.

What the odometer does to a tuple, the last position that can advance doing so and the ones after it
returning to zero, is adding one (`Odometer.successor?_digits`); and where no position can advance, the
number was the last one. So the odometer started at zero has the `n`-th number to come after `n` calls, and
nothing once the numbers are used up (`Odometer.iterate_advance_start`). That the walk misses nothing,
repeats nothing and goes upwards is then a matter of numbers.
-/

namespace Lockstep

namespace Odometer

variable {radices : List Nat} {joint : JointState} {i j : Nat}

/-! ## Tuples as numbers -/

/-- The number that a tuple stands for. A position weighs as much as there are tuples of those after it. -/
def value : List Nat → JointState → Nat
  | _ :: radices, d :: joint => d * radices.prod + value radices joint
  | _, _ => 0

/-- The tuple that stands for a number. -/
def digits : List Nat → Nat → JointState
  | [], _ => []
  | _ :: radices, i => i / radices.prod :: digits radices (i % radices.prod)

theorem value_lt (h : List.Forall₂ (· < ·) joint radices) : value radices joint < radices.prod := by
  induction h with
  | nil => simp [value]
  | @cons d r joint radices hd _ ih =>
    rw [value, List.prod_cons]
    calc d * radices.prod + value radices joint
        < d * radices.prod + radices.prod := by omega
      _ = (d + 1) * radices.prod := by rw [Nat.succ_mul]
      _ ≤ r * radices.prod := Nat.mul_le_mul_right _ hd

theorem digits_value (h : List.Forall₂ (· < ·) joint radices) :
    digits radices (value radices joint) = joint := by
  induction h with
  | nil => rfl
  | @cons d r joint radices _ hrest ih =>
    have hlt : value radices joint < radices.prod := value_lt hrest
    have hpos : 0 < radices.prod := by omega
    rw [value, digits, Nat.mul_comm, Nat.mul_add_div hpos, Nat.div_eq_of_lt hlt, Nat.mul_add_mod,
      Nat.mod_eq_of_lt hlt, ih, Nat.add_zero]

/-- A number below a product has something to be divided by. -/
theorem prod_pos_of_lt {r : Nat} (h : i < (r :: radices).prod) : 0 < radices.prod := by
  rw [List.prod_cons] at h
  exact Nat.pos_of_mul_pos_left (Nat.zero_lt_of_lt h)

theorem forall₂_digits (h : i < radices.prod) : List.Forall₂ (· < ·) (digits radices i) radices := by
  induction radices generalizing i with
  | nil => exact List.Forall₂.nil
  | cons r radices ih =>
    have hpos := prod_pos_of_lt h
    rw [List.prod_cons] at h
    exact List.Forall₂.cons ((Nat.div_lt_iff_lt_mul hpos).mpr h) (ih (Nat.mod_lt i hpos))

theorem value_digits (h : i < radices.prod) : value radices (digits radices i) = i := by
  induction radices generalizing i with
  | nil =>
    rw [List.prod_nil] at h
    show 0 = i
    omega
  | cons r radices ih =>
    have hpos := prod_pos_of_lt h
    rw [digits, value, ih (Nat.mod_lt i hpos)]
    exact Nat.div_add_mod' i radices.prod

theorem digits_zero (radices : List Nat) : digits radices 0 = List.replicate radices.length 0 := by
  induction radices with
  | nil => rfl
  | cons r radices ih =>
    rw [digits, Nat.zero_div, Nat.zero_mod, ih, List.length_cons, List.replicate_succ]

/-- **Greater numbers are later tuples.** -/
theorem compare_digits (hij : i < j) (hj : j < radices.prod) :
    JointState.compare (digits radices i) (digits radices j) = .lt := by
  induction radices generalizing i j with
  | nil =>
    rw [List.prod_nil] at hj
    omega
  | cons r radices ih =>
    have hpos := prod_pos_of_lt hj
    have hle : i / radices.prod ≤ j / radices.prod := Nat.div_le_div_right (Nat.le_of_lt hij)
    rw [digits, digits, JointState.compare]
    by_cases hlt : i / radices.prod < j / radices.prod
    · rw [if_pos hlt]
    · -- the leading positions agree, and the rest decides
      have heq : i / radices.prod = j / radices.prod := by omega
      have hi := Nat.div_add_mod i radices.prod
      have hj := Nat.div_add_mod j radices.prod
      rw [heq] at hi ⊢
      rw [if_neg (Nat.lt_irrefl _), if_neg (Nat.lt_irrefl _)]
      exact ih (by omega) (Nat.mod_lt j hpos)

/-! ## Adding one -/

/-- **The next tuple stands for the next number**, and there is none after the last. -/
theorem successor?_digits (h : i < radices.prod) :
    successor? radices (digits radices i) =
      if i + 1 < radices.prod then some (digits radices (i + 1)) else none := by
  induction radices generalizing i with
  | nil =>
    rw [List.prod_nil] at h ⊢
    rw [if_neg (by omega)]
    rfl
  | cons r radices ih =>
    have hpos := prod_pos_of_lt h
    have hmod : i % radices.prod < radices.prod := Nat.mod_lt i hpos
    have hlength : (digits radices (i % radices.prod)).length = radices.length :=
      (forall₂_digits hmod).length_eq
    have hbelow : i / radices.prod < r := by
      rw [List.prod_cons] at h
      exact (Nat.div_lt_iff_lt_mul hpos).mpr h
    have hmore : i + 1 < (r :: radices).prod ↔ (i + 1) / radices.prod < r := by
      rw [List.prod_cons]
      exact (Nat.div_lt_iff_lt_mul hpos).symm
    have hi := Nat.div_add_mod i radices.prod
    rw [digits, successor?_cons hlength, ih hmod, digits]
    by_cases hcarry : i % radices.prod + 1 < radices.prod
    · -- a later position advances
      obtain ⟨hdiv, hrest⟩ : (i + 1) / radices.prod = i / radices.prod ∧
          (i + 1) % radices.prod = i % radices.prod + 1 :=
        (Nat.div_mod_unique hpos).mpr ⟨by omega, hcarry⟩
      rw [if_pos hcarry, if_pos (hmore.mpr (hdiv ▸ hbelow)), hdiv, hrest]
      rfl
    · -- the later positions return to zero, and this one advances if it can
      obtain ⟨hdiv, hrest⟩ : (i + 1) / radices.prod = i / radices.prod + 1 ∧
          (i + 1) % radices.prod = 0 := by
        refine (Nat.div_mod_unique hpos).mpr ⟨?_, hpos⟩
        rw [Nat.mul_succ]
        omega
      rw [if_neg hcarry, Option.map_none, Option.none_or, carry]
      by_cases hlast : i / radices.prod + 1 < r
      · rw [if_pos hlast, if_pos (hmore.mpr (hdiv ▸ hlast)), hdiv, hrest, digits_zero]
      · rw [if_neg hlast, if_neg (fun hlt => hlast (hdiv ▸ hmore.mp hlt))]

/-! ## One call after the other -/

/-- The walk after it was asked for its next tuple. -/
def advance (o : Odometer) : Odometer :=
  match o.next? with
  | some (_, o') => o'
  | none => o

theorem advance_eq (o : Odometer) :
    o.advance = { o with upcoming := o.upcoming.bind (successor? o.radices) } := by
  obtain ⟨radices, upcoming⟩ := o
  cases upcoming <;> rfl

/-- **After `n` calls the `n`-th number is to come**, and once the numbers are used up nothing is. -/
theorem iterate_advance_start (radices : List Nat) (n : Nat) :
    advance^[n] (start radices) =
      ⟨radices, if n < radices.prod then some (digits radices n) else none⟩ := by
  induction n with
  | zero =>
    rw [Function.iterate_zero_apply, start, digits_zero]
    simp only [List.all_eq_true, decide_eq_true_eq, CanonicallyOrderedAdd.list_prod_pos]
  | succ n ih =>
    rw [Function.iterate_succ_apply', ih, advance_eq]
    by_cases hn : n < radices.prod
    · simp only [if_pos hn, Option.bind_some, successor?_digits hn]
    · simp only [if_neg hn, Option.bind_none, if_neg (show ¬ n + 1 < radices.prod by omega)]

/-- What is collected at a place is what is to come after as many calls. -/
theorem getElem?_take {n : Nat} : ∀ {o : Odometer} {i : Nat},
    (take n o)[i]? = if i < n then (advance^[i] o).upcoming else none := by
  induction n with
  | zero =>
    intro o i
    rw [take, List.getElem?_nil, if_neg (Nat.not_lt_zero i)]
  | succ n ih =>
    intro o i
    obtain ⟨radices, upcoming⟩ := o
    cases upcoming with
    | none =>
      have hover : advance^[i] ⟨radices, none⟩ = ⟨radices, none⟩ := Function.iterate_fixed rfl i
      rw [hover, ite_self]
      rfl
    | some joint =>
      have htake : take (n + 1) ⟨radices, some joint⟩ =
          joint :: take n (advance ⟨radices, some joint⟩) := rfl
      rw [htake]
      cases i with
      | zero => rfl
      | succ i =>
        rw [List.getElem?_cons_succ, ih, Function.iterate_succ_apply]
        simp only [Nat.add_lt_add_iff_right]

end Odometer

/-! ## The product by number -/

theorem Protocol.stateName_inj {p : Protocol} {i j : Nat} (hi : i < p.stateCount)
    (hj : j < p.stateCount) (h : p.stateName i = p.stateName j) : i = j := by
  obtain ⟨s, hs⟩ := exists_stateName hi
  obtain ⟨t, ht⟩ := exists_stateName hj
  have hst : s = t := by
    rw [stateName_eq, stateName_eq, hs, ht] at h
    exact h
  have hid := stateId?_of_stateName? hs
  rw [hst, stateId?_of_stateName? ht] at hid
  exact (Option.some.inj hid).symm

theorem Protocol.mem_stateNames_iff {p : Protocol} {s : String} :
    s ∈ p.stateNames ↔ ∃ id < p.stateCount, p.stateName id = s := by
  have hname : ∀ id, p.stateNames[id]? = p.stateName? id := fun id => List.getElem?_map
  rw [List.mem_iff_getElem?]
  constructor
  · rintro ⟨id, h⟩
    rw [hname] at h
    refine ⟨id, stateName?_isSome_iff.mp (by rw [h]; rfl), ?_⟩
    rw [stateName_eq, h]
    rfl
  · rintro ⟨id, hid, rfl⟩
    obtain ⟨s, hs⟩ := exists_stateName hid
    refine ⟨id, ?_⟩
    rw [hname, stateName_eq, hs]
    rfl

namespace Composition

variable {c : Composition} {joint k : JointState}

theorem prod_radices (c : Composition) : c.radices.prod = c.productSize := c.productSize_eq_prod.symm

theorem fits_digits {n : Nat} (h : n < c.productSize) : c.Fits (Odometer.digits c.radices n) :=
  fits_iff_mem_tuples.mpr (Odometer.mem_tuples.mpr (Odometer.forall₂_digits (c.prod_radices ▸ h)))

theorem Fits.forall₂_lt (h : c.Fits joint) : List.Forall₂ (· < ·) joint c.radices :=
  Odometer.mem_tuples.mp (fits_iff_mem_tuples.mp h)

/-- **The joint states are the numbers below the size of the product, written down in turn.** -/
theorem jointStates_eq_digits (c : Composition) :
    c.jointStates = (List.range c.productSize).map (Odometer.digits c.radices) := by
  refine List.ext_getElem? fun i => ?_
  rw [jointStates, odometer, Odometer.getElem?_take, Odometer.iterate_advance_start, prod_radices,
    List.getElem?_map]
  by_cases hi : i < c.productSize
  · rw [if_pos hi, List.getElem?_range hi]
    simp only [if_pos hi, Option.map_some]
  · rw [if_neg hi, List.getElem?_eq_none (by simpa using hi), Option.map_none]

theorem pairwise_jointStates (c : Composition) :
    c.jointStates.Pairwise fun j k => JointState.compare j k = .lt := by
  rw [jointStates_eq_digits, List.pairwise_map]
  refine List.pairwise_lt_range.imp_of_mem ?_
  intro i j _ hj hij
  exact Odometer.compare_digits hij (c.prod_radices ▸ List.mem_range.mp hj)

/-! ## Combinations of names -/

/-- The state of every protocol by name, in protocol order. -/
def naming (c : Composition) (joint : JointState) : List (String × String) :=
  c.protocols.zipWith (fun p id => (p.name, p.stateName id)) joint

/-- One declared state of each protocol, in protocol order. -/
def Combination (c : Composition) (states : List String) : Prop :=
  List.Forall₂ (fun p s => s ∈ p.stateNames) c.protocols states

theorem Fits.naming_inj (hj : c.Fits joint) (hk : c.Fits k) (h : c.naming joint = c.naming k) :
    joint = k := by
  unfold Fits at hj hk
  unfold naming at h
  generalize c.protocols = protocols at hj hk h
  induction hj generalizing k with
  | nil =>
    cases hk
    rfl
  | cons hid _ ih =>
    cases hk with
    | cons hid' hk =>
      rw [List.zipWith_cons_cons, List.zipWith_cons_cons, List.cons.injEq, Prod.mk.injEq] at h
      rw [Protocol.stateName_inj hid hid' h.1.2, ih hk h.2]

theorem Fits.combination (h : c.Fits joint) : c.Combination ((c.naming joint).map Prod.snd) := by
  unfold Fits at h
  unfold Combination naming
  generalize c.protocols = protocols at h ⊢
  induction h with
  | nil => exact List.Forall₂.nil
  | cons hid _ ih =>
    exact List.Forall₂.cons (Protocol.mem_stateNames_iff.mpr ⟨_, hid, rfl⟩) ih

/-- Every combination of declared states is a joint state. -/
theorem Combination.exists_fits {states : List String} (h : c.Combination states) :
    ∃ joint, c.Fits joint ∧ c.naming joint = c.names.zip states := by
  unfold Combination at h
  unfold Fits naming names
  generalize c.protocols = protocols at h ⊢
  induction h with
  | nil => exact ⟨[], List.Forall₂.nil, rfl⟩
  | cons hs _ ih =>
    obtain ⟨id, hid, rfl⟩ := Protocol.mem_stateNames_iff.mp hs
    obtain ⟨joint, hfits, hnaming⟩ := ih
    refine ⟨id :: joint, List.Forall₂.cons hid hfits, ?_⟩
    rw [List.zipWith_cons_cons, List.map_cons, List.zip_cons_cons, hnaming]

theorem enumerateAll_ok {ceiling : Nat} {maps : List (OrderedMap String String)}
    (h : c.enumerateAll ceiling = .ok maps) :
    maps = c.jointStates.map fun joint => (c.snapshot joint []).states := by
  rw [enumerateAll_eq] at h
  split at h
  · exact absurd h (by simp)
  · exact (Except.ok.inj h).symm

/-- The joint states by name are the combinations of declared states. -/
theorem mem_enumerateAll_iff {m : OrderedMap String String} :
    m ∈ c.jointStates.map (fun joint => (c.snapshot joint []).states) ↔
      m.keys = c.names ∧ c.Combination m.values := by
  rw [List.mem_map]
  constructor
  · rintro ⟨joint, hjoint, rfl⟩
    have hfits := mem_jointStates.mp hjoint
    rw [OrderedMap.keys, OrderedMap.values, hfits.entries_snapshot]
    exact ⟨hfits.map_fst_zipWith, hfits.combination⟩
  · rintro ⟨hkeys, hvalues⟩
    obtain ⟨joint, hfits, hnaming⟩ := hvalues.exists_fits
    refine ⟨joint, mem_jointStates.mpr hfits, OrderedMap.ext ?_⟩
    have hzip : m.keys.zip m.values = m.entries := by
      have := List.zip_unzip m.entries
      rwa [List.unzip_eq_map] at this
    rw [hfits.entries_snapshot, ← hzip, hkeys]
    exact hnaming

theorem nodup_enumerateAll (c : Composition) :
    (c.jointStates.map fun joint => (c.snapshot joint []).states).Nodup := by
  refine c.nodup_jointStates.map_on ?_
  intro j hj k hk h
  have hentries := congrArg OrderedMap.entries h
  rw [(mem_jointStates.mp hj).entries_snapshot, (mem_jointStates.mp hk).entries_snapshot] at hentries
  exact (mem_jointStates.mp hj).naming_inj (mem_jointStates.mp hk) hentries

/--
**The walk through the product counts up.**

Asked for the `n`-th time, from zero, the odometer gives the tuple that stands for `n`, the first protocol
weighing most, as long as `n` is below the product of the state counts; from then on it gives nothing. Every
tuple of positions with a state stands for one of these numbers and for no other, and later tuples are
greater. All joint states by name are accordingly the combinations of declared states, each once and in that
order, every one with the protocols' names as keys in protocol order.
-/
theorem odometer_counts_up (c : Composition) :
    (∀ n, (Odometer.advance^[n] c.odometer).next?.map Prod.fst =
      if n < c.productSize then some (Odometer.digits c.radices n) else none) ∧
    (∀ n < c.productSize, c.Fits (Odometer.digits c.radices n) ∧
      Odometer.value c.radices (Odometer.digits c.radices n) = n) ∧
    (∀ joint, c.Fits joint → ∃! n, n < c.productSize ∧ Odometer.digits c.radices n = joint) ∧
    c.jointStates = (List.range c.productSize).map (Odometer.digits c.radices) ∧
    c.jointStates.Pairwise (fun j k => JointState.compare j k = .lt) ∧
    ∀ ceiling maps, c.enumerateAll ceiling = .ok maps →
      maps.map OrderedMap.entries =
        (List.range c.productSize).map (fun n => c.naming (Odometer.digits c.radices n)) ∧
      maps.Nodup ∧
      ∀ m, m ∈ maps ↔ m.keys = c.names ∧ c.Combination m.values := by
  refine ⟨?_, ?_, ?_, c.jointStates_eq_digits, c.pairwise_jointStates, ?_⟩
  · intro n
    rw [odometer, Odometer.iterate_advance_start, prod_radices]
    by_cases hn : n < c.productSize
    · simp only [if_pos hn, Odometer.next?, Option.map_some]
    · simp only [if_neg hn, Odometer.next?, Option.map_none]
  · intro n hn
    exact ⟨fits_digits hn, Odometer.value_digits (c.prod_radices ▸ hn)⟩
  · intro joint hfits
    have hlt := hfits.forall₂_lt
    have hvalue : Odometer.value c.radices joint < c.productSize :=
      c.prod_radices ▸ Odometer.value_lt hlt
    refine ⟨Odometer.value c.radices joint, ⟨hvalue, Odometer.digits_value hlt⟩, ?_⟩
    rintro n ⟨hn, rfl⟩
    exact (Odometer.value_digits (c.prod_radices ▸ hn)).symm
  · intro ceiling maps h
    rw [enumerateAll_ok h]
    refine ⟨?_, c.nodup_enumerateAll, fun m => mem_enumerateAll_iff⟩
    rw [jointStates_eq_digits, List.map_map, List.map_map]
    refine List.map_congr_left ?_
    intro n hn
    exact (fits_digits (List.mem_range.mp hn)).entries_snapshot []

end Composition

/-! ## A gate with a quota -/

/-- Lets `pass` through while it is open. -/
def gate : Protocol where
  definition := ⟨"gate", "open", [.accept "open", .accept "shut"],
    [.permit "open" "open" "pass", .deny "shut" "shut" "pass"]⟩
  places := ⟨[("open", 0), ("shut", 1)], by decide⟩
  placed := rfl
  initialId := ⟨0, by decide⟩
  initial_placed := rfl
  table := [[("pass", 0)], [("pass", 1)]]
  wired := rfl
  position := ⟨0, by decide⟩

/-- Used up by `pass` in two steps. -/
def quota : Protocol where
  definition := ⟨"quota", "full", [.accept "full", .accept "low", .accept "empty"],
    [.permit "full" "low" "pass", .permit "low" "empty" "pass"]⟩
  places := ⟨[("full", 0), ("low", 1), ("empty", 2)], by decide⟩
  placed := rfl
  initialId := ⟨0, by decide⟩
  initial_placed := rfl
  table := [[("pass", 0)], [("pass", 1)], []]
  wired := rfl
  position := ⟨0, by decide⟩

def metered : Composition where
  protocols := [gate, quota]
  nonempty := List.cons_ne_nil _ _
  distinct := by decide
  alphabet := ["pass"]
  alphabet_eq := rfl

theorem Composition.odometer_counts_up_metered :
    (Odometer.advance^[4] metered.odometer).next?.map Prod.fst = some [1, 1] ∧
    (Odometer.advance^[7] metered.odometer).next?.map Prod.fst = none ∧
    (metered.Fits [1, 1] ∧ Odometer.value [2, 3] [1, 1] = 4) ∧
    (∃! n, n < 6 ∧ Odometer.digits [2, 3] n = [1, 0]) ∧
    ∃ maps, metered.enumerateAll 6 = .ok maps ∧
      maps.map OrderedMap.entries =
        [[("gate", "open"), ("quota", "full")], [("gate", "open"), ("quota", "low")],
          [("gate", "open"), ("quota", "empty")], [("gate", "shut"), ("quota", "full")],
          [("gate", "shut"), ("quota", "low")], [("gate", "shut"), ("quota", "empty")]] ∧
      maps.Nodup ∧
      ∀ m, m ∈ maps ↔ m.keys = ["gate", "quota"] ∧ metered.Combination m.values := by
  obtain ⟨hcall, hnumber, honce, _, _, hmaps⟩ := odometer_counts_up metered
  have hfits : metered.Fits [1, 0] := by
    rw [fits_iff_mem_tuples]
    decide
  exact ⟨hcall 4, hcall 7, hnumber 4 (by decide), honce _ hfits, _, rfl, hmaps 6 _ rfl⟩

end Lockstep
