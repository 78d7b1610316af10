import Lockstep.Proofs.Dominance
import Lockstep.Proofs.MixedRadix
import Mathlib.Tactic.Ring

/-!
# Shares of dominance in closed form

A tally of dominant protocols is made by going through the whole product. Its numbers can be had from the
protocols one by one (`dominance_closed_form`), because joint states are put together freely: conditions
that speak of one protocol each are met by as many joint states as the product of the states that meet them
(`Composition.ncard_independent`).

Nobody dominates where no protocol denies anything, so the rest of the tally is the product of the states in
which a protocol denies nothing. Where ranks are distinct, a protocol dominates where it denies something
itself and those that rank above it do not; what those below do is of no matter.
-/

namespace Lockstep

/-! ## Conservation -/

/-- Writing a number changes the sum by what was written less what it replaced. -/
theorem OrderedMap.sum_values_insert {κ : Type} [DecidableEq κ] (m : OrderedMap κ Nat) (k : κ) (n : Nat) :
    (m.insert k n).values.sum + (m.get? k).getD 0 = m.values.sum + n := by
  obtain ⟨entries, nodup⟩ := m
  unfold insert values get?
  dsimp only
  clear nodup
  induction entries with
  | nil => simp [upsert]
  | cons e entries ih =>
    rw [upsert]
    by_cases hk : e.1 = k
    · rw [if_pos hk, List.find?_cons_of_pos (by simpa using hk)]
      simp only [List.map_cons, List.sum_cons, Option.map_some, Option.getD_some]
      omega
    · rw [if_neg hk, List.find?_cons_of_neg (by simpa using hk)]
      simp only [List.map_cons, List.sum_cons]
      omega

namespace Dominance

/-- Every joint state that was counted is counted once. -/
def Balanced (t : Dominance) : Prop := t.counts.values.sum + t.none = t.total

theorem balanced_blank (c : Composition) (r : Ranking) : (blank c r).Balanced := by
  have hzero : (blank c r).counts.values.sum = 0 := by
    refine List.sum_eq_zero ?_
    intro n hn
    obtain ⟨⟨name, m⟩, hmem, rfl⟩ := List.mem_map.mp hn
    have hget := OrderedMap.get?_eq_some_iff.mpr hmem
    rw [get?_blank] at hget
    split at hget
    · exact (Option.some.inj hget).symm
    · exact absurd hget (by simp)
  show (blank c r).counts.values.sum + 0 = 0
  rw [hzero]

theorem mem_keys_blank {c : Composition} {r : Ranking} {name : String} :
    name ∈ (blank c r).counts.keys ↔ name ∈ r.order ∨ name ∈ c.names := by
  have hget := get?_blank c r name
  constructor
  · intro hname
    obtain ⟨⟨_, n⟩, hmem, rfl⟩ := List.mem_map.mp hname
    rw [OrderedMap.get?_eq_some_iff.mpr hmem] at hget
    by_contra hnot
    rw [if_neg hnot] at hget
    exact absurd hget (by simp)
  · intro hname
    rw [if_pos hname, OrderedMap.get?_eq_some_iff] at hget
    exact List.mem_map_of_mem hget

/-- Counting one more keeps the balance. -/
theorem Balanced.count {t : Dominance} (h : t.Balanced) (dominant : Option String) :
    (t.count dominant).Balanced := by
  have hsum : t.counts.values.sum + t.none = t.total := h
  cases dominant with
  | none =>
    show t.counts.values.sum + (t.none + 1) = t.total + 1
    omega
  | some name =>
    have hinsert := t.counts.sum_values_insert name ((t.counts.get? name).getD 0 + 1)
    show (t.counts.insert name ((t.counts.get? name).getD 0 + 1)).values.sum + t.none = t.total + 1
    omega

theorem keys_count {t : Dominance} {dominant : Option String}
    (h : ∀ name, dominant = some name → name ∈ t.counts.keys) :
    (t.count dominant).counts.keys = t.counts.keys := by
  cases dominant with
  | none => rfl
  | some name =>
    show (t.counts.insert name _).keys = t.counts.keys
    rw [OrderedMap.keys_insert, if_pos (h name rfl)]

section Counting

variable {α : Type} (f : α → Option String)

theorem Balanced.foldl_count (l : List α) : ∀ {t : Dominance}, t.Balanced →
    (l.foldl (fun t x => t.count (f x)) t).Balanced := by
  induction l with
  | nil => intro t h; exact h
  | cons x l ih => intro t h; exact ih (h.count (f x))

theorem total_foldl_count (l : List α) : ∀ t : Dominance,
    (l.foldl (fun t x => t.count (f x)) t).total = t.total + l.length := by
  induction l with
  | nil => intro t; rfl
  | cons x l ih =>
    intro t
    have hone : (t.count (f x)).total = t.total + 1 := by
      cases f x <;> rfl
    rw [List.foldl_cons, ih, hone, List.length_cons]
    omega

/-- No key is added by counting names that are listed already. -/
theorem keys_foldl_count (l : List α) : ∀ {t : Dominance},
    (∀ x ∈ l, ∀ name, f x = some name → name ∈ t.counts.keys) →
    (l.foldl (fun t x => t.count (f x)) t).counts.keys = t.counts.keys := by
  induction l with
  | nil => intro t _; rfl
  | cons x l ih =>
    intro t h
    have hone : (t.count (f x)).counts.keys = t.counts.keys := keys_count (h x List.mem_cons_self)
    rw [List.foldl_cons, ih, hone]
    intro y hy
    rw [hone]
    exact h y (List.mem_cons_of_mem x hy)

end Counting

end Dominance

/-! ## Independent conditions -/

theorem sum_map_ite_const {α : Type} (P : α → Bool) (n : Nat) (l : List α) :
    (l.map fun x => if P x then n else 0).sum = l.countP P * n := by
  induction l with
  | nil => simp
  | cons x l ih =>
    rw [List.map_cons, List.sum_cons, ih, List.countP_cons]
    by_cases hx : P x = true
    · rw [if_pos hx, if_pos hx]
      ring
    · rw [if_neg hx, if_neg hx]
      ring

/-- Tuples in which every position meets its own condition. -/
theorem Odometer.countP_tuples (P : Protocol → Nat → Bool) (protocols : List Protocol) :
    (tuples (protocols.map Protocol.stateCount)).countP
        (fun joint => (protocols.zip joint).all fun e => P e.1 e.2) =
      (protocols.map fun p => (List.range p.stateCount).countP (P p)).prod := by
  induction protocols with
  | nil => rfl
  | cons p protocols ih =>
    -- a leading digit that meets its condition leaves the count of the rest, any other leaves nothing
    have hdigit : ∀ d, ((tuples (protocols.map Protocol.stateCount)).map (d :: ·)).countP
        (fun joint => ((p :: protocols).zip joint).all fun e => P e.1 e.2) =
          if P p d then (protocols.map fun p => (List.range p.stateCount).countP (P p)).prod else 0 := by
      intro d
      rw [List.countP_map, ← ih]
      by_cases hd : P p d = true
      · rw [if_pos hd]
        refine List.countP_congr ?_
        intro joint _
        simp [hd]
      · rw [if_neg hd, List.countP_eq_zero]
        intro joint _
        simp [hd]
    rw [List.map_cons, tuples, List.countP_flatMap, List.map_cons, List.prod_cons]
    generalize (protocols.map fun p => (List.range p.stateCount).countP (P p)).prod = n at hdigit
    rw [← sum_map_ite_const]
    congr 2
    funext d
    exact hdigit d

/-- **Conditions on the protocols one by one are met by as many joint states as their numbers multiply to.** -/
theorem Composition.ncard_independent (c : Composition) (P : Protocol → Nat → Bool) :
    {joint | c.Fits joint ∧ ∀ p id, (p, id) ∈ c.protocols.zip joint → P p id = true}.ncard =
      (c.protocols.map fun p => (List.range p.stateCount).countP (P p)).prod := by
  have hall : ∀ joint, (∀ p id, (p, id) ∈ c.protocols.zip joint → P p id = true) ↔
      ((c.protocols.zip joint).all fun e => P e.1 e.2) = true := by
    intro joint
    rw [List.all_eq_true]
    exact ⟨fun h e he => h e.1 e.2 he, fun h p id he => h (p, id) he⟩
  simp only [hall]
  rw [← c.countP_jointStates, c.jointStates_eq_tuples, ← Odometer.countP_tuples]
  rfl

/-! ## States that deny -/

namespace Composition

variable {c : Composition} {r : Ranking} {joint : JointState} {p q : Protocol} {id : Nat}

/-- Whether the protocol denies some action of the composition in the state at a place. -/
def objects (c : Composition) (p : Protocol) (id : Nat) : Bool :=
  c.alphabet.any fun action => (p.decideAt id action).isDenied

/-- In how many of its states a protocol denies something. -/
def denyCount (c : Composition) (p : Protocol) : Nat := (List.range p.stateCount).countP (c.objects p)

/-- In how many of its states a protocol denies nothing. -/
def freeCount (c : Composition) (p : Protocol) : Nat := p.stateCount - c.denyCount p

theorem countP_not_objects (c : Composition) (p : Protocol) :
    ((List.range p.stateCount).countP fun id => !c.objects p id) = c.freeCount p := by
  have hsplit := List.length_eq_countP_add_countP (c.objects p) (l := List.range p.stateCount)
  simp only [Bool.not_eq_true, List.length_range, Bool.decide_eq_false] at hsplit
  rw [freeCount, denyCount]
  omega

theorem objects_iff :
    c.objects p id = true ↔ ∃ a ∈ c.alphabet, (p.decideAt id a).permitted = false := by
  rw [objects, List.any_eq_true]
  simp only [Decision.isDenied, Bool.not_eq_true']

/-- In a joint state a protocol has one position. -/
theorem Fits.position_unique (h : c.Fits joint) {id id' : Nat} (hid : (p, id) ∈ c.protocols.zip joint)
    (hid' : (p, id') ∈ c.protocols.zip joint) : id = id' := by
  have hnodup : ((c.protocols.zip joint).map Prod.fst).Nodup := by
    rw [List.map_fst_zip (le_of_eq h.length_eq.symm)]
    exact c.nodup_protocols
  exact congrArg Prod.snd (List.inj_on_of_nodup_map hnodup hid hid' rfl)

theorem dominant_eq_none_iff_objects :
    c.dominant r joint = none ↔
      ∀ q id, (q, id) ∈ c.protocols.zip joint → (!c.objects q id) = true := by
  rw [dominant_eq_none_iff]
  constructor
  · intro h q id hq
    rw [Bool.not_eq_true', ← Bool.not_eq_true, objects_iff]
    rintro ⟨a, ha, hdenied⟩
    exact h a ha q ⟨id, hq, hdenied⟩
  · rintro h a ha q ⟨id, hq, hdenied⟩
    have hnot := h q id hq
    rw [objects_iff.mpr ⟨a, ha, hdenied⟩] at hnot
    exact absurd hnot (by simp)

/-- What a state of one protocol has to be like for another to dominate: if the protocol ranks above, it denies
nothing there; if it ranks below, there is nothing to ask; and the dominating one denies something itself. -/
def concedes (c : Composition) (r : Ranking) (p q : Protocol) (id : Nat) : Bool :=
  if r.rank q.name < r.rank p.name then !c.objects q id
  else if r.rank p.name < r.rank q.name then true
  else c.objects q id

theorem leadsDenials_iff_concedes (hp : p ∈ c.protocols) (hfits : c.Fits joint)
    (halone : ∀ q ∈ c.protocols, r.rank q.name = r.rank p.name → q = p) :
    c.LeadsDenials r joint p ↔
      ∀ q id, (q, id) ∈ c.protocols.zip joint → c.concedes r p q id = true := by
  constructor
  · rintro ⟨⟨a, ha, idp, hidp, hdenied⟩, hmin⟩ q id hq
    unfold concedes
    by_cases habove : r.rank q.name < r.rank p.name
    · rw [if_pos habove, Bool.not_eq_true', ← Bool.not_eq_true, objects_iff]
      -- whoever denies from above would come before `p`
      rintro ⟨b, hb, hqdenied⟩
      rcases hmin b hb q ⟨id, hq, hqdenied⟩ with hlt | ⟨heq, _⟩
      · omega
      · omega
    · rw [if_neg habove]
      by_cases hbelow : r.rank p.name < r.rank q.name
      · rw [if_pos hbelow]
      · rw [if_neg hbelow]
        obtain rfl : q = p := halone q (List.of_mem_zip hq).1 (by omega)
        rw [hfits.position_unique hq hidp]
        exact objects_iff.mpr ⟨a, ha, hdenied⟩
  · intro h
    obtain ⟨id, hid⟩ := hfits.exists_position hp
    have hown := h p id hid
    rw [concedes, if_neg (Nat.lt_irrefl _), if_neg (Nat.lt_irrefl _), objects_iff] at hown
    obtain ⟨a, ha, hdenied⟩ := hown
    refine ⟨⟨a, ha, id, hid, hdenied⟩, ?_⟩
    rintro b hb q ⟨idq, hq, hqdenied⟩
    by_cases habove : r.rank q.name < r.rank p.name
    · have hq' := h q idq hq
      rw [concedes, if_pos habove, objects_iff.mpr ⟨b, hb, hqdenied⟩] at hq'
      exact absurd hq' (by simp)
    · by_cases hbelow : r.rank p.name < r.rank q.name
      · exact Or.inl hbelow
      · rw [halone q (List.of_mem_zip hq).1 (by omega)]
        exact Or.inr ⟨rfl, Nat.le_refl _⟩

theorem countP_concedes (c : Composition) (r : Ranking) (p q : Protocol) :
    (List.range q.stateCount).countP (c.concedes r p q) =
      if r.rank q.name < r.rank p.name then c.freeCount q
      else if r.rank p.name < r.rank q.name then q.stateCount
      else c.denyCount q := by
  unfold concedes
  by_cases habove : r.rank q.name < r.rank p.name
  · simp only [if_pos habove]
    exact c.countP_not_objects q
  · by_cases hbelow : r.rank p.name < r.rank q.name
    · simp only [if_neg habove, if_pos hbelow, List.countP_true, List.length_range]
    · simp only [if_neg habove, if_neg hbelow]
      rfl

end Composition

/-! ## Products by rank -/

section Products

variable {α : Type} {above below own : α → Nat}

theorem prod_map_apart {rank : α → Nat} {k : Nat} {l : List α} (hapart : ∀ q ∈ l, rank q ≠ k) :
    (l.map fun q => if rank q < k then above q else if k < rank q then below q else own q).prod =
      ((l.filter (rank · < k)).map above).prod * ((l.filter (k < rank ·)).map below).prod := by
  induction l with
  | nil => rfl
  | cons q l ih =>
    have hne : rank q ≠ k := hapart q List.mem_cons_self
    rw [List.map_cons, List.prod_cons, ih fun x hx => hapart x (List.mem_cons_of_mem q hx)]
    by_cases habove : rank q < k
    · have hbelow : ¬ k < rank q := by omega
      simp only [habove, hbelow, if_true, decide_true, decide_false, List.filter_cons, Bool.false_eq_true,
        if_false, List.map_cons, List.prod_cons]
      ring
    · have hbelow : k < rank q := by omega
      simp only [habove, hbelow, if_true, decide_true, decide_false, List.filter_cons, Bool.false_eq_true,
        if_false, List.map_cons, List.prod_cons]
      ring

/-- A product over elements of distinct ranks is the factor of one of them, times those that rank above it,
times those that rank below. -/
theorem prod_map_by_rank (rank : α → Nat) {l : List α} {p : α} (hp : p ∈ l) (hnodup : l.Nodup)
    (halone : ∀ q ∈ l, rank q = rank p → q = p) :
    (l.map fun q => if rank q < rank p then above q else if rank p < rank q then below q else own q).prod =
      own p * ((l.filter (rank · < rank p)).map above).prod *
        ((l.filter (rank p < rank ·)).map below).prod := by
  -- on both sides of `p` every rank differs from its own
  obtain ⟨before, after, rfl⟩ := List.append_of_mem hp
  rw [List.nodup_append, List.nodup_cons] at hnodup
  have hbefore : ∀ q ∈ before, rank q ≠ rank p := by
    intro q hq heq
    exact hnodup.2.2 q hq p List.mem_cons_self (halone q (List.mem_append_left _ hq) heq)
  have hafter : ∀ q ∈ after, rank q ≠ rank p := by
    intro q hq heq
    have hqp : q = p := halone q (List.mem_append_right _ (List.mem_cons_of_mem p hq)) heq
    exact hnodup.2.1.1 (hqp ▸ hq)
  simp only [List.map_append, List.map_cons, List.filter_append, List.filter_cons, List.prod_append,
    List.prod_cons, prod_map_apart hbefore, prod_map_apart hafter, Nat.lt_irrefl, decide_false,
    Bool.false_eq_true, if_false]
  ring

end Products

/-! ## The tally -/

namespace Composition

variable {c : Composition} {r : Ranking}

theorem ncard_nobody (c : Composition) (r : Ranking) :
    {joint | c.Fits joint ∧ c.dominant r joint = none}.ncard = (c.protocols.map c.freeCount).prod := by
  simp only [dominant_eq_none_iff_objects]
  rw [c.ncard_independent fun q id => !c.objects q id]
  simp only [countP_not_objects]

theorem ncard_dominated {p : Protocol} (hp : p ∈ c.protocols)
    (halone : ∀ q ∈ c.protocols, r.rank q.name = r.rank p.name → q = p) :
    {joint | c.Fits joint ∧ c.dominant r joint = some p.name}.ncard =
      c.denyCount p *
        ((c.protocols.filter fun q => r.rank q.name < r.rank p.name).map c.freeCount).prod *
        ((c.protocols.filter fun q => r.rank p.name < r.rank q.name).map Protocol.stateCount).prod := by
  have hset : {joint | c.Fits joint ∧ c.dominant r joint = some p.name} =
      {joint | c.Fits joint ∧
        ∀ q id, (q, id) ∈ c.protocols.zip joint → c.concedes r p q id = true} := by
    ext joint
    refine and_congr_right fun hfits => ?_
    rw [dominant_eq_some_iff hp, dominates_iff_leadsDenials halone,
      leadsDenials_iff_concedes hp hfits halone]
  rw [hset, ncard_independent]
  simp only [countP_concedes]
  exact @prod_map_by_rank _ c.freeCount Protocol.stateCount c.denyCount (fun q => r.rank q.name) _ _ hp
    c.nodup_protocols halone

theorem dominant_mem_names {joint : JointState} {name : String}
    (h : c.dominant r joint = some name) : name ∈ c.names := by
  obtain ⟨p, ⟨_, _, hdenies, _⟩, hname⟩ := dominates_of_dominant h
  rw [← hname]
  exact List.mem_map_of_mem hdenies.mem

/-- Counting along the walk keeps to the names that the tally starts with. -/
theorem keys_foldl_dominant (c : Composition) (r : Ranking) (l : List JointState) :
    (l.foldl (fun t joint => t.count (c.dominant r joint)) (Dominance.blank c r)).counts.keys =
      (Dominance.blank c r).counts.keys := by
  refine Dominance.keys_foldl_count _ l ?_
  intro joint _ name hname
  exact Dominance.mem_keys_blank.mpr (Or.inr (dominant_mem_names hname))

end Composition

/--
**Dominance without the product.**

A tally under an accepted priority list exists, lists every composed protocol once and nobody else, covers the
whole product, and counts each joint state once. Nobody dominates in as many joint states as the protocols'
states without a denial multiply to. Where no two protocols share a rank, a protocol dominates in as many as
its own states with a denial, the states without one of those that rank above it, and all states of those that
rank below multiply to.
-/
theorem dominance_closed_form (c : Composition) (priority : List String) (ceiling : Nat) (r : Ranking)
    (hr : Ranking.ofPriority c priority = .ok r) (hceiling : c.productSize ≤ ceiling) :
    ∃ t, c.dominance priority ceiling = .ok t ∧
      t.counts.keys.Perm c.names ∧
      t.total = c.productSize ∧
      t.counts.values.sum + t.none = t.total ∧
      t.none = (c.protocols.map c.freeCount).prod ∧
      ((∀ p ∈ c.protocols, ∀ q ∈ c.protocols, r.rank p.name = r.rank q.name → p = q) →
        ∀ p ∈ c.protocols, t.counts.get? p.name = some (c.denyCount p *
          ((c.protocols.filter fun q => r.rank q.name < r.rank p.name).map c.freeCount).prod *
          ((c.protocols.filter fun q => r.rank p.name < r.rank q.name).map Protocol.stateCount).prod)) := by
  obtain ⟨t, ht, hcounts, hnone⟩ := Composition.exists_dominance hr hceiling
  obtain rfl := Except.ok.inj (ht.symm.trans (Composition.dominance_ok hr hceiling))
  refine ⟨_, ht, ?_, ?_, ?_, ?_, ?_⟩
  · -- the names that the tally starts with: what is listed is composed
    rw [Composition.keys_foldl_dominant]
    refine (List.perm_ext_iff_of_nodup (Dominance.blank c r).counts.nodup c.distinct).mpr ?_
    intro name
    have hlisted : name ∈ r.order → name ∈ c.names := Ranking.mem_names_of_ofPriority_ok hr
    exact Dominance.mem_keys_blank.trans ⟨fun h => h.elim hlisted id, Or.inr⟩
  · rw [Dominance.total_foldl_count, c.jointStates_eq_digits, List.length_map, List.length_range]
    exact Nat.zero_add _
  · exact (Dominance.balanced_blank c r).foldl_count (c.dominant r) c.jointStates
  · rw [hnone, Composition.ncard_nobody]
  · intro hdistinct p hp
    rw [hcounts p.name (List.mem_map_of_mem hp),
      Composition.ncard_dominated hp fun q hq h => hdistinct q hq p hp h]

-- the last place of `quota` in the list counts, so that the gate ranks above it
theorem dominance_closed_form_metered :
    Ranking.ofPriority metered ["quota", "gate", "quota"] = .ok (.ofOrder ["quota", "gate", "quota"]) ∧
    metered.productSize ≤ 6 ∧
    ∃ t, metered.dominance ["quota", "gate", "quota"] 6 = .ok t ∧
      t.counts.keys.Perm ["gate", "quota"] ∧ t.total = 6 ∧ t.counts.values.sum + t.none = t.total ∧
      t.none = 2 ∧ t.counts.get? "gate" = some 3 ∧ t.counts.get? "quota" = some 1 := by
  obtain ⟨t, ht, hkeys, htotal, hsum, hnone, hcounts⟩ := dominance_closed_form metered
    ["quota", "gate", "quota"] 6 (.ofOrder ["quota", "gate", "quota"]) rfl (by decide)
  have hdistinct : ∀ p ∈ metered.protocols, ∀ q ∈ metered.protocols,
      Ranking.rank (.ofOrder ["quota", "gate", "quota"]) p.name =
        Ranking.rank (.ofOrder ["quota", "gate", "quota"]) q.name → p = q := by
    intro p hp q hq
    rcases List.mem_pair.mp hp with rfl | rfl <;> rcases List.mem_pair.mp hq with rfl | rfl
    · exact fun _ => rfl
    · exact fun h => absurd h (by decide)
    · exact fun h => absurd h (by decide)
    · exact fun _ => rfl
  have hgate := hcounts hdistinct gate List.mem_cons_self
  have hquota := hcounts hdistinct quota (List.mem_cons_of_mem _ List.mem_cons_self)
  exact ⟨rfl, by decide, t, ht, hkeys, htotal, hsum, hnone, hgate, hquota⟩

end Lockstep
