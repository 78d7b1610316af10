import Lockstep.Proofs.ClosedForm

/-!
# The order of a tally

A tally lists every protocol once. It is made by entering the names of the priority list and then those of the
composition, each unless it is there already, so a name keeps its first place; nothing that is counted later
moves it (`Dominance.keys_blank`). The list that comes out has the names in order of their first mention, and
those without one at the end, as they are declared.

Ranks go by the last mention. The two orders are the same for a list that repeats no name, and for others
exactly if first and last mentions come in one order (`Composition.listedBy_rank_iff`). Where a name is
mentioned before and after another one, they are not.
-/

namespace Lockstep

/-! ## First mentions -/

/-- Add a name to those that are listed, unless it is one of them. -/
def listNew (names : List String) (name : String) : List String :=
  if name ∈ names then names else names ++ [name]

theorem eraseDups_snoc (names : List String) (name : String) :
    (names ++ [name]).eraseDups =
      if name ∈ names then names.eraseDups else names.eraseDups ++ [name] := by
  rw [List.eraseDups_append]
  by_cases hmem : name ∈ names
  · simp [List.removeAll, hmem]
  · simp [List.removeAll, hmem, List.eraseDups_cons]

/-- Listing names one by one lists each at its first mention. -/
theorem foldl_listNew (names : List String) : names.foldl listNew [] = names.eraseDups := by
  induction names using List.reverseRecOn with
  | nil => rfl
  | append_singleton names name ih =>
    rw [List.foldl_append, ih, eraseDups_snoc]
    simp only [List.foldl_cons, List.foldl_nil, listNew, List.mem_eraseDups]

/-- **Names listed at their first mention are in order of it.** -/
theorem pairwise_eraseDups (names : List String) :
    names.eraseDups.Pairwise fun p q => names.idxOf p < names.idxOf q := by
  induction names using List.reverseRecOn with
  | nil => exact List.Pairwise.nil
  | append_singleton names name ih =>
    -- who was listed before is where they were
    have hold : ∀ p ∈ names.eraseDups, (names ++ [name]).idxOf p = names.idxOf p := fun p hp =>
      List.idxOf_append_of_mem (List.mem_eraseDups.mp hp)
    have hpair : names.eraseDups.Pairwise fun p q =>
        (names ++ [name]).idxOf p < (names ++ [name]).idxOf q := by
      refine ih.imp_of_mem ?_
      intro p q hp hq hlt
      rw [hold p hp, hold q hq]
      exact hlt
    rw [eraseDups_snoc]
    by_cases hmem : name ∈ names
    · rw [if_pos hmem]
      exact hpair
    · rw [if_neg hmem, List.pairwise_append]
      refine ⟨hpair, List.pairwise_singleton _ _, ?_⟩
      intro p hp q hq
      rw [List.mem_singleton.mp hq, hold p hp, List.idxOf_append_of_notMem hmem]
      have hlt : names.idxOf p < names.length := List.idxOf_lt_length_of_mem (List.mem_eraseDups.mp hp)
      omega

/-! ## The names of a tally -/

namespace OrderedMap

variable {β : Type}

theorem keys_insert_eq_listNew (m : OrderedMap String β) (k : String) (v : β) :
    (m.insert k v).keys = listNew m.keys k :=
  m.keys_insert k v

theorem keys_insertIfNew_eq_listNew (m : OrderedMap String β) (k : String) (v : β) :
    (m.insertIfNew k v).keys = listNew m.keys k := by
  unfold insertIfNew listNew
  cases hget : m.get? k with
  | some w =>
    have hmem : k ∈ m.keys := List.mem_map_of_mem (get?_eq_some_iff.mp hget)
    rw [if_pos hmem]
  | none => exact m.keys_insert k v

end OrderedMap

/-- **A tally starts with every name at its first mention.** -/
theorem Dominance.keys_blank (c : Composition) (r : Ranking) :
    (blank c r).counts.keys = (r.order ++ c.names).eraseDups := by
  have hlisted : ∀ (names : List String) (m : OrderedMap String Nat),
      ((names.map (·, 0)).foldl (fun m e => m.insert e.1 e.2) m).keys = names.foldl listNew m.keys := by
    intro names
    induction names with
    | nil => intro m; rfl
    | cons name names ih =>
      intro m
      rw [List.map_cons, List.foldl_cons, ih, OrderedMap.keys_insert_eq_listNew, List.foldl_cons]
  have hothers : ∀ (names : List String) (m : OrderedMap String Nat),
      (names.foldl (fun m name => m.insertIfNew name 0) m).keys = names.foldl listNew m.keys := by
    intro names
    induction names with
    | nil => intro m; rfl
    | cons name names ih =>
      intro m
      rw [List.foldl_cons, ih, OrderedMap.keys_insertIfNew_eq_listNew, List.foldl_cons]
  unfold blank
  dsimp only
  rw [hothers, OrderedMap.ofList, hlisted, ← foldl_listNew, List.foldl_append]
  rfl

/-! ## Two orders -/

namespace Composition

variable {c : Composition} {r : Ranking} {priority : List String}

/-- The names come in order of a number that each has, and of declaration where it is the same. -/
def ListedBy (c : Composition) (number : String → Nat) (names : List String) : Prop :=
  names.Pairwise fun p q =>
    number p < number q ∨ number p = number q ∧ c.names.idxOf p < c.names.idxOf q

theorem listedBy_mention (c : Composition) (priority : List String) :
    c.ListedBy (priority.idxOf ·) (priority ++ c.names).eraseDups := by
  refine (pairwise_eraseDups (priority ++ c.names)).imp ?_
  intro p q hlt
  dsimp only
  by_cases hp : p ∈ priority
  · have hplt : priority.idxOf p < priority.length := List.idxOf_lt_length_of_mem hp
    rw [List.idxOf_append_of_mem hp] at hlt
    by_cases hq : q ∈ priority
    · rw [List.idxOf_append_of_mem hq] at hlt
      exact Or.inl hlt
    · have hqlen : priority.idxOf q = priority.length := List.idxOf_eq_length hq
      exact Or.inl (by omega)
  · rw [List.idxOf_append_of_notMem hp] at hlt
    have hplen : priority.idxOf p = priority.length := List.idxOf_eq_length hp
    by_cases hq : q ∈ priority
    · have hqlt : priority.idxOf q < priority.length := List.idxOf_lt_length_of_mem hq
      rw [List.idxOf_append_of_mem hq] at hlt
      omega
    · have hqlen : priority.idxOf q = priority.length := List.idxOf_eq_length hq
      rw [List.idxOf_append_of_notMem hq] at hlt
      exact Or.inr ⟨by omega, by omega⟩

/-- **Ranks follow a listing by first mention** exactly where last mentions come in the same order. -/
theorem listedBy_rank_iff {names : List String} (hnames : ∀ p ∈ r.order, p ∈ names)
    (hlisted : c.ListedBy (r.order.idxOf ·) names) :
    c.ListedBy r.rank names ↔
      ∀ p ∈ r.order, ∀ q ∈ r.order, r.order.idxOf p < r.order.idxOf q → r.rank p < r.rank q := by
  constructor
  · intro hranked p hp q hq hlt
    obtain ⟨i, hi, rfl⟩ := List.mem_iff_getElem.mp (hnames p hp)
    obtain ⟨j, hj, rfl⟩ := List.mem_iff_getElem.mp (hnames q hq)
    rcases Nat.lt_trichotomy i j with hij | hij | hji
    · rcases List.pairwise_iff_getElem.mp hranked i j hi hj hij with hrank | ⟨hrank, _⟩
      · exact hrank
      · -- a rank is shared among the unlisted only
        rw [Ranking.eq_of_rank_eq hq hrank] at hlt
        omega
    · subst hij
      omega
    · -- who comes later in the listing is not mentioned earlier
      have hmention := List.pairwise_iff_getElem.mp hlisted j i hj hi hji
      dsimp only at hmention
      omega
  · intro hsame
    refine List.Pairwise.imp ?_ hlisted
    intro p q hmention
    dsimp only at hmention
    by_cases hp : p ∈ r.order
    · by_cases hq : q ∈ r.order
      · rcases hmention with hlt | ⟨heq, hplace⟩
        · exact Or.inl (hsame p hp q hq hlt)
        · rw [(List.idxOf_inj hp).mp heq] at hplace
          omega
      · exact Or.inl (Ranking.rank_lt_of_listed hp hq)
    · have hplen : r.order.idxOf p = r.order.length := List.idxOf_eq_length hp
      have hqle : r.order.idxOf q ≤ r.order.length := List.idxOf_le_length
      have hq : q ∉ r.order := List.idxOf_eq_length_iff.mp (by omega)
      refine Or.inr ⟨?_, by omega⟩
      rw [Ranking.rank_unlisted hp, Ranking.rank_unlisted hq]

end Composition

/-- In a list that repeats no name the first mention is the last. -/
theorem Ranking.rank_eq_idxOf {r : Ranking} (hnodup : r.order.Nodup) (p : String) :
    r.rank p = r.order.idxOf p := by
  by_cases hp : p ∈ r.order
  · obtain ⟨hlt, hrank⟩ := List.getElem?_eq_some_iff.mp (lastAt_rank hp).1
    have hfirst := hnodup.idxOf_getElem (r.rank p) hlt
    rw [hrank] at hfirst
    exact hfirst.symm
  · rw [rank_unlisted hp, List.idxOf_eq_length hp]

/--
**A tally lists its protocols by first mention.**

Under an accepted priority list and a ceiling that the product does not exceed, a tally lists every composed protocol once:
those of the priority list where it first names them, then the others as they are declared. That is the order
of ranks exactly if the last mentions come in the order of the first ones, and so whenever the list repeats no
name.
-/
theorem dominance_listed_by_first_mention (c : Composition) (priority : List String) (ceiling : Nat)
    (r : Ranking) (hr : Ranking.ofPriority c priority = .ok r) (hceiling : c.productSize ≤ ceiling) :
    ∃ t, c.dominance priority ceiling = .ok t ∧
      t.counts.keys.Perm c.names ∧
      t.counts.keys = (priority ++ c.names).eraseDups ∧
      c.ListedBy (priority.idxOf ·) t.counts.keys ∧
      (c.ListedBy r.rank t.counts.keys ↔
        ∀ p ∈ priority, ∀ q ∈ priority, priority.idxOf p < priority.idxOf q → r.rank p < r.rank q) ∧
      (priority.Nodup → c.ListedBy r.rank t.counts.keys) := by
  obtain rfl : r.order = priority := Ranking.order_of_ofPriority_ok hr
  refine ⟨_, Composition.dominance_ok hr hceiling, ?_⟩
  rw [Composition.keys_foldl_dominant, Dominance.keys_blank]
  have hmem : ∀ p, p ∈ (r.order ++ c.names).eraseDups ↔ p ∈ c.names := by
    intro p
    rw [List.mem_eraseDups, List.mem_append]
    exact ⟨fun h => h.elim (Ranking.mem_names_of_ofPriority_ok hr) id, Or.inr⟩
  have hnodup : (r.order ++ c.names).eraseDups.Nodup := by
    rw [← Dominance.keys_blank]
    exact (Dominance.blank c r).counts.nodup
  have hlisted := c.listedBy_mention r.order
  refine ⟨(List.perm_ext_iff_of_nodup hnodup c.distinct).mpr hmem, rfl, hlisted, ?_, ?_⟩
  · refine Composition.listedBy_rank_iff ?_ hlisted
    intro p hp
    exact (hmem p).mpr (Ranking.mem_names_of_ofPriority_ok hr hp)
  · intro honce
    have hrank : r.rank = (r.order.idxOf ·) := funext fun p => Ranking.rank_eq_idxOf honce p
    rw [hrank]
    exact hlisted

-- a list may repeat a name and still come in order of ranks
theorem dominance_listed_by_first_mention_tied :
    Ranking.ofPriority tied ["Q", "Q", "P"] = .ok (.ofOrder ["Q", "Q", "P"]) ∧ tied.productSize ≤ 1 ∧
    ∃ t, tied.dominance ["Q", "Q", "P"] 1 = .ok t ∧ t.counts.keys = ["Q", "P"] ∧
      tied.ListedBy (Ranking.rank (.ofOrder ["Q", "Q", "P"])) t.counts.keys := by
  obtain ⟨t, ht, _, hkeys, _, hranked, _⟩ :=
    dominance_listed_by_first_mention tied ["Q", "Q", "P"] 1 (.ofOrder ["Q", "Q", "P"]) rfl (by decide)
  exact ⟨rfl, by decide, t, ht, hkeys, hranked.mpr (by decide)⟩

/-- **A name that is mentioned before and after another is listed too early**: its rank is that of the second
mention, its place in the tally that of the first. -/
theorem dominance_lists_repeated_too_early :
    Ranking.ofPriority tied ["P", "Q", "P"] = .ok (.ofOrder ["P", "Q", "P"]) ∧ tied.productSize ≤ 1000 ∧
    ∃ t, tied.dominance ["P", "Q", "P"] 1000 = .ok t ∧
      t.counts.entries = [("P", 0), ("Q", 1)] ∧
      Ranking.rank (.ofOrder ["P", "Q", "P"]) "Q" < Ranking.rank (.ofOrder ["P", "Q", "P"]) "P" ∧
      ¬ tied.ListedBy (Ranking.rank (.ofOrder ["P", "Q", "P"])) t.counts.keys := by
  refine ⟨rfl, by decide, ⟨⟨[("P", 0), ("Q", 1)], by decide⟩, 0, 1⟩, rfl, rfl, by decide, ?_⟩
  intro hranked
  have hfirst := (List.pairwise_cons.mp hranked).1 "Q" (by decide)
  exact absurd hfirst (by decide)

end Lockstep
