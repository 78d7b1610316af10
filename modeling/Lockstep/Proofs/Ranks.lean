import Lockstep.Proofs.MixedRadix
import Lockstep.Proofs.Reordering

/-!
# What a priority list makes of its names

A list is accepted if it names composed protocols only; otherwise every stranger in it is reported, as often
as it is there and in the same order. A name may come more than once in a list that is accepted. Its last place
is its rank then (`LastAt`), and since a place holds one name only, no two listed protocols share a rank.
Everybody else ranks alike, below all who are listed.

Of several decisions the one that counts is the first of lowest rank number or the first of highest: first in
the list of the decisions, whatever the names say. Ranking by declaration is ranking by the list of all names,
which repeats none, so that ranks are places (`Ranking.rank_byDeclaration`).
-/

namespace Lockstep

/-! ## The last place of a name -/

/-- The name stands at the place and nowhere after it. -/
def LastAt (names : List String) (name : String) (i : Nat) : Prop :=
  names[i]? = some name ∧ ∀ j, i < j → names[j]? ≠ some name

section LastPlace

variable {name : String} {names : List String} {i j : Nat}

theorem LastAt.mem (h : LastAt names name i) : name ∈ names := List.mem_of_getElem? h.1

theorem LastAt.lt_length (h : LastAt names name i) : i < names.length :=
  (List.getElem?_eq_some_iff.mp h.1).1

theorem LastAt.unique (hi : LastAt names name i) (hj : LastAt names name j) : i = j := by
  rcases Nat.lt_trichotomy i j with hlt | heq | hgt
  · exact absurd hj.1 (hi.2 j hlt)
  · exact heq
  · exact absurd hi.1 (hj.2 i hgt)

/-- What is added at the end takes the last place of its name, and leaves those of the others. -/
theorem lastAt_concat {s : String} :
    LastAt (names ++ [s]) name i ↔ if s = name then i = names.length else LastAt names name i := by
  have hend : (names ++ [s])[names.length]? = some s := List.getElem?_concat_length
  have hbefore : ∀ {j : Nat}, j < names.length → (names ++ [s])[j]? = names[j]? :=
    fun hj => List.getElem?_append_left hj
  have hpast : ∀ {j : Nat}, names.length < j → (names ++ [s])[j]? = none :=
    fun hj => List.getElem?_eq_none (by simpa using hj)
  by_cases hs : s = name
  · rw [if_pos hs]
    rw [hs] at hend hpast
    have hlast : LastAt (names ++ [name]) name names.length := by
      refine ⟨hend, ?_⟩
      intro j hj
      rw [hpast hj]
      simp
    rw [hs]
    exact ⟨fun h => h.unique hlast, fun h => h ▸ hlast⟩
  · rw [if_neg hs]
    constructor
    · rintro ⟨hat, hafter⟩
      have hi : i < names.length := by
        rcases Nat.lt_trichotomy i names.length with hlt | rfl | hgt
        · exact hlt
        · exact absurd (Option.some.inj (hend.symm.trans hat)) hs
        · exact absurd ((hpast hgt).symm.trans hat) (by simp)
      refine ⟨(hbefore hi).symm.trans hat, ?_⟩
      intro j hj hplace
      have hjlt : j < names.length := (List.getElem?_eq_some_iff.mp hplace).1
      exact hafter j hj ((hbefore hjlt).trans hplace)
    · intro h
      refine ⟨(hbefore h.lt_length).trans h.1, ?_⟩
      intro j hj hplace
      rcases Nat.lt_trichotomy j names.length with hlt | rfl | hgt
      · exact h.2 j hj ((hbefore hlt).symm.trans hplace)
      · exact hs (Option.some.inj (hend.symm.trans hplace))
      · exact absurd ((hpast hgt).symm.trans hplace) (by simp)

/-- **Places entered one after the other leave the last one of each name.** -/
theorem get?_ofList_zipIdx : ∀ {i : Nat},
    (OrderedMap.ofList names.zipIdx).get? name = some i ↔ LastAt names name i := by
  induction names using List.reverseRecOn with
  | nil =>
    intro i
    exact iff_of_false (by simp [OrderedMap.ofList]) fun h => absurd h.mem (by simp)
  | append_singleton names s ih =>
    intro i
    rw [List.zipIdx_append, List.zipIdx_singleton, Nat.zero_add, OrderedMap.ofList_concat,
      OrderedMap.get?_insert, lastAt_concat]
    by_cases hs : s = name
    · rw [if_pos hs, if_pos hs, Option.some.injEq]
      exact eq_comm
    · rw [if_neg hs, if_neg hs]
      exact ih

theorem exists_lastAt (h : name ∈ names) : ∃ i, LastAt names name i := by
  induction names using List.reverseRecOn with
  | nil => exact absurd h (by simp)
  | append_singleton names s ih =>
    by_cases hs : s = name
    · exact ⟨names.length, lastAt_concat.mpr (by rw [if_pos hs])⟩
    · have hmem : name ∈ names := by
        rcases List.mem_append.mp h with hmem | hend
        · exact hmem
        · exact absurd (List.mem_singleton.mp hend).symm hs
      obtain ⟨i, hi⟩ := ih hmem
      exact ⟨i, lastAt_concat.mpr (by rw [if_neg hs]; exact hi)⟩

end LastPlace

/-! ## Ranks -/

namespace Ranking

variable {r : Ranking} {p q : String}

theorem get?_ranks {i : Nat} : r.ranks.get? p = some i ↔ LastAt r.order p i := by
  rw [r.ranks_eq]
  exact get?_ofList_zipIdx

/-- A listed protocol ranks by its last place. -/
theorem lastAt_rank (hp : p ∈ r.order) : LastAt r.order p (r.rank p) := by
  obtain ⟨i, hi⟩ := exists_lastAt hp
  rw [rank, get?_ranks.mpr hi, Option.getD_some]
  exact hi

theorem rank_eq_of_lastAt {i : Nat} (h : LastAt r.order p i) : r.rank p = i :=
  (lastAt_rank h.mem).unique h

/-- Who is not listed ranks by the length of the list. -/
theorem rank_unlisted (hp : p ∉ r.order) : r.rank p = r.order.length := by
  have hnone : r.ranks.get? p = none := by
    rw [Option.eq_none_iff_forall_ne_some]
    intro i hi
    exact hp (get?_ranks.mp hi).mem
  rw [rank, hnone, Option.getD_none]

theorem rank_lt_of_listed (hp : p ∈ r.order) (hq : q ∉ r.order) : r.rank p < r.rank q := by
  rw [rank_unlisted hq]
  exact (lastAt_rank hp).lt_length

/-- **The rank of a listed protocol is its own.** -/
theorem eq_of_rank_eq (hp : p ∈ r.order) (h : r.rank q = r.rank p) : q = p := by
  by_cases hq : q ∈ r.order
  · have hplace := (lastAt_rank hq).1
    rw [h, (lastAt_rank hp).1] at hplace
    exact (Option.some.inj hplace).symm
  · have hlt := rank_lt_of_listed hp hq
    omega

/-! ## Accepted and refused lists -/

variable {c : Composition} {priority : List String}

theorem ofPriority_of_stranger (h : ∃ name ∈ priority, name ∉ c.names) :
    ofPriority c priority =
      .error (.unknownPriorityProtocol (priority.filter (· ∉ c.names)) c.names) := by
  obtain ⟨name, hmem, hnew⟩ := h
  have hne : (priority.filter (· ∉ c.names)).isEmpty = false := by
    rw [List.isEmpty_eq_false_iff_exists_mem]
    exact ⟨name, List.mem_filter.mpr ⟨hmem, by simpa using hnew⟩⟩
  unfold ofPriority
  dsimp only
  rw [hne]
  rfl

theorem order_of_ofPriority_ok (h : ofPriority c priority = .ok r) : r.order = priority := by
  rcases ofPriority_cases c priority with ⟨_, hok⟩ | ⟨_, e, herror⟩
  · rw [hok] at h
    rw [← Except.ok.inj h]
    rfl
  · rw [herror] at h
    exact absurd h (by simp)

/-- A list that is accepted names composed protocols only. -/
theorem mem_names_of_ofPriority_ok {name : String} (h : ofPriority c priority = .ok r)
    (hname : name ∈ r.order) : name ∈ c.names := by
  rw [order_of_ofPriority_ok h] at hname
  rcases ofPriority_cases c priority with ⟨hknown, _⟩ | ⟨_, e, herror⟩
  · exact hknown name hname
  · rw [herror] at h
    exact absurd h (by simp)

/-- The strangers of a list are in it as often as they are reported, and nobody else is. -/
theorem count_strangers (name : String) :
    (priority.filter (· ∉ c.names)).count name =
      if name ∈ c.names then 0 else priority.count name := by
  by_cases hname : name ∈ c.names
  · rw [if_pos hname, List.count_eq_zero]
    intro hmem
    have hnew := (List.mem_filter.mp hmem).2
    exact absurd hname (by simpa using hnew)
  · rw [if_neg hname]
    exact List.count_filter (by simpa using hname)

/-- Ranking by declaration is ranking by the list of all names. -/
theorem ofPriority_names (c : Composition) : ofPriority c c.names = .ok (byDeclaration c) := by
  rcases ofPriority_cases c c.names with ⟨_, hok⟩ | ⟨⟨name, hmem, hnew⟩, _⟩
  · exact hok
  · exact absurd hmem hnew

/-- By declaration everyone ranks by their place. -/
theorem rank_byDeclaration {i : Nat} (h : c.names[i]? = some p) : (byDeclaration c).rank p = i := by
  refine rank_eq_of_lastAt ⟨h, ?_⟩
  intro j hij heq
  obtain ⟨hi, hpi⟩ := List.getElem?_eq_some_iff.mp h
  obtain ⟨hj, hpj⟩ := List.getElem?_eq_some_iff.mp heq
  have hsame : i = j := (List.Nodup.getElem_inj_iff c.distinct).mp (hpi.trans hpj.symm)
  omega

theorem map_rank_byDeclaration (c : Composition) :
    c.names.map (byDeclaration c).rank = List.range c.names.length := by
  refine List.ext_getElem (by simp) ?_
  intro i hi _
  rw [List.length_map] at hi
  rw [List.getElem_map, List.getElem_range, rank_byDeclaration (List.getElem?_eq_getElem hi)]

/-! ## The decision that counts -/

/-- The highest-ranking decision is the first one of its rank, and nothing before or after it ranks
higher. -/
theorem highest_split {decisions : List Decision} {d : Decision} (h : r.highest decisions = some d) :
    ∃ before after, decisions = before ++ d :: after ∧
      (∀ x ∈ before, r.rank d.protocol < r.rank x.protocol) ∧
      ∀ x ∈ after, r.rank d.protocol ≤ r.rank x.protocol := by
  rw [highest_eq_find?, List.find?_eq_some_iff_append] at h
  obtain ⟨hleast, before, after, rfl, hbefore⟩ := h
  have hle : ∀ x ∈ before ++ d :: after, r.rank d.protocol ≤ r.rank x.protocol := fun x hx =>
    of_decide_eq_true (List.all_eq_true.mp hleast x hx)
  refine ⟨before, after, rfl, ?_, ?_⟩
  · intro x hx
    -- something ranks above `x`, and nothing ranks above `d`
    have hnot := hbefore x hx
    rw [Bool.not_eq_true', List.all_eq_false] at hnot
    obtain ⟨y, hy, hlt⟩ := hnot
    have hyx : r.rank y.protocol < r.rank x.protocol := by simpa using hlt
    exact Nat.lt_of_le_of_lt (hle y hy) hyx
  · intro x hx
    exact hle x (List.mem_append_right _ (List.mem_cons_of_mem d hx))

theorem highest_eq_some_iff {decisions : List Decision} {d : Decision} :
    r.highest decisions = some d ↔
      d ∈ decisions ∧ (∀ x ∈ decisions, r.rank d.protocol ≤ r.rank x.protocol) ∧
        ∀ x ∈ decisions, r.rank x.protocol ≤ r.rank d.protocol →
          decisions.idxOf d ≤ decisions.idxOf x := by
  rw [highest_eq_argmin, List.argmin_eq_some_iff]

theorem lowest_eq_some_iff {decisions : List Decision} {d : Decision} :
    r.lowest decisions = some d ↔
      d ∈ decisions ∧ (∀ x ∈ decisions, r.rank x.protocol ≤ r.rank d.protocol) ∧
        ∀ x ∈ decisions, r.rank d.protocol ≤ r.rank x.protocol →
          decisions.idxOf d ≤ decisions.idxOf x := by
  rw [lowest_eq_argmax, List.argmax_eq_some_iff]

/--
**The laws of ranking.**

A priority list is refused exactly if it names a stranger, and then all strangers are reported, in the order of
the list and as often as they are in it. Under a list that is accepted everyone who is listed ranks by their
last place, everyone else by the length of the list and so below, and ranks are shared among the unlisted only.
Under any ranking the highest decision is the earliest of those of lowest rank number, and the lowest decision
the earliest of those of highest rank number. Ranking by declaration is ranking by all names, and gives everyone
a rank of their own.
-/
theorem ranking_laws (c : Composition) (priority : List String) :
    ((∃ e, ofPriority c priority = .error e) ↔ ∃ name ∈ priority, name ∉ c.names) ∧
    (∀ e, ofPriority c priority = .error e →
      ∃ strangers, e = .unknownPriorityProtocol strangers c.names ∧ strangers.Sublist priority ∧
        ∀ name, strangers.count name = if name ∈ c.names then 0 else priority.count name) ∧
    (∀ r, ofPriority c priority = .ok r → r.order = priority ∧
      (∀ p ∈ priority, LastAt priority p (r.rank p)) ∧
      (∀ q, q ∉ priority → r.rank q = priority.length ∧ ∀ p ∈ priority, r.rank p < r.rank q) ∧
      ∀ p q, p ≠ q → r.rank p = r.rank q → p ∉ priority ∧ q ∉ priority) ∧
    (∀ (r : Ranking) (decisions : List Decision),
      (r.highest decisions = none ↔ decisions = []) ∧
      (∀ d, r.highest decisions = some d ↔
        d ∈ decisions ∧ (∀ x ∈ decisions, r.rank d.protocol ≤ r.rank x.protocol) ∧
          ∀ x ∈ decisions, r.rank x.protocol ≤ r.rank d.protocol →
            decisions.idxOf d ≤ decisions.idxOf x) ∧
      (r.lowest decisions = none ↔ decisions = []) ∧
      ∀ d, r.lowest decisions = some d ↔
        d ∈ decisions ∧ (∀ x ∈ decisions, r.rank x.protocol ≤ r.rank d.protocol) ∧
          ∀ x ∈ decisions, r.rank d.protocol ≤ r.rank x.protocol →
            decisions.idxOf d ≤ decisions.idxOf x) ∧
    ofPriority c c.names = .ok (byDeclaration c) ∧
    (c.names.map (byDeclaration c).rank).Nodup := by
  refine ⟨?_, ?_, ?_, ?_, ofPriority_names c, ?_⟩
  · rcases ofPriority_cases c priority with ⟨hknown, hok⟩ | ⟨hstranger, herror⟩
    · refine iff_of_false ?_ ?_
      · intro h
        obtain ⟨e, he⟩ := h
        exact absurd (hok.symm.trans he) (by simp)
      · intro h
        obtain ⟨name, hmem, hnew⟩ := h
        exact hnew (hknown name hmem)
    · exact iff_of_true herror hstranger
  · intro e he
    rcases ofPriority_cases c priority with ⟨_, hok⟩ | ⟨hstranger, _⟩
    · exact absurd (hok.symm.trans he) (by simp)
    · rw [ofPriority_of_stranger hstranger] at he
      exact ⟨_, (Except.error.inj he).symm, List.filter_sublist, count_strangers⟩
  · intro r hr
    obtain rfl : r.order = priority := order_of_ofPriority_ok hr
    refine ⟨rfl, fun p hp => lastAt_rank hp,
      fun q hq => ⟨rank_unlisted hq, fun p hp => rank_lt_of_listed hp hq⟩, ?_⟩
    intro p q hne hrank
    constructor
    · intro hp
      exact hne (eq_of_rank_eq hp hrank.symm).symm
    · intro hq
      exact hne (eq_of_rank_eq hq hrank)
  · intro r decisions
    exact ⟨highest_eq_none_iff, fun _ => highest_eq_some_iff, lowest_eq_none_iff,
      fun _ => lowest_eq_some_iff⟩
  · rw [map_rank_byDeclaration]
    exact List.nodup_range

-- the quota's first place does not count; who is not composed is reported each time
theorem ranking_laws_metered :
    (∃ r, ofPriority metered ["quota", "gate", "quota"] = .ok r ∧
      r.rank "quota" = 2 ∧ r.rank "gate" = 1 ∧ r.rank "fuse" = 3) ∧
    ∃ strangers, ofPriority metered ["fuse", "gate", "fuse"] =
        .error (.unknownPriorityProtocol strangers ["gate", "quota"]) ∧
      strangers.Sublist ["fuse", "gate", "fuse"] ∧ strangers.count "fuse" = 2 ∧
      strangers.count "gate" = 0 := by
  obtain ⟨_, _, haccepted, _⟩ := ranking_laws metered ["quota", "gate", "quota"]
  obtain ⟨_, hlast, hunlisted, _⟩ := haccepted (.ofOrder ["quota", "gate", "quota"]) rfl
  have hquota : LastAt ["quota", "gate", "quota"] "quota" 2 := by
    refine ⟨rfl, ?_⟩
    intro j hj
    rw [List.getElem?_eq_none hj]
    simp
  have hgate : LastAt ["quota", "gate", "quota"] "gate" 1 := by
    refine ⟨rfl, ?_⟩
    intro j hj
    rcases Nat.lt_or_ge j 3 with hlt | hge
    · obtain rfl : j = 2 := by omega
      simp
    · rw [List.getElem?_eq_none hge]
      simp
  obtain ⟨_, hrefused, _⟩ := ranking_laws metered ["fuse", "gate", "fuse"]
  obtain ⟨strangers, he, hsub, hcount⟩ := hrefused _ rfl
  refine ⟨⟨_, rfl, (hlast "quota" (by simp)).unique hquota, (hlast "gate" (by simp)).unique hgate,
    (hunlisted "fuse" (by simp)).1⟩, strangers, congrArg Except.error he, hsub, ?_, ?_⟩
  · rw [hcount]
    rfl
  · rw [hcount]
    rfl

end Ranking

end Lockstep
