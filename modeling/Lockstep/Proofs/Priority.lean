import Lockstep.Proofs.Building
import Lockstep.Proofs.Product
import Mathlib.Data.List.Find
import Mathlib.Data.List.MinMax

/-!
# Priority ordering without the product

The check looks at every joint state for an action that is denied although one protocol that permits it
outranks all who deny it. Joint states are put together freely from states of the protocols, and that
makes the product superfluous: whether there is such a joint state can be said protocol by protocol
(`Verifier.verifyPriority_holds_iff`).

Only the protocols at the top matter, those of lowest rank number. There can be several, since all that
a priority list leaves out rank alike. If one of them denies an action wherever it is, nobody outranks
that denial; if everyone below the top permits the action wherever they are, only the top ever denies
it. If neither is so, put everyone at the top where they permit and one protocol below where it denies:
there the denial is outranked.

What the check takes for a fault in a single decision, and whom it blames, is said first, for the decisions of
any rule (`Verifier.priorityFault_finds`).
-/

namespace Lockstep

/-! ## First of least, first of greatest -/

section Extremes

variable {α β : Type} [LinearOrder β]

/-- The least element that comes first is the first element that is least. -/
theorem argmin_eq_find? (f : α → β) (l : List α) :
    l.argmin f = l.find? fun x => l.all fun y => f x ≤ f y := by
  induction l with
  | nil => rfl
  | cons a l ih =>
    rw [List.argmin_cons]
    cases hmin : l.argmin f with
    | none =>
      rw [List.argmin_eq_none.mp hmin]
      simp
    | some m =>
      have hm : m ∈ l := List.argmin_mem hmin
      have hle : ∀ y ∈ l, f m ≤ f y := fun y hy => List.le_of_mem_argmin hy hmin
      by_cases hlt : f m < f a
      · -- `a` is not least, and what is least in the rest is below `a`
        have hfirst : ((a :: l).all fun y => f a ≤ f y) = false := by
          rw [List.all_eq_false]
          exact ⟨m, List.mem_cons_of_mem a hm, by simpa using hlt⟩
        have hrest : ∀ x ∈ l, ((a :: l).all fun y => f x ≤ f y) = l.all fun y => f x ≤ f y := by
          intro x _
          rw [List.all_cons, Bool.and_eq_right_iff_imp, List.all_eq_true]
          intro hall
          have hxm : f x ≤ f m := by simpa using hall m hm
          simpa using le_of_lt (lt_of_le_of_lt hxm hlt)
        rw [List.find?_cons, hfirst]
        dsimp only
        rw [List.find?_congr hrest, ← ih, hmin]
        exact if_pos hlt
      · have hfirst : ((a :: l).all fun y => f a ≤ f y) = true := by
          rw [List.all_cons, Bool.and_eq_true, List.all_eq_true]
          refine ⟨by simp, ?_⟩
          intro y hy
          simpa using le_trans (le_of_not_gt hlt) (hle y hy)
        rw [List.find?_cons, hfirst]
        exact if_neg hlt

/-- The greatest element that comes first is the first element that is greatest. -/
theorem argmax_eq_find? (f : α → β) (l : List α) :
    l.argmax f = l.find? fun x => l.all fun y => f y ≤ f x :=
  argmin_eq_find? (β := βᵒᵈ) f l

end Extremes

/-! ## Ranks -/

namespace Ranking

variable {r : Ranking} {protocols : List Protocol} {p q : Protocol}

/-- The highest-ranking decision is the first of least rank number. -/
theorem highest_eq_argmin (r : Ranking) (decisions : List Decision) :
    r.highest decisions = decisions.argmin fun d => r.rank d.protocol := by
  unfold highest List.argmin
  congr 1
  funext best d
  cases best <;> rfl

/-- The lowest-ranking decision is the first of greatest rank number. -/
theorem lowest_eq_argmax (r : Ranking) (decisions : List Decision) :
    r.lowest decisions = decisions.argmax fun d => r.rank d.protocol := by
  unfold lowest List.argmax
  congr 1
  funext worst d
  cases worst <;> rfl

theorem highest_eq_find? (r : Ranking) (decisions : List Decision) :
    r.highest decisions =
      decisions.find? fun d => decisions.all fun x => r.rank d.protocol ≤ r.rank x.protocol := by
  rw [highest_eq_argmin, argmin_eq_find?]

theorem lowest_eq_find? (r : Ranking) (decisions : List Decision) :
    r.lowest decisions =
      decisions.find? fun d => decisions.all fun x => r.rank x.protocol ≤ r.rank d.protocol := by
  rw [lowest_eq_argmax, argmax_eq_find?]

theorem highest_eq_none_iff {decisions : List Decision} :
    r.highest decisions = none ↔ decisions = [] := by
  rw [highest_eq_argmin, List.argmin_eq_none]

theorem lowest_eq_none_iff {decisions : List Decision} :
    r.lowest decisions = none ↔ decisions = [] := by
  rw [lowest_eq_argmax, List.argmax_eq_none]

theorem exists_highest (r : Ranking) {decisions : List Decision} (hne : decisions ≠ []) :
    ∃ d, r.highest decisions = some d :=
  Option.ne_none_iff_exists'.mp fun h => hne (highest_eq_none_iff.mp h)

theorem mem_of_highest {decisions : List Decision} {d : Decision}
    (h : r.highest decisions = some d) : d ∈ decisions := by
  rw [highest_eq_argmin] at h
  exact List.argmin_mem h

theorem rank_le_of_highest {decisions : List Decision} {d x : Decision}
    (h : r.highest decisions = some d) (hx : x ∈ decisions) :
    r.rank d.protocol ≤ r.rank x.protocol := by
  rw [highest_eq_argmin] at h
  exact List.le_of_mem_argmin (f := fun y : Decision => r.rank y.protocol) hx h

/-- The lowest rank number among the protocols that decided. -/
def leastRank? (r : Ranking) (decisions : List Decision) : Option Nat :=
  (decisions.map fun d => r.rank d.protocol).min?

theorem leastRank?_eq_highest (r : Ranking) (decisions : List Decision) :
    r.leastRank? decisions = (r.highest decisions).map fun d => r.rank d.protocol := by
  cases h : r.highest decisions with
  | none =>
    rw [highest_eq_none_iff.mp h]
    rfl
  | some d =>
    rw [leastRank?, Option.map_some, List.min?_eq_some_iff]
    refine ⟨List.mem_map_of_mem (mem_of_highest h), ?_⟩
    intro n hn
    obtain ⟨x, hx, rfl⟩ := List.mem_map.mp hn
    exact rank_le_of_highest h hx

/-- No protocol of the list has more authority. -/
def IsTop (r : Ranking) (protocols : List Protocol) (p : Protocol) : Prop :=
  ∀ q ∈ protocols, r.rank p.name ≤ r.rank q.name

theorem exists_isTop (r : Ranking) (hne : protocols ≠ []) :
    ∃ p ∈ protocols, r.IsTop protocols p := by
  cases hmin : protocols.argmin fun p => r.rank p.name with
  | none => exact absurd (List.argmin_eq_none.mp hmin) hne
  | some p =>
    refine ⟨p, List.argmin_mem hmin, ?_⟩
    intro q hq
    exact List.le_of_mem_argmin (f := fun x : Protocol => r.rank x.name) hq hmin

/-- Whoever is at the top outranks whoever is not. -/
theorem IsTop.rank_lt (hp : r.IsTop protocols p) (hq : ¬ r.IsTop protocols q) :
    r.rank p.name < r.rank q.name := by
  by_contra hle
  exact hq fun x hx => Nat.le_trans (Nat.le_of_not_lt hle) (hp x hx)

end Ranking

/-! ## Denials that are outranked -/

namespace JointDecision

theorem mem_permitting {j : JointDecision} {d : Decision} :
    d ∈ j.permitting ↔ d ∈ j.individual ∧ d.permitted = true :=
  List.mem_filter

theorem mem_denying {j : JointDecision} {d : Decision} :
    d ∈ j.denying ↔ d ∈ j.individual ∧ d.permitted = false := by
  rw [denying, List.mem_filter, Decision.isDenied, Bool.not_eq_true']

/-- Someone denies, and one protocol that permits outranks all who do. -/
def Outranked (r : Ranking) (d : JointDecision) : Prop :=
  d.denying ≠ [] ∧
    ∃ x ∈ d.permitting, ∀ y ∈ d.denying, r.rank x.protocol < r.rank y.protocol

/-- A protocol denies the action, and still it passes, or someone permits it who ranks above all who deny
it. -/
def Misranked (r : Ranking) (d : JointDecision) : Prop :=
  d.denying ≠ [] ∧
    (d.globallyPermitted = true ∨
      ∃ denier permitter, r.leastRank? d.denying = some denier ∧
        r.leastRank? d.permitting = some permitter ∧ permitter < denier)

/-- Who is blamed for a decision against the ranking: the first of the highest-ranking deniers if the action
passes, and the first of the lowest-ranking ones otherwise. -/
def culprit (r : Ranking) (d : JointDecision) : Option Decision :=
  if d.globallyPermitted then
    d.denying.find? fun x => d.denying.all fun y => r.rank x.protocol ≤ r.rank y.protocol
  else d.denying.find? fun x => d.denying.all fun y => r.rank y.protocol ≤ r.rank x.protocol

theorem culprit_eq (r : Ranking) (d : JointDecision) :
    d.culprit r = if d.globallyPermitted then r.highest d.denying else r.lowest d.denying := by
  rw [culprit, Ranking.highest_eq_find?, Ranking.lowest_eq_find?]

/-- Where one denial is enough to block, nothing but a higher rank speaks against a denial. -/
theorem misranked_iff_outranked {r : Ranking} {d : JointDecision}
    (hblock : d.globallyPermitted = true → d.denying = []) : d.Misranked r ↔ d.Outranked r := by
  unfold Misranked Outranked
  refine and_congr_right fun hne => ?_
  rw [or_iff_right fun hpass => hne (hblock hpass), r.leastRank?_eq_highest, r.leastRank?_eq_highest]
  constructor
  · rintro ⟨m, n, hm, hn, hlt⟩
    obtain ⟨denier, hdenier, rfl⟩ := Option.map_eq_some_iff.mp hm
    obtain ⟨permitter, hpermitter, rfl⟩ := Option.map_eq_some_iff.mp hn
    refine ⟨permitter, Ranking.mem_of_highest hpermitter, ?_⟩
    intro y hy
    exact Nat.lt_of_lt_of_le hlt (Ranking.rank_le_of_highest hdenier hy)
  · rintro ⟨x, hx, hlt⟩
    obtain ⟨denier, hdenier⟩ := Ranking.exists_highest r hne
    obtain ⟨permitter, hpermitter⟩ := Ranking.exists_highest r (List.ne_nil_of_mem hx)
    refine ⟨_, _, by rw [hdenier]; rfl, by rw [hpermitter]; rfl, ?_⟩
    exact Nat.lt_of_le_of_lt (Ranking.rank_le_of_highest hpermitter hx)
      (hlt denier (Ranking.mem_of_highest hdenier))

theorem denying_eq_nil_of_conjunction {action : String} {decisions : List Decision}
    (h : (conjunction action decisions).globallyPermitted = true) :
    (conjunction action decisions).denying = [] := by
  simpa [conjunction, denying] using h

end JointDecision

namespace Verifier

variable {v : Verifier} {c : Composition} {r : Ranking}

/-- A fault is found in the wrong decisions and in no others, and its protocol is the one to blame. -/
def Finds (fault : JointDecision → Option String) (Wrong : JointDecision → Prop)
    (blamed : JointDecision → Option Decision) : Prop :=
  ∀ d, (Wrong d ∧ ∃ x, blamed d = some x ∧ fault d = some x.protocol) ∨ ¬ Wrong d ∧ fault d = none

theorem Finds.not_wrong_iff {fault : JointDecision → Option String} {Wrong : JointDecision → Prop}
    {blamed : JointDecision → Option Decision} (h : Finds fault Wrong blamed) (d : JointDecision) :
    ¬ Wrong d ↔ fault d = none := by
  rcases h d with ⟨hwrong, x, _, hx⟩ | ⟨hwrong, hnone⟩
  · rw [hx]
    exact iff_of_false (not_not_intro hwrong) (by simp)
  · exact iff_of_true hwrong hnone

/-- **Decisions against a ranking are found**, and blamed on the right protocol. -/
theorem priorityFault_finds (r : Ranking) :
    Finds (priorityFault r) (JointDecision.Misranked r) (JointDecision.culprit r) := by
  intro d
  unfold priorityFault JointDecision.Misranked
  rw [JointDecision.culprit_eq, r.leastRank?_eq_highest, r.leastRank?_eq_highest]
  cases hdenier : r.highest d.denying with
  | none =>
    have hnil : d.denying = [] := Ranking.highest_eq_none_iff.mp hdenier
    exact Or.inr ⟨fun h => h.1 hnil, rfl⟩
  | some denier =>
    have hne : d.denying ≠ [] := List.ne_nil_of_mem (Ranking.mem_of_highest hdenier)
    obtain ⟨x, hx⟩ : ∃ x, r.lowest d.denying = some x :=
      Option.ne_none_iff_exists'.mp fun h => hne (Ranking.lowest_eq_none_iff.mp h)
    dsimp only
    by_cases hpass : d.globallyPermitted = true
    · rw [if_pos hpass, if_pos hpass]
      exact Or.inl ⟨⟨hne, Or.inl hpass⟩, denier, rfl, rfl⟩
    · rw [if_neg hpass, if_neg hpass]
      cases hpermitter : r.highest d.permitting with
      | none =>
        refine Or.inr ⟨?_, rfl⟩
        rintro ⟨_, h | ⟨_, _, _, h, _⟩⟩
        · exact hpass h
        · exact absurd h (by simp)
      | some permitter =>
        dsimp only
        by_cases hlt : r.rank permitter.protocol < r.rank denier.protocol
        · rw [if_pos hlt, hx]
          exact Or.inl ⟨⟨hne, Or.inr ⟨_, _, rfl, rfl, hlt⟩⟩, x, rfl, rfl⟩
        · rw [if_neg hlt]
          refine Or.inr ⟨?_, rfl⟩
          rintro ⟨_, h | ⟨m, n, hm, hn, hmn⟩⟩
          · exact hpass h
          · rw [← Option.some.inj hm, ← Option.some.inj hn] at hmn
            exact hlt hmn

/-- **A rule that lets one denial block is at fault exactly where the denials are outranked.** -/
theorem priorityFault_eq_none_iff {d : JointDecision}
    (hblock : d.globallyPermitted = true → d.denying = []) :
    priorityFault r d = none ↔ ¬ d.Outranked r := by
  rw [← (priorityFault_finds r).not_wrong_iff, JointDecision.misranked_iff_outranked hblock]

end Verifier

namespace Composition

variable {c : Composition} {r : Ranking} {joint : JointState} {action : String} {p q : Protocol}
  {id : Nat}

/-- Who denies where denials are outranked is not at the top. -/
theorem not_isTop_of_outranked (h : (c.composeAt joint action).Outranked r)
    (hq : (q, id) ∈ c.protocols.zip joint) (hdenied : (q.decideAt id action).permitted = false) :
    ¬ r.IsTop c.protocols q := by
  obtain ⟨_, x, hx, hlt⟩ := h
  obtain ⟨p, jd, hp, rfl⟩ := mem_individual.mp (JointDecision.mem_permitting.mp hx).1
  intro htop
  have hle := htop p (List.of_mem_zip hp).1
  have hlt := hlt _ (JointDecision.mem_denying.mpr ⟨mem_individual.mpr ⟨q, id, hq, rfl⟩, hdenied⟩)
  rw [Protocol.decideAt_protocol, Protocol.decideAt_protocol] at hlt
  exact Nat.not_lt.mpr hle hlt

/-- Denials are outranked where everyone at the top permits and someone denies. -/
theorem outranked_of_top_permits (hfits : c.Fits joint)
    (htop : ∀ p id, (p, id) ∈ c.protocols.zip joint → r.IsTop c.protocols p →
      (p.decideAt id action).permitted = true)
    (hq : (q, id) ∈ c.protocols.zip joint) (hdenied : (q.decideAt id action).permitted = false) :
    (c.composeAt joint action).Outranked r := by
  obtain ⟨p, hp, hptop⟩ := r.exists_isTop c.nonempty
  obtain ⟨jd, hp⟩ := hfits.exists_position hp
  refine ⟨?_, p.decideAt jd action, ?_, ?_⟩
  · exact List.ne_nil_of_mem
      (JointDecision.mem_denying.mpr ⟨mem_individual.mpr ⟨q, id, hq, rfl⟩, hdenied⟩)
  · exact JointDecision.mem_permitting.mpr
      ⟨mem_individual.mpr ⟨p, jd, hp, rfl⟩, htop p jd hp hptop⟩
  · intro y hy
    obtain ⟨hy, hyd⟩ := JointDecision.mem_denying.mp hy
    obtain ⟨x, xd, hx, rfl⟩ := mem_individual.mp hy
    rw [Protocol.decideAt_protocol, Protocol.decideAt_protocol]
    refine hptop.rank_lt fun hxtop => ?_
    exact absurd ((htop x xd hx hxtop).symm.trans hyd) (by simp)

/-- **Denials of an action are outranked somewhere** exactly if everyone at the top permits it somewhere
and someone below denies it somewhere. -/
theorem exists_outranked_iff :
    (∃ joint, c.Fits joint ∧ (c.composeAt joint action).Outranked r) ↔
      (∀ p ∈ c.protocols, r.IsTop c.protocols p →
        ∃ id < p.stateCount, (p.decideAt id action).permitted = true) ∧
      ∃ q ∈ c.protocols, ¬ r.IsTop c.protocols q ∧
        ∃ id < q.stateCount, (q.decideAt id action).permitted = false := by
  constructor
  · rintro ⟨joint, hfits, hout⟩
    constructor
    · intro p hp htop
      obtain ⟨id, hp⟩ := hfits.exists_position hp
      refine ⟨id, hfits.lt_stateCount hp, ?_⟩
      by_contra hdenied
      exact not_isTop_of_outranked hout hp (Bool.eq_false_of_not_eq_true hdenied) htop
    · obtain ⟨y, hy⟩ := List.exists_mem_of_ne_nil _ hout.1
      obtain ⟨hy, hdenied⟩ := JointDecision.mem_denying.mp hy
      obtain ⟨q, id, hq, rfl⟩ := mem_individual.mp hy
      exact ⟨q, (List.of_mem_zip hq).1, not_isTop_of_outranked hout hq hdenied, id,
        hfits.lt_stateCount hq, hdenied⟩
  · rintro ⟨hpermit, q, hq, hqtop, hdeny⟩
    -- everyone at the top where they permit, `q` where it denies, and the others anywhere
    have hchoice : ∀ p ∈ c.protocols, ∃ id < p.stateCount,
        (r.IsTop c.protocols p → (p.decideAt id action).permitted = true) ∧
        (p = q → (p.decideAt id action).permitted = false) := by
      intro p hp
      by_cases htop : r.IsTop c.protocols p
      · obtain ⟨id, hid, hpermitted⟩ := hpermit p hp htop
        exact ⟨id, hid, fun _ => hpermitted, fun hpq => absurd (hpq ▸ htop) hqtop⟩
      · by_cases hpq : p = q
        · obtain ⟨id, hid, hdenied⟩ := hdeny
          subst hpq
          exact ⟨id, hid, fun h => absurd h htop, fun _ => hdenied⟩
        · exact ⟨0, p.stateCount_pos, fun h => absurd h htop, fun h => absurd h hpq⟩
    obtain ⟨joint, hfits, hjoint⟩ := exists_fits hchoice
    obtain ⟨id, hq⟩ := hfits.exists_position hq
    exact ⟨joint, hfits, outranked_of_top_permits hfits (fun p jd hp => (hjoint p jd hp).1) hq
      ((hjoint q id hq).2 rfl)⟩

end Composition

/-! ## The check -/

namespace Verifier

variable {v : Verifier} {c : Composition} {r : Ranking}

theorem checkPriority_holds_iff
    (hbound : (c.protocols.map Protocol.stateCount).prod ≤ v.maxStates) :
    (v.checkPriority c c.composeAt r).holds = true ↔
      ∀ action ∈ c.alphabet,
        ¬ ∃ joint, c.Fits joint ∧ (c.composeAt joint action).Outranked r := by
  rw [checkPriority, checkProduct_holds_iff_of_product_le hbound]
  have hfault : ∀ joint action, priorityFault r (c.composeAt joint action) = none ↔
      ¬ (c.composeAt joint action).Outranked r := fun _ _ =>
    priorityFault_eq_none_iff JointDecision.denying_eq_nil_of_conjunction
  simp only [hfault]
  constructor
  · rintro h action ha ⟨joint, hfits, hout⟩
    exact h joint hfits action ha hout
  · intro h joint hfits action ha hout
    exact h action ha ⟨joint, hfits, hout⟩

theorem verifyPriority_ok {protocols : List Protocol} {priority : List String}
    (hc : compose protocols = .ok c) (hr : Ranking.ofPriority c priority = .ok r) :
    (v.verifyPriority protocols priority).outcome = .ok (v.checkPriority c c.composeAt r) := by
  unfold verifyPriority
  rw [Traced.outcome_bind (composeFor_eq_ok hc _), Traced.outcome_bind hr]
  rfl

/--
**Priority ordering holds protocol by protocol**, with no look at the product.

The check passes exactly if every action of the alphabet is denied by someone at the top in all of its
states, or permitted by everyone below the top in all of theirs.
-/
theorem verifyPriority_holds_iff (v : Verifier) (protocols : List Protocol)
    (priority : List String) (hne : protocols ≠ []) (hd : (protocols.map Protocol.name).Nodup) :
    ∃ c, compose protocols = .ok c ∧
      ∀ r, Ranking.ofPriority c priority = .ok r →
        (protocols.map Protocol.stateCount).prod ≤ v.maxStates →
        ∃ verdict, (v.verifyPriority protocols priority).outcome = .ok verdict ∧
          (verdict.holds = true ↔ ∀ action ∈ c.alphabet,
            (∃ p ∈ protocols, r.IsTop protocols p ∧
              ∀ id < p.stateCount, (p.decideAt id action).permitted = false) ∨
            (∀ p ∈ protocols, ¬ r.IsTop protocols p →
              ∀ id < p.stateCount, (p.decideAt id action).permitted = true)) := by
  obtain ⟨c, hc, rfl⟩ := exists_compose_ok hne hd
  refine ⟨c, hc, ?_⟩
  intro r hr hbound
  refine ⟨_, verifyPriority_ok hc hr, ?_⟩
  rw [checkPriority_holds_iff hbound]
  refine forall₂_congr fun action _ => ?_
  rw [Composition.exists_outranked_iff, not_and_or]
  push Not
  simp only [ne_eq, Bool.not_eq_true, Bool.not_eq_false]

theorem verifyPriority_standard :
    ∃ c : Composition, c.protocols.map Protocol.definition = Catalog.standard ∧
      c.protocols ≠ [] ∧ (c.protocols.map Protocol.name).Nodup ∧
      ∃ r, Ranking.ofPriority c ["ASP", "ATP", "ASP"] = .ok r ∧
        (c.protocols.map Protocol.stateCount).prod ≤ 27 ∧
        ∃ verdict, (Verifier.verifyPriority ⟨27, by decide⟩ c.protocols
            ["ASP", "ATP", "ASP"]).outcome = .ok verdict ∧
          (verdict.holds = true ↔ ∀ action ∈ c.alphabet,
            (∃ p ∈ c.protocols, r.IsTop c.protocols p ∧
              ∀ id < p.stateCount, (p.decideAt id action).permitted = false) ∨
            (∀ p ∈ c.protocols, ¬ r.IsTop c.protocols p →
              ∀ id < p.stateCount, (p.decideAt id action).permitted = true)) := by
  obtain ⟨c, hstd⟩ := Catalog.exists_standard
  have hnames : c.names = Catalog.standard.map Definition.name := by
    rw [← hstd, List.map_map]
    rfl
  have hcounts : c.protocols.map Protocol.stateCount =
      Catalog.standard.map fun d => d.states.length := by
    rw [← hstd, List.map_map]
    rfl
  have hr : Ranking.ofPriority c ["ASP", "ATP", "ASP"] = .ok (.ofOrder ["ASP", "ATP", "ASP"]) := by
    rw [Ranking.ofPriority, hnames]
    rfl
  have hbound : (c.protocols.map Protocol.stateCount).prod ≤ 27 := by
    rw [hcounts]
    decide
  obtain ⟨c', hc', h⟩ := verifyPriority_holds_iff ⟨27, by decide⟩ c.protocols
    ["ASP", "ATP", "ASP"] c.nonempty c.distinct
  obtain rfl : c' = c := Except.ok.inj (hc'.symm.trans (compose_protocols c))
  exact ⟨c', hstd, c'.nonempty, c'.distinct, _, hr, hbound, h _ hr hbound⟩

end Verifier

end Lockstep
