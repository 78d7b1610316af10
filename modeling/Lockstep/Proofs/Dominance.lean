import Lockstep.Proofs.Ranks
import Lockstep.Proofs.Tallies

/-!
# Who dominates a joint state

A joint state is dominated by the highest-ranking protocol that denies some action of the alphabet there.
Ranks can be equal, because all protocols that a priority list leaves out rank alike. The denials are taken
action by action, and within an action in order of declaration; so of equal ranks the protocol counts that
denies the least action, and only for one and the same action the one that is declared first
(`Composition.Dominates`).

Equal ranks are meant to be told apart by declaration alone (`Composition.LeadsDenials`). The two come to the
same for a protocol that shares its rank with no other: one that is listed, or the only one that is not. For
the others they do not, as two protocols with one state each show.
-/

namespace Lockstep

/-! ## Denials -/

namespace Composition

variable {c : Composition} {r : Ranking} {joint : JointState} {p q : Protocol}

/-- The protocol denies the action at its position in the joint state. -/
def Denies (c : Composition) (joint : JointState) (action : String) (p : Protocol) : Prop :=
  ∃ id, (p, id) ∈ c.protocols.zip joint ∧ (p.decideAt id action).permitted = false

/-- The place of a protocol in the order of declaration. -/
def place (c : Composition) (p : Protocol) : Nat := c.names.idxOf p.name

/-- Of all who deny something, the protocol has the lowest rank number; of those with that number it denies
the least action; and of those who deny that action it is declared first. -/
def Dominates (c : Composition) (r : Ranking) (joint : JointState) (p : Protocol) : Prop :=
  ∃ a ∈ c.alphabet, c.Denies joint a p ∧ ∀ b ∈ c.alphabet, ∀ q, c.Denies joint b q →
    r.rank p.name < r.rank q.name ∨
      r.rank p.name = r.rank q.name ∧ (a < b ∨ a = b ∧ c.place p ≤ c.place q)

/-- Of all who deny something, the protocol has the lowest rank number, and of those with that number it is
declared first. -/
def LeadsDenials (c : Composition) (r : Ranking) (joint : JointState) (p : Protocol) : Prop :=
  (∃ a ∈ c.alphabet, c.Denies joint a p) ∧ ∀ b ∈ c.alphabet, ∀ q, c.Denies joint b q →
    r.rank p.name < r.rank q.name ∨ r.rank p.name = r.rank q.name ∧ c.place p ≤ c.place q

theorem Denies.mem {action : String} (h : c.Denies joint action p) : p ∈ c.protocols := by
  obtain ⟨id, hmem, _⟩ := h
  exact (List.of_mem_zip hmem).1

theorem eq_of_name_eq (hp : p ∈ c.protocols) (hq : q ∈ c.protocols) (h : p.name = q.name) : p = q :=
  List.inj_on_of_nodup_map c.distinct hp hq h

theorem eq_of_place_eq (hp : p ∈ c.protocols) (hq : q ∈ c.protocols) (h : c.place p = c.place q) :
    p = q := by
  have hname : p.name ∈ c.names := List.mem_map_of_mem hp
  exact eq_of_name_eq hp hq ((List.idxOf_inj hname).mp h)

/-- **At most one protocol dominates.** -/
theorem Dominates.unique (hp : c.Dominates r joint p) (hq : c.Dominates r joint q) : p = q := by
  obtain ⟨a, ha, hpa, hpmin⟩ := hp
  obtain ⟨b, hb, hqb, hqmin⟩ := hq
  have hplace : c.place p = c.place q := by
    rcases hpmin b hb q hqb with hlt | ⟨hrank, hpq⟩
    · rcases hqmin a ha p hpa with hlt' | ⟨hrank', _⟩
      · omega
      · omega
    · rcases hqmin a ha p hpa with hlt' | ⟨_, hqp⟩
      · omega
      · rcases hpq with hab | ⟨hab, hle⟩
        · rcases hqp with hba | ⟨hba, _⟩
          · exact absurd (Std.lt_trans hab hba) Std.lt_irrefl
          · exact absurd hab (hba ▸ Std.lt_irrefl)
        · rcases hqp with hba | ⟨_, hle'⟩
          · exact absurd hba (hab ▸ Std.lt_irrefl)
          · omega
  exact eq_of_place_eq hpa.mem hqb.mem hplace

/-! ## The order in which denials are taken -/

/-- Who refuses what where, in the order in which the denials are taken. -/
def refusals (c : Composition) (joint : JointState) : List (String × Protocol × Nat) :=
  c.alphabet.flatMap fun action =>
    ((c.protocols.zip joint).filter fun e => (e.1.decideAt e.2 action).isDenied).map (action, ·)

theorem mem_refusals {a : String} {id : Nat} :
    (a, p, id) ∈ c.refusals joint ↔
      a ∈ c.alphabet ∧ (p, id) ∈ c.protocols.zip joint ∧ (p.decideAt id a).permitted = false := by
  simp [refusals, Decision.isDenied]

/-- The denials are the decisions behind the refusals. -/
theorem flatMap_denying (c : Composition) (joint : JointState) :
    (c.alphabet.flatMap fun action => (c.composeAt joint action).denying) =
      (c.refusals joint).map fun x => x.2.1.decideAt x.2.2 x.1 := by
  rw [refusals, List.map_flatMap]
  congr 1
  funext action
  rw [JointDecision.denying, individual_composeAt, ← List.map_uncurry_zip_eq_zipWith, List.filter_map, List.map_map]
  rfl

theorem place_getElem {i : Nat} (hi : i < c.protocols.length) : c.place c.protocols[i] = i := by
  have hlt : i < c.names.length := by
    rw [names, List.length_map]
    exact hi
  have hname : c.names[i] = c.protocols[i].name := List.getElem_map Protocol.name
  rw [place, ← hname]
  exact List.Nodup.idxOf_getElem c.distinct i hlt

theorem pairwise_place (c : Composition) (joint : JointState) :
    (c.protocols.zip joint).Pairwise fun x y => c.place x.1 < c.place y.1 := by
  rw [List.pairwise_iff_getElem]
  intro i j hi hj hij
  rw [List.length_zip] at hi hj
  have hi' : i < c.protocols.length := by omega
  have hj' : j < c.protocols.length := by omega
  rw [List.getElem_zip, List.getElem_zip]
  dsimp only
  rw [place_getElem hi', place_getElem hj']
  exact hij

/-- **Refusals come in order of the action, and for one action in order of declaration.** -/
theorem pairwise_refusals (c : Composition) (joint : JointState) :
    (c.refusals joint).Pairwise fun x y =>
      x.1 < y.1 ∨ x.1 = y.1 ∧ c.place x.2.1 < c.place y.2.1 := by
  rw [refusals, List.pairwise_flatMap]
  constructor
  · intro action _
    rw [List.pairwise_map]
    exact ((c.pairwise_place joint).filter _).imp fun h => Or.inr ⟨rfl, h⟩
  · refine c.alphabet_increasing.imp fun {a b} hab x hx y hy => ?_
    obtain ⟨_, _, rfl⟩ := List.mem_map.mp hx
    obtain ⟨_, _, rfl⟩ := List.mem_map.mp hy
    exact Or.inl hab

theorem dominates_of_highest {d : Decision}
    (h : r.highest (c.alphabet.flatMap fun action => (c.composeAt joint action).denying) = some d) :
    ∃ p, c.Dominates r joint p ∧ p.name = d.protocol := by
  obtain ⟨before, after, hsplit, hbefore, hafter⟩ := Ranking.highest_split h
  rw [flatMap_denying, List.map_eq_append_iff] at hsplit
  obtain ⟨earlier, rest, hrefusals, rfl, hrest⟩ := hsplit
  obtain ⟨⟨a, p, id⟩, later, rfl, rfl, rfl⟩ := List.map_eq_cons_iff.mp hrest
  have hmem : (a, p, id) ∈ c.refusals joint := by
    rw [hrefusals]
    simp
  obtain ⟨ha, hzip, hdenied⟩ := mem_refusals.mp hmem
  have horder := c.pairwise_refusals joint
  rw [hrefusals, List.pairwise_append, List.pairwise_cons] at horder
  rw [Protocol.decideAt_protocol] at hbefore hafter ⊢
  refine ⟨p, ⟨a, ha, ⟨id, hzip, hdenied⟩, ?_⟩, rfl⟩
  rintro b hb q ⟨id', hzip', hdenied'⟩
  have hother : (b, q, id') ∈ c.refusals joint := mem_refusals.mpr ⟨hb, hzip', hdenied'⟩
  rw [hrefusals] at hother
  -- a refusal taken earlier ranks below, one taken later ranks no higher
  rcases List.mem_append.mp hother with hearlier | hlater
  · have hlt := hbefore _ (List.mem_map_of_mem hearlier)
    rw [Protocol.decideAt_protocol] at hlt
    exact Or.inl hlt
  · rcases List.mem_cons.mp hlater with hsame | hlater
    · cases hsame
      exact Or.inr ⟨rfl, Or.inr ⟨rfl, Nat.le_refl _⟩⟩
    · have hle := hafter _ (List.mem_map_of_mem hlater)
      rw [Protocol.decideAt_protocol] at hle
      rcases Nat.lt_or_eq_of_le hle with hlt | heq
      · exact Or.inl hlt
      · refine Or.inr ⟨heq, ?_⟩
        rcases horder.2.1.1 _ hlater with hab | ⟨hab, hplace⟩
        · exact Or.inl hab
        · exact Or.inr ⟨hab, Nat.le_of_lt hplace⟩

theorem dominant_eq_none_iff :
    c.dominant r joint = none ↔ ∀ a ∈ c.alphabet, ∀ p, ¬ c.Denies joint a p := by
  rw [dominant_eq, Option.map_eq_none_iff, Ranking.highest_eq_none_iff, flatMap_denying, List.map_eq_nil_iff,
    List.eq_nil_iff_forall_not_mem]
  constructor
  · rintro h a ha p ⟨id, hzip, hdenied⟩
    exact h (a, p, id) (mem_refusals.mpr ⟨ha, hzip, hdenied⟩)
  · rintro h ⟨a, p, id⟩ hmem
    obtain ⟨ha, hzip, hdenied⟩ := mem_refusals.mp hmem
    exact h a ha p ⟨id, hzip, hdenied⟩

/-- What is named dominant is the name of a protocol that dominates. -/
theorem dominates_of_dominant {name : String} (h : c.dominant r joint = some name) :
    ∃ p, c.Dominates r joint p ∧ p.name = name := by
  rw [dominant_eq] at h
  obtain ⟨d, hd, rfl⟩ := Option.map_eq_some_iff.mp h
  exact dominates_of_highest hd

theorem exists_dominates {a : String} (ha : a ∈ c.alphabet) (h : c.Denies joint a p) :
    ∃ q, c.Dominates r joint q ∧ c.dominant r joint = some q.name := by
  cases hdominant : c.dominant r joint with
  | none => exact absurd h (dominant_eq_none_iff.mp hdominant a ha p)
  | some name =>
    obtain ⟨q, hq, hname⟩ := dominates_of_dominant hdominant
    exact ⟨q, hq, by rw [hname]⟩

/-- **The dominant protocol is the one that dominates.** -/
theorem dominant_eq_some_iff (hp : p ∈ c.protocols) :
    c.dominant r joint = some p.name ↔ c.Dominates r joint p := by
  constructor
  · intro h
    obtain ⟨q, hq, hname⟩ := dominates_of_dominant h
    have hqp : q = p := by
      obtain ⟨_, _, hdenies, _⟩ := hq
      exact eq_of_name_eq hdenies.mem hp hname
    exact hqp ▸ hq
  · intro h
    obtain ⟨a, ha, hdenies, _⟩ := id h
    obtain ⟨q, hq, hdominant⟩ := exists_dominates (r := r) ha hdenies
    rw [hdominant, hq.unique h]

/-- A protocol that shares its rank with no other dominates as it should. -/
theorem dominates_iff_leadsDenials (halone : ∀ q ∈ c.protocols, r.rank q.name = r.rank p.name → q = p) :
    c.Dominates r joint p ↔ c.LeadsDenials r joint p := by
  constructor
  · rintro ⟨a, ha, hdenies, hmin⟩
    refine ⟨⟨a, ha, hdenies⟩, ?_⟩
    intro b hb q hq
    rcases hmin b hb q hq with hlt | ⟨hrank, _⟩
    · exact Or.inl hlt
    · rw [halone q hq.mem hrank.symm]
      exact Or.inr ⟨rfl, Nat.le_refl _⟩
  · rintro ⟨⟨a, ha, hdenies⟩, hmin⟩
    -- whoever dominates has the same rank, and so is this one
    obtain ⟨q, hq, _⟩ := exists_dominates (r := r) ha hdenies
    obtain ⟨b, hb, hqdenies, hqmin⟩ := id hq
    have hrank : r.rank q.name = r.rank p.name := by
      rcases hmin b hb q hqdenies with hlt | ⟨heq, _⟩
      · rcases hqmin a ha p hdenies with hlt' | ⟨heq', _⟩ <;> omega
      · exact heq.symm
    exact halone q hqdenies.mem hrank ▸ hq

end Composition

/-! ## The tally -/

/-- A protocol that is listed, or the only one that is not, shares its rank with no other. -/
theorem Composition.rank_alone {c : Composition} {r : Ranking} {p : Protocol} (hp : p ∈ c.protocols)
    (h : p.name ∈ r.order ∨ ∀ q ∈ c.protocols, q.name ∉ r.order → q = p) :
    ∀ q ∈ c.protocols, r.rank q.name = r.rank p.name → q = p := by
  intro q hq hrank
  by_cases hlisted : p.name ∈ r.order
  · exact eq_of_name_eq hq hp (Ranking.eq_of_rank_eq hlisted hrank)
  · by_cases hqlisted : q.name ∈ r.order
    · exact (eq_of_name_eq hp hq (Ranking.eq_of_rank_eq hqlisted hrank.symm)).symm
    · exact (h.resolve_left hlisted) q hq hqlisted

/--
**The tally counts for each protocol the joint states that it dominates**, and those where nobody denies
anything.

Ties of rank go to the protocol that denies the least action, and only then to the one declared first. That
makes no difference to a protocol that the list names, nor to one that is the only one left out: these are
counted for the joint states where they have the lowest rank number of all who deny something, and of those
with that number are declared first.
-/
theorem dominance_tally (c : Composition) (priority : List String) (ceiling : Nat) (r : Ranking)
    (hr : Ranking.ofPriority c priority = .ok r) (hceiling : c.productSize ≤ ceiling) :
    ∃ t, c.dominance priority ceiling = .ok t ∧
      (∀ p ∈ c.protocols,
        t.counts.get? p.name = some {joint | c.Fits joint ∧ c.Dominates r joint p}.ncard ∧
        ((p.name ∈ priority ∨ ∀ q ∈ c.protocols, q.name ∉ priority → q = p) →
          t.counts.get? p.name = some {joint | c.Fits joint ∧ c.LeadsDenials r joint p}.ncard)) ∧
      t.none =
        {joint | c.Fits joint ∧ ∀ a ∈ c.alphabet, ∀ p, ¬ c.Denies joint a p}.ncard := by
  obtain ⟨t, ht, hcounts, hnone⟩ := Composition.exists_dominance hr hceiling
  have horder : r.order = priority := Ranking.order_of_ofPriority_ok hr
  refine ⟨t, ht, ?_, ?_⟩
  · intro p hp
    have hcount : t.counts.get? p.name =
        some {joint | c.Fits joint ∧ c.Dominates r joint p}.ncard := by
      rw [hcounts p.name (List.mem_map_of_mem hp)]
      simp only [Composition.dominant_eq_some_iff hp]
    refine ⟨hcount, ?_⟩
    intro halone
    rw [← horder] at halone
    rw [hcount]
    simp only [Composition.dominates_iff_leadsDenials (Composition.rank_alone hp halone)]
  · rw [hnone]
    simp only [Composition.dominant_eq_none_iff]

/-! ## A tie -/

/-- One state, in which the greater of two actions is denied. -/
def deniesGreater : Protocol where
  definition := ⟨"P", "s", [.accept "s"], [.permit "s" "s" "a", .deny "s" "s" "b"]⟩
  places := ⟨[("s", 0)], by decide⟩
  placed := rfl
  initialId := ⟨0, by decide⟩
  initial_placed := rfl
  table := [[("a", 0), ("b", 1)]]
  wired := rfl
  position := ⟨0, by decide⟩

/-- One state, in which the lesser of two actions is denied. -/
def deniesLesser : Protocol where
  definition := ⟨"Q", "s", [.accept "s"], [.deny "s" "s" "a", .permit "s" "s" "b"]⟩
  places := ⟨[("s", 0)], by decide⟩
  placed := rfl
  initialId := ⟨0, by decide⟩
  initial_placed := rfl
  table := [[("a", 0), ("b", 1)]]
  wired := rfl
  position := ⟨0, by decide⟩

def tied : Composition where
  protocols := [deniesGreater, deniesLesser]
  nonempty := List.cons_ne_nil _ _
  distinct := by decide
  alphabet := ["a", "b"]
  alphabet_eq := rfl

theorem dominance_tally_tied :
    (∃ t, tied.dominance [] 1000 = .ok t ∧
      t.counts.get? "Q" =
        some {joint | tied.Fits joint ∧ tied.Dominates (.ofOrder []) joint deniesLesser}.ncard) ∧
    ∃ t, tied.dominance ["Q"] 1 = .ok t ∧
      t.counts.get? "P" =
        some {joint | tied.Fits joint ∧ tied.LeadsDenials (.ofOrder ["Q"]) joint deniesGreater}.ncard ∧
      t.none = {joint | tied.Fits joint ∧ ∀ a ∈ tied.alphabet, ∀ p, ¬ tied.Denies joint a p}.ncard := by
  have hfirst : deniesGreater ∈ tied.protocols := by simp [tied]
  have hsecond : deniesLesser ∈ tied.protocols := by simp [tied]
  constructor
  · obtain ⟨t, ht, hcounts, _⟩ := dominance_tally tied [] 1000 (.ofOrder []) rfl (by decide)
    exact ⟨t, ht, (hcounts _ hsecond).1⟩
  · obtain ⟨t, ht, hcounts, hnone⟩ := dominance_tally tied ["Q"] 1 (.ofOrder ["Q"]) rfl (by decide)
    refine ⟨t, ht, (hcounts _ hfirst).2 (Or.inr ?_), hnone⟩
    intro q hq hunlisted
    rcases List.mem_cons.mp hq with rfl | hq
    · rfl
    · rw [List.mem_singleton.mp hq] at hunlisted
      exact absurd (List.mem_singleton.mpr rfl) hunlisted

/-- **Without a priority list the protocol declared first is passed over**: both deny something in the only
joint state there is and no rank tells them apart, yet the second is counted, because it denies the lesser
action. -/
theorem dominance_passes_over_first :
    Ranking.ofPriority tied [] = .ok (.ofOrder []) ∧ tied.productSize ≤ 1000 ∧
      {joint | tied.Fits joint ∧ tied.LeadsDenials (.ofOrder []) joint deniesGreater}.ncard = 1 ∧
      ∃ t, tied.dominance [] 1000 = .ok t ∧ t.counts.get? "P" = some 0 ∧ t.counts.get? "Q" = some 1 := by
  refine ⟨rfl, by decide, ?_, ⟨⟨⟨[("P", 0), ("Q", 1)], by decide⟩, 0, 1⟩, rfl, rfl, rfl⟩⟩
  rw [Set.ncard_eq_one]
  refine ⟨[0, 0], ?_⟩
  ext joint
  have hfits : tied.Fits joint ↔ joint = [0, 0] := by
    rw [Composition.fits_iff_mem_tuples]
    exact List.mem_singleton
  rw [Set.mem_ofPred_eq, Set.mem_singleton_iff, hfits]
  refine ⟨And.left, ?_⟩
  rintro rfl
  have hdenies : tied.Denies [0, 0] "b" deniesGreater := ⟨0, List.mem_cons_self, rfl⟩
  refine ⟨rfl, ⟨"b", by decide, hdenies⟩, ?_⟩
  intro b _ q _
  exact Or.inr ⟨rfl, Nat.zero_le _⟩

end Lockstep
