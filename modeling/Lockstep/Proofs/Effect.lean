import Lockstep.Proofs.Priority

/-!
# What a protocol does, and what it only says

Of all that a protocol declares, a composition acts on little: for every state and every action, whether
the action is permitted and, if so, where it leads. That is the protocol's effect. A denial also has a
reason and names a state, and neither has any effect.

Two protocols with the same effect still give different decisions. What they agree in is their voice: who
decides, whether they permit, and where they go if they do. A verdict on a joint decision hears no more
than that. A denial is blamed on a name, and ranks are ranks of names, so both kinds of fault are the
same for decisions with the same voices (`Verifier.priorityFault_eq`, `Verifier.monotonicFault_eq`).
-/

namespace Lockstep

/-! ## The effect of a declaration -/

/-- Where a declaration lets an action lead: to the target of the first transition that fits, if that one
permits it. -/
def Definition.effect (d : Definition) (state action : String) : Option String :=
  match d.transitions.find? (·.fits state action) with
  | some t => if t.permitted then some t.target else none
  | none => none

/-- Declarations of one name with the same states, the same start and the same effect. -/
structure Definition.SameEffect (d e : Definition) : Prop where
  name : d.name = e.name
  stateNames : d.stateNames = e.stateNames
  initialState : d.initialState = e.initialState
  /-- Every state lets the same actions lead to the same states. -/
  effect : ∀ state ∈ d.stateNames, ∀ action, d.effect state action = e.effect state action

namespace Protocol

variable {p q : Protocol} {id : Nat} {action : String}

theorem stateName?_eq (p : Protocol) (id : Nat) : p.stateName? id = p.stateNames[id]? := by
  unfold stateName? stateNames Definition.stateNames
  rw [List.getElem?_map]
  rfl

theorem stateName?_initialId (p : Protocol) :
    p.stateName? p.initialId = some p.definition.initialState := by
  rw [stateName?_eq]
  exact Definition.stateNames_of_stateId? p.initial_declared

/-- A step is a permitted decision. -/
theorem stepAt?_eq_decideAt (p : Protocol) (id : Nat) (action : String) :
    p.stepAt? id action =
      if (p.decideAt id action).permitted then some (p.decideAt id action).nextStateId else none := by
  rw [stepAt?, decideAt_eq]
  cases p.transitionFor? id action with
  | none => rfl
  | some t => rfl

/-- **A step is the effect of the declaration**, by place instead of by name. -/
theorem stepAt?_eq_effect {name : String} (h : p.stateName? id = some name) :
    p.stepAt? id action = (p.definition.effect name action).bind p.stateId? := by
  unfold stepAt? Definition.effect
  rw [transitionFor?_eq_find? h]
  unfold transitions
  cases hfind : p.definition.transitions.find? (·.fits name action) with
  | none => rfl
  | some t =>
    dsimp only
    split
    · exact (target_declared (List.mem_of_find?_eq_some hfind)).symm
    · rfl

/-- Protocols of one name with the same states, the same start and the same steps. -/
structure SameEffect (p q : Protocol) : Prop where
  name : p.name = q.name
  stateNames : p.stateNames = q.stateNames
  initialState : p.initialState = q.initialState
  /-- Every state takes the same actions to the same states. -/
  step : ∀ id < p.stateCount, ∀ action, p.stepAt? id action = q.stepAt? id action

/-- Protocols have the same effect if their declarations do. Nothing else is asked: not of the cursors,
not of guards, annotations and error marks, not of denials, said or not, and where they point, and not of
transitions that an earlier one shadows. -/
theorem sameEffect_of_definition (h : p.definition.SameEffect q.definition) : p.SameEffect q where
  name := h.name
  stateNames := h.stateNames
  initialState := by
    unfold initialState
    rw [stateName_eq, stateName_eq, stateName?_initialId, stateName?_initialId, h.initialState]
  step := by
    intro id hid action
    obtain ⟨name, hname⟩ := exists_stateName hid
    have hnames : p.stateNames = q.stateNames := h.stateNames
    have hname' : q.stateName? id = some name := by
      rw [stateName?_eq, ← hnames, ← stateName?_eq]
      exact hname
    have hmem : name ∈ p.definition.stateNames := by
      rw [stateName?_eq] at hname
      exact List.mem_of_getElem? hname
    have hplace : p.stateId? = q.stateId? := by
      funext state
      rw [p.stateId?_eq, q.stateId?_eq, Definition.stateId?, Definition.stateId?, h.stateNames]
    rw [stepAt?_eq_effect hname, stepAt?_eq_effect hname', h.effect name hmem, hplace]

namespace SameEffect

theorem stateCount (h : p.SameEffect q) : p.stateCount = q.stateCount := by
  have hlen : p.definition.stateNames.length = q.definition.stateNames.length :=
    congrArg List.length h.stateNames
  rw [Definition.length_stateNames, Definition.length_stateNames] at hlen
  exact hlen

theorem stateName (h : p.SameEffect q) (id : Nat) : p.stateName id = q.stateName id := by
  rw [stateName_eq, stateName_eq, stateName?_eq, stateName?_eq, h.stateNames]

theorem initialId (h : p.SameEffect q) : p.initialId.val = q.initialId.val := by
  have hname : p.definition.initialState = q.definition.initialState := by
    have hinitial := h.initialState
    unfold Protocol.initialState at hinitial
    rw [stateName_eq, stateName_eq, stateName?_initialId, stateName?_initialId] at hinitial
    exact hinitial
  have hnames : p.definition.stateNames = q.definition.stateNames := h.stateNames
  have hplace : p.definition.stateId? p.definition.initialState =
      q.definition.stateId? q.definition.initialState := by
    rw [hname, Definition.stateId?, Definition.stateId?, hnames]
  rw [p.initial_declared, q.initial_declared] at hplace
  exact Option.some.inj hplace

end SameEffect

end Protocol

/-! ## Voices -/

theorem map_eq_of_rel {α β γ : Type} {R : α → β → Prop} {f : α → γ} {g : β → γ} {x : Option α}
    {y : Option β} (h : Option.Rel R x y) (hfg : ∀ a b, R a b → f a = g b) : x.map f = y.map g := by
  cases h with
  | none => rfl
  | some hR => exact congrArg some (hfg _ _ hR)

/-- Decisions of one protocol that both deny, or both permit and lead to one state. -/
structure Decision.SameVoice (x y : Decision) : Prop where
  protocol : x.protocol = y.protocol
  permitted : x.permitted = y.permitted
  next : x.permitted = true → x.nextStateId = y.nextStateId

theorem Protocol.SameEffect.sameVoice {p q : Protocol} {id : Nat} (h : p.SameEffect q)
    (hid : id < p.stateCount) (action : String) :
    (p.decideAt id action).SameVoice (q.decideAt id action) := by
  have hstep := h.step id hid action
  rw [stepAt?_eq_decideAt, stepAt?_eq_decideAt] at hstep
  have hname : (p.decideAt id action).protocol = (q.decideAt id action).protocol := by
    rw [decideAt_protocol, decideAt_protocol, h.name]
  cases hp : (p.decideAt id action).permitted with
  | false =>
    cases hq : (q.decideAt id action).permitted with
    | false => exact ⟨hname, hp.trans hq.symm, fun habs => absurd (hp.symm.trans habs) (by simp)⟩
    | true => exact absurd hstep (by simp [hp, hq])
  | true =>
    cases hq : (q.decideAt id action).permitted with
    | false => exact absurd hstep (by simp [hp, hq])
    | true =>
      rw [hp, hq] at hstep
      exact ⟨hname, hp.trans hq.symm, fun _ => Option.some.inj hstep⟩

namespace Ranking

variable {r : Ranking} {xs ys : List Decision}

/-- Choosing among decisions by the names of their protocols chooses the same voice. -/
theorem sameVoice_foldl_argAux (before : String → String → Prop) [DecidableRel before]
    (h : List.Forall₂ Decision.SameVoice xs ys) :
    Option.Rel Decision.SameVoice
      (xs.foldl (List.argAux fun x y => before x.protocol y.protocol) none)
      (ys.foldl (List.argAux fun x y => before x.protocol y.protocol) none) := by
  refine List.rel_foldl ?_ Option.Rel.none h
  intro best best' hbest d d' hd
  cases hbest with
  | none => exact .some hd
  | @some b b' hb =>
    have hiff : before d.protocol b.protocol ↔ before d'.protocol b'.protocol := by
      rw [hb.protocol, hd.protocol]
    dsimp only [List.argAux]
    by_cases hlt : before d.protocol b.protocol
    · rw [if_pos hlt, if_pos (hiff.mp hlt)]
      exact .some hd
    · rw [if_neg hlt, if_neg (mt hiff.mpr hlt)]
      exact .some hb

theorem sameVoice_highest (r : Ranking) (h : List.Forall₂ Decision.SameVoice xs ys) :
    Option.Rel Decision.SameVoice (r.highest xs) (r.highest ys) := by
  rw [highest_eq_argmin, highest_eq_argmin]
  exact sameVoice_foldl_argAux (fun s t => r.rank s < r.rank t) h

theorem sameVoice_lowest (r : Ranking) (h : List.Forall₂ Decision.SameVoice xs ys) :
    Option.Rel Decision.SameVoice (r.lowest xs) (r.lowest ys) := by
  rw [lowest_eq_argmax, lowest_eq_argmax]
  exact sameVoice_foldl_argAux (fun s t => r.rank t < r.rank s) h

end Ranking

/-- Joint decisions with one verdict and, protocol by protocol, the same voices. -/
structure JointDecision.SameVoices (x y : JointDecision) : Prop where
  permitted : x.globallyPermitted = y.globallyPermitted
  individual : List.Forall₂ Decision.SameVoice x.individual y.individual

namespace JointDecision

variable {x y : JointDecision}

theorem SameVoices.denying (h : x.SameVoices y) :
    List.Forall₂ Decision.SameVoice x.denying y.denying := by
  refine List.rel_filter ?_ h.individual
  intro d d' hd
  show (!d.permitted) = true ↔ (!d'.permitted) = true
  rw [hd.permitted]

theorem SameVoices.permitting (h : x.SameVoices y) :
    List.Forall₂ Decision.SameVoice x.permitting y.permitting := by
  refine List.rel_filter ?_ h.individual
  intro d d' hd
  show d.permitted = true ↔ d'.permitted = true
  rw [hd.permitted]

/-- Under conjunction, the same voices give the same verdict. -/
theorem sameVoices_conjunction {action : String} {xs ys : List Decision}
    (h : List.Forall₂ Decision.SameVoice xs ys) :
    (conjunction action xs).SameVoices (conjunction action ys) where
  permitted := by
    rw [Bool.eq_iff_iff, conjunction_permitted_iff, conjunction_permitted_iff]
    induction h with
    | nil => simp
    | cons hd _ ih => simp only [List.forall_mem_cons, hd.permitted, ih]
  individual := h

/-- Where an action passes, the same voices lead to the same joint state. -/
theorem nextJoint_of_sameVoice {xs ys : List Decision} (h : List.Forall₂ Decision.SameVoice xs ys)
    (hall : ∀ d ∈ xs, d.permitted = true) :
    xs.map Decision.nextStateId = ys.map Decision.nextStateId := by
  induction h with
  | nil => rfl
  | cons hd _ ih =>
    obtain ⟨hpermitted, hrest⟩ := List.forall_mem_cons.mp hall
    rw [List.map_cons, List.map_cons, hd.next hpermitted, ih hrest]

end JointDecision

/-! ## Faults -/

namespace Verifier

variable {x y : JointDecision}

theorem monotonicFault_eq (h : x.SameVoices y) : monotonicFault x = monotonicFault y := by
  have hdenying := h.denying
  unfold monotonicFault
  rw [h.permitted]
  generalize x.denying = xs at hdenying ⊢
  generalize y.denying = ys at hdenying ⊢
  cases hdenying with
  | nil => rfl
  | cons hd _ =>
    rw [List.head?_cons, List.head?_cons, Option.map_some, Option.map_some, hd.protocol]

/-- **Who is at fault against a ranking is heard from the voices.** -/
theorem priorityFault_eq (r : Ranking) (h : x.SameVoices y) :
    priorityFault r x = priorityFault r y := by
  have hdenier := r.sameVoice_highest h.denying
  have hpermitter := r.sameVoice_highest h.permitting
  have hblamed := r.sameVoice_lowest h.denying
  unfold priorityFault
  rw [h.permitted]
  generalize r.highest x.denying = denier at hdenier ⊢
  generalize r.highest y.denying = denier' at hdenier ⊢
  generalize r.highest x.permitting = permitter at hpermitter ⊢
  generalize r.highest y.permitting = permitter' at hpermitter ⊢
  cases hdenier with
  | none => rfl
  | some hdenier =>
    dsimp only
    rw [hdenier.protocol]
    split
    · rfl
    · cases hpermitter with
      | none => rfl
      | some hpermitter =>
        dsimp only
        rw [hpermitter.protocol]
        split
        · exact map_eq_of_rel hblamed fun _ _ hd => hd.protocol
        · rfl

end Verifier

end Lockstep
