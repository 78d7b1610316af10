import Lockstep.Proofs.Cursors
import Lockstep.Proofs.Decoding
import Lockstep.Proofs.Interpreter

/-!
# Exported protocols can be rebuilt

A definition keeps neither the map of places and the table of a protocol nor its cursor. None is needed: a protocol is
determined by its definition and the place of its cursor, so what is rebuilt from an export is the protocol
as it was at the start (`build_toDefinition`).

In text the one part that takes an argument is the annotations. They are read into canonical form by
inserting member after member, and members that already come in increasing order are inserted where they
stand, at the end. Four containers are open around an annotation, so there is room for 123 more.
-/

namespace Lockstep

/-! ## Definition and protocol -/

namespace Protocol

/-- The map of places, the initial place and the table follow from the definition. -/
theorem eq_of_definition_eq {p q : Protocol} (h : p.definition = q.definition)
    (hpos : p.position.val = q.position.val) : p = q := by
  have hinitial : p.initialId.val = q.initialId.val := initialId_of_definition_eq h
  obtain ⟨d, places, hplaced, i, _, table, hwired, position⟩ := p
  obtain ⟨e, places', hplaced', j, _, table', hwired', position'⟩ := q
  dsimp only at h hpos hinitial
  subst h
  -- both maps and both tables are what the one definition comes to
  obtain rfl : places = places' := Except.ok.inj (hplaced.symm.trans hplaced')
  obtain rfl : table = table' := Except.ok.inj (hwired.symm.trans hwired')
  cases Fin.ext hinitial
  cases Fin.ext hpos
  rfl

theorem toDefinition_eq (p : Protocol) : p.toDefinition = p.definition := by
  have hinitial : p.initialState = p.definition.initialState :=
    stateName_of_stateName? p.stateName?_initialId
  unfold toDefinition
  rw [hinitial]
  rfl

/-- **What is exported can be rebuilt**, and gives the protocol with its cursor back at the start. -/
theorem build_toDefinition (p : Protocol) : p.toDefinition.build.outcome = .ok p.reset := by
  rw [toDefinition_eq]
  obtain ⟨q, hq, hdefinition⟩ := p.wellFormed.exists_build_ok
  have hstart : q.position.val = q.initialId.val := by rw [(Definition.build_ok hq).2]
  have hplace : q.initialId.val = p.initialId.val := initialId_of_definition_eq hdefinition
  have heq : q = p.reset := eq_of_definition_eq hdefinition (hstart.trans hplace)
  rw [hq, heq]

end Protocol

/-! ## Annotations -/

namespace Json

/-- A value without doubles in which at most `n` containers are open at once. -/
inductive Plain : Nat → Json → Prop
  | null {n : Nat} : Plain n null
  | bool {n : Nat} (b : Bool) : Plain n (bool b)
  | int {n : Nat} (i : Int) : Plain n (int i)
  | str {n : Nat} (s : String) : Plain n (str s)
  | arr {n : Nat} {items : List Json} : (∀ v ∈ items, Plain n v) → Plain (n + 1) (arr items)
  | obj {n : Nat} {members : List (String × Json)} :
    (∀ m ∈ members, Plain n m.2) → Plain (n + 1) (obj members)

theorem areCanonical_iff {items : List Json} :
    areCanonical items = true ↔ ∀ v ∈ items, v.isCanonical = true := by
  induction items with
  | nil => simp [areCanonical]
  | cons v items ih => rw [areCanonical, Bool.and_eq_true, ih, List.forall_mem_cons]

theorem areCanonicalMembers_iff {members : List (String × Json)} :
    areCanonicalMembers members = true ↔ ∀ m ∈ members, m.2.isCanonical = true := by
  induction members with
  | nil => simp [areCanonicalMembers]
  | cons m members ih => rw [areCanonicalMembers, Bool.and_eq_true, ih, List.forall_mem_cons]

theorem exact_of_plain {n : Nat} {v : Json} (h : Plain n v) (hv : v.isCanonical = true) : Exact v := by
  induction h with
  | null => exact .null
  | bool b => exact .bool b
  | int i =>
    rw [isCanonical, decide_eq_true_eq] at hv
    exact .int hv
  | str s => exact .str s
  | arr _ ih =>
    rw [isCanonical, areCanonical_iff] at hv
    exact .arr fun v hmem => ih v hmem (hv v hmem)
  | obj _ ih =>
    rw [isCanonical, Bool.and_eq_true, areCanonicalMembers_iff] at hv
    exact .obj fun m hmem => ih m hmem (hv.2 m hmem)

/-- A name above all others goes to the end. -/
theorem insertMember_of_lt {k : String} {v : Json} {members : List (String × Json)}
    (h : ∀ m ∈ members, m.1 < k) : insertMember k v members = members ++ [(k, v)] := by
  induction members with
  | nil => rfl
  | cons m members ih =>
    rw [List.forall_mem_cons] at h
    have hnot : ¬ k < m.1 := fun hk => Std.lt_irrefl (Std.lt_trans hk h.1)
    have hne : m.1 ≠ k := Std.ne_of_lt h.1
    rw [insertMember, if_neg hnot, if_neg hne, ih h.2, List.cons_append]

theorem pairwise_of_namesIncrease {members : List (String × Json)} (h : namesIncrease members = true) :
    members.Pairwise fun m m' => m.1 < m'.1 := by
  induction members with
  | nil => exact .nil
  | cons m members ih =>
    have hrest := ih (namesIncrease_tail h)
    refine .cons ?_ hrest
    intro m' hm'
    cases members with
    | nil => exact absurd hm' List.not_mem_nil
    | cons next members =>
      have hnext : m.1 < next.1 := namesIncrease_head h rfl
      rcases List.mem_cons.mp hm' with rfl | hm'
      · exact hnext
      · exact Std.lt_trans hnext ((List.pairwise_cons.mp hrest).1 m' hm')

end Json

namespace Decode

variable {depth : Nat}

theorem canonicalItems_toDoc {items : List Json} (h : Json.areCanonical items = true)
    (hread : ∀ v ∈ items, ∀ hv, canonical .json depth v.toDoc = .ok ⟨v, hv⟩) :
    canonicalItems .json depth (items.map Json.toDoc) = .ok ⟨items, h⟩ := by
  induction items with
  | nil => rfl
  | cons v items ih =>
    have hparts := h
    rw [Json.areCanonical, Bool.and_eq_true] at hparts
    rw [List.forall_mem_cons] at hread
    rw [List.map_cons, canonicalItems, hread.1 hparts.1, ih hparts.2 hread.2]

/-- Members in increasing order are added one by one at the end. -/
theorem canonicalMembers_toDoc (before : List (String × Json)) {members : List (String × Json)}
    (h : Json.namesIncrease (before ++ members) = true ∧
      Json.areCanonicalMembers (before ++ members) = true)
    (hbefore : Json.namesIncrease before = true ∧ Json.areCanonicalMembers before = true)
    (hread : ∀ m ∈ members, ∀ hv, canonical .json depth m.2.toDoc = .ok ⟨m.2, hv⟩) :
    canonicalMembers .json depth (members.map fun m => (some m.1, m.2.toDoc)) ⟨before, hbefore⟩ =
      .ok ⟨before ++ members, h⟩ := by
  induction members generalizing before with
  | nil =>
    rw [List.map_nil, canonicalMembers]
    simp only [List.append_nil]
  | cons m members ih =>
    have hcanonical : m.2.isCanonical = true :=
      Json.areCanonicalMembers_iff.mp h.2 m (by simp)
    have hnames := List.pairwise_append.mp (Json.pairwise_of_namesIncrease h.1)
    have hlast : Json.insertMember m.1 m.2 before = before ++ [m] :=
      Json.insertMember_of_lt fun m' hm' => hnames.2.2 m' hm' m List.mem_cons_self
    -- what has been read so far stays in canonical form, which is what the next insertion needs
    have hnext : Json.namesIncrease (before ++ [m]) = true ∧
        Json.areCanonicalMembers (before ++ [m]) = true := by
      rw [← hlast]
      exact ⟨Json.namesIncrease_insertMember hbefore.1,
        Json.areCanonicalMembers_insertMember hcanonical hbefore.2⟩
    rw [List.forall_mem_cons] at hread
    rw [List.map_cons, canonicalMembers, hread.1 hcanonical]
    case hi => exact hbefore.1
    case hc => exact hbefore.2
    have hsplit : before ++ m :: members = before ++ [m] ++ members := by simp
    simp only [hsplit] at h ⊢
    simp only [hlast]
    exact ih (before ++ [m]) h hnext hread.2

/-- **A canonical value is read as itself**, if there is room for it. -/
theorem canonical_toDoc {n : Nat} {v : Json} (h : Json.Plain n v) :
    ∀ {depth}, depth + n ≤ 127 → ∀ hv, canonical .json depth v.toDoc = .ok ⟨v, hv⟩ := by
  induction h with
  | null => exact fun _ _ => rfl
  | bool b => exact fun _ _ => rfl
  | int i =>
    intro depth _ hv
    have hfits := hv
    rw [Json.isCanonical, decide_eq_true_eq] at hfits
    rw [Json.toDoc, canonical, dif_pos hfits]
  | str s => exact fun _ _ => rfl
  | arr _ ih =>
    intro depth hdepth hv
    have hitems := hv
    rw [Json.isCanonical] at hitems
    rw [Json.toDoc_arr, canonical, if_pos (allows_json (by omega)),
      canonicalItems_toDoc hitems fun v hmem => ih v hmem (by omega)]
  | @obj n members _ ih =>
    intro depth hdepth hv
    have hmembers := hv
    rw [Json.isCanonical, Bool.and_eq_true] at hmembers
    have hroom : depth + 1 + n ≤ 127 := by omega
    have hread : canonicalMembers .json (depth + 1) (members.map fun m => (some m.1, m.2.toDoc))
        ⟨[], rfl, rfl⟩ = .ok ⟨members, hmembers⟩ :=
      canonicalMembers_toDoc [] hmembers ⟨rfl, rfl⟩ fun m hmem => ih m hmem hroom
    rw [Json.toDoc_obj, canonical, if_pos (allows_json (by omega)), hread]

theorem restored_annotation {n : Nat} {a : Annotation} (h : a.value.Plain n) (hdepth : depth + n ≤ 127) :
    Restored annotation depth a.value a := by
  refine ⟨Json.exact_of_plain h a.canonical, ?_⟩
  unfold annotation
  rw [canonical_toDoc h hdepth a.canonical]
  rfl

end Decode

/-! ## Definitions in text -/

open Decode

variable {depth : Nat}

namespace State

def fields (s : State) : List (String × Option Json) :=
  [("name", some (.str s.name)), ("accepting", some (.bool s.accepting)),
    ("metadata", if s.metadata.isEmpty then none
      else some (.obj (s.metadata.entries.map fun e => (e.1, e.2.value))))]

theorem toJson_eq (s : State) : s.toJson = .obj (present s.fields) := by
  unfold toJson fields
  cases s.metadata.isEmpty <;> rfl

/-- Annotations that were left out are none at all. -/
theorem restored {s : State} {n : Nat} (h : ∀ a ∈ s.metadata.values, a.value.Plain n)
    (hdepth : depth + 2 + n ≤ 127) : Restored state depth s.toJson s := by
  have hname : Restored text (depth + 1) (.str s.name) s.name := restored_text s.name
  have haccepting : Restored Decode.bool (depth + 1) (.bool s.accepting) s.accepting :=
    restored_bool s.accepting
  have hmetadata : Restored (map .ok annotation) (depth + 1)
      (.obj (s.metadata.entries.map fun e => (e.1, e.2.value))) s.metadata :=
    restored_map id Annotation.value (by omega) (fun _ => rfl) fun e he =>
      restored_annotation (h e.2 (List.mem_map_of_mem he)) (by omega)
  rw [toJson_eq]
  refine restored_record (by omega) (fun _ => rfl) rfl (by decide) ?_ ?_
  · simp [fields, hname.exact, haccepting.exact, hmetadata.exact]
  · have hempty : s.metadata.isEmpty = true → .empty = s.metadata := fun h =>
      OrderedMap.ext (List.isEmpty_iff.mp h).symm
    rw [bind_of_eq_ok (required_found rfl hname), bind_of_eq_ok (withDefault_given rfl haccepting),
      bind_of_eq_ok (withDefault_unless rfl hempty hmetadata)]
    rfl

end State

namespace Transition

def fields (t : Transition) : List (String × Option Json) :=
  [("from", some (.str t.source)), ("to", some (.str t.target)), ("action", some (.str t.action)),
    ("permitted", some (.bool t.permitted)), ("guard", t.guard.map .str)]

theorem toJson_eq (t : Transition) : t.toJson = .obj (present t.fields) := by
  unfold toJson fields
  cases t.guard <;> rfl

theorem restored (t : Transition) (hdepth : depth < 127) : Restored transition depth t.toJson t := by
  have hsource : Restored text (depth + 1) (.str t.source) t.source := restored_text t.source
  have htarget : Restored text (depth + 1) (.str t.target) t.target := restored_text t.target
  have haction : Restored text (depth + 1) (.str t.action) t.action := restored_text t.action
  have hpermitted : Restored Decode.bool (depth + 1) (.bool t.permitted) t.permitted :=
    restored_bool t.permitted
  have hguard : ∀ v, t.guard.map .str = some v → Restored (option text) (depth + 1) v t.guard := by
    intro v hv
    obtain ⟨g, hg, rfl⟩ := Option.map_eq_some_iff.mp hv
    rw [hg]
    exact restored_optText (some g)
  rw [toJson_eq]
  refine restored_record hdepth (fun _ => rfl) rfl (by decide) ?_ ?_
  · simp only [fields, List.forall_mem_cons, Option.some.injEq, forall_eq', List.not_mem_nil,
      false_imp_iff, implies_true, and_true]
    exact ⟨hsource.exact, htarget.exact, haction.exact, hpermitted.exact,
      fun v hv => (hguard v hv).exact⟩
  · have hnone : t.guard.map Json.str = none → none = t.guard := fun h =>
      (Option.map_eq_none_iff.mp h).symm
    rw [bind_of_eq_ok (required_found rfl hsource), bind_of_eq_ok (required_found rfl htarget),
      bind_of_eq_ok (required_found rfl haction), bind_of_eq_ok (required_found rfl hpermitted),
      bind_of_eq_ok (withDefault_found rfl hnone hguard)]
    rfl

end Transition

namespace Definition

def fields (d : Definition) : List (String × Option Json) :=
  [("name", some (.str d.name)), ("initial_state", some (.str d.initialState)),
    ("states", some (.arr (d.states.map State.toJson))),
    ("transitions", some (.arr (d.transitions.map Transition.toJson)))]

theorem restored {d : Definition} (h : ∀ s ∈ d.states, ∀ a ∈ s.metadata.values, a.value.Plain 123) :
    Restored definition 0 d.toJson d := by
  have hjson : d.toJson = .obj (present d.fields) := rfl
  have hname : Restored text 1 (.str d.name) d.name := restored_text d.name
  have hinitial : Restored text 1 (.str d.initialState) d.initialState := restored_text d.initialState
  have hstates : Restored (list state) 1 (.arr (d.states.map State.toJson)) d.states :=
    restored_list (by decide) fun s hs => State.restored (h s hs) (by decide)
  have htransitions : Restored (list transition) 1 (.arr (d.transitions.map Transition.toJson))
      d.transitions :=
    restored_list (by decide) fun t _ => t.restored (by decide)
  rw [hjson]
  refine restored_record (by decide) (fun _ => rfl) rfl (by decide) ?_ ?_
  · simp [fields, hname.exact, hinitial.exact, hstates.exact, htransitions.exact]
  · rw [bind_of_eq_ok (required_found rfl hname), bind_of_eq_ok (required_found rfl hinitial),
      bind_of_eq_ok (required_found rfl hstates),
      bind_of_eq_ok (withDefault_given rfl htransitions)]
    rfl

end Definition

/--
**Exporting and rebuilding loses nothing.**

A definition that was accepted is exported as it was. A protocol, wherever its cursor is, can be rebuilt
from its export, and the result answers any run of requests as the protocol itself does after a reset. And
the export can be read back from its text, if its annotations hold no doubles and leave room for the four
containers around them.
-/
theorem export_loses_nothing :
    (∀ (d : Definition) (p : Protocol), d.build.outcome = .ok p → p.toDefinition = d) ∧
    (∀ p : Protocol, ∃ q, p.toDefinition.build.outcome = .ok q ∧ q = p.reset ∧
      ∀ requests, Request.trace Protocol.serve Protocol.currentState q requests =
        Request.trace Protocol.serve Protocol.currentState p.reset requests) ∧
    ∀ p : Protocol, (∀ s ∈ p.states, ∀ a ∈ s.metadata.values, a.value.Plain 123) →
      Format.json.decode Decode.definition p.toDefinition.toJson.compact = .ok p.toDefinition := by
  refine ⟨?_, ?_, ?_⟩
  · intro d p hbuild
    rw [p.toDefinition_eq, (Definition.build_ok hbuild).1]
  · intro p
    exact ⟨p.reset, p.build_toDefinition, rfl, fun _ => rfl⟩
  · intro p hplain
    have hrestored : Restored definition 0 p.toDefinition.toJson p.toDefinition :=
      Definition.restored hplain
    exact hrestored.decode_compact

/-- A shadowed transition with a guard, and annotations whose keys are not in order and that hold a list
within an object. -/
def annotated : Definition where
  name := "\"P\""
  initialState := "a"
  states := [
    { name := "a"
      metadata := .ofList [("z", ⟨.obj [("k", .arr [.int (-1), .null])], rfl⟩), ("b", .text "\u0000")] },
    .reject "b"]
  transitions := [.permit "a" "b" "go", (Transition.deny "a" "a" "go").withGuard "never"]

theorem plain_annotated : ∀ s ∈ annotated.states, ∀ a ∈ s.metadata.values, a.value.Plain 123 := by
  have hvalue : Json.Plain 123 (.obj [("k", .arr [.int (-1), .null])]) := by
    refine .obj fun m hm => ?_
    rw [List.mem_singleton.mp hm]
    refine .arr fun v hv => ?_
    rcases List.mem_cons.mp hv with rfl | hv
    · exact .int (-1)
    · rw [List.mem_singleton.mp hv]
      exact .null
  intro s hs a ha
  rcases List.mem_cons.mp hs with rfl | hs
  · rcases List.mem_cons.mp ha with rfl | ha
    · exact hvalue
    · rw [List.mem_singleton.mp ha]
      exact .str _
  · rw [List.mem_singleton.mp hs] at ha
    exact absurd ha List.not_mem_nil

/-- The export of a protocol whose cursor has been moved. -/
theorem export_loses_nothing_annotated :
    ∃ p : Protocol, annotated.build.outcome = .ok p ∧ p.toDefinition = annotated ∧
      (p.moveTo 1).position.val = 1 ∧
      (p.moveTo 1).toDefinition.build.outcome = .ok (p.moveTo 1).reset ∧
      Format.json.decode Decode.definition (p.moveTo 1).toDefinition.toJson.compact =
        .ok (p.moveTo 1).toDefinition := by
  have hwf : annotated.WellFormed := by decide
  obtain ⟨p, hp, hdefinition⟩ := hwf.exists_build_ok
  obtain ⟨hexport, hrebuild, htext⟩ := export_loses_nothing
  refine ⟨p, hp, hexport annotated p hp, ?_, ?_, ?_⟩
  · refine Protocol.position_moveTo ?_
    rw [Protocol.stateCount, Protocol.states, hdefinition]
    decide
  · obtain ⟨q, hq, rfl, _⟩ := hrebuild (p.moveTo 1)
    exact hq
  · apply htext
    rw [Protocol.states, Protocol.definition_moveTo, hdefinition]
    exact plain_annotated

end Lockstep
