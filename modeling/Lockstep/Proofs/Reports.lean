import Lockstep.Proofs.Decoding
import Lockstep.Proofs.Sweep

/-!
# Reports are read back

The text of a report is all that is left of a verification once the program has ended. Nothing is lost in
it: the report that is decoded from the text is the report that was written, whatever the names are, however
large the counts, and in whatever order the verdicts stand.
-/

namespace Lockstep

open Decode

variable {depth : Nat}

theorem lt_of_le_maxSize {n : Nat} (h : n ≤ maxSize) : n < Nat.pow 2 64 :=
  Nat.lt_of_le_of_lt h (by decide)

namespace Snapshot

/-- What is written for each member. -/
def fields (s : Snapshot) : List (String × Option Json) :=
  [("states", some (.obj (s.states.entries.map fun e => (e.1, .str e.2)))),
    ("actions", some (.texts s.actions))]

theorem restored (s : Snapshot) (hdepth : depth + 2 ≤ 127) : Restored snapshot depth s.toJson s := by
  have hjson : s.toJson = .obj (present s.fields) := rfl
  have hstates : Restored (map .ok text) (depth + 1)
      (.obj (s.states.entries.map fun e => (e.1, .str e.2))) s.states :=
    restored_map id Json.str (by omega) (fun _ => rfl) fun e _ => restored_text e.2
  have hactions : Restored (list text) (depth + 1) (.texts s.actions) s.actions :=
    restored_texts (by omega)
  rw [hjson]
  refine restored_record (by omega) (fun _ => rfl) rfl (by decide) ?_ ?_
  · simp [fields, hstates.exact, hactions.exact]
  · rw [bind_of_eq_ok (required_found rfl hstates), bind_of_eq_ok (required_found rfl hactions)]
    rfl

end Snapshot

namespace Counterexample

def fields (c : Counterexample) : List (String × Option Json) :=
  [("state", some c.state.toJson), ("action", some (.optText c.action))]

theorem restored (c : Counterexample) (hdepth : depth + 3 ≤ 127) :
    Restored counterexample depth c.toJson c := by
  have hjson : c.toJson = .obj (present c.fields) := rfl
  have hstate : Restored snapshot (depth + 1) c.state.toJson c.state := c.state.restored (by omega)
  have haction : Restored (option text) (depth + 1) (.optText c.action) c.action :=
    restored_optText c.action
  rw [hjson]
  refine restored_record (by omega) (fun _ => rfl) rfl (by decide) ?_ ?_
  · simp [fields, hstate.exact, haction.exact]
  · rw [bind_of_eq_ok (required_found rfl hstate), bind_of_eq_ok (optional_found rfl haction)]
    rfl

end Counterexample

namespace Verdict

def fields (v : Verdict) : List (String × Option Json) :=
  [("property", some (.str v.property.name)), ("holds", some (.bool v.holds)),
    ("states_checked", some (.nat v.statesChecked)), ("bound_reached", some (.bool v.boundReached)),
    ("counterexample", some (.opt Counterexample.toJson v.counterexample)),
    ("violating_protocol", some (.optText v.violatingProtocol))]

theorem restored {v : Verdict} (hdepth : depth + 4 ≤ 127) (hchecked : v.statesChecked ≤ maxSize) :
    Restored verdict depth v.toJson v := by
  have hjson : v.toJson = .obj (present v.fields) := rfl
  have hproperty : Restored Decode.property (depth + 1) (.str v.property.name) v.property :=
    restored_property v.property
  have hholds : Restored bool (depth + 1) (.bool v.holds) v.holds := restored_bool v.holds
  have hcount : Restored nat (depth + 1) (.nat v.statesChecked) v.statesChecked :=
    restored_nat (lt_of_le_maxSize hchecked)
  have hbound : Restored bool (depth + 1) (.bool v.boundReached) v.boundReached :=
    restored_bool v.boundReached
  -- a counterexample is an object, so it is not taken for none
  have hcx : Restored (option Decode.counterexample) (depth + 1)
      (.opt Counterexample.toJson v.counterexample) v.counterexample :=
    restored_option (fun c _ => c.restored (by omega)) fun c _ => by
      rw [Counterexample.toJson, Json.toDoc_obj]
      exact Doc.noConfusion
  have hviolator : Restored (option text) (depth + 1) (.optText v.violatingProtocol)
      v.violatingProtocol :=
    restored_optText v.violatingProtocol
  rw [hjson]
  refine restored_record (by omega) (fun _ => rfl) rfl (by decide) ?_ ?_
  · simp [fields, hproperty.exact, hholds.exact, hcount.exact, hbound.exact, hcx.exact,
      hviolator.exact]
  · rw [bind_of_eq_ok (required_found rfl hproperty), bind_of_eq_ok (required_found rfl hholds),
      bind_of_eq_ok (required_found rfl hcount), bind_of_eq_ok (required_found rfl hbound),
      bind_of_eq_ok (optional_found rfl hcx), bind_of_eq_ok (optional_found rfl hviolator)]
    rfl

end Verdict

namespace PropertySpec

def fields (s : PropertySpec) : List (String × Option Json) :=
  [("kind", some (.str s.kind.name)), ("name", some (.str s.name)),
    ("description", some (.str s.description)),
    ("priority_order", if s.priorityOrder.isEmpty then none else some (.texts s.priorityOrder))]

theorem toJson_eq (s : PropertySpec) : s.toJson = .obj (present s.fields) := by
  unfold toJson fields
  cases s.priorityOrder.isEmpty <;> rfl

/-- A priority order that was left out is the empty one. -/
theorem restored (s : PropertySpec) (hdepth : depth + 2 ≤ 127) :
    Restored propertySpec depth s.toJson s := by
  have hkind : Restored property (depth + 1) (.str s.kind.name) s.kind := restored_property s.kind
  have hname : Restored text (depth + 1) (.str s.name) s.name := restored_text s.name
  have hdescription : Restored text (depth + 1) (.str s.description) s.description :=
    restored_text s.description
  have horder : Restored (list text) (depth + 1) (.texts s.priorityOrder) s.priorityOrder :=
    restored_texts (by omega)
  rw [toJson_eq]
  refine restored_record (by omega) (fun _ => rfl) rfl (by decide) ?_ ?_
  · simp [fields, hkind.exact, hname.exact, hdescription.exact, horder.exact]
  · have hempty : s.priorityOrder.isEmpty = true → [] = s.priorityOrder := fun h =>
      (List.isEmpty_iff.mp h).symm
    rw [bind_of_eq_ok (required_found rfl hkind), bind_of_eq_ok (required_found rfl hname),
      bind_of_eq_ok (required_found rfl hdescription),
      bind_of_eq_ok (withDefault_unless rfl hempty horder)]
    rfl

end PropertySpec

namespace Report

def fields (r : Report) : List (String × Option Json) :=
  [("protocols", some (.texts r.protocols)), ("priority", some (.texts r.priority)),
    ("max_states", some (.nat r.maxStates)), ("state_space_size", some (.nat r.stateSpaceSize)),
    ("properties", some (.arr (r.properties.map PropertySpec.toJson))),
    ("results", some (.obj (r.results.entries.map fun e => (e.1.name, e.2.toJson))))]

/-- The counts of a report are ones that fit in 64 bits. -/
structure Counted (r : Report) : Prop where
  maxStates : r.maxStates ≤ maxSize
  stateSpaceSize : r.stateSpaceSize ≤ maxSize
  statesChecked : ∀ v ∈ r.results.values, v.statesChecked ≤ maxSize

/-- The size of the product does not have to be asked about: from the largest count on, that is what is
reported. -/
theorem counted_ofRun (c : Composition) (priority : List String) {maxStates : Nat}
    (hmax : maxStates ≤ maxSize) {results : OrderedMap Property Verdict}
    (hchecked : ∀ v ∈ results.values, v.statesChecked ≤ maxSize) :
    (ofRun c priority maxStates results).Counted where
  maxStates := hmax
  stateSpaceSize := by
    have hsize : c.stateSpaceSize ≤ maxSize := by
      rw [c.stateSpaceSize_eq]
      exact Nat.min_le_right c.productSize maxSize
    exact hsize
  statesChecked := hchecked

theorem Counted.restored {r : Report} (h : r.Counted) : Restored report 0 r.toJson r := by
  have hjson : r.toJson = .obj (present r.fields) := rfl
  have hprotocols : Restored (list text) 1 (.texts r.protocols) r.protocols :=
    restored_texts (by decide)
  have hpriority : Restored (list text) 1 (.texts r.priority) r.priority := restored_texts (by decide)
  have hbound : Restored nat 1 (.nat r.maxStates) r.maxStates := restored_nat (lt_of_le_maxSize h.maxStates)
  have hproduct : Restored nat 1 (.nat r.stateSpaceSize) r.stateSpaceSize :=
    restored_nat (lt_of_le_maxSize h.stateSpaceSize)
  have hproperties : Restored (list propertySpec) 1 (.arr (r.properties.map PropertySpec.toJson))
      r.properties :=
    restored_list (by decide) fun s _ => s.restored (by decide)
  have hresults : Restored (map propertyKey verdict) 1
      (.obj (r.results.entries.map fun e => (e.1.name, e.2.toJson))) r.results :=
    restored_map Property.name Verdict.toJson (by decide) propertyKey_name fun e he =>
      Verdict.restored (by decide) (h.statesChecked e.2 (List.mem_map_of_mem he))
  rw [hjson]
  refine restored_record (by decide) (fun _ => rfl) rfl (by decide) ?_ ?_
  · simp [fields, hprotocols.exact, hpriority.exact, hbound.exact, hproduct.exact,
      hproperties.exact, hresults.exact]
  · rw [bind_of_eq_ok (required_found rfl hprotocols), bind_of_eq_ok (required_found rfl hpriority),
      bind_of_eq_ok (required_found rfl hbound), bind_of_eq_ok (required_found rfl hproduct),
      bind_of_eq_ok (required_found rfl hproperties), bind_of_eq_ok (required_found rfl hresults)]
    rfl

end Report

/--
**A report is decoded from its own text**, exactly as it was.

That goes for every report whose counts fit in 64 bits, and so for the report of any run whose bound and whose
numbers of checked joint states do.
-/
theorem report_read_back :
    (∀ r : Report, r.Counted → Format.json.decode Decode.report r.toJsonPretty = .ok r) ∧
    ∀ (c : Composition) (priority : List String) (maxStates : Nat) (results : OrderedMap Property Verdict),
      maxStates ≤ maxSize → (∀ v ∈ results.values, v.statesChecked ≤ maxSize) →
      Format.json.decode Decode.report (Report.ofRun c priority maxStates results).toJsonPretty =
        .ok (Report.ofRun c priority maxStates results) := by
  constructor
  · intro r hcounted
    exact hcounted.restored.decode_pretty
  · intro c priority maxStates results hmax hchecked
    exact (Report.counted_ofRun c priority hmax hchecked).restored.decode_pretty

/-- A name with a quote, a backslash, control characters with and without a letter of their own, and a
character beyond the first plane. -/
def awkwardName : String := "\"\\\u0000\n𝄞"

/-- Two verdicts out of order, one of them under the name of another property, and the largest counts. -/
def awkwardResults : OrderedMap Property Verdict where
  entries :=
    [(.priorityOrdering, .violated .priorityOrdering maxSize
      ⟨⟨.ofList [(awkwardName, "")], ["\u001f/"]⟩, some "é"⟩ none),
    (.monotonicRestriction, .holding .deadlockFreedom 0 true)]
  nodup := by decide

/-- A report that no run gives, of nothing and with a catalogue entry for a property without a verdict, and the
report of a run. -/
theorem report_read_back_awkward :
    Format.json.decode Decode.report
        (Report.mk [] [awkwardName] maxSize 0 [.ofProperty .deadlockFreedom []] awkwardResults).toJsonPretty =
      .ok ⟨[], [awkwardName], maxSize, 0, [.ofProperty .deadlockFreedom []], awkwardResults⟩ ∧
    ∃ c : Composition, c.names = [awkwardName] ∧
      Format.json.decode Decode.report (Report.ofRun c [awkwardName] maxSize awkwardResults).toJsonPretty =
        .ok (Report.ofRun c [awkwardName] maxSize awkwardResults) := by
  have hchecked : ∀ v ∈ awkwardResults.values, v.statesChecked ≤ maxSize := by
    simp [awkwardResults, OrderedMap.values, Verdict.violated, Verdict.holding]
  constructor
  · refine report_read_back.1 _ ⟨Nat.le_refl maxSize, Nat.zero_le maxSize, hchecked⟩
  · obtain ⟨c, hc⟩ : ∃ c : Composition, c.protocols.map Protocol.definition =
        [⟨awkwardName, "", [.accept ""], []⟩] :=
      exists_composition (by decide) (by decide) (by decide)
    have hnames : c.names = [awkwardName] := by
      have hdefinitions : c.names = (c.protocols.map Protocol.definition).map Definition.name := by
        rw [List.map_map]
        rfl
      rw [hdefinitions, hc]
      rfl
    exact ⟨c, hnames, report_read_back.2 c _ maxSize awkwardResults (Nat.le_refl maxSize) hchecked⟩

end Lockstep
