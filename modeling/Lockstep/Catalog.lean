import Lockstep.CompositionFile

/-!
# Governance protocols to try things on

Three small protocols over one alphabet of five actions, and a fourth that denies everything. They
show what composition does; none of them models a real system.
-/

namespace Lockstep.Catalog

/-- The five actions, in order of presentation. -/
def actions : List String := ["read", "write", "execute", "delete", "escalate"]

/-- A state with an annotation of its own and a label. -/
def labelled (s : State) (key : String) (value : Annotation) (label : String) : State :=
  (s.annotate key value).annotate "label" (.text label)

/-- Trust that grows with use: a first benign `write` lifts `low` to `medium`, an `execute` lifts
`medium` to `high`. To `escalate` is always denied. -/
def atp : Definition where
  name := "ATP"
  initialState := "low"
  states := [
    labelled (.accept "low") "tier" (.nat 1) "Low Trust",
    labelled (.accept "medium") "tier" (.nat 2) "Medium Trust",
    labelled (.accept "high") "tier" (.nat 3) "High Trust"]
  transitions := [
    .permit "low" "low" "read",
    (Transition.permit "low" "medium" "write").withGuard "first_benign_write_observed",
    .deny "low" "low" "execute",
    .deny "low" "low" "delete",
    .deny "low" "low" "escalate",
    .permit "medium" "medium" "read",
    .permit "medium" "medium" "write",
    (Transition.permit "medium" "high" "execute").withGuard "two_or_more_successful_interactions",
    .deny "medium" "medium" "delete",
    .deny "medium" "low" "escalate",
    .permit "high" "high" "read",
    .permit "high" "high" "write",
    .permit "high" "high" "execute",
    .permit "high" "high" "delete",
    .deny "high" "low" "escalate"]

/-- Security under review: an `execute` raises the alert, a `read` clears it, and in `lockdown`
everything is denied. -/
def asp : Definition where
  name := "ASP"
  initialState := "normal"
  states := [
    labelled (.accept "normal") "risk" (.text "low") "Normal",
    labelled (.accept "elevated") "risk" (.text "med") "Elevated",
    labelled (.reject "lockdown") "risk" (.text "high") "Lockdown"]
  transitions := [
    .permit "normal" "normal" "read",
    .permit "normal" "normal" "write",
    (Transition.permit "normal" "elevated" "execute").withGuard "execute_triggers_review",
    .deny "normal" "lockdown" "delete",
    .deny "normal" "elevated" "escalate",
    (Transition.permit "elevated" "normal" "read").withGuard "read_clears_elevated_state",
    .deny "elevated" "elevated" "write",
    .deny "elevated" "lockdown" "execute",
    .deny "elevated" "lockdown" "delete",
    .deny "elevated" "lockdown" "escalate",
    .deny "lockdown" "lockdown" "read",
    .deny "lockdown" "lockdown" "write",
    .deny "lockdown" "lockdown" "execute",
    .deny "lockdown" "lockdown" "delete",
    .deny "lockdown" "lockdown" "escalate"]

/-- A budget: `write` and `delete` use it up, and once it is exhausted only `read` is left. -/
def aeap : Definition where
  name := "AEAP"
  initialState := "available"
  states := [
    labelled (.accept "available") "budget" (.text "full") "Budget Available",
    labelled (.accept "warning") "budget" (.text "partial") "Budget Warning",
    labelled (.accept "exhausted") "budget" (.text "none") "Budget Exhausted"]
  transitions := [
    .permit "available" "available" "read",
    (Transition.permit "available" "warning" "write").withGuard "write_consumes_budget",
    .permit "available" "available" "execute",
    (Transition.permit "available" "warning" "delete").withGuard "delete_consumes_budget",
    .deny "available" "available" "escalate",
    .permit "warning" "warning" "read",
    .deny "warning" "exhausted" "write",
    .permit "warning" "warning" "execute",
    .deny "warning" "exhausted" "delete",
    .deny "warning" "available" "escalate",
    .permit "exhausted" "exhausted" "read",
    .deny "exhausted" "exhausted" "write",
    .deny "exhausted" "exhausted" "execute",
    .deny "exhausted" "exhausted" "delete",
    .deny "exhausted" "available" "escalate"]

/-- One error state that denies every action: what is composed with it is stuck from the start. -/
def broken : Definition where
  name := "BROKEN"
  initialState := "sink"
  states := [(State.reject "sink").annotate "label" (.text "Deadlock Sink")]
  transitions := actions.map (.deny "sink" "sink")

/-- The protocols that make up the standard composition. -/
def standard : List Definition := [atp, asp, aeap]

/-- A protocol of the catalogue by its name. -/
def find? (name : String) : Option Definition :=
  [atp, asp, aeap, broken].find? (fun d => d.name = name)

end Lockstep.Catalog
