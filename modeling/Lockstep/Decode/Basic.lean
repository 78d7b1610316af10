import Lockstep.Doc
import Lockstep.Json.Annotation
import Lockstep.OrderedMap

/-!
# From documents to typed values

A decoder reads a document tree as a value of a given type. There are no coercions: a number is not a
truth value, and a double is not an integer.

A record is read from an object, where members the record does not know are passed over and a known
member may not repeat, or from an array of its members in order of declaration. What is passed over is
not looked at, so even a token without a value may stand there.

The two text formats differ in three rules, which make up a `Dialect`.
-/

namespace Lockstep

/-- Why a document is not a value of the expected type. -/
inductive DecodeError where
  /-- The text is not a document of its format. -/
  | malformed
  /-- Something else was expected. -/
  | expected (what : String)
  /-- A member is missing. -/
  | missing (member : String)
  /-- A member is given twice. -/
  | repeated (member : String)
  /-- An array has more elements than the record has members. -/
  | excess
  /-- The document nests too deep. -/
  | tooDeep
  deriving Repr, DecidableEq

/-- The text of a decoding error. -/
def DecodeError.message : DecodeError → String
  | malformed => "malformed document"
  | expected what => s!"expected {what}"
  | missing member => s!"missing member '{member}'"
  | repeated member => s!"repeated member '{member}'"
  | excess => "too many elements"
  | tooDeep => "nesting too deep"

/-- What a text format leaves to its typed reading. -/
structure Dialect where
  /-- How many containers may be open at once, if that is limited. -/
  maxDepth : Option Nat
  /-- Whether elements after the last member of a record are passed over. -/
  ignoresExcess : Bool
  /-- What may stand for the missing contents of a name that is written as a member. -/
  isUnit : Doc → Bool

namespace Dialect

/-- JSON: at most 127 open containers, no excess elements, and null for nothing. -/
def json : Dialect where
  maxDepth := some 127
  ignoresExcess := false
  isUnit
    | .null => true
    | _ => false

/-- TOML: depth is the reader's business, excess elements are passed over, and an empty container
stands for nothing. -/
def toml : Dialect where
  maxDepth := none
  ignoresExcess := true
  isUnit
    | .arr [] | .obj [] => true
    | _ => false

/-- Whether a container inside `depth` others is allowed. -/
def allows (dialect : Dialect) (depth : Nat) : Bool :=
  match dialect.maxDepth with
  | some limit => depth < limit
  | none => true

end Dialect

/-- A way to read a document inside `depth` containers as a value. -/
abbrev Decoder (α : Type) := Dialect → Nat → Doc → Except DecodeError α

namespace Decode

variable {α : Type}

def bool : Decoder Bool := fun _ _ d =>
  match d with
  | .bool b => .ok b
  | _ => .error (.expected "a truth value")

def text : Decoder String := fun _ _ d =>
  match d with
  | .str s => .ok s
  | _ => .error (.expected "a text")

/-- A natural of 64 bits. -/
def nat : Decoder Nat := fun _ _ d =>
  match d with
  | .int (.ofNat n) => if n < Nat.pow 2 64 then .ok n else .error (.expected "a natural")
  | _ => .error (.expected "a natural")

/-- A value or null. -/
def option (inner : Decoder α) : Decoder (Option α) := fun dialect depth d =>
  match d with
  | .null => .ok none
  | d => (inner dialect depth d).map some

/-- An array of values. -/
def list (inner : Decoder α) : Decoder (List α) := fun dialect depth d =>
  match d with
  | .arr items =>
    if dialect.allows depth then items.mapM (inner dialect (depth + 1)) else .error .tooDeep
  | _ => .error (.expected "an array")

/-- The name of a member. -/
def memberName : Option String → Except DecodeError String
  | some name => .ok name
  | none => .error (.expected "a name")

/-- An object as a map from its names, read by `key`, to values. A repeated name keeps its first place
and takes its last value. -/
def map {κ : Type} [DecidableEq κ] (key : String → Except DecodeError κ) (inner : Decoder α) :
    Decoder (OrderedMap κ α) := fun dialect depth d =>
  match d with
  | .obj members =>
    if dialect.allows depth then do
      let bindings ← members.mapM fun (name, d) => do
        let name ← memberName name
        let k ← key name
        let v ← inner dialect (depth + 1) d
        pure (k, v)
      pure (.ofList bindings)
    else .error .tooDeep
  | _ => .error (.expected "an object")

/-- One of a set of names, given as a text or as the only member of an object. -/
def name (known : String → Option α) : Decoder α := fun dialect depth d =>
  let find (s : String) : Except DecodeError α := match known s with
    | some a => .ok a
    | none => .error (.expected "a known name")
  match d with
  | .str s => find s
  | .obj [(some s, contents)] =>
    if dialect.allows depth then
      if dialect.isUnit contents then find s else .error (.expected "no contents")
    else .error .tooDeep
  | _ => .error (.expected "a name")

/-! ## Annotations -/

/-- Values in canonical form. -/
abbrev Canonical := { v : Json // v.isCanonical = true }

/-- A list of values in canonical form. -/
abbrev CanonicalItems := { vs : List Json // Json.areCanonical vs = true }

/-- Members in canonical form. -/
abbrev CanonicalMembers :=
  { ms : List (String × Json) // Json.namesIncrease ms = true ∧ Json.areCanonicalMembers ms = true }

mutual

/-- Any document as a value in canonical form. A double that is no number becomes null. -/
def canonical (dialect : Dialect) (depth : Nat) : Doc → Except DecodeError Canonical
  | .null => .ok ⟨.null, Json.isCanonical_null⟩
  | .bool b => .ok ⟨.bool b, Json.isCanonical_bool b⟩
  | .int i =>
    if h : -(Nat.pow 2 63 : Int) ≤ i ∧ i < Nat.pow 2 64 then
      .ok ⟨.int i, Json.isCanonical_int h⟩
    else .error (.expected "an integer of 64 bits")
  | .float x =>
    if h : x.isFinite = true then .ok ⟨.float x, Json.isCanonical_float h⟩
    else .ok ⟨.null, Json.isCanonical_null⟩
  | .str s => .ok ⟨.str s, Json.isCanonical_str s⟩
  | .unreadable => .error (.expected "a value")
  | .arr items =>
    if dialect.allows depth then
      match canonicalItems dialect (depth + 1) items with
      | .error e => .error e
      | .ok ⟨vs, h⟩ => .ok ⟨.arr vs, Json.isCanonical_arr h⟩
    else .error .tooDeep
  | .obj members =>
    if dialect.allows depth then
      match canonicalMembers dialect (depth + 1) members ⟨[], Json.canonicalMembers_nil⟩ with
      | .error e => .error e
      | .ok ⟨ms, h⟩ => .ok ⟨.obj ms, Json.isCanonical_obj h⟩
    else .error .tooDeep

/-- The elements of an array in canonical form. -/
def canonicalItems (dialect : Dialect) (depth : Nat) :
    List Doc → Except DecodeError CanonicalItems
  | [] => .ok ⟨[], Json.areCanonical_nil⟩
  | d :: rest =>
    match canonical dialect depth d, canonicalItems dialect depth rest with
    | .ok ⟨v, hv⟩, .ok ⟨vs, hvs⟩ => .ok ⟨v :: vs, Json.areCanonical_cons hv hvs⟩
    | .error e, _ => .error e
    | _, .error e => .error e

/-- The members of an object in canonical form, added to those already read. -/
def canonicalMembers (dialect : Dialect) (depth : Nat) :
    List (Option String × Doc) → CanonicalMembers → Except DecodeError CanonicalMembers
  | [], ms => .ok ms
  | (none, _) :: _, _ => .error (.expected "a name")
  | (some k, d) :: rest, ⟨ms, hi, hc⟩ =>
    match canonical dialect depth d with
    | .error e => .error e
    | .ok ⟨v, hv⟩ =>
      canonicalMembers dialect depth rest
        ⟨Json.insertMember k v ms, Json.namesIncrease_insertMember hi,
          Json.areCanonicalMembers_insertMember hv hc⟩

end

/-- Any document as an annotation. -/
def annotation : Decoder Annotation := fun dialect depth d =>
  (canonical dialect depth d).map fun v => ⟨v.1, v.2⟩

/-! ## Records -/

/-- The members of a record, in order of declaration, as far as they are given. -/
structure Members where
  given : List (Option Doc)
  /-- Whether they were given in order rather than by name. -/
  positional : Bool

/-- The document of a named member, if it is given once. -/
def member? (name : String) (members : List (Option String × Doc)) :
    Except DecodeError (Option Doc) :=
  match members.filter (fun m => m.1 = some name) with
  | [] => .ok none
  | [(_, d)] => .ok (some d)
  | _ => .error (.repeated name)

/-- The members of a record with the given names. -/
def members (names : List String) : Decoder Members := fun dialect depth d =>
  if dialect.allows depth then
    match d with
    | .obj ms =>
      if ms.any (fun m => m.1.isNone) then .error (.expected "a name")
      else do
        let given ← names.mapM fun name => member? name ms
        pure { given, positional := false }
    | .arr items =>
      if names.length < items.length ∧ ¬ dialect.ignoresExcess then .error .excess
      else
        pure {
          given := (List.range names.length).map fun i => items[i]?
          positional := true }
    | _ => .error (.expected "a record")
  else .error .tooDeep

namespace Members

/-- The member at a place, if it is given. -/
def get? (m : Members) (i : Nat) : Option Doc := (m.given[i]?).join

/-- A member that must be given. -/
def required (m : Members) (i : Nat) (name : String) (read : Doc → Except DecodeError α) :
    Except DecodeError α :=
  match m.get? i with
  | some d => read d
  | none => .error (.missing name)

/-- A member with a default. -/
def withDefault (m : Members) (i : Nat) (value : α) (read : Doc → Except DecodeError α) :
    Except DecodeError α :=
  match m.get? i with
  | some d => read d
  | none => .ok value

/-- A member that may be left out by name, though not in order. -/
def optional (m : Members) (i : Nat) (name : String) (read : Doc → Except DecodeError (Option α)) :
    Except DecodeError (Option α) :=
  match m.get? i with
  | some d => read d
  | none => if m.positional then .error (.missing name) else .ok none

end Members

end Decode

end Lockstep
