import Lockstep.Doc

/-!
# Tables under construction

A TOML document builds its tables piece by piece, and what may be added where depends on how a table
came to be. A table with a header of its own is closed to dotted keys from elsewhere; one that exists
only because a longer header goes through it can still get its own header; one that dotted keys
created can get neither a header nor keys written otherwise.
-/

namespace Lockstep.Toml

/-- How a table came to be. -/
inductive Origin where
  /-- It has a header, or is the document itself. -/
  | explicit
  /-- A longer header goes through it. -/
  | implied
  /-- A dotted key goes through it. -/
  | dotted
  deriving Repr, DecidableEq

/-- What a key of an unfinished table stands for. -/
inductive Node where
  /-- A value that is finished. -/
  | value (d : Doc)
  /-- A table that may still grow. -/
  | table (origin : Origin) (entries : List (String × Node))
  /-- An array of tables, the last of which may still grow. -/
  | tables (elements : List (List (String × Node)))

/-- The keys of an unfinished table, in order. -/
abbrev Entries := List (String × Node)

namespace Entries

/-- What a key stands for. -/
def find? (es : Entries) (key : String) : Option Node :=
  (List.find? (fun e => e.1 = key) es).map Prod.snd

/-- Let a key stand for something: in its place if it is there, at the end otherwise. -/
def set (key : String) (node : Node) : Entries → Entries
  | [] => [(key, node)]
  | (k, n) :: rest => if k = key then (k, node) :: rest else (k, n) :: set key node rest

/-- Drop a key. -/
def erase (es : Entries) (key : String) : Entries := es.filter (fun e => e.1 ≠ key)

/-- Go down a path of keys and change the table at its end. Tables that are missing on the way are
created, as dotted or implied ones. A dotted path may not enter a table with a header, and no path
may enter a value. An array of tables is entered at its last element. -/
def change {α : Type} (dotted : Bool) (f : Origin → Entries → Option (Entries × α)) :
    List String → Origin → Entries → Option (Entries × α)
  | [], origin, es => f origin es
  | key :: path, _, es =>
    let origin : Origin := if dotted then .dotted else .implied
    match es.find? key with
    | none =>
      (change dotted f path origin []).map fun (inner, a) => (es.set key (.table origin inner), a)
    | some (.value _) => none
    | some (.table o inner) =>
      if dotted && o == .explicit then none
      else (change dotted f path o inner).map fun (inner, a) => (es.set key (.table o inner), a)
    | some (.tables elements) =>
      match elements.getLast? with
      | none => none
      | some last =>
        (change dotted f path .explicit last).map fun (inner, a) =>
          (es.set key (.tables (elements.dropLast ++ [inner])), a)

/-- Give a new key in a table a value. A table that a dotted path leads to takes it only if dotted
keys created the table, and any other only if the path is empty. -/
def addKey (es : Entries) (origin : Origin) (path : List String) (key : String) (d : Doc) :
    Option Entries :=
  (change true (fun o inner =>
    if (o == .dotted) == path.isEmpty then none
    else match find? inner key with
      | some _ => none
      | none => some (inner.set key (.value d), ())) path origin es).map Prod.fst

end Entries

mutual

/-- A node, finished. -/
def Node.toDoc : Node → Doc
  | .value d => d
  | .table _ es => .obj (entriesToDoc es)
  | .tables elements => .arr (elementsToDoc elements)

/-- The keys of a table, finished. -/
def entriesToDoc : List (String × Node) → List (Option String × Doc)
  | [] => []
  | (k, n) :: rest => (some k, n.toDoc) :: entriesToDoc rest

/-- The elements of an array of tables, finished. -/
def elementsToDoc : List (List (String × Node)) → List Doc
  | [] => []
  | es :: rest => .obj (entriesToDoc es) :: elementsToDoc rest

end

end Lockstep.Toml
