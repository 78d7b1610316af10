import Lockstep.Toml.DateTime
import Lockstep.Toml.Node

/-!
# Reading TOML text

Values first, then documents. A document is read line by line: a key with its value goes to the table
of the last header, and a header puts that table in its place and opens the next one.
-/

namespace Lockstep.Toml

mutual

/-- The value at the head of a text, inside `depth` containers. -/
def readValue (depth : Nat) : Nat → List Char → Option (Doc × List Char)
  | 0, _ => none
  | fuel + 1, cs =>
    match cs with
    | '"' :: _ => (readText cs).map fun (s, rest) => (.str s, rest)
    | '\'' :: _ => (readText cs).map fun (s, rest) => (.str s, rest)
    | '[' :: rest =>
      if depth + 1 < maxDepth then
        (readItems (depth + 1) fuel rest).map fun (items, rest) => (.arr items, rest)
      else none
    | '\x7b' :: rest =>
      if depth + 1 < maxDepth then
        match skipBlanks rest with
        | '\x7d' :: rest => some (.obj [], rest)
        | rest =>
          (readPairs (depth + 1) fuel rest []).map fun (es, rest) => (.obj (entriesToDoc es), rest)
      else none
    | 't' :: 'r' :: 'u' :: 'e' :: rest => some (.bool true, rest)
    | 'f' :: 'a' :: 'l' :: 's' :: 'e' :: rest => some (.bool false, rest)
    | _ => readDateTime cs <|> readDecimal cs <|> readSpecial cs <|> readInt cs

/-- The elements of an array up to its closing bracket. The last one may have a comma. -/
def readItems (depth : Nat) : Nat → List Char → Option (List Doc × List Char)
  | 0, _ => none
  | fuel + 1, cs =>
    match skipLines cs with
    | ']' :: rest => some ([], rest)
    | cs => do
      let (v, rest) ← readValue depth fuel cs
      match skipLines rest with
      | ',' :: rest => do
        let (items, rest) ← readItems depth fuel rest
        pure (v :: items, rest)
      | ']' :: rest => pure ([v], rest)
      | _ => none

/-- The keys and values of an inline table up to its closing brace, at least one. -/
def readPairs (depth : Nat) : Nat → List Char → Entries → Option (Entries × List Char)
  | 0, _, _ => none
  | fuel + 1, cs, es => do
    let ((path, key), rest) ← readKey cs
    match rest with
    | '=' :: rest => do
      let (v, rest) ← readValue depth fuel (skipBlanks rest)
      let es ← es.addKey .explicit path key v
      match skipBlanks rest with
      | ',' :: rest => readPairs depth fuel rest es
      | '\x7d' :: rest => pure (es, rest)
      | _ => none
    | _ => none

end

/-- A document on its way: what is in place, and the table of the last header. -/
structure Draft where
  /-- The tables that are in place. -/
  root : Entries := []
  /-- The table of the last header. -/
  current : Entries := []
  /-- Where it belongs; nowhere else than at the root before the first header. -/
  header : Option (List String × String) := none
  /-- Whether it is an element of an array of tables. -/
  isElement : Bool := false

namespace Draft

/-- Put the table of the last header in its place. -/
def settle (d : Draft) : Option Entries :=
  match d.header with
  | none => some d.current
  | some (path, key) =>
    (Entries.change false (fun _ parent =>
      if d.isElement then
        match parent.find? key with
        | none => some (parent.set key (.tables [d.current]), ())
        | some (.tables elements) => some (parent.set key (.tables (elements ++ [d.current])), ())
        | some _ => none
      else
        match parent.find? key with
        | none => some (parent.set key (.table .explicit d.current), ())
        | some _ => none) path .explicit d.root).map Prod.fst

/-- Open the table of a header. A table that longer headers went through is continued, and counts as
written where its own header stands; a table that is already there otherwise is refused. -/
def openTable (d : Draft) (path : List String) (key : String) : Option Draft := do
  let root ← d.settle
  let (root, current) ← Entries.change false (fun _ parent =>
    match parent.find? key with
    | none => some (parent, [])
    | some (.table .implied es) => some (parent.erase key, es)
    | some _ => none) path .explicit root
  pure { root, current, header := some (path, key), isElement := false }

/-- Open a new element of an array of tables. -/
def openElement (d : Draft) (path : List String) (key : String) : Option Draft := do
  let root ← d.settle
  let (root, _) ← Entries.change false (fun _ parent =>
    match parent.find? key with
    | none => some (parent.set key (.tables []), ())
    | some (.tables _) => some (parent, ())
    | some _ => none) path .explicit root
  pure { root, current := [], header := some (path, key), isElement := true }

end Draft

/-- Read the header, the key with its value or the empty line at the head of a text. -/
def readLine (d : Draft) (cs : List Char) : Option (Draft × List Char) :=
  match cs with
  | '[' :: '[' :: rest => do
    let ((path, key), rest) ← readKey rest
    match rest with
    | ']' :: ']' :: rest => do
      let rest ← endOfLine? rest
      let d ← d.openElement path key
      pure (d, rest)
    | _ => none
  | '[' :: rest => do
    let ((path, key), rest) ← readKey rest
    match rest with
    | ']' :: rest => do
      let rest ← endOfLine? rest
      let d ← d.openTable path key
      pure (d, rest)
    | _ => none
  | _ =>
    match endOfLine? cs with
    | some rest => some (d, rest)
    | none => do
      let ((path, key), rest) ← readKey cs
      match rest with
      | '=' :: rest => do
        let (v, rest) ← readValue 0 (2 * rest.length + 2) (skipBlanks rest)
        let rest ← endOfLine? rest
        let current ← d.current.addKey .explicit path key v
        pure ({ d with current }, rest)
      | _ => none

/-- Read all lines of a text. -/
def readLines : Nat → Draft → List Char → Option Draft
  | 0, _, _ => none
  | fuel + 1, d, cs =>
    match skipBlanks cs with
    | [] => some d
    | cs => do
      let (d, rest) ← readLine d cs
      readLines fuel d rest

/-- The document of a text. A byte order mark in front is passed over. -/
def read? (s : String) : Option Doc := do
  let cs := match s.toList with
    | '\ufeff' :: rest => rest
    | cs => cs
  let d ← readLines (cs.length + 1) {} cs
  let root ← d.settle
  pure (.obj (entriesToDoc root))

end Lockstep.Toml
