import Lockstep.Json.Numeral

/-!
# Reading JSON text

The reader accepts exactly the JSON grammar and gives the tree of what it read. It judges form only:
numbers out of range and unpaired surrogates pass as tokens without a value, and there is no limit on
depth. A text literal is read in two steps, first into pieces, then by pairing the escaped halves of
characters outside the basic plane.
-/

namespace Lockstep.Json

/-- The blanks of the format. -/
def isBlank (c : Char) : Bool := c = ' ' || c = '\t' || c = '\n' || c = '\r'

def skipBlanks (cs : List Char) : List Char := cs.dropWhile isBlank

/-- The value of a digit in base sixteen, either case. -/
def hexValue? (c : Char) : Option Nat :=
  if c.isDigit then some (c.toNat - '0'.toNat)
  else if 'a' ≤ c ∧ c ≤ 'f' then some (c.toNat - 'a'.toNat + 10)
  else if 'A' ≤ c ∧ c ≤ 'F' then some (c.toNat - 'A'.toNat + 10)
  else none

/-- A piece of a text literal: a character, or a sixteen-bit unit written as an escape. -/
inductive Piece where
  | char (c : Char)
  | unit (n : Nat)

/-- The character that a one-letter escape stands for. -/
def escape? (c : Char) : Option Char :=
  match c with
  | '"' => some '"'
  | '\\' => some '\\'
  | '/' => some '/'
  | 'b' => some '\x08'
  | 'f' => some '\x0c'
  | 'n' => some '\n'
  | 'r' => some '\r'
  | 't' => some '\t'
  | _ => none

/-- The unit written by four digits in base sixteen. -/
def unit? (a b c d : Char) : Option Nat := do
  let a ← hexValue? a
  let b ← hexValue? b
  let c ← hexValue? c
  let d ← hexValue? d
  pure (((a * 16 + b) * 16 + c) * 16 + d)

/-- The pieces of a text literal whose opening quote has been read, up to its closing quote. -/
def readPieces : List Char → Option (List Piece × List Char)
  | [] => none
  | '"' :: rest => some ([], rest)
  | '\\' :: 'u' :: a :: b :: c :: d :: rest => do
    let n ← unit? a b c d
    let (pieces, r) ← readPieces rest
    pure (.unit n :: pieces, r)
  | '\\' :: e :: rest => do
    let c ← escape? e
    let (pieces, r) ← readPieces rest
    pure (.char c :: pieces, r)
  | c :: rest =>
    if c.toNat < 0x20 ∨ c = '\\' then none
    else do
      let (pieces, r) ← readPieces rest
      pure (.char c :: pieces, r)

/-- Whether a unit is the first half of a pair. -/
def isHighHalf (n : Nat) : Bool := 0xD800 ≤ n && n < 0xDC00

/-- Whether a unit is the second half of a pair. -/
def isLowHalf (n : Nat) : Bool := 0xDC00 ≤ n && n < 0xE000

/-- The characters of a literal, or `none` if half of a pair stands alone. -/
def joinPieces : List Piece → Option (List Char)
  | [] => some []
  | .char c :: rest => (joinPieces rest).map (c :: ·)
  | .unit n :: .unit m :: rest =>
    if isHighHalf n then
      if isLowHalf m then
        (joinPieces rest).map (Char.ofNat (0x10000 + (n - 0xD800) * 0x400 + (m - 0xDC00)) :: ·)
      else none
    else if isLowHalf n then none
    else (joinPieces (.unit m :: rest)).map (Char.ofNat n :: ·)
  | .unit n :: rest =>
    if isHighHalf n || isLowHalf n then none
    else (joinPieces rest).map (Char.ofNat n :: ·)

/-- A text literal whose opening quote has been read; `none` inside if it has no text. -/
def readText (cs : List Char) : Option (Option String × List Char) := do
  let (pieces, rest) ← readPieces cs
  pure ((joinPieces pieces).map String.ofList, rest)

/-- The token of a text literal. -/
def textDoc : Option String → Doc
  | some s => .str s
  | none => .unreadable

mutual

/-- The value at the head of a text, after blanks. -/
def readValue : Nat → List Char → Option (Doc × List Char)
  | 0, _ => none
  | fuel + 1, cs =>
    match skipBlanks cs with
    | 'n' :: 'u' :: 'l' :: 'l' :: rest => some (.null, rest)
    | 't' :: 'r' :: 'u' :: 'e' :: rest => some (.bool true, rest)
    | 'f' :: 'a' :: 'l' :: 's' :: 'e' :: rest => some (.bool false, rest)
    | '"' :: rest => (readText rest).map fun (s, r) => (textDoc s, r)
    | '[' :: rest =>
      match skipBlanks rest with
      | ']' :: r => some (.arr [], r)
      | r => (readItems fuel r).map fun (items, r) => (.arr items, r)
    | '\x7b' :: rest =>
      match skipBlanks rest with
      | '\x7d' :: r => some (.obj [], r)
      | r => (readMembers fuel r).map fun (members, r) => (.obj members, r)
    | rest => (readNumeral rest).map fun (n, r) => (n.toDoc, r)

/-- The elements of an array up to its closing bracket, at least one. -/
def readItems : Nat → List Char → Option (List Doc × List Char)
  | 0, _ => none
  | fuel + 1, cs => do
    let (v, rest) ← readValue fuel cs
    match skipBlanks rest with
    | ',' :: r => do
      let (items, r) ← readItems fuel r
      pure (v :: items, r)
    | ']' :: r => pure ([v], r)
    | _ => none

/-- The members of an object up to its closing brace, at least one. -/
def readMembers : Nat → List Char → Option (List (Option String × Doc) × List Char)
  | 0, _ => none
  | fuel + 1, cs =>
    match skipBlanks cs with
    | '"' :: rest => do
      let (k, rest) ← readText rest
      match skipBlanks rest with
      | ':' :: rest => do
        let (v, rest) ← readValue fuel rest
        match skipBlanks rest with
        | ',' :: r => do
          let (members, r) ← readMembers fuel r
          pure ((k, v) :: members, r)
        | '\x7d' :: r => pure ([(k, v)], r)
        | _ => none
      | _ => none
    | _ => none

end

/-- The document of a text, if it is one value with nothing but blanks around it. Every level of
nesting spends two units of fuel and at least one character. -/
def read? (s : String) : Option Doc :=
  let cs := s.toList
  match readValue (2 * cs.length + 2) cs with
  | some (v, rest) => if (skipBlanks rest).isEmpty then some v else none
  | none => none

end Lockstep.Json
