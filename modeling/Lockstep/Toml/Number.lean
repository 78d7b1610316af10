import Lockstep.Doc
import Lockstep.Toml.Text

/-!
# Numbers of TOML

Integers have 64 bits with a sign and may be written in base ten, sixteen, eight or two; doubles are
the ones nearest to what is written. Digits may be grouped by single underscores.
-/

namespace Lockstep.Toml

/-- Digits of a class with single underscores between them; gives the digits. -/
def readGrouped (isDigit : Char → Bool) : List Char → Option (List Char × List Char)
  | '_' :: _ => none
  | cs => go cs
where
  go : List Char → Option (List Char × List Char)
    | c :: '_' :: d :: rest =>
      if isDigit c then
        if isDigit d then (go (d :: rest)).map fun (ds, rest) => (c :: ds, rest)
        else some ([c], '_' :: d :: rest)
      else none
    | c :: rest =>
      if isDigit c then
        match go rest with
        | some (ds, rest) => some (c :: ds, rest)
        | none => some ([c], rest)
      else none
    | [] => none

/-- The value of digits in a base. -/
def digitsValue (base : Nat) (ds : List Char) : Nat :=
  ds.foldl (fun n d => base * n + (hexValue? d).getD 0) 0

/-- A sign, if the text goes on with one; true for minus. -/
def readSign : List Char → Bool × List Char
  | '-' :: rest => (true, rest)
  | '+' :: rest => (false, rest)
  | cs => (false, cs)

/-- Decimal digits that are a single zero or do not start with one. -/
def readWhole (cs : List Char) : Option (List Char × List Char) :=
  match cs with
  | '0' :: rest => some (['0'], rest)
  | _ => readGrouped Char.isDigit cs

/-- An integer of 64 bits. -/
def intOf? (negative : Bool) (n : Nat) : Option Doc :=
  if negative then if n ≤ Nat.pow 2 63 then some (.int (-(n : Int))) else none
  else if n < Nat.pow 2 63 then some (.int n) else none

/-- An integer in a base other than ten, after its mark. -/
def readRadix (base : Nat) (isDigit : Char → Bool) (cs : List Char) : Option (Doc × List Char) := do
  let (ds, rest) ← readGrouped isDigit cs
  let d ← intOf? false (digitsValue base ds)
  pure (d, rest)

/-- An integer. -/
def readInt (cs : List Char) : Option (Doc × List Char) :=
  match cs with
  | '0' :: 'x' :: rest => readRadix 16 (fun c => (hexValue? c).isSome) rest
  | '0' :: 'o' :: rest => readRadix 8 (fun c => '0' ≤ c && c ≤ '7') rest
  | '0' :: 'b' :: rest => readRadix 2 (fun c => c = '0' || c = '1') rest
  | _ => do
    let (negative, digits) := readSign cs
    let (ds, rest) ← readWhole digits
    let d ← intOf? negative (digitsValue 10 ds)
    pure (d, rest)

/-- The exponent of a double, if the text goes on with one. -/
def readExponent : List Char → Option (Option Int × List Char)
  | c :: rest =>
    if c = 'e' ∨ c = 'E' then do
      let (negative, digits) := readSign rest
      let (ds, rest) ← readGrouped Char.isDigit digits
      let n : Int := digitsValue 10 ds
      pure (some (if negative then -n else n), rest)
    else some (none, c :: rest)
  | [] => some (none, [])

/-- A double written with digits. One that is too large above zero is refused. -/
def readDecimal (cs : List Char) : Option (Doc × List Char) := do
  let (negative, digits) := readSign cs
  let (whole, rest) ← readWhole digits
  let (fraction, rest) ← match rest with
    | '.' :: rest => (readGrouped Char.isDigit rest).map fun (ds, rest) => (some ds, rest)
    | rest => some (none, rest)
  let (exponent, rest) ← readExponent rest
  if fraction.isNone ∧ exponent.isNone then none
  let ds := fraction.getD []
  let x := Binary64.ofDecimal negative (digitsValue 10 (whole ++ ds))
    (exponent.getD 0 - (ds.length : Int))
  if x = Binary64.infinity false then none else pure (.float x, rest)

/-- An infinity or the value that is no number. -/
def readSpecial (cs : List Char) : Option (Doc × List Char) :=
  let (negative, word) := readSign cs
  match word with
  | 'i' :: 'n' :: 'f' :: rest => some (.float (Binary64.infinity negative), rest)
  | 'n' :: 'a' :: 'n' :: rest => some (.float (Binary64.nan negative), rest)
  | _ => none

end Lockstep.Toml
