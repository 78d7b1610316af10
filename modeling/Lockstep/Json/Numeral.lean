import Lockstep.Doc

/-!
# Numerals

A numeral with neither fraction nor exponent is an integer if it fits in 64 bits, signed below zero
and unsigned above. Everything else is a double, found in one rounding step from a 64-bit
significand: leading digits are absorbed while they fit (`absorb`), whole digits that do not fit count
as powers of ten and fraction digits that do not fit are dropped; then the significand is multiplied
or divided by the power of ten that remains (`scale`). The result is near the written decimal and not
always nearest to it. A numeral beyond the range of doubles has no value.
-/

namespace Lockstep.Json

/-- A number as it is written. -/
structure Numeral where
  negative : Bool
  /-- The digits before the point. -/
  whole : List Char
  /-- The digits after the point, if there is one. -/
  fraction : Option (List Char)
  /-- Whether the exponent is negative, and its digits, if there is one. -/
  exponent : Option (Bool × List Char)

/-- The value of a decimal digit. -/
def digitValue (c : Char) : Nat := c.toNat - '0'.toNat

/-- The value of a list of decimal digits. -/
def digitsValue (ds : List Char) : Nat := ds.foldl (fun n d => 10 * n + digitValue d) 0

/-- Continue a significand with further digits while it stays below `2 ^ 64`. Gives the significand
and the digits that were left out. -/
def absorb : List Char → Nat → Nat × List Char
  | [], n => (n, [])
  | d :: ds, n =>
    let next := 10 * n + digitValue d
    if next < Nat.pow 2 64 then absorb ds next else (n, d :: ds)

/-- The largest power of ten that a double can be near. -/
def maxPower : Nat := 308

/-- The double nearest to a power of ten. -/
def powerOfTen (k : Nat) : Binary64 := Binary64.ofDecimal false 1 k

/-- Divide by `10 ^ k`, in steps of the largest power there is. -/
def divideByPower : Nat → Binary64 → Nat → Binary64
  | 0, x, _ => x
  | fuel + 1, x, k =>
    if k ≤ maxPower then x.div (powerOfTen k)
    else if x.isZero then x
    else divideByPower fuel (x.div (powerOfTen maxPower)) (k - maxPower)

/-- The double for `significand * 10 ^ e`, or `none` if it is out of range. -/
def scale (significand : Nat) (e : Int) : Option Binary64 :=
  let x := Binary64.ofNat significand
  match e with
  | .ofNat k =>
    if k ≤ maxPower then
      let y := x.mul (powerOfTen k)
      if y.isFinite then some y else none
    else if x.isZero then some x
    else none
  | .negSucc k => some (divideByPower (k + 1) x (k + 1))

/-- Give a double a sign. -/
def signed (negative : Bool) (x : Binary64) : Binary64 := Binary64.ofMagnitude negative x.magnitude

/-- The exponents up to this one are computed with; larger ones overflow or underflow at once. -/
def maxExponent : Nat := Nat.pow 2 31 - 1

namespace Numeral

/-- The significand of a numeral and the power of ten that goes with it, its exponent left aside. -/
def significand (n : Numeral) : Nat × Int :=
  let (head, left) := absorb n.whole 0
  match n.fraction with
  | none => (head, left.length)
  | some digits =>
    let (full, dropped) := absorb digits head
    (full, (left.length : Int) - ((digits.length : Int) - dropped.length))

/-- The value of a numeral that is not an integer. -/
def toFloat (n : Numeral) : Option Binary64 :=
  let (s, e) := n.significand
  let magnitude := match n.exponent with
    | none => scale s e
    | some (below, digits) =>
      let k := digitsValue digits
      if k ≤ maxExponent then scale s (if below then e - k else e + k)
      else if s = 0 ∨ below then some (Binary64.zero false)
      else none
  magnitude.map (signed n.negative)

/-- The value of a numeral. A negative zero is a double, as is an integer beyond 64 bits. -/
def toDoc (n : Numeral) : Doc :=
  let asFloat : Doc := match n.toFloat with
    | some x => .float x
    | none => .unreadable
  match n.fraction, n.exponent with
  | none, none =>
    match absorb n.whole 0 with
    | (s, []) =>
      if n.negative then
        if 0 < s ∧ s ≤ Nat.pow 2 63 then .int (-(s : Int)) else .float (signed true (Binary64.ofNat s))
      else .int s
    | _ => asFloat
  | _, _ => asFloat

end Numeral

/-- The digits at the head of a text, and what follows them. -/
def readDigits (cs : List Char) : List Char × List Char :=
  (cs.takeWhile Char.isDigit, cs.dropWhile Char.isDigit)

/-- Digits at the head of a text, at least one. -/
def readDigits1 (cs : List Char) : Option (List Char × List Char) :=
  match readDigits cs with
  | ([], _) => none
  | r => some r

/-- The fraction of a numeral, if the text goes on with one. -/
def readFraction : List Char → Option (Option (List Char) × List Char)
  | '.' :: rest => (readDigits1 rest).map fun (ds, r) => (some ds, r)
  | cs => some (none, cs)

/-- The exponent of a numeral, if the text goes on with one. -/
def readExponent : List Char → Option (Option (Bool × List Char) × List Char)
  | c :: rest =>
    if c = 'e' ∨ c = 'E' then
      let (below, digits) := match rest with
        | '-' :: r => (true, r)
        | '+' :: r => (false, r)
        | r => (false, r)
      (readDigits1 digits).map fun (ds, r) => (some (below, ds), r)
    else some (none, c :: rest)
  | [] => some (none, [])

/-- Whether a text starts with a minus, and what follows it. -/
def readSign : List Char → Bool × List Char
  | '-' :: rest => (true, rest)
  | cs => (false, cs)

/-- A numeral at the head of a text. The whole part is a single zero or does not start with one. -/
def readNumeral (cs : List Char) : Option (Numeral × List Char) := do
  let (negative, digits) := readSign cs
  let (whole, afterWhole) ← readDigits1 digits
  if whole.head? = some '0' ∧ whole.length ≠ 1 then none
  else
    let (fraction, afterFraction) ← readFraction afterWhole
    let (exponent, rest) ← readExponent afterFraction
    pure (⟨negative, whole, fraction, exponent⟩, rest)

end Lockstep.Json
