/-!
# Double-precision numbers, exactly

A double is its 64-bit pattern. Every operation here goes through the exact value: the pattern is read
as a ratio of naturals, the ratio is computed without error, and one final rounding (`ofRatio`) finds
the nearest double, ties to the even significand. So a result depends on nothing but its arguments,
and equality of patterns is decidable.
-/

namespace Lockstep

/-- A double-precision number, by its bits. -/
structure Binary64 where
  /-- Sign, eleven bits of exponent, fifty-two of significand. -/
  bits : UInt64
  deriving Repr, DecidableEq

/-- The integer nearest to `num / den`, a half going to the even neighbour. -/
def roundHalfEven (num den : Nat) : Nat :=
  let q := num / den
  let twice := 2 * (num % den)
  if twice < den then q
  else if den < twice then q + 1
  else if q % 2 = 0 then q else q + 1

namespace Binary64

/-- The pattern with the given sign and the given other 63 bits. -/
def ofMagnitude (negative : Bool) (magnitude : Nat) : Binary64 :=
  ⟨UInt64.ofNat (if negative then Nat.pow 2 63 + magnitude else magnitude)⟩

/-- The magnitude bits of an infinity. -/
def infinityMagnitude : Nat := 2047 * Nat.pow 2 52

def zero (negative : Bool) : Binary64 := ofMagnitude negative 0

def infinity (negative : Bool) : Binary64 := ofMagnitude negative infinityMagnitude

/-- The pattern that stands for no number. -/
def nan (negative : Bool) : Binary64 := ofMagnitude negative (infinityMagnitude + Nat.pow 2 51)

/-- The bits below the sign. -/
def magnitude (x : Binary64) : Nat := x.bits.toNat % Nat.pow 2 63

def isNegative (x : Binary64) : Bool := Nat.pow 2 63 ≤ x.bits.toNat

def isZero (x : Binary64) : Bool := x.magnitude = 0

/-- Whether the pattern stands for a number at all. -/
def isFinite (x : Binary64) : Bool := x.magnitude < infinityMagnitude

/-- `num / den / 2 ^ e`, rounded to the nearest integer. -/
def scaled (num den : Nat) : Int → Nat
  | .ofNat e => roundHalfEven num (den * Nat.pow 2 e)
  | .negSucc e => roundHalfEven (num * Nat.pow 2 (e + 1)) den

/-- Whether `num / den` is at least `2 ^ k`. -/
def reaches (num den : Nat) : Int → Bool
  | .ofNat k => den * Nat.pow 2 k ≤ num
  | .negSucc k => den ≤ num * Nat.pow 2 (k + 1)

/-- The double nearest to `num / den`, for a positive `den`; an infinity if the ratio is too large.

The unit `2 ^ e` is chosen so that the significand has 53 bits, or is the least unit there is. A
significand that rounds up to `2 ^ 53` carries into the exponent field by itself. -/
def ofRatio (negative : Bool) (num den : Nat) : Binary64 :=
  if num = 0 then zero negative
  else
    let guess : Int := (num.log2 : Int) - (den.log2 : Int) - 53
    let unit := if reaches num den (guess + 53) then guess + 1 else guess
    let e := max unit (-1074)
    let bits := (e + 1074).toNat * Nat.pow 2 52 + scaled num den e
    ofMagnitude negative (min bits infinityMagnitude)

/-- The exact absolute value of a finite double, as numerator and denominator. -/
def toRatio (x : Binary64) : Nat × Nat :=
  let field := x.magnitude / Nat.pow 2 52
  let fraction := x.magnitude % Nat.pow 2 52
  if field = 0 then (fraction, Nat.pow 2 1074)
  else
    let significand := fraction + Nat.pow 2 52
    if 1075 ≤ field then (significand * Nat.pow 2 (field - 1075), 1)
    else (significand, Nat.pow 2 (1075 - field))

/-- The double nearest to a natural. -/
def ofNat (n : Nat) : Binary64 := ofRatio false n 1

/-- The product of two finite doubles, rounded once. -/
def mul (x y : Binary64) : Binary64 :=
  let (a, b) := x.toRatio
  let (c, d) := y.toRatio
  ofRatio (x.isNegative != y.isNegative) (a * c) (b * d)

/-- The quotient of two finite doubles, the second not zero, rounded once. -/
def div (x y : Binary64) : Binary64 :=
  let (a, b) := x.toRatio
  let (c, d) := y.toRatio
  ofRatio (x.isNegative != y.isNegative) (a * d) (b * c)

/-- How many decimal digits a natural has. -/
def digitCount (n : Nat) : Nat := (Nat.toDigits 10 n).length

/-- The double nearest to `n * 10 ^ e`. Beyond the range of doubles the power is not computed. -/
def ofDecimal (negative : Bool) (n : Nat) (e : Int) : Binary64 :=
  if n = 0 then zero negative
  else
    let top := e + digitCount n
    if 400 < top then infinity negative
    else if top < -400 then zero negative
    else match e with
      | .ofNat k => ofRatio negative (n * Nat.pow 10 k) 1
      | .negSucc k => ofRatio negative n (Nat.pow 10 (k + 1))

/-- The power of ten nearest to `num / den` from below, found by counting digits. -/
def decimalExponent (num den : Nat) : Int :=
  let guess : Int := (digitCount num : Int) - digitCount den
  let atLeast (k : Int) : Bool := match k with
    | .ofNat k => den * Nat.pow 10 k ≤ num
    | .negSucc k => den ≤ num * Nat.pow 10 (k + 1)
  if atLeast guess then guess else guess - 1

/-- The multiples of `unit` around `num`, each divided by `unit`: the nearer one first, and of two as
near the even one. -/
def neighbours (num unit : Nat) : Nat × Nat :=
  let below := num / unit
  let rest := 2 * (num % unit)
  if unit < rest ∨ (rest = unit ∧ below % 2 = 1) then (below + 1, below) else (below, below + 1)

/-- The multiples of `10 ^ e` around `num / den`, each divided by `10 ^ e`, in the order of
`neighbours`. -/
def decimalNeighbours (num den : Nat) : Int → Nat × Nat
  | .ofNat e => neighbours num (den * Nat.pow 10 e)
  | .negSucc e => neighbours (num * Nat.pow 10 (e + 1)) den

/-- The first of the digit counts `count, count + 1, …` whose grid has a point that reads back as
`x`: its digits and the power of ten of the last one. Seventeen digits always do. -/
def shortestFrom (x : Binary64) (num den : Nat) (top : Int) : Nat → Nat → Nat × Int
  | 0, _ => (0, 0)
  | fuel + 1, count =>
    let e := top - count + 1
    let (first, second) := decimalNeighbours num den e
    let readsBack (n : Nat) : Bool := ofDecimal false n e = ofMagnitude false x.magnitude
    if readsBack first then (first, e)
    else if readsBack second then (second, e)
    else shortestFrom x num den top fuel (count + 1)

/-- `n * 10 ^ e` without trailing zeros in `n`. -/
def dropZeros : Nat → Nat → Int → Nat × Int
  | 0, n, e => (n, e)
  | fuel + 1, n, e => if n % 10 = 0 then dropZeros fuel (n / 10) (e + 1) else (n, e)

/-- The fewest significant digits that read back as the finite double, nearest to it among those and
even in the last place if two are as near: `(n, e)` stands for `n * 10 ^ e`. A point rounded up to a
power of ten has one digit more than it needs, so zeros at the end are dropped. -/
def shortest (x : Binary64) : Nat × Int :=
  let (num, den) := x.toRatio
  if num = 0 then (0, 0)
  else
    let (n, e) := shortestFrom x num den (decimalExponent num den) 17 1
    dropZeros 17 n e

/-- The exact value rounded to `places` decimals, a half going to the even neighbour. -/
def toFixed (x : Binary64) (places : Nat) : String :=
  let (num, den) := x.toRatio
  let n := roundHalfEven (num * Nat.pow 10 places) den
  let digits := Nat.toDigits 10 n
  let padded := List.replicate (places + 1 - digits.length) '0' ++ digits
  let whole := padded.take (padded.length - places)
  let fraction := padded.drop (padded.length - places)
  let sign := if x.isNegative then ['-'] else []
  String.ofList (sign ++ whole ++ (if fraction.isEmpty then [] else '.' :: fraction))

/-- The sixteen digits of the pattern in base sixteen. -/
def toHex (x : Binary64) : String :=
  let digits := Nat.toDigits 16 x.bits.toNat
  String.ofList (List.replicate (16 - digits.length) '0' ++ digits)

end Binary64

end Lockstep
