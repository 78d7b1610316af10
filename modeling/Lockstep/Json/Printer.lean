import Lockstep.Json.Basic

/-!
# Writing structured values as JSON text

Two layouts of one value: `compact` has no blank between tokens, `pretty` puts every element on a
line of its own, two spaces deeper than its container, and keeps empty containers on one line. Text
is escaped only where the format demands it: the quote, the backslash and the control characters
below the space.
-/

namespace Lockstep.Json

/-- The digit of a number below sixteen. -/
def hexDigit (n : Nat) : Char := Nat.digitChar n

/-- How one character of a text is written. -/
def escapeChar (c : Char) : List Char :=
  if c = '"' then ['\\', '"']
  else if c = '\\' then ['\\', '\\']
  else if c.toNat < 0x20 then
    if c = '\x08' then ['\\', 'b']
    else if c = '\t' then ['\\', 't']
    else if c = '\n' then ['\\', 'n']
    else if c = '\x0c' then ['\\', 'f']
    else if c = '\r' then ['\\', 'r']
    else ['\\', 'u', '0', '0', hexDigit (c.toNat / 16), hexDigit (c.toNat % 16)]
  else [c]

/-- A text between quotes, escaped. -/
def printText (s : String) : List Char :=
  '"' :: s.toList.flatMap escapeChar ++ ['"']

def printNat (n : Nat) : List Char := Nat.toDigits 10 n

def printInt : Int → List Char
  | .ofNat n => printNat n
  | .negSucc n => '-' :: printNat (n + 1)

/-- An exponent, always with its sign. -/
def printExponent : Int → List Char
  | .ofNat n => 'e' :: '+' :: printNat n
  | .negSucc n => 'e' :: '-' :: printNat (n + 1)

/-- The digits `n` with `e` further zeros or a point before the last `-e` of them. Large and small
magnitudes are written with an exponent: the point moves at most sixteen places to the right and
four to the left of the first digit. -/
def printDecimal (n : Nat) (e : Int) : List Char :=
  let digits := Nat.toDigits 10 n
  let count : Int := digits.length
  let point := count + e
  if 0 ≤ e ∧ point ≤ 16 then
    digits ++ List.replicate e.toNat '0' ++ ['.', '0']
  else if 0 < point ∧ point ≤ 16 then
    digits.take point.toNat ++ '.' :: digits.drop point.toNat
  else if -5 < point ∧ point ≤ 0 then
    '0' :: '.' :: List.replicate (-point).toNat '0' ++ digits
  else
    let mantissa := match digits with
      | d :: d' :: rest => d :: '.' :: d' :: rest
      | ds => ds
    mantissa ++ printExponent (point - 1)

/-- A finite double by the fewest digits that read back; what is not a number is written as null. -/
def printFloat (x : Binary64) : List Char :=
  if x.isFinite then
    let (n, e) := x.shortest
    (if x.isNegative then ['-'] else []) ++ printDecimal n e
  else ['n', 'u', 'l', 'l']

/-- The text of a value that has no parts. -/
def printBool (b : Bool) : List Char :=
  if b then ['t', 'r', 'u', 'e'] else ['f', 'a', 'l', 's', 'e']

mutual

/-- A value on one line, without blanks. -/
def compactChars : Json → List Char
  | .null => ['n', 'u', 'l', 'l']
  | .bool b => printBool b
  | .int i => printInt i
  | .float x => printFloat x
  | .str s => printText s
  | .arr items => '[' :: compactItems items ++ [']']
  | .obj members => '\x7b' :: compactMembers members ++ ['\x7d']

/-- Elements separated by commas. -/
def compactItems : List Json → List Char
  | [] => []
  | [v] => compactChars v
  | v :: rest => compactChars v ++ ',' :: compactItems rest

/-- Members separated by commas. -/
def compactMembers : List (String × Json) → List Char
  | [] => []
  | [(k, v)] => printText k ++ ':' :: compactChars v
  | (k, v) :: rest => printText k ++ ':' :: compactChars v ++ ',' :: compactMembers rest

end

/-- A value on one line, without blanks. -/
def compact (v : Json) : String := String.ofList v.compactChars

/-- A new line, indented to the given depth. -/
def newline (depth : Nat) : List Char := '\n' :: List.replicate (2 * depth) ' '

mutual

/-- A value whose container is at the given depth, one element a line. -/
def prettyChars (depth : Nat) : Json → List Char
  | .null => ['n', 'u', 'l', 'l']
  | .bool b => printBool b
  | .int i => printInt i
  | .float x => printFloat x
  | .str s => printText s
  | .arr [] => ['[', ']']
  | .arr (v :: rest) => '[' :: prettyItems (depth + 1) (v :: rest) ++ newline depth ++ [']']
  | .obj [] => ['\x7b', '\x7d']
  | .obj (m :: rest) =>
    '\x7b' :: prettyMembers (depth + 1) (m :: rest) ++ newline depth ++ ['\x7d']

/-- Elements at the given depth, each on a line of its own. -/
def prettyItems (depth : Nat) : List Json → List Char
  | [] => []
  | [v] => newline depth ++ prettyChars depth v
  | v :: rest => newline depth ++ prettyChars depth v ++ ',' :: prettyItems depth rest

/-- Members at the given depth, each on a line of its own. -/
def prettyMembers (depth : Nat) : List (String × Json) → List Char
  | [] => []
  | [(k, v)] => newline depth ++ printText k ++ ':' :: ' ' :: prettyChars depth v
  | (k, v) :: rest =>
    newline depth ++ printText k ++ ':' :: ' ' :: prettyChars depth v ++
      ',' :: prettyMembers depth rest

end

/-- A value laid out one element a line, two spaces a level. -/
def pretty (v : Json) : String := String.ofList (v.prettyChars 0)

end Lockstep.Json
