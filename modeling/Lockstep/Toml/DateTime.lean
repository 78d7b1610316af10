import Lockstep.Toml.Number

/-!
# Dates and times of TOML

A date, a time, or a date with a time and perhaps an offset. A date-time is passed on as text in one
normal form: `T` between date and time, fractions of a second without trailing zeros and to the
nanosecond at most, the offset as `Z` or with a sign.
-/

namespace Lockstep.Toml

/-- Exactly `n` decimal digits, as a number. -/
def readFixed (n : Nat) (cs : List Char) : Option (Nat × List Char) :=
  let ds := cs.take n
  if ds.length = n ∧ ds.all Char.isDigit then some (digitsValue 10 ds, cs.drop n) else none

/-- One given character. -/
def readChar (c : Char) : List Char → Option (List Char)
  | d :: rest => if d = c then some rest else none
  | [] => none

/-- A number with at least `n` digits, zeros in front. -/
def padded (n value : Nat) : String :=
  let ds := Nat.toDigits 10 value
  String.ofList (List.replicate (n - ds.length) '0' ++ ds)

/-- The number of days in a month. -/
def daysInMonth (year month : Nat) : Nat :=
  match month with
  | 2 => if year % 4 = 0 ∧ (year % 100 ≠ 0 ∨ year % 400 = 0) then 29 else 28
  | 4 | 6 | 9 | 11 => 30
  | _ => 31

/-- A date, in normal form. -/
def readDate (cs : List Char) : Option (String × List Char) := do
  let (year, rest) ← readFixed 4 cs
  let rest ← readChar '-' rest
  let (month, rest) ← readFixed 2 rest
  let rest ← readChar '-' rest
  let (day, rest) ← readFixed 2 rest
  if 1 ≤ month ∧ month ≤ 12 ∧ 1 ≤ day ∧ day ≤ daysInMonth year month then
    pure (padded 4 year ++ "-" ++ padded 2 month ++ "-" ++ padded 2 day, rest)
  else none

/-- The fraction of a second, if the text goes on with one: a point and digits, cut to nine and
without trailing zeros. -/
def readSecondFraction : List Char → Option (String × List Char)
  | '.' :: rest =>
    match rest.takeWhile Char.isDigit with
    | [] => none
    | ds =>
      let kept := ((ds.take 9).reverse.dropWhile (· = '0')).reverse
      some (if kept.isEmpty then "" else String.ofList ('.' :: kept), rest.dropWhile Char.isDigit)
  | cs => some ("", cs)

/-- A time of day, in normal form. -/
def readTime (cs : List Char) : Option (String × List Char) := do
  let (hour, rest) ← readFixed 2 cs
  let rest ← readChar ':' rest
  let (minute, rest) ← readFixed 2 rest
  let rest ← readChar ':' rest
  let (second, rest) ← readFixed 2 rest
  let (fraction, rest) ← readSecondFraction rest
  if hour ≤ 23 ∧ minute ≤ 59 ∧ second ≤ 60 then
    pure (padded 2 hour ++ ":" ++ padded 2 minute ++ ":" ++ padded 2 second ++ fraction, rest)
  else none

/-- An offset, in normal form, if the text goes on with one. An offset of nothing has a plus. -/
def readOffset (cs : List Char) : Option (String × List Char) :=
  match cs with
  | 'Z' :: rest | 'z' :: rest => some ("Z", rest)
  | sign :: rest =>
    if sign = '+' ∨ sign = '-' then do
      let (hour, rest) ← readFixed 2 rest
      let rest ← readChar ':' rest
      let (minute, rest) ← readFixed 2 rest
      if hour ≤ 23 ∧ minute ≤ 59 then
        let shown := if sign = '-' ∧ (hour ≠ 0 ∨ minute ≠ 0) then "-" else "+"
        pure (shown ++ padded 2 hour ++ ":" ++ padded 2 minute, rest)
      else none
    else some ("", cs)
  | [] => some ("", cs)

/-- Whether a character may stand between date and time. -/
def isDateSeparator (c : Char) : Bool := c = 'T' || c = 't' || c = ' '

/-- The time that follows a date, if one does, with its separator and offset. -/
def readTimeOfDate (cs : List Char) : Option (String × List Char) :=
  match cs with
  | c :: rest =>
    if isDateSeparator c then
      match readTime rest with
      | some (time, rest) => (readOffset rest).map fun (offset, rest) => ("T" ++ time ++ offset, rest)
      | none => some ("", cs)
    else some ("", cs)
  | [] => some ("", [])

/-- The name under which a date-time is passed on. -/
def dateTimeKey : String := "$__toml_private_datetime"

/-- A date, a time or both. -/
def readDateTime (cs : List Char) : Option (Doc × List Char) :=
  let text : Option (String × List Char) := match readDate cs with
    | some (date, rest) => (readTimeOfDate rest).map fun (time, rest) => (date ++ time, rest)
    | none => readTime cs
  text.map fun (s, rest) => (.obj [(some dateTimeKey, .str s)], rest)

end Lockstep.Toml
