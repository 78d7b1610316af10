import Lockstep.Text.Unprintable

/-!
# Quoted names

Messages and log lines show a list of names so that each one can be told from its neighbours: every
name stands in double quotes, and what would end the quote, break the line or not show at all is
written as an escape.
-/

namespace Lockstep.Text

/-- The digits of `n` in base sixteen, lower case, without leading zeros. -/
def hex (n : Nat) : String :=
  String.ofList (Nat.toDigits 16 n)

/-- How one character of a quoted name is written. -/
def quoteChar (c : Char) : String :=
  match c with
  | '"' => "\\\""
  | '\\' => "\\\\"
  | '\n' => "\\n"
  | '\r' => "\\r"
  | '\t' => "\\t"
  | '\x00' => "\\0"
  | c => if isUnprintable c then "\\u\x7b" ++ hex c.toNat ++ "\x7d" else c.toString

/-- A name between double quotes. -/
def quote (s : String) : String :=
  "\"" ++ String.join (s.toList.map quoteChar) ++ "\""

/-- A list of quoted names between brackets. -/
def quoteList (names : List String) : String :=
  "[" ++ String.intercalate ", " (names.map quote) ++ "]"

end Lockstep.Text
