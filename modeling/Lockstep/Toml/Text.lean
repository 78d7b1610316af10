/-!
# Blanks, comments, texts and keys of TOML

Small readers over lists of characters. Each gives what it read and what follows, or nothing if the
text does not have the asked form.
-/

namespace Lockstep.Toml

/-- Blanks inside a line. -/
def isBlank (c : Char) : Bool := c = ' ' || c = '\t'

/-- Characters that may stand in a comment, and in texts apart from quotes and escapes: the tab and
everything but the control characters of ASCII. -/
def isPlain (c : Char) : Bool := c = '\t' || (0x20 ≤ c.toNat && c.toNat ≠ 0x7f)

/-- Skip blanks inside a line. -/
def skipBlanks (cs : List Char) : List Char := cs.dropWhile isBlank

/-- Skip a comment, if the text goes on with one. -/
def skipComment : List Char → List Char
  | '#' :: rest => rest.dropWhile isPlain
  | cs => cs

/-- What follows a line end, if the text goes on with one. -/
def newline? : List Char → Option (List Char)
  | '\n' :: rest => some rest
  | '\r' :: '\n' :: rest => some rest
  | _ => none

/-- What follows the rest of a line that has only blanks and a comment left. -/
def endOfLine? (cs : List Char) : Option (List Char) :=
  match skipComment (skipBlanks cs) with
  | [] => some []
  | rest => newline? rest

/-- Skip blanks, line ends and comments. The flag says whether the text is inside a comment. -/
def skipLinesFrom (inComment : Bool) : List Char → List Char
  | [] => []
  | '\r' :: '\n' :: rest => skipLinesFrom false rest
  | c :: rest =>
    if inComment && isPlain c then skipLinesFrom true rest
    else if isBlank c || c = '\n' then skipLinesFrom false rest
    else if c = '#' then skipLinesFrom true rest
    else c :: rest

/-- Skip blanks, line ends and comments. -/
def skipLines (cs : List Char) : List Char := skipLinesFrom false cs

/-! ## Texts -/

/-- The value of a digit in base sixteen, either case. -/
def hexValue? (c : Char) : Option Nat :=
  if c.isDigit then some (c.toNat - '0'.toNat)
  else if 'a' ≤ c ∧ c ≤ 'f' then some (c.toNat - 'a'.toNat + 10)
  else if 'A' ≤ c ∧ c ≤ 'F' then some (c.toNat - 'A'.toNat + 10)
  else none

/-- The character whose number is written by digits in base sixteen. -/
def charOfHex? (digits : List Char) : Option Char := do
  let values ← digits.mapM hexValue?
  let n := values.foldl (fun n d => 16 * n + d) 0
  if n.isValidChar then some (Char.ofNat n) else none

/-- The character that a one-letter escape stands for. -/
def escape? (c : Char) : Option Char :=
  match c with
  | 'b' => some '\x08'
  | 't' => some '\t'
  | 'n' => some '\n'
  | 'f' => some '\x0c'
  | 'r' => some '\r'
  | '"' => some '"'
  | '\\' => some '\\'
  | _ => none

/-- The character of an escape whose backslash has been read. -/
def readEscape : List Char → Option (Char × List Char)
  | 'u' :: a :: b :: c :: d :: rest => (charOfHex? [a, b, c, d]).map (·, rest)
  | 'U' :: a :: b :: c :: d :: e :: f :: g :: h :: rest =>
    (charOfHex? [a, b, c, d, e, f, g, h]).map (·, rest)
  | c :: rest => (escape? c).map (·, rest)
  | [] => none

/-- A text with escapes, on one line, whose opening quote has been read. -/
def readBasic : Nat → List Char → Option (List Char × List Char)
  | 0, _ => none
  | fuel + 1, cs =>
    match cs with
    | '"' :: rest => some ([], rest)
    | '\\' :: rest => do
      let (c, rest) ← readEscape rest
      let (text, rest) ← readBasic fuel rest
      pure (c :: text, rest)
    | c :: rest =>
      if isPlain c then (readBasic fuel rest).map fun (text, rest) => (c :: text, rest) else none
    | [] => none

/-- A text without escapes, on one line, whose opening quote has been read. -/
def readLiteral : List Char → Option (List Char × List Char)
  | '\'' :: rest => some ([], rest)
  | c :: rest =>
    if isPlain c then (readLiteral rest).map fun (text, rest) => (c :: text, rest) else none
  | [] => none

/-- The first line end of a text over several lines does not count. -/
def skipFirstNewline (cs : List Char) : List Char := (newline? cs).getD cs

/-- What follows a backslash at the end of a line: blanks and line ends up to the next visible
character are skipped. -/
def continueLine? (cs : List Char) : Option (List Char) :=
  (newline? (skipBlanks cs)).map skip
where
  skip : List Char → List Char
    | ' ' :: rest => skip rest
    | '\t' :: rest => skip rest
    | '\n' :: rest => skip rest
    | '\r' :: '\n' :: rest => skip rest
    | cs => cs

/-- A text with escapes, over several lines, whose opening quotes have been read. Three quotes end it;
one or two more before them belong to the text. -/
def readBasicLines : Nat → List Char → Option (List Char × List Char)
  | 0, _ => none
  | fuel + 1, cs =>
    match cs with
    | '"' :: '"' :: '"' :: '"' :: '"' :: rest => some (['"', '"'], rest)
    | '"' :: '"' :: '"' :: '"' :: rest => some (['"'], rest)
    | '"' :: '"' :: '"' :: rest => some ([], rest)
    | '"' :: rest => (readBasicLines fuel rest).map fun (text, rest) => ('"' :: text, rest)
    | '\\' :: rest =>
      match continueLine? rest with
      | some rest => readBasicLines fuel rest
      | none => do
        let (c, rest) ← readEscape rest
        let (text, rest) ← readBasicLines fuel rest
        pure (c :: text, rest)
    | '\n' :: rest => (readBasicLines fuel rest).map fun (text, rest) => ('\n' :: text, rest)
    | '\r' :: '\n' :: rest =>
      (readBasicLines fuel rest).map fun (text, rest) => ('\n' :: text, rest)
    | c :: rest =>
      if isPlain c then (readBasicLines fuel rest).map fun (text, rest) => (c :: text, rest)
      else none
    | [] => none

/-- A text without escapes, over several lines, whose opening quotes have been read. -/
def readLiteralLines : List Char → Option (List Char × List Char)
  | '\'' :: '\'' :: '\'' :: '\'' :: '\'' :: rest => some (['\'', '\''], rest)
  | '\'' :: '\'' :: '\'' :: '\'' :: rest => some (['\''], rest)
  | '\'' :: '\'' :: '\'' :: rest => some ([], rest)
  | '\n' :: rest => (readLiteralLines rest).map fun (text, rest) => ('\n' :: text, rest)
  | '\r' :: '\n' :: rest => (readLiteralLines rest).map fun (text, rest) => ('\n' :: text, rest)
  | c :: rest =>
    if isPlain c then (readLiteralLines rest).map fun (text, rest) => (c :: text, rest) else none
  | [] => none

/-- A text value of any of the four forms. -/
def readText (cs : List Char) : Option (String × List Char) :=
  let chars := match cs with
    | '"' :: '"' :: '"' :: rest => readBasicLines (rest.length + 1) (skipFirstNewline rest)
    | '"' :: rest => readBasic (rest.length + 1) rest
    | '\'' :: '\'' :: '\'' :: rest => readLiteralLines (skipFirstNewline rest)
    | '\'' :: rest => readLiteral rest
    | _ => none
  chars.map fun (text, rest) => (String.ofList text, rest)

/-! ## Keys -/

/-- Characters of a key without quotes. -/
def isBare (c : Char) : Bool := c.isAlphanum || c = '-' || c = '_'

/-- One part of a key, in quotes or bare. -/
def readKeyPart (cs : List Char) : Option (String × List Char) :=
  match cs with
  | '"' :: rest =>
    (readBasic (rest.length + 1) rest).map fun (text, rest) => (String.ofList text, rest)
  | '\'' :: rest => (readLiteral rest).map fun (text, rest) => (String.ofList text, rest)
  | _ =>
    match cs.takeWhile isBare with
    | [] => none
    | part => some (String.ofList part, cs.dropWhile isBare)

/-- The parts of a key, separated by points, with blanks around each. -/
def readKeyParts : Nat → List Char → Option (List String × List Char)
  | 0, _ => none
  | fuel + 1, cs => do
    let (part, rest) ← readKeyPart (skipBlanks cs)
    match skipBlanks rest with
    | '.' :: rest => do
      let (parts, rest) ← readKeyParts fuel rest
      pure (part :: parts, rest)
    | rest => pure ([part], rest)

/-- Containers and keys nest less deep than this. -/
def maxDepth : Nat := 80

/-- A key: the parts before the last, and the last. -/
def readKey (cs : List Char) : Option ((List String × String) × List Char) := do
  let (parts, rest) ← readKeyParts (cs.length + 1) cs
  if maxDepth ≤ parts.length then none
  let last ← parts.getLast?
  pure ((parts.dropLast, last), rest)

end Lockstep.Toml
