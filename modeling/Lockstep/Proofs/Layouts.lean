import Lockstep.Proofs.Tokens
import Mathlib.Data.List.DropRight

/-!
# Values are read back from any layout

A value is written in one of two layouts, which differ only in the blanks between tokens; and the reader
passes over blanks. So nothing here is about a layout as a whole. A text `Reads` as a value if the reader,
given fuel for its length, takes exactly that text off the front of anything that ends it, and there is one
lemma for each construct of the format, with any blanks where blanks may stand. Both layouts are then built
up from these lemmas, by the same induction over the value.

What comes back is a document, which is the same tree before anyone has given it a type (`Json.toDoc`).
Doubles are left out: they are written by the fewest digits that tell them apart, and the reader rounds the
digits in its own way.
-/

namespace Lockstep

namespace Json

mutual

/-- The document that a value is read back as. -/
def toDoc : Json → Doc
  | .null => .null
  | .bool b => .bool b
  | .int i => .int i
  | .float x => .float x
  | .str s => .str s
  | .arr items => .arr (toDocs items)
  | .obj members => .obj (toDocMembers members)

def toDocs : List Json → List Doc
  | [] => []
  | v :: rest => v.toDoc :: toDocs rest

def toDocMembers : List (String × Json) → List (Option String × Doc)
  | [] => []
  | (k, v) :: rest => (some k, v.toDoc) :: toDocMembers rest

end

theorem toDocs_eq (items : List Json) : toDocs items = items.map toDoc := by
  induction items with
  | nil => rfl
  | cons v rest ih => rw [toDocs, ih, List.map_cons]

theorem toDocMembers_eq (members : List (String × Json)) :
    toDocMembers members = members.map fun m => (some m.1, m.2.toDoc) := by
  induction members with
  | nil => rfl
  | cons m rest ih => rw [toDocMembers, ih, List.map_cons]

theorem toDoc_arr (items : List Json) : (arr items).toDoc = .arr (items.map toDoc) := by
  rw [toDoc, toDocs_eq]

theorem toDoc_obj (members : List (String × Json)) :
    (obj members).toDoc = .obj (members.map fun m => (some m.1, m.2.toDoc)) := by
  rw [toDoc, toDocMembers_eq]

/-- A value without doubles, whose integers fit in 64 bits. -/
inductive Exact : Json → Prop
  | null : Exact null
  | bool (b : Bool) : Exact (bool b)
  | int {i : Int} : Fits64 i → Exact (int i)
  | str (s : String) : Exact (str s)
  | arr {items : List Json} : (∀ v ∈ items, Exact v) → Exact (arr items)
  | obj {members : List (String × Json)} : (∀ m ∈ members, Exact m.2) → Exact (obj members)

/-! ## Blanks -/

/-- Nothing but blanks. -/
def Blank (cs : List Char) : Prop := ∀ c ∈ cs, isBlank c = true

theorem isBlank_cases {c : Char} (h : isBlank c = true) : c = ' ' ∨ c = '\t' ∨ c = '\n' ∨ c = '\r' := by
  simpa [isBlank, or_assoc] using h

theorem skipBlanks_append {gap : List Char} (h : Blank gap) (cs : List Char) :
    skipBlanks (gap ++ cs) = skipBlanks cs :=
  List.dropWhile_append_of_pos h

theorem skipBlanks_cons {c : Char} (h : isBlank c = false) (cs : List Char) :
    skipBlanks (c :: cs) = c :: cs :=
  List.dropWhile_cons_of_neg (by simp [h])

theorem skipBlanks_skipBlanks (cs : List Char) : skipBlanks (skipBlanks cs) = skipBlanks cs :=
  List.dropWhile_idempotent isBlank cs

theorem blank_newline (depth : Nat) : Blank (newline depth) := by
  intro c hc
  rcases List.mem_cons.mp hc with rfl | hc
  · rfl
  · rw [List.eq_of_mem_replicate hc]
    rfl

theorem ends_nil : Ends [] := fun _ hc => absurd hc (by simp)

theorem ends_cons {c : Char} (hc : c.isDigit = false ∧ c ≠ '.' ∧ c ≠ 'e' ∧ c ≠ 'E') (rest : List Char) :
    Ends (c :: rest) := by
  intro d hd
  rw [List.head?_cons, Option.some.injEq] at hd
  rw [← hd]
  exact hc

/-- No blank is part of a numeral. -/
theorem ends_append {gap : List Char} (h : Blank gap) {rest : List Char} (hrest : Ends rest) :
    Ends (gap ++ rest) := by
  cases gap with
  | nil => exact hrest
  | cons c gap =>
    have hc : isBlank c = true := h c (by simp)
    refine ends_cons ?_ (gap ++ rest)
    rcases isBlank_cases hc with rfl | rfl | rfl | rfl <;> decide

/-! ## What a text reads as -/

/-- The reader takes the text for the document, and leaves alone what ends it. -/
def Reads (cs : List Char) (d : Doc) : Prop :=
  ∀ fuel rest, cs.length ≤ fuel → Ends rest → readValue fuel (cs ++ rest) = some (d, rest)

theorem readValue_skipBlanks (fuel : Nat) (cs : List Char) :
    readValue fuel (skipBlanks cs) = readValue fuel cs := by
  cases fuel with
  | zero => rfl
  | succ fuel => rw [readValue, readValue, skipBlanks_skipBlanks]

theorem readItems_skipBlanks (fuel : Nat) (cs : List Char) :
    readItems fuel (skipBlanks cs) = readItems fuel cs := by
  cases fuel with
  | zero => rfl
  | succ fuel => rw [readItems, readItems, readValue_skipBlanks]

theorem readMembers_skipBlanks (fuel : Nat) (cs : List Char) :
    readMembers fuel (skipBlanks cs) = readMembers fuel cs := by
  cases fuel with
  | zero => rfl
  | succ fuel => rw [readMembers, readMembers, skipBlanks_skipBlanks]

theorem Reads.after {gap cs : List Char} {d : Doc} (h : Reads cs d) (hgap : Blank gap) :
    Reads (gap ++ cs) d := by
  intro fuel rest hfuel hrest
  rw [List.length_append] at hfuel
  rw [List.append_assoc, ← readValue_skipBlanks, skipBlanks_append hgap, readValue_skipBlanks]
  exact h fuel rest (by omega) hrest

theorem reads_null : Reads ['n', 'u', 'l', 'l'] .null := by
  intro fuel rest hfuel _
  cases fuel with
  | zero => exact absurd hfuel (by decide)
  | succ fuel => rfl

theorem reads_bool (b : Bool) : Reads (printBool b) (.bool b) := by
  intro fuel rest hfuel _
  cases fuel with
  | zero => cases b <;> exact absurd hfuel (by decide)
  | succ fuel => cases b <;> rfl

theorem printText_append (s : String) (rest : List Char) :
    printText s ++ rest = '"' :: (s.toList.flatMap escapeChar ++ '"' :: rest) := by
  simp [printText]

theorem reads_str (s : String) : Reads (printText s) (.str s) := by
  intro fuel rest hfuel _
  cases fuel with
  | zero => exact absurd hfuel (by simp [printText])
  | succ fuel =>
    rw [printText_append, readValue, skipBlanks_cons rfl]
    simp only [readText_escaped]
    rfl

/-- A text that starts with a minus or a digit is taken for a numeral. -/
theorem readValue_numeral {c : Char} (hc : c = '-' ∨ c.isDigit = true) (fuel : Nat) (cs : List Char) :
    readValue (fuel + 1) (c :: cs) = (readNumeral (c :: cs)).map fun r => (r.1.toDoc, r.2) := by
  have hblank : isBlank c = false := by
    by_contra hblank
    rcases isBlank_cases (Bool.not_eq_false _ ▸ hblank) with rfl | rfl | rfl | rfl <;>
      exact absurd hc (by decide)
  rw [readValue, skipBlanks_cons hblank]
  split
  case h_7 => rfl
  -- every other case asks for a letter, a quote or a bracket in front
  all_goals
    rename_i heq
    cases heq
    exact absurd hc (by decide)

theorem exists_cons_printInt (i : Int) :
    ∃ c cs, printInt i = c :: cs ∧ (c = '-' ∨ c.isDigit = true) := by
  have hnat : ∀ n, ∃ c cs, printNat n = c :: cs ∧ c.isDigit = true := by
    intro n
    cases hdigits : printNat n with
    | nil => exact absurd hdigits Nat.toDigits_ne_nil
    | cons d ds => exact ⟨d, ds, rfl, isDigit_of_mem_printNat (n := n) (by simp [hdigits])⟩
  cases i with
  | ofNat n =>
    obtain ⟨c, cs, hcs, hc⟩ := hnat n
    exact ⟨c, cs, hcs, Or.inr hc⟩
  | negSucc n => exact ⟨'-', printNat (n + 1), rfl, Or.inl rfl⟩

theorem reads_int {i : Int} (hi : Fits64 i) : Reads (printInt i) (.int i) := by
  intro fuel rest hfuel hrest
  obtain ⟨numeral, hread, hdoc⟩ := readNumeral_printInt hi hrest
  obtain ⟨c, cs, hcs, hc⟩ := exists_cons_printInt i
  rw [hcs, List.cons_append] at hread ⊢
  cases fuel with
  | zero => exact absurd hfuel (by simp [hcs])
  | succ fuel => rw [readValue_numeral hc, hread, Option.map_some, hdoc]

/-! ## Containers -/

/--
**A list of parts is read back up to its closing bracket**, if every part is.

`last` and `more` say what the reader does after one part. Its fuel pays for the length of the parts: one
part costs a unit, and there is a comma for every part that is not the last.
-/
theorem read_intercalate {β : Type} {read : Nat → List Char → Option (List β × List Char)}
    {IsPart : List Char → β → Prop} {close : Char} {gap : List Char}
    (last : ∀ {cs b fuel}, IsPart cs b → cs.length ≤ fuel → ∀ rest,
      read (fuel + 1) (cs ++ (gap ++ close :: rest)) = some ([b], rest))
    (more : ∀ {cs b fuel}, IsPart cs b → cs.length ≤ fuel → ∀ rest,
      read (fuel + 1) (cs ++ ',' :: rest) = (read fuel rest).map fun r => (b :: r.1, r.2))
    {texts : List (List Char)} {bs : List β} (h : List.Forall₂ IsPart texts bs) (hne : texts ≠ []) :
    ∀ fuel rest, (List.intercalate [','] texts).length + 1 ≤ fuel →
      read fuel (List.intercalate [','] texts ++ (gap ++ close :: rest)) = some (bs, rest) := by
  induction h with
  | nil => exact absurd rfl hne
  | @cons cs b texts bs hb hrest ih =>
    intro fuel rest hfuel
    obtain ⟨fuel, rfl⟩ : ∃ k, fuel = k + 1 := ⟨fuel - 1, by omega⟩
    cases hrest with
    | nil =>
      rw [List.intercalate_singleton] at hfuel ⊢
      exact last hb (by omega) rest
    | cons _ _ =>
      rw [List.intercalate_cons_cons, List.append_assoc] at hfuel ⊢
      simp only [List.length_append, List.length_singleton] at hfuel
      rw [List.append_assoc, List.singleton_append, more hb (by omega),
        ih (by simp) fuel rest (by omega)]
      rfl

theorem readItems_last {cs gap : List Char} {d : Doc} {fuel : Nat} (hgap : Blank gap) (h : Reads cs d)
    (hfuel : cs.length ≤ fuel) (rest : List Char) :
    readItems (fuel + 1) (cs ++ (gap ++ ']' :: rest)) = some ([d], rest) := by
  have hends : Ends (gap ++ ']' :: rest) := ends_append hgap (ends_cons (by decide) rest)
  have hskip : skipBlanks (gap ++ ']' :: rest) = ']' :: rest := by
    rw [skipBlanks_append hgap, skipBlanks_cons rfl]
  rw [readItems, h fuel _ hfuel hends]
  simp only [Option.bind_eq_bind, Option.bind_some, hskip, Option.pure_def]

theorem readItems_more {cs : List Char} {d : Doc} {fuel : Nat} (h : Reads cs d)
    (hfuel : cs.length ≤ fuel) (rest : List Char) :
    readItems (fuel + 1) (cs ++ ',' :: rest) =
      (readItems fuel rest).map fun r => (d :: r.1, r.2) := by
  have hends : Ends (',' :: rest) := ends_cons (by decide) rest
  have hskip : skipBlanks (',' :: rest) = ',' :: rest := skipBlanks_cons rfl rest
  rw [readItems, h fuel _ hfuel hends]
  simp only [Option.bind_eq_bind, Option.bind_some, hskip]
  cases readItems fuel rest <;> rfl

theorem readItems_close (fuel : Nat) (rest : List Char) : readItems fuel (']' :: rest) = none := by
  cases fuel with
  | zero => rfl
  | succ fuel =>
    have hvalue : readValue fuel (']' :: rest) = none := by
      cases fuel with
      | zero => rfl
      | succ fuel => rfl
    rw [readItems, hvalue]
    rfl

theorem readValue_bracket {cs rest : List Char} {docs : List Doc} {fuel : Nat}
    (h : readItems fuel cs = some (docs, rest)) :
    readValue (fuel + 1) ('[' :: cs) = some (.arr docs, rest) := by
  rw [← readItems_skipBlanks] at h
  rw [readValue, skipBlanks_cons rfl]
  simp only []
  split
  · rename_i hclose
    rw [hclose, readItems_close] at h
    exact absurd h (by simp)
  · rw [h, Option.map_some]

/-- An array of at least one element, with any blanks before its end. -/
theorem reads_arr {texts : List (List Char)} {docs : List Doc} (h : List.Forall₂ Reads texts docs)
    (hne : texts ≠ []) {gap : List Char} (hgap : Blank gap) :
    Reads ('[' :: (List.intercalate [','] texts ++ (gap ++ [']']))) (.arr docs) := by
  intro fuel rest hfuel hrest
  simp only [List.length_cons, List.length_append, List.length_nil] at hfuel
  obtain ⟨fuel, rfl⟩ : ∃ k, fuel = k + 1 := ⟨fuel - 1, by omega⟩
  have hshape : List.intercalate [','] texts ++ (gap ++ [']']) ++ rest =
      List.intercalate [','] texts ++ (gap ++ ']' :: rest) := by simp
  rw [List.cons_append, hshape]
  exact readValue_bracket
    (read_intercalate (readItems_last hgap) readItems_more h hne fuel rest (by omega))

/-- The text of a member: a name, a colon, and what reads as the value, with any blanks in front. -/
def ReadsMember (cs : List Char) (m : Option String × Doc) : Prop :=
  ∃ gap k text, Blank gap ∧ m.1 = some k ∧ Reads text m.2 ∧
    cs = gap ++ (printText k ++ ':' :: text)

/-- A member is read as far as its value. -/
theorem ReadsMember.exists_value {cs : List Char} {m : Option String × Doc} {fuel : Nat}
    (h : ReadsMember cs m) (hfuel : cs.length ≤ fuel) {rest : List Char} (hrest : Ends rest) :
    ∃ inside after, skipBlanks (cs ++ rest) = '"' :: inside ∧
      readText inside = some (m.1, ':' :: after) ∧ readValue fuel after = some (m.2, rest) := by
  obtain ⟨gap, k, text, hgap, hk, htext, rfl⟩ := h
  have hshape : gap ++ (printText k ++ ':' :: text) ++ rest =
      gap ++ '"' :: (k.toList.flatMap escapeChar ++ '"' :: (':' :: (text ++ rest))) := by
    simp [printText]
  refine ⟨k.toList.flatMap escapeChar ++ '"' :: (':' :: (text ++ rest)), text ++ rest, ?_, ?_, ?_⟩
  · rw [hshape, skipBlanks_append hgap, skipBlanks_cons rfl]
  · rw [readText_escaped, hk]
  · simp only [List.length_append, List.length_cons] at hfuel
    exact htext fuel rest (by omega) hrest

theorem readMembers_last {cs gap : List Char} {m : Option String × Doc} {fuel : Nat} (hgap : Blank gap)
    (h : ReadsMember cs m) (hfuel : cs.length ≤ fuel) (rest : List Char) :
    readMembers (fuel + 1) (cs ++ (gap ++ '\x7d' :: rest)) = some ([m], rest) := by
  have hends : Ends (gap ++ '\x7d' :: rest) := ends_append hgap (ends_cons (by decide) rest)
  have hskip : skipBlanks (gap ++ '\x7d' :: rest) = '\x7d' :: rest := by
    rw [skipBlanks_append hgap, skipBlanks_cons rfl]
  obtain ⟨inside, after, hopen, hname, hvalue⟩ := h.exists_value hfuel hends
  have hcolon : skipBlanks (':' :: after) = ':' :: after := skipBlanks_cons rfl after
  rw [readMembers, hopen]
  simp only [hname, hcolon, hvalue, hskip, Option.bind_eq_bind, Option.bind_some, Option.pure_def]

theorem readMembers_more {cs : List Char} {m : Option String × Doc} {fuel : Nat} (h : ReadsMember cs m)
    (hfuel : cs.length ≤ fuel) (rest : List Char) :
    readMembers (fuel + 1) (cs ++ ',' :: rest) =
      (readMembers fuel rest).map fun r => (m :: r.1, r.2) := by
  have hends : Ends (',' :: rest) := ends_cons (by decide) rest
  have hskip : skipBlanks (',' :: rest) = ',' :: rest := skipBlanks_cons rfl rest
  obtain ⟨inside, after, hopen, hname, hvalue⟩ := h.exists_value hfuel hends
  have hcolon : skipBlanks (':' :: after) = ':' :: after := skipBlanks_cons rfl after
  rw [readMembers, hopen]
  simp only [hname, hcolon, hvalue, hskip, Option.bind_eq_bind, Option.bind_some]
  cases readMembers fuel rest <;> rfl

theorem readMembers_close (fuel : Nat) (rest : List Char) :
    readMembers fuel ('\x7d' :: rest) = none := by
  cases fuel with
  | zero => rfl
  | succ fuel => rfl

theorem readValue_brace {cs rest : List Char} {members : List (Option String × Doc)} {fuel : Nat}
    (h : readMembers fuel cs = some (members, rest)) :
    readValue (fuel + 1) ('\x7b' :: cs) = some (.obj members, rest) := by
  rw [← readMembers_skipBlanks] at h
  rw [readValue, skipBlanks_cons rfl]
  simp only []
  split
  · rename_i hclose
    rw [hclose, readMembers_close] at h
    exact absurd h (by simp)
  · rw [h, Option.map_some]

/-- An object of at least one member, with any blanks before its end. -/
theorem reads_obj {texts : List (List Char)} {members : List (Option String × Doc)}
    (h : List.Forall₂ ReadsMember texts members) (hne : texts ≠ []) {gap : List Char}
    (hgap : Blank gap) :
    Reads ('\x7b' :: (List.intercalate [','] texts ++ (gap ++ ['\x7d']))) (.obj members) := by
  intro fuel rest hfuel hrest
  simp only [List.length_cons, List.length_append, List.length_nil] at hfuel
  obtain ⟨fuel, rfl⟩ : ∃ k, fuel = k + 1 := ⟨fuel - 1, by omega⟩
  have hshape : List.intercalate [','] texts ++ (gap ++ ['\x7d']) ++ rest =
      List.intercalate [','] texts ++ (gap ++ '\x7d' :: rest) := by simp
  rw [List.cons_append, hshape]
  exact readValue_brace
    (read_intercalate (readMembers_last hgap) readMembers_more h hne fuel rest (by omega))

theorem reads_arr_nil : Reads ['[', ']'] (.arr []) := by
  intro fuel rest hfuel _
  cases fuel with
  | zero => exact absurd hfuel (by decide)
  | succ fuel => rfl

theorem reads_obj_nil : Reads ['\x7b', '\x7d'] (.obj []) := by
  intro fuel rest hfuel _
  cases fuel with
  | zero => exact absurd hfuel (by decide)
  | succ fuel => rfl

/-! ## The two layouts -/

/-- The printers put a comma between parts, and none after the last. -/
theorem eq_intercalate {α : Type} {print : List α → List Char} {part : α → List Char}
    (nil : print [] = []) (one : ∀ x, print [x] = part x)
    (more : ∀ x y l, print (x :: y :: l) = part x ++ ',' :: print (y :: l)) (l : List α) :
    print l = List.intercalate [','] (l.map part) := by
  induction l with
  | nil => exact nil
  | cons x l ih =>
    cases l with
    | nil => rw [one, List.map_singleton, List.intercalate_singleton]
    | cons y l =>
      rw [more, ih, List.map_cons, List.map_cons, List.map_cons, List.intercalate_cons_cons,
        List.append_assoc, List.singleton_append]

theorem compactItems_eq (items : List Json) :
    compactItems items = List.intercalate [','] (items.map compactChars) :=
  eq_intercalate rfl (fun _ => by rw [compactItems]) (fun _ _ _ => by simp [compactItems]) items

theorem compactMembers_eq (members : List (String × Json)) :
    compactMembers members = List.intercalate [',']
      (members.map fun m => printText m.1 ++ ':' :: m.2.compactChars) :=
  eq_intercalate rfl (fun _ => by rw [compactMembers])
    (fun _ _ _ => by simp [compactMembers]) members

theorem prettyItems_eq (depth : Nat) (items : List Json) :
    prettyItems depth items = List.intercalate [',']
      (items.map fun v => newline depth ++ v.prettyChars depth) :=
  eq_intercalate rfl (fun _ => by rw [prettyItems]) (fun _ _ _ => by simp [prettyItems]) items

theorem prettyMembers_eq (depth : Nat) (members : List (String × Json)) :
    prettyMembers depth members = List.intercalate [',']
      (members.map fun m => newline depth ++ (printText m.1 ++ ':' :: ' ' :: m.2.prettyChars depth)) :=
  eq_intercalate rfl (fun _ => by simp [prettyMembers]) (fun _ _ _ => by simp [prettyMembers]) members

theorem blank_nil : Blank [] := fun _ hc => absurd hc (by simp)

/-- **The compact layout is read back.** -/
theorem reads_compactChars {v : Json} (h : Exact v) : Reads v.compactChars v.toDoc := by
  induction h with
  | null => exact reads_null
  | bool b => exact reads_bool b
  | int hi => exact reads_int hi
  | str s => exact reads_str s
  | @arr items _ ih =>
    rw [compactChars, compactItems_eq, toDoc_arr]
    cases items with
    | nil => exact reads_arr_nil
    | cons v rest =>
      refine reads_arr ?_ (by simp) blank_nil
      rw [List.forall₂_map_left_iff, List.forall₂_map_right_iff, List.forall₂_same]
      exact ih
  | @obj members _ ih =>
    rw [compactChars, compactMembers_eq, toDoc_obj]
    cases members with
    | nil => exact reads_obj_nil
    | cons m rest =>
      refine reads_obj ?_ (by simp) blank_nil
      rw [List.forall₂_map_left_iff, List.forall₂_map_right_iff, List.forall₂_same]
      exact fun m hm => ⟨[], m.1, _, blank_nil, rfl, ih m hm, rfl⟩

/-- **The layout one element a line is read back**, at any depth. -/
theorem reads_prettyChars {v : Json} (h : Exact v) : ∀ depth, Reads (v.prettyChars depth) v.toDoc := by
  induction h with
  | null => exact fun _ => reads_null
  | bool b => exact fun _ => reads_bool b
  | int hi => exact fun _ => reads_int hi
  | str s => exact fun _ => reads_str s
  | @arr items _ ih =>
    intro depth
    rw [toDoc_arr]
    cases items with
    | nil => exact reads_arr_nil
    | cons v rest =>
      rw [prettyChars, prettyItems_eq, List.cons_append, List.cons_append, List.append_assoc]
      refine reads_arr ?_ (by simp) (blank_newline depth)
      rw [List.forall₂_map_left_iff, List.forall₂_map_right_iff, List.forall₂_same]
      exact fun w hw => (ih w hw (depth + 1)).after (blank_newline (depth + 1))
  | @obj members _ ih =>
    intro depth
    rw [toDoc_obj]
    cases members with
    | nil => exact reads_obj_nil
    | cons m rest =>
      rw [prettyChars, prettyMembers_eq, List.cons_append, List.cons_append, List.append_assoc]
      refine reads_obj ?_ (by simp) (blank_newline depth)
      rw [List.forall₂_map_left_iff, List.forall₂_map_right_iff, List.forall₂_same]
      intro w hw
      have hspace : Blank [' '] := by
        intro c hc
        rw [List.mem_singleton.mp hc]
        rfl
      exact ⟨newline (depth + 1), w.1, _, blank_newline (depth + 1), rfl,
        (ih w hw (depth + 1)).after hspace, rfl⟩

/-- A text that reads as a document, with nothing after it, is that document. -/
theorem read?_of_reads {cs : List Char} {d : Doc} (h : Reads cs d) :
    read? (String.ofList cs) = some d := by
  have hread := h (2 * cs.length + 2) [] (by omega) ends_nil
  rw [List.append_nil] at hread
  unfold read?
  rw [String.toList_ofList]
  dsimp only
  rw [hread]
  rfl

theorem read?_compact {v : Json} (h : Exact v) : read? v.compact = some v.toDoc :=
  read?_of_reads (reads_compactChars h)

theorem read?_pretty {v : Json} (h : Exact v) : read? v.pretty = some v.toDoc :=
  read?_of_reads (reads_prettyChars h 0)

end Json

end Lockstep
