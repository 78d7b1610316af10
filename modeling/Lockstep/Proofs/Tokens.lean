import Lockstep.Json.Printer
import Lockstep.Json.Reader
import Mathlib.Data.List.Forall2

/-!
# Tokens are read back as they were written

The two kinds of token that have contents. A text is written character by character, and every character
becomes one piece of the literal that the reader takes apart; the pieces are then joined, and since no
half of a pair is ever written, joining gives the characters back (`readText_escaped`).

An integer is written by its decimal digits. What follows a numeral must not be taken for a part of it,
so the lemmas ask that the rest of the text does not go on with a digit, a point or an exponent: it `Ends`
the numeral. The reader tells integers by whether the digits fit in 64 bits, so the value comes back only
from integers that do (`readNumeral_printInt`).
-/

namespace Lockstep.Json

/-! ## Texts -/

/-- A piece of a literal that stands for one character by itself. -/
inductive Piece.StandsFor : Piece → Char → Prop
  | char (c : Char) : StandsFor (.char c) c
  | unit (c : Char) : c.toNat < 0x20 → StandsFor (.unit c.toNat) c

/-- A small unit is no half of a pair, whatever piece comes after it. -/
theorem joinPieces_unit {n : Nat} (h : n < 0x20) (pieces : List Piece) :
    joinPieces (.unit n :: pieces) = (joinPieces pieces).map (Char.ofNat n :: ·) := by
  have hhigh : isHighHalf n = false := by
    simp only [isHighHalf, Bool.and_eq_false_iff, decide_eq_false_iff_not]
    omega
  have hlow : isLowHalf n = false := by
    simp only [isLowHalf, Bool.and_eq_false_iff, decide_eq_false_iff_not]
    omega
  cases pieces with
  | nil => simp [joinPieces, hhigh, hlow]
  | cons piece pieces => cases piece <;> simp [joinPieces, hhigh, hlow]

theorem joinPieces_of_standsFor {pieces : List Piece} {cs : List Char}
    (h : List.Forall₂ Piece.StandsFor pieces cs) : joinPieces pieces = some cs := by
  induction h with
  | nil => rfl
  | cons hpiece _ ih =>
    cases hpiece with
    | char => rw [joinPieces, ih, Option.map_some]
    | unit _ hc => rw [joinPieces_unit hc, ih, Option.map_some, Char.ofNat_toNat]

theorem unit?_hexDigit :
    ∀ n < 0x20, unit? '0' '0' (hexDigit (n / 16)) (hexDigit (n % 16)) = some n := by
  decide

/-- A character is written by a letter, by its number, or as it is. -/
theorem escapeChar_cases (c : Char) :
    (∃ e, escape? e = some c ∧ escapeChar c = ['\\', e]) ∨
      (c.toNat < 0x20 ∧ escapeChar c =
        ['\\', 'u', '0', '0', hexDigit (c.toNat / 16), hexDigit (c.toNat % 16)]) ∨
      c ≠ '"' ∧ c ≠ '\\' ∧ ¬ c.toNat < 0x20 ∧ escapeChar c = [c] := by
  by_cases hletter : ∃ e, escape? e = some c ∧ escapeChar c = ['\\', e]
  · exact Or.inl hletter
  · -- none of the characters that have a letter
    have hne : ∀ e d, escape? e = some d → escapeChar d = ['\\', e] → c ≠ d := by
      rintro e d he hwritten rfl
      exact hletter ⟨e, he, hwritten⟩
    have hquote : c ≠ '"' := hne '"' '"' rfl rfl
    have hslash : c ≠ '\\' := hne '\\' '\\' rfl rfl
    refine Or.inr ?_
    by_cases hc : c.toNat < 0x20
    · refine Or.inl ⟨hc, ?_⟩
      rw [escapeChar, if_neg hquote, if_neg hslash, if_pos hc, if_neg (hne 'b' _ rfl rfl),
        if_neg (hne 't' _ rfl rfl), if_neg (hne 'n' _ rfl rfl), if_neg (hne 'f' _ rfl rfl),
        if_neg (hne 'r' _ rfl rfl)]
    · refine Or.inr ⟨hquote, hslash, hc, ?_⟩
      rw [escapeChar, if_neg hquote, if_neg hslash, if_neg hc]

theorem readPieces_plain {c : Char} (hquote : c ≠ '"') (hslash : c ≠ '\\') (hc : ¬ c.toNat < 0x20)
    (rest : List Char) :
    readPieces (c :: rest) = (readPieces rest).map fun r => (.char c :: r.1, r.2) := by
  have hallowed : ¬ (c.toNat < 0x20 ∨ c = '\\') := not_or.mpr ⟨hc, hslash⟩
  rw [readPieces]
  · rw [if_neg hallowed]
    cases readPieces rest <;> rfl
  · exact hquote
  · intro _ _ _ _ _ h
    exact absurd h hslash
  · intro _ _ h
    exact absurd h hslash

theorem readPieces_letter {e c : Char} (he : escape? e = some c) (rest : List Char) :
    readPieces ('\\' :: e :: rest) = (readPieces rest).map fun r => (.char c :: r.1, r.2) := by
  have hu : e ≠ 'u' := by
    rintro rfl
    cases he
  rw [readPieces]
  · rw [he]
    cases readPieces rest <;> rfl
  · intro _ _ _ _ _ h
    exact absurd h hu

theorem readPieces_number {n : Nat} (h : n < 0x20) (rest : List Char) :
    readPieces ('\\' :: 'u' :: '0' :: '0' :: hexDigit (n / 16) :: hexDigit (n % 16) :: rest) =
      (readPieces rest).map fun r => (.unit n :: r.1, r.2) := by
  rw [readPieces, unit?_hexDigit n h]
  cases readPieces rest <;> rfl

/-- **A character is read back as one piece that stands for it.** -/
theorem readPieces_escapeChar (c : Char) :
    ∃ piece : Piece, piece.StandsFor c ∧ ∀ rest,
      readPieces (escapeChar c ++ rest) = (readPieces rest).map fun r => (piece :: r.1, r.2) := by
  rcases escapeChar_cases c with ⟨e, he, hwritten⟩ | ⟨hc, hwritten⟩ | ⟨hquote, hslash, hc, hwritten⟩
  · rw [hwritten]
    exact ⟨_, .char c, readPieces_letter he⟩
  · rw [hwritten]
    exact ⟨_, .unit c hc, readPieces_number hc⟩
  · rw [hwritten]
    exact ⟨_, .char c, readPieces_plain hquote hslash hc⟩

theorem readPieces_escaped (cs : List Char) (rest : List Char) :
    ∃ pieces, List.Forall₂ Piece.StandsFor pieces cs ∧
      readPieces (cs.flatMap escapeChar ++ '"' :: rest) = some (pieces, rest) := by
  induction cs with
  | nil => exact ⟨[], .nil, rfl⟩
  | cons c cs ih =>
    obtain ⟨piece, hpiece, hread⟩ := readPieces_escapeChar c
    obtain ⟨pieces, hpieces, hrest⟩ := ih
    refine ⟨piece :: pieces, .cons hpiece hpieces, ?_⟩
    rw [List.flatMap_cons, List.append_assoc, hread, hrest, Option.map_some]

/-- **A text is read back from between its quotes.** -/
theorem readText_escaped (s : String) (rest : List Char) :
    readText (s.toList.flatMap escapeChar ++ '"' :: rest) = some (some s, rest) := by
  obtain ⟨pieces, hpieces, hread⟩ := readPieces_escaped s.toList rest
  unfold readText
  rw [hread]
  change some ((joinPieces pieces).map String.ofList, rest) = _
  rw [joinPieces_of_standsFor hpieces, Option.map_some, String.ofList_toList]

/-! ## Integers -/

/-- What follows cannot be taken for a part of a numeral. -/
def Ends (rest : List Char) : Prop :=
  ∀ c, rest.head? = some c → c.isDigit = false ∧ c ≠ '.' ∧ c ≠ 'e' ∧ c ≠ 'E'

theorem le_ofDigitChars (ds : List Char) (n : Nat) : n ≤ Nat.ofDigitChars 10 ds n := by
  induction ds generalizing n with
  | nil => exact Nat.le_refl n
  | cons d ds ih =>
    rw [Nat.ofDigitChars_cons]
    have hgrows := ih (10 * n + (d.toNat - '0'.toNat))
    omega

/-- A significand only grows, so digits whose value fits are all absorbed. -/
theorem absorb_of_lt {ds : List Char} : ∀ {n : Nat}, Nat.ofDigitChars 10 ds n < Nat.pow 2 64 →
    absorb ds n = (Nat.ofDigitChars 10 ds n, []) := by
  induction ds with
  | nil => intro n _; rfl
  | cons d ds ih =>
    intro n h
    rw [Nat.ofDigitChars_cons] at h ⊢
    have hnext : 10 * n + digitValue d < Nat.pow 2 64 :=
      Nat.lt_of_le_of_lt (le_ofDigitChars ds _) h
    rw [absorb, if_pos hnext]
    exact ih h

theorem absorb_printNat {n : Nat} (h : n < Nat.pow 2 64) : absorb (printNat n) 0 = (n, []) := by
  have hvalue : Nat.ofDigitChars 10 (printNat n) 0 = n :=
    Nat.ofDigitChars_toDigits (by decide) (by decide)
  rw [absorb_of_lt (by rw [hvalue]; exact h), hvalue]

theorem isDigit_of_mem_printNat {n : Nat} {c : Char} (h : c ∈ printNat n) : c.isDigit = true :=
  Nat.isDigit_of_mem_toDigits (by decide) (by decide) h

theorem digitChar_ne_zero : ∀ n < 10, 0 < n → Nat.digitChar n ≠ '0' := by decide

/-- The digits of a positive number do not start with a zero. -/
theorem head?_printNat (n : Nat) (hpos : 0 < n) : (printNat n).head? ≠ some '0' := by
  induction n using Nat.strongRecOn with
  | ind n ih =>
    unfold printNat at ih ⊢
    rw [Nat.toDigits_eq_if (by decide)]
    split
    · rename_i hlt
      simpa using digitChar_ne_zero n hlt hpos
    · rw [List.head?_append_of_ne_nil _ Nat.toDigits_ne_nil]
      exact ih (n / 10) (by omega) (by omega)

/-- A single zero, or no zero in front. -/
theorem printNat_leading (n : Nat) : ¬ ((printNat n).head? = some '0' ∧ (printNat n).length ≠ 1) := by
  rintro ⟨hhead, hlength⟩
  rcases Nat.eq_zero_or_pos n with rfl | hpos
  · exact hlength rfl
  · exact head?_printNat n hpos hhead

theorem readDigits1_append {ds rest : List Char} (hne : ds ≠ []) (hds : ∀ c ∈ ds, c.isDigit = true)
    (hrest : Ends rest) : readDigits1 (ds ++ rest) = some (ds, rest) := by
  have hnone : rest.takeWhile Char.isDigit = [] := by
    cases rest with
    | nil => rfl
    | cons c rest => rw [List.takeWhile_cons_of_neg (by simp [(hrest c rfl).1])]
  have hall : rest.dropWhile Char.isDigit = rest := by
    cases rest with
    | nil => rfl
    | cons c rest => rw [List.dropWhile_cons_of_neg (by simp [(hrest c rfl).1])]
  unfold readDigits1 readDigits
  rw [List.takeWhile_append_of_pos hds, List.dropWhile_append_of_pos hds, hnone, hall,
    List.append_nil]
  cases ds with
  | nil => exact absurd rfl hne
  | cons d ds => rfl

theorem readFraction_of_ends {rest : List Char} (h : Ends rest) :
    readFraction rest = some (none, rest) := by
  cases rest with
  | nil => rfl
  | cons c rest =>
    rw [readFraction]
    intro _ hpoint
    cases hpoint
    exact (h '.' rfl).2.1 rfl

theorem readExponent_of_ends {rest : List Char} (h : Ends rest) :
    readExponent rest = some (none, rest) := by
  cases rest with
  | nil => rfl
  | cons c rest =>
    have hc : ¬ (c = 'e' ∨ c = 'E') := not_or.mpr (h c rfl).2.2
    unfold readExponent
    dsimp only
    rw [if_neg hc]

/-- After the sign come the digits, and after the digits nothing. -/
theorem readNumeral_of_sign {cs rest : List Char} {negative : Bool} {n : Nat}
    (hsign : readSign cs = (negative, printNat n ++ rest)) (hrest : Ends rest) :
    readNumeral cs = some (⟨negative, printNat n, none, none⟩, rest) := by
  have hdigits : readDigits1 (printNat n ++ rest) = some (printNat n, rest) :=
    readDigits1_append Nat.toDigits_ne_nil (fun _ => isDigit_of_mem_printNat) hrest
  unfold readNumeral
  rw [hsign]
  simp only [hdigits, Option.bind_eq_bind, Option.bind_some, if_neg (printNat_leading n),
    readFraction_of_ends hrest, readExponent_of_ends hrest, Option.pure_def]

theorem readSign_printNat (n : Nat) (rest : List Char) :
    readSign (printNat n ++ rest) = (false, printNat n ++ rest) := by
  rw [readSign]
  intro _ hminus
  cases hdigits : printNat n with
  | nil => exact absurd hdigits Nat.toDigits_ne_nil
  | cons d ds =>
    have hd : d.isDigit = true := isDigit_of_mem_printNat (n := n) (by simp [hdigits])
    rw [hdigits, List.cons_append] at hminus
    cases hminus
    exact absurd hd (by decide)

/-- The integers that fit in 64 bits, signed below zero and unsigned above. -/
def Fits64 (i : Int) : Prop := -(Nat.pow 2 63 : Int) ≤ i ∧ i < Nat.pow 2 64

/-- **An integer of 64 bits is read back**, and what follows it is left alone. -/
theorem readNumeral_printInt {i : Int} (hi : Fits64 i) {rest : List Char} (hrest : Ends rest) :
    ∃ numeral, readNumeral (printInt i ++ rest) = some (numeral, rest) ∧ numeral.toDoc = .int i := by
  obtain ⟨hlow, hhigh⟩ := hi
  cases i with
  | ofNat n =>
    have hn : n < Nat.pow 2 64 := Int.ofNat_lt.mp hhigh
    refine ⟨_, readNumeral_of_sign (readSign_printNat n rest) hrest, ?_⟩
    simp only [Numeral.toDoc, absorb_printNat hn]
    rfl
  | negSucc n =>
    have hn : n + 1 ≤ Nat.pow 2 63 := by omega
    have habsorbed : absorb (printNat (n + 1)) 0 = (n + 1, []) :=
      absorb_printNat (Nat.lt_of_le_of_lt hn (by decide))
    have hsign : readSign (printInt (Int.negSucc n) ++ rest) = (true, printNat (n + 1) ++ rest) := rfl
    refine ⟨_, readNumeral_of_sign hsign hrest, ?_⟩
    simp only [Numeral.toDoc, habsorbed, if_pos (And.intro (Nat.succ_pos n) hn)]
    rfl

end Lockstep.Json
