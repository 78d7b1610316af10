import Lockstep.Text.Sorted
import Mathlib.Data.List.Nodup
import Mathlib.Data.List.Shortlex
import Mathlib.Data.String.Basic

/-!
# Names in order

Two facts about names carry everything that is said later about the order of a search. The canonical
form of a list of names is strictly increasing and has the same members; and comparing names by code
point, which is how they are sorted, is comparing their UTF-8 bytes.

On top of them stands the order of action words: the shorter word first, and of two equally long ones
the one with the smaller action at the first place where they differ. What a breadth-first search
needs to know about that order is one equivalence, `before_snoc_iff`: extending two words by one
action each compares the words first and the actions only if the words are the same.
-/

namespace Lockstep.Text

/-! ## The canonical form -/

@[simp]
theorem mem_insertSorted {s x : String} {names : List String} :
    x ∈ insertSorted s names ↔ x = s ∨ x ∈ names := by
  induction names with
  | nil => simp [insertSorted]
  | cons t rest ih =>
    rw [insertSorted]
    split
    · simp
    · split
      · rename_i hts
        simp [hts]
      · simp only [List.mem_cons, ih]
        tauto

theorem insertSorted_increasing {s : String} {names : List String}
    (h : names.Pairwise (· < ·)) : (insertSorted s names).Pairwise (· < ·) := by
  induction names with
  | nil => simp [insertSorted]
  | cons t rest ih =>
    obtain ⟨ht, hrest⟩ := List.pairwise_cons.mp h
    rw [insertSorted]
    split
    · rename_i hst
      refine List.pairwise_cons.mpr ⟨?_, h⟩
      intro x hx
      rcases List.mem_cons.mp hx with hx | hx
      · exact hx ▸ hst
      · exact lt_trans hst (ht x hx)
    · rename_i hst
      split
      · exact h
      · rename_i hne
        refine List.pairwise_cons.mpr ⟨?_, ih hrest⟩
        intro x hx
        rcases mem_insertSorted.mp hx with hx | hx
        · exact hx ▸ lt_of_le_of_ne (not_lt.mp hst) hne
        · exact ht x hx

@[simp]
theorem mem_sortDistinct {x : String} {names : List String} :
    x ∈ sortDistinct names ↔ x ∈ names := by
  unfold sortDistinct
  induction names with
  | nil => simp
  | cons s rest ih => rw [List.foldr_cons, mem_insertSorted, ih, List.mem_cons]

/-- **The canonical form is strictly increasing**, so it is determined by its members. -/
theorem sortDistinct_increasing (names : List String) :
    (sortDistinct names).Pairwise (· < ·) := by
  unfold sortDistinct
  induction names with
  | nil => simp
  | cons s rest ih => exact insertSorted_increasing ih

theorem sortDistinct_eq_of_mem_iff {names others : List String}
    (h : ∀ s, s ∈ names ↔ s ∈ others) : sortDistinct names = sortDistinct others := by
  have hnodup : ∀ l : List String, (sortDistinct l).Nodup := fun l =>
    (sortDistinct_increasing l).imp ne_of_lt
  have hperm : (sortDistinct names).Perm (sortDistinct others) := by
    rw [List.perm_ext_iff_of_nodup (hnodup names) (hnodup others)]
    intro s
    rw [mem_sortDistinct, mem_sortDistinct, h]
  exact hperm.eq_of_pairwise (fun s t _ _ hst hts => absurd hst (lt_asymm hts))
    (sortDistinct_increasing names) (sortDistinct_increasing others)

/-! ## Repeated names -/

theorem firstRepeatedAfter_of_nodup {names : List String} : ∀ {seen : List String},
    names.Nodup → (∀ s ∈ names, s ∉ seen) → firstRepeatedAfter seen names = none := by
  induction names with
  | nil => intro seen _ _; rfl
  | cons s rest ih =>
    intro seen hn hd
    obtain ⟨hs, hrest⟩ := List.nodup_cons.mp hn
    rw [firstRepeatedAfter, if_neg (hd s (by simp))]
    refine ih hrest ?_
    intro t ht hm
    rcases List.mem_cons.mp hm with hm | hm
    · exact hs (hm ▸ ht)
    · exact hd t (List.mem_cons_of_mem _ ht) hm

theorem firstRepeated_eq_none_iff {names : List String} :
    firstRepeated names = none ↔ names.Nodup :=
  ⟨nodup_of_firstRepeated_eq_none, fun h => firstRepeatedAfter_of_nodup h (by simp)⟩

theorem firstRepeatedAfter_eq_some_iff {s : String} {names : List String} :
    ∀ {seen : List String}, seen.Nodup →
      (firstRepeatedAfter seen names = some s ↔
        ∃ before after, names = before ++ s :: after ∧ (before.reverse ++ seen).Nodup ∧
          s ∈ before.reverse ++ seen) := by
  induction names with
  | nil =>
    intro seen _
    refine iff_of_false (by simp [firstRepeatedAfter]) ?_
    rintro ⟨before, after, hsplit, _⟩
    exact absurd hsplit (by simp)
  | cons u rest ih =>
    intro seen hseen
    -- putting `u` with the names seen is putting it before the others
    have hmoved : ∀ before : List String, (u :: before).reverse ++ seen = before.reverse ++ u :: seen := by
      simp
    rw [firstRepeatedAfter]
    by_cases hu : u ∈ seen
    · rw [if_pos hu, Option.some.injEq]
      constructor
      · rintro rfl
        exact ⟨[], rest, rfl, hseen, hu⟩
      · rintro ⟨before, after, hsplit, hnodup, _⟩
        cases before with
        | nil => exact (List.cons.inj hsplit).1
        | cons b before =>
          obtain ⟨rfl, _⟩ := List.cons.inj hsplit
          rw [hmoved] at hnodup
          exact absurd hu (List.nodup_cons.mp (List.nodup_append.mp hnodup).2.1).1
    · rw [if_neg hu, ih (List.nodup_cons.mpr ⟨hu, hseen⟩)]
      constructor
      · rintro ⟨before, after, rfl, hafter⟩
        exact ⟨u :: before, after, rfl, by rwa [hmoved]⟩
      · rintro ⟨before, after, hsplit, hafter⟩
        cases before with
        | nil =>
          obtain ⟨rfl, _⟩ := List.cons.inj hsplit
          exact absurd hafter.2 hu
        | cons b before =>
          obtain ⟨rfl, rfl⟩ := List.cons.inj hsplit
          exact ⟨before, after, rfl, by rwa [hmoved] at hafter⟩

/-- **The repeated name that is found is the first one**: what stands before it has no repetition, and it is
among that. -/
theorem firstRepeated_eq_some_iff {s : String} {names : List String} :
    firstRepeated names = some s ↔
      ∃ before after, names = before ++ s :: after ∧ before.Nodup ∧ s ∈ before := by
  unfold firstRepeated
  rw [firstRepeatedAfter_eq_some_iff List.nodup_nil]
  simp only [List.append_nil, List.nodup_reverse, List.mem_reverse]

end Lockstep.Text

namespace Lockstep

/-! ## Code points and bytes -/

/-- The bytes of a name. -/
def utf8 (s : String) : List UInt8 := s.toUTF8.data.toList

theorem utf8_eq_flatMap (s : String) : utf8 s = s.toList.flatMap String.utf8EncodeChar := by
  show s.toByteArray.data.toList = _
  rw [← String.utf8Encode_toList, List.utf8Encode]
  simp

theorem ofNat_lt_ofNat {a b : Nat} (ha : a < 256) (hb : b < 256) :
    UInt8.ofNat a < UInt8.ofNat b ↔ a < b := by
  rw [UInt8.lt_iff_toNat_lt, UInt8.toNat_ofNat', UInt8.toNat_ofNat', Nat.mod_eq_of_lt ha,
    Nat.mod_eq_of_lt hb]

theorem ofNat_eq_ofNat {a b : Nat} (ha : a < 256) (hb : b < 256) :
    UInt8.ofNat a = UInt8.ofNat b ↔ a = b := by
  rw [← UInt8.toNat_inj, UInt8.toNat_ofNat', UInt8.toNat_ofNat', Nat.mod_eq_of_lt ha,
    Nat.mod_eq_of_lt hb]

/-- Of two numbers the smaller one is smaller in its leading digits, or in its last one. -/
theorem base64_lt {v w : Nat} (h : v < w) :
    v / 64 < w / 64 ∨ v / 64 = w / 64 ∧ v % 64 < w % 64 := by
  omega

/--
**The encoding of a smaller character comes first, whatever follows.**

Encodings of different lengths already differ in their first byte, and the lead bytes grow with the
length. Encodings of one length are the base-64 digits of the code point, most significant first.
-/
theorem utf8EncodeChar_append_lt {c d : Char} (h : c < d) (l m : List UInt8) :
    String.utf8EncodeChar c ++ l < String.utf8EncodeChar d ++ m := by
  have hcd : c.val.toNat < d.val.toNat := h
  have hd : d.val.toNat < 1114112 := by
    have hvalid := d.valid
    simp only [UInt32.isValidChar, Nat.isValidChar] at hvalid
    omega
  unfold String.utf8EncodeChar
  dsimp only
  generalize c.val.toNat = v at *
  generalize d.val.toNat = w at *
  have h₁ := base64_lt hcd
  have h₂ := @base64_lt (v / 64) (w / 64)
  have h₃ := @base64_lt (v / 4096) (w / 4096)
  rw [Nat.div_div_eq_div_mul, Nat.div_div_eq_div_mul] at h₂ h₃
  have hv : v / 262144 < 8 := by omega
  have hw : w / 262144 < 8 := by omega
  rw [Nat.mod_eq_of_lt hv, Nat.mod_eq_of_lt hw]
  -- one goal for each pair of lengths that `v < w` leaves possible
  split_ifs <;>
    simp (disch := omega) only [List.cons_append, List.nil_append, List.cons_lt_cons_iff,
      ofNat_lt_ofNat, ofNat_eq_ofNat] <;>
    omega

theorem flatMap_utf8EncodeChar_lt : ∀ {l m : List Char}, l < m →
    l.flatMap String.utf8EncodeChar < m.flatMap String.utf8EncodeChar := by
  intro l
  induction l with
  | nil =>
    intro m h
    cases m with
    | nil => exact absurd h (lt_irrefl _)
    | cons d m =>
      obtain ⟨b, bs, hb⟩ := List.exists_cons_of_ne_nil (@String.utf8EncodeChar_ne_nil d)
      rw [List.flatMap_nil, List.flatMap_cons, hb]
      exact List.nil_lt_cons _ _
  | cons c l ih =>
    intro m h
    cases m with
    | nil => exact absurd h (List.not_lt_nil _)
    | cons d m =>
      rw [List.flatMap_cons, List.flatMap_cons]
      rcases List.cons_lt_cons_iff.mp h with hcd | ⟨hcd, hlm⟩
      · exact utf8EncodeChar_append_lt hcd _ _
      · rw [hcd]
        exact List.append_left_lt (ih hlm)

/-- **Comparing names is comparing their bytes.** -/
theorem utf8_lt_iff {s t : String} : utf8 s < utf8 t ↔ s < t := by
  have key : ∀ {s t : String}, s < t → utf8 s < utf8 t := by
    intro s t h
    rw [utf8_eq_flatMap, utf8_eq_flatMap]
    exact flatMap_utf8EncodeChar_lt h
  refine ⟨fun h => ?_, key⟩
  rcases lt_trichotomy s t with hlt | heq | hgt
  · exact hlt
  · rw [heq] at h
    exact absurd h (List.lt_irrefl _)
  · exact absurd h (List.lt_asymm (key hgt))

/-! ## The order of action words -/

/-- Shortlex order of action words: the shorter one first, and equally long ones by the bytes of the
first actions in which they differ. -/
def Before : List String → List String → Prop := List.Shortlex fun s t => utf8 s < utf8 t

theorem before_iff {u v : List String} :
    Before u v ↔ u.length < v.length ∨ u.length = v.length ∧ u < v := by
  have hr : (fun s t => utf8 s < utf8 t) = fun s t : String => s < t := by
    funext s t
    exact propext utf8_lt_iff
  unfold Before
  rw [hr, List.shortlex_def]
  exact Iff.rfl

theorem Before.length_le {u v : List String} (h : Before u v) : u.length ≤ v.length := by
  rcases before_iff.mp h with h | ⟨h, _⟩
  · exact Nat.le_of_lt h
  · exact Nat.le_of_eq h

theorem Before.of_length_lt {u v : List String} (h : u.length < v.length) : Before u v :=
  before_iff.mpr (Or.inl h)

theorem not_before_self (u : List String) : ¬ Before u u := by
  intro h
  rcases before_iff.mp h with h | ⟨_, h⟩
  · exact Nat.lt_irrefl _ h
  · exact lt_irrefl _ h

theorem Before.trans {u v w : List String} (huv : Before u v) (hvw : Before v w) : Before u w := by
  rw [before_iff] at *
  rcases huv with huv | ⟨luv, huv⟩ <;> rcases hvw with hvw | ⟨lvw, hvw⟩
  · exact Or.inl (Nat.lt_trans huv hvw)
  · exact Or.inl (lvw ▸ huv)
  · exact Or.inl (luv ▸ hvw)
  · exact Or.inr ⟨luv.trans lvw, lt_trans huv hvw⟩

theorem Before.asymm {u v : List String} (h : Before u v) : ¬ Before v u :=
  fun h' => not_before_self u (h.trans h')

theorem before_trichotomy (u v : List String) : Before u v ∨ u = v ∨ Before v u := by
  rw [before_iff, before_iff]
  rcases Nat.lt_trichotomy u.length v.length with hl | hl | hl
  · exact Or.inl (Or.inl hl)
  · rcases lt_trichotomy u v with h | h | h
    · exact Or.inl (Or.inr ⟨hl, h⟩)
    · exact Or.inr (Or.inl h)
    · exact Or.inr (Or.inr (Or.inr ⟨hl.symm, h⟩))
  · exact Or.inr (Or.inr (Or.inl hl))

theorem snoc_lt_snoc_iff {a b : String} : ∀ {u v : List String}, u.length = v.length →
    (u ++ [a] < v ++ [b] ↔ u < v ∨ u = v ∧ a < b) := by
  intro u
  induction u with
  | nil =>
    intro v hl
    have hv : v = [] := List.length_eq_zero_iff.mp hl.symm
    subst hv
    simp [List.cons_lt_cons_iff]
  | cons x u ih =>
    intro v hl
    cases v with
    | nil => simp at hl
    | cons y v =>
      simp only [List.cons_append, List.cons_lt_cons_iff, List.cons.injEq,
        ih (Nat.succ.inj hl)]
      tauto

/-- **Extending two words compares the words first, then the actions.** -/
theorem before_snoc_iff {u v : List String} {a b : String} :
    Before (u ++ [a]) (v ++ [b]) ↔ Before u v ∨ u = v ∧ a < b := by
  rw [before_iff, before_iff]
  simp only [List.length_append, List.length_singleton, Nat.add_lt_add_iff_right,
    Nat.add_right_cancel_iff]
  constructor
  · rintro (hl | ⟨hl, h⟩)
    · exact Or.inl (Or.inl hl)
    · rcases (snoc_lt_snoc_iff hl).mp h with h | h
      · exact Or.inl (Or.inr ⟨hl, h⟩)
      · exact Or.inr h
  · rintro ((hl | ⟨hl, h⟩) | ⟨rfl, h⟩)
    · exact Or.inl hl
    · exact Or.inr ⟨hl, (snoc_lt_snoc_iff hl).mpr (Or.inl h)⟩
    · exact Or.inr ⟨rfl, (snoc_lt_snoc_iff rfl).mpr (Or.inr ⟨rfl, h⟩)⟩

/-- `u` is `v` or comes before it. -/
def NoLater (u v : List String) : Prop := u = v ∨ Before u v

theorem NoLater.refl (u : List String) : NoLater u u := Or.inl rfl

theorem noLater_iff {u v : List String} : NoLater u v ↔ ¬ Before v u := by
  constructor
  · rintro (rfl | h)
    · exact not_before_self u
    · exact h.asymm
  · intro h
    rcases before_trichotomy u v with h' | h' | h'
    · exact Or.inr h'
    · exact Or.inl h'
    · exact absurd h' h

theorem NoLater.trans_before {u v w : List String} (huv : NoLater u v) (hvw : Before v w) :
    Before u w := by
  rcases huv with rfl | huv
  · exact hvw
  · exact huv.trans hvw

theorem NoLater.trans {u v w : List String} (huv : NoLater u v) (hvw : NoLater v w) :
    NoLater u w := by
  rcases hvw with rfl | hvw
  · exact huv
  · exact Or.inr (huv.trans_before hvw)

theorem NoLater.snoc {u v : List String} (h : NoLater u v) (a : String) :
    NoLater (u ++ [a]) (v ++ [a]) := by
  rcases h with rfl | h
  · exact NoLater.refl _
  · exact Or.inr (before_snoc_iff.mpr (Or.inl h))

theorem NoLater.length_le {u v : List String} (h : NoLater u v) : u.length ≤ v.length := by
  rcases h with rfl | h
  · exact Nat.le_refl _
  · exact h.length_le

end Lockstep
