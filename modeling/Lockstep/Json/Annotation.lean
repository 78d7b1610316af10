import Lockstep.Json.Basic

/-!
# Annotations

The values attached to states are kept in one canonical form, so that equal annotations are equal
values: the members of an object are in increasing order of their names and no name repeats, integers
fit in 64 bits, and doubles are numbers. The form is part of the type. Objects are built by
`insertMember`, which keeps it (`areCanonicalMembers_insertMember`, `namesIncrease_insertMember`).
-/

namespace Lockstep

namespace Json

/-- Whether every name comes before the next. -/
def namesIncrease : List (String × Json) → Bool
  | [] => true
  | [_] => true
  | (k, _) :: (k', v') :: rest => decide (k < k') && namesIncrease ((k', v') :: rest)

mutual

/-- Whether a value is in canonical form. -/
def isCanonical : Json → Bool
  | .null | .bool _ | .str _ => true
  | .int i => decide (-(Nat.pow 2 63 : Int) ≤ i ∧ i < Nat.pow 2 64)
  | .float x => x.isFinite
  | .arr items => areCanonical items
  | .obj members => namesIncrease members && areCanonicalMembers members

/-- Whether every element is in canonical form. -/
def areCanonical : List Json → Bool
  | [] => true
  | v :: rest => v.isCanonical && areCanonical rest

/-- Whether every member's value is in canonical form. -/
def areCanonicalMembers : List (String × Json) → Bool
  | [] => true
  | (_, v) :: rest => v.isCanonical && areCanonicalMembers rest

end

theorem isCanonical_null : isCanonical .null = true := by simp [isCanonical]

theorem isCanonical_bool (b : Bool) : isCanonical (.bool b) = true := by simp [isCanonical]

theorem isCanonical_int {i : Int} (h : -(Nat.pow 2 63 : Int) ≤ i ∧ i < Nat.pow 2 64) :
    isCanonical (.int i) = true := by
  simpa [isCanonical] using h

theorem isCanonical_float {x : Binary64} (h : x.isFinite = true) : isCanonical (.float x) = true := by
  simpa [isCanonical] using h

theorem isCanonical_str (s : String) : isCanonical (.str s) = true := by simp [isCanonical]

theorem isCanonical_arr {items : List Json} (h : areCanonical items = true) :
    isCanonical (.arr items) = true := by
  simpa [isCanonical] using h

theorem isCanonical_obj {members : List (String × Json)}
    (h : namesIncrease members = true ∧ areCanonicalMembers members = true) :
    isCanonical (.obj members) = true := by
  simpa [isCanonical] using h

theorem areCanonical_nil : areCanonical [] = true := by simp [areCanonical]

theorem areCanonical_cons {v : Json} {items : List Json} (hv : v.isCanonical = true)
    (h : areCanonical items = true) : areCanonical (v :: items) = true := by
  simp [areCanonical, hv, h]

theorem canonicalMembers_nil : namesIncrease [] = true ∧ areCanonicalMembers [] = true := by
  simp [namesIncrease, areCanonicalMembers]

/-- Bind a name among members in increasing order: a new name goes to its place, and the value of a
name that is present is replaced. -/
def insertMember (k : String) (v : Json) : List (String × Json) → List (String × Json)
  | [] => [(k, v)]
  | (k', v') :: rest =>
    if k < k' then (k, v) :: (k', v') :: rest
    else if k' = k then (k, v) :: rest
    else (k', v') :: insertMember k v rest

theorem areCanonicalMembers_insertMember {k : String} {v : Json} (hv : v.isCanonical = true) :
    ∀ {members : List (String × Json)}, areCanonicalMembers members = true →
      areCanonicalMembers (insertMember k v members) = true
  | [], _ => by simp [insertMember, areCanonicalMembers, hv]
  | (k', v') :: rest, h => by
    have h' := h
    simp only [areCanonicalMembers, Bool.and_eq_true] at h'
    unfold insertMember
    split
    · simp [areCanonicalMembers, hv, h'.1, h'.2]
    · split
      · simp [areCanonicalMembers, hv, h'.2]
      · simp [areCanonicalMembers, h'.1, areCanonicalMembers_insertMember hv h'.2]

/-- A name below every name of the list may be put in front. -/
theorem namesIncrease_cons {k : String} {v : Json} : ∀ {members : List (String × Json)},
    namesIncrease members = true → (∀ m, members.head? = some m → k < m.1) →
      namesIncrease ((k, v) :: members) = true
  | [], _, _ => rfl
  | m :: rest, h, hk => by
    simp only [namesIncrease, Bool.and_eq_true, decide_eq_true_eq]
    exact ⟨hk m rfl, h⟩

theorem namesIncrease_tail {m : String × Json} {members : List (String × Json)}
    (h : namesIncrease (m :: members) = true) : namesIncrease members = true := by
  cases members with
  | nil => rfl
  | cons m' rest =>
    simp only [namesIncrease, Bool.and_eq_true] at h
    exact h.2

theorem namesIncrease_head {m m' : String × Json} {members : List (String × Json)}
    (h : namesIncrease (m :: members) = true) (hm : members.head? = some m') : m.1 < m'.1 := by
  cases members with
  | nil => simp at hm
  | cons x rest =>
    simp only [List.head?_cons, Option.some.injEq] at hm
    subst hm
    simp only [namesIncrease, Bool.and_eq_true, decide_eq_true_eq] at h
    exact h.1

/-- The first name after an insertion is the new name or the first name before. -/
theorem head?_insertMember {k : String} {v : Json} {m : String × Json} :
    ∀ {members : List (String × Json)}, (insertMember k v members).head? = some m →
      m.1 = k ∨ members.head? = some m
  | [], h => by
    simp only [insertMember, List.head?_cons, Option.some.injEq] at h
    exact .inl (h ▸ rfl)
  | (k', v') :: rest, h => by
    unfold insertMember at h
    split at h
    · simp only [List.head?_cons, Option.some.injEq] at h
      exact .inl (h ▸ rfl)
    · split at h
      · simp only [List.head?_cons, Option.some.injEq] at h
        exact .inl (h ▸ rfl)
      · exact .inr h

theorem namesIncrease_insertMember {k : String} {v : Json} : ∀ {members : List (String × Json)},
    namesIncrease members = true → namesIncrease (insertMember k v members) = true
  | [], _ => rfl
  | (k', v') :: rest, h => by
    unfold insertMember
    split
    · rename_i hlt
      exact namesIncrease_cons h (fun m hm => by
        simp only [List.head?_cons, Option.some.injEq] at hm
        exact hm ▸ hlt)
    · split
      · rename_i _ he
        subst he
        exact namesIncrease_cons (namesIncrease_tail h) (fun m hm => namesIncrease_head h hm)
      · rename_i hlt hne
        refine namesIncrease_cons (namesIncrease_insertMember (namesIncrease_tail h)) ?_
        intro m hm
        rcases head?_insertMember hm with rfl | hm
        · exact Std.lt_of_le_of_ne (Std.not_lt.mp hlt) hne
        · exact namesIncrease_head h hm

end Json

/-- A value in canonical form. -/
structure Annotation where
  value : Json
  canonical : value.isCanonical = true

namespace Annotation

@[ext]
theorem ext {a b : Annotation} (h : a.value = b.value) : a = b := by
  cases a; cases b; cases h; rfl

/-- A text. -/
def text (s : String) : Annotation := ⟨.str s, Json.isCanonical_str s⟩

/-- A small natural. -/
def nat (n : Nat) (h : n < Nat.pow 2 64 := by decide) : Annotation :=
  ⟨.int n, by simp only [Json.isCanonical, decide_eq_true_eq]; omega⟩

end Annotation

end Lockstep
