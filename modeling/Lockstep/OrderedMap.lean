/-!
# Maps that remember the order of their keys

Annotations, snapshots and tallies are looked up by key and shown in the order in which the keys
first appeared. A map is the list of its entries with no key twice; the distinctness travels with the
value, so no operation has to ask for it.

Writing to a key that is present replaces its value and leaves its place, writing to a new key adds
it at the end (`OrderedMap.keys_insert`).
-/

namespace Lockstep

/-- The entries after `k` is bound to `v`: in place if `k` is present, at the end otherwise. -/
def upsert {κ β : Type} [DecidableEq κ] (k : κ) (v : β) : List (κ × β) → List (κ × β)
  | [] => [(k, v)]
  | (k', v') :: rest => if k' = k then (k, v) :: rest else (k', v') :: upsert k v rest

/-- The keys keep their places, and a new one goes to the end. -/
theorem map_fst_upsert {κ β : Type} [DecidableEq κ] (k : κ) (v : β) :
    ∀ es : List (κ × β), (upsert k v es).map Prod.fst =
      if k ∈ es.map Prod.fst then es.map Prod.fst else es.map Prod.fst ++ [k]
  | [] => by simp [upsert]
  | (k', v') :: rest => by
    by_cases h : k' = k
    · simp [upsert, h]
    · have h' : ¬ k = k' := fun e => h e.symm
      by_cases hm : k ∈ rest.map Prod.fst
      · simp only [upsert, h, if_false, List.map_cons, map_fst_upsert k v rest, hm, if_true,
          List.mem_cons, or_true]
      · simp only [upsert, h, if_false, List.map_cons, map_fst_upsert k v rest, hm, List.mem_cons,
          h', or_self, List.cons_append]

theorem nodup_map_fst_upsert {κ β : Type} [DecidableEq κ] (k : κ) (v : β) {es : List (κ × β)}
    (h : (es.map Prod.fst).Nodup) : ((upsert k v es).map Prod.fst).Nodup := by
  rw [map_fst_upsert]
  split
  · exact h
  · rename_i hk
    rw [List.nodup_append]
    refine ⟨h, by simp, ?_⟩
    intro a ha b hb
    simp only [List.mem_cons, List.not_mem_nil, or_false] at hb
    subst hb
    intro he
    exact hk (he ▸ ha)

/-- A finite map from `κ` to `β` with its entries in order of first insertion. -/
structure OrderedMap (κ β : Type) where
  /-- Keys and values, in order. -/
  entries : List (κ × β)
  /-- No key occurs twice. -/
  nodup : (entries.map Prod.fst).Nodup

namespace OrderedMap

variable {κ β : Type}

@[ext]
theorem ext {m n : OrderedMap κ β} (h : m.entries = n.entries) : m = n := by
  cases m; cases n; cases h; rfl

instance [DecidableEq κ] [DecidableEq β] : DecidableEq (OrderedMap κ β) := fun m n =>
  decidable_of_iff (m.entries = n.entries) ⟨ext, fun h => h ▸ rfl⟩

/-- The map without entries. -/
def empty : OrderedMap κ β := ⟨[], by simp⟩

/-- The keys, in order. -/
def keys (m : OrderedMap κ β) : List κ := m.entries.map Prod.fst

/-- The values, in the order of their keys. -/
def values (m : OrderedMap κ β) : List β := m.entries.map Prod.snd

/-- Whether there is nothing in the map. -/
def isEmpty (m : OrderedMap κ β) : Bool := m.entries.isEmpty

section Lookup

variable [DecidableEq κ]

/-- The value at a key, if the key is present. -/
def get? (m : OrderedMap κ β) (k : κ) : Option β :=
  (m.entries.find? (fun e => e.1 = k)).map Prod.snd

/-- Bind `k` to `v`. A key that is present keeps its place, a new one goes to the end. -/
def insert (m : OrderedMap κ β) (k : κ) (v : β) : OrderedMap κ β :=
  ⟨upsert k v m.entries, nodup_map_fst_upsert k v m.nodup⟩

/-- Bind `k` to `v` only if `k` is not bound yet. -/
def insertIfNew (m : OrderedMap κ β) (k : κ) (v : β) : OrderedMap κ β :=
  match m.get? k with
  | some _ => m
  | none => m.insert k v

/-- The map of a list of bindings: a repeated key keeps its first place and takes its last value. -/
def ofList (bindings : List (κ × β)) : OrderedMap κ β :=
  bindings.foldl (fun m e => m.insert e.1 e.2) empty

theorem find?_upsert (k k' : κ) (v : β) : ∀ es : List (κ × β),
    ((upsert k v es).find? (fun e => e.1 = k')).map Prod.snd =
      if k = k' then some v else (es.find? (fun e => e.1 = k')).map Prod.snd := by
  intro es
  induction es with
  | nil =>
    by_cases h : k = k'
    · simp [upsert, h]
    · simp [upsert, h]
  | cons e es ih =>
    rw [upsert]
    by_cases hk : e.1 = k
    · rw [if_pos hk]
      by_cases h : k = k'
      · simp [h]
      · have he : e.1 ≠ k' := fun he => h (hk.symm.trans he)
        simp [h, he]
    · rw [if_neg hk]
      by_cases he : e.1 = k'
      · have h : k ≠ k' := fun h => hk (he.trans h.symm)
        simp [h, he]
      · simpa [he] using ih

/-- A key that was written holds what was written, and the others what they held before. -/
theorem get?_insert (m : OrderedMap κ β) (k k' : κ) (v : β) :
    (m.insert k v).get? k' = if k = k' then some v else m.get? k' :=
  find?_upsert k k' v m.entries

@[simp]
theorem get?_empty (k : κ) : (empty : OrderedMap κ β).get? k = none := rfl

/-- A list of bindings is entered from the front, the last one last. -/
theorem ofList_concat (bindings : List (κ × β)) (k : κ) (v : β) :
    ofList (bindings ++ [(k, v)]) = (ofList bindings).insert k v := by
  unfold ofList
  rw [List.foldl_append]
  rfl

theorem keys_insert (m : OrderedMap κ β) (k : κ) (v : β) :
    (m.insert k v).keys = if k ∈ m.keys then m.keys else m.keys ++ [k] :=
  map_fst_upsert k v m.entries

end Lookup

end OrderedMap

end Lockstep
