/-!
# Sorted names without repetition

Action labels are always presented in one canonical form: increasing by code point, each once. Code
point order is also the order of the names' encoded bytes, so the form does not depend on how a name
is stored.
-/

namespace Lockstep.Text

/-- Put a name in its place among increasing names, unless it is already there. -/
def insertSorted (s : String) : List String → List String
  | [] => [s]
  | t :: rest =>
    if s < t then s :: t :: rest
    else if t = s then t :: rest
    else t :: insertSorted s rest

/-- The distinct names of a list in increasing order. -/
def sortDistinct (names : List String) : List String :=
  names.foldr insertSorted []

/-- The first name of a list that already occurred before it, given the names seen so far. -/
def firstRepeatedAfter (seen : List String) : List String → Option String
  | [] => none
  | s :: rest => if s ∈ seen then some s else firstRepeatedAfter (s :: seen) rest

/-- The first name of a list that already occurred before it. -/
def firstRepeated (names : List String) : Option String :=
  firstRepeatedAfter [] names

theorem firstRepeatedAfter_eq_none {seen : List String} : ∀ {names : List String},
    firstRepeatedAfter seen names = none → names.Nodup ∧ ∀ s ∈ names, s ∉ seen
  | [], _ => ⟨List.nodup_nil, by simp⟩
  | s :: rest, h => by
    unfold firstRepeatedAfter at h
    split at h
    · exact absurd h (by simp)
    · rename_i hs
      obtain ⟨hn, hd⟩ := firstRepeatedAfter_eq_none h
      refine ⟨List.nodup_cons.mpr ⟨fun hm => hd s hm (by simp), hn⟩, ?_⟩
      intro t ht
      rcases List.mem_cons.mp ht with rfl | ht
      · exact hs
      · exact fun hm => hd t ht (List.mem_cons_of_mem _ hm)

/-- No repeated name is found only where there is none. -/
theorem nodup_of_firstRepeated_eq_none {names : List String} (h : firstRepeated names = none) :
    names.Nodup :=
  (firstRepeatedAfter_eq_none h).1

end Lockstep.Text
