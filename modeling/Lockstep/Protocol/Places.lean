import Lockstep.Error
import Lockstep.Protocol.Definition
import Lockstep.Text.Sorted

/-!
# Where states are declared

The place of a state is looked up by its name, and for that names are entered into a map, each with its
place, in the order in which the states are declared. A name that is in the map already ends the matter: a
state is declared twice. So the map exists only if names are distinct, and what it says then is the place in
the list of names (`Definition.places_cases`).
-/

namespace Lockstep

/-- The place of every declared state, by its name. -/
abbrev Places := OrderedMap String Nat

namespace Definition

/-- Enter the states `place, place + 1, …`. -/
def placesFrom (d : Definition) : Nat → List State → Places → Except Error Places
  | _, [], places => .ok places
  | place, s :: rest, places =>
    match places.get? s.name with
    | some _ => .error (.duplicateState d.name s.name)
    | none => d.placesFrom (place + 1) rest (places.insert s.name place)

/-- The places of all states, unless one is declared twice. -/
def places (d : Definition) : Except Error Places := d.placesFrom 0 d.states .empty

/-- The map says of every name what the list of names says. -/
def Indexes (d : Definition) (places : Places) : Prop := ∀ name, places.get? name = d.stateId? name

/-- **What entering states can come to**: the first name that is there already, or a map in which each has the
place of its first mention. -/
theorem placesFrom_cases (d : Definition) : ∀ (states : List State) (place : Nat) (places : Places)
    (seen : List String), (∀ name, name ∈ seen ↔ (places.get? name).isSome) →
    (∃ name, Text.firstRepeatedAfter seen (states.map State.name) = some name ∧
      d.placesFrom place states places = .error (.duplicateState d.name name)) ∨
    Text.firstRepeatedAfter seen (states.map State.name) = none ∧
      ∃ result, d.placesFrom place states places = .ok result ∧ ∀ name, result.get? name =
        (places.get? name).or (((states.map State.name).idxOf? name).map (place + ·)) := by
  intro states
  induction states with
  | nil =>
    intro place places seen _
    refine Or.inr ⟨rfl, places, rfl, ?_⟩
    intro name
    simp
  | cons s states ih =>
    intro place places seen hseen
    rw [List.map_cons, Text.firstRepeatedAfter, placesFrom]
    cases hfound : places.get? s.name with
    | some other =>
      have hmem : s.name ∈ seen := (hseen s.name).mpr (by rw [hfound]; rfl)
      rw [if_pos hmem]
      exact Or.inl ⟨s.name, rfl, rfl⟩
    | none =>
      have hnew : s.name ∉ seen := fun hmem => by
        have hsome := (hseen s.name).mp hmem
        rw [hfound] at hsome
        exact absurd hsome (by simp)
      have hseen' : ∀ name, name ∈ s.name :: seen ↔
          ((places.insert s.name place).get? name).isSome := by
        intro name
        rw [OrderedMap.get?_insert, List.mem_cons, hseen name]
        by_cases hname : s.name = name
        · simp [hname]
        · simp [hname, Ne.symm hname]
      rw [if_neg hnew]
      rcases ih (place + 1) (places.insert s.name place) (s.name :: seen) hseen' with
        hrepeated | ⟨hnone, result, hresult, hget⟩
      · exact Or.inl hrepeated
      · refine Or.inr ⟨hnone, result, hresult, ?_⟩
        intro name
        rw [hget, OrderedMap.get?_insert, List.idxOf?_cons]
        by_cases hname : s.name = name
        · rw [if_pos hname, ← hname, hfound]
          simp
        · have hbeq : (s.name == name) = false := by simpa using hname
          rw [if_neg hname, hbeq, if_neg (by simp), Option.map_map]
          congr 2
          funext i
          simp only [Function.comp_apply]
          omega

/-- **The states have a map exactly if their names are distinct**, and it says where they are declared. -/
theorem places_cases (d : Definition) :
    (∃ name, Text.firstRepeated d.stateNames = some name ∧
      d.places = .error (.duplicateState d.name name)) ∨
    Text.firstRepeated d.stateNames = none ∧ ∃ result, d.places = .ok result ∧ d.Indexes result := by
  have hempty : ∀ name, name ∈ ([] : List String) ↔
      ((OrderedMap.empty : Places).get? name).isSome := by
    intro name
    simp
  rcases d.placesFrom_cases d.states 0 .empty [] hempty with hrepeated | ⟨hnone, result, hresult, hget⟩
  · exact Or.inl hrepeated
  · refine Or.inr ⟨hnone, result, hresult, ?_⟩
    intro name
    rw [hget, OrderedMap.get?_empty, Option.none_or, stateId?, stateNames]
    cases (d.states.map State.name).idxOf? name with
    | none => rfl
    | some i => simp

theorem indexes_of_places {d : Definition} {places : Places} (h : d.places = .ok places) :
    d.Indexes places := by
  rcases d.places_cases with ⟨name, _, herror⟩ | ⟨_, result, hresult, hindexes⟩
  · exact absurd (herror.symm.trans h) (by simp)
  · rw [← Except.ok.inj (hresult.symm.trans h)]
    exact hindexes

theorem nodup_of_places {d : Definition} {places : Places} (h : d.places = .ok places) :
    d.stateNames.Nodup := by
  rcases d.places_cases with ⟨name, _, herror⟩ | ⟨hnone, _⟩
  · exact absurd (herror.symm.trans h) (by simp)
  · exact Text.nodup_of_firstRepeated_eq_none hnone

/-- A place that the map gives is that of a state. -/
theorem lt_of_places {d : Definition} {places : Places} {name : String} {i : Nat}
    (h : d.places = .ok places) (hi : places.get? name = some i) : i < d.states.length := by
  rw [indexes_of_places h] at hi
  exact stateId?_lt hi

end Definition

end Lockstep
