import Lockstep.Proofs.Search
import Mathlib.Data.Set.Card

/-!
# What an exploration tells

An exploration shows the records of a search: the joint states by position and by name, and whether
something was left out. Two theorems say what can be read off it.

`explore_exact`: the joint states are distinct and reachable, there are as many of them as the bound
allows or as there are, and the flag is set exactly if there are more. The case in which the bound is
just the number of reachable joint states is in there: the search is full then, goes on, and finds
nothing new.

`explore_shortlex`: the paths can be replayed, each leads to its joint state, no other word to it comes
before, and the paths strictly increase along the list.
-/

namespace Lockstep

/-! ## Snapshots -/

theorem upsert_of_notMem {κ β : Type} [DecidableEq κ] {k : κ} {v : β} {es : List (κ × β)}
    (h : k ∉ es.map Prod.fst) : upsert k v es = es ++ [(k, v)] := by
  induction es with
  | nil => rfl
  | cons e rest ih =>
    obtain ⟨k', v'⟩ := e
    have hne : k' ≠ k := fun heq => h (by simp [heq])
    have hrest : k ∉ rest.map Prod.fst := fun hm => h (List.mem_cons_of_mem _ hm)
    rw [upsert, if_neg hne, ih hrest, List.cons_append]

namespace OrderedMap

theorem entries_foldl_insert {κ β : Type} [DecidableEq κ] {bindings : List (κ × β)} :
    ∀ {m : OrderedMap κ β}, ((m.entries ++ bindings).map Prod.fst).Nodup →
      (bindings.foldl (fun m e => m.insert e.1 e.2) m).entries = m.entries ++ bindings := by
  induction bindings with
  | nil => intro m _; simp
  | cons e rest ih =>
    intro m h
    have hnew : e.1 ∉ m.entries.map Prod.fst := by
      rw [List.map_append, List.map_cons, List.nodup_append] at h
      exact fun hm => h.2.2 _ hm _ (by simp) rfl
    have hins : (m.insert e.1 e.2).entries = m.entries ++ [e] := upsert_of_notMem hnew
    rw [List.foldl_cons, ih (by rw [hins]; simpa using h), hins]
    simp

/-- A map made from bindings with distinct keys holds just these. -/
theorem entries_ofList {κ β : Type} [DecidableEq κ] {bindings : List (κ × β)}
    (h : (bindings.map Prod.fst).Nodup) : (ofList bindings).entries = bindings := by
  unfold ofList
  rw [entries_foldl_insert (by simpa [empty] using h)]
  rfl

end OrderedMap

namespace Composition

theorem Fits.map_fst_zipWith {c : Composition} {joint : JointState} (h : c.Fits joint) :
    (c.protocols.zipWith (fun p id => (p.name, p.stateName id)) joint).map Prod.fst = c.names := by
  unfold Fits at h
  unfold names
  generalize c.protocols = protocols at h ⊢
  induction h with
  | nil => rfl
  | cons _ _ ih => simp only [List.zipWith_cons_cons, List.map_cons, ih]

theorem Fits.entries_snapshot {c : Composition} {joint : JointState} (h : c.Fits joint)
    (actions : List String) :
    (c.snapshot joint actions).states.entries =
      c.protocols.zipWith (fun p id => (p.name, p.stateName id)) joint := by
  rw [snapshot_eq]
  refine OrderedMap.entries_ofList ?_
  rw [h.map_fst_zipWith]
  exact c.distinct

/-- **A snapshot names every protocol's state**, in protocol order. -/
theorem Fits.snapshot_entries {c : Composition} {joint : JointState} (h : c.Fits joint)
    (actions : List String) :
    (c.snapshot joint actions).states.entries.map some =
      c.protocols.zipWith (fun p id => (p.stateName? id).map (p.name, ·)) joint := by
  rw [h.entries_snapshot, List.map_zipWith]
  refine List.zipWith_congr _ _ _ _ (List.Forall₂.imp ?_ h)
  intro p id hid
  obtain ⟨name, hname⟩ := Protocol.exists_stateName hid
  simp [Protocol.stateName_eq, hname]

/-! ## The records of an exploration -/

/-- What an exploration shows, as it was recorded. -/
def records (c : Composition) (n : Nat) : List Found :=
  if n = 0 then [] else (c.searched n).found.toList

variable {c : Composition} {n : Nat}

theorem explore_joints (c : Composition) (n : Nat) :
    (c.explore n).joints = (c.records n).map Found.joint := by
  rw [explore_eq, records]
  split <;> rfl

theorem explore_states (c : Composition) (n : Nat) :
    (c.explore n).states = (c.records n).map fun f => c.snapshot f.joint f.path := by
  rw [explore_eq, records]
  split <;> rfl

theorem records_of_pos (hn : 0 < n) : c.records n = (c.searched n).found.toList := by
  rw [records, if_neg (Nat.ne_of_gt hn)]

theorem truncated_of_pos (hn : 0 < n) : (c.explore n).truncated = (c.searched n).truncated := by
  rw [explore_eq, if_neg (Nat.ne_of_gt hn)]

theorem recorded_records (hn : 0 < n) : ∃ k done, Recorded c (c.records n) k done := by
  rw [records_of_pos hn]
  rcases searched_ends (c := c) hn with hcut | ⟨_, k, h, _⟩
  · obtain ⟨k, done, h⟩ := hcut.kept
    exact ⟨k, done, h.records⟩
  · exact ⟨k, [], h.records⟩

theorem pos_of_mem_records {f : Found} (hf : f ∈ c.records n) : 0 < n := by
  refine Nat.pos_of_ne_zero ?_
  rintro rfl
  exact absurd hf (by simp [records])

theorem records_mem_reachable {f : Found} (hf : f ∈ c.records n) : f.joint ∈ c.reachable := by
  obtain ⟨k, done, h⟩ := recorded_records (c := c) (pos_of_mem_records hf)
  exact h.mem_reachable hf

/-- A recorded path leads to its joint state. -/
theorem replay_path_of_mem {f : Found} (hf : f ∈ c.records n) :
    c.replay c.initialJoint f.path = some f.joint := by
  obtain ⟨k, done, h⟩ := recorded_records (c := c) (pos_of_mem_records hf)
  exact h.replay_path hf

theorem path_noLater_of_mem {f : Found} (hf : f ∈ c.records n) {word : List String}
    (hword : c.replay c.initialJoint word = some f.joint) : NoLater f.path word := by
  obtain ⟨k, done, h⟩ := recorded_records (c := c) (pos_of_mem_records hf)
  exact h.path_noLater hf hword

theorem records_nodup (c : Composition) (n : Nat) : ((c.records n).map Found.joint).Nodup := by
  rcases Nat.eq_zero_or_pos n with rfl | hn
  · simp [records]
  · obtain ⟨k, done, h⟩ := recorded_records (c := c) hn
    exact h.distinct

theorem ncard_setOf_mem {α : Type} {l : List α} (h : l.Nodup) : {x | x ∈ l}.ncard = l.length := by
  classical
  rw [← List.toFinset_card_of_nodup h, ← Set.ncard_coe_finset]
  simp

/-- There are at least as many reachable joint states as a list without repetition holds. -/
theorem length_le_ncard_reachable {l : List JointState} (hnodup : l.Nodup)
    (hl : ∀ joint ∈ l, joint ∈ c.reachable) : l.length ≤ c.reachable.ncard := by
  rw [← ncard_setOf_mem hnodup]
  exact Set.ncard_le_ncard hl c.reachable_finite

/-- **An exploration is complete, or full and short of something.** -/
theorem explore_ends (c : Composition) (n : Nat) :
    (c.explore n).truncated = true ∧ (c.records n).length = n ∧ n < c.reachable.ncard ∨
      (c.explore n).truncated = false ∧ (c.records n).length ≤ n ∧
        ∀ joint, joint ∈ (c.records n).map Found.joint ↔ joint ∈ c.reachable := by
  rcases Nat.eq_zero_or_pos n with rfl | hn
  · refine Or.inl ⟨by simp [explore_eq], by simp [records], ?_⟩
    exact (Set.ncard_pos c.reachable_finite).mpr ⟨_, c.initialJoint_mem_reachable⟩
  · rw [truncated_of_pos hn, records_of_pos hn]
    rcases searched_ends (c := c) hn with hcut | ⟨hopen, k, h, hend⟩
    · refine Or.inl ⟨hcut.truncated, by simpa using hcut.full, ?_⟩
      -- the records and the joint state that was missed are `n + 1` reachable ones
      obtain ⟨k, done, h⟩ := hcut.kept
      obtain ⟨missed, hreach, hnew⟩ := hcut.missed
      have hnodup : (missed :: (c.searched n).found.toList.map Found.joint).Nodup :=
        List.nodup_cons.mpr ⟨hnew, h.records.distinct⟩
      have hcard := length_le_ncard_reachable hnodup (by
        intro x hx
        rcases List.mem_cons.mp hx with rfl | hx
        · exact hreach
        · obtain ⟨f, hf, rfl⟩ := List.mem_map.mp hx
          exact h.records.mem_reachable hf)
      rw [List.length_cons, List.length_map, Array.length_toList, hcut.full] at hcard
      exact hcard
    · refine Or.inr ⟨hopen, by simpa using h.size_le, ?_⟩
      intro joint
      constructor
      · intro hj
        obtain ⟨f, hf, rfl⟩ := List.mem_map.mp hj
        exact h.records.mem_reachable hf
      · exact h.records.mem_of_expanded (by simpa using hend)

/-- In a complete exploration there are as many records as reachable joint states. -/
theorem ncard_reachable_of_complete
    (h : ∀ joint, joint ∈ (c.records n).map Found.joint ↔ joint ∈ c.reachable) :
    c.reachable.ncard = (c.records n).length := by
  have hset : {x | x ∈ (c.records n).map Found.joint} = c.reachable := Set.ext h
  rw [← hset, ncard_setOf_mem (c.records_nodup n), List.length_map]

/-- The flag says whether there is more to reach than the bound. -/
theorem explore_truncated (c : Composition) (n : Nat) :
    (c.explore n).truncated = Decidable.decide (n < c.reachable.ncard) := by
  rcases explore_ends c n with ⟨htrunc, _, hlt⟩ | ⟨hopen, hlen, hall⟩
  · rw [htrunc, decide_eq_true hlt]
  · have hcard := ncard_reachable_of_complete hall
    rw [hopen, decide_eq_false (by omega)]

/--
**A bounded exploration is exact.**

Its joint states are distinct and reachable, there are `min n |R|` of them where `R` is what words of
any actions reach, and the flag says whether `R` has more. Without the flag they are just `R`.
-/
theorem explore_exact (c : Composition) (n : Nat) :
    c.reachable.Finite ∧
      (c.explore n).joints.Nodup ∧
      (∀ joint ∈ (c.explore n).joints, joint ∈ c.reachable) ∧
      (c.explore n).joints.length = min n c.reachable.ncard ∧
      ((c.explore n).truncated = true ↔ n < c.reachable.ncard) ∧
      ((c.explore n).truncated = false →
        ∀ joint, joint ∈ (c.explore n).joints ↔ joint ∈ c.reachable) := by
  have hlength : (c.explore n).joints.length = (c.records n).length := by
    rw [explore_joints, List.length_map]
  refine ⟨c.reachable_finite, ?_, ?_, ?_⟩
  · rw [explore_joints]
    exact c.records_nodup n
  · intro joint hj
    rw [explore_joints] at hj
    obtain ⟨f, hf, rfl⟩ := List.mem_map.mp hj
    exact records_mem_reachable hf
  · rw [hlength]
    rcases explore_ends c n with ⟨htrunc, hlen, hcard⟩ | ⟨hopen, hlen, hall⟩
    · refine ⟨by omega, by simp [htrunc, hcard], ?_⟩
      rw [htrunc]
      exact fun habs => absurd habs (by simp)
    · have hcard := ncard_reachable_of_complete hall
      refine ⟨by omega, ?_, ?_⟩
      · rw [hopen, hcard]
        simpa using hlen
      · intro _ joint
        rw [explore_joints]
        exact hall joint

/-! ## Paths -/

theorem exists_record {i : Nat} {s : Snapshot} (h : (c.explore n).states[i]? = some s) :
    ∃ f, (c.records n)[i]? = some f ∧ s = c.snapshot f.joint f.path := by
  rw [explore_states, List.getElem?_map] at h
  obtain ⟨f, hf, hs⟩ := Option.map_eq_some_iff.mp h
  exact ⟨f, hf, hs.symm⟩

/--
**Every state is found by the least word that leads to it.**

Replaying the path of an entry passes at every step and ends in the entry's joint state, whose
protocols' states the snapshot names; any other word that leads there comes later in shortlex order,
and so does the path of every later entry.
-/
theorem explore_shortlex (c : Composition) (n : Nat) :
    (c.explore n).states.length = (c.explore n).joints.length ∧
      (∀ (i : Nat) (s : Snapshot), (c.explore n).states[i]? = some s →
        ∃ joint, (c.explore n).joints[i]? = some joint ∧
          c.replay c.initialJoint s.actions = some joint ∧
          joint.length = c.protocols.length ∧
          s.states.entries.map some =
            c.protocols.zipWith (fun p id => (p.stateName? id).map (p.name, ·)) joint ∧
          ∀ word, c.replay c.initialJoint word = some joint → NoLater s.actions word) ∧
      ((c.explore n).states.map Snapshot.actions).Pairwise Before := by
  refine ⟨?_, ?_, ?_⟩
  · rw [explore_states, explore_joints, List.length_map, List.length_map]
  · intro i s hs
    obtain ⟨f, hf, rfl⟩ := exists_record hs
    have hmem := List.mem_of_getElem? hf
    obtain ⟨k, done, h⟩ := recorded_records (c := c) (pos_of_mem_records hmem)
    refine ⟨f.joint, ?_, h.replay_path hmem, (h.fits hmem).length_eq,
      (h.fits hmem).snapshot_entries f.path, fun word hword => h.path_noLater hmem hword⟩
    rw [explore_joints, List.getElem?_map, hf]
    rfl
  · rw [explore_states, List.map_map]
    rcases Nat.eq_zero_or_pos n with rfl | hn
    · simp [records]
    · obtain ⟨k, done, h⟩ := recorded_records (c := c) hn
      exact h.increasing

end Composition

end Lockstep
