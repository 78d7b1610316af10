import Lockstep.Proofs.Records

/-!
# The search keeps its records

Each part of the search is one step of `Recorded`: following an action adds an edge and perhaps a
record, having followed the whole alphabet turns the record under expansion into an expanded one. The
set of joint states seen never says anything but what the list of records says.

A search ends in one of two ways. Either every record has been expanded, and then the records are all
there is to reach; or it was cut short, and then it holds as many records as the bound allows and some
reachable joint state is not among them. The bound is also the number of rounds, which is enough:
every round expands a record, and there are never more of them than the bound.
-/

namespace Lockstep

/-! ## Following one edge -/

theorem Followed.mono {k p : Nat} {done : List String} {a b : String} (h : Followed k done p b) :
    Followed k (done ++ [a]) p b := by
  rcases h with hlt | ⟨heq, hb⟩
  · exact Or.inl hlt
  · exact Or.inr ⟨heq, List.mem_append_left _ hb⟩

theorem followed_snoc {k p : Nat} {done : List String} {a b : String}
    (h : Followed k (done ++ [a]) p b) : Followed k done p b ∨ p = k ∧ b = a := by
  rcases h with hlt | ⟨heq, hb⟩
  · exact Or.inl (Or.inl hlt)
  · rcases List.mem_append.mp hb with hb | hb
    · exact Or.inl (Or.inr ⟨heq, hb⟩)
    · exact Or.inr ⟨heq, List.mem_singleton.mp hb⟩

namespace Recorded

variable {c : Composition} {found : List Found} {k : Nat} {done : List String} {here : Found}
  {a : String}

/-- The edge about to be followed comes after every recorded path. -/
theorem before_pending (h : Recorded c found k done) (hk : found[k]? = some here)
    (ha : done ++ [a] <+: c.alphabet) {f : Found} (hf : f ∈ found) :
    Before f.path (here.path ++ [a]) := by
  by_cases hnil : f.path = []
  · rw [hnil]
    exact Before.of_length_lt (by simp)
  · obtain ⟨p, g, b, hg, hfollowed, _, hpath⟩ := h.exists_parent hf hnil
    rw [hpath, before_snoc_iff]
    rcases hfollowed with hlt | ⟨rfl, hb⟩
    · exact Or.inl (h.before_of_lt hg hk hlt)
    · have hgh : g = here := Option.some.inj (hg.symm.trans hk)
      have hsorted := c.alphabet_increasing.sublist ha.sublist
      exact Or.inr ⟨by rw [hgh], (List.pairwise_append.mp hsorted).2.2 b hb a (by simp)⟩

/-- Following an edge that leads nowhere, or to a joint state that is recorded already. -/
theorem follow_known (h : Recorded c found k done) (hk : found[k]? = some here)
    (ha : done ++ [a] <+: c.alphabet)
    (hknown : ∀ next, c.successor? here.joint a = some next → next ∈ found.map Found.joint) :
    Recorded c found k (done ++ [a]) where
  root := h.root
  distinct := h.distinct
  increasing := h.increasing
  initial := ha
  parent := by
    intro i f hf
    rcases h.parent hf with hzero | ⟨p, g, b, hg, hfollowed, hstep, hpath⟩
    · exact Or.inl hzero
    · exact Or.inr ⟨p, g, b, hg, hfollowed.mono, hstep, hpath⟩
  covered := by
    intro p g b next hg hfollowed hstep
    rcases followed_snoc hfollowed with hold | ⟨rfl, rfl⟩
    · exact h.covered hg hold hstep
    · have hgh : g = here := Option.some.inj (hg.symm.trans hk)
      subst hgh
      obtain ⟨f, hf, hjoint⟩ := List.mem_map.mp (hknown next hstep)
      exact ⟨f, hf, hjoint, Or.inr (h.before_pending hk ha hf)⟩

/-- Following an edge to a new joint state records it. -/
theorem follow_new (h : Recorded c found k done) (hk : found[k]? = some here)
    (ha : done ++ [a] <+: c.alphabet) {next : JointState}
    (hstep : c.successor? here.joint a = some next) (hnew : next ∉ found.map Found.joint) :
    Recorded c (found ++ [⟨next, here.path ++ [a]⟩]) k (done ++ [a]) where
  root := by
    obtain ⟨hlt, _⟩ := List.getElem?_eq_some_iff.mp h.root
    rw [List.getElem?_append_left hlt]
    exact h.root
  distinct := by
    rw [List.map_append, List.nodup_append]
    refine ⟨h.distinct, by simp, ?_⟩
    intro x hx y hy hxy
    have hynext : y = next := by simpa using hy
    exact hnew (hynext ▸ hxy ▸ hx)
  increasing := by
    rw [List.map_append, List.pairwise_append]
    refine ⟨h.increasing, by simp, ?_⟩
    intro u hu v hv
    obtain ⟨f, hf, rfl⟩ := List.mem_map.mp hu
    have hv' : v = here.path ++ [a] := by simpa using hv
    exact hv' ▸ h.before_pending hk ha hf
  initial := ha
  parent := by
    intro i f hf
    rcases Nat.lt_or_ge i found.length with hi | hi
    · rw [List.getElem?_append_left hi] at hf
      rcases h.parent hf with hzero | ⟨p, g, b, hg, hfollowed, hedge, hpath⟩
      · exact Or.inl hzero
      · have hp := (List.getElem?_eq_some_iff.mp hg).1
        exact Or.inr ⟨p, g, b, by rw [List.getElem?_append_left hp]; exact hg,
          hfollowed.mono, hedge, hpath⟩
    · -- the new record, whose parent is the one under expansion
      rw [List.getElem?_append_right hi] at hf
      have hlast : f = ⟨next, here.path ++ [a]⟩ := by
        have hmem := List.mem_of_getElem? hf
        simpa using hmem
      have hkl := (List.getElem?_eq_some_iff.mp hk).1
      subst hlast
      exact Or.inr ⟨k, here, a, by rw [List.getElem?_append_left hkl]; exact hk,
        Or.inr ⟨rfl, by simp⟩, hstep, rfl⟩
  covered := by
    intro p g b next' hg hfollowed hedge
    have hkl := (List.getElem?_eq_some_iff.mp hk).1
    -- only records up to the one under expansion have been followed from
    have hp : p < found.length := by
      rcases hfollowed with hlt | ⟨heq, _⟩
      · exact Nat.lt_trans hlt hkl
      · exact heq ▸ hkl
    rw [List.getElem?_append_left hp] at hg
    rcases followed_snoc hfollowed with hold | ⟨rfl, rfl⟩
    · obtain ⟨f, hf, hjoint, hle⟩ := h.covered hg hold hedge
      exact ⟨f, List.mem_append_left _ hf, hjoint, hle⟩
    · have hgh : g = here := Option.some.inj (hg.symm.trans hk)
      subst hgh
      have hnext : next = next' := Option.some.inj (hstep.symm.trans hedge)
      exact ⟨⟨next, g.path ++ [b]⟩, List.mem_append_right _ (by simp), hnext, NoLater.refl _⟩

/-- A record from which the whole alphabet has been followed is expanded: no other action passes. -/
theorem advance (h : Recorded c found k c.alphabet) : Recorded c found (k + 1) [] where
  root := h.root
  distinct := h.distinct
  increasing := h.increasing
  initial := List.nil_prefix
  parent := by
    intro i f hf
    rcases h.parent hf with hzero | ⟨p, g, b, hg, hfollowed, hstep, hpath⟩
    · exact Or.inl hzero
    · refine Or.inr ⟨p, g, b, hg, Or.inl ?_, hstep, hpath⟩
      rcases hfollowed with hlt | ⟨heq, _⟩ <;> omega
  covered := by
    intro p g b next hg hfollowed hstep
    refine h.covered hg ?_ hstep
    rcases hfollowed with hlt | ⟨_, hb⟩
    · rcases Nat.lt_or_eq_of_le (Nat.le_of_lt_succ hlt) with hlt | heq
      · exact Or.inl hlt
      · have hpermit := (Composition.successor?_eq_some_iff.mp hstep).1
        have hfits := h.fits (List.mem_of_getElem? hg)
        exact Or.inr ⟨heq, Composition.mem_alphabet_of_permitted hfits hpermit⟩
    · exact absurd hb (by simp)

end Recorded

theorem recorded_start (c : Composition) : Recorded c [⟨c.initialJoint, []⟩] 0 [] where
  root := rfl
  distinct := by simp
  increasing := by simp
  initial := List.nil_prefix
  parent := by
    intro i f hf
    have hi := (List.getElem?_eq_some_iff.mp hf).1
    exact Or.inl (by simpa using hi)
  covered := by
    intro p g a next _ hfollowed _
    rcases hfollowed with hlt | ⟨_, ha⟩
    · omega
    · exact absurd ha (by simp)

/-! ## The state of the search -/

namespace Search

/-- A search within its bound whose records are in order and whose look-up set agrees with them. -/
structure Kept (c : Composition) (bound : Nat) (s : Search) (k : Nat) (done : List String) :
    Prop where
  /-- The records are those of a breadth-first search. -/
  records : Recorded c s.found.toList k done
  /-- What is seen is what is recorded. -/
  seen_iff : ∀ joint, s.seen.contains joint = true ↔ joint ∈ s.found.toList.map Found.joint
  /-- No more is recorded than the bound allows. -/
  size_le : s.found.size ≤ bound

/-- A search that the bound cut short: it is full, and something was left out. -/
structure Cut (c : Composition) (bound : Nat) (s : Search) : Prop where
  truncated : s.truncated = true
  /-- It was in order when it was cut. -/
  kept : ∃ k done, Kept c bound s k done
  /-- There was no room. -/
  full : s.found.size = bound
  /-- A reachable joint state is not recorded. -/
  missed : ∃ joint ∈ c.reachable, joint ∉ s.found.toList.map Found.joint

/-- A search that is still going, or was cut short. -/
def InOrder (c : Composition) (bound : Nat) (s : Search) (k : Nat) (done : List String) : Prop :=
  s.truncated = false ∧ Kept c bound s k done ∨ Cut c bound s

variable {c : Composition} {bound k : Nat} {s : Search} {done : List String} {here : Found}

theorem kept_start (hb : 0 < bound) : Kept c bound (start c.initialJoint) 0 [] where
  records := recorded_start c
  seen_iff := by
    intro joint
    simp [start, @eq_comm _ joint]
  size_le := hb

/-- The records are only ever added to. -/
theorem follow_found (c : Composition) (bound : Nat) (here : Found) (s : Search) (action : String) :
    s.found.toList <+: (follow c bound here s action).found.toList := by
  rw [follow_eq]
  split
  · exact List.prefix_rfl
  · split
    · exact List.prefix_rfl
    · unfold record
      split
      · exact List.prefix_rfl
      · split
        · exact List.prefix_rfl
        · simp

/-- **Following one action keeps the search in order, or cuts it.** -/
theorem follow_inOrder {action : String} (hopen : s.truncated = false) (h : Kept c bound s k done)
    (hk : s.found.toList[k]? = some here) (ha : done ++ [action] <+: c.alphabet) :
    InOrder c bound (follow c bound here s action) k (done ++ [action]) := by
  rw [follow_eq, if_neg (by simp [hopen])]
  split
  · -- the action does not pass
    rename_i hnone
    refine Or.inl ⟨hopen, h.records.follow_known hk ha ?_, h.seen_iff, h.size_le⟩
    intro next hnext
    exact absurd (hnone.symm.trans hnext) (by simp)
  · rename_i next hnext
    unfold record
    split
    · -- it leads to a joint state that has been seen
      rename_i hseen
      refine Or.inl ⟨hopen, h.records.follow_known hk ha ?_, h.seen_iff, h.size_le⟩
      intro next' hnext'
      have heq : next = next' := Option.some.inj (hnext.symm.trans hnext')
      exact heq ▸ (h.seen_iff next).mp hseen
    · rename_i hseen
      have hnew : next ∉ s.found.toList.map Found.joint :=
        fun hmem => hseen ((h.seen_iff next).mpr hmem)
      split
      · -- no room: the search ends here, and `next` is what it misses
        rename_i hfull
        have hreach := h.records.mem_reachable (List.mem_of_getElem? hk)
        exact Or.inr
          { truncated := rfl
            kept := ⟨k, done, h.records, h.seen_iff, h.size_le⟩
            full := Nat.le_antisymm h.size_le hfull
            missed := ⟨next, Composition.successor_mem_reachable hreach hnext, hnew⟩ }
      · -- a record more, within the bound
        rename_i hroom
        refine Or.inl ⟨hopen, ?_, ?_, ?_⟩
        · rw [Array.toList_push]
          exact h.records.follow_new hk ha hnext hnew
        · intro joint
          have hold := h.seen_iff joint
          simp only [Array.toList_push, List.map_append, List.map_cons, List.map_nil,
            List.mem_append, List.mem_singleton, Std.HashSet.contains_insert, Bool.or_eq_true,
            beq_iff_eq, hold]
          tauto
        · rw [Array.size_push]
          omega

theorem follow_of_truncated {action : String} (h : s.truncated = true) :
    follow c bound here s action = s := by
  rw [follow_eq, if_pos h]

theorem foldl_follow_of_truncated {actions : List String} (h : s.truncated = true) :
    actions.foldl (follow c bound here) s = s := by
  induction actions with
  | nil => rfl
  | cons a actions ih => rw [List.foldl_cons, follow_of_truncated h, ih]

/-- Following the rest of the alphabet, action after action. -/
theorem foldl_follow_inOrder : ∀ {rest done : List String} {s : Search}, done ++ rest = c.alphabet →
    s.truncated = false → Kept c bound s k done → s.found.toList[k]? = some here →
    InOrder c bound (rest.foldl (follow c bound here) s) k c.alphabet := by
  intro rest
  induction rest with
  | nil =>
    intro done s hsplit hopen h _
    rw [List.append_nil] at hsplit
    exact Or.inl ⟨hopen, hsplit ▸ h⟩
  | cons a rest ih =>
    intro done s hsplit hopen h hk
    have ha : done ++ [a] <+: c.alphabet := ⟨rest, by simpa using hsplit⟩
    rw [List.foldl_cons]
    rcases follow_inOrder hopen h hk ha with ⟨hopen', h'⟩ | hcut
    · have hk' : (follow c bound here s a).found.toList[k]? = some here := by
        obtain ⟨new, hnew⟩ := follow_found c bound here s a
        rw [← hnew, List.getElem?_append_left (List.getElem?_eq_some_iff.mp hk).1]
        exact hk
      exact ih (by simpa using hsplit) hopen' h' hk'
    · rw [foldl_follow_of_truncated hcut.truncated]
      exact Or.inr hcut

/-! ## The whole run -/

/-- Only a round moves the mark. -/
theorem expanded_follow (s : Search) (action : String) :
    (follow c bound here s action).expanded = s.expanded := by
  rw [follow_eq]
  split
  · rfl
  · split
    · rfl
    · unfold record
      split
      · rfl
      · split <;> rfl

theorem expanded_expand (s : Search) : (s.expand c bound here).expanded = s.expanded := by
  rw [expand_eq]
  induction c.alphabet generalizing s with
  | nil => rfl
  | cons a actions ih => rw [List.foldl_cons, ih, expanded_follow]

/-- **One round keeps the search in order, or cuts it.** The mark moves on, and the record that it was
at becomes an expanded one. -/
theorem round_inOrder (hopen : s.truncated = false) (h : Kept c bound s s.expanded [])
    (hk : s.found.toList[s.expanded]? = some here) :
    (expand c bound here { s with expanded := s.expanded + 1 }).expanded = s.expanded + 1 ∧
      InOrder c bound (expand c bound here { s with expanded := s.expanded + 1 })
        (s.expanded + 1) [] := by
  refine ⟨expanded_expand _, ?_⟩
  rw [expand_eq]
  -- the mark moves before the record is expanded; nothing in `Kept` looks at it
  have hmarked : Kept c bound { s with expanded := s.expanded + 1 } s.expanded [] :=
    ⟨h.records, h.seen_iff, h.size_le⟩
  rcases foldl_follow_inOrder (s := { s with expanded := s.expanded + 1 }) (List.nil_append _) hopen
    hmarked hk with ⟨hopen', h'⟩ | hcut
  · exact Or.inl ⟨hopen', h'.records.advance, h'.seen_iff, h'.size_le⟩
  · exact Or.inr hcut

/-- A search that was cut short or has expanded all that it recorded. -/
def Ended (s : Search) : Prop := s.truncated = true ∨ s.found.toList[s.expanded]? = none

theorem ended_or_front (s : Search) :
    s.Ended ∨ s.truncated = false ∧ ∃ here, s.found.toList[s.expanded]? = some here := by
  cases hopen : s.truncated with
  | true => exact Or.inl (Or.inl hopen)
  | false =>
    cases hk : s.found.toList[s.expanded]? with
    | none => exact Or.inl (Or.inr hk)
    | some here => exact Or.inr ⟨rfl, here, rfl⟩

/-- A round adds to the records and takes nothing away. -/
theorem expand_found (c : Composition) (bound : Nat) (here : Found) (s : Search) :
    s.found.toList <+: (s.expand c bound here).found.toList := by
  rw [expand_eq]
  induction c.alphabet generalizing s with
  | nil => exact List.prefix_rfl
  | cons action actions ih => exact (follow_found c bound here s action).trans (ih _)

theorem run_of_ended (h : s.Ended) (fuel : Nat) : run c bound fuel s = s := by
  cases fuel with
  | zero => rfl
  | succ fuel =>
    rw [run_succ]
    rcases h with h | h
    · rw [if_pos h]
    · rw [Array.getElem?_toList] at h
      rw [h]
      split <;> rfl

theorem run_of_front (hopen : s.truncated = false) (hk : s.found.toList[s.expanded]? = some here)
    (fuel : Nat) :
    run c bound (fuel + 1) s =
      run c bound fuel (expand c bound here { s with expanded := s.expanded + 1 }) := by
  rw [Array.getElem?_toList] at hk
  rw [run_succ, if_neg (by simp [hopen]), hk]

/-- Rounds add up. -/
theorem run_add (m n : Nat) : ∀ (s : Search), run c bound (m + n) s = run c bound n (run c bound m s) := by
  induction m with
  | zero =>
    intro s
    rw [Nat.zero_add]
    rfl
  | succ m ih =>
    intro s
    rcases s.ended_or_front with hended | ⟨hopen, here, hk⟩
    · rw [run_of_ended hended, run_of_ended hended, run_of_ended hended]
    · rw [Nat.succ_add, run_of_front hopen hk, run_of_front hopen hk, ih]

/-- **A run ends with everything expanded, or cut, or out of rounds.** -/
theorem run_inOrder : ∀ (fuel : Nat) {s : Search}, s.truncated = false →
    Kept c bound s s.expanded [] →
    Cut c bound (run c bound fuel s) ∨
      (run c bound fuel s).truncated = false ∧
        Kept c bound (run c bound fuel s) (run c bound fuel s).expanded [] ∧
        ((run c bound fuel s).found.size ≤ (run c bound fuel s).expanded ∨
          (run c bound fuel s).expanded = s.expanded + fuel) := by
  intro fuel
  induction fuel with
  | zero => intro s hopen h; exact Or.inr ⟨hopen, h, Or.inr rfl⟩
  | succ fuel ih =>
    intro s hopen h
    cases hk : s.found.toList[s.expanded]? with
    | none =>
      rw [run_of_ended (Or.inr hk)]
      exact Or.inr ⟨hopen, h, Or.inl (List.getElem?_eq_none_iff.mp hk)⟩
    | some here =>
      rw [run_of_front hopen hk]
      obtain ⟨hmark, hround⟩ := round_inOrder hopen h hk
      generalize expand c bound here { s with expanded := s.expanded + 1 } = r at hmark hround ⊢
      rcases hround with ⟨hopen', h'⟩ | hcut
      · -- the mark that the round moved is where the rest of the run starts
        rw [← hmark] at h'
        rcases ih hopen' h' with hcut | ⟨hopen'', h'', hend⟩
        · exact Or.inl hcut
        · refine Or.inr ⟨hopen'', h'', ?_⟩
          rcases hend with hend | hend
          · exact Or.inl hend
          · exact Or.inr (by omega)
      · rw [run_of_ended (Or.inl hcut.truncated)]
        exact Or.inl hcut

/-- A search after any number of rounds has its records in order, and unless it was cut short in the last one it
has followed every action from those that the mark has passed. -/
theorem kept_run (hbound : 0 < bound) (rounds : Nat) :
    (∃ k done, Kept c bound (run c bound rounds (.start c.initialJoint)) k done) ∧
      ((run c bound rounds (.start c.initialJoint)).truncated = false →
        Kept c bound (run c bound rounds (.start c.initialJoint))
          (run c bound rounds (.start c.initialJoint)).expanded []) := by
  rcases run_inOrder rounds (s := .start c.initialJoint) rfl (kept_start hbound) with
    hcut | ⟨_, hkept, _⟩
  · exact ⟨hcut.kept, fun hopen => absurd (hcut.truncated.symm.trans hopen) (by simp)⟩
  · exact ⟨⟨_, _, hkept⟩, fun _ => hkept⟩

end Search

/-! ## The search of a composition -/

namespace Composition

variable {c : Composition} {bound : Nat}

/-- **The two ways a search ends.** -/
theorem searched_ends (hb : 0 < bound) :
    Search.Cut c bound (c.searched bound) ∨
      (c.searched bound).truncated = false ∧
        ∃ k, Search.Kept c bound (c.searched bound) k [] ∧ (c.searched bound).found.size ≤ k := by
  rcases Search.run_inOrder bound (s := .start c.initialJoint) rfl (Search.kept_start hb) with
    hcut | ⟨hopen, h, hend⟩
  · exact Or.inl hcut
  · refine Or.inr ⟨hopen, _, h, ?_⟩
    rcases hend with hend | hend
    · exact hend
    · -- as many rounds as the bound: no record is left
      have hstart : (Search.start c.initialJoint).expanded = 0 := rfl
      rw [hend, hstart, Nat.zero_add]
      exact h.size_le

end Composition

end Lockstep
