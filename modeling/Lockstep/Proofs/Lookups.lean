import Lockstep.Dominance
import Lockstep.Proofs.Cursors
import Lockstep.Proofs.Product

/-!
# No look-up comes back empty

The library never stops over a look-up. It has a stand-in where there is nothing to find, and the stand-in
would be wrong: no name, no transition, the place zero. Here it is shown that none is ever used. Whatever a monad
does about a look-up that comes back empty, it does not get to do it: decisions and names at joint states that
fit, and every search, check, enumeration and tally, come out as they do in `Id`, and nothing else happens. In
`Option`, where a look-up that comes back empty ends the evaluation, this says that the evaluation gets to its
end.

A single decision is refused in `Option` exactly where the protocol has no state
(`Protocol.decideAtM_eq_decideAt?`). The rest never leaves the joint states that fit. For the search this is not
a new invariant: what it records is reachable.
-/

namespace Lockstep

variable {m : Type → Type} [Monad m] [Lookup m] [LawfulLookup m]

/-! ## Decisions -/

namespace Protocol

variable {p : Protocol} {id : Nat}

theorem stateNameM_of_lt (hid : id < p.stateCount) :
    (p.stateNameM id : m String) = pure (p.stateName id) := by
  obtain ⟨name, hname⟩ := exists_stateName hid
  rw [stateNameM, stateName_eq, hname, found_some, Option.getD_some]

theorem targetIdM_of_mem {t : Transition} (ht : t ∈ p.transitions) :
    (p.targetIdM t : m Nat) = pure (p.targetId t) := by
  rw [targetIdM, target_declared ht, found_some]

theorem transitionForM_of_lt (hid : id < p.stateCount) (action : String) :
    (p.transitionForM id action : m (Option Transition)) = pure (p.transitionFor? id action) := by
  obtain ⟨name, hname⟩ := exists_stateName hid
  obtain ⟨slot, hslot⟩ : ∃ slot, p.table[id]? = some slot :=
    ⟨_, List.getElem?_eq_getElem (p.length_table ▸ hid)⟩
  have hfind : slot.find? action = p.transitions.findIdx? (·.fits name action) := by
    rw [← table_find?_eq hname, Table.find?, hslot]
  rw [transitionForM, transitionFor?_eq, table_find?_eq hname, hslot, found_some, pure_bind, hfind]
  cases hindex : p.transitions.findIdx? (·.fits name action) with
  | none => rfl
  | some i =>
    have hi : i < p.transitions.length := (List.findIdx?_eq_some_iff_getElem.mp hindex).1
    dsimp only [Option.bind_some]
    rw [List.getElem?_eq_getElem hi, Option.map_some, found_some]

/-- **A decision at a state of the protocol finds all it looks up.** -/
theorem decideAtM_of_lt (hid : id < p.stateCount) (action : String) :
    (p.decideAtM id action : m Decision) = pure (p.decideAt id action) := by
  obtain ⟨name, hname⟩ := exists_stateName hid
  rw [decideAtM, transitionForM_of_lt hid, pure_bind, decideAt_eq]
  cases hfor : p.transitionFor? id action with
  | none =>
    dsimp only
    rw [stateNameM_of_lt hid, pure_bind]
  | some t =>
    rw [transitionFor?_eq_find? hname] at hfor
    dsimp only
    rw [targetIdM_of_mem (List.mem_of_find?_eq_some hfor), pure_bind]

/-- **In `Option` a decision is found exactly where the protocol has a state.** -/
theorem decideAtM_eq_decideAt? (p : Protocol) (id : Nat) (action : String) :
    p.decideAtM id action = p.decideAt? id action := by
  unfold decideAt?
  split
  · rename_i hid
    exact decideAtM_of_lt hid action
  · rename_i hid
    have hslot : p.table[id]? = none := by
      have hlength := p.length_table
      exact List.getElem?_eq_none (by omega)
    rw [decideAtM, transitionForM, hslot]
    rfl

end Protocol

namespace Composition

variable {c : Composition} {joint : JointState}

theorem Fits.mapM_zip {β : Type} (h : c.Fits joint) {f : Protocol → Nat → m β}
    {g : Protocol → Nat → β} (hfg : ∀ p id, id < p.stateCount → f p id = pure (g p id)) :
    ((c.protocols.zip joint).mapM fun (p, id) => f p id) = pure (c.protocols.zipWith g joint) :=
  mapM_zip_eq_pure fun p id hm => hfg p id (h.lt_stateCount hm)

/-- **A joint state that fits is decided without a miss.** -/
theorem Fits.composeAtM (h : c.Fits joint) (action : String) :
    (c.composeAtM joint action : m JointDecision) = pure (c.composeAt joint action) := by
  have hdecide : ∀ (p : Protocol) (id : Nat), id < p.stateCount →
      (p.decideAtM id action : m Decision) = pure (p.decideAt id action) :=
    fun _ _ hid => Protocol.decideAtM_of_lt hid action
  rw [Composition.composeAtM, Lookup.require_of h.length_eq, pure_bind, h.mapM_zip hdecide, pure_bind,
    composeAt_eq]

theorem Fits.snapshotM (h : c.Fits joint) (actions : List String) :
    (c.snapshotM joint actions : m Snapshot) = pure (c.snapshot joint actions) := by
  have hname : ∀ (p : Protocol) (id : Nat), id < p.stateCount →
      (do return (p.name, ← p.stateNameM id) : m (String × String)) = pure (p.name, p.stateName id) := by
    intro p id hid
    rw [Protocol.stateNameM_of_lt hid, pure_bind]
  rw [Composition.snapshotM, h.mapM_zip hname, pure_bind, snapshot_eq]

theorem Fits.successorM (h : c.Fits joint) (action : String) :
    (c.successorM joint action : m (Option JointState)) = pure (c.successor? joint action) := by
  rw [Composition.successorM, h.composeAtM, pure_bind, successor?_eq]

theorem Fits.isLiveM (h : c.Fits joint) : (c.isLiveM joint : m Bool) = pure (c.isLive joint) := by
  rw [isLive_eq]
  refine anyM_eq_pure ?_
  intro action _
  rw [h.composeAtM, pure_bind]

theorem Fits.dominantM (h : c.Fits joint) (r : Ranking) :
    (c.dominantM r joint : m (Option String)) = pure (c.dominant r joint) := by
  have hall : c.alphabet.mapM (c.composeAtM (m := m) joint) = pure (c.alphabet.map (c.composeAt joint)) :=
    mapM_eq_pure fun action _ => h.composeAtM action
  rw [Composition.dominantM, hall, pure_bind, List.flatMap_map, dominant_eq]

end Composition

/-! ## The search -/

namespace Search

variable {c : Composition} {bound : Nat} {here : Found}

theorem followM_of_fits (h : c.Fits here.joint) (s : Search) (action : String) :
    (followM c bound here s action : m Search) = pure (follow c bound here s action) := by
  rw [follow_eq]
  unfold followM
  split
  · rfl
  · rw [h.successorM, pure_bind]
    cases c.successor? here.joint action with
    | none => rfl
    | some next => rfl

theorem expandM_of_fits (h : c.Fits here.joint) (s : Search) :
    (s.expandM c bound here : m Search) = pure (s.expand c bound here) := by
  rw [expand_eq]
  exact foldlM_eq_pure (fun s action _ => followM_of_fits h s action) s

/-- **A search that keeps its records finds all it looks up.** -/
theorem runM_of_kept : ∀ (fuel : Nat) {s : Search}, s.truncated = false →
    Kept c bound s s.expanded [] → (runM c bound fuel s : m Search) = pure (run c bound fuel s) := by
  intro fuel
  induction fuel with
  | zero => intro s _ _; rfl
  | succ fuel ih =>
    intro s hopen h
    rw [runM, run_succ, if_neg (by simp [hopen]), if_neg (by simp [hopen])]
    cases hhere : s.found[s.expanded]? with
    | none => rfl
    | some here =>
      have hk : s.found.toList[s.expanded]? = some here := by
        rw [Array.getElem?_toList]
        exact hhere
      have hfits : c.Fits here.joint := h.records.fits (List.mem_of_getElem? hk)
      obtain ⟨hmark, hround⟩ := round_inOrder hopen h hk
      dsimp only
      rw [expandM_of_fits hfits, pure_bind]
      generalize expand c bound here { s with expanded := s.expanded + 1 } = r at hmark hround ⊢
      rcases hround with ⟨hopen', h'⟩ | hcut
      · rw [← hmark] at h'
        exact ih hopen' h'
      · -- a cut search goes no further, whatever the monad
        rw [run_of_ended (Or.inl hcut.truncated)]
        cases fuel with
        | zero => rfl
        | succ fuel => rw [runM, if_pos hcut.truncated]

end Search

namespace Composition

variable {joint : JointState}

theorem searchedM_of_pos (c : Composition) {n : Nat} (hn : 0 < n) :
    (c.searchedM n : m Search) = pure (c.searched n) :=
  Search.runM_of_kept n rfl (Search.kept_start hn)

/-- **An exploration finds all it looks up.** -/
theorem exploreM_eq (c : Composition) (n : Nat) :
    (c.exploreM n : m Exploration) = pure (c.explore n) := by
  rw [explore_eq]
  unfold exploreM
  split
  · rfl
  · rename_i hne
    have hn : 0 < n := Nat.pos_of_ne_zero hne
    have hnames : ((c.searched n).found.toList.mapM fun f => c.snapshotM (m := m) f.joint f.path) =
        pure ((c.searched n).found.toList.map fun f => c.snapshot f.joint f.path) := by
      refine mapM_eq_pure ?_
      intro f hf
      rw [← records_of_pos hn] at hf
      exact (fits_of_mem_reachable (records_mem_reachable hf)).snapshotM f.path
    rw [c.searchedM_of_pos hn, pure_bind, hnames, pure_bind]

theorem fits_of_mem_joints {c : Composition} {n : Nat} (h : joint ∈ (c.explore n).joints) :
    c.Fits joint := by
  rw [c.explore_joints] at h
  obtain ⟨f, hf, hjoint⟩ := List.mem_map.mp h
  rw [← hjoint]
  exact fits_of_mem_reachable (records_mem_reachable hf)

/-! ## The product -/

theorem fits_of_mem_take {c : Composition} {n : Nat} (h : joint ∈ c.odometer.take n) :
    c.Fits joint := by
  unfold odometer at h
  rw [Odometer.take_of_walks (Odometer.walks_start c.radices)] at h
  exact fits_iff_mem_tuples.mpr (List.mem_of_mem_take h)

theorem enumerateAllM_eq (c : Composition) (ceiling : Nat) :
    (c.enumerateAllM ceiling : m (Except Error (List (OrderedMap String String)))) =
      pure (c.enumerateAll ceiling) := by
  have hall : (c.jointStates.mapM fun joint => c.snapshotM (m := m) joint []) =
      pure (c.jointStates.map fun joint => c.snapshot joint []) := by
    refine mapM_eq_pure ?_
    intro joint hjoint
    exact (fits_of_mem_take hjoint).snapshotM []
  rw [enumerateAll_eq]
  unfold enumerateAllM
  dsimp only
  split
  · rfl
  · rw [hall, pure_bind, List.map_map]
    rfl

theorem dominanceM_eq (c : Composition) (priority : List String) (ceiling : Nat) :
    (c.dominanceM priority ceiling : m (Except Error Dominance)) =
      pure (c.dominance priority ceiling) := by
  rw [dominance_eq]
  unfold dominanceM
  dsimp only
  split
  · rfl
  · cases Ranking.ofPriority c priority with
    | error e => rfl
    | ok r =>
      have hall := foldlM_eq_pure (l := c.jointStates)
        (f := fun t joint => return Dominance.count t (← c.dominantM (m := m) r joint))
        (g := fun t joint => t.count (c.dominant r joint)) (by
          intro t joint hjoint
          rw [(fits_of_mem_take hjoint).dominantM, pure_bind])
      dsimp only
      rw [hall, pure_bind]

end Composition

namespace Odometer

variable {α : Type}

/-- A search finds all it looks up if its question does at the tuples that it asks about. -/
theorem searchM_eq_pure {f : JointState → m (Option α)} {g : JointState → Option α} :
    ∀ {n : Nat} (count : Nat) {o : Odometer}, (∀ joint ∈ o.take n, f joint = pure (g joint)) →
      searchM f n count o = pure (search g n count o) := by
  intro n
  induction n with
  | zero => intro count o _; rfl
  | succ n ih =>
    intro count o h
    rw [searchM, search_succ]
    rw [take] at h
    cases hnext : o.next? with
    | none => rfl
    | some e =>
      obtain ⟨joint, o'⟩ := e
      rw [hnext] at h
      dsimp only at h ⊢
      rw [h joint (by simp), pure_bind]
      cases g joint with
      | some a => rfl
      | none => exact ih (count + 1) fun k hk => h k (List.mem_cons_of_mem _ hk)

theorem mem_take_of_search {g : JointState → Option α} {joint : JointState} {a : α} {checked : Nat} :
    ∀ {n count : Nat} {o : Odometer},
      search g n count o = (checked, some (joint, a)) → joint ∈ o.take n := by
  intro n
  induction n with
  | zero =>
    intro count o h
    exact absurd (congrArg Prod.snd h) (by simp [search, searchM])
  | succ n ih =>
    intro count o h
    rw [search_succ] at h
    rw [take]
    cases hnext : o.next? with
    | none =>
      rw [hnext] at h
      exact absurd h (by simp)
    | some e =>
      obtain ⟨x, o'⟩ := e
      rw [hnext] at h
      dsimp only at h ⊢
      cases hx : g x with
      | some b =>
        rw [hx] at h
        simp only [Prod.mk.injEq, Option.some.injEq] at h
        rw [← h.2.1]
        exact List.mem_cons_self
      | none =>
        rw [hx] at h
        exact List.mem_cons_of_mem _ (ih h)

end Odometer

/-! ## The checks -/

namespace Verifier

variable {v : Verifier} {c : Composition}

theorem firstFaultM_eq_pure {fault : JointDecision → Option String} {alphabet : List String}
    {ruleM : JointState → String → m JointDecision} {rule : Rule} {joint : JointState}
    (h : ∀ action, ruleM joint action = pure (rule joint action)) :
    firstFaultM fault alphabet ruleM joint = pure (firstFault fault alphabet rule joint) := by
  rw [firstFault_eq]
  refine findSomeM?_eq_pure ?_
  intro action _
  rw [h, pure_bind]

/-- **A check over the product finds all it looks up**, if its rule does where joint states fit. -/
theorem checkProductM_eq {property : Property} {fault : JointDecision → Option String}
    {ruleM : JointState → String → m JointDecision} {rule : Rule}
    (h : ∀ joint, c.Fits joint → ∀ action, ruleM joint action = pure (rule joint action)) :
    v.checkProductM property fault c ruleM = pure (v.checkProduct property fault c rule) := by
  have hsearch : c.odometer.searchM (firstFaultM fault c.alphabet ruleM) v.maxStates 0 =
      pure (c.odometer.search (firstFault fault c.alphabet rule) v.maxStates 0) := by
    refine Odometer.searchM_eq_pure 0 ?_
    intro joint hjoint
    exact firstFaultM_eq_pure (h joint (Composition.fits_of_mem_take hjoint))
  rw [checkProductM, checkProduct_eq, hsearch, pure_bind]
  rcases hfound : c.odometer.search (firstFault fault c.alphabet rule) v.maxStates 0 with
    ⟨checked, _ | ⟨joint, action, protocol⟩⟩
  · rfl
  · have hfits : c.Fits joint := Composition.fits_of_mem_take (Odometer.mem_take_of_search hfound)
    dsimp only
    rw [hfits.snapshotM, pure_bind]

theorem firstStuckM_of_fits {l : List (JointState × Snapshot)} (h : ∀ e ∈ l, c.Fits e.1) :
    ∀ count, (firstStuckM c count l : m (Option (Nat × Snapshot))) = pure (firstStuck c count l) := by
  induction l with
  | nil => intro count; rfl
  | cons e l ih =>
    intro count
    obtain ⟨joint, state⟩ := e
    have hfits : c.Fits joint := h (joint, state) (by simp)
    rw [firstStuckM, firstStuck_cons, hfits.isLiveM, pure_bind]
    cases c.isLive joint with
    | true => exact ih (fun k hk => h k (List.mem_cons_of_mem _ hk)) (count + 1)
    | false => rfl

/-- **The check for deadlocks finds all it looks up.** -/
theorem checkDeadlockM_eq (v : Verifier) (c : Composition) :
    (v.checkDeadlockM c : m Verdict) = pure (v.checkDeadlock c) := by
  have hfits : ∀ e ∈ (c.explore v.maxStates).joints.zip (c.explore v.maxStates).states,
      c.Fits e.1 := by
    intro e he
    exact Composition.fits_of_mem_joints (List.of_mem_zip he).1
  rw [checkDeadlockM, checkDeadlock_eq, c.exploreM_eq, pure_bind, judgeExplorationM,
    judgeExploration_eq, firstStuckM_of_fits hfits, pure_bind]
  cases firstStuck c 0 ((c.explore v.maxStates).joints.zip (c.explore v.maxStates).states) with
  | some e => rfl
  | none => rfl

end Verifier

end Lockstep
