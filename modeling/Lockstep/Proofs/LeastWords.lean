import Lockstep.Proofs.Building
import Lockstep.Proofs.Exploration

/-!
# What a search records, without the search

Every reachable joint state has a least word that leads to it. A search records least words in
increasing order and skips none: a least word that comes before a recorded path is itself recorded. That
pins its records down. Two increasing lists that both skip nothing of one set agree as far as both of
them go (`Leads.prefix_of_length_le`), so the paths of an exploration follow from its length and from the
set of least words, with no reference to frontiers, marks or bounds; and a path says where it leads.

Two searches can therefore be compared without running them side by side. Under a smaller bound a search
records a prefix of what it records under a larger one (`Composition.records_prefix`); and compositions
with the same least words are explored by the same paths (`Composition.paths_eq`).
-/

namespace Lockstep

/-! ## Lists that skip nothing -/

/-- The words of a list are those of a set that come first, in increasing order. -/
structure Leads (words : List (List String)) (S : Set (List String)) : Prop where
  /-- They increase. -/
  increasing : words.Pairwise Before
  /-- They belong to the set. -/
  mem : ∀ w ∈ words, w ∈ S
  /-- No word of the set that comes before one of them is skipped. -/
  closed : ∀ w ∈ S, ∀ u ∈ words, Before w u → w ∈ words

namespace Leads

variable {S : Set (List String)} {u v : List String} {l m : List (List String)}

theorem not_before_head (hl : Leads (u :: l) S) (hm : Leads (v :: m) S) : ¬ Before u v := by
  intro huv
  rcases List.mem_cons.mp (hm.closed u (hl.mem u (by simp)) v (by simp) huv) with heq | hmem
  · exact not_before_self v (heq ▸ huv)
  · exact huv.asymm ((List.pairwise_cons.mp hm.increasing).1 u hmem)

theorem head_eq (hl : Leads (u :: l) S) (hm : Leads (v :: m) S) : u = v := by
  rcases before_trichotomy u v with h | h | h
  · exact absurd h (hl.not_before_head hm)
  · exact h
  · exact absurd h (hm.not_before_head hl)

theorem tail (h : Leads (u :: l) S) : Leads l (S \ {u}) where
  increasing := (List.pairwise_cons.mp h.increasing).2
  mem := by
    intro w hw
    refine ⟨h.mem w (List.mem_cons_of_mem _ hw), ?_⟩
    rintro rfl
    exact not_before_self w ((List.pairwise_cons.mp h.increasing).1 w hw)
  closed := by
    rintro w ⟨hw, hne⟩ x hx hlt
    exact (List.mem_cons.mp (h.closed w hw x (List.mem_cons_of_mem _ hx) hlt)).resolve_left hne

/-- **Of two lists that skip nothing the shorter one is the beginning of the longer one.** -/
theorem prefix_of_length_le (hl : Leads l S) (hm : Leads m S) (hlen : l.length ≤ m.length) :
    l <+: m := by
  -- both heads are the least word of the set; the tails skip nothing of the rest of it
  induction l generalizing m S with
  | nil => exact List.nil_prefix
  | cons u l ih =>
    cases m with
    | nil => exact absurd hlen (by simp)
    | cons v m =>
      have huv := hl.head_eq hm
      subst huv
      rw [List.prefix_cons_inj]
      exact ih hl.tail hm.tail (by simpa using hlen)

end Leads

namespace Composition

variable {c d : Composition} {m n : Nat}

/-! ## Least words -/

/-- The words that lead somewhere and come first among those that lead there. -/
def leastWords (c : Composition) : Set (List String) :=
  {word | ∃ joint, c.replay c.initialJoint word = some joint ∧
    ∀ other, c.replay c.initialJoint other = some joint → NoLater word other}

theorem path_mem_leastWords {f : Found} (hf : f ∈ c.records n) : f.path ∈ c.leastWords := by
  obtain ⟨k, done, h⟩ := recorded_records (c := c) (pos_of_mem_records hf)
  exact ⟨f.joint, h.replay_path hf, fun other hother => h.path_noLater hf hother⟩

/-- **The paths of an exploration skip no least word.** -/
theorem leads_paths (c : Composition) (n : Nat) :
    Leads ((c.records n).map Found.path) c.leastWords := by
  rcases Nat.eq_zero_or_pos n with rfl | hn
  · have hnil : c.records 0 = [] := if_pos rfl
    rw [hnil]
    exact ⟨by simp, by simp, by simp⟩
  · obtain ⟨k, done, h⟩ := recorded_records (c := c) hn
    refine ⟨h.increasing, ?_, ?_⟩
    · intro w hw
      obtain ⟨f, hf, rfl⟩ := List.mem_map.mp hw
      exact path_mem_leastWords hf
    · rintro w ⟨joint, hjoint, hleast⟩ u hu hwu
      obtain ⟨f, hf, rfl⟩ := List.mem_map.mp hu
      obtain ⟨g, hg, rfl, hgw⟩ := h.exists_noLater w hjoint hf (Or.inr hwu)
      -- `w` and the path of `g` are both least to the joint state of `g`
      have hwg : w = g.path := by
        rcases hleast g.path (h.replay_path hg) with heq | hlt
        · exact heq
        · exact absurd hlt (noLater_iff.mp hgw)
      exact hwg ▸ List.mem_map_of_mem hg

theorem length_records (c : Composition) (n : Nat) :
    (c.records n).length = min n c.reachable.ncard := by
  rcases explore_ends c n with ⟨_, hlen, hcard⟩ | ⟨_, hlen, hall⟩
  · omega
  · have hcard := ncard_reachable_of_complete hall
    omega

/-- The record with a given path. -/
def recordOf (c : Composition) (word : List String) : Found :=
  ⟨(c.replay c.initialJoint word).getD [], word⟩

/-- A record is told by its path. -/
theorem recordOf_path {f : Found} (hf : f ∈ c.records n) : c.recordOf f.path = f := by
  rw [recordOf, replay_path_of_mem hf, Option.getD_some]

theorem map_recordOf_paths (c : Composition) (n : Nat) :
    ((c.records n).map Found.path).map c.recordOf = c.records n := by
  rw [List.map_map]
  exact (List.map_congr_left fun f hf => recordOf_path hf).trans (List.map_id _)

/-! ## Two bounds, two compositions -/

/-- **A smaller bound records a prefix.** -/
theorem records_prefix (c : Composition) (h : m ≤ n) : c.records m <+: c.records n := by
  have hlen : ((c.records m).map Found.path).length ≤ ((c.records n).map Found.path).length := by
    rw [List.length_map, List.length_map, length_records, length_records]
    omega
  have hpaths := (c.leads_paths m).prefix_of_length_le (c.leads_paths n) hlen
  rw [← c.map_recordOf_paths m, ← c.map_recordOf_paths n]
  exact hpaths.map c.recordOf

theorem records_take (c : Composition) (h : m ≤ n) : c.records m = (c.records n).take m := by
  have hpre := List.prefix_iff_eq_take.mp (c.records_prefix h)
  have hm := c.length_records m
  have hn := c.length_records n
  -- the smaller search is full, or both have found everything
  rcases Nat.lt_or_ge m c.reachable.ncard with hlt | hge
  · have hfull : (c.records m).length = m := by omega
    rw [hfull] at hpre
    exact hpre
  · have hall : (c.records n).length ≤ (c.records m).length := by omega
    rw [List.take_of_length_le hall] at hpre
    rw [hpre, List.take_of_length_le (by omega)]

/--
**A smaller bound shows the beginning of what a larger one shows.**

The joint states, and the states by name with the paths that led to them, are the first `m` that the
larger exploration lists, or all of them if there are not so many.
-/
theorem explore_initial_segment (c : Composition) (m n : Nat) (h : m ≤ n) :
    (c.explore m).joints = (c.explore n).joints.take m ∧
      (c.explore m).states = (c.explore n).states.take m := by
  rw [explore_joints, explore_joints, explore_states, explore_states, c.records_take h,
    List.map_take, List.map_take]
  exact ⟨rfl, rfl⟩

/-- Where four words lead in the standard composition. -/
theorem exists_standard_replays :
    ∃ c : Composition, c.protocols.map Protocol.definition = Catalog.standard ∧
      [[], ["write"], ["write", "execute"], ["write", "execute", "read"]].map
          (c.replay c.initialJoint) =
        [some [0, 0, 0], some [1, 0, 1], some [2, 1, 1], some [2, 0, 1]] := by
  obtain ⟨c, hc, hstd⟩ :=
    @exists_composeDefinitions_ok Catalog.standard (by decide) (by decide) (by decide)
  have hreplays : ((composeDefinitions Catalog.standard).toOption.map fun c =>
      [[], ["write"], ["write", "execute"], ["write", "execute", "read"]].map
        (c.replay c.initialJoint)) =
      some [some [0, 0, 0], some [1, 0, 1], some [2, 1, 1], some [2, 0, 1]] := by
    decide +kernel
  rw [hc] at hreplays
  exact ⟨c, hstd, Option.some.inj hreplays⟩

theorem explore_initial_segment_standard :
    ∃ c : Composition, c.protocols.map Protocol.definition = Catalog.standard ∧
      (c.explore 2).joints.length = 2 ∧ (c.explore 4).joints.length = 4 ∧ 2 ≤ 4 ∧
      (c.explore 2).joints = (c.explore 4).joints.take 2 ∧
      (c.explore 2).states = (c.explore 4).states.take 2 := by
  obtain ⟨c, hstd, hreplays⟩ := exists_standard_replays
  have hcard : 4 ≤ c.reachable.ncard := by
    refine length_le_ncard_reachable (l := [[0, 0, 0], [1, 0, 1], [2, 1, 1], [2, 0, 1]]) (by decide) ?_
    intro joint hjoint
    have hmem : some joint ∈ [some [0, 0, 0], some [1, 0, 1], some [2, 1, 1], some [2, 0, 1]] := by
      simpa using hjoint
    rw [← hreplays] at hmem
    obtain ⟨word, _, hword⟩ := List.mem_map.mp hmem
    exact ⟨word, hword⟩
  have hlength : ∀ n ≤ 4, (c.explore n).joints.length = n := by
    intro n hn
    rw [explore_joints, List.length_map, length_records]
    omega
  exact ⟨c, hstd, hlength 2 (by decide), hlength 4 (by decide), by decide,
    c.explore_initial_segment 2 4 (by decide)⟩

/-- An exploration with room for everything records every reachable joint state. -/
theorem exists_mem_records {joint : JointState} (h : joint ∈ c.reachable) :
    ∃ f ∈ c.records c.reachable.ncard, f.joint = joint := by
  rcases explore_ends c c.reachable.ncard with ⟨_, _, hlt⟩ | ⟨_, _, hall⟩
  · exact absurd hlt (Nat.lt_irrefl _)
  · exact List.mem_map.mp ((hall joint).mpr h)

/-- Each reachable joint state has one least word. -/
theorem ncard_leastWords (c : Composition) : c.leastWords.ncard = c.reachable.ncard := by
  have himage : (fun word => (c.recordOf word).joint) '' c.leastWords = c.reachable := by
    ext joint
    constructor
    · rintro ⟨word, ⟨last, hlast, _⟩, rfl⟩
      exact ⟨word, by simp [recordOf, hlast]⟩
    · intro hjoint
      obtain ⟨f, hf, rfl⟩ := exists_mem_records hjoint
      exact ⟨f.path, path_mem_leastWords hf, congrArg Found.joint (recordOf_path hf)⟩
  have hinj : Set.InjOn (fun word => (c.recordOf word).joint) c.leastWords := by
    rintro u ⟨joint, hu, huleast⟩ v ⟨joint', hv, hvleast⟩ heq
    have hsame : joint = joint' := by simpa [recordOf, hu, hv] using heq
    subst hsame
    rcases huleast v hv with huv | huv
    · exact huv
    · exact absurd huv (noLater_iff.mp (hvleast u hu))
  rw [← himage, hinj.ncard_image]

/-- **Compositions with the same least words are explored by the same paths.** -/
theorem paths_eq (h : c.leastWords = d.leastWords) (n : Nat) :
    (c.records n).map Found.path = (d.records n).map Found.path := by
  have hlen : ((c.records n).map Found.path).length = ((d.records n).map Found.path).length := by
    rw [List.length_map, List.length_map, length_records, length_records, ← ncard_leastWords, h,
      ncard_leastWords]
  have hd := d.leads_paths n
  rw [← h] at hd
  exact ((c.leads_paths n).prefix_of_length_le hd (Nat.le_of_eq hlen)).eq_of_length hlen

end Composition

end Lockstep
