import Lockstep.Composition.Exploration
import Lockstep.Proofs.Reachability

/-!
# The records of a breadth-first search

A search keeps its discoveries in one list: the front of it has been expanded, the next record is being
expanded, the rest waits. `Recorded` is what such a list satisfies at any moment, also in the middle of
expanding a record. Every record but the first was reached from a parent by an edge that has been
followed, the paths strictly increase in shortlex order, and every edge that has been followed leads to
a record whose path is no later than the edge.

Nothing in it says that a path is the best one. That is a consequence, and the one idea of this file:
a word that comes no later than some recorded path leads to a recorded joint state, by a path that is no
later than the word itself (`Recorded.exists_noLater`). The induction is on the word, one action at a
time from its end. It goes through because a word no later than the path of a record is, without its last
action, no later than the path of that record's parent; and what lies no later than a parent has been
expanded far enough.
-/

namespace Lockstep

/-- The edge that leaves record `p` on action `a` has been followed, by a search that has expanded `k`
records and followed the actions in `done` from the next one. -/
def Followed (k : Nat) (done : List String) (p : Nat) (a : String) : Prop :=
  p < k ∨ p = k ∧ a ∈ done

/-- The records of a search that has expanded `k` of them and followed the actions in `done` from the
next one. -/
structure Recorded (c : Composition) (found : List Found) (k : Nat) (done : List String) : Prop where
  /-- The first record is the joint initial state. -/
  root : found[0]? = some ⟨c.initialJoint, []⟩
  /-- No joint state is recorded twice. -/
  distinct : (found.map Found.joint).Nodup
  /-- The paths strictly increase. -/
  increasing : (found.map Found.path).Pairwise Before
  /-- Actions are followed in increasing order. -/
  initial : done <+: c.alphabet
  /-- Every record but the first was reached by an edge that has been followed. -/
  parent : ∀ {i : Nat} {f : Found}, found[i]? = some f → i = 0 ∨
    ∃ (p : Nat) (g : Found) (a : String), found[p]? = some g ∧ Followed k done p a ∧
      c.successor? g.joint a = some f.joint ∧ f.path = g.path ++ [a]
  /-- Every edge that has been followed leads to a record that is no later. -/
  covered : ∀ {p : Nat} {g : Found} {a : String} {next : JointState}, found[p]? = some g →
    Followed k done p a → c.successor? g.joint a = some next →
    ∃ f ∈ found, f.joint = next ∧ NoLater f.path (g.path ++ [a])

namespace Recorded

variable {c : Composition} {found : List Found} {k : Nat} {done : List String}

theorem root_mem (h : Recorded c found k done) : (⟨c.initialJoint, []⟩ : Found) ∈ found :=
  List.mem_of_getElem? h.root

/-! ## Order of records and order of paths -/

theorem before_of_lt (h : Recorded c found k done) {i j : Nat} {f g : Found}
    (hf : found[i]? = some f) (hg : found[j]? = some g) (hij : i < j) : Before f.path g.path := by
  obtain ⟨hi, rfl⟩ := List.getElem?_eq_some_iff.mp hf
  obtain ⟨hj, rfl⟩ := List.getElem?_eq_some_iff.mp hg
  have hpair := List.pairwise_iff_getElem.mp h.increasing i j (by simpa using hi)
    (by simpa using hj) hij
  simpa using hpair

theorem le_of_noLater (h : Recorded c found k done) {i j : Nat} {f g : Found}
    (hf : found[i]? = some f) (hg : found[j]? = some g) (hfg : NoLater f.path g.path) : i ≤ j := by
  by_contra hlt
  exact noLater_iff.mp hfg (h.before_of_lt hg hf (Nat.lt_of_not_le hlt))

theorem lt_of_before (h : Recorded c found k done) {i j : Nat} {f g : Found}
    (hf : found[i]? = some f) (hg : found[j]? = some g) (hfg : Before f.path g.path) : i < j := by
  refine Nat.lt_of_le_of_ne (h.le_of_noLater hf hg (Or.inr hfg)) ?_
  rintro rfl
  have heq : f = g := Option.some.inj (hf.symm.trans hg)
  exact not_before_self _ (heq ▸ hfg)

theorem eq_of_joint_eq (h : Recorded c found k done) {f g : Found} (hf : f ∈ found)
    (hg : g ∈ found) (hj : f.joint = g.joint) : f = g :=
  List.inj_on_of_nodup_map h.distinct hf hg hj

/-- Only the first record has the empty path. -/
theorem eq_root (h : Recorded c found k done) {f : Found} (hf : f ∈ found) (hnil : f.path = []) :
    f = ⟨c.initialJoint, []⟩ := by
  obtain ⟨i, hi⟩ := List.mem_iff_getElem?.mp hf
  rcases h.parent hi with hzero | ⟨p, g, a, _, _, _, hpath⟩
  · subst hzero
    exact Option.some.inj (hi.symm.trans h.root)
  · exact absurd (hpath.symm.trans hnil) (by simp)

/-- A record with a path other than the empty one has a parent. -/
theorem exists_parent (h : Recorded c found k done) {f : Found} (hf : f ∈ found)
    (hne : f.path ≠ []) :
    ∃ (p : Nat) (g : Found) (a : String), found[p]? = some g ∧ Followed k done p a ∧
      c.successor? g.joint a = some f.joint ∧ f.path = g.path ++ [a] := by
  obtain ⟨i, hi⟩ := List.mem_iff_getElem?.mp hf
  rcases h.parent hi with hzero | hparent
  · subst hzero
    have hroot := Option.some.inj (hi.symm.trans h.root)
    exact absurd (congrArg Found.path hroot) hne
  · exact hparent

/-! ## Paths are sound -/

theorem replay_path (h : Recorded c found k done) {f : Found} (hf : f ∈ found) :
    c.replay c.initialJoint f.path = some f.joint := by
  -- on the path: the parent's path is the same without its last action
  induction hw : f.path using List.reverseRecOn generalizing f with
  | nil =>
    rw [h.eq_root hf hw]
    rfl
  | append_singleton u b ih =>
    obtain ⟨p, g, a, hg, _, hstep, hpath⟩ := h.exists_parent hf (by simp [hw])
    obtain ⟨hu, hb⟩ := List.append_inj' (hw.symm.trans hpath) rfl
    have hba : b = a := by simpa using hb
    subst hba
    refine Composition.replay_snoc_eq_some_iff.mpr ⟨g.joint, ?_, hstep⟩
    exact ih (List.mem_of_getElem? hg) hu.symm

theorem mem_reachable (h : Recorded c found k done) {f : Found} (hf : f ∈ found) :
    f.joint ∈ c.reachable := ⟨f.path, h.replay_path hf⟩

theorem fits (h : Recorded c found k done) {f : Found} (hf : f ∈ found) : c.Fits f.joint :=
  Composition.fits_of_mem_reachable (h.mem_reachable hf)

/-! ## Paths are least -/

/-- Of the edges that leave a record, an earlier one is followed before a later one. -/
theorem followed_of_le (h : Recorded c found k done) {p : Nat} {g : Found} {a b : String}
    {next : JointState} (hg : found[p]? = some g) (ha : Followed k done p a)
    (hb : c.successor? g.joint b = some next) (hba : b ≤ a) : Followed k done p b := by
  rcases ha with hlt | ⟨heq, hmem⟩
  · exact Or.inl hlt
  · refine Or.inr ⟨heq, ?_⟩
    have hpermit := (Composition.successor?_eq_some_iff.mp hb).1
    have hfits := h.fits (List.mem_of_getElem? hg)
    have hbmem : b ∈ c.alphabet := Composition.mem_alphabet_of_permitted hfits hpermit
    obtain ⟨rest, hrest⟩ := h.initial
    have hsorted := c.alphabet_increasing
    rw [← hrest] at hbmem hsorted
    rcases List.mem_append.mp hbmem with hbdone | hbrest
    · exact hbdone
    · have hab := (List.pairwise_append.mp hsorted).2.2 a hmem b hbrest
      exact absurd hab (not_lt.mpr hba)

/--
**What lies no later than a record is recorded, and no later.**

If a word leads somewhere, and some recorded path is no earlier than the word, then the word leads to
a recorded joint state whose path is no later than the word.
-/
theorem exists_noLater (h : Recorded c found k done) (word : List String) :
    ∀ {joint : JointState} {f : Found}, c.replay c.initialJoint word = some joint → f ∈ found →
      NoLater word f.path → ∃ g ∈ found, g.joint = joint ∧ NoLater g.path word := by
  induction word using List.reverseRecOn with
  | nil =>
    intro joint f hr _ _
    exact ⟨_, h.root_mem, Option.some.inj hr, NoLater.refl _⟩
  | append_singleton u b ih =>
    intro joint f hr hf hle
    obtain ⟨mid, hmid, hstep⟩ := Composition.replay_snoc_eq_some_iff.mp hr
    have hne : f.path ≠ [] := by
      intro hnil
      have hlen := hle.length_le
      rw [hnil] at hlen
      simp at hlen
    obtain ⟨p, g, a, hg, hfollowed, _, hpath⟩ := h.exists_parent hf hne
    rw [hpath] at hle
    -- without its last action the word is no later than the parent's path
    have hu : NoLater u g.path ∧ (u = g.path → b ≤ a) := by
      rcases hle with heq | hlt
      · obtain ⟨hug, hba⟩ := List.append_inj' heq rfl
        have hba : b = a := by simpa using hba
        exact ⟨Or.inl hug, fun _ => le_of_eq hba⟩
      · rcases before_snoc_iff.mp hlt with hlt | ⟨hug, hba⟩
        · exact ⟨Or.inr hlt, fun hug => absurd (hug ▸ hlt) (not_before_self _)⟩
        · exact ⟨Or.inl hug, fun _ => le_of_lt hba⟩
    obtain ⟨m, hm, rfl, hmu⟩ := ih hmid (List.mem_of_getElem? hg) hu.1
    obtain ⟨q, hq⟩ := List.mem_iff_getElem?.mp hm
    -- so the record it leads to comes no later than the parent, and the edge has been followed
    have hedge : Followed k done q b := by
      rcases Nat.lt_or_eq_of_le (h.le_of_noLater hq hg (hmu.trans hu.1)) with hqp | hqp
      · rcases hfollowed with hpk | ⟨hpk, _⟩
        · exact Or.inl (Nat.lt_trans hqp hpk)
        · exact Or.inl (hpk ▸ hqp)
      · subst hqp
        have hmg : m = g := Option.some.inj (hq.symm.trans hg)
        subst hmg
        have hum : u = m.path := by
          rcases hu.1 with heq | hlt
          · exact heq
          · exact absurd hlt (noLater_iff.mp hmu)
        exact h.followed_of_le hq hfollowed hstep (hu.2 hum)
    obtain ⟨r, hr, hjoint, hle'⟩ := h.covered hq hedge hstep
    exact ⟨r, hr, hjoint, hle'.trans (hmu.snoc b)⟩

/-- **A recorded path is the least word to its joint state.** -/
theorem path_noLater (h : Recorded c found k done) {f : Found} (hf : f ∈ found) {word : List String}
    (hr : c.replay c.initialJoint word = some f.joint) : NoLater f.path word := by
  rw [noLater_iff]
  intro hlt
  obtain ⟨g, hg, hjoint, hle⟩ := h.exists_noLater word hr hf (Or.inr hlt)
  have hgf := h.eq_of_joint_eq hg hf hjoint
  subst hgf
  exact noLater_iff.mp hle hlt

/-! ## Nothing is missing once everything is expanded -/

theorem mem_of_expanded (h : Recorded c found k done) (hk : found.length ≤ k) {joint : JointState}
    (hj : joint ∈ c.reachable) : joint ∈ found.map Found.joint := by
  obtain ⟨word, hword⟩ := hj
  induction word using List.reverseRecOn generalizing joint with
  | nil =>
    have hroot : c.initialJoint = joint := Option.some.inj hword
    exact hroot ▸ List.mem_map_of_mem h.root_mem
  | append_singleton u b ih =>
    obtain ⟨mid, hmid, hstep⟩ := Composition.replay_snoc_eq_some_iff.mp hword
    obtain ⟨g, hg, rfl⟩ := List.mem_map.mp (ih hmid)
    obtain ⟨p, hp⟩ := List.mem_iff_getElem?.mp hg
    have hlt : p < k := Nat.lt_of_lt_of_le (List.getElem?_eq_some_iff.mp hp).1 hk
    obtain ⟨f, hf, hjoint, _⟩ := h.covered hp (Or.inl hlt) hstep
    exact hjoint ▸ List.mem_map_of_mem hf

end Recorded

end Lockstep
