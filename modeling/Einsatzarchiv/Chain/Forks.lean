/-
  File:      Einsatzarchiv/Chain/Forks.lean
  Subject:   What the forks of an analysed chain report.

  * `Rival`: two nodes with different entry hashes on one sequence or after one predecessor.
  * `IsSide`: the competitor that `competitors` forms for an entry hash of a group.
  * `forks_eq_nil_iff`: no fork is reported exactly when no two nodes are rivals.
  * `rival_of_mem_forks`, `exists_fork_of_rival`: under `EntryHashBinding` a fork names the
    smallest object hash of a rival's entry hash, and every rival's entry hash is named.
  * **`buildChain_order_free`**: the analysis depends on the set of the nodes only.
  * **`forks_complete_and_formed`**: which pairs are reported, each once, and under which form.
-/
import Einsatzarchiv.Chain.Build

namespace Einsatzarchiv.Chain

open Lib

variable {nodes group : List ChainNode} {node a b : ChainNode} {side : Competitor}

/-! ## 1. The sides of a group -/

/-- `side` holds an entry hash of `nodes` with the smallest object hash and sequence it has. -/
structure IsSide (nodes : List ChainNode) (side : Competitor) : Prop where
  object : ∃ node ∈ nodes, node.entryHash = side.entryHash ∧ node.objectHash = side.objectHash
  sequence : ∃ node ∈ nodes, node.entryHash = side.entryHash ∧ node.chainSequence = side.sequence
  least : ∀ node ∈ nodes, node.entryHash = side.entryHash →
    side.objectHash ≤ node.objectHash ∧ side.sequence ≤ node.chainSequence

theorem IsSide.append (h : IsSide nodes side) (hne : node.entryHash ≠ side.entryHash) :
    IsSide (nodes ++ [node]) side := by
  obtain ⟨m, hm, e⟩ := h.object
  obtain ⟨n, hn, e'⟩ := h.sequence
  exact ⟨⟨m, List.mem_append_left _ hm, e⟩, ⟨n, List.mem_append_left _ hn, e'⟩,
    forall_mem_concat h.least fun en => absurd en hne⟩

/-- The merged side after another node of the same entry hash. -/
theorem IsSide.merge (h : IsSide nodes side) (e : side.entryHash = node.entryHash) :
    IsSide (nodes ++ [node]) ⟨side.entryHash, min side.objectHash node.objectHash,
      min side.sequence node.chainSequence⟩ := by
  refine ⟨?_, ?_,
    forall_mem_concat (fun n hn en => ?_) fun _ => ⟨min_le_right _ _, min_le_right _ _⟩⟩
  · rcases le_total side.objectHash node.objectHash with hle | hle
    · obtain ⟨m, hm, e₁, e₂⟩ := h.object
      exact ⟨m, List.mem_append_left _ hm, e₁, by rw [e₂, min_eq_left hle]⟩
    · exact ⟨node, by simp, e.symm, (min_eq_right hle).symm⟩
  · rcases le_total side.sequence node.chainSequence with hle | hle
    · obtain ⟨m, hm, e₁, e₂⟩ := h.sequence
      exact ⟨m, List.mem_append_left _ hm, e₁, by rw [e₂, min_eq_left hle]⟩
    · exact ⟨node, by simp, e.symm, (min_eq_right hle).symm⟩
  · have := h.least n hn en
    exact ⟨(min_le_left _ _).trans this.1, (min_le_left _ _).trans this.2⟩

theorem isSide_new (h : ∀ m ∈ nodes, m.entryHash ≠ node.entryHash) :
    IsSide (nodes ++ [node]) ⟨node.entryHash, node.objectHash, node.chainSequence⟩ := by
  exact ⟨⟨node, by simp, rfl, rfl⟩, ⟨node, by simp, rfl, rfl⟩,
    forall_mem_concat (fun n hn en => absurd en (h n hn)) fun _ => ⟨le_rfl, le_rfl⟩⟩

/-- What the loop of `competitors` holds after the nodes so far. -/
structure SidesSpec (nodes : List ChainNode) (sides : List Competitor) : Prop where
  isSide : ∀ side ∈ sides, IsSide nodes side
  cover : ∀ node ∈ nodes, ∃ side ∈ sides, side.entryHash = node.entryHash
  decreasing : sides.Pairwise (fun s t => t.entryHash < s.entryHash)

/-- One more node of the group. -/
theorem sidesSpec_push {sides : List Competitor} (h : SidesSpec nodes sides)
    (hle : ∀ m ∈ nodes, m.entryHash ≤ node.entryHash) :
    SidesSpec (nodes ++ [node]) (pushCompetitor sides node) := by
  have hsl : ∀ s ∈ sides, s.entryHash ≤ node.entryHash := by
    intro s hs
    obtain ⟨m, hm, e, -⟩ := (h.isSide s hs).object
    exact e ▸ hle m hm
  cases sides with
  | nil =>
    have hni : nodes = [] := by
      refine List.eq_nil_iff_forall_not_mem.mpr fun m hm => ?_
      obtain ⟨s, hs, -⟩ := h.cover m hm
      simp at hs
    subst hni
    refine ⟨fun s hs => ?_, fun n hn => ⟨_, List.mem_singleton_self _, ?_⟩, by
      simp [pushCompetitor]⟩
    · rw [List.mem_singleton.mp hs]
      exact isSide_new (by simp)
    · rw [List.mem_singleton.mp hn]
  | cons last rest =>
    have hr : ∀ s ∈ rest, s.entryHash < last.entryHash :=
      fun s hs => List.rel_of_pairwise_cons h.decreasing hs
    by_cases e : last.entryHash = node.entryHash
    · -- the node joins the last side; the other sides lie strictly below
      rw [pushCompetitor, if_pos e]
      refine ⟨fun s hs => ?_, fun n hn => ?_, ?_⟩
      · rcases List.mem_cons.mp hs with rfl | hs
        · exact (h.isSide last List.mem_cons_self).merge e
        · exact (h.isSide s (List.mem_cons_of_mem _ hs)).append (e ▸ (hr s hs).ne')
      · rcases List.mem_append.mp hn with hn | hn
        · obtain ⟨s, hs, es⟩ := h.cover n hn
          rcases List.mem_cons.mp hs with rfl | hs
          · exact ⟨_, List.mem_cons_self, es⟩
          · exact ⟨s, List.mem_cons_of_mem _ hs, es⟩
        · rw [List.mem_singleton.mp hn]
          exact ⟨_, List.mem_cons_self, e⟩
      · exact List.pairwise_cons.mpr ⟨hr, h.decreasing.of_cons⟩
    · have hl : last.entryHash < node.entryHash := lt_of_le_of_ne (hsl last List.mem_cons_self) e
      have hlt : ∀ s ∈ last :: rest, s.entryHash < node.entryHash := by
        intro s hs
        rcases List.mem_cons.mp hs with rfl | hs
        · exact hl
        · exact (hr s hs).trans hl
      rw [pushCompetitor, if_neg e]
      refine ⟨fun s hs => ?_, fun n hn => ?_, ?_⟩
      · rcases List.mem_cons.mp hs with rfl | hs
        · refine isSide_new fun m hm em => ?_
          obtain ⟨s, hs, es⟩ := h.cover m hm
          exact absurd (es.trans em) (hlt s hs).ne
        · exact (h.isSide s hs).append (hlt s hs).ne'
      · rcases List.mem_append.mp hn with hn | hn
        · obtain ⟨s, hs, es⟩ := h.cover n hn
          exact ⟨s, List.mem_cons_of_mem _ hs, es⟩
        · rw [List.mem_singleton.mp hn]
          exact ⟨_, List.mem_cons_self, rfl⟩
      · exact List.pairwise_cons.mpr ⟨hlt, h.decreasing⟩

/-- The sides of a whole group. -/
theorem sidesSpec_competitors (hs : nodes.Pairwise (fun a b => a.entryHash ≤ b.entryHash)) :
    SidesSpec nodes (nodes.foldl pushCompetitor []) := by
  induction nodes using List.reverseRecOn with
  | nil => exact ⟨by simp, by simp, by simp⟩
  | append_singleton nodes node ih =>
    rw [List.foldl_append, List.foldl_cons, List.foldl_nil]
    have := List.pairwise_append.mp hs
    exact sidesSpec_push (ih this.1) fun m hm => this.2.2 m hm node (by simp)

section Competitors

variable (hs : group.Pairwise (fun a b => a.entryHash ≤ b.entryHash))

include hs

/-- Every competitor is a side. -/
theorem isSide_of_mem_competitors (h : side ∈ competitors group) : IsSide group side :=
  (sidesSpec_competitors hs).isSide side (List.mem_reverse.mp h)

/-- Every node has its side. -/
theorem exists_mem_competitors (h : node ∈ group) :
    ∃ side ∈ competitors group, side.entryHash = node.entryHash := by
  obtain ⟨side, hsi, e⟩ := (sidesSpec_competitors hs).cover node h
  exact ⟨side, List.mem_reverse.mpr hsi, e⟩

/-- No side twice. -/
theorem pairwise_competitors :
    (competitors group).Pairwise (fun s t => s.entryHash < t.entryHash) :=
  List.pairwise_reverse.mpr (sidesSpec_competitors hs).decreasing

end Competitors

/-! ## 2. The forks of a group -/

/-- The fork names `side`: its entry hash, its object hash, and it starts no later. -/
structure ChainFork.Names (fork : ChainFork) (side : Competitor) : Prop where
  entryHash : side.entryHash = fork.competingEntryHashes.1 ∨
    side.entryHash = fork.competingEntryHashes.2
  objectHash : side.objectHash = fork.competingObjectHashes.1 ∨
    side.objectHash = fork.competingObjectHashes.2
  sequence : fork.sequence ≤ side.sequence

theorem eq_or_eq_sortPair_left (x y : Nat) : x = (sortPair x y).1 ∨ x = (sortPair x y).2 := by
  simp only [sortPair]
  omega

theorem eq_or_eq_sortPair_right (x y : Nat) : y = (sortPair x y).1 ∨ y = (sortPair x y).2 := by
  simp only [sortPair]
  omega

/-- A pair has two members. -/
theorem eq_of_eq_sortPair {x y z : Nat} (h : z = (sortPair x y).1 ∨ z = (sortPair x y).2) :
    z = x ∨ z = y := by
  simp only [sortPair] at h
  omega

section

variable (cid : ChainId) (left right : Competitor) (form : ChainForkForm)

theorem forkOf_names_left : (forkOf cid left right form).Names left :=
  ⟨eq_or_eq_sortPair_left _ _, eq_or_eq_sortPair_left _ _, min_le_left _ _⟩

theorem forkOf_names_right : (forkOf cid left right form).Names right :=
  ⟨eq_or_eq_sortPair_right _ _, eq_or_eq_sortPair_right _ _, min_le_right _ _⟩

end

section GroupForks

variable {cid : ChainId} {form : ChainForkForm} {fork : ChainFork}
variable (hs : group.Pairwise (fun a b => a.entryHash ≤ b.entryHash))

include hs

/-- Every fork of a group stands between two of its sides. -/
theorem exists_sides_of_mem_groupForks (h : fork ∈ groupForks cid form group) :
    ∃ left right, IsSide group left ∧ IsSide group right ∧ left.entryHash < right.entryHash ∧
      fork = forkOf cid left right form := by
  obtain ⟨⟨left, right⟩, hp, rfl⟩ := List.mem_map.mp h
  obtain ⟨hl, hr⟩ := mem_of_mem_windows2 hp
  exact ⟨left, right, isSide_of_mem_competitors hs hl, isSide_of_mem_competitors hs hr,
    rel_of_mem_windows2 (pairwise_competitors hs) hp, rfl⟩

variable (cid form) in
/-- Two entry hashes in a group put each of them into a fork. -/
theorem exists_mem_groupForks (ha : a ∈ group) (hb : b ∈ group) (hne : a.entryHash ≠ b.entryHash) :
    ∃ fork ∈ groupForks cid form group, ∃ side, IsSide group side ∧
      side.entryHash = a.entryHash ∧ fork.Names side := by
  obtain ⟨s, hsm, es⟩ := exists_mem_competitors hs ha
  obtain ⟨t, htm, et⟩ := exists_mem_competitors hs hb
  have hst : s ≠ t := fun e => hne (by rw [← es, e, et])
  obtain ⟨⟨_, _⟩, hp, h⟩ := exists_window_of_ne hsm htm hst
  refine ⟨_, List.mem_map.mpr ⟨_, hp, rfl⟩, s, isSide_of_mem_competitors hs hsm, es, ?_⟩
  rcases h with rfl | rfl
  · exact forkOf_names_left _ _ _ _
  · exact forkOf_names_right _ _ _ _

end GroupForks

/-! ## 3. Sorted nodes and their groups -/

/-- Under equal first keys the second ones decide. -/
theorem le_of_toLex_le {κ μ ρ : Type*} [LinearOrder κ] [LinearOrder μ] [LinearOrder ρ] {k k' : κ}
    {x x' : μ} {r r' : ρ} (h : toLex (k, toLex (x, r)) ≤ toLex (k', toLex (x', r'))) (e : k = k') :
    x ≤ x' := by
  rcases Prod.Lex.toLex_le_toLex.mp h with h | ⟨-, h⟩
  · exact absurd e h.ne
  · rcases Prod.Lex.toLex_le_toLex.mp h with h | h
    · exact le_of_lt h
    · exact h.1.le

@[simp] theorem mem_sortNodes : node ∈ sortNodes nodes ↔ node ∈ nodes := by
  simp [sortNodes]

section

variable (nodes : List ChainNode)

theorem pairwise_sortNodes : (sortNodes nodes).Pairwise (fun a b => chainKey a ≤ chainKey b) :=
  (pairwise_sortByKey chainKey nodes).sublist (List.destutter_sublist _ _)

theorem chainSequence_le_of_chainKey (h : chainKey a ≤ chainKey b) :
    a.chainSequence ≤ b.chainSequence := by
  rcases Prod.Lex.toLex_le_toLex.mp h with h | h
  · exact le_of_lt h
  · exact h.1.le

theorem pairwise_chainSequence :
    (sortNodes nodes).Pairwise (fun a b => a.chainSequence ≤ b.chainSequence) :=
  (pairwise_sortNodes nodes).imp chainSequence_le_of_chainKey

/-- The groups of one sequence, as `build_chain` forms them. -/
def sequenceGroups : List (List ChainNode) :=
  groupsBy (·.chainSequence) (sortNodes nodes)

end

/-- Every node is in a group. -/
theorem exists_mem_sequenceGroups (h : node ∈ nodes) :
    ∃ group ∈ sequenceGroups nodes, node ∈ group :=
  exists_mem_groupsBy _ (mem_sortNodes.mpr h)

section

variable (hg : group ∈ sequenceGroups nodes)
include hg

theorem mem_of_mem_sequenceGroups (h : node ∈ group) : node ∈ nodes :=
  mem_sortNodes.mp (mem_of_mem_groupsBy hg h)

/-- A group has all nodes of its sequence. -/
theorem mem_sequenceGroups_of_eq (ha : a ∈ group)
    (hb : b ∈ nodes) (e : b.chainSequence = a.chainSequence) : b ∈ group :=
  mem_groupsBy_of_key_eq (pairwise_chainSequence nodes) hg ha (mem_sortNodes.mpr hb) e

theorem chainSequence_eq_of_mem_group (ha : a ∈ group)
    (hb : b ∈ group) : a.chainSequence = b.chainSequence :=
  key_eq_of_mem_groupsBy hg ha hb

end

/-- The groups of one predecessor, as `collect_forks` forms them. -/
def predecessorGroups (nodes : List ChainNode) : List (List ChainNode) :=
  groupsBy predecessor (byPredecessor (sortNodes nodes))

@[simp] theorem mem_byPredecessor :
    node ∈ byPredecessor (sortNodes nodes) ↔ node ∈ nodes ∧ node.previousEntryHash.isSome := by
  simp [byPredecessor]

theorem pairwise_predecessor (sorted : List ChainNode) :
    (byPredecessor sorted).Pairwise (fun a b => predecessor a ≤ predecessor b) := by
  refine (pairwise_sortByKey predecessorKey _).imp fun {a b} h => ?_
  rcases Prod.Lex.toLex_le_toLex.mp h with h | h
  · exact le_of_lt h
  · exact h.1.le

/-! ## 4. The forks of an analysed chain -/

section Rivals

variable {chainId : ChainId} {fork : ChainFork}

/-- Two nodes that cannot both continue the chain: different entry hashes on one sequence or
after one predecessor. -/
structure Rival (a b : ChainNode) : Prop where
  entryHash_ne : a.entryHash ≠ b.entryHash
  shared : a.chainSequence = b.chainSequence ∨
    a.previousEntryHash = b.previousEntryHash ∧ a.previousEntryHash.isSome

/-- An entry hash stands for one signed position. -/
def EntryHashBinding (nodes : List ChainNode) : Prop :=
  ∀ a ∈ nodes, ∀ b ∈ nodes, a.entryHash = b.entryHash →
    a.chainSequence = b.chainSequence ∧ a.previousEntryHash = b.previousEntryHash

/-- What the nodes of a group have in common. -/
def Share : ChainForkForm → ChainNode → ChainNode → Prop
  | .sequenceCollision, a, b => a.chainSequence = b.chainSequence
  | .predecessorCollision, a, b =>
    a.previousEntryHash = b.previousEntryHash ∧ a.previousEntryHash.isSome

variable {form : ChainForkForm}

/-- Who shares a place or a predecessor is a rival. -/
theorem Share.rival (h : Share form a b) (hne : a.entryHash ≠ b.entryHash) : Rival a b := by
  cases form with
  | sequenceCollision => exact ⟨hne, .inl h⟩
  | predecessorCollision => exact ⟨hne, .inr h⟩

/-- The groups that `collect_forks` compares. -/
def collisionGroups (nodes : List ChainNode) : ChainForkForm → List (List ChainNode)
  | .sequenceCollision => sequenceGroups nodes
  | .predecessorCollision => predecessorGroups nodes

/-- The nodes that have one sequence or one predecessor, as `collect_forks` compares them. -/
structure IsCollisionGroup (nodes : List ChainNode) (form : ChainForkForm)
    (group : List ChainNode) : Prop where
  sorted : group.Pairwise (fun a b => a.entryHash ≤ b.entryHash)
  subset : ∀ a ∈ group, a ∈ nodes
  mem_iff : ∀ a ∈ group, ∀ b ∈ nodes, b ∈ group ↔ Share form a b

/-- The groups that are built are those of the form. -/
theorem isCollisionGroup (hg : group ∈ collisionGroups nodes form) :
    IsCollisionGroup nodes form group := by
  cases form with
  | sequenceCollision =>
    refine ⟨?_, fun _ => mem_of_mem_sequenceGroups hg, fun a ha b hb =>
      ⟨chainSequence_eq_of_mem_group hg ha, fun e => mem_sequenceGroups_of_eq hg ha hb e.symm⟩⟩
    exact (pairwise_of_mem_groupsBy (pairwise_sortNodes nodes) hg).imp_of_mem fun ha hb h =>
      le_of_toLex_le h (chainSequence_eq_of_mem_group hg ha hb)
  | predecessorCollision =>
    have hm : ∀ {a}, a ∈ group → a ∈ nodes ∧ a.previousEntryHash.isSome := fun h =>
      mem_byPredecessor.mp (mem_of_mem_groupsBy hg h)
    have hk : ∀ {a b}, a ∈ group → b ∈ group → predecessor a = predecessor b :=
      key_eq_of_mem_groupsBy hg
    refine ⟨?_, fun _ h => (hm h).1, fun a ha b hb =>
      ⟨fun h => ⟨hk ha h, (hm ha).2⟩, fun ⟨e, hso⟩ => ?_⟩⟩
    · exact (pairwise_of_mem_groupsBy (pairwise_sortByKey predecessorKey _) hg).imp_of_mem
        fun ha hb h => le_of_toLex_le h (hk ha hb)
    · exact mem_groupsBy_of_key_eq (pairwise_predecessor _) hg ha
        (mem_byPredecessor.mpr ⟨hb, e ▸ hso⟩) (show predecessor b = predecessor a from e.symm)

theorem exists_collisionGroup (ha : a ∈ nodes) (h : Share form a b) :
    ∃ group ∈ collisionGroups nodes form, a ∈ group := by
  cases form with
  | sequenceCollision => exact exists_mem_sequenceGroups ha
  | predecessorCollision =>
    exact exists_mem_groupsBy predecessor (mem_byPredecessor.mpr ⟨ha, h.2⟩)

namespace IsCollisionGroup

variable (hg : IsCollisionGroup nodes form group)
include hg

theorem rival (ha : a ∈ group) (hb : b ∈ group) (hne : a.entryHash ≠ b.entryHash) : Rival a b :=
  ((hg.mem_iff a ha b (hg.subset b hb)).mp hb).rival hne

/-- A group holds every node of an entry hash. -/
theorem mem_of_entryHash (hB : EntryHashBinding nodes) (ha : a ∈ group) (hb : b ∈ nodes)
    (e : a.entryHash = b.entryHash) : b ∈ group := by
  obtain ⟨e₁, e₂⟩ := hB a (hg.subset a ha) b hb e
  have hse := (hg.mem_iff a ha a (hg.subset a ha)).mp ha
  rw [hg.mem_iff a ha b hb]
  cases form with
  | sequenceCollision => exact e₁
  | predecessorCollision => exact ⟨e₂, hse.2⟩

end IsCollisionGroup

/-- A fork between nodes of one group. -/
def IsFork (chainId : ChainId) (nodes : List ChainNode) (form : ChainForkForm)
    (fork : ChainFork) : Prop :=
  ∃ group ∈ collisionGroups nodes form, fork ∈ groupForks chainId form group

/-- A predecessor fork is left out when a sequence fork names the same pair. -/
theorem mem_forks : fork ∈ (analyse chainId nodes).forks ↔
    IsFork chainId nodes .sequenceCollision fork ∨ IsFork chainId nodes .predecessorCollision fork ∧
        ∀ f, IsFork chainId nodes .sequenceCollision f →
          f.competingEntryHashes ≠ fork.competingEntryHashes := by
  simp only [analyse, collectForks, mem_sortByKey, List.mem_append, List.mem_flatMap,
    List.mem_filter, decide_eq_true_eq, List.mem_map, IsFork, collisionGroups, sequenceGroups,
    predecessorGroups]
  grind

/-- Whatever the form of a fork, it stands between two sides of a group of rivals. -/
theorem exists_sides_of_mem_forks (h : fork ∈ (analyse chainId nodes).forks) :
    ∃ form group, IsCollisionGroup nodes form group ∧ ∃ left right, IsSide group left ∧
      IsSide group right ∧ left.entryHash < right.entryHash ∧
        fork = forkOf chainId left right form := by
  have hf : ∃ form, IsFork chainId nodes form fork :=
    (mem_forks.mp h).elim (⟨_, ·⟩) fun h => ⟨_, h.1⟩
  obtain ⟨form, group, hg, h⟩ := hf
  exact ⟨form, group, isCollisionGroup hg,
    exists_sides_of_mem_groupForks (isCollisionGroup hg).sorted h⟩

/-- **Every object hash a fork names belongs to a rival**, and the fork starts no later than
that rival. -/
theorem rival_of_mem_forks {oh : ObjectHash} (h : fork ∈ (analyse chainId nodes).forks)
    (ho : oh = fork.competingObjectHashes.1 ∨ oh = fork.competingObjectHashes.2) :
    ∃ a ∈ nodes, ∃ b ∈ nodes, Rival a b ∧ a.objectHash = oh ∧ fork.sequence ≤ a.chainSequence := by
  obtain ⟨_, _, hg, _, _, hl, hr, hlt, rfl⟩ := exists_sides_of_mem_forks h
  obtain ⟨a, ha, ea, oa⟩ := hl.object
  obtain ⟨b, hb, eb, ob⟩ := hr.object
  have hne : a.entryHash ≠ b.entryHash := by
    rw [ea, eb]
    exact hlt.ne
  rcases eq_of_eq_sortPair ho with rfl | rfl
  · exact ⟨a, hg.subset a ha, b, hg.subset b hb, hg.rival ha hb hne, oa,
      (min_le_left _ _).trans (hl.least a ha ea).2⟩
  · exact ⟨b, hg.subset b hb, a, hg.subset a ha, hg.rival hb ha hne.symm, ob,
      (min_le_right _ _).trans (hr.least b hb eb).2⟩

section

variable (cid : ChainId) (ha : a ∈ nodes) (hb : b ∈ nodes)
include ha hb

/-- Two entries that share are reported. -/
theorem exists_fork_of_share (form : ChainForkForm) (hne : a.entryHash ≠ b.entryHash)
    (h : Share form a b) :
    ∃ fork, IsFork cid nodes form fork ∧ ∃ group, IsCollisionGroup nodes form group ∧
      a ∈ group ∧ ∃ side, IsSide group side ∧ side.entryHash = a.entryHash ∧ fork.Names side := by
  obtain ⟨group, hg, hag⟩ := exists_collisionGroup ha h
  have hgr := isCollisionGroup hg
  obtain ⟨fork, hf, side, hs⟩ := exists_mem_groupForks cid form hgr.sorted hag
    ((hgr.mem_iff a hag b hb).mpr h) hne
  exact ⟨fork, ⟨group, hg, hf⟩, group, hgr, hag, side, hs⟩

/-- The entry hash of a rival is named by a fork. -/
theorem exists_mem_forks_of_rival (hr : Rival a b) :
    ∃ fork ∈ (analyse cid nodes).forks, ∃ form group, IsCollisionGroup nodes form group ∧
      ∃ side, IsSide group side ∧ side.entryHash = a.entryHash ∧ fork.Names side := by
  rcases hr.shared with e | hsh
  · obtain ⟨fork, hf, group, hg, -, hsi⟩ :=
      exists_fork_of_share cid ha hb .sequenceCollision hr.entryHash_ne e
    exact ⟨fork, mem_forks.mpr (.inl hf), _, group, hg, hsi⟩
  · obtain ⟨fork, hf, group, hg, -, side, hs, es, hn⟩ :=
      exists_fork_of_share cid ha hb .predecessorCollision hr.entryHash_ne hsh
    by_cases hsk : ∀ f, IsFork cid nodes .sequenceCollision f →
        f.competingEntryHashes ≠ fork.competingEntryHashes
    · exact ⟨fork, mem_forks.mpr (.inr ⟨hf, hsk⟩), _, group, hg, side, hs, es, hn⟩
    · -- the same pair already stands as a sequence fork, and that one names the entry hash
      push Not at hsk
      obtain ⟨f, hf', e'⟩ := hsk
      have hm : f ∈ (analyse cid nodes).forks := mem_forks.mpr (.inl hf')
      obtain ⟨form, group', hg', left, right, hl, hr', -, rfl⟩ := exists_sides_of_mem_forks hm
      have hsi : side.entryHash = left.entryHash ∨ side.entryHash = right.entryHash := by
        have := hn.entryHash
        rw [← e'] at this
        exact eq_of_eq_sortPair this
      rcases hsi with h | h
      · exact ⟨_, hm, form, group', hg', left, hl, h.symm.trans es, forkOf_names_left _ _ _ _⟩
      · exact ⟨_, hm, form, group', hg', right, hr', h.symm.trans es, forkOf_names_right _ _ _ _⟩

end

/-- **No fork is reported exactly when no two nodes are rivals.** -/
theorem forks_eq_nil_iff :
    (analyse chainId nodes).forks = [] ↔ ∀ a ∈ nodes, ∀ b ∈ nodes, ¬ Rival a b := by
  constructor
  · intro hn a ha b hb hr
    obtain ⟨_, hfo, -⟩ := exists_mem_forks_of_rival chainId ha hb hr
    simp [hn] at hfo
  · intro h
    refine List.eq_nil_iff_forall_not_mem.mpr fun f hf => ?_
    obtain ⟨a, ha, b, hb, hr, -⟩ := rival_of_mem_forks hf (Or.inl rfl)
    exact h a ha b hb hr

/-- Where the hash binds the place, a side of the group is one of the chain. -/
theorem IsSide.of_binding (hB : EntryHashBinding nodes) (hg : IsCollisionGroup nodes form group)
    (h : IsSide group side) : IsSide nodes side := by
  obtain ⟨a, ha, ea, oa⟩ := h.object
  obtain ⟨b, hb, eb⟩ := h.sequence
  refine ⟨⟨a, hg.subset a ha, ea, oa⟩, ⟨b, hg.subset b hb, eb⟩, fun n hn en => ?_⟩
  exact h.least n (hg.mem_of_entryHash hB ha hn (ea.trans en.symm)) en

/-- **Every rival's entry hash is named by a fork**, with the smallest object hash it has. -/
theorem exists_fork_of_rival (chainId : ChainId) (hB : EntryHashBinding nodes) (ha : a ∈ nodes)
    (hb : b ∈ nodes) (hr : Rival a b) :
    ∃ fork ∈ (analyse chainId nodes).forks, ∃ side, IsSide nodes side ∧
      side.entryHash = a.entryHash ∧ fork.Names side := by
  obtain ⟨fork, hf, _, _, hg, side, hsi, hn⟩ := exists_mem_forks_of_rival chainId ha hb hr
  exact ⟨fork, hf, side, hsi.of_binding hB hg, hn⟩

end Rivals

/-! ## 5. The order of the nodes -/

section Order

variable {others : List ChainNode}

/-- Sequence, entry hash and object hash determine a node. -/
def KeysDetermine (nodes : List ChainNode) : Prop :=
  ∀ a ∈ nodes, ∀ b ∈ nodes, a.chainSequence = b.chainSequence → a.entryHash = b.entryHash →
    a.objectHash = b.objectHash → a = b

/-- **The order of the nodes.**  Where sequence, entry hash and object hash determine a node, the
analysis depends on the set of the nodes only, whatever their order and however often one of them is
given; an error is that of the first node that is refused, in the order given. -/
theorem buildChain_order_free {chainId : ChainId} (h : KeysDetermine nodes)
    (hsame : ∀ node, node ∈ others ↔ node ∈ nodes) (hnodes : nodes.length ≤ maxChainNodesV1)
    (hothers : others.length ≤ maxChainNodesV1) :
    (∀ chain, buildChain chainId others = .ok chain ↔ buildChain chainId nodes = .ok chain)
      ∧ (∀ error, buildChain chainId nodes = .error error ↔ FirstRefused chainId nodes error)
      ∧ ∀ error, buildChain chainId others = .error error ↔ FirstRefused chainId others error := by
  have hso : sortNodes others = sortNodes nodes := by
    refine destutter_sortByKey_congr (fun a ha b hb hk => ?_) hsame
    simp only [chainKey, toLex_inj, Prod.mk.injEq] at hk
    exact h a ha b hb hk.1 hk.2.1 hk.2.2
  refine ⟨fun chain => ?_, fun error => ?_, fun error => ?_⟩
  · simp only [buildChain_eq_ok, hnodes, hothers, hsame, analyse, hso]
  · simp only [buildChain_eq_error, hnodes, hnodes.not_gt, false_and, true_and, false_or]
  · simp only [buildChain_eq_error, hothers, hothers.not_gt, false_and, true_and, false_or]

/-- A node of chain 7 with the given predecessor. -/
def exampleNode (sequence : Fin 10) (previous : Option EntryHash) : ChainNode where
  chainId := 7
  chainSequence := sequence
  previousEntryHash := previous
  entryHash := sequence + 1
  objectHash := sequence
  writerCertificateHash := 0
  writerTransitionEventHash := none
  kind := .entryPackage
  chainSequence_le := sequence.isLt.le.trans (by decide)

theorem buildChain_order_free_reversed :
    ∃ chain, buildChain 7 [exampleNode 1 (some 1), exampleNode 0 none, exampleNode 0 none]
        = .ok chain ∧
      buildChain 7 [exampleNode 0 none, exampleNode 1 (some 1)] = .ok chain := by
  have hok : buildChain 7 [exampleNode 0 none, exampleNode 1 (some 1)]
      = .ok (analyse 7 [exampleNode 0 none, exampleNode 1 (some 1)]) := rfl
  refine ⟨_, ((buildChain_order_free ?_ ?_ (by decide) (by decide)).1 _).mpr hok, hok⟩
  · unfold KeysDetermine
    decide
  · intro _
    simp only [List.mem_cons, List.not_mem_nil, or_false]
    tauto

/-- Which of two errors is reported depends on the order. -/
theorem buildChain_errors_ordered : ∃ a b, KeysDetermine [a, b] ∧
    buildChain 7 [a, b] = .error .genesisBinding ∧
      buildChain 7 [b, a] = .error .foreignChainId := by
  refine ⟨exampleNode 0 (some 1), { exampleNode 1 (some 1) with chainId := 8 }, ?_, rfl, rfl⟩
  unfold KeysDetermine
  decide

end Order

/-! ## 6. Each pair once, and under which form -/

section Pairs

variable {chainId : ChainId} {form : ChainForkForm} {x y : EntryHash}

section

variable (hs : group.Pairwise (fun a b => a.entryHash ≤ b.entryHash))
include hs

theorem mem_competitors_entryHash :
    x ∈ (competitors group).map (·.entryHash) ↔ ∃ a ∈ group, a.entryHash = x := by
  rw [List.mem_map]
  constructor
  · rintro ⟨_, hsi, rfl⟩
    obtain ⟨a, ha, e, -⟩ := (isSide_of_mem_competitors hs hsi).object
    exact ⟨a, ha, e⟩
  · rintro ⟨a, ha, rfl⟩
    exact exists_mem_competitors hs ha

/-- A group reports the pairs of neighbouring entry hashes. -/
theorem map_groupForks : (groupForks chainId form group).map (·.competingEntryHashes) =
    windows2 ((competitors group).map (·.entryHash)) := by
  rw [windows2_map, groupForks, List.map_map]
  refine List.map_congr_left fun p hp => ?_
  have hlt := rel_of_mem_windows2 (pairwise_competitors hs) hp
  simp [forkOf, sortPair, Prod.map, hlt.le]

/-- A group reports each pair once, in order. -/
theorem mem_map_groupForks : (x, y) ∈ (groupForks chainId form group).map (·.competingEntryHashes) ↔
    (∃ a ∈ group, a.entryHash = x) ∧ (∃ b ∈ group, b.entryHash = y) ∧ x < y ∧
      ∀ c ∈ group, c.entryHash ≤ x ∨ y ≤ c.entryHash := by
  have hlt := List.pairwise_map.mpr (pairwise_competitors hs)
  rw [map_groupForks hs, mem_windows2_iff_lt (f := id) hlt]
  simp [mem_competitors_entryHash hs]

end

theorem pairwise_collisionGroups : (collisionGroups nodes form).Pairwise fun g h =>
    ∀ a ∈ g, ∀ b ∈ h, ¬ Share form a b := by
  cases form with
  | sequenceCollision =>
    exact (pairwise_groupsBy (pairwise_chainSequence nodes)).imp fun h a ha b hb =>
      (h a ha b hb).ne
  | predecessorCollision =>
    exact (pairwise_groupsBy (pairwise_predecessor _)).imp fun h a ha b hb e =>
      (h a ha b hb).ne e.1

variable (hB : EntryHashBinding nodes)
include hB

variable (chainId form) in
/-- Groups that share no entry hash report each pair once. -/
theorem nodup_pairs : (((collisionGroups nodes form).flatMap (groupForks chainId form)).map
    (·.competingEntryHashes)).Nodup := by
  rw [List.map_flatMap, List.nodup_flatMap]
  constructor
  · intro g hg
    have hs := (isCollisionGroup hg).sorted
    have hlt := List.pairwise_map.mpr (pairwise_competitors hs)
    exact map_groupForks hs ▸ nodup_windows2 (hlt.imp fun h => h.ne)
  · refine pairwise_collisionGroups.imp_of_mem fun {g h} hg hh hno ⟨x, y⟩ hp hpair' => ?_
    have hgr := isCollisionGroup hg
    obtain ⟨⟨a, ha, rfl⟩, -⟩ := (mem_map_groupForks hgr.sorted).mp hp
    obtain ⟨⟨b, hb, e⟩, -⟩ := (mem_map_groupForks (isCollisionGroup hh).sorted).mp hpair'
    have hn := (isCollisionGroup hh).subset b hb
    exact hno a ha b hb ((hgr.mem_iff a ha b hn).mp (hgr.mem_of_entryHash hB ha hn e.symm))

/-- No pair is reported twice. -/
theorem nodup_forks : ((analyse chainId nodes).forks.map (·.competingEntryHashes)).Nodup := by
  dsimp only [analyse, collectForks]
  rw [((perm_sortByKey _ _).map _).nodup_iff, List.map_append, List.nodup_append']
  refine ⟨nodup_pairs chainId .sequenceCollision hB, ?_, fun pair h₁ h₂ => ?_⟩
  · rw [← List.filter_flatMap]
    exact (nodup_pairs chainId .predecessorCollision hB).sublist (List.filter_sublist.map _)
  · obtain ⟨_, hf, rfl⟩ := List.mem_map.mp h₂
    obtain ⟨g, -, hf⟩ := List.mem_flatMap.mp hf
    exact of_decide_eq_true (List.mem_filter.mp hf).2 h₁

/-- The entry hashes follow each other among the nodes that share with `a`. -/
def Adjacent (nodes : List ChainNode) (form : ChainForkForm) (a b : ChainNode) : Prop :=
  Share form a b ∧ a.entryHash < b.entryHash ∧
    ∀ c ∈ nodes, Share form a c → c.entryHash ≤ a.entryHash ∨ b.entryHash ≤ c.entryHash

/-- A pair is reported when the two are adjacent. -/
theorem exists_fork_iff (ha : a ∈ nodes) (hb : b ∈ nodes) :
    (∃ fork, IsFork chainId nodes form fork ∧
      fork.competingEntryHashes = (a.entryHash, b.entryHash)) ↔ Adjacent nodes form a b := by
  constructor
  · rintro ⟨fork, ⟨g, hg, hf⟩, hp⟩
    have hgr := isCollisionGroup hg
    obtain ⟨⟨_, ha', ea⟩, ⟨_, hb', eb⟩, hlt, hn⟩ :=
      (mem_map_groupForks hgr.sorted).mp (List.mem_map.mpr ⟨fork, hf, hp⟩)
    have hag := hgr.mem_of_entryHash hB ha' ha ea
    have hsh := fun c hc => hgr.mem_iff a hag c hc
    exact ⟨(hsh b hb).mp (hgr.mem_of_entryHash hB hb' hb eb), hlt, fun c hc h =>
      hn c ((hsh c hc).mpr h)⟩
  · rintro ⟨hsh, hlt, hn⟩
    obtain ⟨g, hg, hag⟩ := exists_collisionGroup ha hsh
    have hgr := isCollisionGroup hg
    have hm : _ ∈ (groupForks chainId form g).map _ := (mem_map_groupForks hgr.sorted).mpr
      ⟨⟨a, hag, rfl⟩, ⟨b, (hgr.mem_iff a hag b hb).mpr hsh, rfl⟩, hlt, fun c hc =>
        hn c (hgr.subset c hc) ((hgr.mem_iff a hag c (hgr.subset c hc)).mp hc)⟩
    obtain ⟨fork, hf, hp⟩ := List.mem_map.mp hm
    exact ⟨fork, ⟨g, hg, hf⟩, hp⟩

omit hB

/-- **What the forks of a chain report.**  There are some exactly when two nodes collide, each
entry hash of a collision is named, and no pair is reported twice.  A pair on one sequence is
reported as a collision of the sequence exactly when no third entry of the sequence separates
two that follow each other after one predecessor. -/
theorem forks_complete_and_formed {chain : VerifiedChain}
    (h : buildChain chainId nodes = .ok chain) (hB : EntryHashBinding nodes) :
    (chain.forks ≠ [] ↔ ∃ a ∈ nodes, ∃ b ∈ nodes, Rival a b) ∧
    (∀ a ∈ nodes, ∀ b ∈ nodes, Rival a b → ∃ fork ∈ chain.forks,
      a.entryHash = fork.competingEntryHashes.1 ∨ a.entryHash = fork.competingEntryHashes.2) ∧
    (∀ fork ∈ chain.forks, fork.competingEntryHashes.1 < fork.competingEntryHashes.2) ∧
    (chain.forks.map (·.competingEntryHashes)).Nodup ∧
    ((∀ fork ∈ chain.forks, ∀ a ∈ nodes, ∀ b ∈ nodes,
        fork.competingEntryHashes = (a.entryHash, b.entryHash) →
        a.chainSequence = b.chainSequence → fork.form = .sequenceCollision) ↔
      ∀ a ∈ nodes, ∀ b ∈ nodes, a.chainSequence = b.chainSequence →
        Adjacent nodes .predecessorCollision a b → Adjacent nodes .sequenceCollision a b) := by
  obtain ⟨-, -, rfl⟩ := buildChain_eq_ok.mp h
  refine ⟨?_, fun a ha b hb hr => ?_, fun fork hfo => ?_, nodup_forks hB, ?_, ?_⟩
  · rw [Ne, forks_eq_nil_iff]
    push Not
    rfl
  · obtain ⟨fork, hfo, _, -, e, hn⟩ := exists_fork_of_rival chainId hB ha hb hr
    exact ⟨fork, hfo, e ▸ hn.entryHash⟩
  · obtain ⟨-, -, -, _, _, -, -, hlt, rfl⟩ := exists_sides_of_mem_forks hfo
    simpa [forkOf, sortPair] using hlt.ne'
  · intro hfr a ha b hb e had
    obtain ⟨fork, hfo, hp⟩ := (exists_fork_iff hB ha hb).mpr had
    by_contra hne
    rw [← exists_fork_iff hB ha hb] at hne
    have hm : fork ∈ (analyse chainId nodes).forks :=
      mem_forks.mpr (.inr ⟨hfo, fun f hf e => hne ⟨f, hf, e.trans hp⟩⟩)
    obtain ⟨group, -, hfo⟩ := hfo
    obtain ⟨p, -, rfl⟩ := List.mem_map.mp hfo
    cases hfr _ hm a ha b hb hp e
  · intro hag fork hfo a ha b hb hp e
    rcases mem_forks.mp hfo with ⟨group, -, hfo⟩ | ⟨hfo, hsk⟩
    · obtain ⟨p, -, rfl⟩ := List.mem_map.mp hfo
      rfl
    · have had := (exists_fork_iff hB ha hb).mp ⟨fork, hfo, hp⟩
      obtain ⟨f, hf, hpair'⟩ := (exists_fork_iff hB ha hb).mpr (hag a ha b hb e had)
      exact absurd (hpair'.trans hp.symm) (hsk f hf)

/-- Entries 3, 4 and 5 of one sequence; the outer ones name one predecessor, the middle one names
another. -/
def separatedNodes : List ChainNode :=
  [{ exampleNode 1 (some 1) with entryHash := 3 }, { exampleNode 1 (some 2) with entryHash := 4 },
    { exampleNode 1 (some 1) with entryHash := 5 }]

theorem forks_complete_and_formed_pair :
    ∃ chain, buildChain 7 (separatedNodes.take 2) = .ok chain ∧ chain.forks ≠ [] := by
  have hok : buildChain 7 (separatedNodes.take 2) = .ok (analyse 7 (separatedNodes.take 2)) := rfl
  refine ⟨_, hok, (forks_complete_and_formed hok (by unfold EntryHashBinding; decide)).1.mpr
    ⟨_, List.mem_cons_self, _, List.mem_cons_of_mem _ List.mem_cons_self, by decide, .inl rfl⟩⟩

/-- The outer pair is on one sequence and is reported as a collision of the predecessor. -/
theorem forks_misnamed : ∃ chain, buildChain 7 separatedNodes = .ok chain ∧
    EntryHashBinding separatedNodes ∧ ∃ fork ∈ chain.forks, ∃ a ∈ separatedNodes,
      ∃ b ∈ separatedNodes, fork.competingEntryHashes = (a.entryHash, b.entryHash) ∧
        a.chainSequence = b.chainSequence ∧ fork.form = .predecessorCollision := by
  have hf : (analyse 7 separatedNodes).forks[1]? =
      some ⟨7, 1, (3, 5), (1, 1), .predecessorCollision⟩ := rfl
  exact ⟨_, rfl, by unfold EntryHashBinding; decide, _, List.mem_of_getElem? hf,
    { exampleNode 1 (some 1) with entryHash := 3 }, by simp [separatedNodes],
    { exampleNode 1 (some 1) with entryHash := 5 }, by simp [separatedNodes], rfl, rfl, rfl⟩

end Pairs

end Einsatzarchiv.Chain
