/-
  File:      Einsatzarchiv/Chain/Prefix.lean
  Subject:   Breaks, gaps and the verified prefix of an analysed chain.

  * `Broken`: a node whose predecessor hash no node directly below carries;
    `broken_of_mem_breaks`, `exists_break_of_broken`: the breaks are exactly these.
  * `gaps_exact`: the gaps are the unoccupied sequences below the highest node, as intervals.
  * `verifiedHead_spec`: the verified head is a node before every fork and break.
  * `complete_of_clean`: without forks, breaks and gaps the chain is complete.
  * `VerifiedThrough`, `verifiedHead_greatest`: what the verified head is.
  * `Anchored`, `anchored_of_verifiedHead`: the verified prefix of a chain with a genesis is linked
    down to it.
-/
import Einsatzarchiv.Chain.Forks

namespace Einsatzarchiv.Chain

open Lib

variable {nodes group : List ChainNode} {node a b : ChainNode} {chainId : ChainId} {br : ChainBreak}

/-! ## 1. Breaks -/

/-- Nodes stand directly below `node`, and none of them carries the entry hash it names. -/
structure Broken (nodes : List ChainNode) (node : ChainNode) : Prop where
  below : ∃ c ∈ nodes, c.chainSequence + 1 = node.chainSequence
  named : node.previousEntryHash.isSome
  unmatched : ∀ c ∈ nodes, c.chainSequence + 1 = node.chainSequence →
    node.previousEntryHash ≠ some c.entryHash

theorem breakOf_eq_some {preceding : List ChainNode} :
    breakOf preceding node = some br ↔ ∃ first rest actual, preceding = first :: rest ∧
      node.previousEntryHash = some actual ∧ (∀ c ∈ preceding, c.entryHash ≠ actual) ∧
      br = ⟨node.chainSequence, first.entryHash, actual, node.objectHash⟩ := by
  unfold breakOf
  cases preceding with
  | nil => simp
  | cons first rest =>
    cases node.previousEntryHash with
    | none => simp
    | some actual =>
      by_cases h : (first :: rest).any (fun cand => cand.entryHash == actual)
      · have hc : ∃ c ∈ first :: rest, c.entryHash = actual := by simpa using h
        simp only [h, if_true, reduceCtorEq, false_iff, not_exists]
        rintro f r x ⟨-, hx, hne, -⟩
        obtain ⟨c, hc, e⟩ := hc
        exact hne c hc (e.trans (Option.some.inj hx))
      · have hc : ∀ c ∈ first :: rest, c.entryHash ≠ actual := by simpa using h
        simp only [h]
        constructor
        · intro hb
          exact ⟨first, rest, actual, rfl, rfl, hc, (Option.some.inj hb).symm⟩
        · rintro ⟨f, r, x, hp, hx, -, rfl⟩
          obtain ⟨rfl, rfl⟩ := List.cons.inj hp
          cases hx
          rfl

theorem successive_iff {g h : List ChainNode} (hg : g ∈ sequenceGroups nodes)
    (hh : h ∈ sequenceGroups nodes) (ha : a ∈ g) (hb : b ∈ h) :
    successive g h = true ↔ a.chainSequence + 1 = b.chainSequence := by
  obtain ⟨x, _, rfl⟩ := List.exists_cons_of_ne_nil (ne_nil_of_mem_groupsBy hg)
  obtain ⟨y, _, rfl⟩ := List.exists_cons_of_ne_nil (ne_nil_of_mem_groupsBy hh)
  have ex := chainSequence_eq_of_mem_group hg ha List.mem_cons_self
  have ey := chainSequence_eq_of_mem_group hh hb List.mem_cons_self
  have hy := y.chainSequence_le
  simp only [successive, beq_iff_eq, checkedAdd_eq_some]
  omega

/-- Every break belongs to a broken node. -/
theorem broken_of_mem_breaks (h : br ∈ (analyse chainId nodes).breaks) :
    ∃ node ∈ nodes, Broken nodes node ∧ br.objectHash = node.objectHash ∧
      br.sequence = node.chainSequence := by
  obtain ⟨⟨g, h'⟩, hp, hbr⟩ := List.mem_flatMap.mp h
  dsimp only at hbr
  obtain ⟨hg, hh⟩ := mem_of_mem_windows2 hp
  by_cases hs : successive g h'
  · rw [if_pos hs] at hbr
    obtain ⟨node, hn, hb⟩ := List.mem_filterMap.mp hbr
    obtain ⟨first, _, _, hco, hpr, hne, rfl⟩ := breakOf_eq_some.mp hb
    have hf : first ∈ g := hco ▸ List.mem_cons_self
    have hsu := (successive_iff hg hh hf hn).mp hs
    refine ⟨node, mem_of_mem_sequenceGroups hh hn, ⟨⟨first, mem_of_mem_sequenceGroups hg hf,
      hsu⟩, by simp [hpr], fun c hc e => ?_⟩, rfl, rfl⟩
    have hcg : c ∈ g := mem_sequenceGroups_of_eq hg hf hc (by omega)
    rw [hpr]
    exact fun e => hne c hcg (Option.some.inj e).symm
  · rw [if_neg hs] at hbr
    simp at hbr

/-- Every broken node is reported. -/
theorem exists_break_of_broken (chainId : ChainId) (hn : node ∈ nodes) (h : Broken nodes node) :
    ∃ br ∈ (analyse chainId nodes).breaks, br.objectHash = node.objectHash ∧
      br.sequence = node.chainSequence := by
  obtain ⟨c, hc, e⟩ := h.below
  obtain ⟨g, hg, hcg⟩ := exists_mem_sequenceGroups hc
  obtain ⟨k, hk, hnk⟩ := exists_mem_sequenceGroups hn
  have hw : (g, k) ∈ windows2 (sequenceGroups nodes) :=
    mem_windows2_groupsBy_succ (pairwise_chainSequence nodes) hg hk hcg hnk e.symm
  have hs := (successive_iff hg hk hcg hnk).mpr e
  obtain ⟨first, rest, rfl⟩ := List.exists_cons_of_ne_nil (ne_nil_of_mem_groupsBy hg)
  obtain ⟨actual, ha⟩ := Option.isSome_iff_exists.mp h.named
  have hb : breakOf (first :: rest) node =
      some ⟨node.chainSequence, first.entryHash, actual, node.objectHash⟩ := by
    refine breakOf_eq_some.mpr ⟨first, rest, actual, rfl, ha, fun d hd ed => ?_, rfl⟩
    refine h.unmatched d (mem_of_mem_sequenceGroups hg hd) ?_ (ha.trans (by rw [ed]))
    rw [← e, chainSequence_eq_of_mem_group hg hd hcg]
  refine ⟨⟨node.chainSequence, first.entryHash, actual, node.objectHash⟩,
    List.mem_flatMap.mpr ⟨_, hw, ?_⟩, rfl, rfl⟩
  rw [if_pos hs]
  exact List.mem_filterMap.mpr ⟨node, hnk, hb⟩

/-! ## 2. Gaps -/

/-- The sequence lies inside the interval. -/
def ChainGap.Covers (gap : ChainGap) (sequence : Nat) : Prop :=
  gap.fromSequence ≤ sequence ∧ sequence ≤ gap.throughSequence

variable {sorted : List ChainNode} {exp sequence : Nat} {groups : List (List ChainNode)}
  {head : ChainHead} {chain : VerifiedChain} {gap g h : ChainGap}

/-- The cursor after a node: below a later node it passes exactly what lies above this one.  At the
end of the range it stays where it is, and no later node lies above. -/
theorem cursor_spec {rest : List ChainNode} {next : Nat}
    (hs : (node :: rest).Pairwise (fun a b => a.chainSequence ≤ b.chainSequence))
    (h : (checkedAdd node.chainSequence 1).getD node.chainSequence = next) :
    ∀ r ∈ rest, node.chainSequence ≤ r.chainSequence ∧ next ≤ r.chainSequence + 1 ∧
      ∀ s < r.chainSequence, next ≤ s ↔ node.chainSequence < s := by
  intro r hr
  have hle := List.rel_of_pairwise_cons hs hr
  have hm := r.chainSequence_le
  unfold checkedAdd at h
  split at h
  · simp only [Option.getD_some] at h
    exact ⟨hle, by omega, fun s _ => by omega⟩
  · simp only [Option.getD_none] at h
    exact ⟨hle, by omega, fun s hlt => by omega⟩

section

variable (hs : sorted.Pairwise (fun a b => a.chainSequence ≤ b.chainSequence))
  (he : ∀ node ∈ sorted, exp ≤ node.chainSequence + 1)
include hs he

theorem covers_collectGaps_iff : (∃ gap ∈ collectGaps chainId exp sorted, gap.Covers sequence) ↔
      exp ≤ sequence ∧ (∃ node ∈ sorted, sequence < node.chainSequence) ∧
        ∀ node ∈ sorted, node.chainSequence ≠ sequence := by
  induction sorted generalizing exp with
  | nil => simp [collectGaps]
  | cons node rest ih =>
    have hn := he node List.mem_cons_self
    simp only [collectGaps]
    generalize hne : (checkedAdd node.chainSequence 1).getD node.chainSequence = next
    have hc := cursor_spec hs hne
    have key : (∃ gap ∈ collectGaps chainId next rest, gap.Covers sequence) ↔
        node.chainSequence < sequence ∧ (∃ r ∈ rest, sequence < r.chainSequence) ∧
          ∀ r ∈ rest, r.chainSequence ≠ sequence := by
      rw [ih hs.of_cons fun r hr => (hc r hr).2.1]
      refine and_congr_left ?_
      rintro ⟨⟨r, hr, hlt⟩, -⟩
      exact (hc r hr).2.2 _ hlt
    have hf : sequence < node.chainSequence → ∀ r ∈ rest, r.chainSequence ≠ sequence := by
      intro h r hr
      have := (hc r hr).1
      omega
    split
    · have hh : (ChainGap.mk chainId exp (node.chainSequence - 1)).Covers sequence ↔
          exp ≤ sequence ∧ sequence < node.chainSequence := by
        simp only [ChainGap.Covers]
        omega
      rw [List.exists_mem_cons_iff, key, hh, List.exists_mem_cons_iff, List.forall_mem_cons]
      grind
    · rw [key, List.exists_mem_cons_iff, List.forall_mem_cons]
      grind

theorem of_mem_collectGaps (h : gap ∈ collectGaps chainId exp sorted) :
    gap.chainId = chainId ∧ exp ≤ gap.fromSequence ∧ gap.fromSequence ≤ gap.throughSequence ∧
      ∃ node ∈ sorted, gap.throughSequence + 1 = node.chainSequence := by
  induction sorted generalizing exp with
  | nil => simp [collectGaps] at h
  | cons node rest ih =>
    have hno := he node List.mem_cons_self
    simp only [collectGaps] at h
    generalize hne : (checkedAdd node.chainSequence 1).getD node.chainSequence = next at h
    have hc := cursor_spec hs hne
    have hl : gap ∈ collectGaps chainId next rest → gap.chainId = chainId ∧
        exp ≤ gap.fromSequence ∧ gap.fromSequence ≤ gap.throughSequence ∧
        ∃ n ∈ node :: rest, gap.throughSequence + 1 = n.chainSequence := by
      intro h
      obtain ⟨h₁, h₂, h₃, n, hn, h₄⟩ := ih hs.of_cons (fun r hr => (hc r hr).2.1) h
      have := ((hc n hn).2.2 gap.fromSequence (by omega)).mp h₂
      exact ⟨h₁, by omega, h₃, n, List.mem_cons_of_mem _ hn, h₄⟩
    split at h
    · rcases List.mem_cons.mp h with rfl | h
      · exact ⟨rfl, le_rfl, by show exp ≤ node.chainSequence - 1; omega, node,
          List.mem_cons_self, by show node.chainSequence - 1 + 1 = _; omega⟩
      · exact hl h
    · exact hl h

/-- The gaps are separated by an occupied sequence. -/
theorem pairwise_collectGaps : (collectGaps chainId exp sorted).Pairwise
      (fun g h => g.throughSequence + 1 < h.fromSequence) := by
  induction sorted generalizing exp with
  | nil => simp [collectGaps]
  | cons node _ ih =>
    simp only [collectGaps]
    generalize hne : (checkedAdd node.chainSequence 1).getD node.chainSequence = next
    have hc := cursor_spec hs hne
    have hl := ih hs.of_cons fun r hr => (hc r hr).2.1
    split
    · refine List.pairwise_cons.mpr ⟨fun gap hg => ?_, hl⟩
      obtain ⟨-, h₂, _, n, hn, _⟩ := of_mem_collectGaps hs.of_cons (fun r hr => (hc r hr).2.1) hg
      have := ((hc n hn).2.2 gap.fromSequence (by omega)).mp h₂
      show node.chainSequence - 1 + 1 < gap.fromSequence
      omega
    · exact hl

end

/-- **The gaps cover exactly the unoccupied sequences below the highest node.** -/
theorem covers_gaps_iff : (∃ gap ∈ (analyse chainId nodes).gaps, gap.Covers sequence) ↔
      (∃ node ∈ nodes, sequence < node.chainSequence) ∧
        ∀ node ∈ nodes, node.chainSequence ≠ sequence := by
  have h : (∃ gap ∈ collectGaps chainId 0 (sortNodes nodes), gap.Covers sequence) ↔ _ :=
    covers_collectGaps_iff (pairwise_chainSequence nodes) fun _ _ => Nat.zero_le _
  simpa [analyse] using h

theorem of_mem_gaps (h : gap ∈ (analyse chainId nodes).gaps) :
    gap.chainId = chainId ∧ gap.fromSequence ≤ gap.throughSequence ∧
      ∃ node ∈ nodes, gap.throughSequence + 1 = node.chainSequence := by
  obtain ⟨h₁, -, h₂, n, hn, h₃⟩ :=
    of_mem_collectGaps (pairwise_chainSequence nodes) (fun _ _ => Nat.zero_le _) h
  exact ⟨h₁, h₂, n, mem_sortNodes.mp hn, h₃⟩

theorem pairwise_gaps (chainId : ChainId) (nodes : List ChainNode) :
    (analyse chainId nodes).gaps.Pairwise (fun g h => g.throughSequence + 1 < h.fromSequence) :=
  pairwise_collectGaps (pairwise_chainSequence nodes) fun _ _ => Nat.zero_le _

/-- No two gaps cover one sequence. -/
theorem gap_eq_of_covers (hg : g ∈ (analyse chainId nodes).gaps)
    (hh : h ∈ (analyse chainId nodes).gaps) (hcg : g.Covers sequence) (hch : h.Covers sequence) :
    g = h := by
  have ha : (analyse chainId nodes).gaps.Pairwise
      (fun g h => ¬ (g.Covers sequence ∧ h.Covers sequence)) := by
    refine (pairwise_gaps chainId nodes).imp ?_
    rintro g h hgh ⟨⟨-, hg⟩, hh, -⟩
    omega
  have : Std.Symm (fun g h : ChainGap => ¬ (g.Covers sequence ∧ h.Covers sequence)) :=
    ⟨fun _ _ hgh hhg => hgh hhg.symm⟩
  by_contra hne
  exact ha.forall hg hh hne ⟨hcg, hch⟩

/-- A gap is determined by its first sequence. -/
theorem gap_eq_of_fromSequence_eq (hg : g ∈ (analyse chainId nodes).gaps)
    (hh : h ∈ (analyse chainId nodes).gaps) (e : g.fromSequence = h.fromSequence) : g = h :=
  gap_eq_of_covers hg hh ⟨le_rfl, (of_mem_gaps hg).2.1⟩ ⟨e.ge, e ▸ (of_mem_gaps hh).2.1⟩

theorem gaps_eq_nil_iff : (analyse chainId nodes).gaps = [] ↔
    ∀ node ∈ nodes, ∀ s < node.chainSequence, ∃ n ∈ nodes, n.chainSequence = s := by
  constructor
  · intro hni node hn s hs
    by_contra hf
    push Not at hf
    have hc : ∃ gap ∈ (analyse chainId nodes).gaps, gap.Covers s :=
      covers_gaps_iff.mpr ⟨⟨node, hn, hs⟩, hf⟩
    simp [hni] at hc
  · intro h
    refine List.eq_nil_iff_forall_not_mem.mpr fun gap hg => ?_
    have hc : gap.Covers gap.fromSequence := ⟨le_rfl, (of_mem_gaps hg).2.1⟩
    obtain ⟨⟨node, hn, hlt⟩, hf⟩ := covers_gaps_iff.mp ⟨gap, hg, hc⟩
    obtain ⟨n, hn', e⟩ := h node hn _ hlt
    exact hf n hn' e

/-- **The gaps are exact.**  They ascend, are not empty, leave an occupied sequence between two
of them, and cover the free sequences below the highest node; each ends directly below a node, so
no bound leaves the range of a `u64`. -/
theorem gaps_exact {chain : VerifiedChain} (h : buildChain chainId nodes = .ok chain) :
    chain.gaps.Pairwise (fun g k => g.throughSequence + 1 < k.fromSequence) ∧
    (∀ gap ∈ chain.gaps, gap.chainId = chainId ∧ gap.fromSequence ≤ gap.throughSequence ∧
      gap.throughSequence < u64Max ∧
      ∃ node ∈ nodes, gap.throughSequence + 1 = node.chainSequence) ∧
    ∀ s, (∃ gap ∈ chain.gaps, gap.Covers s) ↔
      (∃ node ∈ nodes, s < node.chainSequence) ∧ ∀ node ∈ nodes, node.chainSequence ≠ s := by
  obtain ⟨-, -, rfl⟩ := buildChain_eq_ok.mp h
  refine ⟨pairwise_gaps chainId nodes, fun gap hg => ?_, fun s => covers_gaps_iff⟩
  obtain ⟨hc, hle, node, hn, e⟩ := of_mem_gaps hg
  have := node.chainSequence_le
  exact ⟨hc, hle, by omega, node, hn, e⟩

/-- A node at the last sequence of the range, given twice, ends a gap. -/
theorem gaps_exact_at_the_end : ∃ node : ChainNode, node.chainSequence = u64Max ∧
    ∃ chain, buildChain 7 [node, node, exampleNode 1 (some 1)] = .ok chain ∧
      ∃ gap ∈ chain.gaps, gap.Covers 2 := by
  let node : ChainNode :=
    { exampleNode 1 (some 1) with chainSequence := u64Max, chainSequence_le := le_rfl }
  have hok : buildChain 7 [node, node, exampleNode 1 (some 1)]
      = .ok (analyse 7 [node, node, exampleNode 1 (some 1)]) := rfl
  refine ⟨node, rfl, _, hok, ((gaps_exact hok).2.2 2).mpr
    ⟨⟨node, List.mem_cons_self, by decide⟩, ?_⟩⟩
  decide

/-! ## 3. The verified prefix -/

theorem walkVerifiedPrefix_eq_some {stop : Option Nat} {verified : Option ChainHead}
    (h : walkVerifiedPrefix stop verified groups = some head) :
    verified = some head ∨ ∃ group ∈ groups, ∃ node ∈ group, head = headOf node ∧
      ¬ stop.any (· ≤ node.chainSequence) = true := by
  induction groups generalizing verified with
  | nil => exact Or.inl (by simpa [walkVerifiedPrefix] using h)
  | cons group groups ih =>
    cases group with
    | nil => exact Or.inl (by simpa [walkVerifiedPrefix] using h)
    | cons node _ =>
      simp only [walkVerifiedPrefix] at h
      split at h
      · exact Or.inl h
      · rename_i hst
        split at h
        · rcases ih h with h | ⟨g, hg, n, hn, e⟩
          · exact Or.inr ⟨_, List.mem_cons_self, node, List.mem_cons_self,
              (Option.some.inj h).symm, hst⟩
          · exact Or.inr ⟨g, List.mem_cons_of_mem _ hg, n, hn, e⟩
        · exact Or.inl h

/-- The sequence lies before every fork and every break of the chain. -/
def VerifiedChain.Before (chain : VerifiedChain) (sequence : Nat) : Prop :=
  (∀ fork ∈ chain.forks, sequence < fork.sequence) ∧ ∀ br ∈ chain.breaks, sequence < br.sequence

/-- The stop of the walk is the end of what lies before every finding. -/
theorem before_iff : ¬ (firstDisputedSequence chain.forks chain.breaks).any (· ≤ sequence) = true ↔
      chain.Before sequence := by
  have hmi : ∀ l : List Nat, ¬ l.min?.any (· ≤ sequence) = true ↔ ∀ s ∈ l, sequence < s := by
    intro l
    cases hm : l.min? with
    | none => simp [List.min?_eq_none_iff.mp hm]
    | some _ =>
      rw [Option.any_some, decide_eq_true_iff, not_le]
      exact List.le_min?_iff hm
  rw [firstDisputedSequence, hmi]
  simp [VerifiedChain.Before, or_imp, forall_and]

theorem VerifiedChain.Before.of_le {s : Nat} (h : chain.Before sequence) (hle : s ≤ sequence) :
    chain.Before s :=
  ⟨fun fork hf => hle.trans_lt (h.1 fork hf), fun br hbr => hle.trans_lt (h.2 br hbr)⟩

theorem analyse_verifiedHead (chainId : ChainId) (nodes : List ChainNode) :
    (analyse chainId nodes).verifiedHead =
      walkVerifiedPrefix (firstDisputedSequence (analyse chainId nodes).forks
        (analyse chainId nodes).breaks) none (sequenceGroups nodes) := rfl

/-- **The verified head is a node before every fork and every break.** -/
theorem verifiedHead_spec (h : (analyse chainId nodes).verifiedHead = some head) :
    ∃ node ∈ nodes, head = headOf node ∧ (analyse chainId nodes).Before node.chainSequence := by
  rcases walkVerifiedPrefix_eq_some h with h | ⟨_, hg, node, hn, e, hst⟩
  · simp at h
  · exact ⟨node, mem_of_mem_sequenceGroups hg hn, e, before_iff.mp hst⟩

/-- Before every fork one entry hash stands at a sequence. -/
theorem entryHash_eq_of_before (ha : a ∈ nodes) (hb : b ∈ nodes)
    (e : a.chainSequence = b.chainSequence)
    (hbe : (analyse chainId nodes).Before a.chainSequence) : a.entryHash = b.entryHash := by
  by_contra hne
  obtain ⟨fork, hf, _, -, hag, _, hsi, es, hn⟩ :=
    exists_fork_of_share chainId ha hb .sequenceCollision hne e
  have hst : fork.sequence ≤ a.chainSequence := hn.sequence.trans (hsi.least a hag es.symm).2
  exact absurd (hbe.1 fork (mem_forks.mpr (.inl hf))) (not_lt.mpr hst)

/-- Up to the verified head one entry hash stands at a sequence. -/
theorem entryHash_eq_of_le_verifiedHead (hh : head ∈ (analyse chainId nodes).verifiedHead)
    (ha : a ∈ nodes) (hb : b ∈ nodes) (e : a.chainSequence = b.chainSequence)
    (hle : a.chainSequence ≤ head.chainSequence) : a.entryHash = b.entryHash := by
  obtain ⟨n, -, rfl, hbe⟩ := verifiedHead_spec hh
  exact entryHash_eq_of_before ha hb e (hbe.of_le hle)

/-- Before every finding a node names the entry hash directly below it. -/
theorem linked_of_before (had : ∀ node ∈ nodes, Admitted chainId node) (ha : a ∈ nodes)
    (hb : b ∈ nodes) (e : a.chainSequence + 1 = b.chainSequence)
    (hbe : (analyse chainId nodes).Before b.chainSequence) :
    b.previousEntryHash = some a.entryHash := by
  have hso : b.previousEntryHash.isSome := by
    rw [Option.isSome_iff_ne_none]
    intro hn
    have := (had b hb).genesis.mpr hn
    omega
  by_contra hp
  have hbk : Broken nodes b := by
    refine ⟨⟨a, ha, e⟩, hso, fun c hc e' hc' => hp ?_⟩
    rw [hc', entryHash_eq_of_before hc ha (by omega) (hbe.of_le (by omega))]
  obtain ⟨br, hbr, -, _⟩ := exists_break_of_broken chainId hb hbk
  exact absurd (hbe.2 br hbr) (by omega)

/-- `last` ends the verified prefix that starts with `first`: the sequences between them are
occupied and lie before every finding, and the next one is free or does not. -/
structure EndsPrefix (chainId : ChainId) (nodes : List ChainNode) (first last : ChainNode) :
    Prop where
  mem : last ∈ nodes
  first_le : first.chainSequence ≤ last.chainSequence
  occupied : ∀ s, first.chainSequence ≤ s → s ≤ last.chainSequence →
    ∃ node ∈ nodes, node.chainSequence = s
  before : (analyse chainId nodes).Before last.chainSequence
  maximal : ∀ node ∈ nodes, node.chainSequence = last.chainSequence + 1 →
    ¬ (analyse chainId nodes).Before node.chainSequence

theorem EndsPrefix.self (ha : a ∈ nodes) (hb : (analyse chainId nodes).Before a.chainSequence)
    (hm : ∀ node ∈ nodes, node.chainSequence = a.chainSequence + 1 →
      ¬ (analyse chainId nodes).Before node.chainSequence) : EndsPrefix chainId nodes a a :=
  ⟨ha, le_rfl, fun _ h₁ h₂ => ⟨a, ha, le_antisymm h₁ h₂⟩, hb, hm⟩

section Walk

variable {front : List (List ChainNode)} {first : ChainNode} {rest : List ChainNode}

/-- The walk from the first node of a group runs to the end of the prefix.  A next sequence that is
occupied before every finding is linked, so nothing but a hole or a finding ends the walk. -/
theorem walkVerifiedPrefix_endsPrefix (had : ∀ node ∈ nodes, Admitted chainId node)
    (hgp : sequenceGroups nodes = front ++ (first :: rest) :: groups)
    (hf : (analyse chainId nodes).Before first.chainSequence) :
    ∃ last, EndsPrefix chainId nodes first last ∧
      walkVerifiedPrefix (firstDisputedSequence (analyse chainId nodes).forks
        (analyse chainId nodes).breaks) (some (headOf first)) groups = some (headOf last) := by
  have hm : first :: rest ∈ sequenceGroups nodes := by simp [hgp]
  have hno : first ∈ nodes := mem_of_mem_sequenceGroups hm List.mem_cons_self
  induction groups generalizing front first rest with
  | nil =>
    refine ⟨first, .self hno hf fun node hn e => ?_, rfl⟩
    obtain ⟨g, hg, hng⟩ := exists_mem_sequenceGroups hn
    have hpa := pairwise_groupsBy (pairwise_chainSequence nodes)
    rw [← sequenceGroups, hgp] at hpa
    rw [hgp] at hg
    have hle : node.chainSequence ≤ first.chainSequence := by
      rcases List.mem_append.mp hg with hg | hg
      · exact ((List.pairwise_append.mp hpa).2.2 g hg _ List.mem_cons_self node hng first
          List.mem_cons_self).le
      · rw [List.mem_singleton.mp hg] at hng
        exact (chainSequence_eq_of_mem_group hm hng List.mem_cons_self).le
    omega
  | cons group groups ih =>
    have hgr : group ∈ sequenceGroups nodes := by simp [hgp]
    obtain ⟨next, tail, rfl⟩ := List.exists_cons_of_ne_nil (ne_nil_of_mem_groupsBy hgr)
    have hp : (first :: rest, next :: tail) ∈ windows2 (sequenceGroups nodes) :=
      mem_windows2_iff.mpr ⟨front, groups, hgp⟩
    have hlt : first.chainSequence < next.chainSequence :=
      rel_of_mem_windows2 (pairwise_groupsBy (pairwise_chainSequence nodes)) hp first
        List.mem_cons_self next List.mem_cons_self
    have hnn : ∀ node ∈ nodes, node.chainSequence = first.chainSequence + 1 →
        next.chainSequence ≤ node.chainSequence := fun node hn e => by
      have := not_between_groupsBy (pairwise_chainSequence nodes) hp List.mem_cons_self
        List.mem_cons_self (mem_sortNodes.mpr hn)
      omega
    have hne := mem_of_mem_sequenceGroups hgr List.mem_cons_self
    rw [walkVerifiedPrefix]
    by_cases hbe : (analyse chainId nodes).Before next.chainSequence
    · rw [if_neg (before_iff.mpr hbe)]
      by_cases hsu : first.chainSequence + 1 = next.chainSequence
      · have hc : continues (some (headOf first)) next = true := by
          have := next.chainSequence_le
          simp only [continues, headOf, Bool.and_eq_true, beq_iff_eq, checkedAdd_eq_some]
          exact ⟨by omega, linked_of_before had hno hne hsu hbe⟩
        rw [if_pos hc]
        have hgroups' : sequenceGroups nodes =
            (front ++ [first :: rest]) ++ (next :: tail) :: groups := by simp [hgp]
        obtain ⟨last, hl, e⟩ := ih hgroups' hbe hgr hne
        refine ⟨last, ⟨hl.mem, hlt.le.trans hl.first_le, fun s h₁ h₂ => ?_, hl.before,
          hl.maximal⟩, e⟩
        rcases h₁.eq_or_lt with rfl | h₁
        · exact ⟨first, hno, rfl⟩
        · exact hl.occupied s (by omega) h₂
      · -- a hole follows
        have hc : continues (some (headOf first)) next = false := by
          simp [continues, headOf, checkedAdd_eq_some, Ne.symm hsu]
        rw [if_neg (by simp [hc])]
        refine ⟨first, .self hno hf fun node hn e => ?_, rfl⟩
        have := hnn node hn e
        omega
    · rw [if_pos (by_contra fun h => hbe (before_iff.mp h))]
      refine ⟨first, .self hno hf fun node hn e hb => hbe ?_, rfl⟩
      exact hb.of_le (hnn node hn e)

end Walk

/-- **The verified head of a chain**: nothing is verified where the lowest sequence is disputed, and
otherwise the head is the end of the prefix that starts there. -/
theorem verifiedHead_cases (had : ∀ node ∈ nodes, Admitted chainId node) (hne : nodes ≠ []) :
    ∃ first ∈ nodes, (∀ node ∈ nodes, first.chainSequence ≤ node.chainSequence) ∧
      (¬ (analyse chainId nodes).Before first.chainSequence ∧
          (analyse chainId nodes).verifiedHead = none ∨
        ∃ last, EndsPrefix chainId nodes first last ∧
          (analyse chainId nodes).verifiedHead = some (headOf last)) := by
  obtain ⟨_, hn₀⟩ := List.exists_mem_of_ne_nil nodes hne
  obtain ⟨_, hg₀, -⟩ := exists_mem_sequenceGroups hn₀
  obtain ⟨g, groups, hgr⟩ := List.exists_cons_of_ne_nil (List.ne_nil_of_mem hg₀)
  have hg : g ∈ sequenceGroups nodes := by simp [hgr]
  obtain ⟨first, rest, rfl⟩ := List.exists_cons_of_ne_nil (ne_nil_of_mem_groupsBy hg)
  refine ⟨first, mem_of_mem_sequenceGroups hg List.mem_cons_self, fun node hn => ?_, ?_⟩
  · obtain ⟨k, hk, hnk⟩ := exists_mem_sequenceGroups hn
    have hp := pairwise_groupsBy (pairwise_chainSequence nodes)
    rw [← sequenceGroups, hgr] at hp
    rw [hgr] at hk
    rcases List.mem_cons.mp hk with rfl | hk
    · exact (chainSequence_eq_of_mem_group hg List.mem_cons_self hnk).le
    · exact (List.rel_of_pairwise_cons hp hk first List.mem_cons_self node hnk).le
  · rw [analyse_verifiedHead, hgr, walkVerifiedPrefix]
    by_cases hb : (analyse chainId nodes).Before first.chainSequence
    · have hw : sequenceGroups nodes = [] ++ (first :: rest) :: groups := hgr
      obtain ⟨last, hl, e⟩ := walkVerifiedPrefix_endsPrefix had hw hb
      rw [if_neg (before_iff.mpr hb)]
      exact .inr ⟨last, hl, e⟩
    · exact .inl ⟨hb, if_pos (by_contra fun h => hb (before_iff.mp h))⟩

/-! ## 4. Complete chains -/

/-- The nodes fill the sequences up to that of `last` without a hole, carry one entry hash at each
of them, and each names the entry hash directly below. -/
structure Complete (nodes : List ChainNode) (last : ChainNode) : Prop where
  last_mem : last ∈ nodes
  occupied : ∀ sequence, (∃ node ∈ nodes, node.chainSequence = sequence) ↔
    sequence ≤ last.chainSequence
  entryHash_eq : ∀ a ∈ nodes, ∀ b ∈ nodes, a.chainSequence = b.chainSequence →
    a.entryHash = b.entryHash
  linked : ∀ a ∈ nodes, ∀ b ∈ nodes, a.chainSequence + 1 = b.chainSequence →
    b.previousEntryHash = some a.entryHash

theorem Complete.of_mem_iff {nodes' : List ChainNode} {last : ChainNode}
    (hm : ∀ node, node ∈ nodes ↔ node ∈ nodes') (h : Complete nodes last) :
    Complete nodes' last := by
  obtain ⟨hl, ho, hh, hli⟩ := h
  simp only [hm] at hl ho hh hli
  exact ⟨hl, ho, hh, hli⟩

/-- **A chain without findings is complete**, and its verified head is its last node. -/
theorem complete_of_clean (had : ∀ node ∈ nodes, Admitted chainId node) (hne : nodes ≠ [])
    (hfo : (analyse chainId nodes).forks = []) (hbr : (analyse chainId nodes).breaks = [])
    (hg : (analyse chainId nodes).gaps = []) :
    ∃ last, Complete nodes last ∧ (analyse chainId nodes).verifiedHead = some (headOf last) := by
  have hbe : ∀ s, (analyse chainId nodes).Before s := fun s => by
    simp [VerifiedChain.Before, hfo, hbr]
  obtain ⟨_, -, -, ⟨hst, -⟩ | ⟨last, hl, hh⟩⟩ := verifiedHead_cases had hne
  · exact absurd (hbe _) hst
  -- a node above the last one would leave a hole directly above it
  have hm : ∀ node ∈ nodes, node.chainSequence ≤ last.chainSequence := fun node hno => by
    by_contra hlt
    have hf : ∀ n ∈ nodes, n.chainSequence ≠ last.chainSequence + 1 := fun n hn e =>
      hl.maximal n hn e (hbe _)
    rcases (Nat.succ_le_of_lt (not_le.mp hlt)).eq_or_lt with e | hlt
    · exact hf node hno e.symm
    · obtain ⟨n, hn, e⟩ := gaps_eq_nil_iff.mp hg node hno _ hlt
      exact hf n hn e
  refine ⟨last, ⟨hl.mem, fun s => ⟨?_, fun hle => ?_⟩, fun a ha b hb e =>
    entryHash_eq_of_before ha hb e (hbe _), fun a ha b hb e =>
    linked_of_before had ha hb e (hbe _)⟩, hh⟩
  · rintro ⟨node, hno, rfl⟩
    exact hm node hno
  · rcases hle.lt_or_eq with hlt | rfl
    · exact gaps_eq_nil_iff.mp hg last hl.mem s hlt
    · exact ⟨last, hl.mem, rfl⟩

/-! ## 5. Anchored prefixes -/

/-- The node is linked down to a genesis: at each sequence below it stands a node whose entry hash
the next one names. -/
inductive Anchored (nodes : List ChainNode) : ChainNode → Prop
  | genesis {node : ChainNode} (hnode : node ∈ nodes) (hzero : node.chainSequence = 0) :
      Anchored nodes node
  | next {below node : ChainNode} (hbelow : Anchored nodes below) (hnode : node ∈ nodes)
      (hsequence : node.chainSequence = below.chainSequence + 1)
      (hprevious : node.previousEntryHash = some below.entryHash) : Anchored nodes node

/-- **The verified prefix of a chain that starts at sequence zero is linked down to a genesis.** -/
theorem anchored_of_verifiedHead (had : ∀ node ∈ nodes, Admitted chainId node)
    (hf : (analyse chainId nodes).nodes.head?.any (·.chainSequence = 0) = true)
    (h : (analyse chainId nodes).verifiedHead = some head) :
    ∃ node, Anchored nodes node ∧ head = headOf node := by
  obtain ⟨genesis, hg, _⟩ : ∃ genesis ∈ nodes, genesis.chainSequence = 0 := by
    cases hh : (sortNodes nodes).head? with
    | none => simp [analyse, hh] at hf
    | some genesis =>
      exact ⟨genesis, mem_sortNodes.mp (List.mem_of_head? hh), by simpa [analyse, hh] using hf⟩
  obtain ⟨first, -, hle, ⟨-, hn⟩ | ⟨last, hl, hh⟩⟩ :=
    verifiedHead_cases had (List.ne_nil_of_mem hg)
  · cases hn.symm.trans h
  have hf : first.chainSequence = 0 := by
    have := hle genesis hg
    omega
  have ha : ∀ s ≤ last.chainSequence, ∀ node ∈ nodes, node.chainSequence = s →
      Anchored nodes node := by
    intro s _
    induction s with
    | zero => exact fun node hno e => .genesis hno e
    | succ s ih =>
      intro node hno e
      obtain ⟨below, hb, e'⟩ := hl.occupied s (by omega) (by omega)
      exact (ih (by omega) below hb e').next hno (by omega)
        (linked_of_before had hb hno (by omega) (hl.before.of_le (by omega)))
  exact ⟨last, ha _ le_rfl last hl.mem rfl, Option.some.inj (h.symm.trans hh)⟩

/-! ## 6. What the verified head is -/

/-- The node is the lower side of a collision, or it is broken. -/
def Disputed (nodes : List ChainNode) (a : ChainNode) : Prop :=
  (∃ b ∈ nodes, Rival a b ∧ a.chainSequence ≤ b.chainSequence) ∨ Broken nodes a

/-- Nothing speaks against the chain from its lowest sequence through this one. -/
structure VerifiedThrough (nodes : List ChainNode) (sequence : Nat) : Prop where
  present : ∃ a ∈ nodes, a.chainSequence ≤ sequence
  occupied : ∀ a ∈ nodes, ∀ s, a.chainSequence ≤ s → s ≤ sequence → ∃ b ∈ nodes, b.chainSequence = s
  entryHash_eq : ∀ a ∈ nodes, ∀ b ∈ nodes, a.chainSequence = b.chainSequence →
    a.chainSequence ≤ sequence → a.entryHash = b.entryHash
  linked : ∀ a ∈ nodes, ∀ b ∈ nodes, a.chainSequence + 1 = b.chainSequence →
    b.chainSequence ≤ sequence → b.previousEntryHash = some a.entryHash
  undisputed : ∀ a ∈ nodes, a.chainSequence ≤ sequence → ¬ Disputed nodes a

/-- The findings start where a node is disputed. -/
theorem before_iff_undisputed (hB : EntryHashBinding nodes) :
    (analyse chainId nodes).Before sequence ↔
      ∀ a ∈ nodes, a.chainSequence ≤ sequence → ¬ Disputed nodes a := by
  constructor
  · rintro ⟨hfo, hbk⟩ a ha hle (⟨b, hb, hr, -⟩ | hbrk)
    · obtain ⟨fork, hf, _, hsi, es, hn⟩ := exists_fork_of_rival chainId hB ha hb hr
      have hst := hn.sequence.trans (hsi.least a ha es.symm).2
      exact absurd (hfo fork hf) (by omega)
    · obtain ⟨br, hbr, -, e⟩ := exists_break_of_broken chainId ha hbrk
      exact absurd (hbk br hbr) (by omega)
  · intro h
    refine ⟨fun fork hf => ?_, fun br hbr => ?_⟩
    · obtain ⟨_, _, hg, left, right, hl, hr, hlt, rfl⟩ := exists_sides_of_mem_forks hf
      obtain ⟨a, ha, ea, _⟩ := hl.sequence
      obtain ⟨b, hb, eb, _⟩ := hr.sequence
      have hne : a.entryHash ≠ b.entryHash := by
        rw [ea, eb]
        exact hlt.ne
      show sequence < min left.sequence right.sequence
      by_contra hle
      rcases le_total left.sequence right.sequence with hm | hm
      · exact h a (hg.subset a ha) (by omega)
          (.inl ⟨b, hg.subset b hb, hg.rival ha hb hne, by omega⟩)
      · exact h b (hg.subset b hb) (by omega)
          (.inl ⟨a, hg.subset a ha, hg.rival hb ha hne.symm, by omega⟩)
    · obtain ⟨a, ha, hbrk, -, e⟩ := broken_of_mem_breaks hbr
      by_contra hle
      exact h a ha (by omega) (.inr hbrk)

section

variable (had : ∀ node ∈ nodes, Admitted chainId node) (hB : EntryHashBinding nodes)
include had hB

/-- The end of the prefix from the lowest node is the greatest sequence nothing speaks against. -/
theorem EndsPrefix.isGreatest {first last : ChainNode}
    (hf : ∀ node ∈ nodes, first.chainSequence ≤ node.chainSequence)
    (h : EndsPrefix chainId nodes first last) :
    IsGreatest {s | VerifiedThrough nodes s} last.chainSequence := by
  constructor
  · exact ⟨⟨last, h.mem, le_rfl⟩, fun a ha s h₁ => h.occupied s ((hf a ha).trans h₁),
      fun a ha b hb e hle => entryHash_eq_of_before ha hb e (h.before.of_le hle),
      fun a ha b hb e hle => linked_of_before had ha hb e (h.before.of_le hle),
      (before_iff_undisputed hB).mp h.before⟩
  · intro s hs
    by_contra hlt
    obtain ⟨node, hn, e⟩ := hs.occupied last h.mem (last.chainSequence + 1) (by omega) (by omega)
    exact h.maximal node hn e (((before_iff_undisputed hB).mpr hs.undisputed).of_le (by omega))

end

/-- **What the verified head is**: the greatest sequence up to which the chain is occupied, of one
entry hash at each sequence, linked and undisputed.  There is none exactly where no node is, or
where the lowest sequence is disputed. -/
theorem verifiedHead_greatest (h : buildChain chainId nodes = .ok chain)
    (hB : EntryHashBinding nodes) :
    (∀ s, (∃ node ∈ nodes, chain.verifiedHead = some (headOf node) ∧ node.chainSequence = s) ↔
      IsGreatest {s | VerifiedThrough nodes s} s) ∧
    (chain.verifiedHead = none ↔ nodes = [] ∨ ∃ a ∈ nodes,
      (∀ b ∈ nodes, a.chainSequence ≤ b.chainSequence) ∧ Disputed nodes a) := by
  obtain ⟨-, had, rfl⟩ := buildChain_eq_ok.mp h
  by_cases hne : nodes = []
  · subst hne
    have hn : (analyse chainId []).verifiedHead = none := rfl
    refine ⟨fun s => ⟨fun ⟨node, hno, _⟩ => absurd hno (by simp), fun hs => ?_⟩, by simp [hn]⟩
    obtain ⟨a, ha, -⟩ := hs.1.present
    exact absurd ha (by simp)
  obtain ⟨_, _, hm, ⟨hst, hn⟩ | ⟨last, hl, hh⟩⟩ :=
    verifiedHead_cases had hne
  · rw [before_iff_undisputed hB] at hst
    push Not at hst
    obtain ⟨a, ha, hle, hd⟩ := hst
    constructor
    · intro s
      simp only [hn, reduceCtorEq, false_and, and_false, exists_false, false_iff]
      intro hs
      obtain ⟨b, hb, _⟩ := hs.1.present
      have := hm b hb
      exact hs.1.undisputed a ha (by omega) hd
    · simp only [hn, hne, false_or, true_iff]
      exact ⟨a, ha, fun b hb => hle.trans (hm b hb), hd⟩
  · have hg := hl.isGreatest had hB hm
    constructor
    · intro s
      constructor
      · rintro ⟨node, -, e, rfl⟩
        have e := congrArg ChainHead.chainSequence (Option.some.inj (hh.symm.trans e))
        rw [show node.chainSequence = last.chainSequence from e.symm]
        exact hg
      · intro hs
        exact ⟨last, hl.mem, hh, le_antisymm (hs.2 hg.1) (hg.2 hs.1)⟩
    · simp only [hh, hne, reduceCtorEq, false_or, false_iff]
      rintro ⟨a, ha, hle, hd⟩
      exact hg.1.undisputed a ha (hle last hl.mem) hd

/-- Two entries that follow each other. -/
theorem verifiedHead_greatest_two :
    IsGreatest {s | VerifiedThrough [exampleNode 0 none, exampleNode 1 (some 1)] s} 1 := by
  have hok : buildChain 7 [exampleNode 0 none, exampleNode 1 (some 1)]
      = .ok (analyse 7 [exampleNode 0 none, exampleNode 1 (some 1)]) := rfl
  refine ((verifiedHead_greatest hok ?_).1 1).mp ⟨exampleNode 1 (some 1), by simp, rfl, rfl⟩
  unfold EntryHashBinding
  decide

end Einsatzarchiv.Chain
