/-
  File:      Einsatzarchiv/Chain/Rollback.lean
  Subject:   The rollback assessment of crate `ea-chain`: checkpoints against a verified chain, and
             which objects it and the analysis name.

  * `findingOf`: what one checkpoint claim says about the chain.
  * `assessRollback`: the claims of the chain, sorted, and their findings.
  * `assessRollback_ne_rollback`, `mem_findings`: a rollback is reported exactly when some claim
    of the chain has a finding, and the findings are those of the claims.
  * `assessRollback_exact`: what is reported, in terms of the claims the chain confirms.
  * `VerifiedChain.Names`: an object stands in a fork or a break of the chain; it lies above the
    verified head.
  * `names_iff`: a fork names only the smallest object hash of an entry hash, a break names every
    node it is about.
  * `ContradictedBy`, `conflicts_iff`: a checkpoint that contradicts a verified entry hash names
    only the smallest object hash as well.
-/
import Einsatzarchiv.Chain.Prefix

namespace Einsatzarchiv.Chain

open Lib

section

/-! ## 1. Claims and findings -/

/-- What an authenticated checkpoint says about a chain; its sequences are `u64`. -/
structure CheckpointClaim where
  chainId : ChainId
  (coveredFromSequence coveredThroughSequence : Nat)
  headEntryHash : EntryHash
  checkpointObjectHash : ObjectHash
  coveredThroughSequence_le : coveredThroughSequence ≤ u64Max := by decide

instance : DecidableEq CheckpointClaim
  | ⟨a, b, c, d, e, _⟩, ⟨a', b', c', d', e', _⟩ =>
    decidable_of_iff ((a, b, c, d, e) = (a', b', c', d', e')) (by simp)

/-- What a checkpoint knows that the chain does not show. -/
inductive RollbackFinding
  | truncatedBelowCheckpoint (coveredThroughSequence : Nat) (verifiedHeadSequence : Option Nat)
      (checkpointObjectHash : ObjectHash)
  | headEntryHashMismatch (sequence : Nat) (checkpointHeadEntryHash chainEntryHash : EntryHash)
      (checkpointObjectHash conflictingObjectHash : ObjectHash)

/-- The interval a truncation proves to be missing. -/
def RollbackFinding.provenMissingSequences : RollbackFinding → Option (Nat × Nat)
  | .truncatedBelowCheckpoint coveredThroughSequence verifiedHeadSequence _ => do
      let first ← match verifiedHeadSequence with
        | some verified => checkedAdd verified 1
        | none => some 0
      if first > coveredThroughSequence then none
      else some (first, coveredThroughSequence)
  | .headEntryHashMismatch .. => none

/-- Findings are ordered by sequence, then by checkpoint. -/
def RollbackFinding.sortKey : RollbackFinding → Nat ×ₗ ObjectHash
  | .truncatedBelowCheckpoint coveredThroughSequence _ checkpointObjectHash =>
    toLex (coveredThroughSequence, checkpointObjectHash)
  | .headEntryHashMismatch sequence _ _ checkpointObjectHash _ =>
    toLex (sequence, checkpointObjectHash)

/-- What the checkpoints say about the chain. -/
inductive RollbackAssessment
  | notAssessable
  | consistent
  | rollback (findings : List RollbackFinding)

/-- The findings of an assessment; only a rollback has any. -/
def RollbackAssessment.findings : RollbackAssessment → List RollbackFinding
  | .rollback findings => findings
  | .notAssessable | .consistent => []

/-- Claims are ordered by how far they reach. -/
def CheckpointClaim.sortKey (claim : CheckpointClaim) :
    Nat ×ₗ ObjectHash ×ₗ EntryHash ×ₗ Nat :=
  toLex (claim.coveredThroughSequence, toLex (claim.checkpointObjectHash,
    toLex (claim.headEntryHash, claim.coveredFromSequence)))

section

variable (chain : VerifiedChain)

/-- The first node at the sequence: the partition point of the sorted nodes, if it is one. -/
def verifiedNodeAt (sequence : Nat) : Option ChainNode :=
  (chain.nodes.find? fun node => sequence ≤ node.chainSequence).filter fun node =>
    node.chainSequence == sequence

/-- One round of the loop of `assess_rollback`. -/
def findingOf (claim : CheckpointClaim) : Option RollbackFinding :=
  let verifiedHeadSequence := chain.verifiedHead.map (·.chainSequence)
  let truncated := RollbackFinding.truncatedBelowCheckpoint claim.coveredThroughSequence
    verifiedHeadSequence claim.checkpointObjectHash
  if verifiedHeadSequence.all (· < claim.coveredThroughSequence) then some truncated
  else match verifiedNodeAt chain claim.coveredThroughSequence with
    | none => some truncated
    | some node =>
      if node.entryHash ≠ claim.headEntryHash then
        some (.headEntryHashMismatch claim.coveredThroughSequence claim.headEntryHash
          node.entryHash claim.checkpointObjectHash node.objectHash)
      else none

/-- The claims of the chain, sorted and without repetitions. -/
def relevantClaims (claims : List CheckpointClaim) :
    List CheckpointClaim :=
  (sortByKey CheckpointClaim.sortKey
    (claims.filter fun claim => claim.chainId == chain.chainId)).destutter (· ≠ ·)

/-- The findings of all checkpoints of the chain. -/
def assessRollback (claims : List CheckpointClaim) :
    RollbackAssessment :=
  let relevant := relevantClaims chain claims
  if relevant.isEmpty then .notAssessable
  else
    let findings := relevant.filterMap (findingOf chain)
    if findings.isEmpty then .consistent
    else .rollback (sortByKey RollbackFinding.sortKey findings)

end

/-! ## 2. What is reported -/

variable {chain : VerifiedChain} {claims : List CheckpointClaim} {claim : CheckpointClaim}
variable {finding : RollbackFinding} {nodes : List ChainNode} {node : ChainNode} {chainId : ChainId}

@[simp] theorem mem_relevantClaims :
    claim ∈ relevantClaims chain claims ↔ claim ∈ claims ∧ claim.chainId = chain.chainId := by
  simp [relevantClaims]

/-- The three ends of `assess_rollback`. -/
theorem assessRollback_cases (chain : VerifiedChain) (claims : List CheckpointClaim) :
    relevantClaims chain claims = [] ∧ assessRollback chain claims = .notAssessable ∨
    relevantClaims chain claims ≠ [] ∧
      ((relevantClaims chain claims).filterMap (findingOf chain) = [] ∧
          assessRollback chain claims = .consistent ∨
        (relevantClaims chain claims).filterMap (findingOf chain) ≠ [] ∧
          assessRollback chain claims = .rollback (sortByKey RollbackFinding.sortKey
            ((relevantClaims chain claims).filterMap (findingOf chain)))) := by
  unfold assessRollback
  by_cases hr : relevantClaims chain claims = []
  · simp [hr]
  · by_cases hf : (relevantClaims chain claims).filterMap (findingOf chain) = []
    · simp [hr, hf]
    · simp [hr, hf]

/-- The findings are those of the relevant claims, sorted. -/
theorem findings_assessRollback : (assessRollback chain claims).findings =
    sortByKey RollbackFinding.sortKey
      ((relevantClaims chain claims).filterMap (findingOf chain)) := by
  rcases assessRollback_cases chain claims with ⟨hr, e⟩ | ⟨-, ⟨hf, e⟩ | ⟨-, e⟩⟩
  · simp [e, hr, RollbackAssessment.findings, sortByKey]
  · simp [e, hf, RollbackAssessment.findings, sortByKey]
  · rw [e, RollbackAssessment.findings]

/-- The findings are those of the chain's claims. -/
theorem mem_findings : finding ∈ (assessRollback chain claims).findings ↔
    ∃ claim ∈ claims, claim.chainId = chain.chainId ∧ findingOf chain claim = some finding := by
  rw [findings_assessRollback]
  simp [and_assoc]

theorem pairwise_findings (chain : VerifiedChain) (claims : List CheckpointClaim) :
    (assessRollback chain claims).findings.Pairwise (fun f g => f.sortKey ≤ g.sortKey) := by
  rw [findings_assessRollback]
  exact pairwise_sortByKey _ _

/-- A rollback is reported exactly when there is a finding. -/
theorem assessRollback_eq_rollback :
    (∃ findings, assessRollback chain claims = .rollback findings) ↔
      (assessRollback chain claims).findings ≠ [] := by
  rw [findings_assessRollback, Ne, sortByKey_eq_nil]
  rcases assessRollback_cases chain claims with ⟨hr, e⟩ | ⟨-, ⟨hf, e⟩ | ⟨hf, e⟩⟩
  · simp [e, hr]
  · simp [e, hf]
  · simp [e, hf]

/-- No rollback is reported exactly when no claim of the chain has a finding. -/
theorem assessRollback_ne_rollback :
    (∀ findings, assessRollback chain claims ≠ .rollback findings) ↔
      ∀ claim ∈ claims, claim.chainId = chain.chainId → findingOf chain claim = none := by
  rw [← not_exists, assessRollback_eq_rollback, not_not, List.eq_nil_iff_forall_not_mem]
  simp only [mem_findings, not_exists, not_and, Option.eq_none_iff_forall_ne_some]
  grind

/-- The sequence after the verified prefix. -/
def VerifiedChain.nextSequence (chain : VerifiedChain) : Nat :=
  chain.verifiedHead.elim 0 (·.chainSequence + 1)

/-- What one claim comes to: its sequence is not in the verified prefix, or a node stands there
and the entry hashes differ or agree. -/
theorem findingOf_cases (chain : VerifiedChain) (claim : CheckpointClaim) :
    (∀ head ∈ chain.verifiedHead, claim.coveredThroughSequence ≤ head.chainSequence →
        verifiedNodeAt chain claim.coveredThroughSequence = none) ∧
      findingOf chain claim = some (.truncatedBelowCheckpoint claim.coveredThroughSequence
        (chain.verifiedHead.map (·.chainSequence)) claim.checkpointObjectHash) ∨
    ∃ head ∈ chain.verifiedHead, claim.coveredThroughSequence ≤ head.chainSequence ∧
      ∃ node, verifiedNodeAt chain claim.coveredThroughSequence = some node ∧
        findingOf chain claim = if node.entryHash ≠ claim.headEntryHash then
          some (.headEntryHashMismatch claim.coveredThroughSequence claim.headEntryHash
            node.entryHash claim.checkpointObjectHash node.objectHash) else none := by
  unfold findingOf
  cases chain.verifiedHead with
  | none => simp
  | some head =>
    by_cases hlt : head.chainSequence < claim.coveredThroughSequence
    · simp [hlt]
    · cases verifiedNodeAt chain claim.coveredThroughSequence with
      | none => simp [hlt]
      | some node => simp [hlt, not_lt.mp hlt]

/-- **What a finding proves to be missing**: the sequences from the end of the verified prefix up to
the covered one, if the claim reaches beyond the prefix. -/
theorem provenMissingSequences_of_findingOf (h : findingOf chain claim = some finding) :
    finding.provenMissingSequences =
      if chain.nextSequence ≤ claim.coveredThroughSequence then
        some (chain.nextSequence, claim.coveredThroughSequence) else none := by
  have hc := claim.coveredThroughSequence_le
  have ht : (RollbackFinding.truncatedBelowCheckpoint claim.coveredThroughSequence
      (chain.verifiedHead.map (·.chainSequence)) claim.checkpointObjectHash).provenMissingSequences
        = if chain.nextSequence ≤ claim.coveredThroughSequence then
            some (chain.nextSequence, claim.coveredThroughSequence) else none := by
    unfold RollbackFinding.provenMissingSequences VerifiedChain.nextSequence
    cases hh : chain.verifiedHead with
    | none => simp
    | some head =>
      by_cases hm : head.chainSequence + 1 ≤ u64Max
      · by_cases hle : head.chainSequence + 1 ≤ claim.coveredThroughSequence
        · simp only [Option.map_some, checkedAdd, hm, if_true, Option.elim_some, hle]
          exact if_neg (not_lt.mpr hle)
        · simp only [Option.map_some, checkedAdd, hm, if_true, Option.elim_some, hle, if_false]
          exact if_pos (not_le.mp hle)
      · have hle : ¬ head.chainSequence + 1 ≤ claim.coveredThroughSequence := by omega
        simp only [Option.map_some, checkedAdd, hm, if_false, Option.elim_some, hle]
        rfl
  rcases findingOf_cases chain claim with ⟨-, e⟩ | ⟨head, hh, hle, _, -, e⟩
  · cases e.symm.trans h
    exact ht
  · rw [e] at h
    split at h
    · -- the claim lies inside the prefix
      cases h
      rw [VerifiedChain.nextSequence, Option.mem_def.mp hh, Option.elim_some, if_neg (by omega)]
      rfl
    · cases h

/-- The sort key of a finding that proves a gap starts with the end of the gap. -/
theorem sortKey_of_provenMissingSequences {first last : Nat}
    (h : finding.provenMissingSequences = some (first, last)) :
    ∃ cp, finding.sortKey = toLex (last, cp) := by
  cases finding with
  | headEntryHashMismatch seq _ _ cp _ => cases h
  | truncatedBelowCheckpoint covered verified cp =>
    have hp : ∀ start : Nat, (if start > covered then none else some (start, covered)) =
        some (first, last) → last = covered := by
      intro start h
      split at h
      · cases h
      · cases h
        rfl
    have hl : last = covered := by
      unfold RollbackFinding.provenMissingSequences at h
      cases verified with
      | none | some seq =>
        obtain ⟨start, -, h⟩ := Option.bind_eq_some_iff.mp h
        exact hp start h
    exact ⟨cp, by rw [hl]; rfl⟩

/-- A claim beyond the verified prefix has a finding. -/
theorem findingOf_ne_none (h : chain.nextSequence ≤ claim.coveredThroughSequence) :
    findingOf chain claim ≠ none := by
  rcases findingOf_cases chain claim with ⟨-, e⟩ | ⟨_, hh, _, -⟩
  · simp [e]
  · rw [VerifiedChain.nextSequence, Option.mem_def.mp hh, Option.elim_some] at h
    omega

theorem verifiedNodeAt_eq_some {sequence : Nat}
    (h : verifiedNodeAt (analyse chainId nodes) sequence = some node) :
    node ∈ nodes ∧ node.chainSequence = sequence := by
  obtain ⟨hf, e⟩ := Option.filter_eq_some_iff.mp h
  exact ⟨mem_sortNodes.mp (List.mem_of_find?_eq_some hf), by simpa using e⟩

/-- At an occupied sequence the first node there in the order of the chain is found. -/
theorem exists_verifiedNodeAt (chainId : ChainId) (h : node ∈ nodes) :
    ∃ n, verifiedNodeAt (analyse chainId nodes) node.chainSequence = some n ∧
      ∀ m ∈ nodes, m.chainSequence = node.chainSequence → chainKey n ≤ chainKey m := by
  have hs : ((sortNodes nodes).find? fun n => node.chainSequence ≤ n.chainSequence).isSome :=
    List.find?_isSome.mpr ⟨node, mem_sortNodes.mpr h, by simp⟩
  obtain ⟨n, hn⟩ := Option.isSome_iff_exists.mp hs
  obtain ⟨hle, _, _, hso, hb⟩ := List.find?_eq_some_iff_append.mp hn
  have hp := pairwise_sortNodes nodes
  rw [hso, List.pairwise_append] at hp
  -- nothing at the sequence stands before the node that is found
  have hf : ∀ m ∈ nodes, m.chainSequence = node.chainSequence → chainKey n ≤ chainKey m := by
    intro m hm e
    rw [← mem_sortNodes, hso] at hm
    rcases List.mem_append.mp hm with hm | hm
    · simpa [e] using hb m hm
    · rcases List.mem_cons.mp hm with rfl | hm
      · exact le_rfl
      · exact List.rel_of_pairwise_cons hp.2.1 hm
  have e : n.chainSequence = node.chainSequence :=
    le_antisymm (chainSequence_le_of_chainKey (hf node h rfl)) (of_decide_eq_true hle)
  refine ⟨n, ?_, hf⟩
  show (List.find? _ (sortNodes nodes)).filter _ = some n
  simp [hn, e]

/-- The claim is confirmed: in the verified prefix, at the sequence it covers, stands the entry
hash it names. -/
def VerifiedChain.Confirms (chain : VerifiedChain) (claim : CheckpointClaim) : Prop :=
  ∃ head ∈ chain.verifiedHead, claim.coveredThroughSequence ≤ head.chainSequence ∧
    ∃ node ∈ chain.nodes, node.chainSequence = claim.coveredThroughSequence ∧
      node.entryHash = claim.headEntryHash

/-- **A claim without a finding is a confirmed one**: below the verified head one entry hash stands
at a sequence, so the first node there speaks for all. -/
theorem findingOf_eq_none :
    findingOf (analyse chainId nodes) claim = none ↔ (analyse chainId nodes).Confirms claim := by
  rcases findingOf_cases (analyse chainId nodes) claim with
    ⟨hnn, e⟩ | ⟨head, hh, hle, n, hn, e⟩
  · simp only [e, reduceCtorEq, false_iff]
    rintro ⟨head, hh, hle, node, hno, hs, -⟩
    obtain ⟨n, hn, -⟩ := exists_verifiedNodeAt chainId (mem_sortNodes.mp hno)
    rw [hs, hnn head hh hle] at hn
    cases hn
  · obtain ⟨hm, hs⟩ := verifiedNodeAt_eq_some hn
    rw [e, ite_eq_right_iff]
    constructor
    · exact fun h => ⟨head, hh, hle, n, mem_sortNodes.mpr hm, hs, by simpa using h⟩
    · rintro ⟨-, -, -, node, hno, hs', hsa⟩ hne
      refine absurd ?_ hne
      rw [← hsa]
      exact entryHash_eq_of_le_verifiedHead hh hm (mem_sortNodes.mp hno)
        (hs.trans hs'.symm) (hs.trans_le hle)

/-! ## 3. The assessment is exact -/

/-- The sort key tells the claims of one chain apart. -/
theorem eq_of_sortKey {other : CheckpointClaim} (hid : claim.chainId = other.chainId)
    (h : claim.sortKey = other.sortKey) : claim = other := by
  cases claim
  cases other
  simp_all [CheckpointClaim.sortKey]

theorem filter_sortKey (chain : VerifiedChain) (claims : List CheckpointClaim) :
    ∀ a ∈ claims.filter (fun claim => claim.chainId == chain.chainId),
      ∀ b ∈ claims.filter (fun claim => claim.chainId == chain.chainId),
        a.sortKey = b.sortKey → a = b := by
  intro a ha b hb
  have ha := (List.mem_filter.mp ha).2
  have hb := (List.mem_filter.mp hb).2
  exact eq_of_sortKey ((beq_iff_eq.mp ha).trans (beq_iff_eq.mp hb).symm)

/-- **The rollback assessment is exact and free of order**: what is reported depends on which
claims of the chain it confirms, each contradicted one has one finding, and what a finding proves
to be missing lies above the verified head. -/
theorem assessRollback_exact {chainId : ChainId} {nodes : List ChainNode}
    (h : buildChain chainId nodes = .ok chain) (claims : List CheckpointClaim) :
    (assessRollback chain claims = .notAssessable ↔ ∀ claim ∈ claims, claim.chainId ≠ chainId) ∧
    (assessRollback chain claims = .consistent ↔ (∃ claim ∈ claims, claim.chainId = chainId) ∧
      ∀ claim ∈ claims, claim.chainId = chainId → chain.Confirms claim) ∧
    ((∃ claim ∈ claims, claim.chainId = chainId ∧ ¬ chain.Confirms claim) →
      ∃ findings, ∃ contradicted : List CheckpointClaim,
        assessRollback chain claims = .rollback findings ∧
        contradicted.Nodup ∧ (∀ claim, claim ∈ contradicted ↔ claim ∈ claims ∧
          claim.chainId = chainId ∧ ¬ chain.Confirms claim) ∧
        (findings.map some).Perm (contradicted.map (findingOf chain))) ∧
    (∀ others, (∀ claim, claim ∈ others ↔ claim ∈ claims) →
      assessRollback chain others = assessRollback chain claims) ∧
    ∀ finding ∈ (assessRollback chain claims).findings, ∀ first last,
      finding.provenMissingSequences = some (first, last) → ∀ s, first ≤ s → s ≤ last →
        ∀ head ∈ chain.verifiedHead, head.chainSequence < s := by
  have ha : chain.chainId = chainId ∧
      ∀ claim, findingOf chain claim = none ↔ chain.Confirms claim := by
    obtain ⟨-, -, rfl⟩ := buildChain_eq_ok.mp h
    exact ⟨rfl, fun _ => findingOf_eq_none⟩
  obtain ⟨rfl, hn⟩ := ha
  have he : relevantClaims chain claims = [] ↔ ∀ claim ∈ claims, claim.chainId ≠ chain.chainId := by
    simp [List.eq_nil_iff_forall_not_mem]
  have hcl : (relevantClaims chain claims).filterMap (findingOf chain) = [] ↔
      ∀ claim ∈ claims, claim.chainId = chain.chainId → chain.Confirms claim := by
    simp [mem_relevantClaims, hn]
  refine ⟨?_, ?_, ?_, fun others hsa => ?_,
    fun finding hfi first last hm s hs _ head hh => ?_⟩
  · rw [← he]
    rcases assessRollback_cases chain claims with ⟨hr, e⟩ | ⟨hr, ⟨-, e⟩ | ⟨-, e⟩⟩ <;> simp [hr, e]
  · have hso : (∃ claim ∈ claims, claim.chainId = chain.chainId) ↔
        relevantClaims chain claims ≠ [] := by
      rw [Ne, he]
      push Not
      rfl
    rw [← hcl, hso]
    rcases assessRollback_cases chain claims with ⟨hr, e⟩ | ⟨hr, ⟨hf, e⟩ | ⟨hf, e⟩⟩
    · simp [hr, e]
    · simp [hr, hf, e]
    · simp [hr, hf, e]
  · rintro ⟨claim, hc, hid, hno⟩
    rcases assessRollback_cases chain claims with ⟨hr, -⟩ | ⟨-, ⟨hf, -⟩ | ⟨-, e⟩⟩
    · exact absurd hid (he.mp hr claim hc)
    · exact absurd (hcl.mp hf claim hc hid) hno
    · refine ⟨_, (relevantClaims chain claims).filter fun claim => (findingOf chain claim).isSome,
        e, ?_, fun claim => ?_, ?_⟩
      · refine List.Nodup.filter _ ?_
        exact (pairwise_destutter_sortByKey (filter_sortKey _ _)).imp
          fun hlt e => hlt.ne (congrArg _ e)
      · rw [List.mem_filter, mem_relevantClaims, ← hn, Option.isSome_iff_ne_none, and_assoc]
      · refine ((perm_sortByKey _ _).map _).trans (List.Perm.of_eq ?_)
        rw [List.map_filterMap, ← List.filterMap_eq_map, List.filterMap_filter]
        congr 1
        funext claim
        cases e : findingOf chain claim <;> simp [e]
  · have hre : relevantClaims chain others = relevantClaims chain claims :=
      destutter_sortByKey_congr (filter_sortKey _ _) fun claim => by simp [hsa]
    rw [assessRollback, hre, ← assessRollback]
  · obtain ⟨claim, -, -, hc⟩ := mem_findings.mp hfi
    rw [provenMissingSequences_of_findingOf hc] at hm
    split at hm
    · cases hm
      have : chain.nextSequence = head.chainSequence + 1 := by
        rw [VerifiedChain.nextSequence, hh]
        rfl
      omega
    · cases hm

/-- A checkpoint that covers more than the chain holds. -/
theorem assessRollback_exact_truncated : ∃ chain, buildChain 7 [exampleNode 0 none] = .ok chain ∧
      assessRollback chain [⟨7, 0, 3, 1, 9, by decide⟩] ≠ .consistent := by
  have hok : buildChain 7 [exampleNode 0 none] = .ok (analyse 7 [exampleNode 0 none]) := rfl
  refine ⟨_, hok, fun h => ?_⟩
  obtain ⟨-, hc⟩ := (assessRollback_exact hok _).2.1.mp h
  obtain ⟨_, hh, hle, -⟩ := hc _ List.mem_cons_self rfl
  cases Option.mem_some.mp hh
  exact absurd hle (by decide)

end

variable {cid : ChainId} {nodes : List ChainNode} {node : ChainNode} {objectHash : ObjectHash}
  {claims : List CheckpointClaim} {claim : CheckpointClaim} {chain : VerifiedChain}

/-! ## 4. Named objects -/

/-- The chain names the object in a fork or a break. -/
def VerifiedChain.Names (chain : VerifiedChain) (objectHash : ObjectHash) : Prop :=
  (∃ fork ∈ chain.forks, objectHash = fork.competingObjectHashes.1 ∨
    objectHash = fork.competingObjectHashes.2) ∨
  ∃ br ∈ chain.breaks, objectHash = br.objectHash

/-- **A named object belongs to a node above the verified head.** -/
theorem exists_node_of_names (h : (analyse cid nodes).Names objectHash) :
    ∃ node ∈ nodes, node.objectHash = objectHash ∧
      ∀ head ∈ (analyse cid nodes).verifiedHead, head.chainSequence < node.chainSequence := by
  rcases h with ⟨fork, hf, ho⟩ | ⟨br, hbr, rfl⟩
  · obtain ⟨a, ha, -, -, -, oa, hle⟩ := rival_of_mem_forks hf ho
    refine ⟨a, ha, oa, fun head hh => ?_⟩
    obtain ⟨n, -, rfl, hfo, -⟩ := verifiedHead_spec hh
    exact (hfo fork hf).trans_le hle
  · obtain ⟨n, hn, -, ho, hs⟩ := broken_of_mem_breaks hbr
    refine ⟨n, hn, ho.symm, fun head hh => ?_⟩
    obtain ⟨m, -, rfl, -, hb⟩ := verifiedHead_spec hh
    exact hs ▸ hb br hbr

theorem clean_of_not_names (h : ∀ objectHash, ¬ (analyse cid nodes).Names objectHash) :
    (analyse cid nodes).forks = [] ∧ (analyse cid nodes).breaks = [] :=
  ⟨List.eq_nil_iff_forall_not_mem.mpr fun fork hf => h _ (.inl ⟨fork, hf, .inl rfl⟩),
    List.eq_nil_iff_forall_not_mem.mpr fun br hbr => h _ (.inr ⟨br, hbr, rfl⟩)⟩

/-- The node has the smallest object hash of the nodes that carry its entry hash. -/
def IsLeast (nodes : List ChainNode) (node : ChainNode) : Prop :=
  ∀ m ∈ nodes, m.entryHash = node.entryHash → node.objectHash ≤ m.objectHash

/-- An object hash stands for one node. -/
def ObjectHashBinding (nodes : List ChainNode) : Prop :=
  ∀ a ∈ nodes, ∀ b ∈ nodes, a.objectHash = b.objectHash → a = b

section Binding

variable (hB : EntryHashBinding nodes) {side : Competitor}

include hB

theorem isSide_of_mem_forks {fork : ChainFork} (h : fork ∈ (analyse cid nodes).forks)
    (ho : objectHash = fork.competingObjectHashes.1 ∨ objectHash = fork.competingObjectHashes.2) :
    ∃ side, IsSide nodes side ∧ side.objectHash = objectHash := by
  obtain ⟨_, _, hg, left, right, hl, hr, -, rfl⟩ := exists_sides_of_mem_forks h
  rcases eq_of_eq_sortPair ho with e | e
  · exact ⟨left, hl.of_binding hB hg, e.symm⟩
  · exact ⟨right, hr.of_binding hB hg, e.symm⟩

omit hB in
/-- A side that has the entry hash of a least node has its object hash. -/
theorem IsSide.objectHash_eq (hs : IsSide nodes side) (hn : node ∈ nodes)
    (e : side.entryHash = node.entryHash) (hl : IsLeast nodes node) :
    side.objectHash = node.objectHash := by
  obtain ⟨m, hm, em, om⟩ := hs.object
  refine le_antisymm (hs.least node hn e.symm).1 ?_
  exact om ▸ hl m hm (em.trans e)

omit hB in
theorem IsSide.isLeast (hs : IsSide nodes side) (hO : ObjectHashBinding nodes)
    (hn : node ∈ nodes) (e : side.objectHash = node.objectHash) : IsLeast nodes node := by
  obtain ⟨m, hm, em, om⟩ := hs.object
  obtain rfl := hO m hm node hn (om.trans e)
  intro n hn' en
  exact om ▸ (hs.least n hn' (en.trans em)).1

/-- **What the chain names**: of rivals the least object of their entry hash, and every broken
node. -/
theorem names_iff (hO : ObjectHashBinding nodes) (hn : node ∈ nodes) :
    (analyse cid nodes).Names node.objectHash ↔
      (∃ b ∈ nodes, Rival node b) ∧ IsLeast nodes node ∨ Broken nodes node := by
  constructor
  · rintro (⟨fork, hf, ho⟩ | ⟨br, hbr, ho⟩)
    · obtain ⟨a, ha, b, hb, hr, oa, -⟩ := rival_of_mem_forks hf ho
      obtain rfl := hO a ha node hn oa
      obtain ⟨side, hsi, hs⟩ := isSide_of_mem_forks hB hf ho
      exact .inl ⟨⟨b, hb, hr⟩, hsi.isLeast hO hn hs⟩
    · obtain ⟨n, hn', hbk, ho', -⟩ := broken_of_mem_breaks hbr
      obtain rfl := hO n hn' node hn (ho'.symm.trans ho.symm)
      exact .inr hbk
  · rintro (⟨⟨b, hb, hr⟩, hl⟩ | hbk)
    · obtain ⟨fork, hf, side, hsi, es, hna⟩ := exists_fork_of_rival _ hB hn hb hr
      exact .inl ⟨fork, hf, hsi.objectHash_eq hn es hl ▸ hna.objectHash⟩
    · obtain ⟨br, hbr, ho, -⟩ := exists_break_of_broken cid hn hbk
      exact .inr ⟨br, hbr, ho.symm⟩

end Binding

/-! ## 5. Contradicted entry hashes -/

/-- The object a finding names as the one in conflict with the checkpoint. -/
def RollbackFinding.conflictingObject : RollbackFinding → Option ObjectHash
  | .headEntryHashMismatch _ _ _ _ conflictingObjectHash => some conflictingObjectHash
  | .truncatedBelowCheckpoint .. => none

/-- Some claim has a finding that names the object. -/
def Conflicts (chain : VerifiedChain) (claims : List CheckpointClaim) (objectHash : ObjectHash) :
    Prop :=
  ∃ claim ∈ claims, claim.chainId = chain.chainId ∧
    ∃ finding, findingOf chain claim = some finding ∧ finding.conflictingObject = some objectHash

theorem conflicts_iff_finding :
    Conflicts chain claims objectHash ↔ ∃ finding ∈ (assessRollback chain claims).findings,
      finding.conflictingObject = some objectHash := by
  simp only [Conflicts, mem_findings]
  grind

/-- The claim contradicts the entry hash of a node that stands at a verified sequence. -/
structure ContradictedBy (chain : VerifiedChain) (node : ChainNode) (claim : CheckpointClaim) :
    Prop where
  chainId_eq : claim.chainId = chain.chainId
  verified : ∃ head ∈ chain.verifiedHead, claim.coveredThroughSequence ≤ head.chainSequence
  sequence_eq : node.chainSequence = claim.coveredThroughSequence
  entryHash_ne : node.entryHash ≠ claim.headEntryHash

theorem findingOf_conflicting : (∃ finding, findingOf chain claim = some finding ∧
        finding.conflictingObject = some objectHash) ↔
      (∃ head ∈ chain.verifiedHead, claim.coveredThroughSequence ≤ head.chainSequence) ∧
        ∃ n, verifiedNodeAt chain claim.coveredThroughSequence = some n ∧
          n.entryHash ≠ claim.headEntryHash ∧ n.objectHash = objectHash := by
  rcases findingOf_cases chain claim with ⟨hnn, e⟩ | ⟨head, hh, hle, node, hno, e⟩
  · simp only [e, Option.some.injEq, exists_eq_left', RollbackFinding.conflictingObject,
      reduceCtorEq, false_iff]
    rintro ⟨⟨head, hh, hle⟩, n, hn, -⟩
    simp [hnn head hh hle] at hn
  · by_cases he : node.entryHash = claim.headEntryHash
    · simp [e, he, hno]
    · simp [e, he, hno, Option.mem_def.mp hh, hle, RollbackFinding.conflictingObject]

/-- A mismatch is found at the sequence of the node it names. -/
theorem exists_node_of_mismatch {sequence : Nat} {exp actual : EntryHash}
    {cp : ObjectHash} (h : findingOf (analyse cid nodes) claim =
      some (.headEntryHashMismatch sequence exp actual cp objectHash)) :
    ∃ node ∈ nodes, node.objectHash = objectHash ∧ node.chainSequence = sequence := by
  rcases findingOf_cases (analyse cid nodes) claim with ⟨-, e⟩ | ⟨-, -, -, node, hn, e⟩
  · cases e.symm.trans h
  · rw [e] at h
    split at h
    · cases h
      obtain ⟨hm, hs⟩ := verifiedNodeAt_eq_some hn
      exact ⟨node, hm, rfl, hs⟩
    · cases h

/-- An object in conflict with a checkpoint stands on the verified prefix. -/
theorem exists_node_of_conflicts (h : Conflicts (analyse cid nodes) claims objectHash) :
    ∃ node ∈ nodes, node.objectHash = objectHash ∧
      ∃ head ∈ (analyse cid nodes).verifiedHead, node.chainSequence ≤ head.chainSequence := by
  obtain ⟨_, -, -, hf⟩ := h
  obtain ⟨⟨head, hh, hle⟩, node, hn, -, rfl⟩ := findingOf_conflicting.mp hf
  obtain ⟨hm, hs⟩ := verifiedNodeAt_eq_some hn
  exact ⟨node, hm, rfl, head, hh, hs ▸ hle⟩

theorem objectHash_le_of_chainKey_le {a b : ChainNode} (h : chainKey a ≤ chainKey b)
    (hs : a.chainSequence = b.chainSequence) (he : a.entryHash = b.entryHash) :
    a.objectHash ≤ b.objectHash := by
  rcases Prod.Lex.toLex_le_toLex.mp h with h | ⟨-, h⟩
  · exact absurd h (by simp [hs])
  · rcases Prod.Lex.toLex_le_toLex.mp h with h | ⟨-, h⟩
    · exact absurd h (by simp [he])
    · exact h

section Binding

variable (hB : EntryHashBinding nodes)

include hB

/-- **What the checkpoints name**: of the nodes whose entry hash a claim contradicts, the least
one. -/
theorem conflicts_iff (hO : ObjectHashBinding nodes) (hn : node ∈ nodes) :
    Conflicts (analyse cid nodes) claims node.objectHash ↔
      (∃ claim ∈ claims, ContradictedBy (analyse cid nodes) node claim) ∧ IsLeast nodes node := by
  simp only [Conflicts, findingOf_conflicting]
  constructor
  · rintro ⟨claim, hc, hid, hv, n, hno, hne, ho⟩
    obtain ⟨hn', hs⟩ := verifiedNodeAt_eq_some hno
    obtain rfl := hO n hn' node hn ho
    refine ⟨⟨claim, hc, hid, hv, hs, hne⟩, fun m hm em => ?_⟩
    obtain ⟨_, hnode', hf⟩ := exists_verifiedNodeAt cid hn
    rw [hs, hno] at hnode'
    cases hnode'
    have e := (hB m hm n hn em).1
    exact objectHash_le_of_chainKey_le (hf m hm e) e.symm em.symm
  · rintro ⟨⟨claim, hc, hid, ⟨head, hh, hle⟩, hs, hne⟩, hl⟩
    obtain ⟨n, hno, hf⟩ := exists_verifiedNodeAt cid hn
    rw [hs] at hno
    obtain ⟨hn', hs'⟩ := verifiedNodeAt_eq_some hno
    have he : node.entryHash = n.entryHash :=
      entryHash_eq_of_le_verifiedHead hh hn hn' (hs.trans hs'.symm) (hs ▸ hle)
    refine ⟨claim, hc, hid, ⟨head, hh, hle⟩, n, hno, he ▸ hne, le_antisymm ?_ ?_⟩
    · exact objectHash_le_of_chainKey_le (hf node hn rfl) (hs'.trans hs.symm) he.symm
    · exact hl n hn' he.symm

end Binding

end Einsatzarchiv.Chain
