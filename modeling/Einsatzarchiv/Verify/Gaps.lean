/-
  File:      Einsatzarchiv/Verify/Gaps.lean
  Subject:   Which missing sequences the report names, and the loop that approves stubs (crate
             `ea-verify`, end of `verify_archive_observed`).

  The gaps of a report are kept by their first sequence only.  Three stages write them: the chain,
  the checkpoints (their interval replaces one of the chain with the same start), and the stubs,
  which throw everything away and place the chain anew.

  * `reported_insertGaps`, `reported_insertGapsIfNew`: what the writers leave in the map.
  * `HoleReached`, `ProvenKept`: when they lose nothing, without and with stubs.
  * `gapsComplete_iff`: the gaps of a report are complete exactly then.

  Evidence approves stubs, and only evidence on the verified prefix counts; but the prefix runs
  through the nodes of stubs.  The loop takes away evidence and stubs until both fit.

  * `stubRound`: one round; `convergeStubs_exits`: the loop makes at most one round more than there
    are stubs.
  * `convergeStubs_fixed`: the nodes it leaves are those its evidence approves.
  * `stubs_selfSupporting`: an approved stub is supported by evidence that is linked to the genesis
    without any stub that was rejected.
-/
import Einsatzarchiv.Verify.Runs

namespace Einsatzarchiv.Verify

open Lib Format Archive Chain Trust

/-! ## 1. Maps of gaps -/

variable {gap last : ChainGap}

section Maps

variable {cid : ChainId} {nodes : List ChainNode} {sequence start : Nat}
  {gaps : Std.TreeMap GapKey ChainGap} {l : List ChainGap}

/-- The sequence lies inside an interval of the map. -/
def Reported (gaps : Std.TreeMap GapKey ChainGap) (sequence : Nat) : Prop :=
  ∃ (key : GapKey) (gap : ChainGap), gaps[key]? = some gap ∧ gap.Covers sequence

/-- Under which key a gap is kept. -/
def gapKey (gap : ChainGap) : GapKey := toLex (gap.chainId, gap.fromSequence)

theorem fromSequence_eq (h : gapKey gap = toLex (cid, start)) : gap.fromSequence = start :=
  congrArg (fun key : GapKey => (ofLex key).2) h

theorem getElem?_insertGaps (key : GapKey) : (l.foldl insertGap gaps)[key]? =
    ((l.filter fun gap => gapKey gap = key).getLast?).or gaps[key]? :=
  getElem?_foldl_insert gapKey l gaps key

/-- In a map of the gaps of a chain every gap is found under its key. -/
theorem getElem?_chainGaps {key : GapKey} :
    ((analyse cid nodes).gaps.foldl insertGap ∅)[key]? = some gap ↔
      gap ∈ (analyse cid nodes).gaps ∧ gapKey gap = key := by
  rw [getElem?_insertGaps, Std.TreeMap.getElem?_emptyc, Option.or_none]
  constructor
  · intro hl
    have hm := List.mem_of_getLast? hl
    exact ⟨List.mem_of_mem_filter hm, by simpa using List.of_mem_filter hm⟩
  · rintro ⟨hm, rfl⟩
    have hf : gap ∈ (analyse cid nodes).gaps.filter fun g => gapKey g = gapKey gap :=
      List.mem_filter.mpr ⟨hm, by simp⟩
    obtain ⟨last, hl⟩ := Option.isSome_iff_exists.mp
      (List.getLast?_isSome.mpr (List.ne_nil_of_mem hf))
    have hm' := List.mem_of_getLast? hl
    have hk : gapKey last = gapKey gap := by simpa using List.of_mem_filter hm'
    rw [hl, gap_eq_of_fromSequence_eq (List.mem_of_mem_filter hm') hm (fromSequence_eq hk)]

theorem reported_chainGaps : Reported ((analyse cid nodes).gaps.foldl insertGap ∅) sequence ↔
    ∃ gap ∈ (analyse cid nodes).gaps, gap.Covers sequence := by
  simp only [Reported, getElem?_chainGaps]
  constructor
  · rintro ⟨_, gap, ⟨hg, -⟩, hc⟩
    exact ⟨gap, hg, hc⟩
  · rintro ⟨gap, hg, hc⟩
    exact ⟨gapKey gap, gap, ⟨hg, rfl⟩, hc⟩

/-- Intervals with one start, of which the last one is the longest, replace the gap of the chain
that has this start. -/
theorem reported_insertGaps (hl : ∀ gap ∈ l, gap.chainId = cid ∧ gap.fromSequence = start)
    (hla : l.getLast? = some last) :
    Reported (l.foldl insertGap ((analyse cid nodes).gaps.foldl insertGap ∅)) sequence ↔
      last.Covers sequence ∨
        ∃ gap ∈ (analyse cid nodes).gaps, gap.fromSequence ≠ start ∧ gap.Covers sequence := by
  have hke : ∀ gap ∈ l, gapKey gap = toLex (cid, start) := by
    intro gap hg
    obtain ⟨hc, hs⟩ := hl gap hg
    rw [gapKey, hc, hs]
  have hat : ∀ key : GapKey,
      (l.foldl insertGap ((analyse cid nodes).gaps.foldl insertGap ∅))[key]? =
        if key = toLex (cid, start) then some last
        else ((analyse cid nodes).gaps.foldl insertGap ∅)[key]? := by
    intro key
    rw [getElem?_insertGaps]
    by_cases hk : key = toLex (cid, start)
    · have ha : (l.filter fun gap => gapKey gap = key) = l :=
        List.filter_eq_self.mpr fun gap hg => by simp [hke gap hg, hk]
      rw [ha, hla, if_pos hk, Option.some_or]
    · have hn : (l.filter fun gap => gapKey gap = key) = [] :=
        List.filter_eq_nil_iff.mpr fun gap hg => by simp [hke gap hg, Ne.symm hk]
      rw [hn, if_neg hk, List.getLast?_nil, Option.none_or]
  constructor
  · rintro ⟨key, gap, hg, hco⟩
    rw [hat] at hg
    split at hg
    · cases hg
      exact .inl hco
    next hne =>
      obtain ⟨hm, rfl⟩ := getElem?_chainGaps.mp hg
      refine .inr ⟨gap, hm, fun hs => hne ?_, hco⟩
      rw [gapKey, (of_mem_gaps hm).1, hs]
  · rintro (hco | ⟨gap, hm, hne, hco⟩)
    · exact ⟨toLex (cid, start), last, by rw [hat, if_pos rfl], hco⟩
    · refine ⟨gapKey gap, gap, ?_, hco⟩
      rw [hat, if_neg fun hk => hne (fromSequence_eq hk)]
      exact getElem?_chainGaps.mpr ⟨hm, rfl⟩

/-- Single sequences that do not replace a gap are all reported. -/
theorem reported_insertGapsIfNew
    (hl : ∀ gap ∈ l, gap.chainId = cid ∧ gap.throughSequence = gap.fromSequence) :
    Reported (l.foldl insertGapIfNew ((analyse cid nodes).gaps.foldl insertGap ∅)) sequence ↔
      (∃ gap ∈ (analyse cid nodes).gaps, gap.Covers sequence) ∨
        ∃ gap ∈ l, gap.fromSequence = sequence := by
  have hat : ∀ key : GapKey,
      (l.foldl insertGapIfNew ((analyse cid nodes).gaps.foldl insertGap ∅))[key]? =
        ((analyse cid nodes).gaps.foldl insertGap ∅)[key]?.or
          (l.find? fun gap => gapKey gap = key) := fun key =>
    getElem?_foldl_insertIfNew gapKey l _ key
  constructor
  · rintro ⟨key, gap, hg, hco⟩
    rw [hat, Option.or_eq_some_iff] at hg
    rcases hg with hg | ⟨-, hfi⟩
    · exact .inl ⟨gap, (getElem?_chainGaps.mp hg).1, hco⟩
    · have hm := List.mem_of_find?_eq_some hfi
      have hsi := (hl gap hm).2
      have hle := hco.1
      have hge := hco.2
      exact .inr ⟨gap, hm, by omega⟩
  · rintro (⟨gap, hm, hco⟩ | ⟨gap, hm, rfl⟩)
    · exact ⟨gapKey gap, gap, by rw [hat, getElem?_chainGaps.mpr ⟨hm, rfl⟩]; rfl, hco⟩
    · cases hc : ((analyse cid nodes).gaps.foldl insertGap ∅)[gapKey gap]? with
      | some other =>
        -- a gap of the chain with this start contains its start
        obtain ⟨hm', hk⟩ := getElem?_chainGaps.mp hc
        have hs : other.fromSequence = gap.fromSequence := fromSequence_eq hk
        have hle := (of_mem_gaps hm').2.1
        exact ⟨gapKey gap, other, by rw [hat, hc]; rfl, hs.le, hs ▸ hle⟩
      | none =>
        obtain ⟨first, hf⟩ := Option.isSome_iff_exists.mp
          (List.find?_isSome.mpr ⟨gap, hm, by simp⟩ :
            (l.find? fun g => gapKey g = gapKey gap).isSome = true)
        have hk : gapKey first = gapKey gap := by simpa using List.find?_some hf
        have hs : first.fromSequence = gap.fromSequence := fromSequence_eq hk
        have hsi := (hl first (List.mem_of_find?_eq_some hf)).2
        exact ⟨gapKey gap, first, by rw [hat, hc, hf]; rfl, hs.le, (hsi.trans hs).ge⟩

end Maps

/-! ## 2. Proven gaps -/

section Proven

variable {chain : VerifiedChain} {claims : List CheckpointClaim} {chainId : ChainId}

/-- A finding proves what is missing up to the covered sequence of its claim. -/
theorem provenGap_eq_some {finding : RollbackFinding} {claim : CheckpointClaim}
    (hf : findingOf chain claim = some finding) :
    provenGap chainId finding = some gap ↔ chain.nextSequence ≤ claim.coveredThroughSequence ∧
        gap = ⟨chainId, chain.nextSequence, claim.coveredThroughSequence⟩ := by
  rw [provenGap, provenMissingSequences_of_findingOf hf]
  by_cases hle : chain.nextSequence ≤ claim.coveredThroughSequence
  · simp only [hle, if_true, Option.map_some, Option.some.injEq, true_and]
    exact eq_comm
  · simp [hle]

/-- The gaps that the findings of an assessment prove. -/
def provenGaps (chain : VerifiedChain) (claims : List CheckpointClaim) (chainId : ChainId) :
    List ChainGap :=
  (assessRollback chain claims).findings.filterMap (provenGap chainId)

theorem mem_provenGaps : gap ∈ provenGaps chain claims chainId ↔
    ∃ claim ∈ claims, claim.chainId = chain.chainId ∧
      chain.nextSequence ≤ claim.coveredThroughSequence ∧
        gap = ⟨chainId, chain.nextSequence, claim.coveredThroughSequence⟩ := by
  simp only [provenGaps, List.mem_filterMap, mem_findings]
  constructor
  · rintro ⟨finding, ⟨claim, hc, hid, hf⟩, hg⟩
    exact ⟨claim, hc, hid, (provenGap_eq_some hf).mp hg⟩
  · rintro ⟨claim, hc, hid, hle, rfl⟩
    obtain ⟨finding, hf⟩ := Option.ne_none_iff_exists'.mp (findingOf_ne_none hle)
    exact ⟨finding, ⟨claim, hc, hid, hf⟩, (provenGap_eq_some hf).mpr ⟨hle, rfl⟩⟩

/-- The findings are sorted by the covered sequence, so that the longest interval comes last. -/
theorem pairwise_provenGaps (chain : VerifiedChain) (claims : List CheckpointClaim)
    (chainId : ChainId) :
    (provenGaps chain claims chainId).Pairwise
      fun a b => a.throughSequence ≤ b.throughSequence := by
  refine List.pairwise_filterMap.mpr ((pairwise_findings chain claims).imp ?_)
  intro f g hle a ha b hb
  obtain ⟨⟨_, _⟩, hp, rfl⟩ := Option.map_eq_some_iff.mp ha
  obtain ⟨⟨_, _⟩, hproven', rfl⟩ := Option.map_eq_some_iff.mp hb
  obtain ⟨_, hf⟩ := sortKey_of_provenMissingSequences hp
  obtain ⟨_, hg⟩ := sortKey_of_provenMissingSequences hproven'
  rw [hf, hg] at hle
  rcases Prod.Lex.toLex_le_toLex.mp hle with hlt | ⟨heq, -⟩
  · exact le_of_lt hlt
  · exact le_of_eq heq

/-- No proven gap is longer than the last one. -/
theorem throughSequence_le_last (hg : gap ∈ provenGaps chain claims chainId)
    (hl : (provenGaps chain claims chainId).getLast? = some last) :
    gap.throughSequence ≤ last.throughSequence := by
  have hs := pairwise_provenGaps chain claims chainId
  obtain ⟨_, hf⟩ := List.getLast?_eq_some_iff.mp hl
  rw [hf] at hg hs
  rcases List.mem_append.mp hg with hm | hm
  · exact (List.pairwise_append.mp hs).2.2 gap hm last (by simp)
  · rw [List.mem_singleton.mp hm]

end Proven

/-! ## 3. Rounds -/

section Rounds

variable {chainId : ChainId} {approve : List VerifiedEvidence → List ObjectHash}
  {evidence : List VerifiedEvidence} {nodes : List ChainNode} {fuel : Nat}

/-- One round of the loop over evidence and nodes. -/
def stubRound (chainId : ChainId) (approve : List VerifiedEvidence → List ObjectHash)
    (s : List VerifiedEvidence × List ChainNode) : List VerifiedEvidence × List ChainNode :=
  let evidence := retainEvidence chainId s.2 s.1
  (evidence, retainNodes (approve evidence) s.2)

section

variable (s : List VerifiedEvidence × List ChainNode)

/-- The test of the loop. -/
def nodeCount : Nat := s.2.length

/-- The node is a destroyed entry. -/
def isStub (node : ChainNode) : Bool := node.kind = .destroyedStub

/-- How many candidates are stubs. -/
def stubCount : Nat := s.2.countP isStub

theorem retainNodes_eq (approved : List ObjectHash) (nodes : List ChainNode) :
    retainNodes approved nodes =
      nodes.filter fun node => !isStub node || approved.contains node.objectHash := by
  unfold retainNodes isStub
  refine List.filter_congr fun node _ => ?_
  simp

theorem stubCount_lt_fuel : stubCount s < s.2.length + 1 := Nat.lt_succ_of_le List.countP_le_length

/-- A round keeps all nodes that are no stubs. -/
theorem length_sub_stubs (nodes : List ChainNode) (approved : List ObjectHash) :
    (retainNodes approved nodes).length + nodes.countP isStub =
      nodes.length + (retainNodes approved nodes).countP isStub := by
  rw [retainNodes_eq]
  induction nodes with
  | nil => rfl
  | cons node nodes ih =>
    cases hs : isStub node
    · simp only [hs, List.filter_cons, Bool.not_false, Bool.true_or, if_true,
        List.length_cons, List.countP_cons, Bool.false_eq_true, if_false] at ih ⊢
      omega
    · cases ha : approved.contains node.objectHash
      · simp only [hs, ha, List.filter_cons, Bool.not_true, Bool.false_or,
          Bool.false_eq_true, if_false, List.length_cons, List.countP_cons, if_true] at ih ⊢
        omega
      · simp only [hs, ha, List.filter_cons, Bool.or_true, if_true, List.length_cons,
          List.countP_cons] at ih ⊢
        omega

/-- A round that changes the number of nodes takes a stub. -/
theorem stubCount_lt (hne : nodeCount (stubRound chainId approve s) ≠ nodeCount s) :
    stubCount (stubRound chainId approve s) < stubCount s := by
  have hc := length_sub_stubs s.2 (approve (retainEvidence chainId s.2 s.1))
  have hle : (retainNodes (approve (retainEvidence chainId s.2 s.1)) s.2).length ≤ s.2.length :=
    List.length_filter_le _ _
  simp only [nodeCount, stubCount, stubRound] at hne ⊢
  omega

end

section

variable (cid : ChainId) (approve : List VerifiedEvidence → List ObjectHash)
  (hfu : stubCount (evidence, nodes) < fuel)
include hfu

/-- **The loop exits after few rounds**: with more fuel than there are stubs it runs until a round
leaves the number of nodes as it is. -/
theorem convergeStubs_exits : ∃ n, Exits (stubRound cid approve) nodeCount (evidence, nodes) n ∧
      convergeStubs cid approve fuel evidence nodes =
        (approve ((stubRound cid approve)^[n + 1] (evidence, nodes)).1,
          ((stubRound cid approve)^[n + 1] (evidence, nodes)).2) := by
  induction fuel generalizing evidence nodes with
  | zero => omega
  | succ fuel ih =>
    dsimp only [convergeStubs]
    split
    next hs => exact ⟨0, .zero hs, rfl⟩
    next hne =>
      have hl := stubCount_lt (evidence, nodes) hne
      obtain ⟨n, he, hr⟩ := ih (Nat.lt_of_lt_of_le hl (Nat.le_of_lt_succ hfu) :
        stubCount (stubRound cid approve (evidence, nodes)) < fuel)
      exact ⟨n + 1, he.cons hne, hr⟩

/-- **The loop ends in a fixed point**: its evidence lies on the verified prefix of the nodes it
leaves, and they are the nodes its evidence approves. -/
theorem convergeStubs_fixed : ∃ used ⊆ evidence,
      (convergeStubs cid approve fuel evidence nodes).1 = approve used ∧
      ∀ proof ∈ used, ∃ last,
        verifiedPrefixEnd cid (convergeStubs cid approve fuel evidence nodes).2 =
          some last ∧ proof.sequence ≤ last := by
  obtain ⟨n, he, hr⟩ := convergeStubs_exits cid approve hfu
  have hsu : ((stubRound cid approve)^[n + 1] (evidence, nodes)).1 ⊆ evidence :=
    iterate_preserves (motive := fun s : List VerifiedEvidence × List ChainNode => s.1 ⊆ evidence)
      (fun s hs => List.Subset.trans List.filter_sublist.subset hs) (List.Subset.refl _) (n + 1)
  rw [hr]
  refine ⟨_, hsu, rfl, fun proof hp => ?_⟩
  rw [Function.iterate_succ_apply'] at hp ⊢
  -- the last round keeps all nodes
  have hk : (stubRound cid approve ((stubRound cid approve)^[n] (evidence, nodes))).2 =
      ((stubRound cid approve)^[n] (evidence, nodes)).2 :=
    List.filter_sublist.eq_of_length he.stops
  rw [hk]
  have ha := List.of_mem_filter hp
  cases hen : verifiedPrefixEnd cid ((stubRound cid approve)^[n] (evidence, nodes)).2 with
  | none => simp [hen] at ha
  | some last => exact ⟨last, rfl, by simpa [hen] using ha⟩

end

end Rounds

/-! ## 4. The gaps of a report -/

variable [Crypto] [EscrowRules]
variable {blobs : List Bytes} {inventory : ArchiveInventory} {anchor : TrustAnchor}
  {options : VerifyOptions} {run : Run} {sequence : Nat}

/-- The sequence lies below a node, and no node occupies it. -/
def Unoccupied (nodes : List ChainNode) (sequence : Nat) : Prop :=
  (∃ node ∈ nodes, sequence < node.chainSequence) ∧ ∀ node ∈ nodes, node.chainSequence ≠ sequence

/-- The gaps of the report contain every hole below the nodes and all that its findings prove
missing. -/
structure GapsComplete (nodes : List ChainNode) (report : VerificationReport) : Prop where
  holes : ∀ sequence, Unoccupied nodes sequence → Reported report.gaps sequence
  proven : ∀ finding ∈ report.rollback.findings, ∀ first last,
    finding.provenMissingSequences = some (first, last) →
      ∀ sequence, first ≤ sequence → sequence ≤ last → Reported report.gaps sequence

section

variable (inventory : ArchiveInventory) (anchor : TrustAnchor)

/-- An authenticated checkpoint of the chain covers the sequence. -/
def CoveredThrough (sequence : Nat) : Prop :=
  ∃ claim ∈ authenticatedClaims inventory anchor,
    claim.chainId = anchor.chainId ∧ sequence ≤ claim.coveredThroughSequence

/-- If a checkpoint proves that the sequence after the verified head is missing, one proves it of
the whole hole that starts there. -/
def HoleReached (nodes : List ChainNode) :
    Prop :=
  ∀ hole ∈ (analyse anchor.chainId nodes).gaps,
    hole.fromSequence = (analyse anchor.chainId nodes).nextSequence →
      CoveredThrough inventory anchor hole.fromSequence →
        CoveredThrough inventory anchor hole.throughSequence

/-- What the checkpoints prove missing after the verified head is a hole below the nodes that are
placed again, or the place of a candidate that was not approved. -/
def ProvenKept (run : Run) : Prop :=
  ∀ sequence, (analyse anchor.chainId run.nodes).nextSequence ≤ sequence →
    CoveredThrough inventory anchor sequence → Unoccupied run.finalNodes sequence ∨
        ∃ stub ∈ run.stubCandidates, stub.objectHash ∉ run.approved ∧
          stub.value.signedManifest.manifest.chainSequence = sequence

end

namespace RunOf

variable (h : RunOf blobs inventory anchor options run)

include h

/-- What the findings prove missing: all from the next sequence to the end of a claim. -/
theorem proven_iff {p : Nat → Prop} : (∀ finding ∈ run.report.rollback.findings, ∀ first last,
      finding.provenMissingSequences = some (first, last) →
        ∀ sequence, first ≤ sequence → sequence ≤ last → p sequence) ↔
    ∀ sequence, (analyse anchor.chainId run.nodes).nextSequence ≤ sequence →
      CoveredThrough inventory anchor sequence → p sequence := by
  rw [h.rollback_report]
  constructor
  · rintro hp sequence hn ⟨claim, hc, hid, hle⟩
    have hco := hn.trans hle
    obtain ⟨finding, hfi⟩ := Option.ne_none_iff_exists'.mp (findingOf_ne_none hco)
    refine hp finding (mem_findings.mpr ⟨claim, hc, hid, hfi⟩) _ _ ?_ sequence hn hle
    rw [provenMissingSequences_of_findingOf hfi, if_pos hco]
  · intro hk finding hm first last hmi sequence hf hl
    obtain ⟨claim, hc, hid, hfi⟩ := mem_findings.mp hm
    rw [provenMissingSequences_of_findingOf hfi] at hmi
    split at hmi
    · cases hmi
      exact hk sequence hf ⟨claim, hc, hid, hl⟩
    · cases hmi

/-- Without stubs: the chain's gaps, where the longest proven interval replaces one. -/
theorem reported_of_empty (he : inventory.destroyed = []) : Reported run.report.gaps sequence ↔
      ((analyse anchor.chainId run.nodes).nextSequence ≤ sequence ∧
        CoveredThrough inventory anchor sequence) ∨
      ∃ gap ∈ (analyse anchor.chainId run.nodes).gaps, gap.Covers sequence ∧
        ¬ (gap.fromSequence = (analyse anchor.chainId run.nodes).nextSequence ∧
          CoveredThrough inventory anchor gap.fromSequence) := by
  set chain := analyse anchor.chainId run.nodes with hch
  set claims := authenticatedClaims inventory anchor
  have hga : run.report.gaps = (provenGaps chain claims anchor.chainId).foldl insertGap
      (chain.gaps.foldl insertGap ∅) :=
    congrArg Placement.gaps ((h.placement_report_of_empty he).trans h.placement_assessed)
  have hp : ∀ claim ∈ claims, claim.chainId = anchor.chainId →
      chain.nextSequence ≤ claim.coveredThroughSequence →
        ChainGap.mk anchor.chainId chain.nextSequence claim.coveredThroughSequence ∈
          provenGaps chain claims anchor.chainId :=
    fun claim hc hid hle => mem_provenGaps.mpr ⟨claim, hc, hid, hle, rfl⟩
  rw [hga]
  cases hl : (provenGaps chain claims anchor.chainId).getLast? with
  | none =>
    -- nothing is proven missing
    have hni := List.getLast?_eq_none_iff.mp hl
    have hu : ∀ s, chain.nextSequence ≤ s → ¬ CoveredThrough inventory anchor s := by
      rintro s hs ⟨claim, hc, hid, hle⟩
      have hm := hp claim hc hid (hs.trans hle)
      rw [hni] at hm
      exact List.not_mem_nil hm
    rw [hni, List.foldl_nil, reported_chainGaps]
    constructor
    · rintro ⟨gap, hg, hcv⟩
      exact .inr ⟨gap, hg, hcv, fun hst => hu _ hst.1.ge hst.2⟩
    · rintro (⟨hn, hco⟩ | ⟨gap, hg, hcv, -⟩)
      · exact absurd hco (hu _ hn)
      · exact ⟨gap, hg, hcv⟩
  | some _ =>
    obtain ⟨claim, hc, hid, hle, rfl⟩ := mem_provenGaps.mp (List.mem_of_getLast? hl)
    have ha : ∀ gap ∈ provenGaps chain claims anchor.chainId,
        gap.chainId = anchor.chainId ∧ gap.fromSequence = chain.nextSequence := by
      intro gap hg
      obtain ⟨-, -, -, -, rfl⟩ := mem_provenGaps.mp hg
      exact ⟨rfl, rfl⟩
    have hlo : ∀ s, chain.nextSequence ≤ s →
        (CoveredThrough inventory anchor s ↔ s ≤ claim.coveredThroughSequence) := by
      intro s hs
      refine ⟨?_, fun hle => ⟨claim, hc, hid, hle⟩⟩
      rintro ⟨other, ho, hid', hle'⟩
      have hm := hp other ho hid' (hs.trans hle')
      exact hle'.trans (throughSequence_le_last hm hl)
    rw [reported_insertGaps ha hl]
    refine or_congr (and_congr_right fun hn => (hlo _ hn).symm) ?_
    refine exists_congr fun gap => and_congr_right fun _ => ?_
    rw [and_comm]
    refine and_congr_right fun _ => not_congr ⟨fun hst => ⟨hst, ?_⟩, And.left⟩
    rw [hst]
    exact (hlo _ le_rfl).mpr hle

/-- With stubs: the gaps of the second placement and the places of the candidates that were not
approved. -/
theorem reported_of_ne (hne : inventory.destroyed ≠ []) : Reported run.report.gaps sequence ↔
      Unoccupied run.finalNodes sequence ∨
        ∃ stub ∈ run.stubCandidates, stub.objectHash ∉ run.approved ∧
          stub.value.signedManifest.manifest.chainSequence = sequence := by
  have hga : run.report.gaps =
      (unapprovedGaps anchor.chainId run.approved run.stubCandidates).foldl insertGapIfNew
        ((analyse anchor.chainId run.finalNodes).gaps.foldl insertGap ∅) :=
    congrArg Placement.gaps (h.placement_report hne)
  have hsi : ∀ gap ∈ unapprovedGaps anchor.chainId run.approved run.stubCandidates,
      gap.chainId = anchor.chainId ∧ gap.throughSequence = gap.fromSequence := by
    intro gap hg
    obtain ⟨stub, -, rfl⟩ := List.mem_map.mp hg
    exact ⟨rfl, rfl⟩
  rw [hga, reported_insertGapsIfNew hsi, covers_gaps_iff]
  refine or_congr_right ?_
  constructor
  · rintro ⟨gap, hg, rfl⟩
    obtain ⟨stub, hs, rfl⟩ := List.mem_map.mp hg
    obtain ⟨hc, hu⟩ := List.mem_filter.mp hs
    exact ⟨stub, hc, by simpa using hu, rfl⟩
  · rintro ⟨stub, hc, hu, rfl⟩
    exact ⟨_, List.mem_map.mpr ⟨stub, List.mem_filter.mpr ⟨hc, by simpa using hu⟩, rfl⟩, rfl⟩

/-- Without stubs only the hole after the verified head can be lost. -/
theorem gapsComplete_of_empty (he : inventory.destroyed = []) :
    GapsComplete run.finalNodes run.report ↔ HoleReached inventory anchor run.nodes := by
  rw [h.finalNodes_of_empty he]
  set chain := analyse anchor.chainId run.nodes
  constructor
  · rintro ⟨hh, -⟩ hole hho hs hco
    have hen : hole.Covers hole.throughSequence := ⟨(of_mem_gaps hho).2.1, le_rfl⟩
    have hr := hh _ (covers_gaps_iff.mp ⟨hole, hho, hen⟩)
    rcases (h.reported_of_empty he).mp hr with ⟨-, hrc⟩
      | ⟨gap, hg, hcv, hk⟩
    · exact hrc
    · -- another gap cannot cover the end of this one
      have hsa : gap = hole := gap_eq_of_covers hg hho hcv hen
      exact absurd ⟨hsa ▸ hs, hsa ▸ hco⟩ hk
  · intro hrc
    refine ⟨fun sequence hho => ?_, h.proven_iff.mpr fun sequence hn hco =>
      (h.reported_of_empty he).mpr (.inl ⟨hn, hco⟩)⟩
    have hco : ∃ gap ∈ chain.gaps, gap.Covers sequence := covers_gaps_iff.mpr hho
    obtain ⟨gap, hg, hcv⟩ := hco
    refine (h.reported_of_empty he).mpr ?_
    by_cases hl : gap.fromSequence = chain.nextSequence ∧
        CoveredThrough inventory anchor gap.fromSequence
    · obtain ⟨claim, hc, hid, hle⟩ := hrc gap hg hl.1 hl.2
      exact .inl ⟨hl.1 ▸ hcv.1, claim, hc, hid, hcv.2.trans hle⟩
    · exact .inr ⟨gap, hg, hcv, hl⟩

/-- With stubs only what the checkpoints prove can be lost. -/
theorem gapsComplete_of_ne (hne : inventory.destroyed ≠ []) :
    GapsComplete run.finalNodes run.report ↔ ProvenKept inventory anchor run := by
  constructor
  · rintro ⟨-, hp⟩ sequence hn hc
    exact (h.reported_of_ne hne).mp (h.proven_iff.mp hp sequence hn hc)
  · intro hk
    refine ⟨fun sequence hh => (h.reported_of_ne hne).mpr (.inl hh), ?_⟩
    exact h.proven_iff.mpr fun sequence hn hc =>
      (h.reported_of_ne hne).mpr (hk sequence hn hc)

end RunOf

/-- **When the gaps of a completed report are complete**: without stubs if the checkpoints reach the
end of the hole after the verified head, with stubs if the second placement finds again what the
checkpoints prove missing. -/
theorem gapsComplete_iff {source : ArchiveSource} {report : VerificationReport}
    (hbuild : ArchiveInventory.build source = .ok inventory)
    (hverify : verifyArchive source anchor options = .ok report)
    (hcompleted : report.pipelineCompleted = true) :
    GapsComplete (verifyRun inventory anchor options).finalNodes report ↔ inventory.destroyed = [] ∧
          HoleReached inventory anchor (verifyRun inventory anchor options).nodes ∨
        inventory.destroyed ≠ [] ∧
          ProvenKept inventory anchor (verifyRun inventory anchor options) := by
  obtain ⟨h, rfl⟩ := runOf_of_verifyArchive hbuild hverify hcompleted
  by_cases he : inventory.destroyed = []
  · simp only [he, true_and, ne_eq, not_true, false_and, or_false]
    exact h.gapsComplete_of_empty he
  · simp only [he, false_and, false_or, ne_eq, not_false_iff, true_and]
    exact h.gapsComplete_of_ne he

/-- The entries of the sequences zero and five, and a checkpoint. -/
def holeArchive (checkpoint : ArchiveObject) : TableArchive where
  table
    | 40 => some (entryPackage (writerManifest 0 0 none))
    | 45 => some (entryPackage (writerManifest 5 5 (some 104)))
    | 50 => some checkpoint
    | hash => organization hash
  delivered := organizationNames ++ [40, 45, 50]

omit [Crypto] [EscrowRules] in
theorem gapsComplete_iff_reached :
    let archive := holeArchive (standardCheckpoint 4 104)
    let options : VerifyOptions := { osWallClock := 15 }
    let := archive.crypto
    let := archive.escrowRules
    ∃ inventory report, ArchiveInventory.build archive.source = .ok inventory ∧
      archive.verify organizationAnchor options = .ok report ∧ report.pipelineCompleted = true ∧
        (GapsComplete (verifyRun inventory organizationAnchor options).finalNodes report ↔
          inventory.destroyed = [] ∧ HoleReached inventory organizationAnchor
              (verifyRun inventory organizationAnchor options).nodes ∨
            inventory.destroyed ≠ [] ∧ ProvenKept inventory organizationAnchor
              (verifyRun inventory organizationAnchor options)) := by
  intro archive options _ _
  obtain ⟨inventory, report, hb, hv, hc⟩ :=
    archive.exists_report organizationAnchor options (·.pipelineCompleted)
  exact ⟨inventory, report, hb, hv, hc, gapsComplete_iff hb hv hc⟩

omit [Crypto] [EscrowRules] in
/-- The checkpoint covers sequence two.  Its interval replaces the hole from one to four, and the
sequence four is no longer reported. -/
theorem not_gapsComplete_of_short_checkpoint :
    let archive := holeArchive (standardCheckpoint 2 102)
    let options : VerifyOptions := { osWallClock := 15 }
    let := archive.crypto
    let := archive.escrowRules
    ∃ inventory report, ArchiveInventory.build archive.source = .ok inventory ∧
      archive.verify organizationAnchor options = .ok report ∧ report.pipelineCompleted = true ∧
        ¬ GapsComplete (verifyRun inventory organizationAnchor options).finalNodes report := by
  intro archive options _ _
  obtain ⟨inventory, report, hb, hv, hp⟩ := archive.exists_report organizationAnchor options
    (fun report => report.pipelineCompleted && report.gaps.toList.all fun (_, gap) =>
      !decide (gap.fromSequence ≤ 4 ∧ 4 ≤ gap.throughSequence))
  have hh : (ArchiveInventory.build archive.source).toOption.any (fun inventory =>
      let nodes := (verifyRun inventory organizationAnchor options).finalNodes
      (∃ node ∈ nodes, 4 < node.chainSequence) ∧ ∀ node ∈ nodes, node.chainSequence ≠ 4) =
      true := by decide +kernel
  simp only [hb, Except.toOption, Option.any_some, decide_eq_true_eq] at hh
  simp only [Bool.and_eq_true, List.all_eq_true] at hp
  refine ⟨inventory, report, hb, hv, hp.1, fun hc => ?_⟩
  obtain ⟨_, gap, hg, hco⟩ := hc.holes 4 hh
  have hu := hp.2 _ (Std.TreeMap.mem_toList_iff_getElem?_eq_some.mpr hg)
  simp only [Bool.not_eq_true', decide_eq_false_iff_not] at hu
  exact hu hco

/-! ## 5. The stubs of a run -/

/-- The sequence lies on the part of the chain that is verified and linked down to a genesis. -/
def InVerifiedPrefix (chainId : ChainId) (nodes : List ChainNode) (sequence : Nat) : Prop :=
  ∃ head, Anchored nodes head ∧ (analyse chainId nodes).verifiedHead = some (headOf head) ∧
    sequence ≤ head.chainSequence

/-- The stubs that evidence approves in the run. -/
def Run.approve (inventory : ArchiveInventory) (run : Run) (evidence : List VerifiedEvidence) :
    List ObjectHash :=
  approvedStubs (publishChainHead run.claims.report run.chain) inventory run.stubCandidates
    run.attestations evidence

namespace RunOf

variable (h : RunOf blobs inventory anchor options run)

include h

/-- The stubs among the nodes are the candidates. -/
theorem stubCount_nodes : stubCount
    (run.claims.evidence, run.nodes) = run.stubCandidates.length := by
  have he : (run.placed.map entryChainNode).countP isStub = 0 := by
    refine List.countP_eq_zero.mpr fun node hn => ?_
    obtain ⟨_, -, rfl⟩ := List.mem_map.mp hn
    simp [isStub, entryChainNode, chainNode]
  have hs : (run.stubCandidates.map stubChainNode).countP isStub =
      (run.stubCandidates.map stubChainNode).length := by
    refine List.countP_eq_length.mpr fun node hn => ?_
    obtain ⟨_, -, rfl⟩ := List.mem_map.mp hn
    simp [isStub, stubChainNode, chainNode]
  rw [stubCount, h.nodes_eq, List.countP_append, he, hs, List.length_map, Nat.zero_add]

theorem converge_eq (hne : inventory.destroyed ≠ []) : (run.approved, run.finalNodes) =
    convergeStubs anchor.chainId (run.approve inventory) (run.nodes.length + 1)
      run.claims.evidence run.nodes := by
  have heq := h.approved_eq
  rw [if_neg (by simpa using hne)] at heq
  exact heq

/-- The loop of a run exits after at most one round more than there are candidates. -/
theorem exits (hne : inventory.destroyed ≠ []) : ∃ n ≤ run.stubCandidates.length,
    Exits (stubRound anchor.chainId (run.approve inventory)) nodeCount
      (run.claims.evidence, run.nodes) n ∧
    run.finalNodes = ((stubRound anchor.chainId (run.approve inventory))^[n + 1]
      (run.claims.evidence, run.nodes)).2 := by
  obtain ⟨n, he, hre⟩ := convergeStubs_exits anchor.chainId
    (run.approve inventory) (stubCount_lt_fuel _)
  have hr := he.add_le fun s => stubCount_lt s
  rw [h.stubCount_nodes] at hr
  exact ⟨n, by omega, he, congrArg Prod.snd ((h.converge_eq hne).trans hre)⟩

/-- The stubs left among the nodes are the approved ones. -/
theorem mem_approved_iff {hash : ObjectHash} : hash ∈ run.approved ↔
    ∃ node ∈ run.finalNodes, isStub node = true ∧ node.objectHash = hash := by
  constructor
  · intro ha
    obtain ⟨stub, hs, rfl, -⟩ := h.exists_of_mem_approved ha
    exact ⟨stubChainNode stub, h.mem_finalNodes.mpr (.inr ⟨stub, hs, ha, rfl⟩), rfl, rfl⟩
  · rintro ⟨node, hn, hk, rfl⟩
    rcases h.mem_finalNodes.mp hn with ⟨_, -, rfl⟩ | ⟨stub, -, ha, rfl⟩
    · cases hk
    · exact ha

/-- The end of the verified prefix of the final nodes is linked down to a genesis. -/
theorem inVerifiedPrefix {last sequence : Nat}
    (he : verifiedPrefixEnd anchor.chainId run.finalNodes = some last) (hle : sequence ≤ last) :
    InVerifiedPrefix anchor.chainId run.finalNodes sequence := by
  unfold verifiedPrefixEnd at he
  rw [h.buildChain_finalNodes] at he
  dsimp only at he
  split at he
  next hf =>
    obtain ⟨_, hh, rfl⟩ := Option.map_eq_some_iff.mp he
    have had := (buildChain_eq_ok.mp h.buildChain_finalNodes).2.1
    obtain ⟨node, ha, rfl⟩ := anchored_of_verifiedHead had hf hh
    exact ⟨node, ha, hh, hle⟩
  next => cases he

/-- An approved stub is supported by evidence on the verified prefix of the final nodes. -/
theorem supported {stub : Parsed DestroyedEntryStub} (hs : stub ∈ run.stubCandidates)
    (ha : stub.objectHash ∈ run.approved) :
    ∃ used ⊆ run.claims.evidence,
      (∀ proof ∈ used, InVerifiedPrefix anchor.chainId run.finalNodes proof.sequence) ∧
        evidenceHolds stub used run.attestations inventory = true := by
  have hne : inventory.destroyed ≠ [] := fun he => by
    simp [h.stubCandidates_eq_nil he] at hs
  obtain ⟨used, hu, heq, hp⟩ := convergeStubs_fixed anchor.chainId
    (run.approve inventory) (stubCount_lt_fuel _)
  rw [← h.converge_eq hne] at heq hp
  refine ⟨used, hu, fun proof hpr => ?_, ?_⟩
  · obtain ⟨_, hen, hle⟩ := hp proof hpr
    exact h.inVerifiedPrefix hen hle
  · have hm : stub.objectHash ∈ run.approve inventory used := by
      rw [← heq]
      exact ha
    obtain ⟨_, hstub', -, hho, hh⟩ := mem_approvedStubs.mp hm
    -- a hash stands once among the stubs
    rw [h.stubCandidates_eq, mem_candidates] at hs hstub'
    obtain rfl := HashDetermines.of_pairwise h.spec.destroyed_distinct _ hstub'.1 _ hs.1 hh
    exact hho

end RunOf

/-- **The approved stubs support themselves.**  The loop exits after at most one round more than
there are candidates; the stubs left among the nodes are the approved ones; and each of them is
supported by evidence that lies on the verified prefix of exactly these nodes. -/
theorem stubs_selfSupporting {source : ArchiveSource}
    (hbuild : ArchiveInventory.build source = .ok inventory) :
    let run := verifyRun inventory anchor options
    (inventory.destroyed ≠ [] → ∃ n ≤ run.stubCandidates.length,
      Exits (stubRound anchor.chainId (run.approve inventory)) nodeCount
        (run.claims.evidence, run.nodes) n ∧
      run.finalNodes = ((stubRound anchor.chainId (run.approve inventory))^[n + 1]
        (run.claims.evidence, run.nodes)).2) ∧
    (∀ hash, hash ∈ run.approved ↔
      ∃ node ∈ run.finalNodes, isStub node = true ∧ node.objectHash = hash) ∧
    ∀ stub ∈ run.stubCandidates, stub.objectHash ∈ run.approved → ∃ used ⊆ run.claims.evidence,
        (∀ proof ∈ used, InVerifiedPrefix anchor.chainId run.finalNodes proof.sequence) ∧
          evidenceHolds stub used run.attestations inventory = true := by
  have h : RunOf source.blobs inventory anchor options (verifyRun inventory anchor options) :=
    ⟨build_spec hbuild, rfl⟩
  exact ⟨h.exits, fun _ => h.mem_approved_iff, fun _ => h.supported⟩

/-- The recovery grant of an entry under head 86. -/
def lateRecoveryGrant (entryHash : EntryHash) : ArchiveObject :=
  .grant ⟨⟨1, 2, entryHash, .initial, .recovery, 77, 78, 104, 20, 7, 86, none, none, [], []⟩,
    signedBy .grantDigest 104 20⟩

/-- Entry zero, the stub of sequence one, and entry two, which holds the evidence of the
destruction; event 86 of version 7 binds the operator who signed it. -/
def destroyedArchive : TableArchive where
  table
    | 20 => some (trustObject (.authorized (.device (deviceCertificate 20 .writer 104
        ["initialGrant"] none)) 21) 101 1)
    | 40 => some (entryPackage (underHead 7 86 (writerManifest 0 0 none)))
    | 41 => some (lateRecoveryGrant 100)
    | 42 => some (entryPackage (underHead 7 86 (writerManifest 2 2 (some 101))))
    | 43 => some (lateRecoveryGrant 102)
    | 60 => some (destroyedStub (underHead 7 86 (writerManifest 1 1 (some 100))) 61 9 90)
    | 84 => some (trustObject (.authorized (.operatorBinding
        ⟨1, 16, 0, 20, .writer, 5, 109, 0, none⟩) 85) 101 1)
    | 85 => some (adminAuthorization 85 6 82 4 .operatorBinding)
    | 86 => some (registryEvent 7 (some 82) (.operatorBinding 84) 87)
    | 87 => some (adminAuthorization 87 6 82 4 .registryEvent)
    | 90 => some (.trust ⟨.destructionAuthorization ⟨9, 1, 7, 86, 1, [⟨101, 1⟩], 0⟩,
        [signedBy .trustDigest 106 70, signedBy .trustDigest 107 74]⟩)
    | 93 => some (trustObject (.deletionAttestation ⟨9, 90, 80, 0, [61], 0, none, 5⟩) 108 80)
    | hash => destroyingOrganization hash
  delivered := destroyingNames ++ [40, 41, 42, 43, 60, 84, 85, 86, 87, 93]

/-- The primitives of the archive; the plaintext of entry two is the evidence. -/
@[reducible] def destroyedCrypto : Crypto :=
  { destroyedArchive.crypto with
    hpkeOpen := fun _ _ => some []
    aeadOpen := fun _ manifest _ => some [UInt8.ofNat manifest.nonce]
    destructionEvidence := fun bytes => if bytes = [2] then
        some ⟨7, ⟨1, 16, 84, "", "", []⟩, 9, 90, 0, [⟨101, 1⟩], [101], [(101, 60)], [(80, 93)]⟩
      else none }

omit [Crypto] [EscrowRules] in
theorem stubs_selfSupporting_destroyed :
    let := destroyedCrypto
    let : EscrowRules := ⟨fun _ => true⟩
    let options : VerifyOptions := { osWallClock := 15, recipient := some ⟨77, []⟩ }
    ∃ inventory, ArchiveInventory.build destroyedArchive.source = .ok inventory ∧
      let run := verifyRun inventory organizationAnchor options
      run.approved = [60] ∧
      (inventory.destroyed ≠ [] → ∃ n ≤ run.stubCandidates.length,
        Exits (stubRound organizationAnchor.chainId (run.approve inventory)) nodeCount
          (run.claims.evidence, run.nodes) n ∧
        run.finalNodes = ((stubRound organizationAnchor.chainId (run.approve inventory))^[n + 1]
          (run.claims.evidence, run.nodes)).2) ∧
      (∀ hash, hash ∈ run.approved ↔
        ∃ node ∈ run.finalNodes, isStub node = true ∧ node.objectHash = hash) ∧
      ∀ stub ∈ run.stubCandidates, stub.objectHash ∈ run.approved → ∃ used ⊆ run.claims.evidence,
          (∀ proof ∈ used,
            InVerifiedPrefix organizationAnchor.chainId run.finalNodes proof.sequence) ∧
            evidenceHolds stub used run.attestations inventory = true := by
  intro _ _ options
  have ha : (ArchiveInventory.build destroyedArchive.source).toOption.any (fun inventory =>
      (verifyRun inventory organizationAnchor options).approved = [60]) = true := by decide +kernel
  cases hb : ArchiveInventory.build destroyedArchive.source with
  | error error => simp [hb, Except.toOption] at ha
  | ok inventory =>
    exact ⟨inventory, rfl, by simpa [hb, Except.toOption] using ha, stubs_selfSupporting hb⟩

end Einsatzarchiv.Verify
