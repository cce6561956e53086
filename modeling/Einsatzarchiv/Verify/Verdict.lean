/-
  File:      Einsatzarchiv/Verify/Verdict.lean
  Subject:   What the full verdict of a report says about the archive.

  * `CleanRun`: a run whose report shows no error of an object, a signature or the chain.  All
    entries are placed, all candidates are approved, and the chain of both placements is the same
    and has no finding.
  * `FullRun`: a run whose report is fully verified.
  * `fullyVerified_sound`: every entry is valid, and the entries and the destroyed stubs form a
    complete chain that ends in the head of the report.
  * `fullyVerified_rollback_iff`: when a fully verified report still reports a rollback.
-/
import Einsatzarchiv.Verify.Runs

namespace Einsatzarchiv.Verify

open Lib Format Archive Chain Trust

variable [Crypto] [EscrowRules]
variable {blobs : List Bytes} {inventory : ArchiveInventory} {anchor : TrustAnchor}
  {options : VerifyOptions} {run : Run} {field : Field} {hash : ObjectHash}
  {stub : Parsed DestroyedEntryStub} {entry : Parsed EntryPackage} {claim : CheckpointClaim}

/-! ## 1. Fully verified runs -/

/-- A run whose report shows no error of an object, a signature or the chain. -/
structure CleanRun (blobs : List Bytes) (inventory : ArchiveInventory) (anchor : TrustAnchor)
    (options : VerifyOptions) (run : Run) : Prop extends
    RunOf blobs inventory anchor options run where
  unlisted : ∀ field hash, run.report.Lists field hash →
    field ≠ .quarantinedObjects ∧ field ≠ .formatErrors ∧ field ≠ .signatureErrors
  isEmpty_gaps : run.report.placement.gaps.isEmpty = true

/-- A run whose report is fully verified. -/
structure FullRun (blobs : List Bytes) (inventory : ArchiveInventory) (anchor : TrustAnchor)
    (options : VerifyOptions) (run : Run) : Prop extends
    CleanRun blobs inventory anchor options run where
  full : run.report.isFullyVerified = true

/-- A fully verified report is that of a run: without the trust gate nothing is completed. -/
theorem fullRun_of_verifyArchive {src : ArchiveSource} {report : VerificationReport}
    (hb : ArchiveInventory.build src = .ok inventory)
    (hv : verifyArchive src anchor options = .ok report)
    (hf : report.isFullyVerified = true) :
    FullRun src.blobs inventory anchor options (verifyRun inventory anchor options) ∧
      report = (verifyRun inventory anchor options).report := by
  obtain ⟨hc, hl, hg⟩ := VerificationReport.isFullyVerified_iff.mp hf
  obtain ⟨hr, rfl⟩ := runOf_of_verifyArchive hb hv hc
  refine ⟨⟨⟨hr, fun field hash h => ?_, hg⟩, hf⟩, rfl⟩
  rw [hl field hash h]
  simp

namespace CleanRun

variable (h : CleanRun blobs inventory anchor options run)

include h

/-- Nothing is listed before the receipts. -/
theorem not_lists_assessed : ¬ run.assessed.Lists field hash := by
  intro hl
  obtain ⟨hq, hfm, hs⟩ := h.unlisted field hash (h.lists_report_of_assessed hl)
  exact h.toRunOf.not_lists_assessed hq hfm hs hl

theorem not_names : ¬ (analyse anchor.chainId run.nodes).Names hash := fun hn =>
  h.not_lists_assessed (h.lists_assessed.mpr (.inl (h.lists_planned.mpr (.inl (.inl
    (h.lists_positioned.mpr (.inr ⟨rfl, hn⟩)))))))

theorem not_conflicts : ¬ Conflicts (analyse anchor.chainId run.nodes)
    (authenticatedClaims inventory anchor) hash := fun hc =>
  h.not_lists_assessed (h.lists_assessed.mpr (.inr (.inr ⟨rfl, hc⟩)))

/-- Every entry is placed. -/
theorem mem_placed_iff : entry ∈ run.placed ↔ entry ∈ inventory.entries := by
  rw [h.mem_placed]
  refine and_iff_left_of_imp fun he => ?_
  have ho : ∀ field hash, ¬ run.judged.Lists field hash := fun field hash hl =>
    h.not_lists_assessed (h.lists_assessed.mpr (.inl (h.lists_planned.mpr (.inl (.inl
      (h.lists_positioned.mpr (.inl (h.lists_recorded.mpr (.inl hl)))))))))
  have hqu : entry.objectHash ∉ inventory.quarantined := fun hq =>
    ho .quarantinedObjects _ (h.lists_judged.mpr (.inl (lists_opened.mpr (.inl ⟨rfl, hq⟩))))
  refine ⟨hqu, ?_⟩
  by_contra hf
  obtain ⟨field, hf⟩ := Option.ne_none_iff_exists'.mp hf
  refine ho field _ (h.lists_judged.mpr (.inr ⟨entry, he, ?_, hf, rfl⟩))
  exact fun hq => hqu (by simpa [lists_opened] using hq)

/-- Every candidate is approved: otherwise its sequence would be a gap. -/
theorem mem_approved (hs : stub ∈ run.stubCandidates) : stub.objectHash ∈ run.approved := by
  have hne : inventory.destroyed ≠ [] := fun he => by
    simp [h.stubCandidates_eq_nil he] at hs
  have hg := h.isEmpty_gaps
  rw [h.placement_report hne, isEmpty_insertGapsIfNew] at hg
  by_contra hu
  have hf : stub ∈ run.stubCandidates.filter (fun stub => !run.approved.contains stub.objectHash) :=
    List.mem_filter.mpr ⟨hs, by simpa using hu⟩
  exact List.ne_nil_of_mem hf (List.map_eq_nil_iff.mp hg.1)

/-- The second placement has the nodes of the first one. -/
theorem finalNodes_eq_nodes : run.finalNodes = run.nodes := by
  rw [h.finalNodes_eq]
  refine List.filter_eq_self.mpr fun node hn => ?_
  rcases h.mem_nodes.mp hn with ⟨_, -, rfl⟩ | ⟨_, hs, rfl⟩
  · rfl
  · simpa [stubChainNode, chainNode] using h.mem_approved hs

theorem gaps_eq_nil : (analyse anchor.chainId run.nodes).gaps = [] := by
  have hg := h.isEmpty_gaps
  by_cases he : inventory.destroyed = []
  · rw [h.placement_report_of_empty he, h.placement_assessed, isEmpty_insertGaps,
      isEmpty_insertGaps] at hg
    exact hg.2.1
  · rw [h.placement_report he, isEmpty_insertGapsIfNew, isEmpty_insertGaps,
      h.finalNodes_eq_nodes] at hg
    exact hg.2.1

/-- **The chain of a clean run is complete.** -/
theorem complete (hne : run.nodes ≠ []) : ∃ last, Complete run.nodes last ∧
    (analyse anchor.chainId run.nodes).verifiedHead = some (headOf last) := by
  obtain ⟨hf, hb⟩ := clean_of_not_names fun _ => h.not_names
  exact complete_of_clean (fun _ => h.admitted_of_mem_nodes) hne hf hb h.gaps_eq_nil

/-- No checkpoint withdraws the head. -/
theorem chainHead_eq : run.report.chainHead =
    (analyse anchor.chainId run.nodes).verifiedHead.getD (sentinel anchor.chainId) := by
  by_cases he : inventory.destroyed = []
  · have hh := congrArg Placement.chainHead
      ((h.placement_report_of_empty he).trans h.placement_assessed)
    have hn : (assessRollback (analyse anchor.chainId run.nodes)
        (authenticatedClaims inventory anchor)).findings.any
          (AtHead (analyse anchor.chainId run.nodes)) = false := by
      refine List.any_eq_false.mpr fun finding hf => ?_
      cases finding with
      | truncatedBelowCheckpoint _ _ cp => simp [AtHead]
      | headEntryHashMismatch _ _ _ cp _ =>
        exact absurd (conflicts_iff_finding.mpr ⟨_, hf, rfl⟩) h.not_conflicts
    exact hh.trans (by simp only [hn]; rfl)
  · have hh := congrArg Placement.chainHead (h.placement_report he)
    rw [h.finalNodes_eq_nodes] at hh
    exact hh

/-- **When a clean run reports no rollback**: a claim has a finding only if it covers a
sequence above every node. -/
theorem findingOf_eq_none_iff (hc : claim ∈ authenticatedClaims inventory anchor)
    (hid : claim.chainId = anchor.chainId) :
    findingOf (analyse anchor.chainId run.nodes) claim = none ↔
      ∃ node ∈ run.nodes, claim.coveredThroughSequence ≤ node.chainSequence := by
  rw [findingOf_eq_none]
  constructor
  · rintro ⟨-, -, -, node, hno, hs, -⟩
    exact ⟨node, mem_sortNodes.mp hno, hs.ge⟩
  · rintro ⟨node, hno, hle⟩
    obtain ⟨last, hco, hh⟩ := h.complete (List.ne_nil_of_mem hno)
    have hl : claim.coveredThroughSequence ≤ last.chainSequence :=
      hle.trans ((hco.occupied _).mp ⟨node, hno, rfl⟩)
    obtain ⟨n, hn, hs⟩ := (hco.occupied _).mpr hl
    obtain ⟨m, hm, -⟩ := exists_verifiedNodeAt anchor.chainId hn
    obtain ⟨hme, hs'⟩ := verifiedNodeAt_eq_some hm
    refine ⟨_, hh, hl, m, mem_sortNodes.mpr hme, hs'.trans hs, ?_⟩
    by_contra hd
    exact h.not_conflicts ⟨claim, hc, hid, findingOf_conflicting.mpr
      ⟨⟨_, hh, hl⟩, m, hs ▸ hm, hd, rfl⟩⟩

end CleanRun

/-! ## 2. Rollbacks -/

/-- Without stubs a proven gap stays in the report, so that no claim covers a sequence above every
node. -/
theorem CleanRun.covered_of_empty (h : CleanRun blobs inventory anchor options run)
    (he : inventory.destroyed = []) (hc : claim ∈ authenticatedClaims inventory anchor)
    (hid : claim.chainId = anchor.chainId) :
    ∃ node ∈ run.nodes, claim.coveredThroughSequence ≤ node.chainSequence := by
  by_contra hcv
  have hf := mt (h.findingOf_eq_none_iff hc hid).mp hcv
  obtain ⟨finding, hf⟩ := Option.ne_none_iff_exists'.mp hf
  have hn : (analyse anchor.chainId run.nodes).nextSequence ≤
      claim.coveredThroughSequence := by
    by_cases hne : run.nodes = []
    · simp [hne, VerifiedChain.nextSequence, analyse, sortNodes, sortByKey, groupsBy,
        walkVerifiedPrefix]
    · obtain ⟨last, hco, hh⟩ := h.complete hne
      simp only [VerifiedChain.nextSequence, hh, Option.elim_some, headOf]
      exact Nat.succ_le_of_lt (not_le.mp fun hle => hcv ⟨last, hco.last_mem, hle⟩)
  have hg := h.isEmpty_gaps
  rw [h.placement_report_of_empty he, h.placement_assessed, isEmpty_insertGaps] at hg
  have hp := List.filterMap_eq_nil_iff.mp hg.1 finding (mem_findings.mpr ⟨claim, hc, hid, hf⟩)
  simp [provenGap, provenMissingSequences_of_findingOf hf, hn] at hp

/-- No authenticated checkpoint reaches beyond the entries and the candidates among the stubs. -/
def CheckpointsReached (inventory : ArchiveInventory) (anchor : TrustAnchor)
    (options : VerifyOptions) : Prop :=
  ∀ claim ∈ authenticatedClaims inventory anchor, claim.chainId = anchor.chainId →
    (∃ entry ∈ inventory.entries, claim.coveredThroughSequence ≤
      entry.value.signedManifest.manifest.chainSequence) ∨
    ∃ stub ∈ (verifyRun inventory anchor options).stubCandidates,
      claim.coveredThroughSequence ≤ stub.value.signedManifest.manifest.chainSequence

theorem CleanRun.checkpointsReached_iff
    (h : CleanRun blobs inventory anchor options (verifyRun inventory anchor options)) :
    CheckpointsReached inventory anchor options ↔
      ∀ claim ∈ authenticatedClaims inventory anchor, claim.chainId = anchor.chainId →
        ∃ node ∈ (verifyRun inventory anchor options).nodes,
          claim.coveredThroughSequence ≤ node.chainSequence := by
  refine forall_congr' fun claim => forall_congr' fun _ => forall_congr' fun _ => ?_
  simp only [h.mem_nodes, h.mem_placed_iff]
  constructor
  · rintro (⟨entry, he, hle⟩ | ⟨stub, hs, hle⟩)
    · exact ⟨_, .inl ⟨entry, he, rfl⟩, hle⟩
    · exact ⟨_, .inr ⟨stub, hs, rfl⟩, hle⟩
  · rintro ⟨node, ⟨entry, he, rfl⟩ | ⟨stub, hs, rfl⟩, hle⟩
    · exact .inl ⟨entry, he, hle⟩
    · exact .inr ⟨stub, hs, hle⟩

/-- A clean run reports no rollback if no stub was delivered, or if no checkpoint reaches beyond. -/
theorem CleanRun.rollback_iff
    (h : CleanRun blobs inventory anchor options (verifyRun inventory anchor options)) :
    (∀ findings, (verifyRun inventory anchor options).report.rollback ≠ .rollback findings) ↔
      inventory.destroyed = [] ∨ CheckpointsReached inventory anchor options := by
  rw [h.checkpointsReached_iff, h.rollback_report, assessRollback_ne_rollback]
  constructor
  · exact fun hn => .inr fun claim hc hid =>
      (h.findingOf_eq_none_iff hc hid).mp (hn claim hc hid)
  · rintro (he | hco) claim hc hid
    · exact (h.findingOf_eq_none_iff hc hid).mpr (h.covered_of_empty he hc hid)
    · exact (h.findingOf_eq_none_iff hc hid).mpr (hco claim hc hid)

/-- **When a fully verified report reports no rollback**: if no stub was delivered, or if no
authenticated checkpoint reaches beyond the entries and the candidates among the stubs. -/
theorem fullyVerified_rollback_iff {source : ArchiveSource} {report : VerificationReport}
    (hbuild : ArchiveInventory.build source = .ok inventory)
    (hverify : verifyArchive source anchor options = .ok report)
    (hfull : report.isFullyVerified = true) :
    (∀ findings, report.rollback ≠ .rollback findings) ↔
      inventory.destroyed = [] ∨ CheckpointsReached inventory anchor options := by
  obtain ⟨h, rfl⟩ := fullRun_of_verifyArchive hbuild hverify hfull
  exact h.rollback_iff

/-- One entry at sequence zero with its grant, a checkpoint, and a stub of sequence one that no
destruction covers. -/
def checkpointArchive (checkpoint : ArchiveObject) : TableArchive where
  table
    | 40 => some (entryPackage (writerManifest 0 0 none))
    | 41 => some (recoveryGrant 100)
    | 50 => some checkpoint
    | 60 => some (destroyedStub (writerManifest 1 1 (some 100)) 61 9 9)
    | hash => organization hash
  delivered := organizationNames ++ [40, 41, 50, 60]

omit [Crypto] [EscrowRules] in
theorem fullyVerified_rollback_iff_consistent :
    let archive := checkpointArchive (standardCheckpoint 0 100)
    let options : VerifyOptions := { osWallClock := 15 }
    let := archive.crypto
    let := archive.escrowRules
    ∃ inventory report, ArchiveInventory.build archive.source = .ok inventory ∧
      archive.verify organizationAnchor options = .ok report ∧ report.isFullyVerified = true ∧
        ((∀ findings, report.rollback ≠ .rollback findings) ↔ inventory.destroyed = [] ∨
          CheckpointsReached inventory organizationAnchor options) := by
  intro archive options _ _
  obtain ⟨inventory, report, hb, hv, hf⟩ :=
    archive.exists_report organizationAnchor options (·.isFullyVerified)
  exact ⟨inventory, report, hb, hv, hf, fullyVerified_rollback_iff hb hv hf⟩

omit [Crypto] [EscrowRules] in
/-- The checkpoint covers sequence one, which is missing, but the stub clears the gap it proves. -/
theorem fullyVerified_of_truncated : ∃ report,
    (checkpointArchive (standardCheckpoint 1 101)).verify organizationAnchor
        { osWallClock := 15 } = .ok report ∧
      report.isFullyVerified = true ∧ ∃ findings, report.rollback = .rollback findings := by
  obtain ⟨-, report, -, hv, hp⟩ := (checkpointArchive (standardCheckpoint 1 101)).exists_report
    organizationAnchor { osWallClock := 15 }
    (fun report => report.isFullyVerified && !report.rollback.findings.isEmpty)
  simp only [Bool.and_eq_true, Bool.not_eq_true', List.isEmpty_eq_false_iff] at hp
  refine ⟨report, hv, hp.1, ?_⟩
  cases hr : report.rollback with
  | rollback findings => exact ⟨findings, rfl⟩
  | notAssessable | consistent => exact absurd (by rw [hr]; rfl) hp.2

/-! ## 3. Soundness -/

/-- The report lists the stub as destroyed with authority. -/
def AuthorizedDestroyed (report : VerificationReport) (stub : Parsed DestroyedEntryStub) : Bool :=
  report.objectResults[stub.objectHash]?.any (·.result = .authorizedDestroyed)

/-- The nodes of all entries and of the stubs that were destroyed with authority. -/
def verifiedNodes (inventory : ArchiveInventory) (report : VerificationReport) : List ChainNode :=
  inventory.entries.map entryChainNode ++
    (inventory.destroyed.filter (AuthorizedDestroyed report)).map stubChainNode

namespace FullRun

variable (h : FullRun blobs inventory anchor options run)

include h

theorem authorizedDestroyed_iff (hs : stub ∈ inventory.destroyed) :
    AuthorizedDestroyed run.report stub = true ↔ stub ∈ run.stubCandidates := by
  unfold AuthorizedDestroyed
  rw [h.getElem?_objectResults]
  constructor
  · intro hr
    have ha : stub.objectHash ∈ run.approved := by
      by_contra hu
      rw [if_neg hu, Option.any_eq_true] at hr
      obtain ⟨res, hg, hk⟩ := hr
      have hv := (h.resultsValid_receipted _ res hg).2
      simp [hv] at hk
    obtain ⟨cand, hc, hh, -⟩ := h.exists_of_mem_approved ha
    have hm := hc
    rw [h.stubCandidates_eq, mem_candidates] at hm
    -- a hash stands once among the stubs
    have hsa : cand = stub := HashDetermines.of_pairwise h.spec.destroyed_distinct _ hm.1 _ hs hh
    exact hsa ▸ hc
  · intro hc
    rw [if_pos (h.mem_approved hc)]
    rfl

theorem mem_verifiedNodes {node : ChainNode} :
    node ∈ verifiedNodes inventory run.report ↔ node ∈ run.nodes := by
  simp only [verifiedNodes, List.mem_append, List.mem_map, List.mem_filter, h.mem_nodes,
    h.mem_placed_iff]
  refine or_congr_right (exists_congr fun stub => and_congr_left fun _ => ?_)
  constructor
  · rintro ⟨hs, hd⟩
    exact (h.authorizedDestroyed_iff hs).mp hd
  · intro hc
    have hm := hc
    rw [h.stubCandidates_eq, mem_candidates] at hm
    exact ⟨hm.1, (h.authorizedDestroyed_iff hm.1).mpr hc⟩

/-- Every entry has a valid result. -/
theorem valid_of_mem_entries (hf : CollisionFree blobs) (he : entry ∈ inventory.entries) : ∃ conf,
      run.report.objectResults[entry.objectHash]? = some ⟨.entry, .valid, conf⟩ := by
  have hp := h.mem_placed_iff.mpr he
  have hl : run.receipted.Lists .objectResults entry.objectHash :=
    (h.lists_receipted (h.receiptsApart hf)).mpr (.inr ⟨entry, hp,
      ⟨h.not_lists_assessed, h.not_lists_assessed⟩, .inl ⟨rfl, rfl⟩⟩)
  -- an approved hash belongs to a stub
  have hu : entry.objectHash ∉ run.approved := by
    intro ha
    obtain ⟨_, hs, hh, -⟩ := h.exists_of_mem_approved ha
    exact entry_ne_stub hf (h.exact_placed hp) (h.exact_candidate hs) hh.symm
  rw [h.getElem?_objectResults, if_neg hu]
  obtain ⟨⟨_, _, conf⟩, hg⟩ := Option.isSome_iff_exists.mp
    (Std.TreeMap.mem_iff_isSome_getElem?.mp hl)
  obtain ⟨rfl, rfl⟩ := h.resultsValid_receipted _ _ hg
  exact ⟨conf, hg⟩

end FullRun

/-- **A full verdict is sound**: every entry is valid, and the entries together with the stubs that
were destroyed with authority are a complete chain that ends in the head of the report. -/
theorem fullyVerified_sound {source : ArchiveSource} {report : VerificationReport}
    (hfree : CollisionFree source.blobs) (hbuild : ArchiveInventory.build source = .ok inventory)
    (hverify : verifyArchive source anchor options = .ok report)
    (hfull : report.isFullyVerified = true) :
    (∀ entry ∈ inventory.entries, ∃ confirmation,
      report.objectResults[entry.objectHash]? = some ⟨.entry, .valid, confirmation⟩) ∧
    (verifiedNodes inventory report = [] ∧ report.chainHead = sentinel anchor.chainId ∨
      ∃ last, Complete (verifiedNodes inventory report) last ∧
        report.chainHead = ⟨anchor.chainId, last.chainSequence, last.entryHash⟩) := by
  obtain ⟨h, rfl⟩ := fullRun_of_verifyArchive hbuild hverify hfull
  refine ⟨fun entry => h.valid_of_mem_entries hfree, ?_⟩
  have hm : ∀ node, node ∈ verifiedNodes inventory _ ↔ node ∈ _ := fun _ => h.mem_verifiedNodes
  by_cases hne : (verifyRun inventory anchor options).nodes = []
  · refine .inl ⟨List.eq_nil_iff_forall_not_mem.mpr fun node hn => ?_, ?_⟩
    · simpa [hne] using (hm node).mp hn
    · rw [h.chainHead_eq, hne]
      rfl
  · obtain ⟨last, hc, hh⟩ := h.complete hne
    refine .inr ⟨last, hc.of_mem_iff fun node => (hm node).symm, ?_⟩
    rw [h.chainHead_eq, hh, ← (h.admitted_of_mem_nodes hc.last_mem).chainId_eq]
    rfl

/-- Three entries with their grants, and a checkpoint that covers them. -/
def lineArchive : TableArchive where
  table
    | 40 => some (entryPackage (writerManifest 0 0 none))
    | 41 => some (recoveryGrant 100)
    | 42 => some (entryPackage (writerManifest 1 1 (some 100)))
    | 43 => some (recoveryGrant 101)
    | 44 => some (entryPackage (writerManifest 2 2 (some 101)))
    | 45 => some (recoveryGrant 102)
    | 50 => some (standardCheckpoint 2 102)
    | hash => organization hash
  delivered := organizationNames ++ [40, 41, 42, 43, 44, 45, 50]

omit [Crypto] [EscrowRules] in
theorem fullyVerified_sound_line :
    let := lineArchive.crypto
    let := lineArchive.escrowRules
    ∃ inventory report, ArchiveInventory.build lineArchive.source = .ok inventory ∧
      lineArchive.verify organizationAnchor { osWallClock := 15 } = .ok report ∧
      report.isFullyVerified = true ∧ report.entryPackageCount = 3 ∧
      (∀ entry ∈ inventory.entries, ∃ confirmation,
        report.objectResults[entry.objectHash]? = some ⟨.entry, .valid, confirmation⟩) ∧
      ∃ last, Complete (verifiedNodes inventory report) last ∧ last.chainSequence = 2 ∧
        report.chainHead = ⟨organizationAnchor.chainId, last.chainSequence, last.entryHash⟩ := by
  intro _ _
  obtain ⟨inventory, report, hb, hv, hp⟩ := lineArchive.exists_report organizationAnchor
    { osWallClock := 15 } (fun report => report.isFullyVerified
      && report.entryPackageCount = 3 && report.chainHead.chainSequence = 2)
  simp only [Bool.and_eq_true, decide_eq_true_eq] at hp
  obtain ⟨⟨hf, hn⟩, hh⟩ := hp
  obtain ⟨he, ⟨-, hs⟩ | ⟨last, hc, hl⟩⟩ :=
    fullyVerified_sound lineArchive.collisionFree hb hv hf
  · rw [hs] at hh
    cases hh
  · rw [hl] at hh
    exact ⟨inventory, report, hb, hv, hf, hn, he, last, hc, hh, hl⟩

end Einsatzarchiv.Verify
