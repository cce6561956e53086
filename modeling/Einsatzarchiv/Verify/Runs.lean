/-
  File:      Einsatzarchiv/Verify/Runs.lean
  Subject:   The stages of a verification, put together, and small archives given by a table.

  * `RunOf`: the run over the inventory of some delivered blobs.  Its lemmas `lists_judged` …
    `lists_report` say what the report lists after each stage.
  * `RunOf.buildChain_retained`: the chain of a run never fails to build.
  * `RunOf.mem_finalNodes`: the nodes of the second placement are those of the placed entries and
    of the approved stubs.
  * `RunOf.placement_assessed`, `RunOf.placement_report`: gaps, head and rollback of the report.

  The primitives are those of the table of an organization (`tableCrypto`).

  * `TableArchive`: a table and the delivered blobs; `TableArchive.verify` verifies it.
  * `TableArchive.collisionFree`, `TableArchive.entryHashFree`: its hashes do not collide.
  * `destroyingOrganization`: an organization whose policy lets two approvers destroy
    entries, and they did.
-/
import Einsatzarchiv.Verify.Gates

namespace Einsatzarchiv.Verify

open Lib Format Archive Chain Trust

section

variable [Crypto] [EscrowRules]
variable {blobs : List Bytes} {inventory : ArchiveInventory} {anchor : TrustAnchor}
  {options : VerifyOptions} {run : Run} {field : Field} {hash : ObjectHash}

/-- The stages ran over the inventory of the blobs. -/
structure RunOf (blobs : List Bytes) (inventory : ArchiveInventory) (anchor : TrustAnchor)
    (options : VerifyOptions) (run : Run) : Prop where
  spec : InventorySpec blobs inventory
  run_eq : verifyRun inventory anchor options = run

variable {report : VerificationReport} {stub : Parsed DestroyedEntryStub}
  {entry : Parsed EntryPackage}

/-- A completed report is that of a run: the trust gate lets nothing through otherwise. -/
theorem runOf_of_verifyArchive {src : ArchiveSource}
    (hb : ArchiveInventory.build src = .ok inventory)
    (hv : verifyArchive src anchor options = .ok report)
    (hco : report.pipelineCompleted = true) :
    RunOf src.blobs inventory anchor options (verifyRun inventory anchor options) ∧
      report = (verifyRun inventory anchor options).report := by
  obtain ⟨inventory', hbuild', hc⟩ := verifyArchive_eq_ok hv
  obtain rfl : inventory = inventory' := by simpa [hb] using hbuild'
  rcases hc with ⟨-, rfl⟩ | ⟨-, rfl⟩
  · cases hco
  · exact ⟨⟨build_spec hb, rfl⟩, rfl⟩

/-! ## 1. Entries and destructions -/

/-- The report after the trust gate. -/
def opened (inventory : ArchiveInventory) (anchor : TrustAnchor) : VerificationReport :=
  (openReport inventory anchor).addThumbprint anchor.rootKeyThumbprint

omit [Crypto] [EscrowRules] in
theorem lists_opened : (opened inventory anchor).Lists field hash ↔
    field = .quarantinedObjects ∧ hash ∈ inventory.quarantined ∨
      field = .formatErrors ∧ hash ∈ inventory.formatErrors := by
  cases field <;>
    simp [opened, openReport, VerificationReport.Lists, VerificationReport.addThumbprint]

/-- Judging the entries keeps some of them in their order. -/
theorem sublist_judgeEntries :
    (judgeEntries inventory anchor report).2.Sublist (orderedEntries inventory) := by
  have h : ∀ (l : List (Parsed EntryPackage)) (s : VerificationReport × List (Parsed EntryPackage)),
      ∃ kept, (l.foldl (judgeEntry inventory anchor) s).2 = s.2 ++ kept ∧ kept.Sublist l := by
    intro l
    induction l with
    | nil => exact fun s => ⟨[], by simp, .slnil⟩
    | cons entry l ih =>
      intro s
      obtain ⟨kept, hk, hsu⟩ := ih (judgeEntry inventory anchor s entry)
      have hs : (judgeEntry inventory anchor s entry).2 = s.2 ∨
          (judgeEntry inventory anchor s entry).2 = s.2 ++ [entry] := by
        dsimp only [judgeEntry]
        split
        · exact .inl rfl
        · split
          · exact .inl rfl
          · exact .inl rfl
          · exact .inl rfl
          · exact .inr rfl
      rcases hs with hs | hs
      · exact ⟨kept, by rw [List.foldl_cons, hk, hs], hsu.cons _⟩
      · exact ⟨entry :: kept, by rw [List.foldl_cons, hk, hs]; simp, hsu.cons_cons _⟩
  obtain ⟨kept, hk, hsu⟩ := h (orderedEntries inventory) (report, [])
  rw [judgeEntries, hk]
  exact hsu

theorem mem_candidates : stub ∈ candidates report inventory anchor ↔
      stub ∈ inventory.destroyed ∧ ¬ report.Lists .quarantinedObjects stub.objectHash ∧
        destructionCovers report inventory stub.value = true ∧
          stubPositionHolds inventory anchor stub.value = true := by
  simp [candidates, ← VerificationReport.isQuarantined_iff, and_assoc]

theorem chainId_of_stubPositionHolds {stub : DestroyedEntryStub}
    (h : stubPositionHolds inventory anchor stub = true) :
    stub.signedManifest.manifest.chainId = anchor.chainId := by
  simp only [stubPositionHolds, Option.any_eq_true, Bool.and_eq_true, decide_eq_true_eq] at h
  obtain ⟨_, -, h⟩ := h
  exact h.1.1.1.2

namespace RunOf

variable (h : RunOf blobs inventory anchor options run)

include h

theorem lists_judged : run.judged.Lists field hash ↔ (opened inventory anchor).Lists field hash ∨
    ∃ entry ∈ inventory.entries,
      EntryFault inventory anchor (opened inventory anchor) field hash entry := by
  obtain ⟨spec, rfl⟩ := h
  exact lists_judgeEntries spec.entries_distinct

theorem mem_placed : entry ∈ run.placed ↔
    entry ∈ inventory.entries ∧ entry.objectHash ∉ inventory.quarantined ∧
      (entryVerdict inventory anchor entry).faultField = none := by
  obtain ⟨spec, rfl⟩ := h
  exact (Verify.mem_placed spec.entries_distinct :
    entry ∈ (judgeEntries inventory anchor (opened inventory anchor)).2 ↔ _)

theorem placed_sublist : run.placed.Sublist (orderedEntries inventory) := by
  obtain ⟨_, rfl⟩ := h
  exact sublist_judgeEntries

theorem pairwise_placed : run.placed.Pairwise fun a b => a.objectHash ≠ b.objectHash :=
  (pairwise_orderedEntries h.spec.entries_distinct).sublist h.placed_sublist

theorem lists_recorded : run.recorded.Lists field hash ↔ run.judged.Lists field hash ∨
    field = .signatureErrors ∧ DestructionUnsigned (historicalRegistryHead inventory anchor)
      options.osWallClock run.judged inventory.trust hash ∨
    field = .quarantinedObjects ∧ DestructionContested (historicalRegistryHead inventory anchor)
      options.osWallClock run.judged inventory.trust hash := by
  obtain ⟨_, rfl⟩ := h
  exact lists_recordDestructions

theorem stubCandidates_eq : run.stubCandidates = candidates run.recorded inventory anchor := by
  obtain ⟨_, rfl⟩ := h
  rfl

/-! ## 2. The chain -/

theorem nodes_eq : run.nodes =
    run.placed.map entryChainNode ++ run.stubCandidates.map stubChainNode := by
  obtain ⟨_, rfl⟩ := h
  rfl

variable {node : ChainNode}

theorem mem_nodes : node ∈ run.nodes ↔ (∃ entry ∈ run.placed, entryChainNode entry = node) ∨
      ∃ stub ∈ run.stubCandidates, stubChainNode stub = node := by
  simp [h.nodes_eq]

/-- A node has the chain of the anchor, and its manifest binds its genesis. -/
theorem admitted_of_mem_nodes (hn : node ∈ run.nodes) : Admitted anchor.chainId node := by
  rcases h.mem_nodes.mp hn with ⟨entry, he, rfl⟩ | ⟨stub, hs, rfl⟩
  · obtain ⟨_, _, -, -, -, hc, -⟩ := faultField_eq_none.mp (h.mem_placed.mp he).2.2
    exact ⟨hc, entry.value.signedManifest.manifest.genesis_iff⟩
  · rw [h.stubCandidates_eq, mem_candidates] at hs
    exact ⟨chainId_of_stubPositionHolds hs.2.2.2, stub.value.signedManifest.manifest.genesis_iff⟩

theorem length_nodes_le : run.nodes.length ≤ maxChainNodesV1 := by
  have hp : run.placed.length ≤ inventory.entries.length :=
    h.placed_sublist.length_le.trans (perm_sortByKey _ _).length_eq.le
  have hs : run.stubCandidates.length ≤ inventory.destroyed.length := by
    rw [h.stubCandidates_eq]
    exact List.length_filter_le _ _
  have hl := h.spec.length_le
  rw [h.nodes_eq, List.length_append, List.length_map, List.length_map]
  simp only [maxArchiveBlobsV1, maxChainNodesV1] at *
  omega

/-- **The chain of a run is always built**, also that of a part of its nodes. -/
theorem buildChain_retained {nodes : List ChainNode} (hs : nodes.Sublist run.nodes) :
    buildChain anchor.chainId nodes = .ok (analyse anchor.chainId nodes) :=
  buildChain_eq_ok.mpr ⟨hs.length_le.trans h.length_nodes_le,
    fun _ hn => h.admitted_of_mem_nodes (hs.subset hn), rfl⟩

theorem placeInChain_nodes : placeInChain run.recorded anchor run.nodes =
    (recordChain run.recorded (analyse anchor.chainId run.nodes),
      some (analyse anchor.chainId run.nodes)) := by
  simp only [placeInChain, h.buildChain_retained (List.Sublist.refl _)]

theorem positioned_eq :
    run.positioned = recordChain run.recorded (analyse anchor.chainId run.nodes) := by
  have hp := congrArg Prod.fst h.placeInChain_nodes
  obtain ⟨_, rfl⟩ := h
  exact hp

theorem chain_eq : run.chain = some (analyse anchor.chainId run.nodes) := by
  have hp := congrArg Prod.snd h.placeInChain_nodes
  obtain ⟨_, rfl⟩ := h
  exact hp

theorem lists_positioned : run.positioned.Lists field hash ↔ run.recorded.Lists field hash ∨
    field = .quarantinedObjects ∧ (analyse anchor.chainId run.nodes).Names hash := by
  rw [h.positioned_eq, lists_recordChain]

/-! ## 3. The gates -/

theorem lists_planned : run.planned.Lists field hash ↔ (run.positioned.Lists field hash ∨
      field = .quarantinedObjects ∧ hash ∈ orphanGrants inventory) ∨
    ∃ entry ∈ run.placed, field = .signatureErrors ∧ hash = entry.objectHash ∧
      PlanFault inventory (quarantineOrphans inventory run.positioned) entry := by
  obtain ⟨_, rfl⟩ := h
  exact lists_checkGrantPlans.trans (or_congr_left lists_quarantineOrphans)

theorem assessed_eq : run.assessed =
    assessCheckpoints inventory anchor run.planned (analyse anchor.chainId run.nodes) := by
  have hc := h.chain_eq
  obtain ⟨_, rfl⟩ := h
  exact congrArg (fun chain : Option VerifiedChain => chain.elim _
    (assessCheckpoints inventory anchor (verifyRun inventory anchor options).planned)) hc

theorem lists_assessed : run.assessed.Lists field hash ↔ run.planned.Lists field hash ∨
    (∃ evd ∈ inventory.evidence, field = .signatureErrors ∧ hash = evd.objectHash ∧
      CheckpointFault inventory anchor evd) ∨
    field = .quarantinedObjects ∧ Conflicts (analyse anchor.chainId run.nodes)
      (authenticatedClaims inventory anchor) hash := by
  rw [h.assessed_eq, lists_assessCheckpoints]

theorem lists_receipted (ha : ReceiptsApart inventory run.placed) :
    run.receipted.Lists field hash ↔ run.assessed.Lists field hash ∨
      ∃ entry ∈ run.placed, ReceiptDelta inventory anchor run.assessed field hash entry := by
  obtain ⟨_, rfl⟩ := h
  exact lists_confirmEntries ha

theorem mem_confirmed (ha : ReceiptsApart inventory run.placed)
    {pair : Parsed EntryPackage × Parsed Receipt} : pair ∈ run.confirmed ↔ pair.1 ∈ run.placed ∧
      Clear run.assessed pair.1.objectHash ∧
      UsableReceipt inventory run.assessed pair.1 pair.2 ∧
        (confirmReceipt inventory anchor pair.1 pair.2).isOk = true := by
  obtain ⟨_, rfl⟩ := h
  exact Verify.mem_confirmed ha

theorem lists_evidenced : run.evidenced.Lists field hash ↔ run.receipted.Lists field hash ∨
    field = .evidenceErrors ∧ ((∃ evd ∈ inventory.evidence, hash = evd.objectHash ∧
        TokenFault inventory run.receipted evd) ∨
      options.evidenceRequirement ≠ .notRequired ∧ ∃ pair ∈ run.confirmed,
        hash = pair.2.objectHash ∧
          DueFault (qualifyingTokens inventory anchor run.receipted) run.receipted pair) := by
  obtain ⟨_, rfl⟩ := h
  exact lists_runEvidenceGate

theorem lists_claims : run.claims.report.Lists field hash ↔ run.evidenced.Lists field hash ∨
    ∃ rcp, options.recipient = some rcp ∧ ∃ entry ∈ run.placed,
      run.evidenced.Lists .objectResults entry.objectHash ∧
        grantFault inventory anchor rcp (effectiveNow options run.evidenced) run.evidenced
          entry = some (field, hash) := by
  obtain ⟨_, rfl⟩ := h
  exact lists_claimOwnGrants

/-! ## 4. The stubs -/

/-- The loop over the stubs, if there are any. -/
theorem approved_eq : (run.approved, run.finalNodes) =
    if inventory.destroyed.isEmpty then ([], run.nodes)
    else convergeStubs anchor.chainId (approvedStubs (publishChainHead run.claims.report run.chain)
      inventory run.stubCandidates run.attestations) (run.nodes.length + 1) run.claims.evidence
      run.nodes := by
  obtain ⟨_, rfl⟩ := h
  rfl

theorem stubCandidates_eq_nil (he : inventory.destroyed = []) : run.stubCandidates = [] := by
  simp [h.stubCandidates_eq, candidates, he]

/-- What the loop leaves: the nodes of the approved stubs, which some of the evidence approves. -/
theorem approved_spec (hne : inventory.destroyed ≠ []) :
    run.finalNodes = retainNodes run.approved run.nodes ∧ ∃ evidence, run.approved =
      approvedStubs (publishChainHead run.claims.report run.chain) inventory run.stubCandidates
        run.attestations evidence := by
  have heq := h.approved_eq
  rw [if_neg (by simpa using hne)] at heq
  obtain ⟨hn, evidence, -, ha⟩ := convergeStubs_spec anchor.chainId run.claims.evidence
    (approvedStubs (publishChainHead run.claims.report run.chain) inventory run.stubCandidates
      run.attestations)
    (fun _ _ => approvedStubs_mono) (Nat.lt_succ_self run.nodes.length)
  rw [← heq] at hn ha
  exact ⟨hn, evidence, ha⟩

theorem approved_eq_nil (he : inventory.destroyed = []) : run.approved = [] := by
  have heq := h.approved_eq
  rw [if_pos (by simpa using he)] at heq
  exact congrArg Prod.fst heq

/-- An approved stub is a candidate that is not quarantined. -/
theorem exists_of_mem_approved (ha : hash ∈ run.approved) :
    ∃ stub ∈ run.stubCandidates, stub.objectHash = hash ∧
      ¬ run.claims.report.Lists .quarantinedObjects hash := by
  by_cases he : inventory.destroyed = []
  · simp [h.approved_eq_nil he] at ha
  · obtain ⟨-, _, heq⟩ := h.approved_spec he
    obtain ⟨stub, hs, hq, -, rfl⟩ := mem_approvedStubs.mp (heq ▸ ha)
    rw [frame_publishChainHead.1] at hq
    exact ⟨stub, hs, rfl, hq⟩

theorem finalNodes_of_empty (he : inventory.destroyed = []) : run.finalNodes = run.nodes := by
  have heq := h.approved_eq
  rw [if_pos (by simpa using he)] at heq
  exact congrArg Prod.snd heq

/-- The second placement keeps the entries and the approved stubs. -/
theorem finalNodes_eq : run.finalNodes = retainNodes run.approved run.nodes := by
  by_cases he : inventory.destroyed = []
  · rw [h.finalNodes_of_empty he, h.nodes_eq, h.stubCandidates_eq_nil he, List.map_nil,
      List.append_nil]
    refine (List.filter_eq_self.mpr fun node hn => ?_).symm
    obtain ⟨_, -, rfl⟩ := List.mem_map.mp hn
    rfl
  · exact (h.approved_spec he).1

theorem finalNodes_sublist : run.finalNodes.Sublist run.nodes := by
  rw [h.finalNodes_eq]
  exact List.filter_sublist

theorem mem_finalNodes : node ∈ run.finalNodes ↔
    (∃ entry ∈ run.placed, entryChainNode entry = node) ∨
      ∃ stub ∈ run.stubCandidates, stub.objectHash ∈ run.approved ∧ stubChainNode stub = node := by
  rw [h.finalNodes_eq, retainNodes, List.mem_filter, h.mem_nodes]
  constructor
  · rintro ⟨⟨entry, he, rfl⟩ | ⟨stub, hs, rfl⟩, hk⟩
    · exact .inl ⟨entry, he, rfl⟩
    · exact .inr ⟨stub, hs, by simpa [stubChainNode, chainNode] using hk, rfl⟩
  · rintro (⟨entry, he, rfl⟩ | ⟨stub, hs, ha, rfl⟩)
    · exact ⟨.inl ⟨entry, he, rfl⟩, rfl⟩
    · exact ⟨.inr ⟨stub, hs, rfl⟩, by simpa [stubChainNode, chainNode] using ha⟩

/-- The chain of the second placement. -/
theorem buildChain_finalNodes :
    buildChain anchor.chainId run.finalNodes = .ok (analyse anchor.chainId run.finalNodes) :=
  h.buildChain_retained h.finalNodes_sublist

/-! ## 5. The report -/

theorem report_eq : run.report =
    { if inventory.destroyed.isEmpty then publishChainHead run.claims.report run.chain
      else settleStubs anchor run.stubCandidates run.approved run.finalNodes
        (publishChainHead run.claims.report run.chain) with pipelineCompleted := true } := by
  obtain ⟨_, rfl⟩ := h
  rfl

/-- **What the report of a run lists.** -/
theorem lists_report : run.report.Lists field hash ↔ run.claims.report.Lists field hash ∨
    field = .objectResults ∧ hash ∈ run.approved ∨
    field = .quarantinedObjects ∧ inventory.destroyed ≠ [] ∧
      (analyse anchor.chainId run.finalNodes).Names hash := by
  rw [h.report_eq]
  by_cases he : inventory.destroyed = []
  · have hn : hash ∉ run.approved := by simp [h.approved_eq_nil he]
    have hl : (publishChainHead run.claims.report run.chain).Lists = run.claims.report.Lists :=
      frame_publishChainHead.1
    simp only [he, List.isEmpty_nil, if_true, hn, ne_eq, not_true, false_and, and_false, or_false]
    exact Iff.of_eq (congrFun (congrFun hl field) hash)
  · have hs : (settleStubs anchor run.stubCandidates run.approved run.finalNodes
        (publishChainHead run.claims.report run.chain)).Lists field hash ↔ _ :=
      lists_settleStubs h.buildChain_finalNodes
    rw [frame_publishChainHead.1] at hs
    simp only [List.isEmpty_iff, he, if_false, ne_eq, not_false_iff, true_and]
    exact hs

theorem lists_claims_of_receipted (hl : run.receipted.Lists field hash) :
    run.claims.report.Lists field hash :=
  h.lists_claims.mpr (.inl (h.lists_evidenced.mpr (.inl hl)))

theorem lists_claims_of_assessed (hl : run.assessed.Lists field hash) :
    run.claims.report.Lists field hash := by
  have hr : run.receipted.Lists field hash := by
    obtain ⟨_, rfl⟩ := h
    exact lists_confirmEntries_of_lists hl
  exact h.lists_claims_of_receipted hr

/-- No later gate takes an object from a list. -/
theorem lists_report_of_assessed (hl : run.assessed.Lists field hash) :
    run.report.Lists field hash :=
  h.lists_report.mpr (.inl (h.lists_claims_of_assessed hl))

/-! ## 6. Gaps, head and rollback -/

theorem placement_positioned : run.positioned.placement =
    ⟨(analyse anchor.chainId run.nodes).gaps.foldl insertGap ∅,
      (analyse anchor.chainId run.nodes).verifiedHead.getD (sentinel anchor.chainId),
      .notAssessable⟩ := by
  have hr : run.recorded.placement = (opened inventory anchor).placement := by
    obtain ⟨_, rfl⟩ := h
    exact (frame_recordDestructions framed_placement fun _ _ => trivial).trans
      (frame_judgeEntries framed_placement fun _ _ => trivial)
  simp only [VerificationReport.placement, Placement.mk.injEq] at hr
  rw [h.positioned_eq, placement_recordChain, hr.1, hr.2.1, hr.2.2]
  rfl

theorem placement_planned : run.planned.placement = run.positioned.placement := by
  obtain ⟨_, rfl⟩ := h
  refine (frame_checkGrantPlans framed_placement).trans (foldl_frame fun _ _ _ => rfl)

/-- **What the checkpoints leave of the first placement.** -/
theorem placement_assessed : let chain := analyse anchor.chainId run.nodes
    let assessment := assessRollback chain (authenticatedClaims inventory anchor)
    run.assessed.placement =
      ⟨(assessment.findings.filterMap (provenGap anchor.chainId)).foldl insertGap
          (chain.gaps.foldl insertGap ∅),
        if assessment.findings.any (AtHead chain) then sentinel anchor.chainId
        else chain.verifiedHead.getD (sentinel anchor.chainId), assessment⟩ := by
  have hp := h.placement_planned.trans h.placement_positioned
  simp only [VerificationReport.placement, Placement.mk.injEq] at hp
  rw [h.assessed_eq, placement_assessCheckpoints, hp.1, hp.2.1]

theorem placement_published :
    (publishChainHead run.claims.report run.chain).placement = run.assessed.placement := by
  rw [frame_publishChainHead.2.1]
  obtain ⟨_, rfl⟩ := h
  exact (frame_claimOwnGrants framed_placement).trans ((frame_runEvidenceGate
    framed_placement).trans (frame_confirmEntries framed_placement fun _ _ _ => rfl))

/-- **The placement of the report**, if no stub is delivered. -/
theorem placement_report_of_empty (he : inventory.destroyed = []) :
    run.report.placement = run.assessed.placement := by
  rw [h.report_eq, he]
  exact h.placement_published

/-- **The placement of the report**, if stubs are delivered. -/
theorem placement_report (hne : inventory.destroyed ≠ []) : run.report.placement =
    ⟨(unapprovedGaps anchor.chainId run.approved run.stubCandidates).foldl insertGapIfNew
        ((analyse anchor.chainId run.finalNodes).gaps.foldl insertGap ∅),
      (analyse anchor.chainId run.finalNodes).verifiedHead.getD (sentinel anchor.chainId),
      run.assessed.rollback⟩ := by
  have hs : (settleStubs anchor run.stubCandidates run.approved run.finalNodes
      (publishChainHead run.claims.report run.chain)).placement = _ :=
    placement_settleStubs h.buildChain_finalNodes
  have hr := congrArg Placement.rollback h.placement_published
  rw [h.report_eq, if_neg (by simpa using hne)]
  exact hs.trans (congrArg (Placement.mk _ _) hr)

theorem rollback_report : run.report.rollback =
    assessRollback (analyse anchor.chainId run.nodes) (authenticatedClaims inventory anchor) := by
  have ha := congrArg Placement.rollback h.placement_assessed
  by_cases he : inventory.destroyed = []
  · exact (congrArg Placement.rollback (h.placement_report_of_empty he)).trans ha
  · exact (congrArg Placement.rollback (h.placement_report he)).trans ha

/-! ## 7. Results -/

/-- Before the receipts are read nothing has a result. -/
theorem not_lists_assessed (hf : field ≠ .quarantinedObjects) (hfm : field ≠ .formatErrors)
    (hs : field ≠ .signatureErrors) : ¬ run.assessed.Lists field hash := by
  simp only [h.lists_assessed, h.lists_planned, h.lists_positioned, h.lists_recorded,
    h.lists_judged, lists_opened, hf, hfm, hs, false_and, and_false, exists_false,
    or_false, false_or, not_exists, not_and]
  rintro entry - ⟨-, _, -⟩
  cases hv : entryVerdict inventory anchor entry <;>
    simp_all [EntryVerdict.faultField]

theorem resultsValid_receipted : ResultsValid run.receipted := by
  have ha : ResultsValid run.assessed := by
    intro hash _ hr
    have hm : run.assessed.Lists .objectResults hash :=
      Std.TreeMap.mem_iff_isSome_getElem?.mpr (by rw [hr]; rfl)
    exact absurd hm (h.not_lists_assessed (by simp) (by simp) (by simp))
  obtain ⟨_, rfl⟩ := h
  exact resultsValid_confirmEntries ha

/-- The results of the report: those of the entries and those of the approved stubs. -/
theorem getElem?_objectResults : run.report.objectResults[hash]? =
    if hash ∈ run.approved then some destroyedResult else run.receipted.objectResults[hash]? := by
  have hp : (publishChainHead run.claims.report run.chain).objectResults =
      run.receipted.objectResults := by
    rw [frame_publishChainHead.2.2.1]
    obtain ⟨_, rfl⟩ := h
    exact (frame_claimOwnGrants framed_objectResults).trans
      (frame_runEvidenceGate framed_objectResults)
  rw [h.report_eq]
  by_cases he : inventory.destroyed = []
  · have hn : hash ∉ run.approved := by simp [h.approved_eq_nil he]
    simp [he, hn, hp]
  · simp only [List.isEmpty_iff, he, if_false]
    rw [objectResults_settleStubs h.buildChain_finalNodes, hp]

end RunOf

/-! ## 8. Without collisions -/

/-- The manifest and the signature of a delivered entry or stub. -/
def SignedIn (blobs : List Bytes) (manifest : SignedManifest) (signature : CoseSign1) : Prop :=
  ∃ bytes ∈ blobs,
    (∃ value, Crypto.decode bytes = .ok (.entry value) ∧ value.signedManifest = manifest ∧
      value.writerSignature = signature) ∨
    ∃ value, Crypto.decode bytes = .ok (.destroyed value) ∧ value.signedManifest = manifest ∧
      value.writerSignature = signature

/-- No two delivered manifests share an entry hash. -/
def EntryHashFree (blobs : List Bytes) : Prop :=
  ∀ manifest signature manifest' signature', SignedIn blobs manifest signature →
    SignedIn blobs manifest' signature' →
    Crypto.entryHash manifest signature = Crypto.entryHash manifest' signature' →
      manifest = manifest'

omit [EscrowRules] in
theorem signedIn_entry (h : ExactFrom blobs .entry entry) :
    SignedIn blobs entry.value.signedManifest entry.value.writerSignature :=
  ⟨entry.exactBytes, h.delivered, .inl ⟨entry.value, h.decoded, rfl, rfl⟩⟩

omit [EscrowRules] in
theorem signedIn_stub (h : ExactFrom blobs .destroyed stub) :
    SignedIn blobs stub.value.signedManifest stub.value.writerSignature :=
  ⟨stub.exactBytes, h.delivered, .inr ⟨stub.value, h.decoded, rfl, rfl⟩⟩

omit [EscrowRules] in
/-- An entry is not a stub. -/
theorem entry_ne_stub (hfr : CollisionFree blobs) (he : ExactFrom blobs .entry entry)
    (hs : ExactFrom blobs .destroyed stub) : entry.objectHash ≠ stub.objectHash := by
  intro hh
  cases he.deliveredAs.kind_eq hfr (hh ▸ hs.deliveredAs)

namespace RunOf

variable (h : RunOf blobs inventory anchor options run)

include h

theorem exact_placed (he : entry ∈ run.placed) : ExactFrom blobs .entry entry :=
  h.spec.entries entry (h.mem_placed.mp he).1

theorem exact_candidate (hs : stub ∈ run.stubCandidates) : ExactFrom blobs .destroyed stub := by
  rw [h.stubCandidates_eq, mem_candidates] at hs
  exact h.spec.destroyed stub hs.1

theorem signedIn_of_mem_nodes {node : ChainNode} (hn : node ∈ run.nodes) :
    ∃ man sig, SignedIn blobs man sig ∧
      node.entryHash = Crypto.entryHash man sig ∧
      node.chainSequence = man.manifest.chainSequence ∧
      node.previousEntryHash = man.manifest.previousEntryHash := by
  rcases h.mem_nodes.mp hn with ⟨_, he, rfl⟩ | ⟨_, hs, rfl⟩
  · exact ⟨_, _, signedIn_entry (h.exact_placed he), rfl, rfl, rfl⟩
  · exact ⟨_, _, signedIn_stub (h.exact_candidate hs), rfl, rfl, rfl⟩

theorem entryHashBinding_nodes (hbi : EntryHashFree blobs) : EntryHashBinding run.nodes := by
  intro a ha b hb e
  obtain ⟨m, s, hm, em, hs, hp⟩ := h.signedIn_of_mem_nodes ha
  obtain ⟨m', s', hm', em', hsequence', hprevious'⟩ := h.signedIn_of_mem_nodes hb
  obtain rfl := hbi m s m' s' hm hm' (by rw [← em, ← em', e])
  exact ⟨hs.trans hsequence'.symm, hp.trans hprevious'.symm⟩

variable (hfr : CollisionFree blobs)

include hfr

theorem receiptsApart : ReceiptsApart inventory run.placed := by
  intro rcpt hr _ he e
  have hk := (h.spec.receipts rcpt hr).deliveredAs.kind_eq hfr (e ▸ (h.exact_placed he).deliveredAs)
  cases hk

theorem objectHashBinding_nodes : ObjectHashBinding run.nodes := by
  intro a ha b hb e
  rcases h.mem_nodes.mp ha with ⟨x, hx, rfl⟩ | ⟨x, hx, rfl⟩
  · rcases h.mem_nodes.mp hb with ⟨y, hy, rfl⟩ | ⟨y, hy, rfl⟩
    · exact congrArg entryChainNode ((h.exact_placed hx).eq hfr
        (fun _ _ => ArchiveObject.entry.inj) (h.exact_placed hy) e)
    · exact absurd e (entry_ne_stub hfr (h.exact_placed hx) (h.exact_candidate hy))
  · rcases h.mem_nodes.mp hb with ⟨y, hy, rfl⟩ | ⟨y, hy, rfl⟩
    · exact absurd e.symm (entry_ne_stub hfr (h.exact_placed hy) (h.exact_candidate hx))
    · exact congrArg stubChainNode ((h.exact_candidate hx).eq hfr
        (fun _ _ => ArchiveObject.destroyed.inj) (h.exact_candidate hy) e)

end RunOf

end

/-! ## 9. Archives by table -/

/-- The objects by their hashes, and the blobs that are delivered. -/
structure TableArchive where
  table : ObjectHash → Option ArchiveObject
  delivered : List UInt8

namespace TableArchive

variable (archive : TableArchive)

/-- Its cryptography: the hash of a blob is its name. -/
@[reducible] def crypto : Crypto := tableCrypto archive.table

/-- No archive here holds an escrow. -/
@[reducible] def escrowRules : @EscrowRules archive.crypto :=
  @EscrowRules.mk archive.crypto fun _ => true

def source : ArchiveSource where
  blobs := archive.delivered.map blob

def verify (anchor : TrustAnchor) (options : VerifyOptions) :
    Except VerifyError VerificationReport :=
  @verifyArchive archive.crypto archive.escrowRules archive.source anchor options

theorem collisionFree : @CollisionFree archive.crypto archive.source.blobs := by
  let := archive.crypto
  intro a ha b hb e
  obtain ⟨name, -, rfl⟩ := List.mem_map.mp ha
  obtain ⟨name', -, rfl⟩ := List.mem_map.mp hb
  have e : name.toNat = name'.toNat := e
  rw [UInt8.toNat_inj.mp e]

/-- The manifest of an entry or a stub. -/
def manifestOf : ArchiveObject → Option SignedManifest
  | .entry value | .destroyed value => some value.signedManifest
  | _ => none

/-- The nonce determines the manifest. -/
def NonceFree : Prop :=
  ∀ a ∈ archive.delivered, ∀ b ∈ archive.delivered,
    ∀ m ∈ (archive.table a.toNat).bind manifestOf, ∀ m' ∈ (archive.table b.toNat).bind manifestOf,
      m.manifest.nonce = m'.manifest.nonce → m = m'

instance : Decidable archive.NonceFree :=
  inferInstanceAs (Decidable (∀ a ∈ archive.delivered, ∀ b ∈ archive.delivered,
    ∀ m ∈ (archive.table a.toNat).bind manifestOf, ∀ m' ∈ (archive.table b.toNat).bind manifestOf,
      m.manifest.nonce = m'.manifest.nonce → m = m'))

theorem entryHashFree (h : archive.NonceFree) :
    @EntryHashFree archive.crypto archive.source.blobs := by
  let := archive.crypto
  -- a signed manifest is that of a delivered object of the table
  have hs : ∀ man sig, SignedIn archive.source.blobs man sig →
      ∃ name ∈ archive.delivered, man ∈ (archive.table name.toNat).bind manifestOf := by
    rintro man sig ⟨_, hby, hv⟩
    obtain ⟨name, hn, rfl⟩ := List.mem_map.mp hby
    refine ⟨name, hn, ?_⟩
    have hd : Crypto.decode (blob name) = _ := decode_blob archive.table name
    rw [hd] at hv
    cases ht : archive.table name.toNat with
    | none => simp [ht] at hv
    | some obj =>
      simp only [ht, Option.elim_some, Except.ok.injEq] at hv
      rcases hv with ⟨value, rfl, rfl, -⟩ | ⟨value, rfl, rfl, -⟩
      · rfl
      · rfl
  intro m s m' s' hm hm' e
  obtain ⟨a, ha, hma⟩ := hs m s hm
  obtain ⟨b, hb, hmb⟩ := hs m' s' hm'
  have e : 100 + m.manifest.nonce = 100 + m'.manifest.nonce := e
  exact h a ha b hb m hma m' hmb (by omega)

/-- A report with a property that is found by evaluation. -/
theorem exists_report (anchor : TrustAnchor) (options : VerifyOptions)
    (p : VerificationReport → Bool)
    (h : ((archive.verify anchor options).toOption.any p) = true := by decide +kernel) :
    let := archive.crypto
    ∃ inventory report, ArchiveInventory.build archive.source = .ok inventory ∧
      archive.verify anchor options = .ok report ∧ p report = true := by
  let := archive.crypto
  let := archive.escrowRules
  cases hv : archive.verify anchor options with
  | error error => simp [hv, Except.toOption] at h
  | ok report =>
    obtain ⟨inventory, hb, -⟩ := verifyArchive_eq_ok hv
    exact ⟨inventory, report, hb, rfl, by simpa [hv, Except.toOption] using h⟩

end TableArchive

/-! ## 10. The objects of a small archive -/

section Organization

def writerManifest (sequence nonce : Nat) (previous : Option EntryHash) : SignedManifest :=
  manifestUnder 32 sequence nonce previous

def entryPackage (manifest : SignedManifest) : ArchiveObject :=
  .entry ⟨manifest, [], signedBy .recordDigest 104 20⟩

/-- The stub that is left of an entry. -/
def destroyedStub (manifest : SignedManifest) (original : ObjectHash) (destruction : DestructionId)
    (authorization : ObjectHash) : ArchiveObject :=
  .destroyed ⟨manifest, signedBy .recordDigest 104 20, original, destruction, authorization⟩

/-- A standard checkpoint of the server. -/
def standardCheckpoint (through : Nat) (head : EntryHash) : ArchiveObject :=
  .evidence (.standard ⟨1, 2, 0, min through u64Max, head, 32, 5, none,
    Nat.min_le_right through u64Max⟩ (signedBy .checkpointCbor 105 30))

/-- The recovery grant of an entry. -/
def recoveryGrant (entryHash : EntryHash) : ArchiveObject :=
  .grant ⟨⟨1, 2, entryHash, .initial, .recovery, 77, 78, 104, 20, 3, 32, none, none, [], []⟩,
    signedBy .grantDigest 104 20⟩

/-- The manifest under another head of the registry. -/
def underHead (version head : Nat) (manifest : SignedManifest) : SignedManifest :=
  { manifest with manifest := { manifest.manifest with
      registryVersion := version
      registryHeadHash := head } }

/-- `organization` with a policy for destructions, two approvers (certificates 70 and 74) and a
device that attests deletions (80); the head is event 82 of version 6.  Authorization 90 lets
destruction 9 destroy the entry hash 101 of sequence one, which 91 requests and 92 begins. -/
def destroyingOrganization : ObjectHash → Option ArchiveObject
  | 10 => some (trustObject (.authorized (.policy
      ⟨1, 1, none, 0, 1000, 10, 0, 0, ⟨true, some 7⟩, ["EINSATZARCHIV-SUITE-1"], [1], 0⟩) 11) 101 1)
  | 70 => some (trustObject (.authorized (.device (deviceCertificate 70 .keyApprover 106
      ["destructionApprove"] (some 14))) 71) 101 1)
  | 71 => some (adminAuthorization 71 3 32 0 .deviceCertificate)
  | 72 => some (registryEvent 4 (some 32) (.certificate 70) 73)
  | 73 => some (adminAuthorization 73 3 32 0 .registryEvent)
  | 74 => some (trustObject (.authorized (.device (deviceCertificate 74 .keyApprover 107
      ["destructionApprove"] (some 15))) 75) 101 1)
  | 75 => some (adminAuthorization 75 4 72 0 .deviceCertificate)
  | 76 => some (registryEvent 5 (some 72) (.certificate 74) 77)
  | 77 => some (adminAuthorization 77 4 72 0 .registryEvent)
  | 80 => some (trustObject (.authorized (.device (deviceCertificate 80 .deletionAttest 108
      ["deletionAttest"] none)) 81) 101 1)
  | 81 => some (adminAuthorization 81 5 76 0 .deviceCertificate)
  | 82 => some (registryEvent 6 (some 76) (.certificate 80) 83)
  | 83 => some (adminAuthorization 83 5 76 0 .registryEvent)
  | 90 => some (.trust ⟨.destructionAuthorization ⟨9, 1, 6, 82, 1, [⟨101, 1⟩], 0⟩,
      [signedBy .trustDigest 106 70, signedBy .trustDigest 107 74]⟩)
  | 91 => some (trustObject (.destructionTransition ⟨9, 90, 1, none, none, 0⟩) 108 80)
  | 92 => some (trustObject (.destructionTransition ⟨9, 90, 2, some 91, some 0, 1⟩) 108 80)
  | hash => organization hash

/-- The objects of an archive with a destruction. -/
def destroyingNames : List UInt8 :=
  organizationNames ++ [70, 71, 72, 73, 74, 75, 76, 77, 80, 81, 82, 83, 90, 91, 92]

end Organization

end Einsatzarchiv.Verify
