/-
  File:      Einsatzarchiv/Verify/Isolation.lean
  Subject:   Quarantined objects, the head of the report and the results.

  The chain is placed twice: with all candidates among the stubs, and with the approved ones.  The
  second placement names a head and keeps results without a look at what was quarantined before.

  * `RunOf.lists_claims_quarantined`: what is quarantined before the second placement.
  * `headClear_iff`: when no object that carries the entry hash of the head is quarantined.
  * `isolated_iff_of_disputed`: which objects of a dispute are quarantined and without a result.
-/
import Einsatzarchiv.Verify.Fields

namespace Einsatzarchiv.Verify

open Lib Format Archive Chain Trust

variable [Crypto] [EscrowRules]
variable {blobs : List Bytes} {inventory : ArchiveInventory} {anchor : TrustAnchor}
  {options : VerifyOptions} {run : Run} {hash : ObjectHash} {node : ChainNode}
  {nodes : List ChainNode} {entryHash : EntryHash}

/-! ## 1. Entries and stubs in quarantine -/

/-- The object is an entry or a stub with the entry hash. -/
def Carries (inventory : ArchiveInventory) (entryHash : EntryHash) (hash : ObjectHash) : Prop :=
  (∃ entry ∈ inventory.entries, entry.objectHash = hash ∧ entry.value.entryHash = entryHash) ∨
    ∃ stub ∈ inventory.destroyed, stub.objectHash = hash ∧ stub.value.entryHash = entryHash

/-- The registry does not attribute the entry under the hash, or its place is wrong. -/
def Unattributable (inventory : ArchiveInventory) (anchor : TrustAnchor) (hash : ObjectHash) :
    Prop :=
  ∃ entry ∈ inventory.entries, hash = entry.objectHash ∧
    (entryVerdict inventory anchor entry).faultField = some .quarantinedObjects

namespace RunOf

variable (h : RunOf blobs inventory anchor options run)

include h

theorem delivered_of_carries (hc : Carries inventory entryHash hash) :
    Delivered blobs .entry hash ∨ Delivered blobs .destroyed hash := by
  rcases hc with ⟨entry, he, rfl, -⟩ | ⟨stub, hs, rfl, -⟩
  · exact .inl (h.spec.entries entry he).deliveredAs
  · exact .inr (h.spec.destroyed stub hs).deliveredAs

/-- A node is carried by its object. -/
theorem carries_of_mem_nodes (hn : node ∈ run.nodes) :
    Carries inventory node.entryHash node.objectHash := by
  rcases h.mem_nodes.mp hn with ⟨entry, he, rfl⟩ | ⟨stub, hs, rfl⟩
  · exact .inl ⟨entry, (h.mem_placed.mp he).1, rfl, rfl⟩
  · rw [h.stubCandidates_eq, mem_candidates] at hs
    exact .inr ⟨stub, hs.1, rfl, rfl⟩

/-- What the inventory quarantines stays in quarantine, and so does an entry that was judged so. -/
theorem lists_positioned_of_quarantined
    (hq : hash ∈ inventory.quarantined ∨ Unattributable inventory anchor hash) :
    run.positioned.Lists .quarantinedObjects hash := by
  refine h.lists_positioned.mpr (.inl (h.lists_recorded.mpr (.inl (h.lists_judged.mpr ?_))))
  by_cases ho : (opened inventory anchor).Lists .quarantinedObjects hash
  · exact .inl ho
  · rcases hq with hm | ⟨entry, he, rfl, hf⟩
    · exact absurd (lists_opened.mpr (.inl ⟨rfl, hm⟩)) ho
    · exact .inr ⟨entry, he, ho, hf, rfl⟩

variable (hfree : CollisionFree blobs)

include hfree

/-- **What is quarantined before the second placement**, of the entries and stubs: what the
inventory quarantines, entries the registry does not attribute, what the chain names and what the
checkpoints contradict. -/
theorem lists_claims_quarantined
    (hd : Delivered blobs .entry hash ∨ Delivered blobs .destroyed hash) :
    run.claims.report.Lists .quarantinedObjects hash ↔
      (hash ∈ inventory.quarantined ∨ Unattributable inventory anchor hash) ∨
      (analyse anchor.chainId run.nodes).Names hash ∨
      Conflicts (analyse anchor.chainId run.nodes) (authenticatedClaims inventory anchor) hash := by
  have ho : ∀ kind, Delivered blobs kind hash → kind = .entry ∨ kind = .destroyed := by
    intro kind hk
    exact hd.imp (hk.kind_eq hfree) (hk.kind_eq hfree)
  constructor
  · intro hl
    have ha : run.assessed.Lists .quarantinedObjects hash := by
      rcases h.lists_claims.mp hl with he | ⟨rcp, -, entry, -, -, hfa⟩
      · rcases h.lists_evidenced.mp he with hr | ⟨hf, -⟩
        · rcases (h.lists_receipted (h.receiptsApart hfree)).mp hr with ha |
            ⟨entry, -, -, ⟨hf, -⟩ | ⟨hf, -⟩⟩
          · exact ha
          · cases hf
          · cases hf
        · cases hf
      · rcases (grantFault_eq_some hfa).1 with hf | hf
        · cases hf
        · cases hf
    rcases h.lists_assessed.mp ha with hp | ⟨-, -, hf, -⟩ | ⟨-, hc⟩
    · rcases h.lists_planned.mp hp with hb | ⟨-, -, hf, -⟩
      · rcases h.quarantined_cases (lists_quarantineOrphans.mpr hb) with hm | hfa |
          ht | hn | hg
        · exact .inl (.inl hm)
        · exact .inl (.inr hfa)
        · rcases ho _ ht with hk | hk
          · cases hk
          · cases hk
        · exact .inr (.inl hn)
        · rcases ho _ hg with hk | hk
          · cases hk
          · cases hk
      · cases hf
    · cases hf
    · exact .inr (.inr hc)
  · rintro (hq | hn | hc)
    · exact h.lists_claims_of_assessed (h.lists_assessed.mpr (.inl
        (h.lists_planned_of_positioned (h.lists_positioned_of_quarantined hq))))
    · exact h.lists_claims_of_assessed (h.lists_assessed.mpr (.inl
        (h.lists_planned_of_positioned (h.lists_positioned.mpr (.inr ⟨rfl, hn⟩)))))
    · exact h.lists_claims_of_assessed (h.lists_assessed.mpr (.inr (.inr ⟨rfl, hc⟩)))

/-- A node is neither quarantined by the inventory nor as an entry. -/
theorem not_quarantined_of_mem_nodes (hno : node ∈ run.nodes) :
    ¬ (node.objectHash ∈ inventory.quarantined ∨
      Unattributable inventory anchor node.objectHash) := by
  intro hq
  rcases h.mem_nodes.mp hno with ⟨entry, he, rfl⟩ | ⟨_, hs, rfl⟩
  · obtain ⟨hm, hnt, hn⟩ := h.mem_placed.mp he
    rcases hq with hin | ⟨_, he', hh, hf⟩
    · exact hnt hin
    · obtain rfl := HashDetermines.of_pairwise h.spec.entries_distinct _ hm _ he' hh
      rw [hn] at hf
      cases hf
  · have hc := hs
    rw [h.stubCandidates_eq, mem_candidates] at hc
    refine hc.2.1 (h.lists_recorded.mpr (.inl (h.lists_judged.mpr (.inl ?_))))
    rcases hq with hin | ⟨entry, he, hh, -⟩
    · exact lists_opened.mpr (.inl ⟨rfl, hin⟩)
    · exact absurd hh.symm (entry_ne_stub hfree (h.spec.entries entry he) (h.exact_candidate hs))

/-- The nodes in quarantine before the second placement are named by the chain or contradicted by a
checkpoint. -/
theorem lists_claims_of_mem_nodes (hn : node ∈ run.nodes) :
    run.claims.report.Lists .quarantinedObjects node.objectHash ↔
      (analyse anchor.chainId run.nodes).Names node.objectHash ∨
        Conflicts (analyse anchor.chainId run.nodes) (authenticatedClaims inventory anchor)
          node.objectHash := by
  rw [h.lists_claims_quarantined hfree (h.delivered_of_mem_nodes hn),
    or_iff_right (h.not_quarantined_of_mem_nodes hfree hn)]

end RunOf

/-! ## 2. The head of the report -/

/-- The report names no head, or nothing that carries the entry hash of its head is in
quarantine. -/
def HeadClear (inventory : ArchiveInventory) (anchor : TrustAnchor) (report : VerificationReport) :
    Prop :=
  report.chainHead = sentinel anchor.chainId ∨
    ∀ hash, Carries inventory report.chainHead.entryHash hash →
      ¬ report.Lists .quarantinedObjects hash

/-- Nothing speaks against the objects that carry the entry hash: not the inventory, not the
registry, not the first placement and not a checkpoint. -/
structure Undisputed (inventory : ArchiveInventory) (anchor : TrustAnchor) (nodes : List ChainNode)
    (entryHash : EntryHash) : Prop where
  delivered : ∀ hash, Carries inventory entryHash hash → hash ∉ inventory.quarantined
  registry : ∀ hash, Carries inventory entryHash hash → ¬ Unattributable inventory anchor hash
  chain : ∀ hash, Carries inventory entryHash hash → ¬ (analyse anchor.chainId nodes).Names hash
  checkpoints : ∀ hash, Carries inventory entryHash hash →
    ¬ Conflicts (analyse anchor.chainId nodes) (authenticatedClaims inventory anchor) hash

omit [Crypto] [EscrowRules] in
/-- A checkpoint in conflict with the verified head is found at the head. -/
theorem atHead_of_conflicts {cid : ChainId} {claims : List CheckpointClaim}
    (hb : ObjectHashBinding nodes) (hn : node ∈ nodes)
    (hhe : (analyse cid nodes).verifiedHead = some (headOf node))
    (hco : Conflicts (analyse cid nodes) claims node.objectHash) :
    (assessRollback (analyse cid nodes) claims).findings.any
      (AtHead (analyse cid nodes)) = true := by
  obtain ⟨claim, hc, hid, finding, hf, hob⟩ := hco
  refine List.any_eq_true.mpr ⟨finding, mem_findings.mpr ⟨claim, hc, hid, hf⟩, ?_⟩
  cases finding with
  | truncatedBelowCheckpoint _ _ cp => cases hob
  | headEntryHashMismatch _ _ _ cp _ =>
    cases hob
    obtain ⟨other, ho, hh, rfl⟩ := exists_node_of_mismatch hf
    obtain rfl := hb other ho node hn hh
    simp [AtHead, hhe, headOf]

namespace RunOf

variable (h : RunOf blobs inventory anchor options run)
variable (hfree : CollisionFree blobs) (hentries : EntryHashFree blobs)

include h hfree

theorem undisputed_iff : Undisputed inventory anchor run.nodes entryHash ↔
    ∀ hash, Carries inventory entryHash hash →
      ¬ run.claims.report.Lists .quarantinedObjects hash := by
  constructor
  · intro hu hash hca
    rw [h.lists_claims_quarantined hfree (h.delivered_of_carries hca)]
    rintro ((hm | hf) | hna | hco)
    · exact hu.delivered hash hca hm
    · exact hu.registry hash hca hf
    · exact hu.chain hash hca hna
    · exact hu.checkpoints hash hca hco
  · intro hc
    have hn : ∀ hash, Carries inventory entryHash hash → ¬ _ := fun hash hca hcs =>
      hc hash hca ((h.lists_claims_quarantined hfree (h.delivered_of_carries hca)).mpr hcs)
    exact ⟨fun hash hca hm => hn hash hca (.inl (.inl hm)),
      fun hash hca hf => hn hash hca (.inl (.inr hf)),
      fun hash hca hna => hn hash hca (.inr (.inl hna)),
      fun hash hca hco => hn hash hca (.inr (.inr hco))⟩

include hentries

/-- A chain of some of the nodes names no object that carries the entry hash of its head. -/
theorem not_names_of_carries (hsu : nodes.Sublist run.nodes) {head : ChainHead}
    (hhe : (analyse anchor.chainId nodes).verifiedHead = some head)
    (hc : Carries inventory head.entryHash hash) :
    ¬ (analyse anchor.chainId nodes).Names hash := by
  intro hna
  obtain ⟨node, hn, rfl, ha⟩ := exists_node_of_names hna
  obtain ⟨top, ht, rfl, -, -⟩ := verifiedHead_spec hhe
  have hm := hsu.subset hn
  -- the object of the node has one entry hash
  have hsa : node.entryHash = top.entryHash := by
    rcases hc with ⟨entry, hen, hh, he⟩ | ⟨stub, hs, hh, he⟩
    · rcases h.mem_nodes.mp hm with ⟨_, he', rfl⟩ | ⟨stub, hs, rfl⟩
      · obtain rfl := HashDetermines.of_pairwise h.spec.entries_distinct _ hen _
          (h.mem_placed.mp he').1 hh
        exact he
      · exact absurd hh (entry_ne_stub hfree (h.spec.entries entry hen) (h.exact_candidate hs))
    · rcases h.mem_nodes.mp hm with ⟨entry, hen, rfl⟩ | ⟨_, hstub', rfl⟩
      · exact absurd hh.symm (entry_ne_stub hfree (h.exact_placed hen) (h.spec.destroyed stub hs))
      · rw [h.stubCandidates_eq, mem_candidates] at hstub'
        obtain rfl := HashDetermines.of_pairwise h.spec.destroyed_distinct _ hs _ hstub'.1 hh
        exact he
  have hse := (h.entryHashBinding_nodes hentries node hm top (hsu.subset ht) hsa).1
  exact absurd (ha _ hhe) (not_lt.mpr hse.le)

/-- Without stubs the head is clear: a checkpoint in conflict with it withdraws it. -/
theorem headClear_of_empty (hem : inventory.destroyed = []) :
    HeadClear inventory anchor run.report := by
  have hchainHead : run.report.chainHead = _ := congrArg Placement.chainHead
    ((h.placement_report_of_empty hem).trans h.placement_assessed)
  unfold HeadClear
  rw [hchainHead]
  dsimp only
  split
  · exact .inl rfl
  next ha =>
    cases hh : (analyse anchor.chainId run.nodes).verifiedHead with
    | none => exact .inl rfl
    | some _ =>
      obtain ⟨top, ht, rfl, -, -⟩ := verifiedHead_spec hh
      refine .inr fun hash hc hl => ?_
      -- the head is an entry, and no other object carries its entry hash
      have hsa : hash = top.objectHash := by
        rcases h.mem_nodes.mp ht with ⟨_, hen, rfl⟩ | ⟨stub, hs, -⟩
        · rcases hc with ⟨_, he', rfl, he⟩ | ⟨stub, hs, -, -⟩
          · rw [h.placed_eq_of_entryHash hentries hen he' he.symm]
            rfl
          · simp [hem] at hs
        · simp [h.stubCandidates_eq_nil hem] at hs
      subst hsa
      have hcl : run.claims.report.Lists .quarantinedObjects top.objectHash := by
        rcases h.lists_report.mp hl with hcl | ⟨hf, -⟩ | ⟨-, hne, -⟩
        · exact hcl
        · cases hf
        · exact absurd hem hne
      rcases (h.lists_claims_of_mem_nodes hfree ht).mp hcl with hn | hco
      · exact h.not_names_of_carries hfree hentries (List.Sublist.refl _) hh
          (h.carries_of_mem_nodes ht) hn
      · exact ha (atHead_of_conflicts (h.objectHashBinding_nodes hfree) ht hh hco)

/-- With stubs the head is clear if nothing spoke against it before the second placement. -/
theorem headClear_of_ne (hne : inventory.destroyed ≠ []) : HeadClear inventory anchor run.report ↔
      ∀ head ∈ (analyse anchor.chainId run.finalNodes).verifiedHead,
        head ≠ sentinel anchor.chainId → Undisputed inventory anchor run.nodes head.entryHash := by
  have hchainHead : run.report.chainHead = _ :=
    congrArg Placement.chainHead (h.placement_report hne)
  unfold HeadClear
  rw [hchainHead]
  cases hh : (analyse anchor.chainId run.finalNodes).verifiedHead with
  | none => simp
  | some head =>
    simp only [Option.getD_some, Option.mem_some_iff, forall_eq']
    rw [← or_iff_not_imp_left, h.undisputed_iff hfree]
    refine or_congr_right (forall_congr' fun hash => forall_congr' fun hc => ?_)
    have hn := h.not_names_of_carries hfree hentries h.finalNodes_sublist hh hc
    simp [h.lists_report, hn]

end RunOf

/-- **When the head of a report is clear**: without stubs always; with stubs, if before the second
placement nothing speaks against the head it finds. -/
theorem headClear_iff {source : ArchiveSource} {report : VerificationReport}
    (hfree : CollisionFree source.blobs) (hentries : EntryHashFree source.blobs)
    (hbuild : ArchiveInventory.build source = .ok inventory)
    (hverify : verifyArchive source anchor options = .ok report) :
    HeadClear inventory anchor report ↔
      (TrustGate inventory anchor options → inventory.destroyed ≠ [] →
        ∀ head ∈ (analyse anchor.chainId
            (verifyRun inventory anchor options).finalNodes).verifiedHead,
          head ≠ sentinel anchor.chainId →
            Undisputed inventory anchor (verifyRun inventory anchor options).nodes
              head.entryHash) := by
  obtain ⟨inventory', hbuild', hc⟩ := verifyArchive_eq_ok hverify
  obtain rfl : inventory' = inventory := Except.ok.inj (hbuild'.symm.trans hbuild)
  rcases hc with ⟨hg, rfl⟩ | ⟨hg, rfl⟩
  · exact ⟨fun _ ho => absurd ho hg, fun _ => .inl rfl⟩
  · have h : RunOf source.blobs inventory' anchor options
        (verifyRun inventory' anchor options) := ⟨build_spec hbuild, rfl⟩
    by_cases he : inventory'.destroyed = []
    · exact ⟨fun _ _ hne => absurd he hne, fun _ => h.headClear_of_empty hfree hentries he⟩
    · rw [h.headClear_of_ne hfree hentries he]
      exact ⟨fun hcl _ _ => hcl, fun hcl => hcl hg he⟩

/-- Two entries, a checkpoint, and a stub that no destruction covers. -/
def headArchive (checkpoint : ArchiveObject) : TableArchive where
  table
    | 40 => some (entryPackage (writerManifest 0 0 none))
    | 41 => some (entryPackage (writerManifest 1 1 (some 100)))
    | 50 => some checkpoint
    | 60 => some (destroyedStub (writerManifest 2 2 (some 101)) 61 9 9)
    | hash => organization hash
  delivered := organizationNames ++ [40, 41, 50, 60]

omit [Crypto] [EscrowRules] in
theorem headClear_iff_consistent :
    let archive := headArchive (standardCheckpoint 1 101)
    let options : VerifyOptions := { osWallClock := 15 }
    let := archive.crypto
    let := archive.escrowRules
    ∃ inventory report, ArchiveInventory.build archive.source = .ok inventory ∧
      archive.verify organizationAnchor options = .ok report ∧ report.chainHead = ⟨2, 1, 101⟩ ∧
        (HeadClear inventory organizationAnchor report ↔
          (TrustGate inventory organizationAnchor options → inventory.destroyed ≠ [] →
            ∀ head ∈ (analyse organizationAnchor.chainId
                (verifyRun inventory organizationAnchor options).finalNodes).verifiedHead,
              head ≠ sentinel organizationAnchor.chainId → Undisputed inventory organizationAnchor
                  (verifyRun inventory organizationAnchor options).nodes head.entryHash)) := by
  intro archive options _ _
  obtain ⟨inventory, report, hb, hv, hh⟩ :=
    archive.exists_report organizationAnchor options (·.chainHead = ⟨2, 1, 101⟩)
  exact ⟨inventory, report, hb, hv, of_decide_eq_true hh,
    headClear_iff archive.collisionFree (archive.entryHashFree (by decide +kernel)) hb hv⟩

omit [Crypto] [EscrowRules] in
/-- The checkpoint contradicts the entry of sequence one, which is quarantined; the second placement
names it as the head again. -/
theorem not_headClear_of_conflict :
    let archive := headArchive (standardCheckpoint 1 999)
    let options : VerifyOptions := { osWallClock := 15 }
    let := archive.crypto
    ∃ inventory report, ArchiveInventory.build archive.source = .ok inventory ∧
      archive.verify organizationAnchor options = .ok report ∧
        ¬ HeadClear inventory organizationAnchor report := by
  intro archive options _
  let := archive.escrowRules
  obtain ⟨inventory, report, hb, hv, hp⟩ := archive.exists_report organizationAnchor options
    (fun report => report.isQuarantined 41 && decide (report.chainHead = ⟨2, 1, 101⟩))
  have hc : (ArchiveInventory.build archive.source).toOption.any (fun inventory =>
      inventory.entries.any fun entry =>
        decide (entry.objectHash = 41 ∧ entry.value.entryHash = 101)) = true := by decide +kernel
  rw [hb] at hc
  simp only [Except.toOption, Option.any_some, List.any_eq_true, decide_eq_true_eq] at hc
  rw [Bool.and_eq_true, VerificationReport.isQuarantined_iff, decide_eq_true_eq] at hp
  refine ⟨inventory, report, hb, hv, ?_⟩
  unfold HeadClear
  rw [hp.2]
  rintro (hs | hcl)
  · cases hs
  · exact hcl 41 (.inl hc) hp.1

/-! ## 3. Disputes -/

section

variable (inventory : ArchiveInventory) (anchor : TrustAnchor)

/-- A node of another entry hash shares the sequence or the predecessor of the node, or a checkpoint
contradicts its entry hash at a verified sequence. -/
def Disputed (nodes : List ChainNode)
    (node : ChainNode) : Prop :=
  (∃ rival ∈ nodes, Rival node rival) ∨ ∃ claim ∈ authenticatedClaims inventory anchor,
    ContradictedBy (analyse anchor.chainId nodes) node claim

/-- The object is in quarantine and has no result. -/
def Isolated (report : VerificationReport) (hash : ObjectHash) : Prop :=
  report.Lists .quarantinedObjects hash ∧ ¬ report.Lists .objectResults hash

/-- Every object with a disputed entry hash is isolated. -/
def DisputesIsolated (nodes : List ChainNode)
    (report : VerificationReport) : Prop :=
  ∀ disputed ∈ nodes, Disputed inventory anchor nodes disputed →
    ∀ node ∈ nodes, node.entryHash = disputed.entryHash → Isolated report node.objectHash

/-- The node is an entry whose grant plan is faulty, and the second placement names it. -/
def NamedLate (run : Run) (node : ChainNode) :
    Prop :=
  inventory.destroyed ≠ [] ∧ (analyse anchor.chainId run.finalNodes).Names node.objectHash ∧
    ∃ entry ∈ run.placed, entryChainNode entry = node ∧
      (grantPlanFinding entry inventory.grants).isSome = true

end

/-- With entry hashes that bind their node a dispute is about every node of the entry hash. -/
theorem Disputed.of_entryHash {other : ChainNode} (hb : EntryHashBinding nodes)
    (hn : node ∈ nodes) (ho : other ∈ nodes) (hs : other.entryHash = node.entryHash)
    (h : Disputed inventory anchor nodes node) : Disputed inventory anchor nodes other := by
  obtain ⟨hse, hp⟩ := hb other ho node hn hs
  rcases h with ⟨rival, hr, hne, hsh⟩ | ⟨claim, hc, hco⟩
  · refine .inl ⟨rival, hr, hs ▸ hne, ?_⟩
    rw [hse, hp]
    exact hsh
  · exact .inr ⟨claim, hc, hco.chainId_eq, hco.verified,
      hse.trans hco.sequence_eq, hs ▸ hco.entryHash_ne⟩

namespace RunOf

variable (h : RunOf blobs inventory anchor options run)
variable (hfree : CollisionFree blobs)

include h hfree

/-- The results are those of the clear entries and of the approved stubs. -/
theorem lists_results : run.report.Lists .objectResults hash ↔
    (∃ entry ∈ run.placed, hash = entry.objectHash ∧ Clear run.assessed hash) ∨
      hash ∈ run.approved := by
  have hcl : run.claims.report.Lists .objectResults hash ↔
      run.receipted.Lists .objectResults hash := by
    constructor
    · intro hl
      rcases h.lists_claims.mp hl with he | ⟨_, -, entry, -, -, hfa⟩
      · rcases h.lists_evidenced.mp he with hr | ⟨hf, -⟩
        · exact hr
        · cases hf
      · rcases (grantFault_eq_some hfa).1 with hf | hf
        · cases hf
        · cases hf
    · exact h.lists_claims_of_receipted
  have hr : run.receipted.Lists .objectResults hash ↔
      ∃ entry ∈ run.placed, hash = entry.objectHash ∧ Clear run.assessed hash := by
    rw [h.lists_receipted (h.receiptsApart hfree),
      or_iff_right (h.not_lists_assessed (by simp) (by simp) (by simp))]
    refine exists_congr fun entry => and_congr_right fun _ => ?_
    constructor
    · rintro ⟨hc, ⟨-, rfl⟩ | ⟨hf, -⟩⟩
      · exact ⟨rfl, hc⟩
      · cases hf
    · rintro ⟨rfl, hc⟩
      exact ⟨hc, .inl ⟨rfl, rfl⟩⟩
  rw [h.lists_report, hcl, hr]
  simp

/-- A placed entry fails its signature before the receipts only by its grant plan. -/
theorem clear_assessed_iff {entry : Parsed EntryPackage} (he : entry ∈ run.placed) :
    Clear run.assessed entry.objectHash ↔
      ¬ run.claims.report.Lists .quarantinedObjects entry.objectHash ∧
        (grantPlanFinding entry inventory.grants).isSome = false := by
  have hn : entryChainNode entry ∈ run.nodes := h.mem_nodes.mpr (.inl ⟨entry, he, rfl⟩)
  have hq : run.claims.report.Lists .quarantinedObjects entry.objectHash ↔
      run.assessed.Lists .quarantinedObjects entry.objectHash := by
    refine ⟨fun hl => ?_, h.lists_claims_of_assessed⟩
    rcases (h.lists_claims_of_mem_nodes hfree hn).mp hl with hna | hco
    · exact h.lists_assessed.mpr (.inl (h.lists_planned_of_positioned
        (h.lists_positioned.mpr (.inr ⟨rfl, hna⟩))))
    · exact h.lists_assessed.mpr (.inr (.inr ⟨rfl, hco⟩))
  rw [Clear, hq]
  refine and_congr_right fun hc => ?_
  rw [← Bool.not_eq_true, not_iff_not]
  constructor
  · intro hl
    rcases h.lists_assessed.mp hl with hpl | ⟨evd, hev, -, hh, -⟩
      | ⟨hf, -⟩
    · rcases h.lists_planned.mp hpl with (hpo | ⟨hf, -⟩) |
        ⟨entry', he', -, hh, -, hp⟩
      · exact absurd hpo (h.not_lists_positioned_of_mem_nodes hfree hn)
      · cases hf
      · obtain rfl := HashDetermines.of_pairwise h.pairwise_placed _ he _ he' hh
        exact hp
    · have hd : Delivered blobs .evidence evd.objectHash := (h.spec.evidence evd hev).deliveredAs
      cases hd.kind_eq hfree (hh ▸ (h.exact_placed he).deliveredAs)
    · cases hf
  · intro hp
    refine h.lists_assessed.mpr (.inl (h.lists_planned.mpr
      (.inr ⟨entry, he, rfl, rfl, fun hb => hc ?_, hp⟩)))
    exact h.lists_assessed.mpr (.inl (h.lists_planned.mpr (.inl (lists_quarantineOrphans.mp hb))))

/-- What is in quarantine before the second placement has no result. -/
theorem isolated_of_claims (hl : run.claims.report.Lists .quarantinedObjects hash) :
    Isolated run.report hash := by
  refine ⟨h.lists_report.mpr (.inl hl), fun hr => ?_⟩
  rcases (h.lists_results hfree).mp hr with ⟨_, he, rfl, hc⟩ | ha
  · exact ((h.clear_assessed_iff hfree he).mp hc).1 hl
  · obtain ⟨_, -, rfl, hn⟩ := h.exists_of_mem_approved ha
    exact hn hl

/-- What the second placement quarantines has no result only if it is named late. -/
theorem isolated_iff (hno : node ∈ run.nodes) : Isolated run.report node.objectHash ↔
    run.claims.report.Lists .quarantinedObjects node.objectHash ∨
      NamedLate inventory anchor run node := by
  constructor
  · rintro ⟨hl, hr⟩
    rcases h.lists_report.mp hl with hcl | ⟨hf, -⟩ | ⟨-, hne, hna⟩
    · exact .inl hcl
    · cases hf
    · rw [h.lists_results hfree, not_or] at hr
      refine or_iff_not_imp_left.mpr fun hcl => ⟨hne, hna, ?_⟩
      obtain ⟨other, ho, hh, -⟩ := exists_node_of_names hna
      obtain rfl := h.objectHashBinding_nodes hfree other (h.finalNodes_sublist.subset ho) node
        hno hh
      rcases h.mem_nodes.mp hno with ⟨entry, he, rfl⟩ | ⟨stub, hs, rfl⟩
      · refine ⟨entry, he, rfl, ?_⟩
        by_contra hp
        rw [Bool.not_eq_true] at hp
        exact hr.1 ⟨entry, he, rfl, (h.clear_assessed_iff hfree he).mpr ⟨hcl, hp⟩⟩
      · -- a stub of the second placement is approved
        rw [h.finalNodes_eq] at ho
        have ha := List.of_mem_filter ho
        exact absurd (by simpa [stubChainNode, chainNode] using ha) hr.2
  · rintro (hcl | ⟨hne, hna, entry, he, rfl, hp⟩)
    · exact h.isolated_of_claims hfree hcl
    · refine ⟨h.lists_report.mpr (.inr (.inr ⟨rfl, hne, hna⟩)), fun hr => ?_⟩
      rcases (h.lists_results hfree).mp hr with ⟨-, -, -, hc⟩ | ha
      · have hn := ((h.clear_assessed_iff hfree he).mp hc).2
        rw [hp] at hn
        cases hn
      · obtain ⟨stub, hs, hh, -⟩ := h.exists_of_mem_approved ha
        exact entry_ne_stub hfree (h.exact_placed he) (h.exact_candidate hs) hh.symm

/-- A disputed node is in quarantine before the second placement if it is the least one of its entry
hash or broken. -/
theorem lists_claims_of_disputed (hentries : EntryHashFree blobs) (hn : node ∈ run.nodes)
    (hd : Disputed inventory anchor run.nodes node) :
    run.claims.report.Lists .quarantinedObjects node.objectHash ↔
      IsLeast run.nodes node ∨ Broken run.nodes node := by
  have hb := h.entryHashBinding_nodes hentries
  have ho := h.objectHashBinding_nodes hfree
  rw [h.lists_claims_of_mem_nodes hfree hn, names_iff hb ho hn, conflicts_iff hb ho hn]
  constructor
  · rintro ((⟨-, hl⟩ | hbr) | ⟨-, hl⟩)
    · exact .inl hl
    · exact .inr hbr
    · exact .inl hl
  · rintro (hl | hbr)
    · rcases hd with hr | hc
      · exact .inl (.inl ⟨hr, hl⟩)
      · exact .inr ⟨hc, hl⟩
    · exact .inl (.inr hbr)

end RunOf

/-- **Which objects of a dispute are isolated**: those with the smallest object hash of their entry
hash, those that break the chain, and those named late. -/
theorem isolated_iff_of_disputed {source : ArchiveSource} {report : VerificationReport}
    (hfree : CollisionFree source.blobs) (hentries : EntryHashFree source.blobs)
    (hbuild : ArchiveInventory.build source = .ok inventory)
    (hverify : verifyArchive source anchor options = .ok report)
    (hcompleted : report.pipelineCompleted = true) :
    let run := verifyRun inventory anchor options
    ∀ disputed ∈ run.nodes, Disputed inventory anchor run.nodes disputed →
      ∀ node ∈ run.nodes, node.entryHash = disputed.entryHash →
        (Isolated report node.objectHash ↔ IsLeast run.nodes node ∨ Broken run.nodes node ∨
          NamedLate inventory anchor run node) := by
  intro run disputed hm hd node hn hs
  obtain ⟨h, rfl⟩ := runOf_of_verifyArchive hbuild hverify hcompleted
  have hb : Disputed inventory anchor run.nodes node :=
    hd.of_entryHash (h.entryHashBinding_nodes hentries) hm hn hs
  rw [h.isolated_iff hfree hn, h.lists_claims_of_disputed hfree hentries hn hb, or_assoc]

omit [Crypto] [EscrowRules] in
theorem isolated_iff_of_disputed_conflict :
    let archive := headArchive (standardCheckpoint 1 999)
    let options : VerifyOptions := { osWallClock := 15 }
    let := archive.crypto
    let := archive.escrowRules
    ∃ inventory report, ArchiveInventory.build archive.source = .ok inventory ∧
      archive.verify organizationAnchor options = .ok report ∧ report.pipelineCompleted = true ∧
        let run := verifyRun inventory organizationAnchor options
        ∀ disputed ∈ run.nodes, Disputed inventory organizationAnchor run.nodes disputed →
          ∀ node ∈ run.nodes, node.entryHash = disputed.entryHash →
            (Isolated report node.objectHash ↔ IsLeast run.nodes node ∨ Broken run.nodes node ∨
              NamedLate inventory organizationAnchor run node) := by
  intro archive options _ _
  obtain ⟨inventory, report, hb, hv, hc⟩ :=
    archive.exists_report organizationAnchor options (·.pipelineCompleted)
  exact ⟨inventory, report, hb, hv, hc, isolated_iff_of_disputed
    archive.collisionFree (archive.entryHashFree (by decide +kernel)) hb hv hc⟩

/-- Entry 41 and stub 60 carry one manifest; entry 45 names the predecessor they name. -/
def rivalArchive : TableArchive where
  table
    | 40 => some (entryPackage (underHead 6 82 (writerManifest 0 0 none)))
    | 41 => some (entryPackage (underHead 6 82 (writerManifest 1 1 (some 100))))
    | 45 => some (entryPackage (underHead 6 82 (writerManifest 5 5 (some 100))))
    | 60 => some (destroyedStub (underHead 6 82 (writerManifest 1 1 (some 100))) 41 9 90)
    | hash => destroyingOrganization hash
  delivered := destroyingNames ++ [40, 41, 45, 60]

omit [Crypto] [EscrowRules] in
/-- The fork between the entry hashes 101 and 105 names the entries only: the stub is not
quarantined. -/
theorem not_disputesIsolated_of_stub :
    let options : VerifyOptions := { osWallClock := 15 }
    let := rivalArchive.crypto
    let := rivalArchive.escrowRules
    ∃ inventory report, ArchiveInventory.build rivalArchive.source = .ok inventory ∧
      rivalArchive.verify organizationAnchor options = .ok report ∧
        report.pipelineCompleted = true ∧ ¬ DisputesIsolated inventory organizationAnchor
            (verifyRun inventory organizationAnchor options).nodes report := by
  intro options _ _
  obtain ⟨inventory, report, hb, hv, hp⟩ := rivalArchive.exists_report organizationAnchor options
    (fun report => report.pipelineCompleted && !report.isQuarantined 60)
  have hn : (ArchiveInventory.build rivalArchive.source).toOption.any (fun inventory =>
      let nodes := (verifyRun inventory organizationAnchor options).nodes
      ∃ entry ∈ nodes, ∃ rival ∈ nodes, ∃ stub ∈ nodes, entry.entryHash ≠ rival.entryHash ∧
        entry.previousEntryHash = rival.previousEntryHash ∧ entry.previousEntryHash.isSome ∧
        stub.entryHash = entry.entryHash ∧ stub.objectHash = 60) = true := by decide +kernel
  simp only [hb, Except.toOption, Option.any_some, decide_eq_true_eq] at hn
  obtain ⟨entry, he, rival, hr, stub, hs, hne, hpr, hso, hsa, hh⟩ := hn
  rw [Bool.and_eq_true, Bool.not_eq_true'] at hp
  refine ⟨inventory, report, hb, hv, hp.1, fun hi => ?_⟩
  have hd : Disputed inventory organizationAnchor
      (verifyRun inventory organizationAnchor options).nodes entry :=
    .inl ⟨rival, hr, hne, .inr ⟨hpr, hso⟩⟩
  have hq := (hi entry he hd stub hs hsa).1
  rw [hh, ← VerificationReport.isQuarantined_iff, hp.2] at hq
  cases hq

end Einsatzarchiv.Verify
