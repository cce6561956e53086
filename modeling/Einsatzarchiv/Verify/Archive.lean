/-
  File:      Einsatzarchiv/Verify/Archive.lean
  Subject:   The verification of an archive (crate `ea-verify`, `archive.rs` and `evidence.rs`).

  * One definition for each stage: `judgeEntries`, `placeInChain`, `checkGrantPlans`,
    `assessCheckpoints`, `confirmEntries`, `runEvidenceGate`, `claimOwnGrants`, `settleStubs`.
  * `Run`: the values the stages hand on to each other, `verifyRun` computes them.
  * `verifyArchive`: the inventory, the trust gate and the stages.
  * `verifyArchive_eq_ok`: what a returned report is.
-/
import Einsatzarchiv.Verify.Destructions

namespace Einsatzarchiv.Verify

open Lib Format Archive Chain Trust

/-! ## 1. Options and errors -/

/-- Whether entries need a qualified time. -/
inductive EvidenceRequirement
  | notRequired | required
deriving DecidableEq

/-- What the caller asks for beside the archive and the anchor. -/
structure VerifyOptions where
  osWallClock : Int
  recipient : Option RecipientKey := none
  recipientTimeCeiling : Option Int := none
  evidenceRequirement : EvidenceRequirement := .notRequired

/-- Why there is no report at all. -/
inductive VerifyError
  | archive (error : ArchiveError)
  | recipientTimeNotDurable

variable [Crypto]

/-! ## 2. Opening the report -/

/-- The report over an inventory, before the trust gate. -/
def openReport (inventory : ArchiveInventory) (anchor : TrustAnchor) : VerificationReport where
  chainHead := sentinel anchor.chainId
  archiveObjectCount := inventory.archiveObjectCount
  nonObjectFileCount := inventory.nonObjectFileCount
  entryPackageCount := inventory.entries.length
  destroyedEntryCount := inventory.destroyed.length
  formatErrors := inventory.formatErrors
  quarantinedObjects := inventory.quarantined

variable [EscrowRules]

/-! ## 3. Registry and manifest signature -/

/-- What the registry, the signature and the writer transition say about an entry. -/
inductive EntryVerdict
  | unattributable
  | unsigned (error : ManifestSignatureError)
  | misplaced (thumbprint : KeyThumbprint)
  | placed (thumbprint : KeyThumbprint)

section

variable (inventory : ArchiveInventory)

section

variable (anchor : TrustAnchor)

/-- What one entry is by itself: its head, its writer and its signature. -/
def entryVerdict (entry : Parsed EntryPackage) : EntryVerdict :=
  let fields := entry.value.signedManifest.manifest
  match manifestHead inventory anchor fields with
  | none => .unattributable
  | some selected =>
    if !writerIsActive selected fields.writerCertificateHash then .unattributable
    else match verifiedSigner entry selected with
      | .error error => .unsigned error
      | .ok thumbprint =>
        if fields.chainId ≠ anchor.chainId || !writerTransitionClaimHolds entry selected then
          .misplaced thumbprint
        else .placed thumbprint

/-- One round of the loop over the entries; the second component holds the placed ones. -/
def judgeEntry (state : VerificationReport × List (Parsed EntryPackage))
    (entry : Parsed EntryPackage) :
    VerificationReport × List (Parsed EntryPackage) :=
  let (report, placed) := state
  let version := entry.value.signedManifest.manifest.registryVersion
  if report.isQuarantined entry.objectHash then state
  else match entryVerdict inventory anchor entry with
    | .unattributable => (report.quarantineUnattributable entry.objectHash, placed)
    | .unsigned error => (report.addSignatureError entry.objectHash error.code, placed)
    | .misplaced thumbprint =>
      (((report.addRegistryVersion version).addThumbprint thumbprint).quarantineUnattributable
        entry.objectHash, placed)
    | .placed thumbprint =>
      ((report.addRegistryVersion version).addThumbprint thumbprint, placed ++ [entry])

/-- The entries by sequence. -/
def orderedEntries : List (Parsed EntryPackage) :=
  sortByKey (fun entry => toLex (entry.value.signedManifest.manifest.chainSequence,
    entry.objectHash)) inventory.entries

/-- The verdicts of all entries, in the order of their hashes. -/
def judgeEntries (report : VerificationReport) : VerificationReport × List (Parsed EntryPackage) :=
  (orderedEntries inventory).foldl (judgeEntry inventory anchor) (report, [])

end

end

/-! ## 4. Chain position -/

section

variable (report : VerificationReport)

/-- Both objects a fork names. -/
def quarantineFork (fork : ChainFork) : VerificationReport :=
  (report.quarantineConflicting fork.competingObjectHashes.1).quarantineConflicting
    fork.competingObjectHashes.2

/-- What an analysed chain writes into the report. -/
def recordChain (chain : VerifiedChain) : VerificationReport :=
  let report := chain.gaps.foldl VerificationReport.addGap report
  let report := chain.forks.foldl quarantineFork report
  let report := chain.breaks.foldl
    (fun report entry => report.quarantineConflicting entry.objectHash) report
  match chain.verifiedHead with
  | some head => report.setChainHead head
  | none => report

/-- `place_in_chain`. -/
def placeInChain (anchor : TrustAnchor) (nodes : List ChainNode) :
    VerificationReport × Option VerifiedChain :=
  match buildChain anchor.chainId nodes with
  | .error _ =>
    (nodes.foldl (fun report node => report.quarantineConflicting node.objectHash) report, none)
  | .ok chain => (recordChain report chain, some chain)

end

/-! ## 5. Grant plans -/

/-- Grants whose entry is not there. -/
def quarantineOrphans (inventory : ArchiveInventory) (report : VerificationReport) :
    VerificationReport :=
  (orphanGrants inventory).foldl VerificationReport.quarantineUnattributable report

/-- An entry with the wrong set of grants is quarantined. -/
def checkGrantPlan (grants : List (Parsed Grant)) (report : VerificationReport)
    (entry : Parsed EntryPackage) : VerificationReport :=
  if report.isQuarantined entry.objectHash then report
  else match grantPlanFinding entry grants with
    | some code => report.addSignatureError entry.objectHash code
    | none => report

/-- The same for every placed entry. -/
def checkGrantPlans (inventory : ArchiveInventory) (report : VerificationReport)
    (placed : List (Parsed EntryPackage)) : VerificationReport :=
  placed.foldl (checkGrantPlan inventory.grants) report

/-! ## 6. Checkpoints -/

/-- One round of the loop over the evidence; the second component holds the claims of the
authenticated standard checkpoints. -/
def authenticateCheckpoint (inventory : ArchiveInventory) (anchor : TrustAnchor)
    (state : VerificationReport × List CheckpointClaim) (evidence : Parsed EvidenceObject) :
    VerificationReport × List CheckpointClaim :=
  let (report, claims) := state
  match evidence.value, standardCheckpointClaim evidence with
  | .standard fields cose, some claim =>
    if checkpointVerified inventory anchor fields evidence then
      ((report.addThumbprint cose.keyThumbprint).raiseTimeFloor fields.issuedAtServer,
        claims ++ [claim])
    else (report.addSignatureError evidence.objectHash
      ReceiptGateError.checkpointUnverifiable.code, claims)
  | _, _ => state

section

variable (chain : VerifiedChain) (chainId : ChainId) (report : VerificationReport)

/-- What a finding of the rollback assessment writes into the report. -/
def recordFinding (finding : RollbackFinding) : VerificationReport :=
  let report := match finding.provenMissingSequences with
    | some (first, last) => report.addGap ⟨chainId, first, last⟩
    | none => report
  match finding with
  | .headEntryHashMismatch sequence _ _ _ conflictingObjectHash =>
    let report := report.quarantineConflicting conflictingObjectHash
    if chain.verifiedHead.any (·.chainSequence = sequence) then
      report.setChainHead (sentinel chainId)
    else report
  | .truncatedBelowCheckpoint .. => report

/-- The findings of a rollback become gaps and quarantined objects. -/
def recordAssessment (assessment : RollbackAssessment) : VerificationReport :=
  let report := match assessment with
    | .rollback findings => findings.foldl (recordFinding chain chainId) report
    | _ => report
  { report with rollback := assessment }

end

/-- `assess_checkpoints`. -/
def assessCheckpoints (inventory : ArchiveInventory) (anchor : TrustAnchor)
    (report : VerificationReport) (chain : VerifiedChain) : VerificationReport :=
  let (report, claims) :=
    inventory.evidence.foldl (authenticateCheckpoint inventory anchor) (report, [])
  recordAssessment chain anchor.chainId report (assessRollback chain claims)

/-! ## 7. Receipts -/

/-- One round of the loop of `confirm_entries`; the second component holds the confirmed pairs. -/
def confirmEntry (inventory : ArchiveInventory) (anchor : TrustAnchor)
    (state : VerificationReport × List (Parsed EntryPackage × Parsed Receipt))
    (entry : Parsed EntryPackage) :
    VerificationReport × List (Parsed EntryPackage × Parsed Receipt) :=
  let (report, confirmed) := state
  let valid (confirmation : ServerConfirmation) (report : VerificationReport) :=
    report.addResult entry.objectHash ⟨.entry, .valid, confirmation⟩
  if report.isQuarantined entry.objectHash || report.hasSignatureError entry.objectHash then state
  else match (receiptFor inventory entry).filter (!report.isQuarantined ·.objectHash) with
    | none => (valid .notServerConfirmed report, confirmed)
    | some receipt =>
      match confirmReceipt inventory anchor entry receipt with
      | .ok thumbprint =>
        (valid .serverConfirmed ((report.addThumbprint thumbprint).raiseTimeFloor
          receipt.value.core.acceptedAtServer), confirmed ++ [(entry, receipt)])
      | .error error =>
        (valid .notServerConfirmed (report.addSignatureError receipt.objectHash error.code),
          confirmed)

/-- The receipt of every placed entry. -/
def confirmEntries (inventory : ArchiveInventory) (anchor : TrustAnchor)
    (report : VerificationReport) (placed : List (Parsed EntryPackage)) :
    VerificationReport × List (Parsed EntryPackage × Parsed Receipt) :=
  placed.foldl (confirmEntry inventory anchor) (report, [])

/-! ## 8. Evidence -/

/-- Why an evidence object does not count. -/
inductive EvidenceGateError
  | tokenNotBound | renewalInputUnknown | missing | overdue

def EvidenceGateError.code : EvidenceGateError → String
  | .tokenNotBound => "EA-VERIFY-EVIDENCE-TOKEN-NOT-BOUND"
  | .renewalInputUnknown => "EA-VERIFY-EVIDENCE-RENEWAL-INPUT-UNKNOWN"
  | .missing => "EA-VERIFY-EVIDENCE-MISSING"
  | .overdue => "EA-VERIFY-EVIDENCE-OVERDUE"

/-- The sequences a token covers. -/
structure QualifyingToken where
  (coveredFromSequence coveredThroughSequence : Nat)

/-- The token is the one the evidence holds. -/
def tokenIsBound (cose : CoseSign1) (fields : Rfc3161EvidenceFields) :
    Except EvidenceGateError Unit :=
  ensure (cose.timestampToken = some fields.rfc3161ResponseDer) .tokenNotBound

section

variable (inventory : ArchiveInventory)

/-- A renewal covers objects of this archive. -/
def renewalInputsResolve (inputs : List Hash32) :
    Except EvidenceGateError Unit :=
  let known := inventory.evidence.map fun object => Crypto.renewalInputDigest object.exactBytes
  ensure (inputs.all known.contains) .renewalInputUnknown

/-- The qualified token of an evidence object, if it has one. -/
def tokenFinding (evidence : EvidenceObject) :
    Except EvidenceGateError (Option QualifyingToken) := do
  match evidence with
  | .standard _ _ => return none
  | .timestamp core cose fields =>
    tokenIsBound cose fields
    return some ⟨core.coveredFromSequence, core.coveredThroughSequence⟩
  | .renewal core cose fields =>
    tokenIsBound cose fields
    renewalInputsResolve inventory core.renewalInputHashes
    return none

section

variable (anchor : TrustAnchor)

/-- The evidence is about the chain of the anchor. -/
def coversThisChain : EvidenceObject → Bool
  | .timestamp core _ _ => core.chainId = anchor.chainId
  | _ => false

/-- The verdict on one evidence object. -/
def judgeEvidence (report : VerificationReport)
    (evidence : Parsed EvidenceObject) : VerificationReport :=
  if report.isQuarantined evidence.objectHash then report
  else match tokenFinding inventory evidence.value with
    | .error error => report.addEvidenceError evidence.objectHash error.code
    | .ok _ => report

/-- The tokens over this chain that are bound to their evidence. -/
def qualifyingTokens (report : VerificationReport) : List QualifyingToken :=
  inventory.evidence.filterMap fun evidence =>
    if report.isQuarantined evidence.objectHash then none
    else match tokenFinding inventory evidence.value with
      | .ok (some token) => if coversThisChain anchor evidence.value then some token else none
      | _ => none

/-- The evidence a confirmed receipt demands is missing or overdue. -/
def judgeConfirmed (qualifying : List QualifyingToken) (effectiveNow : Int)
    (report : VerificationReport) (pair : Parsed EntryPackage × Parsed Receipt) :
    VerificationReport :=
  let (entry, receipt) := pair
  match receipt.value.core.evidenceDueAt with
  | none => report
  | some dueAt =>
    let sequence := entry.value.signedManifest.manifest.chainSequence
    if report.isQuarantined receipt.objectHash || qualifying.any (fun token =>
        token.coveredFromSequence ≤ sequence && sequence ≤ token.coveredThroughSequence) then
      report
    else
      let error := if dueAt < effectiveNow then EvidenceGateError.overdue else .missing
      report.addEvidenceError receipt.objectHash error.code

/-- `run_evidence_gate`. -/
def runEvidenceGate (options : VerifyOptions) (report : VerificationReport)
    (confirmed : List (Parsed EntryPackage × Parsed Receipt)) : VerificationReport :=
  let qualifying := qualifyingTokens inventory anchor report
  let report := inventory.evidence.foldl (judgeEvidence inventory) report
  if options.evidenceRequirement = .notRequired then report
  else confirmed.foldl (judgeConfirmed qualifying options.osWallClock) report

end

end

/-! ## 9. Recipient grants -/

/-- Whether the recipient's key was used. -/
inductive Decapsulation
  | performed | skipped

/-- The time of the report: its floor and the clock. -/
def effectiveNow (options : VerifyOptions) (report : VerificationReport) : Int :=
  report.verifiedTimeFloor.elim options.osWallClock (max · options.osWallClock)

/-- A recipient has to lean on a historical grant, but the time it would be judged at lies above
the ceiling. -/
def recipientTimeNotDurable (inventory : ArchiveInventory) (options : VerifyOptions)
    (placed : List (Parsed EntryPackage)) (report : VerificationReport) : Bool :=
  options.recipientTimeCeiling.any fun ceiling => options.recipient.any fun recipient =>
    (inventory.grants.any fun grant =>
      let fields := grant.value.grantBody
      fields.kind = .historical && fields.recipientKeyThumbprint = recipient.keyThumbprint
        && placed.any fun entry => entry.value.entryHash = fields.entryHash
          && (ownGrant inventory entry recipient.keyThumbprint).isNone)
      && ceiling < effectiveNow options report

/-- What the loop over the placed entries collects. -/
structure GrantClaims where
  report : VerificationReport
  evidence : List VerifiedEvidence := []
  decapsulation : Decapsulation := .skipped

/-- `open_for_destruction`: what the opened entry proves about a destruction. -/
def openForDestruction (inventory : ArchiveInventory) (anchor : TrustAnchor)
    (recipient : RecipientKey) (grant : Parsed Grant) (entry : Parsed EntryPackage) :
    Except DecryptionError (Option VerifiedEvidence) := do
  let plaintext ← openEntry grant entry recipient
  return if inventory.destroyed.isEmpty then none else inspect plaintext entry inventory anchor

/-- `record_decapsulation` of an opened entry. -/
def recordDecapsulation (claims : GrantClaims) (grant : Parsed Grant)
    (outcome : Except DecryptionError (Option VerifiedEvidence)) : GrantClaims :=
  match outcome with
  | .ok proof => { claims with
      evidence := claims.evidence ++ proof.toList, decapsulation := .performed }
  | .error error => { claims with
      report := claims.report.addDecryptionError grant.objectHash error.code }

/-- The first historical grant that verifies, or else the first failure. -/
inductive HistoricalClaim
  | accepted (grant : Parsed Grant) (expires : Int)
  | failed (objectHash : ObjectHash) (code : String)
  | absent

/-- The first historical grant that verifies. -/
def historicalClaim (verify : Parsed Grant → Except String Int) :
    List (Parsed Grant) → HistoricalClaim
  | [] => .absent
  | grant :: grants =>
    match verify grant with
    | .ok expires => .accepted grant expires
    | .error code =>
      match historicalClaim verify grants with
      | .accepted grant expires => .accepted grant expires
      | _ => .failed grant.objectHash code

section

variable (inventory : ArchiveInventory) (anchor : TrustAnchor)

section

variable (recipient : RecipientKey)

/-- The claim of an entry without an initial grant for the recipient. -/
def claimHistoricalGrant (now : Int) (claims : GrantClaims)
    (entry : Parsed EntryPackage) :
    GrantClaims :=
  let grants := (historicalGrants inventory entry recipient.keyThumbprint).filter
    (!claims.report.isQuarantined ·.objectHash)
  match historicalClaim (verifyHistoricalGrant inventory anchor entry · now) grants with
  | .accepted grant expires =>
    let report := claims.report.addRecipientGrant entry.value.entryHash grant.objectHash
      (some expires)
    let report := report.addThumbprint grant.value.grantBody.issuerKeyThumbprint
    recordDecapsulation { claims with report } grant
      (openForDestruction inventory anchor recipient grant entry)
  | .failed objectHash code =>
    let report := claims.report.addRecipientGrant entry.value.entryHash objectHash none
    { claims with report := report.addSignatureError objectHash code }
  | .absent => claims

/-- The claim of an entry through an initial grant. -/
def claimInitialGrant (claims : GrantClaims)
    (entry : Parsed EntryPackage)
    (grant : Parsed Grant) : GrantClaims :=
  let report := claims.report.addRecipientGrant entry.value.entryHash grant.objectHash none
  if report.isQuarantined grant.objectHash then { claims with report }
  else
    let verified := do
      let selected ← okOr (manifestHead inventory anchor entry.value.signedManifest.manifest)
        RecipientGrantError.headUnavailable
      verifyOwnGrant grant entry selected
    match verified with
    | .error error =>
      { claims with report := report.addSignatureError grant.objectHash error.code }
    | .ok thumbprint =>
      recordDecapsulation { claims with report := report.addThumbprint thumbprint } grant
        (openForDestruction inventory anchor recipient grant entry)

/-- One round of the loop of `claim_own_grants`. -/
def claimOwnGrant (now : Int) (claims : GrantClaims) (entry : Parsed EntryPackage) : GrantClaims :=
  if !claims.report.objectResults.contains entry.objectHash then claims
  else match ownGrant inventory entry recipient.keyThumbprint with
    | none => claimHistoricalGrant inventory anchor recipient now claims entry
    | some grant => claimInitialGrant inventory anchor recipient claims entry grant

end

/-- `claim_own_grants`. -/
def claimOwnGrants (options : VerifyOptions) (report : VerificationReport)
    (placed : List (Parsed EntryPackage)) : GrantClaims :=
  match options.recipient with
  | none => { report }
  | some recipient => placed.foldl
      (claimOwnGrant inventory anchor recipient (effectiveNow options report)) { report }

end

/-! ## 10. The public head -/

/-- The head is reported only of a chain without a gap. -/
def publishChainHead (report : VerificationReport) (chain : Option VerifiedChain) :
    VerificationReport :=
  if chain.any VerifiedChain.isFullyVerified
      && report.gaps.isEmpty
      && report.formatErrors.isEmpty
      && report.quarantinedObjects.isEmpty
      && report.signatureErrors = ∅
      && report.evidenceErrors = ∅
      && report.decryptionErrors = ∅ then
    { report with publicChainHead := some report.chainHead }
  else report

/-! ## 11. Stubs -/

/-- The end of the verified prefix, if it starts at sequence zero. -/
def verifiedPrefixEnd (chainId : ChainId) (nodes : List ChainNode) : Option Nat :=
  match buildChain chainId nodes with
  | .ok chain =>
    if chain.nodes.head?.any (·.chainSequence = 0) then
      chain.verifiedHead.map (·.chainSequence)
    else none
  | .error _ => none

/-- The evidence that lies on the verified prefix of the nodes. -/
def retainEvidence (chainId : ChainId) (nodes : List ChainNode) (evidence : List VerifiedEvidence) :
    List VerifiedEvidence :=
  let last := verifiedPrefixEnd chainId nodes
  evidence.filter fun proof => last.any (proof.sequence ≤ ·)

/-- The candidates that are not quarantined and that the evidence holds for. -/
def approvedStubs (report : VerificationReport) (inventory : ArchiveInventory)
    (stubCandidates : List (Parsed DestroyedEntryStub))
    (attestations : Std.TreeMap ObjectHash DeletionAttestationFields)
    (evidence : List VerifiedEvidence) : List ObjectHash :=
  (stubCandidates.filter fun stub => !report.isQuarantined stub.objectHash
    && evidenceHolds stub evidence attestations inventory).map (·.objectHash)

/-- The nodes without the stubs that are not approved. -/
def retainNodes (approved : List ObjectHash) (nodes : List ChainNode) : List ChainNode :=
  nodes.filter fun node => node.kind ≠ .destroyedStub || approved.contains node.objectHash

/-- The loop over the stubs: `approve` are the stubs some evidence approves.  Every round but the
last removes a node, so that more fuel than there are nodes never runs out. -/
def convergeStubs (chainId : ChainId) (approve : List VerifiedEvidence → List ObjectHash) :
    Nat → List VerifiedEvidence → List ChainNode → List ObjectHash × List ChainNode
  | 0, evidence, nodes => (approve evidence, nodes)
  | fuel + 1, evidence, nodes =>
    let evidence := retainEvidence chainId nodes evidence
    let approved := approve evidence
    let retained := retainNodes approved nodes
    if retained.length = nodes.length then (approved, retained)
    else convergeStubs chainId approve fuel evidence retained

def destroyedResult : ObjectResult :=
  ⟨.destroyed, .authorizedDestroyed, .notServerConfirmed⟩

/-- The position of a candidate that was not approved is a gap. -/
def recordUnapproved (anchor : TrustAnchor) (approved : List ObjectHash)
    (report : VerificationReport) (stub : Parsed DestroyedEntryStub) : VerificationReport :=
  let sequence := stub.value.signedManifest.manifest.chainSequence
  if approved.contains stub.objectHash then report
  else report.addGapIfNew ⟨anchor.chainId, sequence, sequence⟩

/-- The chain is placed a second time, with the approved stubs only. -/
def settleStubs (anchor : TrustAnchor) (stubCandidates : List (Parsed DestroyedEntryStub))
    (approved : List ObjectHash) (nodes : List ChainNode) (report : VerificationReport) :
    VerificationReport :=
  let report := approved.foldl (fun report hash => report.addResult hash destroyedResult) report
  let report := { report with gaps := ∅, chainHead := sentinel anchor.chainId }
  let report := (placeInChain report anchor nodes).1
  stubCandidates.foldl (recordUnapproved anchor approved) report

/-! ## 12. The run -/

/-- What the stages of a verification hand on to each other; each report is the one after the
stage that names it. -/
structure Run where
  judged : VerificationReport
  placed : List (Parsed EntryPackage)
  recorded : VerificationReport
  attestations : Std.TreeMap ObjectHash DeletionAttestationFields
  stubCandidates : List (Parsed DestroyedEntryStub)
  nodes : List ChainNode
  positioned : VerificationReport
  chain : Option VerifiedChain
  (planned assessed receipted : VerificationReport)
  confirmed : List (Parsed EntryPackage × Parsed Receipt)
  evidenced : VerificationReport
  claims : GrantClaims
  approved : List ObjectHash
  finalNodes : List ChainNode
  report : VerificationReport

/-- The stages after the trust gate. -/
def verifyRun (inventory : ArchiveInventory) (anchor : TrustAnchor) (options : VerifyOptions) :
    Run :=
  let opened := (openReport inventory anchor).addThumbprint anchor.rootKeyThumbprint
  let (judged, placed) := judgeEntries inventory anchor opened
  let (recorded, attestations) := recordDestructions judged inventory.trust options.osWallClock
    (historicalRegistryHead inventory anchor)
  let stubCandidates := candidates recorded inventory anchor
  let nodes := placed.map entryChainNode ++ stubCandidates.map stubChainNode
  let (positioned, chain) := placeInChain recorded anchor nodes
  let planned := checkGrantPlans inventory (quarantineOrphans inventory positioned) placed
  let assessed := chain.elim planned (assessCheckpoints inventory anchor planned)
  let (receipted, confirmed) := confirmEntries inventory anchor assessed placed
  let evidenced := runEvidenceGate inventory anchor options receipted confirmed
  let claims := claimOwnGrants inventory anchor options evidenced placed
  let published := publishChainHead claims.report chain
  let (approved, finalNodes) :=
    if inventory.destroyed.isEmpty then ([], nodes)
    else convergeStubs anchor.chainId
      (approvedStubs published inventory stubCandidates attestations) (nodes.length + 1)
      claims.evidence nodes
  let settled :=
    if inventory.destroyed.isEmpty then published
    else settleStubs anchor stubCandidates approved finalNodes published
  { judged, placed, recorded, attestations, stubCandidates, nodes, positioned, chain, planned,
    assessed, receipted, confirmed, evidenced, claims, approved, finalNodes,
    report := { settled with pipelineCompleted := true } }

/-- `verify_archive`. -/
def verifyArchive (source : ArchiveSource) (anchor : TrustAnchor) (options : VerifyOptions) :
    Except VerifyError VerificationReport := do
  let inventory ← (ArchiveInventory.build source).mapError .archive
  let key := verificationStateKey anchor.organizationId
  match verifiedTrust (.new key options.osWallClock) key anchor inventory with
  | none => return openReport inventory anchor
  | some _ => do
      let run := verifyRun inventory anchor options
      ensure (!recipientTimeNotDurable inventory options run.placed run.evidenced)
        .recipientTimeNotDurable
      return run.report

/-- The trust gate lets the inventory through. -/
def TrustGate (inventory : ArchiveInventory) (anchor : TrustAnchor) (options : VerifyOptions) :
    Prop :=
  (verifiedTrust (.new (verificationStateKey anchor.organizationId) options.osWallClock)
    (verificationStateKey anchor.organizationId) anchor inventory).isSome = true

/-- **What a returned report is**: that of the run, or the opened report when the trust gate does
not let the inventory through. -/
theorem verifyArchive_eq_ok {src : ArchiveSource} {anchor : TrustAnchor}
    {opts : VerifyOptions} {report : VerificationReport}
    (h : verifyArchive src anchor opts = .ok report) :
    ∃ inventory, ArchiveInventory.build src = .ok inventory ∧
      (¬ TrustGate inventory anchor opts ∧ report = openReport inventory anchor ∨
        TrustGate inventory anchor opts ∧ report = (verifyRun inventory anchor opts).report) := by
  simp only [verifyArchive, ok_iff] at h
  obtain ⟨inventory, hb, h⟩ := h
  refine ⟨inventory, hb, ?_⟩
  unfold TrustGate
  split at h
  next hn =>
    simp only [pure_eq_ok] at h
    exact .inl ⟨by simp [hn], h.symm⟩
  next trust hs =>
    simp only [ok_iff] at h
    obtain ⟨-, -, h⟩ := h
    exact .inr ⟨by simp [hs], h.symm⟩

end Einsatzarchiv.Verify
