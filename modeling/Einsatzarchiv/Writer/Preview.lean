/-
  File:      Einsatzarchiv/Writer/Preview.lean
  Subject:   The repository of the one draft and the discard service (crate `ea-draft`,
             `autosave.rs` and `discard.rs`), and what a finalization computes before it changes
             anything (crate `ea-writer`, `finalize.rs` steps 1 to 5, `preview.rs`,
             `grant_plan.rs`, `content.rs`).

  * `createBlank`: the key of a blank draft takes the one slot of the key store before the
    transaction of its row commits; if this one fails, the slot is cleared.
  * `loadOrCreate`, `save`, `draftDekHandle`, `replaceWithBlank`,
    `removeCiphertextAndIntentCreateBlank`: the operations of the repository.
  * `beginDiscard`, `resumeDiscard`, `resumeAfterRestart`: the calls of the discard service.
  * `WriterRegistryHead`, `WriterBinding`, `WriterService`: what a call is bound to.
  * `chainNodes`, `rebuildLocalHead`, `expectedSequence`: the chain of the published objects and
    the sequence after its verified head; the addition saturates.
  * `selectHeadAndOperator`, `buildGrantPlan`, `buildPreview`, `staleDecision`: the gates.
  * `Schema`, `Sealing`: the payload schema, the ciphers and the encoders.
-/
import Einsatzarchiv.Verify.Entries
import Einsatzarchiv.Writer.Ports

namespace Einsatzarchiv.Writer

section

open Lib
open Program (ofExcept fail)

/-- A program over the stores of the installation. -/
abbrev Task (ε α : Type) := Program Port.Reply ε α

variable {ε α : Type}

def call (port : Port) : Task ε port.Reply := .ask port

/-! ## 1. The repository -/

def unwrapSecret : Task DraftError Draw := do
  let key ← call .unwrapSecret
  ofExcept (key.mapError .key)

/-- `create_blank` inside `transaction_creating_blank`, where `insert` is the transaction. -/
def createBlank (insert : Id16 → Draw → Task DraftError Unit) : Task DraftError SavedDraft := do
  let draftId ← call .draw
  let draftId ← ofExcept draftId
  let wrapped ← call .wrapSecret
  ofExcept (wrapped.mapError .key)
  let inserted ← (do
    let dek ← unwrapSecret
    let nonce ← call .draw
    let _ ← ofExcept nonce
    insert draftId dek : Task DraftError Unit).result
  match inserted with
  | .ok () => return ⟨draftId, 0⟩
  | .error error => do
      -- the transaction did not commit: its fresh key does not stay in the slot
      let _ ← call .deleteKey
      fail error

def readRow : Task DraftError (Option DraftRow) := do
  let row ← call .readRow
  ofExcept row

/-- Opens the sealed payload with the key in the slot. -/
def openRow (row : DraftRow) : Task DraftError Draft := do
  let key ← unwrapSecret
  ofExcept (ensure (key = row.key) .aeadOpen)
  return row.opened

/-- A first, empty draft. -/
def insertBlank (draftId : Id16) (dek : Draw) : Task DraftError Unit := do
  let inserted ← call (.insertBlank draftId dek)
  ofExcept inserted

/-- An empty draft in place of the present one. -/
def replaceDraft (draftId : Id16) (dek : Draw) : Task DraftError Unit := do
  let replaced ← call (.replaceDraft draftId dek)
  ofExcept replaced

/-- The draft; there is always one. -/
def loadOrCreate : Task DraftError Draft := do
  match ← readRow with
  | some row => openRow row
  | none => do
      let blank ← createBlank insertBlank
      return ⟨blank.draftId, blank.revision, ""⟩

/-- The draft is written if nobody else has. -/
def save (draft : Draft) : Task DraftError SavedDraft := do
  let row ← readRow
  let row ← ofExcept (okOr row .noDraft)
  ofExcept (ensure (row.draftId = draft.draftId ∧ row.revision = draft.revision) .revisionConflict)
  let dek ← unwrapSecret
  let nonce ← call .draw
  let _ ← ofExcept nonce
  let updated ← call (.updateDraft draft dek)
  ofExcept updated
  return ⟨row.draftId, row.revision + 1⟩

/-- `draft_dek_handle`: there is one slot, so the handle carries nothing. -/
def draftDekHandle (saved : SavedDraft) : Task DraftError Unit := do
  let row ← readRow
  let row ← ofExcept (okOr row .noDraft)
  ofExcept (ensure (row.draftId = saved.draftId) .noDraft)

/-- The draft is given up for an empty one. -/
def replaceWithBlank : Task DraftError SavedDraft := createBlank replaceDraft

/-- The discarded draft and its intent give way to an empty draft. -/
def removeCiphertextAndIntentCreateBlank (intent : DiscardIntent) :
    Task DraftError (Id16 × SavedDraft) := do
  let row ← readRow
  let row ← ofExcept (okOr row .noDraft)
  ofExcept (ensure (row.draftId = intent.draftId) .noDraft)
  let blank ← createBlank replaceDraft
  return (row.draftId, blank)

def preparedFinalizationMarker : Task DraftError (Option PreparedTransaction) := do
  let marker ← call .preparedFinalizationMarker
  ofExcept marker

/-! ## 2. The proof of presence -/

inductive ReauthPurpose
  | finalize | discardDraft | registryStaleFinalize | plaintextExport | adminRootCeremony
  | recoveryTest | historicalRegrant
deriving DecidableEq

structure OperatorSessionProof where
  purpose : ReauthPurpose
  organizationId : OrganizationId
  deviceId : DeviceId
  bindingObjectHash : ObjectHash
  contextHash : Option Hash32
  (issuedAt expiresAt : Int)
  invalidated : Bool := false

/-- `is_valid_at`; a proof serves one purpose. -/
def OperatorSessionProof.isValidAt (proof : OperatorSessionProof) (purpose : ReauthPurpose)
    (now : Int) : Bool :=
  proof.purpose = purpose && !proof.invalidated && decide (proof.issuedAt ≤ now)
    && decide (now < proof.expiresAt)

/-! ## 3. Discarding -/

structure DiscardService where
  boundBindingObjectHash : ObjectHash
  now : Int

inductive RestartState
  | preparedFinalizationPending | newBlankDraft | originalDraftUnchanged

namespace DiscardService

variable (service : DiscardService)

section

variable (proof : OperatorSessionProof)

/-- The operator has confirmed the discard just now. -/
def requireFreshProof : Except DraftError Unit := do
  ensure (proof.bindingObjectHash = service.boundBindingObjectHash) .reauthBindingMismatch
  if proof.isValidAt .discardDraft service.now then return ()
  else if proof.purpose ≠ .discardDraft ∧ proof.isValidAt proof.purpose service.now then
    throw .reauthPurposeMismatch
  else throw .reauthRequired

/-- Confirmed, and no finalization is half done. -/
def enter : Task DraftError Unit := do
  ofExcept (service.requireFreshProof proof)
  let marker ← preparedFinalizationMarker
  ofExcept (ensure marker.isNone .preparedFinalizationPresent)

def commitIntent : Task DraftError DiscardIntent := do
  let draft ← loadOrCreate
  let intent ← call (.commitDiscardIntent ⟨draft.draftId, draft.revision⟩)
  ofExcept intent

/-- `delete_draft_dek`: an absent key is as good as a deleted one. -/
def deleteDraftDek : Task DraftError Unit := do
  match ← call .deleteKey with
  | .ok () | .error .notFound => return ()
  | .error error => fail (.key error)

def confirmAbsence : Task DraftError Unit := do
  let contained ← call .containsKey
  let contained ← ofExcept (contained.mapError .key)
  ofExcept (ensure (!contained) .keyDeletionNotConfirmed)

/-- The key goes first, then the draft and the intent. -/
def complete (intent : DiscardIntent) : Task DraftError (Id16 × SavedDraft) := do
  draftDekHandle ⟨intent.draftId, intent.revision⟩
  deleteDraftDek
  confirmAbsence
  removeCiphertextAndIntentCreateBlank intent

def pendingDiscard : Task DraftError (Option DiscardIntent) := do
  let intent ← call .pendingDiscard
  ofExcept intent

/-- `begin_discard`: the intent, then its completion. -/
def beginDiscard : Task DraftError (Id16 × SavedDraft) := do
  service.enter proof
  let intent ← commitIntent
  complete intent

/-- `resume_discard`: an intent that was left is completed. -/
def resumeDiscard : Task DraftError (Id16 × SavedDraft) := do
  service.enter proof
  let intent ← pendingDiscard
  let intent ← ofExcept (okOr intent .noPendingDiscard)
  complete intent

/-- A draft whose key is gone for good is replaced. -/
def reopen : Task DraftError RestartState := do
  match ← loadOrCreate.result with
  | .ok draft =>
    return if draft.revision = 0 ∧ draft.notes = "" then .newBlankDraft
      else .originalDraftUnchanged
  | .error (.key .notFound) | .error .aeadOpen => do
      let _ ← replaceWithBlank
      return .newBlankDraft
  | .error error => fail error

/-- What there is to do after a restart. -/
def resumeAfterRestart : Task DraftError RestartState := do
  ofExcept (service.requireFreshProof proof)
  match ← preparedFinalizationMarker with
  | some _ => return .preparedFinalizationPending
  | none =>
    match ← pendingDiscard with
    | some intent => do
        let _ ← complete intent
        return .newBlankDraft
    | none => reopen

end

end DiscardService

end

open Lib Format Chain Archive

/-! ## 4. Head, binding, content -/

/-- The fields of the policy that the writer reads. -/
structure WriterPolicy where
  organizationId : OrganizationId
  (operatingProfile registryExpiryBehavior readerTrustRefreshMs : Nat)
  allowedArchiveProfileHashes : List Hash32

/-- `WriterRegistryHeadRef`: what a bound head answers. -/
structure WriterRegistryHead where
  registryVersion : Nat
  registryHeadHash : ObjectHash
  chainId : ChainId
  policyObjectHash : ObjectHash
  policy : WriterPolicy
  (effectiveFromSequence validThroughSequence proposedSequence : Nat)
  (notAfter issuedAt preexistingEffectiveNow : Int)
  activeCertificates : List (CertificateHash × DeviceCertificateFields)
  currentWriterCertificateHash : Option CertificateHash
  effectiveWriterTransition : Option Trust.EffectiveWriterTransition
  activeOperatorBindings : List (ObjectHash × OperatorBindingFields)
  proposedSequence_le : proposedSequence ≤ u64Max := by decide

namespace WriterRegistryHead

variable (head : WriterRegistryHead)

def activeCertificateFields (hash : CertificateHash) : Option DeviceCertificateFields :=
  (head.activeCertificates.find? (·.1 = hash)).map (·.2)

def activeOperatorBindingFields (hash : ObjectHash) : Option OperatorBindingFields :=
  (head.activeOperatorBindings.find? (·.1 = hash)).map (·.2)

end WriterRegistryHead

/-- The device and the operator, as the head has them. -/
structure WriterBinding where
  bindingObjectHash : ObjectHash
  writerCertificateHash : CertificateHash
  writerKeyThumbprint : KeyThumbprint
  chainId : ChainId
  archiveProfileHash : Hash32

/-- An incident.  The fields after the number are read by the schema alone. -/
structure FinalizationInput where
  (timezone source humanIncidentNumber : String)
  details : Bytes

structure OriginalReference where
  originalRecordId : Id16
  originalEntryHash : EntryHash
  originalSequence : Nat

structure AmendmentInput where
  original : OriginalReference
  originalObjectHash : ObjectHash
  (originalIncidentNumber timezone source reason : String)
  changes : Bytes

/-- What a change of keys says. -/
structure KeyTransitionInput where
  (timezone source organizationalReason : String)

/-- `DestructionEvidenceInputV1`; `draftSource` is the job the evidence belongs to. -/
structure DestructionEvidenceInput where
  (timezone source : String)
  draftSource : Option Hash32
  evidence : Bytes

inductive FinalizationContent
  | incident (input : FinalizationInput)
  | amendment (input : AmendmentInput)
  | keyTransition (input : KeyTransitionInput)
  | destructionEvidence (input : DestructionEvidenceInput)

def FinalizationContent.isKeyTransition : FinalizationContent → Bool
  | .keyTransition _ => true
  | _ => false

/-- What every record says. -/
structure CommonHeader where
  recordId : Id16
  finalizedAtDevice : Int
  timezone : String
  operator : OperatorProfile
  source : String
  registryVersion : Nat

inductive Payload
  | incident (header : CommonHeader) (input : FinalizationInput)
  | amendment (header : CommonHeader) (input : AmendmentInput)
  | keyTransition (header : CommonHeader) (transition : ObjectHash) (reason : String)
  | destructionEvidence (header : CommonHeader) (evidence : Bytes)

/-- Crate `ea-schema`: the checks of the constructors, the year of an incident, the encoding. -/
class Schema where
  check : Payload → Except String Unit
  localCivilYear : FinalizationInput → Except String Int
  encodePayload : Payload → Except String Bytes

/-- The checks of destruction evidence before it is written (crate `ea-destruction`). -/
class EvidenceSource extends EvidenceRules where
  validateForWriter : Bytes → OrganizationId → ChainId → Nat → Int → Bool

structure FinalizationPreviewCore where
  organizationId : OrganizationId
  chainId : ChainId
  registryHeadHash : Hash32
  registryVersion : Nat
  registryNotAfter : Int
  policyObjectHash : ObjectHash
  proposedSequence : Nat
  previousEntryHash : Option EntryHash
  (recordDigest grantPlanDigest : Hash32)
  effectiveNow : Int

/-- Whether the age of the registry is a hindrance. -/
inductive StaleDecision
  | fresh | staleAcknowledgeable | hardBlock
deriving DecidableEq

/-- What the operator is shown. -/
structure FinalizationPreview where
  core : FinalizationPreviewCore
  previewHash : Hash32
  recordId : Id16
  decision : StaleDecision
  (trustAgeMs readerTrustRefreshMs : Nat)

/-- Ciphers, signatures, digests and encoders.  What an encoder yields decodes to its input. -/
class Sealing [Crypto] where
  recordDigest : Bytes → Hash32
  finalizationPreviewDigest : FinalizationPreviewCore → Hash32
  aeadSeal : Draw → ManifestCoreFields → Bytes → Bytes
  ciphertextHash : Bytes → Hash32
  sign : CertificateHash → SignedContent → CoseSign1
  /-- The encapsulated key and the wrapped content key. -/
  hpkeSeal : PublicCoseKey → Draw → GrantBodyFields → Bytes × Bytes
  encodeEntryPackage : EntryPackage → Except FormatError Bytes
  encodeGrant : Grant → Except FormatError Bytes
  decode_encodeEntryPackage : ∀ entry bytes, encodeEntryPackage entry = .ok bytes →
    Crypto.decode bytes = .ok (.entry entry)
  decode_encodeGrant : ∀ grant bytes, encodeGrant grant = .ok bytes →
    Crypto.decode bytes = .ok (.grant grant)
  framed_encodeEntryPackage : ∀ entry bytes, encodeEntryPackage entry = .ok bytes →
    hasExactObjectPrefix bytes = true

/-- That the operator knows of a stale registry. -/
structure StaleRegistryAcknowledgement where
  event : AcknowledgementEvent
  proof : OperatorSessionProof
  acknowledgedAt : Int

/-- `WriterService`, without its stores. -/
structure WriterService where
  head : WriterRegistryHead
  checkpointClaims : List CheckpointClaim
  binding : WriterBinding
  /-- The job an evidence repository is bound to. -/
  evidenceDraftSource : Option Hash32 := none

variable [Crypto]

/-! ## 5. The local head -/

/-- `chain_nodes`: the entries and the stubs of destroyed entries. -/
def chainNodes (inventory : ArchiveInventory) : List ChainNode :=
  inventory.entries.map Verify.entryChainNode ++ inventory.destroyed.map Verify.stubChainNode

/-- Step 1: the chain of the published objects. -/
def rebuildLocalHead (chainId : ChainId) (files : Files) : Except WriterError VerifiedChain := do
  let inventory ← (ArchiveInventory.build ⟨files.published, none⟩).mapError fun _ => .archive
  (buildChain chainId (chainNodes inventory)).mapError fun _ => .chainHeadUnusable

/-- Step 2. -/
def compareServerCheckpoint (chain : VerifiedChain) (claims : List CheckpointClaim) :
    Except WriterError Unit :=
  match assessRollback chain claims with
  | .rollback _ => .error .rollbackDetected
  | _ => .ok ()

/-- `saturating_add(1)` on the sequence of the verified head. -/
def expectedSequence (chain : VerifiedChain) : Nat :=
  match chain.verifiedHead with
  | none => 0
  | some head => min (head.chainSequence + 1) u64Max

namespace WriterService

variable (service : WriterService)

/-! ## 6. Head and operator -/

/-- The clock is not before the time that counts. -/
def flooredNow (observedNow : Int) : Int := max observedNow service.head.preexistingEffectiveNow

/-- `require_fresh_proof`. -/
def requireFreshProof (proof : OperatorSessionProof) (purpose : ReauthPurpose) :
    Except WriterError Unit := do
  ensure (proof.bindingObjectHash = service.binding.bindingObjectHash) .reauthBindingMismatch
  if proof.isValidAt purpose service.head.preexistingEffectiveNow then return ()
  else if proof.purpose ≠ purpose
      ∧ proof.isValidAt proof.purpose service.head.preexistingEffectiveNow then
    throw .reauthPurposeMismatch
  else throw .reauthRequired

/-- `require_current_proof`, for calls on a stale registry. -/
def requireCurrentProof (proof : OperatorSessionProof) (purpose : ReauthPurpose)
    (observedNow : Int) : Except WriterError Unit := do
  let certificate ← okOr
    (service.head.activeCertificateFields service.binding.writerCertificateHash) .writerRevoked
  let binding ← okOr
    (service.head.activeOperatorBindingFields service.binding.bindingObjectHash)
    .reauthBindingMismatch
  ensure (proof.bindingObjectHash = service.binding.bindingObjectHash
    ∧ proof.organizationId = certificate.organizationId
    ∧ proof.deviceId = certificate.deviceId
    ∧ binding.deviceCertificateHash = service.binding.writerCertificateHash)
    .reauthBindingMismatch
  if proof.isValidAt purpose (service.flooredNow observedNow) then return ()
  else if proof.isValidAt proof.purpose (service.flooredNow observedNow) then
    throw .reauthPurposeMismatch
  else throw .reauthRequired

/-- The transition event an entry at this sequence carries: a key transition exactly where one
takes effect, after the last entry it names. -/
def transitionEventHash (content : FinalizationContent) (chain : VerifiedChain) :
    Except WriterError (Option ObjectHash) :=
  match content.isKeyTransition, service.head.effectiveWriterTransition.filter
      (·.effectiveFromSequence = service.head.proposedSequence) with
  | false, none => .ok none
  | false, some _ => .error .writerTransitionRequired
  | true, none => .error .writerTransitionMismatch
  | true, some transition => do
      ensure (chain.verifiedHead.map (·.entryHash) = some transition.previousEntryHash)
        .headReconciliationRequired
      return some transition.objectHash

/-- Step 3: the sequence, the writer, the transition, the operator and the policy. -/
def selectHeadAndOperator (content : FinalizationContent) (proof : OperatorSessionProof)
    (stale : Bool) (observedNow : Int) (chain : VerifiedChain) :
    Except WriterError (Option ObjectHash × OperatorBindingFields) := do
  let proposed := service.head.proposedSequence
  ensure (proposed = expectedSequence chain) .headReconciliationRequired
  ensure (service.head.effectiveFromSequence ≤ proposed
    ∧ proposed ≤ service.head.validThroughSequence) .sequenceLeaseExhausted
  ensure (service.head.currentWriterCertificateHash
    = some service.binding.writerCertificateHash) .writerRevoked
  let transition ← service.transitionEventHash content chain
  if stale then service.requireCurrentProof proof .finalize observedNow
  else service.requireFreshProof proof .finalize
  let bindingFields ← okOr
    (service.head.activeOperatorBindingFields service.binding.bindingObjectHash)
    .reauthBindingMismatch
  ensure (service.head.activeCertificates.any (·.2.certificateKind = .recoveryRecipient))
    .noActiveRecoveryRecipient
  ensure (service.head.policy.allowedArchiveProfileHashes.contains
    service.binding.archiveProfileHash) .archiveProfileNotAllowed
  ensure (service.binding.chainId = service.head.chainId) .chainIdMismatch
  return (transition, bindingFields)

/-! ## 7. Payload, plan and preview -/

def buildHeader (profile : OperatorProfile) (recordId : Id16) (timezone source : String) :
    CommonHeader :=
  ⟨recordId, service.head.preexistingEffectiveNow, timezone, profile, source,
    service.head.registryVersion⟩

/-- `build_writer_grant_plan`: every active reader and recovery recipient. -/
def grantPlanItems : List (CertificateHash × DeviceCertificateFields) →
    Except WriterError (List GrantPlanItem)
  | [] => .ok []
  | (hash, fields) :: rest =>
    match fields.certificateKind with
    | .reader | .recoveryRecipient => do
        let thumbprint ← okOr fields.kemKeyThumbprint .readerWithoutKemKey
        let items ← grantPlanItems rest
        return ⟨thumbprint, hash,
          if fields.certificateKind = .reader then .reader else .recovery⟩ :: items
    | _ => grantPlanItems rest

/-- Who gets a grant. -/
def buildGrantPlan : Except WriterError (List GrantPlanItem) := do
  let items ← grantPlanItems service.head.activeCertificates
  (GrantPlan.new items).mapError fun _ => .format

/-- Fresh, stale but within the limit of the policy, or too old. -/
def staleDecision (observedNow : Int) : StaleDecision :=
  if service.flooredNow observedNow ≤ service.head.notAfter then .fresh
  else if service.head.policy.operatingProfile = 1
      ∨ service.head.policy.registryExpiryBehavior = 1 then .hardBlock
  else .staleAcknowledgeable

def trustAgeMs (observedNow : Int) : Nat :=
  (service.flooredNow observedNow - service.head.issuedAt).toNat

variable [Sealing]

/-- Step 5. -/
def buildPreview (organizationId : OrganizationId) (previousEntryHash : Option EntryHash)
    (record : Bytes) (plan : List GrantPlanItem) (recordId : Id16) (observedNow : Int) :
    FinalizationPreview :=
  let core : FinalizationPreviewCore := {
    organizationId := organizationId
    chainId := service.binding.chainId
    registryHeadHash := service.head.registryHeadHash
    registryVersion := service.head.registryVersion
    registryNotAfter := service.head.notAfter
    policyObjectHash := service.head.policyObjectHash
    proposedSequence := service.head.proposedSequence
    previousEntryHash := previousEntryHash
    recordDigest := Sealing.recordDigest record
    grantPlanDigest := Crypto.grantPlanDigest plan
    effectiveNow := service.head.preexistingEffectiveNow }
  ⟨core, Sealing.finalizationPreviewDigest core, recordId, service.staleDecision observedNow,
    service.trustAgeMs observedNow, service.head.policy.readerTrustRefreshMs⟩

/-- The confirmation of a preview: it is the one of this call, and a stale registry was
acknowledged under it. -/
def confirm (preview confirmed : FinalizationPreview)
    (acknowledgement : Option StaleRegistryAcknowledgement) (observedNow : Int) :
    Except WriterError Unit := do
  ensure (preview.decision ≠ .hardBlock) .registryStaleBlocked
  ensure (preview.previewHash = confirmed.previewHash) .staleAckPreviewMismatch
  match acknowledgement with
  | none => ensure (preview.decision ≠ .staleAcknowledgeable) .staleAckRequired
  | some acknowledgement => do
      ensure (preview.decision = .staleAcknowledgeable
        ∧ confirmed.decision = preview.decision
        ∧ acknowledgement.proof.contextHash = some confirmed.previewHash
        ∧ acknowledgement.acknowledgedAt ≤ service.flooredNow observedNow)
        .staleAckPreviewMismatch
      service.requireCurrentProof acknowledgement.proof .registryStaleFinalize observedNow

end WriterService

end Einsatzarchiv.Writer
