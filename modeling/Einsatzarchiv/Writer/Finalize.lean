/-
  File:      Einsatzarchiv/Writer/Finalize.lean
  Subject:   The finalization of a draft and the recovery after a restart (crate `ea-writer`,
             `finalize.rs` steps 1 to 13, `recover.rs`, `marker.rs`, `original_source.rs`,
             `stale_registry.rs`, `amendment.rs`), and the calls of an installation.

  * `prepare`: steps 1 to 5 and the confirmation of the preview.
  * `claimIncidentNumber`: the durable claim on the incident number.
  * `buildEntry`, `produceGrants`: steps 6 and 7.
  * `stageAndFlush`: step 8, up to the marker.
  * `eraseDraftKey`: step 9, the boundary.
  * `publishFromPrepared`: steps 10 to 13, which the recovery shares.
  * `runClaiming`, `finalize`: the whole; an error carries the claim as long as it may be released.
  * `PreparedTransaction.verify`: what a marker has to say about its own bytes.
  * `recoverOriginalClaims`, `recoverReversibleClaims`: an opened draft releases its own claims.
  * `recoverPending`: a draft that still opens is restored, otherwise the prepared bytes are
    published.
  * `WriterCall`, `installation`: finalizations, recoveries and discards, one after the other, each
    of which may die between any two operations.
-/
import Einsatzarchiv.Writer.Preview

namespace Einsatzarchiv.Writer

open Lib Format Chain Archive
open Program (ofExcept fail)

variable [Crypto] [Normalization] [Schema] [EvidenceSource] [Sealing]

/-- A call of one of the `finalize` functions; they differ in the content, and in the
acknowledgement of a stale registry. -/
structure FinalizeCall where
  service : WriterService
  proof : OperatorSessionProof
  content : FinalizationContent
  confirmed : FinalizationPreview
  observedNow : Int
  acknowledgement : Option StaleRegistryAcknowledgement := none

/-- What the steps before the first durable change have fixed. -/
structure Attempt where
  sequence : Nat
  previousEntryHash : Option EntryHash
  transition : Option ObjectHash
  profile : OperatorProfile
  record : Bytes
  plan : List GrantPlanItem
  recordId : Id16
  pendingClaim : Option ClaimedIncidentNumber

structure FinalizeOutcome where
  sequence : Nat
  entryHash : EntryHash
  objectHash : ObjectHash

/-! ## 1. Steps 1 to 5 -/

section

variable (service : WriterService)

/-- `require_draft_content`: an evidence repository takes its own evidence and nothing else. -/
def requireDraftContent : FinalizationContent → Except WriterError Unit
  | .destructionEvidence input => do
      let expected ← okOr input.draftSource .destructionEvidenceInvalid
      ensure (service.evidenceDraftSource = some expected) (.draft .evidenceBinding)
  | _ => ensure service.evidenceDraftSource.isNone (.draft .evidenceBinding)

def containsNumber (key : NumberKey) : Task WriterError Bool := do
  let contained ← call (.containsNumber key)
  ofExcept (contained.mapError .draft)

/-- All files of the archive. -/
def visitBlobs : Task WriterError Files := do
  let files ← call .visitBlobs
  ofExcept (files.mapError fun _ => .archive)

/-- `original_identity`: the published entry that an amendment refers to. -/
def originalIdentity (reference : OriginalReference) :
    Task WriterError (ObjectHash × String) := do
  let row ← call (.originalIdentity reference.originalEntryHash)
  let row ← ofExcept row
  let identity ← ofExcept (okOr row .originalIdentityMissing)
  ofExcept (ensure (identity.recordId = reference.originalRecordId
    ∧ identity.sequence = reference.originalSequence
    ∧ identity.organizationId = service.head.policy.organizationId) .originalIdentityMismatch)
  let contained ← containsNumber identity.key
  ofExcept (ensure contained .originalIdentityMismatch)
  return (identity.objectHash, identity.number)

/-- `require_original_bytes`: the last published entry with this object hash decides. -/
def hasOriginalBytes (reference : OriginalReference)
    (objectHash : ObjectHash) (files : Files) : Bool :=
  files.published.foldl (fun found bytes =>
    match Crypto.decode bytes with
    | .ok (.entry entry) =>
      if Crypto.objectHash bytes = objectHash then
        entry.entryHash = reference.originalEntryHash
          && entry.signedManifest.manifest.chainSequence = reference.originalSequence
          && entry.signedManifest.manifest.chainId = service.binding.chainId
      else found
    | _ => found) false

/-- Step 4 for the four kinds of content. -/
def buildPayload (request : FinalizeCall) (profile : OperatorProfile)
    (transition : Option ObjectHash) : Task WriterError (Payload × Option ClaimedIncidentNumber) :=
  let header := request.service.buildHeader profile request.confirmed.recordId
  match request.content with
  | .incident input => do
      let payload := Payload.incident (header input.timezone input.source) input
      ofExcept ((Schema.check payload).mapError .payload)
      let year ← ofExcept ((Schema.localCivilYear input).mapError .payload)
      let taken ← containsNumber
        (registerKey profile.organizationId year input.humanIncidentNumber)
      ofExcept (ensure (!taken) .incidentNumberTaken)
      return (payload, some ⟨profile.organizationId, year, input.humanIncidentNumber⟩)
  | .amendment input => do
      let (objectHash, number) ← originalIdentity request.service input.original
      ofExcept (ensure (objectHash = input.originalObjectHash
        ∧ number = input.originalIncidentNumber
        ∧ input.original.originalSequence < request.service.head.proposedSequence)
        .originalIdentityMismatch)
      let files ← visitBlobs
      ofExcept (ensure (hasOriginalBytes request.service input.original objectHash files)
        .originalArchiveUnverified)
      let payload := Payload.amendment (header input.timezone input.source) input
      ofExcept ((Schema.check payload).mapError .payload)
      return (payload, none)
  | .destructionEvidence input => do
      let draft ← loadOrCreate.mapError .draft
      ofExcept (ensure (draft.notes = "") .destructionEvidenceInvalid)
      ofExcept (ensure (EvidenceSource.validateForWriter input.evidence
        profile.organizationId request.service.binding.chainId
        request.service.head.proposedSequence request.service.head.preexistingEffectiveNow)
        .destructionEvidenceInvalid)
      let payload := Payload.destructionEvidence (header input.timezone input.source)
        input.evidence
      ofExcept ((Schema.check payload).mapError fun _ => .destructionEvidenceInvalid)
      return (payload, none)
  | .keyTransition input => do
      let hash ← ofExcept (okOr transition .writerTransitionMismatch)
      let payload := Payload.keyTransition (header input.timezone input.source) hash
        input.organizationalReason
      ofExcept ((Schema.check payload).mapError .payload)
      return (payload, none)

/-- Who operates, as the binding says. -/
def operatorProfile (bindingFields : OperatorBindingFields) : Task WriterError OperatorProfile := do
  let profile ← call .operatorProfile
  let profile ← ofExcept (profile.mapError .draft)
  let profile ← ofExcept (okOr profile .operatorProfileMissing)
  ofExcept (ensure (Crypto.operatorProfileCommitment profile
    = bindingFields.operatorProfileCommitment) .operatorProfileCommitment)
  return profile

/-- Step 1 and 2: the chain, which no checkpoint contradicts. -/
def localHead : Task WriterError VerifiedChain := do
  let files ← visitBlobs
  let chain ← ofExcept (rebuildLocalHead service.binding.chainId files)
  ofExcept (compareServerCheckpoint chain service.checkpointClaims)
  return chain

end

/-- The acknowledgement is used up before any secret is drawn. -/
def consumeAcknowledgement : Option StaleRegistryAcknowledgement → Task WriterError Unit
  | none => return ()
  | some acknowledgement => do
      let consumed ← call (.consume acknowledgement.event)
      ofExcept consumed

/-- An acknowledgement counts once. -/
def requireUnusedAcknowledgement : Option StaleRegistryAcknowledgement → Task WriterError Unit
  | none => return ()
  | some acknowledgement => do
      let unused ← call (.requireUnused acknowledgement.event)
      ofExcept unused

/-- No finalization is half done. -/
def requireNoMarker : Task WriterError Unit := do
  let marker ← preparedFinalizationMarker.mapError .draft
  ofExcept (ensure marker.isNone .preparedFinalizationPresent)

/-- Steps 1 to 5, and the gates behind the preview. -/
def prepare (request : FinalizeCall) : Task WriterError Attempt := do
  let service := request.service
  requireUnusedAcknowledgement request.acknowledgement
  ofExcept (requireDraftContent service request.content)
  requireNoMarker
  let chain ← localHead service
  let (transition, bindingFields) ← ofExcept (service.selectHeadAndOperator
    request.content request.proof request.acknowledgement.isSome request.observedNow chain)
  let profile ← operatorProfile bindingFields
  let (payload, pendingClaim) ← buildPayload request profile transition
  let record ← ofExcept ((Schema.encodePayload payload).mapError .payload)
  let plan ← ofExcept service.buildGrantPlan
  let previous := chain.verifiedHead.map (·.entryHash)
  let preview := service.buildPreview profile.organizationId previous record plan
    request.confirmed.recordId request.observedNow
  ofExcept (service.confirm preview request.confirmed request.acknowledgement request.observedNow)
  consumeAcknowledgement request.acknowledgement
  return ⟨service.head.proposedSequence, previous, transition, profile, record, plan,
    request.confirmed.recordId, pendingClaim⟩

/-! ## 2. The claim -/

/-- The claim on the incident number, for an incident. -/
def claimIncidentNumber (request : FinalizeCall) :
    Option ClaimedIncidentNumber → Task WriterError (Option ClaimSource)
  | none => return none
  | some claim => do
      let draft ← loadOrCreate.mapError .draft
      let source ← call (.claimNumber (request.acknowledgement.map (·.event.eventId)) draft claim)
      let source ← ofExcept source
      return some source

/-! ## 3. Steps 6 and 7 -/

def drawSecret : Task WriterError Draw := do
  let value ← call .draw
  ofExcept (value.mapError fun _ => .localRng)

def requestSignature : Task WriterError Unit := do
  let signed ← call .sign
  ofExcept (signed.mapError .key)

/-- The manifest of the entry, if the genesis entry is the one without a predecessor. -/
def manifestFields (request : FinalizeCall) (attempt : Attempt) (nonce : Draw) :
    Except WriterError ManifestCoreFields :=
  if h : attempt.sequence ≤ u64Max ∧ (attempt.sequence = 0 ↔ attempt.previousEntryHash = none) then
    .ok {
      organizationId := attempt.profile.organizationId
      chainId := request.service.binding.chainId
      chainSequence := attempt.sequence
      previousEntryHash := attempt.previousEntryHash
      writerCertificateHash := request.service.binding.writerCertificateHash
      writerTransitionEventHash := attempt.transition
      registryVersion := request.service.head.registryVersion
      registryHeadHash := request.service.head.registryHeadHash
      initialGrantPlanHash := Crypto.grantPlanDigest attempt.plan
      nonce := nonce
      chainSequence_le := h.1
      genesis_iff := h.2 }
  else .error .format

/-- Step 6: the signed entry package. -/
def buildEntry (request : FinalizeCall) (attempt : Attempt) (cek nonce : Draw) :
    Except WriterError EntryPackage := do
  let manifest ← manifestFields request attempt nonce
  let ciphertext := Sealing.aeadSeal cek manifest attempt.record
  let signed : SignedManifest := ⟨manifest, Sealing.ciphertextHash ciphertext⟩
  return ⟨signed, ciphertext,
    Sealing.sign request.service.binding.writerCertificateHash (.record signed)⟩

section

variable (service : WriterService) (entryHash : EntryHash) (cek : Draw) (item : GrantPlanItem)

/-- The body of the grant for one recipient of the plan. -/
def grantBody : Except WriterError GrantBodyFields := do
  let certificate ← okOr (service.head.activeCertificateFields item.recipientCertificateHash)
    .readerWithoutKemKey
  let cose ← okOr certificate.kemPublicCoseKey .readerWithoutKemKey
  let recipient ← okOr (Crypto.publicKey cose) .crypto
  ensure recipient.isX25519 .readerWithoutKemKey
  let fields : GrantBodyFields := {
    organizationId := service.head.policy.organizationId
    chainId := service.binding.chainId
    entryHash := entryHash
    kind := .initial
    purpose := item.purpose
    recipientKeyThumbprint := item.recipientKeyThumbprint
    recipientCertificateHash := item.recipientCertificateHash
    issuerKeyThumbprint := service.binding.writerKeyThumbprint
    issuerCertificateHash := service.binding.writerCertificateHash
    registryVersion := service.head.registryVersion
    registryHeadHash := service.head.registryHeadHash
    originalRecoveryGrantObjectHash := none
    grantAuthorizationObjectHash := none
    encapsulatedKey := List.replicate 32 0
    wrappedCek := List.replicate 48 0 }
  let sealed := Sealing.hpkeSeal recipient cek fields
  return { fields with encapsulatedKey := sealed.1, wrappedCek := sealed.2 }

/-- `produce_grant`, with the object hash of its bytes. -/
def produceGrant : Task WriterError (Hash32 × Bytes) := do
  let body ← ofExcept (grantBody service entryHash cek item)
  requestSignature
  let bytes ← ofExcept ((Sealing.encodeGrant
    ⟨body, Sealing.sign service.binding.writerCertificateHash (.grant body)⟩).mapError
      fun _ => .format)
  return (Crypto.objectHash bytes, bytes)

end

/-- One grant for every item of the plan. -/
def produceGrants (service : WriterService) (entryHash : EntryHash) (cek : Draw) :
    List GrantPlanItem → Task WriterError (List (Hash32 × Bytes))
  | [] => return []
  | item :: items => do
      let grant ← produceGrant service entryHash cek item
      let grants ← produceGrants service entryHash cek items
      return grant :: grants

/-- Steps 6 and 7: the secrets are drawn once, then the entry hash exists, then the grants. -/
def buildTransaction (request : FinalizeCall) (attempt : Attempt) :
    Task WriterError PreparedTransaction := do
  let cek ← drawSecret
  let nonce ← drawSecret
  let entry ← ofExcept (buildEntry request attempt cek nonce)
  requestSignature
  let grants ← produceGrants request.service entry.entryHash cek attempt.plan
  let entryBytes ← ofExcept ((Sealing.encodeEntryPackage entry).mapError fun _ => .format)
  return {
    sequence := attempt.sequence
    entryHash := entry.entryHash
    entryObjectHash := Crypto.objectHash entryBytes
    entryBytes := entryBytes
    grants := grants
    grantPlanHash := Crypto.grantPlanDigest attempt.plan }

/-! ## 4. Step 8 -/

/-- The identity of an incident, for later amendments. -/
def recordOriginalIdentity (attempt : Attempt) (transaction : PreparedTransaction) :
    Option (ClaimedIncidentNumber × ClaimSource) → Task WriterError Unit
  | none => return ()
  | some (claim, source) => do
      let recorded ← call (.recordOriginalIdentity {
        entryHash := transaction.entryHash
        objectHash := transaction.entryObjectHash
        recordId := attempt.recordId
        sequence := transaction.sequence
        organizationId := claim.organizationId
        civilYear := claim.localCivilYear
        number := claim.humanIncidentNumber
        claim := source })
      ofExcept recorded

/-- The evidence of a destruction belongs to its prepared entry. -/
def bindEvidence (transaction : PreparedTransaction) : FinalizationContent → Task WriterError Unit
  | .destructionEvidence _ => do
      let bound ← call (.bindPreparedEntry transaction)
      ofExcept bound
  | _ => return ()

/-- The bytes of an object that may be staged are those of an entry or of a grant. -/
def isEntryOrGrant (bytes : Bytes) : Except WriterError Unit :=
  match Crypto.decode bytes with
  | .ok (.entry _) | .ok (.grant _) => .ok ()
  | .ok _ => .error .preparedFinalizationUnreadable
  | .error _ => .error .format

/-- The staged copies are written. -/
def createStaged : List (ArchivePath × Bytes) → Task WriterError Unit
  | [] => return ()
  | (path, bytes) :: pairs => do
      ofExcept (isEntryOrGrant bytes)
      let created ← call (.createIfAbsent path bytes)
      ofExcept (created.mapError .backend)
      createStaged pairs

def syncFile (path : ArchivePath) : Task WriterError Unit := do
  let synced ← call (.syncFile path)
  ofExcept (synced.mapError .backend)

def syncDirectory (path : ArchivePath) : Task WriterError Unit := do
  let synced ← call (.syncDirectory path)
  ofExcept (synced.mapError .backend)

/-- One operation on each path. -/
def forPaths (sync : ArchivePath → Task WriterError Unit) :
    List (ArchivePath × Bytes) → Task WriterError Unit
  | [] => return ()
  | (path, _) :: pairs => do
      sync path
      forPaths sync pairs

/-- The claim of a stale finalization belongs to its entry. -/
def recordPreparedClaim (entryHash : EntryHash) :
    Option ClaimSource → Task WriterError Unit
  | some (.stale eventId) => do
      let recorded ← call (.recordPreparedClaim eventId entryHash)
      ofExcept recorded
  | _ => return ()

/-- The prepared finalization is written, or removed. -/
def setMarker (marker : Option PreparedTransaction) : Task WriterError Unit := do
  let replaced ← call (.replacePreparedFinalizationMarker marker)
  ofExcept (replaced.mapError .draft)

/-- Step 8: identity, staged files, flushes, marker. -/
def stageAndFlush (request : FinalizeCall) (attempt : Attempt) (claim : Option ClaimSource)
    (transaction : PreparedTransaction) : Task WriterError Unit := do
  recordOriginalIdentity attempt transaction
    (attempt.pendingClaim.bind fun pending => claim.map (pending, ·))
  bindEvidence transaction request.content
  createStaged transaction.stagedPairs
  forPaths syncFile transaction.stagedPairs
  forPaths syncDirectory transaction.stagedPairs
  recordPreparedClaim transaction.entryHash claim
  setMarker (some transaction)

/-! ## 5. Step 9 -/

/-- The boundary.  A deletion that is neither confirmed nor refuted keeps the number. -/
def eraseDraftKey (claim : Option ClaimSource) : Task (WriterError × Option ClaimSource) Unit := do
  (do
    let draft ← loadOrCreate
    let saved ← save draft
    draftDekHandle saved : Task DraftError Unit).mapError fun error => (.draft error, claim)
  match ← call .deleteKey with
  | .ok () | .error .notFound =>
    match ← call .containsKey with
    | .ok true => fail (.keyDeletionNotConfirmed, claim)
    | .ok false => return ()
    | .error error => fail (.key error, none)
  | .error error => fail (.key error, none)

/-! ## 6. Steps 10 to 13 -/

/-- `publish_object`: the staged file takes its name; if this fails, an object that already
stands there has to be the same. -/
def publishObject (target : ArchivePath) (bytes : Bytes) : Task WriterError Unit := do
  match ← call (.atomicRenameSameFs (stagingPath target) target) with
  | .ok () => syncFile target
  | .error error => do
      let files ← visitBlobs
      ofExcept (ensure (files.read target).isSome (.backend error))
      let created ← call (.createIfAbsent target bytes)
      ofExcept (created.mapError .backend)
      syncFile target

def isGrant (bytes : Bytes) : Except WriterError Unit :=
  match Crypto.decode bytes with
  | .ok (.grant _) => .ok ()
  | .ok _ => .error .preparedFinalizationUnreadable
  | .error _ => .error .format

def isEntry (bytes : Bytes) : Except WriterError Unit :=
  match Crypto.decode bytes with
  | .ok (.entry _) => .ok ()
  | .ok _ => .error .preparedFinalizationUnreadable
  | .error _ => .error .format

/-- The grants get their final names, before the entry does. -/
def publishGrants : List (ArchivePath × Bytes) → Task WriterError Unit
  | [] => return ()
  | (target, bytes) :: pairs => do
      ofExcept (isGrant bytes)
      publishObject target bytes
      publishGrants pairs

/-- The evidence still counts. -/
def validatePreparedEvidence (required : Bool) (transaction : PreparedTransaction) :
    Task WriterError Unit := do
  let accepted ← call (.validatePreparedEvidence required transaction)
  ofExcept accepted

/-- What is prepared gets its final names. -/
def publishFromPrepared (transaction : PreparedTransaction) : Task WriterError FinalizeOutcome := do
  validatePreparedEvidence false transaction
  publishGrants transaction.grantPairs
  match transaction.grantPairs with
  | [] => pure ()
  | first :: _ => syncDirectory first.1
  ofExcept (isEntry transaction.entryBytes)
  publishObject transaction.entryPath transaction.entryBytes
  syncDirectory transaction.entryPath
  let confirmed ← call (.confirmOriginalPublication transaction)
  ofExcept confirmed
  let _ ← replaceWithBlank.mapError .draft
  return ⟨transaction.sequence, transaction.entryHash, transaction.entryObjectHash⟩

/-! ## 7. The whole -/

/-- A finalization, and the claim a failed one leaves. -/
def runClaiming (request : FinalizeCall) :
    Task (WriterError × Option ClaimSource) FinalizeOutcome := do
  let attempt ← (prepare request).mapError (·, none)
  let claim ← (claimIncidentNumber request attempt.pendingClaim).mapError (·, none)
  let transaction ← (do
    let transaction ← buildTransaction request attempt
    stageAndFlush request attempt claim transaction
    return transaction : Task WriterError PreparedTransaction).mapError (·, claim)
  eraseDraftKey claim
  (publishFromPrepared transaction).mapError (·, none)

/-- `run`: an error that still reports a claim releases it; how this goes is not reported. -/
def finalize (request : FinalizeCall) : Task WriterError FinalizeOutcome := do
  match ← (runClaiming request).result with
  | .ok outcome => return outcome
  | .error (error, none) => fail error
  | .error (error, some claim) => do
      let _ ← call (.releaseClaim claim)
      fail error

/-! ## 8. Markers -/

namespace PreparedTransaction

variable (transaction : PreparedTransaction)

/-- The grant is the one its hash names. -/
def grantHolds (grant : Hash32 × Bytes) : Bool :=
  match Crypto.decode grant.2 with
  | .ok (.grant _) => Crypto.objectHash grant.2 = grant.1
  | _ => false

/-- The entry is the one its hash names. -/
def entryHolds : Bool :=
  match Crypto.decode transaction.entryBytes with
  | .ok (.entry entry) =>
    Crypto.objectHash transaction.entryBytes = transaction.entryObjectHash
      && entry.entryHash = transaction.entryHash
      && entry.signedManifest.manifest.chainSequence = transaction.sequence
      && entry.signedManifest.manifest.initialGrantPlanHash = transaction.grantPlanHash
  | _ => false

/-- `PreparedTransactionV1::verify`. -/
def verify : Except WriterError Unit :=
  ensure (!transaction.grants.isEmpty && transaction.grants.all grantHolds
    && transaction.entryHolds) .preparedFinalizationInconsistent

end PreparedTransaction

/-! ## 9. Claims -/

def releaseAll : List ClaimSource → Task WriterError Unit
  | [] => return ()
  | source :: sources => do
      let released ← call (.releaseClaim source)
      Program.ofExcept released
      releaseAll sources

def releaseClaimsOf (stale : Bool) (draft : Draft) : Task WriterError Unit := do
  let claims ← call (.unreleasedClaims stale draft)
  let claims ← Program.ofExcept claims
  releaseAll claims

/-- The identity of the current draft is asked first: claims of replaced drafts stay. -/
def recoverOriginalClaims : Task WriterError Unit := do
  let pending ← call .hasClaimsOfDraft
  if ← Program.ofExcept pending then
    let draft ← loadOrCreate.mapError .draft
    releaseClaimsOf false draft
  else return ()

/-- The stale claims of a draft. -/
def recoverReversibleClaims (draft : Draft) : Task WriterError Unit := releaseClaimsOf true draft

/-- Claims of a finalization that has left no marker. -/
def recoverUnmarkedStaleClaims : Task WriterError Unit := do
  recoverOriginalClaims
  let pending ← call .hasUnreleasedStaleClaims
  if ← Program.ofExcept pending then
    let draft ← loadOrCreate.mapError .draft
    recoverReversibleClaims draft
  else return ()

/-! ## 10. Recovery -/

inductive RecoveryOutcome
  | nothingPending
  | draftRestored (unusedSequence : Nat)
  | committedFromPreparedBytes (sequence : Nat)

/-- Before the boundary: the draft opened. -/
def restoreDraft (transaction : PreparedTransaction) (draft : Draft) :
    Task WriterError RecoveryOutcome := do
  recoverOriginalClaims
  recoverReversibleClaims draft
  setMarker none
  return .draftRestored transaction.sequence

/-- A prepared finalization goes on, or its draft comes back. -/
def resolveMarker (transaction : PreparedTransaction) : Task WriterError RecoveryOutcome := do
  match ← loadOrCreate.result with
  | .ok draft => restoreDraft transaction draft
  | .error (.key .notFound) | .error .aeadOpen => do
      let _ ← publishFromPrepared transaction
      return .committedFromPreparedBytes transaction.sequence
  | .error error => Program.fail (.draft error)

/-- `recover_pending_bound`. -/
def recoverPending (service : WriterService) (expected : Option Hash32) :
    Task WriterError RecoveryOutcome := do
  Program.ofExcept (ensure (expected.isNone || expected = service.evidenceDraftSource)
    (.draft .evidenceBinding))
  match ← preparedFinalizationMarker.mapError .draft with
  | none => do
      recoverUnmarkedStaleClaims
      return .nothingPending
  | some transaction => do
      Program.ofExcept transaction.verify
      if service.evidenceDraftSource.isSome then validatePreparedEvidence true transaction
      resolveMarker transaction

/-! ## 11. The calls of an installation -/

/-- What the operator asks for. -/
inductive WriterCall
  | finalize (request : FinalizeCall)
  | recoverPending (service : WriterService) (expected : Option Hash32)
  | beginDiscard (service : DiscardService) (proof : OperatorSessionProof)
  | resumeDiscard (service : DiscardService) (proof : OperatorSessionProof)
  | resumeAfterRestart (service : DiscardService) (proof : OperatorSessionProof)

/-- Why a call fails. -/
inductive CallError
  | writer (error : WriterError)
  | draft (error : DraftError)

inductive CallOutcome
  | finalized (outcome : FinalizeOutcome)
  | recovered (outcome : RecoveryOutcome)
  | discarded (draftId : Id16) (blank : SavedDraft)
  | restarted (state : RestartState)

/-- The operations of a call. -/
def WriterCall.program : WriterCall → Task CallError CallOutcome
  | .finalize request => do
      return .finalized (← (Writer.finalize request).mapError .writer)
  | .recoverPending service expected => do
      return .recovered (← (Writer.recoverPending service expected).mapError .writer)
  | .beginDiscard service proof => do
      let (draftId, blank) ← (service.beginDiscard proof).mapError .draft
      return .discarded draftId blank
  | .resumeDiscard service proof => do
      let (draftId, blank) ← (service.resumeDiscard proof).mapError .draft
      return .discarded draftId blank
  | .resumeAfterRestart service proof => do
      return .restarted (← (service.resumeAfterRestart proof).mapError .draft)

/-- One installation and its calls. -/
def installation : Machine Installation WriterCall Port.Reply CallError CallOutcome where
  devices := ports
  program := WriterCall.program

/-- Several calls at one installation. -/
abbrev InstallationSession := Session Installation Port.Reply CallError CallOutcome

end Einsatzarchiv.Writer
