/-
  File:      Einsatzarchiv/Verify/Destructions.lean
  Subject:   Grants, destructions and what remains of destroyed entries (crate `ea-trust`,
             `grant_authorization.rs`; crate `ea-verify`, `historical.rs`, `recipient.rs`,
             `destruction.rs` and `destroyed.rs`).

  * `verifyArchivedGrantAuthorization`: two people signed it, at the head and in time.
  * `verifyHistoricalGrant`: a grant that was issued later, under an authorization of its own.
  * `ownGrant`, `verifyOwnGrant`, `openEntry`: the grant of a recipient and what it opens.
  * `assessDestruction`: the events of one destruction, followed from its request on; what does
    not lie on that path is in conflict.
  * `recordDestructions`: the authorizations, transitions and attestations of an inventory.
  * `candidates`: the stubs an authorized destruction may have left behind.
  * `inspect`, `evidenceHolds`: the evidence that approves a stub.
-/
import Einsatzarchiv.Trust.Admission
import Einsatzarchiv.Verify.Entries
import Einsatzarchiv.Verify.Report

namespace Einsatzarchiv.Verify

open Lib Format Archive Trust

section

variable [Crypto]

/-! ## 1. Authorizations of several people -/

/-- Why the authorization of a historical grant does not count. -/
inductive GrantAuthorizationError
  | unverifiable | mismatch | insufficient | expired
deriving DecidableEq

def GrantAuthorizationError.code : GrantAuthorizationError → String
  | .unverifiable => "EA-GRANT-AUTHORIZATION-UNVERIFIABLE"
  | .mismatch => "EA-GRANT-AUTHORIZATION-MISMATCH"
  | .insufficient => "EA-GRANT-AUTHORIZATION-INSUFFICIENT"
  | .expired => "EA-GRANT-AUTH-EXPIRED"

/-- `verify_archived_grant_authorization`: at the head, at its sequence. -/
def verifyArchivedGrantAuthorization (bytes : Bytes) (head : HistoricalRegistryAuthority)
    (now : Int) : Except GrantAuthorizationError GrantAuthorizationFields := do
  let .ok (.trust object) := Crypto.decode bytes | throw .unverifiable
  let .grantAuthorization fields := object.payload | throw .unverifiable
  ensure (fields.organizationId = head.organizationId
    ∧ fields.registryVersion = head.registryVersion
    ∧ fields.registryHeadHash = head.registryHeadHash
    ∧ fields.authorizationSequence = head.sequence) .mismatch
  ensure (now ≤ fields.expiresAt) .expired
  let count ← (distinctAuthoritySubjects object.signatures head.resolve
    (VerificationContext.historicalGrantApprovalTrustDigest object.payload)).mapError
      fun _ => .unverifiable
  ensure (2 ≤ count) .insufficient
  return fields

/-! ## 2. Historical grants -/

variable [EscrowRules]

def grantRecoveryMismatch : String := "EA-GRANT-RECOVERY-MISMATCH"

section

variable (inventory : ArchiveInventory)

/-- The grant whose key a historical one hands on. -/
def verifyOriginalRecoveryGrant (anchor : TrustAnchor)
    (entry : Parsed EntryPackage) (original : Parsed Grant) : Except String Unit := do
  let fields := original.value.grantBody
  let manifest := entry.value.signedManifest.manifest
  ensure (fields.kind = .initial
    ∧ fields.purpose = .recovery
    ∧ fields.entryHash = entry.value.entryHash
    ∧ fields.organizationId = anchor.organizationId
    ∧ fields.chainId = manifest.chainId
    ∧ fields.issuerCertificateHash = manifest.writerCertificateHash
    ∧ fields.registryVersion = manifest.registryVersion
    ∧ fields.registryHeadHash = manifest.registryHeadHash) grantRecoveryMismatch
  let head ← okOr (manifestHead inventory anchor manifest) grantRecoveryMismatch
  let context ← (VerificationContext.initialGrant fields manifest.chainSequence).mapError
    fun _ => grantRecoveryMismatch
  let _ ← (verifyCoseSign1 original.value.issuerSignature head.resolve context).mapError
    fun _ => grantRecoveryMismatch

/-- The authorization a historical grant names. -/
def grantAuthorizationOf (fields : GrantBodyFields) :
    Option (Parsed TrustObject × GrantAuthorizationFields) := do
  let hash ← fields.grantAuthorizationObjectHash
  let authorization ← inventory.trust.find? (·.objectHash = hash)
  let .grantAuthorization auth := authorization.value.payload | none
  return (authorization, auth)

/-- `verify_historical_grant`: the end of the period the grant is authorized for. -/
def verifyHistoricalGrant (anchor : TrustAnchor)
    (entry : Parsed EntryPackage) (grant : Parsed Grant) (now : Int) : Except String Int := do
  let fields := grant.value.grantBody
  let (authorization, auth) ← okOr (grantAuthorizationOf inventory fields)
    "EA-GRANT-AUTHORIZATION-UNVERIFIABLE"
  let head ← okOr (historicalRegistryHead inventory anchor auth.registryVersion
    auth.registryHeadHash auth.authorizationSequence) "EA-GRANT-REGISTRY-STALE"
  let context ← (VerificationContext.historicalGrant fields auth.authorizationSequence).mapError
    fun _ => "EA-GRANT-ISSUER-UNAUTHORIZED"
  let _ ← (verifyCoseSign1 grant.value.issuerSignature head.resolve context).mapError
    fun _ => "EA-GRANT-ISSUER-UNAUTHORIZED"
  let auth ← (verifyArchivedGrantAuthorization authorization.exactBytes head now).mapError
    fun error => if error = .expired then "EA-GRANT-EXPIRED" else error.code
  let recipient ← okOr (head.activeCertificateFields fields.recipientCertificateHash)
    "EA-GRANT-AUTHORIZATION-MISMATCH"
  ensure (fields.kind = .historical
    ∧ fields.purpose = .reader
    ∧ fields.registryVersion = auth.registryVersion
    ∧ fields.registryHeadHash = auth.registryHeadHash
    ∧ fields.organizationId = anchor.organizationId
    ∧ fields.chainId = anchor.chainId
    ∧ fields.entryHash = entry.value.entryHash
    ∧ auth.entryHashes.contains fields.entryHash
    ∧ auth.recipientCertificateHash = fields.recipientCertificateHash
    ∧ auth.recipientKeyThumbprint = fields.recipientKeyThumbprint
    ∧ recipient.certificateKind = .reader
    ∧ recipient.kemKeyThumbprint = some fields.recipientKeyThumbprint)
    "EA-GRANT-AUTHORIZATION-MISMATCH"
  let originalHash ← okOr fields.originalRecoveryGrantObjectHash grantRecoveryMismatch
  let original ← okOr (inventory.grants.find? (·.objectHash = originalHash))
    grantRecoveryMismatch
  verifyOriginalRecoveryGrant inventory anchor entry original
  return auth.expiresAt

end

/-! ## 3. The grant of a recipient -/

/-- The key a report is made for. -/
structure RecipientKey where
  keyThumbprint : KeyThumbprint
  privateKey : Bytes

/-- Why the recipient's own grant does not count. -/
inductive RecipientGrantError
  | issuerUnverifiable | headUnavailable | authorizationUnverifiable

def RecipientGrantError.code : RecipientGrantError → String
  | .issuerUnverifiable => "EA-VERIFY-GRANT-ISSUER-UNVERIFIABLE"
  | .headUnavailable => "EA-VERIFY-GRANT-HEAD-UNAVAILABLE"
  | .authorizationUnverifiable => "EA-VERIFY-GRANT-AUTHORIZATION-UNVERIFIABLE"

/-- Why the payload does not open. -/
inductive DecryptionError
  | cekUnwrapFailed | payloadOpenFailed

def DecryptionError.code : DecryptionError → String
  | .cekUnwrapFailed => "EA-VERIFY-DECRYPT-CEK-UNWRAP-FAILED"
  | .payloadOpenFailed => "EA-VERIFY-DECRYPT-PAYLOAD-OPEN-FAILED"

section

variable (inventory : ArchiveInventory) (entry : Parsed EntryPackage)
  (keyThumbprint : KeyThumbprint)

/-- The initial grant of an entry for a recipient. -/
def ownGrant : Option (Parsed Grant) :=
  inventory.grants.find? fun grant =>
    let fields := grant.value.grantBody
    fields.kind = .initial && fields.entryHash = entry.value.entryHash
      && fields.recipientKeyThumbprint = keyThumbprint

/-- The historical grants of an entry for a recipient. -/
def historicalGrants : List (Parsed Grant) :=
  inventory.grants.filter fun grant =>
    let fields := grant.value.grantBody
    fields.kind = .historical && fields.entryHash = entry.value.entryHash
      && fields.recipientKeyThumbprint = keyThumbprint

end

/-- The issuer of the recipient's grant was entitled to it. -/
def verifyOwnGrant (grant : Parsed Grant) (entry : Parsed EntryPackage)
    (selected : HistoricalRegistryAuthority) : Except RecipientGrantError KeyThumbprint := do
  let body := grant.value.grantBody
  ensure (body.kind = .initial) .authorizationUnverifiable
  let context ← (VerificationContext.initialGrant body
    entry.value.signedManifest.manifest.chainSequence).mapError fun _ => .issuerUnverifiable
  let signer ← (verifyCoseSign1 grant.value.issuerSignature selected.resolve context).mapError
    fun _ => .issuerUnverifiable
  return signer.keyThumbprint

/-- The plaintext of an entry. -/
def openEntry (grant : Parsed Grant) (entry : Parsed EntryPackage) (recipient : RecipientKey) :
    Except DecryptionError Bytes := do
  let cek ← okOr (Crypto.hpkeOpen recipient.privateKey grant.value.grantBody) .cekUnwrapFailed
  okOr (Crypto.aeadOpen cek entry.value.signedManifest.manifest entry.value.ciphertext)
    .payloadOpenFailed

end

open Chain

/-! ## 4. The states of a destruction -/

def DestructionState.fromCode : Nat → Option DestructionState
  | 0 => some .requested
  | 1 => some .inProgress
  | 2 => some .pendingBackupExpiry
  | 3 => some .completeManagedScope
  | 4 => some .incompleteUnreachableReplica
  | _ => none

def DestructionState.code : DestructionState → Nat
  | .requested => 0
  | .inProgress => 1
  | .pendingBackupExpiry => 2
  | .completeManagedScope => 3
  | .incompleteUnreachableReplica => 4

/-- The transitions of a destruction. -/
def DestructionState.mayAdvanceTo : DestructionState → DestructionState → Bool
  | .requested, .inProgress | .inProgress, .pendingBackupExpiry
  | .inProgress, .completeManagedScope | .inProgress, .incompleteUnreachableReplica
  | .pendingBackupExpiry, .completeManagedScope
  | .pendingBackupExpiry, .incompleteUnreachableReplica
  | .incompleteUnreachableReplica, .inProgress => true
  | _, _ => false

/-- A transition whose signature was verified. -/
structure VerifiedEvent where
  objectHash : ObjectHash
  fields : DestructionTransitionFields

/-- The state `next` leads to from `state`, if it may. -/
def advancedState (state : DestructionState) (authorizationObjectHash : ObjectHash)
    (next : VerifiedEvent) : Option DestructionState :=
  (DestructionState.fromCode next.fields.toState).filter fun reached =>
    next.fields.fromState = some state.code
      && next.fields.destructionAuthorizationObjectHash = authorizationObjectHash
      && state.mayAdvanceTo reached

/-- The loop of `assess_destruction`: the objects in conflict and the last state.  A round takes
one event from `pending`, so that as much fuel as there are events never runs out. -/
def followEvents (authorizationObjectHash : ObjectHash) :
    Nat → ObjectHash → DestructionState → List VerifiedEvent → List ObjectHash × DestructionState
  | 0, _, state, pending => (pending.map (·.objectHash), state)
  | fuel + 1, current, state, pending =>
    match pending.filter (·.fields.previousEventObjectHash = some current) with
    | [next] =>
      let rest := pending.filter (·.objectHash ≠ next.objectHash)
      match advancedState state authorizationObjectHash next with
      | some nextState =>
        followEvents authorizationObjectHash fuel next.objectHash nextState rest
      | none => (next.objectHash :: rest.map (·.objectHash), state)
    -- no successor leaves the rest in conflict, and so do several of them
    | _ => (pending.map (·.objectHash), state)

/-- The events that share their identifier with another one of the group. -/
def isContested (group : List VerifiedEvent) (event : VerifiedEvent) : Bool :=
  1 < (group.filter (·.fields.eventId = event.fields.eventId)).length

/-- `assess_destruction`: the objects in conflict and the destruction with its last state. -/
def assessDestruction (group : List VerifiedEvent) :
    List ObjectHash × Option AuthorizedDestruction :=
  let contested := (group.filter (isContested group)).map (·.objectHash)
  let pending := group.filter (!isContested group ·)
  match pending.filter (·.fields.previousEventObjectHash.isNone) with
  | [root] =>
    let rest := pending.filter (·.objectHash ≠ root.objectHash)
    if root.fields.fromState.isNone ∧
        DestructionState.fromCode root.fields.toState = some .requested then
      let authorization := root.fields.destructionAuthorizationObjectHash
      let (conflicting, state) :=
        followEvents authorization rest.length root.objectHash .requested rest
      (contested ++ conflicting, some ⟨authorization, state⟩)
    else (contested ++ pending.map (·.objectHash), none)
  | _ => (contested ++ pending.map (·.objectHash), none)

/-! ## 5. The objects of destructions -/

/-- Why an object of a destruction does not count. -/
inductive DestructionError
  | authorizationUnresolved | authorizationInvalid | headUnavailable | signatureInvalid
  | signerMismatch | signerUnauthorized | readerDeviceSigner | unverifiable
deriving DecidableEq

def DestructionError.code : DestructionError → String
  | .authorizationUnresolved => "EA-VERIFY-DESTRUCTION-AUTHORIZATION-UNRESOLVED"
  | .authorizationInvalid => "EA-VERIFY-DESTRUCTION-AUTHORIZATION-INVALID"
  | .headUnavailable => "EA-VERIFY-DESTRUCTION-HEAD-UNAVAILABLE"
  | .signatureInvalid => "EA-VERIFY-DESTRUCTION-SIGNATURE-INVALID"
  | .signerMismatch => "EA-VERIFY-DESTRUCTION-SIGNER-MISMATCH"
  | .signerUnauthorized => "EA-VERIFY-DESTRUCTION-SIGNER-UNAUTHORIZED"
  | .readerDeviceSigner => "EA-VERIFY-DESTRUCTION-READER-DEVICE-SIGNER"
  | .unverifiable => "EA-VERIFY-DESTRUCTION-UNVERIFIABLE"

/-- What an error of the signature means for it. -/
def DestructionError.ofCrypto : CryptoError → DestructionError
  | .signatureInvalid => .signatureInvalid
  | .signerMismatch => .signerMismatch
  | .signerUnauthorized | .signerUnresolved => .signerUnauthorized
  | _ => .unverifiable

/-- `device_holds_reader_certificate`. -/
def deviceHoldsReaderCertificate (device : DeviceId)
    (known : List (CertificateHash × DeviceCertificateFields)) : Bool :=
  known.any fun certificate =>
    certificate.2.deviceId = device && certificate.2.certificateKind = .reader

/-- An authorization of the archive, with its head. -/
structure Authorization where
  objectHash : ObjectHash
  exactBytes : Bytes
  (sequence version : Nat)
  headHash : ObjectHash

/-- The authorizations of destructions in the inventory, by ascending hash. -/
def authorizations (trust : List (Parsed TrustObject)) : List Authorization :=
  trust.filterMap fun object =>
    match object.value.payload with
    | .destructionAuthorization fields =>
      some ⟨object.objectHash, object.exactBytes, fields.authorizationSequence,
        fields.registryVersion, fields.registryHeadHash⟩
    | _ => none

/-- A step of a destruction. -/
inductive DestructionStep
  | transition (fields : DestructionTransitionFields)
  | attestation (fields : DeletionAttestationFields)

def DestructionStep.authorizationObjectHash : DestructionStep → ObjectHash
  | .transition fields | .attestation fields => fields.destructionAuthorizationObjectHash

/-- The step a trust object holds. -/
def destructionStepOf : TrustPayload → Option DestructionStep
  | .destructionTransition fields => some (.transition fields)
  | .deletionAttestation fields => some (.attestation fields)
  | _ => none

/-- A step together with its authorization. -/
structure DestructionObject where
  authorization : Authorization
  object : Parsed TrustObject
  step : DestructionStep

variable [Crypto]

/-- How a head is found for a version, a hash and a sequence. -/
abbrev HeadFor := Nat → ObjectHash → Nat → Option HistoricalRegistryAuthority

/-- `historical_approval_is_valid`. -/
def historicalApprovalIsValid (authorization : Authorization)
    (head : HistoricalRegistryAuthority) : Bool :=
  match Crypto.decode authorization.exactBytes with
  | .ok (.trust object) =>
    match object.payload with
    | .destructionAuthorization fields =>
      let privacy := head.policyFields.retentionPolicy
      fields.organizationId = head.organizationId && privacy.destructionEnabled
        && privacy.edsPrivacyDecisionDocumentHash.isSome
        && match distinctAuthoritySubjects object.signatures head.resolve
            (VerificationContext.destructionApprovalTrustDigest object.payload) with
          | .ok people => decide (2 ≤ people)
          | .error _ => false
    | _ => false
  | _ => false

/-- The head the authorization names is one of the registry. -/
def authorizationHolds (headFor : HeadFor) (authorization : Authorization) : Bool :=
  (headFor authorization.version authorization.headHash authorization.sequence).any
    (historicalApprovalIsValid authorization)

/-- The times an attestation may name. -/
def attestationTimesHold (fields : DeletionAttestationFields) (observedAt : Int) : Bool :=
  fields.replicaKind ≤ 2 && 0 ≤ fields.executedAt && fields.executedAt ≤ observedAt
    && fields.backupExpiryAt.all (0 ≤ ·)
    && !(fields.result = 1 && fields.backupExpiryAt.isNone)
    && !(fields.result = 0 && fields.backupExpiryAt.any (fields.executedAt < ·))

/-- `verify_destruction_object`. -/
def verifyDestructionObject (headFor : HeadFor) (observedAt : Int) (object : DestructionObject) :
    Except DestructionError KeyThumbprint := do
  let payload := object.object.value.payload
  let signature ← okOr object.object.value.signatures.head? .signerMismatch
  let certificateHash ← okOr signature.certificateHash .signerMismatch
  let context ← (match object.step with
    | .transition _ => VerificationContext.destructionTransitionTrustDigest payload
        object.authorization.exactBytes certificateHash
    | .attestation _ => VerificationContext.deletionAttestationTrustDigest payload
        object.authorization.exactBytes certificateHash).mapError .ofCrypto
  let selected ← okOr (headFor object.authorization.version object.authorization.headHash
    object.authorization.sequence) .headUnavailable
  let signer ← (verifyCoseSign1 signature selected.resolve context).mapError .ofCrypto
  let certificate ← okOr (selected.activeCertificateFields certificateHash) .signerUnauthorized
  match object.step with
  | .transition _ =>
    ensure (!deviceHoldsReaderCertificate certificate.deviceId selected.knownCertificateFields)
      .readerDeviceSigner
  | .attestation fields => do
      ensure (certificate.deviceId = fields.replicaId) .signerMismatch
      ensure (attestationTimesHold fields observedAt) .unverifiable
  return signer.keyThumbprint

/-! ## 6. Recording destructions -/

def judgeAuthorization (headFor : HeadFor) (report : VerificationReport)
    (authorization : Authorization) : VerificationReport :=
  if report.isQuarantined authorization.objectHash || authorizationHolds headFor authorization then
    report
  else report.addSignatureError authorization.objectHash DestructionError.authorizationInvalid.code

/-- The authorizations the first loop retains. -/
def retainedAuthorizations (headFor : HeadFor) (report : VerificationReport)
    (trust : List (Parsed TrustObject)) : List Authorization :=
  (authorizations trust).filter fun authorization =>
    !report.isQuarantined authorization.objectHash && authorizationHolds headFor authorization

section

variable (retained : List Authorization)

/-- The step a trust object is, with its authorization if that was retained. -/
def resolveStep (object : Parsed TrustObject) :
    Option (DestructionStep × Option Authorization) :=
  (destructionStepOf object.value.payload).map fun step =>
    (step, retained.find? (·.objectHash = step.authorizationObjectHash))

/-- A step without its authorization is quarantined. -/
def judgeResolution (report : VerificationReport)
    (object : Parsed TrustObject) : VerificationReport :=
  if report.isQuarantined object.objectHash then report
  else match resolveStep retained object with
    | some (_, none) => report.addSignatureError object.objectHash
        DestructionError.authorizationUnresolved.code
    | _ => report

/-- The steps with an authorization, by its sequence. -/
def orderedSteps (report : VerificationReport)
    (trust : List (Parsed TrustObject)) : List DestructionObject :=
  sortByKey (fun object => toLex (object.authorization.sequence, object.object.objectHash))
    (trust.filterMap fun object =>
      if report.isQuarantined object.objectHash then none
      else match resolveStep retained object with
        | some (step, some authorization) => some ⟨authorization, object, step⟩
        | _ => none)

end

section

variable (headFor : HeadFor) (observedAt : Int)

def judgeStep (report : VerificationReport)
    (object : DestructionObject) : VerificationReport :=
  match verifyDestructionObject headFor observedAt object with
  | .ok thumbprint => report.addThumbprint thumbprint
  | .error error => report.addSignatureError object.object.objectHash error.code

def stepVerified (object : DestructionObject) : Bool :=
  (verifyDestructionObject headFor observedAt object).isOk

/-- The verified transitions in their order. -/
def verifiedEvents (ordered : List DestructionObject) :
    List VerifiedEvent :=
  (ordered.filter (stepVerified headFor observedAt)).filterMap fun object =>
    match object.step with
    | .transition fields => some ⟨object.object.objectHash, fields⟩
    | .attestation _ => none

/-- The verified attestations by their hash. -/
def verifiedAttestations (ordered : List DestructionObject) :
    Std.TreeMap ObjectHash DeletionAttestationFields :=
  (ordered.filter (stepVerified headFor observedAt)).foldl (fun attestations object =>
    match object.step with
    | .transition _ => attestations
    | .attestation fields => attestations.insert object.object.objectHash fields) ∅

end

/-- The destructions the events belong to, in ascending order. -/
def destructionIds (events : List VerifiedEvent) : List DestructionId :=
  sortByKey id (events.map (·.fields.destructionId)).dedup

/-- What the report says of one destruction. -/
def recordDestruction (events : List VerifiedEvent) (report : VerificationReport)
    (destructionId : DestructionId) : VerificationReport :=
  let (conflicting, destruction) :=
    assessDestruction (events.filter (·.fields.destructionId = destructionId))
  let report := conflicting.foldl VerificationReport.quarantineConflicting report
  match destruction with
  | some destruction => report.addDestruction destructionId destruction
  | none => report

/-- `record_destructions`.  No loop but the last writes what an earlier one reads, so that each
collection is given by a definition of its own. -/
def recordDestructions (report : VerificationReport) (trust : List (Parsed TrustObject))
    (observedAt : Int) (headFor : HeadFor) :
    VerificationReport × Std.TreeMap ObjectHash DeletionAttestationFields :=
  let retained := retainedAuthorizations headFor report trust
  let ordered := orderedSteps retained report trust
  let events := verifiedEvents headFor observedAt ordered
  let report := (authorizations trust).foldl (judgeAuthorization headFor) report
  let report := trust.foldl (judgeResolution retained) report
  let report := ordered.foldl (judgeStep headFor observedAt) report
  let report := (destructionIds events).foldl (recordDestruction events) report
  (report, verifiedAttestations headFor observedAt ordered)

/-! ## 7. Stubs -/

variable [EscrowRules]

/-- The authorization of a destruction under a hash. -/
def destructionAuthorizationAt (inventory : ArchiveInventory) (hash : ObjectHash) :
    Option DestructionAuthorizationFields := do
  let object ← inventory.trust.find? (·.objectHash = hash)
  let .destructionAuthorization fields := object.value.payload | none
  return fields

/-- The signed position of a stub, against the head it names. -/
def stubPositionHolds (inventory : ArchiveInventory) (anchor : TrustAnchor)
    (stub : DestroyedEntryStub) : Bool :=
  let fields := stub.signedManifest.manifest
  (manifestHead inventory anchor fields).any fun head =>
    fields.organizationId = anchor.organizationId && fields.chainId = anchor.chainId
      && writerIsActive head fields.writerCertificateHash
      && transitionClaimHolds fields head.effectiveWriterTransition
      && (verifyRecord stub.signedManifest stub.writerSignature head).isOk

/-- Whether the destruction a stub names is under way and has the entry as a target. -/
def destructionCovers (report : VerificationReport) (inventory : ArchiveInventory)
    (stub : DestroyedEntryStub) : Bool :=
  report.authorizedDestructions[stub.destructionId]?.any fun operation =>
    operation.state ≠ .requested
      && operation.authorizationObjectHash = stub.destructionAuthorizationObjectHash
      && (destructionAuthorizationAt inventory operation.authorizationObjectHash).any
        fun authorization => authorization.targets.any fun target =>
          target.entryHash = stub.entryHash
            && target.chainSequence = stub.signedManifest.manifest.chainSequence

/-- `destroyed::candidates`. -/
def candidates (report : VerificationReport) (inventory : ArchiveInventory)
    (anchor : TrustAnchor) : List (Parsed DestroyedEntryStub) :=
  inventory.destroyed.filter fun stub =>
    !report.isQuarantined stub.objectHash && destructionCovers report inventory stub.value
      && stubPositionHolds inventory anchor stub.value

/-- The evidence of a destruction that an entry carries. -/
structure VerifiedEvidence where
  sequence : Nat
  destructionId : DestructionId
  authorization : ObjectHash
  scope : Nat
  targets : List DestructionEvidenceTarget
  confirmed : List EntryHash
  stubs : Std.TreeMap EntryHash ObjectHash
  attestations : List (Id16 × ObjectHash)

/-- The binding of the operator who signed the evidence. -/
def operatorBindingHolds (evidence : DestructionEvidence) (manifest : ManifestCoreFields)
    (binding : OperatorBindingFields) : Bool :=
  let operator := evidence.operator
  evidence.registryVersion = manifest.registryVersion
    && operator.organizationId = manifest.organizationId
    && binding.organizationId = operator.organizationId
    && binding.operatorSubjectId = operator.operatorSubjectId
    && binding.deviceCertificateHash = manifest.writerCertificateHash
    && binding.operatorRole = .writer
    && Crypto.operatorProfileCommitment operator = binding.operatorProfileCommitment

/-- `destroyed::inspect`. -/
def inspect (bytes : Bytes) (entry : Parsed EntryPackage) (inventory : ArchiveInventory)
    (anchor : TrustAnchor) : Option VerifiedEvidence := do
  let evidence ← Crypto.destructionEvidence bytes
  let manifest := entry.value.signedManifest.manifest
  let head ← manifestHead inventory anchor manifest
  let binding ← head.activeOperatorBindingFields evidence.operator.operatorBindingObjectHash
  guard (operatorBindingHolds evidence manifest binding)
  return {
    sequence := manifest.chainSequence
    destructionId := evidence.destructionId
    authorization := evidence.authorizationObjectHash
    scope := evidence.scopeCode
    targets := evidence.targets
    confirmed := evidence.confirmed
    stubs := .ofList evidence.stubBindings
    attestations := evidence.attestations }

/-- The target of the evidence is the target of the authorization. -/
def sameTarget (target : DestructionEvidenceTarget × DestructionTarget) : Bool :=
  target.1.entryHash = target.2.entryHash && target.1.chainSequence = target.2.chainSequence

/-- An attestation of the deletion of a stub's entry on one replica. -/
def attestationHolds (stub : DestroyedEntryStub)
    (attestations : Std.TreeMap ObjectHash DeletionAttestationFields)
    (named : Id16 × ObjectHash) : Bool :=
  attestations[named.2]?.any fun attestation =>
    attestation.replicaId = named.1 && attestation.destructionId = stub.destructionId
      && attestation.destructionAuthorizationObjectHash = stub.destructionAuthorizationObjectHash
      && attestation.result = 0
      && attestation.backupExpiryAt.all (· ≤ attestation.executedAt)

/-- `destroyed::evidence_holds`. -/
def evidenceHolds (stub : Parsed DestroyedEntryStub) (evidence : List VerifiedEvidence)
    (attestations : Std.TreeMap ObjectHash DeletionAttestationFields)
    (inventory : ArchiveInventory) : Bool :=
  let value := stub.value
  (destructionAuthorizationAt inventory value.destructionAuthorizationObjectHash).any fun auth =>
    evidence.any fun proof =>
      proof.destructionId = value.destructionId
        && proof.authorization = value.destructionAuthorizationObjectHash
        && proof.scope = auth.scopeCode
        && proof.targets.length = auth.targets.length
        && (proof.targets.zip auth.targets).all sameTarget
        && proof.confirmed.contains value.entryHash
        && proof.stubs[value.entryHash]? = some stub.objectHash
        && !proof.attestations.isEmpty
        && proof.attestations.all (attestationHolds value attestations)
        && proof.attestations.any fun named => attestations[named.2]?.any
          fun attestation => attestation.removedObjectHashes.contains value.originalEipObjectHash

end Einsatzarchiv.Verify
