/-
  File:      Einsatzarchiv/Trust/Anchor.lean
  Subject:   From a trust anchor to verified trust (crate `ea-trust`, `admin_authorization.rs`,
             `anchor.rs` and `state.rs`; crate `ea-verify`, `state.rs`).

  * `describeTarget`: what an authorized payload demands of its authorization.
  * `verifyAuthorizationBindsTarget`: the authorization fits the target, was signed by an active
    admin other than the admin it changes, and is used within its period.
  * `verifyAdminAuthorization`: additionally the signatures of the root over the target, and no
    reuse of an authorization within one replay.
  * `checkBootstrapObjects`: the root, the first admins and their bindings are exactly those the
    anchor pins, and each is signed as it has to be.
  * `verifyTrust`: the catalog of a source together with the bootstrap state.
  * `EphemeralTrustStateStore`: one record under one key, and the clock releases it has consumed.
  * `commitIndependentTime`, `commitRegistrySelection`: the two commits.  Each returns the store
    after it; the committed record is `record` of that store.
  * `commitIndependentTime_eq_ok`, `commitRegistrySelection_eq_ok`: what a successful commit
    checked and wrote.
-/
import Einsatzarchiv.Time
import Einsatzarchiv.Trust.Resolver

namespace Einsatzarchiv.Trust

open Lib Format Time

/-! ## 1. Persisted state -/

/-- Whose trust state it is. -/
structure TrustStateKey where
  organizationId : OrganizationId
  deviceId : DeviceId
deriving DecidableEq

structure RegistryHeadPin where
  registryVersion : Nat
  registryHeadHash : ObjectHash
deriving DecidableEq

/-- What is kept of the trust state. -/
structure PersistedTrustRecord where
  revision : Nat
  trustedTime : TrustedTimeState
  pinnedHead : Option RegistryHeadPin

/-- A loaded record under its key.  `load_trust_state` compares the reference with the floor,
which `TrustedTimeState` guarantees. -/
structure TrustStateSnapshot where
  key : TrustStateKey
  record : PersistedTrustRecord

/-! ## 2. Commits -/

/-- What identifies a clock release for the protection against its replay. -/
structure ClockReleaseReplayKey where
  organizationId : OrganizationId
  targetDeviceId : DeviceId
  nonce : Hash32
deriving DecidableEq

/-- A new trusted time. -/
structure IndependentTimeCommit where
  nextTrustedTime : TrustedTimeState

/-- A new head, with its time and the release it consumes. -/
structure RegistrySelectionCommit where
  nextTrustedTime : TrustedTimeState
  nextHead : RegistryHeadPin
  replayKey : Option ClockReleaseReplayKey

/-- Why the store refuses. -/
inductive StateStoreError
  | conflict | replayAlreadyConsumed | monotonicityViolation | unavailable

/-- What a refusal of the store means for the trust verification. -/
def mapStoreError : StateStoreError → TrustError
  | .conflict => .stateConflict
  | .replayAlreadyConsumed => .clockReleaseReplay
  | .monotonicityViolation => .stateMonotonicity
  | .unavailable => .stateUnavailable

/-! ## 3. The store -/

/-- The store of the trust state, guarded by its revision. -/
structure EphemeralTrustStateStore where
  key : TrustStateKey
  revision : Nat
  trustedTime : TrustedTimeState
  pinnedHead : Option RegistryHeadPin
  consumedReleases : List ClockReleaseReplayKey

namespace EphemeralTrustStateStore

/-- A new store with a head. -/
def withPin (key : TrustStateKey) (floor : Int) (pin : Option RegistryHeadPin) :
    EphemeralTrustStateStore :=
  ⟨key, 0, .initial floor, pin, []⟩

/-- A new store without a head. -/
def new (key : TrustStateKey) (floor : Int) : EphemeralTrustStateStore :=
  withPin key floor none

variable (store : EphemeralTrustStateStore)

/-- What a reader of the store gets. -/
def record : PersistedTrustRecord := ⟨store.revision, store.trustedTime, store.pinnedHead⟩

section

variable (key : TrustStateKey)

/-- Only who knows the revision may write. -/
def checkCas (expectedRevision : Nat) : Except StateStoreError Unit :=
  ensure (key = store.key ∧ expectedRevision = store.revision) .conflict

/-- Neither time nor head goes back. -/
def advance (nextTrustedTime : TrustedTimeState) (nextPinnedHead : Option RegistryHeadPin) :
    Except StateStoreError EphemeralTrustStateStore := do
  ensure (store.trustedTime.floor ≤ nextTrustedTime.floor) .monotonicityViolation
  let revision ← okOr (checkedAdd store.revision 1) .unavailable
  return { store with revision, trustedTime := nextTrustedTime, pinnedHead := nextPinnedHead }

def load : Except StateStoreError PersistedTrustRecord := do
  store.checkCas key store.revision
  return store.record

/-- A later time is written. -/
def commitIndependentTime (expectedRevision : Nat)
    (commit : IndependentTimeCommit) : Except StateStoreError EphemeralTrustStateStore := do
  store.checkCas key expectedRevision
  store.advance commit.nextTrustedTime store.pinnedHead

end

/-- The release was used before. -/
def clockReleaseConsumed (key : ClockReleaseReplayKey) : Bool :=
  store.consumedReleases.contains key

/-- A later head is written, and its release is used up. -/
def commitRegistrySelection (key : TrustStateKey) (expectedRevision : Nat)
    (commit : RegistrySelectionCommit) : Except StateStoreError EphemeralTrustStateStore := do
  store.checkCas key expectedRevision
  ensure (commit.nextTrustedTime.independentReference = store.trustedTime.independentReference)
    .monotonicityViolation
  ensure (!commit.replayKey.any store.consumedReleases.contains) .replayAlreadyConsumed
  let next ← store.advance commit.nextTrustedTime (some commit.nextHead)
  return { next with consumedReleases := store.consumedReleases ++ commit.replayKey.toList }

end EphemeralTrustStateStore

/-- `load_trust_state`; see `TrustStateSnapshot` for its second check. -/
def loadTrustState (store : EphemeralTrustStateStore) (key : TrustStateKey) :
    Except TrustError TrustStateSnapshot := do
  let record ← (store.load key).mapError mapStoreError
  return ⟨key, record⟩

/-! ## 4. What a commit checked and wrote -/

section Commits

variable {store next : EphemeralTrustStateStore} {key : TrustStateKey} {revision : Nat}

@[simp] theorem checkCas_eq_ok {u : Unit} : store.checkCas key revision = .ok u ↔
    key = store.key ∧ revision = store.revision := by
  simp [EphemeralTrustStateStore.checkCas]

theorem advance_eq_ok {time : TrustedTimeState} {pin : Option RegistryHeadPin} :
    store.advance time pin = .ok next ↔ store.trustedTime.floor ≤ time.floor ∧
      store.revision + 1 ≤ u64Max ∧ next = { store with
        revision := store.revision + 1, trustedTime := time, pinnedHead := pin } := by
  simp [EphemeralTrustStateStore.advance, checkedAdd_eq_some, and_assoc, @eq_comm _ next]

@[simp] theorem load_eq_ok {record : PersistedTrustRecord} :
    store.load key = .ok record ↔ key = store.key ∧ record = store.record := by
  simp [EphemeralTrustStateStore.load, @eq_comm _ record]

@[simp] theorem loadTrustState_eq_ok {snap : TrustStateSnapshot} :
    loadTrustState store key = .ok snap ↔ key = store.key ∧ snap = ⟨key, store.record⟩ := by
  simp [loadTrustState, and_assoc, @eq_comm _ snap]

/-- A commit of a time keeps the pin and the consumed releases. -/
theorem commitIndependentTime_eq_ok {commit : IndependentTimeCommit} :
    store.commitIndependentTime key revision commit = .ok next ↔
      key = store.key ∧ revision = store.revision ∧
      store.trustedTime.floor ≤ commit.nextTrustedTime.floor ∧ store.revision + 1 ≤ u64Max ∧
      next = { store with revision := store.revision + 1,
                          trustedTime := commit.nextTrustedTime } := by
  simp [EphemeralTrustStateStore.commitIndependentTime, advance_eq_ok, and_assoc]

/-- A commit of a selection keeps the independent reference and consumes its release. -/
theorem commitRegistrySelection_eq_ok {commit : RegistrySelectionCommit} :
    store.commitRegistrySelection key revision commit = .ok next ↔
      key = store.key ∧ revision = store.revision ∧
      commit.nextTrustedTime.independentReference = store.trustedTime.independentReference ∧
      (∀ release ∈ commit.replayKey, release ∉ store.consumedReleases) ∧
      store.trustedTime.floor ≤ commit.nextTrustedTime.floor ∧ store.revision + 1 ≤ u64Max ∧
      next = { store with revision := store.revision + 1,
                          trustedTime := commit.nextTrustedTime
                          pinnedHead := some commit.nextHead
                          consumedReleases :=
                            store.consumedReleases ++ commit.replayKey.toList } := by
  have hf : (!commit.replayKey.any store.consumedReleases.contains) = true ↔
      ∀ release ∈ commit.replayKey, release ∉ store.consumedReleases := by
    cases commit.replayKey <;> simp
  simp only [EphemeralTrustStateStore.commitRegistrySelection, ok_iff, checkCas_eq_ok,
    advance_eq_ok, hf]
  constructor
  · rintro ⟨-, ⟨rfl, rfl⟩, -, hr, -, hn, _, ⟨hfl, hm, rfl⟩, rfl⟩
    exact ⟨rfl, rfl, hr, hn, hfl, hm, rfl⟩
  · rintro ⟨rfl, rfl, hr, hn, hfl, hm, rfl⟩
    exact ⟨(), ⟨rfl, rfl⟩, (), hr, (), hn, _, ⟨hfl, hm, rfl⟩, rfl⟩

end Commits

/-- The authorizations one replay has consumed. -/
structure AdminAuthorizationReplay where
  authorizationIds : List AuthorizationId := []
  nonces : List Hash32 := []

/-- What an authorization has to say about its target. -/
structure TargetDescriptor where
  subtype : TrustSubtype
  authorizationObjectHash : ObjectHash
  authorizedCoreHash : Hash32
  organizationId : OrganizationId
  requiredAction : Nat
  eventIssuedAt : Option Int
  adminTargetSubject : Option SubjectId

variable [Crypto]

/-- The certificate is active at the sequence. -/
def requireActive (effectiveFrom : Nat) (revokedFrom : Option Nat) (atSequence : Nat) :
    Except TrustError Unit :=
  ensure (covers effectiveFrom revokedFrom atSequence) .signerInactive

/-! ## 5. What a target demands -/

section

variable (state : PreviousHeadState)

/-- The subject of the admin a change activates (effect 0) or revokes (effect 1). -/
def adminChangeTargetSubject (objectHash : ObjectHash) (effect : Nat)
    (atSequence : Nat) : Except TrustError SubjectId := do
  match effect with
  | 0 =>
    let record ← okOr (state.catalogObject objectHash) .actionMismatch
    match record.value.payload with
    | .authorized (.device fields) _ =>
      ensure (fields.certificateKind = .organizationAdmin) .actionMismatch
      okOr fields.authoritySubjectId .actionMismatch
    | _ => throw .actionMismatch
  | 1 =>
    let certificate ← okOr state.adminCertificates[objectHash]? .actionMismatch
    ensure (certificate.fields.certificateKind = .organizationAdmin
      ∧ certificateActive certificate atSequence) .actionMismatch
    okOr certificate.fields.authoritySubjectId .actionMismatch
  | _ => throw .actionMismatch

/-- Administrators are not revoked this way. -/
def requireNonAdminRevocationTarget (objectHash : ObjectHash) :
    Except TrustError Unit := do
  ensure (!state.adminCertificates.contains objectHash) .actionMismatch
  match state.catalogObject objectHash with
  | none => return ()
  | some record =>
    match record.value.payload with
    | .initialAdminDevice _ => throw .actionMismatch
    | .authorized (.device fields) _ =>
      ensure (fields.certificateKind ≠ .organizationAdmin) .actionMismatch
    | _ => return ()

/-- The action a target needs and, for a change of an admin, the subject it concerns. -/
def requiredAction (core : TrustCore) (atSequence : Nat) :
    Except TrustError (Nat × Option SubjectId) := do
  match core with
  | .root _ => return (6, none)
  | .device fields =>
    if fields.certificateKind = .organizationAdmin then
      let subject ← okOr fields.authoritySubjectId .actionMismatch
      return (5, some subject)
    else return (0, none)
  | .operatorBinding _ => return (4, none)
  | .policy _ => return (2, none)
  | .writerTransition _ => return (3, none)
  | .registryEvent fields =>
    match fields.change with
    | .certificate _ => return (0, none)
    | .target _ objectHash =>
      requireNonAdminRevocationTarget state objectHash
      return (1, none)
    | .policy _ => return (2, none)
    | .writerTransition _ => return (3, none)
    | .operatorBinding _ => return (4, none)
    | .adminCertificate objectHash effect =>
      let subject ← adminChangeTargetSubject state objectHash effect atSequence
      return (5, some subject)
    | .rootCertificate _ => return (6, none)

def describeTarget (payload : TrustPayload) (atSequence : Nat) :
    Except TrustError TargetDescriptor := do
  let .authorized core authorizationObjectHash := payload | throw .actionMismatch
  let (action, subject) ← requiredAction state core atSequence
  return {
    subtype := core.subtype
    authorizationObjectHash
    authorizedCoreHash := Crypto.authorizedTrustDigest core
    organizationId := core.organizationId
    requiredAction := action
    eventIssuedAt := match core with
      | .registryEvent fields => some fields.issuedAt
      | _ => none
    adminTargetSubject := subject }

end

/-! ## 6. Who signed -/

/-- Who an authorization says has signed it. -/
structure AdminSignerClaim where
  organizationId : OrganizationId
  adminCertificateHash : CertificateHash
  adminKeyThumbprint : KeyThumbprint
  adminOperatorBindingObjectHash : ObjectHash

/-- `verify_admin_signer_claim`: the claimed admin holds an active certificate and an active
binding, and signed the object. -/
def verifyAdminSignerClaim (state : PreviousHeadState) (object : TrustObject)
    (claim : AdminSignerClaim) (context : Except CryptoError VerificationContext)
    (atSequence : Nat) : Except TrustError SubjectId := do
  let certificate ← okOr state.adminCertificates[claim.adminCertificateHash]? .signature
  ensure (certificate.fields.organizationId = claim.organizationId
    ∧ certificate.fields.certificateKind = .organizationAdmin
    ∧ certificate.fields.signingKeyThumbprint = some claim.adminKeyThumbprint
    ∧ certificate.fields.capabilities.contains "organizationAdminApprove") .signature
  requireActive certificate.fields.effectiveFromSequence
    certificate.fields.revokedFromSequence atSequence
  let [signature] := object.signatures | throw .signature
  let context ← context.mapError fun _ => .signature
  let signer ← (verifyCoseSign1 signature state.previousHeadResolver context).mapError
    fun _ => .signature
  let subject ← okOr signer.authoritySubjectId .subjectMismatch
  ensure (certificate.fields.authoritySubjectId = some subject) .subjectMismatch
  let binding ← okOr state.adminBindings[claim.adminOperatorBindingObjectHash]? .subjectMismatch
  ensure (binding.fields.organizationId = claim.organizationId
    ∧ binding.fields.operatorRole = .organizationAdmin
    ∧ binding.fields.deviceCertificateHash = claim.adminCertificateHash
    ∧ binding.fields.operatorSubjectId = subject) .subjectMismatch
  requireActive binding.fields.effectiveFromSequence binding.fields.revokedFromSequence atSequence
  return subject

/-- An active administrator has signed, at a bound device. -/
def verifyAuthorizationSigner (state : PreviousHeadState) (authorization : TrustObject)
    (fields : OrganizationAdminAuthorizationFields) (preTransitionSequence : Nat) :
    Except TrustError SubjectId :=
  verifyAdminSignerClaim state authorization
    ⟨fields.organizationId, fields.adminCertificateHash, fields.adminKeyThumbprint,
      fields.adminOperatorBindingObjectHash⟩
    (VerificationContext.organizationAdminTrustDigest authorization.payload)
    preTransitionSequence

/-- The loop of `verify_target_root_signatures`: the certificates ascend strictly. -/
def verifyRootSignatures (state : PreviousHeadState) (context : VerificationContext) :
    Option CertificateHash → List CoseSign1 → Except TrustError Unit
  | _, [] => .ok ()
  | previous, signature :: signatures => do
      let certificateHash ← okOr signature.certificateHash .signature
      ensure (previous.all (· < certificateHash)) .signature
      let _ ← (verifyCoseSign1 signature state.previousHeadResolver context).mapError
        fun _ => .signature
      verifyRootSignatures state context (some certificateHash) signatures

/-- The root has signed what the administrator authorized. -/
def verifyTargetRootSignatures (state : PreviousHeadState) (target : TrustObject)
    (exactAuthorizationObject : Bytes) : Except TrustError Unit := do
  ensure (!target.signatures.isEmpty) .signature
  let context ← (VerificationContext.rootTrustDigest target.payload state.root.objectHash
    (some exactAuthorizationObject)).mapError fun _ => .signature
  verifyRootSignatures state context none target.signatures

/-! ## 7. Authorizations -/

section

variable (state : PreviousHeadState) (authorizationObjectHash : ObjectHash)

/-- The authorization is about this target, now and at this head. -/
def verifyAuthorizationBindsTarget (target : TrustPayload) (authorizationUseTime : Int)
    (preTransitionSequence : Nat) :
    Except TrustError (OrganizationAdminAuthorizationFields × SubjectId) := do
  let record ← okOr (state.catalogObject authorizationObjectHash) .source
  let .organizationAdminAuthorization fields := record.value.payload | throw .actionMismatch
  let descriptor ← describeTarget state target preTransitionSequence
  ensure (descriptor.authorizationObjectHash = authorizationObjectHash
    ∧ descriptor.subtype = fields.targetTrustSubtype
    ∧ descriptor.authorizedCoreHash = fields.authorizedTrustCoreHash
    ∧ descriptor.requiredAction = fields.actionCode
    ∧ descriptor.organizationId = fields.organizationId
    ∧ fields.organizationId = state.root.fields.organizationId
    ∧ fields.registryVersion = state.registryVersion
    ∧ fields.registryHeadHash = state.registryHeadHash
    ∧ descriptor.eventIssuedAt.all (· = authorizationUseTime)) .actionMismatch
  let subject ← verifyAuthorizationSigner state record.value fields preTransitionSequence
  ensure (descriptor.adminTargetSubject ≠ some subject) .selfAuthorization
  ensure (fields.issuedAt ≤ authorizationUseTime) .authNotYetValid
  ensure (authorizationUseTime ≤ fields.expiresAt) .authExpired
  return (fields, subject)

/-- `verify_admin_authorization`; returns the replay extended by the authorization.  A record of
the catalog carries its key, so that comparing its hash with the key cannot fail. -/
def verifyAdminAuthorization (targetObjectHash : ObjectHash) (authorizationUseTime : Int)
    (preTransitionSequence : Nat)
    (replay : AdminAuthorizationReplay) : Except TrustError AdminAuthorizationReplay := do
  let authorization ← okOr (state.catalogObject authorizationObjectHash) .source
  let target ← okOr (state.catalogObject targetObjectHash) .source
  let (fields, _) ← verifyAuthorizationBindsTarget state authorizationObjectHash
    target.value.payload authorizationUseTime preTransitionSequence
  verifyTargetRootSignatures state target.value authorization.exactBytes
  ensure (!replay.authorizationIds.contains fields.authorizationId
    ∧ !replay.nonces.contains fields.nonce) .authReplay
  return ⟨fields.authorizationId :: replay.authorizationIds, fields.nonce :: replay.nonces⟩

end

/-! ## 8. The anchor -/

/-- The root that everything starts from. -/
structure TrustAnchor where
  organizationId : OrganizationId
  chainId : ChainId
  rootPublicCoseKey : PublicCoseKey
  exactRootPublicCoseKey : Bytes
  rootKeyThumbprint : KeyThumbprint
  rootCertificateObjectHash : ObjectHash
  (initialAdminCertificateObjectHashes initialAdminOperatorBindingObjectHashes : List ObjectHash)

/-- The catalog and the first head, verified from the anchor. -/
structure VerifiedTrust where
  organizationId : OrganizationId
  chainId : ChainId
  stateKey : TrustStateKey
  stateRevision : Nat
  trustedTime : TrustedTimeState
  pinnedHead : Option RegistryHeadPin
  catalog : TrustCatalog
  previousHead : PreviousHeadState

/-! ## 9. Bootstrap objects -/

/-- The objects of a subtype that are signed directly, by ascending hash; `select` picks the
payloads of the direct form. -/
def directObjects {α : Type} (catalog : TrustCatalog) (subtype : TrustSubtype)
    (select : TrustPayload → Option α) : List (ObjectHash × α) :=
  (catalog.hashesForSubtype subtype).filterMap fun hash => do
    let record ← catalog.get hash
    let fields ← select record.value.payload
    return (hash, fields)

section

variable (catalog : TrustCatalog)

/-- The root certificates that nobody authorized. -/
def directRoots : List (ObjectHash × RootCertificateFields) :=
  directObjects catalog .rootCertificate fun
    | .initialRoot fields => some fields
    | _ => none

/-- The administrators that nobody authorized. -/
def directAdminCertificates :
    List (ObjectHash × DeviceCertificateFields) :=
  directObjects catalog .deviceCertificate fun
    | .initialAdminDevice fields => some fields
    | _ => none

/-- The bindings that nobody authorized. -/
def directAdminBindings : List (ObjectHash × OperatorBindingFields) :=
  directObjects catalog .operatorBinding fun
    | .initialAdminOperatorBinding fields => some fields
    | _ => none

def onlySignature (object : TrustObject) : Except TrustError CoseSign1 :=
  match object.signatures with
  | [signature] => .ok signature
  | _ => .error .source

def verifyRootAnchorFields (anchor : TrustAnchor) (fields : RootCertificateFields) :
    Except TrustError Unit :=
  ensure (fields.organizationId = anchor.organizationId
    ∧ fields.rootPublicCoseKey = anchor.exactRootPublicCoseKey
    ∧ fields.rootKeyThumbprint = anchor.rootKeyThumbprint
    ∧ fields.previousRootCertificateObjectHash.isNone) .anchorPin

/-- The root has signed the object. -/
def verifyInitialAdminSignature (objectHash : ObjectHash)
    (resolver : SignerCertificateResolver) (rootCertificateHash : CertificateHash) :
    Except TrustError Unit := do
  let record ← okOr (catalog.get objectHash) .anchorPin
  let context ← (VerificationContext.initialAdminTrustDigest record.value.payload
    rootCertificateHash).mapError fun _ => .signature
  let signature ← onlySignature record.value
  let _ ← (verifyCoseSign1 signature resolver context).mapError fun _ => .signature

/-- A bootstrap object is active from sequence zero on. -/
def requireActiveFromGenesis (effectiveFrom : Nat) (revokedFrom : Option Nat) :
    Except TrustError Unit :=
  ensure (effectiveFrom = 0 ∧ revokedFrom.all (0 < ·)) .signerInactive

structure VerifiedAdminCertificate where
  objectHash : ObjectHash
  fields : DeviceCertificateFields
  signingThumbprint : KeyThumbprint
  subject : SubjectId

/-- The certificate is one of an administrator, signed by the root. -/
def verifyAdminCertificate (objectHash : ObjectHash)
    (fields : DeviceCertificateFields) (resolver : SignerCertificateResolver)
    (rootCertificateHash : CertificateHash) (organizationId : OrganizationId) :
    Except TrustError VerifiedAdminCertificate := do
  verifyInitialAdminSignature catalog objectHash resolver rootCertificateHash
  ensure (fields.organizationId = organizationId) .bootstrapPair
  let exactKey ← okOr fields.signingPublicCoseKey .bootstrapPair
  let publicKey ← okOr (Crypto.publicKey exactKey) .bootstrapPair
  ensure (publicKey.isEd25519 ∧ fields.kemPublicCoseKey.isNone ∧ fields.kemKeyThumbprint.isNone)
    .bootstrapPair
  let signingThumbprint ← okOr fields.signingKeyThumbprint .bootstrapPair
  ensure (Crypto.thumbprint publicKey = signingThumbprint
    ∧ fields.capabilities.contains "organizationAdminApprove") .bootstrapPair
  requireActiveFromGenesis fields.effectiveFromSequence fields.revokedFromSequence
  let subject ← okOr fields.authoritySubjectId .subjectMismatch
  return ⟨objectHash, fields, signingThumbprint, subject⟩

/-- The binding is one of an administrator, signed by the root. -/
def verifyAdminBinding (objectHash : ObjectHash)
    (fields : OperatorBindingFields) (resolver : SignerCertificateResolver)
    (rootCertificateHash : CertificateHash) (organizationId : OrganizationId) :
    Except TrustError (Held OperatorBindingFields) := do
  verifyInitialAdminSignature catalog objectHash resolver rootCertificateHash
  ensure (fields.organizationId = organizationId) .bootstrapPair
  requireActiveFromGenesis fields.effectiveFromSequence fields.revokedFromSequence
  return ⟨objectHash, fields⟩

end

/-- The admins are pairwise distinct in key and person; the lists hold what was seen so far. -/
def distinctAdmins (thumbprints : List KeyThumbprint) (subjects : List SubjectId) :
    List VerifiedAdminCertificate → Except TrustError Unit
  | [] => .ok ()
  | certificate :: certificates => do
      ensure (!thumbprints.contains certificate.signingThumbprint) .bootstrapPair
      ensure (!subjects.contains certificate.subject) .subjectMismatch
      distinctAdmins (certificate.signingThumbprint :: thumbprints)
        (certificate.subject :: subjects) certificates

/-- Each binding belongs to an admin of its own, on an account and with an instance key of its
own. -/
def pairBindings (certificates : List VerifiedAdminCertificate) (paired : List CertificateHash)
    (osAccounts : List Hash32) (instanceKeys : List KeyThumbprint) :
    List (Held OperatorBindingFields) → Except TrustError Unit
  | [] => .ok ()
  | binding :: bindings => do
      let fields := binding.fields
      let certificate ← okOr (certificates.find? (·.objectHash = fields.deviceCertificateHash))
        .bootstrapPair
      ensure (!paired.contains fields.deviceCertificateHash) .bootstrapPair
      ensure (certificate.subject = fields.operatorSubjectId) .subjectMismatch
      ensure (!osAccounts.contains fields.osAccountBindingHash
        ∧ !instanceKeys.contains fields.operatorInstanceKeyThumbprint
        ∧ fields.operatorInstanceKeyThumbprint ≠ certificate.signingThumbprint) .bootstrapPair
      pairBindings certificates (fields.deviceCertificateHash :: paired)
        (fields.osAccountBindingHash :: osAccounts)
        (fields.operatorInstanceKeyThumbprint :: instanceKeys) bindings

/-- `validate_admin_pairs`.  As many bindings as admins, each with an admin of its own, leave no
admin without a binding, so that the last comparison of the source cannot fail. -/
def validateAdminPairs (certificates : List VerifiedAdminCertificate)
    (bindings : List (Held OperatorBindingFields)) : Except TrustError Unit := do
  ensure (certificates.length = bindings.length ∧ 2 ≤ certificates.length) .bootstrapPair
  distinctAdmins [] [] certificates
  pairBindings certificates [] [] [] bindings

/-- The root and the first administrators. -/
structure CheckedBootstrapObjects where
  root : ObjectHash × RootCertificateFields
  certificates : List VerifiedAdminCertificate
  bindings : List (Held OperatorBindingFields)

/-- One root, and two administrators with their bindings. -/
def checkBootstrapObjects (anchor : TrustAnchor) (catalog : TrustCatalog) :
    Except TrustError CheckedBootstrapObjects := do
  let roots := directRoots catalog
  let admins := directAdminCertificates catalog
  let bindings := directAdminBindings catalog
  ensure (roots.map Prod.fst = [anchor.rootCertificateObjectHash]
    ∧ admins.map Prod.fst = anchor.initialAdminCertificateObjectHashes
    ∧ bindings.map Prod.fst = anchor.initialAdminOperatorBindingObjectHashes) .anchorPin
  let root ← okOr roots.head? .anchorPin
  verifyRootAnchorFields anchor root.2
  let record ← okOr (catalog.get root.1) .anchorPin
  let signature ← onlySignature record.value
  (verifyInitialRootPop signature anchor.rootPublicCoseKey
    (Crypto.signedPayload (.trust record.value.payload))).mapError fun _ => .signature
  let resolver := bootstrapRootResolver root.1 record.exactBytes
  let certificates ← admins.mapM fun admin =>
    verifyAdminCertificate catalog admin.1 admin.2 resolver root.1 anchor.organizationId
  let checked ← bindings.mapM fun binding =>
    verifyAdminBinding catalog binding.1 binding.2 resolver root.1 anchor.organizationId
  validateAdminPairs certificates checked
  return ⟨root, certificates, checked⟩

/-! ## 10. Verified trust -/

/-- `verify_trust`: the catalog from the anchor on. -/
def verifyTrust (anchor : TrustAnchor) (source : TrustObjectSource)
    (snapshot : TrustStateSnapshot) : Except TrustError VerifiedTrust := do
  ensure (snapshot.key.organizationId = anchor.organizationId) .bootstrapPair
  let catalog ← TrustCatalog.load source
  let checked ← checkBootstrapObjects anchor catalog
  let previousHead ← fromVerifiedBootstrap catalog snapshot.key.organizationId checked.root
    (checked.certificates.map fun certificate => (certificate.objectHash, certificate.fields))
    (checked.bindings.map fun binding => (binding.objectHash, binding.fields))
  return {
    organizationId := anchor.organizationId
    chainId := anchor.chainId
    stateKey := snapshot.key
    stateRevision := snapshot.record.revision
    trustedTime := snapshot.record.trustedTime
    pinnedHead := snapshot.record.pinnedHead
    catalog
    previousHead }

/-- What verified trust takes over from the anchor and from the persisted record. -/
theorem verifyTrust_eq_ok {anchor : TrustAnchor} {src : TrustObjectSource}
    {snap : TrustStateSnapshot} {trust : VerifiedTrust}
    (h : verifyTrust anchor src snap = .ok trust) :
    TrustCatalog.load src = .ok trust.catalog ∧
      trust.organizationId = anchor.organizationId ∧ trust.chainId = anchor.chainId ∧
      trust.stateKey = snap.key ∧ trust.stateRevision = snap.record.revision ∧
      trust.trustedTime = snap.record.trustedTime ∧
      trust.pinnedHead = snap.record.pinnedHead := by
  simp only [verifyTrust, ok_iff] at h
  obtain ⟨-, -, _, hl, _, -, _, -, rfl⟩ := h
  exact ⟨hl, rfl, rfl, rfl, rfl, rfl, rfl⟩

end Einsatzarchiv.Trust
