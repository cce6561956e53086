/-
  File:      Einsatzarchiv/Crypto.lean
  Subject:   Hashes, decoding and signature verification (crate `ea-crypto`).

  The primitives (hash functions, the decoder, Ed25519, HPKE, AEAD) are the fields of the class
  `Crypto`; nothing is assumed about them here.  What the source builds on top of them is
  translated:

  * `decodeExactObject`: a decoded object with its bytes and its hash;
  * `parseSignerCertificate`, `VerificationContext` and its constructors;
  * `verifyCoseSign1`: the checks between a signature, its certificate and its context.
-/
import Einsatzarchiv.Format.Objects

namespace Einsatzarchiv

open Lib Format

/-! ## 1. The primitives -/

/-- Why a signature is refused. -/
inductive CryptoError
  | invalidCose | signerMismatch | signerUnresolved | signerUnauthorized | signatureInvalid
  | invalidProtocolCore
deriving DecidableEq

inductive PublicCoseKey
  | ed25519 (point : Bytes)
  | x25519 (point : Bytes)

/-- A key that signs. -/
def PublicCoseKey.isEd25519 : PublicCoseKey → Bool
  | .ed25519 _ => true
  | .x25519 _ => false

def PublicCoseKey.isX25519 : PublicCoseKey → Bool
  | .ed25519 _ => false
  | .x25519 _ => true

/-- What a signature is computed over; its payload is a digest, or the encoding itself for
checkpoints. -/
inductive SignedContent
  | record (manifest : SignedManifest)
  | grant (body : GrantBodyFields)
  | receipt (core : ReceiptCoreFields)
  | trust (payload : TrustPayload)
  | checkpoint (core : CheckpointCoreFields)

/-- An entry that the evidence of a destruction names. -/
structure DestructionEvidenceTarget where
  entryHash : EntryHash
  chainSequence : Nat

/-- What an operator has said about themselves, with the salt of its commitment. -/
structure OperatorProfile where
  organizationId : OrganizationId
  operatorSubjectId : OperatorSubjectId
  operatorBindingObjectHash : ObjectHash
  (displayName functionLabel : String)
  salt : Bytes

/-- The validated payload `ea.destruction-evidence`. -/
structure DestructionEvidence where
  registryVersion : Nat
  operator : OperatorProfile
  destructionId : DestructionId
  authorizationObjectHash : ObjectHash
  scopeCode : Nat
  targets : List DestructionEvidenceTarget
  /-- The entries whose execution result is confirmed with code zero. -/
  confirmed : List EntryHash
  stubBindings : List (EntryHash × ObjectHash)
  /-- Replica and deletion attestation, for the replicas whose state names one. -/
  attestations : List (Id16 × ObjectHash)

/-- The primitives the archive is built on. -/
class Crypto where
  objectHash : Bytes → ObjectHash
  decode : Bytes → Except FormatError ArchiveObject
  entryHash : SignedManifest → CoseSign1 → EntryHash
  signedPayload : SignedContent → Bytes
  authorizedTrustDigest : TrustCore → Hash32
  grantPlanDigest : List GrantPlanItem → Hash32
  renewalInputDigest : Bytes → Hash32
  publicKey : Bytes → Option PublicCoseKey
  thumbprint : PublicCoseKey → KeyThumbprint
  verifyWithKey : PublicCoseKey → CoseSign1 → Bool
  /-- Opens the wrapped content key of a grant with a private key. -/
  hpkeOpen : Bytes → GrantBodyFields → Option Bytes
  /-- Opens a ciphertext with a content key under its manifest. -/
  aeadOpen : Bytes → ManifestCoreFields → Bytes → Option Bytes
  destructionEvidence : Bytes → Option DestructionEvidence
  operatorProfileCommitment : OperatorProfile → Hash32

variable [Crypto]

/-- `decode_exact_object`. -/
def decodeExactObject (bytes : Bytes) : Except FormatError (Parsed ArchiveObject) :=
  (Crypto.decode bytes).map fun value => ⟨value, bytes, Crypto.objectHash bytes⟩

/-- The hash by which the chain knows the entry. -/
def Format.EntryPackage.entryHash (entry : EntryPackage) : EntryHash :=
  Crypto.entryHash entry.signedManifest entry.writerSignature

def Format.DestroyedEntryStub.entryHash (stub : DestroyedEntryStub) : EntryHash :=
  Crypto.entryHash stub.signedManifest stub.writerSignature

/-! ## 2. Signer certificates -/

inductive SignerRole
  | writer | reader | organizationAdmin | root | keyApprover | historicalGrantAuthority
  | serverReceipt | deletionAttest | recoveryRecipient
deriving DecidableEq

def Format.CertificateKind.signerRole : CertificateKind → SignerRole
  | .writer => .writer
  | .reader => .reader
  | .organizationAdmin => .organizationAdmin
  | .keyApprover => .keyApprover
  | .recoveryRecipient => .recoveryRecipient
  | .historicalGrantAuthority => .historicalGrantAuthority
  | .serverReceipt => .serverReceipt
  | .deletionAttest => .deletionAttest

omit [Crypto] in
theorem Format.CertificateKind.signerRole_injective : Function.Injective signerRole := by
  intro kind kind' h
  cases kind <;> cases kind' <;> first | rfl | cases h

inductive CertificateCapability
  | initialGrant | historicalGrant | organizationAdminApprove | historicalGrantApprove
  | destructionApprove | serverReceipt | deletionAttest
deriving DecidableEq

def CertificateCapability.asStr : CertificateCapability → String
  | .initialGrant => "initialGrant"
  | .historicalGrant => "historicalGrant"
  | .organizationAdminApprove => "organizationAdminApprove"
  | .historicalGrantApprove => "historicalGrantApprove"
  | .destructionApprove => "destructionApprove"
  | .serverReceipt => "serverReceipt"
  | .deletionAttest => "deletionAttest"

/-- The capability a literal names. -/
def CertificateCapability.ofStr (literal : String) : Option CertificateCapability :=
  [.initialGrant, .historicalGrant, .organizationAdminApprove, .historicalGrantApprove,
    .destructionApprove, .serverReceipt, .deletionAttest].find? fun capability =>
      capability.asStr = literal

/-- What a signature is checked against. -/
structure ParsedSignerCertificate where
  publicKey : Option PublicCoseKey
  organizationId : OrganizationId
  role : SignerRole
  authoritySubjectId : Option SubjectId
  capabilities : List CertificateCapability
  effectiveFromSequence : Nat
  revokedFromSequence : Option Nat

/-- A key that may be absent, but not broken. -/
def signerOptionalPublicKey : Option Bytes → Except CryptoError (Option PublicCoseKey)
  | none => .ok none
  | some bytes => some <$> okOr (Crypto.publicKey bytes) .signerMismatch

/-- Whether a key and its thumbprint, where both are given, belong together. -/
def thumbprintMatches : Option PublicCoseKey → Option KeyThumbprint → Bool
  | some key, some thumbprint => Crypto.thumbprint key = thumbprint
  | _, _ => true

/-- `parse_device_certificate_core`. -/
def parseDeviceCertificateCore (fields : DeviceCertificateFields) :
    Except CryptoError ParsedSignerCertificate := do
  let signingKey ← signerOptionalPublicKey fields.signingPublicCoseKey
  let kemKey ← signerOptionalPublicKey fields.kemPublicCoseKey
  let signingRequired := fields.certificateKind != .recoveryRecipient
  let kemRequired :=
    fields.certificateKind == .reader || fields.certificateKind == .recoveryRecipient
  ensure (signingKey.isSome = signingRequired
    ∧ fields.signingKeyThumbprint.isSome = signingRequired
    ∧ kemKey.isSome = kemRequired
    ∧ fields.kemKeyThumbprint.isSome = kemRequired
    ∧ signingKey.all PublicCoseKey.isEd25519
    ∧ kemKey.all PublicCoseKey.isX25519
    ∧ thumbprintMatches signingKey fields.signingKeyThumbprint
    ∧ thumbprintMatches kemKey fields.kemKeyThumbprint) .signerMismatch
  let capabilities ← okOr (fields.capabilities.mapM CertificateCapability.ofStr) .signerMismatch
  ensure (fields.capabilities.Pairwise (· < ·)) .signerMismatch
  ensure (fields.revokedFromSequence.all (fields.effectiveFromSequence < ·)) .signerMismatch
  ensure ((fields.certificateKind == .organizationAdmin || fields.certificateKind == .keyApprover)
    == fields.authoritySubjectId.isSome) .signerMismatch
  return {
    publicKey := signingKey
    organizationId := fields.organizationId
    role := fields.certificateKind.signerRole
    authoritySubjectId := fields.authoritySubjectId
    capabilities
    effectiveFromSequence := fields.effectiveFromSequence
    revokedFromSequence := fields.revokedFromSequence }

/-- The Ed25519 key of a root certificate, which carries the stored thumbprint. -/
def rootPublicKey (fields : RootCertificateFields) (error : CryptoError) :
    Except CryptoError PublicCoseKey := do
  let key ← okOr (Crypto.publicKey fields.rootPublicCoseKey) error
  ensure (key.isEd25519 ∧ Crypto.thumbprint key = fields.rootKeyThumbprint) error
  return key

/-- `parse_root_certificate_payload`. -/
def parseRootCertificatePayload (fields : RootCertificateFields) :
    Except CryptoError ParsedSignerCertificate := do
  let key ← rootPublicKey fields .signerMismatch
  return {
    publicKey := some key
    organizationId := fields.organizationId
    role := .root
    authoritySubjectId := none
    capabilities := []
    effectiveFromSequence := 0
    revokedFromSequence := none }

/-- `parse_signer_certificate`. -/
def parseSignerCertificate (bytes : Bytes) : Except CryptoError ParsedSignerCertificate := do
  match Crypto.decode bytes with
  | .ok (.trust object) =>
    ensure (!object.signatures.isEmpty) .signerMismatch
    match object.payload with
    | .initialAdminDevice fields =>
      ensure (fields.certificateKind = .organizationAdmin) .signerMismatch
      parseDeviceCertificateCore fields
    | .authorized (.device fields) _ => parseDeviceCertificateCore fields
    | .initialRoot fields =>
      ensure (object.signatures.length = 1
        ∧ fields.previousRootCertificateObjectHash.isNone) .signerMismatch
      parseRootCertificatePayload fields
    | .authorized (.root fields) _ =>
      ensure (object.signatures.length = 1
        ∧ fields.previousRootCertificateObjectHash.isSome) .signerMismatch
      parseRootCertificatePayload fields
    | _ => throw .signerMismatch
  | _ => throw .signerMismatch

variable {certificate : ParsedSignerCertificate}

theorem parseDeviceCertificateCore_eq_ok {fields : DeviceCertificateFields}
    (h : parseDeviceCertificateCore fields = .ok certificate) :
    certificate.role = fields.certificateKind.signerRole ∧
      certificate.authoritySubjectId = fields.authoritySubjectId ∧
      (fields.certificateKind = .keyApprover → fields.authoritySubjectId.isSome = true) := by
  simp only [parseDeviceCertificateCore, ok_iff] at h
  obtain ⟨_, -, _, -, -, -, _, -, -, -, -, -, -, hs, rfl⟩ := h
  refine ⟨rfl, rfl, fun hk => ?_⟩
  rw [hk] at hs
  simpa using hs

/-- A signer that is not the root has the certificate of a device. -/
theorem device_of_parseSignerCertificate {obj : TrustObject} {bytes : Bytes}
    (hd : Crypto.decode bytes = .ok (.trust obj))
    (h : parseSignerCertificate bytes = .ok certificate) (hro : certificate.role ≠ .root) :
    ∃ fields, (obj.payload = .initialAdminDevice fields ∨
        ∃ auth, obj.payload = .authorized (.device fields) auth) ∧
      parseDeviceCertificateCore fields = .ok certificate := by
  have hr : ∀ fields, parseRootCertificatePayload fields ≠ .ok certificate := by
    intro fields hf
    simp only [parseRootCertificatePayload, ok_iff] at hf
    obtain ⟨_, -, rfl⟩ := hf
    exact hro rfl
  simp only [parseSignerCertificate, hd, bind_eq_ok] at h
  obtain ⟨-, -, h⟩ := h
  cases hp : obj.payload with
  | initialAdminDevice fields =>
    simp only [hp, bind_eq_ok] at h
    obtain ⟨-, -, h⟩ := h
    exact ⟨fields, .inl rfl, h⟩
  | authorized core auth =>
    cases core with
    | device fields => exact ⟨fields, .inr ⟨auth, rfl⟩, by simpa only [hp] using h⟩
    | root fields =>
      simp only [hp, bind_eq_ok] at h
      exact (hr fields h.choose_spec.2).elim
    | _ => simp [hp] at h
  | initialRoot fields =>
    simp only [hp, bind_eq_ok] at h
    exact (hr fields h.choose_spec.2).elim
  | _ => simp [hp] at h

/-- `validate_signer_certificate`. -/
def validateSignerCertificate (bytes : Bytes) : Except CryptoError Unit := do
  let _ ← parseSignerCertificate bytes

/-! ## 3. Verification contexts -/

/-- Everything a signature has to agree with. -/
structure VerificationContext where
  contentType : ContentType
  exactPayload : Bytes
  expectedCertificateHash : CertificateHash
  expectedKeyThumbprint : Option KeyThumbprint
  expectedOrganizationId : OrganizationId
  expectedSequence : Option Nat
  expectedRole : SignerRole
  expectedCapability : Option CertificateCapability
  requireAcceptedRootLine : Bool
  registry : Nat

namespace VerificationContext

/-- The writer's signature over an entry. -/
def record (manifest : SignedManifest) : Except CryptoError VerificationContext :=
  .ok {
    contentType := .recordDigest
    exactPayload := Crypto.signedPayload (.record manifest)
    expectedCertificateHash := manifest.manifest.writerCertificateHash
    expectedKeyThumbprint := none
    expectedOrganizationId := manifest.manifest.organizationId
    expectedSequence := some manifest.manifest.chainSequence
    expectedRole := .writer
    expectedCapability := none
    requireAcceptedRootLine := false
    registry := manifest.manifest.registryVersion }

/-- The context of a grant body, by the kind, the role and the capability its issuer needs. -/
def grant (kind : GrantKind) (role : SignerRole) (capability : CertificateCapability)
    (body : GrantBodyFields) (sequence : Nat) : Except CryptoError VerificationContext := do
  ensure (body.kind = kind ∧ (kind = .historical → body.purpose = .reader))
    .invalidProtocolCore
  ensure (match kind with
    | .initial => body.originalRecoveryGrantObjectHash.isNone
        && body.grantAuthorizationObjectHash.isNone
    | .historical => body.originalRecoveryGrantObjectHash.isSome
        && body.grantAuthorizationObjectHash.isSome) .invalidProtocolCore
  return {
    contentType := .grantDigest
    exactPayload := Crypto.signedPayload (.grant body)
    expectedCertificateHash := body.issuerCertificateHash
    expectedKeyThumbprint := some body.issuerKeyThumbprint
    expectedOrganizationId := body.organizationId
    expectedSequence := some sequence
    expectedRole := role
    expectedCapability := some capability
    requireAcceptedRootLine := false
    registry := body.registryVersion }

/-- The writer's signature over a grant. -/
def initialGrant : GrantBodyFields → Nat → Except CryptoError VerificationContext :=
  grant .initial .writer .initialGrant

/-- The signature over a grant that is issued later. -/
def historicalGrant : GrantBodyFields → Nat → Except CryptoError VerificationContext :=
  grant .historical .historicalGrantAuthority .historicalGrant

/-- The server's signature over a receipt. -/
def receipt (core : ReceiptCoreFields) : Except CryptoError VerificationContext :=
  .ok {
    contentType := .receiptDigest
    exactPayload := Crypto.signedPayload (.receipt core)
    expectedCertificateHash := core.serverCertificateHash
    expectedKeyThumbprint := some core.serverKeyThumbprint
    expectedOrganizationId := core.organizationId
    expectedSequence := some core.chainSequence
    expectedRole := .serverReceipt
    expectedCapability := some .serverReceipt
    requireAcceptedRootLine := false
    registry := core.registryVersion }

/-- The server's signature over a checkpoint. -/
def checkpoint (core : CheckpointCoreFields) (serverCertificateHash : CertificateHash)
    (registry : Nat) : Except CryptoError VerificationContext :=
  .ok {
    contentType := .checkpointCbor
    exactPayload := Crypto.signedPayload (.checkpoint core)
    expectedCertificateHash := serverCertificateHash
    expectedKeyThumbprint := none
    expectedOrganizationId := core.organizationId
    expectedSequence := some core.coveredThroughSequence
    expectedRole := .serverReceipt
    expectedCapability := some .serverReceipt
    requireAcceptedRootLine := false
    registry }

/-- Which kinds of objects an action of an administrator may authorize. -/
def adminActionPermitsTarget (action : Nat) (target : TrustSubtype) : Bool :=
  match action, target with
  | 0, .deviceCertificate | 0, .registryEvent | 1, .registryEvent | 2, .policy | 2, .registryEvent
  | 3, .writerTransition | 3, .registryEvent | 4, .operatorBinding | 4, .registryEvent
  | 5, .deviceCertificate | 5, .registryEvent | 6, .rootCertificate | 6, .registryEvent => true
  | _, _ => false

/-- The shape of an authorization: a known action for its target and a period. -/
def adminAuthorizationShape (fields : OrganizationAdminAuthorizationFields) : Bool :=
  adminActionPermitsTarget fields.actionCode fields.targetTrustSubtype
    && fields.issuedAt < fields.expiresAt

/-- Administrators are certified by an action of their own. -/
def adminActionPermitsDeviceCertificate (action : Nat) (role : SignerRole) : Bool :=
  match action with
  | 0 => role ≠ .organizationAdmin
  | 5 => role = .organizationAdmin
  | _ => false

/-- The event is the next one after the head that was authorized. -/
def registryEventFollowsAuthorization (event : RegistryEventFields)
    (authorization : OrganizationAdminAuthorizationFields) : Bool :=
  checkedAdd authorization.registryVersion 1 = some event.registryVersion
    && match event.registryVersion with
      | 0 => false
      | 1 => authorization.registryVersion = 0 && authorization.registryHeadHash = 0
          && event.previousRegistryHash.isNone
      | _ => event.previousRegistryHash = some authorization.registryHeadHash

/-- What `root_trust_bindings` reads from the core: the sequence it takes effect at, if any,
once the authorization permits it. -/
def rootTrustSequence (core : TrustCore) (rootCertificateHash : CertificateHash)
    (authorization : OrganizationAdminAuthorizationFields) :
    Except CryptoError (Option Nat) := do
  match core with
  | .registryEvent event =>
    ensure (registryEventFollowsAuthorization event authorization
      ∧ authorization.actionCode = event.change.kind) .invalidProtocolCore
    return some event.effectiveFromSequence
  | .device fields =>
    let certificate ← parseDeviceCertificateCore fields
    ensure (adminActionPermitsDeviceCertificate authorization.actionCode certificate.role)
      .invalidProtocolCore
    return some fields.effectiveFromSequence
  | .operatorBinding fields =>
    ensure (fields.revokedFromSequence.all (fields.effectiveFromSequence < ·))
      .invalidProtocolCore
    return some fields.effectiveFromSequence
  | .policy fields | .writerTransition fields => return some fields.effectiveFromSequence
  | .root fields =>
    let _ ← rootPublicKey fields .invalidProtocolCore
    ensure (fields.previousRootCertificateObjectHash = some rootCertificateHash)
      .invalidProtocolCore
    return none

/-- `root_trust_digest`; the authorization is the exact object the payload names. -/
def rootTrustDigest (payload : TrustPayload) (rootCertificateHash : CertificateHash)
    (exactAdminAuthorizationObject : Option Bytes) :
    Except CryptoError VerificationContext := do
  let .authorized core authorizationHash := payload | throw .invalidProtocolCore
  let authorization ← okOr exactAdminAuthorizationObject .invalidProtocolCore
  ensure (authorizationHash = Crypto.objectHash authorization) .invalidProtocolCore
  let .ok (.trust object) := Crypto.decode authorization | throw .invalidProtocolCore
  let .organizationAdminAuthorization fields := object.payload | throw .invalidProtocolCore
  ensure (adminAuthorizationShape fields ∧ object.signatures.length = 1) .invalidProtocolCore
  let sequence ← rootTrustSequence core rootCertificateHash fields
  ensure (fields.targetTrustSubtype = core.subtype
    ∧ fields.authorizedTrustCoreHash = Crypto.authorizedTrustDigest core
    ∧ fields.organizationId = core.organizationId) .invalidProtocolCore
  return {
    contentType := .trustDigest
    exactPayload := Crypto.signedPayload (.trust payload)
    expectedCertificateHash := rootCertificateHash
    expectedKeyThumbprint := none
    expectedOrganizationId := core.organizationId
    expectedSequence := sequence
    expectedRole := .root
    expectedCapability := none
    requireAcceptedRootLine := true
    registry := fields.registryVersion }

/-- `initial_admin_trust_bindings`. -/
def initialAdminTrustBindings : TrustPayload → Except CryptoError (OrganizationId × Nat)
  | .initialAdminDevice fields => do
      let _ ← (parseDeviceCertificateCore fields).mapError fun _ => .invalidProtocolCore
      ensure (fields.certificateKind = .organizationAdmin) .invalidProtocolCore
      return (fields.organizationId, fields.effectiveFromSequence)
  | .initialAdminOperatorBinding fields => do
      ensure (fields.operatorRole = .organizationAdmin
        ∧ fields.revokedFromSequence.all (fields.effectiveFromSequence < ·))
        .invalidProtocolCore
      return (fields.organizationId, fields.effectiveFromSequence)
  | _ => throw .invalidProtocolCore

section

variable (payload : TrustPayload)

/-- The root's signature over the first administrator. -/
def initialAdminTrustDigest (rootCertificateHash : CertificateHash) :
    Except CryptoError VerificationContext := do
  let (organizationId, sequence) ← initialAdminTrustBindings payload
  return {
    contentType := .trustDigest
    exactPayload := Crypto.signedPayload (.trust payload)
    expectedCertificateHash := rootCertificateHash
    expectedKeyThumbprint := none
    expectedOrganizationId := organizationId
    expectedSequence := some sequence
    expectedRole := .root
    expectedCapability := none
    requireAcceptedRootLine := true
    registry := 0 }

/-- An administrator's signature over an authorization. -/
def organizationAdminTrustDigest :
    Except CryptoError VerificationContext := do
  let .organizationAdminAuthorization fields := payload | throw .invalidProtocolCore
  ensure (adminAuthorizationShape fields) .invalidProtocolCore
  return {
    contentType := .trustDigest
    exactPayload := Crypto.signedPayload (.trust payload)
    expectedCertificateHash := fields.adminCertificateHash
    expectedKeyThumbprint := some fields.adminKeyThumbprint
    expectedOrganizationId := fields.organizationId
    expectedSequence := none
    expectedRole := .organizationAdmin
    expectedCapability := some .organizationAdminApprove
    requireAcceptedRootLine := false
    registry := fields.registryVersion }

section

variable (certificateHash : CertificateHash)

/-- The context of one signature of an operation: the operation fixes the organization, the
sequence and the registry, the signature names its certificate. -/
def operation (organizationId : OrganizationId) (sequence : Nat) (role : SignerRole)
    (capability : CertificateCapability) (registry : Nat) : VerificationContext where
  contentType := .trustDigest
  exactPayload := Crypto.signedPayload (.trust payload)
  expectedCertificateHash := certificateHash
  expectedKeyThumbprint := none
  expectedOrganizationId := organizationId
  expectedSequence := some sequence
  expectedRole := role
  expectedCapability := some capability
  requireAcceptedRootLine := false
  registry := registry

/-- An approver's signature over a grant authorization. -/
def historicalGrantApprovalTrustDigest : Except CryptoError VerificationContext := do
  let .grantAuthorization fields := payload | throw .invalidProtocolCore
  return operation payload certificateHash fields.organizationId fields.authorizationSequence
    .keyApprover .historicalGrantApprove fields.registryVersion

/-- An approver's signature over a destruction. -/
def destructionApprovalTrustDigest : Except CryptoError VerificationContext := do
  let .destructionAuthorization fields := payload | throw .invalidProtocolCore
  return operation payload certificateHash fields.organizationId fields.authorizationSequence
    .keyApprover .destructionApprove fields.registryVersion

end

end

/-- `destruction_authorization_object_bindings`: the authorization of a destruction, which
carries exactly two signatures. -/
def destructionAuthorizationObject (bytes : Bytes) :
    Except CryptoError DestructionAuthorizationFields := do
  let .ok (.trust object) := Crypto.decode bytes | throw .invalidProtocolCore
  let .destructionAuthorization fields := object.payload | throw .invalidProtocolCore
  ensure (object.signatures.length = 2) .invalidProtocolCore
  return fields

section

variable (payload : TrustPayload)

/-- The context of a step of a destruction, by the destruction and the authorization its payload
names. -/
def destructionStep (destructionId : DestructionId)
    (authorizationObjectHash : ObjectHash) (exactDestructionAuthorizationObject : Bytes)
    (certificateHash : CertificateHash) : Except CryptoError VerificationContext := do
  let authorization ← destructionAuthorizationObject exactDestructionAuthorizationObject
  ensure (destructionId = authorization.destructionId
    ∧ authorizationObjectHash = Crypto.objectHash exactDestructionAuthorizationObject)
    .invalidProtocolCore
  return operation payload certificateHash authorization.organizationId
    authorization.authorizationSequence .deletionAttest .deletionAttest
    authorization.registryVersion

/-- The signature over a deletion, bound to the authorization. -/
def deletionAttestationTrustDigest (exactDestructionAuthorizationObject : Bytes)
    (certificateHash : CertificateHash) :
    Except CryptoError VerificationContext := do
  let .deletionAttestation fields := payload | throw .invalidProtocolCore
  destructionStep payload fields.destructionId fields.destructionAuthorizationObjectHash
    exactDestructionAuthorizationObject certificateHash

/-- The signature over a step of a destruction, bound to the authorization. -/
def destructionTransitionTrustDigest (exactDestructionAuthorizationObject : Bytes)
    (certificateHash : CertificateHash) :
    Except CryptoError VerificationContext := do
  let .destructionTransition fields := payload | throw .invalidProtocolCore
  destructionStep payload fields.destructionId fields.destructionAuthorizationObjectHash
    exactDestructionAuthorizationObject certificateHash

end

end VerificationContext

/-! ## 4. Verification -/

/-- A certificate and what the registry says about it. -/
structure ResolvedSigner where
  exactCertificateBytes : Bytes
  registryEffectiveFromSequence : Nat
  registryRevokedFromSequence : Option Nat
  (registryRevoked rootLineAccepted : Bool)

/-- `SignerCertificateResolver`: the certificate under a hash at a registry version. -/
abbrev SignerCertificateResolver :=
  CertificateHash → Nat → Except CryptoError ResolvedSigner

structure VerifiedSigner where
  certificateHash : CertificateHash
  keyThumbprint : KeyThumbprint
  role : SignerRole
  organizationId : OrganizationId
  authoritySubjectId : Option SubjectId

/-- Whether a certificate does not cover the expected sequence, by its own fields or by the
registry. -/
def signerInactive (context : VerificationContext) (certificate : ParsedSignerCertificate)
    (resolved : ResolvedSigner) : Bool :=
  context.expectedSequence.any fun sequence =>
    sequence < certificate.effectiveFromSequence
      || sequence < resolved.registryEffectiveFromSequence
      || certificate.revokedFromSequence.any (· ≤ sequence)
      || resolved.registryRevokedFromSequence.any (· ≤ sequence)

/-- `verify_cose_sign1`. -/
def verifyCoseSign1 (cose : CoseSign1) (resolver : SignerCertificateResolver)
    (context : VerificationContext) : Except CryptoError VerifiedSigner := do
  ensure (cose.profile = .normal ∧ cose.contentType = context.contentType) .invalidCose
  ensure (cose.payload = context.exactPayload) .signerMismatch
  let certificateHash ← okOr cose.certificateHash .invalidCose
  ensure (certificateHash = context.expectedCertificateHash
    ∧ context.expectedKeyThumbprint.all (· = cose.keyThumbprint)) .signerMismatch
  let resolved ← resolver certificateHash context.registry
  ensure (Crypto.objectHash resolved.exactCertificateBytes = certificateHash) .signerMismatch
  let certificate ← parseSignerCertificate resolved.exactCertificateBytes
  let publicKey ← okOr certificate.publicKey .signerUnauthorized
  ensure (Crypto.thumbprint publicKey = cose.keyThumbprint) .signerMismatch
  ensure (certificate.organizationId = context.expectedOrganizationId
    ∧ certificate.role = context.expectedRole
    ∧ !resolved.registryRevoked
    ∧ !signerInactive context certificate resolved
    ∧ context.expectedCapability.all (certificate.capabilities.contains ·)
    ∧ (context.requireAcceptedRootLine → resolved.rootLineAccepted)) .signerUnauthorized
  ensure (Crypto.verifyWithKey publicKey cose) .signatureInvalid
  return {
    certificateHash
    keyThumbprint := cose.keyThumbprint
    role := certificate.role
    organizationId := certificate.organizationId
    authoritySubjectId := certificate.authoritySubjectId }

/-- `verify_initial_root_pop`. -/
def verifyInitialRootPop (cose : CoseSign1) (rootKey : PublicCoseKey) (expectedPayload : Bytes) :
    Except CryptoError Unit := do
  ensure (cose.profile = .initialRoot ∧ cose.payload = expectedPayload) .invalidCose
  ensure (Crypto.verifyWithKey rootKey cose) .signatureInvalid

end Einsatzarchiv
