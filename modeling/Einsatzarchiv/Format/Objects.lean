/-
  File:      Einsatzarchiv/Format/Objects.lean
  Subject:   Trust objects and the six object families of an archive (crate `ea-format`).

  * the field records of the payloads, without the fields no modelled function reads;
  * `TrustCore`: the six payloads an organization admin authorizes, without the authorization;
  * `TrustPayload`, `TrustObject`: the decoded payload and its signatures.
  * `ManifestCoreFields`: the signed position of an entry; its genesis binding and its `u64`
    sequence are part of the type, since no parser lets another value through.
  * `EntryPackage`, `DestroyedEntryStub`, `Grant`, `Receipt`, `EvidenceObject`.
  * `GrantPlan.new`: the plan of the initial recipients of an entry.
  * `ArchiveObject`, `ObjectType`, `Parsed`: a decoded object with its exact bytes and its hash.
  * `exactObjectPrefix` and the raw limits of the families.
-/
import Einsatzarchiv.Lib.Guards
import Einsatzarchiv.Lib.Lists
import Einsatzarchiv.Types

namespace Einsatzarchiv.Format

open Lib

/-! ## 1. Signatures -/

/-- What the payload of a signature is. -/
inductive ContentType
  | recordDigest | grantDigest | receiptDigest | trustDigest | checkpointCbor | evidenceRenewalCbor
  | other
deriving DecidableEq

/-- Which protected headers a signature has. -/
inductive ProtectedProfile
  | normal | initialRoot | enrollment
deriving DecidableEq

/-- A parsed `COSE_Sign1`: what `parse_cose_sign1` returns for bytes it accepts. -/
structure CoseSign1 where
  profile : ProtectedProfile := .normal
  contentType : ContentType
  keyThumbprint : KeyThumbprint
  certificateHash : Option CertificateHash
  (payload signature : Bytes)
  timestampToken : Option Bytes := none

/-! ## 2. Certificates and bindings -/

inductive CertificateKind
  | writer | reader | organizationAdmin | keyApprover | recoveryRecipient | historicalGrantAuthority
  | serverReceipt | deletionAttest
deriving DecidableEq

/-- The roles of the people at a device. -/
inductive OperatorRole
  | writer | reader | organizationAdmin
deriving DecidableEq

/-- A root key and its predecessor. -/
structure RootCertificateFields where
  organizationId : OrganizationId
  rootPublicCoseKey : Bytes
  rootKeyThumbprint : KeyThumbprint
  previousRootCertificateObjectHash : Option ObjectHash
  effectiveFromRegistryVersion : Nat

/-- The keys of a device, its role and what it may do. -/
structure DeviceCertificateFields where
  organizationId : OrganizationId
  deviceId : DeviceId
  certificateKind : CertificateKind
  (signingPublicCoseKey kemPublicCoseKey : Option Bytes)
  (signingKeyThumbprint kemKeyThumbprint : Option KeyThumbprint)
  capabilities : List String
  effectiveFromSequence : Nat
  revokedFromSequence : Option Nat
  authoritySubjectId : Option SubjectId

/-- A person at a device, by the commitment to their profile. -/
structure OperatorBindingFields where
  organizationId : OrganizationId
  operatorSubjectId : OperatorSubjectId
  operatorProfileCommitment : Hash32
  deviceCertificateHash : CertificateHash
  operatorRole : OperatorRole
  osAccountBindingHash : Hash32
  operatorInstanceKeyThumbprint : KeyThumbprint
  effectiveFromSequence : Nat
  revokedFromSequence : Option Nat

/-! ## 3. Registry events and their targets -/

/-- The kinds of trust objects. -/
inductive TrustSubtype
  | rootCertificate | deviceCertificate | operatorBinding | organizationAdminAuthorization
  | registryEvent | policy | writerTransition | grantAuthorization | destructionAuthorization
  | destructionTransition | deletionAttestation | webBundleRelease | webBundleRevocation
  | readerKeyEscrow | readerKeyEscrowApproval | readerKeyEscrowRecoveryAuthorization
deriving DecidableEq

/-- What an administrator has authorized, at which head. -/
structure OrganizationAdminAuthorizationFields where
  authorizationId : AuthorizationId
  organizationId : OrganizationId
  registryVersion : Nat
  registryHeadHash : Hash32
  adminKeyThumbprint : KeyThumbprint
  adminCertificateHash : CertificateHash
  adminOperatorBindingObjectHash : ObjectHash
  actionCode : Nat
  targetTrustSubtype : TrustSubtype
  authorizedTrustCoreHash : Hash32
  (issuedAt expiresAt : Int)
  nonce : Hash32

/-- What an event of the registry changes. -/
inductive RegistryChange
  | certificate (objectHash : ObjectHash)
  | target (targetKind : Nat) (objectHash : ObjectHash)
  | policy (objectHash : ObjectHash)
  | writerTransition (objectHash : ObjectHash)
  | operatorBinding (objectHash : ObjectHash)
  | adminCertificate (objectHash : ObjectHash) (effect : Nat)
  | rootCertificate (objectHash : ObjectHash)
deriving DecidableEq

/-- The discriminant of the change on the wire. -/
def RegistryChange.kind : RegistryChange → Nat
  | .certificate _ => 0
  | .target _ _ => 1
  | .policy _ => 2
  | .writerTransition _ => 3
  | .operatorBinding _ => 4
  | .adminCertificate _ _ => 5
  | .rootCertificate _ => 6

def RegistryChange.isPolicy : RegistryChange → Bool
  | .policy _ => true
  | _ => false

/-- A head of the registry: its predecessor, its change, and when it is valid. -/
structure RegistryEventFields where
  organizationId : OrganizationId
  registryVersion : Nat
  previousRegistryHash : Option Hash32
  (effectiveFromSequence validThroughSequence : Nat)
  (issuedAt notBefore notAfter : Int)
  policyObjectHash : ObjectHash
  change : RegistryChange
  rootKeyThumbprint : KeyThumbprint
deriving DecidableEq

/-- Whether entries may be destroyed, and by which decision. -/
structure RetentionPolicyFields where
  destructionEnabled : Bool
  edsPrivacyDecisionDocumentHash : Option Hash32

structure PolicyFields where
  organizationId : OrganizationId
  policyVersion : Nat
  previousPolicyObjectHash : Option ObjectHash
  (operatingProfile maxRegistryAgeMs maxFutureClockSkewMs registryExpiryBehavior : Nat)
  evidenceMaxDelayMs : Nat
  retentionPolicy : RetentionPolicyFields
  allowedCryptoSuiteIds : List String
  allowedFormatVersions : List Nat
  effectiveFromSequence : Nat

/-- From which sequence on another writer writes. -/
structure WriterTransitionFields where
  organizationId : OrganizationId
  chainId : ChainId
  (oldWriterCertificateHash newWriterCertificateHash : CertificateHash)
  effectiveFromSequence : Nat
  previousEntryHash : EntryHash

/-! ## 4. Grants and destructions -/

/-- Which entries a recipient gets grants for later. -/
structure GrantAuthorizationFields where
  organizationId : OrganizationId
  registryVersion : Nat
  registryHeadHash : Hash32
  authorizationSequence : Nat
  entryHashes : List EntryHash
  recipientKeyThumbprint : KeyThumbprint
  recipientCertificateHash : CertificateHash
  expiresAt : Int

/-- An entry that is to be destroyed. -/
structure DestructionTarget where
  entryHash : EntryHash
  chainSequence : Nat

/-- A destruction with its targets, at a head of the registry. -/
structure DestructionAuthorizationFields where
  destructionId : DestructionId
  organizationId : OrganizationId
  registryVersion : Nat
  registryHeadHash : Hash32
  authorizationSequence : Nat
  targets : List DestructionTarget
  scopeCode : Nat

/-- A step of a destruction and the step before it. -/
structure DestructionTransitionFields where
  destructionId : DestructionId
  destructionAuthorizationObjectHash : ObjectHash
  eventId : EventId
  previousEventObjectHash : Option ObjectHash
  fromState : Option Nat
  toState : Nat

/-- What was removed from one replica. -/
structure DeletionAttestationFields where
  destructionId : DestructionId
  destructionAuthorizationObjectHash : ObjectHash
  replicaId : Id16
  replicaKind : Nat
  removedObjectHashes : List ObjectHash
  result : Nat
  backupExpiryAt : Option Int
  executedAt : Int

/-! ## 5. Payloads and objects -/

/-- The part of an authorized payload that its authorization is computed over. -/
inductive TrustCore
  | root (fields : RootCertificateFields)
  | device (fields : DeviceCertificateFields)
  | operatorBinding (fields : OperatorBindingFields)
  | registryEvent (fields : RegistryEventFields)
  | policy (fields : PolicyFields)
  | writerTransition (fields : WriterTransitionFields)

/-- The kind of an authorized object. -/
def TrustCore.subtype : TrustCore → TrustSubtype
  | .root _ => .rootCertificate
  | .device _ => .deviceCertificate
  | .operatorBinding _ => .operatorBinding
  | .registryEvent _ => .registryEvent
  | .policy _ => .policy
  | .writerTransition _ => .writerTransition

/-- The organization of an authorized object. -/
def TrustCore.organizationId : TrustCore → OrganizationId
  | .root fields | .device fields | .operatorBinding fields | .registryEvent fields
  | .policy fields | .writerTransition fields => fields.organizationId

/-- `DecodedTrustPayloadV1`; the six variants with an authorization are `authorized`.  The
payloads of web bundles and reader key escrows are not read by the modelled functions. -/
inductive TrustPayload
  | initialRoot (fields : RootCertificateFields)
  | initialAdminDevice (fields : DeviceCertificateFields)
  | initialAdminOperatorBinding (fields : OperatorBindingFields)
  | authorized (core : TrustCore) (authorizationObjectHash : ObjectHash)
  | organizationAdminAuthorization (fields : OrganizationAdminAuthorizationFields)
  | grantAuthorization (fields : GrantAuthorizationFields)
  | destructionAuthorization (fields : DestructionAuthorizationFields)
  | destructionTransition (fields : DestructionTransitionFields)
  | deletionAttestation (fields : DeletionAttestationFields)
  | webBundleRelease (exactCore : Bytes)
  | webBundleRevocation (exactCore : Bytes)
  | readerKeyEscrow (exactCore : Bytes)
  | readerKeyEscrowApproval (exactCore : Bytes)
  | readerKeyEscrowRecoveryAuthorization (exactCore : Bytes)

/-- The kind of a trust object, by its payload. -/
def TrustPayload.subtype : TrustPayload → TrustSubtype
  | .initialRoot _ => .rootCertificate
  | .initialAdminDevice _ => .deviceCertificate
  | .initialAdminOperatorBinding _ => .operatorBinding
  | .authorized core _ => core.subtype
  | .organizationAdminAuthorization _ => .organizationAdminAuthorization
  | .grantAuthorization _ => .grantAuthorization
  | .destructionAuthorization _ => .destructionAuthorization
  | .destructionTransition _ => .destructionTransition
  | .deletionAttestation _ => .deletionAttestation
  | .webBundleRelease _ => .webBundleRelease
  | .webBundleRevocation _ => .webBundleRevocation
  | .readerKeyEscrow _ => .readerKeyEscrow
  | .readerKeyEscrowApproval _ => .readerKeyEscrowApproval
  | .readerKeyEscrowRecoveryAuthorization _ => .readerKeyEscrowRecoveryAuthorization

/-- A payload and the signatures over it. -/
structure TrustObject where
  payload : TrustPayload
  signatures : List CoseSign1

def TrustObject.subtype (object : TrustObject) : TrustSubtype := object.payload.subtype

/-! ## 6. Format errors -/

/-- `FormatError`; the error of the CBOR layer is carried by its code. -/
inductive FormatError
  | globalRawLimit
  | eipRawLimit
  | eagRawLimit
  | esrRawLimit
  | ecpRawLimit
  | etbRawLimit
  | edsRawLimit
  | objectPrefix
  | unknownVersion
  | criticalExtension
  | tagMismatch
  | ciphertextLength
  | shape
  | cose
  | duplicate
  | unsorted
  | missingRecovery
  | duplicateRecovery
  | duplicateRecipientKey
  | duplicateRecipientCertificate
  | inventoryDuplicate
  | inventoryPath
  | cbor (code : String)
deriving DecidableEq

/-- The code of an error, as reports name it. -/
def FormatError.code : FormatError → String
  | .globalRawLimit => "EA-FORMAT-GLOBAL-RAW-LIMIT"
  | .eipRawLimit => "EA-FORMAT-EIP-RAW-LIMIT"
  | .eagRawLimit => "EA-FORMAT-EAG-RAW-LIMIT"
  | .esrRawLimit => "EA-FORMAT-ESR-RAW-LIMIT"
  | .ecpRawLimit => "EA-FORMAT-ECP-RAW-LIMIT"
  | .etbRawLimit => "EA-FORMAT-ETB-RAW-LIMIT"
  | .edsRawLimit => "EA-FORMAT-EDS-RAW-LIMIT"
  | .objectPrefix => "EA-FORMAT-PREFIX"
  | .unknownVersion => "EA-FORMAT-UNKNOWN-VERSION"
  | .criticalExtension => "EA-FORMAT-CRITICAL-EXTENSION"
  | .tagMismatch => "EA-FORMAT-TAG-MISMATCH"
  | .ciphertextLength => "EA-FORMAT-CIPHERTEXT-LENGTH"
  | .shape => "EA-FORMAT-SHAPE"
  | .cose => "EA-FORMAT-COSE"
  | .duplicate => "EA-FORMAT-DUPLICATE"
  | .unsorted => "EA-FORMAT-UNSORTED"
  | .missingRecovery => "EA-GRANT-MISSING-RECOVERY"
  | .duplicateRecovery => "EA-GRANT-DUPLICATE-RECOVERY"
  | .duplicateRecipientKey => "EA-GRANT-DUPLICATE-RECIPIENT-KEY"
  | .duplicateRecipientCertificate => "EA-GRANT-DUPLICATE-RECIPIENT-CERTIFICATE"
  | .inventoryDuplicate => "EA-FORMAT-INVENTORY-DUPLICATE"
  | .inventoryPath => "EA-FORMAT-INVENTORY-PATH"
  | .cbor code => code

/-! ## 7. Entries and stubs -/

/-- The signed position of an entry.  Sequence zero names no predecessor and every other
sequence names one. -/
structure ManifestCoreFields where
  organizationId : OrganizationId
  chainId : ChainId
  chainSequence : Nat
  previousEntryHash : Option EntryHash
  writerCertificateHash : CertificateHash
  writerTransitionEventHash : Option ObjectHash
  registryVersion : Nat
  (registryHeadHash initialGrantPlanHash : Hash32)
  nonce : Nat
  chainSequence_le : chainSequence ≤ u64Max := by decide
  genesis_iff : chainSequence = 0 ↔ previousEntryHash = none := by decide
deriving DecidableEq

/-- The manifest of an entry and the hash of its ciphertext. -/
structure SignedManifest where
  manifest : ManifestCoreFields
  ciphertextHash : Hash32
deriving DecidableEq

/-- An entry: manifest, ciphertext and the writer's signature. -/
structure EntryPackage where
  signedManifest : SignedManifest
  ciphertext : Bytes
  writerSignature : CoseSign1

/-- What remains of a destroyed entry.  The carried entry hash and ciphertext hash are compared
by the parser with those of the signed manifest and are not stored a second time. -/
structure DestroyedEntryStub where
  signedManifest : SignedManifest
  writerSignature : CoseSign1
  originalEipObjectHash : ObjectHash
  destructionId : DestructionId
  destructionAuthorizationObjectHash : ObjectHash

/-! ## 8. Grants and grant plans -/

/-- With its entry, or later. -/
inductive GrantKind
  | initial | historical
deriving DecidableEq

/-- For recovery, or for a reader. -/
inductive GrantPurpose
  | recovery | reader
deriving DecidableEq

/-- The order of the wire codes. -/
def GrantPurpose.toCode : GrantPurpose → Nat
  | .recovery => 0
  | .reader => 1

/-- Who may read which entry, and who says so. -/
structure GrantBodyFields where
  organizationId : OrganizationId
  chainId : ChainId
  entryHash : EntryHash
  kind : GrantKind
  purpose : GrantPurpose
  recipientKeyThumbprint : KeyThumbprint
  recipientCertificateHash : CertificateHash
  issuerKeyThumbprint : KeyThumbprint
  issuerCertificateHash : CertificateHash
  registryVersion : Nat
  registryHeadHash : Hash32
  (originalRecoveryGrantObjectHash grantAuthorizationObjectHash : Option ObjectHash)
  (encapsulatedKey wrappedCek : Bytes)

/-- A grant with the signature of its issuer. -/
structure Grant where
  grantBody : GrantBodyFields
  issuerSignature : CoseSign1

/-- A recipient that an entry has to be granted to. -/
structure GrantPlanItem where
  recipientKeyThumbprint : KeyThumbprint
  recipientCertificateHash : CertificateHash
  purpose : GrantPurpose
deriving DecidableEq

/-- The key of `tuple_cmp`. -/
def GrantPlanItem.sortKey (item : GrantPlanItem) : Nat ×ₗ Nat ×ₗ Nat :=
  toLex (item.recipientKeyThumbprint, toLex (item.recipientCertificateHash, item.purpose.toCode))

/-- The loop of `validate_plan_items` over the recipients, with the keys and certificates seen
so far. -/
def validateRecipients (keys certificates : List Nat) :
    List GrantPlanItem → Except FormatError Unit
  | [] => .ok ()
  | item :: items => do
      ensure (!keys.contains item.recipientKeyThumbprint) .duplicateRecipientKey
      ensure (!certificates.contains item.recipientCertificateHash)
        .duplicateRecipientCertificate
      validateRecipients (item.recipientKeyThumbprint :: keys)
        (item.recipientCertificateHash :: certificates) items

/-- A plan has one recovery recipient, and nobody twice. -/
def validatePlanItems (items : List GrantPlanItem) : Except FormatError Unit :=
  match (items.filter fun item => item.purpose = .recovery).length with
  | 0 => .error .missingRecovery
  | 1 => validateRecipients [] [] items
  | _ => .error .duplicateRecovery

/-- `GrantPlanV1::new`: the validated items in their order; the hash of the plan is the digest
of this list. -/
def GrantPlan.new (items : List GrantPlanItem) : Except FormatError (List GrantPlanItem) := do
  validatePlanItems items
  return sortByKey GrantPlanItem.sortKey items

/-- A plan, which only `GrantPlan.new` builds. -/
structure GrantPlan where
  items : List GrantPlanItem
  built : ∃ given, GrantPlan.new given = .ok items

/-! ## 9. Receipts and evidence -/

/-- What the server confirms about an entry. -/
structure ReceiptCoreFields where
  organizationId : OrganizationId
  chainId : ChainId
  chainSequence : Nat
  entryHash : EntryHash
  entryObjectHash : ObjectHash
  previousEntryHash : Option EntryHash
  registryVersion : Nat
  registryHeadHash : Hash32
  policyObjectHash : ObjectHash
  initialGrantPlanHash : Hash32
  initialGrantObjectHashes : List ObjectHash
  acceptedAtServer : Int
  evidenceDueAt : Option Int
  serverKeyThumbprint : KeyThumbprint
  serverCertificateHash : CertificateHash

/-- A receipt with the signature of the server. -/
structure Receipt where
  core : ReceiptCoreFields
  serverSignature : CoseSign1

/-- How far a chain reaches at a time. -/
structure CheckpointCoreFields where
  organizationId : OrganizationId
  chainId : ChainId
  (coveredFromSequence coveredThroughSequence : Nat)
  headEntryHash : EntryHash
  registryHeadHash : Hash32
  issuedAtServer : Int
  previousEvidenceHash : Option ObjectHash
  coveredThroughSequence_le : coveredThroughSequence ≤ u64Max := by decide

/-- What a renewal of evidence covers. -/
structure RenewalCoreFields where
  organizationId : OrganizationId
  chainId : ChainId
  currentEntryHash : EntryHash
  previousRenewalHash : Option ObjectHash
  renewalInputHashes : List Hash32

/-- The response of the time-stamping authority; the rest of the RFC 3161 material is not read. -/
structure Rfc3161EvidenceFields where
  rfc3161ResponseDer : Bytes

/-- `DecodedEvidencePayloadV1`. -/
inductive EvidenceObject
  | standard (core : CheckpointCoreFields) (cose : CoseSign1)
  | timestamp (core : CheckpointCoreFields) (cose : CoseSign1) (evidence : Rfc3161EvidenceFields)
  | renewal (core : RenewalCoreFields) (cose : CoseSign1) (evidence : Rfc3161EvidenceFields)

/-! ## 10. Parsed objects -/

/-- An object with its exact bytes and their hash. -/
structure Parsed (α : Type) where
  value : α
  exactBytes : Bytes
  objectHash : ObjectHash

/-- What `decode_exact_object` distinguishes. -/
inductive ArchiveObject
  | entry (value : EntryPackage)
  | grant (value : Grant)
  | receipt (value : Receipt)
  | evidence (value : EvidenceObject)
  | trust (value : TrustObject)
  | destroyed (value : DestroyedEntryStub)

/-- The families of archive objects. -/
inductive ObjectType
  | entry | grant | receipt | evidence | trust | destroyed
deriving DecidableEq

def ArchiveObject.objectType : ArchiveObject → ObjectType
  | .entry _ => .entry
  | .grant _ => .grant
  | .receipt _ => .receipt
  | .evidence _ => .evidence
  | .trust _ => .trust
  | .destroyed _ => .destroyed

/-! ## 11. Leading bytes and raw limits -/

/-- The number of a family on the wire. -/
def ObjectType.code : ObjectType → UInt8
  | .entry => 1
  | .grant => 2
  | .receipt => 3
  | .evidence => 4
  | .trust => 5
  | .destroyed => 6

/-- `EIP_PREFIX_V1` and its siblings: the first nine bytes of every object of a family. -/
def exactObjectPrefix (kind : ObjectType) : Bytes :=
  [0x85, 0x44, 0x45, 0x41, 0x31, 0, kind.code, 1, 0x80]

def maxArchiveObjectBytesV1 : Nat := 4194304
def eipMaxRawBytesV1 : Nat := 2097152
def eagMaxRawBytesV1 : Nat := 65536
def esrMaxRawBytesV1 : Nat := 65536
def ecpMaxRawBytesV1 : Nat := 4194304
def etbMaxRawBytesV1 : Nat := 4194304
def edsMaxRawBytesV1 : Nat := 262144

end Einsatzarchiv.Format
