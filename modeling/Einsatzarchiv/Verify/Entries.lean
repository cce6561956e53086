/-
  File:      Einsatzarchiv/Verify/Entries.lean
  Subject:   The checks of single objects (crate `ea-verify`, `trust_gate.rs`, `historical.rs`,
             `entry.rs` and the helpers of `archive.rs`).

  * `verifiedTrust`, `historicalRegistryHead`: the trust of an inventory and the authority over a
    past sequence of its chain.
  * `entryChainNode`, `transitionClaimHolds`, `verifiedSigner`: what an entry has to show to be
    placed in the chain.
  * `grantPlanFinding`, `orphanGrants`, `confirmReceipt`, `checkpointVerified`: the checks of
    grants, receipts and checkpoints.
-/
import Einsatzarchiv.Archive.Inventory
import Einsatzarchiv.Chain.Rollback
import Einsatzarchiv.Trust.Historical

namespace Einsatzarchiv.Verify

open Lib Format Archive Chain Trust

variable [Crypto]

/-! ## 1. The trust gate -/

/-- The rules of reader key escrows (`reader_key_escrow.rs`), which the trust gate only asks for
a verdict; nothing is assumed about them. -/
class EscrowRules where
  verified : VerifiedTrust → Bool

/-- A verification has no device of its own. -/
def verificationStateKey (organizationId : OrganizationId) : TrustStateKey := ⟨organizationId, 0⟩

def holdsEscrowFamilyObject (catalog : TrustCatalog) : Bool :=
  [TrustSubtype.readerKeyEscrowApproval, .readerKeyEscrow,
    .readerKeyEscrowRecoveryAuthorization].any fun subtype =>
      !(catalog.hashesForSubtype subtype).isEmpty

variable [EscrowRules]

/-- `verify_reader_key_escrows` at the tip of the line: a catalog without escrows has nothing to
verify. -/
def verifyReaderKeyEscrows (trust : VerifiedTrust) : Bool :=
  !holdsEscrowFamilyObject trust.catalog || EscrowRules.verified trust

/-- The trust of the archive, from the anchor on. -/
def verifiedTrust (store : EphemeralTrustStateStore) (key : TrustStateKey) (anchor : TrustAnchor)
    (inventory : ArchiveInventory) : Option VerifiedTrust := do
  let snapshot ← (loadTrustState store key).toOption
  let trust ← (verifyTrust anchor inventory.trustObjectSource snapshot).toOption
  guard (verifyReaderKeyEscrows trust)
  return trust

/-! ## 2. Historical heads -/

section

variable (inventory : ArchiveInventory) (anchor : TrustAnchor)

/-- The head an object names, if the registry has it. -/
def historicalRegistryHead (version : Nat)
    (hash : ObjectHash) (sequence : Nat) : Option HistoricalRegistryAuthority := do
  let key := verificationStateKey anchor.organizationId
  let trust ← verifiedTrust (.new key 0) key anchor inventory
  (verifyHistoricalRegistryAuthority trust version hash sequence).toOption

/-- The head a manifest names, at its sequence. -/
def manifestHead (fields : ManifestCoreFields) : Option HistoricalRegistryAuthority :=
  historicalRegistryHead inventory anchor fields.registryVersion fields.registryHeadHash
    fields.chainSequence

/-- The same, for an object that names no version. -/
def historicalRegistryHeadByHash (hash : ObjectHash) (sequence : Nat) :
    Option HistoricalRegistryAuthority := do
  let event ← inventory.trust.find? (·.objectHash = hash)
  let .authorized (.registryEvent fields) _ := event.value.payload | none
  historicalRegistryHead inventory anchor fields.registryVersion hash sequence

end

/-! ## 3. Entries and stubs -/

/-- The node of a signed manifest, whose object is an entry package or a stub. -/
def chainNode (manifest : SignedManifest) (entryHash : EntryHash) (objectHash : ObjectHash)
    (kind : ChainNodeKind) : ChainNode where
  chainId := manifest.manifest.chainId
  chainSequence := manifest.manifest.chainSequence
  previousEntryHash := manifest.manifest.previousEntryHash
  entryHash := entryHash
  objectHash := objectHash
  writerCertificateHash := manifest.manifest.writerCertificateHash
  writerTransitionEventHash := manifest.manifest.writerTransitionEventHash
  kind := kind
  chainSequence_le := manifest.manifest.chainSequence_le

def entryChainNode (entry : Parsed EntryPackage) : ChainNode :=
  chainNode entry.value.signedManifest entry.value.entryHash entry.objectHash .entryPackage

/-- `destroyed::node`. -/
def stubChainNode (stub : Parsed DestroyedEntryStub) : ChainNode :=
  chainNode stub.value.signedManifest stub.value.entryHash stub.objectHash .destroyedStub

/-- A manifest names a writer transition exactly at the sequence where one takes effect, and then
that one. -/
def transitionClaimHolds (fields : ManifestCoreFields)
    (transition : Option EffectiveWriterTransition) : Bool :=
  match fields.writerTransitionEventHash,
      transition.filter (·.effectiveFromSequence = fields.chainSequence) with
  | none, none => true
  | some hash, some transition =>
    hash = transition.objectHash && fields.previousEntryHash = some transition.previousEntryHash
      && fields.writerCertificateHash = transition.newWriterCertificateHash
  | some _, none | none, some _ => false

/-- What the entry says of a change of writers is what the head says. -/
def writerTransitionClaimHolds (entry : Parsed EntryPackage)
    (selected : HistoricalRegistryAuthority) : Bool :=
  transitionClaimHolds entry.value.signedManifest.manifest selected.effectiveWriterTransition

def writerIsActive (selected : HistoricalRegistryAuthority) (writer : CertificateHash) : Bool :=
  (selected.activeCertificateFields writer).any fun fields => fields.certificateKind = .writer

/-- Why a manifest does not count. -/
inductive ManifestSignatureError
  | signatureInvalid | signerMismatch | signerUnauthorized | unverifiable

def ManifestSignatureError.code : ManifestSignatureError → String
  | .signatureInvalid => "EA-VERIFY-MANIFEST-SIGNATURE-INVALID"
  | .signerMismatch => "EA-VERIFY-MANIFEST-SIGNER-MISMATCH"
  | .signerUnauthorized => "EA-VERIFY-MANIFEST-SIGNER-UNAUTHORIZED"
  | .unverifiable => "EA-VERIFY-MANIFEST-UNVERIFIABLE"

/-- What an error of the signature means for a manifest. -/
def ManifestSignatureError.ofCrypto : CryptoError → ManifestSignatureError
  | .signatureInvalid => .signatureInvalid
  | .signerMismatch => .signerMismatch
  | .signerUnauthorized | .signerUnresolved => .signerUnauthorized
  | _ => .unverifiable

/-- The signature of the writer over a manifest, against a head. -/
def verifyRecord (manifest : SignedManifest) (signature : CoseSign1)
    (selected : HistoricalRegistryAuthority) : Except CryptoError VerifiedSigner := do
  let context ← VerificationContext.record manifest
  verifyCoseSign1 signature selected.resolve context

/-- The writer that signed an entry. -/
def verifiedSigner (entry : Parsed EntryPackage) (selected : HistoricalRegistryAuthority) :
    Except ManifestSignatureError KeyThumbprint := do
  let signer ← (verifyRecord entry.value.signedManifest entry.value.writerSignature
    selected).mapError .ofCrypto
  return signer.keyThumbprint

/-! ## 4. Grant plans -/

def grantPlanMismatchCodeV1 : String := "EA-VERIFY-GRANT-PLAN-MISMATCH"

/-- The recipients of the initial grants of an entry. -/
def planItems (entryHash : EntryHash) (grants : List (Parsed Grant)) : List GrantPlanItem :=
  (grants.map (·.value.grantBody)).filterMap fun fields =>
    if fields.kind = .initial ∧ fields.entryHash = entryHash then
      some ⟨fields.recipientKeyThumbprint, fields.recipientCertificateHash, fields.purpose⟩
    else none

/-- What is wrong with the grants of an entry. -/
def grantPlanFinding (entry : Parsed EntryPackage) (grants : List (Parsed Grant)) :
    Option String :=
  match GrantPlan.new (planItems entry.value.entryHash grants) with
  | .error error => some error.code
  | .ok plan =>
    if Crypto.grantPlanDigest plan ≠
        entry.value.signedManifest.manifest.initialGrantPlanHash then
      some grantPlanMismatchCodeV1
    else none

/-- The grants of no entry and no stub of the inventory. -/
def orphanGrants (inventory : ArchiveInventory) : List ObjectHash :=
  let known := inventory.entries.map (·.value.entryHash)
    ++ inventory.destroyed.map (·.value.entryHash)
  (inventory.grants.filter fun grant => !known.contains grant.value.grantBody.entryHash).map
    (·.objectHash)

/-! ## 5. Receipts -/

/-- Why a receipt does not count. -/
inductive ReceiptGateError
  | bindingMismatch | untrustedTime | receiptSignatureInvalid | checkpointUnverifiable

def ReceiptGateError.code : ReceiptGateError → String
  | .bindingMismatch => "EA-VERIFY-RECEIPT-BINDING-MISMATCH"
  | .untrustedTime => "EA-VERIFY-RECEIPT-UNTRUSTED-TIME"
  | .receiptSignatureInvalid => "EA-VERIFY-RECEIPT-SIGNATURE-INVALID"
  | .checkpointUnverifiable => "EA-VERIFY-CHECKPOINT-UNVERIFIABLE"

/-- The first receipt of an entry. -/
def receiptFor (inventory : ArchiveInventory) (entry : Parsed EntryPackage) :
    Option (Parsed Receipt) :=
  inventory.receipts.find? (·.value.core.entryObjectHash = entry.objectHash)

/-- The receipt says what the entry says. -/
def receiptBindingsHold (entry : Parsed EntryPackage) (receipt : Parsed Receipt) : Bool :=
  let manifest := entry.value.signedManifest.manifest
  let fields := receipt.value.core
  fields.entryHash = entry.value.entryHash && fields.chainSequence = manifest.chainSequence
    && fields.registryVersion = manifest.registryVersion
    && fields.registryHeadHash = manifest.registryHeadHash
    && fields.initialGrantPlanHash = manifest.initialGrantPlanHash

/-- The server that confirmed an entry. -/
def confirmReceipt (inventory : ArchiveInventory) (anchor : TrustAnchor)
    (entry : Parsed EntryPackage) (receipt : Parsed Receipt) :
    Except ReceiptGateError KeyThumbprint := do
  ensure (receiptBindingsHold entry receipt) .bindingMismatch
  let fields := receipt.value.core
  let selected ← okOr (historicalRegistryHead inventory anchor fields.registryVersion
    fields.registryHeadHash fields.chainSequence) .untrustedTime
  (selected.verifyReceipt receipt).mapError fun _ => .untrustedTime
  let context ← (VerificationContext.receipt fields).mapError fun _ => .receiptSignatureInvalid
  let signer ← (verifyCoseSign1 receipt.value.serverSignature selected.resolve
    context).mapError fun _ => .receiptSignatureInvalid
  return signer.keyThumbprint

/-! ## 6. Checkpoints -/

/-- The claim of a standard checkpoint; other evidence makes none. -/
def standardCheckpointClaim (evidence : Parsed EvidenceObject) : Option CheckpointClaim :=
  match evidence.value with
  | .standard fields _ =>
    some ⟨fields.chainId, fields.coveredFromSequence, fields.coveredThroughSequence,
      fields.headEntryHash, evidence.objectHash, fields.coveredThroughSequence_le⟩
  | _ => none

/-- The part of `assess_checkpoints` that authenticates one standard checkpoint. -/
def checkpointVerified (inventory : ArchiveInventory) (anchor : TrustAnchor)
    (fields : CheckpointCoreFields) (evidence : Parsed EvidenceObject) : Bool :=
  (historicalRegistryHeadByHash inventory anchor fields.registryHeadHash
    fields.coveredThroughSequence).any fun head => (head.verifyCheckpoint evidence).isOk

end Einsatzarchiv.Verify
