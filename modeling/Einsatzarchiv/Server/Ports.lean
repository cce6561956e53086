/-
  File:      Einsatzarchiv/Server/Ports.lean
  Subject:   What the services of the server sign and call (crate `ea-sync-server`, `receipt.rs`,
             `checkpoint.rs`, `ports.rs` and `models.rs`; crate `ea-format`, `esr.rs`, `ecp.rs`
             and `parser.rs`; application `server`, `s3.rs`).

  * `ServerSigner`, `ObjectBodies`: the key of the server, and the encodings of the two bodies.
  * `encodeObject`: a body behind the leading bytes of its family, within its limit.
  * `buildReceipt`, `exactReceiptBytes`, `buildCheckpoint`.
  * `IsCheckpoint`: what a checkpoint of the server says about its sequence and its predecessor.
  * `ServerState`: the clock, the trust of the organizations, the object store, the tables and
    the recorded events.
  * `stageStream`, `putIfAbsent`, `getExact`: the object store.
  * `Port`, `Port.Reply`, `ports`: every call of a service as one operation; an adapter that
    does not answer leaves the state as it is.
  * `Grows`: the tables and the store lose nothing.
-/
import Einsatzarchiv.Lib.Programs
import Einsatzarchiv.Server.Validation

namespace Einsatzarchiv.Server

open Lib Format

section

/-! ## 1. The key and the encodings -/

/-- `ServerSigner`: the key of the server, which signs receipts and checkpoints. -/
class ServerSigner where
  certificateHash : CertificateHash
  keyThumbprint : KeyThumbprint
  signReceipt : ReceiptCoreFields → Except CryptoError CoseSign1
  signCheckpoint : CheckpointCoreFields → Except CryptoError CoseSign1

/-- The encodings of a receipt and of an evidence object, signatures included. -/
class ObjectBodies where
  receipt : Receipt → Bytes
  evidence : EvidenceObject → Bytes

/-- The raw limit of a family, and what `encode_object` reports beyond it. -/
def familyLimit : ObjectType → Nat × FormatError
  | .entry => (eipMaxRawBytesV1, .eipRawLimit)
  | .grant => (eagMaxRawBytesV1, .eagRawLimit)
  | .receipt => (esrMaxRawBytesV1, .esrRawLimit)
  | .evidence => (ecpMaxRawBytesV1, .ecpRawLimit)
  | .trust => (etbMaxRawBytesV1, .etbRawLimit)
  | .destroyed => (edsMaxRawBytesV1, .edsRawLimit)

/-- An object of a family, within its limit. -/
def encodeObject [Cbor.TextRules] (kind : ObjectType) (body : Bytes) :
    Except FormatError Bytes := do
  let exact := exactObjectPrefix kind ++ body
  ensure (exact.length ≤ maxArchiveObjectBytesV1) .globalRawLimit
  ensure (exact.length ≤ (familyLimit kind).1) (familyLimit kind).2
  (Cbor.validate exact .v1).mapError fun error => .cbor error.code
  return exact

/-! ## 2. Receipts -/

/-- Why no receipt is built. -/
inductive ReceiptError
  | grantHashes | evidenceOverflow | shape | signature | readBack

/-- What an error of the format means for a receipt. -/
def ReceiptError.ofFormat : FormatError → ReceiptError
  | .duplicate | .unsorted => .grantHashes
  | .cose => .signature
  | _ => .shape

structure ReceiptBinding where
  organizationId : OrganizationId
  chainId : ChainId
  chainSequence : Nat
  entryHash : EntryHash
  entryObjectHash : ObjectHash
  previousEntryHash : Option EntryHash
  registryVersion : Nat
  registryHeadHash : Hash32
  policyObjectHash : ObjectHash
  initialGrantPlanHash : Hash32
  initialGrantObjectHashes : List ObjectHash

/-- The time of the server, but never before the predecessor. -/
def acceptedAt (serverNow : Int) : Option Int → Int
  | none => serverNow
  | some previous => if previous > serverNow then previous else serverNow

/-- `EVIDENCE_GRADE_OPERATING_PROFILE_V1`. -/
def evidenceGradeOperatingProfileV1 : Nat := 1

/-- When evidence is due, in the profile that asks for it. -/
def evidenceDueAt (policy : PolicyFields) (acceptedAtServer : Int) :
    Except ReceiptError (Option Int) := do
  if policy.operatingProfile ≠ evidenceGradeOperatingProfileV1 then
    return none
  else
    ensure (policy.evidenceMaxDelayMs ≤ i64Max) .evidenceOverflow
    ensure (acceptedAtServer + policy.evidenceMaxDelayMs ≤ i64Max) .evidenceOverflow
    return some (acceptedAtServer + policy.evidenceMaxDelayMs)

/-- The grants of an entry, sorted; at least one, and none twice. -/
def sortedGrantObjectHashes (hashes : List ObjectHash) : Except ReceiptError (List ObjectHash) := do
  ensure (!hashes.isEmpty) .grantHashes
  let sorted := sortByKey id hashes
  ensure ((windows2 sorted).all fun pair => pair.1 ≠ pair.2) .grantHashes
  return sorted

/-- The order of two neighbours among the hashes of the grants of a receipt. -/
def validateNeighbours (pair : ObjectHash × ObjectHash) : Except FormatError Unit := do
  ensure (pair.1 ≠ pair.2) .duplicate
  ensure (pair.1 < pair.2) .unsorted

/-- `validate_receipt_fields`. -/
def validateReceiptFields (fields : ReceiptCoreFields) : Except FormatError Unit := do
  ensure (!fields.initialGrantObjectHashes.isEmpty
    ∧ decide (fields.chainSequence = 0) = fields.previousEntryHash.isNone) .shape
  forM (windows2 fields.initialGrantObjectHashes) validateNeighbours

variable [Crypto]

/-- `ReceiptV1::new`. -/
def newReceipt (core : ReceiptCoreFields) (signature : CoseSign1) :
    Except FormatError Receipt := do
  ensure (signature.contentType = .receiptDigest
    ∧ signature.keyThumbprint = core.serverKeyThumbprint
    ∧ signature.certificateHash = some core.serverCertificateHash
    ∧ signature.payload = Crypto.signedPayload (.receipt core)) .cose
  return ⟨core, signature⟩

variable [ServerSigner]

/-- The core of the receipt for a binding. -/
def receiptCore (binding : ReceiptBinding) (grants : List ObjectHash) (acceptedAtServer : Int)
    (evidenceDueAt : Option Int) : ReceiptCoreFields where
  organizationId := binding.organizationId
  chainId := binding.chainId
  chainSequence := binding.chainSequence
  entryHash := binding.entryHash
  entryObjectHash := binding.entryObjectHash
  previousEntryHash := binding.previousEntryHash
  registryVersion := binding.registryVersion
  registryHeadHash := binding.registryHeadHash
  policyObjectHash := binding.policyObjectHash
  initialGrantPlanHash := binding.initialGrantPlanHash
  initialGrantObjectHashes := grants
  acceptedAtServer := acceptedAtServer
  evidenceDueAt := evidenceDueAt
  serverKeyThumbprint := ServerSigner.keyThumbprint
  serverCertificateHash := ServerSigner.certificateHash

/-- The receipt is checked, signed and checked again. -/
def buildReceipt (binding : ReceiptBinding) (policy : PolicyFields) (acceptedAtServer : Int) :
    Except ReceiptError Receipt := do
  let grants ← sortedGrantObjectHashes binding.initialGrantObjectHashes
  let dueAt ← evidenceDueAt policy acceptedAtServer
  let core := receiptCore binding grants acceptedAtServer dueAt
  (validateReceiptFields core).mapError .ofFormat
  let signature ← (ServerSigner.signReceipt core).mapError fun _ => .signature
  (newReceipt core signature).mapError .ofFormat

def exactReceiptBytes [Cbor.TextRules] [ObjectBodies] (receipt : Receipt) :
    Except ReceiptError Bytes :=
  (encodeObject .receipt (ObjectBodies.receipt receipt)).mapError .ofFormat

/-! ## 3. Checkpoints -/

/-- Why no checkpoint is built. -/
inductive CheckpointError
  | shape | signature | readBack | predecessorConflict

/-- What an error of the format means for a checkpoint. -/
def CheckpointError.ofFormat : FormatError → CheckpointError
  | .cose => .signature
  | _ => .shape

/-- `CheckpointBindingV1`; its sequence is a `u64`. -/
structure CheckpointBinding where
  organizationId : OrganizationId
  chainId : ChainId
  coveredSequence : Nat
  headEntryHash : EntryHash
  registryHeadHash : Hash32
  previousEvidenceHash : Option ObjectHash
  coveredSequence_le : coveredSequence ≤ u64Max

/-- A checkpoint with its bytes and their hash. -/
structure StandardCheckpoint where
  core : CheckpointCoreFields
  exactBytes : Bytes
  objectHash : ObjectHash

def checkpointCore (binding : CheckpointBinding) (issuedAtServer : Int) :
    CheckpointCoreFields where
  organizationId := binding.organizationId
  chainId := binding.chainId
  coveredFromSequence := binding.coveredSequence
  coveredThroughSequence := binding.coveredSequence
  headEntryHash := binding.headEntryHash
  registryHeadHash := binding.registryHeadHash
  issuedAtServer := issuedAtServer
  previousEvidenceHash := binding.previousEvidenceHash
  coveredThroughSequence_le := binding.coveredSequence_le

/-- `EvidenceObjectV1::standard`. -/
def standardEvidence (core : CheckpointCoreFields) (signature : CoseSign1) :
    Except FormatError EvidenceObject := do
  ensure (signature.contentType = .checkpointCbor
    ∧ signature.payload = Crypto.signedPayload (.checkpoint core)
    ∧ signature.timestampToken.isNone) .cose
  return .standard core signature

variable [Cbor.TextRules] [ObjectBodies] {checkpoint : StandardCheckpoint}
  {binding : CheckpointBinding} {issuedAtServer : Int}

/-- The checkpoint is signed and encoded. -/
def buildCheckpoint (binding : CheckpointBinding) (issuedAtServer : Int) :
    Except CheckpointError StandardCheckpoint := do
  let core := checkpointCore binding issuedAtServer
  let signature ← (ServerSigner.signCheckpoint core).mapError fun _ => .signature
  let evidence ← (standardEvidence core signature).mapError .ofFormat
  let exactBytes ← (encodeObject .evidence (ObjectBodies.evidence evidence)).mapError .ofFormat
  ensure (exactBytes.length ≤ ecpMaxRawBytesV1) .shape
  return ⟨core, exactBytes, Crypto.objectHash exactBytes⟩

/-! ## 4. What was built -/

/-- A hash is that of a checkpoint of the server which covers a sequence, names the entry there
and names its predecessor. -/
def IsCheckpoint (objectHash : ObjectHash) (coveredSequence : Nat) (headEntryHash : EntryHash)
    (previousEvidenceHash : Option ObjectHash) : Prop :=
  ∃ binding issuedAtServer checkpoint, buildCheckpoint binding issuedAtServer = .ok checkpoint
    ∧ checkpoint.objectHash = objectHash
    ∧ checkpoint.core.coveredFromSequence = coveredSequence
    ∧ checkpoint.core.coveredThroughSequence = coveredSequence
    ∧ checkpoint.core.headEntryHash = headEntryHash
    ∧ checkpoint.core.previousEvidenceHash = previousEvidenceHash

theorem buildCheckpoint_eq_ok (h : buildCheckpoint binding issuedAtServer = .ok checkpoint) :
    checkpoint.core = checkpointCore binding issuedAtServer
      ∧ checkpoint.objectHash = Crypto.objectHash checkpoint.exactBytes := by
  simp only [buildCheckpoint, ok_iff] at h
  obtain ⟨_, -, _, -, _, -, -, -, rfl⟩ := h
  exact ⟨rfl, rfl⟩

theorem isCheckpoint_of_build (h : buildCheckpoint binding issuedAtServer = .ok checkpoint) :
    IsCheckpoint (Crypto.objectHash checkpoint.exactBytes) binding.coveredSequence
      binding.headEntryHash binding.previousEvidenceHash := by
  obtain ⟨hc, hh⟩ := buildCheckpoint_eq_ok h
  refine ⟨binding, issuedAtServer, checkpoint, h, hh, ?_⟩
  rw [hc]
  exact ⟨rfl, rfl, rfl, rfl⟩

end

open Protocol

/-! ## 5. Objects and events -/

/-- Why the object store refuses. -/
inductive StoreError
  | hashConflict | limitExceeded | objectTypeMismatch | notFound | unavailable

/-- A staged object; the bytes stand for its temporary key. -/
structure StagedObject where
  kind : ObjectType
  objectHash : ObjectHash
  sizeBytes : Nat
  bytes : Bytes

def objectTypeSegment : ObjectType → String
  | .entry => "eip"
  | .grant => "eag"
  | .receipt => "esr"
  | .evidence => "ecp"
  | .trust => "etb"
  | .destroyed => "eds"

def hexDigit (digit : Nat) : Char := "0123456789abcdef".toList.getD digit '0'

/-- `hex::encode`. -/
def hexEncode (bytes : Bytes) : String :=
  String.ofList (bytes.flatMap fun byte => [hexDigit (byte.toNat / 16), hexDigit (byte.toNat % 16)])

def objectKey (kind : ObjectType) (hash : ObjectHash) : String :=
  objectTypeSegment kind ++ "/" ++ hexEncode (hashBytes hash)

/-- What a writer may be accused of. -/
inductive SecurityEventKind
  | objectHashConflict | entryIdentityMismatch | sequenceFork | predecessorMismatch
  | writerUnauthorized | checkpointPredecessorConflict
deriving DecidableEq

/-- An accusation, with its subject and time. -/
structure SecurityEvent where
  organizationId : OrganizationId
  kind : SecurityEventKind
  subject : String
  observedAt : Int

/-! ## 6. The state -/

variable [Crypto]

/-- The clock, the registries, the store, the tables and the security events. -/
structure ServerState where
  clock : Int
  /-- The organization the object store belongs to. -/
  storeOrganizationId : OrganizationId
  organizations : OrganizationId → Option OrganizationTrust
  objects : ObjectType → ObjectHash → Option Bytes
  database : Database
  securityEvents : List SecurityEvent := []

namespace ServerState

variable (s : ServerState)

def store (kind : ObjectType) (hash : ObjectHash) (bytes : Bytes) : ServerState :=
  { s with objects := fun kind' hash' =>
      if kind' = kind ∧ hash' = hash then some bytes else s.objects kind' hash' }

def record (event : SecurityEvent) : ServerState :=
  { s with securityEvents := s.securityEvents ++ [event] }

/-! ## 7. The object store -/

/-- The entry an entry or a grant belongs to. -/
def entryMembership (kind : ObjectType) (exact : Bytes) (organizationId : OrganizationId) :
    Except StoreError EntryHash :=
  match kind, Crypto.decode exact with
  | .entry, .ok (.entry entry) => do
      ensure (entry.signedManifest.manifest.organizationId = organizationId) .objectTypeMismatch
      return entry.entryHash
  | .grant, .ok (.grant grant) => do
      ensure (grant.grantBody.organizationId = organizationId) .objectTypeMismatch
      return grant.grantBody.entryHash
  | _, _ => .error .objectTypeMismatch

/-- `begin_object_write`: the organization is known and the entry is no destruction target. -/
def beginObjectWrite (entryHash : EntryHash) : Except StoreError Unit :=
  ensure ((s.organizations s.storeOrganizationId).isSome
    ∧ !s.database.destructionTargets.contains ⟨s.storeOrganizationId, entryHash⟩) .unavailable

/-- Only entries and grants are fenced off from destructions. -/
def isFenced : ObjectType → Bool
  | .entry | .grant => true
  | _ => false

/-- Entries and grants of destruction targets are not written. -/
def requireWritable (kind : ObjectType) (bytes : Bytes) : Except StoreError Unit := do
  if isFenced kind then
    let entryHash ← entryMembership kind bytes s.storeOrganizationId
    s.beginObjectWrite entryHash
  else return ()

/-- The size, the fence and the family of the bytes are checked. -/
def stageStream (kind : ObjectType) (body : Bytes) (limit : Nat) :
    Except StoreError StagedObject := do
  ensure (isFenced kind → body.length ≤ limit ∧ body.length ≤ maxArchiveObjectBytesV1)
    .limitExceeded
  s.requireWritable kind body
  ensure (body.length ≤ limit) .limitExceeded
  ensure ((exactObjectPrefix kind).isPrefixOf body) .objectTypeMismatch
  return ⟨kind, Crypto.objectHash body, body.length, body⟩

/-- What `put_if_absent` checks before it looks at the target. -/
def checkStaged (staged : StagedObject) : Except StoreError Unit := do
  ensure (isFenced staged.kind → staged.bytes.length ≤ maxArchiveObjectBytesV1) .limitExceeded
  ensure (isFenced staged.kind → Crypto.objectHash staged.bytes = staged.objectHash) .hashConflict
  s.requireWritable staged.kind staged.bytes

/-- A known key keeps its bytes; a key with other bytes is a conflict, which is recorded. -/
def putIfAbsent (staged : StagedObject) : Except StoreError Unit × ServerState :=
  match s.checkStaged staged with
  | .error error => (.error error, s)
  | .ok () =>
    match s.objects staged.kind staged.objectHash with
    | none => (.ok (), s.store staged.kind staged.objectHash staged.bytes)
    | some stored =>
      if stored.length = staged.sizeBytes ∧ Crypto.objectHash stored = staged.objectHash then
        (.ok (), s)
      else
        (.error .hashConflict, s.record ⟨s.storeOrganizationId, .objectHashConflict,
          objectKey staged.kind staged.objectHash, s.clock⟩)

/-- The stored bytes of an indexed object. -/
def getExact (hash : ObjectHash) : Except StoreError Bytes := do
  let kind ← okOr (s.database.objectTypeOf hash) .notFound
  okOr (s.objects kind hash) .notFound

/-! ## 8. The transaction -/

/-- The transaction: all of it or nothing. -/
def commitLockedHead (command : CommitDbCommand) :
    Except RepositoryError CommittedDbState × ServerState :=
  match s.database.commitLockedHead command with
  | .error error => (.error error, s)
  | .ok (committed, database) => (.ok committed, { s with database })

end ServerState

/-! ## 9. The operations -/

/-- The operations of a commit. -/
inductive Port
  | now
  | stageStream (kind : ObjectType) (body : Bytes) (limit : Nat)
  | putIfAbsent (staged : StagedObject)
  | getExact (hash : ObjectHash)
  | headState (organizationId : OrganizationId) (chainId : ChainId)
  | checkpointHead (organizationId : OrganizationId) (chainId : ChainId)
  | commitLockedHead (command : CommitDbCommand)
  | selectHeadForSequence (organizationId : OrganizationId) (proposedSequence : Nat) (time : Int)
  | record (event : SecurityEvent)

/-- What an operation answers.  The outcome of recording an event is dropped. -/
@[reducible] def Port.Reply : Port → Type
  | .now => Int
  | .stageStream .. => Except StoreError StagedObject
  | .putIfAbsent _ => Except StoreError Unit
  | .getExact _ => Except StoreError Bytes
  | .headState .. => Except RepositoryError (Option ChainHeadState)
  | .checkpointHead .. => Except RepositoryError (Option ObjectHash)
  | .commitLockedHead _ => Except RepositoryError CommittedDbState
  | .selectHeadForSequence .. => Except AuthorityError RegistryHeadSelection
  | .record _ => Unit

/-- What an operation does when it is carried out. -/
def Port.perform : (port : Port) → ServerState → port.Reply × ServerState
  | .now, s => (s.clock, s)
  | .stageStream kind body limit, s => (s.stageStream kind body limit, s)
  | .putIfAbsent staged, s => s.putIfAbsent staged
  | .getExact hash, s => (s.getExact hash, s)
  | .headState organizationId chainId, s => (.ok (s.database.headState organizationId chainId), s)
  | .checkpointHead organizationId chainId, s =>
    (.ok (s.database.checkpointHead organizationId chainId), s)
  | .commitLockedHead command, s => s.commitLockedHead command
  | .selectHeadForSequence organizationId proposedSequence time, s =>
    (Server.selectHeadForSequence (s.organizations organizationId) organizationId
      proposedSequence time, s)
  | .record event, s => ((), s.record event)

/-- What an operation answers when the adapter is not available; the clock always answers. -/
def Port.refuse : (port : Port) → Option port.Reply
  | .now => none
  | .stageStream .. | .putIfAbsent _ | .getExact _ | .headState .. | .checkpointHead ..
  | .commitLockedHead _ | .selectHeadForSequence .. => some (.error .unavailable)
  | .record _ => some ()

/-- The operations, each of which may be refused. -/
def ports : Services ServerState Port.Reply where
  perform := Port.perform
  refuse := Port.refuse

/-! ## 10. What happens around the calls -/

/-- The clock is set, an organization publishes trust objects, a destruction names a target. -/
inductive Occurrence
  | tick (clock : Int)
  | publish (organizationId : OrganizationId) (trust : OrganizationTrust)
  | target (row : DestructionTargetRow)

/-- What happens around the calls. -/
def occur : Occurrence → ServerState → ServerState
  | .tick clock, s => { s with clock }
  | .publish organizationId trust, s =>
    { s with organizations := Function.update s.organizations organizationId (some trust) }
  | .target row, s =>
    { s with database :=
      { s.database with destructionTargets := s.database.destructionTargets ++ [row] } }

/-! ## 11. How a state develops -/

/-- The tables only grow, the grants of an entry stay, and stored objects stay. -/
structure Grows (s t : ServerState) : Prop where
  entries : s.database.entries <+: t.database.entries
  checkpoints : s.database.checkpoints <+: t.database.checkpoints
  objectIndex : s.database.objectIndex <+: t.database.objectIndex
  grants : ∀ row ∈ s.database.entries,
    t.database.initialGrants row.entryHash = s.database.initialGrants row.entryHash
  objects : ∀ kind hash bytes, s.objects kind hash = some bytes → t.objects kind hash = some bytes

omit [Crypto] in
theorem Grows.refl (s : ServerState) : Grows s s :=
  ⟨List.prefix_refl _, List.prefix_refl _, List.prefix_refl _, fun _ _ => rfl, fun _ _ _ h => h⟩

variable {s t : ServerState} {hash : ObjectHash} {bytes : Bytes} {port : Port}

section

omit [Crypto]

theorem Grows.trans {u : ServerState} (h : Grows s t) (h' : Grows t u) : Grows s u where
  entries := h.entries.trans h'.entries
  checkpoints := h.checkpoints.trans h'.checkpoints
  objectIndex := h.objectIndex.trans h'.objectIndex
  grants row hr := (h'.grants row (h.entries.subset hr)).trans (h.grants row hr)
  objects kind hash bytes hs := h'.objects kind hash bytes (h.objects kind hash bytes hs)

theorem Grows.chainEntries (h : Grows s t) (org : OrganizationId) (chainId : ChainId) :
    s.database.chainEntries org chainId <+: t.database.chainEntries org chainId :=
  h.entries.filter _

variable {cmd : CommitDbCommand}

/-- A stored commit stays. -/
theorem Database.Replays.of_grows {old : EntryRow} {checkpoint : ObjectHash}
    (h : Database.Replays cmd s.database old checkpoint) (hg : Grows s t) :
    Database.Replays cmd t.database old checkpoint := by
  have hr := List.mem_of_find?_eq_some h.known
  have hh : old.entryHash = cmd.identity.entryHash := by
    simpa using List.find?_some h.known
  have hgr := hg.grants old hr
  rw [hh] at hgr
  have hcp := h.checkpoint
  simp only [Database.storedCheckpoint, ok_iff, Option.map_eq_some_iff] at hcp
  obtain ⟨-, hfi, row, hf, ho⟩ := hcp
  refine ⟨hg.entries.find?_eq_some h.known, h.entryObject, h.plan, h.sequence,
    hgr.trans h.grants, ?_⟩
  simp only [Database.storedCheckpoint, ok_iff, Option.map_eq_some_iff]
  exact ⟨(), hfi, row, (hg.checkpoints.filter _).find?_eq_some hf, ho⟩

/-- A stored object that is indexed can be read for good. -/
theorem Grows.getExact (h : Grows s t) (hs : s.getExact hash = .ok bytes) :
    t.getExact hash = .ok bytes := by
  simp only [ServerState.getExact, Database.objectTypeOf, ok_iff, Option.map_eq_some_iff] at hs ⊢
  obtain ⟨kind, ⟨row, hr, hk⟩, hb⟩ := hs
  exact ⟨kind, ⟨row, h.objectIndex.find?_eq_some hr, hk⟩, h.objects kind hash bytes hb⟩

theorem Grows.of_committed {db' : Database} (h : Database.Committed cmd s.database db') :
    Grows s { s with database := db' } := by
  obtain ⟨_, hi⟩ := h.objectIndex
  refine ⟨?_, ?_, ?_, fun row hr => h.initialGrants_eq hr, fun _ _ _ hs => hs⟩
  · exact h.entries ▸ List.prefix_append _ _
  · exact h.checkpoints ▸ List.prefix_append _ _
  · exact hi ▸ List.prefix_append _ _

end

/-- Every operation but the transaction. -/
def Port.Passive : Port → Prop
  | .commitLockedHead _ => False
  | _ => True

/-- Every operation that neither reads the head nor accuses. -/
def Port.Silent : Port → Prop
  | .headState .. | .commitLockedHead _ | .record _ => False
  | _ => True

/-- The events before the transaction. -/
def Port.Alarm : Port → Prop
  | .record event => event.kind = .objectHashConflict ∨ event.kind = .writerUnauthorized
  | _ => False

omit [Crypto] in
theorem Port.Silent.passive (h : port.Silent) : port.Passive := by
  cases port <;> first | exact h.elim | trivial

omit [Crypto] in
theorem Port.Alarm.passive (h : port.Alarm) : port.Passive := by
  cases port <;> first | exact h.elim | trivial

theorem objects_putIfAbsent (s : ServerState) (staged : StagedObject) {kind : ObjectType}
    (h : s.objects kind hash = some bytes) :
    (s.putIfAbsent staged).2.objects kind hash = some bytes := by
  unfold ServerState.putIfAbsent
  split
  · exact h
  · split
    · rename_i ha
      rw [ServerState.store]
      simp only
      split
      · rename_i hk
        obtain ⟨rfl, rfl⟩ := hk
        rw [ha] at h
        cases h
      · exact h
    · split
      · exact h
      · exact h

theorem database_putIfAbsent (s : ServerState) (staged : StagedObject) :
    (s.putIfAbsent staged).2.database = s.database := by
  unfold ServerState.putIfAbsent
  split
  · rfl
  · split
    · rfl
    · split <;> rfl

end Einsatzarchiv.Server
