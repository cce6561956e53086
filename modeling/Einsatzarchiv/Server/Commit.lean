/-
  File:      Einsatzarchiv/Server/Commit.lean
  Subject:   The commit of an entry (crate `ea-sync-server`, `commit.rs`), and a small server given
             by a table of its objects.

  * `CommitServiceError`, `CommitFailure`: what the service reports.
  * `Service.Yields`: what a part of the service ends with, whatever its ports answer.
  * `CommitCall`: a request that was built, with the chain of its path and its caller.
  * `prepareCommit`: the steps before the transaction: staging, checks, receipt, checkpoint.
  * `commitPrepared`: the transaction and the errors it is classified into.
  * `deliverCommit`: reading back what the transaction names.
  * `commitEntry`: the whole service; `commitRoute`: its calls and what happens around them.

  The primitives are those of the table of an organization (`tableCrypto`), with one key that
  receives grants.  A receipt and a checkpoint are named by their sequence and their time.

  * `committingOrganization`: an organization with one writer and one recovery recipient.
  * `tableServer`: the server of this organization before its first commit.
  * `tableCall`: the commit of an entry of the table.
-/
import Einsatzarchiv.Server.Ports

namespace Einsatzarchiv.Server

open Lib Format Protocol

section

/-! ## 1. Errors and outcomes -/

/-- Why a commit fails. -/
inductive CommitServiceError
  | validation (error : CommitValidationError)
  | receipt (error : ReceiptError)
  | checkpoint (error : CheckpointError)
  | identityConflict
  | sequenceFork
  | predecessorMismatch
  | headConflict
  | objectConflict
  | registryHeadRequired
  | noApplicableRegistryHead
  | stateConflict
  | dependencyUnavailable
  | internal
  | protocol (error : SyncProtocolError)

namespace CommitServiceError

/-- What a failure of the store means for the call. -/
def ofStore : StoreError → CommitServiceError
  | .hashConflict => .objectConflict
  | .objectTypeMismatch => .validation .objectFamily
  | .limitExceeded => .protocol .bodyLimit
  | .notFound => .receipt .readBack
  | .unavailable => .dependencyUnavailable

/-- What a failure of the transaction means for the call. -/
def ofRepository : RepositoryError → CommitServiceError
  | .headConflict => .headConflict
  | .commitIdentityConflict => .identityConflict
  | .requestIdReplay => .internal
  | .checkpointPredecessorConflict => .checkpoint .predecessorConflict
  | .unavailable => .dependencyUnavailable

/-- What a failure of the registry means for the call. -/
def ofAuthority : AuthorityError → CommitServiceError
  | .unavailable => .dependencyUnavailable
  | .stateConflict => .stateConflict

end CommitServiceError

/-- An error, with the head the writer has to get to. -/
structure CommitFailure where
  error : CommitServiceError
  requiredRegistryVersion : Option Nat := none
  requiredRegistryHeadHash : Option ObjectHash := none

/-- The writer has to get to this head first. -/
def CommitFailure.requiringHead (error : CommitServiceError) (version : Nat)
    (headHash : ObjectHash) : CommitFailure :=
  ⟨error, some version, some headHash⟩

/-- A new entry, or one that was there. -/
inductive CommitOutcome
  | accepted (receiptBytes checkpointBytes : Bytes)
  | idempotentReplay (receiptBytes checkpointBytes : Bytes)
deriving DecidableEq

namespace CommitOutcome

def receiptBytes : CommitOutcome → Bytes
  | accepted receiptBytes _ | idempotentReplay receiptBytes _ => receiptBytes

def checkpointBytes : CommitOutcome → Bytes
  | accepted _ checkpointBytes | idempotentReplay _ checkpointBytes => checkpointBytes

end CommitOutcome

variable [Crypto] {entry : Parsed EntryPackage}

/-- A service of the server, which calls its ports. -/
abbrev Service (α : Type) := Program Port.Reply CommitFailure α

namespace Service

variable {α : Type}

def call (port : Port) : Service port.Reply := .ask port

/-- The call ends with the error. -/
def failing (error : CommitServiceError) : Service α := .fail { error }

/-- A computation without calls whose error becomes one of the service. -/
def lift {ε : Type} (error : ε → CommitServiceError) (result : Except ε α) : Service α :=
  .ofExcept (result.mapError fun e => { error := error e })

/-- The call goes on only under the condition. -/
def require (condition : Bool) (error : CommitServiceError) : Service Unit :=
  .ofExcept (ensure condition { error })

/-! ## 2. Calls -/

def recordSubject (organizationId : OrganizationId) (kind : SecurityEventKind) (subject : String)
    (now : Int) : Service Unit :=
  call (.record ⟨organizationId, kind, subject, now⟩)

/-- `record`: an event about the hash of an entry. -/
def recordEntry (organizationId : OrganizationId) (kind : SecurityEventKind)
    (entryHash : EntryHash) (now : Int) : Service Unit :=
  recordSubject organizationId kind (hexEncode (hashBytes entryHash)) now

/-- The bytes are checked and kept for storing. -/
def stage (kind : ObjectType) (body : Bytes) (limit : Nat) : Service StagedObject := do
  let staged ← call (.stageStream kind body limit)
  lift .ofStore staged

def stageGrants : List Bytes → Service (List StagedObject)
  | [] => return []
  | bytes :: rest => do
      let staged ← stage .grant bytes maxGrantObjectBytesV1
      let others ← stageGrants rest
      return staged :: others

/-- The object is stored; a conflict of hashes is recorded. -/
def putVerified (staged : StagedObject) (organizationId : OrganizationId) (now : Int) :
    Service Unit := do
  let stored ← call (.putIfAbsent staged)
  match stored with
  | .ok () => return ()
  | .error .hashConflict => do
      recordSubject organizationId .objectHashConflict (objectKey staged.kind staged.objectHash) now
      failing .objectConflict
  | .error error => failing (.ofStore error)

def putGrants (organizationId : OrganizationId) (now : Int) : List StagedObject → Service Unit
  | [] => return ()
  | staged :: rest => do
      putVerified staged organizationId now
      putGrants organizationId now rest

section

variable (organizationId : OrganizationId)

def headState (chainId : ChainId) :
    Service (Option ChainHeadState) := do
  let head ← call (.headState organizationId chainId)
  lift .ofRepository head

def checkpointHead (chainId : ChainId) :
    Service (Option ObjectHash) := do
  let head ← call (.checkpointHead organizationId chainId)
  lift .ofRepository head

/-- The head of the registry for a sequence, if there is one. -/
def selectHead (sequence : Nat) (time : Int) :
    Service ActiveRegistryHead := do
  let selection ← call (.selectHeadForSequence organizationId sequence time)
  let selection ← lift .ofAuthority selection
  match selection with
  | .selected head => return head
  | .pendingFuture version headHash =>
    .fail (.requiringHead .registryHeadRequired version headHash)
  | .noApplicableHead => failing .noApplicableRegistryHead

end

/-- The stored bytes, which have to have their hash. -/
def readBack (objectHash : ObjectHash) (missing : CommitServiceError) : Service Bytes := do
  let stored ← call (.getExact objectHash)
  match stored with
  | .ok bytes => do
      require (Crypto.objectHash bytes = objectHash) missing
      return bytes
  | .error .notFound => failing missing
  | .error error => failing (.ofStore error)

/-! ## 3. Refusals -/

/-- The failure for a commit that does not pass.  A package that binds a newer head than the
selected one is told the head it binds, an older one the head of the server. -/
def failureOf (error : CommitValidationError) (manifest : ManifestCoreFields)
    (head : ActiveRegistryHead) : CommitFailure :=
  if error = .registryMismatch then
    if head.registryVersion < manifest.registryVersion then
      .requiringHead .registryHeadRequired manifest.registryVersion manifest.registryHeadHash
    else
      .requiringHead (.validation error) head.registryVersion head.registryHeadHash
  else { error := .validation error }

/-- The result of `validate_commit`, or `validation_failure`. -/
def validated (request : EntryCommitRequest) (entry : Parsed EntryPackage)
    (organizationId : OrganizationId) (chainId : ChainId)
    (writerCertificateHash : CertificateHash) (head : ActiveRegistryHead) (now : Int) :
    Service ValidatedCommit :=
  match validateCommit request entry organizationId chainId writerCertificateHash head with
  | .ok commit => return commit
  | .error error =>
    let failure := failureOf error entry.value.signedManifest.manifest head
    if error.isWriterViolation then do
      recordEntry organizationId .writerUnauthorized entry.value.entryHash now
      .fail failure
    else .fail failure

/-- `classify_head_conflict`: only an unchanged head allows an accusation. -/
def classifyHeadConflict (commit : ValidatedCommit) (current : Option ChainHeadState)
    (organizationId : OrganizationId) (chainId : ChainId) (now : Int) : Service α := do
  let observed ← call (.headState organizationId chainId)
  match observed with
  | .error _ => failing .headConflict
  | .ok observed =>
    if observed ≠ current then failing .headConflict
    else
      match (current.map fun head => checkedAdd head.sequence 1).getD (some 0) with
      | none => failing .internal
      | some expected =>
        if commit.chainSequence ≠ expected then do
          recordEntry organizationId .sequenceFork commit.entryHash now
          failing .sequenceFork
        else if commit.previousEntryHash ≠ current.map (·.entryHash) then do
          recordEntry organizationId .predecessorMismatch commit.entryHash now
          failing .predecessorMismatch
        else failing .headConflict

end Service

/-! ## 4. What the parts yield -/

/-- A value a service ends with, whatever the silent operations answer; after an alarm it
fails. -/
abbrev Service.Yields {α : Type} (p : Service α) (Post : α → Prop) : Prop :=
  p.Returns ports Port.Silent Port.Alarm Post

namespace Service

variable {α : Type}

theorem yields_call {port : Port} (hp : port.Silent) : (call port).Yields (ports.Answers port) :=
  .inl ⟨hp, fun _ hr => hr⟩

theorem yields_alarm {event : SecurityEvent} (ha : Port.Alarm (.record event))
    (failure : CommitFailure) {Post : α → Prop} :
    (call (.record event) >>= fun _ => Program.fail failure).Yields Post :=
  .inr ⟨ha, fun _ => ⟨failure, rfl⟩⟩

theorem yields_lift {ε : Type} {error : ε → CommitServiceError} {res : Except ε α} :
    (lift error res).Yields fun a => res = .ok a :=
  Program.returns_ofExcept fun _ h => mapError_eq_ok.mp h

theorem yields_require {condition : Bool} {error : CommitServiceError} :
    (require condition error).Yields fun _ => condition = true :=
  Program.returns_ofExcept fun _ h => ensure_eq_ok.mp h

theorem yields_stage {kind : ObjectType} {body : Bytes} {limit : Nat} :
    (stage kind body limit).Yields fun staged => staged.objectHash = Crypto.objectHash body := by
  refine (yields_call (by trivial)).bind fun reply hr => ?_
  refine Program.returns_ofExcept fun staged hst => ?_
  rw [mapError_eq_ok] at hst
  subst hst
  rcases hr with ⟨s, hs⟩ | hre
  · simp only [ports, Port.perform, ServerState.stageStream, ok_iff] at hs
    obtain ⟨-, -, -, -, -, -, -, -, rfl⟩ := hs
    rfl
  · simp [ports, Port.refuse] at hre

theorem yields_stageGrants (grants : List Bytes) : (stageGrants grants).Yields fun _ => True := by
  induction grants with
  | nil => trivial
  | cons _ _ ih => exact yields_stage.bind fun _ _ => ih.bind fun _ _ => trivial

variable {org : OrganizationId} {cid : ChainId} {now : Int}

theorem yields_putVerified {staged : StagedObject} :
    (putVerified staged org now).Yields fun _ => True := by
  refine (yields_call (by trivial)).bind fun reply _ => ?_
  split
  · trivial
  · exact yields_alarm (.inl rfl) _
  · trivial

theorem yields_putGrants (grants : List StagedObject) :
    (putGrants org now grants).Yields fun _ => True := by
  induction grants with
  | nil => trivial
  | cons _ _ ih => exact yields_putVerified.bind fun _ _ => ih

theorem yields_checkpointHead : (checkpointHead org cid).Yields fun _ => True :=
  (yields_call (by trivial)).bind fun _ _ => Program.returns_ofExcept fun _ _ => trivial

theorem yields_selectHead {seq : Nat} {time : Int} :
    (selectHead org seq time).Yields fun _ => True := by
  refine (yields_call (by trivial)).bind fun _ _ => yields_lift.bind fun sel _ => ?_
  cases sel <;> trivial

theorem yields_validated {request : EntryCommitRequest} {writer : CertificateHash}
    {head : ActiveRegistryHead} :
    (validated request entry org cid writer head now).Yields (Validated request entry org cid) := by
  unfold validated
  split
  · rename_i commit hc
    exact validateCommit_eq_ok hc
  · simp only
    split
    · exact yields_alarm (.inr rfl) _
    · trivial

end Service

/-! ## 5. Calls -/

/-- One call of the route: a request that was built, the chain of its path and its caller. -/
structure CommitCall where
  request : EntryCommitRequest
  organizationId : OrganizationId
  chainId : ChainId
  writerCertificateHash : CertificateHash
  built : ∃ entryBytes plan grantBytes,
    EntryCommitRequest.new entryBytes plan grantBytes = .ok request

theorem CommitCall.identified (call : CommitCall) : call.request.Identified := by
  obtain ⟨_, _, _, h⟩ := call.built
  exact EntryCommitRequest.new_identified h

/-- The entry that the service parses is the one that the identity names. -/
theorem CommitCall.entryHash_eq (call : CommitCall)
    (h : parseEntry call.request.entryBytes = .ok entry) :
    call.request.identity.entryHash = entry.value.entryHash := by
  obtain ⟨_, hp, hh, -⟩ := call.identified.entry
  have hv := Except.ok.inj (hp.symm.trans (parseEntry_eq_ok.mp h))
  rw [hh, hv]

/-! ## 6. Before the transaction -/

/-- What the steps before the transaction leave behind. -/
structure PreparedCommit where
  commit : ValidatedCommit
  current : Option ChainHeadState
  now : Int
  receiptBytes : Bytes
  checkpoint : StandardCheckpoint
  command : CommitDbCommand

def receiptBinding (request : EntryCommitRequest) (organizationId : OrganizationId)
    (chainId : ChainId) (head : ActiveRegistryHead) (commit : ValidatedCommit) :
    ReceiptBinding where
  organizationId := organizationId
  chainId := chainId
  chainSequence := commit.chainSequence
  entryHash := commit.entryHash
  entryObjectHash := commit.entryObjectHash
  previousEntryHash := commit.previousEntryHash
  registryVersion := head.registryVersion
  registryHeadHash := head.registryHeadHash
  policyObjectHash := head.policy.objectHash
  initialGrantPlanHash := request.identity.initialGrantPlanHash
  initialGrantObjectHashes := commit.grantObjectHashes

def checkpointBinding (organizationId : OrganizationId) (chainId : ChainId)
    (head : ActiveRegistryHead) (commit : ValidatedCommit)
    (previousEvidenceHash : Option ObjectHash) : CheckpointBinding where
  organizationId := organizationId
  chainId := chainId
  coveredSequence := commit.chainSequence
  headEntryHash := commit.entryHash
  registryHeadHash := head.registryHeadHash
  previousEvidenceHash := previousEvidenceHash
  coveredSequence_le := commit.chainSequence_le

/-- The rows that the transaction is to write. -/
def commitCommand (request : EntryCommitRequest) (organizationId : OrganizationId)
    (chainId : ChainId) (head : ActiveRegistryHead) (commit : ValidatedCommit)
    (acceptedAtServer : Int) (receipt : Receipt) (stagedReceipt stagedCheckpoint : StagedObject)
    (previousEvidenceHash : Option ObjectHash) : CommitDbCommand where
  organizationId := organizationId
  chainId := chainId
  deviceId := commit.deviceId
  sequence := commit.chainSequence
  previousEntryHash := commit.previousEntryHash
  identity := request.identity
  grantRecipients := commit.grantRecipients
  receiptObjectHash := stagedReceipt.objectHash
  acceptedAtServer := acceptedAtServer
  evidenceDueAt := receipt.core.evidenceDueAt
  registryVersion := head.registryVersion
  registryHeadHash := head.registryHeadHash
  indexedObjects := commit.indexedObjects
    ++ [⟨.receipt, stagedReceipt.objectHash, stagedReceipt.sizeBytes⟩,
      ⟨.evidence, stagedCheckpoint.objectHash, stagedCheckpoint.sizeBytes⟩]
  checkpoint := {
    objectHash := stagedCheckpoint.objectHash
    coveredSequence := commit.chainSequence
    issuedAtServer := acceptedAtServer
    previousEvidenceHash := previousEvidenceHash }

open Service

variable [ServerSigner] [Cbor.TextRules] [ObjectBodies]

section

variable (request : EntryCommitRequest) (organizationId : OrganizationId) (chainId : ChainId)

/-- The steps from the receipt on: the receipt and the checkpoint are built, signed and stored
before the transaction names them. -/
def sealCommit (head : ActiveRegistryHead) (commit : ValidatedCommit)
    (current : Option ChainHeadState) (now acceptedAtServer : Int) : Service PreparedCommit := do
  let receipt ← lift .receipt (buildReceipt
    (receiptBinding request organizationId chainId head commit) head.policy.fields
    acceptedAtServer)
  let receiptBytes ← lift .receipt (exactReceiptBytes receipt)
  let stagedReceipt ← stage .receipt receiptBytes esrMaxRawBytesV1
  putVerified stagedReceipt organizationId now
  let previousEvidenceHash ← checkpointHead organizationId chainId
  let checkpoint ← lift .checkpoint (buildCheckpoint
    (checkpointBinding organizationId chainId head commit previousEvidenceHash) acceptedAtServer)
  let stagedCheckpoint ← stage .evidence checkpoint.exactBytes ecpMaxRawBytesV1
  putVerified stagedCheckpoint organizationId now
  return {
    commit, current, now, receiptBytes, checkpoint
    command := commitCommand request organizationId chainId head commit acceptedAtServer receipt
      stagedReceipt stagedCheckpoint previousEvidenceHash }

/-- Everything before the transaction. -/
def prepareCommit (writerCertificateHash : CertificateHash) : Service PreparedCommit := do
  let stagedEntry ← stage .entry request.entryBytes maxEntryObjectBytesV1
  let stagedGrants ← stageGrants request.sortedGrantBytes
  let entry ← lift .validation (parseEntry request.entryBytes)
  let now ← call .now
  let current ← headState organizationId chainId
  let acceptedAtServer := acceptedAt now (current.map (·.acceptedAtServer))
  let head ← selectHead organizationId entry.value.signedManifest.manifest.chainSequence
    acceptedAtServer
  require (stagedEntry.objectHash = entry.objectHash) .objectConflict
  let commit ← validated request entry organizationId chainId writerCertificateHash head now
  require (stagedGrants.length = commit.grantObjectHashes.length) .internal
  require (stagedGrants.map (·.objectHash) = commit.grantObjectHashes) .objectConflict
  putVerified stagedEntry organizationId now
  putGrants organizationId now stagedGrants
  sealCommit request organizationId chainId head commit current now acceptedAtServer

end

/-! ## 7. The transaction and the answer -/

section

variable (prepared : PreparedCommit)

/-- What follows the answer of the transaction. -/
def afterTransaction :
    Except RepositoryError CommittedDbState → Service CommittedDbState
  | .ok committed => return committed
  | .error .commitIdentityConflict => do
      recordEntry prepared.command.organizationId .entryIdentityMismatch
        prepared.commit.entryHash prepared.now
      failing .identityConflict
  | .error .headConflict =>
    classifyHeadConflict prepared.commit prepared.current prepared.command.organizationId
      prepared.command.chainId prepared.now
  | .error .checkpointPredecessorConflict => do
      recordSubject prepared.command.organizationId .checkpointPredecessorConflict
        (objectKey .evidence prepared.command.checkpoint.objectHash) prepared.now
      failing (.checkpoint .predecessorConflict)
  | .error error => failing (.ofRepository error)

/-- The transaction and what follows from its answer. -/
def commitPrepared : Service CommittedDbState := do
  let committed ← call (.commitLockedHead prepared.command)
  afterTransaction prepared committed

/-- Reads back the objects the transaction names, which a replay did not build. -/
def deliverCommit (committed : CommittedDbState) :
    Service CommitOutcome := do
  let receipt ← readBack committed.receiptObjectHash (.receipt .readBack)
  let checkpoint ← readBack committed.checkpointObjectHash (.checkpoint .readBack)
  if committed.newlyCommitted then do
    require (receipt = prepared.receiptBytes) (.receipt .readBack)
    require (checkpoint = prepared.checkpoint.exactBytes) (.checkpoint .readBack)
    return .accepted receipt checkpoint
  else return .idempotentReplay receipt checkpoint

end

/-- `commit_entry`: everything before the transaction, the transaction, the answer. -/
def commitEntry (request : EntryCommitRequest) (organizationId : OrganizationId)
    (chainId : ChainId) (writerCertificateHash : CertificateHash) : Service CommitOutcome := do
  let prepared ← prepareCommit request organizationId chainId writerCertificateHash
  let committed ← commitPrepared prepared
  deliverCommit prepared committed

/-- The route of the commits, and what happens around it. -/
def commitRoute : System ServerState CommitCall Occurrence Port.Reply CommitFailure CommitOutcome
    where
  services := ports
  program call :=
    commitEntry call.request call.organizationId call.chainId call.writerCertificateHash
  occur := occur

end

open Trust

/-! ## 8. The organization -/

/-- The recovery recipient, with key 200. -/
def recoveryCertificate : DeviceCertificateFields where
  organizationId := 1
  deviceId := 40
  certificateKind := .recoveryRecipient
  signingPublicCoseKey := none
  kemPublicCoseKey := some [200]
  signingKeyThumbprint := none
  kemKeyThumbprint := some 200
  capabilities := []
  effectiveFromSequence := 0
  revokedFromSequence := none
  authoritySubjectId := none

def tableManifest (nonce sequence : Nat) (previous : Option EntryHash) : SignedManifest :=
  manifestUnder 42 sequence nonce previous

/-- The grant of an entry for the recovery recipient. -/
def tableGrant (entryHash : EntryHash) : ArchiveObject :=
  .grant ⟨⟨1, 2, entryHash, .initial, .recovery, 200, 40, 104, 20, 3, 42, none, none, [], []⟩,
    signedBy .grantDigest 104 20⟩

/-- `organization` with a writer that issues grants and, in place of the server, a recovery
recipient (certificate 40); the head is event 42 of version 3.  Entries 50 and 51 are those of
sequences zero and one, with the grants 60 and 61; entry 52 with grant 62 is a fork of entry 50. -/
def committingOrganization : ObjectHash → Option ArchiveObject
  | 20 => some (trustObject (.authorized (.device (deviceCertificate 20 .writer 104
      ["initialGrant"] none)) 21) 101 1)
  | 40 => some (trustObject (.authorized (.device recoveryCertificate) 41) 101 1)
  | 41 => some (adminAuthorization 41 2 22 0 .deviceCertificate)
  | 42 => some (registryEvent 3 (some 22) (.certificate 40) 43)
  | 43 => some (adminAuthorization 43 2 22 0 .registryEvent)
  | 50 => some (.entry ⟨tableManifest 0 0 none, [], signedBy .recordDigest 104 20⟩)
  | 51 => some (.entry ⟨tableManifest 1 1 (some 100), [], signedBy .recordDigest 104 20⟩)
  | 52 => some (.entry ⟨tableManifest 2 0 none, [], signedBy .recordDigest 104 20⟩)
  | 60 => some (tableGrant 100)
  | 61 => some (tableGrant 101)
  | 62 => some (tableGrant 102)
  | hash => organization hash

/-- The names of the trust objects of `committingOrganization`. -/
def committingNames : List UInt8 :=
  [1, 2, 3, 4, 5, 10, 11, 12, 13, 20, 21, 22, 23, 40, 41, 42, 43]

/-! ## 9. The primitives -/

/-- The primitives over the organization; the recipient's key is one for sealing. -/
@[reducible] def serverCrypto : Crypto :=
  { tableCrypto committingOrganization with
    publicKey := fun bytes =>
      some (if (bytes.headD 0).toNat = 200 then .x25519 bytes else .ed25519 bytes) }

@[reducible] def serverSigner : ServerSigner where
  certificateHash := 30
  keyThumbprint := 105
  signReceipt _ := .ok (signedBy .receiptDigest 105 30)
  signCheckpoint _ := .ok (signedBy .checkpointCbor 105 30)

@[reducible] def noTexts : Cbor.TextRules where
  isUtf8 _ := true
  isNfc _ := true

/-- The name of an object the server builds, as a CBOR integer of one byte. -/
def builtName (base sequence : Nat) (time : Int) : Bytes :=
  [0x18, UInt8.ofNat (base + 20 * sequence + time.toNat % 20)]

/-- Built objects are told apart by sequence and time. -/
@[reducible] def serverBodies : ObjectBodies where
  receipt value := builtName 150 value.core.chainSequence value.core.acceptedAtServer
  evidence
    | .standard core _ => builtName 210 core.coveredThroughSequence core.issuedAtServer
    | _ => []

/-! ## 10. The server and its calls -/

/-- The server at time 15. -/
def tableServer : ServerState where
  clock := 15
  storeOrganizationId := 1
  organizations organizationId :=
    if organizationId = 1 then
      some ⟨.anchor organizationAnchor, committingNames.map fun name => (name.toNat, blob name)⟩
    else none
  objects _ _ := none
  database := {}

/-- The bytes of an entry or a grant of the table. -/
def tableBytes (kind : ObjectType) (name : UInt8) : Bytes := exactObjectPrefix kind ++ [name]

def tablePlan : GrantPlan where
  items := [⟨200, 40, .recovery⟩]
  built := ⟨[⟨200, 40, .recovery⟩], rfl⟩

/-- The request for an entry and its grant. -/
def tableRequest (entry grant : UInt8) : Except SyncProtocolError EntryCommitRequest :=
  @EntryCommitRequest.new serverCrypto (tableBytes .entry entry) tablePlan [tableBytes .grant grant]

theorem eq_ok_get {ε α : Type} {x : Except ε α} (h : x.toOption.isSome) :
    x = .ok (x.toOption.get h) := by
  cases x with
  | error e => simp [Except.toOption] at h
  | ok a => rfl

/-- The call of the writer for an entry and its grant. -/
def tableCall (entry grant : UInt8)
    (h : (tableRequest entry grant).toOption.isSome := by decide +kernel) :
    @CommitCall serverCrypto :=
  @CommitCall.mk serverCrypto ((tableRequest entry grant).toOption.get h) 1 2 20
    ⟨_, _, _, eq_ok_get h⟩

/-- The run of calls and occurrences from the server of the table on. -/
def tableRun (actions : List (Action (@CommitCall serverCrypto) Occurrence)) :
    Pool ServerState (@CommitCall serverCrypto) (@Port.Reply serverCrypto) CommitFailure
      CommitOutcome :=
  @System.run _ _ _ _ _ _ _
    (@commitRoute serverCrypto serverSigner noTexts serverBodies) ⟨tableServer, []⟩ actions

end Einsatzarchiv.Server
