/-
  File:      Einsatzarchiv/Writer/Ports.lean
  Subject:   The three stores of a writer installation and what its services call: the encrypted
             database (crates `ea-draft` and `ea-writer`), the key store (`ea-key-provider`) and
             the archive directory (`ea-archive-fs`).

  * `Installation`: the tables, the one slot of the draft key, the files and the generator of
    random values.
  * `Installation.Opens`: the key in the slot is the one the draft is sealed under.
  * `PreparedTransaction`, `staged_pairs`: what the marker of a prepared finalization carries.
  * `createIfAbsent`, `atomicRenameSameFs`: the files.
  * `claimIn`, `releaseIn`: the register of incident numbers and its journals.

  A random value is the next one of a counter: no value is drawn twice.  A sealed payload is known
  by its key: it opens under this key and under no other.

  * `Port`, `Port.Reply`, `ports`: every durable effect and every reading as one operation.  A
    transaction that fails changes nothing; a call of the key store or of the file system may
    take effect without saying so.
  * `loadOrCreate`, `save`, `replaceWithBlank`, `removeCiphertextAndIntentCreateBlank`: the
    repository of the one draft, with the key of a blank draft drawn inside the transaction.

  Locks: every call of the writer and of the discard service holds the draft lock, so that no two
  calls run at the same time.
-/
import Einsatzarchiv.Crypto
import Einsatzarchiv.Lib.Sessions

namespace Einsatzarchiv.Writer

open Format

/-! ## 1. Errors -/

/-- `KeyError`: every error but `NotFound` speaks about the moment and not about the key. -/
inductive KeyError
  | notFound | unavailable

/-- Why the database refuses. -/
inductive StoreError
  | database | constraint

/-- Why the archive refuses. -/
inductive ArchiveBackendError
  | byteConflict | io | flushFailed
deriving DecidableEq

/-- Why a draft cannot be used. -/
inductive DraftError
  | key (error : KeyError)
  | aeadOpen
  | localRng
  | store (error : StoreError)
  | noDraft
  | revisionConflict
  | incidentNumberTaken
  | preparedFinalizationPresent
  | noPendingDiscard
  | keyDeletionNotConfirmed
  | evidenceBinding
  | reauthRequired
  | reauthPurposeMismatch
  | reauthBindingMismatch

/-- `WriterError`; the errors of the chain, of the formats and of the payload schema keep their
codes. -/
inductive WriterError
  | originalIdentityMissing
  | originalIdentityMismatch
  | destructionEvidenceInvalid
  | originalArchiveUnverified
  | chainHeadUnusable
  | rollbackDetected
  | sequenceLeaseExhausted
  | registryStaleBlocked
  | noActiveRecoveryRecipient
  | readerWithoutKemKey
  | archiveProfileNotAllowed
  | incidentNumberTaken
  | operatorProfileCommitment
  | operatorProfileMissing
  | reauthRequired
  | reauthPurposeMismatch
  | reauthBindingMismatch
  | headReconciliationRequired
  | chainIdMismatch
  | writerRevoked
  | writerTransitionRequired
  | writerTransitionMismatch
  | preparedFinalizationPresent
  | preparedFinalizationUnreadable
  | preparedFinalizationInconsistent
  | staleAckPreviewMismatch
  | staleAckRequired
  | staleAckReplay
  | localRng
  | keyDeletionNotConfirmed
  | archive
  | backend (error : ArchiveBackendError)
  | crypto
  | draft (error : DraftError)
  | format
  | key (error : KeyError)
  | store (error : StoreError)
  | payload (code : String)

/-! ## 2. Drafts -/

/-- A random value, by its number. -/
abbrev Draw := Nat

/-- The row of the one draft.  The payload is the sealed text of the notes. -/
structure DraftRow where
  draftId : Id16
  revision : Nat
  key : Draw
  notes : String

/-- An opened draft. -/
structure Draft where
  draftId : Id16
  revision : Nat
  notes : String

structure SavedDraft where
  draftId : Id16
  revision : Nat

def DraftRow.opened (row : DraftRow) : Draft := ⟨row.draftId, row.revision, row.notes⟩

structure DiscardIntent where
  draftId : Id16
  revision : Nat
deriving DecidableEq

/-! ## 3. Prepared transactions -/

/-- `PreparedTransactionV1`: what is to be published.  The grants stand with their object hashes,
as the marker encodes them. -/
structure PreparedTransaction where
  sequence : Nat
  entryHash : EntryHash
  entryObjectHash : ObjectHash
  entryBytes : Bytes
  grants : List (Hash32 × Bytes)
  grantPlanHash : Hash32

/-- The one place of `draft_transition`. -/
inductive Transition
  | discard (intent : DiscardIntent)
  | finalization (marker : PreparedTransaction)

/-- Where a file belongs: `entries/<sequence>_<entry hash>.eip`,
`grants/<entry hash>_<object hash>.eag`, or any other name. -/
inductive Target
  | entry (sequence : Nat) (entryHash : EntryHash)
  | grant (entryHash : EntryHash) (objectHash : Hash32)
  | other (name : String)
deriving DecidableEq

/-- An address of the archive; the staging suffix stands in the directory of the target. -/
structure ArchivePath where
  target : Target
  staging : Bool := false
deriving DecidableEq

def stagingPath (path : ArchivePath) : ArchivePath := { path with staging := true }

namespace PreparedTransaction

variable (transaction : PreparedTransaction)

/-- Where the entry goes. -/
def entryPath : ArchivePath := ⟨.entry transaction.sequence transaction.entryHash, false⟩

/-- Where a grant goes. -/
def grantPath (grant : Hash32 × Bytes) : ArchivePath :=
  ⟨.grant transaction.entryHash grant.1, false⟩

/-- `targets`, with their bytes: each grant, then the entry. -/
def grantPairs : List (ArchivePath × Bytes) :=
  transaction.grants.map fun grant => (transaction.grantPath grant, grant.2)

/-- Paths and bytes, the entry last. -/
def pairs : List (ArchivePath × Bytes) :=
  transaction.grantPairs ++ [(transaction.entryPath, transaction.entryBytes)]

def stagedPairs : List (ArchivePath × Bytes) :=
  transaction.pairs.map fun pair => (stagingPath pair.1, pair.2)

end PreparedTransaction

/-! ## 4. Files -/

abbrev Files := List (ArchivePath × Bytes)

section

variable (files : Files)

def Files.read (path : ArchivePath) : Option Bytes :=
  (files.find? (·.1 = path)).map (·.2)

def Files.remove (path : ArchivePath) : Files :=
  files.filter (·.1 ≠ path)

/-- The blobs without those under a staging address (`PublishedObjectsOnly`). -/
def Files.published : List Bytes :=
  (files.filter (!·.1.staging)).map (·.2)

/-- A new file; the same bytes once more are no error. -/
def createIfAbsent (path : ArchivePath) (bytes : Bytes) :
    Except ArchiveBackendError Files :=
  match files.read path with
  | some existing => if existing = bytes then .ok files else .error .byteConflict
  | none => .ok (files ++ [(path, bytes)])

/-- `atomic_rename_same_fs`: a target that exists has to carry the same bytes, and then only the
source is given up. -/
def atomicRenameSameFs (source target : ArchivePath) :
    Except ArchiveBackendError Files :=
  match files.read target, files.read source with
  | some existing, some staged =>
    if existing = staged then .ok (files.remove source) else .error .byteConflict
  | none, some staged => .ok (files.remove source ++ [(target, staged)])
  | _, none => .error .io

end

/-! ## 5. Incident numbers -/

/-- NFC of the text of an incident number (crate `unicode-normalization`). -/
class Normalization where
  nfc : String → String

/-- The key of the register. -/
structure NumberKey where
  organizationId : OrganizationId
  civilYear : Int
  number : String
deriving DecidableEq

/-- Which journal holds a claim: that of ordinary finalizations, by its running number, or that of
finalizations on a stale registry, by the acknowledgement. -/
inductive ClaimSource
  | original (claimId : Nat)
  | stale (eventId : EventId)
deriving DecidableEq

/-- The claim was made with a stale registry. -/
def ClaimSource.isStale : ClaimSource → Bool
  | .original _ => false
  | .stale _ => true

/-- A row of `writer_incident_claim` or `writer_stale_claim`. -/
structure Claim where
  source : ClaimSource
  draftId : Id16
  revision : Nat
  organizationId : OrganizationId
  civilYear : Int
  number : String

/-- A row of `writer_original_identity`.  The claim of the attempt that wrote it is no column of
the table; it ties the row to its attempt. -/
structure OriginalIdentity where
  entryHash : EntryHash
  objectHash : ObjectHash
  recordId : Id16
  sequence : Nat
  organizationId : OrganizationId
  civilYear : Int
  number : String
  claim : ClaimSource

section Keys

variable [Normalization]

/-- `register_key`, with organization and year. -/
def registerKey (organizationId : OrganizationId) (civilYear : Int) (number : String) :
    NumberKey := ⟨organizationId, civilYear, Normalization.nfc number⟩

/-- The number a claim keeps. -/
def Claim.key (claim : Claim) : NumberKey :=
  registerKey claim.organizationId claim.civilYear claim.number

def OriginalIdentity.key (identity : OriginalIdentity) : NumberKey :=
  registerKey identity.organizationId identity.civilYear identity.number

end Keys

/-! ## 6. The installation -/

/-- The database, the keys and the archive of a device. -/
structure Installation where
  draft : Option DraftRow := none
  transition : Option Transition := none
  /-- The numbers of `incident_number_register`, and those kept as tokens after a destruction. -/
  register : List NumberKey := []
  retained : List NumberKey := []
  /-- Both journals of claims, and the claims that are released. -/
  claims : List Claim := []
  released : List ClaimSource := []
  /-- The signed acknowledgements of a stale registry, and those that are used up. -/
  receipts : List (EventId × Bytes) := []
  consumed : List EventId := []
  /-- The entries prepared under an acknowledgement. -/
  stalePrepared : List (EntryHash × EventId) := []
  identities : List OriginalIdentity := []
  publishedIdentities : List EntryHash := []
  /-- `writer_destruction_evidence`: the entries of destruction evidence. -/
  evidence : List (EntryHash × ObjectHash) := []
  profile : Option OperatorProfile := none
  /-- The slot of the key store: storage, account and purpose have one place. -/
  slot : Option Draw := none
  files : Files := []
  /-- How many random values have been drawn. -/
  draws : Nat := 0

/-- The key in the slot opens the draft, if there is one. -/
def Installation.Opens (s : Installation) : Prop :=
  ∀ row ∈ s.draft, s.slot = some row.key

instance (s : Installation) : Decidable s.Opens :=
  inferInstanceAs (Decidable (∀ row ∈ s.draft, s.slot = some row.key))

def Installation.marker (s : Installation) : Option PreparedTransaction :=
  match s.transition with
  | some (.finalization marker) => some marker
  | _ => none

def Installation.intent (s : Installation) : Option DiscardIntent :=
  match s.transition with
  | some (.discard intent) => some intent
  | _ => none

theorem Installation.intent_eq_some {s : Installation} {intent : DiscardIntent} :
    s.intent = some intent ↔ s.transition = some (.discard intent) := by
  unfold Installation.intent
  split <;> simp_all

section Register

variable [Normalization]

/-- `claim_in`: the number is kept neither as a row nor as a token. -/
def claimIn (s : Installation) (claim : Claim) : Except DraftError Installation :=
  if claim.key ∈ s.retained ∨ claim.key ∈ s.register then .error .incidentNumberTaken
  else .ok { s with
    register := claim.key :: s.register
    claims := s.claims ++ [claim] }

/-- `release_original_claim` and `release_claim`: a claim is released once. -/
def releaseIn (s : Installation) (source : ClaimSource) : Installation :=
  match s.claims.find? (·.source = source) with
  | some claim =>
    if source ∈ s.released then s
    else { s with
      register := s.register.filter (· ≠ claim.key)
      released := source :: s.released }
  | none => s

end Register

/-- The claims of a draft up to a revision that are not released. -/
def unreleasedClaims (s : Installation) (stale : Bool) (draftId : Id16) (revision : Nat) :
    List ClaimSource :=
  ((s.claims.filter fun claim => claim.source.isStale = stale ∧ claim.draftId = draftId
    ∧ claim.revision ≤ revision ∧ claim.source ∉ s.released).map (·.source))

/-! ## 7. Small facts about files -/

section FileLemmas

variable {files files' : Files} {path other src tgt : ArchivePath} {bytes : Bytes}

theorem Files.read_append_singleton (h : files.read path = none) :
    (files ++ [(path, bytes)] : Files).read other =
      if other = path then some bytes else files.read other := by
  unfold read at *
  rw [List.find?_append]
  by_cases ho : other = path
  · subst ho
    rw [Option.map_eq_none_iff.mp h]
    simp
  · cases files.find? (·.1 = other) with
    | none => simp [ho, Ne.symm ho]
    | some _ => simp [ho]

theorem Files.read_filter (p : ArchivePath → Bool) :
    Files.read (files.filter fun row => p row.1) path =
      if p path then files.read path else none := by
  unfold Files.read
  rw [List.find?_filter]
  by_cases hp : p path = true
  · rw [if_pos hp]
    congr 2
    funext row
    by_cases hr : row.1 = path <;> simp [hr, hp]
  · rw [if_neg hp, Option.map_eq_none_iff, List.find?_eq_none]
    intro row _ h
    simp only [decide_eq_true_eq] at h
    exact hp (h.2 ▸ h.1)

theorem Files.read_remove :
    (files.remove path).read other = if other = path then none else files.read other := by
  rw [Files.remove, Files.read_filter (· ≠ path)]
  by_cases ho : other = path <;> simp [ho]

/-- What a creation leaves: a new file, or everything as it is. -/
theorem createIfAbsent_eq_ok : createIfAbsent files path bytes = .ok files' ↔
      (files.read path = some bytes ∧ files' = files)
        ∨ files.read path = none ∧ files' = files ++ [(path, bytes)] := by
  unfold createIfAbsent
  cases hr : files.read path with
  | none => simp [eq_comm]
  | some old =>
    by_cases he : old = bytes
    · simp [he, eq_comm]
    · simp [he]

/-- What a renaming leaves. -/
theorem atomicRenameSameFs_eq_ok : atomicRenameSameFs files src tgt = .ok files' ↔
      ∃ staged, files.read src = some staged
        ∧ ((files.read tgt = some staged ∧ files' = files.remove src)
          ∨ files.read tgt = none ∧ files' = files.remove src ++ [(tgt, staged)]) := by
  unfold atomicRenameSameFs
  cases ht : files.read tgt with
  | none =>
    cases hs : files.read src with
    | none => simp
    | some staged => simp [eq_comm]
  | some old =>
    cases hs : files.read src with
    | none => simp
    | some staged =>
      by_cases he : old = staged
      · simp [he, eq_comm]
      · simp [he]

end FileLemmas

open Lib

/-- What `ea-destruction` says about an entry of destruction evidence. -/
class EvidenceRules where
  accepts : Bytes → Bool

variable [Crypto] [Normalization] [EvidenceRules]

/-! ## 8. Operations -/

/-- `StaleRegistryAcknowledgement`: the signed event of the acknowledgement. -/
structure AcknowledgementEvent where
  eventId : EventId
  exactBytes : Bytes

/-- A claim that is still to be made. -/
structure ClaimedIncidentNumber where
  organizationId : OrganizationId
  localCivilYear : Int
  humanIncidentNumber : String

/-- The operations of the writer. -/
inductive Port
  -- the encrypted database
  | preparedFinalizationMarker
  | pendingDiscard
  | readRow
  | insertBlank (draftId : Id16) (dek : Draw)
  | replaceDraft (draftId : Id16) (dek : Draw)
  | updateDraft (draft : Draft) (dek : Draw)
  | commitDiscardIntent (saved : SavedDraft)
  | replacePreparedFinalizationMarker (marker : Option PreparedTransaction)
  | operatorProfile
  | containsNumber (key : NumberKey)
  | claimNumber (eventId : Option EventId) (draft : Draft) (claim : ClaimedIncidentNumber)
  | releaseClaim (source : ClaimSource)
  | hasClaimsOfDraft
  | hasUnreleasedStaleClaims
  | unreleasedClaims (stale : Bool) (draft : Draft)
  | requireUnused (event : AcknowledgementEvent)
  | consume (event : AcknowledgementEvent)
  | recordPreparedClaim (eventId : EventId) (entryHash : EntryHash)
  | recordOriginalIdentity (identity : OriginalIdentity)
  | originalIdentity (entryHash : EntryHash)
  | confirmOriginalPublication (transaction : PreparedTransaction)
  | bindPreparedEntry (transaction : PreparedTransaction)
  | validatePreparedEvidence (required : Bool) (transaction : PreparedTransaction)
  -- random values
  | draw
  -- the key store
  | wrapSecret
  | unwrapSecret
  | deleteKey
  | containsKey
  | sign
  -- the archive directory
  | visitBlobs
  | createIfAbsent (path : ArchivePath) (bytes : Bytes)
  | syncFile (path : ArchivePath)
  | syncDirectory (path : ArchivePath)
  | atomicRenameSameFs (source target : ArchivePath)

@[reducible] def Port.Reply : Port → Type
  | .preparedFinalizationMarker => Except DraftError (Option PreparedTransaction)
  | .pendingDiscard => Except DraftError (Option DiscardIntent)
  | .readRow => Except DraftError (Option DraftRow)
  | .insertBlank .. | .replaceDraft .. | .updateDraft .. => Except DraftError Unit
  | .commitDiscardIntent _ => Except DraftError DiscardIntent
  | .replacePreparedFinalizationMarker _ => Except DraftError Unit
  | .operatorProfile => Except DraftError (Option OperatorProfile)
  | .containsNumber _ => Except DraftError Bool
  | .claimNumber .. => Except WriterError ClaimSource
  | .releaseClaim _ => Except WriterError Unit
  | .hasClaimsOfDraft | .hasUnreleasedStaleClaims => Except WriterError Bool
  | .unreleasedClaims .. => Except WriterError (List ClaimSource)
  | .requireUnused _ | .consume _ | .recordPreparedClaim .. | .recordOriginalIdentity _ =>
    Except WriterError Unit
  | .originalIdentity _ => Except WriterError (Option OriginalIdentity)
  | .confirmOriginalPublication _ | .bindPreparedEntry _ | .validatePreparedEvidence .. =>
    Except WriterError Unit
  | .draw => Except DraftError Draw
  | .wrapSecret | .deleteKey | .sign => Except KeyError Unit
  | .unwrapSecret => Except KeyError Draw
  | .containsKey => Except KeyError Bool
  | .visitBlobs => Except ArchiveBackendError Files
  | .createIfAbsent .. | .syncFile _ | .syncDirectory _ | .atomicRenameSameFs .. =>
    Except ArchiveBackendError Unit

/-! ## 9. What the operations do -/

/-- The state of a blank draft. -/
def blankRow (draftId : Id16) (dek : Draw) : DraftRow := ⟨draftId, 0, dek, ""⟩

namespace Installation

variable (s : Installation)

/-- The `UPDATE` of `save`: the row has the revision that was read, and is sealed again. -/
def updateDraft (draft : Draft) (dek : Draw) :
    Except DraftError Installation :=
  match s.draft with
  | none => .error .noDraft
  | some row =>
    if row.draftId = draft.draftId ∧ row.revision = draft.revision then
      .ok { s with draft := some ⟨row.draftId, row.revision + 1, dek, draft.notes⟩ }
    else .error .revisionConflict

/-- `commit_discard_intent`: a prepared finalization is not displaced. -/
def commitDiscardIntent (saved : SavedDraft) :
    Except DraftError (DiscardIntent × Installation) :=
  match s.draft with
  | none => .error .noDraft
  | some row =>
    if row.draftId ≠ saved.draftId ∨ row.revision ≠ saved.revision then .error .revisionConflict
    else if s.marker.isSome then .error .preparedFinalizationPresent
    else .ok (⟨row.draftId, row.revision⟩,
      { s with transition := some (.discard ⟨row.draftId, row.revision⟩) })

/-- `replace_prepared_finalization_marker`: the marker takes the one place, whatever stands
there; clearing it leaves a discard intent. -/
def replacePreparedFinalizationMarker :
    Option PreparedTransaction → Installation
  | some marker => { s with transition := some (.finalization marker) }
  | none => if s.marker.isSome then { s with transition := none } else s

/-- Whose claim the next one is. -/
def claimSourceFor : Option EventId → ClaimSource
  | none => .original s.claims.length
  | some eventId => .stale eventId

/-- `claim_original_number` and `claim_number`, in one transaction.  The key of the second
journal is the acknowledgement, which has to be used up. -/
def claimNumber (eventId : Option EventId) (draft : Draft)
    (claim : ClaimedIncidentNumber) : Except WriterError (ClaimSource × Installation) :=
  match s.draft with
  | none => .error .preparedFinalizationInconsistent
  | some row =>
    if row.draftId ≠ draft.draftId ∨ row.revision ≠ draft.revision then
      .error .preparedFinalizationInconsistent
    else
      match claimIn s ⟨s.claimSourceFor eventId, draft.draftId, draft.revision,
          claim.organizationId, claim.localCivilYear, claim.humanIncidentNumber⟩ with
      | .error _ => .error .incidentNumberTaken
      | .ok t =>
        if (s.claims.map (·.source)).contains (s.claimSourceFor eventId)
            ∨ ¬ eventId.all (s.consumed.contains ·) then .error (.store .constraint)
        else .ok (s.claimSourceFor eventId, t)

/-- A draft may release its own claims only; the first query does not open it. -/
def hasClaimsOfDraft : Bool :=
  s.draft.any fun row => !(unreleasedClaims s false row.draftId row.revision).isEmpty

def hasUnreleasedStaleClaims : Bool :=
  s.claims.any fun claim => claim.source.isStale && !s.released.contains claim.source

/-- The acknowledgement was not used before. -/
def requireUnused (event : AcknowledgementEvent) : Except WriterError Unit :=
  match s.receipts.find? (·.1 = event.eventId) with
  | some receipt =>
    if s.consumed.contains event.eventId then .error .staleAckReplay
    else if receipt.2 = event.exactBytes then .ok () else .error .staleAckPreviewMismatch
  | none => .error .staleAckReplay

/-- The acknowledgement is used up. -/
def consume (event : AcknowledgementEvent) : Except WriterError Installation :=
  if (event.eventId, event.exactBytes) ∈ s.receipts ∧ event.eventId ∉ s.consumed then
    .ok { s with consumed := event.eventId :: s.consumed }
  else .error .staleAckReplay

/-- `record_prepared_claim`: entry and acknowledgement are unique. -/
def recordPreparedClaim (eventId : EventId) (entryHash : EntryHash) :
    Except WriterError Installation :=
  if s.stalePrepared.any fun row => row.1 = entryHash ∨ row.2 = eventId then
    .error (.store .constraint)
  else .ok { s with stalePrepared := s.stalePrepared ++ [(entryHash, eventId)] }

/-- `record_original_identity`: the entry hash is the key, the sequence an `i64`. -/
def recordOriginalIdentity (identity : OriginalIdentity) :
    Except WriterError Installation :=
  if i64Max < identity.sequence then .error .originalIdentityMismatch
  else if s.identities.any (·.entryHash = identity.entryHash) then .error (.store .constraint)
  else .ok { s with identities := s.identities ++ [identity] }

/-- The identity of a published entry. -/
def publishedIdentity (entryHash : EntryHash) : Option OriginalIdentity :=
  if s.publishedIdentities.contains entryHash then
    s.identities.find? (·.entryHash = entryHash)
  else none

/-- The identity of a published entry is confirmed. -/
def confirmOriginalPublication (transaction : PreparedTransaction) :
    Except WriterError Installation :=
  match s.identities.find? (·.entryHash = transaction.entryHash) with
  | none => .ok s
  | some identity =>
    if identity.objectHash ≠ transaction.entryObjectHash
        ∨ identity.sequence ≠ transaction.sequence then .error .originalIdentityMismatch
    else if s.publishedIdentities.contains transaction.entryHash then .ok s
    else .ok { s with publishedIdentities := transaction.entryHash :: s.publishedIdentities }

/-- The evidence belongs to the entry from now on. -/
def bindPreparedEntry (transaction : PreparedTransaction) :
    Except WriterError Installation :=
  if ¬ EvidenceRules.accepts transaction.entryBytes then .error .destructionEvidenceInvalid
  else
    match s.evidence.find? (·.1 = transaction.entryHash) with
    | some row =>
      if row.2 = transaction.entryObjectHash then .ok s else .error .destructionEvidenceInvalid
    | none => .ok { s with
        evidence := s.evidence ++ [(transaction.entryHash, transaction.entryObjectHash)] }

/-- `validate_prepared_evidence`: an entry without a row is of another kind;
`require_prepared_evidence_source` wants the row. -/
def validatePreparedEvidence (required : Bool) (transaction : PreparedTransaction) :
    Except WriterError Unit :=
  match s.evidence.find? (·.1 = transaction.entryHash) with
  | none => if required then .error .destructionEvidenceInvalid else .ok ()
  | some row =>
    if row.2 = transaction.entryObjectHash ∧ EvidenceRules.accepts transaction.entryBytes then
      .ok ()
    else .error .destructionEvidenceInvalid

end Installation

/-- A transaction: the new state, or the error and the old one. -/
def commit {ε : Type} (s : Installation) : Except ε Installation → Except ε Unit × Installation
  | .ok t => (.ok (), t)
  | .error e => (.error e, s)

/-- The same with a value. -/
def commitWith {ε α : Type} (s : Installation) :
    Except ε (α × Installation) → Except ε α × Installation
  | .ok (a, t) => (.ok a, t)
  | .error e => (.error e, s)

/-- What an operation does when it is carried out. -/
def Port.perform : (port : Port) → Installation → port.Reply × Installation
  | .preparedFinalizationMarker, s => (.ok s.marker, s)
  | .pendingDiscard, s => (.ok s.intent, s)
  | .readRow, s => (.ok s.draft, s)
  | .insertBlank draftId dek, s =>
    commit s (if s.draft.isSome then .error (.store .constraint)
      else .ok { s with draft := some (blankRow draftId dek) })
  | .replaceDraft draftId dek, s =>
    (.ok (), { s with draft := some (blankRow draftId dek), transition := none })
  | .updateDraft draft dek, s => commit s (s.updateDraft draft dek)
  | .commitDiscardIntent saved, s => commitWith s (s.commitDiscardIntent saved)
  | .replacePreparedFinalizationMarker marker, s =>
    (.ok (), s.replacePreparedFinalizationMarker marker)
  | .operatorProfile, s => (.ok s.profile, s)
  | .containsNumber key, s => (.ok (s.retained.contains key || s.register.contains key), s)
  | .claimNumber eventId draft claim, s => commitWith s (s.claimNumber eventId draft claim)
  | .releaseClaim source, s => (.ok (), releaseIn s source)
  | .hasClaimsOfDraft, s => (.ok (s.hasClaimsOfDraft), s)
  | .hasUnreleasedStaleClaims, s => (.ok (s.hasUnreleasedStaleClaims), s)
  | .unreleasedClaims stale draft, s =>
    (.ok (Writer.unreleasedClaims s stale draft.draftId draft.revision), s)
  | .requireUnused event, s => (s.requireUnused event, s)
  | .consume event, s => commit s (s.consume event)
  | .recordPreparedClaim eventId entryHash, s =>
    commit s (s.recordPreparedClaim eventId entryHash)
  | .recordOriginalIdentity identity, s => commit s (s.recordOriginalIdentity identity)
  | .originalIdentity entryHash, s => (.ok (s.publishedIdentity entryHash), s)
  | .confirmOriginalPublication transaction, s =>
    commit s (s.confirmOriginalPublication transaction)
  | .bindPreparedEntry transaction, s => commit s (s.bindPreparedEntry transaction)
  | .validatePreparedEvidence required transaction, s =>
    (s.validatePreparedEvidence required transaction, s)
  | .draw, s => (.ok s.draws, { s with draws := s.draws + 1 })
  | .wrapSecret, s => (.ok (), { s with slot := some s.draws, draws := s.draws + 1 })
  | .unwrapSecret, s => ((match s.slot with | some key => .ok key | none => .error .notFound), s)
  | .deleteKey, s =>
    ((if s.slot.isSome then .ok () else .error .notFound), { s with slot := none })
  | .containsKey, s => (.ok s.slot.isSome, s)
  | .sign, s => (.ok (), s)
  | .visitBlobs, s => (.ok s.files, s)
  | .createIfAbsent path bytes, s =>
    commit s ((Writer.createIfAbsent s.files path bytes).map fun files => { s with files })
  | .syncFile _, s | .syncDirectory _, s => (.ok (), s)
  | .atomicRenameSameFs source target, s =>
    commit s ((Writer.atomicRenameSameFs s.files source target).map fun files =>
      { s with files })

/-- What an operation answers when it fails on its own account. -/
def Port.refuse : (port : Port) → Option port.Reply
  | .preparedFinalizationMarker | .pendingDiscard | .readRow | .insertBlank .. | .replaceDraft ..
  | .updateDraft .. | .commitDiscardIntent _ | .replacePreparedFinalizationMarker _
  | .operatorProfile | .containsNumber _ | .claimNumber .. | .releaseClaim _ | .hasClaimsOfDraft
  | .hasUnreleasedStaleClaims | .unreleasedClaims .. | .requireUnused _ | .consume _
  | .recordPreparedClaim .. | .recordOriginalIdentity _ | .originalIdentity _
  | .confirmOriginalPublication _ => some (.error (.store .database))
  | .bindPreparedEntry _ | .validatePreparedEvidence .. => some (.error .destructionEvidenceInvalid)
  | .draw => some (.error .localRng)
  | .wrapSecret | .unwrapSecret | .deleteKey | .containsKey | .sign => some (.error .unavailable)
  | .visitBlobs | .createIfAbsent .. => some (.error .io)
  | .syncFile _ | .syncDirectory _ => some (.error .flushFailed)
  | .atomicRenameSameFs .. => some (.error .io)

/-- A transaction takes effect with its commit; key store and files have no transaction. -/
def Port.lossy : Port → Bool
  | .wrapSecret | .deleteKey | .createIfAbsent .. | .atomicRenameSameFs .. => true
  | _ => false

/-- The operations, and what is left of one that fails. -/
def ports : Devices Installation Port.Reply where
  perform := Port.perform
  refuse := Port.refuse
  lossy := Port.lossy

end Einsatzarchiv.Writer
