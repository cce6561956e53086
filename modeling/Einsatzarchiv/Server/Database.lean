/-
  File:      Einsatzarchiv/Server/Database.lean
  Subject:   The tables of the server and the commit transaction (crate `ea-sync-server`,
             `models.rs`; application `server`, `postgres.rs` and `0001_initial.sql`).

  * `Database`: the tables as lists of rows in the order of insertion.
  * `headState`, `checkpointHead`: the two reads outside the transaction.
  * `commitLockedHead`: the transaction, with the constraints of the tables; a failed
    transaction leaves no row behind.
  * `HasIdentity`: the identity under which an entry was accepted.
  * `commitLockedHead_eq_ok`: what a successful transaction found and wrote.
-/
import Einsatzarchiv.Protocol.Commit

namespace Einsatzarchiv.Server

open Lib Format Protocol

/-! ## 1. Rows -/

/-- Why the tables refuse. -/
inductive RepositoryError
  | headConflict | commitIdentityConflict | checkpointPredecessorConflict | requestIdReplay
  | unavailable

/-- The head of a chain, which commits lock. -/
structure ChainHeadRow where
  organizationId : OrganizationId
  chainId : ChainId
  headSequence : Nat
  headEntryHash : EntryHash
  headAcceptedAtServer : Int
  revision : Nat

/-- An accepted entry. -/
structure EntryRow where
  entryHash : EntryHash
  organizationId : OrganizationId
  chainId : ChainId
  sequenceNumber : Nat
  previousEntryHash : Option EntryHash
  entryObjectHash : ObjectHash
  initialGrantPlanHash : Hash32
  receiptObjectHash : ObjectHash
  deviceId : DeviceId
  acceptedAtServer : Int
  evidenceDueAt : Option Int
  registryVersion : Nat
  registryHeadHash : ObjectHash
deriving DecidableEq

structure ObjectIndexRow where
  objectHash : ObjectHash
  organizationId : OrganizationId
  objectType : ObjectType
  sizeBytes : Nat
  storedAt : Int

structure GrantRow where
  objectHash : ObjectHash
  organizationId : OrganizationId
  entryHash : EntryHash
  recipientKeyThumbprint : KeyThumbprint
  grantKind : GrantKind
  expiresAt : Option Int

structure ReceiptRow where
  objectHash : ObjectHash
  organizationId : OrganizationId
  entryHash : EntryHash
  acceptedAtServer : Int
  evidenceDueAt : Option Int

structure CheckpointRow where
  objectHash : ObjectHash
  organizationId : OrganizationId
  chainId : ChainId
  coveredSequence : Nat
  issuedAt : Int

structure DestructionTargetRow where
  organizationId : OrganizationId
  entryHash : EntryHash
deriving DecidableEq

/-- The tables. -/
structure Database where
  chainHeads : List ChainHeadRow := []
  entries : List EntryRow := []
  objectIndex : List ObjectIndexRow := []
  grants : List GrantRow := []
  receipts : List ReceiptRow := []
  checkpoints : List CheckpointRow := []
  destructionTargets : List DestructionTargetRow := []

/-! ## 2. Commands and answers -/

/-- An object that a commit puts into the index. -/
structure IndexedObject where
  kind : ObjectType
  objectHash : ObjectHash
  sizeBytes : Nat

structure GrantRecipient where
  objectHash : ObjectHash
  recipientKeyThumbprint : KeyThumbprint

structure CheckpointCommit where
  objectHash : ObjectHash
  coveredSequence : Nat
  issuedAtServer : Int
  previousEvidenceHash : Option ObjectHash

/-- `CommitDbCommand`; its identity is that of the request, as `db_identity` copies it. -/
structure CommitDbCommand where
  organizationId : OrganizationId
  chainId : ChainId
  deviceId : DeviceId
  sequence : Nat
  previousEntryHash : Option EntryHash
  identity : EntryCommitIdentity
  grantRecipients : List GrantRecipient
  receiptObjectHash : ObjectHash
  acceptedAtServer : Int
  evidenceDueAt : Option Int
  registryVersion : Nat
  registryHeadHash : ObjectHash
  indexedObjects : List IndexedObject
  checkpoint : CheckpointCommit

/-- What a commit finds or leaves in the tables. -/
structure CommittedDbState where
  sequence : Nat
  entryHash : EntryHash
  (receiptObjectHash checkpointObjectHash : ObjectHash)
  acceptedAtServer : Int
  newlyCommitted : Bool

structure ChainHeadState where
  sequence : Nat
  entryHash : EntryHash
  acceptedAtServer : Int
deriving DecidableEq

/-- `i64::try_from`: a `BIGINT` column takes the value. -/
def fitsBigint (value : Nat) : Bool := value ≤ i64Max

namespace Database

/-! ## 3. Reads -/

section Reads

variable (db : Database) (organizationId : OrganizationId) (chainId : ChainId)

def headRow : Option ChainHeadRow :=
  db.chainHeads.find? fun row => row.organizationId = organizationId ∧ row.chainId = chainId

def headState : Option ChainHeadState :=
  (db.headRow organizationId chainId).map fun row =>
    ⟨row.headSequence, row.headEntryHash, row.headAcceptedAtServer⟩

/-- The entries of a chain, in the order they were accepted. -/
def chainEntries : List EntryRow :=
  db.entries.filter fun row => row.organizationId = organizationId ∧ row.chainId = chainId

def chainCheckpoints : List CheckpointRow :=
  db.checkpoints.filter fun row => row.organizationId = organizationId ∧ row.chainId = chainId

/-- `ORDER BY covered_sequence DESC LIMIT 1`. -/
def checkpointHead : Option ObjectHash :=
  ((db.chainCheckpoints organizationId chainId).argmax (·.coveredSequence)).map (·.objectHash)

def entryOf (entryHash : EntryHash) : Option EntryRow :=
  db.entries.find? fun row => row.entryHash = entryHash

/-- The hashes of the initial grants of an entry, `ORDER BY object_hash`. -/
def initialGrants (entryHash : EntryHash) : List ObjectHash :=
  sortByKey id ((db.grants.filter fun row =>
    row.entryHash = entryHash ∧ row.grantKind = .initial).map (·.objectHash))

def storedCheckpoint (sequence : Nat) : Except RepositoryError ObjectHash := do
  ensure (fitsBigint sequence) .unavailable
  okOr (((db.chainCheckpoints organizationId chainId).find? fun row =>
    row.coveredSequence = sequence).map (·.objectHash)) .unavailable

def objectTypeOf (hash : ObjectHash) : Option ObjectType :=
  (db.objectIndex.find? fun row => row.objectHash = hash).map (·.objectType)

end Reads

/-! ## 4. Inserts -/

section Inserts

variable (command : CommitDbCommand)

section

variable (db : Database)

/-- The row is written unless its hash is known already. -/
def insertIndexedObject (object : IndexedObject) :
    Except RepositoryError Database := do
  ensure (fitsBigint object.sizeBytes) .unavailable
  return if (db.objectTypeOf object.objectHash).isSome then db
    else { db with objectIndex := db.objectIndex ++ [{
      objectHash := object.objectHash
      organizationId := command.organizationId
      objectType := object.kind
      sizeBytes := object.sizeBytes
      storedAt := command.acceptedAtServer }] }

def entryRow : EntryRow where
  entryHash := command.identity.entryHash
  organizationId := command.organizationId
  chainId := command.chainId
  sequenceNumber := command.sequence
  previousEntryHash := command.previousEntryHash
  entryObjectHash := command.identity.entryObjectHash
  initialGrantPlanHash := command.identity.initialGrantPlanHash
  receiptObjectHash := command.receiptObjectHash
  deviceId := command.deviceId
  acceptedAtServer := command.acceptedAtServer
  evidenceDueAt := command.evidenceDueAt
  registryVersion := command.registryVersion
  registryHeadHash := command.registryHeadHash

/-- `entries` is unique in the entry hash, in the object hash and in chain and sequence. -/
def insertEntry : Except RepositoryError Database := do
  ensure (fitsBigint command.sequence) .unavailable
  ensure (fitsBigint command.registryVersion) .unavailable
  ensure (db.entries.all fun row => row.entryHash ≠ command.identity.entryHash)
    .commitIdentityConflict
  ensure (db.entries.all fun row => row.entryObjectHash ≠ command.identity.entryObjectHash)
    .commitIdentityConflict
  ensure (db.entries.all fun row =>
    ¬ (row.chainId = command.chainId ∧ row.sequenceNumber = command.sequence)) .headConflict
  return { db with entries := db.entries ++ [entryRow command] }

/-- The row references an indexed object. -/
def requireIndexed (objectHash : ObjectHash) : Except RepositoryError Unit :=
  ensure (db.objectTypeOf objectHash).isSome .unavailable

def grantRow (recipient : GrantRecipient) : GrantRow where
  objectHash := recipient.objectHash
  organizationId := command.organizationId
  entryHash := command.identity.entryHash
  recipientKeyThumbprint := recipient.recipientKeyThumbprint
  grantKind := .initial
  expiresAt := none

/-- The row is written unless its hash is known already. -/
def insertGrant (grant : ObjectHash) : Except RepositoryError Database := do
  let recipient ← okOr (command.grantRecipients.find? fun recipient =>
    recipient.objectHash = grant) .unavailable
  if db.grants.any fun row => row.objectHash = grant then
    return db
  else
    db.requireIndexed grant
    return { db with grants := db.grants ++ [grantRow command recipient] }

def receiptRow : ReceiptRow where
  objectHash := command.receiptObjectHash
  organizationId := command.organizationId
  entryHash := command.identity.entryHash
  acceptedAtServer := command.acceptedAtServer
  evidenceDueAt := command.evidenceDueAt

/-- An entry has one receipt. -/
def insertReceipt : Except RepositoryError Database := do
  ensure (db.receipts.all fun row => row.objectHash ≠ command.receiptObjectHash
    ∧ row.entryHash ≠ command.identity.entryHash) .commitIdentityConflict
  db.requireIndexed command.receiptObjectHash
  return { db with receipts := db.receipts ++ [receiptRow command] }

def checkpointRow : CheckpointRow where
  objectHash := command.checkpoint.objectHash
  organizationId := command.organizationId
  chainId := command.chainId
  coveredSequence := command.checkpoint.coveredSequence
  issuedAt := command.checkpoint.issuedAtServer

/-- A sequence has one checkpoint. -/
def insertCheckpoint : Except RepositoryError Database := do
  ensure (fitsBigint command.checkpoint.coveredSequence) .unavailable
  ensure (db.checkpoints.all fun row => row.objectHash ≠ command.checkpoint.objectHash)
    .commitIdentityConflict
  ensure ((db.chainCheckpoints command.organizationId command.chainId).all fun row =>
    row.coveredSequence ≠ command.checkpoint.coveredSequence) .checkpointPredecessorConflict
  db.requireIndexed command.checkpoint.objectHash
  return { db with checkpoints := db.checkpoints ++ [checkpointRow command] }

end

/-- The row of the head after the commit. -/
def nextHeadRow (revision : Nat) : ChainHeadRow where
  organizationId := command.organizationId
  chainId := command.chainId
  headSequence := command.sequence
  headEntryHash := command.identity.entryHash
  headAcceptedAtServer := command.acceptedAtServer
  revision := revision

/-- Only the head of this chain moves. -/
def advanceHeadRow (row : ChainHeadRow) : ChainHeadRow :=
  if row.organizationId = command.organizationId ∧ row.chainId = command.chainId then
    nextHeadRow command (row.revision + 1)
  else row

/-- The head row is inserted, or replaced while it still has the revision that was read. -/
def upsertHead (head : Option ChainHeadRow) (db : Database) : Except RepositoryError Database := do
  match db.headRow command.organizationId command.chainId with
  | none => return { db with chainHeads := db.chainHeads ++ [nextHeadRow command 0] }
  | some current =>
    ensure (current.revision = (head.map (·.revision)).getD 0) .headConflict
    return { db with chainHeads := db.chainHeads.map (advanceHeadRow command) }

end Inserts

/-! ## 5. The transaction -/

/-- `currentSequence + 1`, or zero for the first entry of a chain. -/
def expectedSequence : Option ChainHeadRow → Except RepositoryError Nat
  | some row => okOr (checkedAdd row.headSequence 1) .unavailable
  | none => .ok 0

/-- Everything a new commit makes visible. -/
def insertCommit (command : CommitDbCommand) (head : Option ChainHeadRow) (db : Database) :
    Except RepositoryError Database := do
  let db ← command.indexedObjects.foldlM (insertIndexedObject command) db
  let db ← insertEntry command db
  let db ← command.identity.sortedGrantObjectHashes.foldlM (insertGrant command) db
  let db ← insertReceipt command db
  let db ← insertCheckpoint command db
  upsertHead command head db

/-- `commit_locked_head`: a stored commit is found, or a new one appended. -/
def commitLockedHead (db : Database) (command : CommitDbCommand) :
    Except RepositoryError (CommittedDbState × Database) := do
  let head := db.headRow command.organizationId command.chainId
  match db.entryOf command.identity.entryHash with
  | some existing =>
    ensure (existing.entryObjectHash = command.identity.entryObjectHash
      ∧ existing.initialGrantPlanHash = command.identity.initialGrantPlanHash
      ∧ existing.sequenceNumber = command.sequence
      ∧ db.initialGrants command.identity.entryHash
        = command.identity.sortedGrantObjectHashes) .commitIdentityConflict
    let checkpoint ← db.storedCheckpoint command.organizationId command.chainId command.sequence
    return ({
      sequence := command.sequence
      entryHash := command.identity.entryHash
      receiptObjectHash := existing.receiptObjectHash
      checkpointObjectHash := checkpoint
      acceptedAtServer := existing.acceptedAtServer
      newlyCommitted := false }, db)
  | none =>
    let expected ← expectedSequence head
    ensure (command.sequence = expected) .headConflict
    ensure (head.map (·.headEntryHash) = command.previousEntryHash) .headConflict
    ensure (head.all fun row => row.headAcceptedAtServer ≤ command.acceptedAtServer)
      .headConflict
    ensure (db.checkpointHead command.organizationId command.chainId
      = command.checkpoint.previousEvidenceHash) .checkpointPredecessorConflict
    let db ← insertCommit command head db
    return ({
      sequence := command.sequence
      entryHash := command.identity.entryHash
      receiptObjectHash := command.receiptObjectHash
      checkpointObjectHash := command.checkpoint.objectHash
      acceptedAtServer := command.acceptedAtServer
      newlyCommitted := true }, db)

/-! ## 6. What the inserts write -/

section Written

variable {command : CommitDbCommand} {head : Option ChainHeadRow} {db db' : Database}
  {checkpoint : ObjectHash} {existing : EntryRow}

theorem insertIndexedObject_eq_ok {obj : IndexedObject}
    (h : insertIndexedObject command db obj = .ok db') :
    ∃ rows, db' = { db with objectIndex := db.objectIndex ++ rows } := by
  simp only [insertIndexedObject, ok_iff] at h
  obtain ⟨-, -, h⟩ := h
  split at h
  · exact ⟨[], by rw [List.append_nil, ← h]⟩
  · exact ⟨_, h.symm⟩

/-- The rows that the object index gains. -/
theorem index_of_foldlM {objs : List IndexedObject}
    (h : objs.foldlM (insertIndexedObject command) db = .ok db') :
    ∃ rows, db' = { db with objectIndex := db.objectIndex ++ rows } := by
  refine foldlM_invariant (P := fun db' => ∃ rows, db' = { db with
    objectIndex := db.objectIndex ++ rows }) ?_ ⟨[], by rw [List.append_nil]⟩ h
  rintro _ _ _ - ⟨rows, rfl⟩ ho
  obtain ⟨added, rfl⟩ := insertIndexedObject_eq_ok ho
  exact ⟨rows ++ added, by rw [List.append_assoc]⟩

theorem insertGrant_eq_ok {grant : ObjectHash} : insertGrant command db grant = .ok db' ↔
      ∃ rcp, (command.grantRecipients.find? fun rcp => rcp.objectHash = grant) = some rcp
        ∧ if db.grants.any fun row => row.objectHash = grant then db' = db
          else db.requireIndexed grant = .ok ()
            ∧ db' = { db with grants := db.grants ++ [grantRow command rcp] } := by
  simp only [insertGrant, ok_iff]
  refine exists_congr fun rcp => and_congr_right fun _ => ?_
  split <;> simp [@eq_comm _ db']

/-- The rows that the grants gain: initial grants of the entry, and all of the given ones where
none was known before. -/
theorem grants_of_foldlM {grants : List ObjectHash}
    (h : grants.foldlM (insertGrant command) db = .ok db') :
    ∃ rows, db' = { db with grants := db.grants ++ rows }
      ∧ (∀ row ∈ rows, row.entryHash = command.identity.entryHash ∧ row.grantKind = .initial
        ∧ row.objectHash ∈ grants)
      ∧ (grants.Nodup → (∀ row ∈ db.grants, row.objectHash ∉ grants) →
        rows.map (·.objectHash) = grants) := by
  induction grants generalizing db with
  | nil =>
    obtain rfl : db = db' := by simpa using h
    exact ⟨[], by rw [List.append_nil], by simp, by simp⟩
  | cons grant grants ih =>
    rw [List.foldlM_cons, bind_eq_ok] at h
    obtain ⟨_, hg, hrs⟩ := h
    obtain ⟨rows, rfl, hro, ha⟩ := ih hrs
    obtain ⟨rcp, hre, hg⟩ := insertGrant_eq_ok.mp hg
    have hh : rcp.objectHash = grant := by simpa using List.find?_some hre
    have hl : ∀ row ∈ rows, row.entryHash = command.identity.entryHash
        ∧ row.grantKind = .initial ∧ row.objectHash ∈ grant :: grants := fun row hr =>
      (hro row hr).imp_right (And.imp_right (List.mem_cons_of_mem _))
    split at hg
    · rename_i hk
      subst hg
      refine ⟨rows, rfl, hl, fun _ hf => ?_⟩
      obtain ⟨row, hr, heq⟩ := List.any_eq_true.mp hk
      have hne := hf row hr
      rw [of_decide_eq_true heq] at hne
      exact absurd List.mem_cons_self hne
    · obtain ⟨-, rfl⟩ := hg
      refine ⟨grantRow command rcp :: rows, by simp,
        List.forall_mem_cons.mpr ⟨⟨rfl, rfl, ?_⟩, hl⟩, fun hn hf => ?_⟩
      · rw [grantRow, hh]
        exact List.mem_cons_self
      · obtain ⟨hnw, hn⟩ := List.nodup_cons.mp hn
        rw [List.map_cons, grantRow, hh, ha hn fun row hr => ?_]
        rcases List.mem_append.mp hr with hr | hr
        · exact fun hm => hf row hr (List.mem_cons_of_mem _ hm)
        · rw [List.mem_singleton.mp hr, grantRow, hh]
          exact hnw

theorem advanceHeadRow_key (row : ChainHeadRow) :
    (advanceHeadRow command row).organizationId = row.organizationId
      ∧ (advanceHeadRow command row).chainId = row.chainId := by
  unfold advanceHeadRow
  split
  · rename_i hk
    exact ⟨hk.1.symm, hk.2.symm⟩
  · exact ⟨rfl, rfl⟩

/-- The head of the chain is the new entry; the heads of other chains stay. -/
theorem upsertHead_eq_ok (h : upsertHead command head db = .ok db') :
    (∃ chainHeads, db' = { db with chainHeads })
      ∧ (∃ rev, db'.headRow command.organizationId command.chainId = some (nextHeadRow command rev))
      ∧ ∀ organizationId chainId,
        ¬ (organizationId = command.organizationId ∧ chainId = command.chainId) →
          db'.headRow organizationId chainId = db.headRow organizationId chainId := by
  unfold upsertHead at h
  split at h
  · rename_i hn
    obtain rfl := pure_eq_ok.mp h
    refine ⟨⟨_, rfl⟩, ⟨0, ?_⟩, fun organizationId chainId hot => ?_⟩
    · unfold headRow at hn ⊢
      rw [List.find?_append, hn]
      simp [nextHeadRow]
    · unfold headRow
      rw [List.find?_append]
      have hne : [nextHeadRow command 0].find? (fun row =>
          row.organizationId = organizationId ∧ row.chainId = chainId) = none := by
        refine List.find?_eq_none.mpr fun row hr => ?_
        rw [List.mem_singleton.mp hr, decide_eq_true_eq]
        exact fun hk => hot ⟨hk.1.symm, hk.2.symm⟩
      rw [hne, Option.or_none]
  · rename_i cur hc
    simp only [ok_iff] at h
    obtain ⟨-, -, rfl⟩ := h
    have hm : ∀ organizationId chainId,
        ({ db with chainHeads := db.chainHeads.map (advanceHeadRow command) } : Database).headRow
            organizationId chainId
          = (db.headRow organizationId chainId).map (advanceHeadRow command) := by
      intro organizationId chainId
      unfold headRow
      rw [List.find?_map]
      congr 2
      funext row
      simp [advanceHeadRow_key row]
    refine ⟨⟨_, rfl⟩, ⟨cur.revision + 1, ?_⟩, fun organizationId chainId hot => ?_⟩
    · rw [hm, hc, Option.map_some, advanceHeadRow, if_pos]
      simpa using List.find?_some hc
    · rw [hm]
      cases hr : db.headRow organizationId chainId with
      | none => rfl
      | some row =>
        have hk : row.organizationId = organizationId ∧ row.chainId = chainId := by
          simpa using List.find?_some hr
        rw [Option.map_some, advanceHeadRow, if_neg]
        rwa [hk.1, hk.2]

/-- A new commit: what the transaction found under the lock and what it made visible. -/
structure Committed (command : CommitDbCommand) (db db' : Database) : Prop where
  fits : fitsBigint command.sequence
  fresh : ∀ row ∈ db.entries, row.entryHash ≠ command.identity.entryHash
  expected : expectedSequence (db.headRow command.organizationId command.chainId)
    = .ok command.sequence
  previous : (db.headRow command.organizationId command.chainId).map (·.headEntryHash)
    = command.previousEntryHash
  notBefore : ∀ row ∈ db.headRow command.organizationId command.chainId,
    row.headAcceptedAtServer ≤ command.acceptedAtServer
  predecessor : db.checkpointHead command.organizationId command.chainId
    = command.checkpoint.previousEvidenceHash
  entries : db'.entries = db.entries ++ [entryRow command]
  receipts : db'.receipts = db.receipts ++ [receiptRow command]
  checkpoints : db'.checkpoints = db.checkpoints ++ [checkpointRow command]
  objectIndex : ∃ rows, db'.objectIndex = db.objectIndex ++ rows
  grants : ∃ rows, db'.grants = db.grants ++ rows
    ∧ (∀ row ∈ rows, row.entryHash = command.identity.entryHash ∧ row.grantKind = .initial
      ∧ row.objectHash ∈ command.identity.sortedGrantObjectHashes)
    ∧ (command.identity.sortedGrantObjectHashes.Nodup →
      (∀ row ∈ db.grants, row.objectHash ∉ command.identity.sortedGrantObjectHashes) →
      rows.map (·.objectHash) = command.identity.sortedGrantObjectHashes)
  head : ∃ revision, db'.headRow command.organizationId command.chainId
    = some (nextHeadRow command revision)
  otherHeads : ∀ organizationId chainId,
    ¬ (organizationId = command.organizationId ∧ chainId = command.chainId) →
      db'.headRow organizationId chainId = db.headRow organizationId chainId
  destructionTargets : db'.destructionTargets = db.destructionTargets

/-- A replay: the stored commit has the same identity. -/
structure Replays (command : CommitDbCommand) (db : Database) (existing : EntryRow)
    (checkpoint : ObjectHash) : Prop where
  known : db.entryOf command.identity.entryHash = some existing
  entryObject : existing.entryObjectHash = command.identity.entryObjectHash
  plan : existing.initialGrantPlanHash = command.identity.initialGrantPlanHash
  sequence : existing.sequenceNumber = command.sequence
  grants : db.initialGrants command.identity.entryHash = command.identity.sortedGrantObjectHashes
  checkpoint : db.storedCheckpoint command.organizationId command.chainId command.sequence
    = .ok checkpoint

/-- The answer of the transaction to a new commit. -/
def newlyCommitted (command : CommitDbCommand) : CommittedDbState where
  sequence := command.sequence
  entryHash := command.identity.entryHash
  receiptObjectHash := command.receiptObjectHash
  checkpointObjectHash := command.checkpoint.objectHash
  acceptedAtServer := command.acceptedAtServer
  newlyCommitted := true

/-- The answer of the transaction to a replay. -/
def replayed (command : CommitDbCommand) (existing : EntryRow) (checkpoint : ObjectHash) :
    CommittedDbState where
  sequence := command.sequence
  entryHash := command.identity.entryHash
  receiptObjectHash := existing.receiptObjectHash
  checkpointObjectHash := checkpoint
  acceptedAtServer := existing.acceptedAtServer
  newlyCommitted := false

theorem entryOf_eq_none {entryHash : EntryHash} :
    db.entryOf entryHash = none ↔ ∀ row ∈ db.entries, row.entryHash ≠ entryHash := by
  simp [entryOf]

theorem committed_of_insertCommit (hep : expectedSequence
      (db.headRow command.organizationId command.chainId) = .ok command.sequence)
    (hpr : (db.headRow command.organizationId command.chainId).map (·.headEntryHash)
      = command.previousEntryHash)
    (hnotBefore : ∀ row ∈ db.headRow command.organizationId command.chainId,
      row.headAcceptedAtServer ≤ command.acceptedAtServer)
    (hp : db.checkpointHead command.organizationId command.chainId
      = command.checkpoint.previousEvidenceHash)
    (h : insertCommit command (db.headRow command.organizationId command.chainId) db = .ok db') :
    Committed command db db' := by
  simp only [insertCommit, bind_eq_ok] at h
  obtain ⟨_, hi, _, he, _, hg, _, hre, _, hcp, hh⟩ := h
  -- each insert changes one table
  obtain ⟨indexRows, rfl⟩ := index_of_foldlM hi
  simp only [insertEntry, ok_iff, List.all_eq_true] at he
  obtain ⟨-, hfi, -, -, -, hf, -, -, -, -, rfl⟩ := he
  obtain ⟨grantRows, rfl, hr, ha⟩ := grants_of_foldlM hg
  simp only [insertReceipt, ok_iff] at hre
  obtain ⟨-, -, -, -, rfl⟩ := hre
  simp only [insertCheckpoint, ok_iff] at hcp
  obtain ⟨-, -, -, -, -, -, -, -, rfl⟩ := hcp
  obtain ⟨⟨_, rfl⟩, hn, ho⟩ := upsertHead_eq_ok hh
  exact {
    fits := hfi
    fresh := hf
    expected := hep
    previous := hpr
    notBefore := hnotBefore
    predecessor := hp
    entries := rfl
    receipts := rfl
    checkpoints := rfl
    objectIndex := ⟨indexRows, rfl⟩
    grants := ⟨grantRows, rfl, hr, ha⟩
    head := hn
    otherHeads := ho
    destructionTargets := rfl }

namespace Committed

theorem chainEntries_eq (h : Committed command db db') :
    db'.chainEntries command.organizationId command.chainId
      = db.chainEntries command.organizationId command.chainId ++ [entryRow command] := by
  rw [chainEntries, h.entries, List.filter_append,
    List.filter_cons_of_pos (by simp [entryRow]), List.filter_nil]
  rfl

theorem chainCheckpoints_eq (h : Committed command db db') :
    db'.chainCheckpoints command.organizationId command.chainId
      = db.chainCheckpoints command.organizationId command.chainId ++ [checkpointRow command] := by
  rw [chainCheckpoints, h.checkpoints, List.filter_append,
    List.filter_cons_of_pos (by simp [checkpointRow]), List.filter_nil]
  rfl

variable {org : OrganizationId} {chainId : ChainId}
  (hot : ¬ (org = command.organizationId ∧ chainId = command.chainId))
include hot

theorem chainEntries_other (h : Committed command db db') :
    db'.chainEntries org chainId = db.chainEntries org chainId := by
  rw [chainEntries, h.entries, List.filter_append, List.filter_cons_of_neg, List.filter_nil,
    List.append_nil]
  · rfl
  · rw [entryRow, decide_eq_true_eq]
    exact fun hk => hot ⟨hk.1.symm, hk.2.symm⟩

theorem chainCheckpoints_other (h : Committed command db db') :
    db'.chainCheckpoints org chainId = db.chainCheckpoints org chainId := by
  rw [chainCheckpoints, h.checkpoints, List.filter_append, List.filter_cons_of_neg,
    List.filter_nil, List.append_nil]
  · rfl
  · rw [checkpointRow, decide_eq_true_eq]
    exact fun hk => hot ⟨hk.1.symm, hk.2.symm⟩

end Committed

/-- The grants of an entry do not change with the commit of another one. -/
theorem Committed.initialGrants_eq (h : Committed command db db') {row : EntryRow}
    (hr : row ∈ db.entries) :
    db'.initialGrants row.entryHash = db.initialGrants row.entryHash := by
  obtain ⟨rows, hgr, hne, -⟩ := h.grants
  have hn : rows.filter (fun grant =>
      grant.entryHash = row.entryHash ∧ grant.grantKind = .initial) = [] := by
    refine List.filter_eq_nil_iff.mpr fun grant hg => ?_
    rw [decide_eq_true_eq, (hne grant hg).1]
    exact fun hk => h.fresh row hr hk.1.symm
  rw [initialGrants, hgr, List.filter_append, hn, List.append_nil]
  rfl

/-- **The transaction.**  It either replays a stored commit without writing a row, or it makes a
new commit visible. -/
theorem commitLockedHead_eq_ok {state : CommittedDbState}
    (h : db.commitLockedHead command = .ok (state, db')) :
    (∃ existing checkpoint, Replays command db existing checkpoint ∧ db' = db
        ∧ state = replayed command existing checkpoint)
      ∨ Committed command db db' ∧ state = newlyCommitted command := by
  unfold commitLockedHead at h
  simp only at h
  split at h
  · rename_i existing hk
    simp only [ok_iff] at h
    obtain ⟨-, ⟨ho, hp, hs, hg⟩, checkpoint, hcp, rfl, rfl⟩ := h
    exact .inl ⟨existing, checkpoint, ⟨hk, ho, hp, hs, hg, hcp⟩,
      rfl, rfl⟩
  · simp only [ok_iff, Option.all_eq_true] at h
    obtain ⟨_, he, -, rfl, -, hpe, -, hnotBefore, -, hpr, _, hi,
      rfl, rfl⟩ := h
    exact .inr ⟨committed_of_insertCommit he hpe hnotBefore hpr hi, rfl⟩

theorem commitLockedHead_of_replays (h : Replays command db existing checkpoint) :
    db.commitLockedHead command = .ok (replayed command existing checkpoint, db) := by
  have hs : existing.entryObjectHash = command.identity.entryObjectHash
      ∧ existing.initialGrantPlanHash = command.identity.initialGrantPlanHash
      ∧ existing.sequenceNumber = command.sequence
      ∧ db.initialGrants command.identity.entryHash = command.identity.sortedGrantObjectHashes :=
    ⟨h.entryObject, h.plan, h.sequence, h.grants⟩
  simp only [commitLockedHead, h.known, ok_iff]
  exact ⟨(), hs, checkpoint, h.checkpoint, rfl, trivial⟩

/-- A transaction that is refused for its place in the chain found no entry with its hash; the
predecessor of the checkpoint is looked at after the sequence only. -/
theorem commitLockedHead_eq_error {error : RepositoryError}
    (h : db.commitLockedHead command = .error error)
    (hp : error = .headConflict ∨ error = .checkpointPredecessorConflict) :
    db.entryOf command.identity.entryHash = none
      ∧ (error = .checkpointPredecessorConflict →
        expectedSequence (db.headRow command.organizationId command.chainId)
          = .ok command.sequence) := by
  unfold commitLockedHead at h
  simp only at h
  split at h
  · -- a known entry: neither of the two errors
    rename_i existing hk
    simp only [bind_eq_error, ensure_eq_error, okOr_eq_error, storedCheckpoint] at h
    rcases h with ⟨-, rfl⟩ | ⟨-, -, (⟨-, rfl⟩ | ⟨-, -, -, rfl⟩) | ⟨_, -, h⟩⟩
    · rcases hp with h | h <;> cases h
    · rcases hp with h | h <;> cases h
    · rcases hp with h | h <;> cases h
    · cases h
  · rename_i hu
    refine ⟨hu, ?_⟩
    rintro rfl
    simp only [bind_eq_error, ensure_eq_error, ok_iff] at h
    rcases h with h | ⟨_, he, ⟨-, h⟩ | ⟨-, rfl, -⟩⟩
    · cases hh : db.headRow command.organizationId command.chainId with
      | none => simp [hh, expectedSequence] at h
      | some _ => simp [hh, expectedSequence, okOr_eq_error] at h
    · cases h
    · exact he

/-- An entry was accepted under an identity. -/
structure HasIdentity (db : Database) (identity : EntryCommitIdentity) : Prop where
  row : ∃ row ∈ db.entries, row.entryHash = identity.entryHash
    ∧ row.entryObjectHash = identity.entryObjectHash
    ∧ row.initialGrantPlanHash = identity.initialGrantPlanHash
  grants : db.initialGrants identity.entryHash = identity.sortedGrantObjectHashes

theorem HasIdentity.of_replays (h : Replays command db existing checkpoint) :
    HasIdentity db command.identity := by
  have hh : existing.entryHash = command.identity.entryHash := by
    simpa using List.find?_some h.known
  exact ⟨⟨existing, List.mem_of_find?_eq_some h.known, hh, h.entryObject, h.plan⟩, h.grants⟩

end Written

end Database

end Einsatzarchiv.Server
