/-
  File:      Einsatzarchiv/Server/Chains.lean
  Subject:   The chains in the tables (crate `ea-sync-server`, `commit.rs`; application `server`,
             `postgres.rs`).

  Head, checkpoint head and clock are read outside the transaction.  What the chain looks like
  rests on the checks under the lock alone, so that it holds whatever a call has read before.

  * `Follows`: an entry and its checkpoint follow the entry and the checkpoint before them.
  * `Coherent`: the tables hold linear chains, and every grant belongs to an entry.
  * `commits`: the discipline every call keeps.
  * `HasIdentity`: the identity under which an entry was accepted.
  * `keeps_commitLockedHead`: the transaction keeps the discipline and stores what it accepts.
-/
import Einsatzarchiv.Server.Ports

namespace Einsatzarchiv.Server

open Lib Format Protocol Database

variable [Crypto] [ServerSigner] [Cbor.TextRules] [ObjectBodies]

/-! ## 1. Linear chains -/

/-- The head that an entry makes. -/
def headOf (row : EntryRow) : ChainHeadState :=
  ⟨row.sequenceNumber, row.entryHash, row.acceptedAtServer⟩

/-- An entry and its checkpoint at a position of a chain, after the entry and the checkpoint
before them. -/
structure Follows (position : Nat) (previous : Option (EntryRow × CheckpointRow))
    (rows : EntryRow × CheckpointRow) : Prop where
  sequence : rows.1.sequenceNumber = position
  previousEntry : rows.1.previousEntryHash = previous.map (·.1.entryHash)
  notBefore : ∀ p, previous = some p → p.1.acceptedAtServer ≤ rows.1.acceptedAtServer
  covered : rows.2.coveredSequence = position
  checkpoint : IsCheckpoint rows.2.objectHash position rows.1.entryHash
    (previous.map (·.2.objectHash))

/-- The entries and the checkpoints of a chain, in the order of their rows. -/
def chainRows (db : Database) (organizationId : OrganizationId) (chainId : ChainId) :
    List (EntryRow × CheckpointRow) :=
  (db.chainEntries organizationId chainId).zip (db.chainCheckpoints organizationId chainId)

/-- The rows of a chain form one line, and the head is its last one. -/
structure LinearChain (db : Database) (organizationId : OrganizationId) (chainId : ChainId) :
    Prop where
  length : (db.chainCheckpoints organizationId chainId).length
    = (db.chainEntries organizationId chainId).length
  chained : Chained Follows (chainRows db organizationId chainId)
  head : db.headState organizationId chainId
    = (db.chainEntries organizationId chainId).getLast?.map headOf

/-- The tables, over the bytes of the grants that were delivered. -/
structure Coherent (delivered : Set Bytes) (db : Database) : Prop where
  chains : ∀ organizationId chainId, LinearChain db organizationId chainId
  hashes : (db.entries.map (·.entryHash)).Nodup
  grants : ∀ row ∈ db.grants, row.entryHash ∈ db.entries.map (·.entryHash)
    ∧ ∃ bytes ∈ delivered, GrantOf row.entryHash bytes ∧ row.objectHash = Crypto.objectHash bytes

/-- What a command carries whatever its call has read. -/
structure Wellformed (delivered : Set Bytes) (command : CommitDbCommand) : Prop where
  covered : command.checkpoint.coveredSequence = command.sequence
  checkpoint : IsCheckpoint command.checkpoint.objectHash command.sequence
    command.identity.entryHash command.checkpoint.previousEvidenceHash
  grants : ∀ hash ∈ command.identity.sortedGrantObjectHashes, ∃ bytes ∈ delivered,
    GrantOf command.identity.entryHash bytes ∧ hash = Crypto.objectHash bytes
  sorted : command.identity.sortedGrantObjectHashes.Pairwise (· < ·)

namespace LinearChain

variable {db : Database} {org : OrganizationId} {chainId : ChainId}

section

variable (h : LinearChain db org chainId)
include h

theorem length_chainRows : (chainRows db org chainId).length
      = (db.chainEntries org chainId).length := by
  rw [chainRows, List.length_zip, h.length, min_self]

theorem map_fst : (chainRows db org chainId).map Prod.fst = db.chainEntries org chainId :=
  List.map_fst_zip h.length.ge

theorem map_snd : (chainRows db org chainId).map Prod.snd = db.chainCheckpoints org chainId :=
  List.map_snd_zip h.length.le

theorem sequences : (db.chainEntries org chainId).map (·.sequenceNumber)
      = List.range (db.chainEntries org chainId).length := by
  rw [← h.length_chainRows, ← h.chained.map_eq_range fun _ _ _ hr => hr.sequence]
  conv_lhs => rw [← h.map_fst, List.map_map]
  rfl

theorem coveredSequences : (db.chainCheckpoints org chainId).map (·.coveredSequence)
      = List.range (db.chainEntries org chainId).length := by
  rw [← h.length_chainRows, ← h.chained.map_eq_range fun _ _ _ hr => hr.covered]
  conv_lhs => rw [← h.map_snd, List.map_map]
  rfl

/-- The checkpoint with the greatest sequence is the last one. -/
theorem checkpointHead : db.checkpointHead org chainId
      = (chainRows db org chainId).getLast?.map (·.2.objectHash) := by
  rw [Database.checkpointHead, argmax_eq_getLast? (by rw [h.coveredSequences, h.length]),
    ← h.map_snd, List.getLast?_map, Option.map_map]
  rfl

/-- The head tells how many entries there are. -/
theorem length_entries : (db.chainEntries org chainId).length
      = ((db.headState org chainId).map (·.sequence + 1)).getD 0 := by
  rw [h.head]
  cases hl : (db.chainEntries org chainId).getLast? with
  | none => rw [List.getLast?_eq_none_iff.mp hl]; rfl
  | some row =>
    rw [List.getLast?_eq_getElem?] at hl
    have hlt := (List.getElem?_eq_some_iff.mp hl).1
    have hs := congrArg (·[(db.chainEntries org chainId).length - 1]?) h.sequences
    simp only [List.getElem?_map, hl, Option.map_some, List.getElem?_range hlt,
      Option.some.injEq] at hs
    change _ = row.sequenceNumber + 1
    omega

/-- Every sequence below the length has its entry. -/
theorem exists_entry {sequence : Nat} (hlt : sequence < (db.chainEntries org chainId).length) :
    ∃ row ∈ db.chainEntries org chainId, row.sequenceNumber = sequence := by
  have hm : sequence ∈ (db.chainEntries org chainId).map (·.sequenceNumber) := by
    rw [h.sequences]
    exact List.mem_range.mpr hlt
  exact List.mem_map.mp hm

theorem lastEntry : (db.chainEntries org chainId).getLast?
      = (chainRows db org chainId).getLast?.map Prod.fst := by
  rw [← List.getLast?_map, h.map_fst]

end

end LinearChain
/-! ## 2. The transaction keeps the chains -/

section Step

variable {dlv : Set Bytes} {cmd : CommitDbCommand} {db db' : Database}

variable {org : OrganizationId} {chainId : ChainId}

/-- The head that the transaction found under its lock is the last entry of the chain. -/
theorem LinearChain.headRow_eq (h : LinearChain db org chainId) :
    (db.headRow org chainId).map (fun row =>
      (⟨row.headSequence, row.headEntryHash, row.headAcceptedAtServer⟩ : ChainHeadState))
      = (chainRows db org chainId).getLast?.map fun rows => headOf rows.1 := by
  have hh := h.head
  rw [Database.headState, h.lastEntry, Option.map_map] at hh
  exact hh

/-- A position is the number of rows before it. -/
theorem LinearChain.length_of_getLast? (h : LinearChain db org chainId)
    {rows : EntryRow × CheckpointRow}
    (hl : (chainRows db org chainId).getLast? = some rows) :
    (chainRows db org chainId).length = rows.1.sequenceNumber + 1 := by
  rw [List.getLast?_eq_getElem?] at hl
  have hlt := (List.getElem?_eq_some_iff.mp hl).1
  have hs := (h.chained _ _ hl).sequence
  omega

section

variable (hc : LinearChain db cmd.organizationId cmd.chainId)
  (hw : Wellformed dlv cmd) (h : Committed cmd db db')
include hc hw h

/-- What the checks under the lock establish about the new rows. -/
theorem Follows.of_committed : Follows (chainRows db cmd.organizationId cmd.chainId).length
      (chainRows db cmd.organizationId cmd.chainId).getLast?
      (entryRow cmd, checkpointRow cmd) := by
  have hh := hc.headRow_eq
  have he := h.expected
  have hpr := h.previous
  have hnotBefore := h.notBefore
  have hp := h.predecessor
  rw [hc.checkpointHead] at hp
  have hs : cmd.sequence = (chainRows db cmd.organizationId cmd.chainId).length := by
    cases hl : (chainRows db cmd.organizationId cmd.chainId).getLast? with
    | none =>
      rw [hl, Option.map_none, Option.map_eq_none_iff] at hh
      rw [hh] at he
      rw [List.getLast?_eq_none_iff.mp hl]
      exact (Except.ok.inj he).symm
    | some rows =>
      rw [hl, Option.map_some, Option.map_eq_some_iff] at hh
      obtain ⟨row, hr, heq⟩ := hh
      rw [hr, expectedSequence, okOr_eq_ok, checkedAdd_eq_some] at he
      rw [he.1, hc.length_of_getLast? hl]
      exact congrArg (·.sequence + 1) heq
  refine ⟨hs, ?_, fun rows hl => ?_, ?_, ?_⟩
  · -- the entry names the head
    rw [entryRow, ← hpr]
    have := congrArg (Option.map (·.entryHash)) hh
    rwa [Option.map_map, Option.map_map] at this
  · rw [hl, Option.map_some, Option.map_eq_some_iff] at hh
    obtain ⟨row, hr, heq⟩ := hh
    have hle := hnotBefore row hr
    have ht : row.headAcceptedAtServer = rows.1.acceptedAtServer :=
      congrArg (·.acceptedAtServer) heq
    rwa [ht] at hle
  · exact hw.covered.trans hs
  · rw [hp, ← hs]
    exact hw.checkpoint

theorem LinearChain.of_committed : LinearChain db' cmd.organizationId cmd.chainId := by
  have hr : chainRows db' cmd.organizationId cmd.chainId
      = chainRows db cmd.organizationId cmd.chainId ++ [(entryRow cmd, checkpointRow cmd)] := by
    rw [chainRows, h.chainEntries_eq, h.chainCheckpoints_eq, List.zip_append hc.length.symm]
    rfl
  refine ⟨?_, ?_, ?_⟩
  · rw [h.chainEntries_eq, h.chainCheckpoints_eq, List.length_append, List.length_append, hc.length]
    rfl
  · rw [hr]
    exact hc.chained.concat (Follows.of_committed hc hw h)
  · obtain ⟨_, hh⟩ := h.head
    rw [h.chainEntries_eq, List.getLast?_concat, Database.headState, hh]
    rfl

end

theorem LinearChain.of_committed_other (hc : LinearChain db org chainId) (h : Committed cmd db db')
    (ho : ¬ (org = cmd.organizationId ∧ chainId = cmd.chainId)) :
    LinearChain db' org chainId := by
  refine ⟨?_, ?_, ?_⟩
  · rw [h.chainEntries_other ho, h.chainCheckpoints_other ho, hc.length]
  · rw [chainRows, h.chainEntries_other ho, h.chainCheckpoints_other ho]
    exact hc.chained
  · rw [h.chainEntries_other ho, Database.headState, h.otherHeads _ _ ho]
    exact hc.head

/-- **The transaction keeps the chains.** -/
theorem Coherent.of_committed (hdb : Coherent dlv db) (hw : Wellformed dlv cmd)
    (h : Committed cmd db db') : Coherent dlv db' := by
  refine ⟨fun org chainId => ?_, ?_, fun row hr => ?_⟩
  · by_cases hk : org = cmd.organizationId ∧ chainId = cmd.chainId
    · obtain ⟨rfl, rfl⟩ := hk
      exact (hdb.chains _ _).of_committed hw h
    · exact (hdb.chains _ _).of_committed_other h hk
  · rw [h.entries, List.map_append, List.nodup_append]
    refine ⟨hdb.hashes, List.nodup_singleton _, ?_⟩
    intro _ hh _ hn
    obtain ⟨row, hr, rfl⟩ := List.mem_map.mp hh
    rw [List.mem_singleton.mp hn]
    exact h.fresh row hr
  · obtain ⟨_, hg, hn, -⟩ := h.grants
    rw [hg] at hr
    rw [h.entries, List.map_append, List.mem_append]
    rcases List.mem_append.mp hr with hr | hr
    · obtain ⟨he, hb⟩ := hdb.grants row hr
      exact ⟨.inl he, hb⟩
    · obtain ⟨he, -, hm⟩ := hn row hr
      rw [he]
      exact ⟨.inr (List.mem_singleton_self _), hw.grants _ hm⟩

end Step
/-! ## 3. Identities -/

section Identity

variable {dlv : Set Bytes} {cmd : CommitDbCommand} {db db' : Database}

section

variable (hdb : Coherent dlv db)
include hdb

section

variable (hco : Set.InjOn Crypto.objectHash dlv) (hw : Wellformed dlv cmd)
include hco hw

/-- Freshness of the entry and of its grants: a grant that is known already belongs to an entry
that is known already. -/
theorem Coherent.grants_fresh (hf : ∀ row ∈ db.entries, row.entryHash ≠ cmd.identity.entryHash) :
    ∀ row ∈ db.grants, row.objectHash ∉ cmd.identity.sortedGrantObjectHashes := by
  intro row hr hm
  obtain ⟨he, _, hb, ⟨grant, hg, hof⟩, hh⟩ := hdb.grants row hr
  obtain ⟨_, hb', ⟨grant', hgrant', hof'⟩, hh'⟩ := hw.grants _ hm
  obtain rfl := hco hb hb' (hh.symm.trans hh')
  obtain rfl : grant = grant' := ArchiveObject.grant.inj (Except.ok.inj (hg.symm.trans hgrant'))
  obtain ⟨known, hk, heq⟩ := List.mem_map.mp he
  exact hf known hk (heq.trans (hof.symm.trans hof'))

/-- The initial grants of a new entry are those that its identity names. -/
theorem initialGrants_of_committed (h : Committed cmd db db') :
    db'.initialGrants cmd.identity.entryHash = cmd.identity.sortedGrantObjectHashes := by
  obtain ⟨rows, hg, hn, ha⟩ := h.grants
  have hro := ha (hw.sorted.imp fun hlt => hlt.ne) (hdb.grants_fresh hco hw h.fresh)
  -- no grant of the entry was known before
  have hold : db.grants.filter (fun row =>
      row.entryHash = cmd.identity.entryHash ∧ row.grantKind = .initial) = [] := by
    refine List.filter_eq_nil_iff.mpr fun row hr => ?_
    obtain ⟨he, -⟩ := hdb.grants row hr
    obtain ⟨known, hkn, heq⟩ := List.mem_map.mp he
    rw [decide_eq_true_eq]
    exact fun hk => h.fresh known hkn (heq.trans hk.1)
  have hke : rows.filter (fun row =>
      row.entryHash = cmd.identity.entryHash ∧ row.grantKind = .initial) = rows := by
    refine List.filter_eq_self.mpr fun row hr => ?_
    obtain ⟨he, hki, -⟩ := hn row hr
    exact decide_eq_true ⟨he, hki⟩
  rw [initialGrants, hg, List.filter_append, hold, hke, List.nil_append, hro]
  exact List.Pairwise.insertionSort_eq (hw.sorted.imp fun hlt => hlt.le)

/-- A new commit would be replayed from now on. -/
theorem Database.Replays.of_committed (h : Committed cmd db db') :
    Replays cmd db' (entryRow cmd) cmd.checkpoint.objectHash := by
  refine ⟨?_, rfl, rfl, rfl, initialGrants_of_committed hdb hco hw h, ?_⟩
  · have hn := entryOf_eq_none.mpr h.fresh
    rw [entryOf] at hn ⊢
    rw [h.entries, List.find?_append, hn]
    simp [entryRow]
  · -- no checkpoint covered the sequence before
    have hc := hdb.chains cmd.organizationId cmd.chainId
    have hs := (Follows.of_committed hc hw h).sequence
    have hn : (db.chainCheckpoints cmd.organizationId cmd.chainId).find? (fun row =>
        row.coveredSequence = cmd.sequence) = none := by
      refine List.find?_eq_none.mpr fun row hr => ?_
      have hm := List.mem_map_of_mem (f := (·.coveredSequence)) hr
      rw [hc.coveredSequences, List.mem_range, ← hc.length_chainRows, ← hs] at hm
      rw [decide_eq_true_eq]
      exact hm.ne
    simp only [storedCheckpoint, ok_iff, Option.map_eq_some_iff]
    refine ⟨(), h.fits, checkpointRow cmd, ?_, rfl⟩
    rw [h.chainCheckpoints_eq, List.find?_append, hn]
    simp [checkpointRow, hw.covered]

end

/-- An entry hash has one identity. -/
theorem Database.HasIdentity.unique {identity identity' : EntryCommitIdentity}
    (h : HasIdentity db identity) (h' : HasIdentity db identity')
    (heq : identity.entryHash = identity'.entryHash) : identity = identity' := by
  obtain ⟨⟨row, hr, hh, ho, hp⟩, hg⟩ := h
  obtain ⟨⟨row', hr', hh', hobject', hplan'⟩, hgrants'⟩ := h'
  obtain rfl : row = row' := List.inj_on_of_nodup_map hdb.hashes hr hr'
    (hh.trans (heq.trans hh'.symm))
  obtain ⟨_, _, _, _⟩ := identity
  obtain ⟨_, _, _, _⟩ := identity'
  subst heq
  rw [EntryCommitIdentity.mk.injEq]
  exact ⟨rfl, ho.symm.trans hobject', hp.symm.trans hplan', hg.symm.trans hgrants'⟩

end

end Identity
/-! ## 4. What a call keeps and relies on -/

/-- The discipline of the commits over the delivered grants. -/
def commits (delivered : Set Bytes) : Discipline ServerState where
  Inv s := Coherent delivered s.database
  Rely := Grows
  refl := Grows.refl
  trans := Grows.trans

variable {dlv : Set Bytes} {s t : ServerState}

/-- A state with the same tables that has lost no object. -/
theorem keeps_of_database (hs : Coherent dlv s.database) (hdb : t.database = s.database)
    (ho : ∀ kind hash bytes, s.objects kind hash = some bytes →
      t.objects kind hash = some bytes) : (commits dlv).Keeps s t := by
  refine ⟨?_, ?_, ?_, ?_, fun row _ => ?_, ho⟩
  · change Coherent dlv t.database
    rwa [hdb]
  all_goals rw [hdb]

theorem keeps_of_passive {port : Port} (hp : port.Passive) (hs : (commits dlv).Inv s) :
    (commits dlv).Keeps s (ports.perform port s).2 := by
  cases port with
  | commitLockedHead _ => exact hp.elim
  | putIfAbsent staged =>
    exact keeps_of_database hs (database_putIfAbsent s staged)
      fun _ _ _ => objects_putIfAbsent s staged
  | _ => exact keeps_of_database hs rfl fun _ _ _ h => h

/-- A chain that is as long as it was has not moved in between. -/
theorem headState_eq_of_grows {u : ServerState} (hs : (commits dlv).Inv s)
    (ht : (commits dlv).Inv t) (hst : Grows s t) (htu : Grows t u)
    {organizationId : OrganizationId} {chainId : ChainId}
    (hl : (u.database.chainEntries organizationId chainId).length
      ≤ (s.database.chainEntries organizationId chainId).length) :
    t.database.headState organizationId chainId = s.database.headState organizationId chainId := by
  have hsa := (hst.chainEntries organizationId chainId).eq_of_length_le
    ((htu.chainEntries organizationId chainId).length_le.trans hl)
  rw [(ht.chains _ _).head, (hs.chains _ _).head, hsa]

/-! ## 5. The transaction in its discipline -/

/-- The transaction keeps the discipline, and a command it accepts is stored. -/
theorem keeps_commitLockedHead (hco : Set.InjOn Crypto.objectHash dlv)
    {command : CommitDbCommand} (hw : Wellformed dlv command)
    (hs : (commits dlv).Inv s) :
    (commits dlv).Keeps s (s.commitLockedHead command).2
      ∧ ∀ committed, (s.commitLockedHead command).1 = .ok committed →
        ∃ old, Replays command (s.commitLockedHead command).2.database old
            committed.checkpointObjectHash
          ∧ old.receiptObjectHash = committed.receiptObjectHash := by
  unfold ServerState.commitLockedHead
  cases h : s.database.commitLockedHead command with
  | error e => exact ⟨⟨hs, Grows.refl s⟩, fun _ hok => nomatch hok⟩
  | ok res =>
    obtain ⟨committed, _⟩ := res
    rcases commitLockedHead_eq_ok h with ⟨old, _, hr, rfl, rfl⟩ | ⟨hn, rfl⟩
    · refine ⟨⟨hs, Grows.refl s⟩, fun _ hok => ?_⟩
      obtain rfl := Except.ok.inj hok
      exact ⟨old, hr, rfl⟩
    · refine ⟨⟨Coherent.of_committed hs hw hn, Grows.of_committed hn⟩, fun _ hok => ?_⟩
      obtain rfl := Except.ok.inj hok
      exact ⟨entryRow command, .of_committed hs hco hw hn, rfl⟩
end Einsatzarchiv.Server
