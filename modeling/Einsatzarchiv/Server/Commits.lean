/-
  File:      Einsatzarchiv/Server/Commits.lean
  Subject:   Commits side by side and their security events (crate `ea-sync-server`, `commit.rs`).

  * `safe_run`: every reachable pool keeps the discipline of the commits.
  * `AcceptedChain`: the accepted entries of one chain.
  * `commit_safety`: the accepted entries under every interleaving.

  The transaction looks at the sequence before it looks at the predecessor of the checkpoint, so
  that a lost race stays a conflict of heads.  The head, however, is read before the checkpoint
  head, and an entry that runs ahead of its chain is let through to the transaction.

  * `accusations_justified`: the events of calls that arrive punctually.
  * `accusations_unjustified`: an entry ahead of its chain is called a fork, or its checkpoint.
-/
import Einsatzarchiv.Server.Calls

namespace Einsatzarchiv.Server

open Lib Format Protocol Database Service

section Runs

variable [Crypto] [ServerSigner] [Cbor.TextRules] [ObjectBodies] {s : ServerState} {dlv : Set Bytes}

/-! ## 1. Reachable pools -/

/-- The bytes of the grants that the calls of a run deliver. -/
def deliveredGrants (actions : List (Action CommitCall Occurrence)) : Set Bytes :=
  { bytes | ∃ call, .arrive call ∈ actions ∧ bytes ∈ call.request.sortedGrantBytes }

theorem coherent_empty : Coherent dlv {} := by
  refine ⟨fun _ _ => ⟨rfl, Chained.nil, rfl⟩, List.nodup_nil, fun row hr => ?_⟩
  cases hr

theorem keeps_occur {event : Occurrence} (hs : (commits dlv).Inv s) :
    (commits dlv).Keeps s (occur event s) := by
  cases event with
  | tick clock | publish org trust => exact keeps_of_database hs rfl fun _ _ _ h => h
  | target _ =>
    refine ⟨?_, List.prefix_refl _, List.prefix_refl _, List.prefix_refl _, fun _ _ => rfl,
      fun _ _ _ h => h⟩
    exact ⟨fun org cid => ⟨(hs.chains org cid).length,
      (hs.chains org cid).chained, (hs.chains org cid).head⟩,
      hs.hashes, hs.grants⟩

/-- Every reachable pool is safe. -/
theorem safe_run (hs : s.database = {}) {actions : List (Action CommitCall Occurrence)}
    (hco : Set.InjOn Crypto.objectHash (deliveredGrants actions)) :
    System.Safe commitRoute (commits (deliveredGrants actions)) settled
      (commitRoute.run ⟨s, []⟩ actions) := by
  refine System.run_keeps ?_ ⟨?_, by simp, by simp⟩ ?_ ?_
  · intro call _ r s t hse hg _ out heq
    obtain ⟨rcpt, cp, hst, hr, hcp⟩ := hse out heq
    exact ⟨rcpt, cp, hst.of_grows hg, ⟨hg.getExact hr.1, hr.2⟩, hg.getExact hcp.1, hcp.2⟩
  · change Coherent _ s.database
    rw [hs]
    exact coherent_empty
  · intro _ call he _
    have hc : .arrive call ∈ actions := he.subset (by simp)
    refine ⟨trivial, (safe_commitEntry hco (fun bytes hb => ⟨call, hc, hb⟩)
      _).imp (fun _ _ _ hen => hen) fun _ _ => trivial⟩
  · exact fun event _ s hi => keeps_occur hi

/-- The accepted entries of one chain. -/
structure AcceptedChain (db : Database) (organizationId : OrganizationId) (chainId : ChainId) :
    Prop where
  /-- The sequences are exactly `0 .. n`. -/
  sequences : (db.chainEntries organizationId chainId).map (·.sequenceNumber)
    = List.range (db.chainEntries organizationId chainId).length
  genesis : ∀ entry, (db.chainEntries organizationId chainId)[0]? = some entry →
    entry.previousEntryHash = none
  /-- Every other entry names the one directly below. -/
  linked : ∀ k entry, (db.chainEntries organizationId chainId)[k + 1]? = some entry →
    ∃ below, (db.chainEntries organizationId chainId)[k]? = some below
      ∧ entry.previousEntryHash = some below.entryHash
  /-- The times never decrease. -/
  times : ∀ i j : Nat, i ≤ j → ∀ earlier later : EntryRow,
    (db.chainEntries organizationId chainId)[i]? = some earlier →
    (db.chainEntries organizationId chainId)[j]? = some later →
    earlier.acceptedAtServer ≤ later.acceptedAtServer
  /-- There is exactly one checkpoint for each entry. -/
  covered : (db.chainCheckpoints organizationId chainId).map (·.coveredSequence)
    = (db.chainEntries organizationId chainId).map (·.sequenceNumber)
  /-- The checkpoint of an entry names the entry and the checkpoint of the one below. -/
  checkpoints : ∀ k entry checkpoint,
    (db.chainEntries organizationId chainId)[k]? = some entry →
    (db.chainCheckpoints organizationId chainId)[k]? = some checkpoint →
    IsCheckpoint checkpoint.objectHash k entry.entryHash
      (((db.chainCheckpoints organizationId chainId).take k).getLast?.map (·.objectHash))

theorem LinearChain.accepted {db : Database} {org : OrganizationId} {chainId : ChainId}
    (h : LinearChain db org chainId) : AcceptedChain db org chainId := by
  -- the row of an entry, together with its checkpoint
  have hr : ∀ {k : Nat} {entry : EntryRow},
      (db.chainEntries org chainId)[k]? = some entry →
      ∃ rows, (chainRows db org chainId)[k]? = some rows ∧ rows.1 = entry := by
    intro k entry he
    rwa [← h.map_fst, List.getElem?_map, Option.map_eq_some_iff] at he
  have hen : ∀ {k : Nat} {rows : EntryRow × CheckpointRow},
      (chainRows db org chainId)[k]? = some rows →
      (db.chainEntries org chainId)[k]? = some rows.1 := by
    intro k rows hro
    rw [← h.map_fst, List.getElem?_map, hro, Option.map_some]
  refine ⟨h.sequences, ?_, ?_, ?_, h.coveredSequences.trans h.sequences.symm, ?_⟩
  · intro entry he
    obtain ⟨rows, hro, rfl⟩ := hr he
    exact (h.chained.zero hro).previousEntry
  · intro k entry he
    obtain ⟨rows, hro, rfl⟩ := hr he
    obtain ⟨below, hbe, hf⟩ := h.chained.succ hro
    exact ⟨below.1, hen hbe, hf.previousEntry⟩
  · intro i j hij _ _ hea hl
    obtain ⟨a, ha, rfl⟩ := hr hea
    obtain ⟨b, hb, rfl⟩ := hr hl
    exact h.chained.monotone (fun rows => rows.1.acceptedAtServer)
      (fun _ _ _ hf => hf.notBefore _ rfl) hij ha hb
  · intro k entry checkpoint he hcp
    obtain ⟨rows, hro, rfl⟩ := hr he
    have hs : some rows.2 = some checkpoint := by
      rw [← hcp, ← h.map_snd, List.getElem?_map, hro, Option.map_some]
    obtain rfl := Option.some.inj hs
    have hf := (h.chained k rows hro).checkpoint
    rwa [← h.map_snd, ← List.map_take, List.getLast?_map, Option.map_map]

/-- **Commits are safe under every interleaving.**  From empty tables on, whatever calls arrive
and however their reads, their transactions and everything around them interleave, the accepted
entries of every chain form one line, and no entry hash is accepted under two identities.  The
hash of objects has no collision among the delivered grants. -/
theorem commit_safety (s : ServerState) (hs : s.database = {})
    (actions : List (Action CommitCall Occurrence))
    (hcollision : Set.InjOn Crypto.objectHash (deliveredGrants actions)) :
    (∀ organizationId chainId,
      AcceptedChain (commitRoute.run ⟨s, []⟩ actions).state.database organizationId chainId)
    ∧ ∀ thread ∈ (commitRoute.run ⟨s, []⟩ actions).threads,
      ∀ thread' ∈ (commitRoute.run ⟨s, []⟩ actions).threads, ∀ outcome outcome',
      thread.program = .done outcome → thread'.program = .done outcome' →
      thread.call.request.identity.entryHash = thread'.call.request.identity.entryHash →
      thread.call.request.identity = thread'.call.request.identity := by
  have hsa := safe_run hs hcollision
  refine ⟨fun organizationId chainId => (hsa.inv.chains organizationId chainId).accepted, ?_⟩
  intro thread ht thread' hthread' outcome outcome' hd hdone' heq
  have he := hsa.threads thread ht
  have hend' := hsa.threads thread' hthread'
  rw [hd] at he
  rw [hdone'] at hend'
  obtain ⟨_, _, hst, -⟩ := he outcome rfl
  obtain ⟨_, _, hstored', -⟩ := hend' outcome' rfl
  exact hst.hasIdentity.unique hsa.inv hstored'.hasIdentity heq

end Runs

/-- The grants of the table have different hashes. -/
theorem injOn_deliveredGrants {acts : List (Action (@CommitCall serverCrypto) Occurrence)}
    (h : ∀ call, .arrive call ∈ acts → ∃ name,
      (@CommitCall.request serverCrypto call).sortedGrantBytes = [tableBytes .grant name]) :
    Set.InjOn serverCrypto.objectHash (@deliveredGrants serverCrypto acts) := by
  rintro a ⟨call, hc, ha⟩ b ⟨call', hcall', hb⟩ heq
  obtain ⟨name, hna⟩ := h call hc
  obtain ⟨name', hname'⟩ := h call' hcall'
  rw [hna, List.mem_singleton] at ha
  rw [hname', List.mem_singleton] at hb
  subst ha hb
  have hn : name.toNat = name'.toNat := heq
  rw [UInt8.toNat_inj.mp hn]

/-- Two calls of one writer: the second entry is prepared before the first one is committed. -/
def racingCalls : List (Action (@CommitCall serverCrypto) Occurrence) :=
  [.arrive (tableCall 51 61), .arrive (tableCall 50 60)] ++ List.replicate 12 (.proceed 0)
    ++ List.replicate 15 (.proceed 1) ++ List.replicate 2 (.proceed 0)

theorem isSome_firstRequest : (tableRequest 50 60).toOption.isSome := by decide +kernel

theorem isSome_secondRequest : (tableRequest 51 61).toOption.isSome := by decide +kernel

/-- The race, then the second entry once more, and at time 18 the first one again. -/
def repeatedCalls : List (Action (@CommitCall serverCrypto) Occurrence) :=
  racingCalls ++ [.arrive (tableCall 51 61 isSome_secondRequest)] ++ List.replicate 15 (.proceed 2)
    ++ [.occur (.tick 18), .arrive (tableCall 50 60 isSome_firstRequest)]
    ++ List.replicate 15 (.proceed 3)

theorem injOn_repeatedCalls :
    Set.InjOn serverCrypto.objectHash (@deliveredGrants serverCrypto repeatedCalls) := by
  refine injOn_deliveredGrants fun call hc => ?_
  have h : call = tableCall 50 60 isSome_firstRequest
      ∨ call = tableCall 51 61 isSome_secondRequest := by
    simp only [repeatedCalls, racingCalls, List.mem_append, List.mem_cons, List.mem_replicate,
      reduceCtorEq, and_false, or_false, false_or, List.not_mem_nil, Action.arrive.injEq] at hc
    tauto
  rcases h with rfl | rfl
  · exact ⟨60, by decide +kernel⟩
  · exact ⟨61, by decide +kernel⟩

theorem commit_safety_repeated :
    let := serverCrypto
    let := serverSigner
    let := noTexts
    let := serverBodies
    (tableRun repeatedCalls).state.database.entries.map (·.entryHash) = [100, 101]
      ∧ AcceptedChain (tableRun repeatedCalls).state.database 1 2 := by
  have hs := @commit_safety serverCrypto serverSigner noTexts serverBodies tableServer rfl
    repeatedCalls injOn_repeatedCalls
  refine ⟨by decide +kernel, ?_⟩
  rw [tableRun]
  exact hs.1 1 2

section Runs

variable [Crypto] [ServerSigner] [Cbor.TextRules] [ObjectBodies]

/-- The logs of the calls. -/
def justified (call : CommitCall) :
    Contract ServerState Port.Reply CommitFailure CommitOutcome where
  Good log := Justified call (marks log)
  Post _ _ _ := True

/-- **Accusations are justified.**  Where no entry arrives ahead of its chain, every security event
of a call is borne out by the chain, however the calls interleave. -/
theorem accusations_justified (s : ServerState) (hs : s.database = {})
    (actions : List (Action CommitCall Occurrence))
    (hcollision : Set.InjOn Crypto.objectHash (deliveredGrants actions))
    (hpunctual : ∀ earlier call, earlier ++ [.arrive call] <+: actions →
      Punctual call (commitRoute.run ⟨s, []⟩ earlier).state) :
    ∀ thread ∈ (commitRoute.run ⟨s, []⟩ actions).threads,
      Justified thread.call (marks thread.log) := by
  have hsa : System.Safe commitRoute (commits (deliveredGrants actions)) justified
      (commitRoute.run ⟨s, []⟩ actions) := by
    refine System.run_keeps (fun _ _ _ _ _ _ _ _ => trivial) ⟨?_, by simp, by simp⟩
      (fun earlier call he _ => ⟨.nil, ?_⟩) fun event _ s hi => keeps_occur hi
    · change Coherent _ s.database
      rw [hs]
      exact coherent_empty
    · have hc : .arrive call ∈ actions := he.subset (by simp)
      exact (safe_commitEntry hcollision (fun bytes hb => ⟨call, hc, hb⟩) _).imp
        (fun _ _ _ _ => trivial) fun log hl => hl (hpunctual earlier call he)
  exact hsa.logs

end Runs

/-- The entry of sequence zero is committed, and then another one of this sequence arrives. -/
def forkingCalls : List (Action (@CommitCall serverCrypto) Occurrence) :=
  [.arrive (tableCall 50 60)] ++ List.replicate 15 (.proceed 0) ++ [.arrive (tableCall 52 62)]
    ++ List.replicate 15 (.proceed 1)

theorem accusations_justified_fork :
    let := serverCrypto
    let := serverSigner
    let := noTexts
    let := serverBodies
    (tableRun forkingCalls).state.securityEvents.map (·.kind) = [.sequenceFork]
      ∧ ∀ thread ∈ (tableRun forkingCalls).threads, Justified thread.call (marks thread.log) := by
  have hc : ∀ call, .arrive call ∈ forkingCalls →
      call = tableCall 50 60 ∨ call = tableCall 52 62 := by
    intro call hca
    simpa [forkingCalls] using hca
  have hco := @injOn_deliveredGrants forkingCalls (by
    intro call hca
    rcases hc call hca with rfl | rfl
    · exact ⟨60, by decide +kernel⟩
    · exact ⟨62, by decide +kernel⟩)
  -- both entries are those of sequence zero
  have hz : ∀ call, .arrive call ∈ forkingCalls →
      (@parseEntry serverCrypto (@CommitCall.request serverCrypto call).entryBytes).toOption.map
        (·.value.signedManifest.manifest.chainSequence) = some 0 := by
    intro call hca
    rcases hc call hca with rfl | rfl <;> decide +kernel
  have hj := @accusations_justified serverCrypto serverSigner noTexts serverBodies
    tableServer rfl forkingCalls hco (by
      intro _ call hea _ he
      have hs := hz call (hea.subset (by simp))
      rw [he] at hs
      exact (Option.some.inj hs).le.trans (Nat.zero_le _))
  refine ⟨by decide +kernel, ?_⟩
  rw [tableRun]
  exact hj

section Marks

variable [Crypto] {call : CommitCall} {log : List Mark}

/-- An accusation, with the entries of the chain at that time. -/
def Mark.accusation (organizationId : OrganizationId) (chainId : ChainId) :
    Mark → Option (SecurityEventKind × List EntryRow)
  | .accused event s => some (event.kind, s.database.chainEntries organizationId chainId)
  | _ => none

/-- The head that a call has read or that its transaction has met. -/
def Mark.head (organizationId : OrganizationId) (chainId : ChainId) :
    Mark → Option (Option ChainHeadState)
  | .read head => some head
  | .transaction start _ => some (start.database.headState organizationId chainId)
  | .accused _ _ => none

/-- A fork is reported, and the chain is empty. -/
theorem not_justified_of_accusation
    (h : log.filterMap (Mark.accusation call.organizationId call.chainId) = [(.sequenceFork, [])]) :
    ¬ Justified call log := by
  intro hj
  have hm : (SecurityEventKind.sequenceFork, ([] : List EntryRow))
      ∈ log.filterMap (Mark.accusation call.organizationId call.chainId) := by
    rw [h]
    exact List.mem_singleton_self _
  obtain ⟨mark, hma, heq⟩ := List.mem_filterMap.mp hm
  cases mark with
  | accused event s =>
    obtain ⟨hk, he⟩ := Prod.mk.inj (Option.some.inj heq)
    obtain ⟨_, -, _, hr, -⟩ := hj.fork event s hma hk
    rw [he] at hr
    cases hr
  | read head | transaction start reply => cases heq

/-- A conflict of checkpoints is reported, and the transaction met another head. -/
theorem not_justified_of_heads {read met : Option ChainHeadState}
    (h : (log.filterMap (Mark.accusation call.organizationId call.chainId)).map (·.1)
      = [.checkpointPredecessorConflict])
    (hh : log.filterMap (Mark.head call.organizationId call.chainId) = [read, met])
    (hne : read ≠ met) : ¬ Justified call log := by
  intro hj
  have hm : SecurityEventKind.checkpointPredecessorConflict
      ∈ (log.filterMap (Mark.accusation call.organizationId call.chainId)).map (·.1) := by
    rw [h]
    exact List.mem_singleton_self _
  obtain ⟨_, ha, hk⟩ := List.mem_map.mp hm
  obtain ⟨mark, hma, heq⟩ := List.mem_filterMap.mp ha
  cases mark with
  | accused event s =>
    obtain rfl := Option.some.inj heq
    obtain ⟨start, reply, _, rfl⟩ := hj.checkpoint event s hma hk
    simp only [List.filterMap_cons, Mark.head, List.cons.injEq] at hh
    exact hne (hh.1.symm.trans hh.2.1)
  | read head | transaction start reply => cases heq

end Marks

/-- An entry of sequence one for an empty chain. -/
def leapingCall : List (Action (@CommitCall serverCrypto) Occurrence) :=
  [.arrive (tableCall 51 61)] ++ List.replicate 15 (.proceed 0)

/-- **Accusations that are not justified.**  An entry ahead of an empty chain is reported as a
fork, and an entry ahead of its chain that another commit catches up with is reported for its
checkpoint, although the head has moved since the call has read it. -/
theorem accusations_unjustified :
    let := serverCrypto
    let := serverSigner
    let := noTexts
    let := serverBodies
    (∃ thread ∈ (tableRun leapingCall).threads, ¬ Justified thread.call (marks thread.log))
      ∧ ∃ thread ∈ (tableRun racingCalls).threads, ¬ Justified thread.call (marks thread.log) := by
  intro _ _ _ _
  constructor
  · have hf : (tableRun leapingCall).threads[0]?.map (fun thread =>
        (marks thread.log).filterMap
          (Mark.accusation thread.call.organizationId thread.call.chainId))
        = some [(.sequenceFork, [])] := by
      decide +kernel
    obtain ⟨thread, ht, heq⟩ := Option.map_eq_some_iff.mp hf
    exact ⟨thread, List.mem_of_getElem? ht, not_justified_of_accusation heq⟩
  · have hc : (tableRun racingCalls).threads[0]?.map (fun thread =>
        (((marks thread.log).filterMap
          (Mark.accusation thread.call.organizationId thread.call.chainId)).map (·.1),
        (marks thread.log).filterMap (Mark.head thread.call.organizationId thread.call.chainId)))
        = some ([.checkpointPredecessorConflict], [none, some ⟨0, 100, 15⟩]) := by
      decide +kernel
    obtain ⟨thread, ht, heq⟩ := Option.map_eq_some_iff.mp hc
    obtain ⟨hk, hh⟩ := Prod.mk.inj heq
    exact ⟨thread, List.mem_of_getElem? ht, not_justified_of_heads hk hh (by decide)⟩

end Einsatzarchiv.Server
