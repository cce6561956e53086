/-
  File:      Einsatzarchiv/Server/Calls.lean
  Subject:   What a commit has seen, whom it has accused and what it keeps (crate `ea-sync-server`,
             `commit.rs` and `models.rs`).

  * `Mark`, `marks`: the heads a call has read, its transaction and the events it has recorded.
  * `Justified`: an accusation is borne out by the chain.
  * `Punctual`: the entry does not run ahead of the chain.
  * `PreparedCommit.Of`: what a call has prepared, whatever it has read.
  * `Arrived`, `Observed`, `Settled`: the states of a call.
  * `Stored`, `Holds`: the stored commit of a call and the objects it names.
  * `Refused`: what a transaction that was refused for its place has shown.
  * `safe_commitEntry`: a call keeps the discipline, whatever the others do.
-/
import Einsatzarchiv.Server.Chains
import Einsatzarchiv.Server.Commit

namespace Einsatzarchiv.Server

open Lib Format Protocol

variable [Crypto]

/-! ## 1. Marks -/

/-- The operations of a call, with their replies. -/
abbrev Log := List (Step ServerState Port.Reply)

/-- What of a call matters to its accusations. -/
inductive Mark
  | read (head : Option ChainHeadState)
  | transaction (start : ServerState) (reply : Except RepositoryError CommittedDbState)
  | accused (event : SecurityEvent) (state : ServerState)

def mark : Step ServerState Port.Reply → Option Mark
  | ⟨.headState _ _, .ok head, _⟩ => some (.read head)
  | ⟨.commitLockedHead _, reply, start⟩ => some (.transaction start reply)
  | ⟨.record event, _, state⟩ => some (.accused event state)
  | _ => none

def marks (log : Log) : List Mark := log.filterMap mark

theorem marks_concat (log : Log) (step : Step ServerState Port.Reply) :
    marks (log ++ [step]) = marks log ++ (mark step).toList := by
  cases h : mark step <;> simp [marks, h]

theorem marks_silent (log : Log) {port : Port} (hp : port.Silent) (reply : port.Reply)
    (before : ServerState) : marks (log ++ [⟨port, reply, before⟩]) = marks log := by
  rw [marks_concat]
  cases port <;> first | exact hp.elim | exact List.append_nil _

/-! ## 2. Accusations -/

/-- What the marks of a call may say. -/
structure Justified (call : CommitCall) (marks : List Mark) : Prop where
  /-- A fork: the chain holds another entry at the sequence. -/
  fork : ∀ event s, .accused event s ∈ marks → event.kind = .sequenceFork →
    ∃ entry, parseEntry call.request.entryBytes = .ok entry
      ∧ ∃ row ∈ s.database.chainEntries call.organizationId call.chainId,
        row.sequenceNumber = entry.value.signedManifest.manifest.chainSequence
        ∧ row.entryHash ≠ entry.value.entryHash
  /-- A conflict of checkpoints: the transaction ran on the head that the call had read. -/
  checkpoint : ∀ event s, .accused event s ∈ marks → event.kind = .checkpointPredecessorConflict →
    ∃ start reply rest, marks = .read (start.database.headState call.organizationId call.chainId)
        :: .transaction start reply :: rest
  /-- A call whose place was taken since it has read the head accuses nobody. -/
  race : ∀ current start error rest,
    marks = .read current :: .transaction start (.error error) :: rest →
    error = .headConflict ∨ error = .checkpointPredecessorConflict →
    start.database.headState call.organizationId call.chainId ≠ current →
    ∀ event s, .accused event s ∉ rest

/-- The entry of the call is at most the next one of its chain. -/
def Punctual (call : CommitCall) (s : ServerState) : Prop :=
  ∀ entry, parseEntry call.request.entryBytes = .ok entry →
    entry.value.signedManifest.manifest.chainSequence
      ≤ (s.database.chainEntries call.organizationId call.chainId).length

namespace Justified

variable {call : CommitCall} {marks : List Mark} {reply : Except RepositoryError CommittedDbState}
  {cur : Option ChainHeadState} {start : ServerState}
  {rest : List Mark}

/-- Marks without a transaction, in which only alarms are raised. -/
theorem of_alarms (ha : ∀ event s, .accused event s ∈ marks → Port.Alarm (.record event))
    (htx : ∀ start reply, .transaction start reply ∉ marks) : Justified call marks := by
  refine ⟨fun event s hm hk => ?_, fun event s hm hk => ?_,
    fun cur start error rest heq => ?_⟩
  · rcases ha event s hm with h | h <;> rw [h] at hk <;> cases hk
  · rcases ha event s hm with h | h <;> rw [h] at hk <;> cases hk
  · refine (htx start (.error error) ?_).elim
    rw [heq]
    exact List.mem_cons_of_mem _ List.mem_cons_self

theorem nil : Justified call [] := of_alarms (fun _ _ hm => by cases hm) fun _ _ hm => by cases hm

/-- A transaction that ran, and nothing recorded since. -/
theorem of_quiet (hr : ∀ event s, .accused event s ∉ rest) :
    Justified call (.read cur :: .transaction start reply :: rest) := by
  have hn : ∀ event s, .accused event s ∉ .read cur :: .transaction start reply :: rest := by
    intro event s hm
    rcases List.mem_cons.mp hm with h | hm
    · cases h
    · rcases List.mem_cons.mp hm with h | hm
      · cases h
      · exact hr event s hm
  refine ⟨fun event s hm => (hn event s hm).elim,
    fun event s hm => (hn event s hm).elim, fun _ _ _ _ heq _ _ event s hm => ?_⟩
  obtain ⟨-, -, rfl⟩ : cur = _ ∧ _ ∧ rest = _ := by simpa using heq
  exact hr event s hm

/-- A transaction that ran, and one event at the end. -/
theorem of_accused (hr : ∀ event s, .accused event s ∉ rest) {event : SecurityEvent}
    {s : ServerState} (hf : event.kind = .sequenceFork →
      ∃ entry, parseEntry call.request.entryBytes = .ok entry
        ∧ ∃ row ∈ s.database.chainEntries call.organizationId call.chainId,
          row.sequenceNumber = entry.value.signedManifest.manifest.chainSequence
          ∧ row.entryHash ≠ entry.value.entryHash)
    (hh : event.kind = .checkpointPredecessorConflict ∨ reply = .error .headConflict
        ∨ reply = .error .checkpointPredecessorConflict →
      start.database.headState call.organizationId call.chainId = cur) :
    Justified call (.read cur :: .transaction start reply :: (rest ++ [.accused event s])) := by
  have ho : ∀ event' s', .accused event' s'
      ∈ .read cur :: .transaction start reply :: (rest ++ [.accused event s]) →
      event' = event ∧ s' = s := by
    intro event' s' hm
    simp only [List.mem_cons, List.mem_append, reduceCtorEq, false_or, List.not_mem_nil, or_false,
      Mark.accused.injEq] at hm
    exact hm.resolve_left (hr event' s')
  refine ⟨fun event' s' hm hk => ?_, fun event' s' hm hk => ?_,
    fun cur' start' error rest' heq hp hmo => ?_⟩
  · obtain ⟨rfl, rfl⟩ := ho event' s' hm
    exact hf hk
  · obtain ⟨rfl, rfl⟩ := ho event' s' hm
    obtain rfl := hh (.inl hk)
    exact ⟨start, reply, _, rfl⟩
  · obtain ⟨rfl, ⟨rfl, rfl⟩, -⟩ := heq
    refine (hmo (hh (.inr ?_))).elim
    rcases hp with rfl | rfl
    · exact .inl rfl
    · exact .inr rfl

end Justified

open Database Service

variable [ServerSigner] [Cbor.TextRules] [ObjectBodies] {current : Option ChainHeadState}

/-! ## 3. Marks and states -/

/-- What only depends on the marks and on what others leave alone. -/
theorem kept_of_marks {delivered : Set Bytes} {Q : List Mark → ServerState → Prop}
    {G : List Mark → Prop} (hst : ∀ marks s t, Q marks s → Grows s t → Q marks t)
    (hgo : ∀ marks s, Q marks s → G marks)
    (ha : ∀ marks event before s, Port.Alarm (.record event) → Q marks s →
      G (marks ++ [.accused event before])) :
    Program.Kept ports Port.Silent Port.Alarm (commits delivered) (fun log => G (marks log))
      (fun log s => Q (marks log) s) where
  keeps port hp s hs := keeps_of_passive (hp.elim Port.Silent.passive Port.Alarm.passive) hs
  stable log s t hQ hg _ := hst _ s t hQ hg
  step log port reply before s hp hQ := by
    rw [marks_silent log hp]
    exact hQ
  good log s hQ := hgo _ s hQ
  final log port reply before s hp hQ := by
    cases port with
    | record event =>
      rw [marks_concat]
      exact ha _ event before s hp hQ
    | _ => exact hp.elim


/-! ## 4. Before the transaction -/

/-- What a call has prepared, whatever it has read. -/
structure PreparedCommit.Of (call : CommitCall) (prepared : PreparedCommit) : Prop where
  organization : prepared.command.organizationId = call.organizationId
  chain : prepared.command.chainId = call.chainId
  identity : prepared.command.identity = call.request.identity
  sequence : prepared.command.sequence = prepared.commit.chainSequence
  entryHash : prepared.commit.entryHash = call.request.identity.entryHash
  previous : prepared.command.previousEntryHash = prepared.commit.previousEntryHash
  entry : ∃ entry, parseEntry call.request.entryBytes = .ok entry
    ∧ prepared.commit.chainSequence = entry.value.signedManifest.manifest.chainSequence
    ∧ prepared.commit.entryHash = entry.value.entryHash
  wellformed : Wellformed { bytes | bytes ∈ call.request.sortedGrantBytes } prepared.command

theorem yields_sealCommit {call : CommitCall} {entry : Parsed EntryPackage}
    (he : parseEntry call.request.entryBytes = .ok entry) {head : ActiveRegistryHead}
    {commit : ValidatedCommit}
    (hc : Validated call.request entry call.organizationId call.chainId commit)
    {now acceptedAtServer : Int} :
    (sealCommit call.request call.organizationId call.chainId head commit current now
      acceptedAtServer).Yields fun prepared =>
        prepared.Of call ∧ prepared.current = current := by
  unfold sealCommit
  refine yields_lift.bind fun receipt _ => yields_lift.bind fun receiptBytes _ => ?_
  refine yields_stage.bind fun stagedReceipt _ => yields_putVerified.bind fun _ _ => ?_
  refine yields_checkpointHead.bind fun prevHash _ => ?_
  refine yields_lift.bind fun checkpoint hcp => ?_
  refine yields_stage.bind fun stagedCheckpoint hs => yields_putVerified.bind fun _ _ => ?_
  have hh : commit.entryHash = call.request.identity.entryHash :=
    hc.entryHash.trans (call.entryHash_eq he).symm
  have hi := call.identified
  refine ⟨⟨rfl, rfl, rfl, rfl, hh, rfl, ⟨entry, he, hc.sequence, hc.entryHash⟩,
    rfl, ?_, fun hash hm => ?_, hi.sorted⟩, rfl⟩
  · change IsCheckpoint stagedCheckpoint.objectHash commit.chainSequence
      call.request.identity.entryHash prevHash
    rw [hs, ← hh]
    exact isCheckpoint_of_build hcp
  · change hash ∈ call.request.identity.sortedGrantObjectHashes at hm
    rw [hi.grants] at hm
    obtain ⟨bytes, hb, rfl⟩ := List.mem_map.mp hm
    refine ⟨bytes, hb, ?_, rfl⟩
    change GrantOf call.request.identity.entryHash bytes
    rw [call.entryHash_eq he]
    exact hc.grants bytes hb
/-! ## 5. A call keeps the discipline -/

section Calls

variable {delivered : Set Bytes} (hco : Set.InjOn Crypto.objectHash delivered)

theorem Wellformed.mono {grants : Set Bytes} {cmd : CommitDbCommand}
    (h : Wellformed grants cmd) (hs : grants ⊆ delivered) :
    Wellformed delivered cmd where
  covered := h.covered
  checkpoint := h.checkpoint
  grants hash hm := by
    obtain ⟨bytes, hb, hof⟩ := h.grants hash hm
    exact ⟨bytes, hs hb, hof⟩
  sorted := h.sorted

/-- The states of a call: nothing read yet. -/
def Arrived (arrival : ServerState) (marks : List Mark) (s : ServerState) : Prop :=
  marks = [] ∧ Grows arrival s

/-- The head has been read, in a state in between. -/
def Observed (delivered : Set Bytes) (call : CommitCall) (arrival : ServerState)
    (current : Option ChainHeadState) (marks : List Mark) (s : ServerState) : Prop :=
  marks = [.read current] ∧ ∃ t, Grows arrival t ∧ Grows t s ∧ (commits delivered).Inv t
    ∧ t.database.headState call.organizationId call.chainId = current

/-- The command of a call, up to what its receipt and its checkpoint say. -/
structure CommandOf (call : CommitCall) (command : CommitDbCommand) : Prop where
  organization : command.organizationId = call.organizationId
  chain : command.chainId = call.chainId
  identity : command.identity = call.request.identity
  sequence : ∃ entry, parseEntry call.request.entryBytes = .ok entry
    ∧ command.sequence = entry.value.signedManifest.manifest.chainSequence

variable {call : CommitCall} {prepared : PreparedCommit} {checkpoint receipt : ObjectHash}
  {s arrival : ServerState} {log : Log} {committed : CommittedDbState} {P : ServerState → Prop}
  {start : ServerState} {α : Type}

theorem PreparedCommit.Of.command (h : prepared.Of call) : CommandOf call prepared.command := by
  obtain ⟨entry, he, hs, -⟩ := h.entry
  exact ⟨h.organization, h.chain, h.identity, entry, he, h.sequence.trans hs⟩

/-- The commit of a call is stored, with the receipt and the checkpoint of these hashes. -/
def Stored (call : CommitCall) (receipt checkpoint : ObjectHash) (s : ServerState) : Prop :=
  ∃ command existing, CommandOf call command ∧ Replays command s.database existing checkpoint
    ∧ existing.receiptObjectHash = receipt

omit [ServerSigner] [Cbor.TextRules] [ObjectBodies] in
theorem Stored.of_grows {t : ServerState} (h : Stored call receipt checkpoint s)
    (hg : Grows s t) : Stored call receipt checkpoint t := by
  obtain ⟨cmd, old, hc, hr, hre⟩ := h
  exact ⟨cmd, old, hc, hr.of_grows hg, hre⟩

omit [ServerSigner] [Cbor.TextRules] [ObjectBodies] in
theorem Stored.hasIdentity (h : Stored call receipt checkpoint s) :
    HasIdentity s.database call.request.identity := by
  obtain ⟨_, _, hc, hr, -⟩ := h
  rw [← hc.identity]
  exact .of_replays hr

/-- The transaction has accepted. -/
def Settled (call : CommitCall) (committed : CommittedDbState) (marks : List Mark)
    (s : ServerState) : Prop :=
  (∃ current start, marks = [.read current, .transaction start (.ok committed)])
    ∧ Stored call committed.receiptObjectHash committed.checkpointObjectHash s

/-- The bytes that an object can be read back with. -/
def Holds (s : ServerState) (hash : ObjectHash) (bytes : Bytes) : Prop :=
  s.getExact hash = .ok bytes ∧ Crypto.objectHash bytes = hash

/-- The accusations of a call that arrives punctually. -/
def accountable (call : CommitCall) (arrival : ServerState) (marks : List Mark) : Prop :=
  Punctual call arrival → Justified call marks

/-- What a call that ended has established: its commit is stored with the objects it delivers. -/
def settled (call : CommitCall) : Contract ServerState Port.Reply CommitFailure CommitOutcome where
  Post _ result s := ∀ outcome, result = .ok outcome → ∃ receipt checkpoint,
    Stored call receipt checkpoint s ∧ Holds s receipt outcome.receiptBytes
      ∧ Holds s checkpoint outcome.checkpointBytes

/-- The call accuses as it may, and what it establishes with a value. -/
abbrev Answers (delivered : Set Bytes) (call : CommitCall) (arrival : ServerState) {α : Type}
    (p : Service α) (Q : α → List Mark → ServerState → Prop)
    (log : List (Step ServerState Port.Reply)) (s : ServerState) : Prop :=
  p.Safe ports (commits delivered) ⟨fun log => accountable call arrival (marks log),
    fun log r t => ∀ a, r = .ok a → Q a (marks log) t⟩ log s

section Kept

theorem kept_arrived : Program.Kept ports Port.Silent Port.Alarm (commits delivered)
    (fun log => accountable call arrival (marks log))
    (fun log s => Arrived arrival (marks log) s) := by
  refine kept_of_marks (fun marks s t h hg => ⟨h.1, h.2.trans hg⟩) ?_ ?_
  · rintro marks s ⟨rfl, -⟩ -
    exact .nil
  · rintro marks _ _ s ha ⟨rfl, -⟩ -
    refine .of_alarms (fun event' s' hm => ?_) fun _ _ hm => ?_
    · cases List.mem_singleton.mp hm
      exact ha
    · cases List.mem_singleton.mp hm

theorem kept_observed : Program.Kept ports Port.Silent Port.Alarm (commits delivered)
      (fun log => accountable call arrival (marks log))
      (fun log s => Observed delivered call arrival current (marks log) s) := by
  refine kept_of_marks ?_ ?_ ?_
  · rintro marks s t ⟨hma, u, hu, hus, hr⟩ hg
    exact ⟨hma, u, hu, hus.trans hg, hr⟩
  · rintro marks s ⟨rfl, -⟩ -
    refine .of_alarms (fun _ _ hm => ?_) fun _ _ hm => ?_
    all_goals cases List.mem_singleton.mp hm
  · rintro marks event before s ha ⟨rfl, -⟩ -
    refine .of_alarms (fun event' s' hm => ?_) fun _ _ hm => ?_
    · have : event' = event ∧ s' = before := by simpa using hm
      rw [this.1]
      exact ha
    · simp at hm

theorem kept_settled (hP : ∀ s t, P s → Grows s t → P t) :
    Program.Kept ports Port.Silent Port.Alarm (commits delivered)
      (fun log => accountable call arrival (marks log))
      (fun log s => Settled call committed (marks log) s ∧ P s) := by
  refine kept_of_marks (Q := fun marks s => Settled call committed marks s ∧ P s)
    (fun marks s t h hg => ⟨⟨h.1.1, h.1.2.of_grows hg⟩, hP s t h.2 hg⟩) ?_ ?_
  · rintro marks s ⟨⟨⟨current, start, rfl⟩, -⟩, -⟩ -
    exact .of_quiet fun _ _ hm => by cases hm
  · rintro marks event _ s ha ⟨⟨⟨current, start, rfl⟩, -⟩, -⟩ -
    have hn : ∀ event s, Mark.accused event s ∉ ([] : List Mark) := fun _ _ h => (nomatch h)
    refine .of_accused hn (fun hk => ?_) fun hp => ?_
    · rcases ha with h | h <;> rw [h] at hk <;> cases hk
    · rcases hp with hk | h | h
      · rcases ha with h | h <;> rw [h] at hk <;> cases hk
      · cases h
      · cases h

end Kept

/-- An event, and then the failure. -/
theorem safe_accuse {event : SecurityEvent} {failure : CommitFailure}
    (hg : ∀ t, Grows s t → (commits delivered).Inv t →
      accountable call arrival (marks log ++ [.accused event t])) :
    Answers delivered call arrival (Service.call (.record event) >>= fun _ =>
      (Program.fail failure : Service α)) (fun _ _ _ => False) log s := by
  intro t hr hi
  have hm : marks (log ++ [⟨.record event, (), t⟩]) = marks log ++ [.accused event t] :=
    marks_concat log _
  have ha := hg t hr hi
  rw [← hm] at ha
  have hk : (commits delivered).Keeps t (ports.perform (.record event) t).2 :=
    keeps_of_passive (by trivial) hi
  exact ⟨⟨hk, ha, fun _ h => nomatch h⟩, fun _ _ => ⟨ha, fun _ h => nomatch h⟩⟩

/-- The head is read. -/
theorem safe_headState (hs : Arrived arrival (marks log) s) :
    Answers delivered call arrival (headState call.organizationId call.chainId)
      (Observed delivered call arrival) log s := by
  intro t hrl hi
  have ht : Arrived arrival (marks log) t := ⟨hs.1, hs.2.trans hrl⟩
  have hr : Observed delivered call arrival (t.database.headState call.organizationId call.chainId)
      (marks (log ++ [⟨.headState call.organizationId call.chainId,
        .ok (t.database.headState call.organizationId call.chainId), t⟩])) t := by
    rw [marks_concat, ht.1]
    exact ⟨rfl, t, ht.2, Grows.refl t, hi, rfl⟩
  have hk : (commits delivered).Keeps t
      (ports.perform (.headState call.organizationId call.chainId) t).2 :=
    keeps_of_passive (by trivial) hi
  refine ⟨⟨hk, kept_observed.good _ _ hr, fun current heq => ?_⟩, fun reply hre => ?_⟩
  · obtain rfl := Except.ok.inj heq
    exact hr
  · obtain rfl : Except.error RepositoryError.unavailable = reply := by
      simpa [ports, Port.refuse] using hre
    refine ⟨fun _ => ?_, fun _ heq => by cases heq⟩
    rw [marks_concat, ht.1]
    exact .nil

/-- Everything before the transaction. -/
theorem safe_prepareCommit (call : CommitCall) (arrival : ServerState) :
    Answers delivered call arrival (prepareCommit call.request call.organizationId call.chainId
      call.writerCertificateHash) (fun prepared marks t => prepared.Of call
        ∧ Observed delivered call arrival prepared.current marks t) [] arrival := by
  have hb : Arrived arrival (marks []) arrival := ⟨rfl, Grows.refl arrival⟩
  refine yields_stage.safe_bind kept_arrived hb fun stagedEntry _ log s hs => ?_
  refine (yields_stageGrants _).safe_bind kept_arrived hs fun stagedGrants _ log s hs => ?_
  refine yields_lift.safe_bind kept_arrived hs fun entry he log s hs => ?_
  refine (yields_call (by trivial)).safe_bind kept_arrived hs fun now _ log s hs => ?_
  refine (safe_headState hs).then fun log current s hen => ?_
  have hs := hen current rfl
  refine yields_selectHead.safe_bind kept_observed hs fun head _ log s hs => ?_
  refine yields_require.safe_bind kept_observed hs fun _ _ log s hs => ?_
  refine yields_validated.safe_bind kept_observed hs fun commit hc log s hs => ?_
  refine yields_require.safe_bind kept_observed hs fun _ _ log s hs => ?_
  refine yields_require.safe_bind kept_observed hs fun _ _ log s hs => ?_
  refine yields_putVerified.safe_bind kept_observed hs fun _ _ log s hs => ?_
  refine (yields_putGrants _).safe_bind kept_observed hs fun _ _ log s hs => ?_
  refine ((yields_sealCommit he hc).safe kept_observed hs).imp ?_
  intro log r t hen prepared heq
  obtain ⟨⟨hof, rfl⟩, ho⟩ := hen prepared heq
  exact ⟨hof, ho⟩

/-- What a transaction that was refused for its place has shown. -/
structure Refused (delivered : Set Bytes) (call : CommitCall) (arrival : ServerState)
    (prepared : PreparedCommit) (start : ServerState) : Prop where
  preparedOf : prepared.Of call
  coherent : (commits delivered).Inv start
  read : ∃ t, Grows arrival t ∧ Grows t start ∧ (commits delivered).Inv t
    ∧ t.database.headState call.organizationId call.chainId = prepared.current
  fresh : ∀ row ∈ start.database.entries, row.entryHash ≠ call.request.identity.entryHash

namespace Refused

variable {u : ServerState} (h : Refused delivered call arrival prepared start)
include h

/-- The entries of the chain when the head was read. -/
theorem length_read : ∃ t, Grows arrival t ∧ Grows t start ∧ (commits delivered).Inv t
    ∧ t.database.headState call.organizationId call.chainId = prepared.current
    ∧ (t.database.chainEntries call.organizationId call.chainId).length
      = (prepared.current.map (·.sequence + 1)).getD 0 := by
  obtain ⟨t, hat, hts, ht, hr⟩ := h.read
  exact ⟨t, hat, hts, ht, hr, by rw [(ht.chains _ _).length_entries, hr]⟩

/-- A head that is found again was there when the transaction ran. -/
theorem headState_eq (hg : Grows start u) (hu : (commits delivered).Inv u)
    (hs : u.database.headState call.organizationId call.chainId = prepared.current) :
    start.database.headState call.organizationId call.chainId = prepared.current := by
  obtain ⟨t, -, hts, ht, hr, hl⟩ := h.length_read
  have hle : (u.database.chainEntries call.organizationId call.chainId).length
      ≤ (t.database.chainEntries call.organizationId call.chainId).length := by
    rw [(hu.chains _ _).length_entries, hs, hl]
  rw [headState_eq_of_grows ht h.coherent hts hg hle, hr]

/-- An entry behind the head has lost its place to another one. -/
theorem exists_other (hp : Punctual call arrival)
    (hs : prepared.commit.chainSequence ≠ (prepared.current.map (·.sequence + 1)).getD 0)
    (hg : Grows start u) :
    ∃ entry, parseEntry call.request.entryBytes = .ok entry
      ∧ ∃ row ∈ u.database.chainEntries call.organizationId call.chainId,
        row.sequenceNumber = entry.value.signedManifest.manifest.chainSequence
        ∧ row.entryHash ≠ entry.value.entryHash := by
  obtain ⟨t, hat, hts, ht, -, _⟩ := h.length_read
  obtain ⟨entry, he, _, hh⟩ := h.preparedOf.entry
  have hle := hp entry he
  have hgr := (hat.chainEntries call.organizationId call.chainId).length_le
  obtain ⟨row, hr, heq⟩ := (ht.chains call.organizationId call.chainId).exists_entry
    (show entry.value.signedManifest.manifest.chainSequence < _ by omega)
  refine ⟨entry, he, row, ?_, heq, ?_⟩
  · exact ((hts.trans hg).chainEntries _ _).subset hr
  · rw [← hh, h.preparedOf.entryHash]
    exact h.fresh row (List.mem_of_mem_filter ((hts.chainEntries _ _).subset hr))

/-- An entry that is the next one at the transaction was the next one when it arrived. -/
theorem headState_eq_of_expected (hp : Punctual call arrival) (hep : expectedSequence
        (start.database.headRow prepared.command.organizationId prepared.command.chainId)
      = .ok prepared.command.sequence) :
    start.database.headState call.organizationId call.chainId = prepared.current := by
  obtain ⟨t, hat, hts, ht, hre, -⟩ := h.length_read
  obtain ⟨entry, he, _, -⟩ := h.preparedOf.entry
  have hl : (start.database.chainEntries call.organizationId call.chainId).length
      = prepared.command.sequence := by
    rw [(h.coherent.chains _ _).length_entries, Database.headState]
    rw [h.preparedOf.organization, h.preparedOf.chain] at hep
    cases hr : start.database.headRow call.organizationId call.chainId with
    | none =>
      rw [hr] at hep
      exact Except.ok.inj hep
    | some _ =>
      rw [hr, expectedSequence, okOr_eq_ok, checkedAdd_eq_some] at hep
      exact hep.1.symm
  have hle := hp entry he
  have hg := (hat.chainEntries call.organizationId call.chainId).length_le
  have hs := h.preparedOf.sequence
  rw [headState_eq_of_grows ht h.coherent hts (Grows.refl start) (by omega), hre]

end Refused

/-- Only a head that is found again leads to an accusation. -/
theorem safe_classifyHeadConflict (hrf : Refused delivered call arrival prepared start)
    (hma : marks log = [.read prepared.current, .transaction start (.error .headConflict)])
    (hs : Grows start s) :
    Answers delivered call arrival (classifyHeadConflict prepared.commit prepared.current
      call.organizationId call.chainId prepared.now : Service α) (fun _ _ _ => False) log s := by
  intro t hrl hi
  have hq : ∀ reply : Except RepositoryError (Option ChainHeadState), accountable call arrival
      (marks (log ++ [⟨.headState call.organizationId call.chainId, reply, t⟩])) := by
    intro reply _
    rw [marks_concat, hma]
    refine .of_quiet fun _ _ hm => ?_
    cases reply with
    | error e => cases hm
    | ok head => cases List.mem_singleton.mp hm
  have hke : (commits delivered).Keeps t
      (ports.perform (.headState call.organizationId call.chainId) t).2 :=
    keeps_of_passive (by trivial) hi
  refine ⟨⟨hke, hq _, ?_⟩, fun reply hre => ?_⟩
  · have hr : marks (log ++ [⟨.headState call.organizationId call.chainId,
        (ports.perform (.headState call.organizationId call.chainId) t).1, t⟩])
        = [.read prepared.current, .transaction start (.error .headConflict),
          .read (t.database.headState call.organizationId call.chainId)] := by
      rw [marks_concat, hma]
      rfl
    have hn : ∀ event s, Mark.accused event s
        ∉ [Mark.read (t.database.headState call.organizationId call.chainId)] :=
      fun _ _ hm => by cases List.mem_singleton.mp hm
    change (if t.database.headState call.organizationId call.chainId ≠ prepared.current then
      (failing .headConflict : Service α) else _).Safe ports (commits delivered) _ _ _
    split
    · exact fun _ h => nomatch h
    · -- the head is found again
      rename_i hsa
      rw [ne_eq, not_not] at hsa
      have hh := hrf.headState_eq (hs.trans hrl) hi hsa
      split
      · exact fun _ h => nomatch h
      · rename_i expected he
        have hv : (prepared.current.map (·.sequence + 1)).getD 0 = expected := by
          cases hc : prepared.current with
          | none => simpa [hc] using he
          | some head =>
            simp only [hc, Option.map_some, Option.getD_some, checkedAdd_eq_some] at he
            simpa [hc] using he.1.symm
        split
        · rename_i hse
          refine safe_accuse fun u hu _ hp => ?_
          rw [hr]
          refine .of_accused hn (fun _ => ?_) fun _ => hh
          exact hrf.exists_other hp (hv ▸ hse) ((hs.trans hrl).trans hu)
        · split
          · refine safe_accuse fun u hu _ hp => ?_
            rw [hr]
            exact .of_accused hn (fun hk => nomatch hk) fun _ => hh
          · exact fun _ h => nomatch h
  · obtain rfl : Except.error RepositoryError.unavailable = reply := by
      simpa [ports, Port.refuse] using hre
    exact ⟨hq _, fun _ h => nomatch h⟩

/-- An object that is read back stays readable. -/
theorem safe_readBack (hP : ∀ s t, P s → Grows s t → P t) {hash : ObjectHash}
    {missing : CommitServiceError} (hs : Settled call committed (marks log) s ∧ P s) :
    Answers delivered call arrival (readBack hash missing) (fun bytes marks t =>
      Settled call committed marks t ∧ P t ∧ Holds t hash bytes) log s := by
  intro t hrl hi
  have hk : Program.Kept ports Port.Silent Port.Alarm (commits delivered)
      (fun log => accountable call arrival (marks log))
      (fun log s => Settled call committed (marks log) s ∧ P s) := kept_settled hP
  have hd : ∀ reply : Except StoreError Bytes,
      Settled call committed (marks (log ++ [⟨.getExact hash, reply, t⟩])) t ∧ P t :=
    fun reply => hk.step log (.getExact hash) reply t t (by trivial) (hk.stable log s t hs hrl hi)
  have hke : (commits delivered).Keeps t (ports.perform (.getExact hash) t).2 :=
    keeps_of_passive (by trivial) hi
  refine ⟨⟨hke, hk.good _ _ (hd _), ?_⟩, fun reply hre =>
    ⟨hk.good _ _ (hd reply), ?_⟩⟩
  · cases he : t.getExact hash with
    | error e =>
      have hre : (ports.perform (.getExact hash) t).1 = .error e := he
      rw [hre]
      cases e <;> exact fun _ heq => nomatch heq
    | ok bytes =>
      have hre : (ports.perform (.getExact hash) t).1 = .ok bytes := he
      have hr := hd (.ok bytes)
      rw [hre]
      refine Program.safe_ofExcept_bind fun _ hh => ?_
      intro _ heq
      obtain rfl := Except.ok.inj heq
      exact ⟨hr.1, hr.2, he, of_decide_eq_true (ensure_eq_ok.mp hh)⟩
  · obtain rfl : Except.error StoreError.unavailable = reply := by
      simpa [ports, Port.refuse] using hre
    exact fun _ heq => nomatch heq

/-- The answer of a call whose transaction has accepted. -/
theorem safe_deliverCommit (hs : Settled call committed (marks log) s) :
    (deliverCommit prepared committed).Safe ports (commits delivered)
      ⟨fun log => accountable call arrival (marks log), (settled call).Post⟩ log s := by
  refine (safe_readBack (fun _ _ _ _ => trivial) ⟨hs, trivial⟩).then
    fun log receipt s hr => ?_
  obtain ⟨hs, -, hre⟩ := hr receipt rfl
  refine (safe_readBack (P := fun s => Holds s committed.receiptObjectHash receipt)
    (fun _ _ h hg => ⟨hg.getExact h.1, h.2⟩) ⟨hs, hre⟩).then
      fun log checkpoint s hr => ?_
  obtain ⟨hs, hre, hcp⟩ := hr checkpoint rfl
  have he : ∀ out : CommitOutcome, out.receiptBytes = receipt →
      out.checkpointBytes = checkpoint → ∃ receipt checkpoint,
        Stored call receipt checkpoint s ∧ Holds s receipt out.receiptBytes
          ∧ Holds s checkpoint out.checkpointBytes := by
    rintro out rfl rfl
    exact ⟨_, _, hs.2, hre, hcp⟩
  split
  · refine Program.safe_ofExcept_bind fun _ _ => ?_
    refine Program.safe_ofExcept_bind fun _ _ => ?_
    intro out heq
    obtain rfl := Except.ok.inj heq
    exact he _ rfl rfl
  · intro out heq
    obtain rfl := Except.ok.inj heq
    exact he _ rfl rfl

/-- What follows a transaction that does not accept. -/
theorem safe_refused (hof : prepared.Of call) (hs : (commits delivered).Inv start)
    {before : List Mark} (ho : Observed delivered call arrival prepared.current before start)
    {error : RepositoryError}
    (he : start.database.commitLockedHead prepared.command = .error error
      ∨ error = .unavailable)
    (hma : marks log = [.read prepared.current, .transaction start (.error error)]) :
    Answers delivered call arrival (afterTransaction prepared (.error error))
      (fun _ _ _ => False) log start := by
  have hre : error = .headConflict ∨ error = .checkpointPredecessorConflict →
      start.database.commitLockedHead prepared.command = .error error
        ∧ Refused delivered call arrival prepared start := by
    intro hp
    have hf := he.resolve_right fun h => by rcases hp with rfl | rfl <;> cases h
    refine ⟨hf, hof, hs, ho.2, fun row hr heq => ?_⟩
    have hu := List.find?_eq_none.mp (commitLockedHead_eq_error hf hp).1 row hr
    rw [decide_eq_true_eq, hof.identity] at hu
    exact hu heq
  have hn : ∀ event s, Mark.accused event s ∉ ([] : List Mark) := fun _ _ hm => by cases hm
  cases error with
  | headConflict =>
    have hc := safe_classifyHeadConflict (α := CommittedDbState)
      (hre (.inl rfl)).2 hma (Grows.refl start)
    rw [← hof.organization, ← hof.chain] at hc
    exact hc
  | commitIdentityConflict =>
    refine safe_accuse fun u _ _ _ => ?_
    rw [hma]
    exact .of_accused hn (fun hk => nomatch hk) (by simp)
  | checkpointPredecessorConflict =>
    obtain ⟨hf, hp⟩ := hre (.inr rfl)
    refine safe_accuse fun u _ _ hpu => ?_
    rw [hma]
    refine .of_accused hn (fun hk => nomatch hk) fun _ => ?_
    exact hp.headState_eq_of_expected hpu ((commitLockedHead_eq_error hf (.inr rfl)).2 rfl)
  | requestIdReplay | unavailable => exact fun _ h => nomatch h

include hco

/-- The contract of the transaction of a call. -/
theorem safe_commitPrepared (hsu : { bytes | bytes ∈ call.request.sortedGrantBytes } ⊆ delivered)
    (hof : prepared.Of call) (hs : Observed delivered call arrival prepared.current (marks log) s) :
    Answers delivered call arrival (commitPrepared prepared) (Settled call) log s := by
  intro t hrl hi
  have ht := kept_observed.stable log s t hs hrl hi
  have hk := keeps_commitLockedHead hco (hof.wellformed.mono hsu) hi
  have hma : ∀ reply : Except RepositoryError CommittedDbState,
      marks (log ++ [⟨.commitLockedHead prepared.command, reply, t⟩])
        = [.read prepared.current, .transaction t reply] := by
    intro reply
    rw [marks_concat, ht.1]
    rfl
  have hg : ∀ reply : Except RepositoryError CommittedDbState, accountable call arrival
      (marks (log ++ [⟨.commitLockedHead prepared.command, reply, t⟩])) := by
    intro reply _
    rw [hma]
    exact .of_quiet fun _ _ hm => by cases hm
  refine ⟨⟨hk.1, hg _, ?_⟩, fun reply hre => ⟨hg _, ?_⟩⟩
  · change (afterTransaction prepared (t.commitLockedHead prepared.command).1).Safe ports
      (commits delivered) _ (log ++ [⟨.commitLockedHead prepared.command,
        (t.commitLockedHead prepared.command).1, t⟩]) (t.commitLockedHead prepared.command).2
    cases hrs : t.database.commitLockedHead prepared.command with
    | error error =>
      have heq : t.commitLockedHead prepared.command = (.error error, t) := by
        rw [ServerState.commitLockedHead, hrs]
      rw [heq]
      refine (safe_refused hof hi ht (.inl hrs) (hma _)).imp ?_
      exact fun _ _ _ hr committed hok => (hr committed hok).elim
    | ok res =>
      have heq : (t.commitLockedHead prepared.command).1 = .ok res.1 := by
        rw [ServerState.commitLockedHead, hrs]
      obtain ⟨old, hrp, hrc⟩ := hk.2 res.1 heq
      rw [heq]
      intro committed hc
      obtain rfl := Except.ok.inj hc
      exact ⟨⟨_, _, hma _⟩, prepared.command, old, hof.command, hrp, hrc⟩
  · obtain rfl : Except.error RepositoryError.unavailable = reply := by
      simpa [ports, Port.refuse] using hre
    refine (safe_refused hof hi ht (.inr rfl) (hma _)).imp ?_
    exact fun _ _ _ hr committed hok => (hr committed hok).elim

/-- **A call keeps the discipline.**  A call that ends has its identity, and one that arrives
punctually accuses only with reason. -/
theorem safe_commitEntry (hs : { bytes | bytes ∈ call.request.sortedGrantBytes } ⊆ delivered)
    (arrival : ServerState) :
    (commitEntry call.request call.organizationId call.chainId call.writerCertificateHash).Safe
      ports (commits delivered)
      ⟨fun log => accountable call arrival (marks log), (settled call).Post⟩ [] arrival := by
  refine (safe_prepareCommit call arrival).then fun log prepared t hp => ?_
  obtain ⟨hof, ho⟩ := hp prepared rfl
  refine (safe_commitPrepared hco hs hof ho).then
    fun log committed u ha => ?_
  exact safe_deliverCommit (ha committed rfl)

end Calls

end Einsatzarchiv.Server
