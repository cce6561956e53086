/-
  File:      Einsatzarchiv/Server/Replay.lean
  Subject:   A commit that is sent again (crate `ea-sync-server`, `commit.rs`).

  The stored commit is looked up in the transaction, behind the selection of the registry head and
  all checks of the request.  A repeated call therefore gets the stored receipt as long as it would
  still pass them.

  * `Stageable`, `Takes`: the store takes an object.
  * `Replayable`: the clock, the selected head and the destruction targets let the call through.
  * `replay_idempotent`: a stored commit that is sent again.
  * `replay_refused`: the registry head has expired in between.
  * `answered_commits_agree`: the answers about one entry are the same, and what they say lasts.
-/
import Einsatzarchiv.Server.Commits

namespace Einsatzarchiv.Server

open Lib Format Protocol Database Service
open Program (run_bind_of_ok run_bind_eq_ok run_ofExcept)

section Runs

variable [Crypto]

/-! ## 1. The object store -/

def stagedOf (kind : ObjectType) (bytes : Bytes) : StagedObject :=
  ⟨kind, Crypto.objectHash bytes, bytes.length, bytes⟩

variable {s : ServerState} {call : CommitCall} {receiptBytes : Bytes} {checkpoint : ObjectHash}
  {kind : ObjectType} {grants : List Bytes} {error : CommitServiceError}
  {bytes : Bytes} {staged : StagedObject} {limit : Nat} {condition : Bool}

theorem eq_stagedOf (h : s.stageStream kind bytes limit = .ok staged) :
    staged = stagedOf kind bytes := by
  simp only [ServerState.stageStream, ok_iff] at h
  obtain ⟨-, -, -, -, -, -, -, -, rfl⟩ := h
  rfl

/-- The object is of its kind and not too long, and no destruction has its entry as a target. -/
def Stageable (s : ServerState) (kind : ObjectType) (bytes : Bytes) (limit : Nat) : Prop :=
  bytes.length ≤ limit ∧ (exactObjectPrefix kind).isPrefixOf bytes
    ∧ (ServerState.isFenced kind → bytes.length ≤ maxArchiveObjectBytesV1
      ∧ ∃ entryHash,
        ServerState.entryMembership kind bytes s.storeOrganizationId = .ok entryHash
          ∧ (s.organizations s.storeOrganizationId).isSome
          ∧ ⟨s.storeOrganizationId, entryHash⟩ ∉ s.database.destructionTargets)

/-- That is what `stage_stream` checks. -/
theorem stageable_iff :
    Stageable s kind bytes limit ↔ ∃ staged, s.stageStream kind bytes limit = .ok staged := by
  simp only [Stageable, ServerState.stageStream, ServerState.requireWritable,
    ServerState.beginObjectWrite, ok_iff]
  cases hf : ServerState.isFenced kind
  · simp
  · simp only [reduceIte, ok_iff]
    grind

/-- The object may be written, and nothing else lies under its key. -/
structure Takes (s : ServerState) (kind : ObjectType) (bytes : Bytes) (limit : Nat) : Prop where
  staged : Stageable s kind bytes limit
  key : ∀ stored, s.objects kind (Crypto.objectHash bytes) = some stored →
    stored.length = bytes.length ∧ Crypto.objectHash stored = Crypto.objectHash bytes

namespace Takes

section

variable (h : Takes s kind bytes limit)
include h

theorem stageStream_eq : s.stageStream kind bytes limit = .ok (stagedOf kind bytes) := by
  obtain ⟨_, hs⟩ := stageable_iff.mp h.staged
  rw [hs, eq_stagedOf hs]

theorem checkStaged_eq : s.checkStaged (stagedOf kind bytes) = .ok () := by
  obtain ⟨_, hs⟩ := stageable_iff.mp h.staged
  simp only [ServerState.stageStream, ok_iff] at hs
  obtain ⟨_, hl, _, hw, -⟩ := hs
  simp only [ServerState.checkStaged, ok_iff]
  exact ⟨(), fun hf => (hl hf).2, (), fun _ => rfl, hw⟩

/-- What lies under other keys does not matter. -/
theorem of_objects {objects : ObjectType → ObjectHash → Option Bytes}
    (hk : objects kind (Crypto.objectHash bytes) = s.objects kind (Crypto.objectHash bytes)) :
    Takes { s with objects } kind bytes limit :=
  ⟨h.staged, fun stored hs => h.key stored (hk ▸ hs)⟩

/-- The object is written, or it is there already. -/
theorem putIfAbsent_eq : ∃ objects,
    s.putIfAbsent (stagedOf kind bytes) = (.ok (), { s with objects })
      ∧ ∀ kind' hash, ¬ (kind' = kind ∧ hash = Crypto.objectHash bytes) →
        objects kind' hash = s.objects kind' hash := by
  rw [ServerState.putIfAbsent, h.checkStaged_eq]
  cases hs : s.objects kind (Crypto.objectHash bytes) with
  | none =>
    refine ⟨(s.store kind (Crypto.objectHash bytes) bytes).objects, ?_,
      fun kind' hash ho => if_neg ho⟩
    simp only [stagedOf, hs]
    rfl
  | some stored =>
    refine ⟨s.objects, ?_, fun _ _ _ => rfl⟩
    simp only [stagedOf, hs]
    exact if_pos (h.key stored hs)

end

end Takes

/-! ## 2. Parts of a call that is alone -/

section Alone

variable {t : ServerState} {u : Unit} {org : OrganizationId} {now : Int}
  {entry : Parsed EntryPackage} {head : ActiveRegistryHead} {commit : ValidatedCommit}

theorem run_lift_eq_ok {α ε : Type} {error : ε → CommitServiceError} {res : Except ε α}
    {a : α} : (lift error res).run ports s = (.ok a, t) ↔ res = .ok a ∧ s = t := by
  rw [lift, run_ofExcept, Prod.mk.injEq, mapError_eq_ok]

theorem run_require_eq_ok :
    (require condition error).run ports s = (.ok u, t) ↔ condition = true ∧ s = t := by
  rw [require, run_ofExcept, Prod.mk.injEq, ensure_eq_ok]

theorem run_stage_eq_ok : (stage kind bytes limit).run ports s = (.ok staged, t) ↔
      s.stageStream kind bytes limit = .ok staged ∧ s = t :=
  run_lift_eq_ok

theorem run_stageGrants_eq_ok {staged : List StagedObject} :
    (stageGrants grants).run ports s = (.ok staged, t) ↔
      (∀ bytes ∈ grants, ∃ staged, s.stageStream .grant bytes maxGrantObjectBytesV1 = .ok staged)
        ∧ grants.map (stagedOf .grant) = staged ∧ s = t := by
  induction grants generalizing staged t with
  | nil =>
    show (Except.ok [], s) = (Except.ok staged, t) ↔ _
    simp
  | cons bytes grants ih =>
    simp only [stageGrants, run_bind_eq_ok, run_stage_eq_ok, List.forall_mem_cons]
    constructor
    · rintro ⟨first, _, ⟨hf, rfl⟩, _, _, hr, h⟩
      obtain ⟨hg, rfl, rfl⟩ := ih.mp hr
      obtain ⟨heq, hs⟩ := Prod.mk.inj h
      obtain rfl := eq_stagedOf hf
      exact ⟨⟨⟨_, hf⟩, hg⟩, Except.ok.inj heq, hs⟩
    · rintro ⟨⟨⟨first, hf⟩, hr⟩, rfl, rfl⟩
      obtain rfl := eq_stagedOf hf
      exact ⟨_, _, ⟨hf, rfl⟩, _, _, ih.mpr ⟨hr, rfl, rfl⟩, rfl⟩

theorem run_selectHead_eq_ok {seq : Nat} {time : Int} :
    (selectHead org seq time).run ports s = (.ok head, t) ↔
      selectHeadForSequence (s.organizations org) org seq time = .ok (.selected head) ∧ s = t := by
  have ha : (Service.call (.selectHeadForSequence org seq time)).run ports s
      = (.ok (selectHeadForSequence (s.organizations org) org seq time), s) := rfl
  rw [selectHead, run_bind_of_ok _ ha]
  simp only [run_bind_eq_ok, run_lift_eq_ok]
  constructor
  · rintro ⟨selection, _, ⟨hse, rfl⟩, h⟩
    cases selection with
    | selected sel =>
      obtain ⟨hh, hs⟩ := Prod.mk.inj h
      exact ⟨Except.ok.inj hh ▸ hse, hs⟩
    | pendingFuture ver hash | noApplicableHead => cases (Prod.mk.inj h).1
  · rintro ⟨hse, rfl⟩
    exact ⟨_, _, ⟨hse, rfl⟩, rfl⟩

theorem run_validated_eq_ok {req : EntryCommitRequest} {cid : ChainId} {writer : CertificateHash} :
    (validated req entry org cid writer head now).run ports s = (.ok commit, t) ↔
    validateCommit req entry org cid writer head = .ok commit
      ∧ s = t := by
  unfold validated
  cases validateCommit req entry org cid writer head with
  | ok commit' =>
    show (Except.ok commit', s) = (Except.ok commit, t) ↔ _
    simp
  | error error =>
    simp only [reduceCtorEq, false_and, iff_false]
    intro h
    split at h <;> cases (Prod.mk.inj h).1

theorem run_putVerified (h : Takes s kind bytes limit) (org : OrganizationId) (now : Int) :
    ∃ objects,
      (putVerified (stagedOf kind bytes) org now).run ports s = (.ok (), { s with objects })
      ∧ ∀ kind' hash, ¬ (kind' = kind ∧ hash = Crypto.objectHash bytes) →
        objects kind' hash = s.objects kind' hash := by
  obtain ⟨objects, hp, ho⟩ := h.putIfAbsent_eq
  refine ⟨objects, ?_, ho⟩
  have ha : (Service.call (.putIfAbsent (stagedOf kind bytes))).run ports s
      = (.ok (.ok ()), { s with objects }) := by
    change (Except.ok (s.putIfAbsent (stagedOf kind bytes)).1,
      (s.putIfAbsent (stagedOf kind bytes)).2) = _
    rw [hp]
  rw [putVerified, run_bind_of_ok _ ha]
  rfl

/-- Grants with different hashes do not get in each other's way. -/
theorem run_putGrants (h : ∀ bytes ∈ grants, Takes s .grant bytes maxGrantObjectBytesV1)
    (hn : (grants.map Crypto.objectHash).Nodup) (org : OrganizationId) (now : Int) :
    ∃ objects, (putGrants org now (grants.map (stagedOf .grant))).run ports s
        = (.ok (), { s with objects })
      ∧ ∀ kind hash, kind ≠ .grant → objects kind hash = s.objects kind hash := by
  induction grants generalizing s with
  | nil => exact ⟨s.objects, rfl, fun _ _ _ => rfl⟩
  | cons bytes grants ih =>
    obtain ⟨hne, hn⟩ := List.nodup_cons.mp hn
    obtain ⟨objects, hpu, hot⟩ := run_putVerified (h bytes List.mem_cons_self) org now
    have hr : ∀ other ∈ grants, Takes { s with objects } .grant other maxGrantObjectBytesV1 := by
      intro other ho
      refine (h other (List.mem_cons_of_mem _ ho)).of_objects (hot _ _ fun hk => ?_)
      exact hne (hk.2 ▸ List.mem_map_of_mem ho)
    obtain ⟨objects', hp, hothers'⟩ := ih hr hn
    refine ⟨objects', ?_, fun kind hash hki => ?_⟩
    · rw [List.map_cons, putGrants, run_bind_of_ok _ hpu, hp]
    · exact (hothers' kind hash hki).trans (hot kind hash fun hk => hki hk.1)

end Alone

/-- The grants of a request that was built are sorted by their hashes. -/
theorem CommitCall.nodup_grantHashes (call : CommitCall) :
    (call.request.sortedGrantBytes.map Crypto.objectHash).Nodup := by
  rw [← call.identified.grants]
  exact call.identified.sorted.imp fun hlt => hlt.ne

/-! ## 3. A call that passes everything before the transaction -/

variable [ServerSigner] [Cbor.TextRules] [ObjectBodies] {head : ActiveRegistryHead}
  {entry : Parsed EntryPackage} {commit : ValidatedCommit} {prep : PreparedCommit}
  {receipt : ObjectHash} {now : Int} {t : ServerState}

/-- The time the server would put on the entry. -/
def acceptanceTime (call : CommitCall) (s : ServerState) : Int :=
  acceptedAt s.clock
    ((s.database.headState call.organizationId call.chainId).map (·.acceptedAtServer))

/-- The registry head that is selected now admits the entry, and the server can seal it. -/
structure Sealable (call : CommitCall) (s : ServerState) (entry : Parsed EntryPackage)
    (head : ActiveRegistryHead) (commit : ValidatedCommit) (receipt : Receipt)
    (receiptBytes : Bytes) (checkpoint : StandardCheckpoint) : Prop where
  parsed : parseEntry call.request.entryBytes = .ok entry
  selected : selectHeadForSequence (s.organizations call.organizationId) call.organizationId
    entry.value.signedManifest.manifest.chainSequence (acceptanceTime call s)
    = .ok (.selected head)
  validated : validateCommit call.request entry call.organizationId call.chainId
    call.writerCertificateHash head = .ok commit
  receiptBuilt : buildReceipt
    (receiptBinding call.request call.organizationId call.chainId head commit) head.policy.fields
    (acceptanceTime call s) = .ok receipt
  receiptEncoded : exactReceiptBytes receipt = .ok receiptBytes
  checkpointBuilt : buildCheckpoint (checkpointBinding call.organizationId call.chainId head commit
    (s.database.checkpointHead call.organizationId call.chainId)) (acceptanceTime call s)
    = .ok checkpoint
  takesReceipt : Takes s .receipt receiptBytes esrMaxRawBytesV1
  takesCheckpoint : Takes s .evidence checkpoint.exactBytes ecpMaxRawBytesV1

/-- No destruction targets the entry or a grant, and the registry head that the clock selects now
admits the entry and lets the server seal it. -/
structure Replayable (call : CommitCall) (s : ServerState) : Prop where
  entry : Takes s .entry call.request.entryBytes maxEntryObjectBytesV1
  grants : ∀ bytes ∈ call.request.sortedGrantBytes, Takes s .grant bytes maxGrantObjectBytesV1
  sealable : ∃ entry head commit receipt receiptBytes checkpoint,
    Sealable call s entry head commit receipt receiptBytes checkpoint

theorem run_sealCommit {receipt : Receipt} {checkpoint : StandardCheckpoint}
    (h : Sealable call s entry head commit receipt receiptBytes checkpoint)
    (cur : Option ChainHeadState) (now : Int) :
    ∃ prep objects, (sealCommit call.request call.organizationId call.chainId head commit
      cur now (acceptanceTime call s)).run ports s = (.ok prep, { s with objects }) := by
  obtain ⟨objects, hp, ho⟩ := run_putVerified h.takesReceipt call.organizationId now
  have ht : Takes { s with objects } .evidence checkpoint.exactBytes ecpMaxRawBytesV1 :=
    h.takesCheckpoint.of_objects (ho _ _ fun hk => nomatch hk.1)
  obtain ⟨objects', hput', -⟩ := run_putVerified ht call.organizationId now
  simp only [sealCommit, run_bind_eq_ok, run_lift_eq_ok, run_stage_eq_ok]
  exact ⟨_, objects', receipt, _, ⟨h.receiptBuilt, rfl⟩, receiptBytes, _, ⟨h.receiptEncoded, rfl⟩,
    _, _, ⟨h.takesReceipt.stageStream_eq, rfl⟩, _, _, hp, _, _, rfl, checkpoint, _,
    ⟨h.checkpointBuilt, rfl⟩, _, _, ⟨ht.stageStream_eq, rfl⟩, _, _, hput', rfl⟩

/-- Such a call reaches the transaction, and only the store has changed. -/
theorem run_prepareCommit (h : Replayable call s) :
    ∃ prep objects, (prepareCommit call.request call.organizationId call.chainId
      call.writerCertificateHash).run ports s = (.ok prep, { s with objects }) := by
  obtain ⟨entry, head, commit, receipt, receiptBytes, checkpoint, hse⟩ := h.sealable
  have hc := validateCommit_eq_ok hse.validated
  -- the four stores
  obtain ⟨objects, hpu, ho⟩ := run_putVerified h.entry call.organizationId s.clock
  have hg : ∀ bytes ∈ call.request.sortedGrantBytes,
      Takes { s with objects } .grant bytes maxGrantObjectBytesV1 := fun bytes hb =>
    (h.grants bytes hb).of_objects (ho _ _ fun hk => nomatch hk.1)
  obtain ⟨objects', hp, hothers'⟩ :=
    run_putGrants hg call.nodup_grantHashes call.organizationId s.clock
  have hs : Sealable call { s with objects := objects' } entry head commit receipt
      receiptBytes checkpoint :=
    { hse with
      takesReceipt := hse.takesReceipt.of_objects
        ((hothers' _ _ (by decide)).trans (ho _ _ fun hk => nomatch hk.1))
      takesCheckpoint := hse.takesCheckpoint.of_objects
        ((hothers' _ _ (by decide)).trans (ho _ _ fun hk => nomatch hk.1)) }
  obtain ⟨prep, objects'', he⟩ := run_sealCommit hs
    (s.database.headState call.organizationId call.chainId) s.clock
  have hentryHash : (stagedOf .entry call.request.entryBytes).objectHash = entry.objectHash :=
    (parseEntryObject_eq_ok.mp (parseEntry_eq_ok.mp hse.parsed)).2.2.symm
  have hgrantHashes : (call.request.sortedGrantBytes.map (stagedOf .grant)).map (·.objectHash)
      = commit.grantObjectHashes := by
    rw [hc.grantHashes, List.map_map]
    rfl
  have hl : (call.request.sortedGrantBytes.map (stagedOf .grant)).length
      = commit.grantObjectHashes.length := by
    rw [← hgrantHashes]
    exact (List.length_map _).symm
  simp only [prepareCommit, run_bind_eq_ok, run_lift_eq_ok, run_stage_eq_ok, run_require_eq_ok,
    run_stageGrants_eq_ok, run_selectHead_eq_ok, run_validated_eq_ok]
  exact ⟨prep, objects'', _, _, ⟨h.entry.stageStream_eq, rfl⟩, _, _,
    ⟨fun bytes hb => stageable_iff.mp (h.grants bytes hb).staged, rfl, rfl⟩, entry, _, ⟨hse.parsed, rfl⟩,
    _, _, rfl, _, _, rfl, head, _, ⟨hse.selected, rfl⟩, (), _, ⟨decide_eq_true hentryHash, rfl⟩,
    commit, _, ⟨hse.validated, rfl⟩, (), _, ⟨decide_eq_true hl, rfl⟩, (), _,
    ⟨decide_eq_true hgrantHashes, rfl⟩, (), _, hpu, (), _, hp, he⟩

/-! ## 4. A call that reaches the transaction has passed everything before it -/

section Converse

variable {u : Unit} {org : OrganizationId}

omit [ServerSigner] [Cbor.TextRules] [ObjectBodies]

/-- What has been stored was taken. -/
theorem takes_of_run (hst : ∃ staged, s.stageStream kind bytes limit = .ok staged)
    (h : (putVerified (stagedOf kind bytes) org now).run ports s = (.ok u, t)) :
    Takes s kind bytes limit := by
  refine ⟨stageable_iff.mpr hst, fun stored hs => ?_⟩
  by_contra hne
  rw [putVerified, run_bind_eq_ok] at h
  obtain ⟨reply, _, ha, h⟩ := h
  have hr : (s.putIfAbsent (stagedOf kind bytes)).1 = reply := Except.ok.inj (Prod.mk.inj ha).1
  -- the store has refused
  have hre : ∃ error, reply = .error error := by
    rw [← hr, ServerState.putIfAbsent]
    cases s.checkStaged (stagedOf kind bytes) with
    | error e => exact ⟨e, rfl⟩
    | ok _ =>
      simp only [stagedOf, hs]
      exact ⟨.hashConflict, congrArg Prod.fst (if_neg hne)⟩
  obtain ⟨error, rfl⟩ := hre
  cases error <;> cases (Prod.mk.inj h).1

theorem takes_of_run_grants (hst : ∀ bytes ∈ grants, ∃ staged,
      s.stageStream .grant bytes maxGrantObjectBytesV1 = .ok staged)
    (hn : (grants.map Crypto.objectHash).Nodup)
    (h : (putGrants org now (grants.map (stagedOf .grant))).run ports s = (.ok u, t)) :
    ∀ bytes ∈ grants, Takes s .grant bytes maxGrantObjectBytesV1 := by
  induction grants generalizing s with
  | nil => exact fun _ hm => nomatch hm
  | cons bytes grants ih =>
    obtain ⟨hne, hn⟩ := List.nodup_cons.mp hn
    rw [List.map_cons, putGrants, run_bind_eq_ok] at h
    obtain ⟨_, _, hf, h⟩ := h
    have ht := takes_of_run (hst bytes List.mem_cons_self) hf
    obtain ⟨objects, hp, hot⟩ := run_putVerified ht org now
    obtain ⟨-, rfl⟩ := Prod.mk.inj (hf.symm.trans hp)
    intro other ho
    rcases List.mem_cons.mp ho with rfl | ho
    · exact ht
    · have hr := ih (s := { s with objects }) (List.forall_mem_cons.mp hst).2 hn h other ho
      refine ⟨hr.staged, fun stored hs => hr.key stored ?_⟩
      exact (hot _ _ fun hk => hne (hk.2 ▸ List.mem_map_of_mem ho)).trans hs

end Converse

theorem sealable_of_run (he : parseEntry call.request.entryBytes = .ok entry)
    (hh : selectHeadForSequence (s.organizations call.organizationId) call.organizationId
      entry.value.signedManifest.manifest.chainSequence (acceptanceTime call s)
      = .ok (.selected head))
    (hc : validateCommit call.request entry call.organizationId call.chainId
      call.writerCertificateHash head = .ok commit) {cur : Option ChainHeadState}
    (h : (sealCommit call.request call.organizationId call.chainId head commit cur now
      (acceptanceTime call s)).run ports s = (.ok prep, t)) :
    ∃ receipt receiptBytes checkpoint,
      Sealable call s entry head commit receipt receiptBytes checkpoint := by
  simp only [sealCommit, run_bind_eq_ok, run_lift_eq_ok, run_stage_eq_ok] at h
  obtain ⟨receipt, _, ⟨hr, rfl⟩, receiptBytes, _, ⟨hb, rfl⟩, _, _, ⟨hst, rfl⟩,
    _, _, hru, prev, _, hp, checkpoint, _, ⟨hcp, rfl⟩, _, _,
    ⟨hstaged', rfl⟩, _, _, hrun', -⟩ := h
  obtain rfl := eq_stagedOf hst
  have ht := takes_of_run ⟨_, hst⟩ hru
  obtain ⟨objects, hpu, ho⟩ := run_putVerified ht call.organizationId now
  obtain ⟨-, rfl⟩ := Prod.mk.inj (hru.symm.trans hpu)
  obtain ⟨rfl, rfl⟩ : s.database.checkpointHead call.organizationId call.chainId = prev
      ∧ { s with objects } = _ :=
    ⟨Except.ok.inj (Prod.mk.inj hp).1, (Prod.mk.inj hp).2⟩
  obtain rfl := eq_stagedOf hstaged'
  have htakes' := takes_of_run ⟨_, hstaged'⟩ hrun'
  refine ⟨receipt, receiptBytes, checkpoint, he, hh, hc, hr, hb, hcp,
    ht, htakes'.staged, fun stored hs => htakes'.key stored ?_⟩
  exact (ho .evidence _ fun hk => nomatch hk.1).trans hs

/-- A call that reaches the transaction alone is one that passes everything before it. -/
theorem replayable_of_run {call : CommitCall} {s : ServerState}
    (h : (prepareCommit call.request call.organizationId call.chainId
      call.writerCertificateHash).run ports s = (.ok prep, t)) : Replayable call s := by
  simp only [prepareCommit, run_bind_eq_ok, run_lift_eq_ok, run_stage_eq_ok, run_require_eq_ok,
    run_stageGrants_eq_ok, run_selectHead_eq_ok, run_validated_eq_ok] at h
  obtain ⟨_, _, ⟨hst, rfl⟩, _, _, ⟨hgr, rfl, rfl⟩, entry, _, ⟨he, rfl⟩, now, _,
    hn, cur, _, hcu, head, _, hse, _, _, ⟨-, rfl⟩, commit, _, hv, _, _,
    ⟨-, rfl⟩, _, _, ⟨-, rfl⟩, _, _, hr, _, _, hrun', h⟩ := h
  obtain rfl := eq_stagedOf hst
  obtain ⟨rfl, rfl⟩ : s.clock = now ∧ s = _ :=
    ⟨Except.ok.inj (Prod.mk.inj hn).1, (Prod.mk.inj hn).2⟩
  obtain ⟨rfl, rfl⟩ : s.database.headState call.organizationId call.chainId = cur ∧ s = _ :=
    ⟨Except.ok.inj (Prod.mk.inj hcu).1, (Prod.mk.inj hcu).2⟩
  obtain ⟨hh, rfl⟩ := hse
  obtain ⟨hc, rfl⟩ := hv
  -- the objects are stored one after the other
  have ht := takes_of_run ⟨_, hst⟩ hr
  obtain ⟨objects, hpu, ho⟩ := run_putVerified ht call.organizationId s.clock
  obtain ⟨-, rfl⟩ := Prod.mk.inj (hr.symm.trans hpu)
  have htakesGrants := takes_of_run_grants (s := { s with objects }) hgr
    call.nodup_grantHashes hrun'
  obtain ⟨objects', hp, hothers'⟩ := run_putGrants htakesGrants call.nodup_grantHashes
    call.organizationId s.clock
  obtain ⟨-, rfl⟩ := Prod.mk.inj (hrun'.symm.trans hp)
  obtain ⟨receipt, receiptBytes, checkpoint, hs⟩ :=
    sealable_of_run (s := { s with objects := objects' }) he hh hc h
  have hke : ∀ kind hash, kind ≠ .entry → kind ≠ .grant →
      objects' kind hash = s.objects kind hash := fun kind hash he hg =>
    (hothers' kind hash hg).trans (ho kind hash fun hk => he hk.1)
  refine ⟨ht, fun bytes hb => (htakesGrants bytes hb).of_objects
    (ho .grant _ fun hk => nomatch hk.1).symm, entry, head, commit, receipt, receiptBytes,
    checkpoint, { hs with takesReceipt := ?_, takesCheckpoint := ?_ }⟩
  · exact hs.takesReceipt.of_objects (hke _ _ (by decide) (by decide)).symm
  · exact hs.takesCheckpoint.of_objects (hke _ _ (by decide) (by decide)).symm

/-! ## 5. A stored commit that is sent again -/

omit [ServerSigner] [Cbor.TextRules] [ObjectBodies] in
theorem run_readBack {hash : ObjectHash} (h : Holds s hash bytes) (missing : CommitServiceError) :
    (readBack hash missing).run ports s = (.ok bytes, s) := by
  have ha : (Service.call (.getExact hash)).run ports s = (.ok (.ok bytes), s) := by
    rw [← h.1]
    rfl
  rw [readBack, run_bind_of_ok _ ha]
  simp only
  rw [run_bind_of_ok _ ((run_require_eq_ok (u := ())).mpr ⟨decide_eq_true h.2, rfl⟩)]
  rfl

omit [ServerSigner] [Cbor.TextRules] [ObjectBodies] in
/-- The transaction of a stored commit finds it, whatever the new receipt and checkpoint say. -/
theorem Stored.replays (h : Stored call receipt checkpoint s) {cmd : CommitDbCommand}
    (hc : CommandOf call cmd) :
    ∃ old, Replays cmd s.database old checkpoint
      ∧ old.receiptObjectHash = receipt := by
  obtain ⟨_, old, hcommand', hr, hre⟩ := h
  obtain ⟨entry, he, hs⟩ := hc.sequence
  obtain ⟨entry', he', hsequence'⟩ := hcommand'.sequence
  obtain rfl : entry = entry' := Except.ok.inj (he.symm.trans he')
  refine ⟨old, ?_, hre⟩
  obtain ⟨hk, ho, hp, hpl, hg, hcp⟩ := hr
  rw [hcommand'.identity, ← hc.identity] at hk ho hp hg
  rw [hcommand'.organization, ← hc.organization, hcommand'.chain, ← hc.chain,
    hsequence', ← hs] at hcp
  exact ⟨hk, ho, hp, hpl.trans (hsequence'.trans hs.symm), hg, hcp⟩

/-- A stored commit that passes everything before the transaction is replayed. -/
theorem run_commitEntry_of_stored {dlv : Set Bytes} (hs : (commits dlv).Inv s)
    (hst : Stored call receipt checkpoint s) {checkpointBytes : Bytes}
    (hre : Holds s receipt receiptBytes) (hcp : Holds s checkpoint checkpointBytes)
    (h : Replayable call s) :
    ∃ t, (commitEntry call.request call.organizationId call.chainId
        call.writerCertificateHash).run ports s
        = (.ok (.idempotentReplay receiptBytes checkpointBytes), t)
      ∧ t.database = s.database := by
  obtain ⟨prep, objects, hpr⟩ := run_prepareCommit h
  have hsa := (safe_prepareCommit call s).run hs
  rw [hpr] at hsa
  obtain ⟨⟨-, hg⟩, _, hp⟩ := hsa
  obtain ⟨hof, -⟩ := hp prep rfl
  obtain ⟨old, hr, rfl⟩ := (hst.of_grows hg).replays hof.command
  have htx : (commitPrepared prep).run ports { s with objects }
      = (.ok (replayed prep.command old checkpoint), { s with objects }) := by
    have ha : (Service.call (.commitLockedHead prep.command)).run ports { s with objects }
        = (.ok (.ok (replayed prep.command old checkpoint)), { s with objects }) := by
      change (Except.ok (ServerState.commitLockedHead _ _).1, (ServerState.commitLockedHead _ _).2)
        = _
      rw [ServerState.commitLockedHead, commitLockedHead_of_replays hr]
    rw [commitPrepared, run_bind_of_ok _ ha]
    rfl
  have hreceipt' : Holds { s with objects }
      (replayed prep.command old checkpoint).receiptObjectHash receiptBytes :=
    ⟨hg.getExact hre.1, hre.2⟩
  have hcheckpoint' : Holds { s with objects }
      (replayed prep.command old checkpoint).checkpointObjectHash checkpointBytes :=
    ⟨hg.getExact hcp.1, hcp.2⟩
  refine ⟨{ s with objects }, ?_, rfl⟩
  rw [commitEntry, run_bind_of_ok _ hpr, run_bind_of_ok _ htx,
    deliverCommit, run_bind_of_ok _ (run_readBack hreceipt' _),
    run_bind_of_ok _ (run_readBack hcheckpoint' _)]
  rfl

/-- **A commit that is sent again.**  In every reachable state in which a call has been answered,
the same call gets the stored receipt and the stored checkpoint and writes no row exactly if it
still passes everything before the transaction. -/
theorem replay_idempotent (s : ServerState) (hs : s.database = {})
    (actions : List (Action CommitCall Occurrence))
    (hcollision : Set.InjOn Crypto.objectHash (deliveredGrants actions)) :
    ∀ thread ∈ (commitRoute.run ⟨s, []⟩ actions).threads, ∀ outcome,
      thread.program = .done outcome →
      ((∃ t, (commitRoute.program thread.call).run ports (commitRoute.run ⟨s, []⟩ actions).state
            = (.ok (.idempotentReplay outcome.receiptBytes outcome.checkpointBytes), t)
          ∧ t.database = (commitRoute.run ⟨s, []⟩ actions).state.database)
        ↔ Replayable thread.call (commitRoute.run ⟨s, []⟩ actions).state) := by
  intro thread ht outcome hd
  constructor
  · rintro ⟨t, hru, -⟩
    obtain ⟨_, u, hp, -⟩ := (run_bind_eq_ok _).mp hru
    exact replayable_of_run hp
  · intro hr
    have hsa := safe_run hs hcollision
    have he := hsa.threads thread ht
    rw [hd] at he
    obtain ⟨receipt, checkpoint, hst, hre, hcp⟩ := he outcome rfl
    exact run_commitEntry_of_stored hsa.inv hst hre hcp hr

end Runs

/-- The commit of the entry of sequence zero, answered at time 15; the clock is set afterwards. -/
def answeredCall (clock : Int) : List (Action (@CommitCall serverCrypto) Occurrence) :=
  [.arrive (tableCall 50 60 isSome_firstRequest)] ++ List.replicate 15 (.proceed 0)
    ++ [.occur (.tick clock)]

theorem collisionFree_answeredCall (clock : Int) :
    Set.InjOn serverCrypto.objectHash (@deliveredGrants serverCrypto (answeredCall clock)) := by
  refine injOn_deliveredGrants fun call hc => ?_
  obtain rfl : call = tableCall 50 60 := by simpa [answeredCall] using hc
  exact ⟨60, by decide +kernel⟩

/-- At time 18 the call is answered, and it would reach the transaction again. -/
theorem answered_and_replayable : let := serverCrypto
    let := serverSigner
    let := noTexts
    let := serverBodies
    (tableRun (answeredCall 18)).threads[0]?.map (fun thread => (thread.program.value?,
      ((prepareCommit thread.call.request thread.call.organizationId thread.call.chainId
        thread.call.writerCertificateHash).run ports
          (tableRun (answeredCall 18)).state).1.toOption.isSome))
      = some (some (.accepted [133, 68, 69, 65, 49, 0, 3, 1, 128, 24, 165]
        [133, 68, 69, 65, 49, 0, 4, 1, 128, 24, 225]), true) := by
  decide +kernel

theorem replay_idempotent_answered :
    let := serverCrypto
    let := serverSigner
    let := noTexts
    let := serverBodies
    ∃ thread ∈ (tableRun (answeredCall 18)).threads, ∃ receipt checkpoint,
      thread.program = .done (.accepted receipt checkpoint)
      ∧ ∃ t, (commitRoute.program thread.call).run ports (tableRun (answeredCall 18)).state
          = (.ok (.idempotentReplay receipt checkpoint), t)
        ∧ t.database = (tableRun (answeredCall 18)).state.database := by
  obtain ⟨thread, ht, heq⟩ := Option.map_eq_some_iff.mp answered_and_replayable
  obtain ⟨hd, hr⟩ := Prod.mk.inj heq
  have ht := List.mem_of_getElem? ht
  have hd := Program.value?_eq_some.mp hd
  refine ⟨thread, ht, _, _, hd, ?_⟩
  refine (@replay_idempotent serverCrypto serverSigner noTexts serverBodies tableServer rfl
    (answeredCall 18) (collisionFree_answeredCall 18) thread ht _ hd).mpr ?_
  exact @replayable_of_run serverCrypto serverSigner noTexts serverBodies _ _ _ _
    (Prod.ext (eq_ok_get hr) rfl)

/-- **A commit that is sent again is refused.**  The registry head has expired since the call was
answered. -/
theorem replay_refused :
    let := serverCrypto
    let := serverSigner
    let := noTexts
    let := serverBodies
    ∃ thread ∈ (tableRun (answeredCall 25)).threads, ∃ outcome, thread.program = .done outcome
      ∧ ¬ ∃ t, (commitRoute.program thread.call).run ports (tableRun (answeredCall 25)).state
          = (.ok (.idempotentReplay outcome.receiptBytes outcome.checkpointBytes), t) := by
  intro _ _ _ _
  have hv : (tableRun (answeredCall 25)).threads[0]?.map (fun thread => (thread.program.value?,
      ((commitRoute.program thread.call).run ports (tableRun (answeredCall 25)).state).1.toOption))
      = some (some (.accepted [133, 68, 69, 65, 49, 0, 3, 1, 128, 24, 165]
        [133, 68, 69, 65, 49, 0, 4, 1, 128, 24, 225]), none) := by
    decide +kernel
  obtain ⟨thread, ht, heq⟩ := Option.map_eq_some_iff.mp hv
  obtain ⟨hd, hr⟩ := Prod.mk.inj heq
  refine ⟨thread, List.mem_of_getElem? ht, _, Program.value?_eq_some.mp hd, ?_⟩
  rintro ⟨t, hru⟩
  rw [hru] at hr
  cases hr

/-! ## 6. The answers -/

section Runs

variable [Crypto] [ServerSigner] [Cbor.TextRules] [ObjectBodies]

omit [ServerSigner] [Cbor.TextRules] [ObjectBodies] in
theorem Stored.unique {call call' : CommitCall} {s : ServerState}
    {receipt receipt' checkpoint checkpoint' : ObjectHash} (h : Stored call receipt checkpoint s)
    (h' : Stored call' receipt' checkpoint' s) (ho : call'.organizationId = call.organizationId)
    (hc : call'.chainId = call.chainId)
    (he : call'.request.identity.entryHash = call.request.identity.entryHash) :
    receipt' = receipt ∧ checkpoint' = checkpoint := by
  obtain ⟨cmd, row, hco, hr, rfl⟩ := h
  obtain ⟨cmd', row', hco', hr', rfl⟩ := h'
  have hk := hr'.known
  rw [hco'.identity, he, ← hco.identity, hr.known] at hk
  obtain rfl := Option.some.inj hk
  have hcp := hr'.checkpoint
  rw [hco'.organization, ho, ← hco.organization, hco'.chain, hc, ← hco.chain, ← hr'.sequence,
    hr.sequence, hr.checkpoint] at hcp
  exact ⟨rfl, (Except.ok.inj hcp).symm⟩

/-- **Answered commits last and agree.**  Under every interleaving, the entry of a call that was
answered stays in the tables with the receipt of the answer, whose bytes can be read back; and all
answers about one entry of one chain carry the same receipt and the same checkpoint. -/
theorem answered_commits_agree (s : ServerState) (hs : s.database = {})
    (actions : List (Action CommitCall Occurrence))
    (hcollision : Set.InjOn Crypto.objectHash (deliveredGrants actions)) :
    let after := commitRoute.run ⟨s, []⟩ actions
    ∀ thread ∈ after.threads, ∀ outcome, thread.program = .done outcome →
      (∃ row ∈ after.state.database.entries,
        row.entryHash = thread.call.request.identity.entryHash
          ∧ after.state.getExact row.receiptObjectHash = .ok outcome.receiptBytes)
      ∧ ∀ thread' ∈ after.threads, ∀ outcome', thread'.program = .done outcome' →
        thread'.call.organizationId = thread.call.organizationId →
        thread'.call.chainId = thread.call.chainId →
        thread'.call.request.identity.entryHash = thread.call.request.identity.entryHash →
          outcome'.receiptBytes = outcome.receiptBytes
            ∧ outcome'.checkpointBytes = outcome.checkpointBytes := by
  intro after
  have hsa := safe_run hs hcollision
  have hst : ∀ thread ∈ after.threads, ∀ outcome, thread.program = .done outcome →
      ∃ receipt checkpoint, Stored thread.call receipt checkpoint after.state
        ∧ Holds after.state receipt outcome.receiptBytes
        ∧ Holds after.state checkpoint outcome.checkpointBytes := by
    intro thread ht outcome hd
    have he := hsa.threads thread ht
    rw [hd] at he
    exact he outcome rfl
  intro thread ht outcome hd
  obtain ⟨receipt, checkpoint, hsto, hr, hc⟩ := hst thread ht outcome hd
  refine ⟨?_, fun thread' ht' outcome' hd' ho hch he => ?_⟩
  · obtain ⟨cmd, row, hco, hre, rfl⟩ := hsto
    exact ⟨row, List.mem_of_find?_eq_some hre.known,
      by simpa [hco.identity] using List.find?_some hre.known, hr.1⟩
  · obtain ⟨receipt', checkpoint', hsto', hr', hc'⟩ := hst thread' ht' outcome' hd'
    obtain ⟨rfl, rfl⟩ := hsto.unique hsto' ho hch he
    exact ⟨Except.ok.inj (hr'.1.symm.trans hr.1), Except.ok.inj (hc'.1.symm.trans hc.1)⟩

end Runs

/-- Two calls for one entry that have been answered. -/
def answeredAlike [Crypto]
    (a b : Thread ServerState CommitCall Port.Reply CommitFailure CommitOutcome) : Bool :=
  a.program.value?.any (· matches .accepted _ _)
    && b.program.value?.any (· matches .idempotentReplay _ _)
    && b.call.organizationId = a.call.organizationId && b.call.chainId = a.call.chainId
    && b.call.request.identity.entryHash = a.call.request.identity.entryHash

/-- The first call of the race and its repetition. -/
theorem answered_commits_agree_repeated :
    let := serverCrypto
    let := serverSigner
    let := noTexts
    let := serverBodies
    let after := tableRun repeatedCalls
    ∃ a ∈ after.threads, ∃ b ∈ after.threads, answeredAlike a b = true
      ∧ ∃ outcome outcome', a.program = .done outcome ∧ b.program = .done outcome'
        ∧ outcome'.receiptBytes = outcome.receiptBytes
        ∧ outcome'.checkpointBytes = outcome.checkpointBytes
        ∧ ∃ row ∈ after.state.database.entries,
          after.state.getExact row.receiptObjectHash = .ok outcome.receiptBytes := by
  intro _ _ _ _
  dsimp only
  have hv : ((tableRun repeatedCalls).threads[1]?.bind fun a =>
      (tableRun repeatedCalls).threads[3]?.map fun b => answeredAlike a b) = some true := by
    decide +kernel
  unfold tableRun at hv ⊢
  obtain ⟨a, ha, hb⟩ := Option.bind_eq_some_iff.mp hv
  obtain ⟨b, hb, hab⟩ := Option.map_eq_some_iff.mp hb
  have ha := List.mem_of_getElem? ha
  have hb := List.mem_of_getElem? hb
  refine ⟨a, ha, b, hb, hab, ?_⟩
  simp only [answeredAlike, Bool.and_eq_true, decide_eq_true_eq, Option.any_eq_true] at hab
  obtain ⟨⟨⟨⟨⟨outcome, ho, -⟩, outcome', ho', -⟩, horg⟩, hch⟩, he⟩ := hab
  have hd := Program.value?_eq_some.mp ho
  have hd' := Program.value?_eq_some.mp ho'
  have hag := @answered_commits_agree serverCrypto serverSigner noTexts serverBodies tableServer rfl
    repeatedCalls injOn_repeatedCalls
  obtain ⟨⟨row, hr, -, hre⟩, hag⟩ := hag a ha outcome hd
  obtain ⟨hrc, hcp⟩ := hag b hb outcome' hd' horg hch he
  exact ⟨outcome, outcome', hd, hd', hrc, hcp, row, hr, hre⟩

end Einsatzarchiv.Server
