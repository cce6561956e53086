/-
  File:      Einsatzarchiv/Trust/Clients.lean
  Subject:   Clients that select registry heads against one compare-and-set store.

  A client loads the record, verifies trust and a candidate, merges signed times, prepares its
  local time and selects.  Each action below is one access to the store or none, and the actions
  of all clients follow each other in any order:

  * `Clients`: the store and everything the clients have been handed so far.
  * `act`: one action; `Clients.run`: any list of them.
  * `Sound`: what every copy that a client holds keeps saying about the store, and that the floor
    has passed the times of the pinned event.
  * `Moves`: what one action does to the store.
-/
import Einsatzarchiv.Trust.Selected
import Mathlib.Data.Set.Function

namespace Einsatzarchiv.Trust

open Lib Format Time

variable [Crypto]

/-! ## 1. The system -/

/-- One successful call of `selectRegistryHead`, with the store before and after it. -/
structure Selection where
  candidate : RegistryCandidate
  localTime : LocalTimeBlock
  before : EphemeralTrustStateStore
  outcome : RegistrySelectionOutcome
  after : EphemeralTrustStateStore

/-- The releases that a selection made the store consume. -/
def Selection.consumed (selection : Selection) : List ClockReleaseReplayKey :=
  selection.after.consumedReleases.drop selection.before.consumedReleases.length

/-- The store and what the calls so far have returned.  A value stays available after it was used:
the source moves some of them into the call, so that its runs are among those here. -/
structure Clients where
  store : EphemeralTrustStateStore
  /-- The first address that was never allocated. -/
  free : Nat := 0
  trusts : List VerifiedTrust := []
  candidates : List RegistryCandidate := []
  signedTimes : List VerifiedSignedTime := []
  merges : List (RegistryCandidate × MergedTime) := []
  blocks : List LocalTimeBlock := []
  releases : List VerifiedClockRelease := []
  selections : List Selection := []

/-- Calls of the clients; the numbers say which of the returned values a call uses. -/
inductive Action
  | load (key : TrustStateKey) (anchor : TrustAnchor) (source : TrustObjectSource)
  | verify (trust proposedSequence : Nat)
  | receiptTime (candidate : Nat) (receipt : Parsed Receipt)
  | checkpointTime (candidate : Nat) (evidence : Parsed EvidenceObject)
  | merge (candidate : Nat) (sources : List Nat)
  | prepare (merge : Nat) (osWallClock : Int)
  | release (candidate block : Nat) (exactAuditBytes : Bytes)
  | select (candidate block : Nat) (release : Option Nat)
  | selectStaleWriter (candidate block : Nat)
  | fallback (trust selection : Nat)
  | reauthenticate (block selection : Nat)

/-- The value an optional number refers to. -/
def lookupOptional {α : Type} (values : List α) : Option Nat → Option (Option α)
  | some index => values[index]?.map some
  | none => some none

variable [LocalAudits] {replayKey : Option ClockReleaseReplayKey} {key : TrustStateKey}
  {pin : RegistryHeadPin} {trust : VerifiedTrust} {fields : RegistryEventFields} {hash : ObjectHash}
  {delivered : Set Bytes}

namespace Clients

/-- A new store and nothing verified. -/
def start (key : TrustStateKey) (floor : Int) : Clients where
  store := .new key floor

section

variable (clients : Clients)

/-- A call that succeeds, or that has changed the store before it failed. -/
def perform : Action → Option Clients
  | .load key anchor source => do
      let snapshot ← (loadTrustState clients.store key).toOption
      let trust ← (verifyTrust anchor source snapshot).toOption
      some { clients with trusts := clients.trusts ++ [trust] }
  | .verify trust proposedSequence => do
      let trust ← clients.trusts[trust]?
      let candidate ← (verifyRegistryCandidate trust proposedSequence clients.free).toOption
      some { clients with
        candidates := clients.candidates ++ [candidate], free := clients.free + 2 }
  | .receiptTime candidate receipt => do
      let candidate ← clients.candidates[candidate]?
      let authority ← candidate.preexistingAuthority
      let time ← (verifyReceiptTime authority.value receipt).toOption
      some { clients with signedTimes := clients.signedTimes ++ [time] }
  | .checkpointTime candidate evidence => do
      let candidate ← clients.candidates[candidate]?
      let authority ← candidate.preexistingAuthority
      let time ← (verifyCheckpointTime authority.value evidence).toOption
      some { clients with signedTimes := clients.signedTimes ++ [time] }
  | .merge candidate sources => do
      let candidate ← clients.candidates[candidate]?
      let sources ← sources.mapM (clients.signedTimes[·]?)
      let merged ← (mergeSources clients.store candidate sources).toOption
      some { clients with merges := clients.merges ++ [(candidate, merged)] }
  | .prepare merge osWallClock => do
      let (candidate, merged) ← clients.merges[merge]?
      let (store, revision, time) ← (commitMerged clients.store candidate merged).toOption
      -- a time that was committed stays committed when its evaluation fails
      let block := (localTimeBlock candidate revision time osWallClock).toOption
      some { clients with store, blocks := clients.blocks ++ block.toList }
  | .release candidate block exactAuditBytes => do
      let candidate ← clients.candidates[candidate]?
      let block ← clients.blocks[block]?
      let release ← (verifyClockRelease clients.store candidate block exactAuditBytes).toOption
      some { clients with releases := clients.releases ++ [release] }
  | .select candidate block release => do
      let candidate ← clients.candidates[candidate]?
      let block ← clients.blocks[block]?
      let release ← lookupOptional clients.releases release
      let (store, outcome) ← (selectRegistryHead clients.store candidate block release).toOption
      some { clients with
        store
        selections := clients.selections ++ [⟨candidate, block, clients.store, outcome, store⟩] }
  | .selectStaleWriter candidate block => do
      let candidate ← clients.candidates[candidate]?
      let block ← clients.blocks[block]?
      let (store, _) ← (selectStaleWriterRegistryHead clients.store candidate block).toOption
      some { clients with store }
  | .fallback trust selection => do
      let trust ← clients.trusts[trust]?
      let selection ← clients.selections[selection]?
      let .pendingFuture pending := selection.outcome | none
      let candidate ← (verifyCurrentHeadFallback trust pending clients.free).toOption
      some { clients with
        candidates := clients.candidates ++ [candidate], free := clients.free + 3 }
  | .reauthenticate block selection => do
      let block ← clients.blocks[block]?
      let selection ← clients.selections[selection]?
      let .selected head := selection.outcome | none
      let (store, _) ← (reauthenticationTime clients.store block head).toOption
      some { clients with store }

/-- One action; a call that fails changes nothing. -/
def act (action : Action) : Clients :=
  (clients.perform action).getD clients

/-- The actions of all clients in the order in which they reach the store. -/
def run (actions : List Action) : Clients :=
  actions.foldl act clients

theorem run_append (acts : List Action) (action : Action) :
    clients.run (acts ++ [action]) = (clients.run acts).act action := by
  simp [run]

end

end Clients

/-! ## 2. What the copies say -/

/-- The registry event that some delivered bytes with the hash encode. -/
def EventOf (delivered : Set Bytes) (hash : ObjectHash) (fields : RegistryEventFields) : Prop :=
  ∃ bytes ∈ delivered, Crypto.objectHash bytes = hash ∧ ∃ authorization signatures,
    Crypto.decode bytes =
      .ok (.trust ⟨.authorized (.registryEvent fields) authorization, signatures⟩)

omit [LocalAudits] in
/-- Bytes without collisions hold one event under a hash. -/
theorem EventOf.unique (hf : Set.InjOn Crypto.objectHash delivered)
    {fields' : RegistryEventFields} (h : EventOf delivered hash fields)
    (h' : EventOf delivered hash fields') : fields = fields' := by
  obtain ⟨bytes, hm, hh, _, _, hd⟩ := h
  obtain ⟨bytes', hm', hh', _, _, hdecode'⟩ := h'
  obtain rfl : bytes = bytes' := hf hm hm' (hh.trans hh'.symm)
  rw [hd] at hdecode'
  simp at hdecode'
  exact hdecode'.1.1

/-- Every object of the catalog was delivered. -/
def Sourced (delivered : Set Bytes) (trust : VerifiedTrust) : Prop :=
  ∀ hash record, trust.catalog.get hash = some record → record.exactBytes ∈ delivered

omit [LocalAudits] in
theorem HoldsEvent.eventOf (h : HoldsEvent trust hash fields) (hs : Sourced delivered trust) :
    EventOf delivered hash fields := by
  obtain ⟨_, hev, rfl⟩ := h
  unfold TrustCatalog.registryEvent at hev
  split at hev
  · next fields auth sigs bytes oh hg =>
      cases hev
      have he := trust.catalog.exact hg
      have hh : oh = hash := trust.catalog.key_eq hg
      exact ⟨bytes, hs hash _ hg, he.hash.trans hh, auth, sigs, he.decoded⟩
  · cases hev

/-- What a client knows of the store. -/
abbrev CopyOf (store : EphemeralTrustStateStore) (revision : Nat) (time : TrustedTimeState)
    (pin : Option RegistryHeadPin) : Prop :=
  Copied EphemeralTrustStateStore.revision (fun store => (store.trustedTime, store.pinnedHead))
    revision (time, pin) store

/-- The floor has passed the times of the pinned event. -/
def PinTimed (delivered : Set Bytes) (store : EphemeralTrustStateStore) : Prop :=
  ∀ pin ∈ store.pinnedHead, ∃ fields, EventOf delivered pin.registryHeadHash fields ∧
    fields.issuedAt ≤ store.trustedTime.floor ∧ fields.notBefore ≤ store.trustedTime.floor

/-- **The invariant of the system.** -/
structure Sound (delivered : Set Bytes) (clients : Clients) : Prop where
  trusts : ∀ trust ∈ clients.trusts, Sourced delivered trust ∧
    CopyOf clients.store trust.stateRevision trust.trustedTime trust.pinnedHead
  candidates : ∀ candidate ∈ clients.candidates, ∃ trust ∈ clients.trusts, Describes trust candidate
  merges : ∀ merge ∈ clients.merges, merge.1 ∈ clients.candidates ∧
    merge.1.trustedTime.Before merge.2.nextTrustedTime
  blocks : ∀ block ∈ clients.blocks,
    CopyOf clients.store block.expectedRevision block.trustedTime block.pinnedHead ∧
      block.trustedTime.floor ≤ block.evaluation.rawNow
  releases : ∀ release ∈ clients.releases, release.replayKey = .fromVerifiedAudit release.audit
  pendings : ∀ selection ∈ clients.selections, ∀ pending,
    selection.outcome = .pendingFuture pending → ∀ pin ∈ pending.pinnedHead,
      pending.candidateRegistryVersion = pin.registryVersion + 1
  pinTimed : PinTimed delivered clients.store

/-! ## 3. What one action does to the store -/

/-- The pin moves to the one event that succeeds it, and the floor passes its times. -/
structure PinMoves (trust : VerifiedTrust) (store next : EphemeralTrustStateStore)
    (event : TopologyEvent) (fields : RegistryEventFields) : Prop where
  succeeds : Succeeds trust store.pinnedHead event
  pin : next.pinnedHead = some ⟨event.registryVersion, event.objectHash⟩
  holds : HoldsEvent trust event.objectHash fields
  issuedAt : fields.issuedAt ≤ next.trustedTime.floor
  notBefore : fields.notBefore ≤ next.trustedTime.floor

/-- A commit: the time does not fall behind, and the pin stays or moves by one event. -/
structure Moves (trusts : List VerifiedTrust) (store next : EphemeralTrustStateStore) : Prop where
  key : next.key = store.key
  revision : store.revision < next.revision
  time : store.trustedTime.Before next.trustedTime
  pin : next.pinnedHead = store.pinnedHead ∨
    ∃ trust ∈ trusts, ∃ event fields, PinMoves trust store next event fields

section Moves

variable {clients : Clients} {store next : EphemeralTrustStateStore} {trusts : List VerifiedTrust}

omit [LocalAudits]

theorem Moves.pinTimed (h : Moves trusts store next)
    (hs : ∀ trust ∈ trusts, Sourced delivered trust) (hti : PinTimed delivered store) :
    PinTimed delivered next := by
  intro pin hp
  rcases h.pin with hk | ⟨trust, ht, event, fields, hm⟩
  · obtain ⟨fields, hev, hi, hb⟩ := hti pin (hk ▸ hp)
    exact ⟨fields, hev, hi.trans h.time.floor_le, hb.trans h.time.floor_le⟩
  · obtain rfl : ⟨event.registryVersion, event.objectHash⟩ = pin := by
      simpa [hm.pin] using hp
    exact ⟨fields, hm.holds.eventOf (hs trust ht), hm.issuedAt, hm.notBefore⟩

/-- A commit outdates the copies but does not contradict them. -/
theorem Sound.moved (h : Sound delivered clients) (hm : Moves clients.trusts clients.store next) :
    Sound delivered { clients with store := next } where
  trusts trust ht := ⟨(h.trusts trust ht).1, (h.trusts trust ht).2.of_lt hm.revision⟩
  candidates := h.candidates
  merges := h.merges
  blocks block hb := ⟨(h.blocks block hb).1.of_lt hm.revision, (h.blocks block hb).2⟩
  releases := h.releases
  pendings := h.pendings
  pinTimed := hm.pinTimed (fun trust ht => (h.trusts trust ht).1) h.pinTimed

variable {rev : Nat} {time : TrustedTimeState} {cand : RegistryCandidate}

/-- The state after a commit. -/
theorem Sound.after (h : Sound delivered clients)
    (hm : next = clients.store ∨ Moves clients.trusts clients.store next) :
    Sound delivered { clients with store := next } := by
  rcases hm with rfl | hm
  · exact h
  · exact h.moved hm

/-- A commit that affirms what it has copied keeps the pin and the time. -/
theorem moves_of_compareAndAffirm (hc : CopyOf store rev time (some pin))
    (h : store.commitRegistrySelection key rev (.compareAndAffirm time pin replayKey) =
      .ok next) : Moves trusts store next := by
  obtain ⟨-, hr, -, -, -, -, rfl⟩ := commitRegistrySelection_eq_ok.mp h
  obtain ⟨ht, hp⟩ := Prod.mk.inj (hc.eq hr)
  refine ⟨rfl, Nat.lt_succ_self _, ?_, .inl hp⟩
  rw [← ht]
  exact .refl _

/-- A commit that moves to the candidate. -/
theorem moves_of_advanceHead (ht : trust ∈ trusts) (hd : Describes trust cand)
    (hn : candidateIsCurrent cand = false)
    (hc : CopyOf store rev time cand.originalPin)
    (h : store.commitRegistrySelection key rev (.advanceHead
      (advanceRegistryFloor time cand.headEvent.issuedAt cand.headEvent.notBefore)
      ⟨cand.registryVersion, cand.registryHeadHash⟩ replayKey) = .ok next) :
    Moves trusts store next := by
  obtain ⟨-, hr, -, -, -, -, rfl⟩ := commitRegistrySelection_eq_ok.mp h
  obtain ⟨hti, hp⟩ := Prod.mk.inj (hc.eq hr)
  have hs := hd.succeeds hn
  rw [← hd.pin, hp] at hs
  refine ⟨rfl, Nat.lt_succ_self _, ?_, .inr ⟨trust, ht, _, cand.headEvent, hs, rfl,
    hd.event, ?_, ?_⟩⟩
  · rw [← hti]
    exact before_advanceRegistryFloor _ _ _
  · exact le_max_of_le_left (le_max_right _ _)
  · exact le_max_right _ _

/-- The commit of a merged time, and the copy it leaves. -/
theorem moves_of_commitMerged {merged : MergedTime}
    (hc : CopyOf store cand.stateRevision cand.trustedTime cand.originalPin)
    (hb : cand.trustedTime.Before merged.nextTrustedTime)
    (h : commitMerged store cand merged = .ok (next, rev, time)) :
    (next = store ∨ Moves trusts store next) ∧ CopyOf next rev time cand.originalPin := by
  rcases commitMerged_cases h with ⟨-, hr, rfl, rfl, rfl⟩ | ⟨rfl, rfl, rfl⟩
  · obtain ⟨ht, hp⟩ := Prod.mk.inj (hc.eq hr)
    refine ⟨.inr ⟨rfl, Nat.lt_succ_self _, ht ▸ hb, .inl rfl⟩, ?_⟩
    rw [hp]
    exact .refl _
  · exact ⟨.inl rfl, hc⟩

end Moves

/-! ## 4. Every action keeps the invariant -/

/-- The bytes that the sources of the actions can return. -/
def deliveredBy (actions : List Action) : Set Bytes :=
  {bytes | ∃ key anchor source, Action.load key anchor source ∈ actions ∧
    ∃ hash, source.readExactTrustObject hash = .ok (some bytes)}

section Actions

variable {clients : Clients} {next : EphemeralTrustStateStore}

/-- The store stays or moves. -/
def StaysOrMoves (clients clients' : Clients) : Prop :=
  clients'.store = clients.store ∨ Moves clients.trusts clients.store clients'.store

/-- What a selection used and did: values that were sound when it was called, and releases of its
own device for a blocked clock only. -/
structure Logged (delivered : Set Bytes) (selection : Selection) : Prop where
  reached : ∃ clients, Sound delivered clients ∧ clients.store = selection.before ∧
    selection.candidate ∈ clients.candidates ∧ selection.localTime ∈ clients.blocks
  matched : candidateBlockMatches selection.candidate selection.localTime = true
  outcome : ∃ replayKey, (∀ key ∈ replayKey, selection.localTime.evaluation.futureSkew = .blocked ∧
      key.organizationId = selection.candidate.stateKey.organizationId ∧
      key.targetDeviceId = selection.candidate.stateKey.deviceId) ∧
    SelectionCase selection.before selection.candidate selection.localTime replayKey
      selection.after selection.outcome

/-- Nothing was selected and no release was consumed. -/
structure Quiet (clients clients' : Clients) : Prop where
  selections : clients'.selections = clients.selections
  consumed : clients'.store.consumedReleases = clients.store.consumedReleases
  key : clients'.store.key = clients.store.key

/-- An action logs at most one selection; without one no release is consumed. -/
def QuietOrLogged (delivered : Set Bytes) (clients clients' : Clients) : Prop :=
  Quiet clients clients' ∨ ∃ selection, clients'.selections = clients.selections ++ [selection] ∧
      selection.before = clients.store ∧ selection.after = clients'.store ∧
      Logged delivered selection

/-- What every successful call does. -/
def Keeps (delivered : Set Bytes) (clients : Clients) (action : Action) : Prop :=
  ∀ clients', clients.perform action = some clients' → Sound delivered clients' ∧
    StaysOrMoves clients clients' ∧ QuietOrLogged delivered clients clients'

omit [Crypto] [LocalAudits] in
theorem consumed_of_compareAndAffirm {store : EphemeralTrustStateStore} {revision : Nat}
    {time : TrustedTimeState}
    (h : store.commitRegistrySelection key revision (.compareAndAffirm time pin none) = .ok next) :
    next.consumedReleases = store.consumedReleases ∧ next.key = store.key := by
  obtain ⟨-, -, -, -, -, -, rfl⟩ := commitRegistrySelection_eq_ok.mp h
  exact ⟨List.append_nil _, rfl⟩

omit [Crypto] [LocalAudits] in
theorem mem_of_lookupOptional {α : Type} {values : List α} {index : Option Nat} {found : Option α}
    (h : lookupOptional values index = some found) : ∀ value ∈ found, value ∈ values := by
  intro value hv
  cases index with
  | none =>
    obtain rfl : none = found := by simpa [lookupOptional] using h
    cases hv
  | some index =>
    simp only [lookupOptional, Option.map_eq_some_iff] at h
    obtain ⟨value', hvalue', rfl⟩ := h
    obtain rfl : value' = value := by simpa using hv
    exact List.mem_of_getElem? hvalue'

variable {cand : RegistryCandidate} {sel block : Nat}

section

variable (h : Sound delivered clients)
include h

omit [LocalAudits] in
/-- The copy a candidate was verified from. -/
theorem Sound.copy (hm : cand ∈ clients.candidates) :
    CopyOf clients.store cand.stateRevision cand.trustedTime cand.originalPin := by
  obtain ⟨trust, ht, hd⟩ := h.candidates cand hm
  rw [hd.revision, hd.time, hd.pin]
  exact (h.trusts trust ht).2

omit [LocalAudits] in
/-- A further candidate. -/
theorem Sound.addCandidate {free : Nat} (ht : trust ∈ clients.trusts) (hd : Describes trust cand) :
    Sound delivered { clients with candidates := clients.candidates ++ [cand], free := free } where
  trusts := h.trusts
  candidates := forall_mem_concat h.candidates ⟨trust, ht, hd⟩
  merges merge hm := ⟨List.mem_append_left _ (h.merges merge hm).1, (h.merges merge hm).2⟩
  blocks := h.blocks
  releases := h.releases
  pendings := h.pendings
  pinTimed := h.pinTimed

theorem sound_load {anchor : TrustAnchor} {src : TrustObjectSource}
    (hde : ∀ hash bytes, src.readExactTrustObject hash = .ok (some bytes) →
      bytes ∈ delivered) : Keeps delivered clients (.load key anchor src) := by
  intro _ hp
  simp only [Clients.perform, some_iff, loadTrustState_eq_ok] at hp
  obtain ⟨_, ⟨-, rfl⟩, _, hv, rfl⟩ := hp
  obtain ⟨hl, -, -, -, hr, ht, hpi⟩ := verifyTrust_eq_ok hv
  refine ⟨⟨forall_mem_concat h.trusts ⟨fun hash record hg => ?_, ?_⟩, fun cand hm => ?_,
    h.merges, h.blocks, h.releases, h.pendings, h.pinTimed⟩, .inl rfl, .inl ⟨rfl, rfl, rfl⟩⟩
  · exact hde hash _ (TrustCatalog.of_load hl hg).2
  · rw [hr, ht, hpi]
    exact .refl _
  · obtain ⟨trust', htrust', hd⟩ := h.candidates cand hm
    exact ⟨trust', List.mem_append_left _ htrust', hd⟩

theorem sound_verify {trust seq : Nat} : Keeps delivered clients (.verify trust seq) := by
  intro _ hp
  simp only [Clients.perform, some_iff] at hp
  obtain ⟨_, ht, _, hv, rfl⟩ := hp
  exact ⟨h.addCandidate (List.mem_of_getElem? ht)
    (describes_of_verifyRegistryCandidate hv).1, .inl rfl, .inl ⟨rfl, rfl, rfl⟩⟩

theorem sound_fallback {trust : Nat} : Keeps delivered clients (.fallback trust sel) := by
  intro _ hp
  simp only [Clients.perform, some_iff] at hp
  obtain ⟨_, ht, sel', hs, hp⟩ := hp
  split at hp
  · next pend ho =>
      simp only [some_iff] at hp
      obtain ⟨_, hv, rfl⟩ := hp
      have hn := h.pendings sel' (List.mem_of_getElem? hs) pend ho
      exact ⟨h.addCandidate (List.mem_of_getElem? ht)
        (describes_of_verifyCurrentHeadFallback hn hv), .inl rfl, .inl ⟨rfl, rfl, rfl⟩⟩
  · cases hp

theorem sound_merge {cand : Nat} {srcs : List Nat} :
    Keeps delivered clients (.merge cand srcs) := by
  intro _ hp
  simp only [Clients.perform, some_iff] at hp
  obtain ⟨_, hc, _, -, _, hm, rfl⟩ := hp
  refine ⟨⟨h.trusts, h.candidates, forall_mem_concat h.merges ?_, h.blocks, h.releases,
    h.pendings, h.pinTimed⟩, .inl rfl, .inl ⟨rfl, rfl, rfl⟩⟩
  exact ⟨List.mem_of_getElem? hc, before_of_mergeSources hm⟩

theorem sound_prepare {merge : Nat} {clock : Int} :
    Keeps delivered clients (.prepare merge clock) := by
  intro _ hp
  simp only [Clients.perform, some_iff] at hp
  obtain ⟨⟨_, _⟩, hme, ⟨_, _, _⟩, hcm, rfl⟩ := hp
  obtain ⟨hc, hb⟩ := h.merges _ (List.mem_of_getElem? hme)
  obtain ⟨hmo, hco⟩ := moves_of_commitMerged (h.copy hc) hb hcm
  have hs := h.after hmo
  refine ⟨⟨hs.trusts, hs.candidates, hs.merges, fun block hm => ?_, hs.releases,
    hs.pendings, hs.pinTimed⟩, hmo, .inl ?_⟩
  · rcases List.mem_append.mp hm with hm | hm
    · exact hs.blocks block hm
    · rw [Option.mem_toList, toOption_eq_some] at hm
      obtain ⟨hr, ht, hpi, hf⟩ := localTimeBlock_eq_ok hm
      rw [hr, ht, hpi]
      exact ⟨hco, hf⟩
  · rcases commitMerged_cases hcm with ⟨-, -, rfl, -, -⟩ | ⟨rfl, -, -⟩
    · exact ⟨rfl, rfl, rfl⟩
    · exact ⟨rfl, rfl, rfl⟩

theorem sound_release {cand : Nat} {bytes : Bytes} :
    Keeps delivered clients (.release cand block bytes) := by
  intro _ hp
  simp only [Clients.perform, some_iff] at hp
  obtain ⟨_, -, _, -, _, hr, rfl⟩ := hp
  have hre := forall_mem_concat h.releases (replayKey_of_verifyClockRelease hr)
  exact ⟨⟨h.trusts, h.candidates, h.merges, h.blocks, hre, h.pendings, h.pinTimed⟩, .inl rfl,
    .inl ⟨rfl, rfl, rfl⟩⟩

omit [LocalAudits] in
/-- The store after a selection, by its case. -/
theorem Sound.moves_of_selectionCase {block : LocalTimeBlock} {out : RegistrySelectionOutcome}
    (hc : cand ∈ clients.candidates) (hb : block ∈ clients.blocks)
    (hm : candidateBlockMatches cand block = true)
    (hca : SelectionCase clients.store cand block replayKey next out) :
    next = clients.store ∨ Moves clients.trusts clients.store next := by
  obtain ⟨hco, -⟩ := h.blocks block hb
  obtain ⟨_, ht, hd⟩ := h.candidates cand hc
  rw [← (pins_of_candidateBlockMatches hm).2.1] at hco
  cases hca with
  | current _ _ _ _ _ _ hp hcm =>
    exact .inr (moves_of_compareAndAffirm (hp ▸ hco) hcm)
  | pending => exact .inl rfl
  | advanced _ hn _ _ hcm | successor _ _ hn _ _ _ hcm =>
    exact .inr (moves_of_advanceHead ht hd hn hco hcm)

omit [LocalAudits] in
/-- A pending successor has the version after the pin. -/
theorem Sound.pending_version {block : LocalTimeBlock} (hc : cand ∈ clients.candidates)
    (hm : candidateBlockMatches cand block = true)
    (hno : candidateIsCurrent cand = false) :
    ∀ pin ∈ block.pinnedHead, block.candidateRegistryVersion = pin.registryVersion + 1 := by
  intro pin hpi
  obtain ⟨_, -, hd⟩ := h.candidates cand hc
  obtain ⟨-, hp, hv⟩ := pins_of_candidateBlockMatches hm
  have hn := (hd.succeeds hno).version
  rw [← hd.pin, hp, Option.mem_def.mp hpi] at hn
  exact hv.symm.trans hn

theorem sound_select {cand : Nat} {release : Option Nat} :
    Keeps delivered clients (.select cand block release) := by
  intro _ hp
  simp only [Clients.perform, some_iff] at hp
  obtain ⟨_, hc, _, hb, _, hu, ⟨_, _⟩, hse, rfl⟩ := hp
  obtain ⟨hma, replayKey, hpa, hca⟩ := selectRegistryHead_cases hse
  have hc := List.mem_of_getElem? hc
  have hb := List.mem_of_getElem? hb
  have hm := h.moves_of_selectionCase hc hb hma hca
  have hs := h.after hm
  refine ⟨⟨hs.trusts, hs.candidates, hs.merges, hs.blocks, hs.releases,
    forall_mem_concat h.pendings fun pending hou => ?_, hs.pinTimed⟩, hm,
    .inr ⟨_, rfl, rfl, rfl, ⟨clients, h, rfl, hc, hb⟩, hma, replayKey, fun key hk => ?_, hca⟩⟩
  · subst hou
    cases hca with
    | pending _ hn _ => exact h.pending_version hc hma hn
  · obtain ⟨hsk, release', hrelease', rfl, ho, hd⟩ := requireReleasePairing_eq_ok hpa key hk
    rw [h.releases release' (mem_of_lookupOptional hu release' hrelease')]
    exact ⟨hsk, ho, hd⟩

omit [LocalAudits] in
/-- A commit that affirms the copy of a block. -/
theorem Sound.affirmed {block' : LocalTimeBlock} (hb : clients.blocks[block]? = some block')
    (hp : block'.pinnedHead = some pin)
    (hco : clients.store.commitRegistrySelection key block'.expectedRevision
      (.compareAndAffirm block'.trustedTime pin none) = .ok next) :
    Sound delivered { clients with store := next } ∧
      StaysOrMoves clients { clients with store := next } ∧
      QuietOrLogged delivered clients { clients with store := next } := by
  have hc := (h.blocks block' (List.mem_of_getElem? hb)).1
  have hm : Moves clients.trusts clients.store next := moves_of_compareAndAffirm (hp ▸ hc) hco
  have hk := consumed_of_compareAndAffirm hco
  exact ⟨h.moved hm, .inr hm, .inl ⟨rfl, hk.1, hk.2⟩⟩

theorem sound_selectStaleWriter {cand : Nat} :
    Keeps delivered clients (.selectStaleWriter cand block) := by
  intro _ hp
  simp only [Clients.perform, some_iff] at hp
  obtain ⟨_, -, _, hb, ⟨_, _⟩, hs, rfl⟩ := hp
  obtain ⟨hpi, _, hpn, hc⟩ := selectStaleWriterRegistryHead_eq_ok hs
  exact h.affirmed hb (hpi ▸ hpn) hc

theorem sound_reauthenticate : Keeps delivered clients (.reauthenticate block sel) := by
  intro _ hp
  simp only [Clients.perform, some_iff] at hp
  obtain ⟨_, hb, _, -, hp⟩ := hp
  split at hp
  · simp only [some_iff] at hp
    obtain ⟨⟨_, _⟩, hs, rfl⟩ := hp
    obtain ⟨_, hpi, hc⟩ := reauthenticationTime_eq_ok hs
    exact h.affirmed hb hpi hc
  · cases hp

/-- **One action keeps the invariant.** -/
theorem Sound.act {action : Action} (hd : deliveredBy [action] ⊆ delivered) :
    Sound delivered (clients.act action) ∧ StaysOrMoves clients (clients.act action) ∧
      QuietOrLogged delivered clients (clients.act action) := by
  cases hp : clients.perform action with
  | none =>
    rw [Clients.act, hp]
    exact ⟨h, .inl rfl, .inl ⟨rfl, rfl, rfl⟩⟩
  | some _ =>
    rw [Clients.act, hp]
    cases action with
    | load key anchor src =>
      refine sound_load h (fun hash bytes hr => hd ?_) _ hp
      exact ⟨key, anchor, src, List.mem_singleton_self _, hash, hr⟩
    | verify trust _ => exact sound_verify h _ hp
    | receiptTime cand rcpt | checkpointTime cand evd =>
      simp only [Clients.perform, some_iff] at hp
      obtain ⟨_, -, _, -, _, -, rfl⟩ := hp
      exact ⟨⟨h.trusts, h.candidates, h.merges, h.blocks, h.releases, h.pendings, h.pinTimed⟩,
        .inl rfl, .inl ⟨rfl, rfl, rfl⟩⟩
    | merge cand _ => exact sound_merge h _ hp
    | prepare merge _ => exact sound_prepare h _ hp
    | release cand block bytes => exact sound_release h _ hp
    | select cand block release => exact sound_select h _ hp
    | selectStaleWriter cand block => exact sound_selectStaleWriter h _ hp
    | fallback trust sel => exact sound_fallback h _ hp
    | reauthenticate block sel => exact sound_reauthenticate h _ hp

end

/-- **Every run keeps the invariant.** -/
theorem Sound.run (h : Sound delivered clients) {acts : List Action}
    (hd : deliveredBy acts ⊆ delivered) : Sound delivered (clients.run acts) := by
  induction acts generalizing clients with
  | nil => exact h
  | cons action acts ih =>
    have hf : deliveredBy [action] ⊆ delivered := by
      rintro bytes ⟨key, anchor, src, hm, hr⟩
      rw [List.mem_singleton] at hm
      exact hd ⟨key, anchor, src, hm ▸ List.mem_cons_self, hr⟩
    have hre : deliveredBy acts ⊆ delivered := by
      rintro bytes ⟨key, anchor, src, hm, hr⟩
      exact hd ⟨key, anchor, src, List.mem_cons_of_mem _ hm, hr⟩
    exact ih (h.act hf).1 hre

omit [LocalAudits] in
theorem sound_start (key : TrustStateKey) (floor : Int) :
    Sound delivered (Clients.start key floor) := by
  constructor <;> simp [Clients.start, PinTimed, EphemeralTrustStateStore.new,
    EphemeralTrustStateStore.withPin]

end Actions

end Einsatzarchiv.Trust
