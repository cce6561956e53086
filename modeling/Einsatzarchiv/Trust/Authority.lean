/-
  File:      Einsatzarchiv/Trust/Authority.lean
  Subject:   What the selected registry heads and the persisted trust state are worth, over every
             interleaving of clients.

  * `Accounted`: the store consumes releases through selections only, each one once.
  * **`selections_authoritative`**: a selected head covers its sequence, its time has begun and is
    not over, and it is the pinned head.
  * **`trustState_monotone`**: pin, floor and independent reference only move forward.
  * **`failed_preparation`**: what a preparation that fails may have committed.
-/
import Einsatzarchiv.Trust.Clients

namespace Einsatzarchiv.Trust

open Lib Format Time
open Clients (start perform)

/-! ## 1. The log of the selections -/

variable {key : TrustStateKey} {rev : Nat}

section Log

variable [Crypto] [LocalAudits] {delivered : Set Bytes}

/-- Every entry of the log of a run came about by a selection. -/
theorem logged_of_mem {floor : Int} {acts : List Action} (hd : deliveredBy acts ⊆ delivered) :
    ∀ selection ∈ ((start key floor).run acts).selections, Logged delivered selection := by
  induction acts using List.reverseRecOn with
  | nil => simp [Clients.run, start]
  | append_singleton acts action ih =>
    have hf : deliveredBy acts ⊆ delivered := fun bytes hb => by
      obtain ⟨key, anchor, src, hm, hr⟩ := hb
      exact hd ⟨key, anchor, src, List.mem_append_left _ hm, hr⟩
    rw [Clients.run_append]
    intro selection hm
    have hl : deliveredBy [action] ⊆ delivered := fun bytes hb => by
      obtain ⟨key, anchor, src, hm, hr⟩ := hb
      exact hd ⟨key, anchor, src, List.mem_append_right _ hm, hr⟩
    rcases (((sound_start key floor).run hf).act hl).2.2 with
      hq | ⟨logged, hs, -, -, hlo⟩
    · rw [hq.selections] at hm
      exact ih hf selection hm
    · rw [hs] at hm
      exact forall_mem_concat (ih hf) hlo selection hm

end Log

/-! ## 2. Selected heads -/

section Selected

variable [Crypto] [LocalAudits] {delivered : Set Bytes} {selection : Selection}
  {head : SelectedRegistryHead}

/-- What a selected head is worth; `fields` is the event it stands for. -/
structure Authoritative (delivered : Set Bytes) (selection : Selection)
    (head : SelectedRegistryHead) (fields : RegistryEventFields) : Prop where
  event : EventOf delivered head.registryHeadHash fields
  lease : fields.effectiveFromSequence ≤ head.proposedSequence ∧
    head.proposedSequence ≤ fields.validThroughSequence
  begun : max fields.issuedAt fields.notBefore ≤ head.preexistingEffectiveNow.value
  valid : head.preexistingEffectiveNow.value ≤ fields.notAfter
  pinned : selection.after.pinnedHead = some ⟨head.registryVersion, head.registryHeadHash⟩
  fallback : ∀ barrier ∈ selection.candidate.fallbackBarrier,
    EventOf delivered barrier.registryHeadHash barrier.event ∧
    barrier.event.registryVersion = head.registryVersion + 1 ∧
    barrier.event.previousRegistryHash = some head.registryHeadHash ∧
    head.preexistingEffectiveNow.value < barrier.readyAt

omit [Crypto] [LocalAudits] in
theorem pinnedHead_of_commit {store next : EphemeralTrustStateStore}
    {commit : RegistrySelectionCommit}
    (h : store.commitRegistrySelection key rev commit = .ok next) :
    next.pinnedHead = some commit.nextHead ∧ rev = store.revision := by
  obtain ⟨-, hr, -, -, -, -, rfl⟩ := commitRegistrySelection_eq_ok.mp h
  exact ⟨rfl, hr⟩

variable {cand : RegistryCandidate} {now : Int}

omit [LocalAudits] in
theorem leaseMiss_eq_false (h : leaseMiss cand = false) :
    cand.headEvent.effectiveFromSequence ≤ cand.proposedSequence ∧
      cand.proposedSequence ≤ cand.headEvent.validThroughSequence := by
  simpa [leaseMiss] using h

omit [LocalAudits] in
theorem isStale_eq_false (h : isStale cand now = false) : now ≤ cand.headEvent.notAfter := by
  simpa [isStale] using h

omit [Crypto] [LocalAudits] in
/-- A barrier that let a selection pass still lies ahead. -/
theorem requireBarrier_eq_ok {barrier : FallbackSuccessorBarrier} {ver : Nat}
    {hash : ObjectHash} (h : requireBarrier (some barrier) ver hash now = .ok ()) :
    barrier.event.registryVersion = barrier.registryVersion ∧ now < barrier.readyAt := by
  simp only [requireBarrier, FallbackSuccessorBarrier.requirePending, ok_iff] at h
  simp at h
  exact ⟨h.1.2.2, h.2⟩

section

omit [LocalAudits]

variable {clients : Clients}

/-- The affirmed head: the floor passed its times when it was pinned, and no commit has come in
between. -/
theorem begun_of_current (hf : Set.InjOn Crypto.objectHash delivered)
    (h : Sound delivered clients) {block : LocalTimeBlock}
    (hc : cand ∈ clients.candidates) (hb : block ∈ clients.blocks)
    (hm : candidateBlockMatches cand block = true)
    (hcu : candidateIsCurrent cand = true)
    (hr : block.expectedRevision = clients.store.revision) :
    max cand.headEvent.issuedAt cand.headEvent.notBefore ≤ block.evaluation.rawNow := by
  obtain ⟨hco, hfl⟩ := h.blocks block hb
  obtain ⟨hti, hpi⟩ := Prod.mk.inj (hco.eq hr)
  obtain ⟨trust, ht, hd⟩ := h.candidates cand hc
  have hp := originalPin_of_current hcu
  rw [(pins_of_candidateBlockMatches hm).2.1, hpi] at hp
  obtain ⟨fields, hev, hi, hbe⟩ := h.pinTimed _ hp
  have hs : fields = cand.headEvent := hev.unique hf (hd.event.eventOf (h.trusts trust ht).1)
  rw [← hs]
  rw [hti] at hfl
  exact max_le (hi.trans hfl) (hbe.trans hfl)

/-- The barriers of a candidate that was selected. -/
theorem fallback_of_current (h : Sound delivered clients)
    (hc : cand ∈ clients.candidates) (hcu : candidateIsCurrent cand = true)
    (hb : requireBarrier cand.fallbackBarrier cand.registryVersion
      cand.registryHeadHash now = .ok ()) :
    ∀ barrier ∈ cand.fallbackBarrier,
      EventOf delivered barrier.registryHeadHash barrier.event ∧
      barrier.event.registryVersion = cand.registryVersion + 1 ∧
      barrier.event.previousRegistryHash = some cand.registryHeadHash ∧
      now < barrier.readyAt := by
  intro barrier hm
  rw [Option.mem_def.mp hm] at hb
  obtain ⟨hv, hn⟩ := requireBarrier_eq_ok hb
  obtain ⟨trust, ht, hd⟩ := h.candidates cand hc
  obtain ⟨hev, hs⟩ := hd.barrier barrier hm
  rw [← hd.pin, originalPin_of_current hcu] at hs
  exact ⟨hev.eventOf (h.trusts trust ht).1, hv.trans hs.version, hs.previous, hn⟩

/-- A logged selection of a head. -/
theorem Logged.authoritative (hf : Set.InjOn Crypto.objectHash delivered)
    (h : Logged delivered selection) (hse : selection.outcome = .selected head) :
    ∃ fields, Authoritative delivered selection head fields := by
  obtain ⟨cand, _, _, _, _⟩ := selection
  obtain ⟨_, hs, hst, hc, hb⟩ := h.reached
  obtain ⟨trust, ht, hd⟩ := hs.candidates _ hc
  have hev := hd.event.eventOf (hs.trusts trust ht).1
  obtain ⟨_, -, hca⟩ := h.outcome
  dsimp only at hse hc hb hca hev hd hst
  subst hse
  cases hca with
  | current _ _ hcu hba hfr hl hpi hco =>
    obtain ⟨hp, hre⟩ := pinnedHead_of_commit hco
    have hpin' := (originalPin_of_current hcu).symm.trans hpi
    refine ⟨cand.headEvent, hev, leaseMiss_eq_false hl, ?_,
      isStale_eq_false hfr, hp.trans hpin'.symm,
      fallback_of_current hs hc hcu hba⟩
    exact begun_of_current hf hs hc hb h.matched hcu
      (hre.trans (congrArg _ hst.symm))
  | successor _ _ hn hr hfr hl hco =>
    obtain ⟨hp, -⟩ := pinnedHead_of_commit hco
    refine ⟨cand.headEvent, hev, leaseMiss_eq_false hl,
      max_le hr.1 hr.2, isStale_eq_false hfr, hp, ?_⟩
    rw [hd.unbarred hn]
    simp

end

/-- What the selection of a successor comes to.  Before its time nothing is written; from then on it
is pinned, and one whose period is over or whose lease does not cover the sequence becomes no
authority. -/
structure SuccessorOutcome (selection : Selection) : Prop where
  early : ¬ Ready selection.candidate selection.localTime.evaluation.rawNow →
    (∃ pending, selection.outcome = .pendingFuture pending) ∧ selection.after = selection.before
  missed : Ready selection.candidate selection.localTime.evaluation.rawNow →
    isStale selection.candidate selection.localTime.evaluation.rawNow = true ∨
      leaseMiss selection.candidate = true →
    ∃ head, selection.outcome = .advanced head

omit [LocalAudits] in
theorem Logged.successorOutcome (h : Logged delivered selection)
    (hn : candidateIsCurrent selection.candidate = false) : SuccessorOutcome selection := by
  obtain ⟨_, _, _, _, _⟩ := selection
  obtain ⟨_, -, hc⟩ := h.outcome
  dsimp only at hn hc
  cases hc with
  | current _ _ hcu => simp [hn] at hcu
  | pending _ _ he => exact ⟨fun _ => ⟨⟨_, rfl⟩, rfl⟩, fun hr => absurd hr he⟩
  | advanced _ _ hr => exact ⟨fun he => absurd hr he, fun _ _ => ⟨_, rfl⟩⟩
  | successor _ _ _ hr hf hl => exact ⟨fun he => absurd hr he, fun _ hm => by simp [hf, hl] at hm⟩

omit [LocalAudits] in
/-- A candidate of the fallback is held back by the successor that is pending. -/
theorem fallbackBarrier_of_verifyCurrentHeadFallback {trust : VerifiedTrust}
    {pending : PendingFutureSuccessor} {address : Nat}
    (h : verifyCurrentHeadFallback trust pending address = .ok cand) :
    cand.fallbackBarrier = some ⟨pending.candidateRegistryVersion,
      pending.candidateRegistryHeadHash, pending.successorEvent⟩ := by
  simp only [verifyCurrentHeadFallback, ok_iff] at h
  obtain ⟨-, -, _, -, -, -, -, -, -, -, -, -, _, -, -, -, _, -, _, -, rfl⟩ := h
  rfl

/-- **The authority of selected heads over every run.**  A selected head covers its sequence, its
time has begun and is not over, it is the pinned head, and a successor it falls back from is not
yet ready; every candidate of the fallback names that successor.  A successor is left pending, with
nothing written, until its time comes; one that is stale or misses the lease is then pinned without
being selected. -/
theorem selections_authoritative (key : TrustStateKey) (floor : Int) (actions : List Action)
    (hfree : Set.InjOn Crypto.objectHash (deliveredBy actions)) :
    (∀ selection ∈ ((start key floor).run actions).selections,
      (∀ head, selection.outcome = .selected head →
        ∃ fields, Authoritative (deliveredBy actions) selection head fields) ∧
      (candidateIsCurrent selection.candidate = false → SuccessorOutcome selection)) ∧
    ∀ trust pending address candidate,
      verifyCurrentHeadFallback trust pending address = .ok candidate →
        candidate.fallbackBarrier = some ⟨pending.candidateRegistryVersion,
          pending.candidateRegistryHeadHash, pending.successorEvent⟩ := by
  refine ⟨fun selection hm => ?_, fun _ _ _ _ => fallbackBarrier_of_verifyCurrentHeadFallback⟩
  have hl := logged_of_mem (Set.Subset.refl (deliveredBy actions)) selection hm
  exact ⟨fun head hs => hl.authoritative hfree hs, fun hn => hl.successorOutcome hn⟩

end Selected

/-! ## 3. The persisted trust state -/

section State

variable [Crypto] [LocalAudits] {dlv : Set Bytes} {clients : Clients} {selection : Selection}
  {clients' : Clients}

/-- The version of the pin; zero before the first pin. -/
def pinnedVersion (store : EphemeralTrustStateStore) : Nat :=
  store.pinnedHead.elim 0 (·.registryVersion)

omit [LocalAudits] in
theorem StaysOrMoves.before (h : StaysOrMoves clients clients') :
    clients.store.trustedTime.Before clients'.store.trustedTime := by
  rcases h with hs | hm
  · rw [hs]
    exact .refl _
  · exact hm.time

omit [LocalAudits] in
theorem StaysOrMoves.pinnedVersion_le (h : StaysOrMoves clients clients') :
    pinnedVersion clients.store ≤ pinnedVersion clients'.store := by
  rcases h with hs | hm
  · rw [hs]
  · rcases hm.pin with hk | ⟨_, -, _, _, hp⟩
    · rw [pinnedVersion, pinnedVersion, hk]
    · have hv := hp.succeeds.version
      rw [pinnedVersion, pinnedVersion, hp.pin]
      cases hold : clients.store.pinnedHead with
      | none => exact Nat.zero_le _
      | some _ =>
        rw [hold] at hv
        simp only [Option.elim_some] at hv ⊢
        omega

/-- A run moves the time and the version of the pin forward only. -/
theorem Sound.forward (h : Sound Set.univ clients) (acts : List Action) :
    clients.store.trustedTime.Before (clients.run acts).store.trustedTime ∧
      pinnedVersion clients.store ≤ pinnedVersion (clients.run acts).store := by
  induction acts generalizing clients with
  | nil => exact ⟨.refl _, le_rfl⟩
  | cons action acts ih =>
    obtain ⟨hs, hst, -⟩ := h.act (Set.subset_univ (deliveredBy [action]))
    obtain ⟨hb, hv⟩ := ih hs
    exact ⟨hst.before.trans hb, hst.pinnedVersion_le.trans hv⟩

omit [LocalAudits] in
/-- What a selection consumed is what it added to the store: a fresh release of the device of the
store, for a blocked clock. -/
theorem Logged.consumed (h : Logged dlv selection) : selection.after.consumedReleases =
        selection.before.consumedReleases ++ selection.consumed ∧
      selection.after.key = selection.before.key ∧ selection.consumed.Nodup ∧
      ∀ key ∈ selection.consumed, selection.localTime.evaluation.futureSkew = .blocked ∧
        key.organizationId = selection.before.key.organizationId ∧
        key.targetDeviceId = selection.before.key.deviceId ∧
        key ∉ selection.before.consumedReleases := by
  obtain ⟨candidate, loc, before, out, after⟩ := selection
  obtain ⟨rkey, hreplayKey, hca⟩ := h.outcome
  have hk := (pins_of_candidateBlockMatches h.matched).1
  dsimp only at hreplayKey hca hk
  -- a commit appends its release, if it has one
  have hc : ∀ commit, commit.replayKey = rkey →
      before.commitRegistrySelection loc.stateKey loc.expectedRevision commit = .ok after →
      after.consumedReleases = before.consumedReleases ++ rkey.toList ∧
        after.key = before.key ∧ loc.stateKey = before.key ∧
        ∀ key ∈ rkey, key ∉ before.consumedReleases := by
    rintro commit rfl hcm
    obtain ⟨hs, -, -, hf, -, -, rfl⟩ := commitRegistrySelection_eq_ok.mp hcm
    exact ⟨rfl, rfl, hs, hf⟩
  have hal : after.consumedReleases = before.consumedReleases ++ rkey.toList ∧
      after.key = before.key ∧ loc.stateKey = before.key ∧
      (∀ key ∈ rkey, key ∉ before.consumedReleases) ∨ after = before := by
    cases hca with
    | current _ _ _ _ _ _ _ hcm => exact .inl (hc _ rfl hcm)
    | pending => exact .inr rfl
    | advanced _ _ _ _ hcm | successor _ _ _ _ _ _ hcm =>
      exact .inl (hc _ rfl hcm)
  rcases hal with ⟨hco, ha, hs, hf⟩ | rfl
  · have hn : Selection.consumed ⟨candidate, loc, before, out, after⟩ =
        rkey.toList := by
      simp [Selection.consumed, hco]
    rw [hn]
    refine ⟨hco, ha, by cases rkey <;> simp, fun key hm => ?_⟩
    obtain ⟨hsk, ho, hd⟩ := hreplayKey key (by simpa using hm)
    rw [hk, hs] at ho hd
    exact ⟨hsk, ho, hd, hf key (by simpa using hm)⟩
  · simp [Selection.consumed]

/-- The ledger of the releases: the store holds what the selections consumed, all of its own
device and each one once. -/
structure Accounted (clients : Clients) : Prop where
  ledger : clients.store.consumedReleases = clients.selections.flatMap Selection.consumed
  own : ∀ key ∈ clients.store.consumedReleases,
    key.organizationId = clients.store.key.organizationId ∧
      key.targetDeviceId = clients.store.key.deviceId
  distinct : clients.store.consumedReleases.Nodup

theorem Accounted.act (h : Accounted clients) (hs : Sound Set.univ clients)
    (action : Action) : Accounted (clients.act action) := by
  rcases (hs.act (Set.subset_univ (deliveredBy [action]))).2.2 with
    hq | ⟨selection, hse, hbe, haf, hl⟩
  · refine ⟨?_, ?_, ?_⟩
    · rw [hq.consumed, hq.selections]
      exact h.ledger
    · rw [hq.consumed, hq.key]
      exact h.own
    · rw [hq.consumed]
      exact h.distinct
  · obtain ⟨hc, hk, hn, hf⟩ := hl.consumed
    rw [haf, hbe] at hc hk
    simp only [hbe] at hf
    refine ⟨?_, ?_, ?_⟩
    · rw [hc, hse, List.flatMap_append, h.ledger, List.flatMap_singleton]
    · rw [hc, hk]
      intro key hm
      rcases List.mem_append.mp hm with hm | hm
      · exact h.own key hm
      · exact ⟨(hf key hm).2.1, (hf key hm).2.2.1⟩
    · rw [hc]
      refine List.nodup_append.mpr ⟨h.distinct, hn, fun a ha b hb heq => ?_⟩
      exact (hf b hb).2.2.2 (heq ▸ ha)

theorem accounted_run (key : TrustStateKey) (floor : Int) (acts : List Action) :
    Accounted ((start key floor).run acts) := by
  induction acts using List.reverseRecOn with
  | nil => constructor <;> simp [Clients.run, start, EphemeralTrustStateStore.new,
      EphemeralTrustStateStore.withPin]
  | append_singleton acts action ih =>
    rw [Clients.run_append]
    have hs : Sound Set.univ ((start key floor).run acts) :=
      (sound_start key floor).run (Set.subset_univ _)
    exact ih.act hs action

omit [LocalAudits] in
/-- The releases of one device differ in their nonces. -/
theorem Accounted.nonces (h : Accounted clients) :
    (clients.store.consumedReleases.map (·.nonce)).Nodup := by
  refine h.distinct.map_on fun a ha b hb hn => ?_
  obtain ⟨_, _⟩ := h.own a ha
  obtain ⟨_, _⟩ := h.own b hb
  cases a
  cases b
  simp_all

/-- What holds of the persisted trust state wherever a run has come to. -/
structure MonotoneTrust (clients : Clients) : Prop where
  version : ∀ actions, pinnedVersion clients.store ≤ pinnedVersion (clients.run actions).store
  commit : ∀ action, (clients.act action).store.pinnedHead = clients.store.pinnedHead ∨
    ∃ trust ∈ clients.trusts, ∃ event, Succeeds trust clients.store.pinnedHead event ∧
      (clients.act action).store.pinnedHead = some ⟨event.registryVersion, event.objectHash⟩
  time : ∀ actions, clients.store.trustedTime.Before (clients.run actions).store.trustedTime
  ledger : clients.store.consumedReleases = clients.selections.flatMap Selection.consumed
  once : ((clients.selections.flatMap Selection.consumed).map (·.nonce)).Nodup
  blocked : ∀ selection ∈ clients.selections, selection.consumed ≠ [] →
    selection.localTime.evaluation.futureSkew = .blocked

/-- **The persisted trust state over every run**: the pin stays or moves to the one event that
succeeds it, floor and reference do not fall behind, and every nonce of a release is consumed by
at most one selection, and only for a blocked clock. -/
theorem trustState_monotone (key : TrustStateKey) (floor : Int) (actions : List Action) :
    MonotoneTrust ((start key floor).run actions) := by
  have hs : Sound Set.univ ((start key floor).run actions) :=
    (sound_start key floor).run (Set.subset_univ _)
  have ha := accounted_run key floor actions
  refine ⟨fun later => (hs.forward later).2, fun action => ?_,
    fun later => (hs.forward later).1, ha.ledger, ha.ledger ▸ ha.nonces,
    fun selection hm hc => ?_⟩
  · rcases (hs.act (Set.subset_univ (deliveredBy [action]))).2.1 with hst | hmo
    · exact .inl (congrArg _ hst)
    · rcases hmo.pin with hk | ⟨trust, ht, event, _, hp⟩
      · exact .inl hk
      · exact .inr ⟨trust, ht, event, hp.succeeds, hp.pin⟩
  · have hl := logged_of_mem (Set.subset_univ (deliveredBy actions)) selection hm
    obtain ⟨release, hr⟩ := List.exists_mem_of_ne_nil _ hc
    exact (hl.consumed.2.2.2 release hr).1

end State

/-! ## 4. A small run -/

section Example

/-- `organization` up to its second event, which begins later and leases less: from time 15 on, and
up to sequence 50. -/
def shortLease : ObjectHash → Option ArchiveObject
  | 22 => some (trustObject (.authorized (.registryEvent {
      organizationId := 1
      registryVersion := 2
      previousRegistryHash := some 12
      effectiveFromSequence := 0
      validThroughSequence := 50
      issuedAt := 15
      notBefore := 15
      notAfter := 20
      policyObjectHash := 10
      change := .certificate 20
      rootKeyThumbprint := 101 }) 23) 101 1)
  | hash => organization hash

def exampleKey : TrustStateKey := ⟨1, 2⟩

/-- Two clients select for sequence 60 at time 12: the first knows the first event only, the second
knows both. -/
def exampleActions : List Action :=
  [.load exampleKey organizationAnchor (tableSource [1, 2, 3, 4, 5, 10, 11, 12, 13]),
    .verify 0 60, .merge 0 [], .prepare 0 12, .select 0 0 none,
    .load exampleKey organizationAnchor
      (tableSource [1, 2, 3, 4, 5, 10, 11, 12, 13, 20, 21, 22, 23]),
    .verify 1 60, .merge 1 [], .prepare 1 12, .select 1 1 none]

def exampleRun : @Clients (tableCrypto shortLease) :=
  let := tableCrypto shortLease
  let := noAudits
  (start exampleKey 0).run exampleActions

theorem injOn_exampleActions : Set.InjOn (tableCrypto shortLease).objectHash
    (deliveredBy exampleActions) := by
  let := tableCrypto shortLease
  -- every source of the run returns blobs, and a blob is determined by its name
  have hbl : ∀ bytes ∈ deliveredBy exampleActions, ∃ name, bytes = blob name := by
    rintro bytes ⟨_, _, _, hm, _, hr⟩
    simp only [exampleActions, List.mem_cons, reduceCtorEq, Action.load.injEq, List.not_mem_nil,
      or_false, false_or] at hm
    rcases hm with ⟨-, -, rfl⟩ | ⟨-, -, rfl⟩
    all_goals
      simp only [tableSource, Except.ok.injEq, Option.some.injEq] at hr
      exact ⟨_, hr.symm⟩
  intro bytes hb bytes' hb' hh
  obtain ⟨name, rfl⟩ := hbl bytes hb
  obtain ⟨name', rfl⟩ := hbl bytes' hb'
  have hn : name.toNat = name'.toNat := hh
  rw [UInt8.toNat_inj.mp hn]

theorem selections_authoritative_first :
    let := tableCrypto shortLease
    ∃ selection ∈ exampleRun.selections, ∃ head fields, selection.outcome = .selected head ∧
      Authoritative (deliveredBy exampleActions) selection head fields := by
  let := tableCrypto shortLease
  let := noAudits
  have hf : (exampleRun.selections.any fun selection =>
      selection.outcome.casesOn (fun _ => true) (fun _ => false) fun _ => false) = true := by
    decide +kernel
  obtain ⟨selection, hm, hs⟩ := List.any_eq_true.mp hf
  have ha := (selections_authoritative exampleKey 0 exampleActions injOn_exampleActions).1
    selection hm
  cases ho : selection.outcome with
  | selected head =>
    obtain ⟨fields, hfl⟩ := ha.1 head ho
    exact ⟨selection, hm, head, fields, ho, hfl⟩
  | advanced head | pendingFuture pending => simp [ho] at hs

/-- A successor that misses the lease can also be left pending: the second client proposes a
sequence that the pinned head covers and the successor does not. -/
theorem pending_of_leaseMiss :
    let := tableCrypto shortLease
    ∃ selection ∈ exampleRun.selections, candidateIsCurrent selection.candidate = false ∧
      leaseMiss selection.candidate = true ∧
      ∃ pending, selection.outcome = .pendingFuture pending := by
  let := tableCrypto shortLease
  have hs : (exampleRun.selections.any fun selection =>
      !candidateIsCurrent selection.candidate && leaseMiss selection.candidate &&
        selection.outcome.casesOn (fun _ => false) (fun _ => false) fun _ => true) = true := by
    decide +kernel
  obtain ⟨selection, hm, h⟩ := List.any_eq_true.mp hs
  simp only [Bool.and_eq_true, Bool.not_eq_true'] at h
  refine ⟨selection, hm, h.1.1, h.1.2, ?_⟩
  cases ho : selection.outcome with
  | pendingFuture pending => exact ⟨pending, rfl⟩
  | selected head | advanced head => simp [ho] at h

end Example

/-! ## 5. A preparation that fails -/

section Preparation

variable [Crypto] {store : EphemeralTrustStateStore} {candidate : RegistryCandidate} {clock : Int}
  {sources : List VerifiedSignedTime} {error : TrustError}

/-- The evaluation fails only where its limit is no time. -/
theorem localTimeBlock_eq_error {time : TrustedTimeState}
    (h : localTimeBlock candidate rev time clock = .error error) :
    error = .timeOverflow ∧ ∃ ref ∈ time.independentReference,
      i64Max < ref.verifiedTime + candidate.guardPolicy.fields.maxFutureClockSkewMs := by
  unfold localTimeBlock evaluatePreexistingTime futureSkew at h
  cases hr : time.independentReference with
  | none =>
    rw [hr] at h
    cases h
  | some ref =>
    rw [hr] at h
    by_cases hle : ref.verifiedTime + candidate.guardPolicy.fields.maxFutureClockSkewMs ≤ i64Max
    · simp only [checkedAddMillis, ensure, hle] at h
      cases h
    · simp only [checkedAddMillis, ensure, hle] at h
      cases h
      exact ⟨rfl, ref, rfl, not_le.mp hle⟩

/-- **A preparation that fails** leaves the record as it was, unless it has committed the merged
time and only then found that its limit overflows. -/
theorem failed_preparation (h : (prepareLocalTime store candidate clock sources).2 = .error error) :
    let after := (prepareLocalTime store candidate clock sources).1
    after.record = store.record ∨
      error = .timeOverflow ∧ ∃ merged, mergeSources store candidate sources = .ok merged ∧
        merged.changed = true ∧
        after.record = ⟨store.revision + 1, merged.nextTrustedTime, store.pinnedHead⟩ ∧
        ∃ reference ∈ merged.nextTrustedTime.independentReference,
          i64Max < reference.verifiedTime + candidate.guardPolicy.fields.maxFutureClockSkewMs := by
  unfold prepareLocalTime at h ⊢
  cases hm : mergeSources store candidate sources with
  | error => exact .inl rfl
  | ok merged =>
    rw [hm] at h
    dsimp only at h ⊢
    cases hc : merged.changed with
    | false =>
      -- nothing is committed
      unfold commitMerged
      rw [hc]
      exact .inl rfl
    | true =>
      cases hco : commitMerged store candidate merged with
      | error => exact .inl rfl
      | ok _ =>
        rw [hco] at h
        obtain ⟨he, ho⟩ := localTimeBlock_eq_error h
        rcases commitMerged_cases hco with ⟨-, -, hn, -, ht⟩ | ⟨hn, -, -⟩
        · rw [ht, hn] at ho
          exact .inr ⟨he, merged, rfl, hc, congrArg _ hn, ho⟩
        · exact .inl (congrArg _ hn)

end Preparation

/-- A receipt of the server of `organization` from the last moment there is. -/
def lastReceipt : Parsed Receipt where
  objectHash := 40
  exactBytes := []
  value := ⟨⟨1, 2, 5, 0, 0, none, 3, 32, 10, 0, [], i64Max, none, 105, 30⟩,
    signedBy .receiptDigest 105 30⟩

/-- The head of `organization` is pinned. -/
def pinnedStore : EphemeralTrustStateStore := .withPin exampleKey 0 (some ⟨3, 32⟩)

/-- A candidate under the pinned head and the time of the receipt. -/
def overflowInputs [Crypto] : Option (RegistryCandidate × VerifiedSignedTime) := do
  let trust ← (verifyTrust organizationAnchor (tableSource organizationNames)
    ⟨exampleKey, pinnedStore.record⟩).toOption
  let candidate ← (verifyRegistryCandidate trust 5 0).toOption
  let authority ← candidate.preexistingAuthority
  let source ← (verifyReceiptTime authority.value lastReceipt).toOption
  return (candidate, source)

theorem exists_overflow : let := tableCrypto organization
    ∃ candidate src after, overflowInputs = some (candidate, src) ∧
      prepareLocalTime pinnedStore candidate 15 [src] = (after, .error .timeOverflow) ∧
      after.record ≠ pinnedStore.record := by
  intro _
  have hru : overflowInputs.any (fun inputs =>
      match prepareLocalTime pinnedStore inputs.1 15 [inputs.2] with
      | (after, .error .timeOverflow) => decide (after.revision = 1)
      | _ => false) = true := by decide +kernel
  obtain ⟨⟨candidate, src⟩, hi, h⟩ := (Option.any_eq_true _ _).mp hru
  split at h
  next after hp =>
    refine ⟨candidate, src, after, hi, hp, fun hs => ?_⟩
    have hr : after.revision = 0 := congrArg (·.revision) hs
    simp [hr] at h
  next => cases h

/-- The time of the receipt is committed before the evaluation finds that the policy cannot be
added to it. -/
theorem preparation_survives_overflow :
    let := tableCrypto organization
    ∃ candidate source after, overflowInputs = some (candidate, source) ∧
      prepareLocalTime pinnedStore candidate 15 [source] = (after, .error .timeOverflow) ∧
      after.record ≠ pinnedStore.record :=
  exists_overflow

theorem failed_preparation_overflow :
    let := tableCrypto organization
    ∃ candidate sources merged,
      (prepareLocalTime pinnedStore candidate 15 sources).2 = .error .timeOverflow ∧
      mergeSources pinnedStore candidate sources = .ok merged ∧
      (prepareLocalTime pinnedStore candidate 15 sources).1.record
        = ⟨1, merged.nextTrustedTime, some ⟨3, 32⟩⟩ := by
  intro _
  obtain ⟨candidate, source, _, -, hp, hc⟩ := exists_overflow
  have he : (prepareLocalTime pinnedStore candidate 15 [source]).2 = .error .timeOverflow := by
    rw [hp]
  refine ⟨candidate, [source], ?_⟩
  rcases failed_preparation he with hs | ⟨-, merged, hm, -, hr, -⟩
  · rw [hp] at hs
    exact absurd hs hc
  · exact ⟨merged, he, hm, hr⟩

end Einsatzarchiv.Trust
