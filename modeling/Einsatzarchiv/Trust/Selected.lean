/-
  File:      Einsatzarchiv/Trust/Selected.lean
  Subject:   What the calls on the way to a selected registry head establish.

  * `Describes`: a candidate is the pinned head or its one direct successor, with the event the
    catalog holds for it; both ways to a candidate establish it.
  * `candidate_neither_skips_nor_forks`: the topology under a candidate.
  * `commitSelection_eq_ok`, `commitMerged_cases`: the commits.
  * `selectRegistryHead_cases`: the three ways a selection succeeds.
-/
import Einsatzarchiv.Trust.Selection

namespace Einsatzarchiv.Trust

open Lib Format Time

variable [Crypto]

/-! ## 1. Candidates -/

/-- The line up to the pinned head. -/
structure Pinned (trust : VerifiedTrust) (pin : RegistryHeadPin) (line : Line) : Prop where
  pin_eq : trust.pinnedHead = some pin
  pos : 1 ≤ pin.registryVersion
  line_eq : lineAt trust pin.registryVersion = some line
  head : line.state.registryHeadHash = pin.registryHeadHash

/-- The event is the only one of the version after the pin, and names the pin. -/
structure Succeeds (trust : VerifiedTrust) (pin : Option RegistryHeadPin)
    (event : TopologyEvent) : Prop where
  unique : (RegistryTopology.build trust).events.filter
    (·.registryVersion = event.registryVersion) = [event]
  version : event.registryVersion = pin.elim 1 (·.registryVersion + 1)
  previous : event.previousRegistryHash = pin.map (·.registryHeadHash)

/-- The event as the topology holds it. -/
def topologyEvent (version : Nat) (hash : ObjectHash) (fields : RegistryEventFields) :
    TopologyEvent := ⟨version, hash, fields.previousRegistryHash⟩

/-- The fields of the registry event that the catalog holds under a hash. -/
def HoldsEvent (trust : VerifiedTrust) (hash : ObjectHash) (fields : RegistryEventFields) : Prop :=
  ∃ event, trust.catalog.registryEvent hash = some event ∧ event.fields = fields

/-- What is known about every candidate. -/
structure Describes (trust : VerifiedTrust) (candidate : RegistryCandidate) : Prop where
  key : candidate.stateKey = trust.stateKey
  revision : candidate.stateRevision = trust.stateRevision
  time : candidate.trustedTime = trust.trustedTime
  pin : candidate.originalPin = trust.pinnedHead
  event : HoldsEvent trust candidate.registryHeadHash candidate.headEvent
  authority : ∀ authority ∈ candidate.preexistingAuthority,
    ∃ pin line, Pinned trust pin line ∧ authority.value = line.state
  succeeds : candidateIsCurrent candidate = false → Succeeds trust trust.pinnedHead
    (topologyEvent candidate.registryVersion candidate.registryHeadHash candidate.headEvent)
  unbarred : candidateIsCurrent candidate = false → candidate.fallbackBarrier = none
  barrier : ∀ barrier ∈ candidate.fallbackBarrier, HoldsEvent trust barrier.registryHeadHash
    barrier.event ∧ Succeeds trust trust.pinnedHead
      (topologyEvent barrier.registryVersion barrier.registryHeadHash barrier.event)

variable {candidate : RegistryCandidate} {trust : VerifiedTrust} {version sequence address : Nat}
  {line : Line} {store next : EphemeralTrustStateStore} {localTime : LocalTimeBlock}
  {release : Option VerifiedClockRelease} {time : TrustedTimeState} {pin : RegistryHeadPin}
  {merged : MergedTime}
  {revision : Nat}

/-- A current candidate is the pinned head. -/
theorem originalPin_of_current (h : candidateIsCurrent candidate = true) :
    candidate.originalPin = some ⟨candidate.registryVersion, candidate.registryHeadHash⟩ := by
  unfold candidateIsCurrent at h
  cases hp : candidate.originalPin with
  | none => simp [hp] at h
  | some _ =>
    simp only [hp, Option.any_some, Bool.and_eq_true, decide_eq_true_eq] at h
    rw [← h.1.1, ← h.1.2]

/-- The head of a replayed version is an event of the catalog. -/
theorem holdsEvent_of_lineAt (h : lineAt trust version = some line) (hp : 1 ≤ version) :
    ∃ fields, line.state.headEvent = some fields ∧
      HoldsEvent trust line.state.registryHeadHash fields := by
  obtain ⟨version, rfl⟩ := Nat.exists_eq_add_of_le' hp
  obtain ⟨_, event, _, -, -, -, hl, ha⟩ := exists_event_of_lineAt_succ h
  obtain ⟨_, _, _, _, applied⟩ := verifyAndApplyRegistryEvent_eq_ok ha
  rw [applied.state_eq]
  rw [loadRegistryEvent, okOr_eq_ok] at hl
  exact ⟨event.fields, rfl, event, hl, rfl⟩

/-- The candidate for the pinned head. -/
theorem describes_of_currentCandidate (hp : Pinned trust pin line)
    (h : currentCandidate trust line.state pin sequence address = .ok candidate) :
    Describes trust candidate ∧ candidate.fallbackBarrier = none ∧
      candidateIsCurrent candidate = true ∧ candidate.originalPin = some pin := by
  simp only [currentCandidate, ok_iff] at h
  obtain ⟨-, -, _, -, fields, hf, rfl⟩ := h
  have hc : ∀ candidate : RegistryCandidate,
      candidate.originalPin = some ⟨candidate.registryVersion, candidate.registryHeadHash⟩ →
      candidate.preexistingAuthority = some candidate.candidateState →
      candidateIsCurrent candidate = true := by
    intro candidate hpi ha
    simp [candidateIsCurrent, hpi, ha, Arc.ptrEq]
  obtain ⟨fields', hfields', hev⟩ := holdsEvent_of_lineAt hp.line_eq hp.pos
  obtain rfl : fields' = fields := by simpa [hfields'] using hf
  rw [hp.head] at hev
  refine ⟨⟨rfl, rfl, rfl, hp.pin_eq.symm, hev, ?_, ?_, fun _ => rfl, ?_⟩, rfl,
    hc _ rfl rfl, rfl⟩
  · rintro _ ⟨⟩
    exact ⟨pin, line, hp, rfl⟩
  · intro hn
    rw [hc _ rfl rfl] at hn
    cases hn
  · simp

/-- The events of a version. -/
def RegistryTopology.eventsOf (topology : RegistryTopology) (version : Nat) : List TopologyEvent :=
  topology.events.filter (·.registryVersion = version)

omit [Crypto] in
theorem RegistryTopology.eventsOf_of_exact {topology : RegistryTopology} {prev : Option Hash32}
    {found : Option TopologyEvent} (h : topology.exact version prev = .ok found) :
    topology.eventsOf version = found.toList := by
  unfold RegistryTopology.exact at h
  split at h <;> grind [eventsOf]

omit [Crypto] in
theorem nextVersion_eq_some {pin : Option RegistryHeadPin} (h : nextVersion pin = some version) :
    version = pin.elim 1 (·.registryVersion + 1) := by
  cases pin with
  | none => simpa [nextVersion, eq_comm] using h
  | some pin => exact (checkedAdd_eq_some.mp h).1

section

variable {event : RegistryEvent} {direct : TopologyEvent}

/-- The event that is found for the version after the pin. -/
theorem succeeds_of_exact (hv : nextVersion trust.pinnedHead = some version)
    (hd : (RegistryTopology.build trust).exact version
      (trust.pinnedHead.map (·.registryHeadHash)) = .ok (some direct))
    (hl : loadRegistryEvent trust.catalog direct.objectHash = .ok event) :
    Succeeds trust trust.pinnedHead
      (topologyEvent event.fields.registryVersion event.objectHash event.fields) := by
  obtain ⟨_, rfl, hp, _⟩ := exists_registryEvent_of_exact hd hl
  have he := RegistryTopology.eventsOf_of_exact hd
  have hev : direct = topologyEvent event.fields.registryVersion event.objectHash event.fields := by
    have := RegistryTopology.mem_of_exact hd
    cases direct
    simp_all [topologyEvent]
  exact ⟨he.trans (congrArg ([·]) hev), nextVersion_eq_some hv, hp⟩

/-- The candidate for the one direct successor. -/
theorem describes_of_successorCandidate (hp : ∀ pin ∈ trust.pinnedHead, Pinned trust pin line)
    (hv : nextVersion trust.pinnedHead = some version)
    (hd : (RegistryTopology.build trust).exact version
      (trust.pinnedHead.map (·.registryHeadHash)) = .ok (some direct))
    (hl : loadRegistryEvent trust.catalog direct.objectHash = .ok event)
    (h : successorCandidate trust line event sequence address = .ok candidate) :
    Describes trust candidate ∧ candidate.fallbackBarrier = none := by
  have hh := (exists_registryEvent_of_exact hd hl).1
  simp only [successorCandidate, ok_iff] at h
  obtain ⟨⟨_, _⟩, -, _, -, rfl⟩ := h
  refine ⟨⟨rfl, rfl, rfl, rfl, ?_, ?_, fun _ => succeeds_of_exact hv hd hl,
    fun _ => rfl, by simp⟩, rfl⟩
  · rw [loadRegistryEvent, okOr_eq_ok, ← hh] at hl
    exact ⟨event, hl, rfl⟩
  · intro _ ha
    simp only [Option.mem_def, Option.map_eq_some_iff] at ha
    obtain ⟨pin, hpi, rfl⟩ := ha
    exact ⟨pin, line, hp pin hpi, rfl⟩

end

theorem pinned_of_pinnedLine (h : pinnedLine trust = .ok line) :
    ∀ pin ∈ trust.pinnedHead, Pinned trust pin line := by
  intro pin hp
  rw [pinnedLine, hp] at h
  obtain ⟨hpo, -, hl, hh⟩ := replayToPin_eq_ok.mp h
  exact ⟨hp, hpo, hl, hh⟩

/-- The two ways to a candidate. -/
theorem verifyRegistryCandidate_cases
    (h : verifyRegistryCandidate trust sequence address = .ok candidate) :
    ∃ line version direct, pinnedLine trust = .ok line ∧
      nextVersion trust.pinnedHead = some version ∧
      (RegistryTopology.build trust).exact version (trust.pinnedHead.map (·.registryHeadHash))
        = .ok direct ∧
      ((∃ pin, trust.pinnedHead = some pin ∧
          currentCandidate trust line.state pin sequence address = .ok candidate ∧
          (direct = none → (RegistryTopology.build trust).hasLaterThan version = false) ∧
          ∀ found ∈ direct, ∃ event, loadRegistryEvent trust.catalog found.objectHash = .ok event ∧
            sequence < event.fields.effectiveFromSequence) ∨
        ∃ found event, direct = some found ∧
          loadRegistryEvent trust.catalog found.objectHash = .ok event ∧
          successorCandidate trust line event sequence address = .ok candidate) := by
  simp only [verifyRegistryCandidate, ok_iff] at h
  obtain ⟨-, -, line, hli, version, hv, direct, hd, h⟩ := h
  refine ⟨line, version, direct, hli, hv, hd, ?_⟩
  cases direct with
  | none =>
    simp only [ok_iff, Bool.not_eq_true'] at h
    obtain ⟨-, hl, pin, hp, h⟩ := h
    exact .inl ⟨pin, hp, h, fun _ => hl, by simp⟩
  | some direct =>
    simp only [bind_eq_ok] at h
    obtain ⟨event, hlo, h⟩ := h
    split at h
    next hl =>
      simp only [ok_iff] at h
      obtain ⟨pin, hp, h⟩ := h
      exact .inl ⟨pin, hp, h, by simp, by simpa using ⟨event, hlo, hl⟩⟩
    next => exact .inr ⟨direct, event, rfl, hlo, h⟩

/-- **What `verifyRegistryCandidate` establishes.** -/
theorem describes_of_verifyRegistryCandidate
    (h : verifyRegistryCandidate trust sequence address = .ok candidate) :
    Describes trust candidate ∧ candidate.fallbackBarrier = none := by
  obtain ⟨_, _, _, hl, hv, hdi, hc⟩ := verifyRegistryCandidate_cases h
  have hp := pinned_of_pinnedLine hl
  rcases hc with ⟨pin, hpi, h, -⟩ | ⟨_, _, rfl, hlo, h⟩
  · have hd := describes_of_currentCandidate (hp pin hpi) h
    exact ⟨hd.1, hd.2.1⟩
  · exact describes_of_successorCandidate hp hv hdi hlo h

/-- The version of the pin; zero without one. -/
def pinnedBase (trust : VerifiedTrust) : Nat := trust.pinnedHead.elim 0 (·.registryVersion)

theorem pinnedBase_eq (h : trust.pinnedHead = some pin) :
    pinnedBase trust = pin.registryVersion := by
  rw [pinnedBase, h, Option.elim_some]

/-- The pinned line and the version that follows it. -/
theorem lineAt_of_pinnedLine (h : pinnedLine trust = .ok line)
    (hv : nextVersion trust.pinnedHead = some version) :
    version = pinnedBase trust + 1 ∧ version ≤ u64Max ∧
      lineAt trust (pinnedBase trust) = some line ∧
      previousHash (pinnedBase trust) line = trust.pinnedHead.map (·.registryHeadHash) := by
  have hp := pinned_of_pinnedLine h
  unfold pinnedLine at h
  unfold pinnedBase
  cases hpi : trust.pinnedHead with
  | none =>
    simp only [hpi, nextVersion, Option.some.injEq, Except.ok.injEq] at h hv
    subst h hv
    exact ⟨rfl, by decide, rfl, rfl⟩
  | some pin =>
    rw [hpi] at hv
    obtain ⟨rfl, hle⟩ := checkedAdd_eq_some.mp hv
    obtain ⟨-, hpo, hl, hh⟩ := hp pin hpi
    exact ⟨rfl, hle, hl, by simp [previousHash, hh, Nat.one_le_iff_ne_zero.mp hpo]⟩

/-- A replayed version has one event, the head of the line. -/
theorem eventsOf_of_lineAt (h : lineAt trust (version + 1) = some line) :
    ∃ event, (RegistryTopology.build trust).eventsOf (version + 1) = [event] ∧
      event.objectHash = line.state.registryHeadHash := by
  obtain ⟨_, _, -, hr⟩ := lineAt_succ_eq_some.mp h
  obtain ⟨found, hf, hh, -⟩ := replayVersion_eq_some_iff.mp hr
  exact ⟨found, RegistryTopology.eventsOf_of_exact hf,
    hh.trans (registryHeadHash_of_replayVersion hr).symm⟩

/-- **No version is skipped and no fork is passed.**  Under a candidate every version up to the pin
has one event and the next one at most one, the pinned hash is that of its version, and the state is
the replayed one.  The candidate is the pin, while nothing follows it or what follows is not yet
effective, or it is the one event of the next version. -/
theorem candidate_neither_skips_nor_forks
    (h : verifyRegistryCandidate trust sequence address = .ok candidate) :
    let topology := RegistryTopology.build trust
    let next := topology.eventsOf (pinnedBase trust + 1)
    (∀ version, 1 ≤ version → version ≤ pinnedBase trust →
      ∃ event, topology.eventsOf version = [event]) ∧
    (∀ pin ∈ trust.pinnedHead, ∀ event ∈ topology.eventsOf pin.registryVersion,
      event.objectHash = pin.registryHeadHash) ∧
    next.length ≤ 1 ∧
    (∃ line, replayToPin trust topology ⟨candidate.registryVersion, candidate.registryHeadHash⟩
      = .ok line ∧ candidate.candidateState.value = line.state) ∧
    ((trust.pinnedHead = some ⟨candidate.registryVersion, candidate.registryHeadHash⟩ ∧
        (∀ event ∈ next, ∃ fields, HoldsEvent trust event.objectHash fields ∧
          sequence < fields.effectiveFromSequence) ∧
        (next = [] → ∀ event ∈ topology.events, event.registryVersion ≤ pinnedBase trust)) ∨
      Succeeds trust trust.pinnedHead
        (topologyEvent candidate.registryVersion candidate.registryHeadHash
          candidate.headEvent)) := by
  obtain ⟨line, _, direct, hpinnedLine, hv, hd, hc⟩ := verifyRegistryCandidate_cases h
  obtain ⟨rfl, hle, hli, hpr⟩ := lineAt_of_pinnedLine hpinnedLine hv
  have hp := pinned_of_pinnedLine hpinnedLine
  have hne := RegistryTopology.eventsOf_of_exact hd
  dsimp only
  rw [hne]
  refine ⟨fun version hpo hb => ?_, fun pin hpi event hev => ?_, ?_, ?_⟩
  · obtain ⟨_, hat⟩ := exists_lineAt_of_le hli hb
    obtain ⟨version, rfl⟩ := Nat.exists_eq_add_of_le' hpo
    obtain ⟨event, he, -⟩ := eventsOf_of_lineAt hat
    exact ⟨event, he⟩
  · obtain ⟨-, hpo, hat, hhe⟩ := hp pin hpi
    obtain ⟨version, hs⟩ := Nat.exists_eq_add_of_le' hpo
    rw [hs] at hat hev
    obtain ⟨_, he, hh⟩ := eventsOf_of_lineAt hat
    rw [he, List.mem_singleton] at hev
    rw [hev, hh, hhe]
  · cases direct <;> simp
  rcases hc with ⟨pin, hpi, h, hl, hpe⟩ | ⟨found, event, rfl, hlo, h⟩
  · obtain ⟨-, hpo, hat, hhe⟩ := hp pin hpi
    simp only [currentCandidate, ok_iff] at h
    obtain ⟨-, -, _, -, _, -, rfl⟩ := h
    rw [pinnedBase_eq hpi] at hle
    refine ⟨⟨line, replayToPin_eq_ok.mpr ⟨hpo, Nat.le_of_succ_le hle, hat, hhe⟩, rfl⟩,
      .inl ⟨hpi, fun event hev => ?_, fun hn event hev => ?_⟩⟩
    · obtain ⟨event', hlo, hlt⟩ := hpe event (Option.mem_toList.mp hev)
      exact ⟨_, ⟨event', okOr_eq_ok.mp hlo, rfl⟩, hlt⟩
    · have hn : direct = none := by simpa using hn
      have hal := hl hn
      rw [hn] at hne
      simp only [RegistryTopology.hasLaterThan, RegistryTopology.eventsOf, List.any_eq_false,
        List.filter_eq_nil_iff, Option.toList_none, decide_eq_true_eq] at hal hne
      have := hal event hev
      have := hne event hev
      omega
  · obtain ⟨hh, hnu, -⟩ := exists_registryEvent_of_exact hd hlo
    simp only [successorCandidate, ok_iff] at h
    obtain ⟨⟨_, after⟩, ha, _, -, rfl⟩ := h
    have hr : replayVersion trust (RegistryTopology.build trust) (pinnedBase trust + 1)
        (previousHash (pinnedBase trust) line) line = .ok (some (found.objectHash, after)) :=
      replayVersion_eq_some_iff.mpr ⟨found, hpr ▸ hd, rfl, event, hlo, _, ha⟩
    refine ⟨⟨after, replayToPin_eq_ok.mpr ?_, rfl⟩, .inr (succeeds_of_exact hv hd hlo)⟩
    dsimp only
    rw [hnu, hh]
    exact ⟨by omega, hle, lineAt_succ_eq_some.mpr ⟨line, _, hli, hr⟩,
      registryHeadHash_of_replayVersion hr⟩

omit [Crypto] in
/-- The pinned head of `organization` is the one event of its version. -/
theorem candidate_neither_skips_nor_forks_pinned :
    let := tableCrypto organization
    ∃ trust candidate, verifyRegistryCandidate trust 5 0 = .ok candidate ∧
      ∀ event ∈ (RegistryTopology.build trust).eventsOf 3, event.objectHash = 32 := by
  intro _
  have hr : ((verifyTrust organizationAnchor (tableSource organizationNames)
      ⟨⟨1, 2⟩, ⟨0, .initial 0, some ⟨3, 32⟩⟩⟩).toOption.any fun trust =>
        decide (trust.pinnedHead = some ⟨3, 32⟩) && (verifyRegistryCandidate trust 5 0).isOk)
      = true := by decide +kernel
  obtain ⟨trust, -, h⟩ := (Option.any_eq_true _ _).mp hr
  rw [Bool.and_eq_true, decide_eq_true_eq] at h
  obtain ⟨hp, hok⟩ := h
  cases hc : verifyRegistryCandidate trust 5 0 with
  | error e => simp [hc, Except.isOk, Except.toBool] at hok
  | ok candidate =>
    exact ⟨trust, candidate, hc, (candidate_neither_skips_nor_forks hc).2.1 ⟨3, 32⟩ (by simp [hp])⟩

/-- **What the fallback establishes**, for a pending successor of the version after the pin. -/
theorem describes_of_verifyCurrentHeadFallback {pend : PendingFutureSuccessor}
    (hn : ∀ pin ∈ pend.pinnedHead, pend.candidateRegistryVersion = pin.registryVersion + 1)
    (h : verifyCurrentHeadFallback trust pend address = .ok candidate) :
    Describes trust candidate := by
  simp only [verifyCurrentHeadFallback, ok_iff] at h
  obtain ⟨-, ⟨-, -, -, hpi⟩, direct, hdi, -, hve, -, hh, -, ⟨hev, -, -⟩, -, -,
    pin, hpn, -, -, prev, hpr, _, hcu, rfl⟩ := h
  obtain ⟨hd, -⟩ := describes_of_verifyRegistryCandidate hdi
  obtain ⟨pin', _, hp, hv⟩ := hd.authority prev hpr
  obtain rfl : pin' = pin := by
    simpa [hp.pin_eq, hpn] using hpi
  rw [hv] at hcu
  obtain ⟨hcu, -, his, _⟩ := describes_of_currentCandidate hp hcu
  -- the verified candidate is the successor: its version is not that of the pin
  have hs : candidateIsCurrent direct = false := by
    by_contra hc
    have hdirectPin := originalPin_of_current (Bool.not_eq_false _ ▸ hc)
    rw [hd.pin, hp.pin_eq, Option.some.injEq] at hdirectPin
    have hpinVersion : pin'.registryVersion = direct.registryVersion := by rw [hdirectPin]
    have := hn pin' hpn
    omega
  refine ⟨hcu.key, hcu.revision, hcu.time, hcu.pin, hcu.event,
    hcu.authority, fun hno => hcu.succeeds hno, fun hno => ?_, ?_⟩
  · exact absurd his (ne_true_of_eq_false hno)
  rintro _ ⟨⟩
  dsimp only
  rw [← hve, ← hh, ← hev]
  exact ⟨hd.event, hd.succeeds hs⟩

/-! ## 2. Local time -/

omit [Crypto] in
theorem before_foldl_mergeSource (merged : MergedTime) (srcs : List VerifiedSignedTime) :
    merged.nextTrustedTime.Before (srcs.foldl mergeSource merged).nextTrustedTime := by
  induction srcs generalizing merged with
  | nil => exact .refl _
  | cons src srcs ih =>
    have hr : merged.nextTrustedTime.Before (mergeSource merged src).nextTrustedTime :=
      before_mergeIndependentReferences merged.nextTrustedTime [src.input]
    exact hr.trans (ih _)

/-- The merged time does not fall behind that of the candidate. -/
theorem before_of_mergeSources {srcs : List VerifiedSignedTime}
    (h : mergeSources store candidate srcs = .ok merged) :
    candidate.trustedTime.Before merged.nextTrustedTime := by
  simp only [mergeSources, ok_iff] at h
  obtain ⟨persisted, -, -, ⟨-, ht, -⟩, -, -, rfl⟩ := h
  rw [← ht]
  exact before_foldl_mergeSource ⟨persisted.trustedTime, false⟩ srcs

/-- A merged time is committed at the revision of the candidate, or nothing is written. -/
theorem commitMerged_cases (h : commitMerged store candidate merged = .ok (next, revision, time)) :
    (candidate.stateKey = store.key ∧ candidate.stateRevision = store.revision ∧
      next = { store with
        revision := store.revision + 1, trustedTime := merged.nextTrustedTime } ∧
      revision = next.revision ∧ time = next.trustedTime) ∨
    (next = store ∧ revision = candidate.stateRevision ∧ time = candidate.trustedTime) := by
  unfold commitMerged at h
  split at h
  · simp only [ok_iff, commitIndependentTime_eq_ok] at h
    obtain ⟨_, ⟨hk, hr, -, -, rfl⟩, -, -, rfl, rfl, rfl⟩ := h
    exact .inl ⟨hk, hr, rfl, rfl, rfl⟩
  · obtain ⟨rfl, rfl, rfl⟩ := h
    exact .inr ⟨rfl, rfl, rfl⟩

theorem localTimeBlock_eq_ok {clock : Int} {block : LocalTimeBlock}
    (h : localTimeBlock candidate revision time clock = .ok block) :
    block.expectedRevision = revision ∧ block.trustedTime = time ∧
      block.pinnedHead = candidate.originalPin ∧ time.floor ≤ block.evaluation.rawNow := by
  simp only [localTimeBlock, ok_iff] at h
  obtain ⟨_, he, rfl⟩ := h
  exact ⟨rfl, rfl, rfl, floor_le_rawNow he⟩

/-! ## 3. Releases and commits -/

theorem pins_of_candidateBlockMatches : candidateBlockMatches candidate localTime = true →
      candidate.stateKey = localTime.stateKey ∧ candidate.originalPin = localTime.pinnedHead ∧
      candidate.registryVersion = localTime.candidateRegistryVersion := by
  simp only [candidateBlockMatches, Bool.and_eq_true, decide_eq_true_eq]
  rintro ⟨⟨⟨⟨⟨⟨⟨⟨-, hk⟩, -⟩, hp⟩, hv⟩, -⟩, -⟩, -⟩, -⟩
  exact ⟨hk, hp, hv⟩

/-- A verified release carries the replay key of its audit. -/
theorem replayKey_of_verifyClockRelease [LocalAudits] {bytes : Bytes}
    {release : VerifiedClockRelease}
    (h : verifyClockRelease store candidate localTime bytes = .ok release) :
    release.replayKey = .fromVerifiedAudit release.audit := by
  simp only [verifyClockRelease, ok_iff] at h
  obtain ⟨-, -, _, -, _, -, _, -, -, -, -, -, -, -, rfl⟩ := h
  rfl

/-- A selection uses a release only for a blocked clock, and one of its own device. -/
theorem requireReleasePairing_eq_ok {rkey : Option ClockReleaseReplayKey}
    (h : requireReleasePairing candidate localTime release = .ok rkey) :
    ∀ key ∈ rkey, localTime.evaluation.futureSkew = .blocked ∧
      ∃ used ∈ release, used.replayKey = key ∧
        used.audit.organizationId = candidate.stateKey.organizationId ∧
        used.audit.targetDeviceId = candidate.stateKey.deviceId := by
  intro key hk
  unfold requireReleasePairing at h
  split at h
  · next used hs =>
      simp only [map_eq_ok, intoSelectionReplayKey, ok_iff] at h
      obtain ⟨_, ⟨-, hm, rfl⟩, rfl⟩ := h
      obtain rfl : used.replayKey = key := by simpa using hk
      obtain ⟨-, -, -, -, -, -, -, -, -, -, -, -, -, -, ho, hd, -⟩ := hm
      exact ⟨hs, used, rfl, rfl, ho, hd⟩
  all_goals cases h; try simp at hk

/-- The comparison after the commit never fails. -/
theorem commitSelection_eq_ok {commit : RegistrySelectionCommit} :
    commitSelection store localTime commit = .ok next ↔
      store.commitRegistrySelection localTime.stateKey localTime.expectedRevision commit =
        .ok next := by
  simp only [commitSelection, ok_iff, liftTrust_eq_ok]
  constructor
  · rintro ⟨_, h, -, -, rfl⟩
    exact h
  · intro h
    obtain ⟨-, hr, -, -, -, -, rfl⟩ := commitRegistrySelection_eq_ok.mp h
    exact ⟨_, h, (), by simp [hr], rfl⟩

/-! ## 4. Selections -/

/-- The time of a successor has come. -/
def Ready (candidate : RegistryCandidate) (rawNow : Int) : Prop :=
  candidate.headEvent.issuedAt ≤ rawNow ∧ candidate.headEvent.notBefore ≤ rawNow

/-- How a selection succeeds: it affirms the pinned head, or it finds that the time of the
successor has not come, or it moves to the successor. -/
inductive SelectionCase (store : EphemeralTrustStateStore) (candidate : RegistryCandidate)
    (localTime : LocalTimeBlock) (replayKey : Option ClockReleaseReplayKey) :
    EphemeralTrustStateStore → RegistrySelectionOutcome → Prop
  | current (next : EphemeralTrustStateStore) (pin : RegistryHeadPin)
      (isCurrent : candidateIsCurrent candidate = true)
      (barrier : requireBarrier candidate.fallbackBarrier candidate.registryVersion
        candidate.registryHeadHash localTime.evaluation.rawNow = .ok ())
      (fresh : isStale candidate localTime.evaluation.rawNow = false)
      (leased : leaseMiss candidate = false) (pin_eq : candidate.originalPin = some pin)
      (commit : store.commitRegistrySelection localTime.stateKey localTime.expectedRevision
        (.compareAndAffirm localTime.trustedTime pin replayKey) = .ok next) :
      SelectionCase store candidate localTime replayKey next
        (.selected (selectedHead candidate localTime next.revision localTime.trustedTime.floor))
  | pending (previous : Arc PreviousHeadState) (notCurrent : candidateIsCurrent candidate = false)
      (early : ¬ Ready candidate localTime.evaluation.rawNow) :
      SelectionCase store candidate localTime replayKey store
        (.pendingFuture (pendingSuccessor candidate localTime previous))
  | advanced (next : EphemeralTrustStateStore) (notCurrent : candidateIsCurrent candidate = false)
      (ready : Ready candidate localTime.evaluation.rawNow)
      (missed : isStale candidate localTime.evaluation.rawNow = true ∨ leaseMiss candidate = true)
      (commit : store.commitRegistrySelection localTime.stateKey localTime.expectedRevision
        (.advanceHead (advanceRegistryFloor localTime.trustedTime candidate.headEvent.issuedAt
          candidate.headEvent.notBefore)
          ⟨candidate.registryVersion, candidate.registryHeadHash⟩ replayKey) = .ok next) :
      SelectionCase store candidate localTime replayKey next (.advanced
        ⟨candidate.registryVersion, candidate.registryHeadHash, next.revision⟩)
  | successor (next : EphemeralTrustStateStore) (floor : Int)
      (notCurrent : candidateIsCurrent candidate = false)
      (ready : Ready candidate localTime.evaluation.rawNow)
      (fresh : isStale candidate localTime.evaluation.rawNow = false)
      (leased : leaseMiss candidate = false)
      (commit : store.commitRegistrySelection localTime.stateKey localTime.expectedRevision
        (.advanceHead (advanceRegistryFloor localTime.trustedTime candidate.headEvent.issuedAt
          candidate.headEvent.notBefore)
          ⟨candidate.registryVersion, candidate.registryHeadHash⟩ replayKey) = .ok next) :
      SelectionCase store candidate localTime replayKey next
        (.selected (selectedHead candidate localTime next.revision floor))

/-- **The ways a selection succeeds.** -/
theorem selectRegistryHead_cases {outcome : RegistrySelectionOutcome}
    (h : selectRegistryHead store candidate localTime release = .ok (next, outcome)) :
    candidateBlockMatches candidate localTime = true ∧
      ∃ rkey, requireReleasePairing candidate localTime release = .ok rkey ∧
        SelectionCase store candidate localTime rkey next outcome := by
  simp only [selectRegistryHead, requireCandidateLocalTime, ok_iff] at h
  obtain ⟨-, hm, rkey, hp, h⟩ := h
  refine ⟨hm, rkey, hp, ?_⟩
  split at h
  · next hcu =>
      simp only [selectCurrent, ok_iff, commitSelection_eq_ok, Bool.not_eq_true'] at h
      obtain ⟨⟨⟩, hb, -, hf, -, hl, pin, hpi, _, hc, rfl, rfl⟩ := h
      exact .current _ pin hcu hb hf hl hpi hc
  · next hcu =>
      have hcu : candidateIsCurrent candidate = false := by simpa using hcu
      split at h
      · next he =>
          simp only [selectPending, ok_iff] at h
          obtain ⟨prev, -, -, -, rfl, rfl⟩ := h
          exact .pending prev hcu fun hr => by
            have := hr.1
            have := hr.2
            omega
      · next hr =>
          have hr : Ready candidate localTime.evaluation.rawNow := by
            simp only [not_or, not_lt] at hr
            exact hr
          simp only [selectSuccessor, bind_eq_ok, commitSelection_eq_ok] at h
          obtain ⟨_, hc, h⟩ := h
          split at h
          · next hms =>
              obtain ⟨rfl, rfl⟩ := h
              exact .advanced _ hcu hr (by simpa using hms) hc
          · next hms =>
              obtain ⟨rfl, rfl⟩ := h
              simp only [Bool.or_eq_true, not_or, Bool.not_eq_true] at hms
              exact .successor _ _ hcu hr hms.1 hms.2 hc

/-- A stale writer affirms the pinned head. -/
theorem selectStaleWriterRegistryHead_eq_ok {head : SelectedRegistryHead}
    (h : selectStaleWriterRegistryHead store candidate localTime = .ok (next, head)) :
    candidate.originalPin = localTime.pinnedHead ∧ ∃ pin, candidate.originalPin = some pin ∧
      store.commitRegistrySelection localTime.stateKey localTime.expectedRevision
        (.compareAndAffirm localTime.trustedTime pin none) = .ok next := by
  simp only [selectStaleWriterRegistryHead, requireCandidateLocalTime, ok_iff,
    commitSelection_eq_ok] at h
  obtain ⟨-, hm, _, -, -, -, -, -, -, -, _, -, -, -, pin, hp, _, hc, rfl, -⟩ := h
  exact ⟨(pins_of_candidateBlockMatches hm).2.1, pin, hp, hc⟩

/-- A fresh time affirms the pinned head. -/
theorem reauthenticationTime_eq_ok {sel : SelectedRegistryHead} {now : PreexistingEffectiveNow}
    (h : reauthenticationTime store localTime sel = .ok (next, now)) :
    ∃ pin, localTime.pinnedHead = some pin ∧
      store.commitRegistrySelection localTime.stateKey localTime.expectedRevision
        (.compareAndAffirm localTime.trustedTime pin none) = .ok next := by
  simp only [reauthenticationTime, ok_iff, commitSelection_eq_ok] at h
  obtain ⟨-, -, -, -, -, -, -, -, pin, hp, _, hc, rfl, -⟩ := h
  exact ⟨pin, hp, hc⟩

end Einsatzarchiv.Trust
