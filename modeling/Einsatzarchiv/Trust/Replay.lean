/-
  File:      Einsatzarchiv/Trust/Replay.lean
  Subject:   What a replayed line of registry events establishes.

  * `Applied`: the one inversion of `verifyAndApplyRegistryEvent`.
  * `lineAt`: the line after the first `version` events; both replay loops compute it
    (`replayToPin_eq_ok`, `replayToLineTip_eq_ok`).
  * `lease_line`: the leases along a line form a `Lease.Line`.
-/
import Einsatzarchiv.Lib.Lease
import Einsatzarchiv.Trust.Registry

namespace Einsatzarchiv.Trust

open Lib Format Time

variable [Crypto]

/-! ## 1. One event -/

/-- The state after an event whose effect was applied. -/
def PreviousHeadState.headedBy (state : PreviousHeadState) (event : RegistryEvent) :
    PreviousHeadState :=
  { state with
    registryVersion := event.fields.registryVersion
    registryHeadHash := event.objectHash
    effectiveFromSequence := event.fields.effectiveFromSequence
    validThroughSequence := event.fields.validThroughSequence
    headEvent := some event.fields }

/-- What the success of `verifyAndApplyRegistryEvent` establishes. -/
structure Applied (trust : VerifiedTrust) (line : Line) (event : RegistryEvent) (sequence : Nat)
    (line' : Line) (effect : TransitionEffect) (policy : ResolvedPolicy)
    (applied : PreviousHeadState) (replay : AdminAuthorizationReplay) : Prop where
  organization : event.fields.organizationId = trust.organizationId
  lease : event.fields.effectiveFromSequence ≤ event.fields.validThroughSequence
  judgedAt : judgedSequence line.state event.fields.effectiveFromSequence = .ok sequence
  prepared : prepareEffect trust line.state event sequence line.replay = .ok (effect, replay)
  policy_eq : targetPolicy line.state effect = some policy
  policyObjectHash : event.fields.policyObjectHash = policy.objectHash
  timeShape : validateEventTimeShape event.fields policy.fields = .ok ()
  authorized : verifyBoundAuthorization line.state event.authorizationObjectHash event.objectHash
    event.fields.issuedAt sequence replay = .ok line'.replay
  apply_eq : applyEffect line.state effect event.fields.effectiveFromSequence = .ok applied
  state_eq : line'.state = applied.headedBy event

variable {trust : VerifiedTrust} {line line' : Line} {event : RegistryEvent}
  {sequence targetKind effectiveFrom version : Nat} {state : PreviousHeadState}
  {oh : ObjectHash} {effect : TransitionEffect} {topology : RegistryTopology}
  {previous : Option Hash32}

theorem verifyAndApplyRegistryEvent_eq_ok
    (h : verifyAndApplyRegistryEvent trust line event = .ok (sequence, line')) :
    ∃ effect pol applied replay,
      Applied trust line event sequence line' effect pol applied replay := by
  simp only [verifyAndApplyRegistryEvent, ok_iff] at h
  obtain ⟨-, ⟨ho, -⟩, -, hl, _, hse, -, -, ⟨effect, replay⟩, hp, pol, hpo,
    -, hh, ⟨⟩, hs, _, hau, applied, ha, rfl, rfl⟩ := h
  exact ⟨effect, pol, applied, replay, ho, hl, hse, hp, hpo, hh, hs, hau, ha, rfl⟩

/-- What an effect makes of a state. -/
inductive Effected (state : PreviousHeadState) (revokedFrom : Nat) :
    TransitionEffect → PreviousHeadState → Prop
  | activateCertificate {certificate : ActiveCertificate}
      (fresh : state.certificates[certificate.objectHash]? = none) :
      Effected state revokedFrom (.activateCertificate certificate) { state with
        certificates := state.certificates.insert certificate.objectHash certificate
        adminCertificates :=
          if certificate.fields.certificateKind = .organizationAdmin then
            state.adminCertificates.insert certificate.objectHash certificate
          else state.adminCertificates
        currentWriterCertificateHash :=
          if certificate.fields.certificateKind = .writer
              ∧ state.currentWriterCertificateHash.isNone then some certificate.objectHash
          else state.currentWriterCertificateHash }
  | revokeCertificate {hash : CertificateHash} {certificate : ActiveCertificate}
      (held : state.certificates[hash]? = some certificate) :
      Effected state revokedFrom (.revokeCertificate hash) { state with
        certificates := state.certificates.insert hash (revokeAt certificate revokedFrom)
        adminCertificates := match state.adminCertificates[hash]? with
          | some admin => state.adminCertificates.insert hash (revokeAt admin revokedFrom)
          | none => state.adminCertificates }
  | writerTransition {transition : EffectiveWriterTransition} {old : ActiveCertificate}
      (held : state.certificates[transition.oldWriterCertificateHash]? = some old) :
      Effected state revokedFrom (.writerTransition transition) { state with
        certificates := state.certificates.insert transition.oldWriterCertificateHash
          (revokeAt old transition.effectiveFromSequence)
        currentWriterCertificateHash := some transition.newWriterCertificateHash
        writerTransition := some transition }
  | revokeBinding {hash : ObjectHash} {bindings : Std.TreeMap ObjectHash ActiveOperatorBinding} :
      Effected state revokedFrom (.revokeBinding hash) { state with adminBindings := bindings }
  | activateBinding {binding : ActiveOperatorBinding}
      {bindings : Std.TreeMap ObjectHash ActiveOperatorBinding} :
      Effected state revokedFrom (.activateBinding binding) { state with adminBindings := bindings }
  | policy {policy : ResolvedPolicy} :
      Effected state revokedFrom (.policy policy) { state with policy := some policy }
  | root {root : RootAuthority} : Effected state revokedFrom (.root root) { state with root }

variable {revokedFrom : Nat} {found : TopologyEvent} {applied : PreviousHeadState}
  {hash : ObjectHash}

theorem effected_of_applyEffect (h : applyEffect state effect revokedFrom = .ok applied) :
    Effected state revokedFrom effect applied := by
  unfold applyEffect at h
  cases effect with
  | activateCertificate _ =>
    simp only [ok_iff, Bool.not_eq_true'] at h
    obtain ⟨⟨⟩, -, -, hn, -, -, rfl⟩ := h
    refine .activateCertificate ?_
    rwa [Std.TreeMap.contains_eq_isSome_getElem?, Option.isSome_eq_false_iff,
      Option.isNone_iff_eq_none] at hn
  | revokeCertificate =>
    simp only [ok_iff] at h
    obtain ⟨_, hh, rfl⟩ := h
    exact .revokeCertificate hh
  | writerTransition =>
    simp only [okOr_eq_ok, PreviousHeadState.applyWriterTransition, Option.map_eq_some_iff] at h
    obtain ⟨_, hh, rfl⟩ := h
    exact .writerTransition hh
  | revokeBinding =>
    simp only [ok_iff] at h
    obtain ⟨_, -, rfl⟩ := h
    exact .revokeBinding
  | activateBinding =>
    simp only [ok_iff] at h
    obtain ⟨_, -, rfl⟩ := h
    exact .activateBinding
  | policy =>
    obtain rfl := pure_eq_ok.mp h
    exact .policy
  | root =>
    obtain rfl := pure_eq_ok.mp h
    exact .root

/-- What an event may do to the state it is applied to, at the sequence it was judged at. -/
def EffectAllowed (state : PreviousHeadState) (sequence effectiveFrom : Nat) :
    TransitionEffect → Prop
  | .revokeCertificate hash =>
    (∃ certificate, state.certificates[hash]? = some certificate ∧
      certificateActive certificate sequence ∧
      (certificate.fields.certificateKind = .writer →
        state.currentWriterCertificateHash ≠ some hash)) ∨
    (∃ certificate, state.adminCertificates[hash]? = some certificate ∧
      certificate.fields.certificateKind = .organizationAdmin)
  | .writerTransition transition =>
    transition.effectiveFromSequence = effectiveFrom ∧
    transition.oldWriterCertificateHash ≠ transition.newWriterCertificateHash ∧
    state.currentWriterCertificateHash = some transition.oldWriterCertificateHash ∧
    (∃ old, state.certificates[transition.oldWriterCertificateHash]? = some old ∧
      old.fields.certificateKind = .writer ∧ certificateActive old sequence) ∧
    (∃ new, state.certificates[transition.newWriterCertificateHash]? = some new ∧
      new.fields.certificateKind = .writer ∧ certificateActive new effectiveFrom)
  | _ => True

omit [Crypto] in
theorem revocationClass_writer (h : revocationClass targetKind .writer = true) :
    targetKind = 0 := by
  unfold revocationClass at h
  split at h <;> simp_all

theorem effectAllowed_of_prepareRevocation
    (h : prepareRevocation state targetKind oh sequence = .ok effect) :
    EffectAllowed state sequence effectiveFrom effect := by
  unfold prepareRevocation at h
  split at h
  iterate 2
    simp only [ok_iff] at h
    obtain ⟨cert, hg, -, ⟨hc, ha⟩, -, _, rfl⟩ := h
    refine .inl ⟨cert, hg, ha, fun hk hcu => ?_⟩
    rw [hk] at hc
    have := revocationClass_writer hc
    simp_all
  · simp only [ok_iff] at h
    obtain ⟨_, -, -, -, rfl⟩ := h
    trivial
  · simp at h

theorem effectAllowed_of_prepareAdminChange {change : Nat}
    {replay replay' : AdminAuthorizationReplay}
    (h : prepareAdminChange trust state event oh change sequence replay =
      .ok (effect, replay')) : EffectAllowed state sequence effectiveFrom effect := by
  unfold prepareAdminChange at h
  split at h
  · simp only [ok_iff] at h
    obtain ⟨_, -, _, -, _, -, _, -, _, -, rfl, -⟩ := h
    trivial
  · simp only [ok_iff] at h
    obtain ⟨cert, hg, -, ⟨hk, -⟩, rfl, -⟩ := h
    exact .inr ⟨cert, hg, hk⟩
  · simp at h

theorem validateWriterTransitionTarget_eq_ok {fields : WriterTransitionFields} {cid : ChainId}
    {org : OrganizationId}
    (h : validateWriterTransitionTarget state fields cid org effectiveFrom sequence = .ok ()) :
    fields.effectiveFromSequence = effectiveFrom ∧
      fields.oldWriterCertificateHash ≠ fields.newWriterCertificateHash ∧
      state.currentWriterCertificateHash = some fields.oldWriterCertificateHash ∧
      (∃ old, state.certificates[fields.oldWriterCertificateHash]? = some old ∧
        old.fields.certificateKind = .writer ∧ certificateActive old sequence) ∧
      (∃ new, state.certificates[fields.newWriterCertificateHash]? = some new ∧
        new.fields.certificateKind = .writer ∧ certificateActive new effectiveFrom) := by
  simp only [validateWriterTransitionTarget, ok_iff] at h
  obtain ⟨-, ⟨-, -, he, hne⟩, old, hold, -, hold', new, hn, -, hnew', hc⟩ := h
  exact ⟨he, hne, hc, ⟨old, hold, hold'⟩, new, hn, hnew'⟩

theorem effectAllowed_of_prepareEffect {replay replay' : AdminAuthorizationReplay}
    (h : prepareEffect trust state event sequence replay = .ok (effect, replay')) :
    EffectAllowed state sequence event.fields.effectiveFromSequence effect := by
  simp only [prepareEffect] at h
  split at h
  case h_2 =>
    simp only [ok_iff] at h
    obtain ⟨_, h, rfl, -⟩ := h
    exact effectAllowed_of_prepareRevocation h
  case h_4 =>
    simp only [ok_iff] at h
    obtain ⟨_, -, ⟨⟩, h, _, -, rfl, -⟩ := h
    exact validateWriterTransitionTarget_eq_ok h
  case h_6 => exact effectAllowed_of_prepareAdminChange h
  -- the other effects only add to the state
  all_goals
    simp only [ok_iff] at h
    obtain ⟨_, -, h⟩ := h
    grind [EffectAllowed]

/-! ## 2. The line after each version -/

/-- The predecessor hash the event after a version has to name. -/
def previousHash (version : Nat) (line : Line) : Option Hash32 :=
  if version = 0 then none else some line.state.registryHeadHash

/-- The line after the events of the versions up to the given one. -/
def lineAt (trust : VerifiedTrust) : Nat → Option Line
  | 0 => some (Line.start trust)
  | version + 1 => do
      let line ← lineAt trust version
      let found ← (replayVersion trust (RegistryTopology.build trust) (version + 1)
        (previousHash version line) line).toOption
      found.map Prod.snd

omit [Crypto] in
theorem RegistryTopology.mem_of_exact (h : topology.exact version previous = .ok (some found)) :
    found ∈ topology.events ∧ found.registryVersion = version ∧
      found.previousRegistryHash = previous := by
  unfold RegistryTopology.exact at h
  split at h
  · simp at h
  · next event he =>
      split at h
      · next hp =>
          cases h
          have hm : found ∈ topology.events.filter (·.registryVersion = version) := by
            simp [he]
          rw [List.mem_filter, decide_eq_true_eq] at hm
          exact ⟨hm.1, hm.2, hp⟩
      · simp at h
  · simp at h

/-- An event of the topology is the event the catalog holds under its hash. -/
theorem exists_registryEvent_of_exact
    (h : (RegistryTopology.build trust).exact version previous = .ok (some found))
    (hl : loadRegistryEvent trust.catalog found.objectHash = .ok event) :
    event.objectHash = found.objectHash ∧ event.fields.registryVersion = version ∧
      event.fields.previousRegistryHash = previous ∧ found.registryVersion = version := by
  obtain ⟨hm, rfl, hp⟩ := RegistryTopology.mem_of_exact h
  simp only [RegistryTopology.build, List.mem_map, List.mem_filter] at hm
  obtain ⟨e, ⟨hm, -⟩, rfl⟩ := hm
  simp only [TrustCatalog.registryEvents, List.mem_filterMap] at hm
  obtain ⟨hash, -, hg⟩ := hm
  have hh : e.objectHash = hash := by
    unfold TrustCatalog.registryEvent at hg
    split at hg <;> simp_all
    exact hg ▸ rfl
  simp only [loadRegistryEvent, okOr_eq_ok, hh, hg, Option.some.injEq] at hl
  subst hl
  exact ⟨rfl, rfl, hp, rfl⟩

theorem replayVersion_eq_some_iff :
    replayVersion trust topology version previous line = .ok (some (hash, line')) ↔
      ∃ found, topology.exact version previous = .ok (some found) ∧ found.objectHash = hash ∧
        ∃ event, loadRegistryEvent trust.catalog hash = .ok event ∧
          ∃ sequence, verifyAndApplyRegistryEvent trust line event = .ok (sequence, line') := by
  simp only [replayVersion, bind_eq_ok]
  constructor
  · rintro ⟨found, hf, h⟩
    cases found with
    | none => simp at h
    | some found =>
      simp only [ok_iff, Option.some.injEq] at h
      obtain ⟨event, hl, ⟨sequence, _⟩, ha, rfl, rfl⟩ := h
      exact ⟨found, hf, rfl, event, hl, sequence, ha⟩
  · rintro ⟨found, hf, rfl, event, hl, sequence, ha⟩
    exact ⟨some found, hf, by simp [hl, ha]⟩

theorem replayVersion_eq_none_iff : replayVersion trust topology version previous line = .ok none ↔
      topology.exact version previous = .ok none := by
  simp only [replayVersion, bind_eq_ok]
  constructor
  · rintro ⟨found, hf, h⟩
    cases found with
    | none => exact hf
    | some found =>
      simp only [ok_iff] at h
      obtain ⟨_, -, _, -, h⟩ := h
      cases h
  · exact fun h => ⟨none, h, rfl⟩

section LineAt

theorem lineAt_zero : lineAt trust 0 = some (Line.start trust) := rfl

theorem lineAt_succ_eq_some : lineAt trust (version + 1) = some line' ↔
    ∃ line hash, lineAt trust version = some line ∧
      replayVersion trust (RegistryTopology.build trust) (version + 1)
        (previousHash version line) line = .ok (some (hash, line')) := by
  simp [lineAt, Option.bind_eq_some_iff]

/-- **One round of the replay**: it finds the one event of its version, which names the head of
the line so far, and applies it. -/
theorem exists_event_of_lineAt_succ (h : lineAt trust (version + 1) = some line') :
    ∃ line event sequence, lineAt trust version = some line ∧
      event.fields.registryVersion = version + 1 ∧
      event.fields.previousRegistryHash = previousHash version line ∧
      loadRegistryEvent trust.catalog event.objectHash = .ok event ∧
      verifyAndApplyRegistryEvent trust line event = .ok (sequence, line') := by
  obtain ⟨line, _, hl, h⟩ := lineAt_succ_eq_some.mp h
  obtain ⟨_, hf, rfl, event, hlo, sequence, ha⟩ := replayVersion_eq_some_iff.mp h
  obtain ⟨hh, hv, hp, -⟩ := exists_registryEvent_of_exact hf hlo
  exact ⟨line, event, sequence, hl, hv, hp, hh ▸ hlo, ha⟩

theorem exists_lineAt_of_le {v w : Nat} (h : lineAt trust w = some line) (hvw : v ≤ w) :
    ∃ line, lineAt trust v = some line := by
  induction w, hvw using Nat.le_induction generalizing line with
  | base => exact ⟨line, h⟩
  | succ w _ ih =>
    obtain ⟨line, _, hl, -⟩ := lineAt_succ_eq_some.mp h
    exact ih hl

/-- The head of the line carries the version it was replayed to. -/
theorem registryVersion_of_lineAt (h : lineAt trust version = some line) (hp : 1 ≤ version) :
    line.state.registryVersion = version := by
  obtain ⟨version, rfl⟩ := Nat.exists_eq_add_of_le' hp
  obtain ⟨_, _, _, -, hv, -, -, ha⟩ := exists_event_of_lineAt_succ h
  obtain ⟨_, _, _, _, applied⟩ := verifyAndApplyRegistryEvent_eq_ok ha
  simpa [applied.state_eq, PreviousHeadState.headedBy] using hv

end LineAt

/-! ## 3. The replay loops -/

section Loops

/-- The head after a round is the event the round found. -/
theorem registryHeadHash_of_replayVersion
    (h : replayVersion trust (RegistryTopology.build trust) version previous line =
      .ok (some (hash, line'))) : line'.state.registryHeadHash = hash := by
  obtain ⟨_, hf, rfl, _, hl, _, ha⟩ := replayVersion_eq_some_iff.mp h
  obtain ⟨_, _, _, _, applied⟩ := verifyAndApplyRegistryEvent_eq_ok ha
  rw [applied.state_eq]
  exact (exists_registryEvent_of_exact hf hl).1

variable {pin : RegistryHeadPin} {rest : Nat}

/-- The first round of the loop of `replayToPin`, and what is left after it. -/
theorem replayToPinFrom_eq_ok_iff :
    replayToPinFrom trust topology pin rest version previous line = .ok line' ↔
      ∃ hash next, replayVersion trust topology version previous line = .ok (some (hash, next)) ∧
        (version = pin.registryVersion → hash = pin.registryHeadHash) ∧
        match rest with
        | 0 => next = line'
        | rest + 1 => version + 1 ≤ u64Max ∧
            replayToPinFrom trust topology pin rest (version + 1) (some hash) next = .ok line' := by
  conv_lhs => unfold replayToPinFrom
  simp only [replayVersion_eq_some_iff, bind_eq_ok]
  constructor
  · rintro ⟨found, hf, h⟩
    cases found with
    | none => simp at h
    | some found =>
      simp only [ok_iff] at h
      obtain ⟨-, hp, event, hl, ⟨sequence, next⟩, ha, h⟩ := h
      refine ⟨found.objectHash, next, ⟨found, hf, rfl, event, hl, sequence, ha⟩, hp, ?_⟩
      cases rest with
      | zero => simpa using h
      | succ rest =>
        simp only [ok_iff, checkedAdd_eq_some] at h
        obtain ⟨_, ⟨rfl, hle⟩, h⟩ := h
        exact ⟨hle, h⟩
  · rintro ⟨_, next, ⟨found, hf, rfl, event, hl, sequence, ha⟩, hp, h⟩
    refine ⟨some found, hf, ?_⟩
    simp only [ok_iff]
    refine ⟨(), hp, event, hl, (sequence, next), ha, ?_⟩
    cases rest with
    | zero => simpa using h
    | succ rest =>
      simp only [ok_iff, checkedAdd_eq_some]
      exact ⟨version + 1, ⟨rfl, h.1⟩, h.2⟩

theorem replayToPinFrom_eq_ok (hli : lineAt trust version = some line)
    (hle : version + 1 ≤ u64Max) (hp : version + 1 + rest = pin.registryVersion) :
    replayToPinFrom trust (RegistryTopology.build trust) pin rest (version + 1)
        (previousHash version line) line = .ok line' ↔
      pin.registryVersion ≤ u64Max ∧ lineAt trust pin.registryVersion = some line' ∧
        line'.state.registryHeadHash = pin.registryHeadHash := by
  rw [replayToPinFrom_eq_ok_iff]
  induction rest generalizing version line with
  | zero =>
    rw [← hp, lineAt_succ_eq_some]
    constructor
    · rintro ⟨hash, next, hr, hh, rfl⟩
      refine ⟨hle, ⟨line, hash, hli, hr⟩, ?_⟩
      rw [registryHeadHash_of_replayVersion hr, hh rfl]
    · rintro ⟨-, ⟨l, hash, hl, hr⟩, hhe⟩
      obtain rfl : line = l := by simpa [hli] using hl
      exact ⟨hash, line', hr, fun _ => (registryHeadHash_of_replayVersion hr).symm.trans hhe, rfl⟩
  | succ rest ih =>
    constructor
    · rintro ⟨hash, next, hr, -, hle', h⟩
      have hn : lineAt trust (version + 1) = some next :=
        lineAt_succ_eq_some.mpr ⟨line, hash, hli, hr⟩
      refine (ih hn hle' (by omega)).mp (replayToPinFrom_eq_ok_iff.mp ?_)
      simpa [previousHash, registryHeadHash_of_replayVersion hr] using h
    · rintro ⟨hm, hat, hhe⟩
      obtain ⟨next, hn⟩ := exists_lineAt_of_le hat (v := version + 1) (by omega)
      obtain ⟨l, hash, hl, hr⟩ := lineAt_succ_eq_some.mp hn
      obtain rfl : line = l := by simpa [hli] using hl
      refine ⟨hash, next, hr, fun h => by omega, by omega, ?_⟩
      have := replayToPinFrom_eq_ok_iff.mpr ((ih hn (by omega) (by omega)).mpr ⟨hm, hat, hhe⟩)
      simpa [previousHash, registryHeadHash_of_replayVersion hr] using this

/-- **`replayToPin` succeeds exactly for the head of a version of the line.** -/
theorem replayToPin_eq_ok : replayToPin trust (RegistryTopology.build trust) pin = .ok line ↔
      1 ≤ pin.registryVersion ∧ pin.registryVersion ≤ u64Max ∧
        lineAt trust pin.registryVersion = some line ∧
        line.state.registryHeadHash = pin.registryHeadHash := by
  simp only [replayToPin, ok_iff, ← Nat.one_le_iff_ne_zero, exists_const]
  refine and_congr_right fun hp => ?_
  exact replayToPinFrom_eq_ok lineAt_zero (by decide) (by omega)

/-- The events a replay that has passed a version still has before it. -/
def RegistryTopology.later (topology : RegistryTopology) (version : Nat) : List TopologyEvent :=
  topology.events.filter (version < ·.registryVersion)

omit [Crypto] in
theorem RegistryTopology.length_later_succ_lt (hm : found ∈ topology.events)
    (hv : found.registryVersion = version + 1) :
    (topology.later (version + 1)).length < (topology.later version).length := by
  have hs : topology.later (version + 1) =
      (topology.later version).filter (version + 1 < ·.registryVersion) := by
    simp only [later, List.filter_filter]
    congr 1
    ext event
    grind
  rw [hs, List.length_filter_lt_length_iff_exists]
  exact ⟨found, List.mem_filter.mpr ⟨hm, by simp [hv]⟩, by simp [hv]⟩

/-- A line that nothing follows. -/
def IsTip (trust : VerifiedTrust) (version : Nat) (line : Line) : Prop :=
  lineAt trust version = some line ∧ version + 1 ≤ u64Max ∧
    (RegistryTopology.build trust).exact (version + 1) (previousHash version line) = .ok none ∧
    (RegistryTopology.build trust).hasLaterThan (version + 1) = false

theorem replayToLineTipFrom_eq_ok {rounds : Nat} (hli : lineAt trust version = some line)
    (hle : version + 1 ≤ u64Max)
    (hrn : ((RegistryTopology.build trust).later version).length < rounds) :
    replayToLineTipFrom trust (RegistryTopology.build trust) rounds (version + 1)
        (previousHash version line) line = .ok line' ↔
      ∃ tip, version ≤ tip ∧ IsTip trust tip line' := by
  induction rounds generalizing version line with
  | zero => omega
  | succ rounds ih =>
    simp only [replayToLineTipFrom, bind_eq_ok]
    constructor
    · rintro ⟨found, hro, h⟩
      cases found with
      | none =>
        simp only [ok_iff, Bool.not_eq_true'] at h
        obtain ⟨-, hla, rfl⟩ := h
        exact ⟨version, le_rfl, hli, hle, replayVersion_eq_none_iff.mp hro, hla⟩
      | some found =>
        obtain ⟨hash, next⟩ := found
        simp only [ok_iff, checkedAdd_eq_some] at h
        obtain ⟨_, ⟨rfl, hle'⟩, h⟩ := h
        have hn : lineAt trust (version + 1) = some next :=
          lineAt_succ_eq_some.mpr ⟨line, hash, hli, hro⟩
        obtain ⟨event, hev, -⟩ := replayVersion_eq_some_iff.mp hro
        obtain ⟨hm, hv, -⟩ := RegistryTopology.mem_of_exact hev
        have hf := RegistryTopology.length_later_succ_lt hm hv
        obtain ⟨tip, ht, h⟩ := (ih hn hle' (by omega)).mp (by
          simpa [previousHash, registryHeadHash_of_replayVersion hro] using h)
        exact ⟨tip, by omega, h⟩
    · rintro ⟨tip, ht, h⟩
      rcases ht.eq_or_lt with rfl | hlt
      · obtain ⟨hat, -, he, hla⟩ := h
        obtain rfl : line = line' := by simpa [hli] using hat
        exact ⟨none, replayVersion_eq_none_iff.mpr he, by simp [hla]⟩
      · obtain ⟨next, hn⟩ := exists_lineAt_of_le h.1 (v := version + 1) hlt
        obtain ⟨l, hash, hl, hro⟩ := lineAt_succ_eq_some.mp hn
        obtain rfl : line = l := by simpa [hli] using hl
        obtain ⟨event, hev, -⟩ := replayVersion_eq_some_iff.mp hro
        obtain ⟨hm, hv, -⟩ := RegistryTopology.mem_of_exact hev
        have hf := RegistryTopology.length_later_succ_lt hm hv
        have hle' : version + 1 + 1 ≤ u64Max := by have := h.2.1; omega
        have hr := (ih hn hle' (by omega)).mpr ⟨tip, hlt, h⟩
        refine ⟨some (hash, next), hro, ?_⟩
        simp only [ok_iff, checkedAdd_eq_some]
        refine ⟨version + 1 + 1, ⟨rfl, hle'⟩, ?_⟩
        simpa [previousHash, registryHeadHash_of_replayVersion hro] using hr

/-- **`replayToLineTip` succeeds exactly when the line ends**, and returns its end. -/
theorem replayToLineTip_eq_ok :
    replayToLineTip trust = .ok state ↔ ∃ tip line, IsTip trust tip line ∧ line.state = state := by
  have hr : ((RegistryTopology.build trust).later 0).length <
      (RegistryTopology.build trust).events.length + 1 :=
    Nat.lt_succ_of_le (List.length_filter_le _ _)
  simp only [replayToLineTip, ok_iff]
  constructor
  · rintro ⟨line, h, rfl⟩
    obtain ⟨tip, -, ht⟩ := (replayToLineTipFrom_eq_ok lineAt_zero (by decide) hr).mp h
    exact ⟨tip, line, ht, rfl⟩
  · rintro ⟨tip, line, ht, rfl⟩
    exact ⟨line, (replayToLineTipFrom_eq_ok lineAt_zero (by decide) hr).mpr
      ⟨tip, Nat.zero_le _, ht⟩, rfl⟩

end Loops

/-! ## 4. Leases along a line -/

section Leases

/-- From which sequence a head is in effect. -/
def startOf (trust : VerifiedTrust) (version : Nat) : Nat :=
  ((lineAt trust version).map (·.state.effectiveFromSequence)).getD 0

/-- Up to which sequence a head is in effect. -/
def stopOf (trust : VerifiedTrust) (version : Nat) : Nat :=
  ((lineAt trust version).map (·.state.validThroughSequence)).getD 0

theorem startOf_eq (h : lineAt trust version = some line) :
    startOf trust version = line.state.effectiveFromSequence := by
  simp [startOf, h]

theorem stopOf_eq (h : lineAt trust version = some line) :
    stopOf trust version = line.state.validThroughSequence := by
  simp [stopOf, h]

theorem preTransitionSequence_eq_ok {effective : Nat}
    (h : preTransitionSequence state effective = .ok sequence) :
    state.effectiveFromSequence ≤ effective ∧ effective ≤ state.validThroughSequence + 1 ∧
      (sequence = effective ∨ sequence = state.validThroughSequence) := by
  simp only [preTransitionSequence, ok_iff] at h
  obtain ⟨-, _, h⟩ := h
  split at h
  · simp only [pure_eq_ok] at h
    omega
  · simp only [ok_iff, checkedAdd_eq_some] at h
    omega

/-- What an event that follows another one keeps of its lease. -/
theorem lease_of_event (h : verifyAndApplyRegistryEvent trust line event = .ok (sequence, line'))
    (hv : line.state.registryVersion ≠ 0) :
    line.state.effectiveFromSequence ≤ line'.state.effectiveFromSequence ∧
      line'.state.effectiveFromSequence ≤ line.state.validThroughSequence + 1 ∧
      (sequence = line'.state.effectiveFromSequence ∨
        sequence = line.state.validThroughSequence) := by
  obtain ⟨_, _, _, _, applied⟩ := verifyAndApplyRegistryEvent_eq_ok h
  have hj := applied.judgedAt
  rw [judgedSequence, if_neg hv] at hj
  simpa [applied.state_eq, PreviousHeadState.headedBy] using preTransitionSequence_eq_ok hj

/-- **The leases of a replayed line follow each other without a hole.** -/
theorem lease_line (h : lineAt trust version = some line) :
    Lease.Line (startOf trust) (stopOf trust) version := by
  have key : ∀ v, 1 ≤ v → v < version → ∃ line next, lineAt trust v = some line ∧
      lineAt trust (v + 1) = some next ∧
      line.state.effectiveFromSequence ≤ next.state.effectiveFromSequence ∧
      next.state.effectiveFromSequence ≤ line.state.validThroughSequence + 1 := by
    intro v hp hlt
    obtain ⟨next, hn⟩ := exists_lineAt_of_le h hlt
    obtain ⟨line, _, _, hl, -, -, -, ha⟩ := exists_event_of_lineAt_succ hn
    have hv := registryVersion_of_lineAt hl hp
    obtain ⟨hs, hc, -⟩ := lease_of_event ha (by omega)
    exact ⟨line, next, hl, hn, hs, hc⟩
  constructor
  · intro v hp hlt
    obtain ⟨line, next, hl, hn, hs, -⟩ := key v hp hlt
    rwa [startOf_eq hl, startOf_eq hn]
  · intro v hp hlt
    obtain ⟨line, next, hl, hn, -, hc⟩ := key v hp hlt
    rwa [stopOf_eq hl, startOf_eq hn]

/-- The lease of a replayed version is not empty. -/
theorem start_le_stop (h : lineAt trust version = some line) (hp : 1 ≤ version) :
    line.state.effectiveFromSequence ≤ line.state.validThroughSequence := by
  obtain ⟨version, rfl⟩ := Nat.exists_eq_add_of_le' hp
  obtain ⟨_, _, _, -, -, -, -, ha⟩ := exists_event_of_lineAt_succ h
  obtain ⟨_, _, _, _, applied⟩ := verifyAndApplyRegistryEvent_eq_ok ha
  simpa [applied.state_eq, PreviousHeadState.headedBy] using applied.lease

end Leases

/-! ## 5. The policy of a head -/

theorem policy_of_applyEffect (h : applyEffect state effect revokedFrom = .ok applied) :
    applied.policy = targetPolicy state effect := by
  cases effected_of_applyEffect h <;> rfl

/-- Every head has a policy: the first event brings one. -/
theorem exists_policy_of_lineAt (h : lineAt trust version = some line) (hp : 1 ≤ version) :
    ∃ policy, line.state.policy = some policy := by
  obtain ⟨version, rfl⟩ := Nat.exists_eq_add_of_le' hp
  obtain ⟨_, _, _, -, -, -, -, ha⟩ := exists_event_of_lineAt_succ h
  obtain ⟨_, policy, _, _, applied⟩ := verifyAndApplyRegistryEvent_eq_ok ha
  exact ⟨policy, by
    simp [applied.state_eq, PreviousHeadState.headedBy, policy_of_applyEffect applied.apply_eq,
      applied.policy_eq]⟩

end Einsatzarchiv.Trust
