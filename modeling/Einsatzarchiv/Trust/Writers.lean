/-
  File:      Einsatzarchiv/Trust/Writers.lean
  Subject:   The succession of writers along a replayed line, and the kinds of its certificates.

  * `EventStep`: one registry event, as far as certificates and the current writer go.
  * `Retired`: a writer that was revoked and is not the current one; no event brings it back
    (`Retired.step`, `Retired.of_le`).
  * `writer_succession`: between the authorities over two neighbouring sequences the writer either
    stays and no transition takes effect at the second, or it is retired by one that does.

  A signature is checked against the object in the catalog, and whether its certificate is active
  against the entry in the state.  Along the line of heads the two are of one kind.

  * `Backed`: the object of every certificate of a state has the kind that the state has for it.
  * `backed_of_lineAt`: every replayed state is backed.
  * **`signed_of_verifyCoseSign1`**: who signs as a writer is the current writer.
-/
import Einsatzarchiv.Trust.Historical

namespace Einsatzarchiv.Trust

open Lib Format

section

open Time

variable [Crypto] {writer : CertificateHash} {transition : EffectiveWriterTransition}
  {snap : TrustStateSnapshot} {src : TrustObjectSource} {trust : VerifiedTrust}
  {anchor : TrustAnchor}

/-! ## 1. The bootstrap state -/

/-- The state before the first registry event, as `fromVerifiedBootstrap` returns it. -/
structure PreviousHeadState.IsBootstrap (state : PreviousHeadState) : Prop where
  adminCertificates : state.adminCertificates = state.certificates
  effectiveFromSequence : state.effectiveFromSequence = 0
  currentWriter : state.currentWriterCertificateHash = none
  writerTransition : state.writerTransition = none

theorem isBootstrap_of_verifyTrust (h : verifyTrust anchor src snap = .ok trust) :
    trust.previousHead.IsBootstrap := by
  simp only [verifyTrust, fromVerifiedBootstrap, ok_iff] at h
  obtain ⟨-, -, _, -, _, -, _, ⟨-, -, ⟨⟩, -, _, -, _, -, rfl⟩, rfl⟩ := h
  exact ⟨rfl, rfl, rfl, rfl⟩

theorem catalog_of_verifyTrust (h : verifyTrust anchor src snap = .ok trust) :
    trust.previousHead.catalog = trust.catalog := by
  simp only [verifyTrust, fromVerifiedBootstrap, ok_iff] at h
  obtain ⟨-, -, _, -, _, -, _, ⟨-, -, ⟨⟩, -, _, -, _, -, rfl⟩, rfl⟩ := h
  rfl

/-! ## 2. One event -/

/-- One registry event: what it may do to `state`, judged at `sequence`, and what it does. -/
structure EventStep (state : PreviousHeadState) (sequence : Nat) (effect : TransitionEffect)
    (applied state' : PreviousHeadState) : Prop where
  allowed : EffectAllowed state sequence state'.effectiveFromSequence effect
  apply_eq : applyEffect state effect state'.effectiveFromSequence = .ok applied
  certificates : state'.certificates = applied.certificates
  adminCertificates : state'.adminCertificates = applied.adminCertificates
  currentWriter : state'.currentWriterCertificateHash = applied.currentWriterCertificateHash
  writerTransition : state'.writerTransition = applied.writerTransition
  start_le_sequence : state.effectiveFromSequence ≤ sequence
  start_le : state.effectiveFromSequence ≤ state'.effectiveFromSequence

section Line

variable {ver : Nat} {line line' : Line}

/-- Every round of the replay is such a step. -/
theorem exists_eventStep_of_lineAt_succ (hbo : trust.previousHead.IsBootstrap)
    (h : lineAt trust (ver + 1) = some line') :
    ∃ line sequence effect applied, lineAt trust ver = some line ∧
      EventStep line.state sequence effect applied line'.state := by
  obtain ⟨line, _, sequence, hl, -, -, -, ha⟩ := exists_event_of_lineAt_succ h
  obtain ⟨effect, _, applied, _, hs⟩ := verifyAndApplyRegistryEvent_eq_ok ha
  have hal := effectAllowed_of_prepareEffect hs.prepared
  have hst : line.state.effectiveFromSequence ≤ sequence ∧
      line.state.effectiveFromSequence ≤ line'.state.effectiveFromSequence := by
    cases ver with
    | zero =>
      obtain rfl := Option.some.inj hl
      simp [Line.start, hbo.effectiveFromSequence]
    | succ ver =>
      have hv := registryVersion_of_lineAt hl (by omega)
      obtain ⟨_, -, _⟩ := lease_of_event ha (by omega)
      have := start_le_stop hl (by omega)
      omega
  refine ⟨line, sequence, effect, applied, hl, ?_, ?_, ?_, ?_, ?_, ?_, hst.1, hst.2⟩
  all_goals rw [hs.state_eq]
  case refine_1 => exact hal
  case refine_2 => exact hs.apply_eq
  all_goals rfl

end Line

section Step

variable {state applied state' : PreviousHeadState} {seq : Nat} {effect : TransitionEffect}
  {hash : CertificateHash} {certificate : ActiveCertificate}

section

variable (h : EventStep state seq effect applied state')
include h

/-- The certificates after an effect: one is new, or one is revoked. -/
theorem EventStep.getElem?_certificates (hash : CertificateHash) :
    state'.certificates[hash]? = state.certificates[hash]? ∨
      (∃ certificate, effect = .activateCertificate certificate ∧ certificate.objectHash = hash ∧
        state.certificates[hash]? = none) ∨
      (effect = .revokeCertificate hash) ∨
      ∃ transition, effect = .writerTransition transition ∧
        transition.oldWriterCertificateHash = hash := by
  rw [h.certificates]
  cases effected_of_applyEffect h.apply_eq with
  | activateCertificate fresh =>
    rename_i certificate
    simp only [Std.TreeMap.getElem?_insert]
    split
    next heq =>
      obtain rfl : certificate.objectHash = hash := by simpa using heq
      exact .inr (.inl ⟨certificate, rfl, rfl, fresh⟩)
    next => exact .inl rfl
  | revokeCertificate =>
    simp only [Std.TreeMap.getElem?_insert]
    split
    next heq =>
      obtain rfl : _ = hash := by simpa using heq
      exact .inr (.inr (.inl rfl))
    next => exact .inl rfl
  | writerTransition =>
    simp only [Std.TreeMap.getElem?_insert]
    split
    next heq => exact .inr (.inr (.inr ⟨_, rfl, by simpa using heq⟩))
    next => exact .inl rfl
  | _ => exact .inl rfl

/-- The writer after an effect: it stays, or it is the first one, or a transition names it. -/
theorem EventStep.currentWriter_cases :
    (state'.currentWriterCertificateHash = state.currentWriterCertificateHash ∧
      state'.writerTransition = state.writerTransition) ∨
    (∃ certificate, effect = .activateCertificate certificate ∧
      state.currentWriterCertificateHash = none ∧
      state'.currentWriterCertificateHash = some certificate.objectHash ∧
      state'.writerTransition = state.writerTransition) ∨
    ∃ transition, effect = .writerTransition transition ∧
      state'.currentWriterCertificateHash = some transition.newWriterCertificateHash ∧
      state'.writerTransition = some transition := by
  rw [h.currentWriter, h.writerTransition]
  cases effected_of_applyEffect h.apply_eq with
  | activateCertificate =>
    dsimp only
    split
    next hf => exact .inr (.inl ⟨_, rfl, by simpa using hf.2, rfl, rfl⟩)
    next => exact .inl ⟨rfl, rfl⟩
  | writerTransition => exact .inr (.inr ⟨_, rfl, rfl, rfl⟩)
  | _ => exact .inl ⟨rfl, rfl⟩

/-- A held certificate is never dropped and never changes its kind. -/
theorem EventStep.exists_kind (hg : state.certificates[hash]? = some certificate) :
    ∃ certificate', state'.certificates[hash]? = some certificate' ∧
      certificate'.fields.certificateKind = certificate.fields.certificateKind := by
  have he := effected_of_applyEffect h.apply_eq
  rcases h.getElem?_certificates hash with heq | ⟨_, -, -, hn⟩ | rfl | ⟨_, rfl, rfl⟩
  · exact ⟨certificate, heq.trans hg, rfl⟩
  · simp [hg] at hn
  all_goals
    obtain _ | held | held := he
    obtain rfl := Option.some.inj (held.symm.trans hg)
    exact ⟨revokeAt _ _, by rw [h.certificates, Std.TreeMap.getElem?_insert_self], rfl⟩

end

/-! ## 3. Admins -/

/-- Every admin certificate is held as a certificate of the same kind. -/
def AdminsKnown (state : PreviousHeadState) : Prop :=
  ∀ (hash : CertificateHash) (admin : ActiveCertificate),
    state.adminCertificates[hash]? = some admin →
    ∃ certificate : ActiveCertificate, state.certificates[hash]? = some certificate ∧
      certificate.fields.certificateKind = admin.fields.certificateKind

/-- An admin certificate after an event was one before it, or is the one the event activates. -/
theorem EventStep.admin_cases (h : EventStep state seq effect applied state')
    {admin' : ActiveCertificate} (hg : state'.adminCertificates[hash]? = some admin') :
    (∃ admin, state.adminCertificates[hash]? = some admin ∧
      admin.fields.certificateKind = admin'.fields.certificateKind) ∨
    state'.certificates[hash]? = some admin' := by
  rw [h.adminCertificates] at hg
  rw [h.certificates]
  cases effected_of_applyEffect h.apply_eq with
  | activateCertificate =>
    split at hg
    · rw [Std.TreeMap.getElem?_insert] at hg ⊢
      split at hg
      next heq => exact .inr (by rwa [if_pos heq])
      next => exact .inl ⟨admin', hg, rfl⟩
    · exact .inl ⟨admin', hg, rfl⟩
  | revokeCertificate =>
    split at hg
    next admin ha =>
      rw [Std.TreeMap.getElem?_insert] at hg
      split at hg
      next heq =>
        obtain rfl : _ = hash := by simpa using heq
        cases hg
        exact .inl ⟨admin, ha, rfl⟩
      next => exact .inl ⟨admin', hg, rfl⟩
    next => exact .inl ⟨admin', hg, rfl⟩
  | _ => exact .inl ⟨admin', hg, rfl⟩

theorem AdminsKnown.step (hkn : AdminsKnown state)
    (h : EventStep state seq effect applied state') : AdminsKnown state' := by
  intro _ admin' hg
  rcases h.admin_cases hg with ⟨_, ha, hk⟩ | hn
  · obtain ⟨_, hc, hkind'⟩ := hkn _ _ ha
    obtain ⟨certificate', hcertificate', hkind''⟩ := h.exists_kind hc
    exact ⟨certificate', hcertificate', hkind''.trans (hkind'.trans hk)⟩
  · exact ⟨admin', hn, rfl⟩

/-! ## 4. Retired writers -/

/-- A writer that was revoked no later than the state took effect, and is not the current one. -/
structure Retired (state : PreviousHeadState) (writer : CertificateHash) : Prop where
  revoked : ∃ certificate revokedFrom, state.certificates[writer]? = some certificate ∧
    certificate.fields.certificateKind = .writer ∧
    certificate.fields.revokedFromSequence = some revokedFrom ∧
    revokedFrom ≤ state.effectiveFromSequence
  not_current : state.currentWriterCertificateHash ≠ some writer

/-- A retired writer is not active from then on. -/
theorem Retired.not_active (h : Retired state writer) {atSequence : Nat}
    (hle : state.effectiveFromSequence ≤ atSequence)
    (hg : state.certificates[writer]? = some certificate) :
    ¬ certificateActive certificate atSequence := by
  obtain ⟨held, _, hh, -, hr, _⟩ := h.revoked
  obtain rfl : held = certificate := by simpa [hg] using hh.symm
  simp only [certificateActive, covers, hr, Option.all_some, Bool.and_eq_true,
    decide_eq_true_eq, not_and]
  omega

/-- **No event brings a retired writer back.** -/
theorem Retired.step (hre : Retired state writer) (hkn : AdminsKnown state)
    (h : EventStep state seq effect applied state') : Retired state' writer := by
  obtain ⟨certificate, revokedFrom, hg, hk, hr, hf⟩ := hre.revoked
  have ha := h.allowed
  constructor
  · refine ⟨certificate, revokedFrom, ?_, hk, hr, hf.trans h.start_le⟩
    rcases h.getElem?_certificates writer with heq | ⟨_, -, -, hn⟩ | rfl |
      ⟨transition, rfl, rfl⟩
    · exact heq.trans hg
    · simp [hg] at hn
    · -- a revoked certificate is not revoked again, and a writer is no admin
      exfalso
      rcases ha with ⟨c, hc, hac, -⟩ | ⟨_, had, hkind'⟩
      · exact hre.not_active h.start_le_sequence hc hac
      · obtain ⟨c, hc, hkind''⟩ := hkn _ _ had
        obtain rfl : c = certificate := by simpa [hg] using hc.symm
        simp [hk, hkind'] at hkind''
    · exact absurd ha.2.2.1 hre.not_current
  · rcases h.currentWriter_cases with ⟨heq, -⟩ | ⟨c, rfl, -, heq, -⟩ | ⟨transition, rfl, heq, -⟩
    · exact heq ▸ hre.not_current
    · -- the first writer is a new certificate
      rintro hcu
      obtain rfl : c.objectHash = writer := by simpa [heq] using hcu
      cases effected_of_applyEffect h.apply_eq with
      | activateCertificate fresh => cases fresh.symm.trans hg
    · -- the new writer is active where the transition takes effect
      rintro hcu
      obtain rfl : transition.newWriterCertificateHash = writer := by simpa [heq] using hcu
      obtain ⟨-, -, -, -, _, hne, -, hac⟩ := ha
      exact hre.not_active h.start_le hne hac

/-- A transition retires the writer it replaces. -/
theorem retired_of_transition
    (h : EventStep state seq (.writerTransition transition) applied state') :
    Retired state' transition.oldWriterCertificateHash := by
  obtain ⟨he, hne, _, ⟨_, hold, hk, -⟩, -⟩ := h.allowed
  obtain _ | _ | held := effected_of_applyEffect h.apply_eq
  obtain rfl := Option.some.inj (held.symm.trans hold)
  constructor
  · exact ⟨revokeAt _ transition.effectiveFromSequence, transition.effectiveFromSequence,
      by rw [h.certificates, Std.TreeMap.getElem?_insert_self], hk, rfl, he.le⟩
  · rw [h.currentWriter]
    simpa using hne.symm

end Step

/-! ## 5. Along the line -/

section Run

variable {ver : Nat} {line : Line}

section

variable (hbo : trust.previousHead.IsBootstrap) {line' : Line}
include hbo

theorem adminsKnown_of_lineAt (h : lineAt trust ver = some line) : AdminsKnown line.state := by
  induction ver generalizing line with
  | zero =>
    obtain rfl := Option.some.inj h
    intro _ admin ha
    exact ⟨admin, hbo.adminCertificates ▸ ha, rfl⟩
  | succ ver ih =>
    obtain ⟨line, _, _, _, hl, hs⟩ := exists_eventStep_of_lineAt_succ hbo h
    exact (ih hl).step hs

/-- The last transition took effect no later than the state did. -/
theorem transition_le_start (h : lineAt trust ver = some line)
    (ht : line.state.writerTransition = some transition) :
    transition.effectiveFromSequence ≤ line.state.effectiveFromSequence := by
  induction ver generalizing line with
  | zero =>
    obtain rfl := Option.some.inj h
    simp [Line.start, hbo.writerTransition] at ht
  | succ ver ih =>
    obtain ⟨line, _, _, _, hl, hs⟩ := exists_eventStep_of_lineAt_succ hbo h
    rcases hs.currentWriter_cases with ⟨-, heq⟩ | ⟨_, rfl, -, -, heq⟩ | ⟨t, rfl, -, heq⟩
    · exact (ih hl (heq ▸ ht)).trans hs.start_le
    · exact (ih hl (heq ▸ ht)).trans hs.start_le
    · obtain rfl : t = transition := by simpa [heq] using ht
      exact hs.allowed.1.le

/-- **A retired writer stays retired** for the rest of the line. -/
theorem Retired.of_le {v w : Nat} (hl : lineAt trust v = some line)
    (hline' : lineAt trust w = some line') (hvw : v ≤ w) (h : Retired line.state writer) :
    Retired line'.state writer := by
  induction w, hvw using Nat.le_induction generalizing line' with
  | base =>
    obtain rfl : line = line' := by simpa [hl] using hline'
    exact h
  | succ w _ ih =>
    obtain ⟨_, _, _, _, hp, hs⟩ := exists_eventStep_of_lineAt_succ hbo hline'
    exact (ih hp).step (adminsKnown_of_lineAt hbo hp) hs

/-- What became of the writer of one version at a later one: it is still the current writer and
no transition came between, or a later transition is the last one and it is retired. -/
theorem writer_since {v w : Nat} (hl : lineAt trust v = some line)
    (hline' : lineAt trust w = some line') (hvw : v ≤ w)
    (hwr : line.state.currentWriterCertificateHash = some writer) :
    (line'.state.currentWriterCertificateHash = some writer ∧
      line'.state.writerTransition = line.state.writerTransition) ∨
    ∃ transition u, v < u ∧ u ≤ w ∧ transition.effectiveFromSequence = startOf trust u ∧
      line'.state.writerTransition = some transition ∧
      line'.state.currentWriterCertificateHash = some transition.newWriterCertificateHash ∧
      Retired line'.state writer := by
  induction w, hvw using Nat.le_induction generalizing line' with
  | base =>
    obtain rfl : line = line' := by simpa [hl] using hline'
    exact .inl ⟨hwr, rfl⟩
  | succ w hvw ih =>
    obtain ⟨_, _, _, _, hp, hst⟩ := exists_eventStep_of_lineAt_succ hbo hline'
    have ha := adminsKnown_of_lineAt hbo hp
    rcases hst.currentWriter_cases with ⟨hc, htr⟩ | ⟨c, rfl, hn, -⟩ |
      ⟨t, rfl, hc, htr⟩
    · rw [hc, htr]
      rcases ih hp with h | ⟨t, u, hu, _, hs, ht, hne, hr⟩
      · exact .inl h
      · exact .inr ⟨t, u, hu, by omega, hs, ht, hne, hr.step ha hst⟩
    · -- the prior head has a writer, so this is not the first one
      rcases ih hp with ⟨h, -⟩ | ⟨_, _, -, -, -, -, h, -⟩
      · simp [hn] at h
      · simp [hn] at h
    · have hs : t.effectiveFromSequence = startOf trust (w + 1) := by
        rw [startOf_eq hline']
        exact hst.allowed.1
      refine .inr ⟨t, w + 1, by omega, le_rfl, hs, htr, hc, ?_⟩
      rcases ih hp with ⟨h, -⟩ | ⟨_, _, -, -, -, -, -, hr⟩
      · obtain rfl : t.oldWriterCertificateHash = writer := by
          simpa [h] using hst.allowed.2.2.1.symm
        exact retired_of_transition hst
      · exact hr.step ha hst

end

end Run

/-! ## 6. Neighbouring sequences -/

section Authorities

variable {ver ver' seq seq' : Nat} {hash hash' : ObjectHash}
  {auth auth' : HistoricalRegistryAuthority}

section

variable (hbo : trust.previousHead.IsBootstrap)
  (h : verifyHistoricalRegistryAuthority trust ver hash seq = .ok auth)
include hbo h

/-- **The succession of writers.**  From the authority over a sequence to the authority over the
next one the writer either stays, and no transition takes effect there, or it is retired, and the
transition that names the new writer takes effect exactly there. -/
theorem writer_succession
    (h' : verifyHistoricalRegistryAuthority trust ver' hash' (seq + 1) = .ok auth')
    (hwr : auth.state.currentWriterCertificateHash = some writer) :
    (auth'.state.currentWriterCertificateHash = some writer ∧
      ∀ transition ∈ auth'.effectiveWriterTransition, transition.effectiveFromSequence ≠ seq + 1) ∨
    ∃ transition, auth'.effectiveWriterTransition = some transition ∧
      transition.effectiveFromSequence = seq + 1 ∧
      auth'.state.currentWriterCertificateHash = some transition.newWriterCertificateHash ∧
      Retired auth'.state writer := by
  have hle := version_le_of_authorities h h' (by omega)
  obtain ⟨_, -, ⟨_, hl, -, hs, -⟩, -, hse⟩ := verifyHistoricalRegistryAuthority_eq_ok h
  obtain ⟨-, hmax', ⟨_, hline', -, hstate', -⟩, -, _⟩ := verifyHistoricalRegistryAuthority_eq_ok h'
  have holds := holds_of_verifyHistoricalRegistryAuthority hline' hmax' hle h
  have holds' := holds_of_verifyHistoricalRegistryAuthority hline' hmax' le_rfl h'
  rw [hs] at hwr
  rw [HistoricalRegistryAuthority.effectiveWriterTransition, hstate']
  rcases writer_since hbo hl hline' hle hwr with ⟨hc, htr⟩ |
    ⟨transition, u, hu, huv, hst, htr, hc, hr⟩
  · refine .inl ⟨hc, fun transition ht => ?_⟩
    have hf := transition_le_start hbo hl (htr ▸ ht)
    have := auth.start_le
    rw [hs, hse] at this
    omega
  · -- every version after the first authority starts at the second sequence
    refine .inr ⟨transition, htr, ?_, hc, hr⟩
    have hline'' := lease_line hline'
    have hlo := holds.before_successor (by omega)
    have hm := hline''.start_mono (v := ver + 1) (w := u) (by omega) hu huv
    have hmono' := hline''.start_mono (v := u) (by omega) huv le_rfl
    have hup := holds'.start_le
    omega

/-- A writer that is retired for an authority is never active for a later one. -/
theorem not_active_of_retired
    (h' : verifyHistoricalRegistryAuthority trust ver' hash' seq' = .ok auth')
    (hle : seq ≤ seq') (hr : Retired auth.state writer) :
    auth'.activeCertificateFields writer = none := by
  obtain ⟨-, -, ⟨_, hl, -, hs, -⟩, -⟩ := verifyHistoricalRegistryAuthority_eq_ok h
  obtain ⟨-, -, ⟨_, hline', -, hstate', -⟩, -⟩ := verifyHistoricalRegistryAuthority_eq_ok h'
  have hretired' : Retired auth'.state writer := by
    rw [hstate']
    exact (hs ▸ hr).of_le hbo hl hline' (version_le_of_authorities h h' hle)
  rw [HistoricalRegistryAuthority.activeCertificateFields, Option.map_eq_none_iff,
    Option.eq_none_iff_forall_ne_some]
  intro _ ha
  rw [PreviousHeadState.activeCertificate_eq_some] at ha
  exact hretired'.not_active auth'.start_le ha.1 ha.2.1

end

end Authorities

/-! ## 7. The object of a transition -/

/-- The catalog holds the transition as an object. -/
def HeldTransition (catalog : TrustCatalog) (transition : EffectiveWriterTransition) : Prop :=
  ∃ record fields authorization, catalog.get transition.objectHash = some record ∧
    record.value.payload = .authorized (.writerTransition fields) authorization ∧
    transition = ⟨transition.objectHash, fields.oldWriterCertificateHash,
      fields.newWriterCertificateHash, fields.effectiveFromSequence, fields.previousEntryHash⟩

section Objects

variable {state applied : PreviousHeadState} {oh : ObjectHash}

/-- The object of a target and its payload. -/
theorem authorizedTarget_eq_ok {α : Type} {select : TrustCore → Option α}
    {tgt : AuthorizedTarget α} (h : authorizedTarget select state oh = .ok tgt) :
    ∃ record core authorization, state.catalog.get oh = some record ∧
      record.value.payload = .authorized core authorization ∧ select core = some tgt.fields := by
  simp only [authorizedTarget, ok_iff] at h
  obtain ⟨record, hg, h⟩ := h
  split at h
  next core authorization hp =>
    simp only [ok_iff] at h
    obtain ⟨_, hc, rfl⟩ := h
    exact ⟨record, core, authorization, hg, hp, hc⟩
  next => cases h

theorem heldTransition_of_target {tgt : AuthorizedTarget WriterTransitionFields}
    (h : authorizedWriterTransitionTarget state oh = .ok tgt) :
    HeldTransition state.catalog ⟨oh, tgt.fields.oldWriterCertificateHash,
      tgt.fields.newWriterCertificateHash, tgt.fields.effectiveFromSequence,
      tgt.fields.previousEntryHash⟩ := by
  obtain ⟨record, core, authorization, hg, hp, hc⟩ := authorizedTarget_eq_ok h
  cases core with
  | writerTransition => cases hc; exact ⟨record, _, authorization, hg, hp, rfl⟩
  | _ => cases hc

/-- An event that changes the writer names a transition object of the catalog. -/
theorem heldTransition_of_prepareEffect {event : RegistryEvent} {sequence : Nat}
    {replay replay' : AdminAuthorizationReplay}
    (h : prepareEffect trust state event sequence replay =
      .ok (.writerTransition transition, replay')) : HeldTransition state.catalog transition := by
  simp only [prepareEffect] at h
  split at h
  case h_2 =>
    simp only [prepareRevocation, ok_iff] at h
    obtain ⟨_, h, rfl, -⟩ := h
    split at h <;> simp [bind_eq_ok] at h
  case h_4 =>
    simp only [ok_iff, TransitionEffect.writerTransition.injEq] at h
    obtain ⟨_, ht, ⟨⟩, -, _, -, rfl, -⟩ := h
    exact heldTransition_of_target ht
  case h_6 =>
    unfold prepareAdminChange at h
    split at h <;> simp [bind_eq_ok] at h
  all_goals simp [bind_eq_ok] at h

/-- No effect changes the catalog, and only a transition changes the transition. -/
theorem catalog_of_applyEffect {effect : TransitionEffect} {revokedFrom : Nat}
    (h : applyEffect state effect revokedFrom = .ok applied) :
    applied.catalog = state.catalog ∧ (applied.writerTransition = state.writerTransition ∨
      ∃ transition, effect = .writerTransition transition ∧
        applied.writerTransition = some transition) := by
  cases effected_of_applyEffect h with
  | writerTransition => exact ⟨rfl, .inr ⟨_, rfl, rfl⟩⟩
  | _ => exact ⟨rfl, .inl rfl⟩

/-- The transition of a replayed head is an object of the catalog the line started with. -/
theorem heldTransition_of_lineAt (hbo : trust.previousHead.IsBootstrap) {version : Nat}
    {line : Line} (h : lineAt trust version = some line) :
    line.state.catalog = trust.previousHead.catalog ∧ ∀ transition ∈ line.state.writerTransition,
        HeldTransition trust.previousHead.catalog transition := by
  induction version generalizing line with
  | zero =>
    obtain rfl := Option.some.inj h
    exact ⟨rfl, by simp [Line.start, hbo.writerTransition]⟩
  | succ version ih =>
    obtain ⟨_, _, _, hp, -, -, -, ha⟩ := exists_event_of_lineAt_succ h
    obtain ⟨_, _, applied, _, hst⟩ := verifyAndApplyRegistryEvent_eq_ok ha
    obtain ⟨hc, hh⟩ := ih hp
    obtain ⟨hk, htr⟩ := catalog_of_applyEffect hst.apply_eq
    rw [hst.state_eq]
    refine ⟨hk.trans hc, fun transition ht => ?_⟩
    have ht : applied.writerTransition = some transition := ht
    rcases htr with hs | ⟨transition', rfl, hn⟩
    · exact hh transition (hs ▸ ht)
    · obtain rfl : transition' = transition := by simpa [hn] using ht
      exact hc ▸ heldTransition_of_prepareEffect hst.prepared

end Objects

end

variable [Crypto]

/-! ## 8. Objects and kinds -/

def certificateKindOf : TrustPayload → Option CertificateKind
  | .initialAdminDevice fields | .authorized (.device fields) _ => some fields.certificateKind
  | _ => none

/-- The catalog has the certificate, as one of this kind. -/
def HeldAs (catalog : TrustCatalog) (kind : Option CertificateKind) (hash : ObjectHash) : Prop :=
  ∃ record, catalog.get hash = some record ∧ certificateKindOf record.value.payload = kind

variable {catalog : TrustCatalog} {hash : ObjectHash}

theorem HeldAs.unique {kind kind' : Option CertificateKind} (h : HeldAs catalog kind hash)
    (h' : HeldAs catalog kind' hash) : kind = kind' := by
  obtain ⟨_, hg, rfl⟩ := h
  obtain ⟨_, hget', rfl⟩ := h'
  rw [Option.some.inj (hg.symm.trans hget')]

/-- Everything the state names is in the catalog. -/
structure Backed (state : PreviousHeadState) : Prop where
  root : HeldAs state.catalog none state.root.objectHash
  certificates : ∀ {hash : CertificateHash} {certificate : ActiveCertificate},
    state.certificates[hash]? = some certificate →
    HeldAs state.catalog (some certificate.fields.certificateKind) certificate.objectHash

/-- What an effect brings into the state is backed. -/
def TransitionEffect.Backed (catalog : TrustCatalog) : TransitionEffect → Prop
  | .activateCertificate certificate =>
    HeldAs catalog (some certificate.fields.certificateKind) certificate.objectHash
  | .root authority => HeldAs catalog none authority.objectHash
  | _ => True

variable {trust : VerifiedTrust} {state applied : PreviousHeadState} {effect : TransitionEffect}
  {α : Type} {seq : Nat}

/-! ## 9. The states of the line -/

theorem heldAs_of_deviceTarget {tgt : AuthorizedTarget DeviceCertificateFields}
    (h : authorizedDeviceTarget state hash = .ok tgt) :
    HeldAs state.catalog (some tgt.fields.certificateKind) hash := by
  obtain ⟨record, core, _, hg, hp, hc⟩ := authorizedTarget_eq_ok h
  refine ⟨record, hg, ?_⟩
  cases core with
  | device => cases hc; rw [hp]; rfl
  | _ => cases hc

theorem heldAs_of_rootTarget {tgt : AuthorizedTarget RootCertificateFields}
    (h : authorizedRootTarget state hash = .ok tgt) : HeldAs state.catalog none hash := by
  obtain ⟨record, core, _, hg, hp, hc⟩ := authorizedTarget_eq_ok h
  refine ⟨record, hg, ?_⟩
  cases core with
  | root => rw [hp]; rfl
  | _ => cases hc

theorem backed_of_prepareEffect {event : RegistryEvent} {replay replay' : AdminAuthorizationReplay}
    (h : prepareEffect trust state event seq replay = .ok (effect, replay')) :
    effect.Backed state.catalog := by
  simp only [prepareEffect] at h
  split at h
  case h_1 =>
    simp only [ok_iff] at h
    obtain ⟨tgt, ht, _, -, _, -, _, -, rfl, -⟩ := h
    exact heldAs_of_deviceTarget ht
  case h_2 =>
    -- a revocation brings nothing in
    simp only [ok_iff] at h
    obtain ⟨_, h, rfl, -⟩ := h
    unfold prepareRevocation at h
    split at h <;> grind [TransitionEffect.Backed, bind_eq_ok, pure_eq_ok, throw_ne_ok]
  case h_6 =>
    unfold prepareAdminChange at h
    split at h
    · simp only [ok_iff] at h
      obtain ⟨_, -, tgt, ht, _, -, _, -, _, -, rfl, -⟩ := h
      exact heldAs_of_deviceTarget ht
    · simp only [ok_iff] at h
      obtain ⟨_, -, _, -, rfl, -⟩ := h
      trivial
    · cases h
  case h_7 =>
    simp only [ok_iff] at h
    obtain ⟨tgt, ht, _, -, _, -, rfl, -⟩ := h
    exact heldAs_of_rootTarget ht
  all_goals
    simp only [ok_iff] at h
    obtain ⟨_, -, _, -, _, -, rfl, -⟩ := h
    trivial

/-- A certificate is replaced by one of its own object only. -/
theorem Backed.insert (h : Backed state) {hash : CertificateHash} (certificate : ActiveCertificate)
    (hh : HeldAs state.catalog (some certificate.fields.certificateKind) certificate.objectHash)
    {key : CertificateHash} {found : ActiveCertificate}
    (hg : (state.certificates.insert hash certificate)[key]? = some found) :
    HeldAs state.catalog (some found.fields.certificateKind) found.objectHash := by
  rw [Std.TreeMap.getElem?_insert] at hg
  split at hg
  · cases hg
    exact hh
  · exact h.certificates hg

theorem Backed.applyEffect {revokedFrom : Nat} (h : Backed state) (he : effect.Backed state.catalog)
    (ha : applyEffect state effect revokedFrom = .ok applied) : Backed applied := by
  cases effected_of_applyEffect ha with
  | activateCertificate => exact ⟨h.root, h.insert _ he⟩
  | revokeCertificate held | writerTransition held =>
    have ho := h.certificates held
    exact ⟨h.root, h.insert (revokeAt _ _) ho⟩
  | root => exact ⟨he, h.certificates⟩
  | _ => exact ⟨h.root, h.certificates⟩

theorem heldAs_of_mem_directObjects {subtype : TrustSubtype} {select : TrustPayload → Option α}
    (kindOf : α → Option CertificateKind) {obj : ObjectHash × α}
    (hs : ∀ body fields, select body = some fields → certificateKindOf body = kindOf fields)
    (h : obj ∈ directObjects catalog subtype select) :
    HeldAs catalog (kindOf obj.2) obj.1 := by
  simp only [directObjects, List.mem_filterMap, some_iff] at h
  obtain ⟨_, -, record, hg, fields, hf, ⟨⟩⟩ := h
  exact ⟨record, hg, hs _ _ hf⟩

theorem heldAs_of_collectHeld (kindOf : α → Option CertificateKind)
    {objs : List (ObjectHash × α)} {held : Std.TreeMap ObjectHash (Held α)}
    (h : collectHeld catalog objs = .ok held)
    (ho : ∀ obj ∈ objs, HeldAs catalog (kindOf obj.2) obj.1) {found : Held α}
    (hg : held[hash]? = some found) : HeldAs catalog (kindOf found.fields) found.objectHash := by
  refine foldlM_invariant (P := fun held => ∀ (hash : ObjectHash) (found : Held α),
    held[hash]? = some found → HeldAs catalog (kindOf found.fields) found.objectHash)
    ?_ (by simp) h hash found hg
  intro held obj _ hob hh hn hash found hg
  simp only [ok_iff] at hn
  obtain ⟨_, -, _, -, rfl⟩ := hn
  rw [Std.TreeMap.getElem?_insert] at hg
  split at hg
  · cases hg
    exact ho obj hob
  · exact hh hash found hg

theorem backed_of_verifyTrust {anchor : TrustAnchor} {source : TrustObjectSource}
    {snapshot : TrustStateSnapshot} (h : verifyTrust anchor source snapshot = .ok trust) :
    Backed trust.previousHead := by
  simp only [verifyTrust, fromVerifiedBootstrap, ok_iff] at h
  obtain ⟨_, -, _, -, _, hch, _, ⟨_, -, _, -, _, hc, _, -,
    rfl⟩, rfl⟩ := h
  simp only [checkBootstrapObjects, ok_iff] at hch
  obtain ⟨_, -, _, hr, _, -, _, -, _, -, _, -, _, ha, _, -, _, -, rfl⟩ := hch
  refine ⟨?_, heldAs_of_collectHeld (fun fields => some fields.certificateKind) hc ?_⟩
  · refine heldAs_of_mem_directObjects (fun _ => none) ?_ (List.mem_of_head? hr)
    intro body fields hf
    cases body with
    | initialRoot => rfl
    | _ => cases hf
  · intro _ ho
    obtain ⟨certificate, hce, rfl⟩ := List.mem_map.mp ho
    obtain ⟨_, had, hv⟩ := exists_mem_of_mapM_eq_ok ha certificate hce
    simp only [verifyAdminCertificate, ok_iff] at hv
    obtain ⟨_, -, _, -, _, -, _, -, _, -, _, -, _, -, _, -, _, -, rfl⟩ := hv
    refine heldAs_of_mem_directObjects (fun fields => some fields.certificateKind) ?_ had
    intro body fields hf
    cases body with
    | initialAdminDevice => cases hf; rfl
    | _ => cases hf

theorem backed_of_lineAt (hbo : Backed trust.previousHead) {version : Nat} {line : Line}
    (h : lineAt trust version = some line) : Backed line.state := by
  induction version generalizing line with
  | zero =>
    obtain rfl := Option.some.inj h
    exact hbo
  | succ version ih =>
    obtain ⟨_, _, _, hp, -, -, -, ha⟩ := exists_event_of_lineAt_succ h
    obtain ⟨_, _, _, _, hs⟩ := verifyAndApplyRegistryEvent_eq_ok ha
    have hap := (ih hp).applyEffect (backed_of_prepareEffect hs.prepared) hs.apply_eq
    rw [hs.state_eq]
    exact ⟨hap.root, hap.certificates⟩

/-! ## 10. Writers -/

theorem certificateKindOf_of_writer {obj : TrustObject} {bytes : Bytes}
    {certificate : ParsedSignerCertificate} (hd : Crypto.decode bytes = .ok (.trust obj))
    (h : parseSignerCertificate bytes = .ok certificate) (hr : certificate.role = .writer) :
    certificateKindOf obj.payload = some .writer := by
  obtain ⟨fields, hp, hf⟩ := device_of_parseSignerCertificate hd h (by simp [hr])
  have hwr : fields.certificateKind = .writer :=
    CertificateKind.signerRole_injective ((parseDeviceCertificateCore_eq_ok hf).1.symm.trans hr)
  rcases hp with hp | ⟨_, hp⟩
  · rw [hp, certificateKindOf, hwr]
  · rw [hp, certificateKindOf, hwr]

/-- **Who signs in the role of a writer is the current writer**, and the certificate of the
catalog names the organization. -/
theorem signed_of_verifyCoseSign1 {cose : CoseSign1} {ctx : VerificationContext}
    {signer : VerifiedSigner} (hba : Backed state)
    (h : verifyCoseSign1 cose (state.resolveSelected seq) ctx = .ok signer)
    (hro : ctx.expectedRole = .writer) :
    state.currentWriterCertificateHash = some ctx.expectedCertificateHash ∧
      ctx.registry = state.registryVersion ∧
      ∃ res certificate, state.resolveSelected seq ctx.expectedCertificateHash ctx.registry
          = .ok res ∧
        parseSignerCertificate res.exactCertificateBytes = .ok certificate ∧
        certificate.organizationId = ctx.expectedOrganizationId := by
  simp only [verifyCoseSign1, ok_iff] at h
  obtain ⟨-, -, -, -, hash, -, -, ⟨rfl, -⟩, res, hrs, -, -, certificate, hc,
    _, -, -, -, -, ⟨ho, hs, -⟩, -⟩ := h
  have hr := hrs
  simp only [PreviousHeadState.resolveSelected, ok_iff] at hr
  obtain ⟨-, hre, hr⟩ := hr
  refine ⟨?_, hre, res, certificate, hrs, hc, ho⟩
  have hk : ∀ hash record, state.catalog.get hash = some record →
      record.exactBytes = res.exactCertificateBytes → HeldAs state.catalog (some .writer) hash :=
    fun hash record hg hb => ⟨record, hg, certificateKindOf_of_writer
      (hb ▸ (state.catalog.exact hg).decoded) hc (hs.trans hro)⟩
  split at hr
  · -- the root is no device
    simp only [ok_iff] at hr
    obtain ⟨_, rfl, record, hg, rfl⟩ := hr
    cases (hk _ _ hg rfl).unique hba.root
  · simp only [ok_iff] at hr
    obtain ⟨_, ha, _, rfl, record, hg, rfl⟩ := hr
    obtain ⟨hh, -, hcu⟩ := (PreviousHeadState.activeCertificate_eq_some state).mp ha
    have hwr := (hk _ _ hg rfl).unique (hba.certificates hh)
    exact hcu (Option.some.inj hwr).symm

end Einsatzarchiv.Trust
