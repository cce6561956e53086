/-
  File:      Einsatzarchiv/Trust/Historical.lean
  Subject:   The authority over a past sequence (crate `ea-trust`, `historical_registry.rs` and
             the signed times of `time.rs`).

  * `verifyHistoricalRegistryAuthority`: a head that covers a sequence and whose successor, if it
    applies, takes effect later.
  * `holds_of_verifyHistoricalRegistryAuthority`, `exists_authority_of_holds`: in terms of the
    leases of the replayed line this is `Lease.Holds`.
  * `historicalRegistryAuthority_partition`: a sequence has at most one such head, and exactly one
    while the line covers it.
-/
import Einsatzarchiv.Trust.Replay

namespace Einsatzarchiv.Trust

open Lib Format Time

variable [Crypto]

/-! ## 1. Signed times -/

/-- A time that the server has signed. -/
structure VerifiedSignedTime where
  input : IndependentTimeReference
  authorityHead : RegistryHeadPin

section

variable (state : PreviousHeadState)

/-- The head is in effect at the sequence. -/
def headCoversSequence (sequence : Nat) : Bool :=
  state.effectiveFromSequence ≤ sequence && sequence ≤ state.validThroughSequence

def authorityHead : RegistryHeadPin :=
  ⟨state.registryVersion, state.registryHeadHash⟩

/-- What an error of the signature means for a time. -/
def mapSignedTimeCryptoError : CryptoError → TrustError
  | .signerUnresolved | .signerUnauthorized => .signerInactive
  | _ => .signature

/-- The time of a receipt, signed under this head. -/
def verifyReceiptTime (receipt : Parsed Receipt) :
    Except TrustError VerifiedSignedTime := do
  let fields := receipt.value.core
  ensure (fields.organizationId = state.root.fields.organizationId
    ∧ fields.registryVersion = state.registryVersion
    ∧ fields.registryHeadHash = state.registryHeadHash
    ∧ headCoversSequence state fields.chainSequence) .actionMismatch
  let context ← (VerificationContext.receipt fields).mapError fun _ => .signature
  let _ ← (verifyCoseSign1 receipt.value.serverSignature state.previousHeadResolver
    context).mapError mapSignedTimeCryptoError
  return ⟨⟨.receipt, receipt.objectHash, fields.acceptedAtServer⟩, authorityHead state⟩

/-- The time of a checkpoint, signed under this head. -/
def verifyCheckpointTime (evidence : Parsed EvidenceObject) :
    Except TrustError VerifiedSignedTime := do
  let .standard fields cose := evidence.value | throw .timeSourceUnsupported
  ensure (fields.organizationId = state.root.fields.organizationId
    ∧ fields.registryHeadHash = state.registryHeadHash
    ∧ fields.coveredFromSequence ≤ fields.coveredThroughSequence
    ∧ headCoversSequence state fields.coveredThroughSequence) .actionMismatch
  let certificateHash ← okOr cose.certificateHash .signature
  let context ← (VerificationContext.checkpoint fields certificateHash
    state.registryVersion).mapError fun _ => .signature
  let _ ← (verifyCoseSign1 cose state.previousHeadResolver context).mapError
    mapSignedTimeCryptoError
  return ⟨⟨.checkpoint, evidence.objectHash, fields.issuedAtServer⟩, authorityHead state⟩

end

/-! ## 2. The authority -/

/-- A replayed head together with a sequence of its lease. -/
structure HistoricalRegistryAuthority where
  state : PreviousHeadState
  chain : ChainId
  sequence : Nat
  policy : ResolvedPolicy
  policy_eq : state.policy = some policy
  start_le : state.effectiveFromSequence ≤ sequence
  le_stop : sequence ≤ state.validThroughSequence

namespace HistoricalRegistryAuthority

variable (authority : HistoricalRegistryAuthority)

def registryVersion : Nat := authority.state.registryVersion

def registryHeadHash : ObjectHash := authority.state.registryHeadHash

def organizationId : OrganizationId := authority.state.root.fields.organizationId

def activeCertificateFields (hash : CertificateHash) : Option DeviceCertificateFields :=
  (authority.state.activeCertificate hash authority.sequence).map (·.fields)

/-- All certificates, active or not. -/
def knownCertificateFields : List (CertificateHash × DeviceCertificateFields) :=
  authority.state.certificates.toList.map fun known => (known.1, known.2.fields)

/-- The change of writers in effect. -/
def effectiveWriterTransition : Option EffectiveWriterTransition :=
  authority.state.writerTransition

def activeOperatorBindingFields (hash : ObjectHash) : Option OperatorBindingFields :=
  (authority.state.activeOperatorBinding hash authority.sequence).map (·.fields)

def policyFields : PolicyFields := authority.policy.fields

def resolve : SignerCertificateResolver := authority.state.resolveSelected authority.sequence

/-- The receipt is one of this chain, signed under this head. -/
def verifyReceipt (receipt : Parsed Receipt) : Except TrustError Unit := do
  ensure (receipt.value.core.chainId = authority.chain) .actionMismatch
  let _ ← verifyReceiptTime authority.state receipt

/-- The checkpoint is one of this chain, signed under this head. -/
def verifyCheckpoint (evidence : Parsed EvidenceObject) : Except TrustError Unit := do
  let .standard core _ := evidence.value | throw .timeSourceUnsupported
  ensure (core.chainId = authority.chain) .actionMismatch
  let _ ← verifyCheckpointTime authority.state evidence

end HistoricalRegistryAuthority

/-- The look-ahead: the successor must not have taken effect at the sequence.  A successor that
does not apply is passed over. -/
def requireBeforeSuccessor (trust : VerifiedTrust) (topology : RegistryTopology) (version : Nat)
    (line : Line) (sequence : Nat) : Except RegistryError Unit := do
  let some next := checkedAdd version 1 | return ()
  let some successor ← topology.exact next (some line.state.registryHeadHash) | return ()
  let event ← loadRegistryEvent trust.catalog successor.objectHash
  ensure (match verifyAndApplyRegistryEvent trust line event with
    | .ok (_, next) => sequence < next.state.effectiveFromSequence
    | .error _ => true) .sequenceLease

/-- `verify_historical_registry_authority`.  A replayed head has a policy
(`exists_policy_of_lineAt`), so that the last error never occurs. -/
def verifyHistoricalRegistryAuthority (trust : VerifiedTrust) (version : Nat) (hash : ObjectHash)
    (sequence : Nat) : Except RegistryError HistoricalRegistryAuthority := do
  let topology := RegistryTopology.build trust
  let line ← replayToPin trust topology ⟨version, hash⟩
  if hlease : line.state.effectiveFromSequence ≤ sequence ∧
      sequence ≤ line.state.validThroughSequence then
    requireBeforeSuccessor trust topology version line sequence
    match hpolicy : line.state.policy with
    | some policy =>
      return ⟨line.state, trust.chainId, sequence, policy, hpolicy, hlease.1, hlease.2⟩
    | none => throw .policyMismatch
  else throw .sequenceLease

/-! ## 3. The authority holds its sequence -/

section Holds

variable {trust : VerifiedTrust} {version sequence tip : Nat} {hash : ObjectHash}
  {authority : HistoricalRegistryAuthority} {line last : Line}

/-- What the success of `verifyHistoricalRegistryAuthority` establishes. -/
theorem verifyHistoricalRegistryAuthority_eq_ok
    (h : verifyHistoricalRegistryAuthority trust version hash sequence = .ok authority) :
    1 ≤ version ∧ version ≤ u64Max ∧ (∃ line, lineAt trust version = some line ∧
      line.state.registryHeadHash = hash ∧ authority.state = line.state ∧
      requireBeforeSuccessor trust (RegistryTopology.build trust) version line sequence = .ok ()) ∧
      authority.chain = trust.chainId ∧ authority.sequence = sequence := by
  simp only [verifyHistoricalRegistryAuthority, bind_eq_ok, replayToPin_eq_ok] at h
  obtain ⟨line, ⟨hp, hm, hl, hh⟩, h⟩ := h
  split at h
  · simp only [bind_eq_ok] at h
    obtain ⟨⟨⟩, hb, h⟩ := h
    split at h
    · cases h
      exact ⟨hp, hm, ⟨line, hl, hh, rfl, hb⟩, rfl, rfl⟩
    · simp at h
  · simp at h

theorem exists_authority_of_lineAt (hpo : 1 ≤ version) (hm : version ≤ u64Max)
    (hl : lineAt trust version = some line)
    (hs : line.state.effectiveFromSequence ≤ sequence)
    (hst : sequence ≤ line.state.validThroughSequence)
    (hb : requireBeforeSuccessor trust (RegistryTopology.build trust) version line sequence =
      .ok ()) :
    ∃ authority, verifyHistoricalRegistryAuthority trust version line.state.registryHeadHash
      sequence = .ok authority := by
  obtain ⟨pol, hp⟩ := exists_policy_of_lineAt hl hpo
  refine ⟨⟨line.state, trust.chainId, sequence, pol, hp, hs, hst⟩, ?_⟩
  simp only [verifyHistoricalRegistryAuthority, bind_eq_ok, replayToPin_eq_ok]
  refine ⟨line, ⟨hpo, hm, hl, rfl⟩, ?_⟩
  rw [dif_pos ⟨hs, hst⟩, bind_eq_ok]
  refine ⟨(), hb, ?_⟩
  split
  · next hpolicy' =>
      obtain rfl : pol = _ := by simpa [hp] using hpolicy'
      rfl
  · next hn => simp [hp] at hn

/-- The look-ahead passes as long as the successor on the line has not started at the sequence. -/
theorem requireBeforeSuccessor_eq_ok_iff {next : Line} (hp : 1 ≤ version)
    (hl : lineAt trust version = some line) (hn : lineAt trust (version + 1) = some next) :
    requireBeforeSuccessor trust (RegistryTopology.build trust) version line sequence = .ok () ↔
      (version + 1 ≤ u64Max → sequence < next.state.effectiveFromSequence) := by
  obtain ⟨line', _, hline', hr⟩ := lineAt_succ_eq_some.mp hn
  obtain rfl : line = line' := by simpa [hl] using hline'
  obtain ⟨_, hf, rfl, _, hlo, _, ha⟩ := replayVersion_eq_some_iff.mp hr
  rw [previousHash, if_neg (by omega)] at hf
  by_cases hm : version + 1 ≤ u64Max
  · simp [requireBeforeSuccessor, checkedAdd, hm, hf, hlo, ha]
  · simp [requireBeforeSuccessor, checkedAdd, hm]

/-- At the end of the line there is nothing to look ahead to. -/
theorem requireBeforeSuccessor_of_isTip (hp : 1 ≤ version) (ht : IsTip trust version line) :
    requireBeforeSuccessor trust (RegistryTopology.build trust) version line sequence = .ok () := by
  obtain ⟨-, -, he, -⟩ := ht
  rw [previousHash, if_neg (by omega)] at he
  unfold requireBeforeSuccessor
  split
  · next heq =>
      obtain ⟨rfl, -⟩ := checkedAdd_eq_some.mp heq
      simp [he]
  · rfl

/-- **An authority holds its sequence** on every line that reaches it. -/
theorem holds_of_verifyHistoricalRegistryAuthority (hl : lineAt trust tip = some last)
    (hm : tip ≤ u64Max) (hle : version ≤ tip)
    (h : verifyHistoricalRegistryAuthority trust version hash sequence = .ok authority) :
    Lease.Holds (startOf trust) (stopOf trust) tip version sequence := by
  obtain ⟨hp, -, ⟨_, hli, -, hs, hb⟩, -, hse⟩ := verifyHistoricalRegistryAuthority_eq_ok h
  have hst := authority.start_le
  have hso := authority.le_stop
  rw [hs, hse] at hst hso
  refine ⟨hp, hle, startOf_eq hli ▸ hst, stopOf_eq hli ▸ hso, fun hlt => ?_⟩
  obtain ⟨_, hn⟩ := exists_lineAt_of_le hl hlt
  rw [startOf_eq hn]
  exact (requireBeforeSuccessor_eq_ok_iff hp hli hn).mp hb (by omega)

/-- **A version that holds a sequence is an authority for it.** -/
theorem exists_authority_of_holds (ht : IsTip trust tip last)
    (h : Lease.Holds (startOf trust) (stopOf trust) tip version sequence) :
    ∃ hash authority, verifyHistoricalRegistryAuthority trust version hash sequence =
      .ok authority := by
  obtain ⟨line, hl⟩ := exists_lineAt_of_le ht.1 h.le_tip
  have hm : version ≤ u64Max := by have := ht.2.1; have := h.le_tip; omega
  refine ⟨line.state.registryHeadHash, exists_authority_of_lineAt h.pos hm hl
    (startOf_eq hl ▸ h.start_le) (stopOf_eq hl ▸ h.le_stop) ?_⟩
  rcases h.le_tip.eq_or_lt with rfl | hlt
  · obtain rfl : line = last := by simpa [hl] using ht.1
    exact requireBeforeSuccessor_of_isTip h.pos ht
  · obtain ⟨_, hn⟩ := exists_lineAt_of_le ht.1 hlt
    exact (requireBeforeSuccessor_eq_ok_iff h.pos hl hn).mpr fun _ =>
      startOf_eq hn ▸ h.before_successor hlt

/-- Two authorities on one line: the later sequence has the later version. -/
theorem version_le_of_authorities {version' sequence' : Nat} {hash' : ObjectHash}
    {authority' : HistoricalRegistryAuthority}
    (h : verifyHistoricalRegistryAuthority trust version hash sequence = .ok authority)
    (h' : verifyHistoricalRegistryAuthority trust version' hash' sequence' = .ok authority')
    (hle : sequence ≤ sequence') : version ≤ version' := by
  obtain ⟨-, hm, ⟨_, hl, -⟩, -⟩ := verifyHistoricalRegistryAuthority_eq_ok h
  obtain ⟨-, _, ⟨_, _, -⟩, -⟩ := verifyHistoricalRegistryAuthority_eq_ok h'
  -- the longer of the two replays is a line both versions lie on
  rcases Nat.le_total version version' with hv | hv
  · exact hv
  · exact (lease_line hl).mono (holds_of_verifyHistoricalRegistryAuthority hl hm le_rfl h)
      (holds_of_verifyHistoricalRegistryAuthority hl hm hv h') hle

end Holds

/-- **The historical authorities partition the chain.**  At most one head is an authority over a
sequence; when the line replays to its tip, every sequence from the start of its first event to
the end of its last one has exactly one. -/
theorem historicalRegistryAuthority_partition (trust : VerifiedTrust) (sequence : Nat) :
    (∀ version hash authority version' hash' authority',
      verifyHistoricalRegistryAuthority trust version hash sequence = .ok authority →
      verifyHistoricalRegistryAuthority trust version' hash' sequence = .ok authority' →
      version = version' ∧ hash = hash') ∧
    ∀ firstHash first tip, replayToExactPin trust ⟨1, firstHash⟩ = .ok first →
      replayToLineTip trust = .ok tip → first.effectiveFromSequence ≤ sequence →
      sequence ≤ tip.validThroughSequence →
      ∃! pin : RegistryHeadPin, ∃ authority, verifyHistoricalRegistryAuthority trust
        pin.registryVersion pin.registryHeadHash sequence = .ok authority := by
  have unique : ∀ version hash authority version' hash' authority',
      verifyHistoricalRegistryAuthority trust version hash sequence = .ok authority →
      verifyHistoricalRegistryAuthority trust version' hash' sequence = .ok authority' →
      version = version' ∧ hash = hash' := by
    intro version hash authority version' hash' authority' h h'
    obtain rfl : version = version' :=
      le_antisymm (version_le_of_authorities h h' le_rfl) (version_le_of_authorities h' h le_rfl)
    obtain ⟨-, -, ⟨line, hli, rfl, -⟩, -⟩ := verifyHistoricalRegistryAuthority_eq_ok h
    obtain ⟨-, -, ⟨line', hline', rfl, -⟩, -⟩ := verifyHistoricalRegistryAuthority_eq_ok h'
    obtain rfl : line = line' := by simpa [hli] using hline'
    exact ⟨rfl, rfl⟩
  refine ⟨unique, fun firstHash first tipState hf ht hs hst => ?_⟩
  obtain ⟨tip, last, hl, rfl⟩ := replayToLineTip_eq_ok.mp ht
  simp only [replayToExactPin, ok_iff, replayToPin_eq_ok] at hf
  obtain ⟨line, ⟨-, -, hli, -⟩, rfl⟩ := hf
  have hp : 1 ≤ tip := by
    by_contra hz
    -- nothing follows the bootstrap state, but version one was replayed
    obtain rfl : tip = 0 := by omega
    obtain ⟨_, _, hz, hr⟩ := lineAt_succ_eq_some.mp hli
    obtain ⟨_, hfo, -⟩ := replayVersion_eq_some_iff.mp hr
    have hn := hl.2.2.1
    cases hn.symm.trans hfo
  obtain ⟨version, hh⟩ := (lease_line hl.1).exists_holds hp
    (startOf_eq hli ▸ hs) (stopOf_eq hl.1 ▸ hst)
  obtain ⟨hash, authority, h⟩ := exists_authority_of_holds hl hh
  refine ⟨⟨version, hash⟩, ⟨authority, h⟩, ?_⟩
  rintro ⟨version', hash'⟩ ⟨authority', h'⟩
  obtain ⟨rfl, rfl⟩ := unique _ _ _ _ _ _ h h'
  rfl

end Einsatzarchiv.Trust
