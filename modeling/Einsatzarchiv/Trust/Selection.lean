/-
  File:      Einsatzarchiv/Trust/Selection.lean
  Subject:   From verified trust to a selected registry head (crate `ea-trust`, `registry.rs`,
             `time.rs` and `clock_release.rs`), and small organizations given by a table.

  * `verifyRegistryCandidate`: the head that may be selected next, the pinned one or its direct
    successor.
  * `mergeSources`, `commitMerged`, `localTimeBlock`: the three parts of `prepareLocalTime`,
    which merges signed times into the persisted time and evaluates the clock.
  * `verifyClockRelease`: the audited release of a clock that runs too far ahead.
  * `selectRegistryHead`, `selectStaleWriterRegistryHead`, `verifyCurrentHeadFallback`,
    `reauthenticationTime`: what a candidate and its local time are used for.

  Functions that write return the store after them.
  The primitives are instantiated so that a verification can be evaluated: a blob names its object
  in its last byte, the table says what the object is, and every signature by a known key holds.

  * `tableCrypto`, `tableSource`: the primitives and the objects of a table.
  * `organization`: the trust objects of an organization with one writer and one server.
-/
import Einsatzarchiv.Trust.Historical

namespace Einsatzarchiv.Trust

open Lib Format

section

open Time

/-- `Arc`: a value and where it was allocated.  `Arc::ptr_eq` compares the addresses. -/
structure Arc (α : Type) where
  address : Nat
  value : α

/-- The same allocation. -/
def Arc.ptrEq {α : Type} (a b : Arc α) : Bool := a.address = b.address

variable [Crypto]

/-! ## 1. Candidates -/

/-- The verified successor that a fallback to the current head waits for. -/
structure FallbackSuccessorBarrier where
  registryVersion : Nat
  registryHeadHash : ObjectHash
  event : RegistryEventFields

/-- When the successor may be selected. -/
def FallbackSuccessorBarrier.readyAt (barrier : FallbackSuccessorBarrier) : Int :=
  max barrier.event.issuedAt barrier.event.notBefore

/-- The successor follows this head and is not ready yet. -/
def FallbackSuccessorBarrier.requirePending (barrier : FallbackSuccessorBarrier)
    (currentVersion : Nat) (currentHash : ObjectHash) (now : Int) : Except RegistryError Unit := do
  ensure (!(barrier.registryVersion ≤ currentVersion ∨ barrier.registryHeadHash = currentHash
    ∨ barrier.event.registryVersion ≠ barrier.registryVersion)) (.trust .stateConflict)
  ensure (now < barrier.readyAt) .successorReady

/-- A head that may be selected, and the state it was verified against. -/
structure RegistryCandidate where
  chainId : ChainId
  registryVersion : Nat
  registryHeadHash : ObjectHash
  preexistingAuthority : Option (Arc PreviousHeadState)
  candidateState : Arc PreviousHeadState
  (targetPolicy guardPolicy : ResolvedPolicy)
  headEvent : RegistryEventFields
  stateKey : TrustStateKey
  stateRevision : Nat
  trustedTime : TrustedTimeState
  originalPin : Option RegistryHeadPin
  (proposedSequence preTransitionSequence : Nat)
  fallbackBarrier : Option FallbackSuccessorBarrier

section

variable (trust : VerifiedTrust)

/-- `current_candidate`: the pinned head once more; its state is allocated at `address`. -/
def currentCandidate (state : PreviousHeadState) (pin : RegistryHeadPin)
    (proposedSequence address : Nat) : Except RegistryError RegistryCandidate := do
  ensure (!(proposedSequence < state.effectiveFromSequence
    ∨ state.validThroughSequence < proposedSequence)) .sequenceLease
  let targetPolicy ← okOr state.policy (.trust .actionMismatch)
  let headEvent ← okOr state.headEvent .rollback
  return {
    chainId := trust.chainId
    registryVersion := pin.registryVersion
    registryHeadHash := pin.registryHeadHash
    preexistingAuthority := some ⟨address, state⟩
    candidateState := ⟨address, state⟩
    targetPolicy
    guardPolicy := targetPolicy
    headEvent
    stateKey := trust.stateKey
    stateRevision := trust.stateRevision
    trustedTime := trust.trustedTime
    originalPin := some pin
    proposedSequence
    preTransitionSequence := proposedSequence
    fallbackBarrier := none }

/-- The direct successor of the line, judged on it; its state is allocated right after that of
the line. -/
def successorCandidate (line : Line) (event : RegistryEvent)
    (proposedSequence address : Nat) : Except RegistryError RegistryCandidate := do
  let (preTransitionSequence, next) ← verifyAndApplyRegistryEvent trust line event
  let targetPolicy ← okOr next.state.policy (.trust .actionMismatch)
  return {
    chainId := trust.chainId
    registryVersion := event.fields.registryVersion
    registryHeadHash := event.objectHash
    preexistingAuthority := trust.pinnedHead.map fun _ => ⟨address, line.state⟩
    candidateState := ⟨address + 1, next.state⟩
    targetPolicy
    guardPolicy := line.state.policy.getD targetPolicy
    headEvent := event.fields
    stateKey := trust.stateKey
    stateRevision := trust.stateRevision
    trustedTime := trust.trustedTime
    originalPin := trust.pinnedHead
    proposedSequence
    preTransitionSequence
    fallbackBarrier := none }

/-- The line up to the pinned head. -/
def pinnedLine : Except RegistryError Line :=
  match trust.pinnedHead with
  | some pin => replayToPin trust (RegistryTopology.build trust) pin
  | none => .ok (Line.start trust)

/-- The version after a pin. -/
def nextVersion : Option RegistryHeadPin → Option Nat
  | some pin => checkedAdd pin.registryVersion 1
  | none => some 1

/-- `verify_registry_candidate`; it may allocate at `address` and right after it. -/
def verifyRegistryCandidate (proposedSequence address : Nat) :
    Except RegistryError RegistryCandidate := do
  ensure (!trust.pinnedHead.any (·.registryVersion = u64Max)) .overflow
  let topology := RegistryTopology.build trust
  let line ← pinnedLine trust
  let nextVersion ← okOr (nextVersion trust.pinnedHead) .overflow
  let direct ← topology.exact nextVersion (trust.pinnedHead.map (·.registryHeadHash))
  match direct with
  | none =>
    ensure (!topology.hasLaterThan nextVersion) .gap
    let pin ← okOr trust.pinnedHead .rollback
    currentCandidate trust line.state pin proposedSequence address
  | some direct =>
    let event ← loadRegistryEvent trust.catalog direct.objectHash
    if proposedSequence < event.fields.effectiveFromSequence then
      let pin ← okOr trust.pinnedHead .sequenceLease
      currentCandidate trust line.state pin proposedSequence address
    else
      successorCandidate trust line event proposedSequence address

end

/-- `candidate_is_current`. -/
def candidateIsCurrent (candidate : RegistryCandidate) : Bool :=
  candidate.originalPin.any fun pin =>
    pin.registryVersion = candidate.registryVersion
      && pin.registryHeadHash = candidate.registryHeadHash
      && candidate.preexistingAuthority.any (·.ptrEq candidate.candidateState)

/-! ## 2. Local time -/

/-- What the operator has to know about the clock. -/
structure TimeWarnings where
  (clockRollback independentTimeUnavailable : Bool)
deriving DecidableEq

def warnings (evaluation : TimeEvaluation) : TimeWarnings :=
  ⟨evaluation.clockRollback, evaluation.independentTimeUnavailable⟩

/-- A time that was evaluated for a candidate. -/
structure LocalTimeBlock where
  candidateState : Arc PreviousHeadState
  stateKey : TrustStateKey
  expectedRevision : Nat
  trustedTime : TrustedTimeState
  pinnedHead : Option RegistryHeadPin
  observedOsWallClock : Int
  candidateRegistryVersion : Nat
  (candidateRegistryHeadHash guardPolicyObjectHash : ObjectHash)
  (proposedSequence preTransitionSequence : Nat)
  evaluation : TimeEvaluation
  fallbackBarrier : Option FallbackSuccessorBarrier

/-- What an error of the time means for the trust verification. -/
def mapTimeError : TimeError → TrustError
  | .overflow => .timeOverflow
  | .stateMonotonicity => .stateMonotonicity

/-- The time of a candidate with signed sources merged into it, and whether they changed it. -/
structure MergedTime where
  nextTrustedTime : TrustedTimeState
  changed : Bool

/-- One round of the loop over the sources. -/
def mergeSource (merged : MergedTime) (source : VerifiedSignedTime) : MergedTime :=
  let next := mergeIndependentReferences merged.nextTrustedTime [source.input]
  ⟨next, merged.changed
    || next.independentReference ≠ merged.nextTrustedTime.independentReference⟩

section

variable (store : EphemeralTrustStateStore) (candidate : RegistryCandidate)

/-- The first part of `prepare_local_time`: the persisted record is still that of the candidate,
and the sources were signed under its pin. -/
def mergeSources (sources : List VerifiedSignedTime) : Except TrustError MergedTime := do
  let persisted ← (store.load candidate.stateKey).mapError mapStoreError
  ensure (persisted.revision = candidate.stateRevision
    ∧ persisted.trustedTime = candidate.trustedTime
    ∧ persisted.pinnedHead = candidate.originalPin) .stateConflict
  ensure (sources.all fun source => some source.authorityHead = candidate.originalPin)
    .stateConflict
  return sources.foldl mergeSource ⟨persisted.trustedTime, false⟩

/-- The second part: a changed time is committed at the revision of the candidate.  Returns the
store with the revision and the time that are persisted now. -/
def commitMerged (merged : MergedTime) :
    Except TrustError (EphemeralTrustStateStore × Nat × TrustedTimeState) :=
  if merged.changed then do
    let next ← (store.commitIndependentTime candidate.stateKey candidate.stateRevision
      ⟨merged.nextTrustedTime⟩).mapError mapStoreError
    ensure (!(next.revision ≤ candidate.stateRevision
      ∨ next.trustedTime ≠ merged.nextTrustedTime
      ∨ next.pinnedHead ≠ candidate.originalPin)) .stateConflict
    return (next, next.revision, next.trustedTime)
  else return (store, candidate.stateRevision, candidate.trustedTime)

end

/-- The third part: the clock against the time that now is persisted. -/
def localTimeBlock (candidate : RegistryCandidate) (expectedRevision : Nat)
    (trustedTime : TrustedTimeState) (osWallClock : Int) : Except TrustError LocalTimeBlock := do
  let evaluation ← (evaluatePreexistingTime osWallClock trustedTime
    candidate.guardPolicy.fields.maxFutureClockSkewMs).mapError mapTimeError
  return {
    candidateState := candidate.candidateState
    stateKey := candidate.stateKey
    expectedRevision
    trustedTime
    pinnedHead := candidate.originalPin
    observedOsWallClock := osWallClock
    candidateRegistryVersion := candidate.registryVersion
    candidateRegistryHeadHash := candidate.registryHeadHash
    guardPolicyObjectHash := candidate.guardPolicy.objectHash
    proposedSequence := candidate.proposedSequence
    preTransitionSequence := candidate.preTransitionSequence
    evaluation
    fallbackBarrier := candidate.fallbackBarrier }

/-- `prepare_local_time`.  A time that was committed stays committed when its evaluation fails. -/
def prepareLocalTime (store : EphemeralTrustStateStore) (candidate : RegistryCandidate)
    (osWallClock : Int) (sources : List VerifiedSignedTime) :
    EphemeralTrustStateStore × Except TrustError LocalTimeBlock :=
  match mergeSources store candidate sources with
  | .error error => (store, .error error)
  | .ok merged =>
    match commitMerged store candidate merged with
    | .error error => (store, .error error)
    | .ok (next, revision, trustedTime) =>
      (next, localTimeBlock candidate revision trustedTime osWallClock)

/-! ## 3. Clock releases -/

/-- Why the release of a clock is refused. -/
inductive ClockReleaseError
  | trust (error : TrustError)
  | mismatch
  | expired

/-- How an audited operation ended. -/
inductive LocalAuditOutcome
  | failed | accepted | completed
deriving DecidableEq

/-- What a clock release was signed for; its justification is not read. -/
structure ClockReleaseContext where
  (trustedTimeFloor observedOsWallClock : Int)
  (maxFutureClockSkewMs registryVersion : Nat)
  (registryHeadHash guardPolicyObjectHash : ObjectHash)
  independentReference : IndependentTimeReference
  (issuedAt expiresAt : Int)

structure ClockReleaseAudit where
  organizationId : OrganizationId
  targetDeviceId : DeviceId
  (adminOperatorBindingObjectHash signerCertificateObjectHash : ObjectHash)
  outcome : LocalAuditOutcome
  effectiveNow : Int
  context : ClockReleaseContext
  nonce : Hash32
  (exactCore exactCose : Bytes)

/-- Local audits: their decoder, and the verification of the signature over their core by a signer
in a role at a sequence and a registry version. -/
class LocalAudits where
  decodeClockReleaseAudit : Bytes → Option ClockReleaseAudit
  verifyLocalAudit : ClockReleaseAudit → SignerCertificateResolver → Nat → SignerRole → Nat →
    Except CryptoError VerifiedSigner

/-- What makes a release usable once. -/
def ClockReleaseReplayKey.fromVerifiedAudit (audit : ClockReleaseAudit) : ClockReleaseReplayKey :=
  ⟨audit.organizationId, audit.targetDeviceId, audit.nonce⟩

structure VerifiedClockRelease where
  candidateState : Arc PreviousHeadState
  stateKey : TrustStateKey
  expectedRevision : Nat
  trustedTime : TrustedTimeState
  pinnedHead : Option RegistryHeadPin
  observedOsWallClock : Int
  (proposedSequence preTransitionSequence : Nat)
  rawNow : Int
  warnings : TimeWarnings
  futureSkew : FutureSkew
  audit : ClockReleaseAudit
  replayKey : ClockReleaseReplayKey

/-- What an error of the signature means for a release. -/
def mapClockReleaseCryptoError : CryptoError → ClockReleaseError
  | .signerUnresolved | .signerUnauthorized => .trust .signerInactive
  | _ => .trust .signature

section

variable (candidate : RegistryCandidate) (localTime : LocalTimeBlock)

/-- Whether a block of local time was prepared for the candidate; both the selection and the clock
release start with this comparison. -/
def candidateBlockMatches : Bool :=
  candidate.candidateState.ptrEq localTime.candidateState && candidate.stateKey = localTime.stateKey
    && candidate.stateRevision ≤ localTime.expectedRevision
    && candidate.originalPin = localTime.pinnedHead
    && candidate.registryVersion = localTime.candidateRegistryVersion
    && candidate.registryHeadHash = localTime.candidateRegistryHeadHash
    && candidate.guardPolicy.objectHash = localTime.guardPolicyObjectHash
    && candidate.proposedSequence = localTime.proposedSequence
    && candidate.preTransitionSequence = localTime.preTransitionSequence

/-- The clock of this candidate is blocked. -/
def requireCandidateBlockPreflight :
    Except ClockReleaseError Unit := do
  let expected ← (evaluatePreexistingTime localTime.observedOsWallClock localTime.trustedTime
    candidate.guardPolicy.fields.maxFutureClockSkewMs).mapError fun _ => .mismatch
  ensure (candidateBlockMatches candidate localTime ∧ localTime.evaluation = expected) .mismatch

/-- An administrator of the head before has signed. -/
def requirePreviousAdmin (previous : PreviousHeadState) (audit : ClockReleaseAudit)
    (signer : VerifiedSigner) (preTransitionSequence : Nat) : Except ClockReleaseError Unit := do
  let certificateHash := audit.signerCertificateObjectHash
  let certificate ← okOr previous.adminCertificates[certificateHash]? (.trust .signature)
  ensure (certificate.objectHash = certificateHash
    ∧ certificate.fields.organizationId = audit.organizationId
    ∧ certificate.fields.deviceId = audit.targetDeviceId
    ∧ certificate.fields.certificateKind = .organizationAdmin
    ∧ certificate.fields.signingKeyThumbprint = some signer.keyThumbprint
    ∧ certificate.fields.capabilities.contains "organizationAdminApprove") (.trust .signature)
  ensure (certificateActive certificate preTransitionSequence) (.trust .signerInactive)
  let subject ← okOr signer.authoritySubjectId .mismatch
  ensure (certificate.fields.authoritySubjectId = some subject) .mismatch
  let bindingHash := audit.adminOperatorBindingObjectHash
  let binding ← okOr previous.adminBindings[bindingHash]? .mismatch
  ensure (binding.objectHash = bindingHash
    ∧ binding.fields.organizationId = audit.organizationId
    ∧ binding.fields.operatorRole = .organizationAdmin
    ∧ binding.fields.deviceCertificateHash = certificateHash
    ∧ binding.fields.operatorSubjectId = subject) .mismatch
  ensure (bindingActive binding preTransitionSequence) (.trust .signerInactive)

/-- The release is about this candidate and this time. -/
def requireSignedCorrelations (audit : ClockReleaseAudit) : Except ClockReleaseError Unit := do
  let context := audit.context
  ensure (audit.organizationId = candidate.stateKey.organizationId
    ∧ audit.targetDeviceId = candidate.stateKey.deviceId
    ∧ audit.outcome = .accepted
    ∧ audit.effectiveNow = localTime.evaluation.rawNow
    ∧ context.trustedTimeFloor = localTime.trustedTime.floor
    ∧ context.observedOsWallClock = localTime.observedOsWallClock
    ∧ context.maxFutureClockSkewMs = candidate.guardPolicy.fields.maxFutureClockSkewMs
    ∧ context.registryVersion = candidate.registryVersion
    ∧ context.registryHeadHash = candidate.registryHeadHash
    ∧ context.guardPolicyObjectHash = candidate.guardPolicy.objectHash
    ∧ localTime.evaluation.futureSkew = .blocked) .mismatch
  ensure (context.independentReference.kind ≠ .tsa) (.trust .timeSourceUnsupported)
  let reference ← okOr localTime.trustedTime.independentReference .mismatch
  ensure (reference = context.independentReference) .mismatch
  let rawNow := localTime.evaluation.rawNow
  ensure (context.issuedAt ≤ rawNow ∧ rawNow ≤ context.expiresAt) .expired

end

/-- `verify_clock_release`. -/
def verifyClockRelease [LocalAudits] (store : EphemeralTrustStateStore)
    (candidate : RegistryCandidate) (localTime : LocalTimeBlock) (exactAuditBytes : Bytes) :
    Except ClockReleaseError VerifiedClockRelease := do
  requireCandidateBlockPreflight candidate localTime
  let audit ← okOr (LocalAudits.decodeClockReleaseAudit exactAuditBytes) .mismatch
  let previous ← okOr candidate.preexistingAuthority .mismatch
  let signer ← (LocalAudits.verifyLocalAudit audit previous.value.previousHeadResolver
    localTime.preTransitionSequence .organizationAdmin
    previous.value.registryVersion).mapError mapClockReleaseCryptoError
  requirePreviousAdmin previous.value audit signer localTime.preTransitionSequence
  requireSignedCorrelations candidate localTime audit
  let replayKey := ClockReleaseReplayKey.fromVerifiedAudit audit
  ensure (!store.clockReleaseConsumed replayKey) (.trust .clockReleaseReplay)
  return {
    candidateState := candidate.candidateState
    stateKey := localTime.stateKey
    expectedRevision := localTime.expectedRevision
    trustedTime := localTime.trustedTime
    pinnedHead := localTime.pinnedHead
    observedOsWallClock := localTime.observedOsWallClock
    proposedSequence := localTime.proposedSequence
    preTransitionSequence := localTime.preTransitionSequence
    rawNow := localTime.evaluation.rawNow
    warnings := warnings localTime.evaluation
    futureSkew := localTime.evaluation.futureSkew
    audit
    replayKey }

/-- `into_selection_replay_key`. -/
def intoSelectionReplayKey (release : VerifiedClockRelease) (candidate : RegistryCandidate)
    (localTime : LocalTimeBlock) : Except RegistryError ClockReleaseReplayKey := do
  let context := release.audit.context
  ensure (release.candidateState.ptrEq candidate.candidateState
    ∧ release.candidateState.ptrEq localTime.candidateState
    ∧ release.stateKey = candidate.stateKey
    ∧ release.stateKey = localTime.stateKey
    ∧ release.expectedRevision = localTime.expectedRevision
    ∧ release.trustedTime = localTime.trustedTime
    ∧ release.pinnedHead = localTime.pinnedHead
    ∧ release.observedOsWallClock = localTime.observedOsWallClock
    ∧ release.proposedSequence = localTime.proposedSequence
    ∧ release.preTransitionSequence = localTime.preTransitionSequence
    ∧ release.rawNow = localTime.evaluation.rawNow
    ∧ release.warnings = warnings localTime.evaluation
    ∧ release.futureSkew = localTime.evaluation.futureSkew
    ∧ release.futureSkew = .blocked
    ∧ release.audit.organizationId = candidate.stateKey.organizationId
    ∧ release.audit.targetDeviceId = candidate.stateKey.deviceId
    ∧ release.audit.effectiveNow = localTime.evaluation.rawNow
    ∧ context.registryVersion = localTime.candidateRegistryVersion
    ∧ context.registryHeadHash = localTime.candidateRegistryHeadHash
    ∧ context.guardPolicyObjectHash = localTime.guardPolicyObjectHash
    ∧ context.trustedTimeFloor = localTime.trustedTime.floor
    ∧ context.observedOsWallClock = localTime.observedOsWallClock) .futureSkew
  return release.replayKey

/-! ## 4. Selection -/

/-- The time that counts, and what bounds it. -/
structure PreexistingEffectiveNow where
  (value persistedFloor : Int)
  (wallClockCeiling successorReadyAt : Option Int)

/-- A head that may be used, and for which sequences. -/
structure SelectedRegistryHead where
  candidateState : Arc PreviousHeadState
  chainId : ChainId
  registryVersion : Nat
  registryHeadHash : ObjectHash
  policy : ResolvedPolicy
  (effectiveFromSequence validThroughSequence proposedSequence : Nat)
  (headEventNotAfter headEventIssuedAt : Int)
  preexistingEffectiveNow : PreexistingEffectiveNow
  warnings : TimeWarnings
  committedRevision : Nat

structure AdvancedRegistryHead where
  registryVersion : Nat
  registryHeadHash : ObjectHash
  committedRevision : Nat

/-- A successor whose time has not come. -/
structure PendingFutureSuccessor where
  (candidateState preexistingState : Arc PreviousHeadState)
  stateKey : TrustStateKey
  expectedRevision : Nat
  trustedTime : TrustedTimeState
  pinnedHead : Option RegistryHeadPin
  observedOsWallClock : Int
  candidateRegistryVersion : Nat
  (candidateRegistryHeadHash guardPolicyObjectHash : ObjectHash)
  (proposedSequence preTransitionSequence : Nat)
  rawNow : Int
  warnings : TimeWarnings
  futureSkew : FutureSkew
  successorEvent : RegistryEventFields

/-- How a selection ended. -/
inductive RegistrySelectionOutcome
  | selected (head : SelectedRegistryHead)
  | advanced (head : AdvancedRegistryHead)
  | pendingFuture (pending : PendingFutureSuccessor)

/-- The head moves to the successor. -/
def RegistrySelectionCommit.advanceHead (nextTrustedTime : TrustedTimeState)
    (nextHead : RegistryHeadPin) (replayKey : Option ClockReleaseReplayKey) :
    RegistrySelectionCommit := ⟨nextTrustedTime, nextHead, replayKey⟩

/-- The head stays. -/
def RegistrySelectionCommit.compareAndAffirm (trustedTime : TrustedTimeState)
    (currentHead : RegistryHeadPin) (replayKey : Option ClockReleaseReplayKey) :
    RegistrySelectionCommit := ⟨trustedTime, currentHead, replayKey⟩

def requireCandidateLocalTime (candidate : RegistryCandidate) (localTime : LocalTimeBlock) :
    Except RegistryError Unit :=
  ensure (candidateBlockMatches candidate localTime) (.trust .stateConflict)

/-- `require_release_pairing`: a blocked clock needs a release, any other clock must not have
one. -/
def requireReleasePairing (candidate : RegistryCandidate) (localTime : LocalTimeBlock)
    (release : Option VerifiedClockRelease) :
    Except RegistryError (Option ClockReleaseReplayKey) :=
  match localTime.evaluation.futureSkew, release with
  | .blocked, some release => some <$> intoSelectionReplayKey release candidate localTime
  | .blocked, none | .withinLimit, some _ | .unprovableWithoutIndependentReference, some _ =>
    .error .futureSkew
  | .withinLimit, none | .unprovableWithoutIndependentReference, none => .ok none

/-- `commit_selection`: the store after the commit. -/
def commitSelection (store : EphemeralTrustStateStore) (localTime : LocalTimeBlock)
    (commit : RegistrySelectionCommit) : Except RegistryError EphemeralTrustStateStore := do
  let next ← liftTrust ((store.commitRegistrySelection localTime.stateKey
    localTime.expectedRevision commit).mapError mapStoreError)
  ensure (!(next.revision ≤ localTime.expectedRevision
    ∨ next.trustedTime ≠ commit.nextTrustedTime
    ∨ next.pinnedHead ≠ some commit.nextHead)) (.trust .stateConflict)
  return next

/-- The last time the clock may show by the independent reference and a skew. -/
def ceilingOf (trustedTime : TrustedTimeState) (maxFutureClockSkewMs : Nat) : Option Int :=
  trustedTime.independentReference.map fun reference =>
    min (reference.verifiedTime + maxFutureClockSkewMs) i64Max

section

variable (candidate : RegistryCandidate)

section

variable (localTime : LocalTimeBlock)

/-- How late the wall clock may be. -/
def wallClockCeiling : Option Int :=
  ceilingOf localTime.trustedTime (min candidate.guardPolicy.fields.maxFutureClockSkewMs
    candidate.targetPolicy.fields.maxFutureClockSkewMs)

def selectedHead (committedRevision : Nat) (persistedFloor : Int) : SelectedRegistryHead where
  candidateState := candidate.candidateState
  chainId := candidate.chainId
  registryVersion := candidate.registryVersion
  registryHeadHash := candidate.registryHeadHash
  policy := candidate.targetPolicy
  effectiveFromSequence := candidate.headEvent.effectiveFromSequence
  validThroughSequence := candidate.headEvent.validThroughSequence
  proposedSequence := candidate.proposedSequence
  headEventNotAfter := candidate.headEvent.notAfter
  headEventIssuedAt := candidate.headEvent.issuedAt
  preexistingEffectiveNow := {
    value := localTime.evaluation.rawNow
    persistedFloor
    wallClockCeiling := wallClockCeiling candidate localTime
    successorReadyAt := candidate.fallbackBarrier.map FallbackSuccessorBarrier.readyAt }
  warnings := warnings localTime.evaluation
  committedRevision

/-- The proof that the successor is verified but lies in the future. -/
def pendingSuccessor (preexistingState : Arc PreviousHeadState) : PendingFutureSuccessor where
  candidateState := candidate.candidateState
  preexistingState
  stateKey := localTime.stateKey
  expectedRevision := localTime.expectedRevision
  trustedTime := localTime.trustedTime
  pinnedHead := localTime.pinnedHead
  observedOsWallClock := localTime.observedOsWallClock
  candidateRegistryVersion := localTime.candidateRegistryVersion
  candidateRegistryHeadHash := localTime.candidateRegistryHeadHash
  guardPolicyObjectHash := localTime.guardPolicyObjectHash
  proposedSequence := localTime.proposedSequence
  preTransitionSequence := localTime.preTransitionSequence
  rawNow := localTime.evaluation.rawNow
  warnings := warnings localTime.evaluation
  futureSkew := localTime.evaluation.futureSkew
  successorEvent := candidate.headEvent

end

def isStale (rawNow : Int) : Bool :=
  candidate.headEvent.notAfter < rawNow

/-- The head is not in effect at the sequence. -/
def leaseMiss : Bool :=
  candidate.proposedSequence < candidate.headEvent.effectiveFromSequence
    || candidate.headEvent.validThroughSequence < candidate.proposedSequence

end

/-- A barrier, if there is one, still holds back the successor of a head. -/
def requireBarrier (barrier : Option FallbackSuccessorBarrier) (currentVersion : Nat)
    (currentHash : ObjectHash) (rawNow : Int) : Except RegistryError Unit :=
  match barrier with
  | some barrier => barrier.requirePending currentVersion currentHash rawNow
  | none => .ok ()

section

variable (store : EphemeralTrustStateStore) (candidate : RegistryCandidate)
  (localTime : LocalTimeBlock)

/-- The branch of `select_registry_head` for a successor whose time has not come. -/
def selectPending :
    Except RegistryError (EphemeralTrustStateStore × RegistrySelectionOutcome) := do
  let previous ← okOr candidate.preexistingAuthority .pendingFuture
  ensure (!(candidate.proposedSequence < previous.value.effectiveFromSequence
    ∨ previous.value.validThroughSequence < candidate.proposedSequence)) .pendingFuture
  return (store, .pendingFuture (pendingSuccessor candidate localTime previous))

/-- The branch for the pinned head. -/
def selectCurrent (replayKey : Option ClockReleaseReplayKey) :
    Except RegistryError (EphemeralTrustStateStore × RegistrySelectionOutcome) := do
  let rawNow := localTime.evaluation.rawNow
  requireBarrier candidate.fallbackBarrier candidate.registryVersion candidate.registryHeadHash
    rawNow
  ensure (!isStale candidate rawNow) .stale
  ensure (!leaseMiss candidate) .sequenceLease
  let currentHead ← okOr candidate.originalPin (.trust .stateConflict)
  let next ← commitSelection store localTime
    (.compareAndAffirm localTime.trustedTime currentHead replayKey)
  return (next, .selected (selectedHead candidate localTime next.revision
    localTime.trustedTime.floor))

/-- The branch for a successor whose time has come. -/
def selectSuccessor (replayKey : Option ClockReleaseReplayKey) :
    Except RegistryError (EphemeralTrustStateStore × RegistrySelectionOutcome) := do
  let rawNow := localTime.evaluation.rawNow
  let nextTrustedTime := advanceRegistryFloor localTime.trustedTime candidate.headEvent.issuedAt
    candidate.headEvent.notBefore
  let next ← commitSelection store localTime (.advanceHead nextTrustedTime
    ⟨candidate.registryVersion, candidate.registryHeadHash⟩ replayKey)
  if isStale candidate rawNow || leaseMiss candidate then
    return (next, .advanced
      ⟨candidate.registryVersion, candidate.registryHeadHash, next.revision⟩)
  else
    return (next, .selected (selectedHead candidate localTime next.revision
      nextTrustedTime.floor))

/-- `select_registry_head`. -/
def selectRegistryHead (release : Option VerifiedClockRelease) :
    Except RegistryError (EphemeralTrustStateStore × RegistrySelectionOutcome) := do
  requireCandidateLocalTime candidate localTime
  let replayKey ← requireReleasePairing candidate localTime release
  let rawNow := localTime.evaluation.rawNow
  if candidateIsCurrent candidate then
    selectCurrent store candidate localTime replayKey
  else if rawNow < candidate.headEvent.issuedAt ∨ rawNow < candidate.headEvent.notBefore then
    selectPending store candidate localTime
  else
    selectSuccessor store candidate localTime replayKey

/-- `select_stale_writer_registry_head`: the pinned head past its end, for the writer of a policy
that only warns. -/
def selectStaleWriterRegistryHead :
    Except RegistryError (EphemeralTrustStateStore × SelectedRegistryHead) := do
  requireCandidateLocalTime candidate localTime
  let _ ← requireReleasePairing candidate localTime none
  let rawNow := localTime.evaluation.rawNow
  let policy := candidate.targetPolicy.fields
  ensure (candidateIsCurrent candidate ∧ candidate.headEvent.notAfter < rawNow
    ∧ policy.operatingProfile = 0 ∧ policy.registryExpiryBehavior = 0) .stale
  ensure (!leaseMiss candidate) .sequenceLease
  requireBarrier candidate.fallbackBarrier candidate.registryVersion candidate.registryHeadHash
    rawNow
  let writer ← okOr candidate.candidateState.value.currentWriterCertificateHash .stale
  ensure (candidate.candidateState.value.activeCertificate writer
    candidate.proposedSequence).isSome .stale
  let current ← okOr candidate.originalPin (.trust .stateConflict)
  let next ← commitSelection store localTime
    (.compareAndAffirm localTime.trustedTime current none)
  return (next, selectedHead candidate localTime next.revision localTime.trustedTime.floor)

end

/-- `verify_current_head_fallback`: the pinned head as long as its verified successor lies in the
future. -/
def verifyCurrentHeadFallback (trust : VerifiedTrust) (pending : PendingFutureSuccessor)
    (address : Nat) : Except RegistryError RegistryCandidate := do
  ensure (trust.stateKey = pending.stateKey ∧ trust.stateRevision = pending.expectedRevision
    ∧ trust.trustedTime = pending.trustedTime ∧ trust.pinnedHead = pending.pinnedHead)
    (.trust .stateConflict)
  let direct ← verifyRegistryCandidate trust pending.proposedSequence address
  ensure (direct.registryVersion = pending.candidateRegistryVersion) (.trust .stateConflict)
  ensure (direct.registryHeadHash = pending.candidateRegistryHeadHash) .fork
  ensure (direct.headEvent = pending.successorEvent
    ∧ direct.preTransitionSequence = pending.preTransitionSequence
    ∧ direct.guardPolicy.objectHash = pending.guardPolicyObjectHash) .fork
  ensure (pending.candidateState.value.registryVersion = pending.candidateRegistryVersion
    ∧ pending.candidateState.value.registryHeadHash = pending.candidateRegistryHeadHash)
    (.trust .stateConflict)
  let pinnedHead ← okOr pending.pinnedHead (.trust .stateConflict)
  ensure (pending.preexistingState.value.registryVersion = pinnedHead.registryVersion
    ∧ pending.preexistingState.value.registryHeadHash = pinnedHead.registryHeadHash
    ∧ pending.successorEvent.previousRegistryHash = some pinnedHead.registryHeadHash)
    (.trust .stateConflict)
  let previous ← okOr direct.preexistingAuthority (.trust .stateConflict)
  let current ← currentCandidate trust previous.value pinnedHead pending.proposedSequence
    (address + 2)
  return { current with fallbackBarrier := some {
    registryVersion := pending.candidateRegistryVersion
    registryHeadHash := pending.candidateRegistryHeadHash
    event := pending.successorEvent } }

/-- When the successor of the selected head is due, by the head and by the block. -/
def earliestReady (known : Option Int) (barrier : Option FallbackSuccessorBarrier) :
    Option Int :=
  match barrier with
  | some barrier => some (known.elim barrier.readyAt fun known => min known barrier.readyAt)
  | none => known

/-- `reauthentication_time`: a fresh time under a head that was selected before. -/
def reauthenticationTime (store : EphemeralTrustStateStore) (localTime : LocalTimeBlock)
    (selected : SelectedRegistryHead) :
    Except RegistryError (EphemeralTrustStateStore × PreexistingEffectiveNow) := do
  let rawNow := localTime.evaluation.rawNow
  ensure (localTime.pinnedHead = some ⟨selected.registryVersion, selected.registryHeadHash⟩
    ∧ localTime.candidateRegistryVersion = selected.registryVersion
    ∧ localTime.candidateRegistryHeadHash = selected.registryHeadHash
    ∧ localTime.guardPolicyObjectHash = selected.policy.objectHash
    ∧ localTime.proposedSequence = selected.proposedSequence
    ∧ selected.preexistingEffectiveNow.value ≤ rawNow) (.trust .stateConflict)
  ensure (localTime.evaluation.futureSkew ≠ .blocked) .futureSkew
  requireBarrier localTime.fallbackBarrier localTime.candidateRegistryVersion
    localTime.candidateRegistryHeadHash rawNow
  let successorReadyAt := earliestReady selected.preexistingEffectiveNow.successorReadyAt
    localTime.fallbackBarrier
  ensure (!successorReadyAt.any (· ≤ rawNow)) .successorReady
  let pinnedHead ← okOr localTime.pinnedHead (.trust .stateConflict)
  let next ← commitSelection store localTime
    (.compareAndAffirm localTime.trustedTime pinnedHead none)
  return (next, {
    value := rawNow
    persistedFloor := next.trustedTime.floor
    wallClockCeiling := ceilingOf localTime.trustedTime selected.policy.fields.maxFutureClockSkewMs
    successorReadyAt })

end

/-! ## 5. Objects by table -/

/-- The blob of the object that the table holds under the byte. -/
def blob (name : UInt8) : Bytes := [0x85, 0x44, 0x45, 0x41, 0x31, 0, 1, 1, 0x80, name]

/-- A manifest of the writer under a head of version 3; its entry hash is `100 + nonce`. -/
def manifestUnder (head : Hash32) (sequence nonce : Nat) (previous : Option EntryHash) :
    SignedManifest where
  manifest := {
    organizationId := 1
    chainId := 2
    chainSequence := min sequence u64Max
    previousEntryHash := if sequence = 0 then none else some (previous.getD 0)
    writerCertificateHash := 20
    writerTransitionEventHash := none
    registryVersion := 3
    registryHeadHash := head
    initialGrantPlanHash := 0
    nonce
    chainSequence_le := Nat.min_le_right sequence u64Max
    genesis_iff := by
      unfold u64Max
      split <;> simp <;> omega }
  ciphertextHash := 0

/-- The primitives of a table.  The entry hash is read from the nonce of the manifest. -/
@[reducible] def tableCrypto (table : ObjectHash → Option ArchiveObject) : Crypto where
  objectHash bytes := (bytes.getLastD 0).toNat
  decode bytes :=
    match table (bytes.getLastD 0).toNat with
    | some object => .ok object
    | none => .error .shape
  entryHash manifest _ := 100 + manifest.manifest.nonce
  signedPayload _ := []
  authorizedTrustDigest _ := 0
  grantPlanDigest _ := 0
  renewalInputDigest _ := 0
  publicKey bytes := some (.ed25519 bytes)
  thumbprint
    | .ed25519 point | .x25519 point => (point.headD 0).toNat
  verifyWithKey _ _ := true
  hpkeOpen _ _ := none
  aeadOpen _ _ _ := none
  destructionEvidence _ := none
  operatorProfileCommitment _ := 0

theorem decode_blob (table : ObjectHash → Option ArchiveObject) (name : UInt8) :
    (tableCrypto table).decode (blob name) = (table name.toNat).elim (.error .shape) .ok := by
  have h : (tableCrypto table).decode (blob name) =
      match table name.toNat with
      | some object => .ok object
      | none => .error .shape := rfl
  rw [h]
  cases table name.toNat <;> rfl

/-- A source of the objects with the given names. -/
def tableSource (names : List UInt8) : TrustObjectSource where
  hashes := names.map UInt8.toNat
  failure := none
  readExactTrustObject hash := .ok (some (blob hash.toUInt8))

/-- No release is issued here. -/
@[reducible] def noAudits : LocalAudits where
  decodeClockReleaseAudit _ := none
  verifyLocalAudit _ _ _ _ _ := .error .invalidCose

/-! ## 6. A small organization -/

/-- A signature of the example, by key and certificate. -/
def signedBy (contentType : ContentType) (key certificate : Nat) : CoseSign1 where
  contentType := contentType
  keyThumbprint := key
  certificateHash := some certificate
  payload := []
  signature := []

def trustObject (payload : TrustPayload) (key certificate : Nat) : ArchiveObject :=
  .trust ⟨payload, [signedBy .trustDigest key certificate]⟩

def deviceCertificate (device : DeviceId) (kind : CertificateKind) (key : UInt8)
    (capabilities : List String) (subject : Option SubjectId) : DeviceCertificateFields where
  organizationId := 1
  deviceId := device
  certificateKind := kind
  signingPublicCoseKey := some [key]
  kemPublicCoseKey := none
  signingKeyThumbprint := some key.toNat
  kemKeyThumbprint := none
  capabilities := capabilities
  effectiveFromSequence := 0
  revokedFromSequence := none
  authoritySubjectId := subject

def adminBinding (device subject key : Nat) : OperatorBindingFields where
  organizationId := 1
  operatorSubjectId := subject
  operatorProfileCommitment := 0
  deviceCertificateHash := device
  operatorRole := .organizationAdmin
  osAccountBindingHash := device
  operatorInstanceKeyThumbprint := key
  effectiveFromSequence := 0
  revokedFromSequence := none

/-- The authorization of the first admin for the next change after a head. -/
def adminAuthorization (number version head action : Nat) (target : TrustSubtype) :
    ArchiveObject :=
  trustObject (.organizationAdminAuthorization {
    authorizationId := number
    organizationId := 1
    registryVersion := version
    registryHeadHash := head
    adminKeyThumbprint := 102
    adminCertificateHash := 2
    adminOperatorBindingObjectHash := 4
    actionCode := action
    targetTrustSubtype := target
    authorizedTrustCoreHash := 0
    issuedAt := 0
    expiresAt := 1000
    nonce := number }) 102 2

def registryEvent (version : Nat) (previous : Option ObjectHash) (change : RegistryChange)
    (authorization : ObjectHash) : ArchiveObject :=
  trustObject (.authorized (.registryEvent {
    organizationId := 1
    registryVersion := version
    previousRegistryHash := previous
    effectiveFromSequence := 0
    validThroughSequence := 100
    issuedAt := 10
    notBefore := 10
    notAfter := 20
    policyObjectHash := 10
    change
    rootKeyThumbprint := 101 }) authorization) 101 1

/-- The root, two admins, a policy, a writer (certificate 20) and a server (certificate 30); the
head is event 32 of version 3. -/
def organization : ObjectHash → Option ArchiveObject
  | 1 => some (.trust ⟨.initialRoot ⟨1, [101], 101, none, 0⟩,
      [{ signedBy .trustDigest 101 1 with profile := .initialRoot }]⟩)
  | 2 => some (trustObject (.initialAdminDevice (deviceCertificate 2 .organizationAdmin 102
      ["organizationAdminApprove"] (some 12))) 101 1)
  | 3 => some (trustObject (.initialAdminDevice (deviceCertificate 3 .organizationAdmin 103
      ["organizationAdminApprove"] (some 13))) 101 1)
  | 4 => some (trustObject (.initialAdminOperatorBinding (adminBinding 2 12 202)) 101 1)
  | 5 => some (trustObject (.initialAdminOperatorBinding (adminBinding 3 13 203)) 101 1)
  | 10 => some (trustObject (.authorized (.policy
      ⟨1, 1, none, 0, 1000, 10, 0, 0, ⟨false, none⟩, ["EINSATZARCHIV-SUITE-1"], [1], 0⟩) 11) 101 1)
  | 11 => some (adminAuthorization 11 0 0 2 .policy)
  | 12 => some (registryEvent 1 none (.policy 10) 13)
  | 13 => some (adminAuthorization 13 0 0 2 .registryEvent)
  | 20 => some (trustObject (.authorized (.device (deviceCertificate 20 .writer 104 [] none)) 21)
      101 1)
  | 21 => some (adminAuthorization 21 1 12 0 .deviceCertificate)
  | 22 => some (registryEvent 2 (some 12) (.certificate 20) 23)
  | 23 => some (adminAuthorization 23 1 12 0 .registryEvent)
  | 30 => some (trustObject (.authorized (.device (deviceCertificate 30 .serverReceipt 105
      ["serverReceipt"] none)) 31) 101 1)
  | 31 => some (adminAuthorization 31 2 22 0 .deviceCertificate)
  | 32 => some (registryEvent 3 (some 22) (.certificate 30) 33)
  | 33 => some (adminAuthorization 33 2 22 0 .registryEvent)
  | _ => none

/-- The names of the objects of `organization`. -/
def organizationNames : List UInt8 :=
    [1, 2, 3, 4, 5, 10, 11, 12, 13, 20, 21, 22, 23, 30, 31, 32, 33]

def organizationAnchor : TrustAnchor where
  organizationId := 1
  chainId := 2
  rootPublicCoseKey := .ed25519 [101]
  exactRootPublicCoseKey := [101]
  rootKeyThumbprint := 101
  rootCertificateObjectHash := 1
  initialAdminCertificateObjectHashes := [2, 3]
  initialAdminOperatorBindingObjectHashes := [4, 5]

end Einsatzarchiv.Trust
