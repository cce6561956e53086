/-
  File:      Einsatzarchiv/Trust/Registry.lean
  Subject:   Registry events and their replay (crate `ea-trust`, `registry.rs`).

  * `RegistryTopology`: the events of the organization by version.
  * `prepareEffect`, `applyEffect`: what one event changes.
  * `verifyAndApplyRegistryEvent`: one event on the state before it.
  * `replayToPin`, `replayToLineTip`: the events one after the other.
-/
import Einsatzarchiv.Trust.Anchor

namespace Einsatzarchiv.Trust

open Lib Format Time

variable [Crypto]

/-! ## 1. Topology -/

structure TopologyEvent where
  registryVersion : Nat
  objectHash : ObjectHash
  previousRegistryHash : Option Hash32

/-- The events of the organization; the source keeps them in a map by version. -/
structure RegistryTopology where
  events : List TopologyEvent

namespace RegistryTopology

def build (trust : VerifiedTrust) : RegistryTopology where
  events := (trust.catalog.registryEvents.filter
    (·.fields.organizationId = trust.organizationId)).map fun event =>
      ⟨event.fields.registryVersion, event.objectHash, event.fields.previousRegistryHash⟩

/-- The one event of a version, which has to name the given predecessor. -/
def exact (topology : RegistryTopology) (version : Nat) (previousRegistryHash : Option Hash32) :
    Except RegistryError (Option TopologyEvent) :=
  match topology.events.filter (·.registryVersion = version) with
  | [] => .ok none
  | [event] =>
    if event.previousRegistryHash = previousRegistryHash then .ok (some event)
    else .error .previous
  | _ => .error .fork

/-- There is an event of a later version. -/
def hasLaterThan (topology : RegistryTopology) (version : Nat) : Bool :=
  topology.events.any (version < ·.registryVersion)

end RegistryTopology

def loadRegistryEvent (catalog : TrustCatalog) (objectHash : ObjectHash) :
    Except RegistryError RegistryEvent :=
  okOr (catalog.registryEvent objectHash) (.trust .source)

/-! ## 2. Targets -/

structure AuthorizedTarget (α : Type) where
  fields : α
  authorizationObjectHash : ObjectHash
  exactBytes : Bytes

/-- The authorized payload under a hash, of the kind `select` picks. -/
def authorizedTarget {α : Type} (select : TrustCore → Option α) (state : PreviousHeadState)
    (objectHash : ObjectHash) : Except RegistryError (AuthorizedTarget α) := do
  let record ← okOr (state.catalogObject objectHash) .activationMissing
  let .authorized core authorizationObjectHash := record.value.payload
    | throw (.trust .actionMismatch)
  let fields ← okOr (select core) (.trust .actionMismatch)
  return ⟨fields, authorizationObjectHash, record.exactBytes⟩

def authorizedDeviceTarget : PreviousHeadState → ObjectHash →
    Except RegistryError (AuthorizedTarget DeviceCertificateFields) :=
  authorizedTarget fun
    | .device fields => some fields
    | _ => none

def authorizedBindingTarget : PreviousHeadState → ObjectHash →
    Except RegistryError (AuthorizedTarget OperatorBindingFields) :=
  authorizedTarget fun
    | .operatorBinding fields => some fields
    | _ => none

def authorizedPolicyTarget : PreviousHeadState → ObjectHash →
    Except RegistryError (AuthorizedTarget PolicyFields) :=
  authorizedTarget fun
    | .policy fields => some fields
    | _ => none

def authorizedWriterTransitionTarget : PreviousHeadState → ObjectHash →
    Except RegistryError (AuthorizedTarget WriterTransitionFields) :=
  authorizedTarget fun
    | .writerTransition fields => some fields
    | _ => none

def authorizedRootTarget : PreviousHeadState → ObjectHash →
    Except RegistryError (AuthorizedTarget RootCertificateFields) :=
  authorizedTarget fun
    | .root fields => some fields
    | _ => none

/-- Why a reference to an object that is not active fails: the catalog does not hold it or holds
it as what was `expected` but not yet activated, or it is something else. -/
def classifyReference (state : PreviousHeadState) (objectHash : ObjectHash)
    (expected : TrustCore → Bool) : RegistryError :=
  match state.catalogObject objectHash with
  | none => .activationMissing
  | some record =>
    match record.value.payload with
    | .authorized core _ =>
      if expected core then .activationMissing else .trust .actionMismatch
    | _ => .trust .actionMismatch

/-- The certificate kinds a revocation of a target kind applies to. -/
def revocationClass (targetKind : Nat) (kind : CertificateKind) : Bool :=
  match targetKind, kind with
  | 0, .writer | 0, .reader | 0, .keyApprover | 0, .recoveryRecipient
  | 0, .historicalGrantAuthority | 2, .serverReceipt | 2, .deletionAttest => true
  | _, _ => false

section

variable (state : PreviousHeadState)

/-- Why a certificate is not known. -/
def classifyMissingCertificateTarget (objectHash : ObjectHash)
    (targetKind : Nat) : RegistryError :=
  classifyReference state objectHash fun
    | .device fields => revocationClass targetKind fields.certificateKind
    | _ => false

/-- Why a binding is not known. -/
def classifyMissingBindingTarget (objectHash : ObjectHash) :
    RegistryError :=
  classifyReference state objectHash fun
    | .operatorBinding _ => true
    | _ => false

/-- Why a writer is not known. -/
def classifyWriterReference (certificateHash : CertificateHash) :
    RegistryError :=
  classifyReference state certificateHash fun
    | .device fields => fields.certificateKind = .writer
    | _ => false

/-- Why the device of a binding is not known. -/
def classifyBindingCertificateReference (fields : OperatorBindingFields) : RegistryError :=
  classifyReference state fields.deviceCertificateHash fun
    | .device certificate => roleMatches certificate.certificateKind fields.operatorRole
    | _ => false

end

/-! ## 3. Checks of the targets -/

/-- The certificate is one of the organization, from the event on. -/
def validateDeviceTarget (target : AuthorizedTarget DeviceCertificateFields)
    (organizationId : OrganizationId) (effectiveFrom : Nat) : Except RegistryError Unit :=
  ensure (target.fields.organizationId = organizationId
    ∧ target.fields.effectiveFromSequence = effectiveFrom
    ∧ (validateSignerCertificate target.exactBytes).isOk) (.trust .actionMismatch)

section

variable (state : PreviousHeadState)

/-- The policy follows the present one. -/
def validatePolicyTarget (fields : PolicyFields)
    (objectHash : ObjectHash) (event : RegistryEvent) : Except RegistryError Unit := do
  let expectedVersion ← okOr
    (state.policy.elim (some 1) fun policy => checkedAdd policy.fields.policyVersion 1)
    .policyMismatch
  ensure (fields.organizationId = event.fields.organizationId
    ∧ fields.effectiveFromSequence = event.fields.effectiveFromSequence) (.trust .actionMismatch)
  ensure (fields.policyVersion = expectedVersion
    ∧ fields.previousPolicyObjectHash = state.policy.map (·.objectHash)
    ∧ event.fields.policyObjectHash = objectHash) .policyMismatch

/-- An active writer is followed by another one. -/
def validateWriterTransitionTarget (fields : WriterTransitionFields)
    (chainId : ChainId) (organizationId : OrganizationId) (effectiveFrom : Nat)
    (preTransitionSequence : Nat) : Except RegistryError Unit := do
  ensure (fields.organizationId = organizationId ∧ fields.chainId = chainId
    ∧ fields.effectiveFromSequence = effectiveFrom
    ∧ fields.oldWriterCertificateHash ≠ fields.newWriterCertificateHash) (.trust .actionMismatch)
  let oldWriter ← okOr state.certificates[fields.oldWriterCertificateHash]?
    (classifyWriterReference state fields.oldWriterCertificateHash)
  ensure (oldWriter.fields.certificateKind = .writer
    ∧ certificateActive oldWriter preTransitionSequence) (.trust .actionMismatch)
  let newWriter ← okOr state.certificates[fields.newWriterCertificateHash]?
    (classifyWriterReference state fields.newWriterCertificateHash)
  ensure (newWriter.fields.certificateKind = .writer
    ∧ certificateActive newWriter effectiveFrom) (.trust .actionMismatch)
  ensure (state.currentWriterCertificateHash = some fields.oldWriterCertificateHash)
    (.trust .actionMismatch)

/-- The binding fits its device. -/
def validateBindingTarget (fields : OperatorBindingFields)
    (organizationId : OrganizationId) (effectiveFrom : Nat) : Except RegistryError Unit := do
  ensure (fields.organizationId = organizationId
    ∧ fields.effectiveFromSequence = effectiveFrom) (.trust .actionMismatch)
  let certificate ← okOr state.certificates[fields.deviceCertificateHash]?
    (classifyBindingCertificateReference state fields)
  ensure (certificateActive certificate effectiveFrom
    ∧ roleMatches certificate.fields.certificateKind fields.operatorRole
    ∧ certificate.fields.signingKeyThumbprint ≠ some fields.operatorInstanceKeyThumbprint)
    (.trust .actionMismatch)
  ensure (fields.operatorRole = .organizationAdmin →
    certificate.fields.authoritySubjectId = some fields.operatorSubjectId) (.trust .actionMismatch)

/-- The root follows the present one, and has a key of its own. -/
def validateRootTarget (target : AuthorizedTarget RootCertificateFields)
    (organizationId : OrganizationId) (event : RegistryEvent) : Except RegistryError Unit := do
  let key ← okOr (Crypto.publicKey target.fields.rootPublicCoseKey) (.trust .actionMismatch)
  ensure (target.fields.organizationId = organizationId
    ∧ target.fields.previousRootCertificateObjectHash = some state.root.objectHash
    ∧ target.fields.effectiveFromRegistryVersion = event.fields.registryVersion
    ∧ target.fields.rootKeyThumbprint = Crypto.thumbprint key
    ∧ key.isEd25519
    ∧ (validateSignerCertificate target.exactBytes).isOk) (.trust .actionMismatch)

end

/-- An event is issued within its period, and the period is no longer than the policy allows. -/
def validateEventTimeShape (event : RegistryEventFields) (policy : PolicyFields) :
    Except RegistryError Unit := do
  ensure (event.notBefore ≤ event.issuedAt ∧ event.issuedAt < event.notAfter) .policyMismatch
  ensure (event.notAfter - event.issuedAt ≤ policy.maxRegistryAgeMs) .policyMismatch

/-- An authorization that was issued for exactly this state. -/
def verifyBoundAuthorization (state : PreviousHeadState) (authorizationObjectHash : ObjectHash)
    (targetObjectHash : ObjectHash) (authorizationUseTime : Int) (preTransitionSequence : Nat)
    (replay : AdminAuthorizationReplay) : Except RegistryError AdminAuthorizationReplay := do
  let record ← okOr (state.catalogObject authorizationObjectHash) .activationMissing
  let .organizationAdminAuthorization fields := record.value.payload
    | throw (.trust .actionMismatch)
  ensure (fields.registryVersion = state.registryVersion
    ∧ fields.registryHeadHash = state.registryHeadHash) .activationHead
  liftTrust (verifyAdminAuthorization state authorizationObjectHash targetObjectHash
    authorizationUseTime preTransitionSequence replay)

/-! ## 4. Effects -/

/-- What an event does to the state. -/
inductive TransitionEffect
  | activateCertificate (certificate : ActiveCertificate)
  | revokeCertificate (certificateHash : CertificateHash)
  | revokeBinding (objectHash : ObjectHash)
  | activateBinding (binding : ActiveOperatorBinding)
  | policy (policy : ResolvedPolicy)
  | root (root : RootAuthority)
  | writerTransition (transition : EffectiveWriterTransition)

def prepareRevocation (state : PreviousHeadState) (targetKind : Nat) (objectHash : ObjectHash)
    (atSequence : Nat) : Except RegistryError TransitionEffect := do
  match targetKind with
  | 0 | 2 =>
    let certificate ← okOr state.certificates[objectHash]?
      (classifyMissingCertificateTarget state objectHash targetKind)
    ensure (revocationClass targetKind certificate.fields.certificateKind
      ∧ certificateActive certificate atSequence) (.trust .actionMismatch)
    -- the current writer leaves by a writer transition only
    ensure (!(targetKind = 0 ∧ certificate.fields.certificateKind = .writer
      ∧ state.currentWriterCertificateHash = some objectHash)) (.trust .actionMismatch)
    return .revokeCertificate objectHash
  | 1 =>
    let binding ← okOr state.adminBindings[objectHash]?
      (classifyMissingBindingTarget state objectHash)
    ensure (bindingActive binding atSequence) (.trust .actionMismatch)
    return .revokeBinding objectHash
  | _ => throw (.trust .actionMismatch)

section

variable (trust : VerifiedTrust) (state : PreviousHeadState) (event : RegistryEvent)

/-- What a change of administrators does. -/
def prepareAdminChange (objectHash : ObjectHash) (effect : Nat)
    (preTransitionSequence : Nat) (replay : AdminAuthorizationReplay) :
    Except RegistryError (TransitionEffect × AdminAuthorizationReplay) := do
  match effect with
  | 0 =>
    ensure (!state.adminCertificates.contains objectHash) (.trust .actionMismatch)
    let target ← authorizedDeviceTarget state objectHash
    ensure (target.fields.certificateKind = .organizationAdmin
      ∧ target.fields.authoritySubjectId.isSome
      ∧ target.fields.capabilities.contains "organizationAdminApprove") (.trust .actionMismatch)
    validateDeviceTarget target trust.organizationId event.fields.effectiveFromSequence
    let replay ← verifyBoundAuthorization state target.authorizationObjectHash objectHash
      event.fields.issuedAt preTransitionSequence replay
    return (.activateCertificate ⟨objectHash, target.fields⟩, replay)
  | 1 =>
    let certificate ← okOr state.adminCertificates[objectHash]?
      (if (state.catalogObject objectHash).isSome then .trust .actionMismatch
        else .activationMissing)
    ensure (certificate.fields.certificateKind = .organizationAdmin
      ∧ certificateActive certificate preTransitionSequence) (.trust .actionMismatch)
    return (.revokeCertificate objectHash, replay)
  | _ => throw (.trust .actionMismatch)

/-- What the change of an event does. -/
def prepareEffect (preTransitionSequence : Nat) (replay : AdminAuthorizationReplay) :
    Except RegistryError (TransitionEffect × AdminAuthorizationReplay) := do
  let fields := event.fields
  match fields.change with
  | .certificate objectHash =>
    let target ← authorizedDeviceTarget state objectHash
    ensure (target.fields.certificateKind ≠ .organizationAdmin
      ∧ !state.certificates.contains objectHash) (.trust .actionMismatch)
    validateDeviceTarget target trust.organizationId fields.effectiveFromSequence
    let replay ← verifyBoundAuthorization state target.authorizationObjectHash objectHash
      fields.issuedAt preTransitionSequence replay
    return (.activateCertificate ⟨objectHash, target.fields⟩, replay)
  | .target targetKind objectHash =>
    let effect ← prepareRevocation state targetKind objectHash preTransitionSequence
    return (effect, replay)
  | .policy objectHash =>
    let target ← authorizedPolicyTarget state objectHash
    validatePolicyTarget state target.fields objectHash event
    let replay ← verifyBoundAuthorization state target.authorizationObjectHash objectHash
      fields.issuedAt preTransitionSequence replay
    return (.policy ⟨objectHash, target.fields⟩, replay)
  | .writerTransition objectHash =>
    let target ← authorizedWriterTransitionTarget state objectHash
    validateWriterTransitionTarget state target.fields trust.chainId trust.organizationId
      fields.effectiveFromSequence preTransitionSequence
    let replay ← verifyBoundAuthorization state target.authorizationObjectHash objectHash
      fields.issuedAt preTransitionSequence replay
    return (.writerTransition ⟨objectHash, target.fields.oldWriterCertificateHash,
      target.fields.newWriterCertificateHash, target.fields.effectiveFromSequence,
      target.fields.previousEntryHash⟩, replay)
  | .operatorBinding objectHash =>
    let target ← authorizedBindingTarget state objectHash
    validateBindingTarget state target.fields trust.organizationId fields.effectiveFromSequence
    let replay ← verifyBoundAuthorization state target.authorizationObjectHash objectHash
      fields.issuedAt preTransitionSequence replay
    return (.activateBinding ⟨objectHash, target.fields⟩, replay)
  | .adminCertificate objectHash effect =>
    prepareAdminChange trust state event objectHash effect preTransitionSequence replay
  | .rootCertificate objectHash =>
    let target ← authorizedRootTarget state objectHash
    validateRootTarget state target trust.organizationId event
    let replay ← verifyBoundAuthorization state target.authorizationObjectHash objectHash
      fields.issuedAt preTransitionSequence replay
    return (.root ⟨objectHash, target.fields⟩, replay)

end

/-- Two roles that one subject may not have. -/
def rolesConflict (left right : CertificateKind) : Bool :=
  let writerOrServer (kind : CertificateKind) : Bool := kind = .writer || kind = .serverReceipt
  (left = .reader && writerOrServer right) || (writerOrServer left && right = .reader)

/-- No device reads and writes, or reads and serves. -/
def admitDeviceInvariants (state : PreviousHeadState) (candidate : DeviceCertificateFields) :
    Except RegistryError Unit :=
  ensure (!state.certificates.toList.any fun known =>
    known.2.fields.deviceId = candidate.deviceId
      && rolesConflict known.2.fields.certificateKind candidate.certificateKind)
    .deviceRoleConflict

/-- The state after the event. -/
def applyEffect (state : PreviousHeadState) (effect : TransitionEffect) (revokedFrom : Nat) :
    Except RegistryError PreviousHeadState := do
  match effect with
  | .activateCertificate certificate =>
    admitDeviceInvariants state certificate.fields
    ensure (!state.certificates.contains certificate.objectHash) (.trust .actionMismatch)
    let admin := certificate.fields.certificateKind = .organizationAdmin
    ensure (!(admin ∧ state.adminCertificates.contains certificate.objectHash))
      (.trust .actionMismatch)
    return { state with
      certificates := state.certificates.insert certificate.objectHash certificate
      adminCertificates :=
        if admin then state.adminCertificates.insert certificate.objectHash certificate
        else state.adminCertificates
      -- the first writer of the organization needs no transition
      currentWriterCertificateHash :=
        if certificate.fields.certificateKind = .writer
            ∧ state.currentWriterCertificateHash.isNone then some certificate.objectHash
        else state.currentWriterCertificateHash }
  | .revokeCertificate certificateHash =>
    let certificate ← okOr state.certificates[certificateHash]? .activationMissing
    return { state with
      certificates := state.certificates.insert certificateHash (revokeAt certificate revokedFrom)
      adminCertificates := match state.adminCertificates[certificateHash]? with
        | some admin => state.adminCertificates.insert certificateHash (revokeAt admin revokedFrom)
        | none => state.adminCertificates }
  | .revokeBinding objectHash =>
    let binding ← okOr state.adminBindings[objectHash]? .activationMissing
    return { state with
      adminBindings := state.adminBindings.insert objectHash { binding with fields :=
          { binding.fields with revokedFromSequence := some revokedFrom } } }
  | .activateBinding binding =>
    ensure (!state.adminBindings.contains binding.objectHash) (.trust .actionMismatch)
    return { state with adminBindings := state.adminBindings.insert binding.objectHash binding }
  | .policy policy => return { state with policy := some policy }
  | .root root => return { state with root }
  | .writerTransition transition =>
    okOr (state.applyWriterTransition transition) .activationMissing

/-! ## 5. One event -/

section

variable (state : PreviousHeadState)

/-- The sequence a successor is judged at: where it takes effect if the lease of the state still
covers that, else the end of the lease if the successor follows it directly. -/
def preTransitionSequence (successorEffective : Nat) :
    Except RegistryError Nat := do
  ensure (state.effectiveFromSequence ≤ successorEffective) .sequenceLease
  if successorEffective ≤ state.validThroughSequence then return successorEffective
  else
    ensure (checkedAdd state.validThroughSequence 1 = some successorEffective) .sequenceLease
    return state.validThroughSequence

/-- The sequence an event is judged at; the first event has no predecessor to fit. -/
def judgedSequence (effectiveFrom : Nat) : Except RegistryError Nat :=
  if state.registryVersion = 0 then .ok effectiveFrom
  else preTransitionSequence state effectiveFrom

/-- The policy in force after an effect. -/
def targetPolicy : TransitionEffect → Option ResolvedPolicy
  | .policy policy => some policy
  | _ => state.policy

end

/-- The state and the consumed authorizations after a line of events. -/
structure Line where
  state : PreviousHeadState
  replay : AdminAuthorizationReplay

/-- `verify_and_apply_registry_event`: the sequence the event was judged at and the line after
it. -/
def verifyAndApplyRegistryEvent (trust : VerifiedTrust) (line : Line) (event : RegistryEvent) :
    Except RegistryError (Nat × Line) := do
  let state := line.state
  let fields := event.fields
  ensure (fields.organizationId = trust.organizationId
    ∧ fields.rootKeyThumbprint = state.root.fields.rootKeyThumbprint) (.trust .actionMismatch)
  ensure (fields.effectiveFromSequence ≤ fields.validThroughSequence) .sequenceLease
  let sequence ← judgedSequence state fields.effectiveFromSequence
  ensure (state.registryVersion = 0 → fields.change.isPolicy) (.trust .actionMismatch)
  let (effect, replay) ← prepareEffect trust state event sequence line.replay
  let policy ← okOr (targetPolicy state effect) (.trust .actionMismatch)
  ensure (fields.policyObjectHash = policy.objectHash) .policyMismatch
  validateEventTimeShape fields policy.fields
  let replay ← verifyBoundAuthorization state event.authorizationObjectHash event.objectHash
    fields.issuedAt sequence replay
  let applied ← applyEffect state effect fields.effectiveFromSequence
  return (sequence, {
    state := { applied with
      registryVersion := fields.registryVersion
      registryHeadHash := event.objectHash
      effectiveFromSequence := fields.effectiveFromSequence
      validThroughSequence := fields.validThroughSequence
      headEvent := some fields }
    replay })

/-! ## 6. Replay -/

/-- One round of the replay loops: the event of a version, if there is one, on the line. -/
def replayVersion (trust : VerifiedTrust) (topology : RegistryTopology) (version : Nat)
    (previous : Option Hash32) (line : Line) :
    Except RegistryError (Option (ObjectHash × Line)) := do
  let some found ← topology.exact version previous | return none
  let event ← loadRegistryEvent trust.catalog found.objectHash
  let (_, line) ← verifyAndApplyRegistryEvent trust line event
  return some (found.objectHash, line)

/-- The bootstrap line of verified trust. -/
def Line.start (trust : VerifiedTrust) : Line := ⟨trust.previousHead, {}⟩

/-- The loop of `replay_to_pin`; `remaining` versions lie between `version` and the pin. -/
def replayToPinFrom (trust : VerifiedTrust) (topology : RegistryTopology) (pin : RegistryHeadPin) :
    Nat → Nat → Option Hash32 → Line → Except RegistryError Line
  | remaining, version, previous, line => do
      let some found ← topology.exact version previous
        | throw (if version < pin.registryVersion ∧ topology.hasLaterThan version then .gap
            else .rollback)
      ensure (version = pin.registryVersion → found.objectHash = pin.registryHeadHash) .rollback
      let event ← loadRegistryEvent trust.catalog found.objectHash
      let (_, line) ← verifyAndApplyRegistryEvent trust line event
      match remaining with
      | 0 => return line
      | remaining + 1 =>
        let next ← okOr (checkedAdd version 1) .overflow
        replayToPinFrom trust topology pin remaining next (some found.objectHash) line

/-- `replay_to_pin` from the bootstrap state. -/
def replayToPin (trust : VerifiedTrust) (topology : RegistryTopology) (pin : RegistryHeadPin) :
    Except RegistryError Line := do
  ensure (pin.registryVersion ≠ 0) .rollback
  replayToPinFrom trust topology pin (pin.registryVersion - 1) 1 none (Line.start trust)

/-- The loop of `replay_to_line_tip`.  Every round uses up the event of a version, so that
one round more than there are events reaches the end (`replayToLineTip_eq_ok`). -/
def replayToLineTipFrom (trust : VerifiedTrust) (topology : RegistryTopology) :
    Nat → Nat → Option Hash32 → Line → Except RegistryError Line
  | 0, _, _, _ => throw .overflow
  | rounds + 1, version, previous, line => do
      match ← replayVersion trust topology version previous line with
      | none =>
        ensure (!topology.hasLaterThan version) .gap
        return line
      | some (objectHash, line) =>
        let next ← okOr (checkedAdd version 1) .overflow
        replayToLineTipFrom trust topology rounds next (some objectHash) line

/-- `replay_to_line_tip`. -/
def replayToLineTip (trust : VerifiedTrust) : Except RegistryError PreviousHeadState := do
  let topology := RegistryTopology.build trust
  let line ← replayToLineTipFrom trust topology (topology.events.length + 1) 1 none
    (Line.start trust)
  return line.state

/-- The state at a head, if the line leads there. -/
def replayToExactPin (trust : VerifiedTrust) (pin : RegistryHeadPin) :
    Except RegistryError PreviousHeadState := do
  let line ← replayToPin trust (RegistryTopology.build trust) pin
  return line.state

end Einsatzarchiv.Trust
