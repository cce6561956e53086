/-
  File:      Einsatzarchiv/Server/Validation.lean
  Subject:   The registry head for a commit and the checks before anything of it is stored (crate
             `ea-sync-server`, `ports.rs` and `validation.rs`; application `server`,
             `trust_authority.rs`).

  * `activeCertificates`, `effectiveWriterTransition`, `resolveHead`: what a commit reads from the
    selected head.
  * `walkToSelectedHead`: the heads from the anchor on, one transition a round, in a fresh store.
  * `selectHeadForSequence`: the head for the sequence of an entry and its time.
  * `CommitValidationError`: why a commit does not pass.
  * `validateCommit`: who delivers, whether they may, and whether the grants are those of the
    recipients that are active at the sequence.
  * `Validated`: what a commit that passed has delivered.
-/
import Einsatzarchiv.Server.Database
import Einsatzarchiv.Trust.Selection
import Einsatzarchiv.Verify.Entries

namespace Einsatzarchiv.Server

open Lib Format

section

open Trust Verify

variable [Crypto]

/-! ## 1. The selected head -/

/-- `ActiveRegistryHeadV1`, whose one implementation is the selected head. -/
abbrev ActiveRegistryHead := SelectedRegistryHead

section

variable (head : ActiveRegistryHead)

/-- The certificates that are active at the sequence of the head, by ascending hash. -/
def activeCertificates :
    List (CertificateHash × DeviceCertificateFields) :=
  head.candidateState.value.certificates.toList.filterMap fun (hash, _) =>
    (head.candidateState.value.activeCertificate hash head.proposedSequence).map
      fun certificate => (hash, certificate.fields)

/-- The change of writers in effect at the head. -/
def effectiveWriterTransition : Option EffectiveWriterTransition :=
  head.candidateState.value.writerTransition

def resolveHead : SignerCertificateResolver :=
  head.candidateState.value.resolveSelected head.proposedSequence

end

/-- The head for a sequence, one that is to come, or none. -/
inductive RegistryHeadSelection
  | selected (head : ActiveRegistryHead)
  | pendingFuture (requiredRegistryVersion : Nat) (requiredRegistryHeadHash : ObjectHash)
  | noApplicableHead

/-- Why the registry gives no answer. -/
inductive AuthorityError
  | unavailable | stateConflict

/-! ## 2. The walk -/

/-- Why a head is not reached. -/
inductive HeadWalkError
  | unavailable | stateConflict | notApplicable | invalid

/-- What an error of the trust verification means for the walk. -/
def HeadWalkError.ofTrust : TrustError → HeadWalkError
  | .stateConflict => .stateConflict
  | .stateUnavailable => .unavailable
  | .authNotYetValid | .authExpired => .notApplicable
  | _ => .invalid

/-- What an error of the selection means for the walk. -/
def HeadWalkError.ofRegistry : RegistryError → HeadWalkError
  | .stale | .futureSkew | .pendingFuture | .sequenceLease => .notApplicable
  | _ => .invalid

/-- The rounds of `walk_to_selected_head` that are left, the number of the round, the store and
what the rounds so far have verified. -/
def walkToSelectedHead (anchor : TrustAnchor) (source : TrustObjectSource) (key : TrustStateKey)
    (proposedSequence : Nat) (now : Int) :
    Nat → Nat → EphemeralTrustStateStore → Option VerifiedTrust →
      Except HeadWalkError (VerifiedTrust × Option ActiveRegistryHead)
  | 0, _, _, carried => do
      let trust ← okOr carried .invalid
      return (trust, none)
  | rounds + 1, round, store, _ => do
      let snapshot ← (loadTrustState store key).mapError .ofTrust
      let trust ← (verifyTrust anchor source snapshot).mapError .ofTrust
      match verifyRegistryCandidate trust proposedSequence (2 * round) with
      | .error error =>
        -- without a head there is nothing to roll back to
        if error = .rollback ∧ round = 0 then return (trust, none)
        else throw (.ofRegistry error)
      | .ok candidate =>
        let (store, localTime) := prepareLocalTime store candidate now []
        let localTime ← localTime.mapError .ofTrust
        let (store, outcome) ←
          (selectRegistryHead store candidate localTime none).mapError .ofRegistry
        match outcome with
        | .selected head =>
          -- only a head that was pinned before is the latest one
          if trust.pinnedHead = some ⟨head.registryVersion, head.registryHeadHash⟩ then
            return (trust, some head)
          else
            walkToSelectedHead anchor source key proposedSequence now rounds (round + 1) store
              (some trust)
        | .advanced _ =>
          walkToSelectedHead anchor source key proposedSequence now rounds (round + 1) store
            (some trust)
        | .pendingFuture _ => return (trust, none)

/-! ## 3. The head for a sequence -/

/-- The column `trust_anchor_bytes`, decoded. -/
inductive StoredAnchor
  | missing
  | unreadable
  | anchor (anchor : TrustAnchor)

/-- The anchor of an organization and the trust objects it has published, by ascending hash. -/
structure OrganizationTrust where
  anchor : StoredAnchor
  catalog : List (ObjectHash × Bytes)

section

variable (catalog : List (ObjectHash × Bytes))

/-- `CatalogSource`. -/
def catalogSource : TrustObjectSource where
  hashes := catalog.map Prod.fst
  failure := none
  readExactTrustObject hash := .ok (catalog.lookup hash)

/-- The registry event that bytes hold. -/
def registryEventOf (bytes : Bytes) : Option RegistryEventFields :=
  match Crypto.decode bytes with
  | .ok (.trust object) =>
    match object.payload with
    | .authorized (.registryEvent fields) _ => some fields
    | _ => none
  | _ => none

/-- How many heads there are at most. -/
def registryEventCount : Nat :=
  (catalog.filterMap fun entry => registryEventOf entry.2).length

/-- The first event of the highest version. -/
def highestKnownHead : Option (Nat × ObjectHash) :=
  catalog.foldl (fun highest entry =>
    match registryEventOf entry.2 with
    | none => highest
    | some fields =>
      if highest.all fun known => known.1 < fields.registryVersion then
        some (fields.registryVersion, entry.1)
      else highest) none

end

/-- No time is trusted at first. -/
def initialTrustedFloorMillis : Int := 0

/-- The walk over the registry up to the head for the sequence. -/
def selectHeadForSequence (organization : Option OrganizationTrust)
    (organizationId : OrganizationId) (proposedSequence : Nat) (now : Int) :
    Except AuthorityError RegistryHeadSelection :=
  match organization with
  | none => .ok .noApplicableHead
  | some organization =>
    match organization.anchor with
    | .missing => .ok .noApplicableHead
    | .unreadable => .error .unavailable
    | .anchor anchor =>
      match walkToSelectedHead anchor (catalogSource organization.catalog)
        (verificationStateKey organizationId) proposedSequence now
        (registryEventCount organization.catalog + 1) 0
        (.new (verificationStateKey organizationId) initialTrustedFloorMillis) none with
      | .ok (_, some head) => .ok (.selected head)
      | .ok (_, none) =>
        match highestKnownHead organization.catalog with
        | some (version, headHash) => .ok (.pendingFuture version headHash)
        | none => .ok .noApplicableHead
      | .error .unavailable => .error .unavailable
      | .error .stateConflict => .error .stateConflict
      | .error .notApplicable | .error .invalid => .ok .noApplicableHead

end

open Protocol

/-! ## 4. Errors and results -/

/-- What may be wrong with a request. -/
inductive CommitValidationError
  | objectFamily | entryInvalid | organizationMismatch | chainMismatch | writerUnauthorized
  | writerRevoked | writerSignature | writerTransitionMismatch | suiteUnsupported | registryMismatch
  | grantPlanMismatch | grantSetIncomplete | grantInvalid | grantSignature
deriving DecidableEq

/-- Errors that a writer is accused of. -/
def CommitValidationError.isWriterViolation : CommitValidationError → Bool
  | .writerUnauthorized | .writerRevoked | .writerSignature => true
  | _ => false

/-- `ValidatedCommitV1`; its sequence is a `u64`. -/
structure ValidatedCommit where
  entryHash : EntryHash
  entryObjectHash : ObjectHash
  chainSequence : Nat
  previousEntryHash : Option EntryHash
  deviceId : DeviceId
  indexedObjects : List IndexedObject
  grantObjectHashes : List ObjectHash
  grantRecipients : List GrantRecipient
  chainSequence_le : chainSequence ≤ u64Max

variable [Crypto] {head : ActiveRegistryHead} {bytes : Bytes}

/-! ## 5. The entry and its writer -/

def parseEntry (bytes : Bytes) : Except CommitValidationError (Parsed EntryPackage) := do
  let parsed ← (decodeExactObject bytes).mapError fun _ => .entryInvalid
  match parsed.value with
  | .entry entry => return ⟨entry, parsed.exactBytes, parsed.objectHash⟩
  | _ => throw .objectFamily

/-- The entry names the transition exactly at the sequence where the transition takes effect. -/
def verifyWriterTransitionHash (manifest : ManifestCoreFields)
    (transition : Option Trust.EffectiveWriterTransition) : Except CommitValidationError Unit :=
  let expected := transition.filter fun t => t.effectiveFromSequence = manifest.chainSequence
  match manifest.writerTransitionEventHash, expected with
  | none, none => .ok ()
  | some claimed, some t =>
    ensure (claimed = t.objectHash ∧ manifest.previousEntryHash = some t.previousEntryHash
      ∧ manifest.writerCertificateHash = t.newWriterCertificateHash) .writerTransitionMismatch
  | _, _ => .error .writerTransitionMismatch

/-- The device of the writer, whose certificate is active as that of a writer. -/
def activeWriter (head : ActiveRegistryHead) (writerCertificateHash : CertificateHash) :
    Except CommitValidationError DeviceId :=
  okOr (((activeCertificates head).find? fun (hash, fields) =>
    hash = writerCertificateHash ∧ fields.certificateKind = .writer).map
      fun (_, fields) => fields.deviceId) .writerUnauthorized

/-! ## 6. Grants -/

/-- One round of `parse_grants`. -/
def parseGrant (entryHash : EntryHash) (chainSequence : Nat) (head : ActiveRegistryHead)
    (bytes : Bytes) : Except CommitValidationError (Parsed Grant) := do
  let parsed ← (decodeExactObject bytes).mapError fun _ => .grantInvalid
  match parsed.value with
  | .grant grant =>
    ensure (grant.grantBody.kind = .initial ∧ grant.grantBody.entryHash = entryHash)
      .grantInvalid
    let context ← (VerificationContext.initialGrant grant.grantBody chainSequence).mapError
      fun _ => .grantSignature
    let _ ← (verifyCoseSign1 grant.issuerSignature (resolveHead head) context).mapError
      fun _ => .grantSignature
    return ⟨grant, parsed.exactBytes, parsed.objectHash⟩
  | _ => throw .objectFamily

/-- The bytes as initial grants of the entry. -/
def parseGrants (grantBytes : List Bytes) (entryHash : EntryHash) (chainSequence : Nat)
    (head : ActiveRegistryHead) : Except CommitValidationError (List (Parsed Grant)) :=
  grantBytes.mapM (parseGrant entryHash chainSequence head)

def planItem (grant : Grant) : GrantPlanItem :=
  ⟨grant.grantBody.recipientKeyThumbprint, grant.grantBody.recipientCertificateHash,
    grant.grantBody.purpose⟩

/-- The purpose a certificate receives grants for, if any. -/
def grantPurposeOf : CertificateKind → Option GrantPurpose
  | .reader => some .reader
  | .recoveryRecipient => some .recovery
  | _ => none

/-- One round of `expected_plan`. -/
def expectedItem (certificate : CertificateHash × DeviceCertificateFields) :
    Except CommitValidationError (Option GrantPlanItem) :=
  match grantPurposeOf certificate.2.certificateKind with
  | none => .ok none
  | some purpose => do
      let thumbprint ← okOr certificate.2.kemKeyThumbprint .grantSetIncomplete
      return some ⟨thumbprint, certificate.1, purpose⟩

/-- The plan of the recipients that are active at the sequence of the head. -/
def expectedPlan (head : ActiveRegistryHead) :
    Except CommitValidationError (List GrantPlanItem) := do
  let items ← (activeCertificates head).mapM expectedItem
  (GrantPlan.new (items.filterMap id)).mapError fun _ => .grantSetIncomplete

/-! ## 7. The commit -/

/-- `ea_crypto::SUITE_ID`. -/
def suiteId : String := "EINSATZARCHIV-SUITE-1"

def formatVersionV1 : Nat := 1

section

variable (request : EntryCommitRequest) (entry : Parsed EntryPackage)

/-- The rows of the object index for the entry and its grants. -/
def deliveredObjects (grants : List (Parsed Grant)) : List IndexedObject :=
  ⟨.entry, entry.objectHash, request.entryBytes.length⟩
    :: grants.zipWith (fun grant bytes => ⟨.grant, grant.objectHash, bytes.length⟩)
      request.sortedGrantBytes

/-- The checks of `validate_commit` up to the signature of the writer. -/
def validateWriter (entry : Parsed EntryPackage) (organizationId : OrganizationId)
    (chainId : ChainId) (writerCertificateHash : CertificateHash) (head : ActiveRegistryHead) :
    Except CommitValidationError DeviceId := do
  let manifest := entry.value.signedManifest.manifest
  ensure (manifest.organizationId = organizationId) .organizationMismatch
  ensure (manifest.chainId = chainId ∧ manifest.chainId = head.chainId) .chainMismatch
  ensure (manifest.writerCertificateHash = writerCertificateHash) .writerUnauthorized
  let transition := effectiveWriterTransition head
  ensure (transition.all fun t => t.oldWriterCertificateHash ≠ writerCertificateHash)
    .writerRevoked
  let writer ← activeWriter head writerCertificateHash
  verifyWriterTransitionHash manifest transition
  let policy := head.policy.fields
  ensure (policy.allowedCryptoSuiteIds.contains suiteId
    ∧ policy.allowedFormatVersions.contains formatVersionV1) .suiteUnsupported
  ensure (manifest.registryVersion = head.registryVersion
    ∧ manifest.registryHeadHash = head.registryHeadHash) .registryMismatch
  let context ← (VerificationContext.record entry.value.signedManifest).mapError
    fun _ => .writerSignature
  let _ ← (verifyCoseSign1 entry.value.writerSignature (resolveHead head) context).mapError
    fun _ => .writerSignature
  return writer

/-- The checks of `validate_commit` from the plan on: the grants are those of the plan, and the
plan is that of the active recipients. -/
def validateGrants (head : ActiveRegistryHead) : Except CommitValidationError
    (List (Parsed Grant)) := do
  let manifest := entry.value.signedManifest.manifest
  ensure (request.plan.hash = manifest.initialGrantPlanHash) .grantPlanMismatch
  let grants ← parseGrants request.sortedGrantBytes entry.value.entryHash manifest.chainSequence
    head
  let reconstructed ← (GrantPlan.new (grants.map fun grant => planItem grant.value)).mapError
    fun _ => .grantPlanMismatch
  ensure (Crypto.grantPlanDigest reconstructed = request.plan.hash) .grantPlanMismatch
  let expected ← expectedPlan head
  ensure (Crypto.grantPlanDigest expected = request.plan.hash) .grantSetIncomplete
  return grants

/-- All checks of a request under a head. -/
def validateCommit (organizationId : OrganizationId) (chainId : ChainId)
    (writerCertificateHash : CertificateHash) (head : ActiveRegistryHead) :
    Except CommitValidationError ValidatedCommit := do
  let writer ← validateWriter entry organizationId chainId writerCertificateHash head
  let grants ← validateGrants request entry head
  return {
    entryHash := entry.value.entryHash
    entryObjectHash := entry.objectHash
    chainSequence := entry.value.signedManifest.manifest.chainSequence
    previousEntryHash := entry.value.signedManifest.manifest.previousEntryHash
    deviceId := writer
    indexedObjects := deliveredObjects request entry grants
    grantObjectHashes := grants.map (·.objectHash)
    grantRecipients := grants.map fun grant =>
      ⟨grant.objectHash, grant.value.grantBody.recipientKeyThumbprint⟩
    chainSequence_le := entry.value.signedManifest.manifest.chainSequence_le }

end

/-! ## 8. What a commit that passed has delivered -/

/-- Bytes hold an initial grant of the entry. -/
def GrantOf (entryHash : EntryHash) (bytes : Bytes) : Prop :=
  ∃ grant, Crypto.decode bytes = .ok (.grant grant) ∧ grant.grantBody.entryHash = entryHash

/-- The validation reads an entry as the request does. -/
theorem parseEntry_eq_ok {parsed : Parsed EntryPackage} :
    parseEntry bytes = .ok parsed ↔ parseEntryObject bytes = .ok parsed := by
  unfold parseEntry parseEntryObject
  cases decodeExactObject bytes with
  | error e => simp [Except.mapError]
  | ok obj => cases hv : obj.value <;> simp [Except.mapError, ok_bind, hv]

/-- What the checks of one grant establish. -/
structure GrantJudged (entryHash : EntryHash) (sequence : Nat) (head : ActiveRegistryHead)
    (bytes : Bytes) (grant : Grant) : Prop where
  decoded : Crypto.decode bytes = .ok (.grant grant)
  kind : grant.grantBody.kind = .initial
  entry : grant.grantBody.entryHash = entryHash
  signed : ∃ context signer, VerificationContext.initialGrant grant.grantBody sequence = .ok context
    ∧ verifyCoseSign1 grant.issuerSignature (resolveHead head) context = .ok signer

theorem parseGrant_eq_ok {entryHash : EntryHash} {chainSequence : Nat} {grant : Parsed Grant}
    (h : parseGrant entryHash chainSequence head bytes = .ok grant) :
    GrantJudged entryHash chainSequence head bytes grant.value
      ∧ grant.objectHash = Crypto.objectHash bytes := by
  unfold parseGrant decodeExactObject at h
  cases hd : Crypto.decode bytes with
  | error e => simp [hd, Except.map, Except.mapError] at h
  | ok obj =>
    rw [hd, Except.map, Except.mapError, ok_bind] at h
    cases obj with
    | grant _ =>
      simp only [ok_iff] at h
      obtain ⟨-, ⟨hk, he⟩, ctx, hc, signer, hs, rfl⟩ := h
      exact ⟨⟨hd, hk, he, ctx, signer, hc, hs⟩, rfl⟩
    | _ => simp at h

/-- What the checks establish about the delivered objects. -/
structure Validated (request : EntryCommitRequest) (entry : Parsed EntryPackage)
    (organizationId : OrganizationId) (chainId : ChainId) (validated : ValidatedCommit) :
    Prop where
  organization : entry.value.signedManifest.manifest.organizationId = organizationId
  chain : entry.value.signedManifest.manifest.chainId = chainId
  entryHash : validated.entryHash = entry.value.entryHash
  entryObjectHash : validated.entryObjectHash = entry.objectHash
  sequence : validated.chainSequence = entry.value.signedManifest.manifest.chainSequence
  previous : validated.previousEntryHash = entry.value.signedManifest.manifest.previousEntryHash
  grantHashes : validated.grantObjectHashes = request.sortedGrantBytes.map Crypto.objectHash
  grants : ∀ bytes ∈ request.sortedGrantBytes, GrantOf entry.value.entryHash bytes

theorem validateCommit_eq_ok {request : EntryCommitRequest} {entry : Parsed EntryPackage}
    {org : OrganizationId} {cid : ChainId} {writer : CertificateHash}
    {validated : ValidatedCommit}
    (h : validateCommit request entry org cid writer head
      = .ok validated) : Validated request entry org cid validated := by
  simp only [validateCommit, validateWriter, validateGrants, ok_iff] at h
  obtain ⟨_, ⟨-, ho, -, ⟨hc, -⟩, -⟩, _, ⟨-, -, _, hp, -, -, -, -, -, -, -, -, rfl⟩, rfl⟩ := h
  refine ⟨ho, hc, rfl, rfl, rfl, rfl, ?_, fun bytes hb => ?_⟩
  · exact map_eq_map_of_mapM_eq_ok (fun _ _ hg => (parseGrant_eq_ok hg).2) hp
  · obtain ⟨grant, hg⟩ := exists_ok_of_mapM_eq_ok hp bytes hb
    obtain ⟨hj, -⟩ := parseGrant_eq_ok hg
    exact ⟨grant.value, hj.decoded, hj.entry⟩

end Einsatzarchiv.Server
