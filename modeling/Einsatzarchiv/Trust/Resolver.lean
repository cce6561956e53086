/-
  File:      Einsatzarchiv/Trust/Resolver.lean
  Subject:   Trust errors, the catalog of trust objects, the state behind a registry head and the
             certificates it resolves (crate `ea-trust`, `error.rs`, `source.rs`, `catalog.rs`,
             `resolver.rs`).

  * `TrustCatalog`: trust objects by hash; every record carries the bytes it was decoded from,
    and those bytes hash to its key.
  * `TrustCatalog.load`: reads a source within its limits.
  * `PreviousHeadState`: root, certificates, bindings, policy, lease and writer after the events
    applied so far.
  * `activeCertificate`, `activeOperatorBinding`: what holds at a sequence; a writer certificate
    is active only while it is the current writer.
  * `resolveSelected`, `previousHeadResolver`, `bootstrapRootResolver`: the three resolvers.
-/
import Einsatzarchiv.Crypto

namespace Einsatzarchiv.Trust

open Lib Format

/-! ## 1. Errors -/

/-- Why trust is refused. -/
inductive TrustError
  | source | sourceCountLimit | sourceByteLimit | anchorShape | anchorHash | anchorPin
  | bootstrapPair | signature | signerInactive | subjectMismatch | selfAuthorization | authReplay
  | authNotYetValid | authExpired | actionMismatch | timeSourceUnsupported | timeOverflow
  | clockReleaseReplay | stateConflict | stateMonotonicity | stateUnavailable
  | escrowEnrollmentMismatch | escrowInactive | escrowConflict | approversInsufficient
deriving DecidableEq

/-- Why a head of the registry is refused. -/
inductive RegistryError
  | trust (error : TrustError)
  | pendingFuture
  | successorReady
  | stale
  | futureSkew
  | gap
  | fork
  | rollback
  | overflow
  | previous
  | activationHead
  | activationMissing
  | policyMismatch
  | sequenceLease
  | deviceRoleConflict
deriving DecidableEq

/-- Why a source gives no objects. -/
inductive TrustSourceError
  | unavailable | countLimit | byteLimit

/-- What that means for the trust verification. -/
def TrustSourceError.toTrustError : TrustSourceError → TrustError
  | .unavailable => .source
  | .countLimit => .sourceCountLimit
  | .byteLimit => .sourceByteLimit

/-- A step of the trust layer inside a step of the registry layer. -/
def liftTrust {α : Type} (x : Except TrustError α) : Except RegistryError α :=
  x.mapError .trust

@[simp] theorem liftTrust_eq_ok {α : Type} {x : Except TrustError α} {a : α} :
    liftTrust x = .ok a ↔ x = .ok a := mapError_eq_ok

/-! ## 2. Sources -/

def maxTrustObjectsV1 : Nat := 65536
def maxTotalTrustObjectBytesV1 : Nat := 268435456

/-- The hashes a source declares, the error it ends with if it does not reach its end, and what
it returns for a hash. -/
structure TrustObjectSource where
  hashes : List ObjectHash
  failure : Option TrustSourceError
  readExactTrustObject : ObjectHash → Except TrustSourceError (Option Bytes)

/-! ## 3. The catalog -/

section Catalog

variable [Crypto]

/-- A record that was decoded from bytes with its hash. -/
structure IsExact (record : Parsed TrustObject) : Prop where
  hash : Crypto.objectHash record.exactBytes = record.objectHash
  decoded : Crypto.decode record.exactBytes = .ok (.trust record.value)

structure RegistryEvent where
  objectHash : ObjectHash
  fields : RegistryEventFields
  authorizationObjectHash : ObjectHash

/-- The trust objects by hash, each decoded from its exact bytes. -/
structure TrustCatalog where
  byHash : Std.TreeMap ObjectHash (Parsed TrustObject)
  key_eq : ∀ {hash : ObjectHash} {record : Parsed TrustObject},
    byHash[hash]? = some record → record.objectHash = hash
  exact : ∀ {hash : ObjectHash} {record : Parsed TrustObject},
    byHash[hash]? = some record → IsExact record

namespace TrustCatalog

def empty : TrustCatalog where
  byHash := ∅
  key_eq h := by simp at h
  exact h := by simp at h

section

variable (catalog : TrustCatalog)

/-- One more exact object. -/
def insert (record : Parsed TrustObject) (exact : IsExact record) :
    TrustCatalog where
  byHash := catalog.byHash.insert record.objectHash record
  key_eq {hash r} h := by
    rw [Std.TreeMap.getElem?_insert] at h
    split at h
    · cases h
      simpa using ‹compare record.objectHash hash = .eq›
    · exact catalog.key_eq h
  exact {hash r} h := by
    rw [Std.TreeMap.getElem?_insert] at h
    split at h
    · cases h
      exact exact
    · exact catalog.exact h

def get (objectHash : ObjectHash) : Option (Parsed TrustObject) :=
  catalog.byHash[objectHash]?

/-- The hashes of one subtype, ascending: `load` visits the declared hashes in this order. -/
def hashesForSubtype (subtype : TrustSubtype) : List ObjectHash :=
  (catalog.byHash.toList.filter fun record => record.2.value.subtype = subtype).map Prod.fst

/-- `load_registry_event`: the registry event under a hash. -/
def registryEvent (objectHash : ObjectHash) : Option RegistryEvent :=
  match catalog.get objectHash with
  | some ⟨⟨.authorized (.registryEvent fields) authorizationObjectHash, _⟩, _, _⟩ =>
    some ⟨objectHash, fields, authorizationObjectHash⟩
  | _ => none

/-- The registry events of the catalog by ascending hash. -/
def registryEvents : List RegistryEvent :=
  (catalog.hashesForSubtype .registryEvent).filterMap catalog.registryEvent

end

/-- One round of the loop of `load`: the bytes read so far and the catalog so far. -/
def loadObject (source : TrustObjectSource) (loaded : Nat × TrustCatalog)
    (declared : ObjectHash) : Except TrustError (Nat × TrustCatalog) := do
  let read ← (source.readExactTrustObject declared).mapError TrustSourceError.toTrustError
  let exactBytes ← okOr read .source
  let total := loaded.1 + exactBytes.length
  ensure (total ≤ maxTotalTrustObjectBytesV1) .sourceByteLimit
  if hash : Crypto.objectHash exactBytes = declared then
    match decoded : Crypto.decode exactBytes with
    | .ok (.trust object) =>
      ensure (!loaded.2.byHash.contains declared) .source
      return (total, loaded.2.insert ⟨object, exactBytes, declared⟩ ⟨hash, decoded⟩)
    | _ => throw .source
  else throw .source

/-- All objects of a source, within the limits. -/
def load (source : TrustObjectSource) : Except TrustError TrustCatalog := do
  ensure (source.hashes.length ≤ maxTrustObjectsV1) .sourceCountLimit
  match source.failure with
  | some error => throw error.toTrustError
  | none =>
    let declared := source.hashes.insertionSort (· ≤ ·)
    ensure declared.Nodup .source
    let loaded ← declared.foldlM (loadObject source) (0, empty)
    return loaded.2

/-- Every hash of a loaded catalog was declared, and the source returned its bytes. -/
theorem of_load {src : TrustObjectSource} {catalog : TrustCatalog}
    (h : load src = .ok catalog) {hash : ObjectHash} {record : Parsed TrustObject}
    (hg : catalog.get hash = some record) :
    hash ∈ src.hashes ∧ src.readExactTrustObject hash = .ok (some record.exactBytes) := by
  simp only [load, ok_iff] at h
  obtain ⟨-, -, h⟩ := h
  cases hf : src.failure with
  | some _ => simp [hf] at h
  | none =>
    simp only [hf, ok_iff] at h
    obtain ⟨-, -, loaded, hfo, rfl⟩ := h
    -- what every record of the catalog under construction satisfies
    refine foldlM_invariant (P := fun loaded => ∀ hash record, loaded.2.get hash = some record →
      hash ∈ src.hashes ∧ src.readExactTrustObject hash = .ok (some record.exactBytes))
      ?_ (by simp [empty, get]) hfo hash record hg
    intro s declared t hm hs hst hash record hg
    have hm : declared ∈ src.hashes := by simpa using hm
    simp only [loadObject, ok_iff] at hst
    obtain ⟨_, hr, _, rfl, -, -, hst⟩ := hst
    split at hst
    · split at hst
      · simp only [ok_iff] at hst
        obtain ⟨-, -, rfl⟩ := hst
        simp only [get, insert, Std.TreeMap.getElem?_insert] at hg
        split at hg
        · obtain rfl : declared = hash := by simpa using ‹compare declared hash = .eq›
          cases hg
          exact ⟨hm, hr⟩
        · exact hs hash record hg
      · simp at hst
    · simp at hst

end TrustCatalog

end Catalog

/-! ## 4. The state -/

/-- An object of a known kind together with its hash. -/
structure Held (α : Type) where
  objectHash : ObjectHash
  fields : α

abbrev RootAuthority := Held RootCertificateFields
abbrev ActiveCertificate := Held DeviceCertificateFields
abbrev ActiveOperatorBinding := Held OperatorBindingFields
abbrev ResolvedPolicy := Held PolicyFields

/-- A change of writers that is in effect. -/
structure EffectiveWriterTransition where
  objectHash : ObjectHash
  (oldWriterCertificateHash newWriterCertificateHash : CertificateHash)
  effectiveFromSequence : Nat
  previousEntryHash : EntryHash

variable [Crypto]

/-- What a head of the registry says: root, certificates, bindings and policy. -/
structure PreviousHeadState where
  registryVersion : Nat
  registryHeadHash : Hash32
  catalog : TrustCatalog
  root : RootAuthority
  (certificates adminCertificates : Std.TreeMap CertificateHash ActiveCertificate)
  adminBindings : Std.TreeMap ObjectHash ActiveOperatorBinding
  policy : Option ResolvedPolicy
  (effectiveFromSequence validThroughSequence : Nat)
  headEvent : Option RegistryEventFields
  currentWriterCertificateHash : Option CertificateHash
  writerTransition : Option EffectiveWriterTransition

/-! ## 5. The bootstrap state -/

section

variable (catalog : TrustCatalog)

def requireCatalogObject (objectHash : ObjectHash) :
    Except TrustError Unit := do
  let _ ← okOr (catalog.get objectHash) .anchorPin

/-- Collects the given objects by hash; each is in the catalog and none is given twice. -/
def collectHeld {α : Type} (objects : List (ObjectHash × α)) :
    Except TrustError (Std.TreeMap ObjectHash (Held α)) :=
  objects.foldlM (fun held object => do
    requireCatalogObject catalog object.1
    ensure (!held.contains object.1) .bootstrapPair
    return held.insert object.1 ⟨object.1, object.2⟩) ∅

/-- `from_verified_bootstrap`. -/
def fromVerifiedBootstrap (organizationId : OrganizationId)
    (root : ObjectHash × RootCertificateFields)
    (adminCertificates : List (ObjectHash × DeviceCertificateFields))
    (adminBindings : List (ObjectHash × OperatorBindingFields)) :
    Except TrustError PreviousHeadState := do
  ensure (organizationId = root.2.organizationId) .bootstrapPair
  requireCatalogObject catalog root.1
  let certificates ← collectHeld catalog adminCertificates
  let bindings ← collectHeld catalog adminBindings
  return {
    registryVersion := 0
    registryHeadHash := 0
    catalog
    root := ⟨root.1, root.2⟩
    certificates
    adminCertificates := certificates
    adminBindings := bindings
    policy := none
    effectiveFromSequence := 0
    validThroughSequence := 0
    headEvent := none
    currentWriterCertificateHash := none
    writerTransition := none }

end

/-! ## 6. Reading the state -/

/-- A period covers a sequence. -/
def covers (effectiveFrom : Nat) (revokedFrom : Option Nat) (sequence : Nat) : Bool :=
  effectiveFrom ≤ sequence && revokedFrom.all (sequence < ·)

/-- The certificate is active at the sequence. -/
def certificateActive (certificate : ActiveCertificate) (atSequence : Nat) : Bool :=
  covers certificate.fields.effectiveFromSequence certificate.fields.revokedFromSequence atSequence

def bindingActive (binding : ActiveOperatorBinding) (atSequence : Nat) : Bool :=
  covers binding.fields.effectiveFromSequence binding.fields.revokedFromSequence atSequence

/-- The certificate revoked from a sequence on. -/
def revokeAt (certificate : ActiveCertificate) (revokedFrom : Nat) : ActiveCertificate :=
  { certificate with fields := { certificate.fields with revokedFromSequence := some revokedFrom } }

/-- People act at devices of their role. -/
def roleMatches : CertificateKind → OperatorRole → Bool
  | .writer, .writer | .reader, .reader | .organizationAdmin, .organizationAdmin => true
  | _, _ => false

namespace PreviousHeadState

variable (state : PreviousHeadState)

def catalogObject (objectHash : ObjectHash) : Option (Parsed TrustObject) :=
  state.catalog.get objectHash

def activeCertificate (certificateHash : CertificateHash) (atSequence : Nat) :
    Option ActiveCertificate :=
  state.certificates[certificateHash]?.filter fun certificate =>
    certificateActive certificate atSequence && (certificate.fields.certificateKind ≠ .writer
        || state.currentWriterCertificateHash = some certificateHash)

def activeOperatorBinding (objectHash : ObjectHash) (atSequence : Nat) :
    Option ActiveOperatorBinding :=
  state.adminBindings[objectHash]?.filter fun binding =>
    bindingActive binding atSequence
      && (state.activeCertificate binding.fields.deviceCertificateHash atSequence).any
        fun certificate =>
          roleMatches certificate.fields.certificateKind binding.fields.operatorRole

/-- `apply_writer_transition`: the old writer is revoked from the sequence of the transition. -/
def applyWriterTransition (transition : EffectiveWriterTransition) :
    Option PreviousHeadState :=
  state.certificates[transition.oldWriterCertificateHash]?.map fun old =>
    { state with
      certificates := state.certificates.insert transition.oldWriterCertificateHash
        (revokeAt old transition.effectiveFromSequence)
      currentWriterCertificateHash := some transition.newWriterCertificateHash
      writerTransition := some transition }

theorem activeCertificate_eq_some {hash : CertificateHash} {seq : Nat} {cert : ActiveCertificate} :
    state.activeCertificate hash seq = some cert ↔
      state.certificates[hash]? = some cert ∧ certificateActive cert seq ∧
        (cert.fields.certificateKind = .writer →
          state.currentWriterCertificateHash = some hash) := by
  simp [activeCertificate, ← imp_iff_not_or]

/-! ## 7. Resolvers -/

/-- `resolve_selected`: what a selected head resolves at its sequence. -/
def resolveSelected (selectedSequence : Nat) : SignerCertificateResolver :=
  fun certificateHash boundRegistry => do
    ensure (boundRegistry = state.registryVersion) .signerUnresolved
    let objectHash ←
      if certificateHash = state.root.objectHash then pure state.root.objectHash
      else do
        let certificate ←
          okOr (state.activeCertificate certificateHash selectedSequence) .signerUnresolved
        pure certificate.objectHash
    let record ← okOr (state.catalog.get objectHash) .signerUnresolved
    return {
      exactCertificateBytes := record.exactBytes
      registryEffectiveFromSequence := selectedSequence
      registryRevokedFromSequence := checkedAdd selectedSequence 1
      registryRevoked := false
      rootLineAccepted := true }

/-- `PreviousHeadResolver`: what the state resolves for the objects that extend it. -/
def previousHeadResolver : SignerCertificateResolver :=
  fun certificateHash boundRegistry => do
    ensure (boundRegistry = state.registryVersion) .signerUnresolved
    if certificateHash = state.root.objectHash then
      let record ← okOr (state.catalog.get state.root.objectHash) .signerUnresolved
      return {
        exactCertificateBytes := record.exactBytes
        registryEffectiveFromSequence := 0
        registryRevokedFromSequence := none
        registryRevoked := false
        rootLineAccepted := true }
    else
      let certificate ← okOr state.certificates[certificateHash]? .signerUnresolved
      ensure (certificate.fields.certificateKind ≠ .writer
        ∨ state.currentWriterCertificateHash = some certificateHash) .signerUnresolved
      let record ← okOr (state.catalog.get certificate.objectHash) .signerUnresolved
      return {
        exactCertificateBytes := record.exactBytes
        registryEffectiveFromSequence := certificate.fields.effectiveFromSequence
        registryRevokedFromSequence := certificate.fields.revokedFromSequence
        registryRevoked := false
        rootLineAccepted := true }

end PreviousHeadState

/-- `BootstrapRootResolver`: only the pinned root at registry version zero. -/
def bootstrapRootResolver (rootHash : CertificateHash) (exactRootBytes : Bytes) :
    SignerCertificateResolver :=
  fun certificateHash boundRegistry => do
    ensure (certificateHash = rootHash ∧ boundRegistry = 0) .signerUnresolved
    return {
      exactCertificateBytes := exactRootBytes
      registryEffectiveFromSequence := 0
      registryRevokedFromSequence := none
      registryRevoked := false
      rootLineAccepted := true }

end Einsatzarchiv.Trust
