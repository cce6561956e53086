/-
  File:      Einsatzarchiv/Protocol/Commit.lean
  Subject:   The commit request and its identity (crate `ea-sync-protocol`, `commit.rs`), with the
             errors, limits and writers of the frames (`error.rs`, `lib.rs`) that it uses.

  * `SyncProtocolError`: what the frames report; the errors of the request signatures, which no
    frame returns, are left out.
  * `EntryCommitIdentity`: the four positions that decide about an idempotent replay.
  * `EntryCommitRequest.new`: the limits, the families and the order of the grants.
  * `Identified`: the identity of a request that was built is that of the objects it carries.
-/
import Einsatzarchiv.Cbor.Codec
import Einsatzarchiv.Crypto

namespace Einsatzarchiv

open Lib Format

namespace Protocol

/-! ## 1. Errors -/

/-- Why a frame is refused. -/
inductive SyncProtocolError
  | frameShape
  | frameVersion
  | bodyLimit
  | itemLimit
  | grantLimit
  | duplicateObject
  | unsortedObjects
  | objectTypeMismatch
  | cursorInvalid
  | cursorExpired
  | cursorScope
  | format (error : FormatError)
  | cbor (error : Cbor.CborError)

/-! ## 2. Limits -/

def maxEntryObjectBytesV1 : Nat := eipMaxRawBytesV1
def maxGrantObjectBytesV1 : Nat := 2 * 1024
def maxGrantPlanItemsV1 : Nat := 10000
def maxEntryCommitBodyBytesV1 : Nat := 24 * 1024 * 1024

/-! ## 3. Writers -/

/-- The big-endian bytes of an unsigned integer of a width. -/
abbrev toBeBytes (width argument : Nat) : Bytes := Lib.Cbor.bigEndian width argument

/-- The head of an item, as short as it can be. -/
def head (major argument : Nat) : Bytes :=
  if argument ≤ 23 then [UInt8.ofNat (major * 32 + argument)]
  else if argument ≤ 0xff then UInt8.ofNat (major * 32 + 24) :: toBeBytes 1 argument
  else if argument ≤ 0xffff then UInt8.ofNat (major * 32 + 25) :: toBeBytes 2 argument
  else if argument ≤ 0xffffffff then UInt8.ofNat (major * 32 + 26) :: toBeBytes 4 argument
  else UInt8.ofNat (major * 32 + 27) :: toBeBytes 8 argument

def array (length : Nat) : Bytes := head 4 length

def uint (value : Nat) : Bytes := head 0 value

def bytes (value : Bytes) : Bytes := head 2 value.length ++ value

def text (value : Bytes) : Bytes := head 3 value.length ++ value

def emptyExtension : Bytes := array 0

def hashBytes (hash : Hash32) : Bytes := toBeBytes 32 hash

end Protocol

variable [Crypto]

def Format.GrantPlan.hash (plan : GrantPlan) : Hash32 :=
  Crypto.grantPlanDigest plan.items

namespace Protocol

/-! ## 4. The request -/

/-- What makes two requests the same commit. -/
structure EntryCommitIdentity where
  entryHash : EntryHash
  entryObjectHash : ObjectHash
  initialGrantPlanHash : Hash32
  sortedGrantObjectHashes : List ObjectHash

/-- A request with its identity and its exact bytes. -/
structure EntryCommitRequest where
  entryBytes : Bytes
  plan : GrantPlan
  sortedGrantBytes : List Bytes
  identity : EntryCommitIdentity
  exact : Bytes

/-- `GRANT_SUITE_ID`, in UTF-8. -/
def grantSuiteId : Bytes := "EINSATZARCHIV-HPKE-1".toUTF8.toList

/-- One item of `encode_plan_items`. -/
def encodePlanItem (item : GrantPlanItem) : Bytes :=
  array 4 ++ bytes (hashBytes item.recipientKeyThumbprint)
    ++ bytes (hashBytes item.recipientCertificateHash) ++ text grantSuiteId
    ++ uint item.purpose.toCode

/-- `encode_plan_items`: the exact bytes of a plan. -/
def encodePlanItems (items : List GrantPlanItem) : Bytes :=
  array items.length ++ items.flatMap encodePlanItem

/-- A list of byte strings with its length in front. -/
def encodeByteStrings (strings : List Bytes) : Bytes :=
  array strings.length ++ strings.flatMap bytes

def encodeRequest (entryBytes : Bytes) (plan : GrantPlan) (grants : List Bytes) : Bytes :=
  array 5 ++ uint 1 ++ bytes entryBytes ++ encodePlanItems plan.items ++ encodeByteStrings grants
    ++ emptyExtension

/-- The entry that bytes hold. -/
def parseEntryObject (bytes : Bytes) : Except SyncProtocolError (Parsed EntryPackage) := do
  let parsed ← (decodeExactObject bytes).mapError .format
  match parsed.value with
  | .entry entry => return ⟨entry, parsed.exactBytes, parsed.objectHash⟩
  | _ => throw .frameShape

/-- The hash of the grant that bytes hold, with the bytes. -/
def hashGrant (bytes : Bytes) : Except SyncProtocolError (ObjectHash × Bytes) := do
  let parsed ← (decodeExactObject bytes).mapError .format
  match parsed.value with
  | .grant _ => return (parsed.objectHash, bytes)
  | _ => throw .frameShape

namespace EntryCommitRequest

/-- A request from its parts: sizes are checked, grants sorted and no two the same. -/
def new (entryBytes : Bytes) (plan : GrantPlan) (grantBytes : List Bytes) :
    Except SyncProtocolError EntryCommitRequest := do
  ensure (entryBytes.length ≤ maxEntryObjectBytesV1) .bodyLimit
  ensure (!grantBytes.isEmpty) .frameShape
  ensure (grantBytes.length ≤ maxGrantPlanItemsV1 ∧ plan.items.length ≤ maxGrantPlanItemsV1)
    .itemLimit
  ensure (grantBytes.all fun grant => grant.length ≤ maxGrantObjectBytesV1) .grantLimit
  let entry ← parseEntryObject entryBytes
  let hashed ← grantBytes.mapM hashGrant
  let hashed := sortByKey Prod.fst hashed
  ensure ((windows2 hashed).all fun pair => pair.1.1 ≠ pair.2.1) .duplicateObject
  let sortedGrantBytes := hashed.map Prod.snd
  let exact := encodeRequest entryBytes plan sortedGrantBytes
  ensure (exact.length ≤ maxEntryCommitBodyBytesV1) .bodyLimit
  return {
    entryBytes, plan, sortedGrantBytes, exact
    identity := {
      entryHash := entry.value.entryHash
      entryObjectHash := entry.objectHash
      initialGrantPlanHash := plan.hash
      sortedGrantObjectHashes := hashed.map Prod.fst } }

/-! ## 5. What a request carries -/

/-- The objects of a request, their limits and its identity belong together. -/
structure Identified (request : EntryCommitRequest) : Prop where
  entry : ∃ entry, parseEntryObject request.entryBytes = .ok entry
    ∧ request.identity.entryHash = entry.value.entryHash
    ∧ request.identity.entryObjectHash = entry.objectHash
  plan : request.identity.initialGrantPlanHash = request.plan.hash
  grants : request.identity.sortedGrantObjectHashes = request.sortedGrantBytes.map Crypto.objectHash
  sorted : request.identity.sortedGrantObjectHashes.Pairwise (· < ·)

end EntryCommitRequest

theorem parseEntryObject_eq_ok {bytes : Bytes} {parsed : Parsed EntryPackage} :
    parseEntryObject bytes = .ok parsed ↔ Crypto.decode bytes = .ok (.entry parsed.value)
      ∧ parsed.exactBytes = bytes ∧ parsed.objectHash = Crypto.objectHash bytes := by
  unfold parseEntryObject decodeExactObject
  cases h : Crypto.decode bytes with
  | error e => simp [Except.map, Except.mapError]
  | ok obj =>
    obtain ⟨_, exactBytes, oh⟩ := parsed
    cases obj <;>
      simp [Except.map, Except.mapError, ok_bind, @eq_comm _ exactBytes, @eq_comm _ oh]

theorem hashGrant_eq_ok {bytes : Bytes} {hashed : ObjectHash × Bytes} :
    hashGrant bytes = .ok hashed ↔ (∃ grant, Crypto.decode bytes = .ok (.grant grant))
      ∧ hashed = (Crypto.objectHash bytes, bytes) := by
  unfold hashGrant decodeExactObject
  cases h : Crypto.decode bytes with
  | error e => simp [Except.map, Except.mapError]
  | ok obj =>
    cases obj <;> simp [Except.map, Except.mapError, ok_bind, @eq_comm _ hashed]

theorem EntryCommitRequest.new_identified {entryBytes : Bytes} {plan : GrantPlan}
    {grantBytes : List Bytes} {req : EntryCommitRequest}
    (h : EntryCommitRequest.new entryBytes plan grantBytes = .ok req) : req.Identified := by
  simp only [EntryCommitRequest.new, ok_iff] at h
  obtain ⟨-, -, -, -, -, -, -, -, entry, he, hashed, hh, -, hd, -, -, rfl⟩ := h
  have hg : hashed = grantBytes.map fun bytes => (Crypto.objectHash bytes, bytes) :=
    eq_map_of_mapM_eq_ok (fun _ _ hb => (hashGrant_eq_ok.mp hb).2) hh
  have hs := pairwise_sortByKey Prod.fst hashed
  have hd : (sortByKey Prod.fst hashed).Pairwise fun a b => a.1 ≠ b.1 := by
    rw [← forall_windows2_ne_iff hs]
    simpa using hd
  refine ⟨⟨entry, he, rfl, rfl⟩, rfl, ?_, ?_⟩
  · rw [List.map_map]
    refine List.map_congr_left fun pair hp => ?_
    rw [mem_sortByKey, hg] at hp
    obtain ⟨bytes, -, rfl⟩ := List.mem_map.mp hp
    rfl
  · rw [List.pairwise_map]
    exact (hs.and hd).imp fun h => lt_of_le_of_ne h.1 h.2

end Protocol

end Einsatzarchiv
