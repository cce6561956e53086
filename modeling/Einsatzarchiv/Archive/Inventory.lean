/-
  File:      Einsatzarchiv/Archive/Inventory.lean
  Subject:   The inventory of an archive (crate `ea-archive`, `inventory.rs`).

  * `ArchiveInventory.build`: the objects of a source by family, what is quarantined and why.
  * `InventorySpec`: what a built inventory satisfies: every object was decoded from a delivered
    blob, an object stands once in its family, the malformed objects are those quarantined as
    malformed, and objects that dispute a sequence are quarantined.
  * `getElem?_escalate`: the stronger of two reasons stays.
  * `CollisionFree`, `Delivered.kind_eq`: without collisions a hash belongs to one family.
  * `ArchiveInventory.trustObjectSource`: the inventory as a source of trust objects.
-/
import Einsatzarchiv.Trust.Resolver
import Mathlib.Data.Finset.Insert
import Std.Data.ExtTreeMap.Lemmas

namespace Einsatzarchiv.Archive

open Lib Format

/-! ## 1. Sources -/

/-- Why an archive cannot be read. -/
inductive ArchiveError
  | unavailable | blobLimit | totalByteLimit

def maxArchiveBlobsV1 : Nat := 1048576
def maxTotalArchiveBytesV1 : Nat := 2147483648

/-- The bytes of the visited blobs, and the error the visit ends with if it does not reach the
end. -/
structure ArchiveSource where
  blobs : List Bytes
  failure : Option ArchiveError := none

/-- The first bytes of an exact object of one of the six families. -/
def exactObjectPrefixesV1 : List Bytes :=
  [1, 2, 3, 4, 5, 6].map fun family => [0x85, 0x44, 0x45, 0x41, 0x31, 0, family, 1, 0x80]

/-- The bytes begin like an object of some family. -/
def hasExactObjectPrefix (bytes : Bytes) : Bool :=
  exactObjectPrefixesV1.any (·.isPrefixOf bytes)

/-! ## 2. Quarantine -/

/-- Why an object is set aside. -/
inductive QuarantineReason
  | malformed | duplicate | conflicting | unattributable

/-- Of two reasons the one of lower rank is kept. -/
def QuarantineReason.precedenceRank : QuarantineReason → Nat
  | .malformed => 0
  | .conflicting => 1
  | .unattributable => 2
  | .duplicate => 3

/-- The stronger reason stays. -/
def escalate (quarantine : Std.ExtTreeMap ObjectHash QuarantineReason) (objectHash : ObjectHash)
    (reason : QuarantineReason) : Std.ExtTreeMap ObjectHash QuarantineReason :=
  match quarantine[objectHash]? with
  | some existing =>
    if reason.precedenceRank < existing.precedenceRank then quarantine.insert objectHash reason
    else quarantine
  | none => quarantine.insert objectHash reason

section Escalate

variable {quarantine : Std.ExtTreeMap ObjectHash QuarantineReason} {hash key : ObjectHash}
  {reason : QuarantineReason}

theorem precedenceRank_injective : Function.Injective QuarantineReason.precedenceRank := by
  intro a b h
  cases a <;> cases b <;> simp_all [QuarantineReason.precedenceRank]

theorem getElem?_escalate : (escalate quarantine hash reason)[key]? =
    if key = hash then some (quarantine[key]?.elim reason fun old =>
      if reason.precedenceRank < old.precedenceRank then reason else old)
    else quarantine[key]? := by
  by_cases hk : key = hash
  · subst hk
    rw [if_pos rfl]
    unfold escalate
    cases hg : quarantine[key]? with
    | none => simp
    | some old =>
      dsimp only [Option.elim]
      split
      · simp
      · exact hg
  · have hne : hash ≠ key := fun e => hk e.symm
    rw [if_neg hk]
    unfold escalate
    cases quarantine[hash]? with
    | none => simp [Std.ExtTreeMap.getElem?_insert, hne]
    | some old =>
      dsimp only
      split
      · simp [Std.ExtTreeMap.getElem?_insert, hne]
      · rfl

@[simp] theorem mem_escalate : key ∈ escalate quarantine hash reason ↔
    key ∈ quarantine ∨ key = hash := by
  rw [Std.ExtTreeMap.mem_iff_isSome_getElem?, getElem?_escalate,
    Std.ExtTreeMap.mem_iff_isSome_getElem?]
  split
  next heq => simp [heq]
  next hne => simp [hne]

/-- Nothing is weaker than `malformed`, so that it is neither lifted nor gained by another
reason. -/
theorem escalate_eq_malformed : (escalate quarantine hash reason)[key]? = some .malformed ↔
    quarantine[key]? = some .malformed ∨ key = hash ∧ reason = .malformed := by
  rw [getElem?_escalate]
  split
  next heq =>
    cases hg : quarantine[key]? with
    | none => simp [heq]
    | some old =>
      cases reason <;> cases old <;> simp [heq, QuarantineReason.precedenceRank]
  next hne => simp [hne]

end Escalate

/-! ## 3. Families -/

/-- The objects of one family by ascending hash; `select` picks the values of the family. -/
def family {α : Type} (select : ArchiveObject → Option α) (objects : List (Parsed ArchiveObject)) :
    List (Parsed α) :=
  sortByKey (·.objectHash) (objects.filterMap fun object =>
    (select object.value).map (⟨·, object.exactBytes, object.objectHash⟩))

def selectEntry : ArchiveObject → Option EntryPackage
  | .entry value => some value
  | _ => none

def selectGrant : ArchiveObject → Option Grant
  | .grant value => some value
  | _ => none

def selectReceipt : ArchiveObject → Option Receipt
  | .receipt value => some value
  | _ => none

def selectEvidence : ArchiveObject → Option EvidenceObject
  | .evidence value => some value
  | _ => none

def selectTrust : ArchiveObject → Option TrustObject
  | .trust value => some value
  | _ => none

def selectDestroyed : ArchiveObject → Option DestroyedEntryStub
  | .destroyed value => some value
  | _ => none

/-! ## 4. The builder -/

variable [Crypto] {α : Type} {select : ArchiveObject → Option α} {embed : α → ArchiveObject}
  {x : Parsed α}

/-- The source keeps one map for each family; here the objects of all families stand in one list,
and each family is read from it. -/
structure InventoryBuilder where
  blobCount : Nat := 0
  totalBytes : Nat := 0
  archiveObjectCount : Nat := 0
  nonObjectFileCount : Nat := 0
  objects : List (Parsed ArchiveObject) := []
  malformed : Std.ExtTreeMap ObjectHash String := ∅
  seen : Finset ObjectHash := ∅
  quarantine : Std.ExtTreeMap ObjectHash QuarantineReason := ∅

/-- Both objects stand under one key of one family. -/
def sameSlot (a b : Parsed ArchiveObject) : Bool :=
  a.value.objectType = b.value.objectType && a.objectHash = b.objectHash

/-- The first object under a key stays. -/
def insertObject (objects : List (Parsed ArchiveObject)) (parsed : Parsed ArchiveObject) :
    List (Parsed ArchiveObject) :=
  if objects.any (sameSlot parsed) then objects else objects ++ [parsed]

namespace InventoryBuilder

/-- The part of `accept` for bytes with the first bytes of an object. -/
def acceptObject (builder : InventoryBuilder) (bytes : Bytes) : InventoryBuilder :=
  let hash := Crypto.objectHash bytes
  let builder := { builder with
    archiveObjectCount := builder.archiveObjectCount + 1
    seen := insert hash builder.seen
    quarantine := if hash ∈ builder.seen then escalate builder.quarantine hash .duplicate
      else builder.quarantine }
  match decodeExactObject bytes with
  | .ok parsed => { builder with objects := insertObject builder.objects parsed }
  | .error error => { builder with
      malformed := builder.malformed.insertIfNew hash error.code
      quarantine := escalate builder.quarantine hash .malformed }

/-- One delivered blob: an object, another file, or too much. -/
def accept (builder : InventoryBuilder) (bytes : Bytes) : Except ArchiveError InventoryBuilder := do
  let builder := { builder with blobCount := builder.blobCount + 1 }
  ensure (builder.blobCount ≤ maxArchiveBlobsV1) .blobLimit
  let builder := { builder with totalBytes := builder.totalBytes + bytes.length }
  ensure (builder.totalBytes ≤ maxTotalArchiveBytesV1) .totalByteLimit
  if hasExactObjectPrefix bytes then return builder.acceptObject bytes
  else return { builder with nonObjectFileCount := builder.nonObjectFileCount + 1 }

end InventoryBuilder

/-! ## 5. Conflicts -/

/-- A claim on a position of a chain: the package it stands for and the object that makes it. -/
structure SequenceClaim where
  chainId : ChainId
  chainSequence : Nat
  (identity member : ObjectHash)

def entryClaim (entry : Parsed EntryPackage) : SequenceClaim :=
  let fields := entry.value.signedManifest.manifest
  ⟨fields.chainId, fields.chainSequence, entry.objectHash, entry.objectHash⟩

/-- The place that the stub of an entry claims, for the entry. -/
def stubClaim (stub : Parsed DestroyedEntryStub) : SequenceClaim :=
  let fields := stub.value.signedManifest.manifest
  ⟨fields.chainId, fields.chainSequence, stub.value.originalEipObjectHash, stub.objectHash⟩

section

variable (objects : List (Parsed ArchiveObject))

/-- All claims to places of a chain. -/
def sequenceClaims : List SequenceClaim :=
  (family selectEntry objects).map entryClaim ++ (family selectDestroyed objects).map stubClaim

/-- The members of a slot that more than one package claims. -/
def sequenceConflicts : List ObjectHash :=
  let claims := sequenceClaims objects
  (claims.filter fun claim => claims.any fun other =>
    other.chainId = claim.chainId && other.chainSequence = claim.chainSequence
      && other.identity ≠ claim.identity).map (·.member)

/-- The receipts of an entry object that has more than one. -/
def receiptConflicts : List ObjectHash :=
  let receipts := family selectReceipt objects
  (receipts.filter fun receipt => receipts.any fun other =>
    other.value.core.entryObjectHash = receipt.value.core.entryObjectHash
      && other.objectHash ≠ receipt.objectHash).map (·.objectHash)

end

/-! ## 6. The inventory -/

/-- The objects of an archive by family, and those set aside. -/
structure ArchiveInventory where
  (archiveObjectCount nonObjectFileCount : Nat)
  entries : List (Parsed EntryPackage)
  grants : List (Parsed Grant)
  receipts : List (Parsed Receipt)
  evidence : List (Parsed EvidenceObject)
  trust : List (Parsed TrustObject)
  destroyed : List (Parsed DestroyedEntryStub)
  quarantined : Std.ExtTreeMap ObjectHash QuarantineReason
  formatErrors : Std.ExtTreeMap ObjectHash String

/-- The inventory of what was accepted; conflicts are set aside. -/
def InventoryBuilder.finish (builder : InventoryBuilder) : ArchiveInventory :=
  let conflicts := sequenceConflicts builder.objects ++ receiptConflicts builder.objects
  { archiveObjectCount := builder.archiveObjectCount
    nonObjectFileCount := builder.nonObjectFileCount
    entries := family selectEntry builder.objects
    grants := family selectGrant builder.objects
    receipts := family selectReceipt builder.objects
    evidence := family selectEvidence builder.objects
    trust := family selectTrust builder.objects
    destroyed := family selectDestroyed builder.objects
    quarantined := conflicts.foldl (escalate · · .conflicting) builder.quarantine
    formatErrors := builder.malformed }

/-- All blobs in turn; a source that fails gives no inventory. -/
def ArchiveInventory.build (source : ArchiveSource) : Except ArchiveError ArchiveInventory := do
  let builder ← source.blobs.foldlM InventoryBuilder.accept {}
  match source.failure with
  | some error => throw error
  | none => return builder.finish

/-- The inventory as a source of trust objects; it declares no more than a catalog may hold. -/
def ArchiveInventory.trustObjectSource (inventory : ArchiveInventory) :
    Trust.TrustObjectSource where
  hashes := inventory.trust.map (·.objectHash)
  failure :=
    if inventory.trust.length > Trust.maxTrustObjectsV1 then some .countLimit
    else if (inventory.trust.map (·.exactBytes.length)).sum > Trust.maxTotalTrustObjectBytesV1 then
      some .byteLimit
    else none
  readExactTrustObject objectHash :=
    .ok ((inventory.trust.find? (·.objectHash = objectHash)).map (·.exactBytes))

/-! ## 7. What a built inventory satisfies -/

/-- The object was decoded from a delivered blob. -/
structure ExactFrom {α : Type} (blobs : List Bytes) (embed : α → ArchiveObject) (x : Parsed α) :
    Prop where
  delivered : x.exactBytes ∈ blobs
  decoded : Crypto.decode x.exactBytes = .ok (embed x.value)
  hash : Crypto.objectHash x.exactBytes = x.objectHash

/-- No two delivered blobs share an object hash. -/
def CollisionFree (blobs : List Bytes) : Prop :=
  Set.InjOn Crypto.objectHash {bytes | bytes ∈ blobs}

section Exact

variable {β : Type} {blobs : List Bytes} {embed' : β → ArchiveObject} {y : Parsed β}

/-- Without collisions a hash determines the decoded object. -/
theorem ExactFrom.embed_eq (hf : CollisionFree blobs) (hx : ExactFrom blobs embed x)
    (hy : ExactFrom blobs embed' y) (hash : x.objectHash = y.objectHash) :
    embed x.value = embed' y.value := by
  have hb : x.exactBytes = y.exactBytes :=
    hf hx.delivered hy.delivered (by rw [hx.hash, hy.hash, hash])
  have := hx.decoded.symm.trans (hb ▸ hy.decoded)
  simpa using this

/-- Without collisions an object of a family is determined by its hash. -/
theorem ExactFrom.eq {y : Parsed α} (hf : CollisionFree blobs)
    (he : Function.Injective embed) (hx : ExactFrom blobs embed x)
    (hy : ExactFrom blobs embed y) (hash : x.objectHash = y.objectHash) : x = y := by
  have hv := he (hx.embed_eq hf hy hash)
  have hb := hf hx.delivered hy.delivered (by rw [hx.hash, hy.hash, hash])
  cases x
  cases y
  simp_all

end Exact

/-- An object of the family was delivered under the hash. -/
def Delivered (blobs : List Bytes) (family : ObjectType) (hash : ObjectHash) : Prop :=
  ∃ bytes ∈ blobs, ∃ object, Crypto.decode bytes = .ok object ∧
    Crypto.objectHash bytes = hash ∧ object.objectType = family

section Delivered

variable {blobs : List Bytes} {hash : ObjectHash} {kind kind' : ObjectType}

theorem ExactFrom.deliveredAs (h : ExactFrom blobs embed x) :
    Delivered blobs (embed x.value).objectType x.objectHash :=
  ⟨x.exactBytes, h.delivered, _, h.decoded, h.hash, rfl⟩

/-- Without collisions a hash belongs to one family. -/
theorem Delivered.kind_eq (hf : CollisionFree blobs) (h : Delivered blobs kind hash)
    (h' : Delivered blobs kind' hash) : kind = kind' := by
  obtain ⟨bytes, hb, object, hd, hh, rfl⟩ := h
  obtain ⟨bytes', hb', object', hdecode', hh', rfl⟩ := h'
  obtain rfl : bytes = bytes' := hf hb hb' (hh.trans hh'.symm)
  obtain rfl : object = object' := by simpa [hd] using hdecode'
  rfl

end Delivered

omit [Crypto] in
theorem mem_family {objects : List (Parsed ArchiveObject)} :
    x ∈ family select objects ↔ ∃ obj ∈ objects, ∃ value, select obj.value = some value ∧
      x = ⟨value, obj.exactBytes, obj.objectHash⟩ := by
  simp only [family, mem_sortByKey, List.mem_filterMap, Option.map_eq_some_iff]
  grind

/-- What was accepted was delivered, and each object once. -/
structure BuilderSpec (blobs : List Bytes) (builder : InventoryBuilder) : Prop where
  exact : ∀ object ∈ builder.objects, ∃ bytes ∈ blobs, decodeExactObject bytes = .ok object
  distinct : builder.objects.Pairwise fun a b => sameSlot a b = false
  malformed_iff : ∀ hash, hash ∈ builder.malformed ↔ builder.quarantine[hash]? = some .malformed
  malformed_of : ∀ hash ∈ builder.malformed, ∃ bytes ∈ blobs, Crypto.objectHash bytes = hash ∧
    ∃ error, Crypto.decode bytes = .error error
  length_le : builder.objects.length ≤ builder.blobCount
  blobCount_le : builder.blobCount ≤ maxArchiveBlobsV1

theorem builderSpec_empty (blobs : List Bytes) : BuilderSpec blobs {} :=
  ⟨by simp, by simp, by simp, by simp, by simp, by simp⟩

variable {blobs : List Bytes} {builder : InventoryBuilder} {inventory : ArchiveInventory}
  {bytes : Bytes}

theorem builderSpec_acceptObject (h : BuilderSpec blobs builder) (hby : bytes ∈ blobs)
    (hr : builder.objects.length < builder.blobCount) :
    BuilderSpec blobs (builder.acceptObject bytes) := by
  -- a duplicate neither adds nor removes a malformed object
  have hdu : ∀ hash, hash ∈ builder.malformed ↔ (if Crypto.objectHash bytes ∈ builder.seen then
        escalate builder.quarantine (Crypto.objectHash bytes) .duplicate
        else builder.quarantine)[hash]? = some .malformed := by
    intro hash
    split
    · simp [escalate_eq_malformed, h.malformed_iff]
    · exact h.malformed_iff hash
  simp only [InventoryBuilder.acceptObject]
  split
  next parsed hp =>
    simp only [insertObject]
    split
    next =>
      exact ⟨h.exact, h.distinct, hdu, h.malformed_of, h.length_le, h.blobCount_le⟩
    next hn =>
      refine ⟨forall_mem_concat h.exact ⟨bytes, hby, hp⟩, ?_, hdu, h.malformed_of,
        ?_, h.blobCount_le⟩
      · refine List.pairwise_append.mpr ⟨h.distinct, by simp, fun a ha b hb => ?_⟩
        rw [List.mem_singleton.mp hb]
        simp only [List.any_eq_true, not_exists, not_and, Bool.not_eq_true] at hn
        have := hn a ha
        simp only [sameSlot, Bool.and_eq_false_iff, decide_eq_false_iff_not] at this ⊢
        rcases this with this | this
        · exact .inl (Ne.symm this)
        · exact .inr (Ne.symm this)
      · simpa [Nat.succ_le_iff] using hr
  next error he =>
    refine ⟨h.exact, h.distinct, ?_, ?_, h.length_le, h.blobCount_le⟩
    · intro hash
      rw [escalate_eq_malformed, ← hdu hash]
      grind
    · intro hash hh
      simp only [Std.ExtTreeMap.mem_insertIfNew, Std.LawfulEqCmp.compare_eq_iff_eq] at hh
      rcases hh with rfl | hh
      · refine ⟨bytes, hby, rfl, error, ?_⟩
        cases hd : Crypto.decode bytes with
        | ok _ => simp [decodeExactObject, hd, Except.map] at he
        | error e => simpa [decodeExactObject, hd, Except.map] using he
      · exact h.malformed_of hash hh

theorem builderSpec_accept {builder' : InventoryBuilder} (h : BuilderSpec blobs builder)
    (hb : bytes ∈ blobs) (ha : builder.accept bytes = .ok builder') :
    BuilderSpec blobs builder' := by
  simp only [InventoryBuilder.accept, ok_iff] at ha
  obtain ⟨-, hc, -, -, ha⟩ := ha
  have hle := h.length_le
  split at ha
  · simp only [pure_eq_ok] at ha
    subst ha
    exact builderSpec_acceptObject ⟨h.exact, h.distinct, h.malformed_iff, h.malformed_of,
      by dsimp only; omega, hc⟩ hb (by dsimp only; omega)
  · simp only [pure_eq_ok] at ha
    subst ha
    exact ⟨h.exact, h.distinct, h.malformed_iff, h.malformed_of, by dsimp only; omega, hc⟩

/-- What `ArchiveInventory.build` establishes. -/
structure InventorySpec (blobs : List Bytes) (inventory : ArchiveInventory) : Prop where
  entries : ∀ x ∈ inventory.entries, ExactFrom blobs .entry x
  grants : ∀ x ∈ inventory.grants, ExactFrom blobs .grant x
  receipts : ∀ x ∈ inventory.receipts, ExactFrom blobs .receipt x
  evidence : ∀ x ∈ inventory.evidence, ExactFrom blobs .evidence x
  trust : ∀ x ∈ inventory.trust, ExactFrom blobs .trust x
  destroyed : ∀ x ∈ inventory.destroyed, ExactFrom blobs .destroyed x
  entries_distinct : inventory.entries.Pairwise fun a b => a.objectHash ≠ b.objectHash
  destroyed_distinct : inventory.destroyed.Pairwise fun a b => a.objectHash ≠ b.objectHash
  length_le : inventory.entries.length + inventory.destroyed.length ≤ maxArchiveBlobsV1
  malformed_iff : ∀ hash, hash ∈ inventory.formatErrors ↔
    inventory.quarantined[hash]? = some .malformed
  malformed_of : ∀ hash ∈ inventory.formatErrors, ∃ bytes ∈ blobs,
    Crypto.objectHash bytes = hash ∧ ∃ error, Crypto.decode bytes = .error error
  disputed : ∀ claim ∈ inventory.entries.map entryClaim ++ inventory.destroyed.map stubClaim,
    ∀ other ∈ inventory.entries.map entryClaim ++ inventory.destroyed.map stubClaim,
      other.chainId = claim.chainId → other.chainSequence = claim.chainSequence →
        other.identity ≠ claim.identity → claim.member ∈ inventory.quarantined

/-- Without collisions no object is malformed. -/
theorem InventorySpec.not_malformed (spec : InventorySpec blobs inventory)
    (hf : CollisionFree blobs) {hash : ObjectHash} {kind : ObjectType}
    (h : Delivered blobs kind hash) : hash ∉ inventory.formatErrors := by
  intro hm
  obtain ⟨bytes, hb, _, hd, hh, -⟩ := h
  obtain ⟨bytes', hb', hh', _, he⟩ := spec.malformed_of hash hm
  obtain rfl : bytes = bytes' := hf hb hb' (hh.trans hh'.symm)
  simp [hd] at he

section Finish

theorem exactFrom_of_mem_family (h : BuilderSpec blobs builder)
    (hx : x ∈ family select builder.objects)
    (hs : ∀ object value, select object = some value → object = embed value := by
      intro o v hv; cases o <;> cases hv; rfl) : ExactFrom blobs embed x := by
  obtain ⟨object, ho, value, hva, rfl⟩ := mem_family.mp hx
  obtain ⟨bytes, hb, hde⟩ := h.exact object ho
  cases hd : Crypto.decode bytes with
  | error e => simp [decodeExactObject, hd, Except.map] at hde
  | ok _ =>
    obtain rfl : _ = object := by simpa [decodeExactObject, hd, Except.map] using hde
    exact ⟨hb, hd.trans (congrArg _ (hs _ _ hva)), rfl⟩

/-- Two objects of one family have different hashes. -/
theorem pairwise_family (kind : ObjectType) (h : BuilderSpec blobs builder)
    (hs : ∀ obj value, select obj = some value → obj.objectType = kind := by
      intro o v hv; cases o <;> cases hv; rfl) :
    (family select builder.objects).Pairwise fun a b => a.objectHash ≠ b.objectHash := by
  rw [family, (perm_sortByKey _ _).pairwise_iff (fun h => Ne.symm h)]
  refine List.pairwise_filterMap.mpr (h.distinct.imp fun {a b} hab x hx y hy => ?_)
  simp only [Option.map_eq_some_iff] at hx hy
  obtain ⟨v, hv, rfl⟩ := hx
  obtain ⟨w, hw, rfl⟩ := hy
  simpa [sameSlot, hs _ _ hv, hs _ _ hw] using hab

omit [Crypto] in
theorem length_family_add_le (objects : List (Parsed ArchiveObject)) :
    (family selectEntry objects).length + (family selectDestroyed objects).length ≤
      objects.length := by
  simp only [family, (perm_sortByKey _ _).length_eq]
  refine length_filterMap_add_le fun obj _ => ?_
  cases obj.value <;> simp [selectEntry, selectDestroyed]

theorem finish_spec (h : BuilderSpec blobs builder) : InventorySpec blobs builder.finish where
  entries _ hx := exactFrom_of_mem_family h hx
  grants _ hx := exactFrom_of_mem_family h hx
  receipts _ hx := exactFrom_of_mem_family h hx
  evidence _ hx := exactFrom_of_mem_family h hx
  trust _ hx := exactFrom_of_mem_family h hx
  destroyed _ hx := exactFrom_of_mem_family h hx
  entries_distinct := pairwise_family .entry h
  destroyed_distinct := pairwise_family .destroyed h
  length_le := (length_family_add_le builder.objects).trans (h.length_le.trans h.blobCount_le)
  malformed_iff hash := by
    refine (h.malformed_iff hash).trans (Eq.to_iff ?_)
    -- the conflicts escalate to a weaker reason
    refine (foldl_frame (g := fun q : Std.ExtTreeMap ObjectHash QuarantineReason =>
      q[hash]? = some QuarantineReason.malformed) fun q a _ => ?_).symm
    simp [escalate_eq_malformed]
  malformed_of := h.malformed_of
  disputed claim hc other ho hch hs hid := by
    have hm : claim.member ∈ sequenceConflicts builder.objects := by
      refine List.mem_map.mpr ⟨claim, List.mem_filter.mpr ⟨hc, ?_⟩, rfl⟩
      exact List.any_eq_true.mpr ⟨other, ho, by simp [hch, hs, hid]⟩
    refine (foldl_or (P := fun q => claim.member ∈ q) (q := fun hash => claim.member = hash)
      fun q a _ => mem_escalate).mpr (.inr ⟨_, List.mem_append_left _ hm, rfl⟩)

end Finish

theorem builderSpec_visit (h : blobs.foldlM InventoryBuilder.accept {} = .ok builder) :
    BuilderSpec blobs builder :=
  foldlM_invariant (fun _ _ _ hm hs => builderSpec_accept hs hm) (builderSpec_empty blobs) h

/-- **What the inventory of a source is.** -/
theorem build_spec {src : ArchiveSource} (h : ArchiveInventory.build src = .ok inventory) :
    InventorySpec src.blobs inventory := by
  simp only [ArchiveInventory.build, bind_eq_ok] at h
  obtain ⟨_, hf, h⟩ := h
  have hb := builderSpec_visit hf
  split at h
  · simp at h
  · simp only [pure_eq_ok] at h
    exact h ▸ finish_spec hb

end Einsatzarchiv.Archive
