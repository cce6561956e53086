/-
  File:      Einsatzarchiv/Verify/Delivery.lean
  Subject:   The order in which the blobs of an archive are delivered.

  The inventory is described by the delivered bytes alone, without an order; the report follows.

  * `Applies`: the reasons for which an object of the delivered bytes is to be quarantined.
  * `Surveyed`: what the builder holds after some blobs; `Surveyed.accept` is one blob more.
  * `finish_eq_of_perm`, `leastBy_quarantined`: the inventory does not depend on the order, and
    its reasons are those of least rank.
  * `verification_order_independent`: neither does the verification.
-/
import Einsatzarchiv.Verify.Runs

namespace Einsatzarchiv.Archive

open Lib Format
open QuarantineReason (precedenceRank)

/-! ## 1. Deliveries -/

/-- A visited blob: where the bytes lay, and the bytes. -/
structure ArchiveBlob where
  pathHint : String
  bytes : Bytes

/-- A source that delivers the blobs in this order; the inventory reads their bytes only. -/
def ArchiveSource.ofBlobs (blobs : List ArchiveBlob) : ArchiveSource where
  blobs := blobs.map (·.bytes)

/-- The delivery has not too many blobs and not too many bytes. -/
structure WithinLimits (blobs : List Bytes) : Prop where
  length_le : blobs.length ≤ maxArchiveBlobsV1
  bytes_le : (blobs.map List.length).sum ≤ maxTotalArchiveBytesV1

/-- The claim of an entry package or a stub on a position. -/
def claimOf : Parsed ArchiveObject → Option SequenceClaim
  | ⟨.entry value, bytes, hash⟩ => some (entryClaim ⟨value, bytes, hash⟩)
  | ⟨.destroyed value, bytes, hash⟩ => some (stubClaim ⟨value, bytes, hash⟩)
  | _ => none

/-- The entry object a receipt confirms. -/
def confirmedEntry : Parsed ArchiveObject → Option ObjectHash
  | ⟨.receipt value, _, _⟩ => some value.core.entryObjectHash
  | _ => none

variable [Crypto] {quarantine : Std.ExtTreeMap ObjectHash QuarantineReason}
  {P : ObjectHash → QuarantineReason → Prop} {object : Parsed ArchiveObject} {blobs : List Bytes}
  {blobs' : List Bytes}

/-- Whether the bytes are an object with the hash. -/
def isObject (hash : ObjectHash) (bytes : Bytes) : Bool :=
  hasExactObjectPrefix bytes && Crypto.objectHash bytes = hash

section

variable (blobs : List Bytes)

/-- The object was delivered. -/
def Delivers (object : Parsed ArchiveObject) : Prop :=
  ∃ bytes ∈ blobs, hasExactObjectPrefix bytes = true ∧ decodeExactObject bytes = .ok object

/-- Another package claims the position that the object claims. -/
def SequenceDisputed (hash : ObjectHash) : Prop :=
  ∃ object claim, Delivers blobs object ∧ claimOf object = some claim ∧ claim.member = hash ∧
    ∃ other rival, Delivers blobs other ∧ claimOf other = some rival ∧
      rival.chainId = claim.chainId ∧ rival.chainSequence = claim.chainSequence ∧
      rival.identity ≠ claim.identity

/-- Another receipt confirms the entry object that the receipt confirms. -/
def ReceiptDisputed (hash : ObjectHash) : Prop :=
  ∃ object entry, Delivers blobs object ∧ confirmedEntry object = some entry ∧
    object.objectHash = hash ∧
    ∃ other, Delivers blobs other ∧ confirmedEntry other = some entry ∧ other.objectHash ≠ hash

/-- The reasons to quarantine an object of the delivered bytes. -/
def Applies (hash : ObjectHash) : QuarantineReason → Prop
  | .malformed => ∃ bytes ∈ blobs, isObject hash bytes = true ∧
      ∃ error, decodeExactObject bytes = .error error
  | .duplicate => 2 ≤ blobs.countP (isObject hash)
  | .conflicting => SequenceDisputed blobs hash ∨ ReceiptDisputed blobs hash
  | .unattributable => False

end

theorem CollisionFree.of_perm (h : blobs.Perm blobs') (hf : CollisionFree blobs) :
    CollisionFree blobs' :=
  fun _ ha _ hb => hf (h.mem_iff.mpr ha) (h.mem_iff.mpr hb)

theorem CollisionFree.of_append (hf : CollisionFree (blobs ++ blobs')) : CollisionFree blobs :=
  fun _ ha _ hb => hf (List.mem_append_left _ ha) (List.mem_append_left _ hb)

/-! ## 2. The builder after some blobs -/

/-- The reasons that show while the blobs are visited; conflicts show at the end. -/
def Noted (blobs : List Bytes) (hash : ObjectHash) (reason : QuarantineReason) : Prop :=
  reason ≠ .conflicting ∧ Applies blobs hash reason

/-- The builder after a whole delivery. -/
structure Surveyed (blobs : List Bytes) (builder : InventoryBuilder) : Prop where
  blobCount : builder.blobCount = blobs.length
  totalBytes : builder.totalBytes = (blobs.map List.length).sum
  archiveObjectCount : builder.archiveObjectCount = blobs.countP hasExactObjectPrefix
  nonObjectFileCount : builder.nonObjectFileCount = blobs.countP (!hasExactObjectPrefix ·)
  seen : ∀ hash, hash ∈ builder.seen ↔ 1 ≤ blobs.countP (isObject hash)
  objects : ∀ object, object ∈ builder.objects ↔ Delivers blobs object
  malformed : ∀ hash code, builder.malformed[hash]? = some code ↔
    ∃ bytes ∈ blobs, isObject hash bytes = true ∧
      ∃ error, decodeExactObject bytes = .error error ∧ error.code = code
  quarantine : ∀ hash, LeastBy precedenceRank (Noted blobs hash) builder.quarantine[hash]?

theorem surveyed_empty : Surveyed [] {} where
  blobCount := rfl
  totalBytes := rfl
  archiveObjectCount := rfl
  nonObjectFileCount := rfl
  seen := by simp
  objects := by simp [Delivers]
  malformed := by simp
  quarantine hash := by
    refine leastBy_none fun reason ⟨_, h⟩ => ?_
    cases reason <;> simp [Applies, SequenceDisputed, ReceiptDisputed, Delivers] at h

section Step

variable {builder : InventoryBuilder} {bytes : Bytes} {hash : ObjectHash}
  {reason : QuarantineReason} {parsed : Parsed ArchiveObject} {code : String}

omit [Crypto] in
/-- Escalating notes a further reason. -/
theorem leastBy_escalate (h : ∀ key, LeastBy precedenceRank (P key) quarantine[key]?)
    (key : ObjectHash) :
    LeastBy precedenceRank (fun other => P key other ∨ key = hash ∧ other = reason)
      (escalate quarantine hash reason)[key]? := by
  rw [getElem?_escalate]
  by_cases hk : key = hash
  · rw [if_pos hk]
    exact ((h key).insert precedenceRank_injective reason).congr fun other => by simp [hk]
  · rw [if_neg hk]
    exact (h key).congr fun other => by simp [hk]

theorem objectHash_of_decodeExactObject (h : decodeExactObject bytes = .ok parsed) :
    parsed.objectHash = Crypto.objectHash bytes := by
  cases hd : Crypto.decode bytes with
  | error error => simp [decodeExactObject, hd, Except.map] at h
  | ok _ =>
    simp only [decodeExactObject, hd, Except.map, Except.ok.injEq] at h
    rw [← h]

/-- Without collisions the first object under a key is the only one. -/
theorem mem_insertObject (hf : CollisionFree (blobs ++ [bytes])) (h : Surveyed blobs builder)
    (hp : decodeExactObject bytes = .ok parsed) :
    object ∈ insertObject builder.objects parsed ↔ object ∈ builder.objects ∨ object = parsed := by
  unfold insertObject
  split
  next ha =>
    obtain ⟨known, hk, hs⟩ := List.any_eq_true.mp ha
    obtain ⟨bytes', hb', -, hd⟩ := (h.objects known).mp hk
    have hh : Crypto.objectHash bytes = Crypto.objectHash bytes' := by
      simp only [sameSlot, Bool.and_eq_true, decide_eq_true_eq] at hs
      rw [← objectHash_of_decodeExactObject hp, ← objectHash_of_decodeExactObject hd]
      exact hs.2
    obtain rfl : bytes = bytes' := hf (by simp) (List.mem_append_left _ hb') hh
    obtain rfl : parsed = known := by simpa [hp] using hd
    constructor
    · exact .inl
    · rintro (hm | rfl)
      · exact hm
      · exact hk
  next => simp

/-- Without collisions a malformed object has one error. -/
theorem getElem?_insertIfNew_malformed (hf : CollisionFree (blobs ++ [bytes]))
    (h : Surveyed blobs builder) {error : FormatError}
    (hd : decodeExactObject bytes = .error error) :
    (builder.malformed.insertIfNew (Crypto.objectHash bytes) error.code)[hash]? = some code ↔
      builder.malformed[hash]? = some code ∨ hash = Crypto.objectHash bytes ∧
        ∃ error', (.error error : Except FormatError (Parsed ArchiveObject)) = .error error' ∧
          error'.code = code := by
  simp only [Std.ExtTreeMap.getElem?_insertIfNew, Std.LawfulEqCmp.compare_eq_iff_eq,
    Except.error.injEq, exists_eq_left']
  by_cases hh : Crypto.objectHash bytes = hash
  · subst hh
    cases hk : builder.malformed[Crypto.objectHash bytes]? with
    | none => simp [Std.ExtTreeMap.mem_iff_isSome_getElem?, hk]
    | some known =>
      obtain ⟨bytes', hb', hobject', error', hdecode', rfl⟩ := (h.malformed _ known).mp hk
      simp only [isObject, Bool.and_eq_true, decide_eq_true_eq] at hobject'
      obtain rfl : bytes' = bytes := hf (List.mem_append_left _ hb') (by simp) hobject'.2
      obtain rfl : error = error' := by simpa [hd] using hdecode'
      simp [Std.ExtTreeMap.mem_iff_isSome_getElem?, hk]
  · simp [hh, @eq_comm _ hash]

section

variable (hob : hasExactObjectPrefix bytes = true)
include hob

theorem countP_isObject_append : (blobs ++ [bytes]).countP (isObject hash) =
      blobs.countP (isObject hash) + if hash = Crypto.objectHash bytes then 1 else 0 := by
  simp [List.countP_append, List.countP_singleton, isObject, hob, eq_comm]

/-- The reasons a further object adds. -/
theorem noted_append : Noted (blobs ++ [bytes]) hash reason ↔ Noted blobs hash reason ∨
      hash = Crypto.objectHash bytes ∧ (reason = .duplicate ∧ 1 ≤ blobs.countP (isObject hash) ∨
          reason = .malformed ∧ ∃ error, decodeExactObject bytes = .error error) := by
  cases reason with
  | conflicting => simp [Noted]
  | unattributable => simp [Noted, Applies]
  | duplicate =>
    have hc : (blobs ++ [bytes]).countP (isObject hash) = _ := countP_isObject_append hob
    simp only [Noted, Applies, hc, ne_eq, reduceCtorEq, not_false_eq_true, true_and,
      false_and, or_false]
    split
    next hh =>
      constructor
      · exact fun hle => .inr ⟨hh, by omega⟩
      · rintro (hle | ⟨-, hle⟩) <;> omega
    next hne => simp [hne]
  | malformed =>
    simp [Noted, Applies, isObject, hob, @eq_comm _ hash]

theorem delivers_append : Delivers (blobs ++ [bytes]) object ↔
      Delivers blobs object ∨ decodeExactObject bytes = .ok object := by
  simp [Delivers, hob]

theorem exists_malformed_append : (∃ bytes' ∈ blobs ++ [bytes], isObject hash bytes' = true ∧
      ∃ error, decodeExactObject bytes' = .error error ∧ error.code = code) ↔
    (∃ bytes' ∈ blobs, isObject hash bytes' = true ∧
      ∃ error, decodeExactObject bytes' = .error error ∧ error.code = code) ∨
    hash = Crypto.objectHash bytes ∧
      ∃ error, decodeExactObject bytes = .error error ∧ error.code = code := by
  simp [isObject, hob, @eq_comm _ hash]

/-- One object more. -/
theorem Surveyed.acceptObject (hf : CollisionFree (blobs ++ [bytes]))
    (h : Surveyed blobs builder) (builder' : InventoryBuilder) (hbl : builder' = { builder with
      blobCount := builder.blobCount + 1
      totalBytes := builder.totalBytes + bytes.length }) :
    Surveyed (blobs ++ [bytes]) (builder'.acceptObject bytes) := by
  subst hbl
  have hc : ∀ hash, (blobs ++ [bytes]).countP (isObject hash) = _ :=
    fun hash => countP_isObject_append hob
  have hs : ∀ hash, hash ∈ insert (Crypto.objectHash bytes) builder.seen ↔
      1 ≤ (blobs ++ [bytes]).countP (isObject hash) := by
    intro hash
    rw [Finset.mem_insert, h.seen, hc]
    split <;> simp_all
  -- the reasons with the repetition, before the object is decoded
  have hre : ∀ hash, LeastBy precedenceRank
      (fun reason => Noted blobs hash reason ∨ hash = Crypto.objectHash bytes ∧
        reason = .duplicate ∧ 1 ≤ blobs.countP (isObject hash))
      (if Crypto.objectHash bytes ∈ builder.seen then
        escalate builder.quarantine (Crypto.objectHash bytes) .duplicate
        else builder.quarantine)[hash]? := by
    intro hash
    split
    next hm =>
      refine (leastBy_escalate h.quarantine hash).congr fun reason => or_congr_right ?_
      have := (h.seen _).mp hm
      constructor
      · rintro ⟨rfl, rfl⟩
        exact ⟨rfl, rfl, this⟩
      · exact fun ⟨hh, hr, _⟩ => ⟨hh, hr⟩
    next hne =>
      refine (h.quarantine hash).congr fun reason => ?_
      rw [h.seen] at hne
      constructor
      · exact .inl
      · rintro (hn | ⟨rfl, -, hle⟩)
        · exact hn
        · exact absurd hle hne
  have hco : builder.blobCount + 1 = (blobs ++ [bytes]).length ∧
      builder.totalBytes + bytes.length = ((blobs ++ [bytes]).map List.length).sum ∧
      builder.archiveObjectCount + 1 = (blobs ++ [bytes]).countP hasExactObjectPrefix ∧
      builder.nonObjectFileCount = (blobs ++ [bytes]).countP (!hasExactObjectPrefix ·) := by
    simp [h.blobCount, h.totalBytes, h.archiveObjectCount, h.nonObjectFileCount, hob]
  obtain ⟨hb, ht, ho, hfi⟩ := hco
  unfold InventoryBuilder.acceptObject
  cases hd : decodeExactObject bytes with
  | ok _ =>
    refine ⟨hb, ht, ho, hfi, hs, fun object => ?_, fun hash code => ?_,
      fun hash => (hre hash).congr fun reason => ?_⟩
    · rw [mem_insertObject hf h hd, h.objects, delivers_append hob, hd]
      simp [eq_comm]
    · rw [h.malformed, exists_malformed_append hob, hd]
      simp
    · simp [noted_append hob, hd]
  | error error =>
    refine ⟨hb, ht, ho, hfi, hs, fun object => ?_, fun hash code => ?_,
      fun hash => (leastBy_escalate hre hash).congr fun reason => ?_⟩
    · rw [h.objects, delivers_append hob, hd]
      simp
    · rw [exists_malformed_append hob, ← h.malformed, hd]
      exact getElem?_insertIfNew_malformed hf h hd
    · rw [noted_append hob, hd]
      grind

end

/-- One blob more. -/
theorem Surveyed.accept (hl : WithinLimits (blobs ++ [bytes]))
    (hf : CollisionFree (blobs ++ [bytes])) (h : Surveyed blobs builder) :
    ∃ builder', builder.accept bytes = .ok builder' ∧ Surveyed (blobs ++ [bytes]) builder' := by
  have hle := hl.length_le
  have hb := hl.bytes_le
  simp only [List.length_append, List.length_singleton, List.map_append, List.map_singleton,
    List.sum_append, List.sum_singleton] at hle hb
  simp only [InventoryBuilder.accept, ok_iff, h.blobCount, h.totalBytes, hle, hb,
    true_and, exists_const]
  by_cases hob : hasExactObjectPrefix bytes = true
  · rw [if_pos hob]
    refine ⟨_, rfl, h.acceptObject hob hf _ ?_⟩
    rw [h.blobCount, h.totalBytes]
  · rw [if_neg hob]
    -- a file that is no object is only counted
    have ho : ∀ hash, isObject hash bytes = false := by simp [isObject, hob]
    have ha : ∀ hash reason, Noted (blobs ++ [bytes]) hash reason ↔ Noted blobs hash reason := by
      intro hash reason
      cases reason <;> simp [Noted, Applies, ho, or_and_right, exists_or]
    refine ⟨_, rfl, ?_, ?_, ?_, ?_, ?_, ?_, ?_, fun hash => ?_⟩
    · simp
    · simp
    · simp [h.archiveObjectCount, hob]
    · simp [h.nonObjectFileCount, hob]
    · simp [h.seen, ho]
    · simp [h.objects, Delivers, hob, or_and_right, exists_or]
    · simp [h.malformed, ho, or_and_right, exists_or]
    · exact (h.quarantine hash).congr fun reason => (ha hash reason).symm

end Step

/-- **A visit within the limits reads every blob.** -/
theorem exists_surveyed (hl : WithinLimits blobs) (hf : CollisionFree blobs) :
    ∃ builder, blobs.foldlM InventoryBuilder.accept {} = .ok builder ∧ Surveyed blobs builder := by
  induction blobs using List.reverseRecOn with
  | nil => exact ⟨{}, rfl, surveyed_empty⟩
  | append_singleton blobs _ ih =>
    have hbe : WithinLimits blobs := by
      have hle := hl.length_le
      have hb := hl.bytes_le
      simp only [List.length_append, List.length_singleton, List.map_append, List.map_singleton,
        List.sum_append, List.sum_singleton] at hle hb
      exact ⟨by omega, by omega⟩
    obtain ⟨builder, hfo, hs⟩ := ih hbe hf.of_append
    obtain ⟨builder', ha, hsurveyed'⟩ := hs.accept hl hf
    refine ⟨builder', ?_, hsurveyed'⟩
    rw [List.foldlM_append, bind_eq_ok]
    refine ⟨builder, hfo, ?_⟩
    rw [List.foldlM_cons, bind_eq_ok]
    exact ⟨builder', ha, rfl⟩

/-! ## 3. The inventory -/

section Finish

variable {bld bld' : InventoryBuilder} {hash : ObjectHash}
  {objs : List (Parsed ArchiveObject)} {reason : QuarantineReason}

theorem delivers_perm (hp : blobs.Perm blobs') :
    Delivers blobs object ↔ Delivers blobs' object := by
  simp only [Delivers, hp.mem_iff]

theorem applies_perm (hp : blobs.Perm blobs') :
    Applies blobs hash reason ↔ Applies blobs' hash reason := by
  cases reason <;> simp only [Applies, SequenceDisputed, ReceiptDisputed, delivers_perm hp,
    hp.mem_iff, hp.countP_eq]

theorem family_eq_of_perm {α : Type} (select : ArchiveObject → Option α) (kind : ObjectType)
    (h : BuilderSpec blobs bld) (ho : bld.objects.Perm bld'.objects)
    (hs : ∀ object value, select object = some value → object.objectType = kind := by
      intro o v hv; cases o <;> cases hv; rfl) :
    family select bld.objects = family select bld'.objects := by
  refine sortByKey_eq_of_perm (ho.filterMap _) ?_
  exact ((perm_sortByKey _ _).pairwise_iff fun h => Ne.symm h).mp (pairwise_family kind h hs)

theorem nodup_objects (h : BuilderSpec blobs bld) : bld.objects.Nodup := by
  refine h.distinct.imp fun {a b} hs heq => ?_
  simp [heq, sameSlot] at hs

/-- **The inventory depends on the delivered bytes only.** -/
theorem finish_eq_of_perm (hp : blobs.Perm blobs') (h : Surveyed blobs bld)
    (h' : Surveyed blobs' bld') (hs : BuilderSpec blobs bld)
    (hspec' : BuilderSpec blobs' bld') : bld.finish = bld'.finish := by
  have ho : bld.objects.Perm bld'.objects := by
    rw [List.perm_ext_iff_of_nodup (nodup_objects hs) (nodup_objects hspec')]
    intro _
    rw [h.objects, h'.objects, delivers_perm hp]
  have hq : bld.quarantine = bld'.quarantine := by
    refine Std.ExtTreeMap.ext_getElem? fun hash => (h.quarantine hash).eq ?_
    exact (h'.quarantine hash).congr fun reason =>
      and_congr_right fun _ => (applies_perm hp).symm
  have hm : bld.malformed = bld'.malformed := by
    refine Std.ExtTreeMap.ext_getElem? fun hash => Option.ext fun code => ?_
    simp only [h.malformed, h'.malformed, hp.mem_iff]
  simp only [InventoryBuilder.finish, sequenceConflicts, sequenceClaims, receiptConflicts,
    family_eq_of_perm selectEntry .entry hs ho,
    family_eq_of_perm selectGrant .grant hs ho,
    family_eq_of_perm selectReceipt .receipt hs ho,
    family_eq_of_perm selectEvidence .evidence hs ho,
    family_eq_of_perm selectTrust .trust hs ho,
    family_eq_of_perm selectDestroyed .destroyed hs ho, hq, hm,
    h.archiveObjectCount, h'.archiveObjectCount, h.nonObjectFileCount, h'.nonObjectFileCount,
    hp.countP_eq]

omit [Crypto] in
theorem leastBy_foldl_escalate (conflicts : List ObjectHash)
    (h : ∀ key, LeastBy precedenceRank (P key) quarantine[key]?) (key : ObjectHash) :
    LeastBy precedenceRank (fun other => P key other ∨ key ∈ conflicts ∧ other = reason)
      (conflicts.foldl (escalate · · reason) quarantine)[key]? := by
  induction conflicts generalizing P quarantine with
  | nil => exact (h key).congr fun other => by simp
  | cons _ conflicts ih =>
    exact (ih (leastBy_escalate h)).congr fun other => by
      simp only [List.mem_cons, or_assoc, ← or_and_right]

omit [Crypto] in
theorem mem_sequenceClaims {claim : SequenceClaim} :
    claim ∈ sequenceClaims objs ↔ ∃ object ∈ objs, claimOf object = some claim := by
  simp only [sequenceClaims, List.mem_append, List.mem_map, mem_family]
  constructor
  · rintro (⟨_, ⟨object, hm, value, hv, rfl⟩, rfl⟩ | ⟨_, ⟨object, hm, value, hv, rfl⟩, rfl⟩)
    all_goals
      refine ⟨object, hm, ?_⟩
      obtain ⟨object, bytes, hash⟩ := object
      cases object <;> cases hv
      rfl
  · rintro ⟨⟨object, bytes, hash⟩, hm, hc⟩
    cases object with
    | entry value =>
      cases hc
      exact .inl ⟨_, ⟨_, hm, value, rfl, rfl⟩, rfl⟩
    | destroyed value =>
      cases hc
      exact .inr ⟨_, ⟨_, hm, value, rfl, rfl⟩, rfl⟩
    | _ => cases hc

theorem mem_sequenceConflicts (h : Surveyed blobs bld) :
    hash ∈ sequenceConflicts bld.objects ↔ SequenceDisputed blobs hash := by
  simp only [sequenceConflicts, List.mem_map, List.mem_filter, List.any_eq_true, Bool.and_eq_true,
    decide_eq_true_eq, mem_sequenceClaims, h.objects, SequenceDisputed]
  grind

omit [Crypto] in
theorem mem_receiptFamily {hash entry : ObjectHash} :
    (∃ receipt ∈ family selectReceipt objs, receipt.objectHash = hash ∧
      receipt.value.core.entryObjectHash = entry) ↔
    ∃ object ∈ objs, object.objectHash = hash ∧ confirmedEntry object = some entry := by
  simp only [mem_family]
  constructor
  · rintro ⟨_, ⟨object, hm, value, hv, rfl⟩, rfl, rfl⟩
    refine ⟨object, hm, rfl, ?_⟩
    obtain ⟨object, bytes, hash⟩ := object
    cases object <;> cases hv
    rfl
  · rintro ⟨⟨object, bytes, hash⟩, hm, rfl, he⟩
    cases object with
    | receipt value =>
      cases he
      exact ⟨_, ⟨_, hm, value, rfl, rfl⟩, rfl, rfl⟩
    | _ => cases he

theorem mem_receiptConflicts (h : Surveyed blobs bld) :
    hash ∈ receiptConflicts bld.objects ↔ ReceiptDisputed blobs hash := by
  simp only [receiptConflicts, List.mem_map, List.mem_filter, List.any_eq_true, Bool.and_eq_true,
    decide_eq_true_eq, ReceiptDisputed, ← h.objects]
  constructor
  · rintro ⟨rcpt, ⟨hr, other, ho, he, hne⟩, rfl⟩
    obtain ⟨object, hob, hh, hc⟩ := mem_receiptFamily.mp ⟨rcpt, hr, rfl, rfl⟩
    obtain ⟨object', hobject', hh', hconfirmed'⟩ := mem_receiptFamily.mp ⟨other, ho, rfl, he⟩
    exact ⟨object, _, hob, hc, hh, object', hobject', hconfirmed', hh' ▸ hne⟩
  · rintro ⟨object, _, hob, hc, hh, object', hobject', hconfirmed', hne⟩
    obtain ⟨rcpt, hr, rfl, rfl⟩ := mem_receiptFamily.mpr ⟨object, hob, hh, hc⟩
    obtain ⟨other, ho, hh', he⟩ := mem_receiptFamily.mpr ⟨object', hobject', rfl, hconfirmed'⟩
    exact ⟨rcpt, ⟨hr, other, ho, he, hh' ▸ hne⟩, rfl⟩

/-- **The reason of a quarantined object is the one of least rank that applies.** -/
theorem leastBy_quarantined (h : Surveyed blobs bld) (hash : ObjectHash) :
    LeastBy precedenceRank (Applies blobs hash) bld.finish.quarantined[hash]? := by
  refine (leastBy_foldl_escalate _ h.quarantine hash).congr fun reason => ?_
  simp only [List.mem_append, mem_sequenceConflicts h, mem_receiptConflicts h, Noted]
  cases reason <;> simp [Applies]

end Finish

end Einsatzarchiv.Archive

namespace Einsatzarchiv.Verify

open Lib Format Archive Chain Trust

/-! ## 4. The verification -/

/-- **The order of delivery does not matter.**  Two sources deliver the same bytes in some order
and under some path hints, within the limits.  They have one inventory; the reason of each of its
quarantined objects is the one of least rank among those that apply; and every verification of
the one returns what it returns of the other. -/
theorem verification_order_independent [Crypto] [EscrowRules] {blobs blobs' : List ArchiveBlob}
    (hsame : (blobs.map (·.bytes)).Perm (blobs'.map (·.bytes)))
    (hlimits : WithinLimits (blobs.map (·.bytes))) (hfree : CollisionFree (blobs.map (·.bytes))) :
    (∃ inventory, ArchiveInventory.build (.ofBlobs blobs) = .ok inventory ∧
      ArchiveInventory.build (.ofBlobs blobs') = .ok inventory ∧
      ∀ hash reason, inventory.quarantined[hash]? = some reason ↔
        Applies (blobs.map (·.bytes)) hash reason ∧
          ∀ other, Applies (blobs.map (·.bytes)) hash other →
            reason.precedenceRank ≤ other.precedenceRank) ∧
    ∀ anchor options, verifyArchive (.ofBlobs blobs) anchor options =
      verifyArchive (.ofBlobs blobs') anchor options := by
  have hlimits' : WithinLimits (blobs'.map (·.bytes)) :=
    ⟨hsame.length_eq ▸ hlimits.length_le, (hsame.map _).sum_nat ▸ hlimits.bytes_le⟩
  obtain ⟨builder, hv, hs⟩ := exists_surveyed hlimits hfree
  obtain ⟨builder', hvisit', hsurveyed'⟩ := exists_surveyed hlimits' (hfree.of_perm hsame)
  have hf := finish_eq_of_perm hsame hs hsurveyed' (builderSpec_visit hv)
    (builderSpec_visit hvisit')
  have hb : ArchiveInventory.build (.ofBlobs blobs) = .ok builder.finish := by
    simp only [ArchiveInventory.build, bind_eq_ok]
    exact ⟨builder, hv, rfl⟩
  have hbuild' : ArchiveInventory.build (.ofBlobs blobs') = .ok builder.finish := by
    simp only [ArchiveInventory.build, bind_eq_ok]
    exact ⟨builder', hvisit', by rw [hf]; rfl⟩
  refine ⟨⟨builder.finish, hb, hbuild', leastBy_quarantined hs⟩, fun anchor options => ?_⟩
  rw [verifyArchive, verifyArchive, hb, hbuild']

/-- `organization` and, twice, a blob without an object. -/
def spoiltArchive : TableArchive := ⟨organization, 99 :: organizationNames ++ [99]⟩

/-- The blob is a duplicate and malformed, and quarantined as malformed. -/
theorem verification_order_independent_spoilt :
    let := spoiltArchive.crypto
    ∃ inventory,
      ArchiveInventory.build (.ofBlobs (spoiltArchive.delivered.map (⟨"export", blob ·⟩))) =
        .ok inventory ∧
      ArchiveInventory.build (.ofBlobs (spoiltArchive.delivered.reverse.map (⟨"copy", blob ·⟩))) =
        .ok inventory ∧
      inventory.quarantined[99]? = some .malformed ∧
      Applies spoiltArchive.source.blobs 99 .duplicate := by
  let := spoiltArchive.crypto
  let := spoiltArchive.escrowRules
  have hb : ∀ hint (names : List UInt8),
      (names.map fun name => (⟨hint, blob name⟩ : ArchiveBlob)).map (·.bytes) = names.map blob :=
    fun _ _ => List.map_map
  have hs : ((spoiltArchive.delivered.map fun name =>
        (⟨"export", blob name⟩ : ArchiveBlob)).map (·.bytes)).Perm
      ((spoiltArchive.delivered.reverse.map fun name =>
        (⟨"copy", blob name⟩ : ArchiveBlob)).map (·.bytes)) := by
    rw [hb, hb]
    exact (List.reverse_perm _).symm.map blob
  obtain ⟨⟨inventory, hbu, hbuild', hl⟩, -⟩ := verification_order_independent hs
    (by rw [hb]; exact ⟨by decide, by decide⟩)
    (by rw [hb]; exact spoiltArchive.collisionFree)
  refine ⟨inventory, hbu, hbuild', (hl 99 .malformed).mpr ⟨?_, fun _ _ => Nat.zero_le _⟩, ?_⟩
  · rw [hb]
    exact ⟨blob 99, by decide, by decide, .shape, rfl⟩
  · show 2 ≤ List.countP _ _
    decide

end Einsatzarchiv.Verify
