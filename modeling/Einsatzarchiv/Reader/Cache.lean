/-
  File:      Einsatzarchiv/Reader/Cache.lean
  Subject:   The removal journal and the object cache of the reader (crate `ea-reader`,
             `cache_destruction.rs` and `cache.rs`).

  * `Job`, `encode`, `decode`: the journal is one data item, read back under the limits of the
    parser.
  * `JournalFits`: the journals within the limits.
  * `decode_encode`, `decode_encode_eq_error`: these are read back, and no others.
  * `BlobStore`: the store; every blob in it is sealed under its own address.
  * `readJournal`, `denied`: the journal as the cache asks it.
  * `putExactObject`, `getExactObject`: the cache, which refuses what a job has removed.
  * `put_of_untargeted`, `get_of_untargeted`: with a journal that can be read, an object of an
    entry that no job targets is treated as if there were none.
-/
import Einsatzarchiv.Cbor.Canonical
import Einsatzarchiv.Crypto

namespace Einsatzarchiv.Reader

open Lib Cbor

section

open Lib.Cbor

/-! ## 1. Jobs -/

/-- A hash of 32 bytes. -/
abbrev WideHash := { hash : Hash32 // hash < 256 ^ 32 }

/-- An identifier of 16 bytes. -/
abbrev WideId := { id : Id16 // id < 256 ^ 16 }

/-- A removal: its targets, what was removed, and whether it is done. -/
structure Job where
  hash : WideHash
  replica : WideId
  targets : List WideHash
  instruction : Bytes
  removed : List WideHash
  complete : Bool
deriving DecidableEq

def hashItem (hash : WideHash) : Item := .bytes (bigEndian 32 hash.1)

def Job.item (job : Job) : Item :=
  .array [hashItem job.hash, .bytes (bigEndian 16 job.replica.1),
    .array (job.targets.map hashItem), .bytes job.instruction,
    .array (job.removed.map hashItem), .simple (if job.complete then 21 else 20)]

/-- The bytes of "EINSATZARCHIV-READER-REMOVAL-v1". -/
def journalLabel : Bytes := "EINSATZARCHIV-READER-REMOVAL-v1".toList.map fun c => c.toNat.toUInt8

def journalItem (jobs : List Job) : Item :=
  .array [.text journalLabel, .array (jobs.map Job.item)]

def encode (jobs : List Job) : Bytes := (journalItem jobs).write

def hashOf : Item → Option WideHash
  | .bytes payload =>
    if h : ofBigEndian payload < 256 ^ 32 ∧ payload.length = 32 then
      some ⟨ofBigEndian payload, h.1⟩
    else none
  | _ => none

def idOf : Item → Option WideId
  | .bytes payload =>
    if h : ofBigEndian payload < 256 ^ 16 ∧ payload.length = 16 then
      some ⟨ofBigEndian payload, h.1⟩
    else none
  | _ => none

/-- A truth value from its item. -/
def boolOf : Item → Option Bool
  | .simple 20 => some false
  | .simple 21 => some true
  | _ => none

def Job.ofItem : Item → Option Job
  | .array [hash, replica, .array targets, .bytes instruction, .array removed, complete] => do
      let hash ← hashOf hash
      let replica ← idOf replica
      let targets ← targets.mapM hashOf
      let removed ← removed.mapM hashOf
      let complete ← boolOf complete
      return { hash, replica, targets, instruction, removed, complete }
  | _ => none

/-- The jobs of a journal with the right label. -/
def jobsOfItem : Item → Option (List Job)
  | .array [.text label, .array jobs] => if label = journalLabel then jobs.mapM Job.ofItem else none
  | _ => none

/-- Why the vault refuses. -/
inductive ReaderVaultError
  | contents | crypto | blob

section

variable [TextRules]

/-- `decode`: within the limits, of this shape, and written as `encode` writes it. -/
def decode (bytes : Bytes) : Except ReaderVaultError (List Job) := do
  (validate bytes .v1).mapError fun _ => .contents
  let jobs ← okOr ((parse bytes).bind jobsOfItem) .contents
  ensure (encode jobs = bytes) .contents
  return jobs

end

/-! ## 2. What is read is what was written -/

theorem hashOf_hashItem (hash : WideHash) : hashOf (hashItem hash) = some hash := by
  have hv : ofBigEndian (bigEndian 32 hash.1) = hash.1 := ofBigEndian_bigEndian hash.2
  simp only [hashItem, hashOf, hv, length_bigEndian]
  rw [dif_pos ⟨hash.2, trivial⟩]

theorem idOf_bigEndian (id : WideId) : idOf (.bytes (bigEndian 16 id.1)) = some id := by
  have hv : ofBigEndian (bigEndian 16 id.1) = id.1 := ofBigEndian_bigEndian id.2
  simp only [idOf, hv, length_bigEndian]
  rw [dif_pos ⟨id.2, trivial⟩]

theorem mapM_map_eq_some {α β : Type} {f : α → β} {g : β → Option α}
    (h : ∀ a, g (f a) = some a) (l : List α) : (l.map f).mapM g = some l := by
  induction l with
  | nil => rfl
  | cons a l ih =>
    rw [List.map_cons, List.mapM_cons, h, ih]
    rfl

theorem ofItem_item (job : Job) : Job.ofItem job.item = some job := by
  have hc : boolOf (.simple (if job.complete then 21 else 20)) = some job.complete := by
    cases job.complete <;> rfl
  simp only [Job.item, Job.ofItem, hashOf_hashItem, idOf_bigEndian,
    mapM_map_eq_some hashOf_hashItem, hc]
  rfl

theorem jobsOfItem_journalItem (jobs : List Job) : jobsOfItem (journalItem jobs) = some jobs := by
  exact mapM_map_eq_some ofItem_item jobs

/-! ## 3. Limits -/

/-- The data items of a job. -/
def Job.size (job : Job) : Nat := 7 + job.targets.length + job.removed.length

/-- The data items of a journal. -/
def journalSize (jobs : List Job) : Nat := 3 + (jobs.map Job.size).sum

/-- The journals within the limits: not too many data items, and no instruction too long. -/
def JournalFits (jobs : List Job) : Prop :=
  journalSize jobs ≤ ParserLimits.v1.maxTotalItems
    ∧ ∀ job ∈ jobs, job.instruction.length ≤ ParserLimits.v1.maxTextOrBytes

theorem sizeItems_map_hashItem (hashes : List WideHash) :
    sizeItems (hashes.map hashItem) = hashes.length := by
  induction hashes with
  | nil => rfl
  | cons hash hashes ih =>
    have ho : (hashItem hash).size = 1 := rfl
    rw [List.map_cons, sizeItems, ih, ho, List.length_cons]
    omega

theorem size_item (job : Job) : job.item.size = job.size := by
  simp only [Job.item, Item.size, sizeItems, sizeItems_map_hashItem, hashItem, Job.size]
  omega

theorem size_journalItem (jobs : List Job) : (journalItem jobs).size = journalSize jobs := by
  have hj : sizeItems (jobs.map Job.item) = (jobs.map Job.size).sum := by
    rw [sizeItems_eq, List.map_map]
    exact congrArg List.sum (List.map_congr_left fun job _ => size_item job)
  simp only [journalItem, Item.size, sizeItems, hj, journalSize]
  omega

variable {jobs : List Job} {bound : Nat}

/-- The items of a journal, one by one: a condition on each kind of them is one on all. -/
theorem every_journalItem {P : Nat → Item → Prop} (hr : P 0 (journalItem jobs))
    (hl : P 1 (.text journalLabel)) (hj : P 1 (.array (jobs.map Job.item)))
    (hjo : ∀ job ∈ jobs, P 2 job.item) (hh : ∀ depth hash, P depth (hashItem hash))
    (hre : ∀ job ∈ jobs, P 3 (.bytes (bigEndian 16 job.replica.1)))
    (ht : ∀ job ∈ jobs, P 3 (.array (job.targets.map hashItem)))
    (hin : ∀ job ∈ jobs, P 3 (.bytes job.instruction))
    (hrm : ∀ job ∈ jobs, P 3 (.array (job.removed.map hashItem)))
    (hc : ∀ job ∈ jobs, P 3 (.simple (if job.complete then 21 else 20))) :
    (journalItem jobs).Every P 0 := by
  have hhs : ∀ depth, ∀ hashes : List WideHash, ∀ item ∈ hashes.map hashItem,
      item.Every P depth := by
    intro depth hashes item hi
    obtain ⟨hash, -, rfl⟩ := List.mem_map.mp hi
    exact hh depth hash
  refine every_array.mpr ⟨hr, fun item hi => ?_⟩
  simp only [List.mem_cons, List.not_mem_nil, or_false] at hi
  rcases hi with rfl | rfl
  · exact hl
  · refine every_array.mpr ⟨hj, fun item hi => ?_⟩
    obtain ⟨job, hm, rfl⟩ := List.mem_map.mp hi
    refine every_array.mpr ⟨hjo job hm, fun item hi => ?_⟩
    simp only [List.mem_cons, List.not_mem_nil, or_false] at hi
    rcases hi with rfl | rfl | rfl | rfl | rfl | rfl
    · exact hh 3 job.hash
    · exact hre job hm
    · exact every_array.mpr ⟨ht job hm, hhs 4 job.targets⟩
    · exact hin job hm
    · exact every_array.mpr ⟨hrm job hm, hhs 4 job.removed⟩
    · exact hc job hm

/-- The strings of a journal are short if its instructions are. -/
theorem short_journalItem (hb : 32 ≤ bound) (h : ∀ job ∈ jobs, job.instruction.length ≤ bound) :
    (journalItem jobs).Every (fun _ => Item.Short bound) 0 := by
  refine every_journalItem trivial ?_ trivial (fun _ _ => trivial) (fun _ hash => ?_)
    (fun job _ => ?_) (fun _ _ => trivial) h (fun _ _ => trivial) (fun _ _ => trivial)
  · have hl : journalLabel.length = 31 := by decide
    simp only [Item.Short, hl]
    omega
  · simp only [hashItem, Item.Short, length_bigEndian]
    exact hb
  · simp only [Item.Short, length_bigEndian]
    omega

theorem Job.size_le_journalSize {job : Job} (h : job ∈ jobs) : job.size + 3 ≤ journalSize jobs := by
  have := List.single_le_sum (fun _ _ => Nat.zero_le _) job.size (List.mem_map_of_mem h)
  rw [journalSize]
  omega

theorem length_le_journalSize (jobs : List Job) : jobs.length ≤ journalSize jobs := by
  have hs : ∀ jobs : List Job, jobs.length ≤ (jobs.map Job.size).sum := by
    intro jobs
    induction jobs with
    | nil => simp
    | cons _ jobs _ =>
      simp only [List.length_cons, List.map_cons, List.sum_cons, Job.size]
      omega
  have := hs jobs
  rw [journalSize]
  omega

/-- What the code writes fits into the address space if the instructions do. -/
theorem length_encode_le (hb : 32 ≤ bound) (h : ∀ job ∈ jobs, job.instruction.length ≤ bound) :
    (encode jobs).length ≤ journalSize jobs * (9 + bound) := by
  rw [← size_journalItem]
  exact length_write_le (short_journalItem hb h)

theorem ordered_journalItem (jobs : List Job) : (journalItem jobs).Ordered :=
  every_journalItem trivial trivial trivial (fun _ _ => trivial) (fun _ _ => trivial)
    (fun _ _ => trivial) (fun _ _ => trivial) (fun _ _ => trivial) (fun _ _ => trivial)
    (fun _ _ => trivial)

/-- Every journal that fits into the address space has an encoding. -/
theorem wellFormed_journalItem (hs : journalSize jobs ≤ maxArgument)
    (h : ∀ job ∈ jobs, job.instruction.length ≤ maxArgument) : (journalItem jobs).WellFormed := by
  have hl : ∀ job ∈ jobs, job.targets.length ≤ maxArgument ∧ job.removed.length ≤ maxArgument := by
    intro job hm
    have := (Job.size_le_journalSize hm).trans hs
    rw [Job.size] at this
    omega
  refine every_journalItem ?_ ?_ ?_ (fun job _ => ?_) (fun _ hash => ?_) (fun job _ => ?_)
    (fun job hm => ?_) h (fun job hm => ?_) (fun job _ => ?_)
  · simp [journalItem, Item.Argued, maxArgument]
  · have hlabelLength : journalLabel.length = 31 := by decide
    simp [Item.Argued, hlabelLength, maxArgument]
  · simp only [Item.Argued, List.length_map]
    exact (length_le_journalSize jobs).trans hs
  · simp [Job.item, Item.Argued, maxArgument]
  · simp [hashItem, Item.Argued, maxArgument]
  · simp [Item.Argued, maxArgument]
  · simpa [Item.Argued] using (hl job hm).1
  · simpa [Item.Argued] using (hl job hm).2
  · cases job.complete <;> simp [Item.Argued]

section

variable [TextRules]

/-- The rules accept the label of the journal. -/
def LabelAccepted : Prop :=
  TextRules.isUtf8 journalLabel = true ∧ TextRules.isNfc journalLabel = true

/-- A journal that fits is within the limits item by item. -/
theorem admissible_journalItem (hla : LabelAccepted) (h : JournalFits jobs) :
    Admissible .v1 (journalItem jobs) := by
  obtain ⟨hs, hi⟩ := h
  have hle := length_le_journalSize jobs
  have hj : ∀ job ∈ jobs, job.size + 3 ≤ 10000 := fun job hm =>
    (Job.size_le_journalSize hm).trans hs
  have hl : ∀ job ∈ jobs, job.targets.length ≤ 10000 ∧ job.removed.length ≤ 10000 := by
    intro job hm
    have := hj job hm
    rw [Job.size] at this
    omega
  refine ⟨by decide, ?_, by rw [size_journalItem]; exact hs⟩
  simp only [ParserLimits.v1] at hs hi ⊢
  refine every_journalItem ?_ ?_ ?_ (fun job hm => ?_) (fun depth hash => ?_)
    (fun job hm => ?_) (fun job hm => ?_) (fun job hm => ?_) (fun job hm => ?_)
    (fun job hm => ?_)
  · simp [Fits, journalItem, Item.Argued, maxArgument]
  · have hlabelLength : journalLabel.length = 31 := by decide
    simp only [Fits, Item.Argued, hlabelLength, maxArgument]
    exact ⟨by decide, by decide, hla⟩
  · simp only [Fits, Item.Argued, List.length_map, maxArgument]
    omega
  · simp [Fits, Job.item, Item.Argued, maxArgument]
  · simp [Fits, hashItem, Item.Argued, maxArgument]
  · simp [Fits, Item.Argued, maxArgument]
  · have := hl job hm
    simp only [Fits, Item.Argued, List.length_map, maxArgument]
    omega
  · have := hi job hm
    simp only [Fits, Item.Argued, maxArgument]
    omega
  · have := hl job hm
    simp only [Fits, Item.Argued, List.length_map, maxArgument]
    omega
  · cases job.complete <;> simp [Fits, Item.Argued]

/-- **A journal that fits is read back.** -/
theorem decode_encode (hl : LabelAccepted) (h : JournalFits jobs) :
    decode (encode jobs) = .ok jobs := by
  have ha := admissible_journalItem hl h
  have hle : (encode jobs).length ≤ u64Max := by
    refine (length_encode_le (by decide) h.2).trans ?_
    exact (Nat.mul_le_mul_right _ h.1).trans (by decide)
  have hv : validate (encode jobs) .v1 = .ok () :=
    (validate_eq_ok hle).mpr ⟨journalItem jobs, rfl, ha, ordered_journalItem jobs⟩
  have hp : parse (encode jobs) = some (journalItem jobs) := parse_write ha.wellFormed
  simp only [decode, ok_iff]
  refine ⟨(), hv, jobs, ?_, (), rfl, rfl⟩
  rw [hp, Option.bind_some, jobsOfItem_journalItem]

/-- **No other journal is.** -/
theorem decode_encode_eq_error (hl : (encode jobs).length ≤ u64Max)
    (hf : (journalItem jobs).WellFormed) (h : ¬ JournalFits jobs) :
    decode (encode jobs) = .error .contents := by
  cases hv : validate (encode jobs) .v1 with
  | error e =>
    rw [decode, hv]
    rfl
  | ok _ =>
    obtain ⟨_, hw, ha, -⟩ := (validate_eq_ok hl).mp hv
    obtain rfl := write_injective hf ha.wellFormed hw
    refine absurd ⟨?_, fun job hm => ?_⟩ h
    · rw [← size_journalItem]
      exact ha.total_le
    · have hj := (every_array.mp ha.fits).2 (.array (jobs.map Job.item)) (by simp)
      have hjo := (every_array.mp hj).2 _ (List.mem_map_of_mem hm)
      have hi := (every_array.mp hjo).2 (.bytes job.instruction) (by simp)
      exact hi.2

end

end

/-! ## 4. The store -/

/-- The addresses: the journal, `cache/<object hash>`, `entry-state/<entry hash>`, what is derived
from contents (`index/`, `search/`, `profile/`), what a removal leaves alone (the vault, the state
of the synchronisation, the audit log, trust and time observations, attestations), and all else. -/
inductive ReaderBlobKey
  | journal
  | object (hash : WideHash)
  | entryState (entry : WideHash)
  | derived (name : Text)
  | kept (name : Text)
  | unknown (name : Text)
deriving DecidableEq

/-- The blobs by their addresses. -/
structure BlobStore where
  blobs : List (ReaderBlobKey × Bytes)
  nodup : (blobs.map Prod.fst).Nodup

namespace BlobStore

variable (s : BlobStore) {key other : ReaderBlobKey} {bytes : Bytes}

section

variable (key : ReaderBlobKey)

def get : Option Bytes := s.blobs.lookup key

/-- Nothing lies at the address any more. -/
def delete : BlobStore where
  blobs := s.blobs.filter fun blob => blob.1 ≠ key
  nodup := s.nodup.sublist (List.filter_sublist.map _)

/-- The bytes lie at the address, whatever lay there before. -/
def put (bytes : Bytes) : BlobStore where
  blobs := (key, bytes) :: (s.delete key).blobs
  nodup := by
    refine List.nodup_cons.mpr ⟨fun hmem => ?_, (s.delete key).nodup⟩
    obtain ⟨blob, hblob, hkey⟩ := List.mem_map.mp hmem
    exact absurd hkey (of_decide_eq_true (List.mem_filter.mp hblob).2)

end

/-- The objects in the cache. -/
def objects : List (WideHash × Bytes) :=
  s.blobs.filterMap fun blob => match blob.1 with
    | .object hash => some (hash, blob.2)
    | _ => none

variable {s}

@[simp] theorem get_put_self : (s.put key bytes).get key = some bytes := by
  simp [get, put]

theorem lookup_filter_ne {blobs : List (ReaderBlobKey × Bytes)} (h : other ≠ key) :
    (blobs.filter fun blob => blob.1 ≠ key).lookup other = blobs.lookup other := by
  induction blobs with
  | nil => rfl
  | cons blob blobs ih =>
    obtain ⟨k, v⟩ := blob
    by_cases hk : k = key
    · subst hk
      have hne : (other == k) = false := by simpa using h
      rw [List.filter_cons_of_neg (by simp), List.lookup_cons, hne, ih]
    · rw [List.filter_cons_of_pos (by simpa using hk), List.lookup_cons, List.lookup_cons, ih]

theorem get_delete_of_ne (h : other ≠ key) : (s.delete key).get other = s.get other :=
  lookup_filter_ne h

theorem get_put_of_ne (h : other ≠ key) : (s.put key bytes).get other = s.get other := by
  have hne : (other == key) = false := by simpa using h
  rw [get, put, List.lookup_cons, hne]
  exact get_delete_of_ne h

theorem get_delete_self : (s.delete key).get key = none := by
  rw [get, delete, List.lookup_eq_none_iff]
  intro _ hm
  have hne := (List.mem_filter.mp hm).2
  simp only [decide_eq_true_eq] at hne
  simpa using fun h => hne h.symm

/-- A blob elsewhere leaves the objects as they are. -/
theorem objects_put_of_ne (h : ∀ hash, key ≠ .object hash) :
    (s.put key bytes).objects = s.objects := by
  have hd : ∀ blobs : List (ReaderBlobKey × Bytes),
      (blobs.filter fun blob => blob.1 ≠ key).filterMap (fun blob => match blob.1 with
          | .object hash => some (hash, blob.2)
          | _ => none)
        = blobs.filterMap fun blob => match blob.1 with
          | .object hash => some (hash, blob.2)
          | _ => none := by
    intro blobs
    rw [List.filterMap_filter]
    refine List.filterMap_congr fun blob _ => ?_
    by_cases hk : blob.1 = key
    · rw [if_neg (by simpa using hk)]
      split
      · rename_i hash ho
        exact absurd (hk.symm.trans ho) (h hash)
      · rfl
    · rw [if_pos (by simpa using hk)]
  cases key with
  | object hash => exact absurd rfl (h hash)
  | _ => exact hd s.blobs

end BlobStore

/-! ## 5. Sealed blobs and the journal -/

/-- What seals a blob under its address with the key of the vault. -/
class CacheSealing where
  aeadSeal : ReaderBlobKey → Nat → Bytes → Bytes
  aeadOpen : ReaderBlobKey → Bytes → Except ReaderVaultError Bytes
  aeadOpen_aeadSeal : ∀ key nonce plain, aeadOpen key (aeadSeal key nonce plain) = .ok plain

section

variable [CacheSealing]

/-- The contents of a blob. -/
def BlobStore.getPlain (s : BlobStore) (key : ReaderBlobKey) :
    Except ReaderVaultError (Option Bytes) :=
  match s.get key with
  | none => .ok none
  | some blob => (CacheSealing.aeadOpen key blob).map some

/-- A blob put in under its address. -/
def BlobStore.putPlain (s : BlobStore) (key : ReaderBlobKey) (nonce : Nat) (plain : Bytes) :
    BlobStore :=
  s.put key (CacheSealing.aeadSeal key nonce plain)

variable {s : BlobStore} {jobs : List Job} {key : ReaderBlobKey}

theorem BlobStore.getPlain_putPlain {nonce : Nat} {plain : Bytes} :
    (s.putPlain key nonce plain).getPlain key = .ok (some plain) := by
  rw [getPlain, putPlain, get_put_self]
  simp only [CacheSealing.aeadOpen_aeadSeal]
  rfl

theorem BlobStore.getPlain_congr {t : BlobStore} (h : s.get key = t.get key) :
    s.getPlain key = t.getPlain key := by
  rw [getPlain, getPlain, h]

variable [TextRules]

/-- `cache_destruction::read`. -/
def readJournal (s : BlobStore) : Except ReaderVaultError (List Job) := do
  match ← s.getPlain .journal with
  | none => return []
  | some plain => decode plain

theorem readJournal_delete (s : BlobStore) : readJournal (s.delete .journal) = .ok [] := by
  rw [readJournal, BlobStore.getPlain, BlobStore.get_delete_self]
  rfl

variable [Crypto] {bytes : Bytes}

/-- `target`: the entry that an entry package or a grant belongs to. -/
def target (bytes : Bytes) : Option (EntryHash × Bool) :=
  match decodeExactObject bytes with
  | .ok parsed =>
    match parsed.value with
    | .entry entry => some (entry.entryHash, true)
    | .grant grant => some (grant.grantBody.entryHash, false)
    | _ => none
  | .error _ => none

def Job.hasTarget (job : Job) (entry : EntryHash) : Bool :=
  job.targets.any fun target => target.1 = entry

section

variable (s : BlobStore)

/-- `denied`. -/
def denied (bytes : Bytes) : Except ReaderVaultError Bool :=
  match target bytes with
  | none => .ok false
  | some (entry, _) => do
      let jobs ← readJournal s
      return jobs.any (·.hasTarget entry)

/-- The address of an object; a hash has 32 bytes. -/
def cacheKey (hash : ObjectHash) : ReaderBlobKey :=
  .object ⟨hash % 256 ^ 32, Nat.mod_lt _ (by decide)⟩

/-- `put_exact_object`. -/
def putExactObject (nonce : Nat) (bytes : Bytes) :
    Except ReaderVaultError (ObjectHash × BlobStore) := do
  if ← denied s bytes then throw .contents
  let hash := Crypto.objectHash bytes
  return (hash, s.putPlain (cacheKey hash) nonce bytes)

/-- An object, whatever the journal says about it. -/
def getUnfiltered (hash : ObjectHash) : Except ReaderVaultError (Option Bytes) :=
  s.getPlain (cacheKey hash)

/-- `get_exact_object`. -/
def getExactObject (hash : ObjectHash) :
    Except ReaderVaultError (Option Bytes) := do
  match ← getUnfiltered s hash with
  | none => return none
  | some bytes => if ← denied s bytes then return none else return some bytes

end

/-! ## 6. Objects that no job targets -/

/-- No job of the journal targets the entry of these bytes. -/
def Untargeted (jobs : List Job) (bytes : Bytes) : Prop :=
  ∀ entry isEntry, target bytes = some (entry, isEntry) → ∀ job ∈ jobs, job.hasTarget entry = false

theorem denied_of_untargeted (h : readJournal s = .ok jobs) (hf : Untargeted jobs bytes) :
    denied s bytes = .ok false := by
  unfold denied
  split
  · rfl
  · rename_i entry isEntry ht
    have hn : jobs.any (·.hasTarget entry) = false := by
      rw [List.any_eq_false]
      intro job hm
      rw [hf entry isEntry ht job hm]
      decide
    rw [h, ok_bind, hn]
    rfl

theorem denied_delete (s : BlobStore) (bytes : Bytes) :
    denied (s.delete .journal) bytes = .ok false :=
  denied_of_untargeted (readJournal_delete s) fun _ _ _ _ hm => absurd hm List.not_mem_nil

/-- Putting an object that no job targets does what it does without a journal, and leaves the
journal alone. -/
theorem put_of_untargeted (h : readJournal s = .ok jobs) (hf : Untargeted jobs bytes)
    (nonce : Nat) :
    ∃ t t', putExactObject s nonce bytes = .ok (Crypto.objectHash bytes, t)
      ∧ putExactObject (s.delete .journal) nonce bytes = .ok (Crypto.objectHash bytes, t')
      ∧ (∀ key, key ≠ .journal → t.get key = t'.get key)
      ∧ t.get .journal = s.get .journal := by
  refine ⟨s.putPlain (cacheKey (Crypto.objectHash bytes)) nonce bytes,
    (s.delete .journal).putPlain (cacheKey (Crypto.objectHash bytes)) nonce bytes, ?_, ?_,
    fun key hk => ?_, ?_⟩
  · rw [putExactObject, denied_of_untargeted h hf]
    rfl
  · rw [putExactObject, denied_delete]
    rfl
  · by_cases hs : key = cacheKey (Crypto.objectHash bytes)
    · subst hs
      rw [BlobStore.putPlain, BlobStore.putPlain, BlobStore.get_put_self, BlobStore.get_put_self]
    · rw [BlobStore.putPlain, BlobStore.putPlain, BlobStore.get_put_of_ne hs,
        BlobStore.get_put_of_ne hs, BlobStore.get_delete_of_ne hk]
  · exact BlobStore.get_put_of_ne (by simp [cacheKey])

/-- Getting an object that no job targets does what it does without a journal. -/
theorem get_of_untargeted {hash : ObjectHash} (h : readJournal s = .ok jobs)
    (hf : ∀ bytes, getUnfiltered s hash = .ok (some bytes) → Untargeted jobs bytes) :
    getExactObject s hash = getExactObject (s.delete .journal) hash := by
  have hp : getUnfiltered (s.delete .journal) hash = getUnfiltered s hash :=
    BlobStore.getPlain_congr (BlobStore.get_delete_of_ne (by simp [cacheKey]))
  unfold getExactObject
  rw [hp]
  cases hg : getUnfiltered s hash with
  | error e => rfl
  | ok found =>
    cases found with
    | none => rfl
    | some bytes =>
      simp only [ok_bind, denied_of_untargeted h (hf bytes hg), denied_delete]

end

end Einsatzarchiv.Reader
