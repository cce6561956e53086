/-
  File:      Einsatzarchiv/Reader/Removal.lean
  Subject:   The removal of destroyed entries from the cache (crate `ea-reader`,
             `cache_destruction.rs` with the observations of `destruction_authority.rs`).

  * `execute`: an instruction is verified again, booked in the journal and carried out.
  * `removalMachine`: calls one after the other, each of which may be cut off anywhere.
  * `journal_never_locks_out`: while the journal has room for every call, it can be read at every
    moment of every run.
  * `journal_locks_out`: without room, a call leaves a journal behind that cannot be read.
-/
import Einsatzarchiv.Lib.Sessions
import Einsatzarchiv.Reader.Cache
import Einsatzarchiv.Verify.Runs
import Mathlib.Data.List.ReduceOption

namespace Einsatzarchiv.Reader

open Lib Cbor
open Program (ofExcept heeds_ofExcept_bind run_bind_of_ok run_ofExcept run_bind heeds_ask_bind ask)

/-! ## 1. Instructions and their surroundings -/

/-- A registry head: its version and its hash. -/
abbrev RegistryHeadPin := Nat × Hash32

structure VerifiedInstruction where
  job : WideHash
  reader : KeyThumbprint
  replica : WideId
  targets : List (WideHash × WideHash)
  exactInstruction : Bytes
  currentPin : RegistryHeadPin
  currentTime : Int

/-- The instruction as it was delivered, its source and the time. -/
structure ExecuteCall where
  exactInstruction : Bytes
  source : List Bytes
  now : Int

structure ReaderCacheRemovalReceipt where
  job : WideHash
  replica : WideId
  removed : List WideHash

/-- The vault and what stands behind the check of an instruction. -/
class RemovalAuthority where
  kemKeyThumbprint : KeyThumbprint
  inventoryIsComplete : Bool
  /-- The part of `prepare` that only reads: the instruction against the source, the cache and the
  observations of the vault. -/
  verify : BlobStore → ExecuteCall → Except Unit VerifiedInstruction
  observeEffectiveTime : Int → Int
  encodeObservation : RegistryHeadPin → Int → Bytes
  decodeObservation : Bytes → Except Unit (RegistryHeadPin × Int)

/-! ## 2. Jobs -/

/-- The union of two sets of hashes, in their order. -/
def unionSorted (a b : List WideHash) : List WideHash :=
  ((a ++ b).dedup).mergeSort fun x y => x.1 ≤ y.1

/-- The job with what was observed now. -/
def Job.observe (observed : List WideHash) (job : Job) : Job :=
  { job with removed := unionSorted job.removed observed, complete := false }

/-- The job of an instruction is the one that is booked, or a new one; with its place. -/
def bookJob (jobs : List Job) (proof : VerifiedInstruction) (observed : List WideHash) :
    Except ReaderVaultError (List Job × Nat) :=
  let targets := proof.targets.map Prod.fst
  match jobs.findIdx? (·.hash = proof.job) with
  | some index => do
      ensure (jobs[index]?.any fun job => job.instruction = proof.exactInstruction
        ∧ job.replica = proof.replica ∧ job.targets = targets) .contents
      return (jobs.modify index (Job.observe observed), index)
  | none =>
    .ok (jobs ++ [Job.observe observed
      ⟨proof.job, proof.replica, targets, proof.exactInstruction, [], false⟩], jobs.length)

def completeJob (jobs : List Job) (index : Nat) : List Job :=
  jobs.modify index fun job => { job with complete := true }

/-- A known original has to be the object that the instruction names. -/
def originalAgrees (proof : VerifiedInstruction) (observed : WideHash × EntryHash × Bool) : Bool :=
  observed.2.2 = false
    ∨ (proof.targets.find? fun target => target.1.1 = observed.2.1).any fun target =>
      target.2 = observed.1

theorem length_unionSorted (a b : List WideHash) :
    (unionSorted a b).length ≤ a.length + b.length := by
  rw [unionSorted, List.length_mergeSort, ← List.length_append]
  exact (List.dedup_sublist _).length_le

theorem size_observe (obs : List WideHash) (job : Job) :
    (job.observe obs).size ≤ job.size + obs.length := by
  have := length_unionSorted job.removed obs
  simp only [Job.observe, Job.size]
  omega

variable {jobs booked : List Job}

/-- A change of one job that keeps the instructions and adds so many items. -/
theorem fits_modify {f : Job → Job} {n : Nat} (hs : ∀ job, (f job).size ≤ job.size + n)
    (hin : ∀ job, (f job).instruction = job.instruction) (hf : JournalFits jobs)
    (hr : journalSize jobs + n ≤ ParserLimits.v1.maxTotalItems) (index : Nat) :
    JournalFits (jobs.modify index f) := by
  by_cases hi : index < jobs.length
  · obtain ⟨_, job, _, hj, -, hm⟩ := List.exists_of_modify f hi
    subst hj
    rw [hm]
    have hjo := hs job
    refine ⟨?_, ?_⟩
    · simp only [journalSize, List.map_append, List.map_cons, List.sum_append, List.sum_cons]
        at hr ⊢
      omega
    · simpa only [List.forall_mem_append, List.forall_mem_cons, hin] using hf.2
  · rw [List.modify_eq_self (not_lt.mp hi)]
    exact hf

theorem fits_completeJob (h : JournalFits jobs) (index : Nat) :
    JournalFits (completeJob jobs index) :=
  fits_modify (f := fun job => { job with complete := true }) (n := 0)
    (fun _ => Nat.le_refl _) (fun _ => rfl) h h.1 index

/-- What is booked has grown by one job at most. -/
theorem fits_bookJob {proof : VerifiedInstruction} {obs : List WideHash} {index : Nat}
    (h : bookJob jobs proof obs = .ok (booked, index)) (hf : JournalFits jobs)
    (hr : journalSize jobs + 7 + proof.targets.length + obs.length ≤ ParserLimits.v1.maxTotalItems)
    (hi : proof.exactInstruction.length ≤ ParserLimits.v1.maxTextOrBytes) :
    JournalFits booked := by
  unfold bookJob at h
  split at h
  · simp only [ok_iff] at h
    obtain ⟨_, -, rfl, -⟩ := h
    exact fits_modify (size_observe obs) (fun _ => rfl) hf (by omega) _
  · obtain ⟨rfl, -⟩ := Prod.mk.inj (Except.ok.inj h)
    refine ⟨?_, forall_mem_concat hf.2 hi⟩
    have hn := size_observe obs
      ⟨proof.job, proof.replica, proof.targets.map Prod.fst, proof.exactInstruction, [], false⟩
    simp only [Job.size, List.length_map, List.length_nil] at hn
    simp only [journalSize, List.map_append, List.map_cons, List.map_nil, List.sum_append,
      List.sum_cons, List.sum_nil, Job.size] at hr ⊢
    omega

/-! ## 3. Ports -/

/-- The operations of the store, and random values. -/
inductive RemovalPort
  | snapshot
  | put (key : ReaderBlobKey) (bytes : Bytes)
  | delete (key : ReaderBlobKey)
  | random

/-- Reading the store in one piece is enough: nobody else writes to it. -/
abbrev RemovalPort.Reply : RemovalPort → Type
  | .snapshot => Except Unit BlobStore
  | .put .. | .delete _ => Except Unit Unit
  | .random => Except Unit Nat

/-- The store, and how many random values were drawn. -/
structure RemovalState where
  store : BlobStore
  draws : Nat := 0

/-- What an operation does when it is carried out. -/
def RemovalState.perform : (port : RemovalPort) → RemovalState → port.Reply × RemovalState
  | .snapshot, s => (.ok s.store, s)
  | .put key bytes, s => (.ok (), { s with store := s.store.put key bytes })
  | .delete key, s => (.ok (), { s with store := s.store.delete key })
  | .random, s => (.ok s.draws, { s with draws := s.draws + 1 })

/-- Every operation may fail; writes may also be carried out without an answer. -/
def removalDevices : Devices RemovalState RemovalPort.Reply where
  perform := RemovalState.perform
  refuse
    | .snapshot | .put .. | .delete _ | .random => some (.error ())
  lossy
    | .put .. | .delete _ => true
    | _ => false

/-- A program over the store. -/
abbrev Removal := Program RemovalPort.Reply ReaderVaultError

/-- An answer of the store or of the source of random values, or its failure. -/
def answer {α : Type} (error : ReaderVaultError) (reply : Except Unit α) : Removal α :=
  ofExcept (reply.mapError fun _ => error)

def snapshot : Removal BlobStore := do answer .blob (← ask .snapshot)

section

variable [CacheSealing]

/-- The plain bytes are sealed under a new nonce and stored. -/
def putPlain (key : ReaderBlobKey) (plain : Bytes) : Removal Unit := do
  let nonce ← answer .crypto (← ask .random)
  answer .blob (← ask (.put key (CacheSealing.aeadSeal key nonce plain)))

/-- The addresses one after the other. -/
def deleteAll : List ReaderBlobKey → Removal Unit
  | [] => return ()
  | key :: keys => do
      answer .blob (← ask (.delete key))
      deleteAll keys

/-! ## 4. The observations -/

variable [RemovalAuthority]

/-- The place of the observations of this vault. -/
def authorityKey : ReaderBlobKey := .kept "destruction-authority/v1/".toList

/-- The head and the time that were observed last. -/
def readObservation (s : BlobStore) :
    Except ReaderVaultError (Option RegistryHeadPin × Int) := do
  match ← s.getPlain authorityKey with
  | none => return (none, 0)
  | some plain =>
    let (pin, time) ← (RemovalAuthority.decodeObservation plain).mapError fun _ => .contents
    return (some pin, time)

/-- The observation is written and read back. -/
def observe (pin : RegistryHeadPin) (time : Int) : Removal Unit := do
  putPlain authorityKey (RemovalAuthority.encodeObservation pin time)
  let saved ← ofExcept (readObservation (← snapshot))
  ofExcept (ensure (saved = (some pin, time)) .contents)

/-- The instruction is verified, and what it was verified at is observed. -/
def prepare (call : ExecuteCall) : Removal VerifiedInstruction := do
  let s ← snapshot
  let proof ← ofExcept ((RemovalAuthority.verify s call).mapError fun _ => .contents)
  observe proof.currentPin proof.currentTime
  return proof

/-- Nothing newer has been observed since. -/
def affirmExecution (proof : VerifiedInstruction) : Removal Unit := do
  let (pin, time) ← ofExcept (readObservation (← snapshot))
  let time := RemovalAuthority.observeEffectiveTime time
  ofExcept (ensure (pin.all (fun pin => pin.1 ≤ proof.currentPin.1
    ∧ (pin.1 = proof.currentPin.1 → pin.2 = proof.currentPin.2)) ∧ time ≤ proof.currentTime)
    .contents)
  observe proof.currentPin proof.currentTime

/-! ## 5. Holdings -/

variable [Crypto]

/-- One object of the cache: it has to be what its address says, and it counts if it belongs to a
target. -/
def holding (targets : List WideHash) (object : WideHash × Bytes) :
    Except ReaderVaultError (Option (WideHash × EntryHash × Bool)) := do
  let plain ← CacheSealing.aeadOpen (.object object.1) object.2
  ensure (Crypto.objectHash plain = object.1.1 ∧ (decodeExactObject plain).isOk) .contents
  return (target plain).bind fun (entry, isEntry) =>
    if targets.any (·.1 = entry) then some (object.1, entry, isEntry) else none

/-- What the cache holds of the targets. -/
def holdings (s : BlobStore) (targets : List WideHash) :
    Except ReaderVaultError (List (WideHash × EntryHash × Bool)) := do
  return (← s.objects.mapM (holding targets)).reduceOption

/-- One address beside the objects: what is derived goes, what is known stays, and nothing else may
be there. -/
def secondaryKey (targets : List WideHash) (key : ReaderBlobKey) :
    Except ReaderVaultError (Option ReaderBlobKey) :=
  match key with
  | .derived _ => .ok (some key)
  | .entryState entry => .ok (if entry ∈ targets then some key else none)
  | .object _ | .journal | .kept _ => .ok none
  | .unknown _ => .error .contents

/-- What is derived from the targets. -/
def secondaryKeys (s : BlobStore) (targets : List WideHash) :
    Except ReaderVaultError (List ReaderBlobKey) := do
  return (← (s.blobs.map Prod.fst).mapM (secondaryKey targets)).reduceOption

/-! ## 6. `execute` -/

variable [TextRules]

def writeJournal (jobs : List Job) : Removal Unit := putPlain .journal (encode jobs)

/-- Nothing of the targets is left. -/
def nothingLeft (s : BlobStore) (targets : List WideHash) : Except ReaderVaultError Unit := do
  let left ← holdings s targets
  ensure left.isEmpty .contents
  let left ← secondaryKeys s targets
  ensure left.isEmpty .contents

/-- The receipt of a removal that is done and has left nothing. -/
def receipt (hash : WideHash) : Removal (Option ReaderCacheRemovalReceipt) := do
  ofExcept (ensure RemovalAuthority.inventoryIsComplete .contents)
  let s ← snapshot
  let jobs ← ofExcept (readJournal s)
  match jobs.find? fun job => job.hash = hash ∧ job.complete with
  | none => return none
  | some job =>
    ofExcept (nothingLeft s job.targets)
    return some ⟨hash, job.replica, job.removed⟩

/-- The part of `execute` after the job is booked. -/
def carryOut (proof : VerifiedInstruction) (jobs : List Job) (index : Nat)
    (doomed : List ReaderBlobKey) : Removal ReaderCacheRemovalReceipt := do
  writeJournal jobs
  let read ← ofExcept (readJournal (← snapshot))
  ofExcept (ensure (read = jobs) .contents)
  deleteAll doomed
  ofExcept (nothingLeft (← snapshot) (proof.targets.map Prod.fst))
  writeJournal (completeJob jobs index)
  match ← receipt proof.job with
  | some receipt => return receipt
  | none => Program.fail .contents

/-- The part of `execute` that reads: what is there to be booked. -/
def plan (proof : VerifiedInstruction) (s : BlobStore) :
    Except ReaderVaultError (List Job × Nat × List ReaderBlobKey) := do
  let jobs ← readJournal s
  let targets := proof.targets.map Prod.fst
  let observed ← holdings s targets
  let derived ← secondaryKeys s targets
  ensure (observed.all (originalAgrees proof)) .contents
  let (jobs, index) ← bookJob jobs proof (observed.map Prod.fst)
  return (jobs, index, observed.map (.object ·.1) ++ derived)

/-- `ReaderCacheDestruction::execute`. -/
def execute (call : ExecuteCall) : Removal ReaderCacheRemovalReceipt := do
  let proof ← prepare call
  ofExcept (ensure (RemovalAuthority.inventoryIsComplete
    ∧ RemovalAuthority.kemKeyThumbprint = proof.reader) .contents)
  affirmExecution proof
  let (jobs, index, doomed) ← ofExcept (plan proof (← snapshot))
  carryOut proof jobs index doomed

/-! ## 7. Runs -/

/-- A removal, or another write of the reader, which never concerns the journal. -/
inductive ReaderCall
  | execute (call : ExecuteCall)
  | store (key : ReaderBlobKey) (plain : Bytes) (h : key ≠ .journal)
  | drop (key : ReaderBlobKey) (h : key ≠ .journal)

/-- The removal that is called for. -/
def ReaderCall.execute? : ReaderCall → Option ExecuteCall
  | .execute call => some call
  | _ => none

/-- The calls of the reader as programs. -/
def removalMachine :
    Machine RemovalState ReaderCall RemovalPort.Reply ReaderVaultError
      (Option ReaderCacheRemovalReceipt) where
  devices := removalDevices
  program
    | .execute call => do return some (← execute call)
    | .store key plain _ => do
        putPlain key plain
        return none
    | .drop key _ => do
        deleteAll [key]
        return none

/-! ## 8. What the writes keep -/

/-- There is no journal, or it is one that fits. -/
def Booked (s : RemovalState) : Prop :=
  s.store.get .journal = none ∨ ∃ jobs nonce, JournalFits jobs
    ∧ s.store.get .journal = some (CacheSealing.aeadSeal .journal nonce (encode jobs))

/-- Only journals that fit are written, and no journal is deleted. -/
def Guard : RemovalPort → RemovalState → Prop
  | .put key bytes, _ => key = .journal → ∃ jobs nonce, JournalFits jobs
      ∧ bytes = CacheSealing.aeadSeal .journal nonce (encode jobs)
  | .delete key, _ => key ≠ .journal
  | _, _ => True

variable {s t : RemovalState} {targets : List WideHash} {proof : VerifiedInstruction} {index : Nat}
  {doomed : List ReaderBlobKey} {call : ExecuteCall}

omit [RemovalAuthority] [Crypto] [TextRules] in
theorem booked_change (h : Booked s) (hc : removalDevices.Change Guard s t) : Booked t := by
  cases hc with
  | refuse => exact h
  | perform port hgu =>
    cases port with
    | snapshot | random => exact h
    | put key bytes =>
      by_cases hk : key = .journal
      · subst hk
        obtain ⟨jobs, nonce, hf, rfl⟩ := hgu rfl
        exact .inr ⟨jobs, nonce, hf, BlobStore.get_put_self⟩
      · have hg : (s.store.put key bytes).get .journal = s.store.get .journal :=
          BlobStore.get_put_of_ne (Ne.symm hk)
        simpa only [Booked, removalDevices, RemovalState.perform, hg] using h
    | delete key =>
      have hg : (s.store.delete key).get .journal = s.store.get .journal :=
        BlobStore.get_delete_of_ne (Ne.symm hgu)
      simpa only [Booked, removalDevices, RemovalState.perform, hg] using h

omit [RemovalAuthority] [Crypto] in
/-- A booked journal is read. -/
theorem readJournal_of_booked (hl : LabelAccepted) (h : Booked s) :
    ∃ jobs, readJournal s.store = .ok jobs ∧ JournalFits jobs := by
  rcases h with hn | ⟨jobs, _, hf, hs⟩
  · refine ⟨[], ?_, by decide, fun _ hm => absurd hm List.not_mem_nil⟩
    rw [readJournal, BlobStore.getPlain, hn]
    rfl
  · refine ⟨jobs, ?_, hf⟩
    rw [readJournal, BlobStore.getPlain, hs]
    simp only [CacheSealing.aeadOpen_aeadSeal]
    exact decode_encode hl hf

/-! ## 9. What a call writes -/

/-- The journal and the objects are those of the other state. -/
structure Near (s t : RemovalState) : Prop where
  journal : t.store.get .journal = s.store.get .journal
  objects : t.store.objects = s.store.objects

section

omit [RemovalAuthority] [Crypto] [TextRules]

omit [CacheSealing] in
theorem near_of_put {u : RemovalState} (h : Near s t)
    (hu : u.store = t.store ∨ ∃ bytes, u.store = t.store.put authorityKey bytes) : Near s u := by
  rcases hu with hu | ⟨bytes, hu⟩
  · exact ⟨hu ▸ h.journal, hu ▸ h.objects⟩
  · refine ⟨?_, ?_⟩
    · rw [hu, BlobStore.get_put_of_ne (by simp [authorityKey]), h.journal]
    · rw [hu, BlobStore.objects_put_of_ne (by simp [authorityKey]), h.objects]

theorem heeds_snapshot_bind {α : Type} {f : BlobStore → Removal α}
    {Post : Except ReaderVaultError α → RemovalState → Prop}
    (hok : (f s.store).Heeds removalDevices Guard Post s)
    (he : ∀ e, Post (.error e) s := by intros; trivial) :
    (snapshot >>= f).Heeds removalDevices Guard Post s := by
  refine heeds_ask_bind trivial hok ?_ ?_
  · rintro reply hr
    cases hr
    exact he _
  · rintro reply - hl
    cases hl

/-- A blob is put in, or everything is as it was. -/
theorem heeds_putPlain {key : ReaderBlobKey} {plain : Bytes}
    (hg : key = .journal → ∃ jobs, JournalFits jobs ∧ plain = encode jobs) :
    (putPlain key plain).Heeds removalDevices Guard (fun _ t => t.store = s.store
      ∨ ∃ bytes, t.store = s.store.put key bytes) s := by
  refine heeds_ask_bind trivial ?_ ?_ ?_
  · refine heeds_ask_bind ?_ (.inr ⟨_, rfl⟩) ?_ ?_
    · rintro rfl
      obtain ⟨jobs, hf, rfl⟩ := hg rfl
      exact ⟨jobs, _, hf, rfl⟩
    · rintro reply hr
      cases hr
      exact .inl rfl
    · rintro reply hr -
      cases hr
      exact .inr ⟨_, rfl⟩
  · rintro reply hr
    cases hr
    exact .inl rfl
  · rintro reply - hl
    cases hl

variable {keys : List ReaderBlobKey}

theorem heeds_deleteAll (h : ∀ key ∈ keys, key ≠ .journal) (s : RemovalState) :
    (deleteAll keys).Heeds removalDevices Guard (fun _ _ => True) s := by
  induction keys generalizing s with
  | nil => trivial
  | cons key keys ih =>
    have hk := ih (List.forall_mem_cons.mp h).2
    refine heeds_ask_bind (h key List.mem_cons_self) (hk _) ?_ ?_
    · rintro reply hr
      cases hr
      trivial
    · rintro reply hr -
      cases hr
      trivial

omit [CacheSealing] in
theorem secondaryKey_ne_journal {key found : ReaderBlobKey}
    (h : secondaryKey targets key = .ok (some found)) : found ≠ .journal := by
  cases key with
  | derived _ =>
    cases h
    simp
  | entryState _ =>
    simp only [secondaryKey, Except.ok.injEq] at h
    split at h
    · cases h
      simp
    · cases h
  | _ => cases h

omit [CacheSealing] in
theorem secondaryKeys_ne_journal {s : BlobStore} (h : secondaryKeys s targets = .ok keys) :
    ∀ key ∈ keys, key ≠ .journal := by
  simp only [secondaryKeys, ok_iff] at h
  obtain ⟨_, hf, rfl⟩ := h
  intro key hm
  obtain ⟨_, -, hs⟩ := exists_mem_of_mapM_eq_ok hf (some key) (List.reduceOption_mem_iff.mp hm)
  exact secondaryKey_ne_journal hs

end

section

omit [Crypto] [TextRules]

theorem heeds_observe (h : Near s t) (pin : RegistryHeadPin) (time : Int) :
    (observe pin time).Heeds removalDevices Guard (fun _ u => Near s u) t := by
  refine (heeds_putPlain (s := t) fun hk => ?_).bind ?_ ?_
  · cases hk
  · intro _ u hu
    have hn : Near s u := near_of_put h hu
    refine heeds_snapshot_bind ?_ fun _ => hn
    refine heeds_ofExcept_bind (fun saved _ => ?_) fun _ _ => hn
    exact Program.heeds_ofExcept hn
  · intro _ u hu
    exact near_of_put h hu

theorem heeds_prepare (s : RemovalState) (call : ExecuteCall) :
    (prepare call).Heeds removalDevices Guard (ends (fun proof t =>
      RemovalAuthority.verify s.store call = .ok proof ∧ Near s t) fun _ _ => True) s := by
  refine heeds_snapshot_bind ?_
  refine heeds_ofExcept_bind (fun proof hv => ?_)
  rw [mapError_eq_ok] at hv
  exact (heeds_observe ⟨rfl, rfl⟩ _ _).bind (fun _ t hn => ⟨hv, hn⟩) fun _ _ _ => trivial

theorem heeds_affirmExecution (h : Near s t) (proof : VerifiedInstruction) :
    (affirmExecution proof).Heeds removalDevices Guard (fun _ u => Near s u) t := by
  refine heeds_snapshot_bind ?_ fun _ => h
  refine heeds_ofExcept_bind (fun saved _ => ?_) fun _ _ => h
  refine heeds_ofExcept_bind (fun _ _ => ?_) fun _ _ => h
  exact heeds_observe h _ _

end

/-- There is room in the journal for what an instruction books: the job with its targets, and what
the cache holds of them. -/
structure RoomFor (jobs : List Job) (proof : VerifiedInstruction)
    (observed : List (WideHash × EntryHash × Bool)) : Prop where
  items : journalSize jobs + 7 + proof.targets.length + observed.length
    ≤ ParserLimits.v1.maxTotalItems
  instruction : proof.exactInstruction.length ≤ ParserLimits.v1.maxTextOrBytes

omit [RemovalAuthority] in
/-- What there is to be booked fits, and no journal is doomed. -/
theorem fits_plan {s : BlobStore} (h : plan proof s = .ok (booked, index, doomed))
    (hj : readJournal s = .ok jobs) (hf : JournalFits jobs)
    (hr : ∀ observed, holdings s (proof.targets.map Prod.fst) = .ok observed →
      RoomFor jobs proof observed) :
    JournalFits booked ∧ ∀ key ∈ doomed, key ≠ .journal := by
  simp only [plan, ok_iff, hj, Except.ok.injEq] at h
  obtain ⟨_, rfl, observed, ho, _, hd, _, -, ⟨_, _⟩, hb, rfl, rfl, rfl⟩ := h
  obtain ⟨hitems, hi⟩ := hr observed ho
  refine ⟨fits_bookJob hb hf (by rw [List.length_map]; omega) hi, ?_⟩
  intro key hm
  rcases List.mem_append.mp hm with hm | hm
  · obtain ⟨_, -, rfl⟩ := List.mem_map.mp hm
    simp
  · exact secondaryKeys_ne_journal hd key hm

theorem heeds_receipt (hash : WideHash) (s : RemovalState) :
    (receipt hash).Heeds removalDevices Guard (fun _ _ => True) s := by
  refine heeds_ofExcept_bind (fun _ _ => ?_)
  refine heeds_snapshot_bind ?_
  refine heeds_ofExcept_bind (fun jobs _ => ?_)
  split
  · trivial
  · refine heeds_ofExcept_bind (fun _ _ => ?_)
    trivial

theorem heeds_carryOut (hf : JournalFits jobs) (hd : ∀ key ∈ doomed, key ≠ .journal)
    (s : RemovalState) :
    (carryOut proof jobs index doomed).Heeds removalDevices Guard (fun _ _ => True) s := by
  refine (heeds_putPlain fun _ => ⟨jobs, hf, rfl⟩).bind ?_
  intro _ t _
  refine heeds_snapshot_bind ?_
  refine heeds_ofExcept_bind (fun _ _ => ?_)
  refine heeds_ofExcept_bind (fun _ _ => ?_)
  refine (heeds_deleteAll hd t).bind ?_
  intro _ u _
  refine heeds_snapshot_bind ?_
  refine heeds_ofExcept_bind (fun _ _ => ?_)
  refine (heeds_putPlain fun _ => ⟨_, fits_completeJob hf index, rfl⟩).bind ?_
  intro _ v _
  refine (heeds_receipt proof.job v).bind ?_
  rintro (_ | _) w -
  · trivial
  · trivial

/-- There is room in the journal for what the call will book, as far as it gets to the booking. -/
def Room (s : BlobStore) (call : ExecuteCall) : Prop :=
  ∀ proof jobs observed, RemovalAuthority.verify s call = .ok proof → readJournal s = .ok jobs →
    holdings s (proof.targets.map Prod.fst) = .ok observed → RoomFor jobs proof observed

instance (jobs : List Job) (proof : VerifiedInstruction)
    (observed : List (WideHash × EntryHash × Bool)) : Decidable (RoomFor jobs proof observed) :=
  decidable_of_iff (_ ∧ _) ⟨fun h => ⟨h.1, h.2⟩, fun h => ⟨h.items, h.instruction⟩⟩

theorem room_iff {s : BlobStore} : Room s call ↔
    ∀ proof ∈ (RemovalAuthority.verify s call).toOption, ∀ jobs ∈ (readJournal s).toOption,
      ∀ observed ∈ (holdings s (proof.targets.map Prod.fst)).toOption,
        RoomFor jobs proof observed := by
  simp only [Option.mem_def, toOption_eq_some]
  exact ⟨fun h proof hv jobs hj observed => h proof jobs observed hv hj,
    fun h proof jobs observed hv hj => h proof hv jobs hj observed⟩

instance (s : BlobStore) (call : ExecuteCall) : Decidable (Room s call) :=
  decidable_of_iff' _ room_iff

theorem heeds_execute (hl : LabelAccepted) (hb : Booked s) (hr : Room s.store call) :
    (execute call).Heeds removalDevices Guard (fun _ _ => True) s := by
  refine (heeds_prepare s call).bind ?_
  rintro proof t ⟨hv, hn⟩
  refine heeds_ofExcept_bind (fun _ _ => ?_)
  refine (heeds_affirmExecution hn proof).bind ?_
  intro _ u hn
  refine heeds_snapshot_bind ?_
  refine heeds_ofExcept_bind ?_
  rintro ⟨_, _, _⟩ hp
  obtain ⟨jobs, hj, hf⟩ := readJournal_of_booked hl hb
  have hjobs' : readJournal u.store = .ok jobs := by
    rw [← hj, readJournal, readJournal, BlobStore.getPlain_congr hn.journal]
  -- the observations written so far are neither the journal nor objects of the cache
  have hroom : ∀ observed, holdings u.store (proof.targets.map Prod.fst) = .ok observed →
      RoomFor jobs proof observed := by
    intro observed ho
    rw [holdings, hn.objects] at ho
    exact hr proof jobs observed hv hj ho
  obtain ⟨hbookedFits, hd⟩ := fits_plan hp hjobs' hf hroom
  exact heeds_carryOut hbookedFits hd u

theorem heeds_program (hl : LabelAccepted) {call : ReaderCall} (hb : Booked s)
    (hr : ∀ given, call = .execute given → Room s.store given) :
    (removalMachine.program call).Heeds removalDevices Guard (fun _ _ => True) s := by
  cases call with
  | execute call =>
    exact (heeds_execute hl hb (hr call rfl)).bind (fun _ _ _ => trivial)
  | store key _ hk =>
    exact (heeds_putPlain fun h => absurd h hk).bind (fun _ _ _ => trivial)
  | drop key hk =>
    refine (heeds_deleteAll ?_ s).bind (fun _ _ _ => trivial)
    intro _ hm
    rw [List.mem_singleton.mp hm]
    exact hk

/-! ## 10. Undisturbed calls -/

omit [RemovalAuthority] [TextRules] [Crypto] in
theorem run_putPlain (key : ReaderBlobKey) (plain : Bytes) (s : RemovalState) :
    (putPlain key plain).run removalDevices.toServices s
      = (.ok (), ⟨s.store.putPlain key s.draws plain, s.draws + 1⟩) := rfl

omit [CacheSealing] [RemovalAuthority] [TextRules] [Crypto] in
theorem run_snapshot (s : RemovalState) :
    snapshot.run removalDevices.toServices s = (.ok s.store, s) := rfl

/-- A journal that cannot be read back stays behind. -/
theorem run_carryOut_of_unreadable {e : ReaderVaultError} (h : decode (encode jobs) = .error e)
    (s : RemovalState) :
    (carryOut proof jobs index doomed).run removalDevices.toServices s
      = (.error e, ⟨s.store.putPlain .journal s.draws (encode jobs), s.draws + 1⟩) := by
  have hr : readJournal (s.store.putPlain .journal s.draws (encode jobs)) = .error e := by
    rw [readJournal, BlobStore.getPlain_putPlain, ok_bind]
    exact h
  rw [carryOut, writeJournal, run_bind_of_ok _ (run_putPlain _ _ s),
    run_bind_of_ok _ (run_snapshot _), run_bind, run_ofExcept, hr]

/-! ## 11. Whole runs -/

/-- **While there is room in the journal for every removal that is started, the journal can be read
at every moment of every run, and whatever no job targets is put in and read as if there were
none.** -/
theorem journal_never_locks_out (hlabel : LabelAccepted) {store : BlobStore}
    (hstart : store.get .journal = none) (turns : List (Turn ReaderCall))
    (hroom : ∀ earlier call later, turns = earlier ++ .start (.execute call) :: later →
      Room (removalMachine.run ⟨⟨store, 0⟩, none⟩ earlier).state.store call) :
    let s := (removalMachine.run ⟨⟨store, 0⟩, none⟩ turns).state.store
    ∃ jobs, readJournal s = .ok jobs
      ∧ (∀ bytes nonce, Untargeted jobs bytes →
        ∃ t t', putExactObject s nonce bytes = .ok (Crypto.objectHash bytes, t)
          ∧ putExactObject (s.delete .journal) nonce bytes = .ok (Crypto.objectHash bytes, t')
          ∧ (∀ key, key ≠ .journal → t.get key = t'.get key)
          ∧ t.get .journal = s.get .journal)
      ∧ ∀ hash, (∀ bytes, getUnfiltered s hash = .ok (some bytes) → Untargeted jobs bytes) →
        getExactObject s hash = getExactObject (s.delete .journal) hash := by
  have hs : removalMachine.Sound Booked Guard ⟨⟨store, 0⟩, none⟩ :=
    ⟨.inl hstart, fun _ hp => (nomatch hp)⟩
  have hr : removalMachine.Sound Booked Guard (removalMachine.run ⟨⟨store, 0⟩, none⟩ turns) :=
    hs.run_started (fun earlier call later ht hb => heeds_program hlabel hb fun given hg =>
        hroom earlier given later (hg ▸ ht))
      fun _ _ => booked_change
  obtain ⟨jobs, hj, -⟩ := readJournal_of_booked hlabel hr.inv
  exact ⟨jobs, hj, fun _ nonce hf => put_of_untargeted hj hf nonce,
    fun _ hf => get_of_untargeted hj hf⟩

end

/-! ## 12. A reader and its removals -/

/-- Sealing that does nothing. -/
@[reducible] def exampleSealing : CacheSealing where
  aeadSeal _ _ plain := plain
  aeadOpen _ sealed := .ok sealed
  aeadOpen_aeadSeal _ _ _ := rfl

/-- Every instruction removes the entry 105 from the reader with the key 7. -/
@[reducible] def exampleAuthority : RemovalAuthority where
  kemKeyThumbprint := 7
  inventoryIsComplete := true
  verify _ call := .ok ⟨⟨1, by decide⟩, 7, ⟨2, by decide⟩, [(⟨105, by decide⟩, ⟨65, by decide⟩)],
    call.exactInstruction, (1, 3), call.now⟩
  observeEffectiveTime time := time
  encodeObservation _ _ := []
  decodeObservation _ := .ok ((1, 3), 4)

/-- The object 61 is the entry 101, the object 65 the entry 105. -/
@[reducible] def cacheCrypto : Crypto := Trust.tableCrypto fun
  | 61 => some (Verify.entryPackage (Verify.writerManifest 1 1 (some 100)))
  | 65 => some (Verify.entryPackage (Verify.writerManifest 2 5 (some 101)))
  | _ => none

section

variable (instruction : Bytes)

def removalCall : ExecuteCall := ⟨instruction, [], 4⟩

/-- The job of a call. -/
def removalJob : Job :=
  Job.observe [] ⟨⟨1, by decide⟩, ⟨2, by decide⟩, [⟨105, by decide⟩], instruction, [], false⟩

/-- The store before anything was removed. -/
def emptyStore : BlobStore := ⟨[], .nil⟩

/-- What verification says of a call. -/
def removalProof : VerifiedInstruction :=
  ⟨⟨1, by decide⟩, 7, ⟨2, by decide⟩, [(⟨105, by decide⟩, ⟨65, by decide⟩)], instruction, (1, 3), 4⟩

/-- Of a first call, only the observation has been stored. -/
def observedState [CacheSealing] (draws : Nat) : RemovalState :=
  ⟨emptyStore.putPlain authorityKey draws [], draws + 1⟩

/-- The entries 101 and 105 are put into the cache.  The removal of 105 dies with its job booked and
the answer lost; the call is repeated and carried through. -/
def repeatedRemoval : List (Turn ReaderCall) :=
  .start (.store (.object ⟨61, by decide⟩) (Trust.blob 61) (by simp))
      :: List.replicate 2 (.proceed .answered)
    ++ .start (.store (.object ⟨65, by decide⟩) (Trust.blob 65) (by simp))
      :: List.replicate 2 (.proceed .answered)
    ++ .start (.execute (removalCall [9])) :: List.replicate 10 (.proceed .answered)
    ++ .proceed .lost :: .start (.execute (removalCall [9]))
      :: List.replicate 25 (.proceed .answered)

theorem room_repeatedRemoval :
    let := exampleSealing
    let := exampleAuthority
    let := cacheCrypto
    let : TextRules := asciiRules
    ∀ i < repeatedRemoval.length, ∀ call ∈ repeatedRemoval[i]?.bind Turn.call?,
      ∀ given ∈ call.execute?, Room (removalMachine.run ⟨⟨emptyStore, 0⟩, none⟩
        (repeatedRemoval.take i)).state.store given := by
  decide +kernel

/-- The journal has room for both calls of the removal, and the other entry is read as before. -/
theorem journal_never_locks_out_repeated :
    let := exampleSealing
    let := exampleAuthority
    let := cacheCrypto
    let : TextRules := asciiRules
    let s := (removalMachine.run ⟨⟨emptyStore, 0⟩, none⟩ repeatedRemoval).state.store
    (readJournal s).toOption.map (·.map (·.complete)) = some [true]
      ∧ (getExactObject s 65).toOption = some none
      ∧ (getExactObject s 61).toOption = some (some (Trust.blob 61))
      ∧ ∃ jobs, readJournal s = .ok jobs
        ∧ (∀ bytes nonce, Untargeted jobs bytes →
          ∃ t t', putExactObject s nonce bytes = .ok (Crypto.objectHash bytes, t)
            ∧ putExactObject (s.delete .journal) nonce bytes = .ok (Crypto.objectHash bytes, t')
            ∧ (∀ key, key ≠ .journal → t.get key = t'.get key)
            ∧ t.get .journal = s.get .journal)
        ∧ ∀ hash, (∀ bytes, getUnfiltered s hash = .ok (some bytes) → Untargeted jobs bytes) →
          getExactObject s hash = getExactObject (s.delete .journal) hash := by
  intro _ _ _ _ s
  refine ⟨by decide +kernel, by decide +kernel, by decide +kernel, ?_⟩
  refine journal_never_locks_out ⟨by decide, rfl⟩ rfl repeatedRemoval ?_
  intro earlier call later ht
  exact forall_start_of_take (P := fun earlier call => ∀ given ∈ call.execute?,
    Room (removalMachine.run ⟨⟨emptyStore, 0⟩, none⟩ earlier).state.store given)
    room_repeatedRemoval ht call rfl

theorem journalSize_removalJob : journalSize [removalJob instruction] = 11 := by
  simp [journalSize, Job.size, removalJob, Job.observe, unionSorted]

end

/-- An instruction that is longer than a string in the journal may be. -/
theorem decode_encode_removalJob [TextRules] {instruction : Bytes}
    (hl : 1048592 < instruction.length) (hs : instruction.length ≤ 2 ^ 32) :
    decode (encode [removalJob instruction]) = .error .contents := by
  have hi : ∀ job ∈ [removalJob instruction], job.instruction.length ≤ 2 ^ 32 := by
    intro job hm
    obtain rfl := List.mem_singleton.mp hm
    exact hs
  refine decode_encode_eq_error ?_ (wellFormed_journalItem ?_ ?_) fun hf => ?_
  · refine (length_encode_le (by decide) hi).trans ?_
    rw [journalSize_removalJob]
    decide
  · rw [journalSize_removalJob]
    decide
  · exact fun job hm => (hi job hm).trans (by decide)
  · have hle : instruction.length ≤ 1048592 := hf.2 _ (List.mem_singleton_self _)
    omega

/-- The call with the instruction, undisturbed. -/
theorem readJournal_removalCall (instruction : Bytes) (hl : 1048592 < instruction.length)
    (hs : instruction.length ≤ 2 ^ 32) : let := exampleSealing
    let := exampleAuthority
    let := cacheCrypto
    let : TextRules := asciiRules
    ∃ n, readJournal (removalMachine.run ⟨⟨emptyStore, 0⟩, none⟩
      (.start (.execute (removalCall instruction))
        :: List.replicate n (.proceed .answered))).state.store = .error .contents := by
  intro _ _ _ _
  obtain ⟨n, hr⟩ := removalMachine.exists_answered
    (removalMachine.program (.execute (removalCall instruction))) ⟨emptyStore, 0⟩
  refine ⟨n, ?_⟩
  rw [Machine.run, List.foldl_cons]
  change readJournal (removalMachine.run ⟨_, _⟩ _).state.store = _
  rw [hr]
  change readJournal ((execute (removalCall instruction) >>= fun rcpt =>
    Program.done (some rcpt)).run removalDevices.toServices _).2.store = _
  have hd := decode_encode_removalJob hl hs
  have hpr : (prepare (removalCall instruction)).run removalDevices.toServices
      ⟨emptyStore, 0⟩ = (.ok (removalProof instruction), observedState 0) := rfl
  have ha : (affirmExecution (removalProof instruction)).run removalDevices.toServices
      (observedState 0) = (.ok (), observedState 1) := rfl
  have hp : plan (removalProof instruction) (observedState 1).store
      = .ok ([removalJob instruction], 0, []) := rfl
  have he : (execute (removalCall instruction)).run removalDevices.toServices
      ⟨emptyStore, 0⟩ = (carryOut (removalProof instruction) [removalJob instruction] 0 []).run
        removalDevices.toServices (observedState 1) := by
    rw [execute, run_bind_of_ok _ hpr, run_bind, run_ofExcept]
    refine (run_bind_of_ok _ ha _).trans ?_
    rw [run_bind_of_ok _ (run_snapshot _), run_bind, run_ofExcept, hp]
  rw [Program.run_bind_done_snd, he]
  rw [run_carryOut_of_unreadable hd, readJournal, BlobStore.getPlain_putPlain, ok_bind]
  exact hd

/-- **An instruction of 1048593 bytes is booked in a journal that cannot be read any more.**  The
cache then refuses the entry 101, which the instruction does not target, and would take it without
the journal. -/
theorem journal_locks_out :
    let := exampleSealing
    let := exampleAuthority
    let := cacheCrypto
    let : TextRules := asciiRules
    ∃ call turns proof, LabelAccepted ∧ RemovalAuthority.verify emptyStore call = .ok proof
      ∧ (∀ given, .start given ∈ turns → given = .execute call)
      ∧ target (Trust.blob 61) = some (101, true) ∧ (∀ named ∈ proof.targets, named.1.1 ≠ 101)
      ∧ (let s := (removalMachine.run ⟨⟨emptyStore, 0⟩, none⟩ turns).state.store
        readJournal s = .error .contents
        ∧ (putExactObject s 0 (Trust.blob 61)).map Prod.fst = .error .contents
        ∧ (putExactObject (s.delete .journal) 0 (Trust.blob 61)).map Prod.fst = .ok 61) := by
  intro _ _ _ _
  obtain ⟨n, hr⟩ := readJournal_removalCall (List.replicate 1048593 0)
    (by rw [List.length_replicate]; decide) (by rw [List.length_replicate]; decide)
  refine ⟨removalCall (List.replicate 1048593 0), _, _, ⟨by decide, rfl⟩, rfl, fun given hm => ?_,
    rfl, ?_, hr, ?_, ?_⟩
  · rcases List.mem_cons.mp hm with heq | hm
    · exact Turn.start.inj heq
    · cases List.eq_of_mem_replicate hm
  · decide
  · rw [putExactObject, denied, show target (Trust.blob 61) = some (101, true) from rfl, hr]
    rfl
  · rw [putExactObject, denied_delete]
    rfl

end Einsatzarchiv.Reader
