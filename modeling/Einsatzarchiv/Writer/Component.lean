/-
  File:      Einsatzarchiv/Writer/Component.lean
  Subject:   The local component of an installation: rows of an SQLCipher database under pinned
             limits (`sqlcipher_commit`, `sqlcipher_backend`), with several writers at once.

  * `Component`, `Work`: the rows, and what the transactions of the backend do with them.
  * `Event`, `step`: `publish_object` call by call, with transactions of others in between.
  * `sound_transact`: no transaction exceeds the limits or changes stored bytes.
  * `eq_of_putIn`, `eq_of_rename`: what a creation and a renaming do to the rows.
  * `run_orderly`: a renaming never lacks room.
  * **`containsStream_exact`**: the search for plain text in the database file, over any reads.

  NOT here: the table of directories and the probe, which the limits do not count.
-/
import Einsatzarchiv.Writer.Ports
import Mathlib.Algebra.Order.BigOperators.Group.List
import Mathlib.Algebra.Order.Group.Nat

namespace Einsatzarchiv.Writer

open Lib

/-! ## 1. Rows and transactions -/

/-- Why the component refuses. -/
inductive StorageFailure
  | shape | byteConflict | pendingPublication | flushFailed
deriving DecidableEq

/-- `local_commit_object` of one namespace, with the limits of its `local_commit_scope`. -/
structure Component where
  objectLimit : Nat
  byteLimit : Nat
  rows : Files := []

/-- The bytes of all files. -/
def Files.size (files : Files) : Nat := (files.map (·.2.length)).sum

namespace Component

variable (c : Component)

/-- There is no room for the bytes. -/
def Full (bytes : Bytes) : Prop :=
  c.objectLimit ≤ c.rows.length ∨ c.byteLimit < c.rows.size + bytes.length

instance (bytes : Bytes) : Decidable (c.Full bytes) := inferInstanceAs (Decidable (_ ∨ _))

/-- `put_in`: a new row, within the limits; the same bytes are no second row. -/
def putIn (path : ArchivePath) (bytes : Bytes) : Except StorageFailure Component :=
  match c.rows.read path with
  | some stored => if stored = bytes then .ok c else .error .byteConflict
  | none =>
    if c.Full bytes then .error .pendingPublication
    else .ok { c with rows := c.rows ++ [(path, bytes)] }

/-- `atomic_rename_same_fs`: the source is deleted before the target is put. -/
def atomicRenameSameFs (source target : ArchivePath) : Except StorageFailure Component :=
  match c.rows.read source with
  | none => .error .shape
  | some bytes =>
    if source = target then .ok c
    else match c.rows.read target with
      | some existing =>
        if existing ≠ bytes then .error .byteConflict
        else .ok { c with rows := c.rows.remove source }
      | none => { c with rows := c.rows.remove source }.putIn target bytes

/-- Of the published rows, the entry of the highest sequence and its grants. -/
def highestEntryAndGrants (paths : List ArchivePath) : List ArchivePath :=
  let highest := paths.foldl (fun best path => match path.target, best with
    | .entry sequence hash, some (least, _, _) =>
      if sequence < 10 ^ 12 ∧ least ≤ sequence then some (sequence, hash, path) else best
    | .entry sequence hash, none =>
      if sequence < 10 ^ 12 then some (sequence, hash, path) else none
    | _, _ => best) (none : Option (Nat × EntryHash × ArchivePath))
  match highest with
  | none => []
  | some (_, hash, entry) => entry :: paths.filter fun path =>
      match path.target with
      | .grant entryHash _ => entryHash = hash
      | _ => false

/-- `prune_published`: the rows that stand byte for byte at the network target are deleted. -/
def prunePublished (remote : Files) : Component :=
  let published := c.rows.filter (!·.1.staging)
  let kept := highestEntryAndGrants (published.map (·.1))
  let identical := published.filter fun row => row.1 ∉ kept ∧ row ∈ remote
  { c with rows := c.rows.filter (·.1 ∉ identical.map (·.1)) }

end Component

/-- What others do at the component. -/
inductive Work
  | create (path : ArchivePath) (bytes : Bytes)
  | rename (source target : ArchivePath)
  | remove (path : ArchivePath)
  | prune (remote : Files)

def Work.apply (c : Component) : Work → Except StorageFailure Component
  | .create path bytes => c.putIn path bytes
  | .rename source target => c.atomicRenameSameFs source target
  | .remove path => .ok { c with rows := c.rows.remove path }
  | .prune remote => .ok (c.prunePublished remote)

/-- Whether the database lets a transaction begin, and whether the flush after it succeeds. -/
structure Medium where
  durable : Bool := true
  flushed : Bool := true

/-- `transaction` and `flush`, with the error: work that fails changes nothing, a flush that
fails comes after it. -/
def Component.transact (c : Component) (work : Work) (medium : Medium) :
    Option StorageFailure × Component :=
  if medium.durable then
    match work.apply c with
    | .ok next => (if medium.flushed then none else some .flushFailed, next)
    | .error error => (some error, c)
  else (some .flushFailed, c)

/-! ## 2. Publications among other writers -/

/-- Where `publish_object` stands: its renaming has failed, or the source shows the target. -/
inductive Publisher
  | idle
  | failed (target : ArchivePath) (bytes : Bytes) (error : StorageFailure)
  | shown (target : ArchivePath) (bytes : Bytes)

/-- One thing that happens at the installed component. -/
inductive Event
  | other (work : Work) (medium : Medium)
  | rename (target : ArchivePath) (bytes : Bytes) (medium : Medium)
  /-- `object_is_published`: the source shows the network target and the component. -/
  | visit (network : Files)
  | create (medium : Medium)

/-- The component, and how far its publisher is. -/
structure Installed where
  component : Component
  publisher : Publisher := .idle

/-- One call, with the error a publication ends with.  `sync_file` at its end changes no row. -/
def step (s : Installed) : Event → Option StorageFailure × Installed
  | .other work medium => (none, { s with component := (s.component.transact work medium).2 })
  | .rename target bytes medium =>
    let done := s.component.transact (.rename (stagingPath target) target) medium
    (none, ⟨done.2, match done.1 with
      | none => .idle
      | some error => .failed target bytes error⟩)
  | .visit network =>
    match s.publisher with
    | .failed target bytes error =>
      if ((network ++ s.component.rows : Files).read target).isSome then
        (none, { s with publisher := .shown target bytes })
      else (some error, { s with publisher := .idle })
    | _ => (none, s)
  | .create medium =>
    match s.publisher with
    | .shown target bytes =>
      let done := s.component.transact (.create target bytes) medium
      (done.1, ⟨done.2, .idle⟩)
    | _ => (none, s)

/-- What is left after all events. -/
def runEvents (s : Installed) (events : List Event) : Installed :=
  events.foldl (fun s event => (step s event).2) s

/-! ## 3. What a transaction keeps -/

/-- Both limits hold. -/
def Component.Within (c : Component) : Prop :=
  c.rows.length ≤ c.objectLimit ∧ c.rows.size ≤ c.byteLimit

/-- An occupied address keeps its bytes as long as it is occupied. -/
def Component.Keeps (c next : Component) : Prop :=
  ∀ path bytes, c.rows.read path = some bytes →
    next.rows.read path = none ∨ next.rows.read path = some bytes

/-- Limits hold, and no row has other bytes than before. -/
def Component.Sound (c next : Component) : Prop := next.Within ∧ c.Keeps next

section

variable {c next : Component} {files : Files} {path : ArchivePath} {bytes : Bytes}

theorem Files.size_filter_le (p : ArchivePath × Bytes → Bool) :
    Files.size (files.filter p) ≤ files.size :=
  (List.filter_sublist.map _).sum_le_sum fun _ _ => Nat.zero_le _

/-- The row that is deleted gives its room free. -/
theorem Files.size_remove (h : files.read path = some bytes) :
    (files.remove path).length < files.length
      ∧ (files.remove path).size + bytes.length ≤ files.size := by
  induction files with
  | nil => exact absurd h (by simp [Files.read])
  | cons row rest ih =>
    have hs := @size_filter_le rest (·.1 ≠ path)
    have hl := List.length_filter_le (fun row : ArchivePath × Bytes => row.1 ≠ path) rest
    unfold Files.remove Files.size at *
    by_cases hr : row.1 = path
    · have hb : row.2 = bytes := by simpa [Files.read, hr] using h
      rw [List.filter_cons_of_neg (by simp [hr]), List.map_cons, List.sum_cons, hb,
        List.length_cons]
      omega
    · have ih := ih (by simpa [Files.read, hr] using h)
      rw [List.filter_cons_of_pos (by simp [hr]), List.map_cons, List.sum_cons, List.map_cons,
        List.sum_cons, List.length_cons, List.length_cons]
      omega

theorem Component.Within.sound (hw : c.Within) : c.Sound c := ⟨hw, fun _ _ => .inr⟩

theorem Component.sound_filter (hw : c.Within) (p : ArchivePath → Bool) :
    c.Sound { c with rows := c.rows.filter fun row => p row.1 } := by
  refine ⟨⟨(List.length_filter_le _ _).trans hw.1, (Files.size_filter_le _).trans hw.2⟩, ?_⟩
  intro path bytes h
  rw [Files.read_filter, h]
  by_cases hp : p path = true
  · exact .inr (if_pos hp)
  · exact .inl (if_neg hp)

theorem Component.eq_of_putIn (h : c.putIn path bytes = .ok next) :
    c.rows.read path = some bytes ∧ next = c ∨ (c.rows.read path = none ∧ ¬ c.Full bytes
      ∧ next = { c with rows := c.rows ++ [(path, bytes)] }) := by
  unfold putIn at h
  split at h <;> split at h <;> cases h
  next hr hs => exact .inl ⟨hs ▸ hr, rfl⟩
  next hr hf => exact .inr ⟨hr, hf, rfl⟩

theorem Component.sound_putIn (hw : c.Within) (h : c.putIn path bytes = .ok next) :
    c.Sound next := by
  rcases eq_of_putIn h with ⟨-, rfl⟩ | ⟨hr, hf, rfl⟩
  · exact hw.sound
  simp only [Full, not_or, not_le, not_lt] at hf
  refine ⟨⟨by simpa using Nat.succ_le_of_lt hf.1, by simpa [Files.size] using hf.2⟩, ?_⟩
  intro other stored ho
  have hne : other ≠ path := fun he => by simp [← he, ho] at hr
  rw [Files.read_append_singleton hr, if_neg hne]
  exact .inr ho

/-- A renaming needs no room: the row of its source is deleted first. -/
theorem Component.room_rename (hw : c.Within) (h : c.rows.read path = some bytes) :
    ¬ Component.Full { c with rows := c.rows.remove path } bytes := by
  have hs := Files.size_remove h
  have ⟨hl, hb⟩ := hw
  simp only [Full]
  omega

/-- What a renaming does: nothing, or it gives up the source, for the same bytes that stand at the
target or come to stand there. -/
theorem Component.eq_of_rename {src tgt : ArchivePath}
    (h : c.atomicRenameSameFs src tgt = .ok next) :
    ∃ bytes, c.rows.read src = some bytes
      ∧ (src = tgt ∧ next = c
        ∨ src ≠ tgt ∧ c.rows.read tgt = some bytes ∧ next = { c with rows := c.rows.remove src }
        ∨ src ≠ tgt ∧ c.rows.read tgt = none
          ∧ next = { c with rows := c.rows.remove src ++ [(tgt, bytes)] }) := by
  unfold atomicRenameSameFs at h
  cases hs : c.rows.read src with
  | none => simp [hs] at h
  | some bytes =>
    refine ⟨bytes, rfl, ?_⟩
    rw [hs] at h
    by_cases he : src = tgt
    · simp only [he, if_true, Except.ok.injEq] at h
      exact .inl ⟨he, h.symm⟩
    · simp only [he, if_false] at h
      cases ht : c.rows.read tgt with
      | some existing =>
        rw [ht] at h
        by_cases hb : existing = bytes
        · simp only [hb, ne_eq, not_true_eq_false, if_false, Except.ok.injEq] at h
          exact .inr (.inl ⟨he, hb ▸ rfl, h.symm⟩)
        · simp [hb] at h
      | none =>
        rw [ht] at h
        have hr : (c.rows.remove src).read tgt = none := by
          rw [Files.read_remove, ht, ite_self]
        rcases eq_of_putIn h with ⟨hn, -⟩ | ⟨-, -, rfl⟩
        · cases hr.symm.trans hn
        · exact .inr (.inr ⟨he, rfl, rfl⟩)

theorem Component.sound_rename {src target : ArchivePath} (hw : c.Within)
    (h : c.atomicRenameSameFs src target = .ok next) : c.Sound next := by
  have hs := sound_filter hw (· ≠ src)
  obtain ⟨bytes, hr, ⟨-, rfl⟩ | ⟨-, -, rfl⟩ | ⟨-, ht, rfl⟩⟩ := eq_of_rename h
  · exact hw.sound
  · exact hs
  · have hf := room_rename hw hr
    have hn : (c.rows.remove src).read target = none := by
      rw [Files.read_remove, ht, ite_self]
    simp only [Full, not_or, not_le, not_lt] at hf
    refine ⟨⟨by simpa using Nat.succ_le_of_lt hf.1, by simpa [Files.size] using hf.2⟩, ?_⟩
    intro path stored hp
    have hne : path ≠ target := fun he => by simp [← he, hp] at ht
    rw [Files.read_append_singleton hn, if_neg hne]
    exact hs.2 path stored hp

theorem Component.sound_apply {work : Work} (hw : c.Within) (h : work.apply c = .ok next) :
    c.Sound next := by
  cases work with
  | create path bytes => exact sound_putIn hw h
  | rename src tgt => exact sound_rename hw h
  | remove path =>
    cases h
    exact sound_filter hw (· ≠ path)
  | prune remote =>
    cases h
    exact sound_filter hw (decide <| · ∉ _)

/-- A transaction keeps the limits and the bytes, whatever the medium does. -/
theorem Component.sound_transact (hw : c.Within) (work : Work) (medium : Medium) :
    c.Sound (c.transact work medium).2 := by
  unfold transact
  split
  · split
    next h => exact sound_apply hw h
    · exact hw.sound
  · exact hw.sound

/-- A transaction lacks room if its work does. -/
theorem Component.transact_eq {work : Work} {medium : Medium} :
    (c.transact work medium).1 = some .pendingPublication ↔
      medium.durable = true ∧ work.apply c = .error .pendingPublication := by
  unfold transact
  by_cases hd : medium.durable = true
  · rw [if_pos hd]
    split
    next h => by_cases hf : medium.flushed = true <;> simp [h, hf]
    next h => simp [h, hd]
  · simp [hd]

theorem Component.putIn_eq : c.putIn path bytes = .error .pendingPublication ↔
    c.rows.read path = none ∧ c.Full bytes := by
  unfold putIn
  split
  next stored hr => by_cases hs : stored = bytes <;> simp [hr, hs]
  next hr => by_cases hf : c.Full bytes <;> simp [hr, hf]

/-- A renaming to a free address succeeds. -/
theorem Component.rename_eq_ok {src tgt : ArchivePath} (hw : c.Within)
    (hs : c.rows.read src = some bytes) (hne : src ≠ tgt) (ht : c.rows.read tgt = none) :
    c.atomicRenameSameFs src tgt =
      .ok { c with rows := c.rows.remove src ++ [(tgt, bytes)] } := by
  have hn : (c.rows.remove src).read tgt = none := by
    rw [Files.read_remove, ht, ite_self]
  simp only [atomicRenameSameFs, hs, hne, if_false, ht, putIn, hn, room_rename hw hs]

theorem Component.transact_cases (work : Work) (medium : Medium) :
    (c.transact work medium).2 = c ∨ work.apply c = .ok (c.transact work medium).2 := by
  unfold transact
  split
  · cases h : work.apply c with
    | ok next => exact .inr rfl
    | error _ => exact .inl rfl
  · exact .inl rfl

theorem Component.rename_ne {src tgt : ArchivePath} (hw : c.Within) :
    c.atomicRenameSameFs src tgt ≠ .error .pendingPublication := by
  unfold atomicRenameSameFs
  split
  · simp
  next hr =>
    split
    · simp
    split
    · split <;> simp
    · exact fun h => room_rename hw hr (putIn_eq.mp h).2

end

/-! ## 4. Publications -/

/-- What a step has to meet: the limits hold, no stored bytes change, no publication fails for
lack of room. -/
def Installed.Publishable (s : Installed) (event : Event) : Prop :=
  (step s event).2.component.Within ∧ s.component.Keeps (step s event).2.component
    ∧ (step s event).1 ≠ some .pendingPublication

/-- The invariant: no publication has been refused for lack of room and waits for the source. -/
def Installed.Orderly (s : Installed) : Prop :=
  s.component.Within
    ∧ ∀ target bytes error, s.publisher = .failed target bytes error → error ≠ .pendingPublication

section

variable {s : Installed}

theorem sound_step (h : s.component.Within) (event : Event) :
    s.component.Sound (step s event).2.component := by
  have hs := h.sound
  cases event with
  | other work medium => exact Component.sound_transact h work medium
  | rename tgt bytes medium => exact Component.sound_transact h _ medium
  | visit network =>
    simp only [step]
    split
    · split <;> exact hs
    · exact hs
  | create medium =>
    simp only [step]
    split
    · exact Component.sound_transact h _ medium
    · exact hs

theorem step_orderly (h : s.Orderly) (event : Event) : (step s event).2.Orderly := by
  refine ⟨(sound_step h.1 event).1, fun tgt bytes error => ?_⟩
  cases event with
  | other work medium => exact h.2 tgt bytes error
  | rename path stored medium =>
    have hr : (s.component.transact (.rename (stagingPath path) path) medium).1
        ≠ some .pendingPublication :=
      fun hr => Component.rename_ne h.1 (Component.transact_eq.mp hr).2
    simp only [step]
    split
    · simp
    next he =>
      intro hp hc
      cases hp
      exact hr (hc ▸ he)
  | visit network =>
    simp only [step]
    split
    · split <;> simp
    · exact h.2 tgt bytes error
  | create medium =>
    simp only [step]
    split
    · simp
    · exact h.2 tgt bytes error

theorem run_orderly (h : s.Orderly) (events : List Event) : (runEvents s events).Orderly := by
  induction events generalizing s with
  | nil => exact h
  | cons event rest ih => exact ih (step_orderly h event)

end

/-! ## 5. The search for the canary -/

/-- How a search may fail. -/
inductive SearchFault
  | index | noRoom

/-- The loop of `contains_stream`.  A reader gives at each call as many bytes as it likes, at least
one; a slice outside the buffer is a fault, and so is a call that offers the reader no room. -/
def searchFrom (needle : Bytes) (likes : Nat → Nat) (buffer : Bytes) (retained observed calls : Nat)
    (stream : Bytes) : Except SearchFault (Bool × Nat) :=
  if buffer.length < retained then .error .index
  else if buffer.length = retained then .error .noRoom
  else
    let count := min stream.length (min (buffer.length - retained) (max 1 (likes calls)))
    if hc : count = 0 then .ok (false, observed)
    else
      let buffer := buffer.take retained ++ stream.take count ++ buffer.drop (retained + count)
      let available := retained + count
      if buffer.length < available then .error .index
      else if needle ∈ windows needle.length (buffer.take available) then
        .ok (true, observed + count)
      else
        let kept := min (needle.length - 1) available
        searchFrom needle likes (slice buffer (available - kept) available ++ buffer.drop kept) kept
          (observed + count) (calls + 1) (stream.drop count)
termination_by stream.length

/-- The search through a buffer of 64 KiB and the length of the needle. -/
def containsStream (needle : Bytes) (likes : Nat → Nat) (stream : Bytes) :
    Except SearchFault (Bool × Nat) :=
  searchFrom needle likes (List.replicate (65536 + needle.length - 1) 0) 0 0 0 stream

/-- The loop, when the buffer begins with the end of what has been read. -/
theorem searchFrom_eq {needle : Bytes} (hn : needle ≠ []) (likes : Nat → Nat)
    {buffer seen stream : Bytes} {retained calls : Nat}
    (hb : buffer.length = 65536 + needle.length - 1)
    (hr : retained = min (needle.length - 1) seen.length)
    (ht : buffer.take retained = seen.drop (seen.length - (needle.length - 1)))
    (hs : ¬ needle <:+: seen) :
    ∃ found observed,
      searchFrom needle likes buffer retained seen.length calls stream = .ok (found, observed)
        ∧ (found = true ↔ needle <:+: seen ++ stream)
        ∧ (found = false → observed = (seen ++ stream).length)
        ∧ observed ≤ (seen ++ stream).length := by
  have hp := List.length_pos_iff.mpr hn
  rw [searchFrom, if_neg (by omega), if_neg (by omega)]
  simp only
  split
  next hc =>
    have he : stream = [] := List.length_eq_zero_iff.mp (by omega)
    exact ⟨false, _, rfl, by simp [he, hs], by simp [he], by simp⟩
  next hc =>
    generalize hcount : min stream.length (min (buffer.length - retained) (max 1 (likes calls))) =
      count at hc ⊢
    generalize hnew : buffer.take retained ++ stream.take count ++ buffer.drop (retained + count) =
      filled
    have hlen : filled.length = buffer.length := by
      rw [← hnew]
      simp only [List.length_append, List.length_take, List.length_drop]
      omega
    have hfill : filled.take (retained + count) =
        seen.drop (seen.length - (needle.length - 1)) ++ stream.take count := by
      rw [← hnew, List.take_left' (by simp; omega), ht]
    have hiff : needle ∈ windows needle.length (filled.take (retained + count)) ↔
        needle <:+: seen ++ stream.take count := by
      rw [mem_windows_iff, hfill, ← infix_append_iff hs]
    have hw : seen ++ stream = (seen ++ stream.take count) ++ stream.drop count := by
      rw [List.append_assoc, List.take_append_drop]
    have hl : (seen ++ stream.take count).length = seen.length + count := by
      simp only [List.length_append, List.length_take]
      omega
    rw [if_neg (by omega), hw]
    split
    next hf =>
      have hi := (hiff.mp hf).trans (List.prefix_append _ (stream.drop count)).isInfix
      refine ⟨true, _, rfl, by simp only [hi], nofun, ?_⟩
      rw [List.length_append, hl]
      omega
    next hf =>
      rw [← hl]
      refine searchFrom_eq hn likes ?_ (by omega) ?_ (mt hiff.mpr hf)
      · simp only [slice, List.length_append, List.length_drop, List.length_take]
        omega
      · rw [List.take_left' (by simp only [slice, List.length_take, List.length_drop]; omega),
          slice, ← List.drop_take, hfill, ← List.drop_append_of_le_length (Nat.sub_le _ _),
          List.drop_drop]
        congr 1
        omega
termination_by stream.length

/-- **The search finds the needle exactly if it occurs in the stream, however the reader cuts it;
no slice leaves the buffer, and what is not found is read to the end.**  The count of the bytes read
is a `u64` in the source; it never exceeds the length of the stream, so it does not overflow as long
as this is at most `u64Max`. -/
theorem containsStream_exact {needle : Bytes} (hn : needle ≠ []) (likes : Nat → Nat)
    (stream : Bytes) : ∃ found observed, containsStream needle likes stream = .ok (found, observed)
        ∧ (found = true ↔ needle <:+: stream) ∧ (found = false → observed = stream.length)
        ∧ observed ≤ stream.length ∧ (stream.length ≤ u64Max → observed ≤ u64Max) := by
  have hb : (List.replicate (65536 + needle.length - 1) (0 : UInt8)).length =
      65536 + needle.length - 1 := List.length_replicate
  obtain ⟨found, observed, h, hf, he, hl⟩ := @searchFrom_eq needle hn likes _ [] stream 0 0 hb
    (by simp) (by simp) (by simpa using hn)
  exact ⟨found, observed, h, hf, he, hl, hl.trans⟩

/-- A needle that two reads cut apart is found. -/
theorem cut_needle_is_found : ([1, 2] : Bytes) ≠ [] ∧
    ∃ observed, containsStream [1, 2] (fun _ => 2) [0, 1, 2, 3] = .ok (true, observed) := by
  obtain ⟨found, observed, h, hf, -⟩ :=
    containsStream_exact (show ([1, 2] : Bytes) ≠ [] by decide) (fun _ => 2) [0, 1, 2, 3]
  have ht : found = true := hf.mpr ⟨[0], [3], rfl⟩
  exact ⟨by decide, observed, ht ▸ h⟩

end Einsatzarchiv.Writer
