/-
  File:      Einsatzarchiv/Sync/Client.lean
  Subject:   The upload of pending entries and its bounded resumption (crate `ea-sync-client`,
             `client.rs`, `queue.rs` and `retry.rs`; crate `ea-types`, `error.rs`).

  * `RetryPolicy.next`: exponential, capped, with jitter, and countable.
  * `osJitter`: the jitter of the operating system.
  * `RetrySchedule`, `bookFailure`: what one more vain attempt writes into the table.
  * `exists_bookFailure`: within the limits of the policy every booking has a next attempt.
  * `Surroundings`, `Station`: what the archive, the network archive, the line and the store
    answer, and what a process leaves behind.
  * `freshChallenge`, `commitOne`, `recordTransportFailure`: one commit with a fresh challenge.
  * `pushPending`: the pending entries in the order of their sequences, up to the first that waits.
  * `clientMachine`: runs one after the other, each of which may be cut off anywhere.
-/
import Einsatzarchiv.Crypto
import Einsatzarchiv.Lib.Sessions
import Einsatzarchiv.Protocol.Commit
import Mathlib.Data.List.AList

namespace Einsatzarchiv.Sync

open Lib Format Protocol

/-! ## 1. The policy -/

/-- `RetryConfig`: a `u8` and two `u64`, none of them zero. -/
structure RetryConfig where
  (maxRetries baseDelayMs capDelayMs : Nat)
  maxRetries_range : 0 < maxRetries ∧ maxRetries ≤ 255
  baseDelayMs_range : 0 < baseDelayMs ∧ baseDelayMs ≤ u64Max
  capDelayMs_range : 0 < capDelayMs ∧ capDelayMs ≤ u64Max

/-- Attempts are left, or none. -/
inductive RetryState
  | active (failedAttempts : Nat)
  | exhausted (failedAttempts : Nat)

/-- Try again later, or not at all. -/
inductive RetryDecision
  | retryAfter (delayMs : Nat)
  | exhausted (failedAttempts : Nat)

/-- The configuration and how many attempts have failed. -/
structure RetryPolicy where
  config : RetryConfig
  state : RetryState

/-- `OsJitter::jitter_ms` with what the generator gave; without a result the process panics. -/
def osJitter (raw : Option Nat) (ceilingMs : Nat) : Option Nat :=
  if ceilingMs = 0 then some 0
  else
    match raw with
    | none => some ceilingMs
    -- `ceiling_ms + 1` leaves the type at its greatest value
    | some raw => if ceilingMs < u64Max then some (raw % (ceilingMs + 1)) else none

namespace RetryPolicy

/-- `1_u64.checked_shl(exponent).unwrap_or(u64::MAX)`. -/
def multiplier (exponent : Nat) : Nat :=
  if exponent < 64 then 2 ^ exponent else u64Max

/-- The longest delay after so many failures. -/
def ceilingMs (config : RetryConfig) (failedAttempts : Nat) : Nat :=
  min (min (config.baseDelayMs * multiplier (failedAttempts - 1)) u64Max) config.capDelayMs

/-- The decision after one more failure; without room for the jitter there is none. -/
def next (policy : RetryPolicy) (raw : Option Nat) : Option (RetryDecision × RetryPolicy) :=
  match policy.state with
  | .exhausted failedAttempts => some (.exhausted failedAttempts, policy)
  | .active before =>
    let failedAttempts := before + 1
    if policy.config.maxRetries < failedAttempts then
      some (.exhausted failedAttempts, { policy with state := .exhausted failedAttempts })
    else do
      let ceiling := ceilingMs policy.config failedAttempts
      let jitter ← osJitter raw ceiling
      return (.retryAfter (min jitter ceiling), { policy with state := .active failedAttempts })

end RetryPolicy

/-- `advance`: the decision after the given number of further rounds. -/
def advance (policy : RetryPolicy) (raws : Nat → Option Nat) :
    Nat → Option (RetryDecision × RetryPolicy)
  | 0 => policy.next (raws 0)
  | rounds + 1 => do
      let (_, policy) ← advance policy raws rounds
      policy.next (raws (rounds + 1))

/-! ## 2. The row of an entry -/

/-- `RetryScheduleV1`. -/
structure RetrySchedule where
  failedAttempts : Nat
  nextAttemptAt : Int
  cursor : Option Bytes
deriving DecidableEq

namespace RetrySchedule

def fresh : RetrySchedule := ⟨0, 0, none⟩

/-- The booked time has come. -/
def isDue (schedule : RetrySchedule) (now : Int) : Bool :=
  schedule.nextAttemptAt ≤ now

end RetrySchedule

def u16Max : Nat := 65535

/-- `i64::saturating_add` of a delay that itself saturates. -/
def delayed (now : Int) (delayMs : Nat) : Int :=
  min (now + min (delayMs : Int) i64Max) i64Max

/-- What `record_failure` writes, and whether a further attempt is scheduled.  Without a result
the process panics. -/
def bookFailure (config : RetryConfig) (maxAttempts : Nat) (previous : RetrySchedule) (now : Int)
    (raws : Nat → Option Nat) : Option (RetrySchedule × Bool) := do
  let failedAttempts := min (previous.failedAttempts + 1) u16Max
  let (decision, _) ← advance ⟨config, .active 0⟩ raws (failedAttempts - 1)
  match decision with
  | .exhausted _ => return ({ previous with failedAttempts }, false)
  | .retryAfter delayMs =>
    if maxAttempts ≤ failedAttempts then return ({ previous with failedAttempts }, false)
    else return (⟨failedAttempts, delayed now delayMs, previous.cursor⟩, true)

/-! ## 3. What is booked -/

section Booking

variable {config : RetryConfig} (raws : Nat → Option Nat)

theorem osJitter_isSome (raw : Option Nat) {ceiling : Nat} (h : ceiling < u64Max) :
    ∃ jitter, osJitter raw ceiling = some jitter := by
  unfold osJitter
  by_cases hz : ceiling = 0
  · exact ⟨0, if_pos hz⟩
  · rw [if_neg hz]
    cases raw with
    | none => exact ⟨ceiling, rfl⟩
    | some raw => exact ⟨_, if_pos h⟩

section

variable (hca : config.capDelayMs < u64Max)
include hca

theorem ceilingMs_lt (failedAttempts : Nat) :
    RetryPolicy.ceilingMs config failedAttempts < u64Max :=
  lt_of_le_of_lt (Nat.min_le_right _ _) hca

theorem next_active {before : Nat} (h : before + 1 ≤ config.maxRetries) (raw : Option Nat) :
    ∃ delay, (⟨config, .active before⟩ : RetryPolicy).next raw
      = some (.retryAfter delay, ⟨config, .active (before + 1)⟩) := by
  obtain ⟨jitter, hj⟩ := osJitter_isSome raw (ceilingMs_lt hca (before + 1))
  refine ⟨min jitter (RetryPolicy.ceilingMs config (before + 1)), ?_⟩
  simp only [RetryPolicy.next, if_neg (Nat.not_lt.mpr h), hj]
  rfl

/-- An active policy counts up to its limit, if the cap leaves room for the jitter. -/
theorem advance_active {rounds : Nat} (h : rounds + 1 ≤ config.maxRetries) :
    ∃ delay, advance ⟨config, .active 0⟩ raws rounds
      = some (.retryAfter delay, ⟨config, .active (rounds + 1)⟩) := by
  induction rounds with
  | zero => exact next_active hca h _
  | succ rounds ih =>
    obtain ⟨_, he⟩ := ih (by omega)
    obtain ⟨delay, hl⟩ := next_active hca h (raws (rounds + 1))
    refine ⟨delay, ?_⟩
    rw [advance, he]
    exact hl

/-- The round after the last one exhausts the policy. -/
theorem advance_exhausted : ∃ pol, advance ⟨config, .active 0⟩ raws config.maxRetries
      = some (.exhausted (config.maxRetries + 1), pol) := by
  obtain ⟨rounds, hr⟩ := Nat.exists_eq_succ_of_ne_zero config.maxRetries_range.1.ne'
  obtain ⟨_, he⟩ := advance_active raws hca (show rounds + 1 ≤ config.maxRetries by omega)
  refine ⟨⟨config, .exhausted (config.maxRetries + 1)⟩, ?_⟩
  rw [hr, advance, he]
  simp only [Option.bind_eq_bind, Option.bind_some, RetryPolicy.next, hr, Nat.succ_eq_add_one]
  rw [if_pos (by omega)]

end

theorem le_delayed {now : Int} (hn : now ≤ i64Max) (delayMs : Nat) : now ≤ delayed now delayMs := by
  unfold delayed
  have : (0 : Int) ≤ i64Max := by decide
  omega

/-- Within the limits of the policy, a booking counts the attempt; as long as the profile allows
another one, it names the time before which there is none. -/
theorem exists_bookFailure {most : Nat} {prev : RetrySchedule} {now : Int}
    (hca : config.capDelayMs < u64Max) (hpo : most ≤ config.maxRetries + 1)
    (hm : most ≤ u16Max) (hn : now ≤ i64Max)
    (hp : prev.failedAttempts < most) :
    ∃ booked again, bookFailure config most prev now raws = some (booked, again)
      ∧ booked.failedAttempts = prev.failedAttempts + 1
      ∧ (again = false → prev.failedAttempts + 1 = most)
      ∧ (prev.failedAttempts + 1 < most → now ≤ booked.nextAttemptAt) := by
  have hc : min (prev.failedAttempts + 1) u16Max = prev.failedAttempts + 1 := by omega
  simp only [bookFailure, hc, Nat.add_sub_cancel]
  by_cases ha : prev.failedAttempts + 1 ≤ config.maxRetries
  · obtain ⟨delay, hd⟩ := advance_active raws hca ha
    rw [hd]
    simp only [Option.bind_eq_bind, Option.bind_some]
    by_cases hl : most ≤ prev.failedAttempts + 1
    · rw [if_pos hl]
      exact ⟨_, _, rfl, rfl, fun _ => by omega, fun hle => by omega⟩
    · rw [if_neg hl]
      exact ⟨_, _, rfl, rfl, fun h => (nomatch h), fun _ => le_delayed hn delay⟩
  · have hli : prev.failedAttempts = config.maxRetries := by omega
    obtain ⟨_, hd⟩ := advance_exhausted raws hca
    rw [hli, hd]
    exact ⟨_, _, rfl, rfl, fun _ => by omega, fun hle => by omega⟩

end Booking

/-! ## 4. What a run meets -/

/-- Why a run fails. -/
inductive SyncClientError
  | archive | queueDerivation | resumeAttemptsExhausted | notAutomaticallyRetried | receiptInvalid
  | receiptNotPersisted | retryStateUnreadable | protocol | networkPublicationUnpaired

/-- `PendingEntryV1`. -/
structure PendingEntry where
  entryBytes : Bytes
  entryHash : EntryHash
  entryObjectHash : ObjectHash
  sequence : Nat
  grantBytes : List Bytes
  grantPlanItems : List GrantPlanItem
  committedOrder : List String

/-- `SyncQueueV1`. -/
structure SyncQueue where
  pending : List PendingEntry
  confirmed : Nat

inductive Target
  | challenges | entryCommits
deriving DecidableEq

/-- What goes over the line; for which entry and in a run of which time is kept beside it. -/
structure Request where
  target : Target
  body : Bytes
  headers : List (String × String)
  entry : ObjectHash
  observedNow : Int

/-- What the server answers. -/
structure Response where
  status : Nat
  body : Bytes

/-- `is_automatically_retried`. -/
def isAutomaticallyRetried (status : Nat) : Bool :=
  500 ≤ status ∧ status < 600

/-- The line failed or answered `5xx`. -/
def failed : Option Response → Bool
  | none => true
  | some response => isAutomaticallyRetried response.status

/-- A request, the row of its entry at that time, and the answer; the line may fail. -/
structure Exchange where
  request : Request
  row : RetrySchedule
  answer : Option Response

/-- The line or the server failed. -/
def Exchange.failed (exchange : Exchange) : Bool := Sync.failed exchange.answer

/-- `ArchivePath`: a directory of the layout and what stands below it, segment by segment. -/
structure ArchivePath where
  (directory below : List String)
  nonempty : below ≠ []
deriving DecidableEq

/-- `PlannedPublicationV1`: addresses and bytes in the order of their publication. -/
abbrev PlannedPublication := List (ArchivePath × Bytes)

/-- `PublicationOutcomeV1`: how a call of the publication queue ended. -/
inductive PublicationOutcome
  | nothingPending | publishedCompletely | deferred | queueLimitReached

/-- `PublicationStateV1`, with what has been published. -/
structure PublicationState where
  outcome : PublicationOutcome
  published : PlannedPublication

/-- Why the network archive does not take a plan. -/
inductive NetworkRefusal
  | profileNotAllowed | other

/-- What becomes of a receipt: it is verified and stored, or an error is reported, and the file may
be there nevertheless. -/
inductive Receipting
  | stored
  | failed (error : SyncClientError) (kept : Bool)

/-- What the archive, the network archive, the line, the store and the generator answer at each
moment.  The queue is derived from the archive, which keeps the receipts. -/
structure Surroundings where
  queue : Nat → List ObjectHash → Except SyncClientError SyncQueue
  network : Nat → PlannedPublication → Except NetworkRefusal PublicationState
  line : Nat → Target → Option Response
  receipt : Nat → Receipting
  store : Nat → Bool
  random : Nat → Nat → Option Nat

/-- The table `sync_retry`, the entries whose receipt is in the archive, what went over the line
(the last exchange first), and the moment. -/
structure Station where
  retries : AList fun _ : ObjectHash => RetrySchedule := ∅
  receipts : List ObjectHash := []
  exchanges : List Exchange := []
  moment : Nat := 0

/-- `RetryStore::load`. -/
def Station.row (station : Station) (entry : ObjectHash) : RetrySchedule :=
  (station.retries.lookup entry).getD .fresh

/-- The operations of a run. -/
inductive Port
  | deriveQueue
  | load (entry : ObjectHash)
  | write (entry : ObjectHash) (schedule : RetrySchedule)
  | clear (entry : ObjectHash)
  | publish (planned : PlannedPublication)
  | send (request : Request)
  | fillRandom
  | persistReceipt (entry : ObjectHash) (receipt : Bytes)

abbrev Port.Reply : Port → Type
  | deriveQueue => Except SyncClientError SyncQueue
  | load _ => Option RetrySchedule
  | write _ _ | clear _ => Bool
  | publish _ => Except NetworkRefusal PublicationState
  | send _ => Option Response
  | fillRandom => Nat → Option Nat
  | persistReceipt _ _ => Except SyncClientError Unit

namespace Station

def later (station : Station) : Station := { station with moment := station.moment + 1 }

/-- What an operation does when it is carried out. -/
def perform (env : Surroundings) : (port : Port) → Station → port.Reply × Station
  | .deriveQueue, s => (env.queue s.moment s.receipts, s.later)
  | .load entry, s => (if env.store s.moment then some (s.row entry) else none, s.later)
  | .write entry schedule, s =>
    (env.store s.moment,
      if env.store s.moment then { s.later with retries := s.retries.insert entry schedule }
      else s.later)
  | .clear entry, s =>
    (env.store s.moment,
      if env.store s.moment then { s.later with retries := s.retries.erase entry } else s.later)
  | .publish planned, s => (env.network s.moment planned, s.later)
  | .send request, s =>
    (env.line s.moment request.target, { s.later with
        exchanges := ⟨request, s.row request.entry, env.line s.moment request.target⟩
          :: s.exchanges })
  | .fillRandom, s => (env.random s.moment, s.later)
  | .persistReceipt entry _, s =>
    match env.receipt s.moment with
    | .stored => (.ok (), { s.later with receipts := entry :: s.receipts })
    | .failed error kept =>
      (.error error,
        if kept then { s.later with receipts := entry :: s.receipts } else s.later)

end Station

/-- All that may fail is in what the surroundings answer. -/
def devices (env : Surroundings) : Devices Station Port.Reply where
  perform := Station.perform env
  refuse _ := none
  lossy _ := false

/-! ## 5. The client -/

/-- How a run breaks off. -/
inductive Halt
  | error (error : SyncClientError)
  | panic

/-- A part of a run. -/
abbrev Work (α : Type) := Program Port.Reply Halt α

abbrev call (port : Port) : Work port.Reply := Program.ask port

/-- A result, or the end of the run. -/
def attempt {α : Type} (result : Except SyncClientError α) : Work α :=
  Program.ofExcept (result.mapError .error)

/-- The frames of the protocol, and addresses from their text. -/
structure Wire where
  archivePathOf : String → Except SyncClientError ArchivePath
  challengeBody : Bytes
  decodeChallenge : Bytes → Except SyncClientError Bytes
  sign : Int → Bytes → Bytes → Except SyncClientError (List (String × String))
  decodeCommitResponse : Bytes → Except SyncClientError Bytes

/-- The client: its wire format, its targets and its limits. -/
structure SyncClient where
  wire : Wire
  network : Bool
  retry : RetryConfig
  maxResumeAttempts : Nat
  maxResumeAttempts_range : maxResumeAttempts ≤ u16Max

/-- What an entry waits for. -/
inductive PendingStep
  | networkArchive | serverUpload | resumeExhausted | queueLimit | profileNotAllowed
deriving DecidableEq

/-- How the upload of an entry ended. -/
inductive CommitOutcome
  | confirmed | deferred | exhausted
deriving DecidableEq

/-- `step_of`. -/
def stepOf : PublicationOutcome → Option PendingStep
  | .nothingPending | .publishedCompletely => none
  | .deferred => some .networkArchive
  | .queueLimitReached => some .queueLimit

namespace PendingEntry

variable [Crypto]

/-- The plan of a pending entry. -/
def grantPlan (entry : PendingEntry) : Except SyncClientError GrantPlan :=
  match h : GrantPlan.new entry.grantPlanItems with
  | .ok items => .ok ⟨items, entry.grantPlanItems, h⟩
  | .error _ => .error .queueDerivation

/-- Grants first, the entry last. -/
def publicationPlan (entry : PendingEntry) : List (String × Bytes) :=
  (entry.committedOrder.take entry.grantBytes.length).zip entry.grantBytes
    ++ entry.committedOrder.getLast?.toList.map (·, entry.entryBytes)

end PendingEntry

section Client

variable [Crypto] (client : SyncClient) (now : Int)

/-- The row of an entry; an unreadable one ends the run. -/
def loadSchedule (entry : ObjectHash) : Work RetrySchedule := do
  match ← call (.load entry) with
  | some schedule => return schedule
  | none => .fail (.error .retryStateUnreadable)

/-- `publish_to_network_archive`: the step that waits, if one does. -/
def publishToNetworkArchive (entry : PendingEntry) : Work (Option PendingStep) := do
  if !client.network then return none
  let planned ← attempt (entry.publicationPlan.mapM fun object => do
    return (← client.wire.archivePathOf object.1, object.2))
  match ← call (.publish planned) with
  | .error .profileNotAllowed => return some .profileNotAllowed
  | .error .other => .fail (.error .archive)
  | .ok state =>
    match stepOf state.outcome with
    | some step => return some step
    | none =>
      if planned.all fun object => object ∈ state.published then return none
      else return some .networkArchive

/-- `fresh_challenge`. -/
def freshChallenge (entry : ObjectHash) : Work Bytes := do
  match ← call (.send ⟨.challenges, client.wire.challengeBody, [], entry, now⟩) with
  | none => .fail (.error .protocol)
  | some response =>
    if response.status ≠ 200 then .fail (.error .protocol)
    else attempt (client.wire.decodeChallenge response.body)

/-- `record_transport_failure`, with `RetryStore::record_failure`. -/
def recordTransportFailure (entry : ObjectHash) : Work CommitOutcome := do
  let previous ← loadSchedule entry
  let raws ← call .fillRandom
  match bookFailure client.retry client.maxResumeAttempts previous now raws with
  | none => .fail .panic
  | some (booked, again) =>
    if ← call (.write entry booked) then return if again then .deferred else .exhausted
    else .fail (.error .retryStateUnreadable)

/-- What `commit_one` does with the answer. -/
def concludeCommit (entry : ObjectHash) : Option Response → Work CommitOutcome
  | none => recordTransportFailure client now entry
  | some response =>
    if isAutomaticallyRetried response.status = false ∧ response.status ≠ 200 then
      .fail (.error .notAutomaticallyRetried)
    else if response.status ≠ 200 then
      recordTransportFailure client now entry
    else do
      let receipt ← attempt (client.wire.decodeCommitResponse response.body)
      match ← call (.persistReceipt entry receipt) with
      | .ok _ => return .confirmed
      | .error error => .fail (.error error)

/-- `commit_one`. -/
def commitOne (entry : PendingEntry) : Work CommitOutcome := do
  let plan ← attempt entry.grantPlan
  let request ← attempt ((EntryCommitRequest.new entry.entryBytes plan entry.grantBytes).mapError
    fun _ => .protocol)
  let nonce ← freshChallenge client now entry.entryObjectHash
  let headers ← attempt (client.wire.sign now request.exact nonce)
  let answer ←
    call (.send ⟨.entryCommits, request.exact, headers, entry.entryObjectHash, now⟩)
  concludeCommit client now entry.entryObjectHash answer

/-- The entry at which a run stopped, and why. -/
abbrev Stop := Option (PendingStep × ObjectHash)

/-- The loop of `push_pending`. -/
def pushEntries : List PendingEntry → Nat → Work (Nat × Stop)
  | [], pushed => return (pushed, none)
  | entry :: rest, pushed => do
      let schedule ← loadSchedule entry.entryObjectHash
      if client.maxResumeAttempts ≤ schedule.failedAttempts then
        return (pushed, some (.resumeExhausted, entry.entryObjectHash))
      -- the chain is uploaded in its order: what is not due yet stops the run
      if !schedule.isDue now then
        return (pushed, some (.serverUpload, entry.entryObjectHash))
      match ← publishToNetworkArchive client entry with
      | some waiting => return (pushed, some (waiting, entry.entryObjectHash))
      | none =>
        match ← commitOne client now entry with
        | .confirmed =>
          if ← call (.clear entry.entryObjectHash) then pushEntries rest (pushed + 1)
          else .fail (.error .retryStateUnreadable)
        | .deferred => return (pushed, some (.serverUpload, entry.entryObjectHash))
        | .exhausted => return (pushed, some (.resumeExhausted, entry.entryObjectHash))

end Client

/-! ## 6. The public state -/

/-- What the operator is shown. -/
inductive SyncStatus
  | locallySaved | uploadPending | synchronized | failed

/-- Why an entry waits. -/
inductive SyncDetail
  | networkArchiveWaiting | resumeAttemptsExhausted | queueLimitReached | profileNotAllowed

/-- `sync_state_of`. -/
def syncStateOf (outstanding confirmed : Nat) :
    Option PendingStep → SyncStatus × Option SyncDetail
  | none =>
    if outstanding = 0 ∧ 0 < confirmed then (.synchronized, none)
    else if outstanding = 0 then (.locallySaved, none)
    else (.uploadPending, none)
  | some .networkArchive => (.uploadPending, some .networkArchiveWaiting)
  | some .serverUpload => (.uploadPending, none)
  | some .resumeExhausted => (.failed, some .resumeAttemptsExhausted)
  | some .queueLimit => (.failed, some .queueLimitReached)
  | some .profileNotAllowed => (.failed, some .profileNotAllowed)

/-- `PushSummary`, and beside it the entry at which the run stopped. -/
structure PushSummary where
  (pushed outstanding : Nat)
  status : SyncStatus
  detailCause : Option SyncDetail
  stop : Stop

/-- One run: how many entries at most, at which observed time. -/
structure Push where
  limit : Nat
  observedNow : Int
  observedNow_range : observedNow ≤ i64Max

/-- One run over the queue. -/
def pushPending [Crypto] (client : SyncClient) (push : Push) : Work PushSummary := do
  match ← call .deriveQueue with
  | .error error => .fail (.error error)
  | .ok queue => do
      let (pushed, stop) ← pushEntries client push.observedNow (queue.pending.take push.limit) 0
      let outstanding := queue.pending.length - pushed
      let (status, detailCause) :=
        syncStateOf outstanding (queue.confirmed + pushed) (stop.map Prod.fst)
      return { pushed, outstanding, status, detailCause, stop }

/-- Runs of one client; the start of the next one ends a process that had not ended. -/
def clientMachine [Crypto] (env : Surroundings) (client : SyncClient) :
    Machine Station Push Port.Reply Halt PushSummary :=
  ⟨devices env, pushPending client⟩

end Einsatzarchiv.Sync
