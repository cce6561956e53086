/-
  File:      Einsatzarchiv/Sync/Uploads.lean
  Subject:   How often the upload of one entry is resumed, over all runs of the client.

  * `failures`, `Contact`: the vain exchanges for an entry, and a request that respects all that
    was booked before it.
  * `Settled`, `Owed`: the table counts the failures, or the last one is still to be booked.
  * `heeds_pushPending`: a run leaves the table settled, and with a limit reached it says so.
  * `uploads_bounded`: the bound over all runs; `uploads_unbounded`: what it needs.
-/
import Einsatzarchiv.Server.Commit
import Einsatzarchiv.Sync.Client

namespace Einsatzarchiv.Sync

open Lib Format Protocol
open Station (perform)

/-! ## 1. Failures and contacts -/

/-- The exchanges for an entry in which the line failed or the server answered `5xx`. -/
def failures (entry : ObjectHash) (exchanges : List Exchange) : Nat :=
  exchanges.countP fun exchange => exchange.request.entry = entry ∧ exchange.failed

/-- The failures for one entry came at these times at the latest. -/
def FailedBy (time : Int) (entry : ObjectHash) (exchanges : List Exchange) : Prop :=
  ∀ exchange ∈ exchanges, exchange.request.entry = entry → exchange.failed = true →
    exchange.request.observedNow ≤ time

/-- When the request was sent, each earlier failure was booked, fewer than allowed, and the time
that was booked after the last of them had come. -/
structure Contact (limit : Nat) (exchange : Exchange) (earlier : List Exchange) : Prop where
  booked : exchange.row.failedAttempts = failures exchange.request.entry earlier
  allowed : exchange.row.failedAttempts < limit
  waited : FailedBy exchange.row.nextAttemptAt exchange.request.entry earlier
  due : exchange.row.nextAttemptAt ≤ exchange.request.observedNow

/-- Every exchange was a permitted contact. -/
def Contacts (limit : Nat) (exchanges : List Exchange) : Prop :=
  ∀ exchange earlier, exchange :: earlier <:+ exchanges → Contact limit exchange earlier

section Exchanges

variable {limit : Nat} {entry : ObjectHash} {ex : Exchange} {exchanges : List Exchange}
  {earlier : List Exchange}

theorem failures_cons : failures entry (ex :: exchanges) = failures entry exchanges
    + if ex.request.entry = entry ∧ ex.failed = true then 1 else 0 := by
  simp [failures, List.countP_cons]

theorem failures_le_of_suffix (h : earlier <:+ exchanges) :
    failures entry earlier ≤ failures entry exchanges :=
  h.sublist.countP_le

theorem Contacts.cons (h : Contacts limit exchanges) (hl : Contact limit ex exchanges) :
    Contacts limit (ex :: exchanges) := by
  intro other earlier hs
  rcases List.suffix_cons_iff.mp hs with heq | hs
  · obtain ⟨rfl, rfl⟩ := List.cons.inj heq
    exact hl
  · exact h other earlier hs

/-- When all attempts are used up, nothing more is sent for the entry. -/
theorem Contacts.filter_eq (h : Contacts limit exchanges) (hs : earlier <:+ exchanges)
    (hl : limit ≤ failures entry earlier) :
    exchanges.filter (·.request.entry = entry) = earlier.filter (·.request.entry = entry) := by
  obtain ⟨later, rfl⟩ := hs
  induction later with
  | nil => rfl
  | cons ex later ih =>
    have hc := h ex (later ++ earlier) (List.suffix_refl _)
    have hne : ex.request.entry ≠ entry := by
      rintro rfl
      have hb := hc.booked
      have ha := hc.allowed
      have hm : failures ex.request.entry earlier ≤ failures ex.request.entry (later ++ earlier) :=
        failures_le_of_suffix (List.suffix_append later earlier)
      omega
    rw [List.cons_append, List.filter_cons_of_neg (by simpa using hne)]
    exact ih fun other before hbe =>
      h other before (hbe.trans (List.suffix_cons _ _))

end Exchanges

/-! ## 2. The table -/

/-- The row of an entry counts its failures, and as long as there is another attempt, it waits. -/
structure Booked (limit : Nat) (entry : ObjectHash) (row : RetrySchedule)
    (exchanges : List Exchange) : Prop where
  count : row.failedAttempts = failures entry exchanges
  waits : row.failedAttempts < limit → FailedBy row.nextAttemptAt entry exchanges

/-- All failures are booked, and within the limit. -/
structure Settled (limit : Nat) (s : Station) : Prop where
  contacts : Contacts limit s.exchanges
  bound : ∀ entry, failures entry s.exchanges ≤ limit
  booked : ∀ entry, entry ∉ s.receipts → Booked limit entry (s.row entry) s.exchanges

/-- The last failure was that of this entry, and it is not booked yet. -/
structure Owed (limit : Nat) (owing : ObjectHash) (now : Int) (s : Station) : Prop where
  contacts : Contacts limit s.exchanges
  bound : ∀ entry, failures entry s.exchanges ≤ limit
  booked : ∀ entry, entry ∉ s.receipts → entry ≠ owing →
    Booked limit entry (s.row entry) s.exchanges
  count : (s.row owing).failedAttempts + 1 = failures owing s.exchanges
  times : FailedBy now owing s.exchanges

section Table

variable {limit : Nat} {env : Surroundings} {s : Station} {owing : ObjectHash} {now : Int}

theorem Settled.later (h : Settled limit s) : Settled limit s.later :=
  ⟨h.contacts, h.bound, h.booked⟩

theorem Owed.later (h : Owed limit owing now s) : Owed limit owing now s.later :=
  ⟨h.contacts, h.bound, h.booked, h.count, h.times⟩

variable {entry : ObjectHash} {exchanges : List Exchange} {req : Request} {ex : Exchange}
  {time : Int}

theorem FailedBy.mono {time' : Int} (h : FailedBy time entry exchanges) (hle : time ≤ time') :
    FailedBy time' entry exchanges :=
  fun ex hm he hf => (h ex hm he hf).trans hle

theorem FailedBy.cons (h : FailedBy time entry exchanges)
    (hl : ex.request.entry = entry → ex.failed = true →
      ex.request.observedNow ≤ time) : FailedBy time entry (ex :: exchanges) := by
  intro other hm
  rcases List.mem_cons.mp hm with rfl | hm
  · exact hl
  · exact h other hm

/-- What a request may do: its entry has no receipt, attempts are left, and the time has come. -/
structure Free (limit : Nat) (entry : ObjectHash) (now : Int) (s : Station) : Prop where
  receipt : entry ∉ s.receipts
  allowed : (s.row entry).failedAttempts < limit
  due : (s.row entry).nextAttemptAt ≤ now

theorem Settled.contact (h : Settled limit s)
    (hfe : Free limit req.entry req.observedNow s) (answer : Option Response) :
    Contact limit ⟨req, s.row req.entry, answer⟩ s.exchanges where
  booked := (h.booked _ hfe.receipt).count
  allowed := hfe.allowed
  waited := (h.booked _ hfe.receipt).waits hfe.allowed
  due := hfe.due

/-- Another entry does not notice an exchange. -/
theorem Booked.cons_of_ne {row : RetrySchedule} (h : Booked limit entry row exchanges)
    (ho : ¬ (ex.request.entry = entry ∧ ex.failed = true)) :
    Booked limit entry row (ex :: exchanges) where
  count := by rw [failures_cons, if_neg ho, Nat.add_zero, h.count]
  waits hl := (h.waits hl).cons fun he hf => absurd ⟨he, hf⟩ ho

section

variable (h : Settled limit s) (hfe : Free limit req.entry req.observedNow s)
include h hfe

theorem Settled.send_answered (ha : failed (env.line s.moment req.target) = false) :
    Settled limit (perform env (.send req) s).2 where
  contacts := h.contacts.cons (h.contact hfe _)
  bound entry := by
    change failures entry (_ :: s.exchanges) ≤ limit
    rw [failures_cons, if_neg (by simp [Exchange.failed, ha]), Nat.add_zero]
    exact h.bound entry
  booked entry he := (h.booked entry he).cons_of_ne (by simp [Exchange.failed, ha])

theorem Settled.send_failed (han : failed (env.line s.moment req.target) = true) :
    Owed limit req.entry req.observedNow (perform env (.send req) s).2 := by
  have hb := h.booked _ hfe.receipt
  refine ⟨h.contacts.cons (h.contact hfe _), fun entry => ?_, fun entry he hne => ?_, ?_, ?_⟩
  · change failures entry (_ :: s.exchanges) ≤ limit
    rw [failures_cons]
    split
    next hs =>
      have ha := hfe.allowed
      rw [hb.count, hs.1] at ha
      exact ha
    next => exact h.bound entry
  · exact (h.booked entry he).cons_of_ne fun hs => hne hs.1.symm
  · change (s.row req.entry).failedAttempts + 1 = failures req.entry (_ :: s.exchanges)
    rw [failures_cons, if_pos ⟨rfl, han⟩, hb.count]
  · refine FailedBy.cons ?_ fun _ _ => le_refl _
    exact (hb.waits hfe.allowed).mono hfe.due

end

theorem row_insert {other : ObjectHash} {schedule : RetrySchedule} :
    ({ s.later with retries := s.retries.insert entry schedule } : Station).row other
      = if other = entry then schedule else s.row other := by
  by_cases h : other = entry
  · subst h
    rw [if_pos rfl]
    exact congrArg (Option.getD · _) (AList.lookup_insert _)
  · rw [if_neg h]
    exact congrArg (Option.getD · _) (AList.lookup_insert_ne h)

theorem Owed.write (h : Owed limit owing now s) {booked : RetrySchedule}
    (hc : booked.failedAttempts = (s.row owing).failedAttempts + 1)
    (hw : booked.failedAttempts < limit → now ≤ booked.nextAttemptAt)
    (hs : env.store s.moment = true) :
    Settled limit (perform env (.write owing booked) s).2 := by
  simp only [perform, hs, if_true]
  refine ⟨h.contacts, h.bound, fun entry he => ?_⟩
  rw [row_insert]
  split
  next heq =>
    subst heq
    exact ⟨hc.trans h.count, fun hl => h.times.mono (hw hl)⟩
  next hne => exact h.booked entry he hne

theorem Settled.clear (h : Settled limit s) (hre : entry ∈ s.receipts) :
    Settled limit (perform env (.clear entry) s).2 := by
  simp only [perform]
  split
  · refine ⟨h.contacts, h.bound, fun other ho => ?_⟩
    have hne : other ≠ entry := fun heq => ho (heq ▸ hre)
    have hr : ({ s.later with retries := s.retries.erase entry } : Station).row other
        = s.row other := congrArg (Option.getD · _) (AList.lookup_erase_ne hne)
    rw [hr]
    exact h.booked other ho
  · exact h.later

theorem Settled.persist (h : Settled limit s) {rcpt : Bytes} :
    Settled limit (perform env (.persistReceipt entry rcpt) s).2 := by
  have hk : Settled limit { s.later with receipts := entry :: s.receipts } :=
    ⟨h.contacts, h.bound, fun other ho =>
      h.booked other fun hm => ho (List.mem_cons_of_mem _ hm)⟩
  simp only [perform]
  split
  · exact hk
  · split
    · exact hk
    · exact h.later

end Table

/-! ## 3. One run -/

/-- The operations of a booking. -/
def Port.books : Port → Bool
  | .load _ | .fillRandom | .write _ _ => true
  | _ => false

/-- Only a booking leaves a failure open. -/
def Guard (limit : Nat) (port : Port) (s : Station) : Prop :=
  Settled limit s ∨ port.books = true ∧ ∃ owing now, Owed limit owing now s

/-- A queue lists entries without a receipt, each once. -/
def Derives (queue : List ObjectHash → Except SyncClientError SyncQueue) : Prop :=
  ∀ receipts derived, queue receipts = .ok derived → (derived.pending.map (·.entryObjectHash)).Nodup
      ∧ ∀ entry ∈ derived.pending, entry.entryObjectHash ∉ receipts

/-- The store answers, the queue lists what has no receipt, and a challenge that is not answered
is refused for good. -/
structure Surroundings.Kind (env : Surroundings) : Prop where
  store : ∀ moment, env.store moment = true
  queue : ∀ moment, Derives (env.queue moment)
  challenge : ∀ moment, ∃ response, env.line moment .challenges = some response
    ∧ isAutomaticallyRetried response.status = false

/-- The limit of the profile is within that of the policy, and the cap leaves room for the
jitter. -/
structure SyncClient.Within (client : SyncClient) : Prop where
  policy : client.maxResumeAttempts ≤ client.retry.maxRetries + 1
  cap : client.retry.capDelayMs < u64Max

section Run

variable {α : Type} {env : Surroundings} {client : SyncClient} {now : Int} {s : Station}

variable {limit : Nat} {entry : ObjectHash} {Post : Except Halt α → Station → Prop}

theorem heeds_call {port : Port} {f : port.Reply → Work α} (hg : Guard limit port s)
    (h : (f (perform env port s).1).Heeds (devices env) (Guard limit) Post (perform env port s).2) :
    (call port >>= f).Heeds (devices env) (Guard limit) Post s :=
  Program.heeds_ask_bind hg h (fun _ hr => (nomatch hr)) fun _ hr => (nomatch hr)

/-- A run that breaks off leaves the table settled. -/
abbrev after (limit : Nat) (Ok : α → Station → Prop) : Except Halt α → Station → Prop :=
  ends (fun a t => Settled limit t ∧ Ok a t) fun _ t => Settled limit t

/-- The work heeds the guards, and how it ends. -/
abbrev Leads (env : Surroundings) (limit : Nat) (p : Work α) (Ok : α → Station → Prop)
    (s : Station) : Prop :=
  p.Heeds (devices env) (Guard limit) (after limit Ok) s

theorem heeds_attempt_bind {β : Type} {x : Except SyncClientError α} {f : α → Work β}
    {Ok : β → Station → Prop} (hs : Settled limit s)
    (h : ∀ a, x = .ok a → Leads env limit (f a) Ok s) : Leads env limit (attempt x >>= f) Ok s := by
  cases x with
  | error e => exact hs
  | ok a => exact h a rfl

theorem heeds_loadSchedule_bind {f : RetrySchedule → Work α} (hkind : env.Kind)
    (hg : Guard limit (.load entry) s)
    (h : (f (s.row entry)).Heeds (devices env) (Guard limit) Post s.later) :
    (loadSchedule entry >>= f).Heeds (devices env) (Guard limit) Post s := by
  have hl : (loadSchedule entry).Heeds (devices env) (Guard limit)
      (fun r t => r = .ok (s.row entry) ∧ t = s.later) s := by
    refine heeds_call hg ?_
    simp only [perform, hkind.store, if_true]
    exact ⟨rfl, rfl⟩
  refine hl.bind ?_ ?_
  · rintro _ _ ⟨⟨⟩, rfl⟩
    exact h
  · rintro _ _ ⟨⟨⟩, -⟩

/-- **Booking.**  A failure that is owed is booked, and the last one that is allowed is reported. -/
theorem heeds_recordTransportFailure (hkind : env.Kind) (hwithin : client.Within)
    (hn : now ≤ i64Max) (h : Owed client.maxResumeAttempts entry now s) :
    Leads env client.maxResumeAttempts (recordTransportFailure client now entry)
      (fun out t => t.receipts = s.receipts ∧ out ≠ .confirmed
        ∧ (out = .exhausted → client.maxResumeAttempts ≤ failures entry t.exchanges)) s := by
  have hb := h.bound entry
  rw [← h.count] at hb
  refine heeds_loadSchedule_bind hkind (.inr ⟨rfl, _, _, h⟩) ?_
  refine heeds_call (.inr ⟨rfl, _, _, h.later⟩) ?_
  obtain ⟨booked, again, hbo, hc, hl, hw⟩ :=
    exists_bookFailure (env.random s.later.moment) hwithin.cap hwithin.policy
      client.maxResumeAttempts_range hn hb
  have hr : bookFailure client.retry client.maxResumeAttempts (s.row entry) now
      (perform env .fillRandom s.later).1 = some (booked, again) := hbo
  rw [hr]
  refine heeds_call (.inr ⟨rfl, _, _, h.later.later⟩) ?_
  have hs : Settled client.maxResumeAttempts (perform env (.write entry booked) s.later.later).2 :=
    h.later.later.write hc (fun hle => hw (hc ▸ hle)) (hkind.store _)
  have he : (perform env (.write entry booked) s.later.later).2.exchanges = s.exchanges := by
    simp only [perform, hkind.store, if_true]
    rfl
  have hre : (perform env (.write entry booked) s.later.later).2.receipts = s.receipts := by
    simp only [perform, hkind.store, if_true]
    rfl
  have hli (ha : again = false) : client.maxResumeAttempts
      ≤ failures entry (perform env (.write entry booked) s.later.later).2.exchanges := by
    rw [he, ← h.count]
    exact (hl ha).ge
  split
  next =>
    refine ⟨hs, hre, by cases again <;> simp, fun ho => ?_⟩
    cases again with
    | false => exact hli rfl
    | true => cases ho
  next hrf => exact absurd (hkind.store _) hrf

theorem stepOf_ne (out : PublicationOutcome) : stepOf out ≠ some .resumeExhausted := by
  cases out <;> simp [stepOf]

/-- The network archive never exhausts the attempts of the server. -/
theorem heeds_publishToNetworkArchive {entry : PendingEntry} (h : Settled limit s) :
    Leads env limit (publishToNetworkArchive client entry)
      (fun waiting t => waiting ≠ some .resumeExhausted ∧ (t = s ∨ t = s.later)) s := by
  unfold publishToNetworkArchive
  split
  · exact ⟨h, by simp, .inl rfl⟩
  refine heeds_attempt_bind h fun planned _ => ?_
  refine heeds_call (.inl h) ?_
  have hl := h.later
  split
  · exact ⟨hl, by simp, .inr rfl⟩
  · exact hl
  next state _ =>
    split
    next step hs => exact ⟨hl, hs ▸ stepOf_ne state.outcome, .inr rfl⟩
    next =>
      split
      · exact ⟨hl, by simp, .inr rfl⟩
      · exact ⟨hl, by simp, .inr rfl⟩

theorem Free.later (h : Free limit entry now s) : Free limit entry now s.later :=
  ⟨h.receipt, h.allowed, h.due⟩

/-- A challenge costs no attempt. -/
theorem heeds_freshChallenge (hkind : env.Kind) (h : Settled limit s)
    (hfe : Free limit entry now s) :
    Leads env limit (freshChallenge client now entry)
      (fun _ t => Free limit entry now t ∧ t.receipts = s.receipts) s := by
  refine heeds_call (.inl h) ?_
  obtain ⟨_, hl, hs⟩ := hkind.challenge s.moment
  have hse : Settled limit (perform env
      (.send ⟨.challenges, client.wire.challengeBody, [], entry, now⟩) s).2 :=
    h.send_answered hfe (by simp [failed, hl, hs])
  have hfree' : Free limit entry now (perform env
      (.send ⟨.challenges, client.wire.challengeBody, [], entry, now⟩) s).2 :=
    ⟨hfe.receipt, hfe.allowed, hfe.due⟩
  split
  · exact hse
  · split
    · exact hse
    · refine (Program.heeds_ofExcept ?_ : Program.Heeds _ _ _ (attempt _) _)
      cases client.wire.decodeChallenge _ with
      | error e => exact hse
      | ok _ => exact ⟨hse, hfree', rfl⟩

variable [Crypto]

/-- How a commit ends: a confirmed one leaves its receipt, an exhausted one has used up its
attempts. -/
structure Concluded (limit : Nat) (entry : ObjectHash) (receipts : List ObjectHash)
    (outcome : CommitOutcome) (t : Station) : Prop where
  receipts : t.receipts ⊆ entry :: receipts
  confirmed : outcome = .confirmed → entry ∈ t.receipts
  exhausted : outcome = .exhausted → limit ≤ failures entry t.exchanges

section

variable (hkind : env.Kind) (hwithin : client.Within)
include hkind hwithin

omit [Crypto] in
theorem heeds_concludeCommit {answer : Option Response} (hn : now ≤ i64Max)
    (ho : failed answer = true → Owed client.maxResumeAttempts entry now s)
    (hse : failed answer = false → Settled client.maxResumeAttempts s) :
    Leads env client.maxResumeAttempts (concludeCommit client now entry answer)
      (Concluded client.maxResumeAttempts entry s.receipts) s := by
  have hrc (hf : failed answer = true) :
      Leads env client.maxResumeAttempts (recordTransportFailure client now entry)
        (Concluded client.maxResumeAttempts entry s.receipts) s := by
    refine (heeds_recordTransportFailure hkind hwithin hn (ho hf)).imp fun r t ht => ?_
    cases r with
    | error e => exact ht
    | ok _ =>
      obtain ⟨ht, hk, hc, he⟩ := ht
      refine ⟨ht, ?_, fun hou => absurd hou hc, he⟩
      rw [hk]
      exact List.subset_cons_self _ _
  cases answer with
  | none => exact hrc rfl
  | some response =>
    simp only [concludeCommit]
    split
    next hre => exact hse hre.1
    next hr =>
      split
      next hst =>
        refine hrc ?_
        cases ha : isAutomaticallyRetried response.status with
        | true => exact ha
        | false => exact absurd ⟨ha, hst⟩ hr
      next hst =>
        have hs := hse (by
          rw [failed, not_not.mp hst]
          rfl)
        refine heeds_attempt_bind hs fun rcpt _ => heeds_call (.inl hs) ?_
        have ht : Settled client.maxResumeAttempts
            (perform env (.persistReceipt entry rcpt) s).2 := hs.persist
        revert ht
        simp only [perform]
        cases env.receipt s.moment with
        | stored =>
          exact fun ht => ⟨ht, List.Subset.refl _, fun _ => List.mem_cons_self,
            fun hou => (nomatch hou)⟩
        | failed error _ => exact fun ht => ht

/-- **One commit.**  It is confirmed and the receipt is stored, or its failure is booked. -/
theorem heeds_commitOne {entry : PendingEntry} (hn : now ≤ i64Max)
    (h : Settled client.maxResumeAttempts s)
    (hfe : Free client.maxResumeAttempts entry.entryObjectHash now s) :
    Leads env client.maxResumeAttempts (commitOne client now entry)
      (Concluded client.maxResumeAttempts entry.entryObjectHash s.receipts) s := by
  refine heeds_attempt_bind h fun plan _ => ?_
  refine heeds_attempt_bind h fun request _ => ?_
  refine (heeds_freshChallenge hkind h hfe).bind ?_ fun _ _ ht => ht
  rintro _ t ⟨ht, hf, hr⟩
  rw [← hr]
  refine heeds_attempt_bind ht fun headers _ => heeds_call (.inl ht) ?_
  exact heeds_concludeCommit hkind hwithin hn (fun ha => ht.send_failed hf ha)
    fun ha => ht.send_answered hf ha

/-- A run that stops at an exhausted entry says the truth. -/
def Truthful (limit : Nat) (stop : Stop) (t : Station) : Prop :=
  ∀ entry, stop = some (.resumeExhausted, entry) → limit ≤ failures entry t.exchanges

/-- **The loop.** -/
theorem heeds_pushEntries {entries : List PendingEntry} {pushed : Nat} (hno : now ≤ i64Max)
    (h : Settled client.maxResumeAttempts s) (hn : (entries.map (·.entryObjectHash)).Nodup)
    (hre : ∀ entry ∈ entries, entry.entryObjectHash ∉ s.receipts) :
    Leads env client.maxResumeAttempts (pushEntries client now entries pushed)
      (fun r t => Truthful client.maxResumeAttempts r.2 t) s := by
  induction entries generalizing s pushed with
  | nil => exact ⟨h, fun _ hst => (nomatch hst)⟩
  | cons entry _ ih =>
    have hf := hre entry List.mem_cons_self
    refine heeds_loadSchedule_bind hkind (.inl h) ?_
    split
    next he =>
      refine ⟨h.later, fun other hst => ?_⟩
      obtain ⟨-, rfl⟩ := Prod.mk.inj (Option.some.inj hst)
      exact he.trans (h.booked _ hf).count.le
    next ha =>
      split
      next => exact ⟨h.later, fun _ hst => (nomatch hst)⟩
      next hd =>
        have hfe : Free client.maxResumeAttempts entry.entryObjectHash now s :=
          ⟨hf, Nat.not_le.mp ha, by simpa [RetrySchedule.isDue] using hd⟩
        refine (heeds_publishToNetworkArchive h.later).bind ?_ fun _ _ ht => ht
        rintro waiting t ⟨ht, hw, hs⟩
        have hfr : Free client.maxResumeAttempts entry.entryObjectHash now t := by
          rcases hs with rfl | rfl
          · exact hfe.later
          · exact hfe.later.later
        have hr : t.receipts = s.receipts := by
          rcases hs with rfl | rfl <;> rfl
        cases waiting with
        | some _ =>
          refine ⟨ht, fun other hst => ?_⟩
          obtain ⟨rfl, -⟩ := Prod.mk.inj (Option.some.inj hst)
          exact absurd rfl hw
        | none =>
          refine (heeds_commitOne hkind hwithin hno ht hfr).bind ?_ fun _ _ hu => hu
          rintro out u ⟨hu, hco⟩
          cases out with
          | deferred => exact ⟨hu, fun _ hst => (nomatch hst)⟩
          | exhausted =>
            refine ⟨hu, fun other hst => ?_⟩
            obtain ⟨-, rfl⟩ := Prod.mk.inj (Option.some.inj hst)
            exact hco.exhausted rfl
          | confirmed =>
            have hc : Settled client.maxResumeAttempts
                (perform env (.clear entry.entryObjectHash) u).2 :=
              hu.clear (hco.confirmed rfl)
            have hk : (perform env (.clear entry.entryObjectHash) u).2.receipts = u.receipts := by
              simp only [perform, hkind.store, if_true]
              rfl
            refine heeds_call (.inl hu) ?_
            split
            next =>
              refine ih hc hn.tail fun other ho hm => ?_
              rw [hk] at hm
              rcases List.mem_cons.mp (hco.receipts hm) with heq | hm
              · exact (List.nodup_cons.mp hn).1 (List.mem_map.mpr ⟨other, ho, heq⟩)
              · rw [hr] at hm
                exact hre other (List.mem_cons_of_mem _ ho) hm
            next => exact hc

/-- **One run**, up to any point. -/
theorem heeds_pushPending {push : Push} (h : Settled client.maxResumeAttempts s) :
    Leads env client.maxResumeAttempts (pushPending client push)
      (fun summary t => Truthful client.maxResumeAttempts summary.stop t) s := by
  refine heeds_call (.inl h) ?_
  split
  next => exact h.later
  next queue hq =>
    obtain ⟨hn, hr⟩ := hkind.queue s.moment s.receipts queue hq
    have hta := List.take_sublist push.limit queue.pending
    refine (heeds_pushEntries hkind hwithin push.observedNow_range h.later
      ((hta.map _).nodup hn) fun entry he =>
        hr entry (hta.subset he)).bind ?_ fun _ _ ht => ht
    rintro ⟨_, _⟩ t ⟨ht, htr⟩
    exact ⟨ht, htr⟩

end

end Run

/-! ## 4. All runs -/

/-- A process that is not booking a failure. -/
def Interruptible : Option (Work PushSummary) → Prop
  | some (.call port _) => port.books = false
  | _ => True

instance : DecidablePred Interruptible
  | some (.call port _) => inferInstanceAs (Decidable (port.books = false))
  | none | some (.done _) | some (.fail _) => isTrue trivial

/-- No process is lost while it is booking a failure, or while it loads a row. -/
def Orderly (machine : Machine Station Push Port.Reply Halt PushSummary)
    (turns : List (Turn Push)) : Prop :=
  ∀ earlier push later, turns = earlier ++ .start push :: later →
    Interruptible (machine.run ⟨{}, none⟩ earlier).current

section Runs

variable [Crypto] {env : Surroundings} {client : SyncClient}
  {session : Session Station Port.Reply Halt PushSummary} {limit : Nat}

omit [Crypto] in
theorem exchanges_suffix_perform (port : Port) (s : Station) :
    s.exchanges <:+ (perform env port s).2.exchanges := by
  cases port with
  | send _ => exact List.suffix_cons _ _
  | write entry schedule | clear entry =>
    simp only [perform]
    split <;> exact List.suffix_refl _
  | persistReceipt entry _ =>
    simp only [perform]
    split
    · exact List.suffix_refl _
    · split <;> exact List.suffix_refl _
  | deriveQueue | load entry | publish planned | fillRandom => exact List.suffix_refl _

/-- What went over the line stays in the log. -/
theorem exchanges_suffix_run (session : Session Station Port.Reply Halt PushSummary)
    (turns : List (Turn Push)) :
    session.state.exchanges <:+ ((clientMachine env client).run session turns).state.exchanges := by
  induction turns generalizing session with
  | nil => exact List.suffix_refl _
  | cons turn turns ih =>
    refine List.IsSuffix.trans ?_ (ih ((clientMachine env client).turn session turn))
    cases turn with
    | start _ => exact List.suffix_refl _
    | proceed fate =>
      rcases session with ⟨state, _ | (_ | _ | ⟨port, _⟩)⟩
      · exact List.suffix_refl _
      · exact List.suffix_refl _
      · exact List.suffix_refl _
      · change _ <:+ ((devices env).meet port fate state).2.exchanges
        rcases (devices env).meet_cases port fate state with h | ⟨_, hr, -⟩
        · rw [h]
          exact exchanges_suffix_perform port state
        · cases hr

/-- The table is settled, or what is left of the run settles it. -/
def Kept (env : Surroundings) (limit : Nat)
    (session : Session Station Port.Reply Halt PushSummary) : Prop :=
  match session.current with
  | none => Settled limit session.state
  | some p => p.Heeds (devices env) (Guard limit)
      (after limit fun summary t => Truthful limit summary.stop t) session.state

omit [Crypto] in
theorem Kept.settled (h : Kept env limit session) (hr : Interruptible session.current) :
    Settled limit session.state := by
  rcases session with ⟨_, _ | (_ | _ | ⟨port, _⟩)⟩
  · exact h
  · exact h.1
  · exact h
  · rcases h.1 with hs | ⟨hb, -⟩
    · exact hs
    · rw [show port.books = false from hr] at hb
      cases hb

omit [Crypto] in
/-- At no moment there are too many failures, or a contact out of order. -/
theorem Kept.bounded (h : Kept env limit session) : Contacts limit session.state.exchanges
      ∧ ∀ entry, failures entry session.state.exchanges ≤ limit := by
  rcases session with ⟨_, _ | (_ | _ | ⟨_, _⟩)⟩
  · exact ⟨h.contacts, h.bound⟩
  · exact ⟨h.1.contacts, h.1.bound⟩
  · exact ⟨h.contacts, h.bound⟩
  · rcases h.1 with hs | ⟨-, _, _, ho⟩
    · exact ⟨hs.contacts, hs.bound⟩
    · exact ⟨ho.contacts, ho.bound⟩

omit [Crypto] in
theorem settled_start (limit : Nat) : Settled limit {} where
  contacts exchange earlier h := by simp at h
  bound entry := Nat.zero_le _
  booked entry _ := ⟨rfl, fun _ exchange hm => (nomatch hm)⟩

/-- **All runs.**  Each one finds the table settled, and settles it. -/
theorem kept_run (hkind : env.Kind) (hwithin : client.Within) {turns : List (Turn Push)}
    (ho : Orderly (clientMachine env client) turns) :
    Kept env client.maxResumeAttempts ((clientMachine env client).run ⟨{}, none⟩ turns) := by
  induction turns using List.reverseRecOn with
  | nil => exact settled_start _
  | append_singleton turns turn ih =>
    have hk := ih fun earlier push later heq =>
      ho earlier push (later ++ [turn]) (by simp [heq])
    rw [Machine.run_append]
    cases turn with
    | start push =>
      exact heeds_pushPending hkind hwithin (hk.settled (ho turns push [] rfl))
    | proceed fate =>
      generalize (clientMachine env client).run ⟨{}, none⟩ turns = session at hk
      rcases session with ⟨_, _ | (_ | _ | ⟨_, _⟩)⟩
      · exact hk
      · exact hk
      · exact hk
      · exact hk.2 fate

/-- **Bounded resumption.**  Over all runs, the line fails for one entry at most as often as the
profile allows.  Whenever the server is contacted, each earlier failure is booked and the time that
was booked after the last one has come.  After a run has reported an entry as exhausted, nothing
more is sent for it. -/
theorem uploads_bounded (env : Surroundings) (client : SyncClient) (turns : List (Turn Push))
    (hkind : env.Kind) (hwithin : client.Within)
    (horderly : Orderly (clientMachine env client) turns) :
    let run := (clientMachine env client).run ⟨{}, none⟩
    (∀ entry, failures entry (run turns).state.exchanges ≤ client.maxResumeAttempts)
      ∧ Contacts client.maxResumeAttempts (run turns).state.exchanges
      ∧ (Interruptible (run turns).current → ∀ entry, entry ∉ (run turns).state.receipts →
        Booked client.maxResumeAttempts entry ((run turns).state.row entry)
          (run turns).state.exchanges)
      ∧ ∀ earlier later, turns = earlier ++ later → ∀ summary entry,
        (run earlier).current = some (.done summary) →
        summary.stop = some (.resumeExhausted, entry) →
        (run turns).state.exchanges.filter (·.request.entry = entry)
          = (run earlier).state.exchanges.filter (·.request.entry = entry) := by
  intro run
  have hk := kept_run hkind hwithin horderly
  refine ⟨hk.bounded.2, hk.bounded.1, fun hr => (hk.settled hr).booked, ?_⟩
  rintro earlier later rfl summary entry hd hs
  have he : Kept env client.maxResumeAttempts (run earlier) :=
    kept_run hkind hwithin fun before push after heq =>
      horderly before push (after ++ later) (by simp [heq])
  have hl : client.maxResumeAttempts ≤ failures entry (run earlier).state.exchanges := by
    unfold Kept at he
    rw [hd] at he
    exact he.2 entry hs
  refine hk.bounded.1.filter_eq ?_ hl
  rw [Machine.run_append]
  exact exchanges_suffix_run _ later

end Runs

/-! ## 5. One entry -/

/-- Entry 50 of the table with its grant. -/
def exampleEntry : PendingEntry where
  entryBytes := Server.tableBytes .entry 50
  entryHash := 100
  entryObjectHash := 50
  sequence := 0
  grantBytes := [Server.tableBytes .grant 60]
  grantPlanItems := Server.tablePlan.items
  committedOrder := []

/-- The entry is pending until its receipt is there; only the line is free. -/
def exampleSurroundings (line : Nat → Target → Option Response) : Surroundings where
  queue _ receipts := .ok ⟨if 50 ∈ receipts then [] else [exampleEntry], 0⟩
  network _ _ := .error .other
  line := line
  receipt _ := .stored
  store _ := true
  random _ _ := some 0

/-- The challenges arrive and the commits do not. -/
def commitsLost (_ : Nat) : Target → Option Response
  | .challenges => some ⟨200, []⟩
  | .entryCommits => none

/-- A client with a limit and a policy. -/
def exampleClient (maxResumeAttempts : Nat) (retry : RetryConfig)
    (h : maxResumeAttempts ≤ u16Max := by decide) : SyncClient where
  wire := ⟨fun _ => .error .queueDerivation, [], .ok, fun _ _ _ => .ok [], .ok⟩
  network := false
  retry := retry
  maxResumeAttempts := maxResumeAttempts
  maxResumeAttempts_range := h

/-- One retry, after at most ten milliseconds. -/
def oneRetry : RetryConfig := ⟨1, 10, 10, by decide, by decide, by decide⟩

/-- A cap that leaves no room for the jitter. -/
def endlessDelay : RetryConfig := ⟨255, u64Max, u64Max, by decide, by decide, by decide⟩

/-- A run at a time, with its operations. -/
def pushAt (now : Int) (operations : Nat) (h : now ≤ i64Max := by decide) : List (Turn Push) :=
  .start ⟨10, now, h⟩ :: List.replicate operations (.proceed .answered)

/-- The runs of the client over a line. -/
def exampleRun (line : Nat → Target → Option Response) (client : SyncClient)
    (turns : List (Turn Push)) : Session Station Port.Reply Halt PushSummary :=
  (@clientMachine Server.serverCrypto (exampleSurroundings line) client).run ⟨{}, none⟩ turns

theorem kind_exampleSurroundings {line : Nat → Target → Option Response}
    (hl : ∀ moment, ∃ response, line moment .challenges = some response
      ∧ isAutomaticallyRetried response.status = false) : (exampleSurroundings line).Kind where
  store _ := rfl
  queue _ receipts _ hd := by
    obtain rfl := Except.ok.inj hd
    by_cases hm : 50 ∈ receipts
    · simp [hm]
    · refine ⟨by simp [hm], fun entry he => ?_⟩
      rw [if_neg hm] at he
      obtain rfl := List.mem_singleton.mp he
      exact hm
  challenge := hl

/-- A run that is lost before its commit, two that book a lost commit, and one that comes after the
second failure was reported as the last. -/
def fourRuns : List (Turn Push) := pushAt 0 3 ++ pushAt 0 7 ++ pushAt 100 7 ++ pushAt 200 7

/-- Two attempts with one retry: both are used up, and nothing is sent any more. -/
theorem uploads_bounded_exhausted :
    let session := exampleRun commitsLost (exampleClient 2 oneRetry) fourRuns
    failures 50 session.state.exchanges = 2 ∧ (session.state.row 50).failedAttempts = 2
      ∧ (∀ entry, failures entry session.state.exchanges ≤ 2)
      ∧ session.state.exchanges.filter (·.request.entry = 50)
        = (exampleRun commitsLost (exampleClient 2 oneRetry)
          (fourRuns.take 20)).state.exchanges.filter (·.request.entry = 50) := by
  refine ⟨by decide +kernel, by decide +kernel, ?_⟩
  have ho : ∀ i < fourRuns.length, ∀ push ∈ fourRuns[i]?.bind Turn.call?, Interruptible
      (exampleRun commitsLost (exampleClient 2 oneRetry) (fourRuns.take i)).current := by
    decide +kernel
  obtain ⟨hb, -, -, he⟩ := @uploads_bounded Server.serverCrypto (exampleSurroundings commitsLost)
    (exampleClient 2 oneRetry) fourRuns (kind_exampleSurroundings fun _ => ⟨⟨200, []⟩, rfl, rfl⟩)
    ⟨by decide, by decide⟩ fun _ _ _ ht => forall_start_of_take (P := fun earlier _ =>
      Interruptible (exampleRun commitsLost (exampleClient 2 oneRetry) earlier).current) ho ht
  -- the third run ends with the report
  have hr : ((exampleRun commitsLost (exampleClient 2 oneRetry) (fourRuns.take 20)).current.bind
      Program.value?).map PushSummary.stop = some (some (.resumeExhausted, 50)) := by
    decide +kernel
  obtain ⟨summary, hs, hstop⟩ := Option.map_eq_some_iff.mp hr
  obtain ⟨program, hp, hv⟩ := Option.bind_eq_some_iff.mp hs
  obtain rfl := Program.value?_eq_some.mp hv
  unfold exampleRun at hp ⊢
  refine ⟨hb, he (fourRuns.take 20) (fourRuns.drop 20) ?_ summary 50 hp hstop⟩
  rw [List.take_append_drop]

/-- Challenges that are lost are not booked, so that the runs never end; a limit of the profile
above that of the policy lets an entry that was reported as exhausted be sent again; and without
room for the jitter no failure is booked. -/
theorem uploads_unbounded : failures 50 (exampleRun (fun _ _ => none) (exampleClient 2 oneRetry)
        (pushAt 0 3 ++ pushAt 0 3 ++ pushAt 0 3)).state.exchanges = 3
      ∧ ((exampleRun commitsLost (exampleClient 3 oneRetry)
          (pushAt 0 7 ++ pushAt 100 7)).current.bind Program.value?).map PushSummary.stop
        = some (some (.resumeExhausted, 50))
      ∧ (exampleRun commitsLost (exampleClient 3 oneRetry)
          (pushAt 0 7 ++ pushAt 100 7)).state.exchanges.length
        < (exampleRun commitsLost (exampleClient 3 oneRetry)
          (pushAt 0 7 ++ pushAt 100 7 ++ pushAt 200 7)).state.exchanges.length
      ∧ failures 50 (exampleRun commitsLost (exampleClient 2 endlessDelay)
        (pushAt 0 6 ++ pushAt 0 6 ++ pushAt 0 6)).state.exchanges = 3 := by
  decide +kernel

end Einsatzarchiv.Sync
