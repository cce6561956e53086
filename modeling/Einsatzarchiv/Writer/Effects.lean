/-
  File:      Einsatzarchiv/Writer/Effects.lean
  Subject:   When a call may change a store, and what the change is.

  * `Locked`, `MayRelease`, `MayDeleteKey`, `MayPublish`: what a state allows.
  * `Licence`, `Guard`: under which condition each operation is called; the licence says which
    entries are new and which transactions may be prepared.
  * **`effect_of_change`**: every durable effect of an operation under its guard, in one list.
-/
import Einsatzarchiv.Writer.Finalize

namespace Einsatzarchiv.Writer

open Lib Format

variable [Normalization] [EvidenceSource]

/-! ## 1. Conditions -/

namespace Installation

variable (s : Installation)

/-- The key in the slot opens no draft. -/
def Locked : Prop := ∀ row ∈ s.draft, s.slot ≠ some row.key

/-- The number of a draft that is younger than every draft and claim. -/
structure NewDraftId (draftId : Id16) : Prop where
  drawn : draftId < s.draws
  draft : ∀ row ∈ s.draft, row.draftId < draftId
  claims : ∀ claim ∈ s.claims, claim.draftId < draftId

/-- The draft is open, and the claim is one of its own. -/
def MayRelease (source : ClaimSource) : Prop :=
  ∃ row ∈ s.draft, s.slot = some row.key
    ∧ ∀ claim ∈ s.claims, claim.source = source → claim.draftId = row.draftId

/-- Every object of the transaction stands under its name. -/
def Holds (pairs : List (ArchivePath × Bytes)) : Prop :=
  ∀ pair ∈ pairs, s.files.read pair.1 = some pair.2

/-- A staged object of the prepared transaction takes its name once the draft is locked, the entry
after the grants. -/
def MayPublish (source target : ArchivePath) : Prop :=
  ∃ transaction ∈ s.marker, ¬ s.Opens ∧ source = stagingPath target
    ∧ ((∃ bytes, (target, bytes) ∈ transaction.grantPairs)
      ∨ target = transaction.entryPath ∧ s.Holds transaction.grantPairs)

end Installation

/-- The entry hash in the name of a file. -/
def Target.entryHash? : Target → Option EntryHash
  | .entry _ entryHash | .grant entryHash _ => some entryHash
  | .other _ => none

/-- What a call vouches for: the entries that are new, the transactions that are prepared, those
for which the key of the draft is deleted, and whether a discard may be booked. -/
structure Licence where
  New : Installation → EntryHash → Prop
  Marks : Installation → PreparedTransaction → Prop
  Erases : Installation → PreparedTransaction → Prop
  Books : Prop

/-- A key that opens a draft is deleted for a prepared transaction or for a discard. -/
def MayDeleteKey (licence : Licence) (s : Installation) : Prop :=
  s.Locked ∨ (∃ transaction ∈ s.marker, licence.Erases s transaction)
    ∨ ∃ intent ∈ s.intent, ∃ row ∈ s.draft, row.draftId = intent.draftId

/-- An identity that may be recorded: that of an entry under a claim of its own. -/
structure NewIdentity (s : Installation) (identity : OriginalIdentity) : Prop where
  unmarked : s.marker = none
  claimed : ∃ row ∈ s.draft, s.slot = some row.key ∧ ∃ claim ∈ s.claims,
    claim.source = identity.claim ∧ claim.key = identity.key ∧ claim.draftId = row.draftId
  unreleased : identity.claim ∉ s.released
  single : ∀ other ∈ s.identities, other.claim ≠ identity.claim

/-- The guards of the operations; readings have none. -/
def Guard (licence : Licence) : Port → Installation → Prop
  | .insertBlank draftId dek, s => s.slot = some dek ∧ s.NewDraftId draftId
  | .replaceDraft draftId dek, s => s.slot = some dek ∧ s.NewDraftId draftId ∧ s.Locked
      ∧ ∀ transaction ∈ s.marker, s.Holds transaction.pairs
  | .updateDraft draft dek, s => ∃ row ∈ s.draft, s.slot = some row.key ∧ dek = row.key
      ∧ draft.notes = row.notes
  | .commitDiscardIntent _, s => licence.Books ∧ s.Opens
  | .replacePreparedFinalizationMarker (some transaction), s =>
    s.marker = none ∧ licence.Marks s transaction
  | .replacePreparedFinalizationMarker none, s => s.Opens
  | .claimNumber .., s => s.marker = none ∧ s.Opens
  | .releaseClaim source, s => s.MayRelease source
  | .recordOriginalIdentity identity, s =>
    NewIdentity s identity ∧ licence.New s identity.entryHash
  | .bindPreparedEntry transaction, s => s.marker = none ∧ licence.New s transaction.entryHash
  | .wrapSecret, s => s.Locked
  | .deleteKey, s => MayDeleteKey licence s
  | .createIfAbsent path _, s =>
    (path.staging = true ∧ s.marker = none
        ∧ ∃ hash ∈ path.target.entryHash?, licence.New s hash)
      ∨ (s.files.read path).isSome
  | .atomicRenameSameFs source target, s => s.MayPublish source target
  | _, _ => True

/-! ## 2. The effects -/

/-- What changes, and when. -/
inductive Effect (licence : Licence) (s : Installation) : Installation → Prop
  | idle : Effect licence s s
  | draw : Effect licence s { s with draws := s.draws + 1 }
  /-- Receipts, prepared acknowledgements and confirmed publications. -/
  | book (consumed : List EventId) (stalePrepared : List (EntryHash × EventId))
      (publishedIdentities : List EntryHash) :
      Effect licence s { s with consumed, stalePrepared, publishedIdentities }
  | wrapKey (locked : s.Locked) :
      Effect licence s { s with slot := some s.draws, draws := s.draws + 1 }
  | deleteKey (allowed : MayDeleteKey licence s) : Effect licence s { s with slot := none }
  | insertBlank (draftId : Id16) (dek : Draw) (absent : s.draft = none)
      (slot : s.slot = some dek) (new : s.NewDraftId draftId) :
      Effect licence s { s with draft := some (blankRow draftId dek) }
  | replaceDraft (draftId : Id16) (dek : Draw) (slot : s.slot = some dek)
      (new : s.NewDraftId draftId) (locked : s.Locked)
      (settled : ∀ transaction ∈ s.marker, s.Holds transaction.pairs) :
      Effect licence s { s with draft := some (blankRow draftId dek), transition := none }
  | save (row : DraftRow) (draft : s.draft = some row) (opens : s.slot = some row.key) :
      Effect licence s { s with draft := some { row with revision := row.revision + 1 } }
  | intend (row : DraftRow) (draft : s.draft = some row) (unmarked : s.marker = none)
      (opens : s.slot = some row.key) (allowed : licence.Books) :
      Effect licence s { s with transition := some (.discard ⟨row.draftId, row.revision⟩) }
  | mark (transaction : PreparedTransaction) (unmarked : s.marker = none)
      (allowed : licence.Marks s transaction) :
      Effect licence s { s with transition := some (.finalization transaction) }
  | restore (transaction : PreparedTransaction) (marked : s.marker = some transaction)
      (opens : s.Opens) : Effect licence s { s with transition := none }
  | claim (row : DraftRow) (claim : Claim) (draft : s.draft = some row)
      (opens : s.slot = some row.key) (unmarked : s.marker = none)
      (own : claim.draftId = row.draftId ∧ claim.revision = row.revision)
      (new : ∀ other ∈ s.claims, other.source ≠ claim.source)
      (free : claim.key ∉ s.retained ∧ claim.key ∉ s.register) :
      Effect licence s { s with register := claim.key :: s.register, claims := s.claims ++ [claim] }
  | release (claim : Claim) (known : claim ∈ s.claims) (held : claim.source ∉ s.released)
      (allowed : s.MayRelease claim.source) :
      Effect licence s { s with
        register := s.register.filter (· ≠ claim.key)
        released := claim.source :: s.released }
  | identify (identity : OriginalIdentity) (own : NewIdentity s identity)
      (new : licence.New s identity.entryHash)
      (key : ∀ other ∈ s.identities, other.entryHash ≠ identity.entryHash) :
      Effect licence s { s with identities := s.identities ++ [identity] }
  | bindEvidence (transaction : PreparedTransaction) (unmarked : s.marker = none)
      (new : licence.New s transaction.entryHash)
      (accepted : EvidenceRules.accepts transaction.entryBytes = true)
      (absent : ∀ row ∈ s.evidence, row.1 ≠ transaction.entryHash) :
      Effect licence s { s with
        evidence := s.evidence ++ [(transaction.entryHash, transaction.entryObjectHash)] }
  | stage (path : ArchivePath) (bytes : Bytes) (hash : EntryHash) (staging : path.staging = true)
      (unmarked : s.marker = none) (name : path.target.entryHash? = some hash)
      (new : licence.New s hash) (absent : s.files.read path = none) :
      Effect licence s { s with files := s.files ++ [(path, bytes)] }
  | publish (target : ArchivePath) (bytes : Bytes)
      (allowed : s.MayPublish (stagingPath target) target)
      (staged : s.files.read (stagingPath target) = some bytes)
      (absent : s.files.read target = none) :
      Effect licence s { s with
        files := s.files.remove (stagingPath target) ++ [(target, bytes)] }
  | unstage (target : ArchivePath) (bytes : Bytes)
      (allowed : s.MayPublish (stagingPath target) target)
      (staged : s.files.read (stagingPath target) = some bytes)
      (present : s.files.read target = some bytes) :
      Effect licence s { s with files := s.files.remove (stagingPath target) }

/-! ## 3. Every change is an effect -/

section Changes

variable {lic : Licence} {s t : Installation} {pend : ClaimedIncidentNumber}
  {eventId : Option EventId} {source : ClaimSource} {draft : Draft} {ε : Type} {port : Port}

/-- A transaction that fails is idle. -/
theorem effect_commit {x : Except ε Installation} (h : ∀ t, x = .ok t → Effect lic s t) :
    Effect lic s (commit s x).2 := by
  cases x with
  | ok t => exact h t rfl
  | error e => exact .idle

theorem effect_commitWith {α : Type} {x : Except ε (α × Installation)}
    (h : ∀ a t, x = .ok (a, t) → Effect lic s t) : Effect lic s (commitWith s x).2 := by
  cases x with
  | ok pair => exact h pair.1 pair.2 rfl
  | error e => exact .idle

theorem effect_updateDraft {dek : Draw} (h : Guard lic (.updateDraft draft dek) s) :
    Effect lic s (Port.perform (.updateDraft draft dek) s).2 := by
  obtain ⟨row, hr, hs, rfl, hn⟩ := h
  refine effect_commit fun t ht => ?_
  simp only [Installation.updateDraft, Option.mem_def.mp hr] at ht
  split at ht
  · obtain rfl := Except.ok.inj ht
    rw [hn]
    exact .save row hr hs
  · cases ht

theorem effect_commitDiscardIntent {saved : SavedDraft} (h : lic.Books ∧ s.Opens) :
    Effect lic s (Port.perform (.commitDiscardIntent saved) s).2 := by
  refine effect_commitWith fun intent t ht => ?_
  unfold Installation.commitDiscardIntent at ht
  split at ht
  · cases ht
  · rename_i row hr
    split at ht
    · cases ht
    · split at ht
      · cases ht
      · rename_i hm
        obtain ⟨-, rfl⟩ := Prod.mk.inj (Except.ok.inj ht)
        rw [Bool.not_eq_true, Option.isSome_eq_false_iff, Option.isNone_iff_eq_none] at hm
        exact .intend row hr hm (h.2 row hr) h.1

theorem effect_replaceMarker {marker : Option PreparedTransaction}
    (h : Guard lic (.replacePreparedFinalizationMarker marker) s) :
    Effect lic s (Port.perform (.replacePreparedFinalizationMarker marker) s).2 := by
  cases marker with
  | some tx => exact .mark tx h.1 h.2
  | none =>
    change Effect lic s (if s.marker.isSome then { s with transition := none } else s)
    split
    · rename_i hm
      obtain ⟨tx, hmk⟩ := Option.isSome_iff_exists.mp hm
      exact .restore tx hmk h
    · exact .idle

omit [EvidenceSource] in
/-- A claim that is granted: for the draft as it stands, under a new source, on a free number. -/
theorem claimNumber_eq_ok (h : s.claimNumber eventId draft pend = .ok (source, t)) :
    ∃ row claim, s.draft = some row ∧ claim.source = source
      ∧ claim.key = registerKey pend.organizationId pend.localCivilYear pend.humanIncidentNumber
      ∧ (claim.draftId = row.draftId ∧ claim.revision = row.revision)
      ∧ source ∉ s.claims.map (·.source)
      ∧ (claim.key ∉ s.retained ∧ claim.key ∉ s.register)
      ∧ t = { s with register := claim.key :: s.register, claims := s.claims ++ [claim] } := by
  unfold Installation.claimNumber at h
  split at h
  · cases h
  · rename_i row hr
    split at h
    · cases h
    · rename_i hs
      split at h
      · cases h
      · rename_i u hc
        split at h
        · cases h
        · rename_i hn
          obtain ⟨rfl, rfl⟩ := Prod.mk.inj (Except.ok.inj h)
          simp only [claimIn] at hc
          split at hc
          · cases hc
          · rename_i hf
            obtain rfl := Except.ok.inj hc
            rw [not_or, not_not, not_not] at hs
            rw [not_or] at hn hf
            exact ⟨row, _, hr, rfl, rfl, ⟨hs.1.symm, hs.2.symm⟩, by simpa using hn.1, hf, rfl⟩

theorem effect_claimNumber (h : s.marker = none ∧ s.Opens) :
    Effect lic s (Port.perform (.claimNumber eventId draft pend) s).2 := by
  refine effect_commitWith fun source t ht => ?_
  obtain ⟨row, claim, hr, rfl, -, how, hn, hf, rfl⟩ := claimNumber_eq_ok ht
  refine .claim row claim hr (h.2 row hr) h.1 how (fun other ho heq => hn ?_) hf
  exact List.mem_map.mpr ⟨other, ho, heq⟩

theorem effect_releaseClaim (h : s.MayRelease source) :
    Effect lic s (Port.perform (.releaseClaim source) s).2 := by
  change Effect lic s (releaseIn s source)
  unfold releaseIn
  split
  · rename_i claim hf
    have hs : claim.source = source := by simpa using List.find?_some hf
    split
    · exact .idle
    · rename_i hh
      rw [← hs] at hh h ⊢
      exact .release claim (List.mem_of_find?_eq_some hf) hh h
  · exact .idle

theorem effect_recordOriginalIdentity {ident : OriginalIdentity}
    (h : Guard lic (.recordOriginalIdentity ident) s) :
    Effect lic s (Port.perform (.recordOriginalIdentity ident) s).2 := by
  refine effect_commit fun t ht => ?_
  simp only [Installation.recordOriginalIdentity] at ht
  split at ht
  · cases ht
  · split at ht
    · cases ht
    · rename_i hk
      obtain rfl := Except.ok.inj ht
      simp only [List.any_eq_true, decide_eq_true_eq, not_exists, not_and] at hk
      exact .identify ident h.1 h.2 hk

theorem effect_bindPreparedEntry {tx : PreparedTransaction}
    (h : s.marker = none ∧ lic.New s tx.entryHash) :
    Effect lic s (Port.perform (.bindPreparedEntry tx) s).2 := by
  refine effect_commit fun t ht => ?_
  simp only [Installation.bindPreparedEntry] at ht
  split at ht
  · cases ht
  · rename_i ha
    split at ht
    · split at ht
      · obtain rfl := Except.ok.inj ht
        exact .idle
      · cases ht
    · rename_i hn
      obtain rfl := Except.ok.inj ht
      simp only [List.find?_eq_none, decide_eq_true_eq] at hn
      exact .bindEvidence tx h.1 h.2 (by simpa using ha) hn

theorem effect_createIfAbsent {path : ArchivePath} {bytes : Bytes}
    (h : Guard lic (.createIfAbsent path bytes) s) :
    Effect lic s (Port.perform (.createIfAbsent path bytes) s).2 := by
  refine effect_commit fun t ht => ?_
  obtain ⟨_, hf, rfl⟩ := map_eq_ok.mp ht
  rcases createIfAbsent_eq_ok.mp hf with ⟨-, rfl⟩ | ⟨hn, rfl⟩
  · exact .idle
  · rcases h with ⟨hst, hu, hash, hna, hne⟩ | hs
    · exact .stage path bytes hash hst hu hna hne hn
    · simp [hn] at hs

theorem effect_atomicRenameSameFs {source target : ArchivePath} (h : s.MayPublish source target) :
    Effect lic s (Port.perform (.atomicRenameSameFs source target) s).2 := by
  obtain rfl : source = stagingPath target := by
    obtain ⟨_, _, _, hs, _⟩ := h
    exact hs
  refine effect_commit fun t ht => ?_
  obtain ⟨_, hf, rfl⟩ := map_eq_ok.mp ht
  obtain ⟨staged, hst, ⟨hp, rfl⟩ | ⟨ha, rfl⟩⟩ := atomicRenameSameFs_eq_ok.mp hf
  · exact .unstage target staged h hst hp
  · exact .publish target staged h hst ha

/-- The receipts and confirmations. -/
theorem effect_book (h : (∃ event, port = .consume event)
    ∨ (∃ eventId hash, port = .recordPreparedClaim eventId hash)
    ∨ ∃ tx, port = .confirmOriginalPublication tx) :
    Effect lic s (port.perform s).2 := by
  rcases h with ⟨event, rfl⟩ | ⟨eventId, hash, rfl⟩ | ⟨tx, rfl⟩
  all_goals refine effect_commit fun t ht => ?_
  · simp only [Installation.consume] at ht
    split at ht
    · obtain rfl := Except.ok.inj ht
      exact .book _ _ _
    · cases ht
  · simp only [Installation.recordPreparedClaim] at ht
    split at ht
    · cases ht
    · obtain rfl := Except.ok.inj ht
      exact .book _ _ _
  · simp only [Installation.confirmOriginalPublication] at ht
    split at ht
    · obtain rfl := Except.ok.inj ht
      exact .idle
    · split at ht
      · cases ht
      · split at ht
        · obtain rfl := Except.ok.inj ht
          exact .idle
        · obtain rfl := Except.ok.inj ht
          exact .book _ _ _

theorem effect_of_guard (h : Guard lic port s) : Effect lic s (port.perform s).2 := by
  cases port with
  | insertBlank draftId dek =>
    refine effect_commit fun t ht => ?_
    split at ht
    · cases ht
    · rename_i hn
      obtain rfl := Except.ok.inj ht
      exact .insertBlank draftId dek (by simpa using hn) h.1 h.2
  | replaceDraft draftId dek => exact .replaceDraft draftId dek h.1 h.2.1 h.2.2.1 h.2.2.2
  | updateDraft draft dek => exact effect_updateDraft h
  | commitDiscardIntent _ => exact effect_commitDiscardIntent h
  | replacePreparedFinalizationMarker _ => exact effect_replaceMarker h
  | claimNumber eventId draft _ => exact effect_claimNumber h
  | releaseClaim source => exact effect_releaseClaim h
  | consume event => exact effect_book (.inl ⟨event, rfl⟩)
  | recordPreparedClaim eventId hash => exact effect_book (.inr (.inl ⟨eventId, hash, rfl⟩))
  | confirmOriginalPublication tx => exact effect_book (.inr (.inr ⟨tx, rfl⟩))
  | recordOriginalIdentity _ => exact effect_recordOriginalIdentity h
  | bindPreparedEntry tx => exact effect_bindPreparedEntry h
  | draw => exact .draw
  | wrapSecret => exact .wrapKey h
  | deleteKey => exact .deleteKey h
  | createIfAbsent _ _ => exact effect_createIfAbsent h
  | atomicRenameSameFs source _ => exact effect_atomicRenameSameFs h
  | preparedFinalizationMarker | pendingDiscard | readRow | operatorProfile | containsNumber
  | hasClaimsOfDraft | hasUnreleasedStaleClaims | unreleasedClaims | requireUnused
  | originalIdentity | validatePreparedEvidence | unwrapSecret | containsKey | sign
  | visitBlobs | syncFile | syncDirectory => exact .idle

/-- **Every change under the guards is one of the effects.** -/
theorem effect_of_change (h : ports.Change (Guard lic) s t) : Effect lic s t := by
  cases h with
  | perform _ h => exact effect_of_guard h
  | refuse => exact .idle

end Changes

end Einsatzarchiv.Writer
