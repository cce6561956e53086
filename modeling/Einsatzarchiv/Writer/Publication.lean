/-
  File:      Einsatzarchiv/Writer/Publication.lean
  Subject:   Publication and recovery heed the guards.

  * `PreparedTransaction.Staging`: what is staged under a name of the transaction are its bytes.
  * `does_publishFromPrepared`: the grants take their names, then the entry, then the draft goes.
  * `Orderly`, `Ready`: what every call starts from.
  * `does_recoverPending`: the draft that opens is restored, the one that does not is published.
-/
import Einsatzarchiv.Writer.Calls

namespace Einsatzarchiv.Writer

open Lib Format

variable {lic : Licence} {s t u : Installation} {transaction : PreparedTransaction}
  {target : ArchivePath} {files : Files} {bytes : Bytes} {stale : Bool}

/-! ## 1. Files of a transaction -/

/-- Published files stay. -/
def Files.Grows (files files' : Files) : Prop :=
  ∀ path bytes, path.staging = false → files.read path = some bytes → files'.read path = some bytes

namespace PreparedTransaction

/-- What is staged under a name of the transaction are its bytes. -/
def Staging (transaction : PreparedTransaction) (files : Files) : Prop :=
  ∀ pair ∈ transaction.pairs, ∀ bytes, files.read (stagingPath pair.1) = some bytes → bytes = pair.2

theorem grantPairs_subset : transaction.grantPairs ⊆ transaction.pairs :=
  List.subset_append_left _ _

theorem entryPair_mem : (transaction.entryPath, transaction.entryBytes) ∈ transaction.pairs :=
  List.mem_append_right _ (List.mem_singleton_self _)

variable {pair : ArchivePath × Bytes}

/-- Final names are not staged ones. -/
theorem staging_eq_false (h : pair ∈ transaction.pairs) : pair.1.staging = false := by
  rcases List.mem_append.mp h with h | h
  · obtain ⟨_, -, rfl⟩ := List.mem_map.mp h
    rfl
  · obtain rfl := List.mem_singleton.mp h
    rfl

/-- All paths of a transaction belong to its entry. -/
theorem entryHash?_eq (h : pair ∈ transaction.pairs) :
    pair.1.target.entryHash? = some transaction.entryHash := by
  rcases List.mem_append.mp h with h | h
  · obtain ⟨_, -, rfl⟩ := List.mem_map.mp h
    rfl
  · obtain rfl := List.mem_singleton.mp h
    rfl

end PreparedTransaction

/-- What stands where after a staged file has taken its name, or was found to stand there. -/
theorem read_of_rename {files' : Files} (ht : target.staging = false)
    (h : atomicRenameSameFs files (stagingPath target) target = .ok files') :
    ∃ staged, files.read (stagingPath target) = some staged
      ∧ (files.read target = none ∨ files.read target = some staged)
      ∧ ∀ path, files'.read path = if path = stagingPath target then none
        else if path = target then some staged else files.read path := by
  have hne : target ≠ stagingPath target := fun heq => by
    have : target.staging = true := by rw [heq]; rfl
    rw [ht] at this
    cases this
  obtain ⟨staged, hs, ⟨hpr, rfl⟩ | ⟨ha, rfl⟩⟩ := atomicRenameSameFs_eq_ok.mp h
  · refine ⟨staged, hs, .inr hpr, fun path => ?_⟩
    rw [Files.read_remove]
    by_cases hp : path = target
    · rw [hp, if_neg hne, if_neg hne, if_pos rfl, hpr]
    · simp only [if_neg hp]
  · refine ⟨staged, hs, .inl ha, fun path => ?_⟩
    have hn : (files.remove (stagingPath target)).read target = none := by
      rw [Files.read_remove, if_neg hne, ha]
    rw [Files.read_append_singleton hn, Files.read_remove]
    by_cases hp : path = target
    · rw [hp, if_pos rfl, if_neg hne, if_pos rfl]
    · simp only [if_neg hp]

/-! ## 2. Publication -/

/-- Only files have moved: published ones stay, and nothing else was staged. -/
structure Advance (transaction : PreparedTransaction) (s t : Installation) : Prop where
  eq : t = { s with files := t.files }
  staging : transaction.Staging t.files
  grows : Files.Grows s.files t.files

namespace Advance

theorem refl (h : transaction.Staging s.files) : Advance transaction s s :=
  ⟨rfl, h, fun _ _ _ hr => hr⟩

section

variable (h : Advance transaction s t)
include h

theorem trans (h' : Advance transaction t u) : Advance transaction s u :=
  ⟨h'.eq.trans (by rw [h.eq]), h'.staging, fun path bytes hp hr =>
    h'.grows path bytes hp (h.grows path bytes hp hr)⟩

/-- The marker stays. -/
theorem marker : t.marker = s.marker := by rw [h.eq]; rfl

/-- The draft opens as before. -/
theorem opens_iff : t.Opens ↔ s.Opens := by rw [h.eq]; rfl

/-- The draft stays with its key. -/
theorem keyed (hk : Keyed s) : Keyed t := by
  rw [h.eq]
  exact ⟨hk.slot, hk.draft, hk.claims, hk.own⟩

/-- What was published stays. -/
theorem holds {pairs : List (ArchivePath × Bytes)} (hpa : pairs ⊆ transaction.pairs)
    (hh : s.Holds pairs) : t.Holds pairs :=
  fun pair hp => h.grows pair.1 pair.2 (PreparedTransaction.staging_eq_false (hpa hp)) (hh pair hp)

end

end Advance

/-- The rename of a staged object of the transaction. -/
theorem advance_rename (hst : transaction.Staging s.files)
    (hp : (target, bytes) ∈ transaction.pairs)
    (h : atomicRenameSameFs s.files (stagingPath target) target = .ok files) :
    Advance transaction s { s with files } ∧ files.read target = some bytes := by
  have ht : target.staging = false := PreparedTransaction.staging_eq_false hp
  obtain ⟨staged, hsg, hb, hr⟩ := read_of_rename ht h
  obtain rfl : staged = bytes := hst _ hp staged hsg
  have hne : target ≠ stagingPath target := fun heq => by
    rw [heq] at ht
    cases ht
  refine ⟨⟨rfl, fun pair hm other ho => ?_, fun path other hpa ho => ?_⟩, ?_⟩
  · rw [hr] at ho
    split at ho
    · cases ho
    · split at ho
      · rename_i heq
        rw [← heq] at ht
        cases ht
      · exact hst pair hm other ho
  · rw [hr]
    split
    · rename_i heq
      rw [heq] at hpa
      cases hpa
    · split
      · rename_i heq
        rw [heq] at ho
        rcases hb with hn | hs
        · rw [hn] at ho
          cases ho
        · rw [← hs, ho]
      · exact ho
  · rw [hr, if_neg hne, if_pos rfl]

section Publish

variable [Crypto] [Normalization] [EvidenceSource]

section

omit [Crypto]

variable {path : ArchivePath}

theorem does_syncFile : Does lic (syncFile path) (fun _ t => t = s) (fun _ t => t = s) s := by
  exact .transact_bind rfl trivial rfl rfl

theorem does_syncDirectory :
    Does lic (syncDirectory path) (fun _ t => t = s) (fun _ t => t = s) s := by
  exact .transact_bind rfl trivial rfl rfl

theorem does_visitBlobs :
    Does lic visitBlobs (fun files t => t = s ∧ files = s.files) (fun _ t => t = s) s := by
  exact .transact_bind rfl trivial ⟨rfl, rfl⟩ rfl

/-- The object stands under its name, whether the rename was carried out now or before. -/
theorem does_publishObject (hst : transaction.Staging s.files)
    (hp : (target, bytes) ∈ transaction.pairs)
    (hm : s.MayPublish (stagingPath target) target) :
    Yields lic (publishObject target bytes)
      (fun _ t => Advance transaction s t ∧ t.files.read target = some bytes) s := by
  have hsy : ∀ u, Advance transaction s u → u.files.read target = some bytes →
      Yields lic (syncFile target)
        (fun _ t => Advance transaction s t ∧ t.files.read target = some bytes) u := by
    intro u hu hr
    refine does_syncFile.imp ?_ (fun _ _ _ => trivial)
    rintro - t rfl
    exact ⟨hu, hr⟩
  -- without a rename that reports success, what stands there is compared
  have hc : ∀ (error : ArchiveBackendError) u, Advance transaction s u → Yields lic (do
      let files ← visitBlobs
      Program.ofExcept (ensure (files.read target).isSome (.backend error))
      let created ← call (.createIfAbsent target bytes)
      Program.ofExcept (created.mapError .backend)
      syncFile target)
      (fun _ t => Advance transaction s t ∧ t.files.read target = some bytes) u := by
    intro error u hu
    refine does_visitBlobs.yields.bind ?_
    rintro files t ⟨rfl, rfl⟩
    refine .ofExcept_bind fun _ hpr => ?_
    have hso : (t.files.read target).isSome := ensure_eq_ok.mp hpr
    obtain ⟨old, he⟩ := Option.isSome_iff_exists.mp hso
    refine .call_bind (.inr hso) ?_ ?_ ?_
    · by_cases hb : old = bytes
      · have hs : (Port.createIfAbsent target bytes).perform t = (.ok (), t) := by
          simp [Port.perform, commit, createIfAbsent, he, hb, Except.map]
        rw [hs]
        exact hsy t hu (he.trans (congrArg some hb))
      · have hco : (Port.createIfAbsent target bytes).perform t = (.error .byteConflict, t) := by
          simp [Port.perform, commit, createIfAbsent, he, hb, Except.map]
        rw [hco]
        exact trivial
    · rintro _ ⟨⟩
      exact trivial
    · rintro _ ⟨⟩ -
      exact trivial
  have hre := Advance.refl hst
  cases hrn : atomicRenameSameFs s.files (stagingPath target) target with
  | ok files =>
    obtain ⟨ha, hr⟩ := advance_rename hst hp hrn
    have hpe : (Port.atomicRenameSameFs (stagingPath target) target).perform s
        = (.ok (), { s with files }) := by
      simp [Port.perform, commit, hrn, Except.map]
    refine .call_bind hm ?_ ?_ ?_
    · rw [hpe]
      exact hsy _ ha hr
    · rintro _ ⟨⟩
      exact hc _ s hre
    · rintro _ ⟨⟩ -
      rw [hpe]
      exact hc _ _ ha
  | error error =>
    have hpe : (Port.atomicRenameSameFs (stagingPath target) target).perform s
        = (.error error, s) := by
      simp [Port.perform, commit, hrn, Except.map]
    refine .call_bind hm ?_ ?_ ?_
    · rw [hpe]
      exact hc _ s hre
    · rintro _ ⟨⟩
      exact hc _ s hre
    · rintro _ ⟨⟩ -
      rw [hpe]
      exact hc _ s hre

end

/-- The grants, one after the other. -/
theorem does_publishGrants (pairs : List (ArchivePath × Bytes))
    (hpa : pairs ⊆ transaction.grantPairs) (hm : s.marker = some transaction)
    (hc : ¬ s.Opens) (hs : transaction.Staging s.files) :
    Yields lic (publishGrants pairs) (fun _ t => Advance transaction s t ∧ t.Holds pairs) s := by
  induction pairs generalizing s with
  | nil => exact ⟨.refl hs, fun pair hp => (nomatch hp)⟩
  | cons pair pairs ih =>
    obtain ⟨hp, hre⟩ := List.cons_subset.mp hpa
    refine .ofExcept_bind fun _ _ => ?_
    refine (does_publishObject hs (PreparedTransaction.grantPairs_subset hp)
      ⟨transaction, hm, hc, rfl, .inl ⟨pair.2, hp⟩⟩).bind ?_
    rintro - t ⟨ha, hr⟩
    refine (ih hre (ha.marker.trans hm) (mt ha.opens_iff.mp hc) ha.staging).imp ?_
    rintro - u ⟨hadvance', hh⟩
    refine ⟨ha.trans hadvance', fun other ho => ?_⟩
    rcases List.mem_cons.mp ho with rfl | ho
    · exact hadvance'.grows _ _ (PreparedTransaction.staging_eq_false
        (PreparedTransaction.grantPairs_subset hp)) hr
    · exact hh other ho

omit [Crypto] in
/-- The confirmation of the identity moves nothing else. -/
theorem perform_confirmOriginalPublication :
    ((Port.confirmOriginalPublication transaction).perform s).2 = { s with
      publishedIdentities :=
        ((Port.confirmOriginalPublication transaction).perform s).2.publishedIdentities } := by
  simp only [Port.perform, Installation.confirmOriginalPublication]
  split
  · rfl
  · split
    · rfl
    · split <;> rfl

/-- A blank draft has replaced the one whose objects are all published. -/
def Renewed (transaction : PreparedTransaction) (t : Installation) : Prop :=
  ∃ before, Keyed before ∧ before.Holds transaction.pairs
    ∧ t = { withBlank before with transition := none }

/-- **Steps 10 to 13 heed the guards**, and end with everything published. -/
theorem does_publishFromPrepared (hk : Keyed s) (hm : s.marker = some transaction)
    (hco : ¬ s.Opens) (hst : transaction.Staging s.files) :
    Yields lic (publishFromPrepared transaction) (fun _ t => Renewed transaction t) s := by
  have hev : Yields lic (validatePreparedEvidence false transaction) (fun _ t => t = s) s := by
    exact .transact_bind rfl trivial (.ofExcept fun _ _ => rfl) trivial
  refine hev.bind ?_
  rintro - t rfl
  refine (does_publishGrants transaction.grantPairs (List.Subset.refl _) hm hco hst).bind ?_
  rintro - u ⟨ha, hg⟩
  -- the directory of the grants, then the entry
  have he : Yields lic (do
      Program.ofExcept (isEntry transaction.entryBytes)
      publishObject transaction.entryPath transaction.entryBytes
      syncDirectory transaction.entryPath
      let confirmed ← call (.confirmOriginalPublication transaction)
      Program.ofExcept confirmed
      let _ ← replaceWithBlank.mapError .draft
      return (⟨transaction.sequence, transaction.entryHash, transaction.entryObjectHash⟩ :
        FinalizeOutcome)) (fun _ t => Renewed transaction t) u := by
    refine .ofExcept_bind fun _ _ => ?_
    refine (does_publishObject ha.staging PreparedTransaction.entryPair_mem
      ⟨transaction, ha.marker.trans hm, mt ha.opens_iff.mp hco, rfl, .inr ⟨rfl, hg⟩⟩).bind ?_
    rintro - v ⟨hadvance', hr⟩
    have hal := ha.trans hadvance'
    refine does_syncDirectory.yields.bind ?_
    rintro - v rfl
    have hh : v.Holds transaction.pairs :=
      forall_mem_concat (hadvance'.holds PreparedTransaction.grantPairs_subset hg) hr
    refine .transact_bind rfl trivial ?_ trivial
    refine .ofExcept_bind fun _ hc => ?_
    -- the draft is locked, and all that was prepared stands under its name
    rw [perform_confirmOriginalPublication]
    generalize ((Port.confirmOriginalPublication transaction).perform v).2.publishedIdentities
      = identities
    have hkeyed' : Keyed { v with publishedIdentities := identities } := by
      obtain ⟨hs, hd, hcl, ho⟩ := hal.keyed hk
      exact ⟨hs, hd, hcl, ho⟩
    have hl := Installation.locked_of_not_opens (mt hal.opens_iff.mp hco)
    have hmk : ∀ prepared ∈ v.marker, v.Holds prepared.pairs := by
      intro prepared hpr
      obtain rfl : transaction = prepared := Option.some.inj ((hal.marker.trans hm).symm.trans hpr)
      exact hh
    have hrp : Yields lic (replaceWithBlank.mapError WriterError.draft) _ _ :=
      Does.mapError (does_replaceWithBlank hkeyed' hl hmk) fun _ _ _ => trivial
    exact hrp.bind (fun _ t ht => ⟨_, hkeyed', hh, ht.2⟩)
  cases hp : transaction.grantPairs with
  | nil => exact he
  | cons _ _ =>
    refine does_syncDirectory.yields.bind ?_
    rintro - v rfl
    exact he

end Publish

/-! ## 3. Claims of an open draft -/

/-- The tables fit together: claims have their own sources, and identities and releases belong to
claims. -/
structure Orderly (s : Installation) : Prop where
  keyed : Keyed s
  single : (s.claims.map (·.source)).Nodup
  owned : ∀ identity ∈ s.identities, identity.claim ∈ s.claims.map (·.source)
  known : ∀ source ∈ s.released, source ∈ s.claims.map (·.source)

/-- What every call starts from: also, what is staged for a marker are its bytes. -/
structure Ready (s : Installation) : Prop extends Orderly s where
  staged : ∀ transaction ∈ s.marker, transaction.Staging s.files

/-- Claims were released. -/
structure Releases (s t : Installation) : Prop where
  eq : t = { s with register := t.register, released := t.released }
  grows : s.released ⊆ t.released

theorem Releases.trans (h : Releases s t) (h' : Releases t u) : Releases s u :=
  ⟨h'.eq.trans (by rw [h.eq]), fun _ hs => h'.grows (h.grows hs)⟩

/-- A release does not touch the draft. -/
theorem Releases.keyed (h : Releases s t) (hk : Keyed s) : Keyed t := by
  rw [h.eq]
  exact ⟨hk.slot, hk.draft, hk.claims, hk.own⟩

/-- The claims of the draft in one of the journals are released. -/
def Cleared (stale : Bool) (s : Installation) : Prop :=
  ∀ row ∈ s.draft, ∀ claim ∈ s.claims, claim.source.isStale = stale →
    claim.draftId = row.draftId → claim.source ∈ s.released

/-- What is released stays released. -/
theorem Cleared.of_releases (h : Cleared stale s) (hre : Releases s t) : Cleared stale t := by
  intro row hr claim hc hs hd
  refine hre.grows (h row ?_ claim ?_ hs hd)
  · rw [hre.eq] at hr
    exact hr
  · rw [hre.eq] at hc
    exact hc

/-- Claims were released, after a draft was created if there was none. -/
def Freed (s t : Installation) : Prop :=
  ∃ before, (before = s ∨ s.draft = none ∧ before = withBlank s) ∧ Releases before t

/-- With a draft there is nothing to create. -/
theorem Freed.of_some {row : DraftRow} (h : Freed s t) (hr : s.draft = some row) :
    Releases s t := by
  obtain ⟨_, rfl | ⟨hn, -⟩, ht⟩ := h
  · exact ht
  · rw [hr] at hn
    cases hn

theorem Freed.keyed (h : Freed s t) (hk : Keyed s) : Keyed t := by
  obtain ⟨before, hb, ht⟩ := h
  have hkeyed' : Keyed before := by
    rcases hb with rfl | ⟨-, rfl⟩
    · exact hk
    · exact keyed_withBlank hk
  exact ht.keyed hkeyed'

/-- No claim is lost. -/
theorem Freed.claims (h : Freed s t) : t.claims = s.claims := by
  obtain ⟨_, hb, ht⟩ := h
  rw [ht.eq]
  rcases hb with rfl | ⟨-, rfl⟩ <;> rfl

/-- A draft that was created meanwhile has no claims. -/
theorem Cleared.of_freed (h : Cleared stale s) (hk : Keyed s) (hf : Freed s t) :
    Cleared stale t := by
  obtain ⟨_, hb, hr⟩ := hf
  refine Cleared.of_releases ?_ hr
  rcases hb with rfl | ⟨-, rfl⟩
  · exact h
  · rintro _ ⟨⟩ claim hc - hd
    exact absurd hd (hk.claims claim hc).ne

/-- No marker stands, the draft opens, and all its claims are released. -/
structure Tidy (s : Installation) : Prop where
  unmarked : s.marker = none
  opens : s.Opens
  original : Cleared false s
  stale : Cleared true s

/-- Nothing was published, and the draft is the one that stood there. -/
structure Undone (s t : Installation) : Prop where
  files : t.files = s.files
  draft : ∀ row ∈ s.draft, t.draft = some row

theorem Undone.refl (s : Installation) : Undone s s := ⟨rfl, fun _ h => h⟩

theorem Undone.trans (h : Undone s t) (h' : Undone t u) : Undone s u :=
  ⟨h'.files.trans h.files, fun row hr => h'.draft row (h.draft row hr)⟩

/-- A blank draft undoes nothing. -/
theorem undone_withBlank (h : s.draft = none) : Undone s (withBlank s) :=
  ⟨rfl, fun row hr => by rw [h] at hr; cases hr⟩

/-- A release is within what a recovery may undo. -/
theorem Releases.undone (h : Releases s t) : Undone s t := by
  rw [h.eq]
  exact ⟨rfl, fun _ hr => hr⟩

theorem Freed.undone (h : Freed s t) : Undone s t := by
  obtain ⟨_, rfl | ⟨hn, rfl⟩, hr⟩ := h
  · exact hr.undone
  · exact (undone_withBlank hn).trans hr.undone

theorem Loaded.undone {draft : Draft} (h : Loaded s draft t) : Undone s t := by
  rcases h.eq with rfl | ⟨hn, rfl⟩
  · exact .refl _
  · exact undone_withBlank hn

theorem Releases.opens (h : Releases s t) (ho : s.Opens) : t.Opens := by
  rw [h.eq]
  exact ho

theorem Freed.opens (h : Freed s t) (ho : s.Opens) : t.Opens := by
  obtain ⟨_, rfl | ⟨-, rfl⟩, hr⟩ := h
  · exact hr.opens ho
  · refine hr.opens ?_
    rintro _ ⟨⟩
    rfl

theorem Freed.marker (h : Freed s t) : t.marker = s.marker := by
  obtain ⟨_, hb, hr⟩ := h
  rw [hr.eq]
  rcases hb with rfl | ⟨-, rfl⟩ <;> rfl

/-- A blank draft opens, and no claim is its own. -/
theorem Renewed.tidy (h : Renewed transaction t) : Tidy t := by
  obtain ⟨before, hk, -, rfl⟩ := h
  have hcl : ∀ stale, Cleared stale { withBlank before with transition := none } := by
    rintro stale row ⟨⟩ claim hc - hd
    exact absurd hd (hk.claims claim hc).ne
  refine ⟨rfl, ?_, hcl false, hcl true⟩
  rintro row ⟨⟩
  rfl

/-- After a recovery everything of the transaction is published. -/
theorem Renewed.holds (h : Renewed transaction t) : t.Holds transaction.pairs := by
  obtain ⟨_, -, hh, rfl⟩ := h
  exact hh

section Recover

variable [Normalization] [EvidenceSource] {source : ClaimSource}

section

omit [EvidenceSource]

theorem releaseIn_eq (source : ClaimSource) : releaseIn s source = { s with
    register := (releaseIn s source).register, released := (releaseIn s source).released } := by
  unfold releaseIn
  split
  · split <;> rfl
  · rfl

/-- One claim is released. -/
theorem releases_releaseIn (source : ClaimSource) : Releases s (releaseIn s source) := by
  refine ⟨releaseIn_eq source, fun other ho => ?_⟩
  unfold releaseIn
  split
  · split
    · exact ho
    · exact List.mem_cons_of_mem _ ho
  · exact ho

/-- And is known as released. -/
theorem mem_released_releaseIn (h : source ∈ s.claims.map (·.source)) :
    source ∈ (releaseIn s source).released := by
  unfold releaseIn
  split
  · split
    · assumption
    · exact List.mem_cons_self
  · rename_i hn
    obtain ⟨claim, hc, rfl⟩ := List.mem_map.mp h
    exact absurd (List.find?_eq_none.mp hn claim hc) (by simp)

end

/-- All of them are, one by one. -/
theorem does_releaseAll (srcs : List ClaimSource) (h : ∀ source ∈ srcs, s.MayRelease source)
    (hk : ∀ source ∈ srcs, source ∈ s.claims.map (·.source)) :
    Yields lic (releaseAll srcs)
      (fun _ t => Releases s t ∧ ∀ source ∈ srcs, source ∈ t.released) s := by
  induction srcs generalizing s with
  | nil => exact ⟨⟨rfl, List.Subset.refl _⟩, fun _ h => (nomatch h)⟩
  | cons source srcs ih =>
    refine .transact_bind rfl (h source List.mem_cons_self) ?_ trivial
    have hf := releaseIn_eq (s := s) source
    refine (ih (s := releaseIn s source) (fun other ho => ?_) fun other ho => ?_).imp ?_
    · have hm := h other (List.mem_cons_of_mem _ ho)
      rw [hf]
      exact hm
    · rw [hf]
      exact hk other (List.mem_cons_of_mem _ ho)
    · rintro - t ⟨hr, ha⟩
      refine ⟨(releases_releaseIn source).trans hr, List.forall_mem_cons.mpr ⟨?_, ha⟩⟩
      exact hr.grows (mem_released_releaseIn (hk source List.mem_cons_self))

variable {row : DraftRow}

omit [Normalization] [EvidenceSource] in
/-- An open draft may release its own claims. -/
theorem mayRelease_of_mem (hsi : (s.claims.map (·.source)).Nodup) (hr : s.draft = some row)
    (hs : s.slot = some row.key)
    (h : source ∈ unreleasedClaims s stale row.draftId row.revision) : s.MayRelease source := by
  obtain ⟨claim, hc, rfl⟩ := List.mem_map.mp h
  rw [List.mem_filter, decide_eq_true_eq] at hc
  refine ⟨row, hr, hs, fun other ho heq => ?_⟩
  obtain rfl : other = claim := List.inj_on_of_nodup_map hsi ho hc.1 heq
  exact hc.2.2.1

omit [Normalization] [EvidenceSource] in
/-- Every claim of the draft lies below its revision, so none is left out. -/
theorem cleared_of_unreleasedClaims (hk : Keyed s) (hr : s.draft = some row) (hrl : Releases s t)
    (h : ∀ source ∈ unreleasedClaims s stale row.draftId row.revision, source ∈ t.released) :
    Cleared stale t := by
  intro row' hr' claim hc hs hd
  rw [hrl.eq] at hr' hc
  obtain rfl : row = row' := Option.some.inj (hr.symm.trans hr')
  by_cases hre : claim.source ∈ s.released
  · exact hrl.grows hre
  · refine h claim.source (List.mem_map.mpr ⟨claim, List.mem_filter.mpr ⟨hc, ?_⟩, rfl⟩)
    rw [decide_eq_true_eq]
    exact ⟨hs, hd, (hk.own row hr claim hc).2 hd, hre⟩

/-- The claims of the draft are. -/
theorem does_releaseClaimsOf (hk : Keyed s) (hsi : (s.claims.map (·.source)).Nodup)
    (hr : s.draft = some row) (hs : s.slot = some row.key) :
    Yields lic (releaseClaimsOf stale row.opened)
      (fun _ t => Releases s t ∧ Cleared stale t) s := by
  refine .transact_bind rfl trivial ?_ trivial
  refine (does_releaseAll _ (fun source hsr => mayRelease_of_mem hsi hr hs hsr)
    fun source hsr => ?_).imp ?_
  · obtain ⟨claim, hc, rfl⟩ := List.mem_map.mp hsr
    exact List.mem_map.mpr ⟨claim, (List.mem_filter.mp hc).1, rfl⟩
  · rintro - t ⟨hre, ha⟩
    exact ⟨hre, cleared_of_unreleasedClaims hk hr hre ha⟩

/-- The draft is opened, then its claims are released. -/
theorem does_load_release (hre : Keyed s) (hsi : (s.claims.map (·.source)).Nodup) : Yields lic (do
      let draft ← loadOrCreate.mapError WriterError.draft
      releaseClaimsOf stale draft) (fun _ t => Freed s t ∧ Cleared stale t) s := by
  have hl : Yields lic (loadOrCreate.mapError WriterError.draft) (Loaded s) s :=
    (does_loadOrCreate hre).yields.mapError
  refine hl.bind ?_
  intro draft t hlo
  obtain ⟨_, hr, hs, rfl⟩ := hlo.opened
  have hc : t.claims = s.claims := by
    rw [hlo.frame.1]
  refine (does_releaseClaimsOf (hlo.keyed hre) (hc ▸ hsi) hr hs).imp ?_
  exact fun _ u hu => ⟨⟨t, hlo.eq, hu.1⟩, hu.2⟩

omit [Normalization] [EvidenceSource] in
/-- No claim of the draft is left. -/
theorem cleared_of_hasClaimsOfDraft (hk : Keyed s) (h : s.hasClaimsOfDraft = false) :
    Cleared false s := by
  intro row hr
  have he : unreleasedClaims s false row.draftId row.revision = [] := by
    simpa [Installation.hasClaimsOfDraft, Option.mem_def.mp hr] using h
  refine cleared_of_unreleasedClaims hk hr ⟨rfl, List.Subset.refl _⟩ ?_ row hr
  rw [he]
  exact fun _ h => (nomatch h)

/-- The claims of an unpublished draft are released. -/
theorem does_recoverOriginalClaims (hk : Keyed s) (hs : (s.claims.map (·.source)).Nodup) :
    Yields lic recoverOriginalClaims (fun _ t => Freed s t ∧ Cleared false t) s := by
  refine .transact_bind rfl trivial ?_ trivial
  refine .ofExcept_bind fun pend hp => ?_
  cases pend with
  | true => exact does_load_release hk hs
  | false =>
    exact ⟨⟨s, .inl rfl, rfl, List.Subset.refl _⟩,
      cleared_of_hasClaimsOfDraft hk (Except.ok.inj hp)⟩

omit [Normalization] [EvidenceSource] in
theorem cleared_of_hasUnreleasedStaleClaims (h : s.hasUnreleasedStaleClaims = false) :
    Cleared true s := by
  intro _ _ claim hc hs _
  simp only [Installation.hasUnreleasedStaleClaims, List.any_eq_false, Bool.and_eq_true,
    Bool.not_eq_true', List.contains_eq_mem, decide_eq_false_iff_not, not_and, not_not] at h
  exact h claim hc hs

/-- Without a marker: the claims of the draft in both journals are released. -/
theorem does_recoverUnmarkedStaleClaims (hk : Keyed s) (hs : (s.claims.map (·.source)).Nodup) :
    Yields lic recoverUnmarkedStaleClaims
      (fun _ t => ∃ before, Freed s before ∧ Freed before t ∧ Cleared false t ∧ Cleared true t)
      s := by
  refine (does_recoverOriginalClaims hk hs).bind ?_
  rintro - t ⟨hf, hc⟩
  refine .transact_bind rfl trivial ?_ trivial
  refine .ofExcept_bind fun pend hp => ?_
  cases pend with
  | true =>
    refine (does_load_release (hf.keyed hk) (hf.claims ▸ hs)).imp ?_
    rintro - u ⟨hfreed', hcleared'⟩
    exact ⟨t, hf, hfreed', hc.of_freed (hf.keyed hk) hfreed', hcleared'⟩
  | false =>
    exact ⟨t, hf, ⟨t, .inl rfl, rfl, List.Subset.refl _⟩, hc,
      cleared_of_hasUnreleasedStaleClaims (Except.ok.inj hp)⟩

/-! ## 4. Recovery -/

/-- Before the boundary: only claims of the open draft are released, then the marker goes. -/
theorem does_restoreDraft (hk : Keyed s) (hsi : (s.claims.map (·.source)).Nodup)
    (hr : s.draft = some row) (hs : s.slot = some row.key) :
    Yields lic (restoreDraft transaction row.opened)
      (fun out t => out = .draftRestored transaction.sequence ∧ Tidy t ∧ Undone s t) s := by
  refine (does_recoverOriginalClaims hk hsi).bind ?_
  rintro - t ⟨hf, hc⟩
  have ht := hf.of_some hr
  have hr' : t.draft = some row := by rw [ht.eq]; exact hr
  have hslot' : t.slot = some row.key := by rw [ht.eq]; exact hs
  refine (does_releaseClaimsOf (ht.keyed hk) (hf.claims ▸ hsi) hr' hslot').bind ?_
  rintro - u ⟨hu, hcleared'⟩
  have hop : u.Opens := hu.opens fun other ho => by
    obtain rfl : row = other := Option.some.inj (hr'.symm.trans ho)
    exact hslot'
  have hti : Tidy (u.replacePreparedFinalizationMarker none)
      ∧ Undone s (u.replacePreparedFinalizationMarker none) := by
    have hun := ht.undone.trans hu.undone
    have hcleared'' := hc.of_releases hu
    simp only [Installation.replacePreparedFinalizationMarker]
    split
    · exact ⟨⟨rfl, hop, hcleared'', hcleared'⟩, hun.files, hun.draft⟩
    · rename_i hn
      exact ⟨⟨by simpa using hn, hop, hcleared'', hcleared'⟩, hun⟩
  have hm : Yields lic (setMarker none)
      (fun _ t => t = u.replacePreparedFinalizationMarker none) u := by
    exact .transact_bind rfl hop rfl trivial
  refine hm.bind ?_
  rintro - v rfl
  exact ⟨rfl, hti⟩

variable [Crypto]

/-- How the recovery of a marker ends: the draft that opens is restored, the objects of a draft
that does not open are published. -/
structure Resolved (transaction : PreparedTransaction) (s : Installation)
    (outcome : RecoveryOutcome) (t : Installation) : Prop where
  tidy : Tidy t
  restored : s.Opens → outcome = .draftRestored transaction.sequence ∧ Undone s t
  committed : ¬ s.Opens → outcome = .committedFromPreparedBytes transaction.sequence
    ∧ t.Holds transaction.pairs

/-- A marker is resolved: published, or the draft is back. -/
theorem does_resolveMarker (hra : Ready s) (hm : s.marker = some transaction) :
    Yields lic (resolveMarker transaction) (Resolved transaction s) s := by
  have hp : ¬ s.Opens → Yields lic (do
      let _ ← publishFromPrepared transaction
      return RecoveryOutcome.committedFromPreparedBytes transaction.sequence)
      (Resolved transaction s) s := by
    intro hcl
    refine (does_publishFromPrepared hra.keyed hm hcl (hra.staged _ hm)).bind ?_
    intro _ t hre
    exact ⟨hre.tidy, fun ho => absurd ho hcl, fun _ => ⟨rfl, hre.holds⟩⟩
  refine (does_loadOrCreate hra.keyed).result_bind ?_ ?_
  · intro _ t hl
    obtain ⟨row, hr, hs, rfl⟩ := hl.opened
    have hc : t.claims = s.claims := by rw [hl.frame.1]
    have ho : s.Opens := by
      rcases hl.eq with rfl | ⟨hn, -⟩
      · exact hl.opens
      · exact fun row hr => by rw [hn] at hr; cases hr
    refine (does_restoreDraft (hl.keyed hra.keyed) (hc ▸ hra.single) hr hs).imp ?_
    rintro _ u ⟨rfl, ht, hu⟩
    exact ⟨ht, fun _ => ⟨rfl, hl.undone.trans hu⟩, fun hcl => absurd ho hcl⟩
  · intro e t hun
    split
    · cases ‹Except.error e = Except.ok _›
    · rename_i heq
      obtain ⟨rfl, hcl⟩ := hun.gone (.inl (Except.error.inj heq))
      exact hp hcl
    · rename_i heq
      obtain ⟨rfl, hcl⟩ := hun.gone (.inr (Except.error.inj heq))
      exact hp hcl
    · exact trivial

/-- How a recovery ends. -/
structure Recovered (s : Installation) (outcome : RecoveryOutcome) (t : Installation) : Prop where
  tidy : (s.marker = none → s.Opens) → Tidy t
  idle : s.marker = none → outcome = .nothingPending ∧ Undone s t
  resolved : ∀ transaction ∈ s.marker, Resolved transaction s outcome t

/-- **The recovery heeds the guards**, and how it ends. -/
theorem does_recoverPending {service : WriterService} {exp : Option Hash32}
    (hr : Ready s) : Yields lic (recoverPending service exp) (Recovered s) s := by
  refine .ofExcept_bind fun _ _ => ?_
  have hm : Yields lic (preparedFinalizationMarker.mapError WriterError.draft)
      (fun marker t => t = s ∧ marker = s.marker) s :=
    does_preparedFinalizationMarker.yields.mapError
  refine hm.bind ?_
  rintro marker t ⟨rfl, rfl⟩
  cases hmk : t.marker with
  | none =>
    refine (does_recoverUnmarkedStaleClaims hr.keyed hr.single).bind ?_
    rintro - v ⟨u, hf, hfreed', hor, hs⟩
    refine ⟨fun ho => ⟨?_, hfreed'.opens (hf.opens (ho hmk)), hor, hs⟩,
      fun _ => ⟨rfl, hf.undone.trans hfreed'.undone⟩, fun _ h => ?_⟩
    · rw [hfreed'.marker, hf.marker, hmk]
    · rw [hmk] at h
      cases h
  | some transaction =>
    refine .ofExcept_bind fun _ _ => ?_
    have hre : Yields lic (resolveMarker transaction) (Recovered t) t := by
      refine (does_resolveMarker hr hmk).imp fun out u hrs => ?_
      refine ⟨fun _ => hrs.tidy, fun hn => ?_, fun prepared hp => ?_⟩
      · rw [hmk] at hn
        cases hn
      · obtain rfl : transaction = prepared := Option.some.inj (hmk.symm.trans hp)
        exact hrs
    dsimp only
    split
    · refine .transact_bind rfl trivial ?_ trivial
      exact .ofExcept_bind fun _ _ => hre
    · exact hre

end Recover

end Einsatzarchiv.Writer
