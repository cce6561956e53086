/-
  File:      Einsatzarchiv/Verify/Exit.lean
  Subject:   The exit code of a report.

  * `exitCodeFor`: the code, in the order of the checks; `Applies`: the rows of the table.
  * `Grown`: what the stages note is kept, so that an empty set of thumbprints stands for the
    refusal of the trust gate.
  * `reportsRollback_iff`: which archives with nothing else wrong have a rollback.
  * `exitCodeFor_least_iff`: success means that everything was proven, and the code is the smallest
    that applies unless the archive is one of these.
-/
import Einsatzarchiv.Verify.Fields
import Einsatzarchiv.Verify.Verdict

namespace Einsatzarchiv.Verify

open Lib Format Archive Chain Trust

/-! ## 1. The table -/

/-- How the command ends. -/
inductive ExitCode
  | success | usage | integrity | chain | trust | evidence | key | incomplete | io | unsupported
deriving DecidableEq

namespace ExitCode

/-- The number the shell sees. -/
def asI32 : ExitCode → Nat
  | success => 0
  | usage => 2
  | integrity => 10
  | chain => 11
  | trust => 12
  | evidence => 13
  | key => 14
  | incomplete => 15
  | io => 20
  | unsupported => 21

end ExitCode

namespace VerificationReport

variable (report : VerificationReport)

/-- Not every entry has a result, or something was destroyed with authority. -/
def isPartial : Bool :=
  report.objectResults.size < report.entryPackageCount + report.destroyedEntryCount
    || !report.authorizedDestructions.isEmpty

/-- An object is malformed, quarantined or wrongly signed. -/
def hasIntegrityError : Bool :=
  !report.formatErrors.isEmpty || !report.quarantinedObjects.isEmpty || report.signatureErrors ≠ ∅

/-- The archive is behind a checkpoint. -/
def reportsRollback : Bool :=
  report.rollback matches .rollback _

end VerificationReport

/-- `exit_code_for`: the first that applies. -/
def exitCodeFor (report : VerificationReport) : ExitCode :=
  if report.hasIntegrityError then .integrity
  else if !report.gaps.isEmpty then .chain
  else if report.publicKeyThumbprints = ∅ then .trust
  else if report.evidenceErrors ≠ ∅ then .evidence
  else if report.decryptionErrors ≠ ∅ then .key
  else if report.isFullyVerified && report.isPartial then .incomplete
  else .success

/-- The row of the table says something about the report.  Three rows are about the call. -/
def ExitCode.Applies (report : VerificationReport) : ExitCode → Prop
  | success => report.isFullyVerified = true ∧ report.isPartial = false ∧
      report.reportsRollback = false
  | integrity => report.hasIntegrityError = true
  | chain => report.gaps.isEmpty = false ∨ report.reportsRollback = true ∨
      ∃ hash : ObjectHash, report.quarantinedObjects[hash]? = some .conflicting
  | trust => report.pipelineCompleted = false
  | evidence => report.evidenceErrors ≠ ∅
  | key => report.decryptionErrors ≠ ∅
  | incomplete => report.isFullyVerified = true ∧ report.isPartial = true
  | usage | io | unsupported => False

/-- The code is the smallest one that applies. -/
def Least (report : VerificationReport) (code : ExitCode) : Prop :=
  code.Applies report ∧ ∀ other : ExitCode, other.Applies report → code.asI32 ≤ other.asI32

variable {report : VerificationReport}

theorem isFullyVerified_iff_clean : report.isFullyVerified = true ↔
    report.pipelineCompleted = true ∧ report.hasIntegrityError = false ∧
      report.gaps.isEmpty = true ∧ report.evidenceErrors = ∅ ∧ report.decryptionErrors = ∅ := by
  simp only [VerificationReport.isFullyVerified, VerificationReport.hasIntegrityError,
    Bool.and_eq_true, decide_eq_true_eq, Bool.or_eq_false_iff, Bool.not_eq_false',
    decide_eq_false_iff_not, not_not]
  tauto

theorem reportsRollback_eq_false_iff :
    report.reportsRollback = false ↔ ∀ findings, report.rollback ≠ .rollback findings := by
  unfold VerificationReport.reportsRollback
  cases report.rollback <;> simp

theorem unlisted_of_hasIntegrityError (hi : report.hasIntegrityError = false) (field : Field)
    (hash : ObjectHash) (hl : report.Lists field hash) :
    field ≠ .quarantinedObjects ∧ field ≠ .formatErrors ∧ field ≠ .signatureErrors := by
  simp only [VerificationReport.hasIntegrityError, Bool.or_eq_false_iff, Bool.not_eq_false',
    decide_eq_false_iff_not, not_not] at hi
  obtain ⟨⟨hf, hq⟩, hs⟩ := hi
  refine ⟨?_, ?_, ?_⟩
  · rintro rfl
    simp_all [VerificationReport.Lists]
  · rintro rfl
    simp_all [VerificationReport.Lists]
  · rintro rfl
    simp_all [VerificationReport.Lists]

/-- With no error of the first row no object conflicts. -/
theorem not_conflicting (hi : report.hasIntegrityError = false) (hash : ObjectHash) :
    report.quarantinedObjects[hash]? ≠ some .conflicting := by
  have hq : report.quarantinedObjects = ∅ := by
    simp_all [VerificationReport.hasIntegrityError]
  simp [hq]

/-- **When the code is the smallest one that applies**, provided that thumbprints are noted exactly
by the runs that are completed. -/
theorem least_exitCodeFor
    (hp : report.publicKeyThumbprints = ∅ ↔ report.pipelineCompleted = false) :
    Least report (exitCodeFor report) ↔ (report.hasIntegrityError = false →
      report.gaps.isEmpty = true → report.reportsRollback = false) := by
  constructor
  · intro hl hi hg
    by_contra hr
    rw [Bool.not_eq_false] at hr
    have hc := hl.2 .chain (.inr (.inl hr))
    have ha := hl.1
    revert hc ha
    unfold exitCodeFor
    rw [if_neg (by simp [hi]), if_neg (by simp [hg])]
    split_ifs <;> simp [ExitCode.asI32, ExitCode.Applies, hr]
  · intro _
    unfold exitCodeFor Least
    have hco := @not_conflicting report
    simp only [ExitCode.Applies, isFullyVerified_iff_clean, hp]
    split_ifs with hi hg hga hev hk hpa
    all_goals
      refine ⟨?_, fun other ha => ?_⟩
      · simp_all [isFullyVerified_iff_clean]
      · cases other <;> simp_all [ExitCode.asI32, isFullyVerified_iff_clean]

/-! ## 2. What a run notes -/

/-- Thumbprints and destructions that are noted stay, and the counts are those of the inventory. -/
structure Grown (before after : VerificationReport) : Prop where
  thumbprints : before.publicKeyThumbprints ⊆ after.publicKeyThumbprints
  destructions : after.authorizedDestructions.isEmpty = true →
    before.authorizedDestructions.isEmpty = true
  entries : after.entryPackageCount = before.entryPackageCount
  destroyed : after.destroyedEntryCount = before.destroyedEntryCount

theorem grown_of_noted {s t : VerificationReport} (h : t.noted = s.noted) : Grown s t := by
  simp only [VerificationReport.noted, Prod.mk.injEq] at h
  obtain ⟨-, -, hp, hd, he, hds⟩ := h
  exact ⟨hp ▸ subset_rfl, hd ▸ id, he, hds⟩

theorem framed_grown (P : ObjectHash → Prop) : Framed P Grown := by
  constructor
  case trans =>
    intro s t u h h'
    exact ⟨h.thumbprints.trans h'.thumbprints, h.destructions ∘ h'.destructions,
      h'.entries.trans h.entries, h'.destroyed.trans h.destroyed⟩
  case addThumbprint =>
    exact fun s tp => ⟨Finset.subset_insert _ _, id, rfl, rfl⟩
  case addDestruction =>
    exact fun _ _ _ => ⟨subset_rfl, by simp [VerificationReport.addDestruction], rfl, rfl⟩
  all_goals
    intros
    exact ⟨subset_rfl, id, rfl, rfl⟩

section

variable [Crypto] [EscrowRules]
variable {blobs : List Bytes} {inventory : ArchiveInventory} {anchor : TrustAnchor}
  {options : VerifyOptions} {run : Run}

namespace RunOf

variable (h : RunOf blobs inventory anchor options run)

include h

theorem grown_report : Grown (opened inventory anchor) run.report :=
  Framed.trans (framed_grown fun _ => True) (h.frame_recorded (framed_grown _))
    (h.frame_report (framed_grown _) grown_of_noted)

/-- Without a destruction no stub is approved. -/
theorem approved_eq_nil_of_isEmpty
    (hd : run.report.authorizedDestructions.isEmpty = true) : run.approved = [] := by
  refine List.eq_nil_iff_forall_not_mem.mpr fun hash ha => ?_
  obtain ⟨_, hs, -⟩ := h.exists_of_mem_approved ha
  rw [h.stubCandidates_eq, mem_candidates] at hs
  have hr := (h.frame_report (framed_grown _) grown_of_noted).destructions hd
  obtain ⟨-, -, hc, -⟩ := hs
  rw [destructionCovers, Std.TreeMap.getElem?_of_isEmpty hr] at hc
  cases hc

/-- Without a destruction the report has at most one result for each entry. -/
theorem size_objectResults_le (hf : CollisionFree blobs)
    (hde : run.report.authorizedDestructions.isEmpty = true) :
    run.report.objectResults.size ≤ inventory.entries.length := by
  have hke : run.report.objectResults.keys ⊆ inventory.entries.map (·.objectHash) := by
    intro hash hk
    have hl := Std.TreeMap.mem_iff_isSome_getElem?.mp (Std.TreeMap.mem_keys.mp hk)
    rw [h.getElem?_objectResults, h.approved_eq_nil_of_isEmpty hde] at hl
    have hr : run.receipted.Lists .objectResults hash :=
      Std.TreeMap.mem_iff_isSome_getElem?.mpr (by simpa using hl)
    rcases (h.lists_receipted (h.receiptsApart hf)).mp hr with ha | hd
    · exact absurd ha (h.not_lists_assessed (by simp) (by simp) (by simp))
    · obtain ⟨_, he, -, ⟨-, rfl⟩ | ⟨hfi, -⟩⟩ := hd
      · exact List.mem_map_of_mem (h.mem_placed.mp he).1
      · cases hfi
  have hle := (Std.TreeMap.nodup_keys.subperm hke).length_le
  rwa [Std.TreeMap.length_keys, List.length_map] at hle

end RunOf

/-! ## 3. The code of a run -/

/-- What success says about the archive. -/
structure Proven (inventory : ArchiveInventory) (report : VerificationReport) : Prop where
  completed : report.pipelineCompleted = true
  full : report.isFullyVerified = true
  destroyed : inventory.destroyed = []
  results : ∀ entry ∈ inventory.entries, entry.objectHash ∈ report.objectResults
  gaps : report.gaps.isEmpty = true

/-- Where the report shows no error of the first two rows, the archive has no stub, or none of its
checkpoints reaches beyond its entries and the candidates among the stubs. -/
def RollbackShown (inventory : ArchiveInventory) (anchor : TrustAnchor) (options : VerifyOptions)
    (report : VerificationReport) : Prop :=
  report.hasIntegrityError = false → report.gaps.isEmpty = true →
    TrustGate inventory anchor options →
      inventory.destroyed = [] ∨ CheckpointsReached inventory anchor options

variable {source : ArchiveSource} {report : VerificationReport}
  (hb : ArchiveInventory.build source = .ok inventory)
  (hv : verifyArchive source anchor options = .ok report)

include hb hv

/-- **The empty set of thumbprints stands for the refusal of the trust gate.** -/
theorem thumbprints_eq_empty_iff :
    (report.publicKeyThumbprints = ∅ ↔ report.pipelineCompleted = false) ∧
      (¬ TrustGate inventory anchor options → report.pipelineCompleted = false) := by
  obtain ⟨inventory', hbuild', hc⟩ := verifyArchive_eq_ok hv
  obtain rfl : inventory = inventory' := by simpa [hb] using hbuild'
  rcases hc with ⟨-, rfl⟩ | ⟨hg, rfl⟩
  · exact ⟨iff_of_true rfl rfl, fun _ => rfl⟩
  · have h : RunOf source.blobs inventory anchor options _ := ⟨build_spec hb, rfl⟩
    have hr : anchor.rootKeyThumbprint ∈
        (verifyRun inventory anchor options).report.publicKeyThumbprints :=
      h.grown_report.thumbprints (Finset.mem_insert_self _ _)
    refine ⟨iff_of_false (Finset.ne_empty_of_mem hr) ?_, absurd hg⟩
    simp [h.report_eq]

/-- **Success means that everything was proven.** -/
theorem proven_of_success (hf : CollisionFree source.blobs)
    (hs : exitCodeFor report = .success) : Proven inventory report := by
  have hp := (thumbprints_eq_empty_iff hb hv).1
  have hc : report.isFullyVerified = true ∧ report.isPartial = false := by
    unfold exitCodeFor at hs
    split_ifs at hs
    simp_all [isFullyVerified_iff_clean]
  obtain ⟨hfu, hpa⟩ := hc
  obtain ⟨h, rfl⟩ := fullRun_of_verifyArchive hb hv hfu
  simp only [VerificationReport.isPartial, Bool.or_eq_false_iff, decide_eq_false_iff_not, not_lt,
    Bool.not_eq_false'] at hpa
  obtain ⟨hsi, hd⟩ := hpa
  refine ⟨(isFullyVerified_iff_clean.mp hfu).1, hfu, ?_, fun entry he => ?_,
    (isFullyVerified_iff_clean.mp hfu).2.2.1⟩
  · have hle := hsi.trans (h.size_objectResults_le hf hd)
    rw [h.grown_report.entries, h.grown_report.destroyed] at hle
    exact List.length_eq_zero_iff.mp (Nat.eq_zero_of_le_zero (Nat.le_of_add_le_add_left hle))
  · obtain ⟨_, hr⟩ := h.valid_of_mem_entries hf he
    exact Std.TreeMap.mem_iff_isSome_getElem?.mpr (by rw [hr]; rfl)

/-- **When no rollback is reported**, as long as nothing else is wrong with an object or the
chain. -/
theorem reportsRollback_iff (hi : report.hasIntegrityError = false)
    (hg : report.gaps.isEmpty = true) : report.reportsRollback = false ↔
      (TrustGate inventory anchor options →
        inventory.destroyed = [] ∨ CheckpointsReached inventory anchor options) := by
  rw [reportsRollback_eq_false_iff]
  obtain ⟨inventory', hbuild', hc⟩ := verifyArchive_eq_ok hv
  obtain rfl : inventory = inventory' := by simpa [hb] using hbuild'
  rcases hc with ⟨hn, rfl⟩ | ⟨hp, rfl⟩
  · exact iff_of_true (fun _ h => by cases h) fun ht => absurd ht hn
  · have hr : RunOf source.blobs inventory anchor options (verifyRun inventory anchor options) :=
      ⟨build_spec hb, rfl⟩
    have h : CleanRun source.blobs inventory anchor options (verifyRun inventory anchor options) :=
      ⟨hr, unlisted_of_hasIntegrityError hi, hg⟩
    rw [h.rollback_iff, forall_prop_of_true hp]

/-- **When the exit code says what the table says**: if an archive that shows nothing else wrong
with its objects and its chain has no stubs, or no checkpoint reaches beyond the entries and the
candidates among the stubs. -/
theorem exitCodeFor_least_iff (hfree : CollisionFree source.blobs) :
    (exitCodeFor report = .success → Proven inventory report) ∧ Least report (exitCodeFor report) ∧
      (¬ TrustGate inventory anchor options →
        exitCodeFor report ≠ .success ∧ exitCodeFor report ≠ .incomplete) ↔
    RollbackShown inventory anchor options report := by
  obtain ⟨hp, hg⟩ := thumbprints_eq_empty_iff hb hv
  have hl : Least report (exitCodeFor report) ↔ RollbackShown inventory anchor options report := by
    rw [least_exitCodeFor hp, RollbackShown]
    exact forall_congr' fun hi => forall_congr' fun hg => reportsRollback_iff hb hv hi hg
  rw [and_iff_right (proven_of_success hb hv hfree), hl]
  refine and_iff_left fun hr => ?_
  have he := hp.mpr (hg hr)
  unfold exitCodeFor
  rw [if_pos he]
  split_ifs <;> simp

end

theorem exitCodeFor_least_iff_success :
    let archive : TableArchive :=
      { checkpointArchive (standardCheckpoint 0 100) with
        delivered := organizationNames ++ [40, 41, 50] }
    let := archive.crypto
    ∃ inventory report, ArchiveInventory.build archive.source = .ok inventory ∧
      archive.verify organizationAnchor { osWallClock := 15 } = .ok report ∧
      exitCodeFor report = .success ∧ Proven inventory report := by
  intro archive _
  let := archive.escrowRules
  obtain ⟨inventory, report, hb, hv, hp⟩ := archive.exists_report organizationAnchor
    { osWallClock := 15 } (fun report => exitCodeFor report = .success && !report.reportsRollback)
  simp only [Bool.and_eq_true, decide_eq_true_eq, Bool.not_eq_true'] at hp
  have hs : RollbackShown inventory organizationAnchor { osWallClock := 15 } report :=
    fun hi hg => (reportsRollback_iff hb hv hi hg).mp hp.2
  exact ⟨inventory, report, hb, hv, hp.1,
    ((exitCodeFor_least_iff hb hv archive.collisionFree).mpr hs).1 hp.1⟩

/-- The checkpoint proves that sequence one is missing, and the code is not that of a rollback. -/
theorem not_least_of_truncated : ∃ report,
    (checkpointArchive (standardCheckpoint 1 101)).verify organizationAnchor
        { osWallClock := 15 } = .ok report ∧
      exitCodeFor report = .incomplete ∧ ¬ Least report (exitCodeFor report) := by
  obtain ⟨-, report, -, hv, hp⟩ := (checkpointArchive (standardCheckpoint 1 101)).exists_report
    organizationAnchor { osWallClock := 15 }
    (fun report => exitCodeFor report = .incomplete && report.reportsRollback)
  simp only [Bool.and_eq_true, decide_eq_true_eq] at hp
  refine ⟨report, hv, hp.1, fun hl => ?_⟩
  have hle := hl.2 .chain (.inr (.inl hp.2))
  rw [hp.1] at hle
  exact absurd hle (by decide)

end Einsatzarchiv.Verify
