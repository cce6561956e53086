/-
  File:      Einsatzarchiv/Verify/Gates.lean
  Subject:   What the gates after the checkpoints add to the report.

  * `lists_confirmEntries`, `mem_confirmed`: the receipts.
  * `lists_runEvidenceGate`: the evidence.
  * `grantFault`, `lists_claimOwnGrants`: the grants of the recipient.
  * `convergeStubs_spec`, `lists_settleStubs`, `placement_settleStubs`: the stubs.
-/
import Einsatzarchiv.Verify.Stages

namespace Einsatzarchiv.Verify

open Lib Format Archive Chain Trust
open VerificationReport (isQuarantined_iff hasSignatureError_iff lists_addResult)

variable [Crypto] [EscrowRules]
variable {inventory : ArchiveInventory} {anchor : TrustAnchor} {opts : VerifyOptions}
variable {report : VerificationReport} {field : Field} {hash : ObjectHash}
variable {P : ObjectHash → Prop} {R : VerificationReport → VerificationReport → Prop}
  {pair : Parsed EntryPackage × Parsed Receipt}

/-! ## 1. Receipts -/

section Receipts

variable {placed : List (Parsed EntryPackage)} {entry : Parsed EntryPackage}
variable {state : VerificationReport × List (Parsed EntryPackage × Parsed Receipt)}
  {receipt : Parsed Receipt}

/-- Neither quarantined nor with a signature error. -/
def Clear (report : VerificationReport) (hash : ObjectHash) : Prop :=
  ¬ report.Lists .quarantinedObjects hash ∧ ¬ report.Lists .signatureErrors hash

/-- The receipt of an entry that is not quarantined. -/
def UsableReceipt (inventory : ArchiveInventory) (report : VerificationReport)
    (entry : Parsed EntryPackage) (receipt : Parsed Receipt) : Prop :=
  receiptFor inventory entry = some receipt ∧ ¬ report.Lists .quarantinedObjects receipt.objectHash

/-- What a clear entry adds: its result, and the error of a receipt that does not confirm it. -/
def ReceiptDelta (inventory : ArchiveInventory) (anchor : TrustAnchor)
    (report : VerificationReport) (field : Field) (hash : ObjectHash)
    (entry : Parsed EntryPackage) : Prop :=
  Clear report entry.objectHash ∧ (field = .objectResults ∧ hash = entry.objectHash ∨
      field = .signatureErrors ∧ ∃ receipt, UsableReceipt inventory report entry receipt ∧
        hash = receipt.objectHash ∧ (confirmReceipt inventory anchor entry receipt).isOk = false)

omit [Crypto] [EscrowRules] in
theorem filter_receiptFor_eq_some :
    (receiptFor inventory entry).filter (!report.isQuarantined ·.objectHash) = some receipt ↔
      UsableReceipt inventory report entry receipt := by
  simp [UsableReceipt, ← isQuarantined_iff, Option.filter_eq_some_iff]

/-- What one entry's receipt adds. -/
theorem lists_confirmEntry : (confirmEntry inventory anchor state entry).1.Lists field hash ↔
    state.1.Lists field hash ∨ ReceiptDelta inventory anchor state.1 field hash entry := by
  unfold ReceiptDelta Clear
  rw [← isQuarantined_iff, ← hasSignatureError_iff]
  dsimp only [confirmEntry]
  cases state.1.isQuarantined entry.objectHash
  · cases state.1.hasSignatureError entry.objectHash
    · simp only [Bool.or_self, Bool.false_eq_true, if_false, not_false_iff, and_self, true_and]
      simp only [← filter_receiptFor_eq_some]
      cases (receiptFor inventory entry).filter (!state.1.isQuarantined ·.objectHash) with
      | none => simp
      | some receipt =>
        cases hc : confirmReceipt inventory anchor entry receipt with
        | ok _ => simp [hc, Except.isOk, Except.toBool]
        | error error =>
          simp only [lists_addResult, Option.some.injEq, exists_eq_left',
            VerificationReport.lists_addSignatureError, hc, Except.isOk, Except.toBool]
          grind
    · simp
  · simp

/-- An entry is confirmed by its usable receipt. -/
theorem mem_confirmEntry : pair ∈ (confirmEntry inventory anchor state entry).2 ↔ pair ∈ state.2 ∨
      pair.1 = entry ∧ Clear state.1 entry.objectHash ∧
        UsableReceipt inventory state.1 entry pair.2 ∧
          (confirmReceipt inventory anchor entry pair.2).isOk = true := by
  unfold Clear
  rw [← isQuarantined_iff, ← hasSignatureError_iff, ← filter_receiptFor_eq_some]
  dsimp only [confirmEntry]
  cases state.1.isQuarantined entry.objectHash
  · cases state.1.hasSignatureError entry.objectHash
    · cases (receiptFor inventory entry).filter (!state.1.isQuarantined ·.objectHash) with
      | none => simp
      | some receipt =>
        cases hc : confirmReceipt inventory anchor entry receipt <;>
          grind [Except.toBool]
    · simp
  · simp

/-- The receipts and the entries have different hashes. -/
def ReceiptsApart (inventory : ArchiveInventory) (placed : List (Parsed EntryPackage)) : Prop :=
  ∀ receipt ∈ inventory.receipts, ∀ entry ∈ placed, receipt.objectHash ≠ entry.objectHash

variable (hap : ReceiptsApart inventory placed)

omit [Crypto] [EscrowRules] in
theorem UsableReceipt.mem (h : UsableReceipt inventory report entry receipt) :
    receipt ∈ inventory.receipts :=
  List.mem_of_find?_eq_some h.1

include hap

variable (anchor entry state) in
/-- An entry leaves alone what the others are judged by. -/
theorem frame_confirmEntry {other : Parsed EntryPackage} (ho : other ∈ placed) :
    (∀ hash, (confirmEntry inventory anchor state entry).1.Lists .quarantinedObjects hash ↔
      state.1.Lists .quarantinedObjects hash) ∧
    ((confirmEntry inventory anchor state entry).1.Lists .signatureErrors other.objectHash ↔
      state.1.Lists .signatureErrors other.objectHash) := by
  simp only [lists_confirmEntry, ReceiptDelta, reduceCtorEq, false_and, false_or, or_false,
    and_false, true_and, implies_true]
  refine or_iff_left ?_
  rintro ⟨-, receipt, hu, e, -⟩
  exact hap receipt hu.mem other ho e.symm

/-- What all receipts add, judged on the report before. -/
theorem lists_confirmEntries : (confirmEntries inventory anchor report placed).1.Lists field hash ↔
    report.Lists field hash ∨
      ∃ entry ∈ placed, ReceiptDelta inventory anchor report field hash entry := by
  refine foldl_or_of_pairwise (s := (report, [])) (P := fun s => s.1.Lists field hash)
    (fun s a _ => lists_confirmEntry) (fun s a b _ hb _ => ?_)
    (List.pairwise_of_forall fun _ _ => trivial)
  obtain ⟨hq, hs⟩ := frame_confirmEntry anchor a s hap hb
  simp only [ReceiptDelta, Clear, UsableReceipt, hq, hs]

/-- The confirmed entries, by their receipts and the report before. -/
theorem mem_confirmed : pair ∈ (confirmEntries inventory anchor report placed).2 ↔ pair.1 ∈ placed ∧
      Clear report pair.1.objectHash ∧ UsableReceipt inventory report pair.1 pair.2 ∧
        (confirmReceipt inventory anchor pair.1 pair.2).isOk = true := by
  refine (foldl_or_of_pairwise (s := (report, [])) (P := fun s => pair ∈ s.2)
    (fun s a _ => mem_confirmEntry) (fun s a b _ hb _ => ?_)
    (List.pairwise_of_forall fun _ _ => trivial)).trans ?_
  · obtain ⟨hq, hs⟩ := frame_confirmEntry anchor a s hap hb
    simp only [Clear, UsableReceipt, hq, hs]
  · grind

omit hap in
theorem lists_confirmEntries_of_lists (h : report.Lists field hash) :
    (confirmEntries inventory anchor report placed).1.Lists field hash :=
  List.foldlRecOn (motive := fun s => s.1.Lists field hash) placed (confirmEntry inventory anchor)
    h fun _ hs _ _ => lists_confirmEntry.mpr (.inl hs)

omit hap in
theorem frame_confirmEntries (hR : Framed P R)
    (hr : ∀ (s : VerificationReport) hash result, R s (s.addResult hash result)) :
    R report (confirmEntries inventory anchor report placed).1 := by
  refine hR.foldl (g := Prod.fst) (s := (report, [])) fun s entry _ => ?_
  dsimp only [confirmEntry]
  split
  · exact hR.refl _
  · split
    · exact hr _ _ _
    · split
      · exact hR.trans (hR.addThumbprint _ _) (hR.trans (hR.raiseTimeFloor _ _) (hr _ _ _))
      · exact hR.trans (hR.addSignatureError _ _ _) (hr _ _ _)

/-- Every result is that of a valid entry. -/
def ResultsValid (report : VerificationReport) : Prop :=
  ∀ (hash : ObjectHash) (result : ObjectResult), report.objectResults[hash]? = some result →
    result.objectType = .entry ∧ result.result = .valid

omit [Crypto] [EscrowRules] hap in
theorem ResultsValid.addResult (h : ResultsValid report) (conf : ServerConfirmation) :
    ResultsValid (report.addResult hash ⟨.entry, .valid, conf⟩) := by
  intro key res hr
  simp only [VerificationReport.addResult, Std.TreeMap.getElem?_insert] at hr
  split at hr
  · cases hr
    exact ⟨rfl, rfl⟩
  · exact h key res hr

omit hap in
/-- Confirmation leaves only valid results. -/
theorem resultsValid_confirmEntries (h : ResultsValid report) :
    ResultsValid (confirmEntries inventory anchor report placed).1 := by
  refine List.foldlRecOn (motive := fun s => ResultsValid s.1) placed
    (confirmEntry inventory anchor) (b := (report, [])) h fun s hs entry _ => ?_
  dsimp only [confirmEntry]
  split
  · exact hs
  · split
    · exact hs.addResult _
    · split
      · refine ResultsValid.addResult ?_ _
        exact hs
      · refine ResultsValid.addResult ?_ _
        exact hs

end Receipts

/-! ## 2. Evidence -/

section Evidence

omit [EscrowRules]

variable {confirmed : List (Parsed EntryPackage × Parsed Receipt)}

/-- A token that is not bound, or whose inputs are unknown. -/
def TokenFault (inventory : ArchiveInventory) (report : VerificationReport)
    (evidence : Parsed EvidenceObject) : Prop :=
  ¬ report.Lists .quarantinedObjects evidence.objectHash ∧
    (tokenFinding inventory evidence.value).isOk = false

/-- A confirmed receipt that demands evidence which no token gives. -/
def DueFault (qualifying : List QualifyingToken) (report : VerificationReport)
    (pair : Parsed EntryPackage × Parsed Receipt) : Prop :=
  let sequence := pair.1.value.signedManifest.manifest.chainSequence
  ¬ report.Lists .quarantinedObjects pair.2.objectHash ∧
    pair.2.value.core.evidenceDueAt.isSome = true ∧
      (qualifying.any fun token => token.coveredFromSequence ≤ sequence
        && sequence ≤ token.coveredThroughSequence) = false

/-- An evidence object that does not count. -/
theorem lists_judgeEvidence {evidence : Parsed EvidenceObject} :
    (judgeEvidence inventory report evidence).Lists field hash ↔ report.Lists field hash ∨
      field = .evidenceErrors ∧ hash = evidence.objectHash ∧
        TokenFault inventory report evidence := by
  rw [TokenFault, ← isQuarantined_iff]
  unfold judgeEvidence
  cases report.isQuarantined evidence.objectHash
  · cases tokenFinding inventory evidence.value <;> simp [Except.isOk, Except.toBool]
  · simp

omit [Crypto] in
/-- A receipt whose entry lacks the required evidence. -/
theorem lists_judgeConfirmed {qual : List QualifyingToken} {now : Int} :
    (judgeConfirmed qual now report pair).Lists field hash ↔ report.Lists field hash ∨
      field = .evidenceErrors ∧ hash = pair.2.objectHash ∧ DueFault qual report pair := by
  rw [DueFault, ← isQuarantined_iff]
  dsimp only [judgeConfirmed]
  cases pair.2.value.core.evidenceDueAt with
  | none => simp
  | some _ =>
    cases report.isQuarantined pair.2.objectHash
    · cases ha : qual.any fun token => token.coveredFromSequence ≤
          pair.1.value.signedManifest.manifest.chainSequence
        && pair.1.value.signedManifest.manifest.chainSequence ≤ token.coveredThroughSequence
      <;> simp
    · simp

/-- **What the evidence gate adds.** -/
theorem lists_runEvidenceGate :
    (runEvidenceGate inventory anchor opts report confirmed).Lists field hash ↔
      report.Lists field hash ∨ field = .evidenceErrors ∧
        ((∃ evidence ∈ inventory.evidence, hash = evidence.objectHash ∧
          TokenFault inventory report evidence) ∨
        opts.evidenceRequirement ≠ .notRequired ∧ ∃ pair ∈ confirmed, hash = pair.2.objectHash ∧
            DueFault (qualifyingTokens inventory anchor report) report pair) := by
  have hev : ∀ field hash, (inventory.evidence.foldl (judgeEvidence inventory)
      report).Lists field hash ↔ report.Lists field hash ∨ ∃ evidence ∈ inventory.evidence,
        field = .evidenceErrors ∧ hash = evidence.objectHash ∧
          TokenFault inventory report evidence := fun field hash =>
    foldl_or_of_frame (f := judgeEvidence inventory) (P := (·.Lists field hash))
      (fun _ _ _ => lists_judgeEvidence) fun s a b => by simp [TokenFault, lists_judgeEvidence]
  have hc : ∀ qual now (s : VerificationReport),
      (confirmed.foldl (judgeConfirmed qual now) s).Lists field hash ↔
        s.Lists field hash ∨ ∃ pair ∈ confirmed, field = .evidenceErrors ∧
          hash = pair.2.objectHash ∧ DueFault qual s pair := fun qual now s =>
    foldl_or_of_frame (f := judgeConfirmed qual now) (P := (·.Lists field hash))
      (fun _ _ _ => lists_judgeConfirmed) fun s a b => by simp [DueFault, lists_judgeConfirmed]
  dsimp only [runEvidenceGate]
  split
  next hn =>
    rw [hev]
    by_cases hf : field = .evidenceErrors <;> simp [hf, hn]
  next hr =>
    rw [hc, hev]
    -- the first loop quarantines nothing, so that the second one judges by the same quarantine
    have hs : ∀ pair qual, DueFault qual (inventory.evidence.foldl
        (judgeEvidence inventory) report) pair ↔ DueFault qual report pair := by
      intro pair qual
      simp [DueFault, hev]
    by_cases hf : field = .evidenceErrors <;> simp [hf, hr, hs, or_assoc]

theorem frame_runEvidenceGate (hR : Framed P R) :
    R report (runEvidenceGate inventory anchor opts report confirmed) := by
  have hev : R report (inventory.evidence.foldl (judgeEvidence inventory) report) :=
    hR.foldl (g := id) fun s evidence _ => by
      unfold judgeEvidence
      split
      · exact hR.refl _
      · split
        · exact hR.addEvidenceError _ _ _
        · exact hR.refl _
  dsimp only [runEvidenceGate]
  split
  · exact hev
  · refine hR.trans hev (hR.foldl (g := id) fun s pair _ => ?_)
    dsimp only [judgeConfirmed]
    split
    · exact hR.refl _
    · split
      · exact hR.refl _
      · exact hR.addEvidenceError _ _ _

end Evidence

/-! ## 3. Grants of the recipient -/

section Recipient

variable {recipient : RecipientKey} {now : Int} {claims : GrantClaims}
  {entry : Parsed EntryPackage} {grant : Parsed Grant}

section

variable (inventory : ArchiveInventory) (anchor : TrustAnchor) (recipient : RecipientKey)

/-- The error of an opened grant. -/
def openingFault (entry : Parsed EntryPackage) (grant : Parsed Grant) : Option
    (Field × ObjectHash) :=
  match openForDestruction inventory anchor recipient grant entry with
  | .ok _ => none
  | .error _ => some (.decryptionErrors, grant.objectHash)

/-- The error of the claim through historical grants. -/
def historicalFault (now : Int) (report : VerificationReport)
    (entry : Parsed EntryPackage) : Option (Field × ObjectHash) :=
  let grants := (historicalGrants inventory entry recipient.keyThumbprint).filter
    (!report.isQuarantined ·.objectHash)
  match historicalClaim (verifyHistoricalGrant inventory anchor entry · now) grants with
  | .accepted grant _ => openingFault inventory anchor recipient entry grant
  | .failed objectHash _ => some (.signatureErrors, objectHash)
  | .absent => none

/-- The error of the claim through an initial grant. -/
def initialFault (report : VerificationReport) (entry : Parsed EntryPackage)
    (grant : Parsed Grant) :
    Option (Field × ObjectHash) :=
  if report.isQuarantined grant.objectHash then none
  else
    let verified := do
      let selected ← okOr (manifestHead inventory anchor entry.value.signedManifest.manifest)
        RecipientGrantError.headUnavailable
      verifyOwnGrant grant entry selected
    match verified with
    | .error _ => some (.signatureErrors, grant.objectHash)
    | .ok _ => openingFault inventory anchor recipient entry grant

/-- The field the grant of an entry is listed in, if its claim fails. -/
def grantFault (now : Int) (report : VerificationReport) (entry : Parsed EntryPackage) :
    Option (Field × ObjectHash) :=
  match ownGrant inventory entry recipient.keyThumbprint with
  | none => historicalFault inventory anchor recipient now report entry
  | some grant => initialFault inventory anchor recipient report entry grant

end

/-- What opening an entry adds. -/
theorem lists_recordDecapsulation :
    (recordDecapsulation claims grant (openForDestruction inventory anchor recipient grant
        entry)).report.Lists field hash ↔ claims.report.Lists field hash ∨
      openingFault inventory anchor recipient entry grant = some (field, hash) := by
  unfold recordDecapsulation openingFault
  cases openForDestruction inventory anchor recipient grant entry <;> simp [eq_comm]

/-- What a historical grant adds. -/
theorem lists_claimHistoricalGrant :
    (claimHistoricalGrant inventory anchor recipient now claims entry).report.Lists field hash ↔
      claims.report.Lists field hash ∨
        historicalFault inventory anchor recipient now claims.report entry =
          some (field, hash) := by
  dsimp only [claimHistoricalGrant, historicalFault]
  generalize historicalClaim _ _ = claim
  cases claim with
  | accepted _ _ => simp [lists_recordDecapsulation]
  | failed _ _ => simp [eq_comm]
  | absent => simp

/-- What an initial grant adds. -/
theorem lists_claimInitialGrant :
    (claimInitialGrant inventory anchor recipient claims entry grant).report.Lists field hash ↔
      claims.report.Lists field hash ∨
        initialFault inventory anchor recipient claims.report entry grant = some (field, hash) := by
  have hq : ∀ hash expires, (claims.report.addRecipientGrant entry.value.entryHash hash
      expires).isQuarantined grant.objectHash = claims.report.isQuarantined grant.objectHash :=
    fun _ _ => rfl
  dsimp only [claimInitialGrant, initialFault]
  rw [hq]
  cases claims.report.isQuarantined grant.objectHash
  · generalize (okOr (manifestHead inventory anchor entry.value.signedManifest.manifest)
      RecipientGrantError.headUnavailable >>= fun sel =>
        verifyOwnGrant grant entry sel) = verified
    cases verified with
    | ok _ => simp [lists_recordDecapsulation]
    | error error => simp [eq_comm]
  · simp

/-- What the recipient's grant of one entry adds. -/
theorem lists_claimOwnGrant :
    (claimOwnGrant inventory anchor recipient now claims entry).report.Lists field hash ↔
      claims.report.Lists field hash ∨ claims.report.Lists .objectResults entry.objectHash ∧
        grantFault inventory anchor recipient now claims.report entry = some (field, hash) := by
  have hr : claims.report.Lists .objectResults entry.objectHash ↔
      claims.report.objectResults.contains entry.objectHash = true :=
    Std.TreeMap.contains_iff_mem.symm
  rw [hr]
  unfold claimOwnGrant grantFault
  cases claims.report.objectResults.contains entry.objectHash
  · simp
  · cases ownGrant inventory entry recipient.keyThumbprint with
    | none => simp [lists_claimHistoricalGrant]
    | some _ => simp [lists_claimInitialGrant]

omit [Crypto] [EscrowRules] in
/-- An accepted or failed claim is about one of the grants. -/
theorem historicalClaim_spec (verify : Parsed Grant → Except String Int)
    (grants : List (Parsed Grant)) :
    match historicalClaim verify grants with
    | .accepted grant _ => grant ∈ grants
    | .failed oh _ => ∃ grant ∈ grants, grant.objectHash = oh
    | .absent => True := by
  induction grants with
  | nil => simp [historicalClaim]
  | cons grant grants ih =>
    unfold historicalClaim
    cases verify grant with
    | ok expires => simp
    | error code =>
      dsimp only
      generalize historicalClaim verify grants = claim at ih ⊢
      cases claim with
      | accepted g expires => exact List.mem_cons_of_mem _ ih
      | failed oh code | absent => exact ⟨grant, List.mem_cons_self, rfl⟩

theorem openingFault_eq_some
    (h : openingFault inventory anchor recipient entry grant = some (field, hash)) :
    field = .decryptionErrors ∧ hash = grant.objectHash := by
  unfold openingFault at h
  split at h
  · cases h
  · cases h
    exact ⟨rfl, rfl⟩

/-- A fault is that of a grant of the entry which is not quarantined. -/
theorem grantFault_eq_some
    (h : grantFault inventory anchor recipient now report entry = some (field, hash)) :
    (field = .signatureErrors ∨ field = .decryptionErrors) ∧
      ∃ grant ∈ inventory.grants, grant.objectHash = hash ∧
        grant.value.grantBody.entryHash = entry.value.entryHash ∧
          ¬ report.Lists .quarantinedObjects hash := by
  unfold grantFault at h
  split at h
  next hn =>
    have hs := historicalClaim_spec (verifyHistoricalGrant inventory anchor entry · now)
      ((historicalGrants inventory entry recipient.keyThumbprint).filter
        (!report.isQuarantined ·.objectHash))
    dsimp only [historicalFault] at h
    -- a claimed grant is one of the historical grants of the entry
    have hm : ∀ g ∈ (historicalGrants inventory entry recipient.keyThumbprint).filter
        (!report.isQuarantined ·.objectHash), ∃ grant ∈ inventory.grants,
          grant.objectHash = g.objectHash ∧
          grant.value.grantBody.entryHash = entry.value.entryHash ∧
          ¬ report.Lists .quarantinedObjects g.objectHash := by
      intro g hg
      obtain ⟨hg, hq⟩ := List.mem_filter.mp hg
      obtain ⟨hg, hf⟩ := List.mem_filter.mp hg
      simp only [Bool.and_eq_true, decide_eq_true_eq] at hf
      exact ⟨g, hg, rfl, hf.1.2, by simpa [← isQuarantined_iff] using hq⟩
    split at h
    next g expires hc =>
      rw [hc] at hs
      obtain ⟨rfl, rfl⟩ := openingFault_eq_some h
      exact ⟨.inr rfl, hm g hs⟩
    next oh code hc =>
      rw [hc] at hs
      cases h
      obtain ⟨g, hg, rfl⟩ := hs
      exact ⟨.inl rfl, hm g hg⟩
    next => cases h
  next g ho =>
    have hm := List.mem_of_find?_eq_some ho
    have hf := List.find?_some ho
    simp only [Bool.and_eq_true, decide_eq_true_eq] at hf
    dsimp only [initialFault] at h
    split at h
    · cases h
    next hq =>
      split at h
      · cases h
        exact ⟨.inl rfl, g, hm, rfl, hf.1.2, hq⟩
      · obtain ⟨rfl, rfl⟩ := openingFault_eq_some h
        exact ⟨.inr rfl, g, hm, rfl, hf.1.2, hq⟩

variable (inventory anchor recipient now claims entry) in
/-- What a claim is judged by stays as it is. -/
theorem frame_claimOwnGrant :
    (∀ hash, (claimOwnGrant inventory anchor recipient now claims entry).report.isQuarantined
        hash = claims.report.isQuarantined hash) ∧
    (∀ hash, (claimOwnGrant inventory anchor recipient now claims entry).report.Lists
        .objectResults hash ↔ claims.report.Lists .objectResults hash) := by
  have hf : ∀ field hash, field ≠ .signatureErrors → field ≠ .decryptionErrors →
      ((claimOwnGrant inventory anchor recipient now claims entry).report.Lists field hash ↔
        claims.report.Lists field hash) := by
    intro field hash hs hd
    rw [lists_claimOwnGrant]
    refine or_iff_left fun h => ?_
    rcases (grantFault_eq_some h.2).1 with rfl | rfl
    · exact hs rfl
    · exact hd rfl
  refine ⟨fun hash => ?_, fun hash => hf _ hash (by simp) (by simp)⟩
  rw [Bool.eq_iff_iff, isQuarantined_iff, isQuarantined_iff]
  exact hf _ hash (by simp) (by simp)

/-- **What the claims add.** -/
theorem lists_claimOwnGrants {placed : List (Parsed EntryPackage)} :
    (claimOwnGrants inventory anchor opts report placed).report.Lists field hash ↔
      report.Lists field hash ∨ ∃ recipient, opts.recipient = some recipient ∧
        ∃ entry ∈ placed, report.Lists .objectResults entry.objectHash ∧
          grantFault inventory anchor recipient (effectiveNow opts report) report entry =
            some (field, hash) := by
  unfold claimOwnGrants
  cases opts.recipient with
  | none => simp
  | some recipient =>
    simp only [Option.some.injEq, exists_eq_left']
    refine foldl_or_of_frame (f := claimOwnGrant inventory anchor recipient _)
      (P := fun claims => claims.report.Lists field hash)
      (fun _ _ _ => lists_claimOwnGrant) fun claims a b => ?_
    obtain ⟨hq, hr⟩ := frame_claimOwnGrant inventory anchor recipient
      (effectiveNow opts report) claims a
    simp only [hr, grantFault, historicalFault, initialFault, hq]

theorem frame_claimOwnGrants {placed : List (Parsed EntryPackage)} (hR : Framed P R) :
    R report (claimOwnGrants inventory anchor opts report placed).report := by
  have ho : ∀ claims grant out, R claims.report (recordDecapsulation claims grant out).report := by
    intro claims grant out
    cases out with
    | ok _ => exact hR.refl _
    | error error => exact hR.addDecryptionError _ _ _
  unfold claimOwnGrants
  split
  · exact hR.refl _
  · refine hR.foldl (g := GrantClaims.report) (s := { report }) fun claims entry _ => ?_
    unfold claimOwnGrant
    split
    · exact hR.refl _
    · split
      · dsimp only [claimHistoricalGrant]
        split
        · refine hR.trans ?_ (ho _ _ _)
          exact hR.trans (hR.addRecipientGrant _ _ _ _) (hR.addThumbprint _ _)
        · exact hR.trans (hR.addRecipientGrant _ _ _ _) (hR.addSignatureError _ _ _)
        · exact hR.refl _
      · dsimp only [claimInitialGrant]
        split
        · exact hR.addRecipientGrant _ _ _ _
        · split
          · exact hR.trans (hR.addRecipientGrant _ _ _ _) (hR.addSignatureError _ _ _)
          · refine hR.trans ?_ (ho _ _ _)
            exact hR.trans (hR.addRecipientGrant _ _ _ _) (hR.addThumbprint _ _)

omit [Crypto] [EscrowRules] in
/-- Only the published head changes. -/
theorem frame_publishChainHead {chain : Option VerifiedChain} :
    (publishChainHead report chain).Lists = report.Lists ∧
      (publishChainHead report chain).placement = report.placement ∧
      (publishChainHead report chain).objectResults = report.objectResults ∧
      (publishChainHead report chain).quarantinedObjects = report.quarantinedObjects := by
  unfold publishChainHead
  split <;> exact ⟨rfl, rfl, rfl, rfl⟩

end Recipient

/-! ## 4. Stubs -/

section Stubs

variable {chainId : ChainId} {nodes : List ChainNode} {approved : List ObjectHash}
  {stubCandidates : List (Parsed DestroyedEntryStub)}
  {atts : Std.TreeMap ObjectHash DeletionAttestationFields}
  {evidence evidence' : List VerifiedEvidence}

omit [EscrowRules]

/-- A stub is approved by its evidence, unless it is quarantined. -/
theorem mem_approvedStubs : hash ∈ approvedStubs report inventory stubCandidates atts
    evidence ↔ ∃ stub ∈ stubCandidates, ¬ report.Lists .quarantinedObjects stub.objectHash ∧
      evidenceHolds stub evidence atts inventory = true ∧ stub.objectHash = hash := by
  simp [approvedStubs, ← isQuarantined_iff, and_assoc]

/-- Less evidence approves fewer stubs. -/
theorem approvedStubs_mono (h : evidence' ⊆ evidence) :
    approvedStubs report inventory stubCandidates atts evidence' ⊆
      approvedStubs report inventory stubCandidates atts evidence := by
  intro _ hh
  obtain ⟨stub, hs, hq, hev, rfl⟩ := mem_approvedStubs.mp hh
  refine mem_approvedStubs.mpr ⟨stub, hs, hq, ?_, rfl⟩
  simp only [evidenceHolds, Option.any_eq_true] at hev ⊢
  obtain ⟨auth, ha, hev⟩ := hev
  obtain ⟨proof, hp, hho⟩ := List.any_eq_true.mp hev
  exact ⟨auth, ha, List.any_eq_true.mpr ⟨proof, h hp, hho⟩⟩

omit [Crypto] in
/-- A second, narrower selection is enough. -/
theorem retainNodes_retainNodes {kept : List ObjectHash} (h : approved ⊆ kept) :
    retainNodes approved (retainNodes kept nodes) = retainNodes approved nodes := by
  simp only [retainNodes, List.filter_filter]
  refine List.filter_congr fun node _ => ?_
  by_cases hm : node.objectHash ∈ approved
  · simp [hm, h hm]
  · cases node.kind <;> simp [hm]

omit [Crypto] in
/-- **The loop ends with the nodes of the approved stubs**, and the approved stubs are those of a
part of the evidence. -/
theorem convergeStubs_spec (chainId : ChainId) (evidence : List VerifiedEvidence)
    (approve : List VerifiedEvidence → List ObjectHash)
    (hm : ∀ e e', e' ⊆ e → approve e' ⊆ approve e) {fuel : Nat} (hf : nodes.length < fuel) :
    (convergeStubs chainId approve fuel evidence nodes).2 =
        retainNodes (convergeStubs chainId approve fuel evidence nodes).1 nodes ∧
      ∃ e, e ⊆ evidence ∧ (convergeStubs chainId approve fuel evidence nodes).1 = approve e := by
  induction fuel generalizing evidence nodes with
  | zero => omega
  | succ fuel ih =>
    have hs : retainEvidence chainId nodes evidence ⊆ evidence :=
      fun _ h => List.mem_of_mem_filter h
    dsimp only [convergeStubs]
    split
    · exact ⟨rfl, _, hs, rfl⟩
    next hne =>
      have hle : (retainNodes (approve (retainEvidence chainId nodes evidence)) nodes).length ≤
          nodes.length := List.length_filter_le _ _
      obtain ⟨hn, e, he, ha⟩ := ih (retainEvidence chainId nodes evidence)
        (show (retainNodes (approve (retainEvidence chainId nodes evidence)) nodes).length < fuel
          by omega)
      refine ⟨?_, e, List.Subset.trans he hs, ha⟩
      rw [hn]
      exact retainNodes_retainNodes (ha ▸ hm _ _ he)

/-- The gaps at the sequences of the candidates that were not approved. -/
def unapprovedGaps (chainId : ChainId) (approved : List ObjectHash)
    (stubCandidates : List (Parsed DestroyedEntryStub)) : List ChainGap :=
  (stubCandidates.filter fun stub => !approved.contains stub.objectHash).map fun stub =>
    let sequence := stub.value.signedManifest.manifest.chainSequence
    ⟨chainId, sequence, sequence⟩

/-- The report before the second placement. -/
def cleared (chainId : ChainId) (approved : List ObjectHash) (report : VerificationReport) :
    VerificationReport :=
  { approved.foldl (fun report hash => report.addResult hash destroyedResult) report with
    gaps := ∅, chainHead := sentinel chainId }

omit [Crypto] in
/-- Clearing adds the results of the approved stubs. -/
theorem lists_cleared : (cleared chainId approved report).Lists field hash ↔
    report.Lists field hash ∨ field = .objectResults ∧ hash ∈ approved := by
  have hf := foldl_or (l := approved) (s := report) (P := (·.Lists field hash))
    (f := fun report hash => report.addResult hash destroyedResult)
    fun _ _ _ => lists_addResult
  refine Iff.trans Iff.rfl (hf.trans ?_)
  grind

omit [Crypto] in
theorem getElem?_cleared (chainId : ChainId) :
    (cleared chainId approved report).objectResults[hash]? =
    if hash ∈ approved then some destroyedResult else report.objectResults[hash]? := by
  change (approved.foldl (fun report hash => report.addResult hash destroyedResult)
    report).objectResults[hash]? = _
  induction approved generalizing report with
  | nil => simp
  | cons first approved ih =>
    rw [List.foldl_cons, ih, VerificationReport.addResult, Std.TreeMap.getElem?_insert]
    by_cases hm : hash ∈ approved
    · simp [hm]
    · by_cases he : first = hash
      · simp [he]
      · simp [hm, he, Ne.symm he]

section Settle

variable (hbu : buildChain anchor.chainId nodes = .ok (analyse anchor.chainId nodes))

include hbu

section

omit [Crypto]

/-- The stage in three steps: clear, place, record what is left. -/
theorem settleStubs_eq : settleStubs anchor stubCandidates approved nodes report =
    stubCandidates.foldl (recordUnapproved anchor approved)
      (recordChain (cleared anchor.chainId approved report) (analyse anchor.chainId nodes)) := by
  dsimp only [settleStubs, placeInChain]
  rw [hbu]
  rfl

/-- **What the second placement adds**: the results of the approved stubs, and the quarantine of
what the second chain names. -/
theorem lists_settleStubs :
    (settleStubs anchor stubCandidates approved nodes report).Lists field hash ↔
      report.Lists field hash ∨ field = .objectResults ∧ hash ∈ approved ∨
        field = .quarantinedObjects ∧ (analyse anchor.chainId nodes).Names hash := by
  rw [settleStubs_eq hbu]
  have hf : ∀ s : VerificationReport,
      (stubCandidates.foldl (recordUnapproved anchor approved) s).Lists = s.Lists := fun s =>
    foldl_frame fun s stub _ => by
      dsimp only [recordUnapproved]
      split <;> rfl
  rw [hf, lists_recordChain, lists_cleared, or_assoc]

/-- The gaps of the second placement, and one for each stub that is left. -/
theorem placement_settleStubs :
    (settleStubs anchor stubCandidates approved nodes report).placement =
      ⟨(unapprovedGaps anchor.chainId approved stubCandidates).foldl insertGapIfNew
          ((analyse anchor.chainId nodes).gaps.foldl insertGap ∅),
        (analyse anchor.chainId nodes).verifiedHead.getD (sentinel anchor.chainId),
        report.rollback⟩ := by
  rw [settleStubs_eq hbu]
  have hu : ∀ s : VerificationReport,
      (stubCandidates.foldl (recordUnapproved anchor approved) s).placement =
        ⟨(unapprovedGaps anchor.chainId approved stubCandidates).foldl insertGapIfNew s.gaps,
          s.chainHead, s.rollback⟩ := by
    induction stubCandidates with
    | nil => exact fun _ => rfl
    | cons stub _ ih =>
      intro s
      rw [List.foldl_cons, ih]
      dsimp only [recordUnapproved, unapprovedGaps]
      rw [List.filter_cons]
      cases approved.contains stub.objectHash <;> rfl
  have hr : (cleared anchor.chainId approved report).rollback = report.rollback :=
    foldl_frame (g := VerificationReport.rollback) fun _ _ _ => rfl
  have hp := placement_recordChain (cleared anchor.chainId approved report)
    (analyse anchor.chainId nodes)
  simp only [VerificationReport.placement, Placement.mk.injEq] at hp
  rw [hu, hp.1, hp.2.1, hp.2.2, hr]
  rfl

theorem objectResults_settleStubs :
    (settleStubs anchor stubCandidates approved nodes report).objectResults[hash]? =
      if hash ∈ approved then some destroyedResult else report.objectResults[hash]? := by
  rw [settleStubs_eq hbu, ← getElem?_cleared anchor.chainId]
  congr 1
  have hu : ∀ s : VerificationReport,
      (stubCandidates.foldl (recordUnapproved anchor approved) s).objectResults =
        s.objectResults := fun s =>
    foldl_frame fun s stub _ => by
      dsimp only [recordUnapproved]
      split <;> rfl
  exact (hu _).trans objectResults_recordChain

end

end Settle

end Stubs

end Einsatzarchiv.Verify
