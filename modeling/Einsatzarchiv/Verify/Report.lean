/-
  File:      Einsatzarchiv/Verify/Report.lean
  Subject:   The verification report (crate `ea-verify`, `report.rs`).

  * `VerificationReport`: the fields of the report and the operations the gates write them with.
    The canonical JSON and the report hash, which no gate reads, are left out.
  * `VerificationReport.isFullyVerified`: the verdict.
  * `VerificationReport.Lists`: a field of the report lists an object.  Each operation adds one
    object to one field and takes none away.
  * `VerificationReport.placement`: what the chain stages write and no other gate touches.
  * `Framed`: a preorder in which errors, key thumbprints, times and quarantine lead upwards.
-/
import Einsatzarchiv.Archive.Inventory
import Einsatzarchiv.Chain.Rollback

namespace Einsatzarchiv.Verify

open Lib Format Archive Chain

/-! ## 1. Results and errors -/

inductive ObjectResultKind
  | valid | authorizedDestroyed
deriving DecidableEq

inductive ServerConfirmation
  | serverConfirmed | notServerConfirmed
deriving DecidableEq

/-- The result of an object; the report keeps it under the hash of the object. -/
structure ObjectResult where
  objectType : ObjectType
  result : ObjectResultKind
  serverConfirmation : ServerConfirmation
deriving DecidableEq

structure ObjectError where
  objectHash : ObjectHash
  code : String
deriving DecidableEq

/-- How far a destruction is. -/
inductive DestructionState
  | requested | inProgress | pendingBackupExpiry | completeManagedScope
  | incompleteUnreachableReplica
deriving DecidableEq

/-- A destruction in its last state; the report keeps it under its identifier. -/
structure AuthorizedDestruction where
  authorizationObjectHash : ObjectHash
  state : DestructionState
deriving DecidableEq

/-- The head of a chain without a verified node. -/
def sentinel (chainId : ChainId) : ChainHead := ⟨chainId, 0, 0⟩

/-- The key of a gap: its chain and its first sequence. -/
abbrev GapKey := ChainId ×ₗ Nat

instance : Std.LawfulEqOrd GapKey where
  eq_of_compare {a b} h := by
    obtain ⟨h₁, h₂⟩ := Ordering.then_eq_eq.mp h
    exact Prod.ext (Nat.compare_eq_eq.mp h₁) (Nat.compare_eq_eq.mp h₂)

/-- A gap replaces one with the same first sequence. -/
def insertGap (gaps : Std.TreeMap GapKey ChainGap) (gap : ChainGap) :
    Std.TreeMap GapKey ChainGap :=
  gaps.insert (toLex (gap.chainId, gap.fromSequence)) gap

/-- A gap does not replace one with the same first sequence. -/
def insertGapIfNew (gaps : Std.TreeMap GapKey ChainGap) (gap : ChainGap) :
    Std.TreeMap GapKey ChainGap :=
  gaps.insertIfNew (toLex (gap.chainId, gap.fromSequence)) gap

variable {gaps : Std.TreeMap GapKey ChainGap} {l : List ChainGap}

/-- No gap is lost on the way. -/
theorem isEmpty_insertGaps :
    (l.foldl insertGap gaps).isEmpty = true ↔ l = [] ∧ gaps.isEmpty = true := by
  induction l generalizing gaps with
  | nil => simp
  | cons _ l ih => simp [ih, insertGap]

theorem isEmpty_insertGapsIfNew :
    (l.foldl insertGapIfNew gaps).isEmpty = true ↔ l = [] ∧ gaps.isEmpty = true := by
  induction l generalizing gaps with
  | nil => simp
  | cons _ l ih => simp [ih, insertGapIfNew]

/-! ## 2. The report -/

/-- What a verification finds. -/
structure VerificationReport where
  archiveObjectCount : Nat := 0
  entryPackageCount : Nat := 0
  destroyedEntryCount : Nat := 0
  nonObjectFileCount : Nat := 0
  chainHead : ChainHead
  publicChainHead : Option ChainHead := none
  registryVersions : Finset Nat := ∅
  objectResults : Std.TreeMap ObjectHash ObjectResult := ∅
  authorizedDestructions : Std.TreeMap DestructionId AuthorizedDestruction := ∅
  gaps : Std.TreeMap GapKey ChainGap := ∅
  formatErrors : Std.ExtTreeMap ObjectHash String := ∅
  quarantinedObjects : Std.ExtTreeMap ObjectHash QuarantineReason := ∅
  signatureErrors : Finset ObjectError := ∅
  evidenceErrors : Finset ObjectError := ∅
  decryptionErrors : Finset ObjectError := ∅
  publicKeyThumbprints : Finset KeyThumbprint := ∅
  rollback : RollbackAssessment := .notAssessable
  pipelineCompleted : Bool := false
  verifiedTimeFloor : Option Int := none
  recipientGrants : Std.TreeMap EntryHash (ObjectHash × Option Int) := ∅

namespace VerificationReport

variable (report : VerificationReport)

/-- `is_fully_verified`: nothing is wrong, missing or left open. -/
def isFullyVerified : Bool :=
  report.pipelineCompleted && report.formatErrors.isEmpty && report.quarantinedObjects.isEmpty
    && report.signatureErrors = ∅
    && report.evidenceErrors = ∅
    && report.decryptionErrors = ∅
    && report.gaps.isEmpty

/-- Whether an object is quarantined. -/
def isQuarantined (objectHash : ObjectHash) : Bool :=
  report.quarantinedObjects.contains objectHash

/-- Whether an object has a signature error. -/
def hasSignatureError (objectHash : ObjectHash) : Bool :=
  ∃ error ∈ report.signatureErrors, error.objectHash = objectHash

/-! ## 3. What the gates write -/

section

variable (objectHash : ObjectHash)

/-- The object is set aside; its first reason stays. -/
def quarantine (reason : QuarantineReason) : VerificationReport :=
  { report with quarantinedObjects := report.quarantinedObjects.insert objectHash reason }

def quarantineUnattributable : VerificationReport :=
  report.quarantine objectHash .unattributable

def quarantineConflicting : VerificationReport :=
  report.quarantine objectHash .conflicting

/-- An object is wrongly signed. -/
def addSignatureError (code : String) : VerificationReport :=
  { report with signatureErrors := insert ⟨objectHash, code⟩ report.signatureErrors }

/-- An evidence object does not count. -/
def addEvidenceError (code : String) : VerificationReport :=
  { report with evidenceErrors := insert ⟨objectHash, code⟩ report.evidenceErrors }

/-- An entry does not open. -/
def addDecryptionError (code : String) : VerificationReport :=
  { report with decryptionErrors := insert ⟨objectHash, code⟩ report.decryptionErrors }

def addResult (result : ObjectResult) : VerificationReport :=
  { report with objectResults := report.objectResults.insert objectHash result }

end

def addThumbprint (thumbprint : KeyThumbprint) : VerificationReport :=
  { report with publicKeyThumbprints := insert thumbprint report.publicKeyThumbprints }

def addRegistryVersion (version : Nat) : VerificationReport :=
  { report with registryVersions := insert version report.registryVersions }

/-- How far a destruction is. -/
def addDestruction (destructionId : DestructionId) (destruction : AuthorizedDestruction) :
    VerificationReport :=
  { report with
    authorizedDestructions := report.authorizedDestructions.insert destructionId destruction }

/-- The latest time the server has signed. -/
def raiseTimeFloor (signedTime : Int) : VerificationReport :=
  { report with
    verifiedTimeFloor := some (report.verifiedTimeFloor.elim signedTime (max · signedTime)) }

/-- The recipient's grant of an entry. -/
def addRecipientGrant (entryHash : EntryHash) (grant : ObjectHash) (expires : Option Int) :
    VerificationReport :=
  { report with recipientGrants := report.recipientGrants.insert entryHash (grant, expires) }

/-- A gap, which replaces one of the same start. -/
def addGap (gap : ChainGap) : VerificationReport :=
  { report with gaps := insertGap report.gaps gap }

/-- A gap, unless there is one of the same start. -/
def addGapIfNew (gap : ChainGap) : VerificationReport :=
  { report with gaps := insertGapIfNew report.gaps gap }

def setChainHead (head : ChainHead) : VerificationReport :=
  { report with chainHead := head }

end VerificationReport

/-! ## 4. What a field lists -/

/-- The fields of the report that list objects. -/
inductive Field
  | objectResults | signatureErrors | evidenceErrors | decryptionErrors | quarantinedObjects
  | formatErrors
deriving DecidableEq

/-- The field of the report lists the object. -/
def VerificationReport.Lists (report : VerificationReport) (field : Field)
    (objectHash : ObjectHash) : Prop :=
  match field with
  | .objectResults => objectHash ∈ report.objectResults
  | .signatureErrors => ∃ error ∈ report.signatureErrors, error.objectHash = objectHash
  | .evidenceErrors => ∃ error ∈ report.evidenceErrors, error.objectHash = objectHash
  | .decryptionErrors => ∃ error ∈ report.decryptionErrors, error.objectHash = objectHash
  | .quarantinedObjects => objectHash ∈ report.quarantinedObjects
  | .formatErrors => objectHash ∈ report.formatErrors

/-- What only the chain stages write. -/
structure Placement where
  gaps : Std.TreeMap GapKey ChainGap
  chainHead : ChainHead
  rollback : RollbackAssessment

/-- What `place_in_chain` reads and writes. -/
def VerificationReport.placement (report : VerificationReport) : Placement :=
  ⟨report.gaps, report.chainHead, report.rollback⟩

namespace VerificationReport

variable {report : VerificationReport} {field : Field} {hash key : ObjectHash}

instance (report : VerificationReport) (field : Field) (hash : ObjectHash) :
    Decidable (report.Lists field hash) :=
  match field with
  | .objectResults => inferInstanceAs (Decidable (hash ∈ report.objectResults))
  | .signatureErrors =>
    inferInstanceAs (Decidable (∃ error ∈ report.signatureErrors, error.objectHash = hash))
  | .evidenceErrors =>
    inferInstanceAs (Decidable (∃ error ∈ report.evidenceErrors, error.objectHash = hash))
  | .decryptionErrors =>
    inferInstanceAs (Decidable (∃ error ∈ report.decryptionErrors, error.objectHash = hash))
  | .quarantinedObjects => inferInstanceAs (Decidable (hash ∈ report.quarantinedObjects))
  | .formatErrors => inferInstanceAs (Decidable (hash ∈ report.formatErrors))

/-- The test of the source in terms of `Lists`. -/
theorem isQuarantined_iff :
    report.isQuarantined hash = true ↔ report.Lists .quarantinedObjects hash :=
  Std.ExtTreeMap.contains_iff_mem

/-- The same for a wrong signature. -/
theorem hasSignatureError_iff :
    report.hasSignatureError hash = true ↔ report.Lists .signatureErrors hash := by
  simp [hasSignatureError, Lists]

section Writes

@[simp] theorem lists_quarantine {reason : QuarantineReason} :
    (report.quarantine hash reason).Lists field key ↔
      report.Lists field key ∨ field = .quarantinedObjects ∧ key = hash := by
  cases field <;> simp [Lists, quarantine, Std.ExtTreeMap.mem_insert, or_comm, @eq_comm _ key hash]

@[simp] theorem lists_quarantineUnattributable :
    (report.quarantineUnattributable hash).Lists field key ↔
      report.Lists field key ∨ field = .quarantinedObjects ∧ key = hash :=
  lists_quarantine

@[simp] theorem lists_quarantineConflicting : (report.quarantineConflicting hash).Lists field key ↔
      report.Lists field key ∨ field = .quarantinedObjects ∧ key = hash :=
  lists_quarantine

variable {code : String}

@[simp] theorem lists_addSignatureError : (report.addSignatureError hash code).Lists field key ↔
      report.Lists field key ∨ field = .signatureErrors ∧ key = hash := by
  cases field <;> simp [Lists, addSignatureError, eq_comm, or_comm]

@[simp] theorem lists_addEvidenceError : (report.addEvidenceError hash code).Lists field key ↔
      report.Lists field key ∨ field = .evidenceErrors ∧ key = hash := by
  cases field <;> simp [Lists, addEvidenceError, eq_comm, or_comm]

@[simp] theorem lists_addDecryptionError : (report.addDecryptionError hash code).Lists field key ↔
      report.Lists field key ∨ field = .decryptionErrors ∧ key = hash := by
  cases field <;> simp [Lists, addDecryptionError, eq_comm, or_comm]

@[simp] theorem lists_addResult {res : ObjectResult} : (report.addResult hash res).Lists field key ↔
      report.Lists field key ∨ field = .objectResults ∧ key = hash := by
  cases field <;> simp [Lists, addResult, Std.TreeMap.mem_insert, or_comm, @eq_comm _ key hash]

/-! Everything else the gates write leaves the lists as they are. -/

variable (report)

@[simp] theorem lists_addThumbprint (tp : KeyThumbprint) :
    (report.addThumbprint tp).Lists = report.Lists := rfl

@[simp] theorem lists_addRegistryVersion (ver : Nat) :
    (report.addRegistryVersion ver).Lists = report.Lists := rfl

@[simp] theorem lists_addDestruction (did : DestructionId) (dest : AuthorizedDestruction) :
    (report.addDestruction did dest).Lists = report.Lists := rfl

@[simp] theorem lists_raiseTimeFloor (signedTime : Int) :
    (report.raiseTimeFloor signedTime).Lists = report.Lists := rfl

@[simp] theorem lists_addRecipientGrant (entryHash : EntryHash) (grant : ObjectHash)
    (expires : Option Int) :
    (report.addRecipientGrant entryHash grant expires).Lists = report.Lists := rfl

@[simp] theorem lists_addGap (gap : ChainGap) : (report.addGap gap).Lists = report.Lists := rfl

@[simp] theorem lists_addGapIfNew (gap : ChainGap) :
    (report.addGapIfNew gap).Lists = report.Lists := rfl

@[simp] theorem lists_setChainHead (head : ChainHead) :
    (report.setChainHead head).Lists = report.Lists := rfl

end Writes

/-- The gaps of a list, one after another. -/
theorem gaps_addGaps (gaps : List ChainGap) :
    (gaps.foldl addGap report).gaps = gaps.foldl insertGap report.gaps := by
  induction gaps generalizing report with
  | nil => rfl
  | cons _ gaps ih => exact ih

/-- **The verdict, read from the lists**: no field but that of the results lists an object, and
there is no gap. -/
theorem isFullyVerified_iff : report.isFullyVerified = true ↔
    report.pipelineCompleted = true ∧ (∀ field hash, report.Lists field hash →
      field = .objectResults) ∧ report.gaps.isEmpty = true := by
  have her : ∀ errors : Finset ObjectError,
      errors = ∅ ↔ ∀ hash, ¬ ∃ error ∈ errors, error.objectHash = hash := by
    intro errors
    rw [Finset.eq_empty_iff_forall_notMem]
    exact ⟨fun h hash ⟨error, he, _⟩ => h error he, fun h error he => h _ ⟨error, he, rfl⟩⟩
  simp only [isFullyVerified, Bool.and_eq_true, decide_eq_true_eq, her,
    Std.ExtTreeMap.isEmpty_iff, Std.ExtTreeMap.eq_empty_iff_forall_not_mem, and_assoc]
  constructor
  · rintro ⟨hc, hf, hq, hs, hev, hd, hg⟩
    refine ⟨hc, fun field hash h => ?_, hg⟩
    cases field with
    | objectResults => rfl
    | signatureErrors => exact absurd h (hs hash)
    | evidenceErrors => exact absurd h (hev hash)
    | decryptionErrors => exact absurd h (hd hash)
    | quarantinedObjects => exact absurd h (hq hash)
    | formatErrors => exact absurd h (hf hash)
  · rintro ⟨hc, hl, hg⟩
    have hn : ∀ field, field ≠ .objectResults → ∀ hash, ¬ report.Lists field hash :=
      fun field hne hash h => hne (hl field hash h)
    exact ⟨hc, hn .formatErrors (by decide), hn .quarantinedObjects (by decide),
      hn .signatureErrors (by decide), hn .evidenceErrors (by decide),
      hn .decryptionErrors (by decide), hg⟩

end VerificationReport

/-! ## 5. Frames -/

/-- What the gates note beside results and the chain. -/
def VerificationReport.noted (report : VerificationReport) :=
  (report.formatErrors, report.quarantinedObjects, report.publicKeyThumbprints,
    report.authorizedDestructions, report.entryPackageCount, report.destroyedEntryCount)

/-- A preorder in which a report rises by errors, by what is noted along the way and by the
quarantine of certain objects; results and the chain stages may leave it. -/
structure Framed (P : ObjectHash → Prop) (R : VerificationReport → VerificationReport → Prop) :
    Prop where
  refl : ∀ s, R s s
  trans : ∀ {s t u}, R s t → R t u → R s u
  addSignatureError : ∀ (s : VerificationReport) hash code, R s (s.addSignatureError hash code)
  addEvidenceError : ∀ (s : VerificationReport) hash code, R s (s.addEvidenceError hash code)
  addDecryptionError : ∀ (s : VerificationReport) hash code, R s (s.addDecryptionError hash code)
  addThumbprint : ∀ (s : VerificationReport) thumbprint, R s (s.addThumbprint thumbprint)
  addRegistryVersion : ∀ (s : VerificationReport) version, R s (s.addRegistryVersion version)
  addDestruction : ∀ (s : VerificationReport) id destruction, R s (s.addDestruction id destruction)
  raiseTimeFloor : ∀ (s : VerificationReport) time, R s (s.raiseTimeFloor time)
  addRecipientGrant : ∀ (s : VerificationReport) entry grant expires,
    R s (s.addRecipientGrant entry grant expires)
  quarantine : ∀ (s : VerificationReport) hash reason, P hash → reason ≠ .malformed →
    R s (s.quarantine hash reason)

/-- A relation that every addition respects is kept by a loop of additions. -/
theorem Framed.foldl {P : ObjectHash → Prop} {R : VerificationReport → VerificationReport → Prop}
    (hR : Framed P R) {α σ : Type} {f : σ → α → σ} {g : σ → VerificationReport} {l : List α} {s : σ}
    (h : ∀ s, ∀ a ∈ l, R (g s) (g (f s a))) : R (g s) (g (l.foldl f s)) :=
  List.foldlRecOn l f (hR.refl _) fun t ht a ha =>
    hR.trans ht (h t a ha)

theorem framed_placement : Framed (fun _ => True) fun s t => t.placement = s.placement := by
  constructor
  case trans => exact fun h h' => h'.trans h
  all_goals
    intros
    rfl

theorem framed_objectResults :
    Framed (fun _ => True) fun s t => t.objectResults = s.objectResults := by
  constructor
  case trans => exact fun h h' => h'.trans h
  all_goals
    intros
    rfl

end Einsatzarchiv.Verify
