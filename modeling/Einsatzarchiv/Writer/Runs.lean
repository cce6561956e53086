/-
  File:      Einsatzarchiv/Writer/Runs.lean
  Subject:   Sessions of an installation, and a small one whose objects are a few bytes long.

  * `Licence.Le`, `guard_mono`: a stronger licence allows less.
  * `heeds_program`: every call heeds the guards of a licence that covers those of its
    finalizations.
  * `orderly_of_effect`, `ready_of_effect`: the effects keep what the calls start from.
  * `read_of_effect`: how a file comes to its name.
  * `installed`, **`ready_run`**: an installation over any archive is ready at every moment.
  * `writerCrypto`, `writerSealing`: an entry is named by its sequence, the hash of its predecessor
    and its nonce, a grant by the hash of its entry; the entry hash is `100 + nonce`.
  * `tableService`, `tableFinalize`: the writer of the organization at a sequence, and the
    finalization of an incident.
  * `tableInstallation`: a new installation over an archive of such objects.
-/
import Einsatzarchiv.Server.Commit
import Einsatzarchiv.Writer.Attempts

namespace Einsatzarchiv.Writer

open Lib Format Chain

/-! ## 1. Licences -/

/-- The second licence vouches for less. -/
structure Licence.Le (licence licence' : Licence) : Prop where
  new : ∀ s hash, licence.New s hash → licence'.New s hash
  marks : ∀ s transaction, licence.Marks s transaction → licence'.Marks s transaction
  erases : ∀ s transaction, licence.Erases s transaction → licence'.Erases s transaction
  books : licence.Books → licence'.Books

theorem Licence.Le.refl (licence : Licence) : licence.Le licence :=
  ⟨fun _ _ h => h, fun _ _ h => h, fun _ _ h => h, id⟩

/-- Any entry, deletion and discard; a marker needs its own bytes staged. -/
def looseLicence : Licence where
  New _ _ := True
  Marks s transaction := transaction.Staging s.files
  Erases _ _ := True
  Books := True

section Guards

variable [Normalization] {lic lic' : Licence} {s t : Installation}

theorem guard_mono (hle : lic.Le lic') {port : Port} (h : Guard lic port s) :
    Guard lic' port s := by
  cases port with
  | replacePreparedFinalizationMarker marker =>
    cases marker with
    | none => exact h
    | some tx => exact h.imp_right (hle.marks s tx)
  | commitDiscardIntent _ => exact h.imp_left hle.books
  | recordOriginalIdentity ident | bindPreparedEntry tx =>
    exact h.imp_right (hle.new s _)
  | deleteKey =>
    exact h.imp_right fun h => h.imp_left fun ⟨tx, hm, he⟩ =>
      ⟨tx, hm, hle.erases s tx he⟩
  | createIfAbsent _ _ =>
    exact h.imp_left fun ⟨hs, hm, hash, hn, hne⟩ =>
      ⟨hs, hm, hash, hn, hle.new s hash hne⟩
  | _ => exact h

end Guards

/-! ## 2. Calls -/

section Calls

variable [Crypto] [Normalization] [Schema] [EvidenceSource] [Sealing]
variable {licence : Licence} {s : Installation}

omit [Normalization] [Schema] [Sealing] in
theorem loose_of_licenceOf (start : Installation) (req : FinalizeCall) :
    (licenceOf start req).Le looseLicence where
  new _ _ _ := trivial
  marks _ _ h pair hp _ hb := Option.some.inj (hb.symm.trans (h.staged pair hp))
  erases _ _ _ := trivial
  books _ := trivial

/-- The licence covers what the call vouches for. -/
def Licence.Covers (licence : Licence) (s : Installation) : WriterCall → Prop
  | .finalize request => (licenceOf s request).Le licence
  | .beginDiscard .. => licence.Books
  | _ => True

omit [Normalization] [Schema] [Sealing] in
theorem loose_covers (s : Installation) (call : WriterCall) : looseLicence.Covers s call := by
  cases call with
  | finalize req => exact loose_of_licenceOf s req
  | _ => exact trivial

/-- **Every call heeds the guards.** -/
theorem heeds_program (hr : Ready s) (call : WriterCall) (hc : licence.Covers s call) :
    call.program.Heeds ports (Guard licence) (fun _ _ => True) s := by
  -- the outcome is wrapped and the error renamed
  have hw : ∀ {ε α : Type} {p : Task ε α} {f : ε → CallError} {g : α → CallOutcome},
      Yields licence p (fun _ _ => True) s →
      Program.Heeds ports (Guard licence) (fun _ _ => True)
        (p.mapError f >>= fun a => pure (g a)) s := by
    intro ε α p f g h
    have hd : Yields licence (p.mapError f >>= fun a => pure (g a)) (fun _ _ => True) s :=
      h.mapError.bind fun _ _ _ => trivial
    exact Program.Heeds.imp hd fun _ _ _ => trivial
  cases call with
  | finalize _ =>
    exact hw (Program.Heeds.mono (does_finalize hr.toOrderly) fun port s h => guard_mono hc h)
  | recoverPending service _ =>
    exact hw ((does_recoverPending hr).imp (fun _ _ _ => trivial))
  | beginDiscard service proof =>
    exact hw (DiscardService.does_beginDiscard hr.keyed hc)
  | resumeDiscard service proof =>
    exact hw (DiscardService.does_resumeDiscard hr.keyed)
  | resumeAfterRestart service proof =>
    exact hw (DiscardService.does_resumeAfterRestart hr.keyed)

end Calls

/-! ## 3. Effects -/

section Effects

variable [Normalization] [EvidenceSource] {lic : Licence} {s t : Installation}

variable {tgt : ArchivePath} {bytes : Bytes}

omit [Normalization] [EvidenceSource] in
/-- What takes a name belongs to the marker. -/
theorem mem_pairs_of_mayPublish (h : s.MayPublish (stagingPath tgt) tgt) :
    ∃ tx bytes, s.marker = some tx ∧ (tgt, bytes) ∈ tx.pairs
      ∧ ¬ s.Opens := by
  obtain ⟨tx, hm, hc, -, ⟨bytes, hp⟩ | ⟨rfl, -⟩⟩ := h
  · exact ⟨tx, bytes, hm, PreparedTransaction.grantPairs_subset hp, hc⟩
  · exact ⟨tx, _, hm, PreparedTransaction.entryPair_mem, hc⟩

theorem orderly_of_effect (h : Orderly s) (he : Effect lic s t) : Orderly t := by
  have hk := keyed_of_effect h.keyed he
  obtain ⟨-, hs, how, hkn⟩ := h
  cases he with
  | claim row claim _ _ _ hon hn =>
    have hma : (s.claims ++ [claim]).map (·.source) = s.claims.map (·.source) ++ [claim.source] :=
      List.map_append
    refine ⟨hk, ?_, fun ident hid => ?_, fun src hsr => ?_⟩
    · rw [hma]
      refine List.Nodup.append hs (List.nodup_singleton _) ?_
      rw [List.disjoint_singleton]
      rintro hm
      obtain ⟨other, ho, heq⟩ := List.mem_map.mp hm
      exact hn other ho heq
    · rw [hma]
      exact List.mem_append_left _ (how ident hid)
    · rw [hma]
      exact List.mem_append_left _ (hkn src hsr)
  | release claim hc =>
    refine ⟨hk, hs, how, fun src hsr => ?_⟩
    rcases List.mem_cons.mp hsr with rfl | hsr
    · exact List.mem_map.mpr ⟨claim, hc, rfl⟩
    · exact hkn src hsr
  | identify ident hon =>
    obtain ⟨row, -, -, claim, hc, hsr, -⟩ := hon.claimed
    exact ⟨hk, hs, forall_mem_concat how (List.mem_map.mpr ⟨claim, hc, hsr⟩), hkn⟩
  | _ => exact ⟨hk, hs, how, hkn⟩

/-- A marker stands already, or is set now. -/
theorem marker_of_effect (he : Effect lic s t) {transaction : PreparedTransaction}
    (h : t.marker = some transaction) :
    s.marker = some transaction ∨ s.marker = none ∧ lic.Marks s transaction := by
  cases he with
  | mark prep hu ha =>
    obtain rfl : prep = transaction := Option.some.inj h
    exact .inr ⟨hu, ha⟩
  | replaceDraft | restore | intend => cases h
  | _ => exact .inl h

omit [Normalization] [EvidenceSource] in
/-- A staged file that takes its name, or gives way to one that stands there. -/
theorem rename_of_publish (hs : s.files.read (stagingPath tgt) = some bytes)
    (ha : s.files.read tgt = none) :
    atomicRenameSameFs s.files (stagingPath tgt) tgt
      = .ok (s.files.remove (stagingPath tgt) ++ [(tgt, bytes)]) :=
  atomicRenameSameFs_eq_ok.mpr ⟨bytes, hs, .inr ⟨ha, rfl⟩⟩

omit [Normalization] [EvidenceSource] in
theorem rename_of_unstage (hs : s.files.read (stagingPath tgt) = some bytes)
    (hp : s.files.read tgt = some bytes) :
    atomicRenameSameFs s.files (stagingPath tgt) tgt = .ok (s.files.remove (stagingPath tgt)) :=
  atomicRenameSameFs_eq_ok.mpr ⟨bytes, hs, .inl ⟨hp, rfl⟩⟩

theorem staged_of_effect (hm : lic.Le looseLicence)
    (h : ∀ transaction ∈ s.marker, transaction.Staging s.files) (he : Effect lic s t) :
    ∀ transaction ∈ t.marker, transaction.Staging t.files := by
  have hr : ∀ {tgt files}, s.MayPublish (stagingPath tgt) tgt →
      atomicRenameSameFs s.files (stagingPath tgt) tgt = .ok files →
      ∀ transaction ∈ s.marker, transaction.Staging files := by
    intro tgt files ha hok transaction htx
    obtain ⟨prep, bytes, hma, hp, -⟩ := mem_pairs_of_mayPublish ha
    obtain rfl : prep = transaction := Option.some.inj (hma.symm.trans htx)
    exact (advance_rename (h _ hma) hp hok).1.staging
  cases he with
  | mark prep hu ha =>
    intro transaction htx
    obtain rfl : prep = transaction := Option.some.inj htx
    exact hm.marks s prep ha
  | replaceDraft | restore | intend => exact fun _ htx => (nomatch htx)
  | stage _ bytes _ _ hu =>
    intro transaction htx
    exact absurd (hu.symm.trans htx) (by simp)
  | publish tgt bytes ha hs hab =>
    exact hr ha (rename_of_publish hs hab)
  | unstage tgt bytes ha hs hpr =>
    exact hr ha (rename_of_unstage hs hpr)
  | _ => exact h

theorem ready_of_effect (hm : lic.Le looseLicence) (h : Ready s) (he : Effect lic s t) : Ready t :=
  ⟨orderly_of_effect h.toOrderly he, staged_of_effect hm h.staged he⟩

/-- **What is new under a name** was staged there for the marker, and the draft is closed. -/
theorem read_of_effect (h : ∀ tx ∈ s.marker, tx.Staging s.files)
    (he : Effect lic s t) {path : ArchivePath} (hpa : path.staging = false)
    (hr : t.files.read path = some bytes) :
    s.files.read path = some bytes
      ∨ s.files.read path = none ∧ s.MayPublish (stagingPath path) path
        ∧ ∃ tx, s.marker = some tx ∧ (path, bytes) ∈ tx.pairs := by
  cases he with
  | stage _ bytes' _ hs =>
    exact .inl ((Files.read_append_staged hs hpa).symm.trans hr)
  | publish tgt bytes' ha hb hab =>
    obtain ⟨prepared, prepared', hm, hp, -⟩ := mem_pairs_of_mayPublish ha
    obtain rfl : bytes' = prepared' := h prepared hm _ hp bytes' hb
    obtain ⟨staged, hread', -, haf⟩ := read_of_rename
      (PreparedTransaction.staging_eq_false hp) (rename_of_publish hb hab)
    obtain rfl : staged = bytes' := Option.some.inj (hread'.symm.trans hb)
    rw [haf] at hr
    split at hr
    · cases hr
    · split at hr
      · rename_i heq
        obtain rfl : staged = bytes := Option.some.inj hr
        subst heq
        exact .inr ⟨hab, ha, prepared, hm, hp⟩
      · exact .inl hr
  | unstage tgt bytes' ha hb _ =>
    rw [Files.read_remove] at hr
    split at hr
    · cases hr
    · exact .inl hr
  | _ => exact .inl hr

end Effects

/-! ## 4. Sessions -/

section

variable (archive : Files) (profile : Option OperatorProfile) (receipts : List (EventId × Bytes))
  (retained : List NumberKey)

/-- A new installation over an archive. -/
def installed : Installation where
  files := archive
  profile := profile
  receipts := receipts
  retained := retained

theorem ready_installed : Ready (installed archive profile receipts retained) where
  keyed := ⟨fun _ h => (nomatch h), fun _ h => (nomatch h), fun _ h => (nomatch h),
    fun _ h => (nomatch h)⟩
  single := List.nodup_nil
  owned _ h := (nomatch h)
  known _ h := (nomatch h)
  staged _ h := (nomatch h)

end

section Sessions

variable [Crypto] [Normalization] [Schema] [EvidenceSource] [Sealing]

/-- **An installation is ready at every moment**, whatever fails and whenever it dies. -/
theorem ready_run {s : Installation} (h : Ready s) (turns : List (Turn WriterCall)) :
    Ready (installation.run ⟨s, none⟩ turns).state := by
  have hso : installation.Sound Ready (Guard looseLicence) ⟨s, none⟩ := ⟨h, fun _ h => (nomatch h)⟩
  refine (hso.run (fun call _ s hs => ?_) (fun s t hs hc => ?_)).1.inv
  · exact heeds_program hs call (loose_covers s call)
  · exact ready_of_effect (.refl _) hs (effect_of_change hc)

end Sessions

open Trust Server

deriving instance DecidableEq for CoseSign1
deriving instance DecidableEq for EntryPackage
deriving instance DecidableEq for GrantBodyFields
deriving instance DecidableEq for Grant

/-! ## 5. Objects -/

/-- The byte 255 stands for the last sequence of the range. -/
def tableSequence (sequence : UInt8) : Nat :=
  if sequence = 255 then u64Max else sequence.toNat

/-- The first entry has no predecessor. -/
def tablePrevious (sequence previous : UInt8) : Option EntryHash :=
  if tableSequence sequence = 0 then none else some previous.toNat

/-- The entry of three numbers. -/
def tableEntry (sequence previous nonce : UInt8) : EntryPackage :=
  ⟨tableManifest nonce.toNat (tableSequence sequence) (tablePrevious sequence previous), [],
    signedBy .recordDigest 104 20⟩

def entryBlob (sequence previous nonce : UInt8) : Bytes :=
  exactObjectPrefix .entry ++ [sequence, previous, nonce]

def grantValue (entryHash : EntryHash) : Grant :=
  ⟨⟨1, 2, entryHash, .initial, .recovery, 200, 40, 104, 20, 3, 42, none, none, [], []⟩,
    signedBy .grantDigest 104 20⟩

def grantBlob (entryHash : UInt8) : Bytes := exactObjectPrefix .grant ++ [entryHash]

def tableDecode (bytes : Bytes) : Except FormatError ArchiveObject :=
  match bytes.drop 9 with
  | [sequence, previous, nonce] => .ok (.entry (tableEntry sequence previous nonce))
  | [entryHash] => .ok (.grant (grantValue entryHash.toNat))
  | _ => .error .shape

/-- The byte of a sequence. -/
def sequenceByte (sequence : Nat) : UInt8 :=
  if sequence = u64Max then 255 else UInt8.ofNat sequence

/-- Entries of the table have bytes, others are refused. -/
def encodeEntry (entry : EntryPackage) : Except FormatError Bytes :=
  let manifest := entry.signedManifest.manifest
  let sequence := sequenceByte manifest.chainSequence
  let previous := UInt8.ofNat (manifest.previousEntryHash.getD 0)
  let nonce := UInt8.ofNat manifest.nonce
  if tableEntry sequence previous nonce = entry then .ok (entryBlob sequence previous nonce)
  else .error .shape

def encodeGrantValue (grant : Grant) : Except FormatError Bytes :=
  let entryHash := UInt8.ofNat grant.grantBody.entryHash
  if grantValue entryHash.toNat = grant then .ok (grantBlob entryHash) else .error .shape

variable {entry : EntryPackage} {bytes : Bytes}

theorem tableDecode_of_encodeEntry (h : encodeEntry entry = .ok bytes) :
    tableDecode bytes = .ok (.entry entry) := by
  unfold encodeEntry at h
  dsimp only at h
  split at h
  · rename_i he
    obtain rfl := Except.ok.inj h
    exact congrArg (fun entry => Except.ok (ArchiveObject.entry entry)) he
  · cases h

theorem framed_of_encodeEntry (h : encodeEntry entry = .ok bytes) :
    Archive.hasExactObjectPrefix bytes = true := by
  unfold encodeEntry at h
  dsimp only at h
  split at h
  · obtain rfl := Except.ok.inj h
    rfl
  · cases h

theorem tableDecode_of_encodeGrantValue {grant : Grant} (h : encodeGrantValue grant = .ok bytes) :
    tableDecode bytes = .ok (.grant grant) := by
  unfold encodeGrantValue at h
  dsimp only at h
  split at h
  · rename_i hg
    obtain rfl := Except.ok.inj h
    exact congrArg (fun grant => Except.ok (ArchiveObject.grant grant)) hg
  · cases h

/-- The file of an entry under its name. -/
def entryFile (sequence previous nonce : UInt8) : ArchivePath × Bytes :=
  (⟨.entry (tableSequence sequence) (100 + nonce.toNat), false⟩, entryBlob sequence previous nonce)

/-! ## 6. Primitives -/

/-- The cryptography of the example: a hash is the number the bytes spell. -/
@[reducible] def writerCrypto : Crypto :=
  { tableCrypto fun _ => none with
    objectHash := fun bytes => bytes.foldl (fun number byte => 256 * number + byte.toNat + 1) 0
    decode := tableDecode
    publicKey := fun bytes => some (.x25519 bytes) }

@[reducible] def writerSealing : @Sealing writerCrypto :=
  let := writerCrypto
  { recordDigest := fun _ => 0
    finalizationPreviewDigest := fun _ => 0
    aeadSeal := fun _ _ _ => []
    ciphertextHash := fun _ => 0
    sign := fun certificate content =>
      match content with
      | .record _ => signedBy .recordDigest 104 certificate
      | _ => signedBy .grantDigest 104 certificate
    hpkeSeal := fun _ _ _ => ([], [])
    encodeEntryPackage := encodeEntry
    encodeGrant := encodeGrantValue
    decode_encodeEntryPackage := fun _ _ h => tableDecode_of_encodeEntry h
    decode_encodeGrant := fun _ _ h => tableDecode_of_encodeGrantValue h
    framed_encodeEntryPackage := fun _ _ h => framed_of_encodeEntry h }

/-- Texts stay as they are. -/
@[reducible] def plainTexts : Normalization := ⟨id⟩

/-- Every record is well formed. -/
@[reducible] def openSchema : Schema where
  check _ := .ok ()
  localCivilYear _ := .ok 2024
  encodePayload _ := .ok []

@[reducible] def noEvidence : EvidenceSource where
  accepts _ := false
  validateForWriter _ _ _ _ _ := false

/-! ## 7. The writer -/

def tableProfile : OperatorProfile := ⟨1, 7, 8, "", "", []⟩

/-- The writer of the organization, bound to a head for the sequence. -/
def tableService (sequence : Nat) (h : sequence ≤ u64Max := by decide) : WriterService where
  head := {
    registryVersion := 3
    registryHeadHash := 42
    chainId := 2
    policyObjectHash := 9
    policy := ⟨1, 0, 0, 0, [5]⟩
    effectiveFromSequence := 0
    validThroughSequence := u64Max
    proposedSequence := sequence
    notAfter := 100
    issuedAt := 0
    preexistingEffectiveNow := 10
    activeCertificates := [(40, recoveryCertificate)]
    currentWriterCertificateHash := some 20
    effectiveWriterTransition := none
    activeOperatorBindings := [(8, ⟨1, 7, 0, 20, .writer, 0, 0, 0, none⟩)]
    proposedSequence_le := h }
  checkpointClaims := []
  binding := ⟨8, 20, 104, 2, 5⟩

def tableProof (purpose : ReauthPurpose) : OperatorSessionProof where
  purpose := purpose
  organizationId := 1
  deviceId := 20
  bindingObjectHash := 8
  contextHash := none
  issuedAt := 0
  expiresAt := 100

/-- The finalization of an incident with this number. -/
def tableFinalize (sequence : Nat) (number : String) (h : sequence ≤ u64Max := by decide) :
    FinalizeCall where
  service := tableService sequence h
  proof := tableProof .finalize
  content := .incident ⟨"UTC", "manual", number, []⟩
  confirmed := ⟨⟨1, 2, 42, 3, 100, 9, sequence, none, 0, 0, 10⟩, 0, 6, .fresh, 10, 0⟩
  observedNow := 10

/-- A new installation over an archive of the table. -/
def tableInstallation (archive : Files) : Installation :=
  installed archive (some tableProfile) [] []

/-- The state after the turns. -/
def tableRun (s : Installation) (turns : List (Turn WriterCall)) : Installation :=
  let := writerCrypto
  let := writerSealing
  let := plainTexts
  let := openSchema
  let := noEvidence
  (installation.run ⟨s, none⟩ turns).state

/-- A call whose first operations answer. -/
def answered (call : WriterCall) (operations : Nat) : List (Turn WriterCall) :=
  .start call :: (List.replicate operations Fate.answered).map .proceed

end Einsatzarchiv.Writer
