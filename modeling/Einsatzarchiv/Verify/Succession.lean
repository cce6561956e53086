/-
  File:      Einsatzarchiv/Verify/Succession.lean
  Subject:   The writers of neighbouring entries.

  An entry is checked against the one head of its own sequence.  What two neighbouring entries say
  about each other follows from the line of heads (`Trust.writer_succession`).

  * `historicalRegistryHead_eq_some`: all heads of a verification are read off one trust.
  * `exists_trust_of_heldTransition`: a transition is an object of the inventory.
  * `writer_change_law`: an entry names a writer transition exactly where the writer changes.
-/
import Einsatzarchiv.Trust.Writers
import Einsatzarchiv.Verify.Runs

namespace Einsatzarchiv.Verify

open Lib Format Archive Chain Trust

/-! ## 1. The checks of one entry -/

variable {transition : EffectiveWriterTransition} {hash : ObjectHash} {sequence : Nat}

section Checks

variable [Crypto] {writer : CertificateHash}

/-- The writer that is active for a head is its current writer. -/
theorem currentWriter_of_writerIsActive {head : HistoricalRegistryAuthority}
    (h : writerIsActive head writer = true) :
    head.state.currentWriterCertificateHash = some writer := by
  simp only [writerIsActive, HistoricalRegistryAuthority.activeCertificateFields,
    Option.any_eq_true, Option.map_eq_some_iff, decide_eq_true_eq] at h
  obtain ⟨_, ⟨_, ha, rfl⟩, hk⟩ := h
  exact (head.state.activeCertificate_eq_some.mp ha).2.2 hk

variable {fields : ManifestCoreFields}

omit [Crypto] in
theorem transitionClaimHolds_none {transition : Option EffectiveWriterTransition}
    (h : transitionClaimHolds fields transition = true)
    (ho : ∀ t ∈ transition, t.effectiveFromSequence ≠ fields.chainSequence) :
    fields.writerTransitionEventHash = none := by
  have hf : transition.filter (·.effectiveFromSequence = fields.chainSequence) = none := by
    simpa using ho
  rw [transitionClaimHolds, hf] at h
  cases hc : fields.writerTransitionEventHash with
  | none => rfl
  | some _ => simp [hc] at h

omit [Crypto] in
theorem transitionClaimHolds_some (h : transitionClaimHolds fields (some transition) = true)
    (hh : transition.effectiveFromSequence = fields.chainSequence) :
    fields.writerTransitionEventHash = some transition.objectHash ∧
      fields.previousEntryHash = some transition.previousEntryHash ∧
      fields.writerCertificateHash = transition.newWriterCertificateHash := by
  have hf : (some transition).filter (·.effectiveFromSequence = fields.chainSequence) =
      some transition := by simp [hh]
  rw [transitionClaimHolds, hf] at h
  cases hc : fields.writerTransitionEventHash with
  | none => simp [hc] at h
  | some _ => simpa [hc, and_assoc] using h

/-- The law for two heads of one trust: either nothing changes, or a transition of the catalog
replaces the writer for good. -/
theorem writer_change_of_heads {trust : VerifiedTrust} {ver ver' : Nat} {hash' : ObjectHash}
    {head head' : HistoricalRegistryAuthority} (hb : trust.previousHead.IsBootstrap)
    (hh : verifyHistoricalRegistryAuthority trust ver hash sequence = .ok head)
    (hhead' : verifyHistoricalRegistryAuthority trust ver' hash' (sequence + 1) = .ok head')
    (hse : fields.chainSequence = sequence + 1) (hwr : writerIsActive head writer = true)
    (hwriter' : writerIsActive head' fields.writerCertificateHash = true)
    (hc : transitionClaimHolds fields head'.effectiveWriterTransition = true) :
    (fields.writerCertificateHash = writer ∧ fields.writerTransitionEventHash = none) ∨
    fields.writerCertificateHash ≠ writer ∧ ∃ transition,
      HeldTransition trust.previousHead.catalog transition ∧
      fields.writerTransitionEventHash = some transition.objectHash ∧
      fields.previousEntryHash = some transition.previousEntryHash ∧
      Retired head'.state writer := by
  have hcu := currentWriter_of_writerIsActive hwr
  have hcurrent' := currentWriter_of_writerIsActive hwriter'
  rcases writer_succession hb hh hhead' hcu with ⟨hsa, _⟩ |
    ⟨transition, ht, hf, hne, hr⟩
  · left
    refine ⟨by simpa [hcurrent'] using hsa, transitionClaimHolds_none hc ?_⟩
    rwa [hse]
  · right
    rw [ht] at hc
    obtain ⟨hev, hp, -⟩ := transitionClaimHolds_some hc (hf.trans hse.symm)
    obtain ⟨-, -, ⟨_, hl, -, hs, -⟩, -⟩ := verifyHistoricalRegistryAuthority_eq_ok hhead'
    have hhe : HeldTransition trust.previousHead.catalog transition := by
      rw [HistoricalRegistryAuthority.effectiveWriterTransition, hs] at ht
      exact (heldTransition_of_lineAt hb hl).2 transition ht
    refine ⟨?_, transition, hhe, hev, hp, hr⟩
    rintro rfl
    -- a retired writer would still be active
    have hn := not_active_of_retired hb hhead' hhead' le_rfl hr
    simp [writerIsActive, hn] at hwriter'

end Checks

section Law

variable [Crypto] [EscrowRules]
variable {inventory : ArchiveInventory} {anchor : TrustAnchor} {options : VerifyOptions}

/-! ## 2. Heads of one trust -/

/-- A head of a verification is an authority of the trust that the inventory and the anchor
determine. -/
theorem historicalRegistryHead_eq_some {ver : Nat} {head : HistoricalRegistryAuthority}
    (h : historicalRegistryHead inventory anchor ver hash sequence = some head) :
    ∃ trust, verifiedTrust (.new (verificationStateKey anchor.organizationId) 0)
        (verificationStateKey anchor.organizationId) anchor inventory = some trust ∧
      verifyHistoricalRegistryAuthority trust ver hash sequence = .ok head := by
  simp only [historicalRegistryHead, some_iff] at h
  exact h

theorem verifyTrust_of_verifiedTrust {store : EphemeralTrustStateStore} {key : TrustStateKey}
    {trust : VerifiedTrust} (h : verifiedTrust store key anchor inventory = some trust) :
    ∃ snap, verifyTrust anchor inventory.trustObjectSource snap = .ok trust := by
  simp only [verifiedTrust, some_iff] at h
  obtain ⟨snap, -, trust, ht, -, -, ⟨⟩⟩ := h
  exact ⟨snap, ht⟩

omit [EscrowRules] in
/-- A transition the catalog holds is an object of the inventory. -/
theorem exists_trust_of_heldTransition {src : ArchiveSource} {snap : TrustStateSnapshot}
    {trust : VerifiedTrust} (hbu : ArchiveInventory.build src = .ok inventory)
    (ht : verifyTrust anchor inventory.trustObjectSource snap = .ok trust)
    (hhe : HeldTransition trust.catalog transition) :
    ∃ obj ∈ inventory.trust, ∃ fields auth,
      obj.objectHash = transition.objectHash ∧
      obj.value.payload = .authorized (.writerTransition fields) auth ∧
      fields.previousEntryHash = transition.previousEntryHash := by
  obtain ⟨record, fields, auth, hg, hp, htr⟩ := hhe
  obtain ⟨-, hr⟩ := TrustCatalog.of_load (verifyTrust_eq_ok ht).1 hg
  simp only [ArchiveInventory.trustObjectSource, Except.ok.injEq, Option.map_eq_some_iff] at hr
  obtain ⟨obj, hf, hb⟩ := hr
  have hm := List.mem_of_find?_eq_some hf
  have hh : obj.objectHash = transition.objectHash := by
    simpa using List.find?_some hf
  -- the bytes were decoded twice, by the inventory and by the catalog
  have hv : obj.value = record.value := by
    have hd := ((build_spec hbu).trust obj hm).decoded
    rw [hb, (trust.catalog.exact hg).decoded] at hd
    simpa using hd.symm
  refine ⟨obj, hm, fields, auth, hh, hv ▸ hp, ?_⟩
  rw [htr]

/-! ## 3. Neighbouring entries -/

/-- **The writers of neighbouring entries.**  Of two entries that were placed at neighbouring
sequences the later one names a writer transition exactly if the writer changes.  The transition
is then an object of the archive that names the predecessor of the entry, and no head of a later
sequence lets the old writer write again. -/
theorem writer_change_law {source : ArchiveSource}
    (hbuild : ArchiveInventory.build source = .ok inventory) {before after : Parsed EntryPackage}
    (hbefore : before ∈ (verifyRun inventory anchor options).placed)
    (hafter : after ∈ (verifyRun inventory anchor options).placed)
    (hnext : after.value.signedManifest.manifest.chainSequence =
      before.value.signedManifest.manifest.chainSequence + 1) :
    (after.value.signedManifest.manifest.writerTransitionEventHash.isSome ↔
      after.value.signedManifest.manifest.writerCertificateHash ≠
        before.value.signedManifest.manifest.writerCertificateHash) ∧
    (after.value.signedManifest.manifest.writerCertificateHash ≠
        before.value.signedManifest.manifest.writerCertificateHash →
      (∃ object ∈ inventory.trust, ∃ fields authorization,
        after.value.signedManifest.manifest.writerTransitionEventHash = some object.objectHash ∧
        object.value.payload = .authorized (.writerTransition fields) authorization ∧
        after.value.signedManifest.manifest.previousEntryHash = some fields.previousEntryHash) ∧
      ∀ version hash sequence head,
        after.value.signedManifest.manifest.chainSequence ≤ sequence →
        historicalRegistryHead inventory anchor version hash sequence = some head →
        writerIsActive head before.value.signedManifest.manifest.writerCertificateHash
          = false) := by
  have hru : RunOf source.blobs inventory anchor options (verifyRun inventory anchor options) :=
    ⟨build_spec hbuild, rfl⟩
  obtain ⟨head, _, hhe, hac, -, -, -⟩ := faultField_eq_none.mp (hru.mem_placed.mp hbefore).2.2
  obtain ⟨_, _, hhead', hactive', -, -, hc⟩ := faultField_eq_none.mp (hru.mem_placed.mp hafter).2.2
  obtain ⟨trust, ht, ha⟩ := historicalRegistryHead_eq_some hhe
  obtain ⟨trust', htrust', hauthority'⟩ := historicalRegistryHead_eq_some hhead'
  obtain rfl : trust = trust' := by simpa [ht] using htrust'
  obtain ⟨_, hv⟩ := verifyTrust_of_verifiedTrust ht
  have hb := isBootstrap_of_verifyTrust hv
  rw [hnext] at hauthority'
  rcases writer_change_of_heads hb ha hauthority' hnext hac hactive' hc with
    ⟨hs, hn⟩ | ⟨hch, transition, hhl, hev, hp, hr⟩
  · simp [hs, hn]
  · refine ⟨by simp [hev, hch], fun _ => ⟨?_, ?_⟩⟩
    · rw [catalog_of_verifyTrust hv] at hhl
      obtain ⟨object, hm, fields, authorization, hh, hpa, hf⟩ :=
        exists_trust_of_heldTransition hbuild hv hhl
      exact ⟨object, hm, fields, authorization, by rw [hev, hh], hpa, by rw [hp, hf]⟩
    · intro version hash sequence later hle hl
      obtain ⟨trust', htrust', hauthority''⟩ := historicalRegistryHead_eq_some hl
      obtain rfl : trust = trust' := by simpa [ht] using htrust'
      have hn := not_active_of_retired hb hauthority' hauthority'' (hnext ▸ hle) hr
      simp [writerIsActive, hn]

end Law

section Example

/-- A registry event that takes effect at a later sequence. -/
def startingAt (sequence : Nat) : ArchiveObject → ArchiveObject
  | .trust ⟨.authorized (.registryEvent fields) authorization, signatures⟩ =>
    .trust ⟨.authorized (.registryEvent { fields with effectiveFromSequence := sequence })
      authorization, signatures⟩
  | object => object

/-- The second entry of `twoWriters`, by the new writer. -/
def successorManifest : SignedManifest :=
  let manifest := underHead 5 52 (writerManifest 1 1 (some 100))
  { manifest with manifest := { manifest.manifest with
      writerCertificateHash := 40
      writerTransitionEventHash := some 50 } }

/-- `organization` with a second writer (certificate 40), who takes over at sequence one by
transition 50.  Event 42 of version 4 is the head of entry zero, event 52 of version 5 that of
entry one. -/
def twoWriters : TableArchive where
  table
    | 40 => some (trustObject (.authorized (.device (deviceCertificate 40 .writer 106 [] none)) 41)
        101 1)
    | 41 => some (adminAuthorization 41 3 32 0 .deviceCertificate)
    | 42 => some (registryEvent 4 (some 32) (.certificate 40) 43)
    | 43 => some (adminAuthorization 43 3 32 0 .registryEvent)
    | 50 => some (trustObject (.authorized (.writerTransition ⟨1, 2, 20, 40, 1, 100⟩) 51) 101 1)
    | 51 => some (adminAuthorization 51 4 42 3 .writerTransition)
    | 52 => some (startingAt 1 (registryEvent 5 (some 42) (.writerTransition 50) 53))
    | 53 => some (adminAuthorization 53 4 42 3 .registryEvent)
    | 60 => some (entryPackage (underHead 4 42 (writerManifest 0 0 none)))
    | 61 => some (.entry ⟨successorManifest, [], signedBy .recordDigest 106 40⟩)
    | hash => organization hash
  delivered := organizationNames ++ [40, 41, 42, 43, 50, 51, 52, 53, 60, 61]

theorem writer_change_law_twoWriters :
    let := twoWriters.crypto
    let := twoWriters.escrowRules
    ∃ inventory before after, ArchiveInventory.build twoWriters.source = .ok inventory ∧
      before ∈ (verifyRun inventory organizationAnchor { osWallClock := 15 }).placed ∧
      after ∈ (verifyRun inventory organizationAnchor { osWallClock := 15 }).placed ∧
      after.value.signedManifest = successorManifest ∧
      (∃ object ∈ inventory.trust, successorManifest.manifest.writerTransitionEventHash =
        some object.objectHash) ∧
      ∀ version hash sequence head, 1 ≤ sequence →
        historicalRegistryHead inventory organizationAnchor version hash sequence = some head →
        writerIsActive head before.value.signedManifest.manifest.writerCertificateHash = false := by
  intro _ _
  have hp : (ArchiveInventory.build twoWriters.source).toOption.any (fun inventory =>
      let placed := (verifyRun inventory organizationAnchor { osWallClock := 15 }).placed
      ∃ before ∈ placed, ∃ after ∈ placed, before.value.signedManifest.manifest.chainSequence = 0
        ∧ before.value.signedManifest.manifest.writerCertificateHash = 20
        ∧ after.value.signedManifest = successorManifest) = true := by decide +kernel
  cases hb : ArchiveInventory.build twoWriters.source with
  | error error => simp [hb, Except.toOption] at hp
  | ok inventory =>
    simp only [hb, Except.toOption, Option.any_some, decide_eq_true_eq] at hp
    obtain ⟨before, hbe, after, ha, hz, hold, hne⟩ := hp
    have hl := writer_change_law hb hbe ha (by rw [hz, hne]; rfl)
    rw [hne] at hl
    obtain ⟨⟨object, hm, _, _, hev, -⟩, hn⟩ := hl.2 (by rw [hold]; decide)
    exact ⟨inventory, before, after, rfl, hbe, ha, hne, ⟨object, hm, hev⟩, hn⟩

end Example

end Einsatzarchiv.Verify
