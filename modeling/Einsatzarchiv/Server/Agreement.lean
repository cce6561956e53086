/-
  File:      Einsatzarchiv/Server/Agreement.lean
  Subject:   What the server admits, read by the verifier of the archive.

  The server judges a commit under the head that `walkToSelectedHead` selects, the verifier under
  the head that the entry names, replayed from the anchor.  Both are one state of one line.

  * `authority_of_selected`: the selected head is the historical authority for its sequence.
  * **`admitted_commit_verifies`**: an admitted entry passes the gates of the verifier.

  The server compares the entry hash of a grant; the registry version, the issuer and the
  organization follow from the signature, the recipient from the plan of the head.  The chain and
  the registry head of a grant are compared by nothing.

  * `Bound`: a grant repeats the position of its entry and names an active recipient.
  * `signed_like_entry`: what the signature of a grant ties to the entry.
  * **`grants_bound_iff`**: admitted grants are bound exactly if they name chain and head.
-/
import Einsatzarchiv.Server.Commit
import Einsatzarchiv.Trust.Selected
import Einsatzarchiv.Trust.Writers

namespace Einsatzarchiv.Server

open Lib Format Protocol Trust

section

open Verify

/-! ## 1. Grant plans -/

variable {items plan : List GrantPlanItem} {organizationId : OrganizationId}

theorem validateRecipients_eq_ok {keys certificates : List Nat} :
    validateRecipients keys certificates items = .ok () ↔
      (items.map (·.recipientKeyThumbprint)).Nodup
        ∧ (∀ item ∈ items, item.recipientKeyThumbprint ∉ keys)
        ∧ (items.map (·.recipientCertificateHash)).Nodup
        ∧ ∀ item ∈ items, item.recipientCertificateHash ∉ certificates := by
  induction items generalizing keys certificates with
  | nil => simp [validateRecipients]
  | cons item items ih =>
    simp only [validateRecipients, ok_iff, ih]
    simp
    grind

/-- What a plan is built from: one recovery recipient and no recipient twice. -/
theorem GrantPlan.new_eq_ok : GrantPlan.new items = .ok plan ↔
      (items.filter fun item => item.purpose = .recovery).length = 1
        ∧ (items.map (·.recipientKeyThumbprint)).Nodup
        ∧ (items.map (·.recipientCertificateHash)).Nodup
        ∧ plan = sortByKey GrantPlanItem.sortKey items := by
  simp only [GrantPlan.new, ok_iff, validatePlanItems]
  split
  · next hz => simp [hz]
  · next ho =>
      simp only [exists_and_right, exists_unit_eq_ok, validateRecipients_eq_ok]
      simp [ho, and_assoc, @eq_comm _ plan]
  · next ho =>
      constructor
      · rintro ⟨_, he, -⟩
        cases he
      · rintro ⟨hl, -⟩
        exact (ho hl).elim

/-- The order of the recipients does not matter. -/
theorem GrantPlan.new_of_perm {items' : List GrantPlanItem} (h : items.Perm items')
    (hn : GrantPlan.new items = .ok plan) : GrantPlan.new items' = .ok plan := by
  obtain ⟨ho, hk, hc, rfl⟩ := GrantPlan.new_eq_ok.mp hn
  refine GrantPlan.new_eq_ok.mpr ⟨?_, ?_, ?_, sortByKey_eq_of_perm h ?_⟩
  · rw [← (h.filter _).length_eq, ho]
  · exact (h.map _).nodup_iff.mp hk
  · exact (h.map _).nodup_iff.mp hc
  · refine (List.pairwise_map.mp hk).imp fun hne heq => hne ?_
    exact congrArg (fun key => (ofLex key).1) heq

/-! ## 2. The selected head in the line -/

section Selected

variable [Crypto]

/-- Two states of one trust: only what the store remembers differs. -/
structure SameTrust (trust other : VerifiedTrust) : Prop where
  organizationId : other.organizationId = trust.organizationId
  chainId : other.chainId = trust.chainId
  catalog : other.catalog = trust.catalog
  previousHead : other.previousHead = trust.previousHead

variable {trust other : VerifiedTrust} {seq addr : Nat} {head : ActiveRegistryHead}
  {src : TrustObjectSource} {cand : RegistryCandidate} {anchor : TrustAnchor} {now : Int}

theorem sameTrust_of_verifyTrust {snap snap' : TrustStateSnapshot}
    (h : verifyTrust anchor src snap = .ok trust)
    (h' : verifyTrust anchor src snap' = .ok other) : SameTrust trust other := by
  simp only [verifyTrust, ok_iff] at h h'
  obtain ⟨-, hid, _, hl, _, hc, _, hs, rfl⟩ := h
  obtain ⟨-, hid', _, hload', _, hchecked', _, hstate', rfl⟩ := h'
  obtain rfl := Except.ok.inj (hl.symm.trans hload')
  obtain rfl := Except.ok.inj (hc.symm.trans hchecked')
  rw [hid] at hs
  rw [hid'] at hstate'
  obtain rfl := Except.ok.inj (hs.symm.trans hstate')
  exact ⟨rfl, rfl, rfl, rfl⟩

/-- The line does not depend on what the store remembers. -/
theorem SameTrust.lineAt_eq (h : SameTrust trust other) (version : Nat) :
    lineAt other version = lineAt trust version := by
  obtain ⟨_, _, _, _, _, _, _, _⟩ := trust
  obtain ⟨_, _, _, _, _, _, _, _⟩ := other
  obtain ⟨rfl, rfl, rfl, rfl⟩ := h
  induction version with
  | zero => rfl
  | succ version ih =>
    rw [lineAt, lineAt, ih]
    rfl

theorem SameTrust.requireBeforeSuccessor_eq (h : SameTrust trust other) :
    requireBeforeSuccessor other (RegistryTopology.build other)
      = requireBeforeSuccessor trust (RegistryTopology.build trust) := by
  obtain ⟨_, _, _, _, _, _, _, _⟩ := trust
  obtain ⟨_, _, _, _, _, _, _, _⟩ := other
  obtain ⟨rfl, rfl, rfl, rfl⟩ := h
  rfl

/-- The look-ahead passes an event that takes effect later. -/
theorem requireBeforeSuccessor_of_exact {pin : RegistryHeadPin} {line : Line}
    {direct : Option TopologyEvent} (hp : Pinned trust pin line)
    (hd : (RegistryTopology.build trust).exact (pin.registryVersion + 1)
      (some pin.registryHeadHash) = .ok direct)
    (hl : ∀ found ∈ direct, ∃ event, loadRegistryEvent trust.catalog found.objectHash
      = .ok event ∧ seq < event.fields.effectiveFromSequence) :
    requireBeforeSuccessor trust (RegistryTopology.build trust) pin.registryVersion line seq
      = .ok () := by
  unfold requireBeforeSuccessor
  split
  · next heq =>
      obtain ⟨rfl, -⟩ := checkedAdd_eq_some.mp heq
      rw [hp.head, hd, ok_bind]
      cases direct with
      | none => rfl
      | some found =>
        obtain ⟨event, hlo, hlt⟩ := hl found rfl
        dsimp only
        rw [hlo, ok_bind, ensure_eq_ok]
        split
        · next ha =>
            obtain ⟨_, _, _, _, applied⟩ := verifyAndApplyRegistryEvent_eq_ok ha
            simpa [applied.state_eq, PreviousHeadState.headedBy] using hlt
        · rfl
  · rfl

/-- The pinned head once more, as long as no successor has taken effect at the sequence. -/
theorem current_of_verifyRegistryCandidate (h : verifyRegistryCandidate trust seq addr = .ok cand)
    (hcu : candidateIsCurrent cand = true) :
    ∃ pin line, Pinned trust pin line ∧ pin.registryVersion ≤ u64Max
      ∧ currentCandidate trust line.state pin seq addr = .ok cand
      ∧ requireBeforeSuccessor trust (RegistryTopology.build trust) pin.registryVersion line
        seq = .ok () := by
  obtain ⟨line, _, _, hl, hv, hd, hc⟩ := verifyRegistryCandidate_cases h
  have hp := pinned_of_pinnedLine hl
  obtain ⟨rfl, hm, -⟩ := lineAt_of_pinnedLine hl hv
  rcases hc with ⟨pin, hpi, h, -, hpe⟩ | ⟨_, _, rfl, hlo, h⟩
  · rw [pinnedBase_eq hpi] at hm hd
    rw [hpi] at hd
    exact ⟨pin, line, hp pin hpi, by omega, h, requireBeforeSuccessor_of_exact (hp pin hpi) hd hpe⟩
  · -- the successor of a pin has another version than the pin
    obtain ⟨-, _, -, -⟩ := exists_registryEvent_of_exact hd hlo
    simp only [successorCandidate, ok_iff] at h
    obtain ⟨_, -, _, -, rfl⟩ := h
    have hb := pinnedBase_eq (originalPin_of_current hcu)
    dsimp only at hb
    omega

/-- **The selected head is the authority for its sequence**, for every trust over the catalog. -/
theorem authority_of_selected (hsa : SameTrust trust other)
    (h : verifyRegistryCandidate trust seq addr = .ok cand)
    (hcu : candidateIsCurrent cand = true) :
    ∃ auth, verifyHistoricalRegistryAuthority other cand.registryVersion
        cand.registryHeadHash seq = .ok auth
      ∧ auth.state = cand.candidateState.value ∧ auth.sequence = seq
      ∧ cand.proposedSequence = seq
      ∧ auth.registryVersion = cand.registryVersion
      ∧ auth.registryHeadHash = cand.registryHeadHash := by
  obtain ⟨pin, line, hp, hm, hc, hb⟩ := current_of_verifyRegistryCandidate h hcu
  simp only [currentCandidate, ok_iff] at hc
  obtain ⟨-, hle, _, -, _, -, rfl⟩ := hc
  simp only [Bool.not_eq_true', decide_eq_false_iff_not, not_or, not_lt] at hle
  have hl : lineAt other pin.registryVersion = some line := (hsa.lineAt_eq _).trans hp.line_eq
  rw [← hsa.requireBeforeSuccessor_eq] at hb
  obtain ⟨auth, ha⟩ := exists_authority_of_lineAt hp.pos hm hl hle.1 hle.2 hb
  rw [hp.head] at ha
  obtain ⟨-, -, ⟨_, hline', hh, hs, -⟩, -, hse⟩ := verifyHistoricalRegistryAuthority_eq_ok ha
  obtain rfl := Option.some.inj (hl.symm.trans hline')
  refine ⟨auth, ha, hs, hse, rfl, ?_, ?_⟩
  · rw [HistoricalRegistryAuthority.registryVersion, hs]
    exact registryVersion_of_lineAt hl hp.pos
  · rw [HistoricalRegistryAuthority.registryHeadHash, hs, hh]

/-- How a walk ends with a head: the pinned head of the last round was affirmed. -/
theorem affirmed_of_walk {key : TrustStateKey} {rounds round : Nat}
    {store : EphemeralTrustStateStore} {carried : Option VerifiedTrust}
    (h : walkToSelectedHead anchor src key seq now rounds round store carried
      = .ok (trust, some head)) :
    (∃ snap, verifyTrust anchor src snap = .ok trust) ∧ ∃ addr cand loc rev floor,
        verifyRegistryCandidate trust seq addr = .ok cand
          ∧ candidateIsCurrent cand = true
          ∧ head = selectedHead cand loc rev floor := by
  induction rounds generalizing round store carried with
  | zero =>
    simp only [walkToSelectedHead, ok_iff] at h
    obtain ⟨_, -, -, hn⟩ := h
    cases hn
  | succ rounds ih =>
    simp only [walkToSelectedHead, ok_iff] at h
    obtain ⟨snap, -, _, hv, h⟩ := h
    split at h
    · split at h
      · simp at h
      · simp at h
    next cand hc =>
      simp only [ok_iff] at h
      obtain ⟨loc, -, ⟨next, _⟩, hs, h⟩ := h
      obtain ⟨-, _, -, hca⟩ := selectRegistryHead_cases hs
      cases hca with
      | current _ _ hcu =>
        dsimp only at h
        split at h
        · obtain ⟨rfl, rfl⟩ := h
          exact ⟨⟨snap, hv⟩, _, cand, loc, _, _, hc, hcu, rfl⟩
        · exact ih h
      | successor _ floor hno =>
        dsimp only at h
        split at h
        · next hp =>
            -- the successor is not the pinned head
            obtain ⟨hd, -⟩ := describes_of_verifyRegistryCandidate hc
            have hve := (hd.succeeds hno).version
            rw [hp] at hve
            simp [topologyEvent, selectedHead] at hve
        · exact ih h
      | pending => simp at h
      | advanced => exact ih h

/-- **What the server selects**, in the words of the verifier. -/
theorem authority_of_selectHeadForSequence {orgn : Option OrganizationTrust}
    (h : selectHeadForSequence orgn organizationId seq now = .ok (.selected head)) :
    ∃ anchor catalog, orgn = some ⟨.anchor anchor, catalog⟩ ∧
      (∃ snap trust, verifyTrust anchor (catalogSource catalog) snap = .ok trust) ∧
      ∀ snap trust, verifyTrust anchor (catalogSource catalog) snap = .ok trust →
        ∃ auth, verifyHistoricalRegistryAuthority trust head.registryVersion
            head.registryHeadHash seq = .ok auth
          ∧ auth.state = head.candidateState.value ∧ auth.sequence = seq
          ∧ head.proposedSequence = seq
          ∧ auth.registryVersion = head.registryVersion
          ∧ auth.registryHeadHash = head.registryHeadHash := by
  unfold selectHeadForSequence at h
  split at h
  · cases h
  next orgn =>
    obtain ⟨anchor, catalog⟩ := orgn
    dsimp only at h
    split at h
    · cases h
    · cases h
    next anchor =>
      split at h
      · next trust sel hw =>
          obtain rfl : sel = head := by simpa using h
          obtain ⟨⟨snap, hv⟩, _, _, _, _, _, hc, hcu,
            rfl⟩ := affirmed_of_walk hw
          refine ⟨anchor, catalog, rfl, ⟨snap, trust, hv⟩, fun _ other ho => ?_⟩
          exact authority_of_selected (sameTrust_of_verifyTrust hv ho) hc hcu
      · split at h <;> simp at h
      · cases h
      · cases h
      · cases h
      · cases h

end Selected

/-! ## 3. Admitted commits in the archive -/

section Admitted

variable [Crypto]

/-- The grant that bytes hold. -/
def readGrant (bytes : Bytes) : Option Grant :=
  match Crypto.decode bytes with
  | .ok (.grant grant) => some grant
  | _ => none

/-- The recipient that bytes hold a grant for. -/
def itemOf (bytes : Bytes) : Option GrantPlanItem :=
  (readGrant bytes).map planItem

theorem readGrant_of_decode {bytes : Bytes} {grant : Grant}
    (h : Crypto.decode bytes = .ok (.grant grant)) : readGrant bytes = some grant := by
  rw [readGrant, h]

variable {head : ActiveRegistryHead} {request : EntryCommitRequest} {entry : Parsed EntryPackage}
  {validated : ValidatedCommit}

/-- What `validateCommit` has checked. -/
structure Admitted (request : EntryCommitRequest) (entry : Parsed EntryPackage)
    (head : ActiveRegistryHead) : Prop where
  active : ∃ fields, (entry.value.signedManifest.manifest.writerCertificateHash, fields)
    ∈ activeCertificates head ∧ fields.certificateKind = .writer
  transition : verifyWriterTransitionHash entry.value.signedManifest.manifest
    (effectiveWriterTransition head) = .ok ()
  version : entry.value.signedManifest.manifest.registryVersion = head.registryVersion
  headHash : entry.value.signedManifest.manifest.registryHeadHash = head.registryHeadHash
  signed : ∃ context signer, VerificationContext.record entry.value.signedManifest = .ok context
    ∧ verifyCoseSign1 entry.value.writerSignature (resolveHead head) context = .ok signer
  grants : ∀ bytes ∈ request.sortedGrantBytes, ∃ grant, GrantJudged entry.value.entryHash
    entry.value.signedManifest.manifest.chainSequence head bytes grant
  plans : ∃ delivered expected, GrantPlan.new (request.sortedGrantBytes.filterMap itemOf)
      = .ok delivered
    ∧ Crypto.grantPlanDigest delivered = entry.value.signedManifest.manifest.initialGrantPlanHash
    ∧ expectedPlan head = .ok expected
    ∧ Crypto.grantPlanDigest expected = Crypto.grantPlanDigest delivered

theorem admitted_of_validateCommit {cid : ChainId} {writer : CertificateHash}
    (h : validateCommit request entry organizationId cid writer head = .ok validated) :
    Admitted request entry head := by
  simp only [validateCommit, validateWriter, validateGrants, ok_iff] at h
  obtain ⟨_, ⟨-, -, -, -, -, rfl, -, -, _, ha, ⟨⟩, ht, -, -, -,
    ⟨hv, hh⟩, ctx, hc, signer, hsg, -⟩, _, ⟨-, hp, parsed, hpr,
    delivered, hd, -, hdi, expected, he, -, hs, rfl⟩, -⟩ := h
  have hi : parsed.map (fun grant => planItem grant.value)
      = request.sortedGrantBytes.filterMap itemOf := by
    have hma : parsed.map (fun grant => some (planItem grant.value))
        = request.sortedGrantBytes.map itemOf := by
      refine map_eq_map_of_mapM_eq_ok (fun bytes grant hg => ?_) hpr
      simp [itemOf, readGrant_of_decode (parseGrant_eq_ok hg).1.decoded]
    simpa [List.filterMap_map, Function.comp_def] using congrArg (List.filterMap id) hma
  refine ⟨?_, ht, hv, hh, ⟨ctx, signer, hc, hsg⟩, ?_,
    delivered, expected, hi ▸ hd, hdi.trans hp, he,
    hs.trans hdi.symm⟩
  · simp only [activeWriter, okOr_eq_ok, Option.map_eq_some_iff] at ha
    obtain ⟨⟨_, fields⟩, hf, -⟩ := ha
    have hm := List.find?_some hf
    simp only [decide_eq_true_eq] at hm
    exact ⟨fields, hm.1 ▸ List.mem_of_find?_eq_some hf, hm.2⟩
  · intro bytes hb
    obtain ⟨grant, hg⟩ := exists_ok_of_mapM_eq_ok hpr bytes hb
    exact ⟨grant.value, (parseGrant_eq_ok hg).1⟩

omit [Crypto] in
theorem transitionClaimHolds_of_verified {fields : ManifestCoreFields}
    {tr : Option EffectiveWriterTransition}
    (h : verifyWriterTransitionHash fields tr = .ok ()) :
    transitionClaimHolds fields tr = true := by
  unfold verifyWriterTransitionHash at h
  unfold transitionClaimHolds
  dsimp only at h
  split at h
  · next hn he => rw [hn, he]
  · next hc he =>
      simp only [ok_iff] at h
      rw [hc, he]
      simp [h.1, h.2.1, h.2.2]
  · cases h

/-- The plan of the delivered grants is that of the manifest, in whatever order they lie in the
archive. -/
theorem Admitted.grantPlanFinding_eq_none (h : Admitted request entry head)
    {grants : List (Parsed Grant)}
    (hb : (grants.map (·.exactBytes)).Perm request.sortedGrantBytes)
    (hd : ∀ grant ∈ grants, Crypto.decode grant.exactBytes = .ok (.grant grant.value)) :
    grantPlanFinding entry grants = none := by
  obtain ⟨_, _, hde, hdi, -⟩ := h.plans
  have hi : planItems entry.value.entryHash grants
      = (grants.map (·.exactBytes)).filterMap itemOf := by
    rw [planItems, List.filterMap_map, List.filterMap_map]
    refine List.filterMap_congr fun grant hg => ?_
    obtain ⟨judged, hj⟩ := h.grants grant.exactBytes (hb.mem_iff.mp (List.mem_map_of_mem hg))
    have hs := hj.decoded.symm.trans (hd grant hg)
    obtain rfl : judged = grant.value := by simpa using hs
    simp [itemOf, readGrant_of_decode (hd grant hg), hj.kind, hj.entry, planItem]
  have hp := GrantPlan.new_of_perm (hb.filterMap itemOf).symm hde
  rw [grantPlanFinding, hi, hp]
  simp [hdi]

/-- The commit of an entry and a grant of the table at time 15, as far as it is admitted. -/
def tableAdmission (entry grant : UInt8) :
    Option (ActiveRegistryHead × EntryCommitRequest × Parsed EntryPackage × ValidatedCommit) := do
  let request ← (EntryCommitRequest.new (tableBytes .entry entry) tablePlan
    [tableBytes .grant grant]).toOption
  let entry ← (parseEntry request.entryBytes).toOption
  let .ok (.selected head) := selectHeadForSequence (tableServer.organizations 1) 1
    entry.value.signedManifest.manifest.chainSequence 15 | none
  let validated ← (validateCommit request entry 1 2 20 head).toOption
  return (head, request, entry, validated)

theorem tableAdmission_eq_some {name grant : UInt8}
    (h : tableAdmission name grant = some (head, request, entry, validated)) :
    selectHeadForSequence (tableServer.organizations 1) 1
        entry.value.signedManifest.manifest.chainSequence 15 = .ok (.selected head)
      ∧ validateCommit request entry 1 2 20 head = .ok validated := by
  simp only [tableAdmission, some_iff] at h
  obtain ⟨_, -, _, -, h⟩ := h
  split at h
  · next hs =>
      simp only [some_iff] at h
      obtain ⟨_, hv, ⟨⟩⟩ := h
      exact ⟨hs, hv⟩
  · cases h

/-- **What the server admits the verifier accepts.**  The head an admitted entry names is the
historical authority for its sequence, and the entry with its grants passes the gates there. -/
theorem admitted_commit_verifies {organization : Option OrganizationTrust}
    {organizationId : OrganizationId} {now : Int} {head : ActiveRegistryHead}
    {request : EntryCommitRequest} {entry : Parsed EntryPackage} {chainId : ChainId}
    {writer : CertificateHash} {validated : ValidatedCommit}
    (hselect : selectHeadForSequence organization organizationId
      entry.value.signedManifest.manifest.chainSequence now = .ok (.selected head))
    (hvalid : validateCommit request entry organizationId chainId writer head = .ok validated) :
    ∃ anchor catalog, organization = some ⟨.anchor anchor, catalog⟩ ∧
      (∃ snapshot trust, verifyTrust anchor (catalogSource catalog) snapshot = .ok trust) ∧
      ∀ snapshot trust, verifyTrust anchor (catalogSource catalog) snapshot = .ok trust →
        ∃ authority, verifyHistoricalRegistryAuthority trust
            entry.value.signedManifest.manifest.registryVersion
            entry.value.signedManifest.manifest.registryHeadHash
            entry.value.signedManifest.manifest.chainSequence = .ok authority
          ∧ authority.registryVersion = head.registryVersion
          ∧ authority.registryHeadHash = head.registryHeadHash
          ∧ writerIsActive authority
            entry.value.signedManifest.manifest.writerCertificateHash = true
          ∧ (∃ thumbprint, verifiedSigner entry authority = .ok thumbprint)
          ∧ writerTransitionClaimHolds entry authority = true
          ∧ ∀ grants : List (Parsed Grant),
            (grants.map (·.exactBytes)).Perm request.sortedGrantBytes →
            (∀ grant ∈ grants, Crypto.decode grant.exactBytes = .ok (.grant grant.value)) →
            grantPlanFinding entry grants = none := by
  have ha := admitted_of_validateCommit hvalid
  obtain ⟨anchor, catalog, ho, he, hau⟩ := authority_of_selectHeadForSequence hselect
  refine ⟨anchor, catalog, ho, he, fun snapshot trust ht => ?_⟩
  obtain ⟨authority, hok, hs, hat, hp, hv, hh⟩ := hau snapshot trust ht
  rw [ha.version, ha.headHash]
  refine ⟨authority, hok, hv, hh, ?_, ?_, ?_, fun grants hb hd =>
    ha.grantPlanFinding_eq_none hb hd⟩
  · obtain ⟨_, hm, hk⟩ := ha.active
    simp only [activeCertificates, List.mem_filterMap, Option.map_eq_some_iff, Prod.mk.injEq] at hm
    obtain ⟨⟨_, _⟩, -, _, hac, rfl, rfl⟩ := hm
    rw [writerIsActive, HistoricalRegistryAuthority.activeCertificateFields, hs, hat, ← hp, hac]
    simpa using hk
  · obtain ⟨_, signer, hc, hsg⟩ := ha.signed
    rw [resolveHead, hp] at hsg
    refine ⟨signer.keyThumbprint, ?_⟩
    rw [verifiedSigner, verifyRecord, HistoricalRegistryAuthority.resolve, hs, hat, hc,
      ok_bind, hsg]
    rfl
  · rw [writerTransitionClaimHolds, HistoricalRegistryAuthority.effectiveWriterTransition, hs]
    exact transitionClaimHolds_of_verified ha.transition

end Admitted

/-- The first entry of the table. -/
theorem admitted_commit_verifies_first :
    let := serverCrypto
    ∃ head request entry validated,
      tableAdmission 50 60 = some (head, request, entry, validated) ∧
      ∃ anchor catalog, tableServer.organizations 1 = some ⟨.anchor anchor, catalog⟩ ∧
        ∃ snapshot trust, verifyTrust anchor (catalogSource catalog) snapshot = .ok trust := by
  intro _
  have hs : (@tableAdmission serverCrypto 50 60).isSome = true := by decide +kernel
  obtain ⟨⟨head, request, entry, validated⟩, h⟩ := Option.isSome_iff_exists.mp hs
  obtain ⟨hse, hv⟩ := tableAdmission_eq_some h
  obtain ⟨anchor, catalog, ho, ht, -⟩ := admitted_commit_verifies hse hv
  exact ⟨head, request, entry, validated, h, anchor, catalog, ho, ht⟩

end

section Grants

variable [Crypto]

/-! ## 4. Bound grants -/

/-- A certificate that is active at the head has the key and gets the purpose. -/
def Receives (head : ActiveRegistryHead) (item : GrantPlanItem) : Prop :=
  ∃ fields, (item.recipientCertificateHash, fields) ∈ activeCertificates head
    ∧ fields.kemKeyThumbprint = some item.recipientKeyThumbprint
    ∧ grantPurposeOf fields.certificateKind = some item.purpose

/-- The grant is one of this entry, at this head, for a recipient of the plan. -/
structure Bound (head : ActiveRegistryHead) (entry : EntryPackage) (grant : Grant) : Prop where
  organization : grant.grantBody.organizationId = entry.signedManifest.manifest.organizationId
  chain : grant.grantBody.chainId = entry.signedManifest.manifest.chainId
  entryHash : grant.grantBody.entryHash = entry.entryHash
  version : grant.grantBody.registryVersion = entry.signedManifest.manifest.registryVersion
  headHash : grant.grantBody.registryHeadHash = entry.signedManifest.manifest.registryHeadHash
  issuer : grant.grantBody.issuerCertificateHash
    = entry.signedManifest.manifest.writerCertificateHash
  recipient : Receives head (planItem grant)

/-- A grant that names the chain and the registry head of the entry. -/
def NamesPosition (entry : EntryPackage) (grant : Grant) : Prop :=
  grant.grantBody.chainId = entry.signedManifest.manifest.chainId
    ∧ grant.grantBody.registryHeadHash = entry.signedManifest.manifest.registryHeadHash

instance (entry : EntryPackage) (grant : Grant) : Decidable (NamesPosition entry grant) :=
  inferInstanceAs (Decidable (_ ∧ _))

/-- No two of the items are for one key or one certificate. -/
def OneEach (items : List GrantPlanItem) : Prop :=
  (items.map (·.recipientKeyThumbprint)).Nodup ∧ (items.map (·.recipientCertificateHash)).Nodup

variable {head : ActiveRegistryHead} {request : EntryCommitRequest} {entry : Parsed EntryPackage}

/-! ## 5. What the checks tie together -/

theorem receives_of_mem_expectedPlan {plan : List GrantPlanItem} {item : GrantPlanItem}
    (h : expectedPlan head = .ok plan) (hi : item ∈ plan) : Receives head item := by
  simp only [expectedPlan, ok_iff] at h
  obtain ⟨_, hit, hp⟩ := h
  obtain ⟨-, -, -, rfl⟩ := GrantPlan.new_eq_ok.mp hp
  simp only [mem_sortByKey, List.mem_filterMap, id_eq, exists_eq_right] at hi
  obtain ⟨⟨_, fields⟩, ha, he⟩ := exists_mem_of_mapM_eq_ok hit _ hi
  unfold expectedItem at he
  split at he
  · cases he
  · next hpu =>
      simp only [ok_iff, Option.some.injEq] at he
      obtain ⟨_, hpr, rfl⟩ := he
      exact ⟨fields, ha, hpr, hpu⟩

/-- The selected head is a state of the line. -/
theorem backed_of_selected {orgn : Option OrganizationTrust}
    {organizationId : OrganizationId} {sequence : Nat} {now : Int}
    (h : selectHeadForSequence orgn organizationId sequence now = .ok (.selected head)) :
    Backed head.candidateState.value := by
  obtain ⟨_, _, -, ⟨snap, trust, ht⟩, ha⟩ := authority_of_selectHeadForSequence h
  obtain ⟨_, hok, hs, -⟩ := ha snap trust ht
  obtain ⟨-, -, ⟨_, hl, -, hlineState, -⟩, -⟩ := verifyHistoricalRegistryAuthority_eq_ok hok
  rw [← hs, hlineState]
  exact backed_of_lineAt (backed_of_verifyTrust ht) hl

/-- Grant and entry are signed under one certificate, that of the current writer. -/
theorem signed_like_entry (hb : Backed head.candidateState.value)
    (ha : Admitted request entry head) {sequence : Nat} {bytes : Bytes} {grant : Grant}
    (hj : GrantJudged entry.value.entryHash sequence head bytes grant) :
    grant.grantBody.organizationId = entry.value.signedManifest.manifest.organizationId
      ∧ grant.grantBody.registryVersion = entry.value.signedManifest.manifest.registryVersion
      ∧ grant.grantBody.issuerCertificateHash
        = entry.value.signedManifest.manifest.writerCertificateHash := by
  obtain ⟨ctx, _, hc, hsg⟩ := hj.signed
  simp only [VerificationContext.initialGrant, VerificationContext.grant, ok_iff] at hc
  obtain ⟨_, -, _, -, rfl⟩ := hc
  obtain ⟨ctx, _, hc, hrc⟩ := ha.signed
  simp only [VerificationContext.record, Except.ok.injEq] at hc
  subst hc
  obtain ⟨hi, hv, _, _, hr, hp, ho⟩ := signed_of_verifyCoseSign1 hb hsg rfl
  obtain ⟨hwr, hversion', _, _, hresolved', hparsed', horganization'⟩ :=
    signed_of_verifyCoseSign1 hb hrc rfl
  dsimp only at *
  have hs := Option.some.inj (hi.symm.trans hwr)
  rw [hs, hv, ← hversion'] at hr
  obtain rfl := Except.ok.inj (hr.symm.trans hresolved')
  obtain rfl := Except.ok.inj (hp.symm.trans hparsed')
  exact ⟨ho.symm.trans horganization', hv.trans hversion'.symm, hs⟩

/-! ## 6. The law -/

/-- **The grants of an admitted commit are bound to its entry exactly if they name its chain and
its registry head**, as long as no other plan has the digest of the expected one. -/
theorem grants_bound_iff {organization : Option OrganizationTrust}
    {organizationId : OrganizationId} {now : Int} {head : ActiveRegistryHead}
    {request : EntryCommitRequest} {entry : Parsed EntryPackage} {chainId : ChainId}
    {writer : CertificateHash} {validated : ValidatedCommit}
    (hselect : selectHeadForSequence organization organizationId
      entry.value.signedManifest.manifest.chainSequence now = .ok (.selected head))
    (hvalid : validateCommit request entry organizationId chainId writer head = .ok validated)
    (hfree : ∀ expected delivered, expectedPlan head = .ok expected →
      GrantPlan.new (request.sortedGrantBytes.filterMap itemOf) = .ok delivered →
      Crypto.grantPlanDigest expected = Crypto.grantPlanDigest delivered → expected = delivered) :
    ((∀ bytes ∈ request.sortedGrantBytes, ∃ grant, readGrant bytes = some grant
        ∧ Bound head entry.value grant)
      ∧ OneEach (request.sortedGrantBytes.filterMap itemOf)) ↔
      ∀ bytes ∈ request.sortedGrantBytes, ∀ grant, readGrant bytes = some grant →
        NamesPosition entry.value grant := by
  have ha := admitted_of_validateCommit hvalid
  obtain ⟨delivered, expected, hd, -, he, hdi⟩ := ha.plans
  obtain rfl := hfree expected delivered he hd hdi
  obtain ⟨-, hk, hc, rfl⟩ := GrantPlan.new_eq_ok.mp hd
  constructor
  · rintro ⟨hbo, -⟩ bytes hb grant hg
    obtain ⟨_, hr, h⟩ := hbo bytes hb
    obtain rfl := Option.some.inj (hr.symm.trans hg)
    exact ⟨h.chain, h.headHash⟩
  · intro hn
    refine ⟨fun bytes hb => ?_, hk, hc⟩
    obtain ⟨grant, hj⟩ := ha.grants bytes hb
    have hr := readGrant_of_decode hj.decoded
    obtain ⟨hch, hh⟩ := hn bytes hb grant hr
    obtain ⟨ho, hv, hi⟩ := signed_like_entry (backed_of_selected hselect) ha hj
    refine ⟨grant, hr, ho, hch, hj.entry, hv, hh, hi, ?_⟩
    refine receives_of_mem_expectedPlan he (mem_sortByKey.mpr ?_)
    exact List.mem_filterMap.mpr ⟨bytes, hb, by rw [itemOf, hr, Option.map_some]⟩

end Grants

/-- The first entry of the table. -/
theorem grants_bound_iff_first :
    let := serverCrypto
    ∃ head request entry validated,
      tableAdmission 50 60 = some (head, request, entry, validated) ∧
      ∀ bytes ∈ request.sortedGrantBytes, ∃ grant, readGrant bytes = some grant
        ∧ Bound head entry.value grant := by
  intro _
  have han : (@tableAdmission serverCrypto 50 60).any (fun (head, request, entry, _) =>
      (expectedPlan head).toOption
          = (GrantPlan.new (request.sortedGrantBytes.filterMap itemOf)).toOption
        ∧ request.sortedGrantBytes.all fun bytes =>
          (readGrant bytes).all fun grant => NamesPosition entry.value grant) = true := by
    decide +kernel
  simp only [Option.any_eq_true, decide_eq_true_eq, List.all_eq_true, Option.all_eq_true] at han
  obtain ⟨⟨head, request, entry, validated⟩, ha, hp, hn⟩ := han
  obtain ⟨hs, hv⟩ := tableAdmission_eq_some ha
  refine ⟨head, request, entry, validated, ha, ?_⟩
  refine ((grants_bound_iff hs hv ?_).mpr hn).1
  intro _ _ he hd _
  rw [he, hd] at hp
  exact Option.some.inj hp

/-- `committingOrganization` whose writer has signed a grant for another chain and another head. -/
def strayOrganization : ObjectHash → Option ArchiveObject
  | 60 => some (.grant ⟨⟨1, 9, 100, .initial, .recovery, 200, 40, 104, 20, 3, 99, none, none, [],
      []⟩, signedBy .grantDigest 104 20⟩)
  | hash => committingOrganization hash

/-- The primitives over that organization. -/
@[reducible] def strayCrypto : Crypto :=
  { tableCrypto strayOrganization with publicKey := serverCrypto.publicKey }

/-- The stray grant is admitted. -/
theorem stray_grant_admitted :
    let := strayCrypto
    ∃ head request entry validated,
      tableAdmission 50 60 = some (head, request, entry, validated) ∧
      ∃ bytes ∈ request.sortedGrantBytes, ∃ grant, readGrant bytes = some grant
        ∧ grant.grantBody.chainId ≠ entry.value.signedManifest.manifest.chainId
        ∧ grant.grantBody.registryHeadHash
          ≠ entry.value.signedManifest.manifest.registryHeadHash := by
  intro _
  have han : (@tableAdmission strayCrypto 50 60).any (fun (_, request, entry, _) =>
      request.sortedGrantBytes.any fun bytes => (readGrant bytes).any fun grant =>
        grant.grantBody.chainId ≠ entry.value.signedManifest.manifest.chainId
          ∧ grant.grantBody.registryHeadHash
            ≠ entry.value.signedManifest.manifest.registryHeadHash) = true := by
    decide +kernel
  simp only [Option.any_eq_true, List.any_eq_true, decide_eq_true_eq] at han
  obtain ⟨⟨head, request, entry, validated⟩, ha, hg⟩ := han
  exact ⟨head, request, entry, validated, ha, hg⟩

end Einsatzarchiv.Server
