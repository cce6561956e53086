/-
  File:      Einsatzarchiv/Writer/Attempts.lean
  Subject:   A finalization heeds the guards, and what it prepares.

  * `Fresh`, `Prepares`, `Erases`: what a finalization vouches for when it names a new entry, when
    it sets the marker and when it deletes the key; `licenceOf` collects them.
  * `does_prepare`, `does_buildTransaction`, `does_stageAndFlush`, `does_eraseDraftKey`: the steps.
  * **`does_finalize`**: the whole call, whatever fails on the way.
-/
import Einsatzarchiv.Writer.Publication

namespace Einsatzarchiv.Writer

open Lib Format Chain Archive

/-! ## 1. What a finalization vouches for -/

/-- The files under their names. -/
def Files.visible (files : Files) : Files := files.filter (!·.1.staging)

variable {files : Files} {path : ArchivePath} {service : WriterService}
  {content : FinalizationContent} {source : ClaimSource} {request : FinalizeCall} {t : Installation}
  {entryHash : EntryHash} {bytes : Bytes} {high low low' : Nat}

/-- Final names are visible. -/
theorem Files.read_visible (h : path.staging = false) :
    files.visible.read path = files.read path := by
  unfold visible read
  rw [List.find?_filter]
  congr 2
  funext pair
  by_cases hp : pair.1 = path
  · simp [hp, h]
  · simp [hp]

/-- A staged file is not. -/
theorem Files.visible_append (h : path.staging = true) :
    (files ++ [(path, bytes)] : Files).visible = files.visible := by
  simp [visible, List.filter_append, h]

theorem Files.read_append_staged {other : ArchivePath} (h : path.staging = true)
    (ho : other.staging = false) :
    (files ++ [(path, bytes)] : Files).read other = files.read other := by
  rw [← read_visible ho, visible_append h, read_visible ho]

section Licences

variable [Crypto]

/-- The entry hash of a manifest whose nonce was drawn in between. -/
def DatedBetween (low high : Nat) (hash : EntryHash) : Prop :=
  ∃ manifest signature, Crypto.entryHash manifest signature = hash
    ∧ low ≤ manifest.manifest.nonce ∧ manifest.manifest.nonce < high

/-- The entry was built since the start, and nothing was published since. -/
structure Fresh (start s : Installation) (hash : EntryHash) : Prop where
  visible : s.files.visible = start.files.visible
  dated : DatedBetween start.draws s.draws hash

/-- The entry names the verified head as its predecessor and stands right behind it. -/
def Succeeds (service : WriterService) (files : Files) (transaction : PreparedTransaction)
    (low high : Nat) : Prop :=
  ∃ chain package, rebuildLocalHead service.binding.chainId files = .ok chain
    ∧ compareServerCheckpoint chain service.checkpointClaims = .ok ()
    ∧ transaction.sequence = expectedSequence chain
    ∧ Crypto.decode transaction.entryBytes = .ok (.entry package)
    ∧ package.entryHash = transaction.entryHash
    ∧ package.signedManifest.manifest.chainId = service.binding.chainId
    ∧ package.signedManifest.manifest.chainSequence = transaction.sequence
    ∧ package.signedManifest.manifest.previousEntryHash = chain.verifiedHead.map (·.entryHash)
    ∧ low ≤ package.signedManifest.manifest.nonce
    ∧ package.signedManifest.manifest.nonce < high

/-- The transaction for which the key is deleted: its entry is new, and a number it was given is
held. -/
structure Erases (start s : Installation) (transaction : PreparedTransaction) : Prop where
  dated : DatedBetween start.draws s.draws transaction.entryHash
  held : ∀ identity ∈ s.identities, identity ∈ start.identities ∨ identity.claim ∉ s.released

/-- The identity of the prepared entry, under a claim that the open draft holds. -/
structure Issued (s : Installation) (transaction : PreparedTransaction)
    (identity : OriginalIdentity) : Prop where
  object : identity.objectHash = transaction.entryObjectHash
  sequence : identity.sequence = transaction.sequence
  holder : ∃ row ∈ s.draft, s.slot = some row.key ∧ ∃ claim ∈ s.claims,
    claim.source = identity.claim ∧ claim.draftId = row.draftId
  unreleased : identity.claim ∉ s.released

variable [EvidenceSource]

/-- The transaction a finalization has prepared when it sets the marker. -/
structure Prepares (start : Installation) (request : FinalizeCall) (s : Installation)
    (transaction : PreparedTransaction) : Prop where
  visible : s.files.visible = start.files.visible
  succeeds : Succeeds request.service start.files transaction start.draws s.draws
  verified : transaction.verify = .ok ()
  framed : hasExactObjectPrefix transaction.entryBytes = true
  staged : ∀ pair ∈ transaction.pairs, s.files.read (stagingPath pair.1) = some pair.2
  identities : ∀ identity ∈ s.identities, identity ∈ start.identities
    ∨ Issued s transaction identity
  evidence : ∀ row ∈ s.evidence, row ∈ start.evidence
    ∨ row.2 = transaction.entryObjectHash ∧ EvidenceRules.accepts transaction.entryBytes = true
  bound : request.service.evidenceDraftSource.isSome →
    EvidenceRules.accepts transaction.entryBytes = true
      ∧ ∃ row ∈ s.evidence, row.1 = transaction.entryHash

/-- The licence of a finalization that started here. -/
def licenceOf (start : Installation) (request : FinalizeCall) : Licence where
  New := Fresh start
  Marks := Prepares start request
  Erases := Erases start
  Books := False

end Licences

/-! ## 2. Steps 1 to 5 -/

/-- Nothing but acknowledgements was used up, after a draft was created if there was none. -/
def Begun (start s : Installation) : Prop :=
  ∃ before, (before = start ∨ start.draft = none ∧ before = withBlank start)
    ∧ s = { before with consumed := s.consumed }

/-- What a passed selection has checked. -/
theorem selectHeadAndOperator_eq_ok {proof : OperatorSessionProof} {stale : Bool}
    {observedNow : Int} {chain : VerifiedChain}
    {sel : Option ObjectHash × OperatorBindingFields}
    (h : service.selectHeadAndOperator content proof stale observedNow chain = .ok sel) :
    service.head.proposedSequence = expectedSequence chain := by
  simp only [WriterService.selectHeadAndOperator, ok_iff] at h
  obtain ⟨-, hs, -⟩ := h
  exact hs

/-- Somebody gets a grant. -/
theorem plan_ne_nil {plan : List GrantPlanItem} (h : service.buildGrantPlan = .ok plan) :
    plan ≠ [] := by
  simp only [WriterService.buildGrantPlan, GrantPlan.new, ok_iff] at h
  obtain ⟨_, -, _, hv, rfl⟩ := h
  intro hn
  obtain rfl := sortByKey_eq_nil.mp hn
  cases hv

/-- A service with an evidence draft finalizes evidence only. -/
theorem content_of_bound {u : Unit} (h : requireDraftContent service content = .ok u)
    (hb : service.evidenceDraftSource.isSome) :
    ∃ input, content = .destructionEvidence input := by
  unfold requireDraftContent at h
  split at h
  · exact ⟨_, rfl⟩
  · rw [ensure_eq_ok, Option.isNone_iff_eq_none] at h
    rw [h] at hb
    cases hb

section Prepare

variable [Crypto] [Normalization] [Schema] [EvidenceSource] [Sealing]
variable {lic : Licence} {s : Installation}

omit [Crypto] [Schema] [Sealing] in
theorem does_containsNumber {key : NumberKey} :
    Yields lic (containsNumber key) (fun _ t => t = s) s := by
  exact .transact_bind rfl trivial rfl trivial

omit [Crypto] [Schema] [Sealing] in
theorem does_originalIdentity {ref : OriginalReference} :
    Yields lic (originalIdentity service ref) (fun _ t => t = s) s := by
  refine .transact_bind rfl trivial ?_ trivial
  refine .ofExcept_bind (fun row _ => ?_)
  refine .ofExcept_bind (fun ident _ => ?_)
  refine .ofExcept_bind (fun _ _ => ?_)
  refine does_containsNumber.bind ?_
  rintro _ t rfl
  exact .ofExcept_bind (fun _ _ => rfl)

omit [Sealing] in
/-- The draft is created at most. -/
theorem does_buildPayload {profile : OperatorProfile} {tr : Option ObjectHash} (hk : Keyed s) :
    Yields lic (buildPayload request profile tr)
      (fun _ t => t = s ∨ s.draft = none ∧ t = withBlank s) s := by
  unfold buildPayload
  dsimp only
  split
  · refine .ofExcept_bind (fun _ _ => ?_)
    refine .ofExcept_bind (fun year _ => ?_)
    refine does_containsNumber.bind ?_
    rintro _ t rfl
    exact .ofExcept_bind (fun _ _ => .inl rfl)
  · refine does_originalIdentity.bind ?_
    rintro ⟨_, _⟩ t rfl
    refine .ofExcept_bind (fun _ _ => ?_)
    refine does_visitBlobs.yields.bind ?_
    rintro _ u ⟨rfl, -⟩
    refine .ofExcept_bind (fun _ _ => ?_)
    exact .ofExcept_bind (fun _ _ => .inl rfl)
  · have hl : Yields lic (loadOrCreate.mapError WriterError.draft) (Loaded s) s :=
      (does_loadOrCreate hk).yields.mapError
    refine hl.bind ?_
    intro _ t hlo
    refine .ofExcept_bind (fun _ _ => ?_)
    refine .ofExcept_bind (fun _ _ => ?_)
    exact .ofExcept_bind (fun _ _ => hlo.eq)
  · refine .ofExcept_bind (fun hash _ => ?_)
    exact .ofExcept_bind (fun _ _ => .inl rfl)

/-- What the steps before the first durable change have fixed. -/
structure Attempted (start : Installation) (request : FinalizeCall) (attempt : Attempt) : Prop where
  head : ∃ chain, rebuildLocalHead request.service.binding.chainId start.files = .ok chain
    ∧ compareServerCheckpoint chain request.service.checkpointClaims = .ok ()
    ∧ attempt.sequence = expectedSequence chain
    ∧ attempt.previousEntryHash = chain.verifiedHead.map (·.entryHash)
  plan : attempt.plan ≠ []
  bound : request.service.evidenceDraftSource.isSome →
    ∃ input, request.content = .destructionEvidence input

variable {ack : Option StaleRegistryAcknowledgement}

section

omit [Crypto] [Schema] [Sealing]

theorem does_requireUnusedAcknowledgement :
    Yields lic (requireUnusedAcknowledgement ack) (fun _ t => t = s) s := by
  cases ack with
  | none => exact rfl
  | some ack =>
    exact .transact_bind rfl trivial (.ofExcept (fun _ _ => rfl)) trivial

theorem does_consumeAcknowledgement : Yields lic (consumeAcknowledgement ack)
      (fun _ t => t = { s with consumed := t.consumed }) s := by
  cases ack with
  | none => exact rfl
  | some ack =>
    refine .transact_bind rfl trivial (.ofExcept (fun _ _ => ?_)) trivial
    simp only [Port.perform, Installation.consume]
    split <;> rfl

/-- No finalization is half done. -/
theorem does_requireNoMarker :
    Yields lic requireNoMarker (fun _ t => t = s ∧ s.marker = none) s := by
  have hm : Yields lic (preparedFinalizationMarker.mapError WriterError.draft)
      (fun marker t => t = s ∧ marker = s.marker) s :=
    does_preparedFinalizationMarker.yields.mapError
  refine hm.bind ?_
  rintro marker t ⟨rfl, rfl⟩
  refine .ofExcept (fun _ hn => ⟨rfl, ?_⟩)
  simpa using hn

end

omit [Schema] [Sealing] in
/-- The head is that of the files, and no checkpoint contradicts it. -/
theorem does_localHead : Yields lic (localHead service)
      (fun chain t => t = s ∧ rebuildLocalHead service.binding.chainId s.files = .ok chain
        ∧ compareServerCheckpoint chain service.checkpointClaims = .ok ()) s := by
  refine does_visitBlobs.yields.bind ?_
  rintro _ t ⟨rfl, rfl⟩
  refine .ofExcept_bind (fun chain hc => ?_)
  exact .ofExcept_bind (fun _ hcp => ⟨rfl, hc, hcp⟩)

omit [Schema] [Sealing] in
theorem does_operatorProfile {bindingFields : OperatorBindingFields} :
    Yields lic (operatorProfile bindingFields) (fun _ t => t = s) s := by
  refine .transact_bind rfl trivial ?_ trivial
  refine .ofExcept_bind (fun profile _ => ?_)
  refine .ofExcept_bind (fun profile _ => ?_)
  exact .ofExcept_bind (fun _ _ => rfl)

/-- **Steps 1 to 5.** -/
theorem does_prepare (hk : Keyed s) : Yields lic (prepare request)
      (fun attempt t => Begun s t ∧ s.marker = none ∧ Attempted s request attempt) s := by
  refine does_requireUnusedAcknowledgement.bind ?_
  rintro - t rfl
  refine .ofExcept_bind (fun _ hcn => ?_)
  refine does_requireNoMarker.bind ?_
  rintro - t ⟨rfl, hm⟩
  refine does_localHead.bind ?_
  rintro chain t ⟨rfl, hc, hcp⟩
  refine .ofExcept_bind (fun sel hs => ?_)
  refine does_operatorProfile.bind ?_
  rintro _ t rfl
  refine (does_buildPayload hk).bind ?_
  rintro ⟨_, _⟩ u hu
  refine .ofExcept_bind (fun record _ => ?_)
  refine .ofExcept_bind (fun plan hp => ?_)
  refine .ofExcept_bind (fun _ _ => ?_)
  refine does_consumeAcknowledgement.bind ?_
  intro _ v hv
  refine ⟨⟨u, hu, hv⟩, hm, ⟨chain, hc, hcp, ?_, rfl⟩, plan_ne_nil hp, ?_⟩
  · exact selectHeadAndOperator_eq_ok hs
  · exact fun hb => content_of_bound hcn hb

end Prepare

/-! ## 3. The claim -/

section Claims

variable [Normalization] {start s : Installation}

/-- The claim this call has made: for the open draft, under a new source. -/
def Claimed (start s : Installation) (number : ClaimedIncidentNumber) (source : ClaimSource) :
    Prop :=
  ∃ row ∈ s.draft, s.slot = some row.key ∧ ∃ claim, s.claims = start.claims ++ [claim]
    ∧ claim.source = source ∧ claim.draftId = row.draftId
    ∧ claim.key = registerKey number.organizationId number.localCivilYear number.humanIncidentNumber
    ∧ source ∉ start.claims.map (·.source)

/-- Who has claimed a number may release it. -/
theorem Claimed.mayRelease {num : ClaimedIncidentNumber} (h : Claimed start s num source) :
    s.MayRelease source := by
  obtain ⟨row, hr, hs, _, hc, -, hd, -, hn⟩ := h
  refine ⟨row, hr, hs, fun other ho heq => ?_⟩
  rw [hc] at ho
  rcases List.mem_append.mp ho with ho | ho
  · exact absurd (List.mem_map.mpr ⟨other, ho, heq⟩) hn
  · obtain rfl := List.mem_singleton.mp ho
    exact hd

/-- Between the claim and the first staged file. -/
structure Working (start : Installation) (pending : Option ClaimedIncidentNumber)
    (claim : Option ClaimSource) (s : Installation) : Prop where
  keyed : Keyed s
  le : start.draws ≤ s.draws
  files : s.files = start.files
  transition : s.transition = start.transition
  released : s.released = start.released
  identities : s.identities = start.identities
  evidence : s.evidence = start.evidence
  claimed : ∀ source ∈ claim, ∃ number ∈ pending, Claimed start s number source

variable [EvidenceSource] {lic : Licence} {pend : Option ClaimedIncidentNumber}

omit [EvidenceSource] in
theorem Begun.working (h : Begun start s) (hk : Keyed start) : Working start pend none s := by
  obtain ⟨before, hb, hs⟩ := h
  have hkeyed' : Keyed before := by
    rcases hb with rfl | ⟨-, rfl⟩
    · exact hk
    · exact keyed_withBlank hk
  rw [hs]
  refine ⟨⟨hkeyed'.slot, hkeyed'.draft, hkeyed'.claims, hkeyed'.own⟩, ?_, ?_, ?_, ?_, ?_, ?_,
    fun _ h => (nomatch h)⟩
  all_goals rcases hb with rfl | ⟨-, rfl⟩
  all_goals first | rfl | exact Nat.le_add_right _ _

omit [EvidenceSource] in
theorem Working.of_loaded {draft : Draft} (h : Working start pend none s)
    (hl : Loaded s draft t) : Working start pend none t := by
  refine ⟨hl.keyed h.keyed, h.le.trans hl.frame.2, ?_, ?_, ?_, ?_, ?_, fun _ h => (nomatch h)⟩
  all_goals rw [hl.frame.1]
  · exact h.files
  · exact h.transition
  · exact h.released
  · exact h.identities
  · exact h.evidence

/-- A number is claimed, or none is needed. -/
theorem does_claimIncidentNumber (hke : Keyed start) (hb : Begun start s)
    (hm : start.marker = none) :
    Yields lic (claimIncidentNumber request pend) (Working start pend) s := by
  cases pend with
  | none => exact hb.working hke
  | some num =>
    have hwo : Working start (some num) none s := hb.working hke
    have hl : Yields lic (loadOrCreate.mapError WriterError.draft) (Loaded s) s :=
      (does_loadOrCreate hwo.keyed).yields.mapError
    refine hl.bind ?_
    intro _ t hlo
    have hw := hwo.of_loaded hlo
    have hu : t.marker = none := by
      unfold Installation.marker at hm ⊢
      rw [hw.transition]
      exact hm
    have hc : t.claims = start.claims := by
      obtain ⟨_, hbe, hs⟩ := hb
      rw [hlo.frame.1]
      rw [hs]
      rcases hbe with rfl | ⟨-, rfl⟩ <;> rfl
    refine .transact_bind rfl ⟨hu, hlo.opens⟩ ?_ trivial
    refine .ofExcept_bind (fun source hso => ?_)
    simp only [Port.perform, commitWith] at hso ⊢
    split at hso
    · rename_i granted u hg
      obtain rfl := Except.ok.inj hso
      obtain ⟨row, claim, hr, hsr, hk, how, hn, hf, rfl⟩ := claimNumber_eq_ok hg
      have he : Effect lic t { t with
          register := claim.key :: t.register, claims := t.claims ++ [claim] } := by
        refine .claim row claim hr (hlo.opens row hr) hu how ?_ hf
        exact fun other ho heq => hn (List.mem_map.mpr ⟨other, ho, heq.trans hsr⟩)
      refine ⟨keyed_of_effect hw.keyed he, hw.le, hw.files, hw.transition, hw.released,
        hw.identities, hw.evidence, ?_⟩
      rintro _ ⟨⟩
      refine ⟨num, rfl, row, hr, hlo.opens row hr, claim, ?_, hsr, how.1, hk, hc ▸ hn⟩
      exact congrArg (· ++ [claim]) hc
    · cases hso

end Claims

/-! ## 4. Steps 6 and 7 -/

section Build

variable [Crypto] [Sealing]

/-- A transaction whose entry was built with a nonce drawn in between. -/
structure Built (request : FinalizeCall) (attempt : Attempt) (low high : Nat)
    (transaction : PreparedTransaction) : Prop where
  sequence : transaction.sequence = attempt.sequence
  package : ∃ package, Crypto.decode transaction.entryBytes = .ok (.entry package)
    ∧ package.entryHash = transaction.entryHash
    ∧ package.signedManifest.manifest.chainId = request.service.binding.chainId
    ∧ package.signedManifest.manifest.chainSequence = attempt.sequence
    ∧ package.signedManifest.manifest.previousEntryHash = attempt.previousEntryHash
    ∧ low ≤ package.signedManifest.manifest.nonce
    ∧ package.signedManifest.manifest.nonce < high
  verified : transaction.verify = .ok ()
  framed : hasExactObjectPrefix transaction.entryBytes = true

variable {attempt : Attempt} {transaction : PreparedTransaction} {cek : Draw}

omit [Sealing] in
/-- The draws date an entry. -/
theorem Built.datedBetween (h : Built request attempt low high transaction) :
    DatedBetween low high transaction.entryHash := by
  obtain ⟨package, -, hh, -, -, -, hl, hhi⟩ := h.package
  exact ⟨package.signedManifest, package.writerSignature, hh, hl, hhi⟩

omit [Sealing] in
theorem Built.mono (h : Built request attempt low high transaction) (hle : low' ≤ low) :
    Built request attempt low' high transaction := by
  obtain ⟨package, hd, hh, hid, hs, hp, hl, hhi⟩ := h.package
  exact ⟨h.sequence, ⟨package, hd, hh, hid, hs, hp, hle.trans hl, hhi⟩, h.verified, h.framed⟩

/-- The entry is the next one of its chain. -/
theorem buildEntry_eq_ok {nonce : Draw} {entry : EntryPackage}
    (h : buildEntry request attempt cek nonce = .ok entry) :
    entry.signedManifest.manifest.chainId = request.service.binding.chainId
      ∧ entry.signedManifest.manifest.chainSequence = attempt.sequence
      ∧ entry.signedManifest.manifest.previousEntryHash = attempt.previousEntryHash
      ∧ entry.signedManifest.manifest.initialGrantPlanHash = Crypto.grantPlanDigest attempt.plan
      ∧ entry.signedManifest.manifest.nonce = nonce := by
  simp only [buildEntry, ok_iff] at h
  obtain ⟨_, hm, rfl⟩ := h
  unfold manifestFields at hm
  split at hm
  · obtain rfl := Except.ok.inj hm
    exact ⟨rfl, rfl, rfl, rfl, rfl⟩
  · cases hm

variable [Normalization] [EvidenceSource] {lic : Licence} {s : Installation}

omit [Crypto] [Sealing] in
/-- No draw is made twice. -/
theorem does_drawSecret :
    Does lic drawSecret (fun value t => value = s.draws ∧ t = { s with draws := s.draws + 1 })
      (fun _ t => t = s) s := by
  exact .transact_bind rfl trivial ⟨rfl, rfl⟩ rfl

omit [Crypto] [Sealing] in
theorem does_requestSignature :
    Does lic requestSignature (fun _ t => t = s) (fun _ t => t = s) s := by
  exact .transact_bind rfl trivial rfl rfl

theorem does_produceGrant {item : GrantPlanItem} :
    Does lic (produceGrant service entryHash cek item)
      (fun grant t => t = s ∧ PreparedTransaction.grantHolds grant = true)
      (fun _ t => t = s) s := by
  refine .ofExcept_bind (fun body _ => ?_) (fun _ _ => rfl)
  refine does_requestSignature.bind ?_ fun _ _ h => h
  rintro - t rfl
  refine .ofExcept_bind (fun bytes hb => ⟨rfl, ?_⟩) (fun _ _ => rfl)
  have hd := Sealing.decode_encodeGrant _ bytes (mapError_eq_ok.mp hb)
  simp [PreparedTransaction.grantHolds, hd]

/-- One grant for each item, each under its own hash. -/
theorem does_produceGrants (items : List GrantPlanItem) :
    Does lic (produceGrants service entryHash cek items)
      (fun grants t => t = s ∧ grants.length = items.length
        ∧ ∀ grant ∈ grants, PreparedTransaction.grantHolds grant = true)
      (fun _ t => t = s) s := by
  induction items with
  | nil => exact ⟨rfl, rfl, fun _ h => (nomatch h)⟩
  | cons _ items ih =>
    refine does_produceGrant.bind ?_ fun _ _ h => h
    rintro grant t ⟨rfl, hg⟩
    refine ih.bind ?_ fun _ _ h => h
    rintro grants t ⟨rfl, hl, hgr⟩
    exact ⟨rfl, congrArg (· + 1) hl, List.forall_mem_cons.mpr ⟨hg, hgr⟩⟩

/-- **Steps 6 and 7.**  Only values are drawn, and what is built passes its own check. -/
theorem does_buildTransaction (hp : attempt.plan ≠ []) : Does lic (buildTransaction request attempt)
      (fun transaction t => (s.draws ≤ t.draws ∧ t = { s with draws := t.draws })
        ∧ Built request attempt s.draws t.draws transaction)
      (fun _ t => s.draws ≤ t.draws ∧ t = { s with draws := t.draws }) s := by
  refine does_drawSecret.bind ?_ ?_
  · rintro _ t ⟨rfl, rfl⟩
    refine does_drawSecret.bind ?_ ?_
    · rintro _ t ⟨rfl, rfl⟩
      have hd : s.draws ≤ s.draws + 1 + 1 := Nat.le_add_right _ 2
      refine .ofExcept_bind (fun entry he => ?_) (fun _ _ => ⟨hd, rfl⟩)
      obtain ⟨hc, hs, hpr, hdi, hno⟩ := buildEntry_eq_ok he
      refine does_requestSignature.bind ?_ ?_
      · rintro - t rfl
        refine (does_produceGrants attempt.plan).bind ?_ ?_
        · rintro grants t ⟨rfl, hl, hg⟩
          refine .ofExcept_bind (fun bytes hb => ?_) (fun _ _ => ⟨hd, rfl⟩)
          have hde := Sealing.decode_encodeEntryPackage _ bytes (mapError_eq_ok.mp hb)
          have hn : grants ≠ [] := by
            rintro rfl
            exact hp (List.length_eq_zero_iff.mp hl.symm)
          refine ⟨⟨hd, rfl⟩, rfl, ⟨entry, hde, rfl, hc, hs, hpr, ?_, ?_⟩,
            ?_, Sealing.framed_encodeEntryPackage _ bytes (mapError_eq_ok.mp hb)⟩
          · rw [hno]
            exact Nat.le_succ _
          · rw [hno]
            exact Nat.lt_succ_self _
          · simp only [PreparedTransaction.verify, ensure_eq_ok, PreparedTransaction.entryHolds,
              hde, hs, hdi, decide_true, Bool.and_self, Bool.and_true,
              Bool.and_eq_true, Bool.not_eq_true', List.isEmpty_eq_false_iff, List.all_eq_true]
            exact ⟨hn, hg⟩
        · rintro _ t rfl
          exact ⟨hd, rfl⟩
      · rintro _ t rfl
        exact ⟨hd, rfl⟩
    · rintro _ t rfl
      exact ⟨Nat.le_succ _, rfl⟩
  · rintro _ t rfl
    exact ⟨le_rfl, rfl⟩

end Build

/-! ## 5. Step 8 -/

/-- Draft, key and claims are the same. -/
structure SameHolder (s t : Installation) : Prop where
  draft : t.draft = s.draft
  slot : t.slot = s.slot
  claims : t.claims = s.claims

theorem SameHolder.trans {s u : Installation} (h : SameHolder s t) (h' : SameHolder t u) :
    SameHolder s u :=
  ⟨h'.draft.trans h.draft, h'.slot.trans h.slot, h'.claims.trans h.claims⟩

theorem SameHolder.mayRelease {s : Installation} (h : SameHolder s t) (hm : s.MayRelease source) :
    t.MayRelease source := by
  obtain ⟨row, hr, hs, ho⟩ := hm
  exact ⟨row, h.draft ▸ hr, h.slot ▸ hs, h.claims ▸ ho⟩

section Stage

variable [Normalization] [EvidenceSource]
variable {s : Installation} {lic : Licence} {transaction : PreparedTransaction}

variable {start : Installation} {attempt : Attempt} {claim : Option ClaimSource}

/-- The identity of an incident under the claim of this call. -/
theorem does_recordOriginalIdentity (hor : Orderly start) (hm : s.marker = none)
    (hw : Working start attempt.pendingClaim claim s)
    (hne : lic.New s transaction.entryHash) :
    Does lic (recordOriginalIdentity attempt transaction
        (attempt.pendingClaim.bind fun pending => claim.map (pending, ·)))
      (fun _ t => t = { s with identities := t.identities }
        ∧ ∀ ident ∈ t.identities, ident ∈ s.identities ∨ claim = some ident.claim
          ∧ ident.objectHash = transaction.entryObjectHash
          ∧ ident.sequence = transaction.sequence)
      (fun _ t => t = s) s := by
  cases hc : claim with
  | none =>
    have hn : (attempt.pendingClaim.bind fun pending =>
        (none : Option ClaimSource).map (pending, ·)) = none := by
      cases attempt.pendingClaim <;> rfl
    rw [hn]
    exact ⟨rfl, fun ident h => .inl h⟩
  | some source =>
    obtain ⟨_, hnu, row, hr, hs, own, hcl, hsr, hd, hk, hu⟩ := hw.claimed source hc
    rw [Option.mem_def.mp hnu]
    have hmi : own ∈ s.claims := by
      rw [hcl]
      exact List.mem_append_right _ (List.mem_singleton_self _)
    refine .transact_bind rfl ⟨⟨hm, ⟨row, hr, hs, own, hmi, hsr, hk, hd⟩, ?_,
      ?_⟩, hne⟩ ?_ ?_
    · rw [hw.released]
      exact fun h => hu (hor.known source h)
    · intro other ho (heq : other.claim = source)
      rw [hw.identities] at ho
      exact hu (heq ▸ hor.owned other ho)
    · simp only [Port.perform, Installation.recordOriginalIdentity]
      split
      · exact rfl
      · split
        · exact rfl
        · refine ⟨rfl, fun ident hid => ?_⟩
          rcases List.mem_append.mp hid with h | h
          · exact .inl h
          · obtain rfl := List.mem_singleton.mp h
            exact .inr ⟨rfl, rfl, rfl⟩
    · exact rfl

/-- Evidence is bound to a new entry. -/
theorem does_bindEvidence (hm : s.marker = none) (hn : lic.New s transaction.entryHash) :
    Does lic (bindEvidence transaction content) (fun _ t => t = { s with evidence := t.evidence }
        ∧ (∀ row ∈ t.evidence, row ∈ s.evidence ∨ row.2 = transaction.entryObjectHash
          ∧ EvidenceRules.accepts transaction.entryBytes = true)
        ∧ ((∃ input, content = .destructionEvidence input) →
          EvidenceRules.accepts transaction.entryBytes = true
            ∧ ∃ row ∈ t.evidence, row.1 = transaction.entryHash))
      (fun _ t => t = s) s := by
  unfold bindEvidence
  split
  · refine .transact_bind rfl ⟨hm, hn⟩ ?_ rfl
    simp only [Port.perform, Installation.bindPreparedEntry]
    split
    · exact rfl
    · rename_i ha
      have haccepts' : EvidenceRules.accepts transaction.entryBytes = true := by
        simpa using ha
      split
      · rename_i row hf
        split
        · exact ⟨rfl, fun row h => .inl h, fun _ => ⟨haccepts', row,
            List.mem_of_find?_eq_some hf, by simpa using List.find?_some hf⟩⟩
        · exact rfl
      · refine ⟨rfl, fun row hr => ?_, fun _ => ⟨haccepts', _,
          List.mem_append_right _ (List.mem_singleton_self _), rfl⟩⟩
        rcases List.mem_append.mp hr with h | h
        · exact .inl h
        · obtain rfl := List.mem_singleton.mp h
          exact .inr ⟨rfl, haccepts'⟩
  · rename_i hc
    exact ⟨rfl, fun row h => .inl h, fun h => (hc _ h.choose_spec).elim⟩

omit [Normalization] [EvidenceSource] in
/-- A staged file is not visible, and nothing else moves. -/
theorem createStaged_step {files' : Files} (hs : path.staging = true)
    (h : createIfAbsent files path bytes = .ok files') :
    files'.read path = some bytes ∧ files'.visible = files.visible
      ∧ ∀ other bytes', files.read other = some bytes' → files'.read other = some bytes' := by
  rcases createIfAbsent_eq_ok.mp h with ⟨hr, rfl⟩ | ⟨hn, rfl⟩
  · exact ⟨hr, rfl, fun _ _ h => h⟩
  · refine ⟨?_, Files.visible_append hs, fun other bytes' ho => ?_⟩
    · rw [Files.read_append_singleton hn, if_pos rfl]
    · rw [Files.read_append_singleton hn, if_neg, ho]
      rintro rfl
      rw [hn] at ho
      cases ho

variable [Crypto]

/-- The staged files, one after the other; what stands under a name stays as it is. -/
theorem does_createStaged (pairs : List (ArchivePath × Bytes)) (hm : s.marker = none)
    (hf : Fresh start s transaction.entryHash) (hpa : ∀ pair ∈ pairs, pair.1.staging = true
      ∧ pair.1.target.entryHash? = some transaction.entryHash) :
    Does (licenceOf start request) (createStaged pairs)
      (fun _ t => t = { s with files := t.files } ∧ t.files.visible = start.files.visible
        ∧ (∀ pair ∈ pairs, t.files.read pair.1 = some pair.2)
        ∧ ∀ path bytes, s.files.read path = some bytes → t.files.read path = some bytes)
      (fun _ t => SameHolder s t) s := by
  induction pairs generalizing s with
  | nil => exact ⟨rfl, hf.visible, fun _ h => (nomatch h), fun _ _ h => h⟩
  | cons pair pairs ih =>
    obtain ⟨⟨hs, hn⟩, hre⟩ := List.forall_mem_cons.mp hpa
    refine .ofExcept_bind (fun _ _ => ?_) (fun _ _ => ⟨rfl, rfl, rfl⟩)
    have hp : (Port.createIfAbsent pair.1 pair.2).perform s
        = commit s ((createIfAbsent s.files pair.1 pair.2).map fun files =>
            { s with files }) := rfl
    refine .call_bind (.inl ⟨hs, hm, _, hn, hf⟩) ?_ ?_ ?_
    · refine .ofExcept_bind (fun _ hcr => ?_) (fun _ hfa => ?_)
      · rw [hp] at hcr ⊢
        cases hc : createIfAbsent s.files pair.1 pair.2 with
        | error e =>
          rw [hc] at hcr
          cases hcr
        | ok files =>
          obtain ⟨hr, hv, hke⟩ := createStaged_step hs hc
          have hfresh' : Fresh start { s with files } transaction.entryHash :=
            ⟨hv.trans hf.visible, hf.dated⟩
          have hmarker' : ({ s with files } : Installation).marker = none := hm
          refine (ih hmarker' hfresh' hre).imp ?_ ?_
          · rintro - t ⟨ht, hvisible', hst, hk⟩
            refine ⟨ht, hvisible', List.forall_mem_cons.mpr ⟨hk _ _ hr, hst⟩, ?_⟩
            exact fun path bytes h => hk path bytes (hke path bytes h)
          · exact fun _ t ht => ⟨ht.draft, ht.slot, ht.claims⟩
      · rw [hp]
        cases createIfAbsent s.files pair.1 pair.2 <;> exact ⟨rfl, rfl, rfl⟩
    · rintro _ ⟨⟩
      exact ⟨rfl, rfl, rfl⟩
    · rintro _ ⟨⟩ -
      rw [hp]
      cases createIfAbsent s.files pair.1 pair.2 <;> exact ⟨rfl, rfl, rfl⟩

omit [Crypto] in
/-- A flush of every path changes nothing. -/
theorem does_forPaths {sync : ArchivePath → Task WriterError Unit}
    (hs : ∀ path, Does lic (sync path) (fun _ t => t = s) (fun _ t => t = s) s)
    (pairs : List (ArchivePath × Bytes)) :
    Does lic (forPaths sync pairs) (fun _ t => t = s) (fun _ t => t = s) s := by
  induction pairs with
  | nil => exact rfl
  | cons pair pairs ih =>
    refine (hs pair.1).bind ?_ fun _ _ h => h
    rintro - t rfl
    exact ih

omit [Crypto] in
theorem does_recordPreparedClaim : Does lic (recordPreparedClaim entryHash claim)
      (fun _ t => t = { s with stalePrepared := t.stalePrepared })
      (fun _ t => t = { s with stalePrepared := t.stalePrepared }) s := by
  unfold recordPreparedClaim
  split
  · refine .transact_bind rfl trivial ?_ rfl
    simp only [Port.perform, Installation.recordPreparedClaim]
    split <;> exact rfl
  · exact rfl

omit [Normalization] [EvidenceSource] [Crypto] in
/-- Staged paths belong to the entry. -/
theorem staged_of_mem {pair : ArchivePath × Bytes} (h : pair ∈ transaction.stagedPairs) :
    pair.1.staging = true ∧ pair.1.target.entryHash? = some transaction.entryHash := by
  obtain ⟨_, ht, rfl⟩ := List.mem_map.mp h
  have hn := PreparedTransaction.entryHash?_eq ht
  exact ⟨rfl, hn⟩

/-- The state in which the marker stands and the key is still there. -/
structure Marked (start : Installation) (transaction : PreparedTransaction) (s t : Installation) :
    Prop where
  marker : t.marker = some transaction
  keyed : Keyed t
  staging : transaction.Staging t.files
  erases : Erases start t transaction
  holder : SameHolder s t

omit [EvidenceSource] [Crypto] in
/-- The claim of this call is held for the open draft. -/
theorem Working.holds {pending : Option ClaimedIncidentNumber}
    (h : Working start pending (some source) s) (ho : Orderly start) :
    (∃ row ∈ s.draft, s.slot = some row.key ∧ ∃ claim ∈ s.claims,
        claim.source = source ∧ claim.draftId = row.draftId) ∧ source ∉ s.released := by
  obtain ⟨_, -, row, hr, hs, own, hc, hsr, hd, -, hu⟩ := h.claimed source rfl
  refine ⟨⟨row, hr, hs, own, ?_, hsr, hd⟩, ?_⟩
  · rw [hc]
    exact List.mem_append_right _ (List.mem_singleton_self _)
  · rw [h.released]
    exact fun hre => hu (ho.known source hre)

omit [Normalization] [EvidenceSource] in
/-- What was attempted and built succeeds the head. -/
theorem Attempted.succeeds (h : Attempted start request attempt)
    (hb : Built request attempt start.draws high transaction) :
    Succeeds request.service start.files transaction start.draws high := by
  obtain ⟨chain, hc, hcp, hs, hp⟩ := h.head
  obtain ⟨package, hd, hh, hid, hse, hpr, hl, hhi⟩ := hb.package
  exact ⟨chain, package, hc, hcp, hb.sequence.trans hs, hd, hh, hid,
    hse.trans hb.sequence.symm, hpr.trans hp, hl, hhi⟩

/-- The flushes and the marker. -/
theorem does_flushAndMark (hm : s.marker = none) (hk : Keyed s)
    (hpr : Prepares start request s transaction) :
    Does (licenceOf start request) (do
        forPaths syncFile transaction.stagedPairs
        forPaths syncDirectory transaction.stagedPairs
        recordPreparedClaim transaction.entryHash claim
        setMarker (some transaction))
      (fun _ t => Marked start transaction s t) (fun _ t => SameHolder s t) s := by
  have hsa : ∀ (e : WriterError) (t : Installation), t = s → SameHolder s t := by
    rintro _ t rfl
    exact ⟨rfl, rfl, rfl⟩
  refine (does_forPaths (fun path => does_syncFile) _).bind ?_ hsa
  rintro - t rfl
  refine (does_forPaths (fun path => does_syncDirectory) _).bind ?_ hsa
  rintro - t rfl
  refine does_recordPreparedClaim.bind ?_ ?_
  · intro _ u hu
    have hprepares' : Prepares start request u transaction := by
      obtain ⟨hvi, hsu, hv, hf, hst, hi, hev, hbo⟩ := hpr
      rw [hu]
      refine ⟨hvi, hsu, hv, hf, hst, fun ident h => ?_, hev, hbo⟩
      exact (hi ident h).imp_right fun his =>
        ⟨his.object, his.sequence, his.holder, his.unreleased⟩
    have hun : u.marker = none := by rw [hu]; exact hm
    refine .transact_bind rfl ⟨hun, hprepares'⟩ ?_ ?_
    · refine ⟨rfl, ?_, ?_, ?_, ?_⟩
      · obtain ⟨hs, hd, hc, ho⟩ := hk
        rw [hu]
        exact ⟨hs, hd, hc, ho⟩
      · intro pair hp _ hb
        exact Option.some.inj (hb.symm.trans (hprepares'.staged pair hp))
      · obtain ⟨_, _, -, -, -, -, hh, -, -, -, hl, hhi⟩ := hprepares'.succeeds
        exact ⟨⟨_, _, hh, hl, hhi⟩, fun ident h =>
          (hprepares'.identities ident h).imp_right (·.unreleased)⟩
      · rw [hu]
        exact ⟨rfl, rfl, rfl⟩
    · rw [hu]
      exact ⟨rfl, rfl, rfl⟩
  · intro _ u hu
    rw [hu]
    exact ⟨rfl, rfl, rfl⟩

/-- **Step 8.**  The marker stands only once everything is staged. -/
theorem does_stageAndFlush (hor : Orderly start) (hm : start.marker = none)
    (ha : Attempted start request attempt)
    (hw : Working start attempt.pendingClaim claim s)
    (hbu : Built request attempt start.draws s.draws transaction) :
    Does (licenceOf start request) (stageAndFlush request attempt claim transaction)
      (fun _ t => Marked start transaction s t) (fun _ t => SameHolder s t) s := by
  have hum : s.marker = none := by
    unfold Installation.marker at hm ⊢
    rw [hw.transition]
    exact hm
  have hf : Fresh start s transaction.entryHash := ⟨by rw [hw.files], hbu.datedBetween⟩
  refine (does_recordOriginalIdentity hor hum hw hf).bind ?_ ?_
  · rintro - t ⟨ht, hi⟩
    have hfresh' : Fresh start t transaction.entryHash := by
      rw [ht]
      exact ⟨hf.visible, hf.dated⟩
    have hunmarked' : t.marker = none := by rw [ht]; exact hum
    refine (does_bindEvidence hunmarked' hfresh').bind ?_ ?_
    · rintro - u ⟨hu, hev, hb⟩
      rw [ht] at hu hev
      have hfresh'' : Fresh start u transaction.entryHash := by
        rw [hu]
        exact ⟨hf.visible, hf.dated⟩
      have hunmarked'' : u.marker = none := by rw [hu]; exact hum
      refine (does_createStaged transaction.stagedPairs hunmarked'' hfresh''
        fun pair hp => staged_of_mem hp).bind ?_ ?_
      · rintro - v ⟨hv, hvi, hst, -⟩
        rw [hu] at hv
        have hk : Keyed v := by
          obtain ⟨hs, hd, hc, how⟩ := hw.keyed
          rw [hv]
          exact ⟨hs, hd, hc, how⟩
        have hpr : Prepares start request v transaction := by
          refine ⟨hvi, ?_, hbu.verified, hbu.framed, ?_, ?_, ?_, ?_⟩
          · rw [hv]
            exact ha.succeeds hbu
          · exact fun pair hp => hst _ (List.mem_map.mpr ⟨pair, hp, rfl⟩)
          · rw [hv]
            intro ident hid
            rcases hi ident hid with hold | ⟨rfl, ho, hse⟩
            · exact .inl (hw.identities ▸ hold)
            · obtain ⟨hh, hun⟩ := hw.holds hor
              exact .inr ⟨ho, hse, hh, hun⟩
          · rw [hv]
            intro row hr
            exact (hev row hr).imp_left fun hold => hw.evidence ▸ hold
          · rw [hv]
            exact fun hsr => hb (ha.bound hsr)
        have hsa : SameHolder s v := by
          rw [hv]
          exact ⟨rfl, rfl, rfl⟩
        refine (does_flushAndMark (by rw [hv]; exact hum) hk hpr).imp ?_ ?_
        · exact fun _ w h => ⟨h.marker, h.keyed, h.staging, h.erases, hsa.trans h.holder⟩
        · exact fun _ w h => hsa.trans h
      · intro _ v hv
        rw [hu] at hv
        exact ⟨hv.draft, hv.slot, hv.claims⟩
    · rintro _ u rfl
      rw [ht]
      exact ⟨rfl, rfl, rfl⟩
  · rintro _ t rfl
    exact ⟨rfl, rfl, rfl⟩

end Stage

/-! ## 6. Step 9 and the whole -/

section Finalize

variable [Crypto] [Normalization] [EvidenceSource]
variable {start s : Installation}
variable {transaction : PreparedTransaction} {claim : Option ClaimSource}

omit [Normalization] [EvidenceSource] in
theorem DatedBetween.mono {high' : Nat} {hash : EntryHash} (h : DatedBetween low high hash)
    (hl : low' ≤ low) (hhi : high ≤ high') : DatedBetween low' high' hash := by
  obtain ⟨man, sig, hh, hle, hlt⟩ := h
  exact ⟨man, sig, hh, hl.trans hle, hlt.trans_le hhi⟩

omit [Crypto] [Normalization] [EvidenceSource] in
theorem mayRelease_of_saved {row : DraftRow} {draws revision : Nat} (hr : s.draft = some row)
    (h : s.MayRelease source) :
    ({ s with draft := some { row with revision }, draws } : Installation).MayRelease source := by
  obtain ⟨found, hf, hs, ho⟩ := h
  obtain rfl : row = found := Option.some.inj (hr.symm.trans hf)
  exact ⟨_, rfl, hs, ho⟩

omit [Crypto] in
/-- The draft is opened and saved once more; a failure leaves its claims to be released. -/
theorem does_saveDraft {licence : Licence} (hk : Keyed s)
    (hh : ∀ source ∈ claim, s.MayRelease source) :
    Does licence (do
        let draft ← loadOrCreate
        let saved ← save draft
        draftDekHandle saved)
      (fun _ t => ∃ row, t.draft = some row ∧ Keyed t ∧ s.draws ≤ t.draws
        ∧ t = { s with draft := t.draft, slot := t.slot, draws := t.draws })
      (fun _ t => ∀ source ∈ claim, t.MayRelease source) s := by
  refine (does_loadOrCreate hk).bind ?_ ?_
  · intro draft t hl
    obtain ⟨row, hr, hs, rfl⟩ := hl.opened
    -- a draft that had to be created has no claims
    have hheld' : ∀ source ∈ claim, t.MayRelease source := by
      intro source hsr
      rcases hl.eq with rfl | ⟨hn, -⟩
      · exact hh source hsr
      · obtain ⟨row, hr, -⟩ := hh source hsr
        rw [hn] at hr
        cases hr
    refine (does_save hr hs).bind ?_ ?_
    · rintro saved u ⟨-, hle, hu⟩
      refine does_draftDekHandle.imp ?_ ?_
      · rintro - v ⟨rfl, -⟩
        have hkeyed' : Keyed v := by
          have hsa : Effect licence { t with draws := v.draws } _ := .save row hr hs
          have hd : Keyed { t with draws := v.draws } := (hl.keyed hk).mono hle
          rw [hu]
          exact keyed_of_effect hd hsa
        refine ⟨_, by rw [hu], hkeyed', hl.frame.2.trans hle, ?_⟩
        rw [hu, hl.frame.1]
      · rintro e v rfl source hsr
        rw [hu]
        exact mayRelease_of_saved hr (hheld' source hsr)
    · rintro e u ⟨-, hu⟩ source hsr
      rw [hu]
      exact hheld' source hsr
  · intro e t hun source hsr
    rcases hun.eq with rfl | ⟨hn, -⟩
    · exact hh source hsr
    · obtain ⟨row, hr, -⟩ := hh source hsr
      rw [hn] at hr
      cases hr

/-- **Step 9.**  Afterwards the draft is closed; an error that reports the claim leaves it to be
released. -/
theorem does_eraseDraftKey (hmk : Marked start transaction s t)
    (hh : ∀ source ∈ claim, s.MayRelease source) :
    Does (licenceOf start request) (eraseDraftKey claim)
      (fun _ u => Keyed u ∧ u.marker = some transaction ∧ ¬ u.Opens
        ∧ transaction.Staging u.files)
      (fun e u => ∀ source ∈ e.2, u.MayRelease source) t := by
  have hheld' : ∀ source ∈ claim, t.MayRelease source :=
    fun source h => hmk.holder.mayRelease (hh source h)
  refine Does.bind (Does.mapError (does_saveDraft hmk.keyed hheld') ?_) ?_ fun _ _ h => h
  · exact fun _ _ h => h
  · rintro - u ⟨_, hr, hk, hle, hu⟩
    have hm : u.marker = some transaction := by rw [hu]; exact hmk.marker
    have hg : MayDeleteKey (licenceOf start request) u := by
      refine .inr (.inl ⟨transaction, hm, hmk.erases.dated.mono le_rfl hle, ?_⟩)
      rw [hu]
      exact hmk.erases.held
    have hcl : ¬ ({ u with slot := none } : Installation).Opens :=
      Installation.not_opens_of_locked hr fun _ _ => by simp
    have hkeyed' : Keyed { u with slot := none } :=
      ⟨fun _ h => (nomatch h), hk.draft, hk.claims, hk.own⟩
    have hs : transaction.Staging u.files := by rw [hu]; exact hmk.staging
    have hn : ∀ (e : WriterError) (v : Installation),
        ∀ source ∈ (e, (none : Option ClaimSource)).2, v.MayRelease source :=
      fun _ _ _ h => (nomatch h)
    refine .call_bind hg ?_ ?_ ?_
    -- the key is gone: the absence is confirmed, or the claim is kept
    · split
      · exact .transact_bind rfl trivial ⟨hkeyed', hm, hcl, hs⟩ (hn _ _)
      · exact .transact_bind rfl trivial ⟨hkeyed', hm, hcl, hs⟩ (hn _ _)
      · exact hn _ _
    · rintro _ ⟨⟩
      exact hn _ _
    · rintro _ ⟨⟩ -
      exact hn _ _

variable [Schema] [Sealing]

/-- A failed finalization leaves a claim that may be released. -/
theorem does_runClaiming (ho : Orderly s) :
    Does (licenceOf s request) (runClaiming request) (fun _ _ => True)
      (fun e t => ∀ source ∈ e.2, t.MayRelease source) s := by
  have hn : ∀ (e : WriterError) (t : Installation), True →
      ∀ source ∈ (e, (none : Option ClaimSource)).2, t.MayRelease source :=
    fun _ _ _ _ h => (nomatch h)
  refine Does.bind (Does.mapError (does_prepare ho.keyed) hn) ?_ fun _ _ h => h
  rintro attempt t ⟨hb, hm, ha⟩
  refine Does.bind (Does.mapError (does_claimIncidentNumber ho.keyed hb hm) hn) ?_ fun _ _ h => h
  intro claim u hw
  have hh : ∀ source ∈ claim, u.MayRelease source := by
    intro source hsr
    obtain ⟨_, -, hc⟩ := hw.claimed source hsr
    exact hc.mayRelease
  -- everything up to the marker reports the claim, which the open draft may release
  have hbu : Does (licenceOf s request) (do
      let transaction ← buildTransaction request attempt
      stageAndFlush request attempt claim transaction
      return transaction) (fun transaction v => Marked s transaction u v)
      (fun _ v => SameHolder u v) u := by
    refine (does_buildTransaction ha.plan).bind ?_ ?_
    · rintro transaction v ⟨⟨hle, hv⟩, hbi⟩
      have hsa : SameHolder u v := by
        rw [hv]
        exact ⟨rfl, rfl, rfl⟩
      have hworking' : Working s attempt.pendingClaim claim v := by
        obtain ⟨hk, hs, hf, ht, hr, hi, hev, hc⟩ := hw
        have hkeyed' := hk.mono hle
        rw [hv]
        exact ⟨hkeyed', hs.trans hle, hf, ht, hr, hi, hev, hc⟩
      refine (does_stageAndFlush ho hm ha hworking'
        (hbi.mono hw.le)).bind ?_ ?_
      · exact fun _ w h => ⟨h.marker, h.keyed, h.staging, h.erases, hsa.trans h.holder⟩
      · exact fun _ w h => hsa.trans h
    · rintro _ v ⟨-, hv⟩
      rw [hv]
      exact ⟨rfl, rfl, rfl⟩
  refine Does.bind (Does.mapError hbu ?_) ?_ fun _ _ h => h
  · exact fun _ v hsa source hsr => hsa.mayRelease (hh source hsr)
  intro transaction v hmk
  refine (does_eraseDraftKey hmk hh).bind ?_ fun _ _ h => h
  rintro - w ⟨hk, hmarker', hcl, hst⟩
  have hp : Yields (licenceOf s request) (publishFromPrepared transaction) (fun _ _ => True) w :=
    (does_publishFromPrepared hk hmarker' hcl hst).imp (fun _ _ _ => trivial)
  exact Does.mapError hp hn

/-- **A finalization heeds the guards**, with the licence of its start. -/
theorem does_finalize (ho : Orderly s) :
    Yields (licenceOf s request) (finalize request) (fun _ _ => True) s := by
  refine (does_runClaiming ho).result_bind (fun _ _ _ => trivial) ?_
  rintro ⟨_, claim⟩ t hh
  cases claim with
  | none => exact trivial
  | some source =>
    exact .transact_bind rfl (hh source rfl) trivial trivial

end Finalize

end Einsatzarchiv.Writer
