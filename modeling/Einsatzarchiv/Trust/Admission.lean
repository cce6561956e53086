/-
  File:      Einsatzarchiv/Trust/Admission.lean
  Subject:   Who approved an operation, and the admission of single objects to the catalog (crate
             `ea-trust`, `grant_authorization.rs` and `admission.rs`).

  * `distinctAuthoritySubjects`: how many people signed an operation.
  * `requireDistinctApprovers`: how many certificates signed it.
  * `verifyCatalogueAdmission`: whether an object may enter the catalog before a head names it.
  * **`admitted_by_two_subjects_iff`**: when the two counts agree that two people approved.
  * `two_subjects_of_one_certificate_each`: they do where nobody holds two certificates.
-/
import Einsatzarchiv.Trust.Clients

namespace Einsatzarchiv.Trust

open Lib Format

section Model

variable [Crypto]

/-! ## 1. Counting people -/

section

variable (signatures : List CoseSign1) (resolver : SignerCertificateResolver)
  (contextOf : CertificateHash → Except CryptoError VerificationContext)

/-- The signers of the given signatures; `contextOf` is the context of each by its certificate. -/
def authoritySubjects :
    Except CryptoError (List SubjectId) :=
  signatures.mapM fun signature => do
    let certificate ← okOr signature.certificateHash .invalidCose
    let context ← contextOf certificate
    let signer ← verifyCoseSign1 signature resolver context
    okOr signer.authoritySubjectId .invalidCose

/-- `distinct_authority_subjects`: how many people have signed. -/
def distinctAuthoritySubjects :
    Except CryptoError Nat := do
  let subjects ← authoritySubjects signatures resolver contextOf
  return subjects.dedup.length

end

/-! ## 2. Admission -/

def requiredDistinctGrantApproversV1 : Nat := 2

section

variable (state : PreviousHeadState)

def requireOrganization (organizationId : OrganizationId) :
    Except TrustError Unit :=
  ensure (organizationId = state.root.fields.organizationId) .actionMismatch

/-- `admit_authorized_target`; the record of consumed authorizations is thrown away. -/
def admitAuthorizedTarget (authorizationObjectHash : ObjectHash)
    (objectHash : ObjectHash) (now : Int) (atSequence : Nat) : Except TrustError Unit := do
  let _ ← verifyAdminAuthorization state authorizationObjectHash objectHash now atSequence {}

/-- The certificates of the signatures, each of which has to verify. -/
def approverCertificates (authorization : TrustObject) :
    Except TrustError (List CertificateHash) :=
  authorization.signatures.mapM fun signature => do
    let certificateHash ← okOr signature.certificateHash .signature
    let context ← (VerificationContext.historicalGrantApprovalTrustDigest authorization.payload
      certificateHash).mapError fun _ => .signature
    let verified ← (verifyCoseSign1 signature state.previousHeadResolver context).mapError
      fun _ => .signature
    return verified.certificateHash

/-- `require_distinct_approvers`: the distinct certificates are counted, not the people. -/
def requireDistinctApprovers (authorization : TrustObject) :
    Except TrustError Unit := do
  let certificates ← approverCertificates state authorization
  ensure (requiredDistinctGrantApproversV1 ≤ certificates.dedup.length) .signature

/-- The match of `verify_catalogue_admission` over the payload. -/
def admitPayload (object : TrustObject) (objectHash : ObjectHash)
    (now : Int) (atSequence : Nat) : Except TrustError Unit := do
  match object.payload with
  | .organizationAdminAuthorization fields =>
    requireOrganization state fields.organizationId
    ensure (fields.registryVersion = state.registryVersion
      ∧ fields.registryHeadHash = state.registryHeadHash) .actionMismatch
    let _ ← verifyAuthorizationSigner state object fields atSequence
    ensure (fields.issuedAt ≤ now) .authNotYetValid
    ensure (now ≤ fields.expiresAt) .authExpired
  | .authorized (.registryEvent _) _ => throw .actionMismatch
  -- a policy is not compared with the organization here
  | .authorized (.policy _) authorizationObjectHash =>
    admitAuthorizedTarget state authorizationObjectHash objectHash now atSequence
  | .authorized core authorizationObjectHash =>
    requireOrganization state core.organizationId
    admitAuthorizedTarget state authorizationObjectHash objectHash now atSequence
  | .initialRoot fields | .initialAdminDevice fields | .initialAdminOperatorBinding fields =>
    requireOrganization state fields.organizationId
  | .grantAuthorization fields =>
    requireOrganization state fields.organizationId
    ensure (fields.registryVersion = state.registryVersion
      ∧ fields.registryHeadHash = state.registryHeadHash) .actionMismatch
    ensure (now ≤ fields.expiresAt) .authExpired
    requireDistinctApprovers state object
  | _ => throw .actionMismatch

end

/-- The state an object is admitted under: that of the selected head, or the bootstrap state while
there is none. -/
def admissionState (trust : VerifiedTrust) (head : Option SelectedRegistryHead) :
    PreviousHeadState :=
  head.elim trust.previousHead (·.candidateState.value)

/-- `verify_catalogue_admission`. -/
def verifyCatalogueAdmission (trust : VerifiedTrust) (head : Option SelectedRegistryHead)
    (exactObjectBytes : Bytes) (now : Int) (atSequence : Nat) : Except TrustError TrustSubtype := do
  let state := admissionState trust head
  let objectHash := Crypto.objectHash exactObjectBytes
  let parsed ← (decodeExactObject exactObjectBytes).mapError fun _ => .source
  let .trust object := parsed.value | throw .actionMismatch
  let _ ← okOr (state.catalogObject objectHash) .source
  admitPayload state object objectHash now atSequence
  return object.subtype

/-! ## 3. Certificates and people -/

section People

variable {state : PreviousHeadState} {signature : CoseSign1} {body : TrustPayload}
  {certificateHash : CertificateHash} {obj : TrustObject} {bytes : Bytes}

/-- The person that the certificate named by a signature belongs to, as the certificate object in
the catalog says. -/
def namedSubject (state : PreviousHeadState) (signature : CoseSign1) : Option SubjectId := do
  let certificateHash ← signature.certificateHash
  let record ← state.catalogObject certificateHash
  match record.value.payload with
  | .initialAdminDevice fields | .authorized (.device fields) _ => fields.authoritySubjectId
  | _ => none

/-- The bytes a head resolves are those of the catalog object under the hash. -/
theorem catalogObject_of_previousHeadResolver {registry : Nat} {res : ResolvedSigner}
    (h : state.previousHeadResolver certificateHash registry = .ok res)
    (hh : Crypto.objectHash res.exactCertificateBytes = certificateHash) :
    ∃ record, state.catalogObject certificateHash = some record ∧
      res.exactCertificateBytes = record.exactBytes := by
  -- whatever object was resolved, its bytes carry the hash
  have hr : ∀ objectHash record, state.catalog.get objectHash = some record →
      res.exactCertificateBytes = record.exactBytes →
      ∃ record, state.catalogObject certificateHash = some record ∧
        res.exactCertificateBytes = record.exactBytes := by
    intro objectHash record hg hb
    have he := (state.catalog.exact hg).hash
    have hk : record.objectHash = objectHash := state.catalog.key_eq hg
    rw [← hb, hh] at he
    rw [he, hk]
    exact ⟨record, hg, hb⟩
  simp only [PreviousHeadState.previousHeadResolver, bind_eq_ok] at h
  obtain ⟨-, -, h⟩ := h
  split at h
  · simp only [ok_iff] at h
    obtain ⟨record, hg, rfl⟩ := h
    exact hr _ record hg rfl
  · simp only [ok_iff] at h
    obtain ⟨_, -, -, -, record, hg, rfl⟩ := h
    exact hr _ record hg rfl

/-- An approver's certificate names the person it belongs to. -/
theorem authoritySubject_of_approver {cert : ParsedSignerCertificate}
    (hd : Crypto.decode bytes = .ok (.trust obj))
    (h : parseSignerCertificate bytes = .ok cert) (hr : cert.role = .keyApprover) :
    ∃ fields subject, (obj.payload = .initialAdminDevice fields ∨
        ∃ auth, obj.payload = .authorized (.device fields) auth) ∧
      fields.authoritySubjectId = some subject ∧
      cert.authoritySubjectId = some subject := by
  obtain ⟨fields, hp, hf⟩ := device_of_parseSignerCertificate hd h (by simp [hr])
  obtain ⟨hk, hsu, hs⟩ := parseDeviceCertificateCore_eq_ok hf
  have ha : fields.certificateKind = .keyApprover :=
    CertificateKind.signerRole_injective (hk.symm.trans hr)
  obtain ⟨subject, hsubject'⟩ := Option.isSome_iff_exists.mp (hs ha)
  exact ⟨fields, subject, hp, hsubject', hsu.trans hsubject'⟩

/-- **A verified approval comes from the person its certificate names.** -/
theorem namedSubject_of_verified {ctx : VerificationContext} {signer : VerifiedSigner}
    (hc : VerificationContext.historicalGrantApprovalTrustDigest body certificateHash =
      .ok ctx) (h : verifyCoseSign1 signature state.previousHeadResolver ctx = .ok signer) :
    ∃ subject, signer.authoritySubjectId = some subject ∧
      namedSubject state signature = some subject := by
  have hro : ctx.expectedRole = .keyApprover := by
    unfold VerificationContext.historicalGrantApprovalTrustDigest at hc
    split at hc
    · simp only [pure_eq_ok] at hc
      rw [← hc]
      rfl
    · simp at hc
  simp only [verifyCoseSign1, ok_iff] at h
  obtain ⟨-, -, -, -, _, hh, -, -, _, hr, -, ho, _, hp, _, -, -, -, -, ⟨-, he, -⟩, -, -, rfl⟩ := h
  obtain ⟨_, hrc, hb⟩ := catalogObject_of_previousHeadResolver hr ho
  rw [hb] at hp
  obtain ⟨_, subject, hpa, hf, hs⟩ := authoritySubject_of_approver
    (state.catalog.exact hrc).decoded hp (he.trans hro)
  refine ⟨subject, hs, ?_⟩
  simp only [namedSubject, hh, hrc, Option.bind_eq_bind, Option.bind_some]
  rcases hpa with hpa | ⟨_, hpa⟩
  · simp only [hpa, hf]
  · simp only [hpa, hf]

/-- The people behind a list of approvals that all verify are those their certificates name. -/
theorem authoritySubjects_of_approverCertificates {auth : TrustObject}
    {certs : List CertificateHash}
    (h : approverCertificates state auth = .ok certs) :
    ∃ subjects, authoritySubjects auth.signatures state.previousHeadResolver
        (VerificationContext.historicalGrantApprovalTrustDigest auth.payload) = .ok subjects ∧
      List.Forall₂ (fun signature subj => namedSubject state signature = some subj)
        auth.signatures subjects := by
  rw [approverCertificates, mapM_eq_ok] at h
  rw [authoritySubjects]
  simp only [mapM_eq_ok]
  generalize auth.signatures = signatures at h
  induction h with
  | nil => exact ⟨[], .nil, .nil⟩
  | cons hf _ ih =>
    obtain ⟨subjects, hv, hn⟩ := ih
    simp only [ok_iff] at hf
    obtain ⟨_, hh, _, hc, _, hsg, -⟩ := hf
    obtain ⟨subj, hs, hna⟩ := namedSubject_of_verified hc hsg
    refine ⟨subj :: subjects, .cons ?_ hv, .cons hna hn⟩
    simp [hh, hc, hsg, hs]

/-- Several people are behind a list that is not empty exactly when no one is behind all of it. -/
theorem two_le_subjects_iff {signatures : List CoseSign1} {subjects : List SubjectId}
    (hn : List.Forall₂ (fun signature subject => namedSubject state signature = some subject)
      signatures subjects) (hne : signatures ≠ []) :
    2 ≤ subjects.dedup.length ↔
      ¬ ∃ subject, ∀ signature ∈ signatures, namedSubject state signature = some subject := by
  have hm : signatures.map (namedSubject state) = subjects.map some := by
    clear hne
    induction hn with
    | nil => rfl
    | cons hf _ ih => rw [List.map_cons, List.map_cons, hf, ih]
  have hs : subjects ≠ [] := by
    rintro rfl
    exact hne (List.map_eq_nil_iff.mp hm)
  rw [two_le_length_dedup_iff hs]
  refine not_congr (exists_congr fun subject => ?_)
  have ha : (∀ signature ∈ signatures, namedSubject state signature = some subject) ↔
      ∀ name ∈ signatures.map (namedSubject state), name = some subject := by simp
  rw [ha, hm]
  simp

/-- Approvals that count were given by two people exactly when no one gave all of them. -/
theorem two_le_distinctAuthoritySubjects_iff
    (h : requireDistinctApprovers state obj = .ok ()) :
    (∃ count, distinctAuthoritySubjects obj.signatures state.previousHeadResolver
        (VerificationContext.historicalGrantApprovalTrustDigest obj.payload) = .ok count ∧
      2 ≤ count) ↔
    ¬ ∃ subject, ∀ signature ∈ obj.signatures, namedSubject state signature = some subject := by
  simp only [requireDistinctApprovers, ok_iff] at h
  obtain ⟨certificates, hc, hco⟩ := h
  have hne : obj.signatures ≠ [] := by
    intro hni
    rw [approverCertificates, hni] at hc
    obtain rfl : [] = certificates := by simpa [pure, Except.pure] using hc
    simp [requiredDistinctGrantApproversV1] at hco
  obtain ⟨_, hs, hn⟩ := authoritySubjects_of_approverCertificates hc
  rw [← two_le_subjects_iff hn hne]
  simp [distinctAuthoritySubjects, hs]

/-- The certificates that are counted are those that the signatures name. -/
theorem map_certificateHash_of_approverCertificates {certs : List CertificateHash}
    (h : approverCertificates state obj = .ok certs) :
    obj.signatures.map (·.certificateHash) = certs.map some := by
  rw [approverCertificates, mapM_eq_ok] at h
  generalize obj.signatures = signatures at h
  induction h with
  | nil => rfl
  | cons hf _ ih =>
    simp only [ok_iff] at hf
    obtain ⟨_, -, _, -, signer, hsg, rfl⟩ := hf
    simp only [verifyCoseSign1, ok_iff] at hsg
    obtain ⟨-, -, -, -, _, hh, -, -, hsg⟩ := hsg
    obtain ⟨_, -, -, -, _, -, _, -, -, -, -, -, -, -, rfl⟩ := hsg
    rw [List.map_cons, List.map_cons, hh, ih]

/-- What the admission of a grant authorization checked. -/
theorem verifyCatalogueAdmission_grantAuthorization {trust : VerifiedTrust}
    {head : Option SelectedRegistryHead} {now : Int} {seq : Nat} {subtype : TrustSubtype}
    {fields : GrantAuthorizationFields} (hd : Crypto.decode bytes = .ok (.trust obj))
    (hpa : obj.payload = .grantAuthorization fields)
    (h : verifyCatalogueAdmission trust head bytes now seq = .ok subtype) :
    requireDistinctApprovers (admissionState trust head) obj = .ok () := by
  simp only [verifyCatalogueAdmission, decodeExactObject, hd, Except.map, ok_iff] at h
  obtain ⟨_, hp, h⟩ := h
  obtain rfl := Except.ok.inj hp
  simp only [bind_eq_ok] at h
  obtain ⟨_, -, ⟨⟩, ha, -⟩ := h
  simp only [admitPayload, hpa, bind_eq_ok] at ha
  obtain ⟨_, -, _, -, _, -, hap⟩ := ha
  exact hap

end People

/-- **When admission counts people.**  An admitted grant authorization was approved by two people
exactly when no one person holds all the certificates that its signatures name. -/
theorem admitted_by_two_subjects_iff (trust : VerifiedTrust) (head : Option SelectedRegistryHead)
    (bytes : Bytes) (now : Int) (sequence : Nat) (subtype : TrustSubtype) (object : TrustObject)
    (fields : GrantAuthorizationFields) (hdecode : Crypto.decode bytes = .ok (.trust object))
    (hpayload : object.payload = .grantAuthorization fields)
    (h : verifyCatalogueAdmission trust head bytes now sequence = .ok subtype) :
    (∃ count, distinctAuthoritySubjects object.signatures
        (admissionState trust head).previousHeadResolver
        (VerificationContext.historicalGrantApprovalTrustDigest object.payload) = .ok count ∧
      2 ≤ count) ↔
    ¬ ∃ subject, ∀ signature ∈ object.signatures,
      namedSubject (admissionState trust head) signature = some subject := by
  exact two_le_distinctAuthoritySubjects_iff
    (verifyCatalogueAdmission_grantAuthorization hdecode hpayload h)

/-- **Where nobody holds two certificates, admission counts people.**  The certificates of one
person among those that the signatures name are one. -/
theorem two_subjects_of_one_certificate_each {trust : VerifiedTrust}
    {head : Option SelectedRegistryHead} {bytes : Bytes} {now : Int} {sequence : Nat}
    {subtype : TrustSubtype} {object : TrustObject} {fields : GrantAuthorizationFields}
    (hdecode : Crypto.decode bytes = .ok (.trust object))
    (hpayload : object.payload = .grantAuthorization fields)
    (h : verifyCatalogueAdmission trust head bytes now sequence = .ok subtype)
    (hone : ∀ a ∈ object.signatures, ∀ b ∈ object.signatures, ∀ subject,
      namedSubject (admissionState trust head) a = some subject →
      namedSubject (admissionState trust head) b = some subject →
        a.certificateHash = b.certificateHash) :
    ∃ count, distinctAuthoritySubjects object.signatures
        (admissionState trust head).previousHeadResolver
        (VerificationContext.historicalGrantApprovalTrustDigest object.payload) = .ok count ∧
      2 ≤ count := by
  have ha := verifyCatalogueAdmission_grantAuthorization hdecode hpayload h
  refine (two_le_distinctAuthoritySubjects_iff ha).mpr ?_
  rintro ⟨subject, hs⟩
  simp only [requireDistinctApprovers, ok_iff] at ha
  obtain ⟨certificates, hc, hco⟩ := ha
  have hm := map_certificateHash_of_approverCertificates hc
  -- all of them are the certificate of this person
  have hall : ∀ a ∈ certificates, ∀ b ∈ certificates, b = a := by
    intro a ha b hb
    have hmem {c : CertificateHash} (hc : c ∈ certificates) :
        ∃ signature ∈ object.signatures, signature.certificateHash = some c := by
      have hc' := List.mem_map_of_mem (f := some) hc
      rwa [← hm, List.mem_map] at hc'
    obtain ⟨sa, hsa, ea⟩ := hmem ha
    obtain ⟨sb, hsb, eb⟩ := hmem hb
    have he := hone sb hsb sa hsa subject (hs sb hsb) (hs sa hsa)
    rw [ea, eb] at he
    exact Option.some.inj he
  have hne : certificates ≠ [] := by
    rintro rfl
    simp [requiredDistinctGrantApproversV1] at hco
  obtain ⟨a, ha⟩ := List.exists_mem_of_ne_nil _ hne
  exact (two_le_length_dedup_iff hne).mp hco ⟨a, hall a ha⟩

end Model

/-! ## 4. Two certificates -/

section Example

/-- A grant authorization under event 76 of version 3, signed with the certificates 70 and 74. -/
def approvedGrants : TrustObject :=
  ⟨.grantAuthorization ⟨1, 3, 76, 0, [100], 77, 78, 1000⟩,
    [signedBy .trustDigest 106 70, signedBy .trustDigest 107 74]⟩

section

variable (second : SubjectId)

/-- An organization with two approver certificates, 70 of subject 14 and 74 of the given subject.
The head is event 76 of version 3. -/
def approvers : ObjectHash → Option ArchiveObject
  | 70 => some (trustObject (.authorized (.device (deviceCertificate 70 .keyApprover 106
      ["historicalGrantApprove"] (some 14))) 71) 101 1)
  | 71 => some (adminAuthorization 71 1 12 0 .deviceCertificate)
  | 72 => some (registryEvent 2 (some 12) (.certificate 70) 73)
  | 73 => some (adminAuthorization 73 1 12 0 .registryEvent)
  | 74 => some (trustObject (.authorized (.device (deviceCertificate 74 .keyApprover 107
      ["historicalGrantApprove"] (some second))) 75) 101 1)
  | 75 => some (adminAuthorization 75 2 72 0 .deviceCertificate)
  | 76 => some (registryEvent 3 (some 72) (.certificate 74) 77)
  | 77 => some (adminAuthorization 77 2 72 0 .registryEvent)
  | 95 => some (.trust approvedGrants)
  | hash => organization hash

/-- One client selects the three heads one after the other. -/
def approverActions : List Action :=
  [0, 1, 2].flatMap fun round =>
    [.load ⟨1, 2⟩ organizationAnchor (tableSource
        [1, 2, 3, 4, 5, 10, 11, 12, 13, 70, 71, 72, 73, 74, 75, 76, 77, 95]),
      .verify round 0, .merge round [], .prepare round 12, .select round round none]

def approverRun : @Clients (tableCrypto (approvers second)) :=
  let := tableCrypto (approvers second)
  let := noAudits
  (Clients.start ⟨1, 2⟩ 0).run approverActions

/-- The grant authorization was admitted at the head, and so many people had approved it. -/
def AdmittedBy (count : Nat) : Prop :=
  let := tableCrypto (approvers second)
  ∃ trust ∈ (approverRun second).trusts, ∃ selection ∈ (approverRun second).selections, ∃ head,
    selection.outcome = .selected head ∧
    verifyCatalogueAdmission trust (some head) (blob 95) 12 0 = .ok .grantAuthorization ∧
    distinctAuthoritySubjects approvedGrants.signatures
      (admissionState trust (some head)).previousHeadResolver
      (VerificationContext.historicalGrantApprovalTrustDigest approvedGrants.payload) = .ok count

/-- `AdmittedBy`, evaluated. -/
def admittedBy (count : Nat) : Bool :=
  let := tableCrypto (approvers second)
  (approverRun second).trusts.any fun trust => (approverRun second).selections.any fun selection =>
    match selection.outcome with
    | .selected head =>
      (verifyCatalogueAdmission trust (some head) (blob 95) 12 0).toOption
          = some .grantAuthorization
        && (distinctAuthoritySubjects approvedGrants.signatures
          (admissionState trust (some head)).previousHeadResolver
          (VerificationContext.historicalGrantApprovalTrustDigest
            approvedGrants.payload)).toOption = some count
    | _ => false

end

theorem admittedBy_of_eq_true {second : SubjectId} {count : Nat}
    (h : admittedBy second count = true) : AdmittedBy second count := by
  let := tableCrypto (approvers second)
  obtain ⟨trust, ht, h⟩ := List.any_eq_true.mp h
  obtain ⟨sel, hs, h⟩ := List.any_eq_true.mp h
  cases ho : sel.outcome with
  | selected head =>
    simp only [ho, Bool.and_eq_true, decide_eq_true_eq, toOption_eq_some] at h
    exact ⟨trust, ht, sel, hs, head, ho, h⟩
  | advanced head | pendingFuture pend => simp [ho] at h

/-- One person with two certificates passes the admission. -/
theorem admitted_by_one_subject : AdmittedBy 14 1 := admittedBy_of_eq_true (by decide +kernel)

theorem admitted_by_two_subjects_iff_two : AdmittedBy 15 2 ∧
    let := tableCrypto (approvers 15)
    ∃ trust ∈ (approverRun 15).trusts, ∃ head, ¬ ∃ subject, ∀ signature ∈ approvedGrants.signatures,
        namedSubject (admissionState trust (some head)) signature = some subject := by
  have htw : AdmittedBy 15 2 := admittedBy_of_eq_true (by decide +kernel)
  refine ⟨htw, ?_⟩
  let := tableCrypto (approvers 15)
  obtain ⟨trust, ht, _, -, head, -, ha, hc⟩ := htw
  refine ⟨trust, ht, head, ?_⟩
  exact (admitted_by_two_subjects_iff trust (some head) (blob 95) 12 0 .grantAuthorization
    approvedGrants ⟨1, 3, 76, 0, [100], 77, 78, 1000⟩ rfl rfl ha).mp ⟨2, hc, le_rfl⟩

end Example

end Einsatzarchiv.Trust
