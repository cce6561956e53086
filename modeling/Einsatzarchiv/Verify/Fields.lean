/-
  File:      Einsatzarchiv/Verify/Fields.lean
  Subject:   Every object in one field of the report.

  * `Exclusive`: no object is listed in two fields.  Each stage keeps it because what the stage adds
    is of another family than what is listed, or was checked to be listed nowhere (`Families`,
    `Exclusive.extend`).  Three stages do not check: those are the cases of `Separated`.
  * `Requarantined`: what a stage quarantines was decoded, so that no malformed object loses its
    reason.
  * `oneField_iff`: the law of the fields holds exactly for the separated runs.
-/
import Einsatzarchiv.Verify.Runs

namespace Einsatzarchiv.Verify

open Lib Format Archive Chain Trust

variable [Crypto] [EscrowRules]
variable {blobs : List Bytes} {inventory : ArchiveInventory} {anchor : TrustAnchor}
  {options : VerifyOptions} {run : Run} {field : Field} {hash : ObjectHash} {nodes : List ChainNode}
  {node : ChainNode}

/-! ## 1. Families -/

section Families

variable {report : VerificationReport} {kinds : List ObjectType} {kind : ObjectType}

/-- The field of the report lists only objects of the given families. -/
def Families (blobs : List Bytes) (report : VerificationReport) (field : Field)
    (kinds : List ObjectType) : Prop :=
  ∀ hash, report.Lists field hash → ∃ kind ∈ kinds, Delivered blobs kind hash

omit [EscrowRules] in
/-- An object of another family is not listed. -/
theorem Families.not_lists (h : Families blobs report field kinds) (hfree : CollisionFree blobs)
    (hd : Delivered blobs kind hash) (hk : kind ∉ kinds) :
    ¬ report.Lists field hash := by
  intro hl
  obtain ⟨kind', hm, hdelivered'⟩ := h hash hl
  have hs : kind = kind' := hd.kind_eq hfree hdelivered'
  exact hk (hs ▸ hm)

end Families

/-- What the other fields than quarantine list before the grants are opened. -/
def Field.families : Field → List ObjectType
  | .objectResults => [.entry]
  | .signatureErrors => [.entry, .trust, .evidence, .receipt]
  | .evidenceErrors => [.evidence, .receipt]
  | .decryptionErrors | .quarantinedObjects | .formatErrors => []

namespace RunOf

variable (h : RunOf blobs inventory anchor options run)

include h

/-- A node is that of an entry or of a stub. -/
theorem delivered_of_mem_nodes (hn : node ∈ run.nodes) :
    Delivered blobs .entry node.objectHash ∨ Delivered blobs .destroyed node.objectHash := by
  rcases h.mem_nodes.mp hn with ⟨_, he, rfl⟩ | ⟨_, hs, rfl⟩
  · exact .inl (h.exact_placed he).deliveredAs
  · exact .inr (h.exact_candidate hs).deliveredAs

/-- The chain names entries and stubs. -/
theorem delivered_of_names (hs : nodes.Sublist run.nodes)
    (hna : (analyse anchor.chainId nodes).Names hash) :
    Delivered blobs .entry hash ∨ Delivered blobs .destroyed hash := by
  obtain ⟨_, hn, rfl, -⟩ := exists_node_of_names hna
  exact h.delivered_of_mem_nodes (hs.subset hn)

/-- Up to here only entries are wrongly signed. -/
theorem families_judged : Families blobs run.judged .signatureErrors [.entry] := by
  intro _ hl
  rcases h.lists_judged.mp hl with ho | ⟨entry, he, -, -, rfl⟩
  · simp [lists_opened] at ho
  · exact ⟨.entry, by simp, (h.spec.entries entry he).deliveredAs⟩

/-- Up to here only entries and trust objects are. -/
theorem families_planned : Families blobs run.planned .signatureErrors [.entry, .trust] := by
  intro hash hl
  rcases h.lists_planned.mp hl with (hp | ⟨hf, -⟩) | ⟨_, he, -, rfl, -⟩
  · rcases h.lists_positioned.mp hp with hr | ⟨hf, -⟩
    · rcases h.lists_recorded.mp hr with hj | ⟨-, hu⟩ | ⟨hf, -⟩
      · obtain ⟨kind, _, hd⟩ := h.families_judged hash hj
        exact ⟨kind, by simp_all, hd⟩
      · obtain ⟨-, t, ht, rfl⟩ := exists_trust_of_destruction (.inl hu)
        exact ⟨.trust, by simp, (h.spec.trust t ht).deliveredAs⟩
      · cases hf
    · cases hf
  · cases hf
  · exact ⟨.entry, by simp, (h.exact_placed he).deliveredAs⟩

/-- And evidence. -/
theorem families_assessed :
    Families blobs run.assessed .signatureErrors [.entry, .trust, .evidence] := by
  intro hash hl
  rcases h.lists_assessed.mp hl with hp | ⟨evidence, hev, -, rfl, -⟩ | ⟨hf, -⟩
  · obtain ⟨kind, hk, hd⟩ := h.families_planned hash hp
    refine ⟨kind, ?_, hd⟩
    simp only [List.mem_cons, List.not_mem_nil, or_false] at hk ⊢
    tauto
  · exact ⟨.evidence, by simp, (h.spec.evidence evidence hev).deliveredAs⟩
  · cases hf

/-- Up to the checkpoints only quarantine and signature errors are written. -/
theorem field_of_lists_assessed (hfm : field ≠ .formatErrors) (hl : run.assessed.Lists field hash) :
    field = .quarantinedObjects ∨ field = .signatureErrors := by
  by_contra hne
  rw [not_or] at hne
  exact h.not_lists_assessed hne.1 hfm hne.2 hl

variable (hfree : CollisionFree blobs)

include hfree

/-- The other fields have their own families. -/
theorem families_evidenced (hq : field ≠ .quarantinedObjects)
    (hfm : field ≠ .formatErrors) : Families blobs run.evidenced field field.families := by
  intro hash hl
  have ha := h.receiptsApart hfree
  rcases h.lists_evidenced.mp hl with hr |
    ⟨rfl, ⟨evidence, hev, rfl, -⟩ | ⟨-, pair, hp, rfl, -⟩⟩
  · rcases (h.lists_receipted ha).mp hr with has |
      ⟨entry, he, -, ⟨rfl, rfl⟩ | ⟨rfl, receipt, hu, rfl, -⟩⟩
    · obtain rfl := (h.field_of_lists_assessed hfm has).resolve_left hq
      obtain ⟨kind, hk, hd⟩ := h.families_assessed hash has
      refine ⟨kind, ?_, hd⟩
      simp only [Field.families, List.mem_cons, List.not_mem_nil, or_false] at hk ⊢
      tauto
    · exact ⟨.entry, by simp [Field.families], (h.exact_placed he).deliveredAs⟩
    · exact ⟨.receipt, by simp [Field.families], (h.spec.receipts receipt hu.mem).deliveredAs⟩
  · exact ⟨.evidence, by simp [Field.families], (h.spec.evidence evidence hev).deliveredAs⟩
  · obtain ⟨-, -, hu, -⟩ := (h.mem_confirmed ha).mp hp
    exact ⟨.receipt, by simp [Field.families], (h.spec.receipts pair.2 hu.mem).deliveredAs⟩

theorem not_lists_evidenced {kind : ObjectType} (hq : field ≠ .quarantinedObjects)
    (hfm : field ≠ .formatErrors) (hd : Delivered blobs kind hash)
    (hk : kind ∉ field.families) : ¬ run.evidenced.Lists field hash :=
  (h.families_evidenced hfree hq hfm).not_lists hfree hd hk

/-- Only results and quarantine list a stub. -/
theorem not_lists_claims_stub (hd : Delivered blobs .destroyed hash)
    (hq : field ≠ .quarantinedObjects) (hfm : field ≠ .formatErrors) :
    ¬ run.claims.report.Lists field hash := by
  intro hl
  rcases h.lists_claims.mp hl with he | ⟨_, -, _, -, -, hf⟩
  · exact h.not_lists_evidenced hfree hq hfm hd (by cases field <;> simp [Field.families]) he
  · obtain ⟨-, grant, hg, rfl, -⟩ := grantFault_eq_some hf
    cases hd.kind_eq hfree (h.spec.grants grant hg).deliveredAs

end RunOf

/-! ## 2. One field for each object -/

/-- No object is listed in two fields; a malformed object is also quarantined. -/
def Exclusive (report : VerificationReport) : Prop :=
  ∀ field other hash, field ≠ .formatErrors → other ≠ .formatErrors →
    report.Lists field hash → report.Lists other hash → field = other

omit [Crypto] [EscrowRules] in
/-- A stage keeps the fields apart if what it adds is listed in no other field and added to one
field only. -/
theorem Exclusive.extend {before after : VerificationReport} {delta : Field → ObjectHash → Prop}
    (h : Exclusive before)
    (ha : ∀ field hash, after.Lists field hash ↔ before.Lists field hash ∨ delta field hash)
    (hfr : ∀ field hash, delta field hash → ∀ other, other ≠ .formatErrors →
      before.Lists other hash → other = field)
    (hs : ∀ field other hash, delta field hash → delta other hash → field = other) :
    Exclusive after := by
  intro field other hash hf ho hl hlists'
  rcases (ha field hash).mp hl with hold | hn
  · rcases (ha other hash).mp hlists' with hold' | hnew'
    · exact h field other hash hf ho hold hold'
    · exact hfr other hash hnew' field hf hold
  · rcases (ha other hash).mp hlists' with hold' | hnew'
    · exact (hfr field hash hn other ho hold').symm
    · exact hs field other hash hn hnew'

omit [Crypto] [EscrowRules] in
/-- At the start no object is in two fields. -/
theorem exclusive_opened : Exclusive (opened inventory anchor) := by
  intro _ _ _ hf ho hl hlists'
  rw [lists_opened] at hl hlists'
  rw [(hl.resolve_right fun hfm => hf hfm.1).1, (hlists'.resolve_right fun hfm => ho hfm.1).1]

/-- What the stages that do not look at the other fields have to find: no quarantined checkpoint
fails its signature, no entry that a checkpoint contradicts fails its grant plan, and the second
placement names only what is already quarantined. -/
structure Separated (inventory : ArchiveInventory) (anchor : TrustAnchor) (run : Run) : Prop where
  checkpoints : ∀ evidence ∈ inventory.evidence, evidence.objectHash ∈ inventory.quarantined →
    ¬ CheckpointFault inventory anchor evidence
  plans : ∀ entry ∈ run.placed, Conflicts (analyse anchor.chainId run.nodes)
    (authenticatedClaims inventory anchor) entry.objectHash →
      grantPlanFinding entry inventory.grants = none
  stubs : inventory.destroyed = [] ∨ ∀ hash, (analyse anchor.chainId run.finalNodes).Names hash →
    run.claims.report.Lists .quarantinedObjects hash

namespace RunOf

variable (h : RunOf blobs inventory anchor options run)

include h

theorem lists_planned_of_positioned (hl : run.positioned.Lists field hash) :
    run.planned.Lists field hash :=
  h.lists_planned.mpr (.inl (.inl hl))

theorem lists_positioned_of_recorded (hl : run.recorded.Lists field hash) :
    run.positioned.Lists field hash :=
  h.lists_positioned.mpr (.inl hl)

section

variable (hfm : field ≠ .formatErrors)
include hfm

/-- Before the gates there are two fields. -/
theorem field_of_lists_planned (hl : run.planned.Lists field hash) :
    field = .quarantinedObjects ∨ field = .signatureErrors :=
  h.field_of_lists_assessed hfm (h.lists_assessed.mpr (.inl hl))

theorem field_of_lists_recorded (hl : run.recorded.Lists field hash) :
    field = .quarantinedObjects ∨ field = .signatureErrors :=
  h.field_of_lists_planned hfm (h.lists_planned_of_positioned (h.lists_positioned_of_recorded hl))

end

/-- After the entries. -/
theorem exclusive_judged : Exclusive run.judged := by
  refine exclusive_opened.extend (fun _ _ => h.lists_judged) ?_ ?_
  · rintro field hash ⟨entry, -, hq, -, rfl⟩ other ho hl
    rcases lists_opened.mp hl with ⟨rfl, -⟩ | ⟨rfl, -⟩
    · exact absurd hl hq
    · exact absurd rfl ho
  · rintro field other hash ⟨entry, he, -, hf, rfl⟩ ⟨_, he', -, hfault', hh⟩
    obtain rfl := HashDetermines.of_pairwise h.spec.entries_distinct _ he _ he' hh
    rw [hf] at hfault'
    exact Option.some.inj hfault'

variable (hfree : CollisionFree blobs) {evd : Parsed EvidenceObject} {entry : Parsed EntryPackage}

include hfree

/-- After the destructions. -/
theorem exclusive_recorded : Exclusive run.recorded := by
  refine h.exclusive_judged.extend (fun _ _ => h.lists_recorded) ?_ ?_
  · intro field hash hd other ho hl
    have htr : ¬ run.judged.Lists .quarantinedObjects hash ∧
        ∃ t ∈ inventory.trust, t.objectHash = hash := by
      rcases hd with ⟨-, hu⟩ | ⟨-, hc⟩
      · exact exists_trust_of_destruction (.inl hu)
      · exact exists_trust_of_destruction (.inr hc)
    obtain ⟨hq, t, ht, rfl⟩ := htr
    rcases h.field_of_lists_recorded ho (h.lists_recorded.mpr (.inl hl)) with rfl | rfl
    · exact absurd hl hq
    · exact absurd hl (h.families_judged.not_lists hfree (h.spec.trust t ht).deliveredAs
          (by simp [ArchiveObject.objectType]))
  · have hd : HashDetermines inventory.trust :=
      .of_exactFrom h.spec.trust hfree fun _ _ => ArchiveObject.trust.inj
    rintro field other hash (⟨rfl, hu⟩ | ⟨rfl, hc⟩) (⟨rfl, h'⟩ | ⟨rfl, h'⟩)
    · rfl
    · exact absurd hu (h'.not_unsigned hd)
    · exact absurd h' (hc.not_unsigned hd)
    · rfl

/-- A node of the chain has no signature error when it is placed. -/
theorem not_lists_recorded_of_mem_nodes (hno : node ∈ run.nodes) :
    ¬ run.recorded.Lists .signatureErrors node.objectHash := by
  intro hl
  rcases h.lists_recorded.mp hl with hj | ⟨-, hu⟩ | ⟨hf, -⟩
  · rcases h.mem_nodes.mp hno with ⟨_, he, rfl⟩ | ⟨_, hs, rfl⟩
    · rcases h.lists_judged.mp hj with ho | ⟨_, he', -, hfa, hh⟩
      · simp [lists_opened] at ho
      · obtain ⟨hm, -, hn⟩ := h.mem_placed.mp he
        obtain rfl := HashDetermines.of_pairwise h.spec.entries_distinct _ hm _ he' hh
        rw [hn] at hfa
        cases hfa
    · exact h.families_judged.not_lists hfree (h.exact_candidate hs).deliveredAs
        (by simp [ArchiveObject.objectType]) hj
  · obtain ⟨-, t, ht, hh⟩ := exists_trust_of_destruction (.inl hu)
    have hd := hh ▸ (h.spec.trust t ht).deliveredAs
    rcases h.delivered_of_mem_nodes hno with he | hs
    · cases he.kind_eq hfree hd
    · cases hs.kind_eq hfree hd
  · cases hf

/-- The nodes of the chain are rightly signed. -/
theorem not_lists_positioned_of_mem_nodes (hn : node ∈ run.nodes) :
    ¬ run.positioned.Lists .signatureErrors node.objectHash := by
  intro hl
  rcases h.lists_positioned.mp hl with hr | ⟨hf, -⟩
  · exact h.not_lists_recorded_of_mem_nodes hfree hn hr
  · cases hf

/-- After the placement. -/
theorem exclusive_positioned : Exclusive run.positioned := by
  refine (h.exclusive_recorded hfree).extend (fun _ _ => h.lists_positioned) ?_ ?_
  · rintro field hash ⟨rfl, hna⟩ other ho hl
    obtain ⟨_, hn, rfl, -⟩ := exists_node_of_names hna
    rcases h.field_of_lists_recorded ho hl with rfl | rfl
    · rfl
    · exact absurd hl (h.not_lists_recorded_of_mem_nodes hfree hn)
  · rintro field other hash ⟨rfl, -⟩ ⟨rfl, -⟩
    rfl

theorem exclusive_planned : Exclusive run.planned := by
  have hor : ∀ hash ∈ orphanGrants inventory, Delivered blobs .grant hash := by
    intro hash hh
    obtain ⟨grant, hg, rfl⟩ := List.mem_map.mp hh
    exact (h.spec.grants grant (List.mem_of_mem_filter hg)).deliveredAs
  refine (h.exclusive_positioned hfree).extend (fun _ _ => h.lists_planned.trans or_assoc) ?_ ?_
  · rintro field hash (⟨rfl, hh⟩ | ⟨entry, he, rfl, rfl, hp, -⟩) other ho hl
    · rcases h.field_of_lists_planned ho (h.lists_planned_of_positioned hl) with rfl | rfl
      · rfl
      · exact absurd (h.lists_planned_of_positioned hl)
          (h.families_planned.not_lists hfree (hor hash hh) (by simp))
    · rcases h.field_of_lists_planned ho (h.lists_planned_of_positioned hl) with rfl | rfl
      · exact absurd (lists_quarantineOrphans.mpr (.inl hl)) hp
      · rfl
  · have ha : ∀ hash ∈ orphanGrants inventory, ∀ entry ∈ run.placed, hash ≠ entry.objectHash := by
      rintro hash hh entry he rfl
      cases (hor _ hh).kind_eq hfree (h.exact_placed he).deliveredAs
    rintro field other hash (⟨rfl, hh⟩ | ⟨entry, he, rfl, rfl, -⟩)
      (⟨rfl, hh'⟩ | ⟨entry', he', rfl, hh', -⟩)
    · rfl
    · exact absurd hh' (ha _ hh _ he')
    · exact absurd rfl (ha _ hh' _ he)
    · rfl

omit hfree in
/-- What is quarantined before the grant plans are read: by the inventory, as an entry that was
judged so, as a contested transition, by the chain or as an orphan. -/
theorem quarantined_cases
    (hl : (quarantineOrphans inventory run.positioned).Lists .quarantinedObjects hash) :
    hash ∈ inventory.quarantined ∨ (∃ entry ∈ inventory.entries, hash = entry.objectHash ∧
        (entryVerdict inventory anchor entry).faultField = some .quarantinedObjects) ∨
      Delivered blobs .trust hash ∨ (analyse anchor.chainId run.nodes).Names hash ∨
      Delivered blobs .grant hash := by
  rcases lists_quarantineOrphans.mp hl with hp | ⟨-, ho⟩
  · rcases h.lists_positioned.mp hp with hr | ⟨-, hn⟩
    · rcases h.lists_recorded.mp hr with hj | ⟨hf, -⟩ | ⟨-, hc⟩
      · rcases h.lists_judged.mp hj with hop | ⟨entry, he, -, hfa, hh⟩
        · exact .inl (by simpa [lists_opened] using hop)
        · exact .inr (.inl ⟨entry, he, hh, hfa⟩)
      · cases hf
      · obtain ⟨-, t, ht, rfl⟩ := exists_trust_of_destruction (.inr hc)
        exact .inr (.inr (.inl (h.spec.trust t ht).deliveredAs))
    · exact .inr (.inr (.inr (.inl hn)))
  · obtain ⟨grant, hg, rfl⟩ := List.mem_map.mp ho
    exact .inr (.inr (.inr (.inr (h.spec.grants grant (List.mem_of_mem_filter hg)).deliveredAs)))

/-- Up to the checkpoints a checkpoint is quarantined by the inventory only. -/
theorem mem_quarantined_of_lists_planned (hev : evd ∈ inventory.evidence)
    (hl : run.planned.Lists .quarantinedObjects evd.objectHash) :
    evd.objectHash ∈ inventory.quarantined := by
  have hd : Delivered blobs .evidence evd.objectHash := (h.spec.evidence evd hev).deliveredAs
  have hb : (quarantineOrphans inventory run.positioned).Lists .quarantinedObjects
      evd.objectHash := by
    rcases h.lists_planned.mp hl with hb | ⟨-, -, hf, -⟩
    · exact lists_quarantineOrphans.mpr hb
    · cases hf
  rcases h.quarantined_cases hb with hm | ⟨entry, he, hh, -⟩ | ht | hn
    | hg
  · exact hm
  · cases hd.kind_eq hfree (hh ▸ (h.spec.entries entry he).deliveredAs)
  · cases hd.kind_eq hfree ht
  · rcases h.delivered_of_names (List.Sublist.refl _) hn with he | hs
    · cases hd.kind_eq hfree he
    · cases hd.kind_eq hfree hs
  · cases hd.kind_eq hfree hg

/-- An entry that a checkpoint contradicts is not quarantined before. -/
theorem not_quarantined_of_conflicts (he : entry ∈ run.placed)
    (hc : Conflicts (analyse anchor.chainId run.nodes)
      (authenticatedClaims inventory anchor) entry.objectHash) :
    ¬ (quarantineOrphans inventory run.positioned).Lists .quarantinedObjects entry.objectHash := by
  have hd : Delivered blobs .entry entry.objectHash := (h.exact_placed he).deliveredAs
  obtain ⟨hm, hq, hn⟩ := h.mem_placed.mp he
  intro hl
  rcases h.quarantined_cases hl with hin | ⟨_, he', hh, hf⟩ | ht | hna |
    hg
  · exact hq hin
  · obtain rfl := HashDetermines.of_pairwise h.spec.entries_distinct _ hm _ he' hh
    rw [hn] at hf
    cases hf
  · cases hd.kind_eq hfree ht
  · -- what the chain names lies above the verified head, what a checkpoint contradicts below it
    obtain ⟨node, hno, hh, ha⟩ := exists_node_of_names hna
    obtain ⟨node', hnode', hh', head, hhe, hle⟩ := exists_node_of_conflicts hc
    obtain rfl := h.objectHashBinding_nodes hfree node hno node' hnode' (hh.trans hh'.symm)
    exact absurd (ha head hhe) (not_lt.mpr hle)
  · cases hd.kind_eq hfree hg

/-- From the checkpoints on this needs the separation. -/
theorem exclusive_assessed (hse : Separated inventory anchor run) : Exclusive run.assessed := by
  refine (h.exclusive_planned hfree).extend (fun _ _ => h.lists_assessed) ?_ ?_
  · rintro field hash (⟨evd, hev, rfl, rfl, hfa⟩ | ⟨rfl, hc⟩) other ho
      hl
    · rcases h.field_of_lists_planned ho hl with rfl | rfl
      · have hm := h.mem_quarantined_of_lists_planned hfree hev hl
        exact absurd hfa (hse.checkpoints evd hev hm)
      · rfl
    · rcases h.field_of_lists_planned ho hl with rfl | rfl
      · rfl
      · rcases h.lists_planned.mp hl with (hpo | ⟨hf, -⟩) |
          ⟨entry, he, -, rfl, hp⟩
        · obtain ⟨node, hn, rfl, -⟩ := exists_node_of_conflicts hc
          exact absurd hpo (h.not_lists_positioned_of_mem_nodes hfree hn)
        · cases hf
        · have hfi := hp.2
          rw [hse.plans entry he hc] at hfi
          cases hfi
  · have ha : ∀ evd ∈ inventory.evidence, ¬ Conflicts (analyse anchor.chainId run.nodes)
        (authenticatedClaims inventory anchor) evd.objectHash := by
      intro evd hev hc
      obtain ⟨node, hn, hh, -⟩ := exists_node_of_conflicts hc
      have hd := (h.spec.evidence evd hev).deliveredAs
      rcases hh ▸ h.delivered_of_mem_nodes hn with he | hs
      · cases hd.kind_eq hfree he
      · cases hd.kind_eq hfree hs
    rintro field other hash (⟨evd, hev, rfl, rfl, -⟩ | ⟨rfl, hc⟩)
      (⟨evd', hevidence', rfl, hh', -⟩ | ⟨rfl, hconflicts'⟩)
    · rfl
    · exact absurd hconflicts' (ha evd hev)
    · exact absurd (hh' ▸ hc) (ha evd' hevidence')
    · rfl

theorem exclusive_receipted (hs : Separated inventory anchor run) : Exclusive run.receipted := by
  have ha := h.receiptsApart hfree
  refine (h.exclusive_assessed hfree hs).extend (fun _ _ => h.lists_receipted ha) ?_ ?_
  · rintro field hash ⟨entry, he, hc, ⟨rfl, rfl⟩ | ⟨rfl, rcpt, hu, rfl, -⟩⟩ other
      ho hl
    · rcases h.field_of_lists_assessed ho hl with rfl | rfl
      · exact absurd hl hc.1
      · exact absurd hl hc.2
    · rcases h.field_of_lists_assessed ho hl with rfl | rfl
      · exact absurd hl hu.2
      · rfl
  · rintro field other hash ⟨entry, he, -, ⟨rfl, rfl⟩ | ⟨rfl, rcpt, hu, rfl, -⟩⟩
      ⟨entry', he', -, ⟨rfl, hh'⟩ | ⟨rfl, rcpt', husable', hh', -⟩⟩
    · rfl
    · exact absurd hh'.symm (ha rcpt' husable'.mem entry he)
    · exact absurd hh' (ha rcpt hu.mem entry' he')
    · rfl

/-- A token with a fault is no checkpoint with a fault. -/
theorem not_lists_receipted_of_tokenFault (hev : evd ∈ inventory.evidence)
    (hfa : TokenFault inventory run.receipted evd) :
    ¬ run.receipted.Lists .signatureErrors evd.objectHash := by
  have hd : Delivered blobs .evidence evd.objectHash := (h.spec.evidence evd hev).deliveredAs
  intro hl
  rcases (h.lists_receipted (h.receiptsApart hfree)).mp hl with ha |
    ⟨entry, he, -, ⟨hf, -⟩ | ⟨-, receipt, hu, hh, -⟩⟩
  · rcases h.lists_assessed.mp ha with hp |
      ⟨evd', hevidence', -, hh, fields, cose, hv, -⟩ | ⟨hf, -⟩
    · exact h.families_planned.not_lists hfree hd (by simp) hp
    · obtain rfl := HashDetermines.of_exactFrom h.spec.evidence hfree
        (fun _ _ => ArchiveObject.evidence.inj) _ hev _ hevidence' hh
      have hfi := hfa.2
      rw [hv] at hfi
      cases hfi
    · cases hf
  · cases hf
  · cases hd.kind_eq hfree (hh ▸ (h.spec.receipts receipt hu.mem).deliveredAs)

/-- A confirmed receipt has no signature error: it belongs to one entry. -/
theorem not_lists_receipted_of_confirmed {pair : Parsed EntryPackage × Parsed Receipt}
    (hp : pair ∈ run.confirmed) : ¬ run.receipted.Lists .signatureErrors pair.2.objectHash := by
  have ha := h.receiptsApart hfree
  obtain ⟨he, -, hu, hc⟩ := (h.mem_confirmed ha).mp hp
  intro hl
  rcases (h.lists_receipted ha).mp hl with hass |
    ⟨entry, he', -, ⟨hf, -⟩ | ⟨-, receipt, husable', hh, hfa⟩⟩
  · exact h.families_assessed.not_lists hfree
      (h.spec.receipts pair.2 hu.mem).deliveredAs (by simp [ArchiveObject.objectType])
      hass
  · cases hf
  · have hr := HashDetermines.of_exactFrom h.spec.receipts hfree
      (fun _ _ => ArchiveObject.receipt.inj) _ hu.mem _ husable'.mem hh
    have hn : pair.2.value.core.entryObjectHash = pair.1.objectHash := by
      simpa using List.find?_some hu.1
    have hnamed' : receipt.value.core.entryObjectHash = entry.objectHash := by
      simpa using List.find?_some husable'.1
    have hs : pair.1 = entry := HashDetermines.of_pairwise h.pairwise_placed _ he _ he'
        (hn.symm.trans (hr ▸ hnamed'))
    rw [← hs, ← hr, hc] at hfa
    cases hfa

theorem exclusive_evidenced (hs : Separated inventory anchor run) : Exclusive run.evidenced := by
  refine (h.exclusive_receipted hfree hs).extend (fun _ _ => h.lists_evidenced) ?_ ?_
  · rintro field hash ⟨rfl, ⟨evd, hev, rfl, hf⟩ | ⟨-, pair, hp, rfl, hdu⟩⟩ other
      ho hl
    · have hd : Delivered blobs .evidence evd.objectHash := (h.spec.evidence evd hev).deliveredAs
      cases other with
      | objectResults | decryptionErrors =>
        exact absurd (h.lists_evidenced.mpr (.inl hl))
          (h.not_lists_evidenced hfree (by simp) ho hd (by simp [Field.families]))
      | signatureErrors =>
        exact absurd hl (h.not_lists_receipted_of_tokenFault hfree hev hf)
      | evidenceErrors => rfl
      | quarantinedObjects => exact absurd hl hf.1
      | formatErrors => exact absurd rfl ho
    · have hd : Delivered blobs .receipt pair.2.objectHash := by
        obtain ⟨-, -, hu, -⟩ := (h.mem_confirmed (h.receiptsApart hfree)).mp hp
        exact (h.spec.receipts pair.2 hu.mem).deliveredAs
      cases other with
      | objectResults | decryptionErrors =>
        exact absurd (h.lists_evidenced.mpr (.inl hl))
          (h.not_lists_evidenced hfree (by simp) ho hd (by simp [Field.families]))
      | signatureErrors => exact absurd hl (h.not_lists_receipted_of_confirmed hfree hp)
      | evidenceErrors => rfl
      | quarantinedObjects => exact absurd hl hdu.1
      | formatErrors => exact absurd rfl ho
  · rintro field other hash ⟨rfl, -⟩ ⟨rfl, -⟩
    rfl

section

variable (hentries : EntryHashFree blobs)
include hentries

omit hfree in
/-- No other entry has the entry hash of a placed one. -/
theorem placed_eq_of_entryHash {entry' : Parsed EntryPackage} (he : entry ∈ run.placed)
    (hm' : entry' ∈ inventory.entries) (hh : entry.value.entryHash = entry'.value.entryHash) :
    entry = entry' := by
  obtain ⟨hm, hq, -⟩ := h.mem_placed.mp he
  have hma := hentries _ _ _ _ (signedIn_entry (h.exact_placed he))
    (signedIn_entry (h.spec.entries entry' hm')) hh
  by_contra hne
  -- the two packages claim one position, so that the inventory has quarantined both
  refine hq (h.spec.disputed (entryClaim entry)
    (List.mem_append_left _ (List.mem_map_of_mem hm)) (entryClaim entry')
    (List.mem_append_left _ (List.mem_map_of_mem hm')) ?_ ?_ fun ho => ?_)
  · simp only [entryClaim, hma]
  · simp only [entryClaim, hma]
  · exact hne (HashDetermines.of_pairwise h.spec.entries_distinct _ hm _ hm' ho.symm)

theorem exclusive_claims (hse : Separated inventory anchor run) : Exclusive run.claims.report := by
  refine (h.exclusive_evidenced hfree hse).extend (fun _ _ => h.lists_claims) ?_ ?_
  · rintro field hash ⟨recipient, -, entry, -, -, hf⟩ other ho hl
    obtain ⟨-, grant, hg, rfl, -, hq⟩ := grantFault_eq_some hf
    have hd : Delivered blobs .grant grant.objectHash := (h.spec.grants grant hg).deliveredAs
    by_cases ho' : other = .quarantinedObjects
    · exact absurd (ho' ▸ hl) hq
    · exact absurd hl (h.not_lists_evidenced hfree ho' ho hd
        (by cases other <;> simp [Field.families]))
  · rintro field other hash ⟨recipient, hr, entry, he, -, hf⟩
      ⟨recipient', hrecipient', entry', he', -, hfault'⟩
    obtain ⟨-, grant, hg, rfl, hh, -⟩ := grantFault_eq_some hf
    obtain ⟨-, _, hgrant', hob, hh', -⟩ := grantFault_eq_some hfault'
    -- the grant belongs to one entry, and the entry has one fault
    have hs := HashDetermines.of_exactFrom h.spec.grants hfree
      (fun _ _ => ArchiveObject.grant.inj) _ hgrant' _ hg hob
    obtain rfl := h.placed_eq_of_entryHash hentries he (h.mem_placed.mp he').1
      (hh.symm.trans (hs ▸ hh'))
    obtain rfl : recipient = recipient' := by simpa [hr] using hrecipient'
    simpa [hf] using hfault'

/-- **A separated run lists every object in one field.** -/
theorem exclusive_report (hse : Separated inventory anchor run) : Exclusive run.report := by
  have hc := h.exclusive_claims hfree hentries hse
  have hna : ∀ hash, inventory.destroyed ≠ [] → (analyse anchor.chainId run.finalNodes).Names hash →
        run.claims.report.Lists .quarantinedObjects hash := fun hash hne =>
    hse.stubs.resolve_left hne hash
  refine hc.extend (fun _ _ => h.lists_report) ?_ ?_
  · rintro field hash (⟨rfl, ha⟩ | ⟨rfl, hne, hn⟩) other ho hl
    · obtain ⟨_, hs, rfl, hq⟩ := h.exists_of_mem_approved ha
      by_cases ho' : other = .quarantinedObjects
      · exact absurd (ho' ▸ hl) hq
      · exact absurd hl (h.not_lists_claims_stub hfree (h.exact_candidate hs).deliveredAs ho' ho)
    · exact hc _ _ _ ho (by simp) hl (hna hash hne hn)
  · rintro field other hash (⟨rfl, ha⟩ | ⟨rfl, hne, hn⟩)
      (⟨rfl, happroved'⟩ | ⟨rfl, hne', hnames'⟩)
    · rfl
    · obtain ⟨-, -, -, hq⟩ := h.exists_of_mem_approved ha
      exact absurd (hna hash hne' hnames') hq
    · obtain ⟨-, -, -, hq⟩ := h.exists_of_mem_approved happroved'
      exact absurd (hna hash hne hn) hq
    · rfl

end

/-- Without it the last report is not exclusive. -/
theorem separated_of_exclusive (hec : Exclusive run.report) : Separated inventory anchor run := by
  have hcl : ∀ hash, run.assessed.Lists .signatureErrors hash →
      ¬ run.assessed.Lists .quarantinedObjects hash := by
    intro hash hs hqu
    cases hec _ _ _ (by simp) (by simp) (h.lists_report_of_assessed hs)
      (h.lists_report_of_assessed hqu)
  refine ⟨fun evd hev hm hf => ?_, fun entry he hco => ?_, ?_⟩
  · have hs : run.assessed.Lists .signatureErrors evd.objectHash :=
      h.lists_assessed.mpr (.inr (.inl ⟨evd, hev, rfl, rfl, hf⟩))
    have hqu : run.assessed.Lists .quarantinedObjects evd.objectHash := by
      have hj : run.judged.Lists .quarantinedObjects evd.objectHash :=
        h.lists_judged.mpr (.inl (lists_opened.mpr (.inl ⟨rfl, hm⟩)))
      have hr := h.lists_recorded.mpr (.inl hj)
      exact h.lists_assessed.mpr (.inl
        (h.lists_planned_of_positioned (h.lists_positioned_of_recorded hr)))
    exact hcl _ hs hqu
  · by_contra hfi
    have hp : PlanFault inventory (quarantineOrphans inventory run.positioned) entry :=
      ⟨h.not_quarantined_of_conflicts hfree he hco, Option.isSome_iff_ne_none.mpr hfi⟩
    have hs : run.assessed.Lists .signatureErrors entry.objectHash :=
      h.lists_assessed.mpr (.inl (h.lists_planned.mpr (.inr ⟨entry, he, rfl, rfl, hp⟩)))
    have hqu : run.assessed.Lists .quarantinedObjects entry.objectHash :=
      h.lists_assessed.mpr (.inr (.inr ⟨rfl, hco⟩))
    exact hcl _ hs hqu
  · by_cases hem : inventory.destroyed = []
    · exact .inl hem
    · refine .inr fun hash hna => ?_
      by_contra hc
      -- an entry that is not quarantined has a signature error or a result, an approved stub a
      -- result
      have hli : ∃ field, field ≠ .quarantinedObjects ∧ field ≠ .formatErrors ∧
          run.report.Lists field hash := by
        obtain ⟨_, hn, rfl, -⟩ := exists_node_of_names hna
        rcases h.mem_finalNodes.mp hn with ⟨entry, he, rfl⟩ | ⟨_, -, ha, rfl⟩
        · by_cases hs : run.assessed.Lists .signatureErrors entry.objectHash
          · exact ⟨.signatureErrors, by simp, by simp, h.lists_report_of_assessed hs⟩
          · have hre : run.receipted.Lists .objectResults entry.objectHash :=
              (h.lists_receipted (h.receiptsApart hfree)).mpr (.inr ⟨entry, he,
                ⟨fun hq => hc (h.lists_claims_of_assessed hq), hs⟩, .inl ⟨rfl, rfl⟩⟩)
            exact ⟨.objectResults, by simp, by simp,
              h.lists_report.mpr (.inl (h.lists_claims_of_receipted hre))⟩
        · exact ⟨.objectResults, by simp, by simp, h.lists_report.mpr (.inr (.inl ⟨rfl, ha⟩))⟩
      obtain ⟨field, hqu, hfm, hl⟩ := hli
      exact hqu (hec _ _ _ hfm (by simp) hl (h.lists_report.mpr (.inr (.inr ⟨rfl, hem, hna⟩))))

end RunOf

/-! ## 3. The reason of a quarantine -/

section Reasons

variable {report : VerificationReport}

/-- Every object whose reason changes was decoded, and its new reason is another than malformed. -/
structure Requarantined (blobs : List Bytes) (before after : VerificationReport) : Prop where
  formatErrors_eq : after.formatErrors = before.formatErrors
  reason : ∀ hash : ObjectHash, after.quarantinedObjects[hash]? = before.quarantinedObjects[hash]? ∨
      (∃ kind, Delivered blobs kind hash) ∧ after.quarantinedObjects[hash]? ≠ some .malformed

omit [EscrowRules] in
/-- Nothing but the quarantine of decoded objects changes a reason. -/
theorem framed_requarantined :
    Framed (fun hash => ∃ kind, Delivered blobs kind hash) (Requarantined blobs) := by
  constructor
  case trans =>
    intro s t u h h'
    refine ⟨h'.formatErrors_eq.trans h.formatErrors_eq, fun hash => ?_⟩
    rcases h'.reason hash with hs | hn
    · rw [hs]
      exact h.reason hash
    · exact .inr hn
  case quarantine =>
    intro s hash _ hd hr
    refine ⟨rfl, fun key => ?_⟩
    simp only [VerificationReport.quarantine, Std.ExtTreeMap.getElem?_insert]
    by_cases hk : hash = key
    · subst hk
      exact .inr ⟨hd, by simpa using hr⟩
    · exact .inl (by simp [hk])
  all_goals
    intros
    exact ⟨rfl, fun _ => .inl rfl⟩

end Reasons

namespace RunOf

variable (h : RunOf blobs inventory anchor options run)

include h

theorem exists_delivered_of_names (hsu : nodes.Sublist run.nodes)
    (hn : (analyse anchor.chainId nodes).Names hash) : ∃ kind, Delivered blobs kind hash := by
  rcases h.delivered_of_names hsu hn with he | hs
  · exact ⟨.entry, he⟩
  · exact ⟨.destroyed, hs⟩

section Frames

variable {R : VerificationReport → VerificationReport → Prop}
  (hR : Framed (fun hash => ∃ kind, Delivered blobs kind hash) R)
  (hnt : ∀ {s t : VerificationReport}, t.noted = s.noted → R s t)

include hR

theorem frame_recorded : R (opened inventory anchor) run.recorded := by
  obtain ⟨spec, rfl⟩ := h
  have hj : R (opened inventory anchor) (verifyRun inventory anchor options).judged :=
    frame_judgeEntries hR fun entry he => ⟨.entry, (spec.entries entry he).deliveredAs⟩
  refine hR.trans hj (frame_recordDestructions hR fun hash hc => ?_)
  obtain ⟨-, t, ht, rfl⟩ := exists_trust_of_destruction (.inr hc)
  exact ⟨.trust, (spec.trust t ht).deliveredAs⟩

include hnt

theorem frame_planned : R run.recorded run.planned := by
  have hp : R run.recorded run.positioned := by
    rw [h.positioned_eq]
    exact frame_recordChain hR (fun hash => h.exists_delivered_of_names (List.Sublist.refl _))
      (fun _ _ => hnt rfl) fun _ _ => hnt rfl
  obtain ⟨spec, rfl⟩ := h
  refine hR.trans hp (hR.trans (hR.foldl (g := id) fun s hash hh => ?_) (frame_checkGrantPlans hR))
  obtain ⟨grant, hg, rfl⟩ := List.mem_map.mp hh
  exact hR.quarantine _ _ _
    ⟨.grant, (spec.grants grant (List.mem_of_mem_filter hg)).deliveredAs⟩ (by simp)

theorem frame_assessed : R run.planned run.assessed := by
  rw [h.assessed_eq, assessCheckpoints_eq, recordAssessment_eq]
  refine hR.trans (frame_authenticated hR) (hR.trans (hR.foldl (g := id) fun s finding hf =>
    ?_) (hnt rfl))
  cases finding with
  | truncatedBelowCheckpoint _ _ cp =>
    dsimp only [recordFinding, id]
    split <;> exact hnt rfl
  | headEntryHashMismatch _ _ _ cp conflicting =>
    have hd : ∃ kind, Delivered blobs kind conflicting := by
      obtain ⟨_, hn, rfl, -⟩ := exists_node_of_conflicts (conflicts_iff_finding.mpr ⟨_, hf, rfl⟩)
      rcases h.delivered_of_mem_nodes hn with he | hs
      · exact ⟨.entry, he⟩
      · exact ⟨.destroyed, hs⟩
    have hq := hR.quarantine s conflicting .conflicting hd (by simp)
    dsimp only [recordFinding, RollbackFinding.provenMissingSequences, id]
    split
    · exact hR.trans hq (hnt rfl)
    · exact hq

theorem frame_published : R run.assessed (publishChainHead run.claims.report run.chain) := by
  have hc : R run.assessed run.claims.report := by
    obtain ⟨_, rfl⟩ := h
    exact hR.trans (frame_confirmEntries hR fun _ _ _ => hnt rfl)
      (hR.trans (frame_runEvidenceGate hR) (frame_claimOwnGrants hR))
  refine hR.trans hc ?_
  unfold publishChainHead
  split <;> exact hnt rfl

theorem frame_settled : R (publishChainHead run.claims.report run.chain) run.report := by
  rw [h.report_eq]
  by_cases he : inventory.destroyed = []
  · rw [if_pos (by simpa using he)]
    exact hnt rfl
  · rw [if_neg (by simpa using he), settleStubs_eq h.buildChain_finalNodes]
    have hr : ∀ s : VerificationReport, R s (run.approved.foldl
        (fun report hash => report.addResult hash destroyedResult) s) := fun s =>
      hR.foldl (g := id) fun _ _ _ => hnt rfl
    have hc : ∀ s, R s (cleared anchor.chainId run.approved s) := fun s =>
      hR.trans (hr s) (hnt rfl)
    have hu : ∀ s, R s (run.stubCandidates.foldl
        (recordUnapproved anchor run.approved) s) := fun s => hR.foldl (g := id) fun s stub _ => by
      dsimp only [recordUnapproved]
      split <;> exact hnt rfl
    refine hR.trans (hc _) (hR.trans (frame_recordChain hR
      (fun hash => h.exists_delivered_of_names h.finalNodes_sublist)
      (fun _ _ => hnt rfl) fun _ _ => hnt rfl) ?_)
    exact hR.trans (hu _) (hnt rfl)

/-- **What the stages after the destructions keep.** -/
theorem frame_report : R run.recorded run.report :=
  hR.trans (h.frame_planned hR hnt) (hR.trans (h.frame_assessed hR hnt)
    (hR.trans (h.frame_published hR hnt) (h.frame_settled hR hnt)))

end Frames

/-- A reason changes only where an object is quarantined again. -/
theorem requarantined_report : Requarantined blobs (opened inventory anchor) run.report := by
  refine framed_requarantined.trans (h.frame_recorded framed_requarantined)
    (h.frame_report framed_requarantined fun {s t} hnt => ?_)
  simp only [VerificationReport.noted, Prod.mk.injEq] at hnt
  exact ⟨hnt.1, fun hash => .inl (by rw [hnt.2.1])⟩

/-- **The malformed objects are those with format errors.** -/
theorem malformed_report (hfree : CollisionFree blobs) (hash : ObjectHash) :
    hash ∈ run.report.formatErrors ↔ run.report.quarantinedObjects[hash]? = some .malformed := by
  have hr := h.requarantined_report
  have hi : hash ∈ run.report.formatErrors ↔ inventory.quarantined[hash]? = some .malformed := by
    rw [hr.formatErrors_eq]
    exact h.spec.malformed_iff hash
  constructor
  · intro hfm
    rcases hr.reason hash with hs | ⟨⟨_, hd⟩, -⟩
    · rw [hs]
      exact hi.mp hfm
    · -- a decoded object has no format error
      rw [hr.formatErrors_eq] at hfm
      exact absurd hfm (h.spec.not_malformed hfree hd)
  · intro hm
    rcases hr.reason hash with hs | ⟨-, hne⟩
    · exact hi.mpr (hs.symm.trans hm)
    · exact absurd hm hne

end RunOf

/-! ## 4. The law of the fields -/

/-- Every object is listed in at most one field, and it has a format error exactly if it is
quarantined as malformed. -/
structure OneField (report : VerificationReport) : Prop where
  exclusive : Exclusive report
  malformed : ∀ hash, hash ∈ report.formatErrors ↔
    report.quarantinedObjects[hash]? = some .malformed

omit [EscrowRules] in
/-- The report of an inventory that the trust gate refuses lists only what the inventory does. -/
theorem oneField_openReport (spec : InventorySpec blobs inventory) :
    OneField (openReport inventory anchor) :=
  ⟨@exclusive_opened inventory anchor, spec.malformed_iff⟩

/-- **When every object of a report is listed in one field**: if the trust gate refuses the
inventory, or if the run is separated. -/
theorem oneField_iff {source : ArchiveSource} {report : VerificationReport}
    (hfree : CollisionFree source.blobs) (hentries : EntryHashFree source.blobs)
    (hbuild : ArchiveInventory.build source = .ok inventory)
    (hverify : verifyArchive source anchor options = .ok report) :
    OneField report ↔ (TrustGate inventory anchor options →
      Separated inventory anchor (verifyRun inventory anchor options)) := by
  have spec := build_spec hbuild
  obtain ⟨inventory', hbuild', hc⟩ := verifyArchive_eq_ok hverify
  obtain rfl : inventory' = inventory := Except.ok.inj (hbuild'.symm.trans hbuild)
  rcases hc with ⟨hg, rfl⟩ | ⟨hg, rfl⟩
  · exact ⟨fun _ ho => absurd ho hg, fun _ => oneField_openReport spec⟩
  · have h : RunOf source.blobs inventory' anchor options
        (verifyRun inventory' anchor options) := ⟨spec, rfl⟩
    constructor
    · exact fun hon _ => h.separated_of_exclusive hfree hon.exclusive
    · exact fun hs => ⟨h.exclusive_report hfree hentries (hs hg), h.malformed_report hfree⟩

/-- The given trust objects, and a checkpoint that was delivered twice. -/
def duplicateArchive (names : List UInt8) : TableArchive where
  table
    | 50 => some (standardCheckpoint 0 100)
    | hash => organization hash
  delivered := names ++ [50, 50]

omit [Crypto] [EscrowRules] in
/-- The archive with the same entry twice. -/
theorem oneField_iff_duplicate :
    let archive := duplicateArchive organizationNames
    let options : VerifyOptions := { osWallClock := 15 }
    let := archive.crypto
    let := archive.escrowRules
    ∃ inventory report, ArchiveInventory.build archive.source = .ok inventory ∧
      archive.verify organizationAnchor options = .ok report ∧
      50 ∈ report.quarantinedObjects ∧
      (OneField report ↔ (TrustGate inventory organizationAnchor options →
        Separated inventory organizationAnchor
          (verifyRun inventory organizationAnchor options))) := by
  intro archive options _ _
  obtain ⟨inventory, report, hb, hv, hq⟩ :=
    archive.exists_report organizationAnchor options (·.isQuarantined 50)
  have hentries := archive.entryHashFree (by decide +kernel)
  exact ⟨inventory, report, hb, hv, VerificationReport.isQuarantined_iff.mp hq,
    oneField_iff archive.collisionFree hentries hb hv⟩

omit [Crypto] [EscrowRules] in
/-- Without a registry the checkpoint fails its signature, although it is quarantined as a
duplicate. -/
theorem not_oneField_of_duplicate : ∃ report,
    (duplicateArchive [1, 2, 3, 4, 5]).verify organizationAnchor { osWallClock := 15 } =
      .ok report ∧ ¬ OneField report := by
  obtain ⟨-, report, -, hv, hp⟩ := (duplicateArchive [1, 2, 3, 4, 5]).exists_report
    organizationAnchor { osWallClock := 15 }
    (fun report => report.isQuarantined 50 && report.hasSignatureError 50)
  rw [Bool.and_eq_true, VerificationReport.isQuarantined_iff,
    VerificationReport.hasSignatureError_iff] at hp
  refine ⟨report, hv, fun ho => ?_⟩
  have hf := ho.exclusive _ _ _ (by simp) (by simp) hp.1 hp.2
  cases hf

end Einsatzarchiv.Verify
