/-
  File:      Einsatzarchiv/Verify/Stages.lean
  Subject:   What each stage of a verification adds to the report.

  For every stage one equivalence says which objects its report lists that the report before it
  does not list, and one equation what it leaves alone.  Later modules cite these and do not
  unfold the stages.

  * `lists_judgeEntries`, `mem_placed`: the entries.
  * `lists_recordDestructions`: the destructions.
  * `VerifiedChain.Names`: the chain.
  * `lists_checkGrantPlans`, `lists_assessCheckpoints`: the grant plans and the checkpoints.
-/
import Einsatzarchiv.Verify.Archive

namespace Einsatzarchiv.Verify

open Lib Format Archive Chain Trust
open VerificationReport (isQuarantined_iff lists_quarantineConflicting)

variable [Crypto] [EscrowRules]
variable {inventory : ArchiveInventory} {anchor : TrustAnchor}
variable {report : VerificationReport} {field : Field} {hash : ObjectHash}
variable {P : ObjectHash → Prop} {R : VerificationReport → VerificationReport → Prop}

/-! ## 1. Entries -/

/-- The field an entry is listed in by its verdict; a placed entry is listed by none yet. -/
def EntryVerdict.faultField : EntryVerdict → Option Field
  | .unattributable => some .quarantinedObjects
  | .unsigned _ => some .signatureErrors
  | .misplaced _ => some .quarantinedObjects
  | .placed _ => none

section Entries

variable {state : VerificationReport × List (Parsed EntryPackage)} {entry : Parsed EntryPackage}

/-- **What a placed entry has shown**: the head it names is that of its sequence, its writer is
active there and signed it, and it names a writer transition exactly where one takes effect. -/
theorem faultField_eq_none : (entryVerdict inventory anchor entry).faultField = none ↔ ∃ sel tp,
      manifestHead inventory anchor entry.value.signedManifest.manifest = some sel ∧
      writerIsActive sel entry.value.signedManifest.manifest.writerCertificateHash = true ∧
      verifiedSigner entry sel = .ok tp ∧
      entry.value.signedManifest.manifest.chainId = anchor.chainId ∧
      writerTransitionClaimHolds entry sel = true := by
  dsimp only [entryVerdict]
  cases manifestHead inventory anchor entry.value.signedManifest.manifest with
  | none => simp [EntryVerdict.faultField]
  | some sel =>
    by_cases ha : writerIsActive sel
        entry.value.signedManifest.manifest.writerCertificateHash = true
    · cases hs : verifiedSigner entry sel with
      | error error => simp [ha, hs, EntryVerdict.faultField]
      | ok tp =>
        by_cases hch : entry.value.signedManifest.manifest.chainId = anchor.chainId
        · cases hc : writerTransitionClaimHolds entry sel <;>
            simp [ha, hs, hch, hc, EntryVerdict.faultField]
        · simp [ha, hs, hch, EntryVerdict.faultField]
    · simp [ha, EntryVerdict.faultField]

/-- What an entry adds: nothing if it is already quarantined, else what its verdict says. -/
def EntryFault (inventory : ArchiveInventory) (anchor : TrustAnchor) (report : VerificationReport)
    (field : Field) (hash : ObjectHash) (entry : Parsed EntryPackage) : Prop :=
  ¬ report.Lists .quarantinedObjects entry.objectHash ∧
    (entryVerdict inventory anchor entry).faultField = some field ∧ hash = entry.objectHash

/-- One entry adds its own fault and nothing else. -/
theorem lists_judgeEntry : (judgeEntry inventory anchor state entry).1.Lists field hash ↔
    state.1.Lists field hash ∨ EntryFault inventory anchor state.1 field hash entry := by
  unfold judgeEntry EntryFault
  rw [← VerificationReport.isQuarantined_iff]
  cases hq : state.1.isQuarantined entry.objectHash
  · cases entryVerdict inventory anchor entry <;>
      simp [hq, EntryVerdict.faultField, @eq_comm _ field]
  · simp [hq]

/-- An entry is placed when it is neither quarantined nor at fault. -/
theorem mem_judgeEntry {x : Parsed EntryPackage} :
    x ∈ (judgeEntry inventory anchor state entry).2 ↔ x ∈ state.2 ∨
      (¬ state.1.Lists .quarantinedObjects entry.objectHash ∧
        (entryVerdict inventory anchor entry).faultField = none) ∧ x = entry := by
  unfold judgeEntry
  rw [← VerificationReport.isQuarantined_iff]
  cases hq : state.1.isQuarantined entry.objectHash
  · cases entryVerdict inventory anchor entry <;> simp [hq, EntryVerdict.faultField]
  · simp [hq]

/-- Judging an entry leaves the quarantine of the others alone. -/
theorem quarantined_judgeEntry {other : Parsed EntryPackage}
    (hne : entry.objectHash ≠ other.objectHash) :
    (judgeEntry inventory anchor state entry).1.Lists .quarantinedObjects other.objectHash ↔
      state.1.Lists .quarantinedObjects other.objectHash := by
  rw [lists_judgeEntry]
  exact or_iff_left fun h => hne h.2.2.symm

omit [Crypto] [EscrowRules] in
theorem pairwise_orderedEntries
    (h : inventory.entries.Pairwise fun a b => a.objectHash ≠ b.objectHash) :
    (orderedEntries inventory).Pairwise fun a b => a.objectHash ≠ b.objectHash :=
  ((perm_sortByKey _ _).pairwise_iff fun h => Ne.symm h).mpr h

omit [Crypto] [EscrowRules] in
theorem mem_orderedEntries : entry ∈ orderedEntries inventory ↔ entry ∈ inventory.entries :=
  mem_sortByKey

variable (h : inventory.entries.Pairwise fun a b => a.objectHash ≠ b.objectHash)

include h

/-- The entries add their faults, each as judged on the report before all of them. -/
theorem lists_judgeEntries : (judgeEntries inventory anchor report).1.Lists field hash ↔
    report.Lists field hash ∨
      ∃ entry ∈ inventory.entries, EntryFault inventory anchor report field hash entry := by
  refine (foldl_or_of_pairwise (s := (report, [])) (P := fun s => s.1.Lists field hash)
    (fun s a _ => lists_judgeEntry)
    (fun s a b _ _ hne => by simp only [EntryFault, quarantined_judgeEntry hne])
    (pairwise_orderedEntries h)).trans ?_
  simp only [mem_orderedEntries]

/-- The placed entries, by their own data and the report before. -/
theorem mem_placed : entry ∈ (judgeEntries inventory anchor report).2 ↔
    entry ∈ inventory.entries ∧ ¬ report.Lists .quarantinedObjects entry.objectHash ∧
      (entryVerdict inventory anchor entry).faultField = none := by
  refine (foldl_or_of_pairwise (s := (report, [])) (P := fun s => entry ∈ s.2)
    (fun s a _ => mem_judgeEntry)
    (fun s a b _ _ hne => by simp only [quarantined_judgeEntry hne])
    (pairwise_orderedEntries h)).trans ?_
  simp only [mem_orderedEntries, List.not_mem_nil, false_or]
  grind

omit h in
/-- Whatever every addition keeps, the stage keeps; and so for the `frame_` lemmas below. -/
theorem frame_judgeEntries (hR : Framed P R)
    (hP : ∀ entry ∈ inventory.entries, P entry.objectHash) :
    R report (judgeEntries inventory anchor report).1 := by
  refine hR.foldl (g := Prod.fst) (s := (report, [])) fun s entry he => ?_
  have he := hP entry (mem_orderedEntries.mp he)
  dsimp only [judgeEntry]
  split
  · exact hR.refl _
  · have hn : ∀ ver tp, R s.1 ((s.1.addRegistryVersion ver).addThumbprint tp) := fun _ _ =>
      hR.trans (hR.addRegistryVersion _ _) (hR.addThumbprint _ _)
    split
    · exact hR.quarantine _ _ _ he (by simp)
    · exact hR.addSignatureError _ _ _
    · exact hR.trans (hn _ _) (hR.quarantine _ _ _ he (by simp))
    · exact hn _ _

end Entries

/-! ## 2. Destructions -/

section Destructions

omit [EscrowRules]

variable {headFor : HeadFor} {observedAt : Int} {trust : List (Parsed TrustObject)}
  {retained : List Authorization} {events : List VerifiedEvent}

omit [Crypto] in
/-- A quarantined event is one of those given. -/
theorem mem_followEvents {auth cur : ObjectHash} {fuel : Nat}
    {state : DestructionState} {pending : List VerifiedEvent}
    (h : hash ∈ (followEvents auth fuel cur state pending).1) :
    ∃ event ∈ pending, event.objectHash = hash := by
  induction fuel generalizing cur state pending with
  | zero => simpa [followEvents] using h
  | succ fuel ih =>
    unfold followEvents at h
    split at h
    next next hn =>
      have hm : next ∈ pending := List.mem_of_mem_filter (hn ▸ List.mem_singleton_self next)
      split at h
      · obtain ⟨event, hev, rfl⟩ := ih h
        exact ⟨event, List.mem_of_mem_filter hev, rfl⟩
      · rcases List.mem_cons.mp h with rfl | h
        · exact ⟨next, hm, rfl⟩
        · obtain ⟨event, hev, rfl⟩ := List.mem_map.mp h
          exact ⟨event, List.mem_of_mem_filter hev, rfl⟩
    next => simpa using h

omit [Crypto] in
/-- Only events of the group are in conflict. -/
theorem mem_assessDestruction {group : List VerifiedEvent}
    (h : hash ∈ (assessDestruction group).1) : ∃ event ∈ group, event.objectHash = hash := by
  have hf : ∀ p : VerifiedEvent → Bool, hash ∈ (group.filter p).map (·.objectHash) →
      ∃ event ∈ group, event.objectHash = hash := by
    intro p h
    obtain ⟨event, hev, rfl⟩ := List.mem_map.mp h
    exact ⟨event, List.mem_of_mem_filter hev, rfl⟩
  dsimp only [assessDestruction] at h
  split at h
  next root _ =>
    split at h
    · rcases List.mem_append.mp h with h | h
      · exact hf _ h
      · obtain ⟨event, hev, rfl⟩ := mem_followEvents h
        exact ⟨event, List.mem_of_mem_filter (List.mem_of_mem_filter hev), rfl⟩
    · rcases List.mem_append.mp h with h | h
      · exact hf _ h
      · exact hf _ h
  next =>
    rcases List.mem_append.mp h with h | h
    · exact hf _ h
    · exact hf _ h

/-- Authorizations whose head is not known. -/
theorem lists_judgeAuthorizations (l : List Authorization) :
    (l.foldl (judgeAuthorization headFor) report).Lists field hash ↔ report.Lists field hash ∨
      ∃ a ∈ l, field = .signatureErrors ∧ hash = a.objectHash ∧
        ¬ report.Lists .quarantinedObjects a.objectHash ∧ authorizationHolds headFor a = false := by
  have hs : ∀ (s : VerificationReport) a field hash,
      (judgeAuthorization headFor s a).Lists field hash ↔ s.Lists field hash ∨
        field = .signatureErrors ∧ hash = a.objectHash ∧
          ¬ s.Lists .quarantinedObjects a.objectHash ∧ authorizationHolds headFor a = false := by
    intro s a field hash
    rw [← isQuarantined_iff]
    unfold judgeAuthorization
    cases s.isQuarantined a.objectHash <;> cases authorizationHolds headFor a <;> simp
  exact foldl_or_of_frame (P := (·.Lists field hash))
    (fun s a _ => hs s a field hash) fun s a b => by simp [hs]

omit [Crypto] in
/-- Steps whose authorization was not retained. -/
theorem lists_judgeResolutions (l : List (Parsed TrustObject)) :
    (l.foldl (judgeResolution retained) report).Lists field hash ↔ report.Lists field hash ∨
      ∃ t ∈ l, field = .signatureErrors ∧ hash = t.objectHash ∧
        ¬ report.Lists .quarantinedObjects t.objectHash ∧
          ∃ step, resolveStep retained t = some (step, none) := by
  have hs : ∀ (s : VerificationReport) t field hash,
      (judgeResolution retained s t).Lists field hash ↔ s.Lists field hash ∨
        field = .signatureErrors ∧ hash = t.objectHash ∧
          ¬ s.Lists .quarantinedObjects t.objectHash ∧
            ∃ step, resolveStep retained t = some (step, none) := by
    intro s t field hash
    rw [← isQuarantined_iff]
    unfold judgeResolution
    cases s.isQuarantined t.objectHash
    · rcases resolveStep retained t with _ | ⟨step, _ | a⟩ <;> simp
    · simp
  exact foldl_or_of_frame (P := (·.Lists field hash))
    (fun s a _ => hs s a field hash) fun s a b => by simp [hs]

/-- Steps that do not verify. -/
theorem lists_judgeSteps (l : List DestructionObject) :
    (l.foldl (judgeStep headFor observedAt) report).Lists field hash ↔
      report.Lists field hash ∨ ∃ o ∈ l, field = .signatureErrors ∧
        hash = o.object.objectHash ∧ stepVerified headFor observedAt o = false := by
  refine foldl_or (f := judgeStep headFor observedAt) (P := (·.Lists field hash)) fun s o _ => ?_
  unfold judgeStep stepVerified
  cases verifyDestructionObject headFor observedAt o <;> simp [Except.isOk, Except.toBool]

omit [Crypto] in
theorem lists_quarantineAll (l : List ObjectHash) :
    (l.foldl VerificationReport.quarantineConflicting report).Lists field hash ↔
      report.Lists field hash ∨ field = .quarantinedObjects ∧ hash ∈ l := by
  refine (foldl_or (f := VerificationReport.quarantineConflicting) (P := (·.Lists field hash))
    fun _ _ _ => lists_quarantineConflicting).trans ?_
  grind

omit [Crypto] in
/-- Events that fit no history of their destruction. -/
theorem lists_recordEvents (l : List DestructionId) :
    (l.foldl (recordDestruction events) report).Lists field hash ↔ report.Lists field hash ∨
      ∃ id ∈ l, field = .quarantinedObjects ∧
        hash ∈ (assessDestruction (events.filter (·.fields.destructionId = id))).1 := by
  refine foldl_or (f := recordDestruction events) (P := (·.Lists field hash)) fun s id _ => ?_
  unfold recordDestruction
  generalize assessDestruction (events.filter (·.fields.destructionId = id)) = found
  obtain ⟨_, dest⟩ := found
  cases dest <;> simp [lists_quarantineAll]

section

variable (headFor : HeadFor) (observedAt : Int) (report : VerificationReport)
  (trust : List (Parsed TrustObject)) (hash : ObjectHash)

/-- An authorization, a transition or an attestation whose signatures do not hold. -/
def DestructionUnsigned : Prop :=
  (∃ a ∈ authorizations trust, hash = a.objectHash ∧
    ¬ report.Lists .quarantinedObjects a.objectHash ∧ authorizationHolds headFor a = false) ∨
  (∃ t ∈ trust, hash = t.objectHash ∧ ¬ report.Lists .quarantinedObjects t.objectHash ∧
    ∃ step, resolveStep (retainedAuthorizations headFor report trust) t = some (step, none)) ∨
  ∃ o ∈ orderedSteps (retainedAuthorizations headFor report trust) report trust,
    hash = o.object.objectHash ∧ stepVerified headFor observedAt o = false

/-- A verified transition that does not lie on the path of its destruction. -/
def DestructionContested : Prop :=
  let events := verifiedEvents headFor observedAt
    (orderedSteps (retainedAuthorizations headFor report trust) report trust)
  ∃ id ∈ destructionIds events,
    hash ∈ (assessDestruction (events.filter (·.fields.destructionId = id))).1

end

/-- What the destructions add: unsigned objects and contested events. -/
theorem lists_recordDestructions :
    (recordDestructions report trust observedAt headFor).1.Lists field hash ↔
      report.Lists field hash ∨
      field = .signatureErrors ∧ DestructionUnsigned headFor observedAt report trust hash ∨
      field = .quarantinedObjects ∧ DestructionContested headFor observedAt report trust hash := by
  simp only [recordDestructions, lists_recordEvents, lists_judgeSteps, lists_judgeResolutions,
    lists_judgeAuthorizations, DestructionUnsigned, DestructionContested]
  -- the first loop only adds signature errors, so that the second one finds the same quarantine
  simp only [reduceCtorEq, false_and, and_false, exists_false, or_false]
  grind

omit [Crypto] in
/-- A step counts with its authorization, unless it is quarantined. -/
theorem mem_orderedSteps {o : DestructionObject} : o ∈ orderedSteps retained report trust ↔
    o.object ∈ trust ∧ ¬ report.Lists .quarantinedObjects o.object.objectHash ∧
      resolveStep retained o.object = some (o.step, some o.authorization) := by
  simp only [orderedSteps, mem_sortByKey, List.mem_filterMap, ← isQuarantined_iff]
  constructor
  · rintro ⟨_, ho, h⟩
    split at h
    · cases h
    · split at h
      · cases h
        exact ⟨ho, by assumption, by assumption⟩
      · cases h
  · rintro ⟨ho, hq, hr⟩
    exact ⟨o.object, ho, by simp [hq, hr]⟩

/-- Every verified event comes from a verified step. -/
theorem exists_step_of_mem_verifiedEvents {ordered : List DestructionObject}
    {event : VerifiedEvent} (h : event ∈ verifiedEvents headFor observedAt ordered) :
    ∃ o ∈ ordered, stepVerified headFor observedAt o = true ∧
      o.object.objectHash = event.objectHash := by
  obtain ⟨o, ho, h⟩ := List.mem_filterMap.mp h
  obtain ⟨ho, hv⟩ := List.mem_filter.mp ho
  refine ⟨o, ho, hv, ?_⟩
  split at h
  · cases h
    rfl
  · cases h

theorem DestructionContested.exists_step
    (h : DestructionContested headFor observedAt report trust hash) :
    ∃ o ∈ orderedSteps (retainedAuthorizations headFor report trust) report trust,
      stepVerified headFor observedAt o = true ∧ o.object.objectHash = hash := by
  obtain ⟨_, -, h⟩ := h
  obtain ⟨_, hev, rfl⟩ := mem_assessDestruction h
  exact exists_step_of_mem_verifiedEvents (List.mem_of_mem_filter hev)

omit [Crypto] in
/-- An authorization is a trust object of the archive. -/
theorem mem_authorizations {a : Authorization} (h : a ∈ authorizations trust) :
    ∃ t ∈ trust, t.objectHash = a.objectHash ∧
      ∃ fields, t.value.payload = .destructionAuthorization fields := by
  obtain ⟨t, ht, h⟩ := List.mem_filterMap.mp h
  split at h
  · cases h
    exact ⟨t, ht, rfl, _, by assumption⟩
  · cases h

/-- Only trust objects that were not quarantined before are unsigned or contested. -/
theorem exists_trust_of_destruction (h : DestructionUnsigned headFor observedAt report trust hash ∨
      DestructionContested headFor observedAt report trust hash) :
    ¬ report.Lists .quarantinedObjects hash ∧ ∃ t ∈ trust, t.objectHash = hash := by
  have hs : ∀ o ∈ orderedSteps (retainedAuthorizations headFor report trust) report trust,
      ¬ report.Lists .quarantinedObjects o.object.objectHash ∧
        ∃ t ∈ trust, t.objectHash = o.object.objectHash := fun o ho =>
    have ho := mem_orderedSteps.mp ho
    ⟨ho.2.1, o.object, ho.1, rfl⟩
  rcases h with (⟨a, ha, rfl, hq, -⟩ | ⟨t, ht, rfl, hq, -⟩ | ⟨o, ho, rfl, -⟩) | h
  · obtain ⟨t, ht, hash, -⟩ := mem_authorizations ha
    exact ⟨hq, t, ht, hash⟩
  · exact ⟨hq, t, ht, rfl⟩
  · exact hs o ho
  · obtain ⟨o, ho, -, rfl⟩ := h.exists_step
    exact hs o ho

/-- In the list a hash stands for one object. -/
def HashDetermines {α : Type} (objects : List (Parsed α)) : Prop :=
  ∀ x ∈ objects, ∀ y ∈ objects, x.objectHash = y.objectHash → x = y

omit [Crypto] in
/-- In a family without a hash twice, the hash tells the object. -/
theorem HashDetermines.of_pairwise {α : Type} {objects : List (Parsed α)}
    (h : objects.Pairwise fun a b => a.objectHash ≠ b.objectHash) : HashDetermines objects := by
  intro x hx y hy hash
  by_contra hne
  have hs : Std.Symm fun a b : Parsed α => a.objectHash ≠ b.objectHash := ⟨fun _ _ => Ne.symm⟩
  exact h.forall hx hy hne hash

/-- In a family of exact objects it does, as long as the digest does not collide. -/
theorem HashDetermines.of_exactFrom {α : Type} {objects : List (Parsed α)} {blobs : List Bytes}
    {embed : α → ArchiveObject} (h : ∀ x ∈ objects, ExactFrom blobs embed x)
    (hfree : CollisionFree blobs) (hinj : Function.Injective embed) : HashDetermines objects :=
  fun x hx y hy hash => (h x hx).eq hfree hinj (h y hy) hash

/-- What is contested was signed. -/
theorem DestructionContested.not_unsigned (hd : HashDetermines trust)
    (h : DestructionContested headFor observedAt report trust hash) :
    ¬ DestructionUnsigned headFor observedAt report trust hash := by
  obtain ⟨o, ho, hv, rfl⟩ := h.exists_step
  obtain ⟨hob, -, hr⟩ := mem_orderedSteps.mp ho
  rintro (⟨a, ha, hash, -⟩ | ⟨t, ht, hash, -, step, hn⟩ | ⟨o', ho', hash, hf⟩)
  · -- an authorization is no step of a destruction
    obtain ⟨t, ht, hash', _, hp⟩ := mem_authorizations ha
    obtain rfl := hd t ht _ hob (hash'.trans hash.symm)
    simp [resolveStep, hp, destructionStepOf] at hr
  · obtain rfl := hd t ht _ hob hash.symm
    simp [hn] at hr
  · obtain ⟨hobject', -, hresolve'⟩ := mem_orderedSteps.mp ho'
    have hs := hd _ hobject' _ hob hash.symm
    obtain ⟨authorization, object, step⟩ := o
    obtain ⟨authorization', object', step'⟩ := o'
    obtain rfl : object' = object := hs
    obtain ⟨rfl, rfl⟩ : step' = step ∧ authorization' = authorization := by
      simpa using hresolve'.symm.trans hr
    simp [hv] at hf

theorem frame_recordDestructions (hR : Framed P R)
    (hP : ∀ hash, DestructionContested headFor observedAt report trust hash → P hash) :
    R report (recordDestructions report trust observedAt headFor).1 := by
  refine hR.trans (hR.foldl (g := id) fun s a _ => ?_) (hR.trans
    (hR.foldl (g := id) fun s t _ => ?_) (hR.trans (hR.foldl (g := id) fun s o _ => ?_)
      (hR.foldl (g := id) fun s did hid => ?_)))
  · unfold judgeAuthorization
    split
    · exact hR.refl _
    · exact hR.addSignatureError _ _ _
  · unfold judgeResolution
    split
    · exact hR.refl _
    · split
      · exact hR.addSignatureError _ _ _
      · exact hR.refl _
  · unfold judgeStep
    split
    · exact hR.addThumbprint _ _
    · exact hR.addSignatureError _ _ _
  · have hc := hR.foldl (g := id) (s := s) fun s hash hh =>
      hR.quarantine s hash .conflicting (hP hash ⟨did, hid, hh⟩) (by simp)
    dsimp only [recordDestruction]
    split
    · exact hR.trans hc (hR.addDestruction _ _ _)
    · exact hc

end Destructions

/-! ## 3. The chain -/

section Position

variable {chain : VerifiedChain}

section

omit [Crypto] [EscrowRules]

/-- The chain adds the objects its forks and orphans name. -/
theorem lists_recordChain : (recordChain report chain).Lists field hash ↔
    report.Lists field hash ∨ field = .quarantinedObjects ∧ chain.Names hash := by
  have hg : (chain.gaps.foldl VerificationReport.addGap report).Lists = report.Lists :=
    foldl_frame fun _ _ _ => rfl
  have hfo : ∀ s : VerificationReport, (chain.forks.foldl quarantineFork s).Lists field hash ↔
      s.Lists field hash ∨ ∃ fork ∈ chain.forks, field = .quarantinedObjects ∧
        (hash = fork.competingObjectHashes.1 ∨ hash = fork.competingObjectHashes.2) := fun s =>
    foldl_or (f := quarantineFork) (P := (·.Lists field hash)) fun s fork _ => by
      simp only [quarantineFork, lists_quarantineConflicting]
      grind
  have hb : ∀ s : VerificationReport, (chain.breaks.foldl (fun report entry =>
      report.quarantineConflicting entry.objectHash) s).Lists field hash ↔
      s.Lists field hash ∨ ∃ br ∈ chain.breaks, field = .quarantinedObjects ∧
        hash = br.objectHash := fun s =>
    foldl_or (P := fun s : VerificationReport => s.Lists field hash) fun _ _ _ =>
      lists_quarantineConflicting
  have hh : (recordChain report chain).Lists = (chain.breaks.foldl (fun report entry =>
      report.quarantineConflicting entry.objectHash) (chain.forks.foldl quarantineFork
        (chain.gaps.foldl VerificationReport.addGap report))).Lists := by
    dsimp only [recordChain]
    split <;> rfl
  rw [hh, hb, hfo, hg, VerifiedChain.Names]
  by_cases hf : field = .quarantinedObjects <;> simp [hf, or_assoc]

/-- The quarantine of what a chain names. -/
theorem frame_quarantineNamed (hR : Framed P R) (hP : ∀ hash, chain.Names hash → P hash)
    (s : VerificationReport) :
    R s (chain.breaks.foldl (fun report entry => report.quarantineConflicting entry.objectHash)
      (chain.forks.foldl quarantineFork s)) := by
  refine hR.trans (hR.foldl (g := id) fun s fork hf => ?_)
    (hR.foldl (g := id) fun s br hbr => ?_)
  · exact hR.trans (hR.quarantine _ _ _ (hP _ (.inl ⟨fork, hf, .inl rfl⟩)) (by simp))
      (hR.quarantine _ _ _ (hP _ (.inl ⟨fork, hf, .inr rfl⟩)) (by simp))
  · exact hR.quarantine _ _ _ (hP _ (.inr ⟨br, hbr, rfl⟩)) (by simp)

theorem frame_recordChain (hR : Framed P R) (hP : ∀ hash, chain.Names hash → P hash)
    (hg : ∀ (s : VerificationReport) gap, R s (s.addGap gap))
    (hh : ∀ (s : VerificationReport) head, R s (s.setChainHead head)) :
    R report (recordChain report chain) := by
  have hn := hR.trans (hR.foldl (g := id) (s := report) (l := chain.gaps) fun s gap _ =>
    hg s gap) (frame_quarantineNamed hR hP _)
  dsimp only [recordChain]
  split
  · exact hR.trans hn (hh _ _)
  · exact hn

/-- The gaps of the chain are inserted, and its head is set if it has one. -/
theorem placement_recordChain (report : VerificationReport) (chain : VerifiedChain) :
    (recordChain report chain).placement =
    ⟨chain.gaps.foldl insertGap report.gaps, chain.verifiedHead.getD report.chainHead,
      report.rollback⟩ := by
  have hg : (chain.gaps.foldl VerificationReport.addGap report).placement =
      ⟨chain.gaps.foldl insertGap report.gaps, report.chainHead, report.rollback⟩ := by
    simp only [VerificationReport.placement, VerificationReport.gaps_addGaps, Placement.mk.injEq,
      true_and]
    exact ⟨foldl_frame fun _ _ _ => rfl, foldl_frame fun _ _ _ => rfl⟩
  have hf := frame_quarantineNamed framed_placement fun hash (_ : chain.Names hash) => trivial
  have hn := (hf (chain.gaps.foldl VerificationReport.addGap report)).trans hg
  simp only [VerificationReport.placement, Placement.mk.injEq] at hn
  dsimp only [recordChain]
  cases chain.verifiedHead <;>
    simp [VerificationReport.placement, VerificationReport.setChainHead, hn]

theorem objectResults_recordChain :
    (recordChain report chain).objectResults = report.objectResults :=
  frame_recordChain framed_objectResults (fun _ _ => trivial) (fun _ _ => rfl) fun _ _ => rfl

end

end Position

/-! ## 4. Grant plans -/

section Plans

omit [EscrowRules]

variable {placed : List (Parsed EntryPackage)}

/-- Grants without their entry. -/
theorem lists_quarantineOrphans : (quarantineOrphans inventory report).Lists field hash ↔
    report.Lists field hash ∨ field = .quarantinedObjects ∧ hash ∈ orphanGrants inventory := by
  refine (foldl_or (f := VerificationReport.quarantineUnattributable) (P := (·.Lists field hash))
    fun _ _ _ => VerificationReport.lists_quarantineUnattributable).trans ?_
  grind

/-- The grants of an entry that is not quarantined are not those of its plan. -/
def PlanFault (inventory : ArchiveInventory) (report : VerificationReport)
    (entry : Parsed EntryPackage) : Prop :=
  ¬ report.Lists .quarantinedObjects entry.objectHash ∧
    (grantPlanFinding entry inventory.grants).isSome = true

/-- Entries whose grants are not those of a plan. -/
theorem lists_checkGrantPlans : (checkGrantPlans inventory report placed).Lists field hash ↔
    report.Lists field hash ∨ ∃ entry ∈ placed, field = .signatureErrors ∧
      hash = entry.objectHash ∧ PlanFault inventory report entry := by
  have hs : ∀ (s : VerificationReport) (entry : Parsed EntryPackage) field hash,
      (checkGrantPlan inventory.grants s entry).Lists field hash ↔ s.Lists field hash ∨
        field = .signatureErrors ∧ hash = entry.objectHash ∧ PlanFault inventory s entry := by
    intro s entry field hash
    rw [PlanFault, ← isQuarantined_iff]
    unfold checkGrantPlan
    cases s.isQuarantined entry.objectHash
    · cases grantPlanFinding entry inventory.grants <;> simp
    · simp
  exact foldl_or_of_frame (P := (·.Lists field hash))
    (fun s a _ => hs s a field hash) fun s a b => by simp [hs, PlanFault]

theorem frame_checkGrantPlans (hR : Framed P R) :
    R report (checkGrantPlans inventory report placed) := by
  refine hR.foldl (g := id) fun s entry _ => ?_
  unfold checkGrantPlan
  split
  · exact hR.refl _
  · split
    · exact hR.addSignatureError _ _ _
    · exact hR.refl _

end Plans

/-! ## 5. Checkpoints -/

section Checkpoints

variable {chain : VerifiedChain} {chainId : ChainId} {findings : List RollbackFinding}

section

variable (inventory : ArchiveInventory) (anchor : TrustAnchor)

/-- The claim of an authenticated standard checkpoint. -/
def authenticatedClaim (evidence : Parsed EvidenceObject) : Option CheckpointClaim :=
  match evidence.value with
  | .standard fields _ =>
    if checkpointVerified inventory anchor fields evidence then standardCheckpointClaim evidence
    else none
  | _ => none

/-- The claims of the authenticated standard checkpoints of an inventory. -/
def authenticatedClaims :
    List CheckpointClaim :=
  inventory.evidence.filterMap (authenticatedClaim inventory anchor)

/-- A standard checkpoint that is not authenticated. -/
def CheckpointFault (evidence : Parsed EvidenceObject) : Prop :=
  ∃ fields cose, evidence.value = .standard fields cose ∧
    checkpointVerified inventory anchor fields evidence = false

end

variable {state : VerificationReport × List CheckpointClaim} {evidence : Parsed EvidenceObject}

/-- A checkpoint that nobody signed. -/
theorem lists_authenticateCheckpoint :
    (authenticateCheckpoint inventory anchor state evidence).1.Lists field hash ↔
      state.1.Lists field hash ∨ field = .signatureErrors ∧ hash = evidence.objectHash ∧
        CheckpointFault inventory anchor evidence := by
  unfold authenticateCheckpoint standardCheckpointClaim CheckpointFault
  cases hv : evidence.value with
  | standard fields cose =>
    cases hve : checkpointVerified inventory anchor fields evidence <;> simp [hve]
  | timestamp core cose fields | renewal core cose fields => simp

/-- The claim of a checkpoint, if it is authentic. -/
theorem claims_authenticateCheckpoint : (authenticateCheckpoint inventory anchor state evidence).2 =
      state.2 ++ (authenticatedClaim inventory anchor evidence).toList := by
  unfold authenticateCheckpoint authenticatedClaim standardCheckpointClaim
  cases hv : evidence.value with
  | standard fields cose =>
    cases hve : checkpointVerified inventory anchor fields evidence <;> simp [hve]
  | timestamp core cose fields | renewal core cose fields => simp

/-- The report after the loop over the checkpoints, which collects the authenticated claims. -/
def authenticated (inventory : ArchiveInventory) (anchor : TrustAnchor)
    (report : VerificationReport) : VerificationReport :=
  (inventory.evidence.foldl (authenticateCheckpoint inventory anchor) (report, [])).1

/-- The stage in two steps: authentication, then the assessment of all claims. -/
theorem assessCheckpoints_eq : assessCheckpoints inventory anchor report chain =
    recordAssessment chain anchor.chainId (authenticated inventory anchor report)
      (assessRollback chain (authenticatedClaims inventory anchor)) := by
  have hc := foldl_append_filterMap (l := inventory.evidence)
    (f := authenticateCheckpoint inventory anchor) (s := (report, []))
    fun _ _ _ => claims_authenticateCheckpoint
  exact congrArg (recordAssessment chain anchor.chainId (authenticated inventory anchor report) ∘
    assessRollback chain) hc

/-- Authentication adds the checkpoints that are not authentic. -/
theorem lists_authenticated : (authenticated inventory anchor report).Lists field hash ↔
    report.Lists field hash ∨ ∃ evidence ∈ inventory.evidence, field = .signatureErrors ∧
      hash = evidence.objectHash ∧ CheckpointFault inventory anchor evidence :=
  foldl_or (P := fun s => s.1.Lists field hash) (s := (report, []))
    fun _ _ _ => lists_authenticateCheckpoint

theorem frame_authenticated (hR : Framed P R) :
    R report (authenticated inventory anchor report) := by
  refine hR.foldl (g := Prod.fst) (s := (report, [])) fun s evidence _ => ?_
  dsimp only [authenticateCheckpoint]
  split
  · split
    · exact hR.trans (hR.addThumbprint _ _) (hR.raiseTimeFloor _ _)
    · exact hR.addSignatureError _ _ _
  · exact hR.refl _

section

omit [Crypto] [EscrowRules]

/-- A finding names at most one object. -/
theorem lists_recordFinding {finding : RollbackFinding} :
    (recordFinding chain chainId report finding).Lists field hash ↔ report.Lists field hash ∨
      field = .quarantinedObjects ∧ finding.conflictingObject = some hash := by
  cases finding with
  | truncatedBelowCheckpoint _ _ cp =>
    dsimp only [recordFinding]
    split <;> simp [RollbackFinding.conflictingObject]
  | headEntryHashMismatch _ _ _ cp _ =>
    dsimp only [recordFinding, RollbackFinding.provenMissingSequences]
    split <;> simp [RollbackFinding.conflictingObject, @eq_comm _ hash]

theorem recordAssessment_eq {asm : RollbackAssessment} : recordAssessment chain chainId report asm =
      { asm.findings.foldl (recordFinding chain chainId) report with
        rollback := asm } := by
  cases asm <;> rfl

/-- The assessment adds the objects that contradict a claim. -/
theorem lists_recordAssessment {claims : List CheckpointClaim} :
    (recordAssessment chain chainId report (assessRollback chain claims)).Lists field hash ↔
      report.Lists field hash ∨ field = .quarantinedObjects ∧ Conflicts chain claims hash := by
  rw [conflicts_iff_finding, recordAssessment_eq]
  refine (foldl_or (f := recordFinding chain chainId) (P := (·.Lists field hash))
    fun _ _ _ => lists_recordFinding).trans ?_
  by_cases hf : field = .quarantinedObjects <;> simp [hf]

end

/-- Both together. -/
theorem lists_assessCheckpoints :
    (assessCheckpoints inventory anchor report chain).Lists field hash ↔
      report.Lists field hash ∨
      (∃ evidence ∈ inventory.evidence, field = .signatureErrors ∧ hash = evidence.objectHash ∧
        CheckpointFault inventory anchor evidence) ∨
      field = .quarantinedObjects ∧
        Conflicts chain (authenticatedClaims inventory anchor) hash := by
  rw [assessCheckpoints_eq, lists_recordAssessment, lists_authenticated, or_assoc]

/-- The gap a finding proves. -/
def provenGap (chainId : ChainId) (finding : RollbackFinding) : Option ChainGap :=
  finding.provenMissingSequences.map fun proven => ⟨chainId, proven.1, proven.2⟩

/-- The finding contradicts the verified head itself. -/
def AtHead (chain : VerifiedChain) : RollbackFinding → Bool
  | .headEntryHashMismatch sequence _ _ _ _ =>
    chain.verifiedHead.any (·.chainSequence = sequence)
  | .truncatedBelowCheckpoint .. => false

omit [Crypto] [EscrowRules] in
/-- The findings of an assessment, one after another. -/
theorem placed_recordFindings : (findings.foldl (recordFinding chain chainId) report).gaps =
        (findings.filterMap (provenGap chainId)).foldl insertGap report.gaps ∧
      (findings.foldl (recordFinding chain chainId) report).chainHead =
        if findings.any (AtHead chain) then sentinel chainId else report.chainHead := by
  have hs : ∀ (s : VerificationReport) (finding : RollbackFinding),
      (recordFinding chain chainId s finding).gaps =
          (provenGap chainId finding).toList.foldl insertGap s.gaps ∧
        (recordFinding chain chainId s finding).chainHead =
          if AtHead chain finding then sentinel chainId else s.chainHead := by
    intro s finding
    cases finding with
    | truncatedBelowCheckpoint covered verified cp =>
      unfold provenGap
      dsimp only [recordFinding]
      cases (RollbackFinding.truncatedBelowCheckpoint covered verified
        cp).provenMissingSequences <;> exact ⟨rfl, rfl⟩
    | headEntryHashMismatch _ _ _ cp _ =>
      dsimp only [recordFinding, AtHead, RollbackFinding.provenMissingSequences]
      split
      next hh => exact ⟨rfl, (if_pos hh).symm⟩
      next hh => exact ⟨rfl, (if_neg hh).symm⟩
  induction findings generalizing report with
  | nil => exact ⟨rfl, rfl⟩
  | cons finding findings ih =>
    rw [List.foldl_cons, ih.1, ih.2, (hs _ _).1, (hs _ _).2, List.filterMap_cons, List.any_cons]
    constructor
    · cases provenGap chainId finding <;> rfl
    · cases AtHead chain finding <;> cases findings.any (AtHead chain) <;> rfl

/-- **What the checkpoints leave of the placement**: the gaps they prove are added, and a head
they contradict is withdrawn. -/
theorem placement_assessCheckpoints :
    let assessment := assessRollback chain (authenticatedClaims inventory anchor)
    (assessCheckpoints inventory anchor report chain).placement =
      ⟨(assessment.findings.filterMap (provenGap anchor.chainId)).foldl insertGap report.gaps,
        if assessment.findings.any (AtHead chain) then sentinel anchor.chainId
        else report.chainHead, assessment⟩ := by
  have hp : (authenticated inventory anchor report).placement = report.placement :=
    frame_authenticated framed_placement
  simp only [VerificationReport.placement, Placement.mk.injEq] at hp
  rw [assessCheckpoints_eq, recordAssessment_eq]
  simp [VerificationReport.placement, placed_recordFindings, hp]

end Checkpoints

end Einsatzarchiv.Verify
