/-
  File:      Einsatzarchiv/Writer/Exclusion.lean
  Subject:   Discarding and finalizing share one place, and where a finalization writes.

  * `effect_turn`: each turn of a session is one effect; outside a finalization none sets a marker.
  * `Excludes`: what may follow a marker, what may follow a discard intent, and what is published.
  * `stateAfter_keeps`: what every effect keeps, every run keeps.
  * `exists_mark`: a marker that stands was set on the way.
  * **`discard_finalization_law`**: no intent replaces a marker; an intent is displaced only by a
    finalization that sets its marker afterwards, and only from then on anything is published.
  * `Unoccupied`: nothing stands at or above a sequence, and the named predecessor is alone below.
  * `HeadFree`: nothing stands above the verified head, and the range does not end there.
  * `unoccupied_iff`: the sequence behind the verified head is unoccupied exactly if the head is
    free.
  * `Traced`: whatever a finalization publishes was built from the archive at its start.
  * **`finalize_unoccupied_iff`**: an entry is published onto an unoccupied place exactly if the
    head was free.
-/
import Einsatzarchiv.Writer.Runs

namespace Einsatzarchiv.Writer

open Lib Format

/-! ## 1. Turns -/

/-- No marker is set. -/
def silentLicence : Licence where
  New _ _ := True
  Marks _ _ := False
  Erases _ _ := True
  Books := True

theorem silentLicence_le : silentLicence.Le looseLicence :=
  ⟨fun _ _ h => h, fun _ _ h => h.elim, fun _ _ h => h, id⟩

section Turns

variable [Crypto] [Normalization] [Schema] [EvidenceSource] [Sealing]
variable {s : Installation} {turns : List (Turn WriterCall)} {lic : Licence}

/-- What a call leaves to do heeds the licence it was started with. -/
theorem sound_of_lastCall {call : WriterCall} (hr : Ready s) (hl : lic.Le looseLicence)
    (hco : ∀ start, lic.Covers start call) (h : lastCall turns = some call) :
    installation.Sound Ready (Guard lic) (installation.run ⟨s, none⟩ turns) := by
  obtain ⟨earlier, fates, rfl⟩ := exists_of_lastCall h
  rw [Machine.run_append]
  have hs := ready_run hr earlier
  generalize installation.run ⟨s, none⟩ earlier = sess at hs ⊢
  have hso : installation.Sound Ready (Guard lic) ⟨sess.state, some call.program⟩ :=
    ⟨hs, by rintro p ⟨⟩; exact heeds_program hs call (hco sess.state)⟩
  exact (hso.proceed_all (fun t u ht hc =>
    ready_of_effect hl ht (effect_of_change hc)) fates).1

/-- One turn of a sound session is one effect. -/
theorem effect_of_sound {sess : InstallationSession}
    (h : installation.Sound Ready (Guard lic) sess) (turn : Turn WriterCall) :
    Effect lic sess.state (installation.turn sess turn).state := by
  cases turn with
  | start _ => exact .idle
  | proceed fate =>
    rcases sess with ⟨_, _ | (_ | _ | ⟨_, _⟩)⟩
    · exact .idle
    · exact .idle
    · exact .idle
    · exact effect_of_change (Devices.change_meet (h.current _ rfl).1 fate)

/-- **Each turn is one effect**, and only finalizations set markers. -/
theorem effect_turn (hr : Ready s) (turns : List (Turn WriterCall)) (turn : Turn WriterCall) :
    Effect looseLicence (installation.run ⟨s, none⟩ turns).state
        (installation.run ⟨s, none⟩ (turns ++ [turn])).state
      ∧ ((∃ request, lastCall turns = some (.finalize request))
        ∨ Effect silentLicence (installation.run ⟨s, none⟩ turns).state
          (installation.run ⟨s, none⟩ (turns ++ [turn])).state) := by
  rw [Machine.run_append]
  change Effect _ _ (installation.turn _ turn).state
    ∧ (_ ∨ Effect _ _ (installation.turn _ turn).state)
  cases hl : lastCall turns with
  | none =>
    rw [run_of_lastCall_eq_none hl]
    have hs : (installation.turn ⟨s, none⟩ turn).state = s := by
      cases turn <;> rfl
    rw [hs]
    exact ⟨.idle, .inr .idle⟩
  | some call =>
    refine ⟨effect_of_sound (sound_of_lastCall hr (.refl _)
      (fun start => loose_covers start call) hl) turn, ?_⟩
    by_cases hf : ∃ request, call = .finalize request
    · obtain ⟨request, rfl⟩ := hf
      exact .inl ⟨request, rfl⟩
    · refine .inr (effect_of_sound (sound_of_lastCall hr silentLicence_le ?_ hl) turn)
      intro start
      cases call with
      | finalize request => exact absurd ⟨request, rfl⟩ hf
      | _ => exact trivial

end Turns

/-! ## 2. What a turn may do to the one place -/

/-- The law of one turn.  A marker stays until its draft is restored or everything it names is
published.  An intent stands for its draft until the discard of this draft is completed, or until a
finalization displaces it.  What is published belongs to a marker whose draft is closed. -/
structure Excludes (before after : Installation) (Finalizing : Prop) : Prop where
  marker : ∀ transaction, before.marker = some transaction → after.marker = some transaction
      ∨ after.transition = none ∧ (before.Opens ∨ before.Holds transaction.pairs)
  intent : ∀ intent, before.intent = some intent →
      (∃ later, after.intent = some later ∧ later.draftId = intent.draftId)
      ∨ (after.transition = none ∧ before.Locked
          ∧ (∃ row, before.draft = some row ∧ row.draftId = intent.draftId)
          ∧ ∃ draftId dek, after.draft = some (blankRow draftId dek) ∧ before.NewDraftId draftId)
      ∨ after.marker.isSome ∧ Finalizing
  published : ∀ path bytes, path.staging = false → after.files.read path = some bytes →
    before.files.read path = none → ∃ transaction, before.marker = some transaction ∧ ¬ before.Opens
        ∧ (path, bytes) ∈ transaction.pairs

theorem Installation.marker_eq_none_of_intent {s : Installation} {intent : DiscardIntent}
    (h : s.intent = some intent) : s.marker = none := by
  unfold Installation.marker
  rw [Installation.intent_eq_some.mp h]

/-- An intent is one of the draft that stands. -/
def Intended (s : Installation) : Prop :=
  ∀ intent, s.intent = some intent → ∃ row, s.draft = some row ∧ row.draftId = intent.draftId

section Effects

variable [Normalization] [EvidenceSource] {s t : Installation} {Finalizing : Prop}

theorem Intended.of_effect {lic : Licence} (h : Intended s) (he : Effect lic s t) :
    Intended t := by
  intro intent hint
  cases he with
  | insertBlank draftId dek hd =>
    -- no draft stands, hence no intent
    obtain ⟨row, hr, -⟩ := h intent hint
    exact absurd (hd.symm.trans hr) (by simp)
  | save row hd =>
    obtain ⟨row', hr, hid⟩ := h intent hint
    obtain rfl : row = row' := Option.some.inj (hd.symm.trans hr)
    exact ⟨_, rfl, hid⟩
  | intend row hd =>
    obtain rfl : ⟨row.draftId, row.revision⟩ = intent := Option.some.inj hint
    exact ⟨row, hd, rfl⟩
  | replaceDraft | mark | restore => cases hint
  | _ => exact h intent hint

theorem published_of_effect (hst : ∀ transaction ∈ s.marker, transaction.Staging s.files)
    (he : Effect looseLicence s t) {path : ArchivePath} {bytes : Bytes}
    (hpa : path.staging = false) (ha : t.files.read path = some bytes)
    (hb : s.files.read path = none) :
    ∃ transaction, s.marker = some transaction ∧ ¬ s.Opens ∧ (path, bytes) ∈ transaction.pairs := by
  rcases read_of_effect hst he hpa ha with hold | ⟨-, hmy, prep, hma, hp⟩
  · exact absurd (hb.symm.trans hold) (by simp)
  · obtain ⟨-, -, -, -, hc⟩ := mem_pairs_of_mayPublish hmy
    exact ⟨prep, hma, hc, hp⟩

theorem excludes_of_effect (hst : ∀ transaction ∈ s.marker, transaction.Staging s.files)
    (hi : Intended s) (he : Effect looseLicence s t)
    (hsi : Finalizing ∨ Effect silentLicence s t) : Excludes s t Finalizing where
  marker transaction hma := by
    cases he with
    | restore prep hmk ho => exact .inr ⟨rfl, .inl ho⟩
    | replaceDraft draftId dek hs hn hl hse =>
      exact .inr ⟨rfl, .inr (hse transaction hma)⟩
    | intend row hr hu | mark prep hu =>
      exact absurd (hu.symm.trans hma) (by simp)
    | _ => exact .inl hma
  intent intent hint := by
    have hu := Installation.marker_eq_none_of_intent hint
    cases he with
    | restore prep hmk => exact absurd (hu.symm.trans hmk) (by simp)
    | replaceDraft draftId dek hs hn hl =>
      exact .inr (.inl ⟨rfl, hl, hi intent hint, draftId, dek, rfl, hn⟩)
    | intend row hr hu =>
      obtain ⟨row', hr', hid⟩ := hi intent hint
      obtain rfl : row = row' := Option.some.inj (hr.symm.trans hr')
      exact .inl ⟨_, rfl, hid⟩
    | mark prep =>
      refine .inr (.inr ⟨rfl, hsi.resolve_right fun hq => ?_⟩)
      rcases marker_of_effect hq rfl with hold | ⟨-, hm⟩
      · exact absurd (hu.symm.trans hold) (by simp)
      · exact hm
    | _ => exact .inl ⟨intent, hint, rfl⟩
  published _ _ hpa ha hb := published_of_effect hst he hpa ha hb

end Effects

/-! ## 3. Runs -/

section Runs

variable [Crypto] [Normalization] [Schema] [EvidenceSource] [Sealing] {s : Installation}

/-- The state of an installation after the turns. -/
def stateAfter (s : Installation) (turns : List (Turn WriterCall)) : Installation :=
  (installation.run ⟨s, none⟩ turns).state

/-- **What every effect keeps, every run keeps.** -/
theorem stateAfter_keeps {P : Installation → Prop} (hr : Ready s)
    (hk : ∀ s t, Ready s → Effect looseLicence s t → P s → P t) {turns : List (Turn WriterCall)}
    (h : P (stateAfter s turns)) (more : List (Turn WriterCall)) :
    P (stateAfter s (turns ++ more)) := by
  induction more using List.reverseRecOn with
  | nil => rwa [List.append_nil]
  | append_singleton more turn ih =>
    rw [← List.append_assoc]
    exact hk _ _ (ready_run hr _) (effect_turn hr (turns ++ more) turn).1 ih

theorem intended_stateAfter (archive : Files) (profile : Option OperatorProfile)
    (receipts : List (EventId × Bytes)) (retained : List NumberKey)
    (turns : List (Turn WriterCall)) :
    Intended (stateAfter (installed archive profile receipts retained) turns) := by
  have h : Intended (stateAfter (installed archive profile receipts retained) []) := by
    intro intent hint
    cases hint
  exact stateAfter_keeps (ready_installed archive profile receipts retained)
    (fun _ _ _ he hi => hi.of_effect he) h turns

/-- A marker that stands was set on the way, by a finalization. -/
theorem exists_mark (hr : Ready s) (turns more : List (Turn WriterCall))
    {transaction : PreparedTransaction} (hb : (stateAfter s turns).marker = none)
    (ha : (stateAfter s (turns ++ more)).marker = some transaction) :
    ∃ earlier turn later, more = earlier ++ turn :: later
      ∧ (∃ request, lastCall (turns ++ earlier) = some (.finalize request))
      ∧ (stateAfter s (turns ++ earlier)).marker = none
      ∧ (stateAfter s (turns ++ earlier ++ [turn])).marker = some transaction := by
  induction more using List.reverseRecOn with
  | nil =>
    rw [List.append_nil, hb] at ha
    cases ha
  | append_singleton more turn ih =>
    rw [← List.append_assoc] at ha
    obtain ⟨he, hsi⟩ := effect_turn hr (turns ++ more) turn
    rcases marker_of_effect he ha with hold | ⟨hn, -⟩
    · obtain ⟨earlier, turn', later, rfl, hc, hma, hs⟩ := ih hold
      exact ⟨earlier, turn', later ++ [turn], by simp, hc, hma, hs⟩
    · refine ⟨more, turn, [], rfl, hsi.resolve_right fun hq => ?_, hn, ha⟩
      rcases marker_of_effect hq ha with hold | ⟨-, hm⟩
      · exact absurd (hn.symm.trans hold) (by simp)
      · exact hm

/-- Whatever comes to its name does so under its marker. -/
theorem exists_publication (hre : Ready s) (turns more : List (Turn WriterCall))
    {path : ArchivePath} {bytes : Bytes} (hpa : path.staging = false)
    (hb : (stateAfter s turns).files.read path = none)
    (ha : (stateAfter s (turns ++ more)).files.read path = some bytes) :
    ∃ earlier turn later transaction, more = earlier ++ turn :: later
      ∧ (stateAfter s (turns ++ earlier)).marker = some transaction
      ∧ (path, bytes) ∈ transaction.pairs := by
  induction more using List.reverseRecOn with
  | nil =>
    rw [List.append_nil, hb] at ha
    cases ha
  | append_singleton more turn ih =>
    rw [← List.append_assoc] at ha
    obtain ⟨he, -⟩ := effect_turn hre (turns ++ more) turn
    have hs := (ready_run hre (turns ++ more)).staged
    rcases read_of_effect hs he hpa ha with
      hold | ⟨-, -, transaction, hm, hp⟩
    · obtain ⟨earlier, turn', later, transaction, rfl, hr⟩ := ih hold
      exact ⟨earlier, turn', later ++ [turn], transaction, by simp, hr⟩
    · exact ⟨more, turn, [], transaction, rfl, hm, hp⟩

/-- **Discarding and finalizing.**  Every turn keeps the law of the one place; and what is published
after an intent has been booked was prepared by a finalization that has set its marker since. -/
theorem discard_finalization_law (archive : Files) (profile : Option OperatorProfile)
    (receipts : List (EventId × Bytes)) (retained : List NumberKey)
    (turns more : List (Turn WriterCall)) (turn : Turn WriterCall) :
    let state := stateAfter (installed archive profile receipts retained)
    Excludes (state turns) (state (turns ++ [turn]))
        (∃ request, lastCall turns = some (.finalize request))
      ∧ ∀ intent, (state turns).intent = some intent → ∀ path bytes, path.staging = false →
        (state turns).files.read path = none →
        (state (turns ++ more)).files.read path = some bytes →
          ∃ earlier turn later transaction, more = earlier ++ turn :: later
            ∧ (∃ request, lastCall (turns ++ earlier) = some (.finalize request))
            ∧ (state (turns ++ earlier)).marker = none
            ∧ (state (turns ++ earlier ++ [turn])).marker = some transaction
            ∧ (path, bytes) ∈ transaction.pairs := by
  intro state
  have hr := ready_installed archive profile receipts retained
  refine ⟨?_, fun intent hint path bytes hpa hb ha => ?_⟩
  · obtain ⟨he, hsi⟩ := effect_turn hr turns turn
    exact excludes_of_effect (ready_run hr turns).staged
      (intended_stateAfter archive profile receipts retained turns) he hsi
  · obtain ⟨earlier, turn', later, transaction, rfl, hm, hp⟩ :=
      exists_publication hr turns more hpa hb ha
    obtain ⟨first, marking, rest, rfl, hc, hn, hs⟩ := exists_mark hr turns earlier
      (Installation.marker_eq_none_of_intent hint) hm
    exact ⟨first, marking, rest ++ turn' :: later, transaction, by simp, hc, hn, hs, hp⟩

end Runs

section Table

/-- The discard of the draft, which dies when its intent is booked. -/
def bookedIntent : List (Turn WriterCall) :=
  answered (.beginDiscard ⟨8, 10⟩ (tableProof .discardDraft)) 8

/-- The finalization afterwards, carried through. -/
def laterFinalization : List (Turn WriterCall) := answered (.finalize (tableFinalize 0 "1")) 60

theorem discard_finalization_law_booked :
    let := writerCrypto
    let := writerSealing
    let := plainTexts
    let := openSchema
    let := noEvidence
    let state := stateAfter (tableInstallation [])
    (state bookedIntent).intent = some ⟨0, 0⟩
      ∧ Excludes (state bookedIntent) (state (bookedIntent ++ [.proceed .answered]))
        (∃ request, lastCall bookedIntent = some (.finalize request))
      ∧ ∃ earlier turn later transaction, laterFinalization = earlier ++ turn :: later
        ∧ (∃ request, lastCall (bookedIntent ++ earlier) = some (.finalize request))
        ∧ (state (bookedIntent ++ earlier)).marker = none
        ∧ (state (bookedIntent ++ earlier ++ [turn])).marker = some transaction
        ∧ (⟨.entry 0 104, false⟩, entryBlob 0 0 4) ∈ transaction.pairs := by
  intro _ _ _ _ _ state
  have hint : (state bookedIntent).intent = some ⟨0, 0⟩ := by decide +kernel
  have hl := discard_finalization_law [] (some tableProfile) [] [] bookedIntent
    laterFinalization (.proceed .answered)
  exact ⟨hint, hl.1, hl.2 ⟨0, 0⟩ hint ⟨.entry 0 104, false⟩ (entryBlob 0 0 4) rfl
    (by decide +kernel) (by decide +kernel)⟩

/-- The booked intent is displaced by a marker, and the entry of this very draft is published. -/
theorem booked_intent_displaced :
    let state := tableRun (tableInstallation [])
    (state bookedIntent).intent = some ⟨0, 0⟩
      ∧ (state (bookedIntent ++ answered (.finalize (tableFinalize 0 "1")) 19)).marker.isSome
      ∧ (state (bookedIntent ++ laterFinalization)).files.read ⟨.entry 0 104, false⟩
        = some (entryBlob 0 0 4)
      ∧ (state (bookedIntent ++ laterFinalization)).claims.map (·.draftId) = [0] := by
  decide +kernel

end Table

open Chain Archive

/-! ## 4. Places of a chain -/

/-- Nothing stands at the sequence or above it; directly below stands one entry, the one that is
named. -/
structure Unoccupied (nodes : List ChainNode) (sequence : Nat) (previous : Option EntryHash) :
    Prop where
  above : ∀ node ∈ nodes, node.chainSequence < sequence
  predecessor : 0 < sequence → ∃ node ∈ nodes, node.chainSequence + 1 = sequence
    ∧ previous = some node.entryHash
    ∧ ∀ other ∈ nodes, other.chainSequence + 1 = sequence → other.entryHash = node.entryHash

/-- Nothing stands above the verified head, and a sequence is left behind it. -/
structure HeadFree (chainId : ChainId) (nodes : List ChainNode) : Prop where
  topmost : ∀ node ∈ nodes, ∃ head ∈ (analyse chainId nodes).verifiedHead,
    node.chainSequence ≤ head.chainSequence
  below : ∀ head ∈ (analyse chainId nodes).verifiedHead, head.chainSequence < u64Max

variable {cid : ChainId}

/-- **The place behind the verified head.** -/
theorem unoccupied_iff {nodes : List ChainNode} :
    Unoccupied nodes (expectedSequence (analyse cid nodes))
        ((analyse cid nodes).verifiedHead.map (·.entryHash))
      ↔ HeadFree cid nodes := by
  cases hh : (analyse cid nodes).verifiedHead with
  | none =>
    simp only [expectedSequence, hh]
    constructor
    · exact fun h => ⟨fun node hn => absurd (h.above node hn) (Nat.not_lt_zero _),
        fun head hm => by rw [hh] at hm; cases hm⟩
    · refine fun h => ⟨fun node hn => ?_, fun hp => absurd hp (Nat.lt_irrefl 0)⟩
      obtain ⟨head, hm, -⟩ := h.topmost node hn
      rw [hh] at hm
      cases hm
  | some head =>
    obtain ⟨node, hn, rfl, -⟩ := verifiedHead_spec hh
    have hs : expectedSequence (analyse cid nodes) = min (node.chainSequence + 1) u64Max := by
      simp only [expectedSequence, hh]
      rfl
    rw [hs]
    constructor
    · intro h
      have hlt := h.above node hn
      have hr : node.chainSequence < u64Max := lt_of_lt_of_le hlt (min_le_right _ _)
      refine ⟨fun other ho => ⟨headOf node, hh, ?_⟩, fun head hm => ?_⟩
      · have := (h.above other ho).trans_le (min_le_left _ _)
        exact Nat.lt_succ_iff.mp this
      · obtain rfl : headOf node = head := Option.some.inj (hh.symm.trans hm)
        exact hr
    · intro h
      have hr : node.chainSequence < u64Max := h.below _ hh
      rw [min_eq_left hr]
      have hle : ∀ other ∈ nodes, other.chainSequence ≤ node.chainSequence := by
        intro other ho
        obtain ⟨head, hm, hle⟩ := h.topmost other ho
        obtain rfl : headOf node = head := Option.some.inj (hh.symm.trans hm)
        exact hle
      refine ⟨fun other ho => Nat.lt_succ_of_le (hle other ho), fun _ =>
        ⟨node, hn, rfl, rfl, fun other ho heq => ?_⟩⟩
      exact entryHash_eq_of_le_verifiedHead hh ho hn (Nat.succ.inj heq) (hle other ho)

/-! ## 5. What a finalization publishes -/

section Traces

variable [Crypto]

/-- The nodes of the committed archive: its entries and the stubs of destroyed entries. -/
def committedNodes (files : Files) : List ChainNode :=
  match ArchiveInventory.build ⟨files.published, none⟩ with
  | .ok inventory => chainNodes inventory
  | .error _ => []

theorem rebuildLocalHead_eq_ok {files : Files} {chain : VerifiedChain}
    (h : rebuildLocalHead cid files = .ok chain) :
    chain = analyse cid (committedNodes files) := by
  simp only [rebuildLocalHead, ok_iff] at h
  obtain ⟨_, hi, hc⟩ := h
  rw [(buildChain_eq_ok.mp hc).2.2]
  simp only [committedNodes, hi]

/-- The transaction was built from the archive at the start of the call. -/
def Made (start : Installation) (request : FinalizeCall) (transaction : PreparedTransaction) :
    Prop :=
  ∃ high, Succeeds request.service start.files transaction start.draws high

/-- Whatever stands under a name stood there at the start or was made by this call. -/
structure Traced (start : Installation) (request : FinalizeCall) (s : Installation) : Prop where
  made : ∀ transaction ∈ s.marker, Made start request transaction
  staged : ∀ transaction ∈ s.marker, transaction.Staging s.files
  files : ∀ path bytes, path.staging = false → s.files.read path = some bytes →
    start.files.read path = some bytes
      ∨ ∃ transaction, Made start request transaction ∧ (path, bytes) ∈ transaction.pairs

variable [Normalization] [EvidenceSource] {start s t : Installation} {req : FinalizeCall}

theorem traced_of_effect (h : Traced start req s)
    (he : Effect (licenceOf start req) s t) : Traced start req t where
  made transaction htx := by
    rcases marker_of_effect he htx with hold | ⟨-, ha⟩
    · exact h.made transaction hold
    · exact ⟨_, ha.succeeds⟩
  staged := staged_of_effect (loose_of_licenceOf start req) h.staged he
  files path bytes hpa hr := by
    rcases read_of_effect h.staged he hpa hr with hold
      | ⟨-, -, transaction, hm, hp⟩
    · exact h.files path bytes hpa hold
    · exact .inr ⟨transaction, h.made transaction hm, hp⟩

end Traces

section Calls

variable [Crypto] [Normalization] [Schema] [EvidenceSource] [Sealing]
variable {s : Installation} {request : FinalizeCall} {tx : PreparedTransaction} {bytes : Bytes}

/-- Operations that change nothing. -/
def Idle (port : Port) (s : Installation) : Prop := (port.perform s).2 = s

omit [Crypto] [Schema] [Sealing] in
/-- A reading: the state stays, whatever its fate. -/
theorem heeds_reading {ε α : Type} {port : Port} {f : port.Reply → Task ε α}
    {Post : Except ε α → Installation → Prop} (hi : (port.perform s).2 = s)
    (hp : (f (port.perform s).1).Heeds ports Idle Post s)
    (hre : ∀ reply, port.refuse = some reply → (f reply).Heeds ports Idle Post s) :
    (call port >>= f).Heeds ports Idle Post s := by
  refine Program.heeds_ask_bind hi ?_ hre fun reply hr _ => ?_
  · change (f (port.perform s).1).Heeds ports Idle Post (port.perform s).2
    rw [hi]
    exact hp
  · change (f reply).Heeds ports Idle Post (port.perform s).2
    rw [hi]
    exact hre reply hr

/-- Where a marker stands, a finalization only reads. -/
theorem heeds_finalize_of_marker (hm : s.marker = some tx) :
    (WriterCall.finalize request).program.Heeds ports Idle (fun _ _ => True) s := by
  have hun : (requireUnusedAcknowledgement request.acknowledgement).Heeds ports Idle
      (ends (fun _ t => t = s) fun _ _ => True) s := by
    unfold requireUnusedAcknowledgement
    split
    · exact rfl
    · refine heeds_reading rfl ?_ ?_
      · refine Program.heeds_ofExcept ?_
        cases (Port.requireUnused _).perform s |>.1
        · exact trivial
        · exact rfl
      · rintro _ ⟨⟩
        exact trivial
  have hcn : (Program.ofExcept (requireDraftContent request.service request.content) :
      Task WriterError Unit).Heeds ports Idle (ends (fun _ t => t = s) fun _ _ => True) s := by
    refine Program.heeds_ofExcept ?_
    cases requireDraftContent request.service request.content
    · exact trivial
    · exact rfl
  have hr : requireNoMarker.Heeds ports Idle (ends (fun _ _ => False) fun _ _ => True) s := by
    refine heeds_reading rfl ?_ ?_
    · simp only [Port.perform, hm]
      exact trivial
    · rintro _ ⟨⟩
      exact trivial
  have hp : (prepare request).Heeds ports Idle (ends (fun _ _ => False) fun _ _ => True) s := by
    refine Program.Heeds.bind hun ?_ (fun _ _ _ => trivial)
    rintro - t rfl
    refine Program.Heeds.bind hcn ?_ (fun _ _ _ => trivial)
    rintro - t rfl
    exact Program.Heeds.bind hr (fun _ _ h => False.elim h) (fun _ _ _ => trivial)
  have hu : ((prepare request).mapError (·, (none : Option ClaimSource))).Heeds ports Idle
      (ends (fun _ _ => False) fun e _ => e.2 = none) s := by
    refine Program.Heeds.mapError hp ?_
    rintro (e | a) t ht
    · exact rfl
    · exact ht
  have hc : (runClaiming request).Heeds ports Idle
      (ends (fun _ _ => False) fun e _ => e.2 = none) s :=
    Program.Heeds.bind hu (fun _ _ h => False.elim h)
  have hre : ((runClaiming request).result : Task WriterError _).Heeds ports Idle
      (ends (fun r t => ends (fun _ _ => False) (fun e _ => e.2 = none) r t) fun _ _ => False) s :=
    Program.Heeds.result hc fun _ _ h => h
  have hf : (finalize request).Heeds ports Idle (fun _ _ => True) s := by
    refine Program.Heeds.bind hre ?_ (fun _ _ _ => trivial)
    rintro (⟨e, claim⟩ | a) t ht
    · obtain rfl : claim = none := ht
      exact trivial
    · exact ht.elim
  have he : ((finalize request).mapError CallError.writer).Heeds ports Idle
      (fun _ _ => True) s := Program.Heeds.mapError hf fun _ _ h => h
  exact Program.Heeds.bind he (fun _ _ _ => trivial)

/-- A finalization that runs up to some point, under any fates. -/
def finalizing (s : Installation) (request : FinalizeCall) (fates : List Fate) :
    InstallationSession :=
  installation.run ⟨s, none⟩ (.start (.finalize request) :: fates.map .proceed)

/-- **What a finalization publishes** was made from the archive at its start. -/
theorem files_of_finalizing (ho : Orderly s) (fates : List Fate) {path : ArchivePath}
    (hp : path.staging = false)
    (hr : (finalizing s request fates).state.files.read path = some bytes) :
    s.files.read path = some bytes
      ∨ ∃ tx, Made s request tx ∧ (path, bytes) ∈ tx.pairs := by
  cases hm : s.marker with
  | some tx =>
    have hso : installation.Sound (· = s) Idle ⟨s, some (WriterCall.finalize request).program⟩ :=
      ⟨rfl, by rintro p ⟨⟩; exact heeds_finalize_of_marker hm⟩
    have hs := (hso.proceed_all (fun t u ht hc => ?_) fates).1.inv
    · exact .inl (hs ▸ hr)
    · cases hc with
      | perform _ h => exact h.trans ht
      | refuse => exact ht
  | none =>
    have htr : Traced s request s := ⟨by simp [hm], by simp [hm], fun _ _ _ h => .inl h⟩
    have hh : (WriterCall.finalize request).program.Heeds ports (Guard (licenceOf s request))
        (fun _ _ => True) s := by
      have hd : Yields (licenceOf s request) (WriterCall.finalize request).program
          (fun _ _ => True) s :=
        (does_finalize ho).mapError.bind fun _ _ _ => trivial
      exact Program.Heeds.imp hd fun _ _ _ => trivial
    have hso : installation.Sound (Traced s request) (Guard (licenceOf s request))
        ⟨s, some (WriterCall.finalize request).program⟩ :=
      ⟨htr, by rintro p ⟨⟩; exact hh⟩
    have htraced' := (hso.proceed_all (fun t u ht hc =>
      traced_of_effect ht (effect_of_change hc)) fates).1.inv
    exact htraced'.files path bytes hp hr

omit [Normalization] [Schema] [EvidenceSource] [Sealing] [Crypto] in
/-- The one entry among the objects of a transaction. -/
theorem entry_of_mem_pairs {seq : Nat} {hash : EntryHash}
    (h : (⟨.entry seq hash, false⟩, bytes) ∈ tx.pairs) :
    seq = tx.sequence ∧ hash = tx.entryHash
      ∧ bytes = tx.entryBytes := by
  rcases List.mem_append.mp h with h | h
  · obtain ⟨_, -, heq⟩ := List.mem_map.mp h
    cases heq
  · cases List.mem_singleton.mp h
    exact ⟨rfl, rfl, rfl⟩

/-- **Where a finalization writes.**  After any earlier calls, whatever the committed archive holds
then: an entry that the finalization publishes stands on an unoccupied place exactly if nothing
stood above the verified head and a sequence was left behind it. -/
theorem finalize_unoccupied_iff (archive : Files) (profile : Option OperatorProfile)
    (receipts : List (EventId × Bytes)) (retained : List NumberKey)
    (turns : List (Turn WriterCall)) (committed : Files) (request : FinalizeCall)
    (fates : List Fate) (sequence : Nat) (hash : EntryHash) (bytes : Bytes)
    (hpublished : (finalizing { (installation.run
        ⟨installed archive profile receipts retained, none⟩ turns).state with files := committed }
      request fates).state.files.read ⟨.entry sequence hash, false⟩ = some bytes)
    (hnew : committed.read ⟨.entry sequence hash, false⟩ = none) :
    ∃ package, Crypto.decode bytes = .ok (.entry package)
      ∧ package.signedManifest.manifest.chainSequence = sequence
      ∧ (Unoccupied (committedNodes committed) sequence
          package.signedManifest.manifest.previousEntryHash
        ↔ HeadFree request.service.binding.chainId (committedNodes committed)) := by
  have hr := ready_run (ready_installed archive profile receipts retained) turns
  have ho : Orderly { (installation.run
      ⟨installed archive profile receipts retained, none⟩ turns).state with
        files := committed } :=
    ⟨⟨hr.keyed.slot, hr.keyed.draft, hr.keyed.claims, hr.keyed.own⟩, hr.single, hr.owned, hr.known⟩
  rcases files_of_finalizing ho fates rfl hpublished with hold | ⟨_, hm, hp⟩
  · exact absurd (hnew.symm.trans hold) (by simp)
  obtain ⟨rfl, rfl, rfl⟩ := entry_of_mem_pairs hp
  obtain ⟨_, _, package, hc, -, hs, hd, -, -, hse, hpr, -⟩ := hm
  refine ⟨package, hd, hse, ?_⟩
  obtain rfl := rebuildLocalHead_eq_ok hc
  rw [hpr, hs]
  exact unoccupied_iff

end Calls

section Table

/-- The finalization of an incident over an archive, carried through. -/
def carriedThrough (committed : Files) (sequence : Nat) (h : sequence ≤ u64Max := by decide) :
    Installation :=
  let := writerCrypto
  let := writerSealing
  let := plainTexts
  let := openSchema
  let := noEvidence
  (finalizing (tableInstallation committed) (tableFinalize sequence "1" h)
    (List.replicate 60 .answered)).state

theorem finalize_unoccupied_iff_second :
    let := writerCrypto
    let committed : Files := [entryFile 0 0 1]
    (carriedThrough committed 1).files.read ⟨.entry 1 104, false⟩ = some (entryBlob 1 101 4)
      ∧ ∃ package, Crypto.decode (entryBlob 1 101 4) = .ok (.entry package)
        ∧ package.signedManifest.manifest.chainSequence = 1
        ∧ Unoccupied (committedNodes committed) 1
          package.signedManifest.manifest.previousEntryHash := by
  intro _ committed
  have hp : (carriedThrough committed 1).files.read ⟨.entry 1 104, false⟩
      = some (entryBlob 1 101 4) := by decide +kernel
  have hf : HeadFree 2 (committedNodes committed) := ⟨by decide +kernel, by decide +kernel⟩
  obtain ⟨package, hd, hs, hiff⟩ := @finalize_unoccupied_iff writerCrypto plainTexts openSchema
    noEvidence writerSealing committed (some tableProfile) [] [] [] committed (tableFinalize 1 "1")
    (List.replicate 60 .answered) 1 104 (entryBlob 1 101 4) hp (by decide +kernel)
  exact ⟨hp, package, hd, hs, hiff.mpr hf⟩

/-- Entry one is missing below entry two: the finalization fills the place of entry one. -/
theorem finalize_below_present_entry :
    let := writerCrypto
    let committed : Files := [entryFile 0 0 1, entryFile 2 7 3]
    (carriedThrough committed 1).files.read ⟨.entry 1 104, false⟩ = some (entryBlob 1 101 4)
      ∧ committed.read ⟨.entry 1 104, false⟩ = none
      ∧ (∃ node ∈ committedNodes committed, node.chainSequence = 2)
      ∧ ¬ Unoccupied (committedNodes committed) 1 (some 101) := by
  intro _ committed
  have hn : ∃ node ∈ committedNodes committed, node.chainSequence = 2 := by decide +kernel
  refine ⟨by decide +kernel, by decide +kernel, hn, fun h => ?_⟩
  obtain ⟨node, hm, _⟩ := hn
  have := h.above node hm
  omega

end Table

end Einsatzarchiv.Writer
