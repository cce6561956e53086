/-
  File:      Einsatzarchiv/Writer/Lasting.lean
  Subject:   What lasts over the runs of an installation, whatever is called and wherever it dies.

  * `numbers_held_once`: no two claims hold one incident number.
  * `claims_held_at_publication_stay`: what a claim holds when a turn publishes, it holds for good.
  * `closed_drafts_stay_closed`: a key that is gone is gone for good.
  * `published_objects_stay`: nothing published is changed or removed.
-/
import Einsatzarchiv.Writer.Exclusion

namespace Einsatzarchiv.Writer

open Lib Format

/-! ## 1. What an effect keeps -/

/-- The claim is not released. -/
def Held (s : Installation) (claim : Claim) : Prop :=
  claim ∈ s.claims ∧ claim.source ∉ s.released

/-- The claims that hold their numbers. -/
structure Numbered [Normalization] (s : Installation) : Prop where
  registered : ∀ claim, Held s claim → claim.key ∈ s.register ∧ claim.key ∉ s.retained
  unique : ∀ claim other, Held s claim → Held s other → claim.key = other.key → claim = other

/-- A claim that holds its number and belongs to no draft that is open. -/
structure Settled (claim : Claim) (s : Installation) : Prop where
  held : Held s claim
  closed : ∀ row ∈ s.draft, row.draftId = claim.draftId → s.slot ≠ some row.key

/-- The key was drawn and is not in the slot. -/
structure Gone (key : Draw) (s : Installation) : Prop where
  drawn : key < s.draws
  away : s.slot ≠ some key

section Effects

variable [Normalization] [EvidenceSource] {lic : Licence} {s t : Installation}

theorem Numbered.of_effect (h : Numbered s) (he : Effect lic s t) : Numbered t := by
  obtain ⟨hr, hu⟩ := h
  cases he with
  | claim row claim _ _ _ _ _ hf =>
    have hc : ∀ other, Held { s with claims := s.claims ++ [claim] } other →
        Held s other ∧ other.key ≠ claim.key ∨ other = claim := by
      rintro other ⟨hm, hn⟩
      rcases List.mem_append.mp hm with hm | hm
      · exact .inl ⟨⟨hm, hn⟩, fun heq => hf.2 (heq ▸ (hr other ⟨hm, hn⟩).1)⟩
      · exact .inr (List.mem_singleton.mp hm)
    refine ⟨fun other ho => ?_, fun other third ho ht heq => ?_⟩
    · rcases hc other ho with ⟨ho, -⟩ | rfl
      · exact ⟨List.mem_cons_of_mem _ (hr other ho).1, (hr other ho).2⟩
      · exact ⟨List.mem_cons_self, hf.1⟩
    · rcases hc other ho, hc third ht with ⟨⟨ho, hn⟩ | rfl, ⟨ht, hn'⟩ | rfl⟩
      · exact hu other third ho ht heq
      · exact absurd heq hn
      · exact absurd heq.symm hn'
      · rfl
  | release claim hc hh =>
    have ho : ∀ other, Held { s with released := claim.source :: s.released } other →
        Held s other ∧ other.source ≠ claim.source := by
      rintro other ⟨hm, hn⟩
      rw [List.mem_cons, not_or] at hn
      exact ⟨⟨hm, hn.2⟩, hn.1⟩
    refine ⟨fun other hn => ?_, fun other third hn ht => ?_⟩
    · obtain ⟨hn, hne⟩ := ho other hn
      refine ⟨List.mem_filter.mpr ⟨(hr other hn).1, decide_eq_true fun heq => ?_⟩, (hr other hn).2⟩
      exact hne (congrArg _ (hu other claim hn ⟨hc, hh⟩ heq))
    · exact hu other third (ho other hn).1 (ho third ht).1
  | _ => exact ⟨hr, hu⟩

theorem Settled.of_effect {claim : Claim} (h : Settled claim s) (hk : Keyed s)
    (he : Effect lic s t) : Settled claim t := by
  obtain ⟨⟨hm, hh⟩, hc⟩ := h
  cases he with
  | wrapKey =>
    refine ⟨⟨hm, hh⟩, fun row hr _ heq => ?_⟩
    exact (hk.draft row hr).1.ne (Option.some.inj heq).symm
  | deleteKey => exact ⟨⟨hm, hh⟩, fun _ _ _ => by simp⟩
  | insertBlank draftId _ _ _ hn | replaceDraft draftId _ _ hn =>
    refine ⟨⟨hm, hh⟩, fun row hr heq => ?_⟩
    obtain rfl := Option.some.inj hr
    exact absurd heq (hn.claims claim hm).ne'
  | save row hd =>
    refine ⟨⟨hm, hh⟩, fun row' hr heq => ?_⟩
    obtain rfl := Option.some.inj hr
    exact hc row hd heq
  | claim => exact ⟨⟨List.mem_append_left _ hm, hh⟩, hc⟩
  | release other _ _ ha =>
    -- only an open draft releases, and only claims of its own
    refine ⟨⟨hm, fun hin => ?_⟩, hc⟩
    have heq := (List.mem_cons.mp hin).resolve_right hh
    obtain ⟨row, hr, hs, hown⟩ := ha
    exact hc row hr (hown claim hm heq).symm hs
  | _ => exact ⟨⟨hm, hh⟩, hc⟩

theorem Gone.of_effect {key : Draw} (h : Gone key s) (he : Effect lic s t) : Gone key t := by
  obtain ⟨hd, ha⟩ := h
  cases he with
  | draw => exact ⟨Nat.lt_succ_of_lt hd, ha⟩
  | wrapKey => exact ⟨Nat.lt_succ_of_lt hd, by simpa using hd.ne'⟩
  | deleteKey => exact ⟨hd, by simp⟩
  | _ => exact ⟨hd, ha⟩

theorem read_stays {path : ArchivePath} {bytes : Bytes} (he : Effect lic s t)
    (hp : path.staging = false) (h : s.files.read path = some bytes) :
    t.files.read path = some bytes := by
  have hne : ∀ target, path ≠ stagingPath target := by
    rintro target rfl
    cases hp
  cases he with
  | stage _ _ _ hs => exact (Files.read_append_staged hs hp).trans h
  | publish target _ _ _ ha =>
    have hr : (s.files.remove (stagingPath target)).read target = none := by
      rw [Files.read_remove, ha, ite_self]
    rw [Files.read_append_singleton hr, if_neg, Files.read_remove, if_neg (hne target), h]
    rintro rfl
    exact absurd (h.symm.trans ha) (by simp)
  | unstage target => rw [Files.read_remove, if_neg (hne target), h]
  | _ => exact h

end Effects

/-! ## 2. What a run keeps -/

section Runs

variable [Crypto] [Normalization] [Schema] [EvidenceSource] [Sealing] {s : Installation}
  {path : ArchivePath} {bytes : Bytes} {turn : Turn WriterCall}

variable (turns more : List (Turn WriterCall))

theorem exists_closed_of_published (hr : Ready s) (hp : path.staging = false)
    (hb : (stateAfter s turns).files.read path = none)
    (ha : (stateAfter s (turns ++ [turn])).files.read path = some bytes) :
    ∃ row, (stateAfter s turns).draft = some row ∧ (stateAfter s turns).slot ≠ some row.key := by
  obtain ⟨he, -⟩ := effect_turn hr turns turn
  obtain ⟨_, -, hno, -⟩ := published_of_effect (ready_run hr turns).staged he hp ha hb
  simpa [Installation.Opens, stateAfter] using hno

variable (archive : Files) (profile : Option OperatorProfile) (receipts : List (EventId × Bytes))
  (retained : List NumberKey)

theorem numbered_stateAfter :
    Numbered (stateAfter (installed archive profile receipts retained) turns) := by
  have h : Numbered (stateAfter (installed archive profile receipts retained) []) :=
    ⟨fun _ h => absurd h.1 List.not_mem_nil, fun _ _ h => absurd h.1 List.not_mem_nil⟩
  exact stateAfter_keeps (ready_installed archive profile receipts retained)
    (fun _ _ _ he hn => hn.of_effect he) h turns

/-- **An incident number is held once.**  At every moment of every run the claims that are not
released hold different numbers of the register, none of them a retained one. -/
theorem numbers_held_once (turns : List (Turn WriterCall)) :
    let s := stateAfter (installed archive profile receipts retained) turns
    ∀ claim, Held s claim → claim.key ∈ s.register ∧ claim.key ∉ s.retained
      ∧ ∀ other, Held s other → claim.key = other.key → claim = other := by
  intro s claim hh
  obtain ⟨hr, hu⟩ := numbered_stateAfter turns archive profile receipts retained
  exact ⟨(hr claim hh).1, (hr claim hh).2, fun other hn => hu claim other hh hn⟩

/-- **A claim held when a turn publishes is held for good.**  The turn may publish any object; the
claim keeps its number through whatever follows, and no other claim ever holds that number. -/
theorem claims_held_at_publication_stay (hpath : path.staging = false)
    (hbefore : (stateAfter (installed archive profile receipts retained) turns).files.read path
      = none)
    (hafter : (stateAfter (installed archive profile receipts retained)
      (turns ++ [turn])).files.read path = some bytes) :
    let state := stateAfter (installed archive profile receipts retained)
    ∀ claim, Held (state turns) claim → Held (state (turns ++ more)) claim
      ∧ claim.key ∈ (state (turns ++ more)).register
      ∧ ∀ other, Held (state (turns ++ more)) other → other.key = claim.key → other = claim := by
  intro state claim hh
  have hr := ready_installed archive profile receipts retained
  obtain ⟨row, hd, hs⟩ := exists_closed_of_published turns hr hpath hbefore hafter
  have hse : Settled claim (state (turns ++ more)) := by
    refine stateAfter_keeps hr (fun _ _ hs he hse => hse.of_effect hs.keyed he)
      ⟨hh, fun row' hrow _ => ?_⟩ more
    rwa [← Option.some.inj (hd.symm.trans hrow)]
  have hn := numbered_stateAfter (turns ++ more) archive profile receipts retained
  exact ⟨hse.held, (hn.registered claim hse.held).1,
    fun other ho heq => hn.unique other claim ho hse.held heq⟩

/-- **A closed draft stays closed.**  A key that does not open its draft at some moment never lies
in the slot again; and where something is published, the draft is closed. -/
theorem closed_drafts_stay_closed (turns more : List (Turn WriterCall)) :
    let state := stateAfter (installed archive profile receipts retained)
    (∀ row ∈ (state turns).draft, (state turns).slot ≠ some row.key →
        (state (turns ++ more)).slot ≠ some row.key)
      ∧ ∀ turn path bytes, path.staging = false → (state turns).files.read path = none →
        (state (turns ++ [turn])).files.read path = some bytes →
          ∃ row ∈ (state turns).draft, (state (turns ++ more)).slot ≠ some row.key := by
  intro state
  have hr := ready_installed archive profile receipts retained
  have hg : ∀ row ∈ (state turns).draft, (state turns).slot ≠ some row.key →
      (state (turns ++ more)).slot ≠ some row.key := fun row hd hs =>
    (stateAfter_keeps hr (fun _ _ _ he hg => Gone.of_effect hg he)
      ⟨((ready_run hr turns).keyed.draft row hd).1, hs⟩ more).away
  refine ⟨hg, fun turn path bytes hp hb ha => ?_⟩
  obtain ⟨row, hd, hs⟩ := exists_closed_of_published turns hr hp hb ha
  exact ⟨row, hd, hg row hd hs⟩

/-- **What is published stays as it is.** -/
theorem published_objects_stay (hpath : path.staging = false)
    (h : (stateAfter (installed archive profile receipts retained) turns).files.read path
      = some bytes) :
    (stateAfter (installed archive profile receipts retained) (turns ++ more)).files.read path
      = some bytes :=
  stateAfter_keeps (ready_installed archive profile receipts retained)
    (fun _ _ _ he hr => read_stays he hpath hr) h more

end Runs

/-- A finalization up to its entry, which the next turn publishes. -/
def unpublished : List (Turn WriterCall) := laterFinalization.take 37

theorem claims_held_at_publication_stay_first : ∃ claim,
    Held (tableRun (tableInstallation []) unpublished) claim
      ∧ ∀ more, Held (tableRun (tableInstallation []) (unpublished ++ more)) claim := by
  have hc : (tableRun (tableInstallation []) unpublished).claims.length = 1
      ∧ (tableRun (tableInstallation []) unpublished).released = [] := by decide +kernel
  obtain ⟨claim, hcl⟩ := List.length_eq_one_iff.mp hc.1
  have hh : Held (tableRun (tableInstallation []) unpublished) claim := by
    rw [Held, hcl, hc.2]
    simp
  exact ⟨claim, hh, fun more => (@claims_held_at_publication_stay writerCrypto plainTexts openSchema
    noEvidence writerSealing ⟨.entry 0 104, false⟩ (entryBlob 0 0 4) (.proceed .answered)
    unpublished more [] (some tableProfile) [] [] rfl (by decide +kernel) (by decide +kernel) claim
    hh).1⟩

theorem published_objects_stay_first :
    let entry turns := (tableRun (tableInstallation []) turns).files.read ⟨.entry 0 104, false⟩
    entry laterFinalization = some (entryBlob 0 0 4)
      ∧ ∀ more, entry (laterFinalization ++ more) = some (entryBlob 0 0 4) := by
  intro entry
  have h : entry laterFinalization = some (entryBlob 0 0 4) := by decide +kernel
  exact ⟨h, fun more => @published_objects_stay writerCrypto plainTexts openSchema noEvidence
    writerSealing _ _ laterFinalization more [] (some tableProfile) [] [] rfl h⟩

end Einsatzarchiv.Writer
