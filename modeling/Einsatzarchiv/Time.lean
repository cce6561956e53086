/-
  File:      Einsatzarchiv/Time.lean
  Subject:   Trusted time (crate `ea-time`).

  * `TrustedTimeState`: a floor and the best independent reference; the reference never lies
    above the floor.
  * `mergeIndependentReferences`, `advanceRegistryFloor`: the two ways the state moves; both only
    move it forward (`TrustedTimeState.Before`).
  * `rank`: the order of preference; the loop of a merge is a supremum in it (`rank_foldl`), so that
    merging is a join (`merge_is_join`).
  * `evaluatePreexistingTime`: the clock against the state.
-/
import Einsatzarchiv.Lib.Guards
import Einsatzarchiv.Types
import Mathlib.Data.Finset.Lattice.Fold
import Mathlib.Data.Int.ConditionallyCompleteOrder
import Mathlib.Data.Prod.Lex
import Mathlib.Order.ConditionallyCompleteLattice.Finset

namespace Einsatzarchiv.Time

open Lib

/-! ## 1. Independent references -/

/-- Where an independent time comes from. -/
inductive IndependentTimeKind
  | receipt | checkpoint | tsa
deriving DecidableEq

def IndependentTimeKind.tag : IndependentTimeKind → Nat
  | .receipt => 0
  | .checkpoint => 1
  | .tsa => 2

theorem IndependentTimeKind.tag_injective : Function.Injective tag := by
  intro a b h
  cases a <;> cases b <;> simp_all [tag]

/-- A verified time with the object it comes from; also the input of a merge. -/
structure IndependentTimeReference where
  kind : IndependentTimeKind
  objectHash : ObjectHash
  verifiedTime : Int
deriving DecidableEq

/-- The later time is preferred, then the smaller kind, then the smaller hash. -/
def IndependentTimeReference.isPreferredTo (a b : IndependentTimeReference) : Bool :=
  b.verifiedTime < a.verifiedTime
    || (a.verifiedTime = b.verifiedTime
      && (a.kind.tag < b.kind.tag || (a.kind = b.kind && a.objectHash < b.objectHash)))

/-- The order of preference as the order of a key. -/
def IndependentTimeReference.key (reference : IndependentTimeReference) :
    Int ×ₗ Natᵒᵈ ×ₗ ObjectHashᵒᵈ :=
  toLex (reference.verifiedTime, toLex (.toDual reference.kind.tag, .toDual reference.objectHash))

/-- Preference is an order on the keys. -/
theorem IndependentTimeReference.isPreferredTo_iff {a b : IndependentTimeReference} :
    a.isPreferredTo b = true ↔ b.key < a.key := by
  simp [isPreferredTo, key, Prod.Lex.toLex_lt_toLex, IndependentTimeKind.tag_injective.eq_iff,
    @eq_comm _ b.verifiedTime, @eq_comm _ b.kind]

theorem IndependentTimeReference.key_injective : Function.Injective key := by
  rintro ⟨_, _, _⟩ ⟨_, _, _⟩ h
  simpa [key, IndependentTimeKind.tag_injective.eq_iff, and_comm, and_left_comm, and_assoc] using h

/-- The rank of an optional reference; none has the least. -/
def rank : Option IndependentTimeReference → WithBot (Int ×ₗ Natᵒᵈ ×ₗ ObjectHashᵒᵈ)
  | none => ⊥
  | some reference => reference.key

theorem rank_injective : Function.Injective rank := by
  rintro (_ | a) (_ | b) h
  · rfl
  · cases h
  · cases h
  · rw [IndependentTimeReference.key_injective (WithBot.coe_injective h)]

/-- `new` does not fall behind `old`: it is the same, or preferred, and never dropped. -/
def KeepsReference (old new : Option IndependentTimeReference) : Prop :=
  ∀ reference ∈ old, ∃ reference' ∈ new,
    reference' = reference ∨ reference'.isPreferredTo reference = true

/-- To keep a reference is to not fall in rank. -/
theorem keepsReference_iff {old new : Option IndependentTimeReference} :
    KeepsReference old new ↔ rank old ≤ rank new := by
  cases old with
  | none => simp [KeepsReference, rank]
  | some a =>
    cases new with
    | none => simp [KeepsReference, rank]
    | some b =>
      have hle : rank (some a) ≤ rank (some b) ↔ a = b ∨ a.key < b.key := by
        rw [← IndependentTimeReference.key_injective.eq_iff, ← le_iff_eq_or_lt]
        exact WithBot.coe_le_coe
      rw [hle, @eq_comm _ a]
      simp [KeepsReference, IndependentTimeReference.isPreferredTo_iff]

theorem KeepsReference.refl (reference : Option IndependentTimeReference) :
    KeepsReference reference reference := keepsReference_iff.mpr le_rfl

theorem KeepsReference.trans {a b c : Option IndependentTimeReference}
    (hab : KeepsReference a b) (hbc : KeepsReference b c) : KeepsReference a c := by
  rw [keepsReference_iff] at *
  exact hab.trans hbc

/-! ## 2. The trusted time -/

/-- The constructors of the source reject or never produce a reference above the floor, so that
its `validate` always succeeds. -/
structure TrustedTimeState where
  floor : Int
  independentReference : Option IndependentTimeReference
  reference_le : ∀ r ∈ independentReference, r.verifiedTime ≤ floor
deriving DecidableEq

/-- A floor and no independent time yet. -/
def TrustedTimeState.initial (floor : Int) : TrustedTimeState where
  floor := floor
  independentReference := none
  reference_le := by simp

/-- A later state: neither the floor nor the reference falls behind. -/
structure TrustedTimeState.Before (old new : TrustedTimeState) : Prop where
  floor_le : old.floor ≤ new.floor
  keeps : KeepsReference old.independentReference new.independentReference

theorem TrustedTimeState.Before.refl (state : TrustedTimeState) : state.Before state :=
  ⟨le_rfl, .refl _⟩

theorem TrustedTimeState.Before.trans {a b c : TrustedTimeState} (hab : a.Before b)
    (hbc : b.Before c) : a.Before c :=
  ⟨hab.floor_le.trans hbc.floor_le, hab.keeps.trans hbc.keeps⟩

section

variable (selected : Option IndependentTimeReference) (candidate : IndependentTimeReference)

/-- The better of the current reference and a candidate. -/
def preferReference : Option IndependentTimeReference :=
  if selected.all (candidate.isPreferredTo ·) then some candidate else selected

/-- The preferred one is the maximum. -/
theorem rank_preferReference :
    rank (preferReference selected candidate) = rank selected ⊔ rank (some candidate) := by
  unfold preferReference
  cases selected with
  | none => simp [rank]
  | some cur =>
    by_cases h : candidate.isPreferredTo cur = true
    · have hlt := IndependentTimeReference.isPreferredTo_iff.mp h
      simp [rank, h, hlt.le]
    · have hle := not_lt.mp (mt IndependentTimeReference.isPreferredTo_iff.mpr h)
      simp [rank, h, hle]

end

/-- The loop over references ends with the best of them. -/
theorem rank_foldl (selected : Option IndependentTimeReference)
    (inputs : List IndependentTimeReference) :
    rank (inputs.foldl preferReference selected)
      = rank selected ⊔ inputs.toFinset.sup (rank <| some ·) := by
  induction inputs generalizing selected with
  | nil => simp
  | cons _ inputs ih =>
    rw [List.foldl_cons, ih, rank_preferReference, List.toFinset_cons, Finset.sup_insert, sup_assoc]

/-- `merge_independent_references`: the best of all references and the floor it lifts. -/
def mergeIndependentReferences (persisted : TrustedTimeState)
    (inputs : List IndependentTimeReference) : TrustedTimeState :=
  let selected := inputs.foldl preferReference persisted.independentReference
  { floor := selected.elim persisted.floor fun reference =>
      max persisted.floor reference.verifiedTime
    independentReference := selected
    reference_le := by
      intro r hr
      simp [Option.mem_def.mp hr] }

/-- `advance_registry_floor`. -/
def advanceRegistryFloor (state : TrustedTimeState) (issuedAt notBefore : Int) :
    TrustedTimeState where
  floor := max (max state.floor issuedAt) notBefore
  independentReference := state.independentReference
  reference_le r hr := le_max_of_le_left (le_max_of_le_left (state.reference_le r hr))

/-- A merge goes forward. -/
theorem before_mergeIndependentReferences (persisted : TrustedTimeState)
    (inputs : List IndependentTimeReference) :
    persisted.Before (mergeIndependentReferences persisted inputs) where
  floor_le := by
    simp only [mergeIndependentReferences]
    cases inputs.foldl preferReference persisted.independentReference with
    | none => exact le_rfl
    | some _ => exact le_max_left _ _
  keeps := keepsReference_iff.mpr (le_sup_left.trans_eq (rank_foldl _ inputs).symm)

/-- So does a new floor. -/
theorem before_advanceRegistryFloor (state : TrustedTimeState) (issuedAt notBefore : Int) :
    state.Before (advanceRegistryFloor state issuedAt notBefore) where
  floor_le := le_max_of_le_left (le_max_left _ _)
  keeps := .refl _

/-! ## 3. Merging is a join -/

/-- `TimeAdvance::changed`: a merge has replaced the reference. -/
def mergeChanges (persisted : TrustedTimeState) (inputs : List IndependentTimeReference) : Bool :=
  (mergeIndependentReferences persisted inputs).independentReference
    ≠ persisted.independentReference

section

variable (persisted : TrustedTimeState) (inputs : List IndependentTimeReference)

/-- What is merged depends on the set of the inputs only. -/
theorem merge_congr {others : List IndependentTimeReference}
    (h : ∀ input, input ∈ others ↔ input ∈ inputs) :
    mergeIndependentReferences persisted others = mergeIndependentReferences persisted inputs := by
  have hs : others.foldl preferReference persisted.independentReference
      = inputs.foldl preferReference persisted.independentReference := by
    apply rank_injective
    rw [rank_foldl, rank_foldl, List.toFinset.ext h]
  simp only [mergeIndependentReferences, hs]

/-- Two merges are one. -/
theorem merge_append (others : List IndependentTimeReference) :
    mergeIndependentReferences (mergeIndependentReferences persisted inputs) others
      = mergeIndependentReferences persisted (inputs ++ others) := by
  have hk := (before_mergeIndependentReferences
    (mergeIndependentReferences persisted inputs) others).keeps
  simp only [mergeIndependentReferences, List.foldl_append, TrustedTimeState.mk.injEq,
    and_true] at hk ⊢
  cases hf : inputs.foldl preferReference persisted.independentReference with
  | none => rfl
  | some first =>
    rw [hf] at hk
    obtain ⟨last, hl, hle⟩ := hk first rfl
    have hla : first.verifiedTime ≤ last.verifiedTime := by
      rcases hle with rfl | hp
      · exact le_rfl
      · simp only [IndependentTimeReference.isPreferredTo, Bool.or_eq_true, Bool.and_eq_true,
          decide_eq_true_eq] at hp
        omega
    rw [Option.mem_def.mp hl]
    exact (max_assoc _ _ _).trans (congrArg _ (max_eq_right hla))

theorem merge_nil : mergeIndependentReferences persisted [] = persisted := by
  obtain ⟨_, ref, hle⟩ := persisted
  cases ref with
  | none => rfl
  | some ref => simp [mergeIndependentReferences, hle ref rfl]

/-- One by one or all at once. -/
theorem foldl_merge : inputs.foldl (fun state input => mergeIndependentReferences state [input])
    persisted = mergeIndependentReferences persisted inputs := by
  induction inputs generalizing persisted with
  | nil => exact (merge_nil persisted).symm
  | cons input inputs ih =>
    rw [List.foldl_cons, ih]
    exact merge_append persisted [input] inputs

/-- The selected reference is one of those given. -/
theorem foldl_preferReference_mem (selected : Option IndependentTimeReference) :
    inputs.foldl preferReference selected ∈ selected :: inputs.map some := by
  induction inputs generalizing selected with
  | nil => exact List.mem_singleton_self _
  | cons input inputs ih =>
    have hc : preferReference selected input ∈ [selected, some input] := by
      unfold preferReference
      split <;> simp
    have := ih (preferReference selected input)
    grind

/-- **Merging is a join.**  The inputs may come at once or one by one, in any order and repeatedly;
the reference is the best of the old one and the inputs, the floor lies above it and never falls,
a second merge changes nothing, and the floor of a registry may be advanced before or after. -/
theorem merge_is_join (persisted : TrustedTimeState) (inputs : List IndependentTimeReference) :
    let merged := mergeIndependentReferences persisted inputs
    let candidates := persisted.independentReference :: inputs.map some
    (∀ others : List IndependentTimeReference, (∀ input, input ∈ others ↔ input ∈ inputs) →
      mergeIndependentReferences persisted others = merged ∧
      others.foldl (fun state input => mergeIndependentReferences state [input]) persisted
        = merged) ∧
    persisted.floor ≤ merged.floor ∧
    (∀ reference ∈ merged.independentReference, reference.verifiedTime ≤ merged.floor) ∧
    merged.independentReference ∈ candidates ∧
    (∀ candidate ∈ candidates, KeepsReference candidate merged.independentReference) ∧
    mergeIndependentReferences merged inputs = merged ∧ mergeChanges merged inputs = false ∧
    ∀ issuedAt notBefore,
      mergeIndependentReferences (advanceRegistryFloor persisted issuedAt notBefore) inputs
        = advanceRegistryFloor merged issuedAt notBefore := by
  have ha : mergeIndependentReferences (mergeIndependentReferences persisted inputs) inputs
      = mergeIndependentReferences persisted inputs := by
    rw [merge_append]
    exact merge_congr persisted inputs (by simp)
  refine ⟨fun others h => ⟨merge_congr persisted inputs h, ?_⟩,
    (before_mergeIndependentReferences ..).floor_le, TrustedTimeState.reference_le _,
    foldl_preferReference_mem inputs _, fun candidate hc => ?_, ha, ?_,
    fun issuedAt notBefore => ?_⟩
  · rw [foldl_merge]
    exact merge_congr persisted inputs h
  · refine keepsReference_iff.mpr (le_of_le_of_eq ?_ (rank_foldl _ inputs).symm)
    rcases List.mem_cons.mp hc with rfl | hi
    · exact le_sup_left
    · obtain ⟨input, hm, rfl⟩ := List.mem_map.mp hi
      exact le_sup_of_le_right (Finset.le_sup (f := (rank <| some ·)) (List.mem_toFinset.mpr hm))
  · simp [mergeChanges, ha]
  · simp only [mergeIndependentReferences, advanceRegistryFloor, TrustedTimeState.mk.injEq,
      and_true]
    cases inputs.foldl preferReference persisted.independentReference with
    | none => rfl
    | some reference =>
      dsimp only [Option.elim]
      omega

end

/-! ## 4. Evaluation -/

inductive TimeError
  | overflow | stateMonotonicity

/-- How far the wall clock runs ahead of the last independent time. -/
inductive FutureSkew
  | withinLimit | unprovableWithoutIndependentReference | blocked
deriving DecidableEq

/-- What `evaluate` says about a wall clock. -/
structure TimeEvaluation where
  rawNow : Int
  (clockRollback independentTimeUnavailable : Bool)
  futureSkew : FutureSkew
deriving DecidableEq

/-- The sum of a time and a delta, which has to be an `i64`. -/
def checkedAddMillis (time : Int) (delta : Nat) : Except TimeError Int := do
  ensure (time + delta ≤ i64Max) .overflow
  return time + delta

/-- How far the clock runs ahead of the independent reference. -/
def futureSkew (osWallClock : Int) (reference : Option IndependentTimeReference)
    (maxFutureClockSkewMs : Nat) : Except TimeError FutureSkew :=
  match reference with
  | none => .ok .unprovableWithoutIndependentReference
  | some reference => do
      let limit ← checkedAddMillis reference.verifiedTime maxFutureClockSkewMs
      return if osWallClock ≤ limit then .withinLimit else .blocked

/-- `evaluate_preexisting_time`. -/
def evaluatePreexistingTime (osWallClock : Int) (state : TrustedTimeState)
    (maxFutureClockSkewMs : Nat) : Except TimeError TimeEvaluation := do
  let skew ← futureSkew osWallClock state.independentReference maxFutureClockSkewMs
  return {
    rawNow := max osWallClock state.floor
    clockRollback := osWallClock < state.floor
    independentTimeUnavailable := state.independentReference.isNone
    futureSkew := skew }

/-- The evaluated time never lies below the floor. -/
theorem floor_le_rawNow {clock : Int} {state : TrustedTimeState} {skew : Nat}
    {evaluation : TimeEvaluation} (h : evaluatePreexistingTime clock state skew = .ok evaluation) :
    state.floor ≤ evaluation.rawNow := by
  simp only [evaluatePreexistingTime, ok_iff] at h
  obtain ⟨-, -, rfl⟩ := h
  exact le_max_right _ _

end Einsatzarchiv.Time
