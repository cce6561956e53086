/-
  File:      Einsatzarchiv/Cbor/Licence.lean
  Subject:   The relaxed scan, and what it licenses the encoder to do.

  * `visits`: the items that a scan takes up, also those of an input that it refuses.
  * `bounded_visits`: they are within the limit and within the input.
  * **`scan_licenses_encoder`**: after a scan the encoder can only find a repeated key.
-/
import Einsatzarchiv.Cbor.Canonical

namespace Einsatzarchiv.Cbor

open Lib Lib.Cbor

/-! ## 1. The items a scan takes up -/

/-- The items of a loop, up to the first that is refused. -/
def visitItems (scan : Scanner → Except CborError Scanner) (visit : Scanner → List Scanner) :
    Nat → Scanner → List Scanner
  | 0, _ => []
  | count + 1, scanner => visit scanner ++
      match scan scanner with
      | .ok next => visitItems scan visit count next
      | .error _ => []

section

variable [TextRules] (input : Bytes) (limits : ParserLimits)

/-- How many items follow the head at a scanner, and from where on.  The relaxed scan compares no
keys: the entries of a map are a row of items. -/
def announced (scanner : Scanner) : Except CborError (Nat × Nat) := do
  let (initial, position) ← readByte input scanner.position
  let (value, position) ← readMinimalArgument input (initial.toNat % 32) position
  let major := initial.toNat / 32
  ensure (major = 6 ∨ value ≤ limits.maxContainerItems) .containerLimit
  return (if major = 4 then value else if major = 5 then 2 * value else if major = 6 then 1 else 0,
    position)

/-- An item is taken up if `scan_item` counts it; `inner` takes up its parts. -/
def visitStep (inner : Option ((Scanner → Except CborError Scanner) × (Scanner → List Scanner)))
    (scanner : Scanner) : List Scanner :=
  match countItem limits scanner with
  | .ok totalItems =>
    scanner :: match inner, announced input limits scanner with
      | some (scan, visit), .ok (count, start) => visitItems scan visit count ⟨start, totalItems⟩
      | _, _ => []
  | .error _ => []

/-- The scanners at which the relaxed `scan_item` takes up an item. -/
def visits : Nat → Scanner → List Scanner
  | 0 => visitStep input limits none
  | room + 1 => visitStep input limits (some (scanItem input limits false room, visits room))

end

/-! ## 2. Their number -/

section

variable {input : Bytes} {limits : ParserLimits} {s s' : Scanner}
  {scan : Scanner → Except CborError Scanner} {visit : Scanner → List Scanner} {count : Nat}

/-- The items from a scanner on are within the limit and within the input. -/
def Bounded (input : Bytes) (limits : ParserLimits) (scan : Scanner → Except CborError Scanner)
    (visit : Scanner → List Scanner) : Prop :=
  ∀ s, Ready input limits s → s.totalItems + (visit s).length ≤ limits.maxTotalItems
    ∧ (∀ v ∈ visit s, v.position ≤ input.length)
    ∧ ∀ s', scan s = .ok s' → s.totalItems + (visit s).length = s'.totalItems

theorem bounded_items (hb : Bounded input limits scan visit)
    (hr : ∀ s s', Ready input limits s → scan s = .ok s' → Ready input limits s') (count : Nat) :
    Bounded input limits (scanItems scan count) (visitItems scan visit count) := by
  intro s hs
  induction count generalizing s with
  | zero => exact ⟨hs.total_le, by simp [visitItems], fun s' h => by cases h; rfl⟩
  | succ count ih =>
    obtain ⟨hle, hin, hok⟩ := hb s hs
    simp only [visitItems, scanItems]
    cases h : scan s with
    | error e => exact ⟨by simpa using hle, by simpa using hin, fun _ h => by cases h⟩
    | ok next =>
      obtain ⟨hle', hin', hok'⟩ := ih next (hr s next hs h)
      have hn := hok next h
      simp only [List.length_append, List.forall_mem_append, ok_bind]
      exact ⟨by omega, ⟨hin, hin'⟩, fun s' h => by have := hok' s' h; omega⟩

theorem scanEntries_relaxed (key : Option (Nat × Nat)) :
    scanEntries input false scan count key s = scanItems scan (2 * count) s := by
  induction count generalizing s with
  | zero => rfl
  | succ count ih => simp [scanEntries, nextKey, Nat.mul_succ, scanItems, ih]

theorem announced_le (hip : input.length ≤ u64Max) {start : Nat}
    (h : announced input limits s = .ok (count, start)) :
    s.position < start ∧ start ≤ input.length := by
  simp only [announced, ok_iff, Prod.exists] at h
  obtain ⟨_, _, hb, _, _, hv, -, -, -, rfl⟩ := h
  have hs := readByte_eq_ok.mp hb
  have hs' := ((readMinimalArgument_eq_ok hip hs.stop_le).mp hv).2
  have hst := hs.stop_eq
  have hst' := hs'.stop_eq
  rw [List.length_singleton] at hst
  exact ⟨by omega, hs'.stop_le⟩

variable [TextRules]

/-- Behind the head the relaxed scan is a loop over the announced items. -/
theorem announced_of_scanStep {inner : Option (Scanner → Except CborError Scanner)}
    (h : scanStep input limits false inner s = .ok s') :
    countItem limits s = .ok (s.totalItems + 1)
      ∧ ((∀ count start, announced input limits s = .ok (count, start) → 0 = count)
          ∧ s.totalItems + 1 = s'.totalItems
        ∨ ∃ scan ∈ inner, ∃ count start, announced input limits s = .ok (count, start)
          ∧ scanItems scan count ⟨start, s.totalItems + 1⟩ = .ok s') := by
  simp only [scanStep, ok_iff, Prod.exists] at h
  obtain ⟨_, hc, initial, pos, hr, h⟩ := h
  obtain ⟨-, rfl, -⟩ := countItem_eq_ok.mp hc
  refine ⟨hc, ?_⟩
  simp only [announced, hr, ok_bind]
  generalize initial.toNat / 32 = major at h ⊢
  unfold scanMajor at h
  split at h <;> try simp only [readContainerLength, ok_iff, Prod.exists, scanEntries_relaxed] at h
  · obtain ⟨_, _, -, rfl⟩ := h
    exact .inl ⟨by simp, rfl⟩
  · obtain ⟨_, _, -, rfl⟩ := h
    exact .inl ⟨by simp, rfl⟩
  · obtain ⟨_, _, -, -, -, _, _, -, -, -, rfl⟩ := h
    exact .inl ⟨by simp, rfl⟩
  · obtain ⟨_, _, -, -, -, _, _, -, -, -, rfl⟩ := h
    exact .inl ⟨by simp, rfl⟩
  · obtain ⟨_, _, ⟨_, _, hr, -, hm, rfl, rfl⟩, scan, hscan, h⟩ := h
    exact .inr ⟨scan, hscan, _, _, by simp [hr, hm, ensure, ok_bind], h⟩
  · obtain ⟨_, _, ⟨_, _, hr, -, hm, rfl, rfl⟩, scan, hscan, h⟩ := h
    exact .inr ⟨scan, hscan, _, _, by simp [hr, hm, ensure, ok_bind], h⟩
  · obtain ⟨_, _, hr, scan, hscan, h⟩ := h
    exact .inr ⟨scan, hscan, 1, _, by simp [hr, ensure, ok_bind]; rfl, by simp [scanItems, h]⟩
  · obtain ⟨_, -, rfl⟩ := h
    exact .inl ⟨by simp, rfl⟩
  · cases h

theorem bounded_step (hip : input.length ≤ u64Max)
    {inner : Option ((Scanner → Except CborError Scanner) × (Scanner → List Scanner))}
    (hi : ∀ p ∈ inner, Bounded input limits p.1 p.2
      ∧ ∀ s s', Ready input limits s → p.1 s = .ok s' → Ready input limits s') :
    Bounded input limits (scanStep input limits false (inner.map Prod.fst))
      (visitStep input limits inner) := by
  intro s hs
  unfold visitStep
  split
  next hc =>
    obtain ⟨-, rfl, -, hle⟩ := countItem_eq_ok.mp hc
    simp only [List.length_cons, List.forall_mem_cons]
    split
    next scan visit count start ha =>
      obtain ⟨hlo, hhi⟩ := announced_le hip ha
      obtain ⟨hp, hrd⟩ := hi _ rfl
      have hct := hs.counted
      obtain ⟨hn, hv, hok⟩ :=
        bounded_items hp hrd count ⟨start, s.totalItems + 1⟩ ⟨by simp only; omega, hhi, hle⟩
      simp only at hn hok
      refine ⟨by omega, ⟨hs.position_le, hv⟩, fun s' h => ?_⟩
      obtain ⟨-, ⟨h, hl⟩ | ⟨_, ⟨⟩, _, _, h, hl⟩⟩ := announced_of_scanStep h
      · obtain rfl := h count start ha
        exact hl
      · cases ha.symm.trans h
        have := hok s' hl
        omega
    next hno =>
      refine ⟨hle, ⟨hs.position_le, nofun⟩, fun s' h => ?_⟩
      obtain ⟨-, ⟨-, hl⟩ | ⟨_, hscan, count, start, h, -⟩⟩ := announced_of_scanStep h
      · exact hl
      · obtain ⟨⟨scan, visit⟩, hp, -⟩ := Option.map_eq_some_iff.mp hscan
        exact absurd h (hno scan visit count start hp)
  next hc =>
    refine ⟨hs.total_le, nofun, fun s' h => ?_⟩
    cases hc.symm.trans (announced_of_scanStep h).1

theorem bounded_visits (hip : input.length ≤ u64Max) {depth room : Nat}
    (hr : depth + room = limits.maxDepth) :
    Bounded input limits (scanItem input limits false room) (visits input limits room) := by
  induction room generalizing depth with
  | zero => exact bounded_step hip fun _ h => nomatch h
  | succ room ih =>
    refine bounded_step hip ?_
    rintro _ ⟨⟩
    refine ⟨ih (show depth + 1 + room = _ by omega), fun s s' hs h => ?_⟩
    have hb := hasNonzeroSecurityBudgets_of_scanItem h
    obtain ⟨item, -, ha⟩ := (passes_scanItem hip hb (show depth + 1 + room = _ by omega) hs).mp h
    exact ha.ready_item hs

end

/-! ## 3. The encoder after the scan -/

section

variable [TextRules] {input : Bytes} {limits : ParserLimits}

/-- No item within an admissible item is deeper than the limit. -/
theorem Admissible.level_lt {item : Item} (h : Admissible limits item) :
    item.Every (fun level item => item.Argued ∧ level < limits.maxDepth + 1) 0 := by
  have hi : Inherited fun level item =>
      item.Every (Fits limits) level ∧ level ≤ limits.maxDepth := {
    array h item hi := ⟨inherited_every.array h.1 item hi, h.1.here.2.2⟩
    map h entry he := by
      have ⟨hk, hv⟩ := inherited_every.map h.1 entry he
      exact ⟨⟨hk, h.1.here.2.2⟩, hv, h.1.here.2.2⟩
    tag h := ⟨h.1.2, h.1.here.2⟩ }
  exact hi.every ⟨h.fits, Nat.zero_le _⟩ fun _ _ h => ⟨h.1.here.1, Nat.lt_succ_of_le h.2⟩

/-- **After a relaxed scan the encoder consumes the whole input and writes as many bytes, or it
finds a repeated key; it goes down at most one level more than the depth allowed.  The scan takes
up no more items than allowed, none of them beyond the input, whatever the input is; if it accepts,
they are the items it has counted.**  The length of a slice is a `usize`. -/
theorem scan_licenses_encoder (hinput : input.length ≤ u64Max) :
    (scanRelaxed input limits = .ok () → ∃ result : Except CborError (Bytes × Nat),
      (∀ fuel, limits.maxDepth + 1 ≤ fuel → encodeItem input fuel 0 = result)
        ∧ (result = .error .duplicateKey
          ∨ ∃ output, result = .ok (output, input.length) ∧ output.length = input.length))
      ∧ (visits input limits limits.maxDepth ⟨0, 0⟩).length ≤ limits.maxTotalItems
      ∧ (∀ v ∈ visits input limits limits.maxDepth ⟨0, 0⟩, v.position ≤ input.length)
      ∧ (∀ scanner, scanItem input limits false limits.maxDepth ⟨0, 0⟩ = .ok scanner →
        (visits input limits limits.maxDepth ⟨0, 0⟩).length = scanner.totalItems)
      ∧ ∀ length position part stop, readSlice input length position = .ok (part, stop) →
        stop ≤ input.length := by
  refine ⟨fun h => ?_, ?_⟩
  · simp only [scanRelaxed, ok_iff] at h
    obtain ⟨_, hs, he⟩ := h
    obtain ⟨item, hw, ha, -, -⟩ := (scanItem_whole_eq_ok hinput he).mp hs
    have hd {fuel : Nat} (hf : limits.maxDepth + 1 ≤ fuel) :=
      decides_encodeItem hinput ha.level_lt (hf.trans (Nat.le_add_left _ _))
        (spans_whole.mpr hw.symm)
    by_cases hk : item.Every (fun _ => Item.KeysDistinct) 0
    · exact ⟨_, fun fuel hf => (hd hf).1 hk, .inr ⟨_, rfl, by rw [length_write_normalize, hw]⟩⟩
    · exact ⟨_, fun fuel hf => (hd hf).2 hk, .inl rfl⟩
  · have hr : Ready input limits ⟨0, 0⟩ := ⟨le_rfl, Nat.zero_le _, Nat.zero_le _⟩
    obtain ⟨hn, hv, hc⟩ := bounded_visits hinput (Nat.zero_add _) _ hr
    refine ⟨by simpa using hn, hv, fun scanner h => by simpa using hc scanner h,
      fun length position part stop h => ?_⟩
    exact ((readSlice_eq_ok hinput).mp h).1.stop_le

end

/-- The map `{"b": 1, "a": 2}` is scanned and written in order. -/
theorem scan_licenses_descendingMap :
    let := asciiRules
    descendingMap.length ≤ u64Max ∧ scanRelaxed descendingMap .v1 = .ok ()
      ∧ (visits descendingMap .v1 16 ⟨0, 0⟩).length ≤ 10000 := by
  intro
  exact ⟨by decide, by decide, (scan_licenses_encoder (by decide)).2.1⟩

end Einsatzarchiv.Cbor
