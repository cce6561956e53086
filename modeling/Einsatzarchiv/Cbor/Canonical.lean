/-
  File:      Einsatzarchiv/Cbor/Canonical.lean
  Subject:   Deterministic CBOR is a canonical form.

  The encoder turns the encoding of an item into the encoding of its normal form.

  * `decides_encodeItem`: the encoder and normal forms.
  * `canonicalReencode_eq_ok`, `validate_eq_ok`: the entry points in terms of items.
  * `reencoding_is_canonical`: re-encoding is idempotent, and its fixed points are the valid inputs.
  * `encodings_not_malleable`: a data item has one valid encoding.
  * `validateOne_frames`: where an item ends does not depend on what surrounds it.
-/
import Einsatzarchiv.Cbor.Scanner

namespace Einsatzarchiv.Cbor

open Lib Lib.Cbor

/-! ## 1. The encoder -/

section Encoding

variable {input : Bytes} {pos stop : Nat}

theorem encodeHead_eq_head (major argument : Nat) :
    encodeHead major argument = head major argument := by
  simp only [encodeHead, head, additional, Nat.lt_succ_iff]
  split_ifs with h
  · simp [width_of_lt (Nat.lt_succ_of_le h), bigEndian]
  all_goals first | omega | simp [width, bigEndian]

/-- The loop over parts, when every part is encoded on its own. -/
theorem decides_encodeParts {α β : Type} {encode : Nat → Except CborError (β × Nat)}
    {write : α → Bytes} {res : α → β} {holds : α → Prop} {parts : List α}
    (he : ∀ part ∈ parts, ∀ {pos stop}, Spans input pos (write part) stop →
      Decides .duplicateKey (encode pos) (holds part) (res part, stop))
    (h : Spans input pos (parts.flatMap write) stop) :
    Decides .duplicateKey (encodeParts encode parts.length pos) (∀ part ∈ parts, holds part)
      (parts.map res, stop) := by
  induction parts generalizing pos with
  | nil =>
    obtain ⟨rfl, -⟩ := spans_nil.mp h
    simp only [List.not_mem_nil, false_implies, implies_true]
    exact decides_pure
  | cons part parts ih =>
    obtain ⟨_, hp, hr⟩ := spans_append.mp h
    refine (he part List.mem_cons_self hp).bind List.forall_mem_cons ?_
    refine (ih (List.forall_mem_cons.mp he).2 hr).bind (and_iff_left trivial).symm ?_
    exact decides_pure

/-- The encoder reads the head of the item. -/
theorem exists_encodeMajor (hinput : input.length ≤ u64Max) {major value : Nat} (hm : major < 8)
    (hv : value ≤ maxArgument) (h : Spans input pos (head major value) stop) :
    ∃ byte middle, head major value = [byte] ++ bigEndian (width (additional value)) value ∧
      Spans input middle (bigEndian (width (additional value)) value) stop ∧
      readArgument input (additional value) middle = .ok (value, stop) ∧
      ∀ fuel, encodeItem input (fuel + 1) pos =
        encodeMajor input (encodeItem input fuel) byte major (additional value) middle := by
  obtain ⟨byte, middle, hb, rfl, hi, hmi, hr⟩ := read_of_spans_head hinput hm hv h
  have hs := readByte_eq_ok.mp hb
  have hre := ((readMinimalArgument_eq_ok hinput hs.stop_le).mp hmi).2
  refine ⟨byte, middle, ?_, hre, hr, fun fuel => ?_⟩
  · rw [head_eq_cons hi.symm, hi]
  · simp only [encodeItem, hb, ok_bind, hi]

/-- The encoding of a map entry. -/
def writeEntry (entry : Item × Item) : Bytes × Bytes := (entry.1.write, entry.2.write)

/-- The entries of a map are sorted as those of its normal form, and a repeated key is found. -/
theorem sorted_entries_distinct (entries : List (Item × Item)) :
    (windows2 (sortByKey (fun entry => keyOrder entry.1)
        (entries.map fun entry => writeEntry (normalizeEntry entry)))).all
      (fun pair => pair.1.1 ≠ pair.2.1) = true ↔ (Item.map entries).KeysDistinct := by
  have hk : ∀ a b : Bytes, a ≠ b ↔ keyOrder a ≠ keyOrder b := fun a b =>
    keyOrder_injective.ne_iff.symm
  rw [List.all_eq_true]
  simp only [decide_eq_true_eq, hk]
  rw [forall_windows2_ne_iff (pairwise_sortByKey _ _),
    (perm_sortByKey _ _).pairwise_iff fun h => Ne.symm h, List.pairwise_map]
  exact (List.pairwise_map (R := fun a b => entryKey a ≠ entryKey b)).symm

theorem decides_encodeEntry {encode : Nat → Except CborError (Bytes × Nat)} {entry : Item × Item}
    {holds holds' : Prop} {key value : Bytes}
    (hk : ∀ {pos stop}, Spans input pos entry.1.write stop →
      Decides .duplicateKey (encode pos) holds (key, stop))
    (hv : ∀ {pos stop}, Spans input pos entry.2.write stop →
      Decides .duplicateKey (encode pos) holds' (value, stop))
    (h : Spans input pos (entry.1.write ++ entry.2.write) stop) :
    Decides .duplicateKey (encodeEntry encode pos) (holds ∧ holds') ((key, value), stop) := by
  obtain ⟨_, hf, hs⟩ := spans_append.mp h
  refine (hk hf).bind Iff.rfl ?_
  refine (hv hs).bind (and_iff_left trivial).symm ?_
  exact decides_pure

theorem write_normalize_array (items : List Item) : (Item.array items).normalize.write =
    head 4 items.length ++ (items.map fun item => item.normalize.write).flatten := by
  rw [normalize_array, Item.write, writeItems_eq_flatMap, List.length_map, List.flatMap_map,
    List.flatMap_def]

theorem write_normalize_map (entries : List (Item × Item)) : (Item.map entries).normalize.write =
    head 5 entries.length ++ (sortByKey (fun entry => keyOrder entry.1)
      (entries.map fun entry => writeEntry (normalizeEntry entry))).flatMap
        fun entry => entry.1 ++ entry.2 := by
  have hs : sortByKey (fun entry => keyOrder entry.1)
      (entries.map fun entry => writeEntry (normalizeEntry entry)) =
        (sortByKey entryKey (entries.map normalizeEntry)).map writeEntry := by
    have hm : (entries.map fun entry => writeEntry (normalizeEntry entry)) =
        (entries.map normalizeEntry).map writeEntry := by
      rw [List.map_map]
      rfl
    rw [hm, sortByKey_map]
    rfl
  rw [hs, normalize_map, Item.write, writeEntries_eq_flatMap, List.flatMap_map,
    (perm_sortByKey _ _).length_eq, List.length_map]
  rfl

/-- **The encoder writes the normal form, or finds a repeated key**; it goes down as many levels as
the item has. -/
theorem decides_encodeItem (hinput : input.length ≤ u64Max) {item : Item} {depth bound fuel : Nat}
    (ha : item.Every (fun level item => item.Argued ∧ level < bound) depth)
    (hf : bound ≤ depth + fuel) (h : Spans input pos item.write stop) :
    Decides .duplicateKey (encodeItem input fuel pos)
      (item.Every (fun _ => Item.KeysDistinct) depth) (item.normalize.write, stop) := by
  induction item using Item.induction generalizing depth fuel pos stop with
    obtain ⟨fuel, rfl⟩ : ∃ rest, fuel = rest + 1 := ⟨fuel - 1, by have := ha.here.2; omega⟩
  | unsigned n | negative n =>
    obtain ⟨byte, mid, -, -, hr, hst⟩ := exists_encodeMajor hinput (by decide) ha.here.1 h
    rw [hst, encodeMajor, hr, ok_bind]
    simp only [encodeHead_eq_head]
    exact decides_pure
  | bytes body | text body =>
    obtain ⟨next, hh, hre⟩ := spans_append.mp h
    obtain ⟨byte, mid, -, -, hr, hst⟩ := exists_encodeMajor hinput (by decide) ha.here.1 hh
    have hsl := (readSlice_eq_ok hinput).mpr ⟨hre, rfl⟩
    rw [hst, encodeMajor, hr, ok_bind]
    simp only [hsl, ok_bind, encodeHead_eq_head]
    exact decides_pure
  | array items ih =>
    rw [every_array] at ha
    obtain ⟨next, hh, hre⟩ := spans_append.mp h
    obtain ⟨byte, mid, -, -, hr, hst⟩ := exists_encodeMajor hinput (by decide) ha.1.1 hh
    rw [writeItems_eq_flatMap] at hre
    have hit : Decides .duplicateKey (encodeParts (encodeItem input fuel) items.length next) _ _ :=
      decides_encodeParts (fun item hi _ _ hs => ih item hi (ha.2 item hi) (by omega) hs) hre
    rw [hst, encodeMajor, hr, ok_bind, write_normalize_array, every_array]
    refine hit.bind and_comm ?_
    simp only [encodeHead_eq_head]
    exact decides_pure
  | map entries ih =>
    rw [every_map] at ha
    obtain ⟨next, hh, hre⟩ := spans_append.mp h
    obtain ⟨byte, mid, -, -, hr, hst⟩ := exists_encodeMajor hinput (by decide) ha.1.1 hh
    rw [writeEntries_eq_flatMap] at hre
    have hen : Decides .duplicateKey
        (encodeParts (encodeEntry (encodeItem input fuel)) entries.length next) _ _ :=
      decides_encodeParts (fun entry he _ _ hs => by
        obtain ⟨hk, hv⟩ := ha.2 entry he
        exact decides_encodeEntry (fun hs => (ih entry he).1 hk (by omega) hs)
          (fun hs => (ih entry he).2 hv (by omega) hs) hs) hre
    rw [hst, encodeMajor, hr, ok_bind, write_normalize_map, every_map, ← sorted_entries_distinct]
    refine hen.bind and_comm ?_
    refine decides_ensure.bind (and_iff_left trivial).symm ?_
    simp only [encodeHead_eq_head]
    exact decides_pure
  | tag _ _ ih =>
    obtain ⟨next, hh, hre⟩ := spans_append.mp h
    obtain ⟨byte, mid, -, -, hr, hst⟩ := exists_encodeMajor hinput (by decide) ha.1.1 hh
    have hc : Decides .duplicateKey (encodeItem input fuel next) _ _ := ih ha.2 (by omega) hre
    rw [hst, encodeMajor, hr, ok_bind, normalize_tag, every_tag, Item.write]
    refine hc.bind and_comm ?_
    simp only [encodeHead_eq_head]
    exact decides_pure
  | simple value =>
    have hv : value < 24 ∨ 32 ≤ value ∧ value < 256 := ha.here.1
    have hm : value ≤ maxArgument := by
      unfold maxArgument
      omega
    obtain ⟨byte, mid, hh, hre, -, hst⟩ := exists_encodeMajor hinput (by decide) hm h
    simp only [hst, Item.normalize, Item.write, hh]
    unfold encodeMajor
    rcases hv with hlt | ⟨_, hlt⟩
    · have hin : additional value = value := by simp [additional, hlt]
      rw [hin, width_of_lt hlt, bigEndian, spans_nil] at hre
      simp only [hin, width_of_lt hlt, bigEndian, hre.1, if_pos (show value ≤ 23 by omega)]
      exact decides_pure
    · have hin : additional value = 24 := by
        unfold additional
        split_ifs <;> omega
      rw [hin] at hre ⊢
      have hb : readByte input mid = .ok (UInt8.ofNat value, stop) := readByte_eq_ok.mpr hre
      simp only [if_neg (show ¬ 24 ≤ 23 by omega), hb, ok_bind]
      exact decides_pure

end Encoding

/-! ## 2. The entry points -/

section EntryPoints

variable [TextRules] {input : Bytes} {limits : ParserLimits}

/-- The items within the limits. -/
structure Admissible (limits : ParserLimits) (item : Item) : Prop where
  budgets : limits.hasNonzeroSecurityBudgets
  fits : item.Every (Fits limits) 0
  total_le : item.size ≤ limits.maxTotalItems

theorem Admissible.wellFormed {item : Item} (h : Admissible limits item) : item.WellFormed :=
  h.fits.imp fun _ _ hf => hf.1

theorem shapeOnly_fits : ShapeOnly (Fits limits) where
  array hl h := ⟨@ShapeOnly.array _ shapeOnly_argued 0 _ _ hl h.1, by
    simpa [hl] using h.2⟩
  map hl h := ⟨@ShapeOnly.map _ shapeOnly_argued 0 _ _ hl h.1, by
    simpa [hl] using h.2⟩
  tag h := h

theorem Admissible.normalize {item : Item} (h : Admissible limits item) :
    Admissible limits item.normalize where
  budgets := h.budgets
  fits := every_normalize shapeOnly_fits h.fits
  total_le := by
    rw [size_normalize]
    exact h.total_le

section

variable (hinput : input.length ≤ u64Max)
include hinput

/-- The scan of a whole input. -/
theorem scanItem_whole_eq_ok {order : Bool}
    {scanner : Scanner} (he : scanner.position = input.length) :
    scanItem input limits order limits.maxDepth ⟨0, 0⟩ = .ok scanner ↔
      ∃ item : Item, input = item.write ∧ Admissible limits item ∧
        (order → item.Ordered) ∧ scanner.totalItems = item.size := by
  have hs : Ready input limits ⟨0, 0⟩ := ⟨Nat.le_refl _, Nat.zero_le _, Nat.zero_le _⟩
  constructor
  · intro h
    have hb := hasNonzeroSecurityBudgets_of_scanItem h
    obtain ⟨item, ha, hav⟩ := (passes_scanItem hinput hb (Nat.zero_add _) hs).mp h
    have hsp := hav.spans
    have ht := hav.total
    have hle := hav.total_le
    rw [he] at hsp
    simp only [Nat.zero_add] at ht
    rw [ht] at hle
    exact ⟨item, (spans_whole.mp hsp).symm,
      ⟨hb, ha.imp fun _ _ h => h.1, hle⟩,
      fun hen => ha.imp fun _ _ h => h.2 hen, ht⟩
  · rintro ⟨item, hw, had, ho, ht⟩
    refine (passes_scanItem hinput had.budgets (Nat.zero_add _) hs).mpr
      ⟨item, had.fits.and_imp ho, ?_, ?_, ?_⟩
    · rw [he]
      exact spans_whole.mpr hw.symm
    · rw [ht, Nat.zero_add]
    · rw [ht]
      exact had.total_le

/-- **`canonical_reencode` accepts the encodings of the admissible items with distinct keys and
returns the encoding of the normal form.** -/
theorem canonicalReencode_eq_ok {output : Bytes} :
    canonicalReencode input limits = .ok output ↔ ∃ item : Item, input = item.write ∧
      Admissible limits item ∧ item.Distinct ∧ output = item.normalize.write := by
  have he : ∀ item : Item, input = item.write → Admissible limits item →
      Yields (encodeItem input input.length 0) item.Distinct (item.normalize.write, input.length) :=
    fun item hw ha => by
      have hl : item.Every _ 0 := ha.wellFormed.level_lt (Nat.zero_add _).le
      exact (decides_encodeItem hinput hl (by simp [hw]) (spans_whole.mpr hw.symm)).yields
  simp only [canonicalReencode, scanRelaxed, ok_iff]
  constructor
  · rintro ⟨-, ⟨_, hs, hen⟩, ⟨_, _⟩, hr, -, -, rfl⟩
    obtain ⟨item, hw, ha, -, -⟩ := (scanItem_whole_eq_ok hinput hen).mp hs
    obtain ⟨hd, heq⟩ := (he item hw ha _).mp hr
    exact ⟨item, hw, ha, hd, congrArg Prod.fst heq⟩
  · rintro ⟨item, hw, ha, hd, rfl⟩
    have hs : scanItem input limits false limits.maxDepth ⟨0, 0⟩ =
        .ok ⟨input.length, item.size⟩ := (scanItem_whole_eq_ok hinput rfl).mpr
      ⟨item, hw, ha, by simp, rfl⟩
    exact ⟨(), ⟨_, hs, rfl⟩, _, (he item hw ha _).mpr ⟨hd, rfl⟩, (),
      rfl, rfl⟩

/-- **`validate` accepts the encodings of the admissible items with ascending keys.** -/
theorem validate_eq_ok : validate input limits = .ok () ↔ ∃ item : Item, input = item.write ∧
      Admissible limits item ∧ item.Ordered := by
  simp only [validate, validateOne, ok_iff, List.drop_zero, checkedAdd_eq_some, Nat.zero_add]
  constructor
  · rintro ⟨_, ⟨-, -, _, hs, _, ⟨rfl, -⟩, -, -, -, -, -, -, rfl⟩, he⟩
    obtain ⟨item, hw, ha, ho, -⟩ := (scanItem_whole_eq_ok hinput he).mp hs
    exact ⟨item, hw, ha, ho rfl⟩
  · rintro ⟨item, hw, ha, ho⟩
    have hs : scanItem input limits true limits.maxDepth ⟨0, 0⟩ =
        .ok ⟨input.length, item.size⟩ := (scanItem_whole_eq_ok hinput rfl).mpr
      ⟨item, hw, ha, fun _ => ho, rfl⟩
    have hc : canonicalReencode input limits = .ok input :=
      (canonicalReencode_eq_ok hinput).mpr ⟨item, hw, ha,
        distinct_of_ordered ho, by rw [normalize_of_ordered ho, hw]⟩
    refine ⟨input.length, ⟨(), Nat.zero_le _, _, hs, _, ⟨rfl, hinput⟩, (), Nat.le_refl _,
      input, ?_, (), ?_, rfl⟩, rfl⟩
    · rw [slice_whole, hc]
    · rw [slice_whole]

end

/-! ## 3. Canonical form -/

/-- **What `canonical_reencode` returns is valid and is returned unchanged by it; and the valid
inputs are those it returns unchanged.**  The length of a slice is a `usize`. -/
theorem reencoding_is_canonical (hinput : input.length ≤ u64Max) :
    (∀ output, canonicalReencode input limits = .ok output →
      validate output limits = .ok () ∧ canonicalReencode output limits = .ok output) ∧
    (validate input limits = .ok () ↔ canonicalReencode input limits = .ok input) := by
  constructor
  · intro output ho
    obtain ⟨item, rfl, ha, hd, rfl⟩ := (canonicalReencode_eq_ok hinput).mp ho
    have hor : item.normalize.Ordered := ordered_normalize hd
    have hl : item.normalize.write.length ≤ u64Max := by
      rw [length_write_normalize]
      exact hinput
    refine ⟨(validate_eq_ok hl).mpr ⟨_, rfl, ha.normalize, hor⟩,
      (canonicalReencode_eq_ok hl).mpr ⟨_, rfl, ha.normalize, distinct_of_ordered hor, ?_⟩⟩
    rw [normalize_of_ordered hor]
  · rw [validate_eq_ok hinput, canonicalReencode_eq_ok hinput]
    constructor
    · rintro ⟨item, hw, ha, hor⟩
      exact ⟨item, hw, ha, distinct_of_ordered hor, by
        rw [normalize_of_ordered hor, hw]⟩
    · rintro ⟨item, rfl, ha, hd, heq⟩
      have hi : item = item.normalize := write_injective ha.wellFormed ha.normalize.wellFormed heq
      exact ⟨item, rfl, ha, hi ▸ ordered_normalize hd⟩

end EntryPoints

/-- The rules on texts of ASCII characters only. -/
abbrev asciiRules : TextRules where
  isUtf8 payload := payload.all (· < 128)
  isNfc _ := true

/-- The map from `"a"` to 2 and from `"b"` to 1, with its entries in both orders. -/
def ascendingMap : Bytes := [0xa2, 0x61, 0x61, 0x02, 0x61, 0x62, 0x01]
/-- A map whose keys do not ascend. -/
def descendingMap : Bytes := [0xa2, 0x61, 0x62, 0x01, 0x61, 0x61, 0x02]

theorem reencode_descendingMap :
    @canonicalReencode asciiRules descendingMap .v1 = .ok ascendingMap := by decide +kernel

theorem reencoding_of_descendingMap_is_canonical : @validate asciiRules ascendingMap .v1 = .ok () ∧
      @canonicalReencode asciiRules ascendingMap .v1 = .ok ascendingMap :=
  (@reencoding_is_canonical asciiRules descendingMap .v1 (by decide)).1 ascendingMap
    reencode_descendingMap

/-- **Accepted encodings are not malleable**: of a data item there is one valid encoding, and the
inputs that `canonical_reencode` maps to one output are those of one data item. -/
theorem encodings_not_malleable [TextRules] {limits : ParserLimits} :
    (∀ a b : Bytes, a.length ≤ u64Max → b.length ≤ u64Max → validate a limits = .ok () →
      validate b limits = .ok () → (denote a).isSome ∧ (denote a = denote b → a = b)) ∧
    (∀ a b outputA outputB : Bytes, a.length ≤ u64Max → b.length ≤ u64Max →
      canonicalReencode a limits = .ok outputA → canonicalReencode b limits = .ok outputB →
      (denote a).isSome ∧ (outputA = outputB ↔ denote a = denote b)) := by
  constructor
  · intro a b hlengthA hlengthB hvalidA hvalidB
    obtain ⟨itemA, rfl, hitemA, horderedA⟩ := (validate_eq_ok hlengthA).mp hvalidA
    obtain ⟨itemB, rfl, hitemB, horderedB⟩ := (validate_eq_ok hlengthB).mp hvalidB
    rw [denote_write hitemA.wellFormed, denote_write hitemB.wellFormed]
    refine ⟨rfl, fun heq => ?_⟩
    have hs := DataItem.of_eq.mp (Option.some.inj heq)
    have hn := hs.normalize_eq (distinct_of_ordered horderedA) (distinct_of_ordered horderedB)
    rw [normalize_of_ordered horderedA, normalize_of_ordered horderedB] at hn
    rw [hn]
  · intro a b outputA outputB hlengthA hlengthB houtputA houtputB
    obtain ⟨itemA, rfl, hitemA, hdistinctA, rfl⟩ := (canonicalReencode_eq_ok hlengthA).mp houtputA
    obtain ⟨itemB, rfl, hitemB, hdistinctB, rfl⟩ := (canonicalReencode_eq_ok hlengthB).mp houtputB
    rw [denote_write hitemA.wellFormed, denote_write hitemB.wellFormed, Option.some_inj,
      DataItem.of_eq, same_iff_normalize_eq hdistinctA hdistinctB]
    exact ⟨rfl, write_injective hitemA.normalize.wellFormed hitemB.normalize.wellFormed,
      congrArg Item.write⟩

theorem encodings_of_ascendingMap_not_malleable : denote descendingMap = denote ascendingMap :=
  ((@encodings_not_malleable asciiRules .v1).2 descendingMap ascendingMap _ _ (by decide)
    (by decide) reencode_descendingMap (by decide +kernel)).2.mp rfl

/-! ## 4. Framing -/

section Framing

variable [TextRules] {input : Bytes} {limits : ParserLimits} {start stop : Nat}

/-- **`validate_one` cuts out one valid encoding.**  Wherever it starts and whatever follows, it
stops at the one position up to which the input is valid for itself, if there is one. -/
theorem validateOne_frames (hinput : input.length ≤ u64Max) :
    validateOne input limits start = .ok stop ↔ start ≤ stop ∧ stop ≤ input.length
      ∧ validate (slice input start stop) limits = .ok () := by
  have hs : ∀ {a b}, (slice input a b).length ≤ u64Max := fun {a b} => by
    simp only [slice, List.length_take, List.length_drop]
    omega
  simp only [validateOne, ok_iff, checkedAdd_eq_some]
  constructor
  · rintro ⟨-, -, _, -, _, ⟨rfl, -⟩, -, hle, output, hc, -, rfl, rfl⟩
    obtain ⟨item, -, ha, hd, hw⟩ := (canonicalReencode_eq_ok hs).mp hc
    exact ⟨Nat.le_add_right _ _, hle, (validate_eq_ok hs).mpr
      ⟨item.normalize, hw, ha.normalize, ordered_normalize hd⟩⟩
  · rintro ⟨hle, hl, hv⟩
    obtain ⟨item, hw, ha, ho⟩ := (validate_eq_ok hs).mp hv
    have hc : canonicalReencode (slice input start stop) limits = .ok (slice input start stop) :=
      (canonicalReencode_eq_ok hs).mpr ⟨item, hw, ha, distinct_of_ordered ho, by
        rw [normalize_of_ordered ho, hw]⟩
    have hsc : scanItem (input.drop start) limits true limits.maxDepth ⟨0, 0⟩
        = .ok ⟨item.write.length, item.size⟩ := by
      refine (passes_scanItem (by rw [List.length_drop]; omega) ha.budgets (Nat.zero_add _)
        ⟨Nat.le_refl _, Nat.zero_le _, Nat.zero_le _⟩).mpr ⟨item, ha.fits.and_imp fun _ => ho, ?_,
        (Nat.zero_add _).symm, ha.total_le⟩
      -- the item stands at the front of what is left
      refine ⟨[], (input.drop start).drop (stop - start), ?_, rfl, (Nat.zero_add _).symm⟩
      rw [← hw, slice, List.nil_append, List.take_append_drop]
    have heq : stop = start + item.write.length := by
      rw [← hw]
      exact (spans_slice hle hl).stop_eq
    exact ⟨(), hle.trans hl, _, hsc, stop, ⟨heq, heq.ge.trans (hl.trans hinput)⟩, (), hl, _, hc, (),
      rfl, rfl⟩

end Framing

theorem validateOne_frames_ascendingMap :
    @validateOne asciiRules ([0] ++ ascendingMap ++ [255]) .v1 1 = .ok 8 :=
  (@validateOne_frames asciiRules _ .v1 1 8 (by decide)).mpr
    ⟨by decide, by decide, by decide +kernel⟩

end Einsatzarchiv.Cbor
