/-
  File:      Einsatzarchiv/Cbor/Scanner.lean
  Subject:   What the scanner accepts: the encodings of items that keep the limits.

  * `readMinimalArgument_eq_ok`, `read_of_spans_head`: the scanner reads shortest heads.
  * `Fits`, `Accepts`: the limits and, where it is enforced, the order of the keys.
  * `scanItems_eq_ok`, `scanEntries_eq_ok`: the loops over the items of a container.
  * `passes_scanItem`: what is accepted are the encodings of the accepted items within the budget.
-/
import Einsatzarchiv.Cbor.Codec

namespace Einsatzarchiv.Cbor

open Lib Lib.Cbor

/-! ## 1. Reading heads -/

variable {major : Nat}

section Reading

variable {input : Bytes} {pos stop : Nat}

variable {byte : UInt8} {value info : Nat}

theorem readByte_eq_ok : readByte input pos = .ok (byte, stop) ↔ Spans input pos [byte] stop := by
  simp only [readByte, ok_iff, spans_singleton]
  constructor
  · rintro ⟨_, hg, rfl, rfl⟩
    exact ⟨hg, rfl⟩
  · rintro ⟨hg, rfl⟩
    exact ⟨byte, hg, rfl, rfl⟩

theorem additional_eq_iff : value ≤ maxArgument ∧ additional value = info ↔
    info ≤ 27 ∧ (info ≤ 23 → value = info) ∧ (24 ≤ info → value < 256 ^ width info) ∧
      leastArgument info ≤ value := by
  unfold maxArgument
  constructor
  · rintro ⟨_, rfl⟩
    unfold additional
    split_ifs with h
    · have hl : leastArgument value = 0 := by
        unfold leastArgument
        split <;> omega
      omega
    all_goals
      simp only [width, leastArgument]
      omega
  · rintro ⟨_, hsm, hw, hl⟩
    by_cases h : info ≤ 23
    · obtain rfl := hsm h
      simp only [additional, show value < 24 by omega, if_true, and_true]
      omega
    · obtain rfl | rfl | rfl | rfl : info = 24 ∨ info = 25 ∨ info = 26 ∨ info = 27 := by omega
      all_goals
        simp only [width, leastArgument] at hw hl
        unfold additional
        split_ifs <;> omega

/-- The head of a byte and an argument that needs its additional information. -/
theorem head_eq_cons (h : additional value = byte.toNat % 32) :
    head (byte.toNat / 32) value = [byte] ++ bigEndian (width (byte.toNat % 32)) value := by
  have hb : byte.toNat / 32 * 32 + byte.toNat % 32 = byte.toNat := by omega
  rw [head, h, hb, UInt8.ofNat_toNat, List.singleton_append]

section

variable (hip : input.length ≤ u64Max)
include hip

theorem readSlice_eq_ok {length : Nat} {part : Bytes} :
    readSlice input length pos = .ok (part, stop) ↔
      Spans input pos part stop ∧ part.length = length := by
  simp only [readSlice, ok_iff, checkedAdd_eq_some]
  constructor
  · rintro ⟨_, ⟨rfl, -⟩, -, hle, rfl, rfl⟩
    have hsp := spans_slice (Nat.le_add_right pos length) hle
    have := hsp.stop_eq
    exact ⟨hsp, by omega⟩
  · rintro ⟨hsp, rfl⟩
    have hle := hsp.stop_le
    obtain rfl := hsp.stop_eq
    exact ⟨_, ⟨rfl, by omega⟩, (), hle, hsp.slice_eq, rfl⟩

theorem readUint_eq_ok {width : Nat} : readUint input width pos = .ok (value, stop) ↔
      value < 256 ^ width ∧ Spans input pos (bigEndian width value) stop := by
  simp only [readUint, ok_iff, Prod.exists, readSlice_eq_ok hip]
  constructor
  · rintro ⟨bytes, _, ⟨hsp, rfl⟩, rfl, rfl⟩
    rw [bigEndian_ofBigEndian]
    exact ⟨ofBigEndian_lt bytes, hsp⟩
  · rintro ⟨hlt, hsp⟩
    exact ⟨_, _, ⟨hsp, length_bigEndian _ _⟩, ofBigEndian_bigEndian hlt, rfl⟩

/-- The width of the argument and the arguments of that width. -/
theorem readArgument_eq_ok (hp : pos ≤ input.length) :
    readArgument input info pos = .ok (value, stop) ↔
      info ≤ 27 ∧ (info ≤ 23 → value = info) ∧ (24 ≤ info → value < 256 ^ width info) ∧
        Spans input pos (bigEndian (width info) value) stop := by
  unfold readArgument
  split_ifs with hsm
  · have hw := width_of_lt (show info < 24 by omega)
    simp only [Except.ok.injEq, Prod.mk.injEq, hw, bigEndian, spans_nil, hp, and_true]
    omega
  · split
    · have hb : ∀ byte : UInt8, byte.toNat < 256 := UInt8.toNat_lt
      simp only [ok_iff, Prod.exists, readByte_eq_ok, width, bigEndian, List.nil_append]
      constructor
      · rintro ⟨byte, _, hsp, rfl, rfl⟩
        exact ⟨by omega, by omega, fun _ => hb byte, by simpa using hsp⟩
      · rintro ⟨-, -, hlt, hsp⟩
        have hv : value < 256 := by simpa using hlt (by decide)
        exact ⟨_, _, hsp, by simp [Nat.mod_eq_of_lt hv], rfl⟩
    · simp [readUint_eq_ok hip, width]
    · simp [readUint_eq_ok hip, width]
    · simp [readUint_eq_ok hip, width]
    · simp
    · next h24 h25 h26 h27 _ =>
        have hl : ¬ info ≤ 27 := by
          have h24 : info ≠ 24 := h24
          have h25 : info ≠ 25 := h25
          have h26 : info ≠ 26 := h26
          have h27 : info ≠ 27 := h27
          omega
        simp [hl]

theorem readMinimalArgument_eq_ok (hp : pos ≤ input.length) :
    readMinimalArgument input info pos = .ok (value, stop) ↔
      (value ≤ maxArgument ∧ additional value = info) ∧
        Spans input pos (bigEndian (width info) value) stop := by
  simp only [readMinimalArgument, ok_iff, Prod.exists, readArgument_eq_ok hip hp, additional_eq_iff]
  constructor
  · rintro ⟨_, _, ⟨h1, h2, h3, h4⟩, -, h5, rfl, rfl⟩
    exact ⟨⟨h1, h2, h3, h5⟩, h4⟩
  · rintro ⟨⟨h1, h2, h3, h5⟩, h4⟩
    exact ⟨_, _, ⟨h1, h2, h3, h4⟩, (), h5, rfl, rfl⟩

/-- What the scanner reads as a head is one. -/
theorem spans_head_of_read {mid : Nat} (hb : Spans input pos [byte] mid)
    (hv : readMinimalArgument input (byte.toNat % 32) mid = .ok (value, stop)) :
    Spans input pos (head (byte.toNat / 32) value) stop ∧ value ≤ maxArgument := by
  obtain ⟨⟨hle, hi⟩, hsp⟩ := (readMinimalArgument_eq_ok hip hb.stop_le).mp hv
  rw [head_eq_cons hi]
  exact ⟨spans_append.mpr ⟨mid, hb, hsp⟩, hle⟩

/-- A head is read back. -/
theorem read_of_spans_head (hm : major < 8) (hv : value ≤ maxArgument)
    (h : Spans input pos (head major value) stop) :
    ∃ byte mid, readByte input pos = .ok (byte, mid) ∧ byte.toNat / 32 = major ∧
      byte.toNat % 32 = additional value ∧
      readMinimalArgument input (additional value) mid = .ok (value, stop) ∧
      readArgument input (additional value) mid = .ok (value, stop) := by
  have hle := additional_le value
  have hb : (UInt8.ofNat (major * 32 + additional value)).toNat =
      major * 32 + additional value := by
    rw [UInt8.toNat_ofNat']
    omega
  rw [head, ← List.singleton_append] at h
  obtain ⟨mid, hf, hr⟩ := spans_append.mp h
  have hmi := (readMinimalArgument_eq_ok hip hf.stop_le).mpr ⟨⟨hv, rfl⟩, hr⟩
  refine ⟨_, mid, readByte_eq_ok.mpr hf, by omega, by omega, hmi, ?_⟩
  obtain ⟨h1, h2, h3, -⟩ := additional_eq_iff.mp ⟨hv, rfl⟩
  exact (readArgument_eq_ok hip hf.stop_le).mpr ⟨h1, h2, h3, hr⟩

end

end Reading

/-! ## 2. What the scanner accepts -/

section Scanning

variable [TextRules] {input : Bytes} {limits : ParserLimits} {order : Bool}

/-- The limits at an item of the given depth. -/
def Fits (limits : ParserLimits) (depth : Nat) (item : Item) : Prop :=
  item.Argued ∧
    match item with
    | .bytes payload => payload.length ≤ limits.maxTextOrBytes
    | .text payload => payload.length ≤ limits.maxTextOrBytes ∧ TextRules.isUtf8 payload ∧
        TextRules.isNfc payload
    | .array items => items.length ≤ limits.maxContainerItems ∧ depth < limits.maxDepth
    | .map entries => entries.length ≤ limits.maxContainerItems ∧ depth < limits.maxDepth
    | .tag _ _ => depth < limits.maxDepth
    | _ => True

/-- The limits, and the order of the keys where it is enforced. -/
def Accepts (limits : ParserLimits) (enforceMapOrder : Bool) (depth : Nat) (item : Item) : Prop :=
  Fits limits depth item ∧ (enforceMapOrder → item.KeysOrdered)

/-- The scanner passes over `bytes` and counts `count` items. -/
structure Advances (input : Bytes) (limits : ParserLimits) (scanner : Scanner) (bytes : Bytes)
    (count : Nat) (scanner' : Scanner) : Prop where
  spans : Spans input scanner.position bytes scanner'.position
  total : scanner'.totalItems = scanner.totalItems + count
  total_le : scanner'.totalItems ≤ limits.maxTotalItems

variable {s s' s'' : Scanner} {bytes bytes' : Bytes} {count count' value : Nat}
  {previousKey : Option (Nat × Nat)} {scan : Scanner → Except CborError Scanner} {depth room : Nat}
  {item : Item}

section

omit [TextRules]

theorem Advances.trans (h : Advances input limits s bytes count s')
    (h' : Advances input limits s' bytes' count' s'') :
    Advances input limits s (bytes ++ bytes') (count + count') s'' where
  spans := spans_append.mpr ⟨_, h.spans, h'.spans⟩
  total := by rw [h'.total, h.total, Nat.add_assoc]
  total_le := h'.total_le

theorem Advances.split (h : Advances input limits s (bytes ++ bytes') (count + count') s'') :
    ∃ s', Advances input limits s bytes count s' ∧ Advances input limits s' bytes' count' s'' := by
  obtain ⟨mid, hsp, hspans'⟩ := spans_append.mp h.spans
  have ht := h.total
  have hle := h.total_le
  exact ⟨⟨mid, s.totalItems + count⟩, ⟨hsp, rfl, by simp only; omega⟩,
    ⟨hspans', by simp only; omega, hle⟩⟩

theorem deterministicKeyCmp_eq_lt {left right : Bytes} :
    deterministicKeyCmp left right = .lt ↔ keyOrder left < keyOrder right := by
  unfold deterministicKeyCmp cmp cmpUsing
  split_ifs with h <;> simp [h]

variable {key : Bytes} {keyStart keyEnd : Nat}

/-- A key comes after the key at the given positions. -/
theorem checkKeyOrder_eq_ok (hk : Spans input keyStart key keyEnd) :
    checkKeyOrder input previousKey keyStart keyEnd = .ok () ↔
      ∀ prev ∈ previousKey, keyOrder (slice input prev.1 prev.2) < keyOrder key := by
  cases previousKey with
  | none => simp [checkKeyOrder]
  | some prev =>
    simp only [checkKeyOrder, hk.slice_eq, Option.mem_some_iff, forall_eq',
      ← deterministicKeyCmp_eq_lt]
    split
    · next heq => simp only [heq, throw_ne_ok, reduceCtorEq]
    · next heq => simp only [heq, throw_ne_ok, reduceCtorEq]
    · next heq => simp only [heq]

theorem nextKey_eq_ok {following : Option (Nat × Nat)} (hk : Spans input keyStart key keyEnd) :
    nextKey input order previousKey keyStart keyEnd = .ok following ↔ (order → ∀ prev ∈ previousKey,
        keyOrder (slice input prev.1 prev.2) < keyOrder key) ∧
      following = if order then some (keyStart, keyEnd) else previousKey := by
  cases order with
  | false => simp [nextKey, pure_eq_ok, @eq_comm _ following]
  | true =>
    simp only [nextKey, if_true, ok_iff, exists_and_right, exists_const, checkKeyOrder_eq_ok hk,
      forall_const, @eq_comm _ following]

/-- A simple value is the argument of its head. -/
theorem scanSimple_eq_ok (hip : input.length ≤ u64Max) {position stop info : Nat}
    (hp : position ≤ input.length) : scanSimple input info position = .ok stop ↔
      ∃ value, readMinimalArgument input info position = .ok (value, stop) ∧
        (Item.simple value).Argued := by
  simp only [readMinimalArgument_eq_ok hip hp, Item.Argued]
  unfold scanSimple
  split_ifs with hsm
  · have hw := width_of_lt (show info < 24 by omega)
    simp only [Except.ok.injEq, hw, bigEndian, spans_nil, hp, and_true]
    constructor
    · rintro rfl
      refine ⟨info, ⟨⟨by unfold maxArgument; omega, ?_⟩, rfl⟩, by omega⟩
      simp [additional, show info < 24 by omega]
    · rintro ⟨_, ⟨-, rfl⟩, -⟩
      rfl
  · have hi : ∀ value, additional value = info → 24 ≤ value := by
      rintro value rfl
      unfold additional at hsm
      split_ifs at hsm <;> omega
    split
    · simp only [ok_iff, Prod.exists, readByte_eq_ok, width, bigEndian, List.nil_append]
      constructor
      · rintro ⟨byte, _, hsp, -, -, -, hge, rfl⟩
        have hlt := byte.toNat_lt
        refine ⟨byte.toNat, ⟨⟨by unfold maxArgument; omega, ?_⟩, by simpa using hsp⟩, by omega⟩
        unfold additional
        split_ifs <;> omega
      · rintro ⟨value, ⟨⟨-, ha⟩, hsp⟩, hv⟩
        have hge := hi value ha
        have hb : (UInt8.ofNat value).toNat = value := by
          rw [UInt8.toNat_ofNat']
          omega
        exact ⟨_, _, hsp, (), by omega, (), by omega, rfl⟩
    all_goals
      simp only [throw_ne_ok, false_iff]
      rintro ⟨value, ⟨⟨-, ha⟩, -⟩, hv⟩
      have hge := hi value ha
      have h24 : additional value = 24 := by
        unfold additional
        split_ifs <;> omega
      simp_all

end

/-! ## 3. The loops -/

/-- There are no more items than bytes, and both are within their bounds. -/
structure Ready (input : Bytes) (limits : ParserLimits) (scanner : Scanner) : Prop where
  counted : scanner.totalItems ≤ scanner.position
  position_le : scanner.position ≤ input.length
  total_le : scanner.totalItems ≤ limits.maxTotalItems

/-- The scan passes over the encodings of the items with the property, and over nothing else. -/
def Passes (input : Bytes) (limits : ParserLimits) (P : Item → Prop)
    (scan : Scanner → Except CborError Scanner) : Prop :=
  ∀ {scanner scanner' : Scanner}, Ready input limits scanner →
    (scan scanner = .ok scanner' ↔ ∃ item, P item ∧
      Advances input limits scanner item.write item.size scanner')

section

omit [TextRules]

theorem Advances.ready (h : Advances input limits s bytes count s')
    (hle : count ≤ bytes.length) (hc : s.totalItems ≤ s.position) :
    Ready input limits s' := by
  have ht := h.total
  have hst := h.spans.stop_eq
  exact ⟨by omega, h.spans.stop_le, h.total_le⟩

theorem Advances.ready_item (h : Advances input limits s item.write item.size s')
    (hs : Ready input limits s) : Ready input limits s' :=
  h.ready (size_le_length_write item) hs.counted

theorem Advances.ready_head (h : Advances input limits s (head major value) 1 s')
    (hs : Ready input limits s) : Ready input limits s' :=
  h.ready (by rw [length_head]; omega) hs.counted

theorem Advances.eq_of_nil (h : Advances input limits s [] 0 s') : s = s' := by
  obtain ⟨_, _⟩ := s'
  obtain ⟨hp, -⟩ := spans_nil.mp h.spans
  have ht := h.total
  simp only at hp ht
  rw [hp, ht, Nat.add_zero]

/-- The keys ascend, from the one at the given positions on, where that is enforced. -/
def KeysFrom (input : Bytes) (enforceMapOrder : Bool) (previousKey : Option (Nat × Nat))
    (entries : List (Item × Item)) : Prop :=
  enforceMapOrder → (entries.Pairwise fun a b => entryKey a < entryKey b) ∧
    ∀ previous ∈ previousKey, ∀ entry ∈ entries,
      keyOrder (slice input previous.1 previous.2) < entryKey entry

theorem keysFrom_cons {entry : Item × Item} {entries : List (Item × Item)} {keyStart keyEnd : Nat}
    (hk : Spans input keyStart entry.1.write keyEnd) :
    KeysFrom input order previousKey (entry :: entries) ↔ (order → ∀ prev ∈ previousKey,
        keyOrder (slice input prev.1 prev.2) < keyOrder entry.1.write) ∧
      KeysFrom input order (if order then some (keyStart, keyEnd) else previousKey) entries := by
  cases order with
  | false => simp [KeysFrom]
  | true =>
    simp only [KeysFrom, forall_const, if_true, Option.mem_some_iff, forall_eq', hk.slice_eq,
      List.pairwise_cons, List.forall_mem_cons]
    constructor
    · rintro ⟨⟨hg, hpw⟩, ha⟩
      exact ⟨fun prev hp => (ha prev hp).1, hpw, hg⟩
    · rintro ⟨hf, hpw, hg⟩
      refine ⟨⟨hg, hpw⟩, fun prev hp =>
        ⟨hf prev hp, fun other ho => ?_⟩⟩
      exact (hf prev hp).trans (hg other ho)

variable {P : Item → Prop} (hsc : Passes input limits P scan) (hs : Ready input limits s)
include hsc hs

/-- The loop over the items of an array, when every step passes over an item. -/
theorem scanItems_eq_ok : scanItems scan count s = .ok s' ↔
    ∃ items : List Item, items.length = count ∧ (∀ item ∈ items, P item) ∧
      Advances input limits s (writeItems items) (sizeItems items) s' := by
  induction count generalizing s with
  | zero =>
    simp only [scanItems, Except.ok.injEq, List.length_eq_zero_iff]
    constructor
    · rintro rfl
      exact ⟨[], rfl, by simp, ⟨spans_nil.mpr ⟨rfl, hs.position_le⟩, rfl, hs.total_le⟩⟩
    · rintro ⟨_, rfl, -, h⟩
      exact h.eq_of_nil
  | succ count ih =>
    simp only [scanItems, bind_eq_ok]
    constructor
    · rintro ⟨next, hn, h⟩
      obtain ⟨item, hi, ha⟩ := (hsc hs).mp hn
      obtain ⟨items, rfl, hit, hr⟩ := (ih (ha.ready_item hs)).mp h
      exact ⟨item :: items, rfl, List.forall_mem_cons.mpr ⟨hi, hit⟩, ha.trans hr⟩
    · rintro ⟨items, hl, hit, h⟩
      obtain ⟨item, items, rfl⟩ := List.exists_cons_of_length_eq_add_one hl
      obtain ⟨hi, hit⟩ := List.forall_mem_cons.mp hit
      obtain ⟨next, ha, hr⟩ := h.split
      exact ⟨next, (hsc hs).mpr ⟨item, hi, ha⟩, (ih (ha.ready_item hs)).mpr
        ⟨items, Nat.succ.inj hl, hit, hr⟩⟩

/-- The loop over the entries of a map; the keys ascend where that is enforced. -/
theorem scanEntries_eq_ok : scanEntries input order scan count previousKey s = .ok s' ↔
      ∃ entries : List (Item × Item), entries.length = count ∧
        (∀ entry ∈ entries, P entry.1 ∧ P entry.2) ∧
        KeysFrom input order previousKey entries ∧
        Advances input limits s (writeEntries entries) (sizeEntries entries) s' := by
  induction count generalizing s previousKey with
  | zero =>
    simp only [scanEntries, Except.ok.injEq, List.length_eq_zero_iff]
    constructor
    · rintro rfl
      exact ⟨[], rfl, by simp, by simp [KeysFrom],
        ⟨spans_nil.mpr ⟨rfl, hs.position_le⟩, rfl, hs.total_le⟩⟩
    · rintro ⟨_, rfl, -, -, h⟩
      exact h.eq_of_nil
  | succ count ih =>
    simp only [scanEntries, bind_eq_ok]
    constructor
    · rintro ⟨afterKey, hkeyScan, _, hfo, afterValue, hvalueScan, h⟩
      obtain ⟨key, hke, hk⟩ := (hsc hs).mp hkeyScan
      obtain ⟨value, hva, hv⟩ := (hsc (hk.ready_item hs)).mp hvalueScan
      obtain ⟨hf, rfl⟩ := (nextKey_eq_ok hk.spans).mp hfo
      obtain ⟨entries, rfl, hen, ho, hr⟩ := (ih (hv.ready_item (hk.ready_item hs))).mp h
      exact ⟨(key, value) :: entries, rfl, List.forall_mem_cons.mpr ⟨⟨hke, hva⟩, hen⟩,
        (keysFrom_cons hk.spans).mpr ⟨hf, ho⟩, (hk.trans hv).trans hr⟩
    · rintro ⟨entries, hl, hen, ho, h⟩
      obtain ⟨⟨key, value⟩, entries, rfl⟩ := List.exists_cons_of_length_eq_add_one hl
      obtain ⟨⟨hke, hva⟩, hen⟩ := List.forall_mem_cons.mp hen
      obtain ⟨afterValue, he, hr⟩ := h.split
      obtain ⟨afterKey, hk, hv⟩ := he.split
      obtain ⟨hf, ho⟩ := (keysFrom_cons hk.spans).mp ho
      exact ⟨afterKey, (hsc hs).mpr ⟨key, hke, hk⟩, _,
        (nextKey_eq_ok hk.spans).mpr ⟨hf, rfl⟩, afterValue,
        (hsc (hk.ready_item hs)).mpr ⟨value, hva, hv⟩,
        (ih (hv.ready_item (hk.ready_item hs))).mpr ⟨entries, Nat.succ.inj hl, hen, ho, hr⟩⟩

end

/-! ## 4. The items the scanner accepts -/

omit [TextRules] in
theorem countItem_eq_ok {total : Nat} : countItem limits s = .ok total ↔
    limits.hasNonzeroSecurityBudgets ∧ total = s.totalItems + 1 ∧ s.totalItems + 1 ≤ u64Max
      ∧ total ≤ limits.maxTotalItems := by
  simp only [countItem, ok_iff, checkedAdd_eq_some, exists_and_left, exists_const]
  constructor
  · rintro ⟨hb, _, ⟨rfl, hu⟩, ht, rfl⟩
    exact ⟨hb, rfl, hu, ht⟩
  · rintro ⟨hb, rfl, hu, ht⟩
    exact ⟨hb, _, ⟨rfl, hu⟩, ht, rfl⟩

/-- A step reads the head of the item. -/
theorem exists_scanMajor (hip : input.length ≤ u64Max)
    (hb : limits.hasNonzeroSecurityBudgets) (hs : Ready input limits s)
    (hm : major < 8) (hv : value ≤ maxArgument)
    (h : Advances input limits s (head major value) 1 s') :
    ∃ mid, mid ≤ input.length ∧
      readMinimalArgument input (additional value) mid = .ok (value, s'.position) ∧
      ∀ inner, scanStep input limits order inner s =
        scanMajor input limits order inner major (additional value) mid
          s'.totalItems := by
  obtain ⟨_, mid, hby, rfl, hi, hr, -⟩ := read_of_spans_head hip hm hv h.spans
  have hsp := readByte_eq_ok.mp hby
  have hst := hsp.stop_eq
  have hle := hsp.stop_le
  have hc := hs.counted
  rw [List.length_singleton] at hst
  have ha : countItem limits s = .ok s'.totalItems :=
    countItem_eq_ok.mpr ⟨hb, h.total, by omega, h.total_le⟩
  refine ⟨mid, hle, hr, fun inner => ?_⟩
  simp [scanStep, ok_bind, ha, hby, hi]

section

variable {inner : Option (Scanner → Except CborError Scanner)} (hip : input.length ≤ u64Max)
  (hd : inner.isSome = true ↔ depth < limits.maxDepth)
  (hin : ∀ scan ∈ inner, Passes input limits (·.Every (Accepts limits order) (depth + 1)) scan)
include hip hd hin

theorem exists_item_of_scanStep (hs : Ready input limits s)
    (h : scanStep input limits order inner s = .ok s') :
    ∃ item : Item, item.Every (Accepts limits order) depth ∧
      Advances input limits s item.write item.size s' := by
  simp only [scanStep, ok_iff, countItem_eq_ok, Prod.exists, readByte_eq_ok] at h
  obtain ⟨_, ⟨-, rfl, -, ht⟩, byte, mid, hb, h⟩ := h
  -- in every case the head is read first
  have hr : ∀ {value stop}, readMinimalArgument input (byte.toNat % 32) mid =
      .ok (value, stop) → Advances input limits s (head (byte.toNat / 32) value) 1
        ⟨stop, s.totalItems + 1⟩ ∧ value ≤ maxArgument := fun h =>
    (spans_head_of_read hip hb h).imp_left (⟨·, rfl, ht⟩)
  have hso : ∀ scan ∈ inner, depth < limits.maxDepth := fun scan hsc =>
    hd.mp (Option.isSome_iff_exists.mpr ⟨scan, hsc⟩)
  generalize hm : byte.toNat / 32 = major at h hr
  unfold scanMajor at h
  split at h <;> try simp only [readContainerLength, checkText, ok_iff, Prod.exists,
    readSlice_eq_ok hip, scanSimple_eq_ok hip hb.stop_le, ne_eq, not_true, false_or] at h
  · obtain ⟨value, stop, hv, rfl⟩ := h
    exact ⟨.unsigned value, ⟨⟨(hr hv).2, trivial⟩, fun _ => trivial⟩, (hr hv).1⟩
  · obtain ⟨value, stop, hv, rfl⟩ := h
    exact ⟨.negative value, ⟨⟨(hr hv).2, trivial⟩, fun _ => trivial⟩, (hr hv).1⟩
  · obtain ⟨_, _, hl, -, hma, body, stop, ⟨hp, rfl⟩, -, -, rfl⟩ := h
    obtain ⟨hh, hle⟩ := hr hl
    exact ⟨.bytes body, ⟨⟨hle, hma⟩, fun _ => trivial⟩, spans_append.mpr ⟨_, hh.spans, hp⟩, rfl, ht⟩
  · obtain ⟨_, _, hl, -, hma, body, stop, ⟨hp, rfl⟩, -, ⟨-, hutf8, hn⟩, rfl⟩ := h
    obtain ⟨hh, hle⟩ := hr hl
    exact ⟨.text body, ⟨⟨hle, hma, hutf8, hn⟩, fun _ => trivial⟩,
      spans_append.mpr ⟨_, hh.spans, hp⟩, rfl, ht⟩
  · obtain ⟨_, _, ⟨_, _, hl, -, hma, rfl, rfl⟩, scan, hsc, h⟩ := h
    obtain ⟨hh, hle⟩ := hr hl
    obtain ⟨items, rfl, hi, hre⟩ := (scanItems_eq_ok (hin scan hsc) (hh.ready_head hs)).mp h
    exact ⟨.array items, every_array.mpr ⟨⟨⟨hle, hma, hso scan hsc⟩, fun _ => trivial⟩, hi⟩,
      hh.trans hre⟩
  · obtain ⟨_, _, ⟨_, _, hl, -, hma, rfl, rfl⟩, scan, hsc, h⟩ := h
    obtain ⟨hh, hle⟩ := hr hl
    obtain ⟨entries, rfl, he, ho, hre⟩ := (scanEntries_eq_ok (hin scan hsc) (hh.ready_head hs)).mp h
    exact ⟨.map entries, every_map.mpr ⟨⟨⟨hle, hma, hso scan hsc⟩, fun hen => (ho hen).1⟩, he⟩,
      hh.trans hre⟩
  · obtain ⟨num, _, hnu, scan, hsc, h⟩ := h
    obtain ⟨hh, hle⟩ := hr hnu
    obtain ⟨content, hc, hre⟩ := (hin scan hsc (hh.ready_head hs)).mp h
    exact ⟨.tag num content, every_tag.mpr ⟨⟨⟨hle, hso scan hsc⟩, fun _ => trivial⟩, hc⟩,
      hh.trans hre⟩
  · obtain ⟨_, ⟨value, hv, ha⟩, rfl⟩ := h
    exact ⟨.simple value, ⟨⟨ha, trivial⟩, fun _ => trivial⟩, (hr hv).1⟩
  · cases h

theorem scanStep_of_advances (hb : limits.hasNonzeroSecurityBudgets) (hs : Ready input limits s)
    (ha : item.Every (Accepts limits order) depth)
    (h : Advances input limits s item.write item.size s') :
    scanStep input limits order inner s = .ok s' := by
  have hso (h : depth < limits.maxDepth) : ∃ scan, inner = some scan :=
    Option.isSome_iff_exists.mp (hd.mpr h)
  cases item with
  | unsigned n | negative n =>
    obtain ⟨mid, -, hr, hst⟩ := exists_scanMajor hip hb hs (by decide) ha.here.1.1 h
    rw [hst, scanMajor, hr, ok_bind]
    rfl
  | bytes body | text body =>
    obtain ⟨har, hl⟩ := ha.here.1
    simp only [Item.write, Item.size] at h
    rw [← Nat.add_zero 1] at h
    obtain ⟨next, hh, hre⟩ := h.split
    obtain ⟨mid, -, hr, hst⟩ := exists_scanMajor hip hb hs (by decide) har hh
    have hsl := (readSlice_eq_ok hip).mpr ⟨hre.spans, rfl⟩
    rw [hst, scanMajor, hr, ok_bind]
    simp only [ensure, hl, decide_true, if_true, ok_bind, hsl, checkText, or_true]
    exact congrArg Except.ok (Scanner.mk.injEq .. ▸ ⟨rfl, hre.total.symm⟩)
  | array items =>
    rw [every_array] at ha
    obtain ⟨⟨⟨har, hm, hd⟩, -⟩, hi⟩ := ha
    obtain ⟨scan, rfl⟩ := hso hd
    obtain ⟨next, hh, hre⟩ := h.split
    obtain ⟨mid, -, hr, hst⟩ := exists_scanMajor hip hb hs (by decide) har hh
    rw [hst, scanMajor, readContainerLength, hr, ok_bind]
    simp only [ensure, hm, decide_true, if_true, ok_bind, okOr]
    exact (scanItems_eq_ok (hin scan rfl) (hh.ready_head hs)).mpr ⟨items, rfl, hi, hre⟩
  | map entries =>
    rw [every_map] at ha
    obtain ⟨⟨⟨har, hm, hd⟩, ho⟩, he⟩ := ha
    obtain ⟨scan, rfl⟩ := hso hd
    obtain ⟨next, hh, hre⟩ := h.split
    obtain ⟨mid, -, hr, hst⟩ := exists_scanMajor hip hb hs (by decide) har hh
    rw [hst, scanMajor, readContainerLength, hr, ok_bind]
    simp only [ensure, hm, decide_true, if_true, ok_bind, okOr]
    exact (scanEntries_eq_ok (hin scan rfl) (hh.ready_head hs)).mpr
      ⟨entries, rfl, he, fun hen => ⟨ho hen, by simp⟩, hre⟩
  | tag _ content =>
    obtain ⟨⟨⟨har, hd⟩, -⟩, hc⟩ := ha
    obtain ⟨scan, rfl⟩ := hso hd
    obtain ⟨next, hh, hre⟩ := h.split
    obtain ⟨mid, -, hr, hst⟩ := exists_scanMajor hip hb hs (by decide) har hh
    rw [hst, scanMajor, hr, ok_bind]
    exact (hin scan rfl (hh.ready_head hs)).mpr ⟨content, hc, hre⟩
  | simple value =>
    have har : (Item.simple value).Argued := ha.here.1.1
    have hv : value ≤ maxArgument := by
      simp only [Item.Argued] at har
      unfold maxArgument
      omega
    obtain ⟨mid, hle, hr, hst⟩ := exists_scanMajor hip hb hs (by decide) hv h
    rw [hst, scanMajor, (scanSimple_eq_ok hip hle).mpr ⟨value, hr, har⟩, ok_bind]
    rfl

/-- One step of the scanner, when the step one level further down passes over an item. -/
theorem passes_scanStep (hb : limits.hasNonzeroSecurityBudgets) :
    Passes input limits (·.Every (Accepts limits order) depth)
      (scanStep input limits order inner) :=
  fun hs => ⟨exists_item_of_scanStep hip hd hin hs, fun ⟨_, ha, h⟩ =>
    scanStep_of_advances hip hd hin hb hs ha h⟩

end

/-- **The scanner accepts the encodings of the accepted items, and nothing else.** -/
theorem passes_scanItem (hip : input.length ≤ u64Max)
    (hb : limits.hasNonzeroSecurityBudgets) (hr : depth + room = limits.maxDepth) :
    Passes input limits (·.Every (Accepts limits order) depth)
      (scanItem input limits order room) := by
  induction room generalizing depth with
  | zero => exact passes_scanStep hip (by simp; omega) (by simp) hb
  | succ room ih =>
    refine passes_scanStep hip (by simp; omega) ?_ hb
    rintro _ ⟨⟩
    exact ih (by omega)

theorem hasNonzeroSecurityBudgets_of_scanItem (h : scanItem input limits order room s = .ok s') :
    limits.hasNonzeroSecurityBudgets := by
  cases room <;>
    · simp only [scanItem, scanStep, ok_iff, countItem_eq_ok] at h
      exact h.choose_spec.1.1

end Scanning

end Einsatzarchiv.Cbor
