/-
  File:      Einsatzarchiv/Lib/Cbor/Items.lean
  Subject:   CBOR data items of definite length and their encodings with shortest heads.

  * `head`: the shortest head of a major type and an argument; `parseHead` reads any head.
  * `Item`, `Item.write`: data items and their encoding, with map entries in the given order.
  * `parseItem`: a decoder; `parseItem_write` says that it undoes `write`, so that encodings are
    injective and no encoding is the beginning of another (`write_append_inj`).
  * `Item.Every`: a condition on every item within an item, with its depth.
  * `Item.induction`: induction over the items within an item.
-/
import Mathlib.Algebra.BigOperators.Ring.List
import Mathlib.Algebra.Order.BigOperators.Group.List
import Mathlib.Algebra.Order.Group.Nat
import Mathlib.Algebra.Ring.Nat
import Mathlib.Data.List.Induction

namespace Einsatzarchiv.Lib.Cbor

/-! ## 1. Big-endian numbers -/

/-- The last `width` bytes of a number. -/
def bigEndian : Nat → Nat → List UInt8
  | 0, _ => []
  | width + 1, n => bigEndian width (n / 256) ++ [UInt8.ofNat n]

section

variable (bytes : List UInt8)

/-- The number that the bytes spell. -/
def ofBigEndian : Nat :=
  bytes.foldl (fun value byte => value * 256 + byte.toNat) 0

@[simp] theorem length_bigEndian (width n : Nat) : (bigEndian width n).length = width := by
  induction width generalizing n with
  | zero => rfl
  | succ width ih => simp [bigEndian, ih]

@[simp] theorem ofBigEndian_nil : ofBigEndian [] = 0 := rfl

@[simp] theorem ofBigEndian_append (byte : UInt8) :
    ofBigEndian (bytes ++ [byte]) = ofBigEndian bytes * 256 + byte.toNat := by
  simp [ofBigEndian]

/-- Reading what was written. -/
theorem ofBigEndian_bigEndian {width n : Nat} (h : n < 256 ^ width) :
    ofBigEndian (bigEndian width n) = n := by
  induction width generalizing n with
  | zero => simp_all [bigEndian]
  | succ width ih =>
    have hd : n / 256 < 256 ^ width := by
      rw [Nat.div_lt_iff_lt_mul (by decide)]
      rwa [pow_succ] at h
    simp only [bigEndian, ofBigEndian_append, ih hd, UInt8.toNat_ofNat']
    omega

/-- Writing what was read. -/
theorem bigEndian_ofBigEndian : bigEndian bytes.length (ofBigEndian bytes) = bytes := by
  induction bytes using List.reverseRecOn with
  | nil => rfl
  | append_singleton bytes byte ih =>
    have hb := byte.toNat_lt
    have hd : (ofBigEndian bytes * 256 + byte.toNat) / 256 = ofBigEndian bytes := by omega
    have hl : UInt8.ofNat (ofBigEndian bytes * 256 + byte.toNat) = byte := by
      rw [← UInt8.toNat_inj, UInt8.toNat_ofNat']
      omega
    rw [List.length_append, List.length_singleton, bigEndian, ofBigEndian_append, hd, ih, hl]

theorem ofBigEndian_lt : ofBigEndian bytes < 256 ^ bytes.length := by
  induction bytes using List.reverseRecOn with
  | nil => decide
  | append_singleton bytes byte _ =>
    have hb := byte.toNat_lt
    rw [ofBigEndian_append, List.length_append, List.length_singleton, pow_succ]
    omega

end

/-! ## 2. Heads -/

/-- Arguments have at most eight bytes. -/
def maxArgument : Nat := 18446744073709551615

/-- The additional information of the shortest head for an argument. -/
def additional (n : Nat) : Nat :=
  if n < 24 then n
  else if n < 256 then 24
  else if n < 65536 then 25
  else if n < 4294967296 then 26
  else 27

/-- The number of bytes of the argument that follow the initial byte. -/
def width : Nat → Nat
  | 24 => 1
  | 25 => 2
  | 26 => 4
  | 27 => 8
  | _ => 0

theorem width_of_lt {info : Nat} (h : info < 24) : width info = 0 := by
  unfold width
  split <;> omega

/-- The shortest head. -/
def head (major n : Nat) : List UInt8 :=
  UInt8.ofNat (major * 32 + additional n) :: bigEndian (width (additional n)) n

/-- The major type, the additional information and the argument of a head of any length. -/
def parseHead : List UInt8 → Option ((Nat × Nat × Nat) × List UInt8)
  | [] => none
  | initial :: rest =>
    let major := initial.toNat / 32
    let info := initial.toNat % 32
    if info < 24 then some ((major, info, info), rest)
    else if info ≤ 27 ∧ width info ≤ rest.length then
      some ((major, info, ofBigEndian (rest.take (width info))), rest.drop (width info))
    else none

theorem additional_le (n : Nat) : additional n ≤ 27 := by
  unfold additional
  split_ifs <;> omega

theorem length_head (major n : Nat) : (head major n).length = 1 + width (additional n) := by
  simp [head, Nat.add_comm]

/-- The bytes after the initial byte hold the argument. -/
theorem lt_of_le_maxArgument {n : Nat} (h : n ≤ maxArgument) :
    additional n = n ∧ n < 24 ∨ 24 ≤ additional n ∧ n < 256 ^ width (additional n) := by
  unfold additional
  unfold maxArgument at h
  split_ifs with h1 h2 h3 h4
  · exact .inl ⟨rfl, h1⟩
  all_goals exact .inr ⟨by decide, by simp only [width]; omega⟩

/-- A head is read back. -/
theorem parseHead_head {major n : Nat} (rest : List UInt8) (hm : major < 8) (hn : n ≤ maxArgument) :
    parseHead (head major n ++ rest) = some ((major, additional n, n), rest) := by
  have hle := additional_le n
  have hmo : (major * 32 + additional n) % 2 ^ 8 = major * 32 + additional n :=
    Nat.mod_eq_of_lt (by omega)
  have hdi : (major * 32 + additional n) / 32 = major := by omega
  have hi : (major * 32 + additional n) % 32 = additional n := by omega
  rw [head, List.cons_append, parseHead]
  simp only [UInt8.toNat_ofNat', hmo, hdi, hi]
  rcases lt_of_le_maxArgument hn with ⟨heq, hlt⟩ | ⟨_, hlt⟩
  · simp [heq, hlt, width_of_lt hlt, bigEndian]
  · have hno : ¬ additional n < 24 := by omega
    have ht : (bigEndian (width (additional n)) n ++ rest).take (width (additional n)) =
        bigEndian (width (additional n)) n := List.take_left' (length_bigEndian _ _)
    have hd : (bigEndian (width (additional n)) n ++ rest).drop (width (additional n)) =
        rest := List.drop_left' (length_bigEndian _ _)
    simp [hno, hle, length_bigEndian, ht, hd, ofBigEndian_bigEndian hlt]

/-! ## 3. Items -/

/-- A data item; `negative n` is the integer `-1 - n`. -/
inductive Item
  | unsigned (n : Nat)
  | negative (n : Nat)
  | bytes (payload : List UInt8)
  | text (payload : List UInt8)
  | array (items : List Item)
  | map (entries : List (Item × Item))
  | tag (number : Nat) (content : Item)
  | simple (value : Nat)

/-- Induction over the items within an item. -/
@[elab_as_elim] theorem Item.induction {P : Item → Prop}
    (unsigned : ∀ n, P (.unsigned n)) (negative : ∀ n, P (.negative n))
    (bytes : ∀ body, P (.bytes body)) (text : ∀ body, P (.text body))
    (array : ∀ items, (∀ item ∈ items, P item) → P (.array items))
    (map : ∀ entries, (∀ entry ∈ entries, P entry.1 ∧ P entry.2) → P (.map entries))
    (tag : ∀ num content, P content → P (.tag num content))
    (simple : ∀ value, P (.simple value)) (item : Item) : P item := by
  refine @Item.rec P (fun items => ∀ item ∈ items, P item)
    (fun entries => ∀ entry ∈ entries, P entry.1 ∧ P entry.2) (fun entry => P entry.1 ∧ P entry.2)
    unsigned negative bytes text array map tag simple ?_ ?_ ?_ ?_ ?_ item
  · simp
  · exact fun _ _ hi hit => List.forall_mem_cons.mpr ⟨hi, hit⟩
  · simp
  · exact fun _ _ he hen => List.forall_mem_cons.mpr ⟨he, hen⟩
  · exact fun _ _ hk hv => ⟨hk, hv⟩

mutual

/-- The encoding of an item, with shortest heads and the map entries in their order. -/
def Item.write : Item → List UInt8
  | .unsigned n => head 0 n
  | .negative n => head 1 n
  | .bytes payload => head 2 payload.length ++ payload
  | .text payload => head 3 payload.length ++ payload
  | .array items => head 4 items.length ++ writeItems items
  | .map entries => head 5 entries.length ++ writeEntries entries
  | .tag number content => head 6 number ++ content.write
  | .simple value => head 7 value

def writeItems : List Item → List UInt8
  | [] => []
  | item :: items => item.write ++ writeItems items

/-- Keys and values in turn. -/
def writeEntries : List (Item × Item) → List UInt8
  | [] => []
  | (key, value) :: entries => key.write ++ value.write ++ writeEntries entries

end

mutual

/-- The number of items within an item, itself included. -/
def Item.size : Item → Nat
  | .array items => 1 + sizeItems items
  | .map entries => 1 + sizeEntries entries
  | .tag _ content => 1 + content.size
  | _ => 1

/-- How many items there are in all. -/
def sizeItems : List Item → Nat
  | [] => 0
  | item :: items => item.size + sizeItems items

/-- How many items the keys and values are. -/
def sizeEntries : List (Item × Item) → Nat
  | [] => 0
  | (key, value) :: entries => key.size + value.size + sizeEntries entries

end

mutual

/-- Every item within the item satisfies the condition at its depth. -/
def Item.Every (P : Nat → Item → Prop) (depth : Nat) : Item → Prop
  | .array items => P depth (.array items) ∧ EveryItem P (depth + 1) items
  | .map entries => P depth (.map entries) ∧ EveryEntry P (depth + 1) entries
  | .tag number content => P depth (.tag number content) ∧ content.Every P (depth + 1)
  | item => P depth item

/-- The property holds at every item of the list, and below. -/
def EveryItem (P : Nat → Item → Prop) (depth : Nat) : List Item → Prop
  | [] => True
  | item :: items => item.Every P depth ∧ EveryItem P depth items

/-- The property holds at every key and value, and below. -/
def EveryEntry (P : Nat → Item → Prop) (depth : Nat) : List (Item × Item) → Prop
  | [] => True
  | (key, value) :: entries =>
    key.Every P depth ∧ value.Every P depth ∧ EveryEntry P depth entries

end

variable {entries : List (Item × Item)} {items : List Item}

section Every

variable {P Q : Nat → Item → Prop} {depth : Nat}

/-- All items of a list. -/
theorem everyItem_iff : EveryItem P depth items ↔ ∀ item ∈ items, item.Every P depth := by
  induction items with
  | nil => simp [EveryItem]
  | cons item items ih => simp [EveryItem, ih]

/-- All entries of a map. -/
theorem everyEntry_iff : EveryEntry P depth entries ↔
    ∀ entry ∈ entries, entry.1.Every P depth ∧ entry.2.Every P depth := by
  induction entries with
  | nil => simp [EveryEntry]
  | cons entry entries ih => simp [EveryEntry, ih, and_assoc]

@[simp] theorem every_array : (Item.array items).Every P depth ↔
    P depth (.array items) ∧ ∀ item ∈ items, item.Every P (depth + 1) := by
  rw [Item.Every, everyItem_iff]

@[simp] theorem every_map : (Item.map entries).Every P depth ↔ P depth (.map entries) ∧
      ∀ entry ∈ entries, entry.1.Every P (depth + 1) ∧ entry.2.Every P (depth + 1) := by
  rw [Item.Every, everyEntry_iff]

@[simp] theorem every_tag {num : Nat} {content : Item} : (Item.tag num content).Every P depth ↔
      P depth (.tag num content) ∧ content.Every P (depth + 1) := by
  rw [Item.Every]

variable {item : Item}

theorem Item.Every.here (h : item.Every P depth) : P depth item := by
  cases item with
  | array | map | tag => simp at h; exact h.1
  | _ => simpa [Item.Every] using h

/-- A condition that passes from an item to its parts. -/
structure Inherited (P : Nat → Item → Prop) : Prop where
  array : ∀ {depth items}, P depth (.array items) → ∀ item ∈ items, P (depth + 1) item
  map : ∀ {depth entries}, P depth (.map entries) →
    ∀ entry ∈ entries, P (depth + 1) entry.1 ∧ P (depth + 1) entry.2
  tag : ∀ {depth num content}, P depth (.tag num content) → P (depth + 1) content

/-- What follows from an inherited condition holds of every item within the item. -/
theorem Inherited.every (hP : Inherited P) (h : P depth item)
    (him : ∀ depth item, P depth item → Q depth item) : item.Every Q depth := by
  induction item using Item.induction generalizing depth with
  | array _ ih =>
    exact every_array.mpr ⟨him _ _ h, fun item hi => ih item hi (hP.array h item hi)⟩
  | map _ ih =>
    exact every_map.mpr ⟨him _ _ h, fun entry he =>
      ⟨(ih entry he).1 (hP.map h entry he).1, (ih entry he).2 (hP.map h entry he).2⟩⟩
  | tag _ _ ih => exact ⟨him _ _ h, ih (hP.tag h)⟩
  | _ => exact him _ _ h

/-- What holds everywhere in an item holds everywhere in its parts. -/
theorem inherited_every : Inherited fun depth item => item.Every P depth where
  array h := (every_array.mp h).2
  map h := (every_map.mp h).2
  tag h := h.2

theorem Inherited.and (hP : Inherited P) (hQ : Inherited Q) :
    Inherited fun depth item => P depth item ∧ Q depth item where
  array h item hi := ⟨hP.array h.1 item hi, hQ.array h.2 item hi⟩
  map h entry he := by
    have ⟨hk, hv⟩ := hP.map h.1 entry he
    exact (hQ.map h.2 entry he).imp (⟨hk, ·⟩) (⟨hv, ·⟩)
  tag h := ⟨hP.tag h.1, hQ.tag h.2⟩

theorem Item.Every.imp (h : item.Every P depth) (him : ∀ depth item, P depth item → Q depth item) :
    item.Every Q depth :=
  inherited_every.every h fun _ _ h => him _ _ h.here

/-- A condition and one that holds only in some case. -/
theorem Item.Every.and_imp {c : Prop} (h : item.Every P depth) (h' : c → item.Every Q depth) :
    item.Every (fun depth item => P depth item ∧ (c → Q depth item)) depth := by
  by_cases hc : c
  · exact (inherited_every.and inherited_every).every ⟨h, h' hc⟩ fun _ _ h =>
      ⟨h.1.here, fun _ => h.2.here⟩
  · exact h.imp fun _ _ h => ⟨h, (absurd · hc)⟩

end Every

/-! ## 4. Decoding -/

/-- The arguments and lengths fit into a head, and a simple value is not one of those that no
head may carry. -/
def Item.Argued : Item → Prop
  | .unsigned n | .negative n | .tag n _ => n ≤ maxArgument
  | .bytes payload | .text payload => payload.length ≤ maxArgument
  | .array items => items.length ≤ maxArgument
  | .map entries => entries.length ≤ maxArgument
  | .simple value => value < 24 ∨ 32 ≤ value ∧ value < 256

/-- The items that have an encoding. -/
def Item.WellFormed (item : Item) : Prop := item.Every (fun _ => Item.Argued) 0

/-- A number of parts, one after the other. -/
def parseMany {α : Type} (parse : List UInt8 → Option (α × List UInt8)) :
    Nat → List UInt8 → Option (List α × List UInt8)
  | 0, input => some ([], input)
  | count + 1, input => do
      let (part, input) ← parse input
      let (parts, input) ← parseMany parse count input
      return (part :: parts, input)

/-- Two parts, one after the other. -/
def parsePair {α : Type} (parse : List UInt8 → Option (α × List UInt8)) (input : List UInt8) :
    Option ((α × α) × List UInt8) := do
  let (key, input) ← parse input
  let (value, input) ← parse input
  return ((key, value), input)

/-- A string of the given length. -/
def parseString (length : Nat) (input : List UInt8) : Option (List UInt8 × List UInt8) :=
  if length ≤ input.length then some (input.take length, input.drop length) else none

/-- Decodes an item of definite length, with heads of any length; there are no floats. -/
def parseItem : Nat → List UInt8 → Option (Item × List UInt8)
  | 0, _ => none
  | fuel + 1, input => do
      let ((major, info, n), input) ← parseHead input
      match major with
      | 0 => return (.unsigned n, input)
      | 1 => return (.negative n, input)
      | 2 =>
        let (payload, input) ← parseString n input
        return (.bytes payload, input)
      | 3 =>
        let (payload, input) ← parseString n input
        return (.text payload, input)
      | 4 =>
        let (items, input) ← parseMany (parseItem fuel) n input
        return (.array items, input)
      | 5 =>
        let (entries, input) ← parseMany (parsePair (parseItem fuel)) n input
        return (.map entries, input)
      | 6 =>
        let (content, input) ← parseItem fuel input
        return (.tag n content, input)
      | _ =>
        -- two bytes carry only the values that one byte cannot
        guard (info < 24 ∨ info = 24 ∧ 32 ≤ n)
        return (.simple n, input)

/-- The item that the bytes encode. -/
def parse (input : List UInt8) : Option Item :=
  match parseItem input.length input with
  | some (item, []) => some item
  | _ => none

section Parse

theorem length_write_pos (item : Item) : 0 < item.write.length := by
  cases item <;> simp only [Item.write, List.length_append, length_head] <;> omega

theorem parseString_append (body rest : List UInt8) :
    parseString body.length (body ++ rest) = some (body, rest) := by
  simp [parseString]

variable {fuel : Nat}

/-- A list of items is read back when each of them is. -/
theorem parseMany_items (rest : List UInt8)
    (hp : ∀ item ∈ items, ∀ rest, parseItem fuel (item.write ++ rest) = some (item, rest)) :
    parseMany (parseItem fuel) items.length (writeItems items ++ rest) = some (items, rest) := by
  induction items with
  | nil => rfl
  | cons item items ih =>
    have hi := hp item List.mem_cons_self (writeItems items ++ rest)
    have hit := ih (List.forall_mem_cons.mp hp).2
    simp [parseMany, writeItems, hi, hit]

/-- And so the entries of a map. -/
theorem parseMany_entries (rest : List UInt8) (hp : ∀ entry ∈ entries,
      (∀ rest, parseItem fuel (entry.1.write ++ rest) = some (entry.1, rest)) ∧
      ∀ rest, parseItem fuel (entry.2.write ++ rest) = some (entry.2, rest)) :
    parseMany (parsePair (parseItem fuel)) entries.length (writeEntries entries ++ rest) =
      some (entries, rest) := by
  induction entries with
  | nil => rfl
  | cons entry entries ih =>
    obtain ⟨hk, hv⟩ := hp entry List.mem_cons_self
    have he := ih (List.forall_mem_cons.mp hp).2
    simp [parseMany, parsePair, writeEntries, hk, hv, he]

theorem writeItems_eq_flatMap (items : List Item) :
    writeItems items = items.flatMap Item.write := by
  induction items with
  | nil => rfl
  | cons _ items ih => rw [writeItems, ih, List.flatMap_cons]

theorem writeEntries_eq_flatMap (entries : List (Item × Item)) :
    writeEntries entries = entries.flatMap fun entry => entry.1.write ++ entry.2.write := by
  induction entries with
  | nil => rfl
  | cons entry entries ih => rw [writeEntries, ih, List.flatMap_cons]

theorem sizeItems_eq (items : List Item) : sizeItems items = (items.map Item.size).sum := by
  induction items with
  | nil => rfl
  | cons _ items ih => simp [sizeItems, ih]

theorem sizeEntries_eq (entries : List (Item × Item)) :
    sizeEntries entries = (entries.map fun entry => entry.1.size + entry.2.size).sum := by
  induction entries with
  | nil => rfl
  | cons entry entries ih => simp [sizeEntries, ih]

theorem length_writeItems (items : List Item) :
    (writeItems items).length = (items.map fun item => item.write.length).sum := by
  rw [writeItems_eq_flatMap, List.length_flatMap]

theorem length_writeEntries (entries : List (Item × Item)) : (writeEntries entries).length
    = (entries.map fun entry => entry.1.write.length + entry.2.write.length).sum := by
  simp [writeEntries_eq_flatMap]

variable {item other : Item} {depth : Nat}

/-- The length of a part is at most that of the whole. -/
theorem length_write_le_items (h : item ∈ items) :
    item.write.length ≤ (writeItems items).length := by
  rw [length_writeItems]
  exact List.single_le_sum (by simp) _ (List.mem_map_of_mem h)

theorem length_write_le_entries {entry : Item × Item} (h : entry ∈ entries) :
    entry.1.write.length ≤ (writeEntries entries).length ∧
      entry.2.write.length ≤ (writeEntries entries).length := by
  have hle := List.single_le_sum (by simp) _
    (List.mem_map_of_mem (f := fun entry => entry.1.write.length + entry.2.write.length) h)
  rw [length_writeEntries]
  omega

/-- No item within an item is deeper than its encoding is long. -/
theorem Item.Every.level_lt {P : Nat → Item → Prop} {bound : Nat} (h : item.Every P depth)
    (hb : depth + item.write.length ≤ bound) :
    item.Every (fun level item => P level item ∧ level < bound) depth := by
  have hi : Inherited fun level item => level + item.write.length ≤ bound := {
    array h item hi := by
      have hle := length_write_le_items hi
      rw [Item.write, List.length_append, length_head] at h
      omega
    map h entry he := by
      have hle := length_write_le_entries he
      rw [Item.write, List.length_append, length_head] at h
      omega
    tag h := by
      rw [Item.write, List.length_append, length_head] at h
      omega }
  refine (inherited_every.and hi).every ⟨h, hb⟩ fun level item h => ⟨h.1.here, ?_⟩
  have hp := length_write_pos item
  omega

/-- Every item takes a byte. -/
theorem size_le_length_write (item : Item) : item.size ≤ item.write.length := by
  induction item using Item.induction with
  | array _ ih =>
    have hi := List.sum_le_sum ih
    rw [← sizeItems_eq, ← length_writeItems] at hi
    simp only [Item.size, Item.write, List.length_append, length_head]
    omega
  | map _ ih =>
    have hen := List.sum_le_sum fun entry he =>
      Nat.add_le_add (ih entry he).1 (ih entry he).2
    rw [← sizeEntries_eq, ← length_writeEntries] at hen
    simp only [Item.size, Item.write, List.length_append, length_head]
    omega
  | tag _ _ ih =>
    simp only [Item.size, Item.write, List.length_append, length_head]
    omega
  | _ => exact length_write_pos _

theorem width_le (info : Nat) : width info ≤ 8 := by
  unfold width
  split <;> omega

/-- A string of bounded length. -/
def Item.Short (bound : Nat) : Item → Prop
  | .bytes payload | .text payload => payload.length ≤ bound
  | _ => True

/-- Items with short strings take no more than their number allows. -/
theorem length_write_le {bound : Nat} (h : item.Every (fun _ => Item.Short bound) depth) :
    item.write.length ≤ item.size * (9 + bound) := by
  induction item using Item.induction generalizing depth with
  | array items ih =>
    rw [every_array] at h
    have hit := List.sum_le_sum fun item hi => ih item hi (h.2 item hi)
    rw [List.sum_map_mul_right, ← sizeItems_eq, ← length_writeItems] at hit
    have := width_le (additional items.length)
    rw [Item.write, Item.size, List.length_append, length_head, Nat.add_mul]
    omega
  | map entries ih =>
    rw [every_map] at h
    have hen := List.sum_le_sum fun entry he => Nat.add_le_add
      ((ih entry he).1 (h.2 entry he).1) ((ih entry he).2 (h.2 entry he).2)
    simp only [← Nat.add_mul] at hen
    rw [List.sum_map_mul_right, ← sizeEntries_eq, ← length_writeEntries] at hen
    have := width_le (additional entries.length)
    rw [Item.write, Item.size, List.length_append, length_head, Nat.add_mul]
    omega
  | tag num _ ih =>
    have hc := ih h.2
    have := width_le (additional num)
    rw [Item.write, Item.size, List.length_append, length_head, Nat.add_mul]
    omega
  | bytes body | text body =>
    have hs : body.length ≤ bound := h
    have := width_le (additional body.length)
    simp only [Item.write, Item.size, List.length_append, length_head]
    omega
  | unsigned n | negative n | simple n =>
    have := width_le (additional n)
    simp only [Item.write, Item.size, length_head]
    omega

theorem exists_fuel (h : item.write.length ≤ fuel) : ∃ rest, fuel = rest + 1 :=
  Nat.exists_eq_add_one_of_ne_zero (by have := length_write_pos item; omega)

/-- **The decoder undoes the encoding.** -/
theorem parseItem_write (h : item.Every (fun _ => Item.Argued) depth)
    (hf : item.write.length ≤ fuel) (rest : List UInt8) :
    parseItem fuel (item.write ++ rest) = some (item, rest) := by
  induction item using Item.induction generalizing fuel depth rest with
    obtain ⟨fuel, rfl⟩ := exists_fuel hf
  | unsigned n | negative n =>
    rw [Item.write, parseItem, parseHead_head _ (by decide) h.here]
    rfl
  | bytes body | text body =>
    rw [Item.write, List.append_assoc, parseItem, parseHead_head _ (by decide) h.here]
    simp [parseString_append]
  | array items ih =>
    rw [every_array] at h
    rw [Item.write, List.length_append, length_head] at hf
    have hit : parseMany (parseItem fuel) items.length _ = _ :=
      parseMany_items rest fun item hi rest =>
        ih item hi (h.2 item hi) (by have := length_write_le_items hi; omega) rest
    rw [Item.write, List.append_assoc, parseItem, parseHead_head _ (by decide) h.1]
    simp [hit]
  | map entries ih =>
    rw [every_map] at h
    rw [Item.write, List.length_append, length_head] at hf
    have hen : parseMany (parsePair (parseItem fuel)) entries.length _ = _ :=
      parseMany_entries rest fun entry he => by
        have hle := length_write_le_entries he
        exact ⟨(ih entry he).1 (h.2 entry he).1 (by omega),
          (ih entry he).2 (h.2 entry he).2 (by omega)⟩
    rw [Item.write, List.append_assoc, parseItem, parseHead_head _ (by decide) h.1]
    simp [hen]
  | tag _ content ih =>
    rw [Item.write, List.length_append, length_head] at hf
    have hc : content.write.length ≤ fuel := by omega
    rw [Item.write, List.append_assoc, parseItem, parseHead_head _ (by decide) h.1]
    simp [ih h.2 hc rest]
  | simple value =>
    have hv : value < 24 ∨ 32 ≤ value ∧ value < 256 := h.here
    have hin : additional value < 24 ∨ additional value = 24 ∧ 32 ≤ value := by
      unfold additional
      split_ifs <;> omega
    rw [Item.write, parseItem, parseHead_head _ (by decide) (by unfold maxArgument; omega)]
    simp [guard, hin]

/-- **No encoding is the beginning of another.** -/
theorem write_append_inj (h : item.WellFormed) (h' : other.WellFormed) {rest rest' : List UInt8}
    (heq : item.write ++ rest = other.write ++ rest') : item = other ∧ rest = rest' := by
  have hi := parseItem_write h (Nat.le_max_left item.write.length other.write.length) rest
  have ho := parseItem_write h' (Nat.le_max_right item.write.length other.write.length) rest'
  rw [heq, ho] at hi
  simpa [eq_comm] using hi

/-- No two items have the same bytes. -/
theorem write_injective (h : item.WellFormed) (h' : other.WellFormed)
    (heq : item.write = other.write) : item = other :=
  (write_append_inj h h' (congrArg (· ++ []) heq)).1

/-- What was written is read back. -/
theorem parse_write (h : item.WellFormed) : parse item.write = some item := by
  have hi := parseItem_write h (Nat.le_refl _) []
  rw [List.append_nil] at hi
  rw [parse, hi]

end Parse

end Einsatzarchiv.Lib.Cbor
