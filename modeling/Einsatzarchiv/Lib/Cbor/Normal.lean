/-
  File:      Einsatzarchiv/Lib/Cbor/Normal.lean
  Subject:   When two CBOR items are the same, and the normal form that decides it.

  A map is the set of its entries; the order in which they are written does not belong to it.

  * `Item.Same`, `DataItem`: the items up to the order of map entries, at every depth.
  * `Item.normalize`: the entries of every map sorted by the bytes of their keys.
  * `Item.Ordered`, `Item.Distinct`: keys that ascend, and keys that differ in normal form.
  * `ordered_normalize`, `normalize_of_ordered`: normal forms are the ordered items.
  * `every_normalize`, `size_normalize`, `length_write_normalize`: what normalizing keeps.
  * `same_iff_normalize_eq`: items with distinct keys are the same when their normal forms are.
-/
import Einsatzarchiv.Lib.Cbor.Items
import Einsatzarchiv.Lib.Lists
import Mathlib.Data.List.Forall2
import Mathlib.Data.List.Lex

namespace Einsatzarchiv.Lib.Cbor

/-! ## 1. The order of keys -/

/-- Bytes in their lexicographic order. -/
def keyOrder (bytes : List UInt8) : List Nat := bytes.map UInt8.toNat

/-- No two keys are equal in the order. -/
theorem keyOrder_injective : Function.Injective keyOrder :=
  List.map_injective_iff.mpr fun _ _ => UInt8.toNat_inj.mp

/-- The place of an entry in its map. -/
def entryKey (entry : Item × Item) : List Nat := keyOrder entry.1.write

/-- The keys of a map ascend. -/
def Item.KeysOrdered : Item → Prop
  | .map entries => entries.Pairwise fun a b => entryKey a < entryKey b
  | _ => True

/-- The keys of all maps are in order. -/
def Item.Ordered (item : Item) : Prop := item.Every (fun _ => Item.KeysOrdered) 0

/-! ## 2. The normal form -/

mutual

/-- Sorts the entries of every map by the bytes of their normalized keys. -/
def Item.normalize : Item → Item
  | .array items => .array (normalizeItems items)
  | .map entries => .map (sortByKey entryKey (normalizeEntries entries))
  | .tag number content => .tag number content.normalize
  | item => item

/-- Each item in its normal form. -/
def normalizeItems : List Item → List Item
  | [] => []
  | item :: items => item.normalize :: normalizeItems items

/-- Each key and value in its normal form. -/
def normalizeEntries : List (Item × Item) → List (Item × Item)
  | [] => []
  | (key, value) :: entries => (key.normalize, value.normalize) :: normalizeEntries entries

end

/-- An entry of a map in its normal form. -/
def normalizeEntry (entry : Item × Item) : Item × Item := (entry.1.normalize, entry.2.normalize)

/-- The keys of a map differ in normal form. -/
def Item.KeysDistinct : Item → Prop
  | .map entries => (entries.map normalizeEntry).Pairwise fun a b => entryKey a ≠ entryKey b
  | _ => True

/-- No map has a key twice. -/
def Item.Distinct (item : Item) : Prop := item.Every (fun _ => Item.KeysDistinct) 0

@[simp] theorem normalize_array (items : List Item) :
    (Item.array items).normalize = .array (items.map Item.normalize) := by
  have h : ∀ items : List Item, normalizeItems items = items.map Item.normalize := by
    intro items
    induction items with
    | nil => rfl
    | cons _ items ih => simp [normalizeItems, ih]
  rw [Item.normalize, h]

@[simp] theorem normalize_map (entries : List (Item × Item)) : (Item.map entries).normalize =
    .map (sortByKey entryKey (entries.map normalizeEntry)) := by
  have h : ∀ entries : List (Item × Item), normalizeEntries entries =
      entries.map normalizeEntry := by
    intro entries
    induction entries with
    | nil => rfl
    | cons _ entries ih => simp [normalizeEntries, normalizeEntry, ih]
  rw [Item.normalize, h]

@[simp] theorem normalize_tag (num : Nat) (content : Item) :
    (Item.tag num content).normalize = .tag num content.normalize := by
  rw [Item.normalize]

variable {entries : List (Item × Item)}

/-- A member of a normalized map is a normalized entry. -/
theorem mem_normalized {entry : Item × Item} :
    entry ∈ sortByKey entryKey (entries.map normalizeEntry) ↔
      ∃ original ∈ entries, normalizeEntry original = entry := by
  rw [mem_sortByKey, List.mem_map]

variable {item item' : Item} {depth : Nat} {P : Nat → Item → Prop} {α : Type}

/-- What normalizing makes of the condition at one item, it makes of it throughout. -/
theorem every_normalize_of {Q : Nat → Item → Prop}
    (hs : ∀ depth item, P depth item → Q depth item.normalize) (h : item.Every P depth) :
    item.normalize.Every Q depth := by
  induction item using Item.induction generalizing depth with
  | array _ ih =>
    rw [every_array] at h
    have hh := hs _ _ h.1
    rw [normalize_array] at hh ⊢
    refine every_array.mpr ⟨hh, fun normal hn => ?_⟩
    obtain ⟨item, hi, rfl⟩ := List.mem_map.mp hn
    exact ih item hi (h.2 item hi)
  | map _ ih =>
    rw [every_map] at h
    have hh := hs _ _ h.1
    rw [normalize_map] at hh ⊢
    refine every_map.mpr ⟨hh, fun normal hn => ?_⟩
    obtain ⟨entry, he, rfl⟩ := mem_normalized.mp hn
    exact ⟨(ih entry he).1 (h.2 entry he).1, (ih entry he).2 (h.2 entry he).2⟩
  | tag _ _ ih =>
    have hh := hs _ _ h.1
    exact every_tag.mpr ⟨hh, ih h.2⟩
  | _ => exact hs _ _ h

/-- The normal form is ordered. -/
theorem ordered_normalize (h : item.Every (fun _ => Item.KeysDistinct) depth) :
    item.normalize.Every (fun _ => Item.KeysOrdered) depth := by
  refine every_normalize_of (fun _ item hd => ?_) h
  cases item with
  | map entries =>
    rw [normalize_map]
    have hne : (sortByKey entryKey (entries.map normalizeEntry)).Pairwise
        fun a b => entryKey a ≠ entryKey b :=
      ((perm_sortByKey _ _).pairwise_iff fun h => Ne.symm h).mpr hd
    exact (pairwise_sortByKey _ _).imp₂ (fun _ _ => lt_of_le_of_ne) hne
  | array | tag => simp only [normalize_array, normalize_tag, Item.KeysOrdered]
  | _ => trivial

/-- What is ordered is normal. -/
theorem normalize_of_ordered (h : item.Every (fun _ => Item.KeysOrdered) depth) :
    item.normalize = item := by
  induction item using Item.induction generalizing depth with
  | array _ ih =>
    rw [every_array] at h
    rw [normalize_array, List.map_congr_left fun item hi => ih item hi (h.2 item hi), List.map_id']
  | map entries ih =>
    rw [every_map] at h
    have hs : entries.map normalizeEntry = entries := by
      rw [List.map_congr_left (g := id), List.map_id]
      exact fun entry he => Prod.ext ((ih entry he).1 (h.2 entry he).1)
        ((ih entry he).2 (h.2 entry he).2)
    have hso : entries.Pairwise fun a b => entryKey a ≤ entryKey b := h.1.imp le_of_lt
    rw [normalize_map, hs, sortByKey, hso.insertionSort_eq]
  | tag _ _ ih =>
    rw [normalize_tag, ih h.2]
  | _ => rfl

theorem distinct_of_ordered (h : item.Every (fun _ => Item.KeysOrdered) depth) :
    item.Every (fun _ => Item.KeysDistinct) depth := by
  refine inherited_every.every h fun _ item h => ?_
  cases item with
  | map entries =>
    rw [every_map] at h
    have hk : ∀ entry ∈ entries, entryKey (normalizeEntry entry) = entryKey entry :=
      fun entry he => by
        simp only [entryKey, normalizeEntry, normalize_of_ordered (h.2 entry he).1]
    refine List.pairwise_map.mpr (h.1.imp_of_mem fun {a b} ha hb hlt => ?_)
    rw [hk a ha, hk b hb]
    exact hlt.ne
  | _ => trivial

/-! ## 3. What normalizing keeps -/

/-- A condition that looks at a container only for its length and at a tag only for its number. -/
structure ShapeOnly (P : Nat → Item → Prop) : Prop where
  array : ∀ {depth items items'}, items.length = items'.length → P depth (.array items) →
    P depth (.array items')
  map : ∀ {depth entries entries'}, entries.length = entries'.length → P depth (.map entries) →
    P depth (.map entries')
  tag : ∀ {depth number content content'}, P depth (.tag number content) →
    P depth (.tag number content')

/-- What depends on the shape only is kept. -/
theorem every_normalize (hP : ShapeOnly P) (h : item.Every P depth) :
    item.normalize.Every P depth := by
  refine every_normalize_of (fun _ item hi => ?_) h
  cases item with
  | array items => exact normalize_array items ▸ hP.array (by simp) hi
  | map entries =>
    exact normalize_map entries ▸ hP.map (by simp [(perm_sortByKey _ _).length_eq]) hi
  | tag num content => exact normalize_tag num content ▸ hP.tag hi
  | _ => exact hi

theorem shapeOnly_argued : ShapeOnly fun _ => Item.Argued where
  array h hle := by
    simp only [Item.Argued] at hle ⊢
    omega
  map h hle := by
    simp only [Item.Argued] at hle ⊢
    omega
  tag hle := hle

/-- No item is lost. -/
theorem size_normalize (item : Item) : item.normalize.size = item.size := by
  induction item using Item.induction with
  | array _ ih =>
    simp only [normalize_array, Item.size, sizeItems_eq, List.map_map]
    exact congrArg (1 + List.sum ·) (List.map_congr_left ih)
  | map _ ih =>
    simp only [normalize_map, Item.size, sizeEntries_eq]
    rw [((perm_sortByKey _ _).map _).sum_nat, List.map_map]
    refine congrArg (1 + List.sum ·) (List.map_congr_left fun entry he => ?_)
    simp [normalizeEntry, ih entry he]
  | tag _ _ ih => simp only [normalize_tag, Item.size, ih]
  | _ => rfl

/-- And no byte. -/
theorem length_write_normalize (item : Item) : item.normalize.write.length = item.write.length := by
  induction item using Item.induction with
  | array _ ih =>
    simp only [normalize_array, Item.write, List.length_append, length_writeItems,
      List.length_map, List.map_map]
    exact congrArg (_ + List.sum ·) (List.map_congr_left ih)
  | map _ ih =>
    simp only [normalize_map, Item.write, List.length_append, length_writeEntries,
      (perm_sortByKey _ _).length_eq, List.length_map]
    rw [((perm_sortByKey _ _).map _).sum_nat, List.map_map]
    refine congrArg (_ + List.sum ·) (List.map_congr_left fun entry he => ?_)
    simp [normalizeEntry, ih entry he]
  | tag _ _ ih => simp only [normalize_tag, Item.write, List.length_append, ih]
  | _ => rfl

/-! ## 4. The same item -/

mutual

/-- The items are equal up to the order of map entries. -/
def Item.Same : Item → Item → Prop
  | .array items, .array items' => SameItems items items'
  | .map entries, .map entries' => Covered entries entries' ∧
      ∀ entry ∈ entries', Partnered entries entry
  | .tag number content, .tag number' content' => number = number' ∧ content.Same content'
  | item, item' => item = item'

def SameItems : List Item → List Item → Prop
  | [], [] => True
  | item :: items, item' :: items' => item.Same item' ∧ SameItems items items'
  | _, _ => False

/-- Every entry of the first map is an entry of the second. -/
def Covered : List (Item × Item) → List (Item × Item) → Prop
  | [], _ => True
  | (key, value) :: entries, entries' =>
    (∃ entry ∈ entries', key.Same entry.1 ∧ value.Same entry.2) ∧ Covered entries entries'

/-- The entry is one of the map. -/
def Partnered : List (Item × Item) → Item × Item → Prop
  | [], _ => False
  | (key, value) :: entries, entry =>
    key.Same entry.1 ∧ value.Same entry.2 ∨ Partnered entries entry

end

section Same

theorem same_array {items items' : List Item} :
    (Item.array items).Same (.array items') ↔ List.Forall₂ Item.Same items items' := by
  have h : ∀ items items' : List Item, SameItems items items' ↔
      List.Forall₂ Item.Same items items' := by
    intro items
    induction items with
    | nil => intro items'; cases items' <;> simp [SameItems]
    | cons _ items ih => intro items'; cases items' <;> simp [SameItems, ih]
  rw [Item.Same, h]

/-- Maps are the same when they have the same entries. -/
theorem same_map {entries' : List (Item × Item)} : (Item.map entries).Same (.map entries') ↔
      (∀ entry ∈ entries, ∃ entry' ∈ entries', entry.1.Same entry'.1 ∧ entry.2.Same entry'.2) ∧
      ∀ entry' ∈ entries', ∃ entry ∈ entries, entry.1.Same entry'.1 ∧ entry.2.Same entry'.2 := by
  have hc : ∀ entries : List (Item × Item), Covered entries entries' ↔
      ∀ entry ∈ entries, ∃ entry' ∈ entries', entry.1.Same entry'.1 ∧ entry.2.Same entry'.2 := by
    intro entries
    induction entries with
    | nil => simp [Covered]
    | cons entry entries ih => rw [Covered, ih, List.forall_mem_cons]
  have hp : ∀ (entries : List (Item × Item)) (entry' : Item × Item), Partnered entries entry' ↔
        ∃ entry ∈ entries, entry.1.Same entry'.1 ∧ entry.2.Same entry'.2 := by
    intro entries entry'
    induction entries with
    | nil => simp [Partnered]
    | cons entry entries ih => rw [Partnered, ih, List.exists_mem_cons_iff]
  simp only [Item.Same, hc, hp]

theorem same_tag {num num' : Nat} {content content' : Item} :
    (Item.tag num content).Same (.tag num' content') ↔ num = num' ∧ content.Same content' := by
  rw [Item.Same]

theorem Item.Same.refl (item : Item) : item.Same item := by
  induction item using Item.induction with
  | array _ ih => exact same_array.mpr (List.forall₂_same.mpr ih)
  | map _ ih =>
    exact same_map.mpr ⟨fun entry he => ⟨entry, he, ih entry he⟩,
      fun entry he => ⟨entry, he, ih entry he⟩⟩
  | tag _ _ ih => exact same_tag.mpr ⟨rfl, ih⟩
  | _ => simp [Item.Same]

theorem same_array_left {items : List Item} : (Item.array items).Same item' ↔
    ∃ items', item' = .array items' ∧ List.Forall₂ Item.Same items items' := by
  cases item' <;> simp [same_array, Item.Same]

theorem same_map_left : (Item.map entries).Same item' ↔
      ∃ entries', item' = .map entries' ∧ (Item.map entries).Same (.map entries') := by
  cases item' <;> simp [Item.Same]

theorem same_tag_left {num : Nat} {content : Item} : (Item.tag num content).Same item' ↔
      ∃ content', item' = .tag num content' ∧ content.Same content' := by
  cases item' <;> simp [Item.Same, and_comm, eq_comm]

theorem Item.Same.symm (h : item.Same item') : item'.Same item := by
  induction item using Item.induction generalizing item' with
  | array items ih =>
    obtain ⟨items', rfl, hi⟩ := same_array_left.mp h
    refine same_array.mpr (List.Forall₂.flip ?_)
    exact ((List.forall₂_and_left items items').mpr ⟨fun _ => id, hi⟩).imp
      fun item item' h => ih item h.1 h.2
  | map _ ih =>
    obtain ⟨_, rfl, -⟩ := same_map_left.mp h
    rw [same_map] at h ⊢
    refine ⟨fun entry' he' => ?_, fun entry he => ?_⟩
    · obtain ⟨entry, he, hk, hv⟩ := h.2 entry' he'
      exact ⟨entry, he, (ih entry he).1 hk, (ih entry he).2 hv⟩
    · obtain ⟨entry', he', hk, hv⟩ := h.1 entry he
      exact ⟨entry', he', (ih entry he).1 hk, (ih entry he).2 hv⟩
  | tag _ _ ih =>
    obtain ⟨_, rfl, hc⟩ := same_tag_left.mp h
    exact same_tag.mpr ⟨rfl, ih hc⟩
  | _ => cases item' <;> simp_all [Item.Same]

theorem forall₂_trans_of_mem {R : α → α → Prop} {l l' l'' : List α}
    (ht : ∀ a ∈ l, ∀ {b c}, R a b → R b c → R a c) (h : List.Forall₂ R l l')
    (h' : List.Forall₂ R l' l'') : List.Forall₂ R l l'' := by
  induction h generalizing l'' with
  | nil => exact h'
  | cons hab _ ih =>
    cases h' with
    | cons hbc h' =>
      exact .cons (ht _ List.mem_cons_self hab hbc) (ih (List.forall_mem_cons.mp ht).2 h')

theorem Item.Same.trans {item'' : Item} (h : item.Same item') (h' : item'.Same item'') :
    item.Same item'' := by
  induction item using Item.induction generalizing item' item'' with
  | array _ ih =>
    obtain ⟨_, rfl, hi⟩ := same_array_left.mp h
    obtain ⟨_, rfl, hitems'⟩ := same_array_left.mp h'
    exact same_array.mpr (forall₂_trans_of_mem ih hi hitems')
  | map _ ih =>
    obtain ⟨_, rfl, -⟩ := same_map_left.mp h
    obtain ⟨_, rfl, -⟩ := same_map_left.mp h'
    rw [same_map] at h h' ⊢
    refine ⟨fun entry he => ?_, fun entry'' hentry'' => ?_⟩
    · obtain ⟨entry', he', hk, hv⟩ := h.1 entry he
      obtain ⟨entry'', hentry'', hk', hvalue'⟩ := h'.1 entry' he'
      exact ⟨entry'', hentry'', (ih entry he).1 hk hk', (ih entry he).2 hv hvalue'⟩
    · obtain ⟨entry', he', hk', hvalue'⟩ := h'.2 entry'' hentry''
      obtain ⟨entry, he, hk, hv⟩ := h.2 entry' he'
      exact ⟨entry, he, (ih entry he).1 hk hk', (ih entry he).2 hv hvalue'⟩
  | tag _ _ ih =>
    obtain ⟨_, rfl, hc⟩ := same_tag_left.mp h
    obtain ⟨_, rfl, hcontent'⟩ := same_tag_left.mp h'
    exact same_tag.mpr ⟨rfl, ih hc hcontent'⟩
  | _ => cases item' <;> simp_all [Item.Same, Item.Same.refl]

/-- Items up to the order of map entries. -/
instance Item.setoid : Setoid Item where
  r := Item.Same
  iseqv := ⟨Item.Same.refl, Item.Same.symm, Item.Same.trans⟩

end Same

/-- A data item: maps are finite maps from data items to data items. -/
def DataItem : Type := Quotient Item.setoid

def DataItem.of (item : Item) : DataItem := Quotient.mk Item.setoid item

/-- Two items stand for the same when they differ in the order of maps only. -/
theorem DataItem.of_eq : of item = of item' ↔ item.Same item' := Quotient.eq

/-- The data item that the bytes encode. -/
def denote (input : List UInt8) : Option DataItem := (parse input).map DataItem.of

/-- The bytes stand for their item. -/
theorem denote_write (h : item.WellFormed) : denote item.write = some (.of item) := by
  rw [denote, parse_write h, Option.map_some]

/-! ## 5. Normal forms decide sameness -/

theorem map_eq_map_of_forall₂ {β γ : Type} {R : α → β → Prop} {f : α → γ} {g : β → γ} {l : List α}
    {l' : List β} (h : List.Forall₂ R l l') (heq : ∀ a ∈ l, ∀ b ∈ l', R a b → f a = g b) :
    l.map f = l'.map g := by
  induction h with
  | nil => rfl
  | cons hab _ ih =>
    rw [List.map_cons, List.map_cons, heq _ List.mem_cons_self _ List.mem_cons_self hab,
      ih fun a ha b hb => heq a (List.mem_cons_of_mem _ ha) b (List.mem_cons_of_mem _ hb)]

theorem nodup_of_keysDistinct (h : (Item.map entries).KeysDistinct) :
    (entries.map normalizeEntry).Nodup :=
  List.Pairwise.imp (fun hne heq => hne (congrArg entryKey heq)) h

/-- The same data have one normal form. -/
theorem Item.Same.normalize_eq {depth' : Nat} (h : item.Same item')
    (hi : item.Every (fun _ => Item.KeysDistinct) depth)
    (hitem' : item'.Every (fun _ => Item.KeysDistinct) depth') :
    item.normalize = item'.normalize := by
  induction item using Item.induction generalizing item' depth depth' with
  | array _ ih =>
    obtain ⟨_, rfl, hit⟩ := same_array_left.mp h
    rw [every_array] at hi hitem'
    rw [normalize_array, normalize_array]
    refine congrArg Item.array (map_eq_map_of_forall₂ hit fun item hm item' hm' hs => ?_)
    exact ih item hm hs (hi.2 item hm) (hitem'.2 item' hm')
  | map entries ih =>
    obtain ⟨entries', rfl, -⟩ := same_map_left.mp h
    rw [same_map] at h
    rw [every_map] at hi hitem'
    -- both normal forms hold the same entries, and the keys tell them apart
    have hm : ∀ entry, entry ∈ entries.map normalizeEntry ↔
        entry ∈ entries'.map normalizeEntry := by
      intro _
      simp only [List.mem_map]
      constructor
      · rintro ⟨entry, he, rfl⟩
        obtain ⟨entry', he', hk, hv⟩ := h.1 entry he
        refine ⟨entry', he', Prod.ext ?_ ?_⟩
        · exact ((ih entry he).1 hk (hi.2 entry he).1 (hitem'.2 entry' he').1).symm
        · exact ((ih entry he).2 hv (hi.2 entry he).2 (hitem'.2 entry' he').2).symm
      · rintro ⟨entry', he', rfl⟩
        obtain ⟨entry, he, hk, hv⟩ := h.2 entry' he'
        refine ⟨entry, he, Prod.ext ?_ ?_⟩
        · exact (ih entry he).1 hk (hi.2 entry he).1 (hitem'.2 entry' he').1
        · exact (ih entry he).2 hv (hi.2 entry he).2 (hitem'.2 entry' he').2
    have hp : (entries.map normalizeEntry).Perm (entries'.map normalizeEntry) :=
      (List.perm_ext_iff_of_nodup (nodup_of_keysDistinct hi.1)
        (nodup_of_keysDistinct hitem'.1)).mpr hm
    rw [normalize_map, normalize_map, sortByKey_eq_of_perm hp hi.1]
  | tag _ _ ih =>
    obtain ⟨_, rfl, hc⟩ := same_tag_left.mp h
    rw [normalize_tag, normalize_tag, ih hc hi.2 hitem'.2]
  | _ => cases item' <;> simp_all [Item.Same]

/-- One normal form means the same data. -/
theorem same_of_normalize_eq (h : item.normalize = item'.normalize) : item.Same item' := by
  induction item using Item.induction generalizing item' with
  | array items ih =>
    cases item' with
    | array items' =>
      simp only [normalize_array, Item.array.injEq] at h
      have heq : List.Forall₂ (· = ·) (items.map Item.normalize) (items'.map Item.normalize) :=
        h ▸ List.forall₂_same.mpr fun _ _ => rfl
      rw [List.forall₂_map_left_iff, List.forall₂_map_right_iff] at heq
      exact same_array.mpr (((List.forall₂_and_left items items').mpr ⟨fun _ => id, heq⟩).imp
        fun item item' h => ih item h.1 h.2)
    | _ => simp [Item.normalize] at h
  | map _ ih =>
    cases item' with
    | map _ =>
      simp only [normalize_map, Item.map.injEq] at h
      rw [same_map]
      refine ⟨fun entry he => ?_, fun entry' he' => ?_⟩
      · have hm := mem_normalized.mpr ⟨entry, he, rfl⟩
        rw [h] at hm
        obtain ⟨entry', he', heq⟩ := mem_normalized.mp hm
        obtain ⟨hk, hv⟩ := Prod.ext_iff.mp heq
        exact ⟨entry', he', (ih entry he).1 hk.symm, (ih entry he).2 hv.symm⟩
      · have hm := mem_normalized.mpr ⟨entry', he', rfl⟩
        rw [← h] at hm
        obtain ⟨entry, he, heq⟩ := mem_normalized.mp hm
        obtain ⟨hk, hv⟩ := Prod.ext_iff.mp heq
        exact ⟨entry, he, (ih entry he).1 hk, (ih entry he).2 hv⟩
    | _ => simp [Item.normalize] at h
  | tag _ _ ih =>
    cases item' with
    | tag _ _ =>
      simp only [normalize_tag, Item.tag.injEq] at h
      exact same_tag.mpr ⟨h.1, ih h.2⟩
    | _ => simp [Item.normalize] at h
  | _ => cases item' <;> simp_all [Item.Same, Item.normalize]

/-- **Items with distinct keys are the same exactly if their normal forms are equal.** -/
theorem same_iff_normalize_eq (h : item.Distinct) (h' : item'.Distinct) :
    item.Same item' ↔ item.normalize = item'.normalize :=
  ⟨fun hs => hs.normalize_eq h h', same_of_normalize_eq⟩

end Einsatzarchiv.Lib.Cbor
