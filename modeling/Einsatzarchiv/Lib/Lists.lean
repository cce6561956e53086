/-
  File:      Einsatzarchiv/Lib/Lists.lean
  Subject:   Lists: sorting by a key, windows of two, groups of equal key, parts and chains.

  * `sortByKey`: a stable sort by a key in a linear order.
  * `two_le_length_dedup_iff`: when a list holds two different elements.
  * `windows2`: the pairs of neighbours of a list; `forall_windows2_ne_iff` finds equal keys.
  * `windows`: the parts of a length; `infix_append_iff`: a part that further elements complete.
  * `groupsBy`: the maximal runs of equal key.  On a list sorted by the key the groups are the
    fibres of the key (`mem_groupsBy_of_key_eq`), in strictly increasing order of it
    (`pairwise_groupsBy`).
  * `mem_windows2_groupsBy_succ`: two groups with successive natural keys are neighbours.
  * `LeastBy rank P o`: `o` is the member of `P` of least rank, if `P` has a member;
    `LeastBy.insert`: a further member replaces it if its rank is smaller.
  * `Spans input start part stop`: the list holds `part` from `start` on up to `stop`.
  * `spans_append`: parts that follow each other.
  * `slice`: the elements between two positions, `Spans.slice_eq`.
  * `Chained`: each element stands in a relation to its position and its predecessor.
  * `Chained.concat`: a chain grows at its end.
  * `map_eq_range`, `monotone`: numbers without gaps, and an order along the chain.
  * `forall_getElem?_eq_iff`: of two lists one is the beginning of the other.
-/
import Mathlib.Data.List.Basic
import Mathlib.Data.List.Dedup
import Mathlib.Data.List.Destutter
import Mathlib.Data.List.MinMax
import Mathlib.Data.List.Sort
import Mathlib.Data.List.SplitBy
import Mathlib.Data.Prod.Lex
import Mathlib.Order.WellFounded

namespace Einsatzarchiv.Lib

section

section

variable {α β κ : Type*}

variable {l : List α} {r : α → α → Prop} {key : α → κ} {p : α × α} {a b : α}

/-- What holds of a list and of one more element. -/
theorem forall_mem_concat {p : α → Prop} (h : ∀ x ∈ l, p x) (ha : p a) : ∀ x ∈ l ++ [a], p x :=
  List.forall_mem_append.mpr ⟨h, List.forall_mem_singleton.mpr ha⟩

/-! ## 1. Sorting by a key -/

section Sorting

variable [LinearOrder κ]

/-- The list sorted by `key`; elements of equal key keep their order. -/
def sortByKey (key : α → κ) (l : List α) : List α :=
  l.insertionSort (fun a b => key a ≤ key b)

instance keyTotal (key : α → κ) : Std.Total (fun a b => key a ≤ key b) :=
  ⟨fun a b => le_total (key a) (key b)⟩

instance keyTrans (key : α → κ) : IsTrans α (fun a b => key a ≤ key b) :=
  ⟨fun _ _ _ => le_trans⟩

@[simp] theorem mem_sortByKey : a ∈ sortByKey key l ↔ a ∈ l := List.mem_insertionSort _

theorem perm_sortByKey (key : α → κ) (l : List α) : (sortByKey key l).Perm l :=
  List.perm_insertionSort _ l

theorem pairwise_sortByKey (key : α → κ) (l : List α) :
    (sortByKey key l).Pairwise (fun a b => key a ≤ key b) :=
  List.pairwise_insertionSort _ l

@[simp] theorem sortByKey_eq_nil : sortByKey key l = [] ↔ l = [] := by
  rw [← List.length_eq_zero_iff, (perm_sortByKey key l).length_eq, List.length_eq_zero_iff]

/-- With distinct keys the sorted list depends on the members only. -/
theorem sortByKey_eq_of_perm {l' : List α} (h : l.Perm l')
    (hk : l.Pairwise fun a b => key a ≠ key b) : sortByKey key l = sortByKey key l' := by
  have hp : (sortByKey key l).Perm (sortByKey key l') :=
    (perm_sortByKey key l).trans (h.trans (perm_sortByKey key l').symm)
  refine hp.eq_of_pairwise (fun a b ha hb hab hba => ?_) (pairwise_sortByKey key l)
    (pairwise_sortByKey key l')
  by_contra hne
  have : Std.Symm fun a b : α => key a ≠ key b := ⟨fun _ _ => Ne.symm⟩
  exact hk.forall (mem_sortByKey.mp ha) (h.mem_iff.mpr (mem_sortByKey.mp hb)) hne
    (le_antisymm hab hba)

/-- Sorting commutes with a map that carries the key. -/
theorem sortByKey_map {key : β → κ} (f : α → β) (l : List α) :
    sortByKey key (l.map f) = (sortByKey (fun a => key (f a)) l).map f :=
  (List.map_insertionSort _ _ f l fun _ _ _ _ => Iff.rfl).symm

end Sorting

/-! ## 2. Removing repeated neighbours -/

section Repeats

variable [DecidableEq α] {x : α}

/-- A list holds two different elements unless one element is all it holds. -/
theorem two_le_length_dedup_iff (hne : l ≠ []) : 2 ≤ l.dedup.length ↔ ¬ ∃ a, ∀ b ∈ l, b = a := by
  constructor
  · rintro h ⟨a, ha⟩
    have hs : l.dedup ⊆ [a] := fun b hb =>
      List.mem_singleton.mpr (ha b (List.mem_dedup.mp hb))
    have hle := (List.subperm_of_subset (List.nodup_dedup l) hs).length_le
    rw [List.length_singleton] at hle
    omega
  · intro h
    obtain ⟨a, ha⟩ := List.exists_mem_of_ne_nil l hne
    have ho : ∃ b ∈ l, b ≠ a := by
      by_contra hal
      exact h ⟨a, fun b hb => by_contra fun hba => hal ⟨b, hb, hba⟩⟩
    obtain ⟨b, hb, hba⟩ := ho
    have hs : [b, a] ⊆ l.dedup := by simp [ha, hb]
    have hp : [b, a].Nodup := by simpa using hba
    exact (List.subperm_of_subset hp hs).length_le

theorem mem_destutter'_ne (l : List α) : x ∈ List.destutter' (· ≠ ·) a l ↔ x = a ∨ x ∈ l := by
  induction l generalizing a with
  | nil => simp
  | cons b l ih =>
    by_cases h : a = b
    · subst h
      simp [List.destutter', ih]
    · simp [List.destutter', h, ih]

/-- Only repetitions are removed. -/
@[simp] theorem mem_destutter_ne : x ∈ l.destutter (· ≠ ·) ↔ x ∈ l := by
  cases l with
  | nil => simp
  | cons a l => simp [List.destutter, mem_destutter'_ne]

section

variable [LinearOrder κ] {l' : List α}

/-- Where the key determines an element, removing repetitions from the sorted list makes the keys
increase. -/
theorem pairwise_destutter_sortByKey (hk : ∀ a ∈ l, ∀ b ∈ l, key a = key b → a = b) :
    ((sortByKey key l).destutter (· ≠ ·)).Pairwise fun a b => key a < key b := by
  have hle : ((sortByKey key l).destutter (· ≠ ·)).IsChain fun a b => key a ≤ key b :=
    ((pairwise_sortByKey key l).sublist (List.destutter_sublist _ _)).isChain
  have hne : ((sortByKey key l).destutter (· ≠ ·)).IsChain (· ≠ ·) := List.isChain_destutter _ _
  rw [← List.isChain_iff_pairwise, List.isChain_iff_getElem]
  intro i hi
  refine lt_of_le_of_ne (List.isChain_iff_getElem.mp hle i hi) fun e =>
    List.isChain_iff_getElem.mp hne i hi (hk _ ?_ _ ?_ e)
  all_goals exact mem_sortByKey.mp (mem_destutter_ne.mp (List.getElem_mem _))

/-- The result then depends on the members only. -/
theorem destutter_sortByKey_congr (hk : ∀ a ∈ l, ∀ b ∈ l, key a = key b → a = b)
    (hs : ∀ a, a ∈ l' ↔ a ∈ l) :
    (sortByKey key l').destutter (· ≠ ·) = (sortByKey key l).destutter (· ≠ ·) := by
  refine (pairwise_destutter_sortByKey fun a ha b hb => hk a ((hs a).mp ha) b
    ((hs b).mp hb)).eq_of_mem_iff (pairwise_destutter_sortByKey hk) fun a => ?_
  rw [mem_destutter_ne, mem_destutter_ne, mem_sortByKey, mem_sortByKey, hs]
end

end Repeats

/-! ## 3. Windows of two -/

/-- The pairs of neighbours, in order. -/
def windows2 : List α → List (α × α)
  | a :: b :: l => (a, b) :: windows2 (b :: l)
  | _ => []

/-- A window is two members that stand next to each other. -/
theorem mem_windows2_iff : p ∈ windows2 l ↔ ∃ front rest, l = front ++ p.1 :: p.2 :: rest := by
  constructor
  · intro h
    fun_induction windows2 l with
    | case1 a b l ih =>
      rcases List.mem_cons.mp h with rfl | h
      · exact ⟨[], l, rfl⟩
      · obtain ⟨front, rest, e⟩ := ih h
        exact ⟨a :: front, rest, by rw [e, List.cons_append]⟩
    | case2 => cases h
  · rintro ⟨front, rest, rfl⟩
    induction front with
    | nil => exact List.mem_cons_self
    | cons a front ih =>
      cases front with
      | nil | cons b front => exact List.mem_cons_of_mem _ ih

theorem mem_of_mem_windows2 (h : p ∈ windows2 l) : p.1 ∈ l ∧ p.2 ∈ l := by
  obtain ⟨_, _, rfl⟩ := mem_windows2_iff.mp h
  simp

/-- A pairwise relation holds of every window. -/
theorem rel_of_mem_windows2 (hl : l.Pairwise r) (h : p ∈ windows2 l) : r p.1 p.2 := by
  obtain ⟨_, _, rfl⟩ := mem_windows2_iff.mp h
  exact List.rel_of_pairwise_cons (List.pairwise_append.mp hl).2.1 List.mem_cons_self

/-- Two distinct members of a list put each of them into a window. -/
theorem exists_window_of_ne (ha : a ∈ l) (hb : b ∈ l) (hne : a ≠ b) :
    ∃ p ∈ windows2 l, p.1 = a ∨ p.2 = a := by
  obtain ⟨front, rest, rfl⟩ := List.append_of_mem ha
  cases rest with
  | cons d rest => exact ⟨(a, d), mem_windows2_iff.mpr ⟨front, rest, rfl⟩, .inl rfl⟩
  | nil =>
    have hf : front ≠ [] := by
      rintro rfl
      exact hne (List.mem_singleton.mp hb).symm
    obtain ⟨front, d, rfl⟩ := (List.eq_nil_or_concat' front).resolve_left hf
    exact ⟨(d, a), mem_windows2_iff.mpr ⟨front, [], by simp⟩, .inr rfl⟩

theorem windows2_map (f : α → β) (l : List α) :
    windows2 (l.map f) = (windows2 l).map (Prod.map f f) := by
  induction l with
  | nil => rfl
  | cons a l ih =>
    cases l with
    | nil => rfl
    | cons b l => exact congrArg _ ih

theorem nodup_windows2 (hl : l.Nodup) : (windows2 l).Nodup := by
  fun_induction windows2 l with
  | case1 a b l ih =>
    rw [List.nodup_cons] at hl ⊢
    exact ⟨fun h => hl.1 (mem_of_mem_windows2 h).1, ih hl.2⟩
  | case2 => exact .nil

/-- Under strictly increasing keys the windows are the pairs with nothing between them. -/
theorem mem_windows2_iff_lt {f : α → Nat} (hl : l.Pairwise (fun a b => f a < f b)) :
    (a, b) ∈ windows2 l ↔ a ∈ l ∧ b ∈ l ∧ f a < f b ∧ ∀ c ∈ l, f c ≤ f a ∨ f b ≤ f c := by
  constructor
  · intro h
    refine ⟨(mem_of_mem_windows2 h).1, (mem_of_mem_windows2 h).2, rel_of_mem_windows2 hl h, ?_⟩
    obtain ⟨front, rest, rfl⟩ := mem_windows2_iff.mp h
    obtain ⟨-, hr, hf⟩ := List.pairwise_append.mp hl
    intro c hc
    rcases List.mem_append.mp hc with hc | hc
    · exact .inl (hf c hc a List.mem_cons_self).le
    · rcases List.mem_cons.mp hc with rfl | hc
      · exact .inl le_rfl
      · rcases List.mem_cons.mp hc with rfl | hc
        · exact .inr le_rfl
        · exact .inr (List.rel_of_pairwise_cons hr.of_cons hc).le
  · rintro ⟨ha, hb, hab, hn⟩
    obtain ⟨front, rest, rfl⟩ := List.append_of_mem ha
    obtain ⟨-, hr, hf⟩ := List.pairwise_append.mp hl
    have hbr : b ∈ rest := by
      rcases List.mem_append.mp hb with hb | hb
      · exact absurd (hf b hb a List.mem_cons_self) hab.not_gt
      · exact (List.mem_cons.mp hb).resolve_left (by rintro rfl; exact lt_irrefl _ hab)
    cases rest with
    | nil => cases hbr
    | cons d rest =>
      -- the next member is not below `b`, and `b` is not after it
      have had := List.rel_of_pairwise_cons hr List.mem_cons_self
      have hd := hn d (by simp)
      rcases List.mem_cons.mp hbr with rfl | hbr
      · exact mem_windows2_iff.mpr ⟨front, rest, rfl⟩
      · have := List.rel_of_pairwise_cons hr.of_cons hbr
        omega

/-- In a sorted list equal keys are neighbours. -/
theorem forall_windows2_ne_iff [LinearOrder κ] (hl : l.Pairwise fun a b => key a ≤ key b) :
    (∀ p ∈ windows2 l, key p.1 ≠ key p.2) ↔ l.Pairwise fun a b => key a ≠ key b := by
  refine ⟨fun h => ?_, fun h p hp => rel_of_mem_windows2 h hp⟩
  induction l with
  | nil => exact .nil
  | cons a l ih =>
    cases l with
    | nil => exact List.pairwise_singleton _ _
    | cons b l =>
      obtain ⟨hab, hr⟩ := List.pairwise_cons.mp hl
      obtain ⟨hbl, -⟩ := List.pairwise_cons.mp hr
      have hlt : key a < key b :=
        lt_of_le_of_ne (hab b List.mem_cons_self) (h (a, b) List.mem_cons_self)
      refine List.pairwise_cons.mpr ⟨fun c hc => ?_, ih hr (List.forall_mem_cons.mp h).2⟩
      rcases List.mem_cons.mp hc with rfl | hc
      · exact hlt.ne
      · exact (lt_of_lt_of_le hlt (hbl c hc)).ne

/-- The parts of a length, from left to right. -/
def windows (n : Nat) (l : List α) : List (List α) :=
  (List.range (l.length + 1 - n)).map fun i => (l.drop i).take n

theorem mem_windows_iff {part : List α} : part ∈ windows part.length l ↔ part <:+: l := by
  simp only [windows, List.mem_map, List.mem_range]
  constructor
  · rintro ⟨i, -, h⟩
    rw [← h]
    exact (List.take_prefix _ _).isInfix.trans (List.drop_suffix _ _).isInfix
  · rintro ⟨a, b, rfl⟩
    refine ⟨a.length, ?_, by simp⟩
    simp only [List.length_append]
    omega

/-- A part that comes up with the next elements begins in the last ones before them. -/
theorem infix_append_iff {part seen next : List α} (h : ¬ part <:+: seen) : part <:+: seen ++ next ↔
      part <:+: seen.drop (seen.length - (part.length - 1)) ++ next := by
  constructor
  · rintro ⟨a, b, he⟩
    have hle : seen.length - (part.length - 1) ≤ a.length := by
      by_contra hlt
      have ht := congrArg (List.take (a.length + part.length)) he
      rw [List.take_left' (by simp), List.take_append_of_le_length (by omega)] at ht
      have hi : part <:+: seen.take (a.length + part.length) :=
        ht ▸ (List.suffix_append a part).isInfix
      exact h (hi.trans (List.take_prefix _ _).isInfix)
    refine ⟨a.drop (seen.length - (part.length - 1)), b, ?_⟩
    have hd := congrArg (List.drop (seen.length - (part.length - 1))) he
    rwa [List.append_assoc, List.drop_append_of_le_length hle,
      List.drop_append_of_le_length (Nat.sub_le _ _), ← List.append_assoc] at hd
  · intro h
    exact h.trans (List.IsSuffix.isInfix ⟨seen.take (seen.length - (part.length - 1)), by
      rw [← List.append_assoc, List.take_append_drop]⟩)

/-! ## 4. Groups of equal key -/

/-- The maximal runs of neighbours with equal key. -/
def groupsBy [DecidableEq κ] (key : α → κ) (l : List α) : List (List α) :=
  l.splitBy (fun a b => key a == key b)

section Groups

variable [DecidableEq κ] {g h : List α}

theorem ne_nil_of_mem_groupsBy (hg : g ∈ groupsBy key l) : g ≠ [] := List.ne_nil_of_mem_splitBy hg

theorem mem_of_mem_groupsBy (hg : g ∈ groupsBy key l) (ha : a ∈ g) : a ∈ l := by
  rw [← List.flatten_splitBy (fun a b => key a == key b) l]
  exact List.mem_flatten.mpr ⟨g, hg, ha⟩

theorem exists_mem_groupsBy (key : α → κ) (ha : a ∈ l) : ∃ g ∈ groupsBy key l, a ∈ g := by
  rw [← List.flatten_splitBy (fun a b => key a == key b) l] at ha
  exact List.mem_flatten.mp ha

theorem key_eq_of_mem_groupsBy (hg : g ∈ groupsBy key l) (ha : a ∈ g) (hb : b ∈ g) :
    key a = key b := by
  have hc : g.IsChain (fun a b => key a = key b) :=
    (List.isChain_of_mem_splitBy hg).imp fun _ _ e => beq_iff_eq.mp e
  have hp : g.Pairwise (fun a b => key a = key b) := List.isChain_iff_pairwise.mp hc
  exact List.Pairwise.forall_of_forall (R := fun a b => key a = key b) (fun _ _ => rfl) hp ha hb

theorem pairwise_of_mem_groupsBy (hl : l.Pairwise r) (hg : g ∈ groupsBy key l) : g.Pairwise r := by
  rw [← List.flatten_splitBy (fun a b => key a == key b) l] at hl
  exact (List.pairwise_flatten.mp hl).1 g hg

end Groups

section SortedGroups

variable [DecidableEq κ] [PartialOrder κ] {g h : List α}

/-- Every key of the left group lies below every key of the right one. -/
def KeysBelow (key : α → κ) (g h : List α) : Prop :=
  ∀ a ∈ g, ∀ b ∈ h, key a < key b

section

variable (hl : l.Pairwise (fun a b => key a ≤ key b))
include hl

/-- **The groups of a sorted list come in strictly increasing order of their keys.** -/
theorem pairwise_groupsBy : (groupsBy key l).Pairwise (KeysBelow key) := by
  have hle : (groupsBy key l).Pairwise (fun g h => ∀ a ∈ g, ∀ b ∈ h, key a ≤ key b) := by
    rw [← List.flatten_splitBy (fun a b => key a == key b) l] at hl
    exact (List.pairwise_flatten.mp hl).2
  have hbr := List.isChain_getLast_head_splitBy (fun a b => key a == key b) l
  -- neighbouring groups differ in key; the middle group of a longer stretch carries strictness on
  have hs : (groupsBy key l).IsChain (fun g h => h ≠ [] ∧ KeysBelow key g h) := by
    rw [List.isChain_iff_getElem]
    intro i hi
    obtain ⟨hgn, hhn, hne⟩ := List.isChain_iff_getElem.mp hbr i hi
    refine ⟨hhn, fun a ha b hb => ?_⟩
    have ea := key_eq_of_mem_groupsBy (List.getElem_mem _) ha (List.getLast_mem hgn)
    have eb := key_eq_of_mem_groupsBy (List.getElem_mem _) hb (List.head_mem hhn)
    refine lt_of_le_of_ne
      (List.pairwise_iff_getElem.mp hle i (i + 1) _ hi (Nat.lt_succ_self i) a ha b hb) fun e => ?_
    rw [ea, eb] at e
    simp [e] at hne
  have ht : Trans (fun g h : List α => h ≠ [] ∧ KeysBelow key g h)
      (fun g h => h ≠ [] ∧ KeysBelow key g h) (fun g h => h ≠ [] ∧ KeysBelow key g h) := by
    refine ⟨fun {g h k} hgh hhk => ⟨hhk.1, fun a ha c hc => ?_⟩⟩
    obtain ⟨b, hb⟩ := List.exists_mem_of_ne_nil h hgh.1
    exact (hgh.2 a ha b hb).trans (hhk.2 b hb c hc)
  exact (List.isChain_iff_pairwise.mp hs).imp And.right

theorem keysBelow_or_eq (hg : g ∈ groupsBy key l)
    (hh : h ∈ groupsBy key l) : g = h ∨ KeysBelow key g h ∨ KeysBelow key h g := by
  have hs : (groupsBy key l).Pairwise (fun g h => KeysBelow key g h ∨ KeysBelow key h g) :=
    (pairwise_groupsBy hl).imp Or.inl
  by_cases e : g = h
  · exact Or.inl e
  · have : Std.Symm (fun g h => KeysBelow key g h ∨ KeysBelow key h g) := ⟨fun _ _ => Or.symm⟩
    exact Or.inr (hs.forall hg hh e)

/-- On a sorted list a group holds every element of its key. -/
theorem mem_groupsBy_of_key_eq (hg : g ∈ groupsBy key l) (ha : a ∈ g) (hb : b ∈ l)
    (e : key b = key a) : b ∈ g := by
  obtain ⟨h, hh, hbh⟩ := exists_mem_groupsBy key hb
  rcases keysBelow_or_eq hl hg hh with rfl | hlt | hlt
  · exact hbh
  · exact absurd (hlt a ha b hbh) (by simp [e])
  · exact absurd (hlt b hbh a ha) (by simp [e])

end

end SortedGroups

section NaturalKeys

variable {key : α → Nat} {g h : List α} {c : α}

/-- The common key of a group. -/
def groupKey (key : α → Nat) (g : List α) : Nat := (g.head?.map key).getD 0

theorem groupKey_eq (hg : g ∈ groupsBy key l) (ha : a ∈ g) : groupKey key g = key a := by
  obtain ⟨d, _, rfl⟩ := List.exists_cons_of_ne_nil (ne_nil_of_mem_groupsBy hg)
  exact key_eq_of_mem_groupsBy hg List.mem_cons_self ha

section

variable (hl : l.Pairwise (fun a b => key a ≤ key b))
include hl

theorem pairwise_groupKey :
    (groupsBy key l).Pairwise (fun g h => groupKey key g < groupKey key h) := by
  refine (pairwise_groupsBy hl).imp_of_mem fun {g h} hg hh hgh => ?_
  obtain ⟨a, ha⟩ := List.exists_mem_of_ne_nil g (ne_nil_of_mem_groupsBy hg)
  obtain ⟨b, hb⟩ := List.exists_mem_of_ne_nil h (ne_nil_of_mem_groupsBy hh)
  rw [groupKey_eq hg ha, groupKey_eq hh hb]
  exact hgh a ha b hb

/-- Two groups whose keys follow each other are neighbours. -/
theorem mem_windows2_groupsBy_succ (hg : g ∈ groupsBy key l) (hh : h ∈ groupsBy key l) (ha : a ∈ g)
    (hb : b ∈ h) (e : key b = key a + 1) : (g, h) ∈ windows2 (groupsBy key l) :=
  (mem_windows2_iff_lt (pairwise_groupKey hl)).mpr ⟨hg, hh, by
    rw [groupKey_eq hg ha, groupKey_eq hh hb]; omega, fun k _ => by
    rw [groupKey_eq hg ha, groupKey_eq hh hb]; omega⟩

/-- No key of the list lies strictly between those of two neighbouring groups. -/
theorem not_between_groupsBy (hp : (g, h) ∈ windows2 (groupsBy key l)) (ha : a ∈ g) (hb : b ∈ h)
    (hc : c ∈ l) : key c ≤ key a ∨ key b ≤ key c := by
  obtain ⟨k, hk, hck⟩ := exists_mem_groupsBy key hc
  obtain ⟨hg, hh, -, hn⟩ := (mem_windows2_iff_lt (pairwise_groupKey hl)).mp hp
  have := hn k hk
  rwa [groupKey_eq hk hck, groupKey_eq hg ha, groupKey_eq hh hb] at this

end

end NaturalKeys

/-! ## 5. The member of least rank -/

section

variable {rank : α → Nat} {P Q : α → Prop} {o o' : Option α}

/-- The option holds an element of least rank with the property, if there is one. -/
def LeastBy (rank : α → Nat) (P : α → Prop) (o : Option α) : Prop :=
  ∀ a, o = some a ↔ P a ∧ ∀ b, P b → rank a ≤ rank b

theorem LeastBy.eq (h : LeastBy rank P o) (h' : LeastBy rank P o') : o = o' :=
  Option.ext fun a => (h a).trans (h' a).symm

theorem LeastBy.congr (h : LeastBy rank P o) (hPQ : ∀ a, P a ↔ Q a) : LeastBy rank Q o := by
  obtain rfl : P = Q := funext fun a => propext (hPQ a)
  exact h

theorem leastBy_none (hP : ∀ a, ¬ P a) : LeastBy rank P none := by
  intro a
  simp [hP a]

/-- Without a least member there is no member at all. -/
theorem LeastBy.not_of_none (h : LeastBy rank P none) (a : α) : ¬ P a := by
  intro ha
  obtain ⟨b, hb, hm⟩ := (measure rank).wf.has_min {a | P a} ⟨a, ha⟩
  have hle : (none : Option α) = some b := (h b).mpr ⟨hb, fun c hc => Nat.le_of_not_lt (hm c hc)⟩
  cases hle

theorem LeastBy.insert (hr : Function.Injective rank) (h : LeastBy rank P o) (b : α) :
    LeastBy rank (fun a => P a ∨ a = b)
      (some (o.elim b fun a => if rank b < rank a then b else a)) := by
  -- it is enough that the value is a least member: ranks tell members apart
  suffices hle : ∀ c, o.elim b (fun a => if rank b < rank a then b else a) = c →
      (P c ∨ c = b) ∧ ∀ d, P d ∨ d = b → rank c ≤ rank d by
    intro a
    rw [Option.some.injEq]
    refine ⟨fun e => hle a e, fun ⟨ha, hm⟩ => ?_⟩
    obtain ⟨hc, hcm⟩ := hle _ rfl
    exact hr (Nat.le_antisymm (hcm a ha) (hm _ hc))
  rintro c rfl
  cases o with
  | none =>
    refine ⟨.inr rfl, ?_⟩
    rintro d (hd | rfl)
    · exact absurd hd (h.not_of_none d)
    · exact le_rfl
  | some a =>
    obtain ⟨ha, hm⟩ := (h a).mp rfl
    dsimp only [Option.elim]
    split
    next hlt =>
      refine ⟨.inr rfl, ?_⟩
      rintro d (hd | rfl)
      · exact hlt.le.trans (hm d hd)
      · exact le_rfl
    next hge =>
      refine ⟨.inl ha, ?_⟩
      rintro d (hd | rfl)
      · exact hm d hd
      · exact Nat.le_of_not_lt hge

end

end

variable {α : Type*} {input part part' : List α} {start stop : Nat}

/-- The list holds `part` from `start` on up to `stop`. -/
def Spans (input : List α) (start : Nat) (part : List α) (stop : Nat) : Prop :=
  ∃ before after, input = before ++ (part ++ after) ∧ before.length = start ∧
    stop = start + part.length

/-- The elements from `start` on up to `stop`. -/
def slice (input : List α) (start stop : Nat) : List α := (input.drop start).take (stop - start)

section

variable (h : Spans input start part stop)
include h

theorem Spans.stop_eq : stop = start + part.length := by
  obtain ⟨-, -, -, -, h⟩ := h
  exact h

theorem Spans.stop_le : stop ≤ input.length := by
  obtain ⟨_, _, rfl, rfl, rfl⟩ := h
  simp only [List.length_append]
  omega

theorem Spans.slice_eq : slice input start stop = part := by
  obtain ⟨_, _, rfl, rfl, rfl⟩ := h
  simp [slice]

end

theorem spans_slice (h : start ≤ stop) (hs : stop ≤ input.length) :
    Spans input start (slice input start stop) stop := by
  refine ⟨input.take start, (input.drop start).drop (stop - start), ?_, ?_, ?_⟩
  · rw [slice, List.take_append_drop, List.take_append_drop]
  · rw [List.length_take]
    omega
  · rw [slice, List.length_take, List.length_drop]
    omega

theorem spans_nil : Spans input start [] stop ↔ stop = start ∧ start ≤ input.length := by
  constructor
  · intro h
    have hle := h.stop_le
    have heq := h.stop_eq
    exact ⟨heq, by omega⟩
  · rintro ⟨rfl, hle⟩
    exact ⟨input.take stop, input.drop stop, by simp, List.length_take_of_le hle, by simp⟩

/-- Parts that follow each other. -/
theorem spans_append : Spans input start (part ++ part') stop ↔
    ∃ mid, Spans input start part mid ∧ Spans input mid part' stop := by
  constructor
  · rintro ⟨before, after, rfl, rfl, rfl⟩
    refine ⟨before.length + part.length, ⟨before, part' ++ after, ?_, rfl, rfl⟩,
      ⟨before ++ part, after, ?_, ?_, ?_⟩⟩
    · simp
    · simp
    · simp
    · simp only [List.length_append]
      omega
  · rintro ⟨_, ⟨before, after, rfl, rfl, rfl⟩, ⟨_, after', heq, hle, rfl⟩⟩
    rw [← List.append_assoc] at heq
    obtain ⟨rfl, rfl⟩ := List.append_inj heq (by simp [hle])
    exact ⟨before, after', by simp, rfl, by simp only [List.length_append]; omega⟩

theorem spans_singleton {a : α} :
    Spans input start [a] stop ↔ input[start]? = some a ∧ stop = start + 1 := by
  constructor
  · rintro ⟨_, _, rfl, rfl, rfl⟩
    simp
  · rintro ⟨hg, rfl⟩
    obtain ⟨_, hg⟩ := List.getElem?_eq_some_iff.mp hg
    refine ⟨input.take start, input.drop (start + 1), ?_, ?_, rfl⟩
    · rw [List.singleton_append, ← hg, ← List.drop_eq_getElem_cons, List.take_append_drop]
    · rw [List.length_take]
      omega

/-- The whole list. -/
theorem spans_whole : Spans input 0 part input.length ↔ part = input := by
  constructor
  · intro h
    simpa [slice] using h.slice_eq.symm
  · rintro rfl
    exact ⟨[], [], by simp, rfl, by simp⟩

theorem slice_whole (input : List α) : slice input 0 input.length = input := by
  simp [slice]

end

variable {α β : Type} {num : α → Nat}

/-- Every element stands in the relation to its position and the element before it. -/
def Chained (R : Nat → Option α → α → Prop) (l : List α) : Prop :=
  ∀ k a, l[k]? = some a → R k (l.take k).getLast? a

namespace Chained

variable {R : Nat → Option α → α → Prop} {l : List α} {a : α}

theorem nil : Chained R [] := by
  intro k a h
  simp at h

section

variable (h : Chained R l)
include h

theorem concat (ha : R l.length l.getLast? a) : Chained R (l ++ [a]) := by
  intro k b hb
  by_cases hk : k < l.length
  · rw [List.getElem?_append_left hk] at hb
    rw [List.take_append_of_le_length (Nat.le_of_lt hk)]
    exact h k b hb
  · obtain rfl : k = l.length := by
      have := (List.getElem?_eq_some_iff.mp hb).1
      rw [List.length_append, List.length_singleton] at this
      omega
    obtain rfl : a = b := by simpa using hb
    rw [List.take_left]
    exact ha

/-- An element after the first one follows from the element directly before it. -/
theorem succ {k : Nat} (hk : l[k + 1]? = some a) : ∃ b, l[k]? = some b ∧ R (k + 1) (some b) a := by
  have hlt : k < l.length := by
    have := (List.getElem?_eq_some_iff.mp hk).1
    omega
  refine ⟨l[k], List.getElem?_eq_getElem hlt, ?_⟩
  have hla := h _ _ hk
  rwa [List.take_add_one, List.getElem?_eq_getElem hlt, Option.toList_some,
    List.getLast?_concat] at hla

theorem zero (hk : l[0]? = some a) : R 0 none a := by
  simpa using h 0 a hk

/-- Positions that the elements carry as numbers have no gap. -/
theorem map_eq_range (hn : ∀ k p a, R k p a → num a = k) : l.map num = List.range l.length := by
  refine List.ext_getElem? fun k => ?_
  rw [List.getElem?_map]
  cases ha : l[k]? with
  | none =>
    rw [List.getElem?_eq_none_iff] at ha
    rw [Option.map_none, List.getElem?_eq_none (by rwa [List.length_range])]
  | some a =>
    have hlt := (List.getElem?_eq_some_iff.mp ha).1
    rw [Option.map_some, List.getElem?_range hlt, hn k _ a (h k a ha)]

/-- What grows from each element to the next grows along the chain. -/
theorem monotone [Preorder β] (value : α → β)
    (hv : ∀ k p a, R k (some p) a → value p ≤ value a) {i j : Nat} (hij : i ≤ j) {a b : α}
    (ha : l[i]? = some a) (hb : l[j]? = some b) : value a ≤ value b := by
  induction hij generalizing b with
  | refl =>
    obtain rfl : a = b := Option.some.inj (ha.symm.trans hb)
    exact le_rfl
  | step _ ih =>
    obtain ⟨c, hc, hn⟩ := h.succ hb
    exact (ih hc).trans (hv _ _ _ hn)

end

end Chained

/-- The greatest number among numbers without a gap is that of the last element. -/
theorem argmax_eq_getLast? {l : List α} (h : l.map num = List.range l.length) :
    l.argmax num = l.getLast? := by
  induction l using List.reverseRecOn with
  | nil => rfl
  | append_singleton l a ih =>
    rw [List.map_append, List.length_append, List.length_singleton, List.range_succ] at h
    obtain ⟨hl, ha⟩ := List.append_inj h (by simp)
    obtain ha : num a = l.length := by simpa using ha
    rw [List.argmax_concat, ih hl, List.getLast?_concat]
    cases hla : l.getLast? with
    | none => rfl
    | some b =>
      have hb : num b ∈ List.range l.length := hl ▸ List.mem_map_of_mem (List.mem_of_getLast? hla)
      simp only [List.mem_range.mp hb, ha, if_true]

/-- Two lists agree place by place exactly where one is the beginning of the other. -/
theorem forall_getElem?_eq_iff {α : Type*} : ∀ {l l' : List α},
    (∀ (n : Nat) (a b : α), l[n]? = some a → l'[n]? = some b → a = b) ↔ l <+: l' ∨ l' <+: l
  | [], _ => by simp
  | _ :: _, [] => by simp
  | a :: l, b :: l' => by
    rw [List.cons_prefix_cons, List.cons_prefix_cons, eq_comm (a := b), ← and_or_left,
      ← forall_getElem?_eq_iff]
    constructor
    · exact fun h => ⟨h 0 a b rfl rfl, fun n => h (n + 1)⟩
    · rintro ⟨rfl, h⟩ n c d hc hd
      cases n with
      | zero => exact Option.some.inj (hc.symm.trans hd)
      | succ n => exact h n c d hc hd

end Einsatzarchiv.Lib
