/-
  File:      Einsatzarchiv/Writer/Reservation.lean
  Subject:   Room for a staged finalization in the local component, among other writers.

  The rows of a staged finalization keep its room: a renaming gives up one row for another.  What
  breaks this is that a row of the finalization is taken away, by pruning or by a removal, and that
  another writer then fills the component.

  * `Owns`, `own`, `foreign`: the rows of a finalization and those of others.
  * `Staged`: all objects of a finalization are staged and none is published.
  * `Undisturbed`: what the events after the staging have to meet.
  * `Reserved`: the room of the finalization is kept, whatever rows it has lost; `Complete`: it has
    lost none.
  * `reserved_step`: what every event keeps of this.
  * **`staged_publishable`**: no step of a staged finalization fails for lack of room.
-/
import Einsatzarchiv.Writer.Component
import Mathlib.Data.List.Perm.Subperm

namespace Einsatzarchiv.Writer

open Lib

/-! ## 1. Rows of a finalization -/

section Rows

variable (objects : Files)

/-- The address of an object, staged or not. -/
def Owns (path : ArchivePath) : Bool := path.target ∈ objects.map (·.1.target)

/-- The rows of the objects. -/
def own (rows : Files) : Files := rows.filter (Owns objects ·.1)

/-- The rows of the others. -/
def foreign (rows : Files) : Files := rows.filter fun row => !Owns objects row.1

/-- A row under the final address of its object. -/
def finalRow (row : ArchivePath × Bytes) : ArchivePath × Bytes :=
  ({ row.1 with staging := false }, row.2)

end Rows

/-- The object a publication is about. -/
def Publisher.object : Publisher → Option (ArchivePath × Bytes)
  | .idle => none
  | .failed target bytes _ | .shown target bytes => some (target, bytes)

/-- The objects, each with an address of its own, are staged, none of them is published, and no
publication is under way. -/
structure Staged (objects : Files) (s : Installed) : Prop where
  distinct : (objects.map (·.1.target)).Nodup
  final : ∀ object ∈ objects, object.1.staging = false
  staged : ∀ object ∈ objects, s.component.rows.read (stagingPath object.1) = some object.2
  free : ∀ object ∈ objects, s.component.rows.read object.1 = none
  idle : s.publisher = .idle

/-! ## 2. What may happen after the staging -/

/-- The work of another writer writes to no address of the objects. -/
def Work.Foreign (objects : Files) : Work → Prop
  | .create path _ => Owns objects path = false
  | .rename source target => Owns objects source = false ∧ Owns objects target = false
  | .remove _ | .prune _ => True

/-- An event may take a row of the objects away: a removal of their addresses, or a pruning against
a network target that shows one of them. -/
def Event.Takes (objects : Files) : Event → Prop
  | .other (.remove path) _ => Owns objects path = true
  | .other (.prune remote) _ => ∃ object ∈ objects, object ∈ remote
  | _ => False

/-- An event of another writer may fill the component. -/
def Event.Fills : Event → Prop
  | .other (.create _ _) _ => True
  | _ => False

/-- The events after the staging: the publications are those of the objects, the transactions of
their renamings begin, others write to no address of theirs, and once a row of theirs may have been
taken away, others create none. -/
structure Undisturbed (objects : Files) (events : List Event) : Prop where
  others : ∀ work medium, .other work medium ∈ events → work.Foreign objects
  renames : ∀ target bytes medium, .rename target bytes medium ∈ events →
    (target, bytes) ∈ objects ∧ medium.durable = true
  order : events.Pairwise fun event later => ¬ (event.Takes objects ∧ later.Fills)

/-! ## 3. The room that is kept -/

/-- The rows of the objects are among them, and together with the others they fit the limits, also
if all objects had a row.  A publication under way has lost its staged row. -/
structure Reserved (objects : Files) (s : Installed) : Prop where
  orderly : s.Orderly
  rows : ((own objects s.component.rows).map finalRow).Subperm objects
  objects_le : (foreign objects s.component.rows).length + objects.length
    ≤ s.component.objectLimit
  bytes_le : (foreign objects s.component.rows).size + objects.size ≤ s.component.byteLimit
  waiting : ∀ object ∈ s.publisher.object, object ∈ objects
    ∧ s.component.rows.read (stagingPath object.1) = none

/-- Every object has a row. -/
def Complete (objects : Files) (s : Installed) : Prop :=
  objects ⊆ (own objects s.component.rows).map finalRow

section Sums

variable {objects files files' rows : Files}

theorem Files.size_append : Files.size (files ++ files') = files.size + files'.size := by
  simp [Files.size]

theorem Files.size_le_of_subperm (h : files.Subperm files') : files.size ≤ files'.size := by
  obtain ⟨l, hp, hs⟩ := h
  have hl : (l.map (·.2.length)).sum = files.size := (hp.map _).sum_eq
  rw [← hl]
  exact (hs.map _).sum_le_sum fun _ _ => Nat.zero_le _

theorem size_map_finalRow : Files.size (files.map finalRow) = files.size := by
  simp [Files.size, finalRow, Function.comp_def]

theorem length_rows : rows.length = (own objects rows).length + (foreign objects rows).length := by
  rw [← List.length_append]
  exact (List.filter_append_perm _ rows).length_eq.symm

theorem size_rows : rows.size = (own objects rows).size + (foreign objects rows).size := by
  rw [← Files.size_append]
  exact ((List.filter_append_perm _ rows).map _).sum_eq.symm

theorem Files.mem_of_read {path : ArchivePath} {bytes : Bytes} (h : files.read path = some bytes) :
    (path, bytes) ∈ files := by
  obtain ⟨row, hf, rfl⟩ := Option.map_eq_some_iff.mp h
  have hp : row.1 = path := by simpa using List.find?_some hf
  rw [← hp]
  exact List.mem_of_find?_eq_some hf

theorem Files.read_eq_none {path : ArchivePath} :
    files.read path = none ↔ ∀ row ∈ files, row.1 ≠ path := by
  simp [Files.read]

end Sums

section Reservation

variable {objects rows : Files} {s : Installed} {c : Component} {path : ArchivePath} {bytes : Bytes}
  {row twin object : ArchivePath × Bytes}

theorem mem_own : row ∈ own objects rows ↔ row ∈ rows ∧ Owns objects row.1 = true :=
  List.mem_filter

theorem owns_of_mem (h : object ∈ objects) : Owns objects object.1 = true := by
  simp only [Owns, List.mem_map, decide_eq_true_eq]
  exact ⟨object, h, rfl⟩

@[simp] theorem owns_stagingPath : Owns objects (stagingPath path) = Owns objects path := rfl

/-- Two rows of the objects with one target are one row. -/
theorem eq_of_own (hd : (objects.map (·.1.target)).Nodup)
    (ho : ((own objects rows).map finalRow).Subperm objects) (hr : row ∈ own objects rows)
    (ht : twin ∈ own objects rows) (he : row.1.target = twin.1.target) : row = twin := by
  have hn : ((own objects rows).map (·.1.target)).Nodup := by
    obtain ⟨l, hp, hs⟩ := ho
    have hl : (l.map (·.1.target)).Nodup := hd.sublist (hs.map _)
    rw [(hp.map _).nodup_iff, List.map_map] at hl
    exact hl
  exact List.inj_on_of_nodup_map hn hr ht he

/-- What stands at an address of an object is the object. -/
theorem finalRow_of_own (ho : ((own objects rows).map finalRow).Subperm objects)
    (hr : row ∈ own objects rows) : finalRow row ∈ objects :=
  ho.subset (List.mem_map_of_mem hr)

/-- As long as no row is lost, the limits keep the room. -/
theorem room_of_complete (hd : (objects.map (·.1.target)).Nodup) (hw : c.Within)
    (hc : objects ⊆ (own objects c.rows).map finalRow) :
    (foreign objects c.rows).length + objects.length ≤ c.objectLimit
      ∧ (foreign objects c.rows).size + objects.size ≤ c.byteLimit := by
  have hs : objects.Subperm ((own objects c.rows).map finalRow) :=
    List.subperm_of_subset hd.of_map hc
  have hl := hs.length_le
  have hb := Files.size_le_of_subperm hs
  rw [List.length_map] at hl
  rw [size_map_finalRow] at hb
  have hrl := @length_rows objects c.rows
  have hrs := @size_rows objects c.rows
  have ⟨hw₁, hw₂⟩ := hw
  omega

/-- A row that is missing fits. -/
theorem room_of_reserved (h : Reserved objects s) (hm : object ∈ objects)
    (hn : object ∉ (own objects s.component.rows).map finalRow) :
    ¬ s.component.Full object.2
      ∧ (object :: (own objects s.component.rows).map finalRow).Subperm objects := by
  have hs : (object :: (own objects s.component.rows).map finalRow).Subperm objects :=
    List.cons_subperm_of_not_mem_of_mem hn hm h.rows
  refine ⟨?_, hs⟩
  have hl := hs.length_le
  have hb := Files.size_le_of_subperm hs
  rw [List.length_cons, List.length_map] at hl
  rw [← List.singleton_append, Files.size_append, size_map_finalRow] at hb
  have hob : Files.size [object] = object.2.length := by simp [Files.size]
  have hrl := @length_rows objects s.component.rows
  have hrs := @size_rows objects s.component.rows
  have h₁ := h.objects_le
  have h₂ := h.bytes_le
  simp only [Component.Full]
  omega

/-! ## 4. What the others keep -/

variable {next : Component} {work : Work} {medium : Medium}

theorem own_append_singleton : own objects (rows ++ [row]) =
    own objects rows ++ if Owns objects row.1 then [row] else [] := by
  unfold own
  rw [List.filter_append, List.filter_singleton]
  cases Owns objects row.1 <;> rfl

theorem foreign_append_singleton : foreign objects (rows ++ [row]) =
    foreign objects rows ++ if Owns objects row.1 then [] else [row] := by
  unfold foreign
  rw [List.filter_append, List.filter_singleton]
  cases Owns objects row.1 <;> rfl

/-- Others add no row of the objects. -/
theorem own_sublist (hf : work.Foreign objects) (h : work.apply c = .ok next) :
    (own objects next.rows).Sublist (own objects c.rows) := by
  have hs (p : ArchivePath × Bytes → Bool) :
      (own objects (c.rows.filter p)).Sublist (own objects c.rows) :=
    List.filter_sublist.filter _
  cases work with
  | create path bytes =>
    rcases Component.eq_of_putIn h with ⟨-, rfl⟩ | ⟨-, -, rfl⟩
    · exact .refl _
    · rw [own_append_singleton, if_neg (ne_true_of_eq_false hf), List.append_nil]
  | rename src tgt =>
    obtain ⟨bytes, -, ⟨-, rfl⟩ | ⟨-, -, rfl⟩ | ⟨-, -, rfl⟩⟩ := Component.eq_of_rename h
    · exact .refl _
    · exact hs _
    · rw [own_append_singleton, if_neg (ne_true_of_eq_false hf.2), List.append_nil]
      exact hs _
  | remove path =>
    cases h
    exact hs _
  | prune remote =>
    cases h
    exact hs _

/-- Only a creation makes the rows of the others more. -/
theorem foreign_le (hf : work.Foreign objects) (hn : ∀ path bytes, work ≠ .create path bytes)
    (h : work.apply c = .ok next) :
    (foreign objects next.rows).length ≤ (foreign objects c.rows).length
      ∧ (foreign objects next.rows).size ≤ (foreign objects c.rows).size := by
  have hs (p : ArchivePath × Bytes → Bool) :
      (foreign objects (c.rows.filter p)).length ≤ (foreign objects c.rows).length
        ∧ (foreign objects (c.rows.filter p)).size ≤ (foreign objects c.rows).size := by
    have hl : (foreign objects (c.rows.filter p)).Sublist (foreign objects c.rows) :=
      List.filter_sublist.filter _
    exact ⟨hl.length_le, Files.size_le_of_subperm hl.subperm⟩
  cases work with
  | create path bytes => exact absurd rfl (hn path bytes)
  | rename src tgt =>
    obtain ⟨bytes, hr, ⟨-, rfl⟩ | ⟨-, -, rfl⟩ | ⟨-, -, rfl⟩⟩ := Component.eq_of_rename h
    · exact ⟨le_rfl, le_rfl⟩
    · exact hs _
    · -- the row of the source makes room for that of the target
      have hfr : (foreign objects c.rows).read src = some bytes := by
        rw [foreign, Files.read_filter (fun path => !Owns objects path), hr,
          if_pos (by simp [hf.1])]
      have hre := Files.size_remove hfr
      have hco : foreign objects (c.rows.remove src) = (foreign objects c.rows).remove src := by
        unfold foreign Files.remove
        rw [List.filter_comm]
      rw [foreign_append_singleton, if_neg (by simp [hf.2]), hco, List.length_append,
        Files.size_append, List.length_singleton]
      have hob : Files.size [(tgt, bytes)] = bytes.length := by simp [Files.size]
      omega
  | remove path =>
    cases h
    exact hs _
  | prune remote =>
    cases h
    exact hs _

theorem own_filter {p : ArchivePath × Bytes → Bool} (hp : ∀ row ∈ own objects rows, p row = true) :
    own objects (rows.filter p) = own objects rows := by
  unfold own
  rw [List.filter_comm]
  exact List.filter_eq_self.mpr hp

/-- Others take no row of the objects away, as long as they neither remove one nor prune against a
network target that shows one. -/
theorem own_eq (ho : ((own objects c.rows).map finalRow).Subperm objects)
    (hf : work.Foreign objects) (ht : ¬ (Event.other work medium).Takes objects)
    (h : work.apply c = .ok next) : own objects next.rows = own objects c.rows := by
  cases work with
  | create path bytes =>
    rcases Component.eq_of_putIn h with ⟨-, rfl⟩ | ⟨-, -, rfl⟩
    · rfl
    · rw [own_append_singleton, if_neg (ne_true_of_eq_false hf), List.append_nil]
  | rename src tgt =>
    have hr : own objects (c.rows.remove src) = own objects c.rows := by
      refine own_filter fun row hr => ?_
      have hne : row.1 ≠ src := fun he => by
        have := (mem_own.mp hr).2
        rw [he, hf.1] at this
        cases this
      simpa using hne
    obtain ⟨bytes, -, ⟨-, rfl⟩ | ⟨-, -, rfl⟩ | ⟨-, -, rfl⟩⟩ := Component.eq_of_rename h
    · rfl
    · exact hr
    · rw [own_append_singleton, if_neg (ne_true_of_eq_false hf.2), List.append_nil]
      exact hr
  | remove path =>
    cases h
    refine own_filter fun row hr => ?_
    have hne : row.1 ≠ path := fun he => ht (show Owns objects path = true by
      rw [← he]
      exact (mem_own.mp hr).2)
    simpa using hne
  | prune remote =>
    cases h
    refine own_filter fun row hr => ?_
    simp only [decide_eq_true_eq]
    intro hi
    -- the row that stands at the network target is one of the objects
    obtain ⟨same, hsa, he⟩ := List.mem_map.mp hi
    obtain ⟨hpu, hre⟩ := List.mem_filter.mp hsa
    obtain ⟨hm, hst⟩ := List.mem_filter.mp hpu
    have hso : same ∈ own objects c.rows := mem_own.mpr ⟨hm, by
      rw [he]
      exact (mem_own.mp hr).2⟩
    have hfi : finalRow same = same := by
      obtain ⟨⟨target, staging⟩, bytes⟩ := same
      simp only [Bool.not_eq_true'] at hst
      simp [finalRow, hst]
    refine ht ⟨same, hfi ▸ finalRow_of_own ho hso, ?_⟩
    simpa using (decide_eq_true_eq.mp hre).2

theorem limits_of_apply (h : work.apply c = .ok next) :
    next.objectLimit = c.objectLimit ∧ next.byteLimit = c.byteLimit := by
  cases work with
  | create path bytes =>
    rcases Component.eq_of_putIn h with ⟨-, rfl⟩ | ⟨-, -, rfl⟩ <;> exact ⟨rfl, rfl⟩
  | rename src tgt =>
    obtain ⟨_, -, ⟨-, rfl⟩ | ⟨-, -, rfl⟩ | ⟨-, -, rfl⟩⟩ := Component.eq_of_rename h <;>
      exact ⟨rfl, rfl⟩
  | remove path | prune remote =>
    cases h
    exact ⟨rfl, rfl⟩

/-- An address of the objects that is free stays free. -/
theorem read_of_own_sublist (hs : (own objects next.rows).Sublist (own objects c.rows))
    (hp : Owns objects path = true) (hr : c.rows.read path = none) :
    next.rows.read path = none := by
  refine Files.read_eq_none.mpr fun row hm he => ?_
  have ho := hs.subset (mem_own.mpr ⟨hm, he ▸ hp⟩)
  exact Files.read_eq_none.mp hr row (mem_own.mp ho).1 he

/-- **Others keep the room**, unless they create a row while one of the objects is missing. -/
theorem Reserved.other (h : Reserved objects s) (hd : (objects.map (·.1.target)).Nodup)
    (hf : work.Foreign objects)
    (hx : Complete objects s ∨ ¬ (Event.other work medium).Fills) :
    Reserved objects (step s (.other work medium)).2 := by
  have hor := step_orderly h.orderly (.other work medium)
  rcases Component.transact_cases (c := s.component) work medium with he | ha
  · have hs : (step s (.other work medium)).2 = s := by
      simp only [step, he]
    rw [hs]
    exact h
  · have hs := own_sublist hf ha
    have hrow : ((own objects (step s (.other work medium)).2.component.rows).map
        finalRow).Subperm objects := (hs.map _).subperm.trans h.rows
    have hroom : (foreign objects (s.component.transact work medium).2.rows).length
          + objects.length ≤ (s.component.transact work medium).2.objectLimit
        ∧ (foreign objects (s.component.transact work medium).2.rows).size
          + objects.size ≤ (s.component.transact work medium).2.byteLimit := by
      by_cases hc : ∃ path bytes, work = .create path bytes
      · obtain ⟨path, bytes, rfl⟩ := hc
        have hco : Complete objects s := hx.resolve_right fun hn => hn trivial
        refine room_of_complete hd hor.1 ?_
        have ht : ¬ (Event.other (.create path bytes) medium).Takes objects := id
        rw [own_eq h.rows hf ht ha]
        exact hco
      · have hle := foreign_le hf (fun path bytes he => hc ⟨path, bytes, he⟩) ha
        obtain ⟨ho, hb⟩ := limits_of_apply ha
        have h₁ := h.objects_le
        have h₂ := h.bytes_le
        rw [ho, hb]
        omega
    refine ⟨hor, hrow, hroom.1, hroom.2, fun object ho => ?_⟩
    obtain ⟨hm, hr⟩ := h.waiting object ho
    exact ⟨hm, read_of_own_sublist hs (owns_of_mem hm) hr⟩

/-- Others that take no row of the objects away leave them complete. -/
theorem Complete.other (hc : Complete objects s) (h : Reserved objects s)
    (hf : work.Foreign objects) (ht : ¬ (Event.other work medium).Takes objects) :
    Complete objects (step s (.other work medium)).2 := by
  rcases Component.transact_cases (c := s.component) work medium with he | ha
  · have hs : (step s (.other work medium)).2 = s := by
      simp only [step, he]
    rw [hs]
    exact hc
  · unfold Complete
    rw [show own objects (step s (.other work medium)).2.component.rows = own objects
      s.component.rows from own_eq h.rows hf ht ha]
    exact hc

/-! ## 5. What the publications keep -/

variable {target : ArchivePath}

theorem finalRow_stagingPath (bytes : Bytes) (hst : target.staging = false) :
    finalRow (stagingPath target, bytes) = (target, bytes)
      ∧ finalRow (target, bytes) = (target, bytes) := by
  obtain ⟨_, staging⟩ := target
  obtain rfl : staging = false := hst
  exact ⟨rfl, rfl⟩

theorem stagingPath_ne (hst : target.staging = false) : stagingPath target ≠ target := by
  intro he
  have := congrArg ArchivePath.staging he
  rw [hst] at this
  cases this

section Move

variable (hst : target.staging = false) (how : Owns objects target = true)
include how

/-- The rows of the objects after a renaming. -/
theorem own_move (hst : target.staging = false) (bytes : Bytes) :
    (own objects (rows.remove (stagingPath target) ++ [(target, bytes)])).map finalRow =
      ((own objects rows).remove (stagingPath target)).map finalRow ++ [(target, bytes)] := by
  rw [own_append_singleton, if_pos how, List.map_append, List.map_singleton,
    (finalRow_stagingPath _ hst).2]
  unfold own Files.remove
  rw [List.filter_comm]

theorem foreign_move : foreign objects (rows.remove (stagingPath target) ++ [(target, bytes)])
    = foreign objects rows := by
  rw [foreign_append_singleton, if_pos how, List.append_nil]
  unfold foreign Files.remove
  rw [List.filter_comm]
  refine List.filter_eq_self.mpr fun row hm => ?_
  have hn := (List.mem_filter.mp hm).2
  have hne : row.1 ≠ stagingPath target := fun he => by simp [he, how] at hn
  simpa using hne

variable (hr : rows.read (stagingPath target) = some bytes)
include hr hst

/-- No object has more rows than before. -/
theorem subperm_move :
    ((own objects (rows.remove (stagingPath target) ++ [(target, bytes)])).map finalRow).Subperm
      ((own objects rows).map finalRow) := by
  have hn : (stagingPath target, bytes) ∉ (own objects rows).remove (stagingPath target) := by
    simp [Files.remove]
  obtain ⟨l, hp, hs⟩ := List.cons_subperm_of_not_mem_of_mem hn
    (mem_own.mpr ⟨Files.mem_of_read hr, how⟩) List.filter_sublist.subperm
  have hmap : (((stagingPath target, bytes) :: (own objects rows).remove (stagingPath target)).map
      finalRow).Subperm ((own objects rows).map finalRow) := ⟨_, hp.map _, hs.map _⟩
  rw [List.map_cons, (finalRow_stagingPath _ hst).1] at hmap
  rw [own_move how hst]
  exact (List.perm_append_singleton _ _).subperm.trans hmap

variable (hd : (objects.map (·.1.target)).Nodup)
  (ho : ((own objects rows).map finalRow).Subperm objects)
include hd ho

/-- No object has lost its row. -/
theorem subset_move : (own objects rows).map finalRow ⊆
    (own objects (rows.remove (stagingPath target) ++ [(target, bytes)])).map finalRow := by
  rw [own_move how hst]
  intro object hm
  obtain ⟨row, hro, rfl⟩ := List.mem_map.mp hm
  by_cases he : row.1 = stagingPath target
  · have hrow := eq_of_own hd ho hro (mem_own.mpr ⟨Files.mem_of_read hr, how⟩) (by rw [he])
    rw [hrow, (finalRow_stagingPath _ hst).1]
    exact List.mem_append_right _ (List.mem_singleton_self _)
  · refine List.mem_append_left _ (List.mem_map_of_mem (List.mem_filter.mpr ⟨hro, ?_⟩))
    simpa using he

/-- What is staged is not published. -/
theorem free_of_staged : rows.read target = none := by
  cases ht : rows.read target with
  | none => rfl
  | some existing =>
    have he := eq_of_own hd ho (mem_own.mpr ⟨Files.mem_of_read hr, how⟩)
      (mem_own.mpr ⟨Files.mem_of_read ht, how⟩) rfl
    exact absurd (congrArg Prod.fst he) (stagingPath_ne hst)

end Move

/-- A renaming moves the row of an object, or it finds that the staged row is gone. -/
theorem Reserved.rename (h : Reserved objects s) (hd : (objects.map (·.1.target)).Nodup)
    (hfi : ∀ object ∈ objects, object.1.staging = false) (hm : (target, bytes) ∈ objects)
    (hb : medium.durable = true) :
    Reserved objects (step s (.rename target bytes medium)).2
      ∧ (Complete objects s → Complete objects (step s (.rename target bytes medium)).2) := by
  have hor := step_orderly h.orderly (.rename target bytes medium)
  have how : Owns objects target = true := owns_of_mem hm
  have hst : target.staging = false := hfi _ hm
  cases hr : s.component.rows.read (stagingPath target) with
  | none =>
    have hs : (step s (.rename target bytes medium)).2
        = ⟨s.component, .failed target bytes .shape⟩ := by
      simp [step, Component.transact, hb, Work.apply, Component.atomicRenameSameFs, hr]
    rw [hs] at hor ⊢
    refine ⟨⟨hor, h.rows, h.objects_le, h.bytes_le, ?_⟩, id⟩
    rintro _ ⟨⟩
    exact ⟨hm, hr⟩
  | some stored =>
    have hne := stagingPath_ne hst
    have ht := free_of_staged hst how hr hd h.rows
    have hco : (step s (.rename target bytes medium)).2.component = { s.component with
        rows := s.component.rows.remove (stagingPath target) ++ [(target, stored)] } := by
      simp only [step, Component.transact, hb, if_true, Work.apply,
        Component.rename_eq_ok h.orderly.1 hr hne ht]
    refine ⟨⟨hor, ?_, ?_, ?_, ?_⟩, fun hc => ?_⟩
    · rw [hco]
      exact (subperm_move hst how hr).trans h.rows
    · rw [hco, foreign_move how]
      exact h.objects_le
    · rw [hco, foreign_move how]
      exact h.bytes_le
    · intro object ho
      have he : object = (target, bytes) := by
        simp only [step] at ho
        split at ho <;> cases ho
        rfl
      rw [hco, he]
      refine ⟨hm, ?_⟩
      have hn : (s.component.rows.remove (stagingPath target)).read target = none := by
        rw [Files.read_remove, ht, ite_self]
      rw [Files.read_append_singleton hn, if_neg hne, Files.read_remove, if_pos rfl]
    · unfold Complete
      rw [hco]
      exact List.Subset.trans hc (subset_move hst how hr hd h.rows)

theorem Reserved.visit (h : Reserved objects s) (network : Files) :
    Reserved objects (step s (.visit network)).2
      ∧ (step s (.visit network)).1 ≠ some .pendingPublication
      ∧ (step s (.visit network)).2.component = s.component := by
  have hor := step_orderly h.orderly (.visit network)
  obtain ⟨c, publisher⟩ := s
  cases publisher with
  | idle => exact ⟨h, by simp [step], rfl⟩
  | shown target bytes => exact ⟨h, by simp [step], rfl⟩
  | failed target bytes error =>
    have hne := h.orderly.2 target bytes error rfl
    simp only [step] at hor ⊢
    split at hor
    next hs =>
      rw [if_pos hs]
      exact ⟨⟨hor, h.rows, h.objects_le, h.bytes_le, h.waiting⟩, by simp, rfl⟩
    next hs =>
      rw [if_neg hs]
      exact ⟨⟨hor, h.rows, h.objects_le, h.bytes_le, by simp [Publisher.object]⟩,
        by simpa using hne, rfl⟩

/-- An object has its row at its staging address or at its final one. -/
theorem not_mem_of_free (hst : target.staging = false)
    (hr : rows.read (stagingPath target) = none) (ht : rows.read target = none) :
    (target, bytes) ∉ (own objects rows).map finalRow := by
  intro ho
  obtain ⟨row, hro, he⟩ := List.mem_map.mp ho
  have hrow := Files.read_eq_none.mp hr row (mem_own.mp hro).1
  have hrow' := Files.read_eq_none.mp ht row (mem_own.mp hro).1
  have htar : row.1.target = target.target := congrArg (·.1.target) he
  obtain ⟨⟨_, staging⟩, _⟩ := row
  obtain ⟨_, final⟩ := target
  obtain rfl : final = false := hst
  cases staging with
  | true => exact hrow (by simpa [stagingPath] using htar)
  | false => exact hrow' (by simpa using htar)

/-- **A creation finds room**: the object it is about has no row any more, or has its final one. -/
theorem Reserved.create (h : Reserved objects s) (medium : Medium)
    (hfi : ∀ object ∈ objects, object.1.staging = false) :
    Reserved objects (step s (.create medium)).2
      ∧ (step s (.create medium)).1 ≠ some .pendingPublication
      ∧ (Complete objects s → Complete objects (step s (.create medium)).2) := by
  have hor := step_orderly h.orderly (.create medium)
  obtain ⟨c, publisher⟩ := s
  cases publisher with
  | idle => exact ⟨h, by simp [step], id⟩
  | failed target bytes error => exact ⟨h, by simp [step], id⟩
  | shown target bytes =>
    obtain ⟨hm, hr⟩ := h.waiting (target, bytes) rfl
    have how : Owns objects target = true := owns_of_mem hm
    have hst : target.staging = false := hfi _ hm
    have hroom (ht : c.rows.read target = none) :=
      room_of_reserved h hm (not_mem_of_free hst hr ht)
    have hno : (c.transact (.create target bytes) medium).1 ≠ some .pendingPublication := by
      intro hp
      obtain ⟨ht, hfull⟩ := Component.putIn_eq.mp (Component.transact_eq.mp hp).2
      exact (hroom ht).1 hfull
    have hkept (he : (c.transact (.create target bytes) medium).2 = c) :
        Reserved objects (step ⟨c, .shown target bytes⟩ (.create medium)).2
          ∧ (Complete objects ⟨c, .shown target bytes⟩ →
            Complete objects (step ⟨c, .shown target bytes⟩ (.create medium)).2) := by
      simp only [step, he] at hor ⊢
      exact ⟨⟨hor, h.rows, h.objects_le, h.bytes_le, by simp [Publisher.object]⟩, id⟩
    rcases Component.transact_cases (c := c) (.create target bytes) medium with he | ha
    · exact ⟨(hkept he).1, hno, (hkept he).2⟩
    rcases Component.eq_of_putIn ha with ⟨-, he⟩ | ⟨ht, -, he⟩
    · exact ⟨(hkept he).1, hno, (hkept he).2⟩
    obtain ⟨-, hsub⟩ := hroom ht
    have hown : (own objects (c.rows ++ [(target, bytes)])).map finalRow =
        (own objects c.rows).map finalRow ++ [(target, bytes)] := by
      rw [own_append_singleton, if_pos how, List.map_append, List.map_singleton,
        (finalRow_stagingPath _ hst).2]
    have hfo : foreign objects (c.rows ++ [(target, bytes)]) = foreign objects c.rows := by
      rw [foreign_append_singleton, if_pos how, List.append_nil]
    simp only [step, he] at hor hno ⊢
    refine ⟨⟨hor, ?_, ?_, ?_, by simp [Publisher.object]⟩, hno, fun hc object ho => ?_⟩
    · rw [hown]
      exact (List.perm_append_singleton _ _).subperm.trans hsub
    · rw [hfo]
      exact h.objects_le
    · rw [hfo]
      exact h.bytes_le
    · rw [hown]
      exact List.mem_append_left _ (hc ho)

/-! ## 6. Runs -/

variable {events : List Event}

/-- **Every event of an undisturbed run keeps the room, and no publication lacks it.** -/
theorem reserved_step {event : Event} (h : Reserved objects s)
    (hd : (objects.map (·.1.target)).Nodup) (hfi : ∀ object ∈ objects, object.1.staging = false)
    (hu : Undisturbed objects [event]) (hx : Complete objects s ∨ ¬ event.Fills) :
    Reserved objects (step s event).2 ∧ (step s event).1 ≠ some .pendingPublication
      ∧ (Complete objects s → ¬ event.Takes objects → Complete objects (step s event).2) := by
  cases event with
  | other work medium =>
    have hf := hu.others work medium List.mem_cons_self
    exact ⟨h.other hd hf hx, by simp [step], fun hc ht => hc.other h hf ht⟩
  | rename target bytes medium =>
    obtain ⟨hm, hb⟩ := hu.renames target bytes medium List.mem_cons_self
    obtain ⟨hr, hc⟩ := h.rename hd hfi hm hb
    exact ⟨hr, by simp [step], fun hco _ => hc hco⟩
  | visit network =>
    obtain ⟨hr, hn, he⟩ := h.visit network
    refine ⟨hr, hn, fun hc _ => ?_⟩
    unfold Complete
    rw [he]
    exact hc
  | create medium =>
    obtain ⟨hr, hn, hc⟩ := h.create medium hfi
    exact ⟨hr, hn, fun hco _ => hc hco⟩

theorem Undisturbed.of_sublist {part : List Event} (hu : Undisturbed objects events)
    (hs : part.Sublist events) : Undisturbed objects part :=
  ⟨fun work medium hm => hu.others work medium (hs.subset hm),
    fun target bytes medium hm => hu.renames target bytes medium (hs.subset hm),
    hu.order.sublist hs⟩

theorem publishable_of_reserved (h : Reserved objects s)
    (hd : (objects.map (·.1.target)).Nodup) (hfi : ∀ object ∈ objects, object.1.staging = false)
    (hu : Undisturbed objects events) (hx : Complete objects s ∨ ∀ event ∈ events, ¬ event.Fills) :
    ∀ before event after, events = before ++ event :: after →
      (runEvents s before).Publishable event := by
  induction events generalizing s with
  | nil =>
    intro before event after he
    simp at he
  | cons first rest ih =>
    have hu₁ := hu.of_sublist ((List.nil_sublist rest).cons_cons first)
    have hu₂ := hu.of_sublist (List.sublist_cons_self first rest)
    obtain ⟨hr, hn, hc⟩ := reserved_step h hd hfi hu₁
      (hx.imp_right fun hno => hno first List.mem_cons_self)
    intro before event after he
    cases before with
    | nil =>
      obtain ⟨rfl, rfl⟩ := List.cons.inj he
      have hs := sound_step h.orderly.1 first
      exact ⟨hs.1, hs.2, hn⟩
    | cons _ before =>
      obtain ⟨rfl, rfl⟩ := List.cons.inj he
      refine ih hr hu₂ ?_ before event after rfl
      rcases hx with hco | hno
      · by_cases ht : first.Takes objects
        · -- from here on nobody else creates a row
          exact .inr fun event hm hf => (List.pairwise_cons.mp hu.order).1 event hm ⟨ht, hf⟩
        · exact .inl (hc hco ht)
      · exact .inr fun event hm => hno event (List.mem_cons_of_mem _ hm)

/-- No two rows have one address. -/
def Distinct (c : Component) : Prop := (c.rows.map (·.1)).Nodup

theorem Distinct.append (h : Distinct c) (hn : c.rows.read path = none) :
    Distinct { c with rows := c.rows ++ [(path, bytes)] } := by
  unfold Distinct
  rw [List.map_append, List.map_singleton]
  refine List.nodup_append.mpr ⟨h, List.nodup_singleton _, ?_⟩
  intro other hm _ hp he
  obtain ⟨row, hro, rfl⟩ := List.mem_map.mp hm
  exact Files.read_eq_none.mp hn row hro (he.trans (List.mem_singleton.mp hp))

theorem Distinct.apply (h : Distinct c) (ha : work.apply c = .ok next) : Distinct next := by
  have hs (p : ArchivePath × Bytes → Bool) : Distinct { c with rows := c.rows.filter p } :=
    h.sublist (List.filter_sublist.map _)
  cases work with
  | create path bytes =>
    rcases Component.eq_of_putIn ha with ⟨-, rfl⟩ | ⟨hn, -, rfl⟩
    · exact h
    · exact h.append hn
  | rename src tgt =>
    obtain ⟨_, -, ⟨-, rfl⟩ | ⟨-, -, rfl⟩ | ⟨-, hn, rfl⟩⟩ := Component.eq_of_rename ha
    · exact h
    · exact hs _
    · refine (hs (·.1 ≠ src)).append ?_
      show (c.rows.remove src).read tgt = none
      rw [Files.read_remove, hn, ite_self]
  | remove path =>
    cases ha
    exact hs _
  | prune remote =>
    cases ha
    exact hs _

theorem Distinct.transact (h : Distinct c) (work : Work) (medium : Medium) :
    Distinct (c.transact work medium).2 := by
  rcases Component.transact_cases (c := c) work medium with he | ha
  · rw [he]
    exact h
  · exact h.apply ha

theorem distinct_run (h : Distinct s.component) (events : List Event) :
    Distinct (runEvents s events).component := by
  induction events generalizing s with
  | nil => exact h
  | cons event rest ih =>
    refine ih ?_
    cases event with
    | other work medium => exact h.transact work medium
    | rename target bytes medium => exact h.transact _ medium
    | visit network =>
      simp only [step]
      split
      · split <;> exact h
      · exact h
    | create medium =>
      simp only [step]
      split
      · exact h.transact _ medium
      · exact h

/-- Every row of the objects is a staged one. -/
theorem Staged.eq_staged (h : Staged objects s) (hdi : Distinct s.component)
    (hr : row ∈ own objects s.component.rows) :
    ∃ object ∈ objects, row = (stagingPath object.1, object.2) := by
  obtain ⟨hm, ho⟩ := mem_own.mp hr
  simp only [Owns, List.mem_map, decide_eq_true_eq] at ho
  obtain ⟨object, hob, ht⟩ := ho
  have hfr := Files.read_eq_none.mp (h.free object hob) row hm
  have hfi := h.final object hob
  have hpa : row.1 = stagingPath object.1 := by
    obtain ⟨⟨_, staging⟩, _⟩ := row
    obtain ⟨⟨_, final⟩, _⟩ := object
    cases staging <;> simp_all [stagingPath]
  exact ⟨object, hob,
    List.inj_on_of_nodup_map hdi hm (Files.mem_of_read (h.staged object hob)) hpa⟩

/-- **A staged finalization has its room.** -/
theorem Staged.reserved (h : Staged objects s) (hor : s.Orderly) (hdi : Distinct s.component) :
    Reserved objects s ∧ Complete objects s := by
  have hfi {object : ArchivePath × Bytes} (ho : object ∈ objects) :
      finalRow (stagingPath object.1, object.2) = object :=
    (finalRow_stagingPath _ (h.final object ho)).1
  have hco : Complete objects s := by
    intro object hob
    have hm : (stagingPath object.1, object.2) ∈ own objects s.component.rows :=
      mem_own.mpr ⟨Files.mem_of_read (h.staged object hob),
        owns_stagingPath.trans (owns_of_mem hob)⟩
    exact List.mem_map.mpr ⟨_, hm, hfi hob⟩
  have hsub : ((own objects s.component.rows).map finalRow).Subperm objects := by
    have hn : ((own objects s.component.rows).map (·.1)).Nodup :=
      hdi.sublist (List.filter_sublist.map _)
    refine List.subperm_of_subset (List.Nodup.map_on ?_ hn.of_map) ?_
    · intro row hr twin ht he
      obtain ⟨object, ho, rfl⟩ := h.eq_staged hdi hr
      obtain ⟨object', ho', rfl⟩ := h.eq_staged hdi ht
      rw [hfi ho, hfi ho'] at he
      rw [he]
    · intro _ hm
      obtain ⟨row, hr, rfl⟩ := List.mem_map.mp hm
      obtain ⟨object, ho, rfl⟩ := h.eq_staged hdi hr
      rw [hfi ho]
      exact ho
  obtain ⟨h₁, h₂⟩ := room_of_complete h.distinct hor.1 hco
  refine ⟨⟨hor, hsub, h₁, h₂, ?_⟩, hco⟩
  rw [h.idle]
  simp [Publisher.object]

end Reservation

/-- **Staged means publishable.**  In every run of a component from its creation the limits hold
and stored bytes never change.  Once all objects of a finalization are staged, no later step of its
publication or recovery fails for lack of room, also if its published rows are pruned or removed,
as long as others create no row after that, write to none of its addresses, and the transactions of
its renamings begin. -/
theorem staged_publishable (objectLimit byteLimit : Nat) (earlier : List Event)
    (transaction : PreparedTransaction) (events : List Event) :
    let s := runEvents ⟨⟨objectLimit, byteLimit, []⟩, .idle⟩ earlier
    (∀ event, s.component.Sound (step s event).2.component) ∧
      (Staged transaction.pairs s → Undisturbed transaction.pairs events →
        ∀ before event after, events = before ++ event :: after →
          (runEvents s before).Publishable event) := by
  intro s
  have hor : s.Orderly :=
    run_orderly ⟨⟨Nat.zero_le _, Nat.zero_le _⟩, fun _ _ _ h => Publisher.noConfusion h⟩ earlier
  have hdi : Distinct s.component :=
    distinct_run (s := ⟨⟨objectLimit, byteLimit, []⟩, .idle⟩) List.nodup_nil earlier
  refine ⟨sound_step hor.1, fun hs hu => ?_⟩
  obtain ⟨hr, hc⟩ := hs.reserved hor hdi
  exact publishable_of_reserved hr hs.distinct hs.final hu (.inl hc)

/-- A finalization with one grant and its entry. -/
def exampleTransaction : PreparedTransaction := ⟨1, 7, 0, [2], [(8, [1])], 0⟩

/-- It is staged, and the component is full. -/
def stagedExample (objectLimit : Nat) : Installed :=
  runEvents ⟨⟨objectLimit, 9, []⟩, .idle⟩ (exampleTransaction.stagedPairs.map fun pair =>
    .other (.create pair.1 pair.2) {})

/-- The grant is published, pruned and created again in a full component. -/
theorem staged_publishable_pruned :
    let grant := exampleTransaction.grantPath (8, [1])
    (runEvents (stagedExample 2) [.rename grant [1] {}, .other (.prune [(grant, [1])]) {},
      .rename grant [1] {}, .visit [(grant, [1])]]).Publishable (.create {}) := by
  intro grant
  refine (staged_publishable 2 9 _ exampleTransaction _).2 ⟨by decide, by decide, by decide,
    by decide, rfl⟩ ⟨?_, ?_, ?_⟩ [.rename grant [1] {}, .other (.prune [(grant, [1])]) {},
      .rename grant [1] {}, .visit [(grant, [1])]] (.create {}) [] rfl
  · intro work medium hm
    simp only [List.mem_append, List.mem_cons, reduceCtorEq, Event.other.injEq, false_or, or_false,
      List.not_mem_nil] at hm
    rw [hm.1]
    trivial
  · intro target bytes medium hm
    simp only [List.mem_append, List.mem_cons, reduceCtorEq, Event.rename.injEq, false_or, or_false,
      List.not_mem_nil, or_self] at hm
    obtain ⟨rfl, rfl, rfl⟩ := hm
    exact ⟨by decide, rfl⟩
  · simp [Event.Fills]

/-- The grant is published and pruned, a receipt takes its room, and the recovery of the
finalization cannot create the grant again. -/
theorem pruned_grant_lacks_room :
    let grant := exampleTransaction.grantPath (8, [1])
    Staged exampleTransaction.pairs (stagedExample 2)
      ∧ (step (runEvents (stagedExample 2) [.rename grant [1] {}, .other (.prune [(grant, [1])]) {},
          .other (.create ⟨.other "receipts/1.ear", false⟩ [3]) {}, .rename grant [1] {},
          .visit [(grant, [1])]]) (.create {})).1 = some .pendingPublication := by
  exact ⟨⟨by decide, by decide, by decide, by decide, rfl⟩, by decide⟩

end Einsatzarchiv.Writer
