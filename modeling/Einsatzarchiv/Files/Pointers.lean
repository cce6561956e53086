/-
  File:      Einsatzarchiv/Files/Pointers.lean
  Subject:   The active profile pointer of a root (crate `ea-archive-fs`, `profile_migration.rs`
             and `local_path.rs`).

  * `Installation`: what every migrator remembers, and the pointers that became durable in every
    root.
  * `writes`: what the attempts alone say about the pointers of a root.
  * `Counted`: a pointer has the generation after the last one its writer has noted.
  * **`generations_rise_iff`**: for which attempts the generations of the pointers rise one by one.

  NOT here: two migrations at once.  Each holds the writer lock of its source; the attempts of
  several migrators follow one another.
-/
import Einsatzarchiv.Lib.Lists
import Einsatzarchiv.Types
import Mathlib.Data.List.Induction
import Mathlib.Logic.Function.Basic

namespace Einsatzarchiv.Files

open Lib

/-! ## 1. Migrators -/

/-- `ActiveProfilePointerCoreV1`. -/
@[ext] structure ActiveProfilePointerCore where
  activeProfileHash : Hash32
  generation : Nat
deriving DecidableEq

/-- `ProfileMigrator`: its two profiles, and the root of the target. -/
structure ProfileMigrator where
  (sourceProfileHash targetProfileHash : Hash32)
  target : Nat

/-- The errors of a migration that are told apart here (`ArchiveBackendError`). -/
inductive ArchiveBackendError
  | io | flushFailed | auditFailed | migrationFault
deriving DecidableEq

/-- One pointer that became durable: its profile, who wrote it, and whether that migrator came to
know. -/
structure Write where
  profile : Hash32
  migrator : Nat
  noted : Bool
deriving DecidableEq

/-- A pointer that became durable, with its generation. -/
structure Written extends ActiveProfilePointerCore where
  migrator : Nat
  noted : Bool

/-- The pointer without its generation. -/
def Written.write (w : Written) : Write := ⟨w.activeProfileHash, w.migrator, w.noted⟩

/-- The migrators that are ever made, by number, each with the pointer its `MigratorState` holds,
and the pointers that became durable in every root, newest first. -/
structure Installation where
  memory : Nat → ActiveProfilePointerCore
  roots : Nat → List Written

/-- How a `write_active_profile_pointer` ends: before the file is renamed; after it, while the
directory cannot be flushed, so that the disk decides whether the new name lasts; or flushed. -/
inductive Writing
  | unwritten (error : ArchiveBackendError)
  | unflushed (error : ArchiveBackendError) (lasts : Bool)
  | flushed

/-- Whether a pointer became durable, and then whether its writer came to know. -/
def Writing.noted? : Writing → Option Bool
  | .unwritten _ | .unflushed _ false => none
  | .unflushed _ true => some false
  | .flushed => some true

/-- How the parts of a migration end: the steps before the swap, which leave the pointer alone, the
swap, the audit and the swap back.  A process that dies does what one does whose further parts
fail. -/
structure Attempt where
  prepared : Except ArchiveBackendError Unit
  swap : Writing
  audited : Except ArchiveBackendError EventId
  restore : Writing

namespace Installation

variable (migrators : Nat → ProfileMigrator) (i : Nat)

/-- `ProfileMigrator::new`, for every migrator: it reads no pointer. -/
def new : Installation where
  memory i := ⟨(migrators i).sourceProfileHash, 0⟩
  roots _ := []

/-- `write_active_profile_pointer`, after which both callers take the pointer over. -/
def writeActiveProfilePointer (writing : Writing) (pointer : ActiveProfilePointerCore)
    (s : Installation) : Except ArchiveBackendError Unit × Installation :=
  let root := (migrators i).target
  let stood noted := Function.update s.roots root (⟨pointer, i, noted⟩ :: s.roots root)
  match writing with
  | .unwritten error | .unflushed error false => (.error error, s)
  -- the file keeps its name, the caller only sees the error
  | .unflushed error true => (.error error, { s with roots := stood false })
  | .flushed => (.ok (), ⟨Function.update s.memory i pointer, stood true⟩)

/-- `roll_back_pointer`: a new pointer to the source profile. -/
def rollBackPointer (writing : Writing) (swappedGeneration : Nat) (s : Installation) :
    Installation :=
  match checkedAdd swappedGeneration 1 with
  | none => s
  | some generation => (s.writeActiveProfilePointer migrators i writing
      ⟨(migrators i).sourceProfileHash, generation⟩).2

/-- `migrate_under_lock`, with the event and the generation of its result. -/
def migrateUnderLock (attempt : Attempt) (s : Installation) :
    Except ArchiveBackendError (EventId × Nat) × Installation :=
  match attempt.prepared, checkedAdd (s.memory i).generation 1 with
  | .error error, _ => (.error error, s)
  | .ok (), none => (.error .migrationFault, s)
  | .ok (), some generation =>
    match s.writeActiveProfilePointer migrators i attempt.swap
      ⟨(migrators i).targetProfileHash, generation⟩, attempt.audited with
    | (.error error, s), _ => (.error error, s)
    | (.ok (), s), .ok id => (.ok (id, generation), s)
    | (.ok (), s), .error error =>
      (.error error, s.rollBackPointer migrators i attempt.restore generation)

/-- Any migrations by any migrators. -/
def run (attempts : List (Nat × Attempt)) : Installation :=
  attempts.foldl (fun s a => (s.migrateUnderLock migrators a.1 a.2).2) (new migrators)

end Installation

/-! ## 2. What the attempts write -/

/-- The pointer of one write, if it became durable. -/
def Writing.writes (writing : Writing) (profile : Hash32) (i : Nat) : List Write :=
  (writing.noted?.map fun noted => ⟨profile, i, noted⟩).toList

/-- The pointers of one attempt, newest first: that of the swap, and above it that of the swap back
if the swap was flushed and the audit failed. -/
def Attempt.writes (migrator : ProfileMigrator) (i : Nat) (attempt : Attempt) : List Write :=
  match attempt.prepared with
  | .error _ => []
  | .ok () =>
    (if attempt.swap.noted? = some true then
      match attempt.audited with
      | .ok _ => []
      | .error _ => attempt.restore.writes migrator.sourceProfileHash i
    else []) ++ attempt.swap.writes migrator.targetProfileHash i

/-- The pointers that the attempts put into a root, newest first. -/
def writes (migrators : Nat → ProfileMigrator) (root : Nat) (attempts : List (Nat × Attempt)) :
    List Write :=
  attempts.reverse.flatMap fun a =>
    if (migrators a.1).target = root then a.2.writes (migrators a.1) a.1 else []

/-! ## 3. What a migrator remembers -/

/-- The generation of the newest pointer that migrator `i` has noted. -/
def lastNoted (i : Nat) : List Written → Nat
  | [] => 0
  | w :: rest => if w.migrator = i ∧ w.noted then w.generation else lastNoted i rest

/-- A pointer has the generation after the last one its writer has noted. -/
def Counted : List Written → Prop
  | [] => True
  | w :: rest => w.generation = lastNoted w.migrator rest + 1 ∧ Counted rest

/-- The memory of every migrator is what it has noted in its root. -/
structure Kept (migrators : Nat → ProfileMigrator) (s : Installation) : Prop where
  memory : ∀ i, (s.memory i).generation = lastNoted i (s.roots (migrators i).target)
  counted : ∀ root, Counted (s.roots root)

section Run

variable {migs : Nat → ProfileMigrator} {s : Installation} {i : Nat}
  {pointer : ActiveProfilePointerCore}

open Installation

/-- What a write puts into a root. -/
theorem map_write_roots (migs : Nat → ProfileMigrator) (s : Installation) (i : Nat)
    (pointer : ActiveProfilePointerCore) (writing : Writing) (root : Nat) :
    ((s.writeActiveProfilePointer migs i writing pointer).2.roots root).map Written.write =
      (if (migs i).target = root then writing.writes pointer.activeProfileHash i else [])
        ++ (s.roots root).map Written.write := by
  have hs (noted : Bool) : (Function.update s.roots (migs i).target
      (⟨pointer, i, noted⟩ :: s.roots (migs i).target) root).map Written.write =
      (if (migs i).target = root then [⟨pointer.activeProfileHash, i, noted⟩] else [])
        ++ (s.roots root).map Written.write := by
    by_cases e : (migs i).target = root
    · rw [if_pos e, e, Function.update_self]
      rfl
    · rw [if_neg e, Function.update_of_ne (Ne.symm e)]
      rfl
  match writing with
  | .unwritten _ | .unflushed _ false => simp [writeActiveProfilePointer, Writing.writes,
      Writing.noted?]
  | .unflushed _ true => exact hs false
  | .flushed => exact hs true

theorem Kept.write (h : Kept migs s) (writing : Writing)
    (hn : pointer.generation = (s.memory i).generation + 1) :
    Kept migs (s.writeActiveProfilePointer migs i writing pointer).2 := by
  have hc (noted : Bool) (root : Nat) : Counted (Function.update s.roots (migs i).target
      (⟨pointer, i, noted⟩ :: s.roots (migs i).target) root) := by
    by_cases e : root = (migs i).target
    · rw [e, Function.update_self]
      exact ⟨by rw [hn, h.memory], h.counted _⟩
    · rw [Function.update_of_ne e]
      exact h.counted root
  have hl (noted : Bool) (j : Nat) : lastNoted j (Function.update s.roots (migs i).target
      (⟨pointer, i, noted⟩ :: s.roots (migs i).target) (migs j).target) =
      if i = j ∧ noted then pointer.generation else (s.memory j).generation := by
    rw [h.memory j]
    by_cases e : (migs j).target = (migs i).target
    · rw [e, Function.update_self]
      rfl
    · have hne : i ≠ j := fun hj => e (by rw [hj])
      rw [Function.update_of_ne e, if_neg fun hj => hne hj.1]
  match writing with
  | .unwritten _ | .unflushed _ false => exact h
  | .unflushed _ true => exact ⟨fun j => by simp [writeActiveProfilePointer, hl], hc false⟩
  | .flushed =>
    refine ⟨fun j => ?_, hc true⟩
    rw [writeActiveProfilePointer, hl]
    by_cases e : j = i
    · simp [e]
    · simp [e, Ne.symm e]

theorem Kept.rollBack (h : Kept migs s) (writing : Writing) :
    Kept migs (s.rollBackPointer migs i writing (s.memory i).generation) := by
  rw [rollBackPointer]
  split
  · exact h
  · next hn => exact h.write writing (checkedAdd_eq_some.mp hn).1

theorem Kept.migrate (h : Kept migs s) (attempt : Attempt) :
    Kept migs (s.migrateUnderLock migs i attempt).2 := by
  obtain ⟨_, swap, audited, restore⟩ := attempt
  rw [migrateUnderLock]
  split
  · exact h
  · exact h
  · next generation _ hn =>
    have hs : Kept migs (s.writeActiveProfilePointer migs i swap
        ⟨(migs i).targetProfileHash, generation⟩).2 :=
      h.write swap (checkedAdd_eq_some.mp hn).1
    match swap, audited with
    | .unwritten _, _ | .unflushed _ false, _ | .unflushed _ true, _ | .flushed, .ok _ => exact hs
    | .flushed, .error _ => simpa [writeActiveProfilePointer] using hs.rollBack (i := i) restore

/-- **Every run keeps it**: a migrator remembers what it has noted, and counts on from there. -/
theorem kept_run (atts : List (Nat × Attempt)) : Kept migs (run migs atts) := by
  induction atts using List.reverseRecOn with
  | nil => exact ⟨fun _ => rfl, fun _ => trivial⟩
  | append_singleton atts attempt ih =>
    rw [run, List.foldl_append]
    exact ih.migrate attempt.2

/-- A write changes no memory but by the pointer written. -/
theorem memory_write_le {n : Nat} (writing : Writing) (hp : pointer.generation ≤ n)
    (h : ∀ j, (s.memory j).generation ≤ n) (j : Nat) :
    ((s.writeActiveProfilePointer migs i writing pointer).2.memory j).generation ≤ n := by
  match writing with
  | .unwritten _ | .unflushed _ false | .unflushed _ true => exact h j
  | .flushed =>
    change (Function.update s.memory i pointer j).generation ≤ n
    by_cases e : j = i
    · rw [e, Function.update_self]
      exact hp
    · rw [Function.update_of_ne e]
      exact h j

/-- As long as the counter has room for two more pointers, an attempt puts into a root what it says
by itself. -/
theorem map_migrate_roots (attempt : Attempt) (hb : (s.memory i).generation + 2 ≤ u64Max)
    (root : Nat) : ((s.migrateUnderLock migs i attempt).2.roots root).map Written.write =
      (if (migs i).target = root then attempt.writes (migs i) i else [])
        ++ (s.roots root).map Written.write := by
  obtain ⟨prepared, swap, audited, restore⟩ := attempt
  have h1 : checkedAdd (s.memory i).generation 1 = some ((s.memory i).generation + 1) :=
    checkedAdd_eq_some.mpr ⟨rfl, by omega⟩
  have h2 : checkedAdd ((s.memory i).generation + 1) 1 = some ((s.memory i).generation + 2) :=
    checkedAdd_eq_some.mpr ⟨rfl, by omega⟩
  have hs := map_write_roots migs s i ⟨(migs i).targetProfileHash, (s.memory i).generation + 1⟩
    swap root
  rw [migrateUnderLock, h1]
  match prepared, swap, audited with
  | .error _, _, _ => simp [Attempt.writes]
  | .ok (), .unwritten _, _ | .ok (), .unflushed _ false, _ | .ok (), .unflushed _ true, _
  | .ok (), .flushed, .ok _ => exact hs
  | .ok (), .flushed, .error _ =>
    change List.map _ ((rollBackPointer migs i restore _ (s.writeActiveProfilePointer migs i
      .flushed _).2).roots root) = _
    rw [rollBackPointer, h2]
    change List.map _ ((writeActiveProfilePointer migs i restore _ _).2.roots root) = _
    rw [map_write_roots, hs]
    by_cases e : (migs i).target = root
    · simp [e, Attempt.writes, Writing.writes, Writing.noted?]
    · simp [e]

/-- An attempt counts up by two at most. -/
theorem memory_migrate_le {n : Nat} (attempt : Attempt) (h : ∀ j, (s.memory j).generation ≤ n)
    (j : Nat) : ((s.migrateUnderLock migs i attempt).2.memory j).generation ≤ n + 2 := by
  have hn (k : Nat) : (s.memory k).generation ≤ n + 2 := (h k).trans (by omega)
  obtain ⟨_, swap, audited, restore⟩ := attempt
  rw [migrateUnderLock]
  split
  · exact hn j
  · exact hn j
  · next generation _ hg =>
    have hi := h i
    obtain ⟨rfl, -⟩ := checkedAdd_eq_some.mp hg
    have hs : ∀ k, ((s.writeActiveProfilePointer migs i swap
        ⟨(migs i).targetProfileHash, (s.memory i).generation + 1⟩).2.memory k).generation
          ≤ n + 2 :=
      memory_write_le swap (by simp only; omega) hn
    match swap, audited with
    | .unwritten _, _ | .unflushed _ false, _ | .unflushed _ true, _ | .flushed, .ok _ => exact hs j
    | .flushed, .error _ =>
      change (((rollBackPointer migs i restore _ (s.writeActiveProfilePointer migs i
        .flushed _).2).memory j).generation) ≤ n + 2
      rw [rollBackPointer]
      split
      · exact hs j
      · next hg' =>
        obtain ⟨rfl, -⟩ := checkedAdd_eq_some.mp hg'
        exact memory_write_le restore (by simp only; omega) hs j

/-- **The pointers of a root are those of the attempts**, as long as no counter ends. -/
theorem map_roots_run {atts : List (Nat × Attempt)} (h : 2 * atts.length ≤ u64Max) :
    (∀ j, ((run migs atts).memory j).generation ≤ 2 * atts.length)
      ∧ ∀ root, ((run migs atts).roots root).map Written.write = writes migs root atts := by
  induction atts using List.reverseRecOn with
  | nil => exact ⟨fun _ => le_rfl, fun _ => rfl⟩
  | append_singleton atts attempt ih =>
    rw [List.length_append, List.length_singleton] at h ⊢
    obtain ⟨hm, hw⟩ := ih (by omega)
    rw [run, List.foldl_append]
    refine ⟨memory_migrate_le attempt.2 hm, fun root => ?_⟩
    have hi : ((run migs atts).memory attempt.1).generation + 2 ≤ u64Max := by
      have := hm attempt.1
      omega
    have ha : writes migs root (atts ++ [attempt]) = (if (migs attempt.1).target = root then
        attempt.2.writes (migs attempt.1) attempt.1 else []) ++ writes migs root atts := by
      simp [writes]
    rw [ha, ← hw root]
    exact map_migrate_roots attempt.2 hi root

end Run

/-! ## 4. Generations -/

/-- The oldest pointer has the generation 1, and from there they rise by one. -/
def Rising (l : List Written) : Prop :=
  ∀ w rest, w :: rest <:+ l → w.generation = rest.length + 1

/-- All pointers are of one migrator, and it has noted those before the newest. -/
def OneWriter (l : List Write) : Prop :=
  ∀ newest ∈ l.head?, ∀ older ∈ l.tail, older.migrator = newest.migrator ∧ older.noted

section Generations

variable {l l' : List Written} {w : Written}

theorem rising_cons : Rising (w :: l) ↔ w.generation = l.length + 1 ∧ Rising l := by
  simp [Rising, List.suffix_cons_iff, or_imp, forall_and]

theorem Rising.lastNoted_le (h : Rising l) (i : Nat) : lastNoted i l ≤ l.length := by
  induction l with
  | nil => exact le_rfl
  | cons w _ ih =>
    obtain ⟨_, hr⟩ := rising_cons.mp h
    have := ih hr
    rw [lastNoted, List.length_cons]
    split <;> omega

theorem oneWriter_cons_cons {u v : Write} {rest : List Write} :
    OneWriter (u :: v :: rest) ↔ (v.migrator = u.migrator ∧ v.noted) ∧ OneWriter (v :: rest) := by
  constructor
  · intro h
    have hv := h u rfl v List.mem_cons_self
    refine ⟨hv, fun newest hn older ho => ?_⟩
    cases hn
    exact hv.1 ▸ h u rfl older (List.mem_cons_of_mem _ ho)
  · intro ⟨hv, h⟩ newest hn older ho
    cases hn
    rcases List.mem_cons.mp ho with rfl | ho
    · exact hv
    · exact hv.1 ▸ h v rfl older ho

/-- Where each pointer counts on from what its writer has noted, the generations rise exactly where
there is one writer. -/
theorem Counted.rising_iff : ∀ {l : List Written}, Counted l →
    (Rising l ↔ OneWriter (l.map Written.write))
  | [], _ => by simp [Rising, OneWriter]
  | [w], h => by
    rw [rising_cons, h.1]
    simp [Rising, OneWriter, lastNoted]
  | w :: t :: rest, h => by
    have ih := h.2.rising_iff
    have hw := h.1
    rw [lastNoted] at hw
    rw [rising_cons, List.map_cons, List.map_cons, oneWriter_cons_cons, ← List.map_cons, ← ih]
    show _ ↔ (t.migrator = w.migrator ∧ t.noted) ∧ Rising (t :: rest)
    constructor
    · intro ⟨hl, hr⟩
      -- were the older pointer not noted by the same migrator, the newer one would not pass it
      have hs : t.migrator = w.migrator ∧ t.noted := by
        by_contra hne
        have := (rising_cons.mp hr).2.lastNoted_le w.migrator
        rw [if_neg hne] at hw
        simp at hl
        omega
      exact ⟨hs, hr⟩
    · intro ⟨hs, hr⟩
      rw [if_pos hs, (rising_cons.mp hr).1] at hw
      exact ⟨hw, hr⟩

/-- The profile of the pointer of a generation, counted from the oldest. -/
theorem Rising.exists_iff (h : Rising l) (p : Hash32) (n : Nat) :
    (∃ a ∈ l, a.toActiveProfilePointerCore = ⟨p, n + 1⟩)
      ↔ (l.map (·.activeProfileHash)).reverse[n]? = some p := by
  induction l with
  | nil => simp
  | cons w l ih =>
    obtain ⟨hw, hl⟩ := rising_cons.mp h
    have ih := ih hl
    rw [List.map_cons, List.reverse_cons, List.exists_mem_cons_iff, ih,
      ActiveProfilePointerCore.ext_iff, hw]
    by_cases e : n = l.length
    · subst e
      simp
    · have hne : ¬ (w.activeProfileHash = p ∧ l.length + 1 = n + 1) := fun hc => e (by omega)
      rw [or_iff_right hne]
      rcases Nat.lt_or_gt_of_ne e with hlt | hgt
      · rw [List.getElem?_append_left (by simpa using hlt)]
      · rw [List.getElem?_eq_none (by simp; omega), List.getElem?_eq_none (by simp; omega)]

/-- Where the generations rise, each names one pointer exactly where the profiles of one root are
the beginning of those of the other. -/
theorem Rising.same_iff (h : Rising l) (h' : Rising l') :
    (∀ a ∈ l, ∀ b ∈ l', a.generation = b.generation →
      a.toActiveProfilePointerCore = b.toActiveProfilePointerCore) ↔
    l.map (·.activeProfileHash) <:+ l'.map (·.activeProfileHash)
      ∨ l'.map (·.activeProfileHash) <:+ l.map (·.activeProfileHash) := by
  rw [← List.reverse_prefix, ← List.reverse_prefix, ← forall_getElem?_eq_iff]
  constructor
  · intro hs n p q hp hq
    obtain ⟨a, ha, hc⟩ := (h.exists_iff p n).mpr hp
    obtain ⟨b, hb, hd⟩ := (h'.exists_iff q n).mpr hq
    have e := hs a ha b hb (by rw [hc, hd])
    rw [hc, hd] at e
    exact congrArg ActiveProfilePointerCore.activeProfileHash e
  · intro hs a ha b hb e
    obtain ⟨front, rest, hl⟩ := List.append_of_mem ha
    have hg := h a rest ⟨front, hl.symm⟩
    have hp := (h.exists_iff a.activeProfileHash rest.length).mp ⟨a, ha, by
      rw [ActiveProfilePointerCore.ext_iff]
      exact ⟨rfl, hg⟩⟩
    have hq := (h'.exists_iff b.activeProfileHash rest.length).mp ⟨b, hb, by
      rw [ActiveProfilePointerCore.ext_iff]
      exact ⟨rfl, e ▸ hg⟩⟩
    exact ActiveProfilePointerCore.ext (hs _ _ _ hp hq) e

open Installation

/-- **Generations rise one by one, and name one pointer each, exactly for these attempts**: the
durable pointers of a root are written by one migrator, each but the newest in a write that was
flushed, and of two roots the profiles that one gets are the beginning of those the other gets.
With one root only the first part says something. -/
theorem generations_rise_iff (migrators : Nat → ProfileMigrator) (attempts : List (Nat × Attempt))
    (hb : 2 * attempts.length ≤ u64Max) :
    let roots := (run migrators attempts).roots
    let profiles root := (writes migrators root attempts).map (·.profile)
    ((∀ root, Rising (roots root)) ∧ ∀ root root', ∀ a ∈ roots root, ∀ b ∈ roots root',
      a.generation = b.generation → a.toActiveProfilePointerCore = b.toActiveProfilePointerCore) ↔
    (∀ root, OneWriter (writes migrators root attempts))
      ∧ ∀ root root', profiles root <:+ profiles root' ∨ profiles root' <:+ profiles root := by
  intro roots profiles
  have hk : Kept migrators (run migrators attempts) := kept_run attempts
  have hw (root : Nat) : (roots root).map Written.write = writes migrators root attempts :=
    (map_roots_run hb).2 root
  have hp (root : Nat) : profiles root = (roots root).map (·.activeProfileHash) := by
    show (writes migrators root attempts).map (·.profile) = _
    rw [← hw, List.map_map]
    rfl
  have hr (root : Nat) : Rising (roots root) ↔ OneWriter (writes migrators root attempts) := by
    rw [← hw]
    exact (hk.counted root).rising_iff
  rw [← forall_congr' hr]
  refine and_congr_right fun h => forall_congr' fun root => forall_congr' fun root' => ?_
  rw [hp, hp]
  exact (h root).same_iff (h root')

/-- One migrator, whose first migration is rolled back and whose second one succeeds although the
directory is not flushed. -/
theorem generations_rise_iff_retried :
    let migrators : Nat → ProfileMigrator := fun _ => ⟨1, 2, 0⟩
    let attempts : List (Nat × Attempt) := [(0, ⟨.ok (), .flushed, .error .auditFailed, .flushed⟩),
      (0, ⟨.ok (), .unflushed .flushFailed true, .ok 7, .flushed⟩)]
    ((run migrators attempts).roots 0).map (·.toActiveProfilePointerCore) = [⟨2, 3⟩, ⟨1, 2⟩, ⟨2, 1⟩]
      ∧ ∀ root, Rising ((run migrators attempts).roots root) := by
  intro migrators attempts
  have hn (root : Nat) (e : root ≠ 0) : writes migrators root attempts = [] := by
    simp [writes, attempts, migrators, Ne.symm e]
  refine ⟨by decide, ((generations_rise_iff migrators attempts (by decide)).mpr ⟨?_, ?_⟩).1⟩
  · intro root
    by_cases e : root = 0
    · subst e
      unfold OneWriter
      decide
    · rw [hn root e]
      intro _ h
      cases h
  · intro root root'
    by_cases e : root = 0
    · by_cases e' : root' = 0
      · rw [e, e']
        exact .inl List.suffix_rfl
      · exact .inr (by simp [hn root' e'])
    · exact .inl (by simp [hn root e])

/-- A migration that is rolled back and, after a restart, one to another profile that succeeds. -/
theorem generation_repeated :
    let attempt audited : Attempt := ⟨.ok (), .flushed, audited, .flushed⟩
    ((run (fun i => ⟨1, 2 + i, 0⟩)
      [(0, attempt (.error .auditFailed)), (1, attempt (.ok 7))]).roots 0).map
      (·.toActiveProfilePointerCore) = [⟨3, 1⟩, ⟨1, 2⟩, ⟨2, 1⟩] := by
  decide

end Generations

end Einsatzarchiv.Files
