/-
  File:      Einsatzarchiv/Lib/Lease.lean
  Subject:   A line of versions, each leased an interval of positions, and copies of a state that
             counts its revisions.

  Version `v` is leased the positions from `start v` through `stop v`.  A successor may begin
  anywhere from its predecessor's start up to one past its predecessor's end, so that leases
  overlap and several versions can start at one position.  A position belongs to the last
  version that started at or before it.

  * `Lease.Line`: the two rules between neighbours.
  * `Lease.Holds`: a version holds a position while no successor has started.
  * `Lease.Line.mono`, `Lease.Line.exists_holds`: the leases partition the positions, in order.
  * `Copied`: a copy that may be outdated, but is exact at the revision it was taken at;
    `Copied.of_lt`: it survives every commit, since a commit takes a later revision.
-/
import Mathlib.Data.Nat.Find
import Mathlib.Order.Monotone.Basic

namespace Einsatzarchiv.Lib

/-! ## 1. Leases -/

namespace Lease

variable {start stop : ℕ → ℕ} {tip : ℕ}

/-- Neighbouring versions up to `tip`: starts never fall back and no position is skipped. -/
structure Line (start stop : ℕ → ℕ) (tip : ℕ) : Prop where
  start_le : ∀ v, 1 ≤ v → v < tip → start v ≤ start (v + 1)
  contiguous : ∀ v, 1 ≤ v → v < tip → start (v + 1) ≤ stop v + 1

/-- Version `v` of a line holds position `s`: its lease covers `s` and its successor on the line
starts later. -/
structure Holds (start stop : ℕ → ℕ) (tip v s : ℕ) : Prop where
  pos : 1 ≤ v
  le_tip : v ≤ tip
  start_le : start v ≤ s
  le_stop : s ≤ stop v
  before_successor : v < tip → s < start (v + 1)

namespace Line

section

variable (line : Line start stop tip)
include line

/-- Starts ascend along the line. -/
theorem start_mono {v w : ℕ} (hv : 1 ≤ v) (hvw : v ≤ w) (hw : w ≤ tip) : start v ≤ start w := by
  induction w, hvw using Nat.le_induction with
  | base => exact le_rfl
  | succ w hvw ih =>
    exact (ih (by omega)).trans (line.start_le w (by omega) (by omega))

/-- Later positions are held by later versions. -/
theorem mono {v w s t : ℕ} (hv : Holds start stop tip v s)
    (hw : Holds start stop tip w t) (hst : s ≤ t) : v ≤ w := by
  by_contra hlt
  have hl : t < start (w + 1) := hw.before_successor (by have := hv.le_tip; omega)
  have hs : start (w + 1) ≤ start v := line.start_mono (by omega) (by omega) hv.le_tip
  have := hv.start_le
  omega

/-- Every position between the first start and the last end is held. -/
theorem exists_holds {s : ℕ} (ht : 1 ≤ tip)
    (hf : start 1 ≤ s) (hl : s ≤ stop tip) : ∃ v, Holds start stop tip v s := by
  -- the last version that has started
  obtain ⟨v, ⟨hp, hle, hs⟩, hm⟩ : ∃ v, (1 ≤ v ∧ v ≤ tip ∧ start v ≤ s) ∧
      ∀ w, 1 ≤ w ∧ w ≤ tip ∧ start w ≤ s → w ≤ v := by
    refine ⟨Nat.findGreatest (fun v => 1 ≤ v ∧ v ≤ tip ∧ start v ≤ s) tip, ?_, ?_⟩
    · exact Nat.findGreatest_spec (P := fun v => 1 ≤ v ∧ v ≤ tip ∧ start v ≤ s) ht ⟨le_rfl, ht, hf⟩
    · exact fun w hw => Nat.le_findGreatest hw.2.1 hw
  have hsu : v < tip → s < start (v + 1) := by
    intro hlt
    by_contra hge
    have := hm (v + 1) ⟨by omega, hlt, by omega⟩
    omega
  refine ⟨v, hp, hle, hs, ?_, hsu⟩
  rcases hle.eq_or_lt with rfl | hlt
  · exact hl
  · have := line.contiguous v hp hlt
    omega

end

end Line

end Lease

/-! ## 2. Copies -/

variable {σ α : Type} {revision : σ → Nat} {view : σ → α} {taken : Nat} {copy : α} {s t : σ}

/-- `copy` is what `view` showed at a revision the state has reached. -/
structure Copied (revision : σ → Nat) (view : σ → α) (taken : Nat) (copy : α) (s : σ) : Prop where
  le : taken ≤ revision s
  exact : taken = revision s → copy = view s

theorem Copied.refl (s : σ) : Copied revision view (revision s) (view s) s :=
  ⟨Nat.le_refl _, fun _ => rfl⟩

theorem Copied.of_lt (h : Copied revision view taken copy s) (hlt : revision s < revision t) :
    Copied revision view taken copy t where
  le := Nat.le_trans h.le (Nat.le_of_lt hlt)
  exact heq := absurd (heq ▸ h.le) (Nat.not_le_of_lt hlt)

theorem Copied.eq (h : Copied revision view taken copy s) (hr : taken = revision s) :
    copy = view s := h.exact hr

end Einsatzarchiv.Lib
