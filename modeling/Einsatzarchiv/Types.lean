/-
  File:      Einsatzarchiv/Types.lean
  Subject:   Identifiers, hashes and machine integers (crate `ea-types`).

  The fixed-width byte arrays of the source (`Id16`, `Hash32` and their newtypes) are compared
  byte by byte, that is by their value as big-endian numbers; they are modelled by that number.
  The `u64` newtypes (`ChainSequence`, `RegistryVersion`) are natural numbers, the `i64` newtype
  `UnixMillis` is an integer; every operation of the source that can leave the range is modelled
  by its checked form.
-/
import Mathlib.Algebra.Ring.Nat
import Mathlib.Data.Int.Order.Basic

namespace Einsatzarchiv

abbrev Bytes := List UInt8

abbrev Id16 := Nat
abbrev OrganizationId := Id16
abbrev ChainId := Id16
abbrev DeviceId := Id16
abbrev EventId := Id16
abbrev AuthorizationId := Id16
abbrev DestructionId := Id16
abbrev SubjectId := Id16
abbrev OperatorSubjectId := Id16

/-- A text, character by character. -/
abbrev Text := List Char

abbrev Hash32 := Nat
abbrev EntryHash := Hash32
abbrev ObjectHash := Hash32
abbrev KeyThumbprint := Hash32
abbrev CertificateHash := ObjectHash

/-- `u64::MAX`. -/
def u64Max : Nat := 18446744073709551615

/-- `i64::MAX`. -/
def i64Max : Int := 9223372036854775807

/-- `u64::checked_add`. -/
def checkedAdd (a b : Nat) : Option Nat :=
  if a + b ≤ u64Max then some (a + b) else none

theorem checkedAdd_eq_some {a b c : Nat} :
    checkedAdd a b = some c ↔ c = a + b ∧ a + b ≤ u64Max := by
  unfold checkedAdd
  split <;> simp_all [eq_comm]

end Einsatzarchiv
