/-
  File:      Einsatzarchiv/Cbor/Codec.lean
  Subject:   The bounded decoder and the canonical encoder (crate `ea-cbor`, `decode.rs`,
             `encode.rs` and `limits.rs`).

  * `scanItem`: the recursive scanner over positions of the input, with its budgets.
  * `encodeItem`: the recursive encoder, which reads the input again and sorts map entries.
  * `canonicalReencode`, `validateOne`, `validate`: the entry points.

  Positions and lengths are `usize`, taken as 64 bits.  The failure of an allocation is left out.
-/
import Einsatzarchiv.Lib.Cbor.Normal
import Einsatzarchiv.Lib.Guards
import Einsatzarchiv.Types
import Mathlib.Order.Compare

namespace Einsatzarchiv.Cbor

open Lib Lib.Cbor

/-! ## 1. Errors, limits and the tests of texts -/

/-- Why bytes are no item of the profile. -/
inductive CborError
  | indefinite
  | itemLimit
  | depthLimit
  | containerLimit
  | tokenLimit
  | trailingBytes
  | nonMinimal
  | float
  | invalidUtf8
  | nonNfc
  | mapOrder
  | duplicateKey
  | invalid
  | encode
  deriving DecidableEq, Repr

/-- The code of an error, as reports name it. -/
def CborError.code : CborError → String
  | .indefinite => "EA-CBOR-INDEFINITE"
  | .itemLimit => "EA-CBOR-ITEM-LIMIT"
  | .depthLimit => "EA-CBOR-DEPTH-LIMIT"
  | .containerLimit => "EA-CBOR-CONTAINER-LIMIT"
  | .tokenLimit => "EA-CBOR-TOKEN-LIMIT"
  | .trailingBytes => "EA-CBOR-TRAILING"
  | .nonMinimal => "EA-CBOR-NONMINIMAL"
  | .float => "EA-CBOR-FLOAT"
  | .invalidUtf8 => "EA-CBOR-UTF8"
  | .nonNfc => "EA-CBOR-NON-NFC"
  | .mapOrder => "EA-CBOR-MAP-ORDER"
  | .duplicateKey => "EA-CBOR-DUPLICATE-KEY"
  | .invalid => "EA-CBOR-INVALID"
  | .encode => "EA-CBOR-ENCODE"

/-- The budgets of a scan. -/
structure ParserLimits where
  (maxDepth maxContainerItems maxTotalItems maxTextOrBytes : Nat)
  deriving DecidableEq, Repr

def ParserLimits.v1 : ParserLimits := ⟨16, 10000, 10000, 1048592⟩

/-- No budget is zero. -/
def ParserLimits.hasNonzeroSecurityBudgets (limits : ParserLimits) : Bool :=
  0 < limits.maxDepth && 0 < limits.maxContainerItems && 0 < limits.maxTotalItems

/-- The tests of the payload of a text: `core::str::from_utf8`, and `nfc` of the crate
`unicode_normalization`. -/
class TextRules where
  isUtf8 : Bytes → Bool
  isNfc : Bytes → Bool

/-- `deterministic_key_cmp`. -/
def deterministicKeyCmp (left right : Bytes) : Ordering := cmp (keyOrder left) (keyOrder right)

/-! ## 2. Reading -/

section Reading

variable (input : Bytes)

/-- `read_byte`, the same in `Scanner` and `CanonicalEncoder`, as the other three below. -/
def readByte (position : Nat) : Except CborError (UInt8 × Nat) := do
  let byte ← okOr input[position]? .invalid
  return (byte, position + 1)

/-- The next bytes; the position may not overflow. -/
def readSlice (length position : Nat) : Except CborError (Bytes × Nat) := do
  let stop ← okOr (checkedAdd position length) .itemLimit
  ensure (stop ≤ input.length) .invalid
  return (slice input position stop, stop)

/-- The next bytes as a number. -/
def readUint (width position : Nat) : Except CborError (Nat × Nat) := do
  let (bytes, position) ← readSlice input width position
  return (ofBigEndian bytes, position)

/-- `CanonicalEncoder::read_argument`, which accepts an argument of any width. -/
def readArgument (additional position : Nat) : Except CborError (Nat × Nat) :=
  if additional ≤ 23 then .ok (additional, position)
  else
    match additional with
    | 24 => do
        let (byte, position) ← readByte input position
        return (byte.toNat, position)
    | 25 => readUint input 2 position
    | 26 => readUint input 4 position
    | 27 => readUint input 8 position
    | 31 => throw .indefinite
    | _ => throw .invalid

/-- The smallest argument that needs the width of the additional information. -/
def leastArgument : Nat → Nat
  | 24 => 24
  | 25 => 256
  | 26 => 65536
  | 27 => 4294967296
  | _ => 0

/-- `Scanner::read_argument`, which also rejects an argument that a shorter head can hold. -/
def readMinimalArgument (additional position : Nat) : Except CborError (Nat × Nat) := do
  let (value, position) ← readArgument input additional position
  ensure (leastArgument additional ≤ value) .nonMinimal
  return (value, position)

end Reading

/-! ## 3. The scanner -/

/-- The part of a `Scanner` that changes. -/
structure Scanner where
  (position totalItems : Nat)
  deriving DecidableEq, Repr

section Scanning

variable [TextRules] (input : Bytes) (limits : ParserLimits) (enforceMapOrder : Bool)

/-- A length within the budget of a container. -/
def readContainerLength (additional position : Nat) : Except CborError (Nat × Nat) := do
  let (length, position) ← readMinimalArgument input additional position
  ensure (length ≤ limits.maxContainerItems) .containerLimit
  return (length, position)

/-- `scan_simple`; returns the position behind the value. -/
def scanSimple (additional position : Nat) : Except CborError Nat :=
  if additional ≤ 23 then .ok position
  else
    match additional with
    | 24 => do
        let (value, position) ← readByte input position
        ensure (24 ≤ value.toNat) .nonMinimal
        ensure (32 ≤ value.toNat) .invalid
        return position
    | 25 | 26 | 27 => throw .float
    | 31 => throw .indefinite
    | _ => throw .invalid

/-- The test of a text; byte strings pass. -/
def checkText (major : Nat) (payload : Bytes) : Except CborError Unit := do
  ensure (major ≠ 3 ∨ TextRules.isUtf8 payload) .invalidUtf8
  ensure (major ≠ 3 ∨ TextRules.isNfc payload) .nonNfc

/-- The comparison of a key with the key before it; keys are given by their positions. -/
def checkKeyOrder (previousKey : Option (Nat × Nat)) (keyStart keyEnd : Nat) :
    Except CborError Unit :=
  match previousKey with
  | none => .ok ()
  | some (previousStart, previousEnd) =>
    match deterministicKeyCmp (slice input previousStart previousEnd)
      (slice input keyStart keyEnd) with
    | .eq => throw .duplicateKey
    | .gt => throw .mapOrder
    | .lt => .ok ()

/-- The key the next one is compared with; where the order is not enforced there is none. -/
def nextKey (previousKey : Option (Nat × Nat)) (keyStart keyEnd : Nat) :
    Except CborError (Option (Nat × Nat)) :=
  if enforceMapOrder then do
    checkKeyOrder input previousKey keyStart keyEnd
    return some (keyStart, keyEnd)
  else return previousKey

/-- The loop over the items of an array. -/
def scanItems (scan : Scanner → Except CborError Scanner) :
    Nat → Scanner → Except CborError Scanner
  | 0, scanner => .ok scanner
  | count + 1, scanner => do
      let scanner ← scan scanner
      scanItems scan count scanner

/-- The loop over the entries of a map. -/
def scanEntries (scan : Scanner → Except CborError Scanner) :
    Nat → Option (Nat × Nat) → Scanner → Except CborError Scanner
  | 0, _, scanner => .ok scanner
  | count + 1, previousKey, scanner => do
      let key ← scan scanner
      let previousKey ← nextKey input enforceMapOrder previousKey scanner.position key.position
      let value ← scan key
      scanEntries scan count previousKey value

/-- The branches of `scan_item` behind the initial byte.  `inner` scans an item one level
further down; there is none at the greatest depth (`check_container_depth`). -/
def scanMajor (inner : Option (Scanner → Except CborError Scanner))
    (major additional position totalItems : Nat) : Except CborError Scanner := do
  match major with
  | 0 | 1 =>
    let (_, position) ← readMinimalArgument input additional position
    return ⟨position, totalItems⟩
  | 2 | 3 =>
    let (length, position) ← readMinimalArgument input additional position
    ensure (length ≤ limits.maxTextOrBytes) .itemLimit
    let (payload, position) ← readSlice input length position
    checkText major payload
    return ⟨position, totalItems⟩
  | 4 =>
    let (length, position) ← readContainerLength input limits additional position
    let scan ← okOr inner .depthLimit
    scanItems scan length ⟨position, totalItems⟩
  | 5 =>
    let (length, position) ← readContainerLength input limits additional position
    let scan ← okOr inner .depthLimit
    scanEntries input enforceMapOrder scan length none ⟨position, totalItems⟩
  | 6 =>
    let (_, position) ← readMinimalArgument input additional position
    let scan ← okOr inner .depthLimit
    scan ⟨position, totalItems⟩
  | 7 =>
    let position ← scanSimple input additional position
    return ⟨position, totalItems⟩
  | _ => throw .invalid

/-- The front of `scan_item`: the item is counted, if it is within the budget. -/
def countItem (scanner : Scanner) : Except CborError Nat := do
  ensure limits.hasNonzeroSecurityBudgets .invalid
  let totalItems ← okOr (checkedAdd scanner.totalItems 1) .tokenLimit
  ensure (totalItems ≤ limits.maxTotalItems) .tokenLimit
  return totalItems

/-- One item of `scan_item`. -/
def scanStep (inner : Option (Scanner → Except CborError Scanner)) (scanner : Scanner) :
    Except CborError Scanner := do
  let totalItems ← countItem limits scanner
  let (initial, position) ← readByte input scanner.position
  scanMajor input limits enforceMapOrder inner (initial.toNat / 32) (initial.toNat % 32) position
    totalItems

/-- `scan_item`.  `room` is the number of levels still allowed, `max_depth - container_depth`. -/
def scanItem : Nat → Scanner → Except CborError Scanner
  | 0 => scanStep input limits enforceMapOrder none
  | room + 1 => scanStep input limits enforceMapOrder (some (scanItem room))

/-- One item of any order, and nothing behind it. -/
def scanRelaxed : Except CborError Unit := do
  let scanner ← scanItem input limits false limits.maxDepth ⟨0, 0⟩
  ensure (scanner.position = input.length) .trailingBytes

end Scanning

/-! ## 4. The encoder -/

/-- `encode_head`. -/
def encodeHead (major argument : Nat) : Bytes :=
  let first := major * 32
  if argument < 24 then [UInt8.ofNat (first + argument)]
  else if argument ≤ 255 then [UInt8.ofNat (first + 24), UInt8.ofNat argument]
  else if argument ≤ 65535 then UInt8.ofNat (first + 25) :: bigEndian 2 argument
  else if argument ≤ 4294967295 then UInt8.ofNat (first + 26) :: bigEndian 4 argument
  else UInt8.ofNat (first + 27) :: bigEndian 8 argument

/-- The loop over the parts of a container. -/
def encodeParts {α : Type} (encode : Nat → Except CborError (α × Nat)) :
    Nat → Nat → Except CborError (List α × Nat)
  | 0, position => .ok ([], position)
  | count + 1, position => do
      let (part, position) ← encode position
      let (parts, position) ← encodeParts encode count position
      return (part :: parts, position)

/-- The key and the value of a map entry. -/
def encodeEntry (encode : Nat → Except CborError (Bytes × Nat)) (position : Nat) :
    Except CborError ((Bytes × Bytes) × Nat) := do
  let (key, position) ← encode position
  let (value, position) ← encode position
  return ((key, value), position)

/-- The branches of `encode_item` behind the initial byte; `encode` is the recursive call. -/
def encodeMajor (input : Bytes) (encode : Nat → Except CborError (Bytes × Nat)) (initial : UInt8)
    (major additional position : Nat) : Except CborError (Bytes × Nat) := do
  match major with
  | 0 | 1 =>
    let (argument, position) ← readArgument input additional position
    return (encodeHead major argument, position)
  | 2 | 3 =>
    let (length, position) ← readArgument input additional position
    let (payload, position) ← readSlice input length position
    return (encodeHead major length ++ payload, position)
  | 4 =>
    let (length, position) ← readArgument input additional position
    let (items, position) ← encodeParts encode length position
    return (encodeHead major length ++ items.flatten, position)
  | 5 =>
    let (length, position) ← readArgument input additional position
    let (entries, position) ← encodeParts (encodeEntry encode) length position
    let entries := sortByKey (fun entry => keyOrder entry.1) entries
    ensure ((windows2 entries).all fun pair => pair.1.1 ≠ pair.2.1) .duplicateKey
    return (encodeHead major length ++ entries.flatMap fun entry => entry.1 ++ entry.2, position)
  | 6 =>
    let (number, position) ← readArgument input additional position
    let (content, position) ← encode position
    return (encodeHead major number ++ content, position)
  | 7 =>
    if additional ≤ 23 then return ([initial], position)
    else
      match additional with
      | 24 =>
        let (value, position) ← readByte input position
        return ([initial, value], position)
      | 25 | 26 | 27 => throw .float
      | 31 => throw .indefinite
      | _ => throw .invalid
  | _ => throw .invalid

/-- `encode_item`.  Every call reads a byte, so that `fuel` is the number of bytes that may be
left: without fuel there is no byte to read. -/
def encodeItem (input : Bytes) : Nat → Nat → Except CborError (Bytes × Nat)
  | 0, _ => throw .invalid
  | fuel + 1, position => do
      let (initial, position) ← readByte input position
      encodeMajor input (encodeItem input fuel) initial (initial.toNat / 32) (initial.toNat % 32)
        position

/-! ## 5. Entry points -/

section EntryPoints

variable [TextRules] (input : Bytes) (limits : ParserLimits)

/-- What was scanned is written again in the canonical order. -/
def canonicalReencode : Except CborError Bytes := do
  scanRelaxed input limits
  let (result, position) ← encodeItem input input.length 0
  ensure (position = input.length) .trailingBytes
  return result

/-- `BoundedDecoder::validate_one` from a position on; returns the position behind the item. -/
def validateOne (start : Nat) : Except CborError Nat := do
  ensure (start ≤ input.length) .invalid
  let scanner ← scanItem (input.drop start) limits true limits.maxDepth ⟨0, 0⟩
  let stop ← okOr (checkedAdd start scanner.position) .itemLimit
  ensure (stop ≤ input.length) .invalid
  let exact := slice input start stop
  let canonical ← canonicalReencode exact limits
  ensure (canonical = exact) .invalid
  return stop

/-- One canonical item, and nothing behind it. -/
def validate : Except CborError Unit := do
  let position ← validateOne input limits 0
  ensure (position = input.length) .trailingBytes

end EntryPoints

end Einsatzarchiv.Cbor
