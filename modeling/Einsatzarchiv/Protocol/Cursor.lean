/-
  File:      Einsatzarchiv/Protocol/Cursor.lean
  Subject:   The technical cursors with which a reader pages (crate `ea-sync-protocol`,
             `reader.rs`).

  A cursor names the position after which a page continues.  It is bound to an organisation, an
  endpoint, a chain and the head from which the reading started; the server signs it, and the
  client sends it back as it is.

  * `encodeCursorCore`, `decodeCursor`: the writer and the reader of a token.
  * `TechnicalCursor.issue`, `TechnicalCursor.openToken`: the server's two operations.
  * `Exact`: a reader accepts exactly the items that a writer writes.
  * `decodeCursor_eq_ok`: the decoder accepts exactly the tokens.
  * `cursors_not_movable`: a token opens exactly in the scope it was issued for.
-/
import Einsatzarchiv.Cbor.Canonical
import Einsatzarchiv.Protocol.Commit

namespace Einsatzarchiv.Protocol

open Lib Lib.Cbor Cbor Format

/-! ## 1. Cursors -/

inductive Endpoint
  | authChallenges | deviceRegistrations | webauthnCredentials | vaultBlobs | vaultBlobRetrievals
  | trustRegistry | trustEvents | entryCommits | chainEntries | objects | historicalGrants
  | entryGrants | readerAcks | checkpoints | archiveExports | destructions | destructionStatus
  | destructionEvents | destructionJobs
  deriving DecidableEq

namespace Endpoint

def all : List Endpoint :=
  [authChallenges, deviceRegistrations, webauthnCredentials, vaultBlobs, vaultBlobRetrievals,
    trustRegistry, trustEvents, entryCommits, chainEntries, objects, historicalGrants, entryGrants,
    readerAcks, checkpoints, archiveExports, destructions, destructionStatus, destructionEvents,
    destructionJobs]

def code : Endpoint → Nat
  | authChallenges => 1 | deviceRegistrations => 2 | webauthnCredentials => 3 | vaultBlobs => 4
  | vaultBlobRetrievals => 5 | trustRegistry => 6 | trustEvents => 7 | entryCommits => 8
  | chainEntries => 9 | objects => 10 | historicalGrants => 11 | entryGrants => 12
  | readerAcks => 13 | checkpoints => 14 | archiveExports => 15 | destructions => 16
  | destructionStatus => 17 | destructionEvents => 18 | destructionJobs => 19

end Endpoint

/-- An identifier, a hash or a nonce, as its bytes. -/
abbrev Fixed (length : Nat) := { value : Bytes // value.length = length }

abbrev U64 := { value : Nat // value ≤ u64Max }

/-- A signed number of 64 bits. -/
abbrev I64 := { value : Int // -2 ^ 63 ≤ value ∧ value < 2 ^ 63 }

structure TechnicalCursorScope where
  organizationId : Fixed 16
  endpoint : Endpoint
  chainId : Option (Fixed 16)
  startHeadEntryHash : Option (Fixed 32)
  deriving DecidableEq

/-- A scope, a place in it and how long it may be used. -/
structure TechnicalCursorFields extends TechnicalCursorScope where
  lastTechnicalIndex : U64
  expiresAt : I64
  nonce : Fixed 16

structure TechnicalCursor where
  fields : TechnicalCursorFields
  token : Bytes

/-! ## 2. Writing and reading -/

/-- What `cbor::int` writes. -/
def intItem (value : I64) : Item :=
  if value.1 < 0 then .negative (-(value.1 + 1)).toNat else .unsigned value.1.toNat

/-- What stands at a field that may be missing: `cbor::bytes` or `cbor::null`. -/
def optionalItem {length : Nat} : Option (Fixed length) → Item
  | some value => .bytes value.1
  | none => .simple 22

def coreItem (fields : TechnicalCursorFields) : Item :=
  .array [.unsigned 1, .bytes fields.organizationId.1, .unsigned fields.endpoint.code,
    optionalItem fields.chainId, optionalItem fields.startHeadEntryHash,
    .unsigned fields.lastTechnicalIndex.1, intItem fields.expiresAt, .bytes fields.nonce.1]

def encodeCursorCore (fields : TechnicalCursorFields) : Bytes := (coreItem fields).write

/-- The fields and their signature as an item. -/
def tokenItem (fields : TechnicalCursorFields) (signature : Bytes) : Item :=
  .array [coreItem fields, .bytes signature]

/-- The frame `[core, signature]`. -/
def encodeToken (fields : TechnicalCursorFields) (signature : Bytes) : Bytes :=
  (tokenItem fields signature).write

/-! The readers of `cbor_read` take the next item of an input that is already validated. -/

/-- The value, if it is one of the type. -/
def checked {α : Type} {p : α → Prop} [DecidablePred p] (value : α) : Option { value // p value } :=
  if h : p value then some ⟨value, h⟩ else none

def readUint : Item → Option U64
  | .unsigned n => checked n
  | _ => none

/-- A signed number of 64 bits. -/
def readInt : Item → Option I64
  | .unsigned n => checked n
  | .negative n => checked (-1 - n)
  | _ => none

def bytesExact (length : Nat) : Item → Option (Fixed length)
  | .bytes value => checked value
  | _ => none

/-- A byte string of this length, or null. -/
def optionalBytesExact (length : Nat) : Item → Option (Option (Fixed length))
  | .simple 22 => some none
  | item => (bytesExact length item).map some

def readEndpoint (item : Item) : Option Endpoint := do
  let endpointCode ← readUint item
  Endpoint.all.find? (·.code = endpointCode.1)

/-- The part of `decode_cursor` that reads the core. -/
def decodeCore : Item → Option TechnicalCursorFields
  | .array [version, organizationId, endpoint, chainId, startHeadEntryHash, lastTechnicalIndex,
      expiresAt, nonce] => do
      let version ← readUint version
      let organizationId ← bytesExact 16 organizationId
      let endpoint ← readEndpoint endpoint
      let chainId ← optionalBytesExact 16 chainId
      let startHeadEntryHash ← optionalBytesExact 32 startHeadEntryHash
      let lastTechnicalIndex ← readUint lastTechnicalIndex
      let expiresAt ← readInt expiresAt
      let nonce ← bytesExact 16 nonce
      if version.1 = 1 then
        some ⟨⟨organizationId, endpoint, chainId, startHeadEntryHash⟩, lastTechnicalIndex,
          expiresAt, nonce⟩
      else none
  | _ => none

def protocolParserLimitsV1 : ParserLimits := ⟨16, 10000, 100000, maxArchiveObjectBytesV1⟩

/-- `decode_cursor`: the fields, the exact bytes of the core and the signature.  Every failure is
the same error, so that the order of the checks does not show. -/
def decodeCursor [TextRules] (token : Bytes) :
    Except SyncProtocolError (TechnicalCursorFields × Bytes × Bytes) := do
  (validate token protocolParserLimitsV1).mapError fun _ => .cursorInvalid
  match parse token with
  | some (.array [core, .bytes signature]) =>
    let fields ← okOr (decodeCore core) .cursorInvalid
    return (fields, core.write, signature)
  | _ => throw .cursorInvalid

/-! ## 3. The decoder accepts what the encoder writes -/

/-- The reader accepts exactly what the writer writes. -/
def Exact {α : Type} (read : Item → Option α) (item : α → Item) : Prop :=
  ∀ i a, read i = some a ↔ i = item a

@[simp] theorem checked_eq_some {α : Type} {p : α → Prop} [DecidablePred p] {value : α}
    {res : { value // p value }} : checked value = some res ↔ value = res.1 := by
  unfold checked
  split
  next h => simp [Subtype.ext_iff]
  next h => simpa using fun heq : value = res.1 => h (heq ▸ res.2)

theorem exact_readUint : Exact readUint fun value => .unsigned value.1 := by
  intro i a
  cases i <;> simp [readUint]

theorem exact_bytesExact (length : Nat) :
    Exact (bytesExact length) fun value => .bytes value.1 := by
  intro i a
  cases i <;> simp [bytesExact]

theorem exact_readInt : Exact readInt intItem := by
  intro i a
  unfold intItem
  split
  all_goals
    cases i with
    | negative n | unsigned n => simp [readInt]; omega
    | _ => simp [readInt]

theorem exact_optionalBytesExact (length : Nat) :
    Exact (optionalBytesExact length) optionalItem := by
  intro i a
  unfold optionalBytesExact
  split
  · cases a <;> simp [optionalItem]
  next hne =>
    rw [Option.map_eq_some_iff]
    cases a with
    | none => simp [optionalItem]; exact fun h => hne h
    | some value => simp [optionalItem, exact_bytesExact length _ _]

theorem exact_readEndpoint : Exact readEndpoint fun endpoint => .unsigned endpoint.code := by
  intro i a
  simp only [readEndpoint, some_iff, exact_readUint _ _]
  constructor
  · rintro ⟨code, rfl, hf⟩
    rw [show a.code = code.1 by simpa using List.find?_some hf]
  · rintro rfl
    exact ⟨⟨a.code, by cases a <;> decide⟩, rfl, by cases a <;> rfl⟩

theorem exact_decodeCore : Exact decodeCore coreItem := by
  intro i a
  constructor
  · intro h
    unfold decodeCore at h
    split at h
    · simp only [some_iff, exact_readUint _ _, exact_bytesExact _ _ _, exact_readEndpoint _ _,
        exact_optionalBytesExact _ _ _, exact_readInt _ _] at h
      obtain ⟨ver, rfl, _, rfl, _, rfl, _, rfl, _, rfl, _, rfl, _, rfl, _, rfl, h⟩ := h
      split at h
      next hv =>
        cases h
        rw [coreItem, hv]
      next => cases h
    · cases h
  · rintro rfl
    simp only [decodeCore, coreItem, some_iff, exact_readUint _ _, exact_bytesExact _ _ _,
      exact_readEndpoint _ _, exact_optionalBytesExact _ _ _, exact_readInt _ _]
    exact ⟨⟨1, by decide⟩, rfl, _, rfl, _, rfl, _, rfl, _, rfl, _, rfl, _, rfl, _, rfl, rfl⟩

section Tokens

variable {fields fields' : TechnicalCursorFields} {signature signature' core token : Bytes}

theorem size_tokenItem : (tokenItem fields signature).size = 11 := by
  have ho : ∀ {n : Nat} (value : Option (Fixed n)), (optionalItem value).size = 1 := by
    intro n value
    cases value <;> rfl
  have hint : (intItem fields.expiresAt).size = 1 := by
    unfold intItem
    split <;> rfl
  simp [tokenItem, coreItem, Item.size, sizeItems, ho, hint]

variable [TextRules]

/-- A token is accepted under every limit that its signature keeps. -/
theorem every_tokenItem {limit : Nat} (hs : signature.length ≤ limit) (hl : 32 ≤ limit)
    (hh : limit ≤ u64Max) :
    (tokenItem fields signature).Every (Accepts ⟨16, 10000, 100000, limit⟩ true) 0 := by
  simp only [u64Max] at hh
  have hb : ∀ {depth : Nat} {value : Bytes}, value.length ≤ limit →
      (Item.bytes value).Every (Accepts ⟨16, 10000, 100000, limit⟩ true) depth := fun h =>
    ⟨⟨by simp only [Item.Argued, maxArgument]; omega, h⟩, fun _ => trivial⟩
  have hf : ∀ {n : Nat} (value : Fixed n), n ≤ 32 → value.1.length ≤ limit := by
    intro n value hn
    have := value.2
    omega
  have ho : ∀ {n : Nat} (value : Option (Fixed n)), n ≤ 32 →
      (optionalItem value).Every (Accepts ⟨16, 10000, 100000, limit⟩ true) 2 := by
    intro n value hn
    cases value with
    | none => exact ⟨⟨.inl (by decide), trivial⟩, fun _ => trivial⟩
    | some value => exact hb (hf value hn)
  have hint : (intItem fields.expiresAt).Every (Accepts ⟨16, 10000, 100000, limit⟩ true) 2 := by
    obtain ⟨hmi, hm⟩ := fields.expiresAt.2
    unfold intItem
    split
    all_goals exact ⟨⟨by simp only [Item.Argued, maxArgument]; omega, trivial⟩, fun _ => trivial⟩
  have hc : fields.endpoint.code ≤ maxArgument := by cases fields.endpoint <;> decide
  simp only [tokenItem, coreItem, every_array, List.forall_mem_cons]
  refine ⟨⟨⟨by simp [Item.Argued, maxArgument], by simp⟩, fun _ => trivial⟩,
    ⟨⟨⟨by simp [Item.Argued, maxArgument], by simp⟩, fun _ => trivial⟩,
      ⟨⟨by simp [Item.Argued, maxArgument], trivial⟩, fun _ => trivial⟩,
      hb (hf _ (by decide)), ⟨⟨hc, trivial⟩, fun _ => trivial⟩, ho _ (by decide),
      ho _ (by decide), ⟨⟨fields.lastTechnicalIndex.2, trivial⟩, fun _ => trivial⟩, hint,
      hb (hf _ (by decide)), by simp⟩, hb hs, by simp⟩

/-- **The decoder accepts exactly the tokens** with a signature that an object could carry. -/
theorem decodeCursor_eq_ok (hl : token.length ≤ u64Max) :
    decodeCursor token = .ok (fields, core, signature) ↔ token = encodeToken fields signature ∧
      core = encodeCursorCore fields ∧ signature.length ≤ maxArchiveObjectBytesV1 := by
  constructor
  · intro h
    simp only [decodeCursor, ok_iff] at h
    obtain ⟨_, hv, h⟩ := h
    obtain ⟨item, rfl, had, -⟩ := (validate_eq_ok hl).mp hv
    rw [parse_write had.wellFormed] at h
    split at h
    next core' sig heq =>
      cases heq
      simp only [ok_iff] at h
      obtain ⟨_, hf, rfl, rfl, rfl⟩ := h
      obtain rfl := (exact_decodeCore _ _).mp hf
      have hs := (every_array.mp had.fits).2 (.bytes sig) (by simp)
      exact ⟨rfl, rfl, hs.2⟩
    next => cases h
  · rintro ⟨rfl, rfl, hs⟩
    have ha := @every_tokenItem fields signature _ _ hs (by decide) (by decide)
    have had : Admissible protocolParserLimitsV1 (tokenItem fields signature) :=
      ⟨by decide, ha.imp fun _ _ h => h.1, by rw [size_tokenItem]; decide⟩
    have hv := (validate_eq_ok hl).mpr ⟨_, rfl, had, ha.imp fun _ _ h => h.2 rfl⟩
    have hp : parse (encodeToken fields signature) =
        some (.array [coreItem fields, .bytes signature]) := parse_write had.wellFormed
    simp only [decodeCursor, hp, ok_iff]
    exact ⟨(), hv, fields, (exact_decodeCore _ _).mpr rfl, rfl, rfl, trivial⟩

/-- **No two cursors have the same token.** -/
theorem encodeToken_injective (h : signature.length ≤ u64Max) (h' : signature'.length ≤ u64Max)
    (heq : encodeToken fields signature = encodeToken fields' signature') :
    fields = fields' ∧ signature = signature' := by
  have hfo : ∀ fields, ∀ signature : Bytes, signature.length ≤ u64Max →
      (tokenItem fields signature).WellFormed := fun fields signature h =>
    (@every_tokenItem fields signature _ _ h (by decide) le_rfl).imp fun _ _ ha => ha.1.1
  have hi := write_injective (hfo _ _ h) (hfo _ _ h') heq
  simp only [tokenItem, Item.array.injEq, List.cons.injEq, Item.bytes.injEq] at hi
  have hf : some fields = some fields' := by
    rw [← (exact_decodeCore _ fields).mpr rfl, hi.1, (exact_decodeCore _ fields').mpr rfl]
  exact ⟨Option.some.inj hf, hi.2.1⟩

end Tokens

/-! ## 4. The server -/

/-- SHA-256, and the server's key as `TechnicalCursorVerifier` asks it. -/
class CursorKey where
  sha256 : Bytes → Hash32
  verifyTechnicalCursorDigest : Hash32 → Bytes → Bool

/-- What keeps cursors apart from everything else that is signed. -/
def technicalCursorDomainV1 : Bytes := "EINSATZARCHIV-TECHNICAL-CURSOR-v1".toUTF8.toList

variable [CursorKey]

def technicalCursorDigest (exactCore : Bytes) : Hash32 :=
  CursorKey.sha256 (technicalCursorDomainV1 ++ exactCore)

namespace TechnicalCursor

/-- `issue`; a signer that fails gives no cursor. -/
def issue (fields : TechnicalCursorFields) (signer : Hash32 → Option Bytes) :
    Option TechnicalCursor := do
  let signature ← signer (technicalCursorDigest (encodeCursorCore fields))
  return ⟨fields, encodeToken fields signature⟩

/-- `open`. -/
def openToken [TextRules] (token : Bytes) (now : Int) (scope : TechnicalCursorScope) :
    Except SyncProtocolError TechnicalCursor := do
  let (fields, core, signature) ← decodeCursor token
  ensure (CursorKey.verifyTechnicalCursorDigest (technicalCursorDigest core) signature)
    .cursorInvalid
  ensure (now ≤ fields.expiresAt.1) .cursorExpired
  ensure (fields.endpoint = scope.endpoint ∧ fields.organizationId = scope.organizationId ∧
    fields.chainId = scope.chainId ∧ fields.startHeadEntryHash = scope.startHeadEntryHash)
    .cursorScope
  return ⟨fields, token⟩

end TechnicalCursor

/-! ## 5. No cursor can be moved -/

/-- A call of `issue`, with what its signer answers. -/
structure IssueCall where
  fields : TechnicalCursorFields
  signer : Hash32 → Option Bytes

/-- The server's key: it verifies the signatures under the cores that were issued and no others.
They are COSE objects of a fixed size. -/
structure Unforgeable (calls : Set IssueCall) : Prop where
  verify_iff : ∀ core signature,
    CursorKey.verifyTechnicalCursorDigest (technicalCursorDigest core) signature = true ↔
      ∃ call ∈ calls, core = encodeCursorCore call.fields ∧
        call.signer (technicalCursorDigest core) = some signature
  short : ∀ call ∈ calls, ∀ digest signature, call.signer digest = some signature →
    signature.length ≤ maxArchiveObjectBytesV1

/-- What the checks of `open` establish. -/
theorem openToken_eq_ok [TextRules] {token : Bytes} {now : Int} {scope : TechnicalCursorScope}
    {cursor : TechnicalCursor} : TechnicalCursor.openToken token now scope = .ok cursor ↔
    ∃ core signature, decodeCursor token = .ok (cursor.fields, core, signature) ∧
      CursorKey.verifyTechnicalCursorDigest (technicalCursorDigest core) signature = true ∧
      now ≤ cursor.fields.expiresAt.1 ∧ cursor.fields.toTechnicalCursorScope = scope ∧
      cursor.token = token := by
  obtain ⟨⟨⟨org, endpoint, cid, head⟩, index, expiresAt, nonce⟩, token'⟩ := cursor
  obtain ⟨org', endpoint', cid', head'⟩ := scope
  simp only [TechnicalCursor.openToken, ok_iff]
  constructor
  · rintro ⟨⟨fields, core, signature⟩, hd, -, hv, -, hn, -, ⟨rfl, rfl, rfl, rfl⟩, h⟩
    cases h
    exact ⟨core, signature, hd, hv, hn, rfl, rfl⟩
  · rintro ⟨core, signature, hd, hv, hn, hs, rfl⟩
    cases hs
    exact ⟨_, hd, (), hv, (), hn, (), ⟨rfl, rfl, rfl, rfl⟩, rfl⟩

/-- **Technical cursors cannot be moved.**  A token opens exactly in the scope for which it was
issued and until it expires, with the fields it was issued with; no two cursors share a token, the
decoder accepts only tokens, and no token opens in two scopes or with two positions. -/
theorem cursors_not_movable [TextRules] {calls : Set IssueCall} (hkey : Unforgeable calls) :
    (∀ token now scope cursor, token.length ≤ u64Max →
      (TechnicalCursor.openToken token now scope = .ok cursor ↔
        (∃ call ∈ calls, TechnicalCursor.issue call.fields call.signer = some cursor) ∧
          cursor.token = token ∧ cursor.fields.toTechnicalCursorScope = scope ∧
          now ≤ cursor.fields.expiresAt.1)) ∧
    (∀ fields fields' signature signature', signature.length ≤ u64Max →
      signature'.length ≤ u64Max → encodeToken fields signature = encodeToken fields' signature' →
        fields = fields' ∧ signature = signature') ∧
    (∀ token fields core signature, token.length ≤ u64Max →
      decodeCursor token = .ok (fields, core, signature) →
        token = encodeToken fields signature ∧ core = encodeCursorCore fields) ∧
    ∀ token now now' scope scope' cursor cursor',
      TechnicalCursor.openToken token now scope = .ok cursor →
        TechnicalCursor.openToken token now' scope' = .ok cursor' →
          scope = scope' ∧ cursor.fields = cursor'.fields := by
  refine ⟨fun token now scope cursor hle => ?_, fun _ _ _ _ h h' => encodeToken_injective h h',
    fun token fields core signature hle h => ?_, ?_⟩
  · rw [openToken_eq_ok]
    constructor
    · rintro ⟨core, signature, hd, hv, hn, hsc, ht⟩
      obtain ⟨hto, rfl, hsh⟩ := (decodeCursor_eq_ok hle).mp hd
      obtain ⟨call, hc, hco, hs⟩ := (hkey.verify_iff _ _).mp hv
      have hsa : encodeToken cursor.fields signature = encodeToken call.fields signature := by
        simp only [encodeCursorCore] at hco
        simp only [encodeToken, tokenItem, Item.write, writeItems, hco, List.length_cons]
      have hl : signature.length ≤ u64Max := hsh.trans (by decide)
      obtain ⟨hf, -⟩ := encodeToken_injective hl hl hsa
      refine ⟨⟨call, hc, ?_⟩, ht, hsc, hn⟩
      simp only [TechnicalCursor.issue, some_iff, ← hf] at hs ⊢
      exact ⟨signature, hs, congrArg _ (by rw [← hto, ← ht])⟩
    · rintro ⟨⟨call, hc, hi⟩, rfl, rfl, hn⟩
      simp only [TechnicalCursor.issue, some_iff] at hi
      obtain ⟨signature, hs, h⟩ := hi
      cases h
      have hsh := hkey.short call hc _ _ hs
      exact ⟨_, signature, (decodeCursor_eq_ok hle).mpr ⟨rfl, rfl, hsh⟩,
        (hkey.verify_iff _ _).mpr ⟨call, hc, rfl, hs⟩, hn, rfl, rfl⟩
  · obtain ⟨ht, hco, -⟩ := (decodeCursor_eq_ok hle).mp h
    exact ⟨ht, hco⟩
  · intro token now now' scope scope' cursor cursor' h h'
    obtain ⟨_, _, hd, -, -, rfl, -⟩ := openToken_eq_ok.mp h
    obtain ⟨_, _, hdec', -, -, rfl, -⟩ := openToken_eq_ok.mp h'
    rw [hd] at hdec'
    have hf : cursor.fields = cursor'.fields := (Prod.mk.inj (Except.ok.inj hdec')).1
    exact ⟨by rw [hf], hf⟩

/-- A cursor of chain 8 at position 200 that expires at -5. -/
def chainFields : TechnicalCursorFields where
  organizationId := ⟨.replicate 16 7, rfl⟩
  endpoint := .chainEntries
  chainId := some ⟨.replicate 16 8, rfl⟩
  startHeadEntryHash := none
  lastTechnicalIndex := ⟨200, by decide⟩
  expiresAt := ⟨-5, by decide⟩
  nonce := ⟨.replicate 16 9, rfl⟩

/-- A key that has signed this cursor. -/
abbrev chainKey : CursorKey where
  sha256 input := if input = technicalCursorDomainV1 ++ encodeCursorCore chainFields then 1 else 0
  verifyTechnicalCursorDigest digest signature := digest = 1 && signature = [7]

omit [CursorKey] in
theorem chainFields_not_movable :
    @TechnicalCursor.openToken chainKey asciiRules (encodeToken chainFields [7]) (-6)
      chainFields.toTechnicalCursorScope = .ok ⟨chainFields, encodeToken chainFields [7]⟩ := by
  have hk : @Unforgeable chainKey {⟨chainFields, fun _ => some [7]⟩} := by
    refine @Unforgeable.mk chainKey _ (fun core signature => ?_) ?_
    · by_cases hc : core = encodeCursorCore chainFields
      all_goals
        simp [technicalCursorDigest, CursorKey.sha256, CursorKey.verifyTechnicalCursorDigest, hc,
          eq_comm]
    · rintro _ rfl _ _ ⟨⟩
      decide
  exact ((@cursors_not_movable chainKey asciiRules _ hk).1 _ _ _ _ (by decide +kernel)).mpr
    ⟨⟨_, rfl, rfl⟩, rfl, rfl, by decide⟩

end Einsatzarchiv.Protocol
