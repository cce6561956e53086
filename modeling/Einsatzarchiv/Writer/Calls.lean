/-
  File:      Einsatzarchiv/Writer/Calls.lean
  Subject:   The calls of an installation heed the guards.

  * `Does`, `Yields`: a program of the installation heeds the guards, and how it ends.
  * `Keyed`: keys and numbers of drafts are drawn values.
  * `does_loadOrCreate`, `does_save`, `does_createBlank`: the repository.
  * `does_complete` and the calls of the discard service.
-/
import Einsatzarchiv.Writer.Effects

namespace Einsatzarchiv.Writer

open Lib Format

variable [Normalization] [EvidenceSource]

/-! ## 1. Programs -/

variable {ε α β : Type} {licence : Licence} {s t : Installation} {row : DraftRow}

/-- The program heeds the guards and ends as stated. -/
def Does (licence : Licence) (p : Task ε α) (Ok : α → Installation → Prop)
    (Err : ε → Installation → Prop) (s : Installation) : Prop :=
  p.Heeds ports (Guard licence) (ends Ok Err) s

/-- As stated with a value, and in any way with an error. -/
abbrev Yields (licence : Licence) (p : Task ε α) (Ok : α → Installation → Prop)
    (s : Installation) : Prop :=
  Does licence p Ok (fun _ _ => True) s

namespace Does

variable {p : Task ε α} {Ok : α → Installation → Prop} {Err : ε → Installation → Prop}

variable {Ok' : β → Installation → Prop} {f : α → Task ε β} {x : Except ε α} {port : Port}

section

variable (h : Does licence p Ok Err s) {Err' : ε → Installation → Prop} {ε' : Type}
include h

theorem bind (hok : ∀ a t, Ok a t → Does licence (f a) Ok' Err' t)
    (he : ∀ e t, Err e t → Err' e t) :
    Does licence (p >>= f) Ok' Err' s :=
  Program.Heeds.bind h hok he

theorem imp {Ok' : α → Installation → Prop} (hok : ∀ a t, Ok a t → Ok' a t)
    (he : ∀ e t, Err e t → Err' e t) :
    Does licence p Ok' Err' s := by
  refine Program.Heeds.imp h ?_
  rintro (e | a) t ht
  · exact he e t ht
  · exact hok a t ht

theorem mapError {f : ε → ε'} {Err' : ε' → Installation → Prop}
    (he : ∀ e t, Err e t → Err' (f e) t) :
    Does licence (p.mapError f) Ok Err' s := by
  refine Program.Heeds.mapError h ?_
  rintro (e | a) t ht
  · exact he e t ht
  · exact ht

/-- The caller goes on after a failure. -/
theorem result_bind {f : Except ε α → Task ε' β} {Err' : ε' → Installation → Prop}
    (hok : ∀ a t, Ok a t → Does licence (f (.ok a)) Ok' Err' t)
    (he : ∀ e t, Err e t → Does licence (f (.error e)) Ok' Err' t) :
    Does licence (p.result >>= f) Ok' Err' s := by
  have hre : (p.result : Task ε' (Except ε α)).Heeds ports (Guard licence)
      (ends (fun r t => ends Ok Err r t) fun _ _ => False) s :=
    Program.Heeds.result h fun _ _ hr => hr
  refine Program.Heeds.bind hre ?_ (fun _ _ hr => hr.elim)
  rintro (e | a) t ht
  · exact he e t ht
  · exact hok a t ht

end

theorem ofExcept (hok : ∀ a, x = .ok a → Ok a s) (he : ∀ e, x = .error e → Err e s) :
    Does licence (Program.ofExcept x) Ok Err s := by
  cases x with
  | ok a => exact hok a rfl
  | error e => exact he e rfl

theorem ofExcept_bind (hok : ∀ a, x = .ok a → Does licence (f a) Ok' Err s)
    (he : ∀ e, x = .error e → Err e s) :
    Does licence (Program.ofExcept x >>= f) Ok' Err s := by
  cases x with
  | ok a => exact hok a rfl
  | error e => exact he e rfl

/-- One operation and what follows from its reply. -/
theorem call_bind {f : port.Reply → Task ε β} (hg : Guard licence port s)
    (hp : Does licence (f (port.perform s).1) Ok' Err (port.perform s).2)
    (hr : ∀ reply, port.refuse = some reply → Does licence (f reply) Ok' Err s)
    (hl : ∀ reply, port.refuse = some reply → port.lossy = true →
      Does licence (f reply) Ok' Err (port.perform s).2) :
    Does licence (call port >>= f) Ok' Err s :=
  Program.heeds_ask_bind hg hp hr hl

/-- One operation: it is performed under its guard, or refused without effect. -/
theorem transact_bind {f : port.Reply → Task ε β} (hl : port.lossy = false)
    (hg : Guard licence port s)
    (hp : Does licence (f (port.perform s).1) Ok' Err (port.perform s).2)
    (hr : (port.refuse.map f).elim True fun p => Does licence p Ok' Err s) :
    Does licence (call port >>= f) Ok' Err s := by
  refine call_bind hg hp (fun reply h => ?_) fun _ _ h => absurd (hl.symm.trans h) ?_
  · rw [h] at hr
    exact hr
  · decide

/-- What a program does when nobody asks how it fails. -/
theorem yields (h : Does licence p Ok Err s) : Yields licence p Ok s :=
  h.imp (fun _ _ h => h) fun _ _ _ => trivial

end Does

namespace Yields

variable {p : Task ε α} {Ok : α → Installation → Prop} {Ok' : β → Installation → Prop}
  {f : α → Task ε β} {x : Except ε α}

theorem bind (h : Yields licence p Ok s) (hok : ∀ a t, Ok a t → Yields licence (f a) Ok' t) :
    Yields licence (p >>= f) Ok' s :=
  Does.bind h hok fun _ _ h => h

theorem imp {Ok' : α → Installation → Prop} (h : Yields licence p Ok s)
    (hok : ∀ a t, Ok a t → Ok' a t) : Yields licence p Ok' s :=
  Does.imp h hok fun _ _ h => h

theorem mapError {ε' : Type} {f : ε → ε'} (h : Yields licence p Ok s) :
    Yields licence (p.mapError f) Ok s :=
  Does.mapError h fun _ _ h => h

theorem ofExcept (hok : ∀ a, x = .ok a → Ok a s) : Yields licence (Program.ofExcept x) Ok s :=
  Does.ofExcept hok fun _ _ => trivial

theorem ofExcept_bind (hok : ∀ a, x = .ok a → Yields licence (f a) Ok' s) :
    Yields licence (Program.ofExcept x >>= f) Ok' s :=
  Does.ofExcept_bind hok fun _ _ => trivial

/-- The same for `Yields`. -/
theorem transact_bind {port : Port} {f : port.Reply → Task ε β} (hl : port.lossy = false)
    (hg : Guard licence port s)
    (hp : Yields licence (f (port.perform s).1) Ok' (port.perform s).2)
    (hr : (port.refuse.map f).elim True fun p => Yields licence p Ok' s) :
    Yields licence (call port >>= f) Ok' s :=
  Does.transact_bind hl hg hp hr

end Yields

/-! ## 2. Drawn values -/

/-- Keys and numbers of drafts are drawn values; a claim belongs to the draft or to an older
one. -/
structure Keyed (s : Installation) : Prop where
  slot : ∀ key ∈ s.slot, key < s.draws
  draft : ∀ row ∈ s.draft, row.key < s.draws ∧ row.draftId < s.draws
  claims : ∀ claim ∈ s.claims, claim.draftId < s.draws
  own : ∀ row ∈ s.draft, ∀ claim ∈ s.claims, claim.draftId ≤ row.draftId
    ∧ (claim.draftId = row.draftId → claim.revision ≤ row.revision)

/-- No effect breaks the tie between the draft and its key. -/
theorem keyed_of_effect (h : Keyed s) (he : Effect licence s t) : Keyed t := by
  obtain ⟨hs, hd, hcl, ho⟩ := h
  cases he with
  | idle | book | intend | mark | restore | identify | bindEvidence | stage | publish | unstage
  | release => exact ⟨hs, hd, hcl, ho⟩
  | draw =>
    exact ⟨fun key hk => Nat.lt_succ_of_lt (hs key hk),
      fun row hr => (hd row hr).imp Nat.lt_succ_of_lt Nat.lt_succ_of_lt,
      fun claim hc => Nat.lt_succ_of_lt (hcl claim hc), ho⟩
  | wrapKey =>
    refine ⟨?_,
      fun row hr => (hd row hr).imp Nat.lt_succ_of_lt Nat.lt_succ_of_lt,
      fun claim hc => Nat.lt_succ_of_lt (hcl claim hc), ho⟩
    rintro key ⟨⟩
    exact Nat.lt_succ_self _
  | deleteKey => exact ⟨fun key hk => (nomatch hk), hd, hcl, ho⟩
  | insertBlank draftId dek _ hde hn | replaceDraft draftId dek hde hn =>
    refine ⟨hs, ?_, hcl, ?_⟩
    · rintro row ⟨⟩
      exact ⟨hs dek hde, hn.drawn⟩
    · rintro row ⟨⟩ claim hc
      have hlt := hn.claims claim hc
      exact ⟨hlt.le, fun heq => absurd heq hlt.ne⟩
  | save row hr =>
    refine ⟨hs, ?_, hcl, ?_⟩
    · rintro row' ⟨⟩
      exact hd row hr
    · rintro row' ⟨⟩ claim hc
      obtain ⟨hle, hre⟩ := ho row hr claim hc
      exact ⟨hle, fun heq => Nat.le_succ_of_le (hre heq)⟩
  | claim row claim hr _ _ hm =>
    refine ⟨hs, hd, forall_mem_concat hcl (hm.1 ▸ (hd row hr).2), fun row' hr' => ?_⟩
    obtain rfl : row = row' := Option.some.inj (hr.symm.trans hr')
    exact forall_mem_concat (ho row hr) ⟨hm.1.le, fun _ => hm.2.le⟩

omit [Normalization] [EvidenceSource] in
theorem Keyed.mono (h : Keyed s) {draws : Nat} (hle : s.draws ≤ draws) :
    Keyed { s with draws } where
  slot key hk := (h.slot key hk).trans_le hle
  draft row hr := (h.draft row hr).imp (·.trans_le hle) (·.trans_le hle)
  claims claim hc := (h.claims claim hc).trans_le hle
  own := h.own

omit [Normalization] [EvidenceSource] in
/-- The number drawn next is younger than every draft and claim, also after further draws. -/
theorem Keyed.newDraftId (h : Keyed s) {u : Installation} (hd : u.draft = s.draft)
    (hcl : u.claims = s.claims) (hdr : s.draws < u.draws) : u.NewDraftId s.draws where
  drawn := hdr
  draft row hr := (h.draft row (hd ▸ hr)).2
  claims claim hc := h.claims claim (hcl ▸ hc)

/-! ## 3. The repository -/

/-- Only the slot and the generator have moved, and the slot opens no draft. -/
structure Astray (s t : Installation) : Prop where
  eq : t = { s with slot := t.slot, draws := t.draws }
  locked : t.Locked
  le : s.draws ≤ t.draws

/-- The row is read as it is. -/
theorem does_readRow : Does licence readRow (fun row t => t = s ∧ row = s.draft)
    (fun e t => t = s ∧ e = .store .database) s := by
  refine .transact_bind rfl trivial ?_ ?_
  · exact ⟨rfl, rfl⟩
  · exact ⟨rfl, rfl⟩

/-- The key of the draft, if the slot has one. -/
theorem does_unwrapSecret : Does licence unwrapSecret (fun key t => t = s ∧ s.slot = some key)
    (fun e t => t = s ∧ (e = .key .notFound ∧ s.slot = none ∨ e = .key .unavailable)) s := by
  refine .transact_bind rfl trivial ?_ ?_
  · refine .ofExcept (fun key hk => ?_) (fun e he => ?_)
    · simp only [Port.perform] at hk
      split at hk
      · obtain rfl := Except.ok.inj hk
        exact ⟨rfl, ‹_›⟩
      · cases hk
    · simp only [Port.perform] at he
      split at he
      · cases he
      · obtain rfl := Except.error.inj he
        exact ⟨rfl, .inl ⟨rfl, ‹_›⟩⟩
  · exact ⟨rfl, .inr rfl⟩

/-- The state in which the row of a blank draft is written: its key is in the slot. -/
def wrapped (s : Installation) : Installation :=
  { s with slot := some (s.draws + 1), draws := s.draws + 3 }

/-- `create_blank`: the transaction commits, or the slot is as good as empty. -/
theorem does_createBlank {insert : Id16 → Draw → Task DraftError Unit}
    {after : Installation} (hke : Keyed s) (hl : s.Locked)
    (hi : Does licence (insert s.draws (s.draws + 1)) (fun _ t => t = after)
      (fun e t => t = wrapped s ∧ ∃ error, e = .store error) (wrapped s)) :
    Does licence (createBlank insert) (fun saved t => t = after ∧ saved = ⟨s.draws, 0⟩)
      (fun e t => Astray s t ∧ e ≠ .key .notFound ∧ e ≠ .aeadOpen) s := by
  have hf : ∀ u : Installation, u.draft = s.draft → u.slot = some (s.draws + 1) →
      u.Locked := by
    intro u hd hs row hr heq
    have hlt := (hke.draft row (hd ▸ hr)).1
    have hk : (s.draws + 1 : Nat) = row.key := Option.some.inj (hs.symm.trans heq)
    exact absurd hlt (Nat.not_lt_of_le (hk ▸ Nat.le_succ _))
  -- after the key is in the slot: the row is written, or nothing but the generator moves
  have hb : ∀ u : Installation, u = { s with slot := some (s.draws + 1), draws := s.draws + 2 } →
      Does licence (do
        let dek ← unwrapSecret
        let nonce ← call .draw
        let _ ← Program.ofExcept nonce
        insert s.draws dek) (fun _ t => t = after)
        (fun e t => (t = { s with slot := some (s.draws + 1), draws := t.draws }
          ∧ s.draws ≤ t.draws) ∧ e ≠ .key .notFound ∧ e ≠ .aeadOpen) u := by
    rintro u rfl
    refine does_unwrapSecret.bind ?_ ?_
    · rintro dek t ⟨rfl, hde⟩
      obtain rfl : s.draws + 1 = dek := Option.some.inj hde
      refine .transact_bind rfl trivial ?_ ?_
      · refine .ofExcept_bind (fun nonce _ => ?_) (fun e he => (nomatch he))
        refine hi.imp (fun _ _ ht => ht) ?_
        rintro e t ⟨rfl, error, rfl⟩
        exact ⟨⟨rfl, Nat.le_add_right _ _⟩, by simp, by simp⟩
      · exact ⟨⟨rfl, Nat.le_add_right _ _⟩, by simp, by simp⟩
    · rintro e t ⟨rfl, ⟨-, hn⟩ | rfl⟩
      · cases hn
      · exact ⟨⟨rfl, Nat.le_add_right _ _⟩, by simp, by simp⟩
  refine .transact_bind rfl trivial ?_ ?_
  · refine .ofExcept_bind ?_ (fun e he => (nomatch he))
    rintro _ ⟨⟩
    refine .call_bind hl ?_ ?_ ?_
    · refine .ofExcept_bind ?_ (fun e he => (nomatch he))
      rintro - -
      refine (hb _ rfl).result_bind ?_ ?_
      · rintro - t rfl
        exact ⟨rfl, rfl⟩
      · rintro e t ⟨⟨ht, hle⟩, her⟩
        have hlo : t.Locked := hf t (by rw [ht]) (by rw [ht])
        have hc : Astray s { t with slot := none } := ⟨by rw [ht], fun row _ => by simp, hle⟩
        refine .call_bind (.inl hlo) ?_ ?_ ?_
        · exact ⟨hc, her⟩
        · rintro _ -
          exact ⟨⟨by rw [ht], hlo, hle⟩, her⟩
        · rintro _ - -
          exact ⟨hc, her⟩
    · rintro _ ⟨⟩
      exact ⟨⟨rfl, hl, Nat.le_succ _⟩, by simp, by simp⟩
    · rintro _ ⟨⟩ -
      exact ⟨⟨rfl, hf _ rfl rfl, Nat.le_add_right _ 2⟩, by simp, by simp⟩
  · exact ⟨⟨rfl, hl, le_rfl⟩, by simp, by simp⟩

/-- A blank draft where there is none. -/
theorem does_insertBlank (hke : Keyed s) (hn : s.draft = none) :
    Does licence (insertBlank s.draws (s.draws + 1))
      (fun _ t => t = { wrapped s with draft := some (blankRow s.draws (s.draws + 1)) })
      (fun e t => t = wrapped s ∧ ∃ error, e = .store error) (wrapped s) := by
  refine .transact_bind rfl
    ⟨rfl, hke.newDraftId rfl rfl (Nat.lt_add_of_pos_right (by decide))⟩ ?_ ?_
  · have hd : (wrapped s).draft = none := hn
    simp only [Port.perform, hd, Option.isSome_none, Bool.false_eq_true, if_false, commit]
    exact rfl
  · exact ⟨rfl, _, rfl⟩

/-- A blank draft in place of the present one. -/
theorem does_replaceDraft (hke : Keyed s) (hs : ∀ tx ∈ s.marker, s.Holds tx.pairs) :
    Does licence (replaceDraft s.draws (s.draws + 1)) (fun _ t => t = { wrapped s with
        draft := some (blankRow s.draws (s.draws + 1)), transition := none })
      (fun e t => t = wrapped s ∧ ∃ error, e = .store error) (wrapped s) := by
  refine .transact_bind rfl ⟨rfl, hke.newDraftId rfl rfl (Nat.lt_add_of_pos_right (by decide)),
    fun row hr heq => ?_, hs⟩ rfl ?_
  · have hlt : row.key < s.draws := (hke.draft row hr).1
    have hk : (s.draws + 1 : Nat) = row.key := Option.some.inj heq
    exact absurd hlt (Nat.not_lt_of_le (hk ▸ Nat.le_succ _))
  · exact ⟨rfl, _, rfl⟩

/-- An installation whose draft has just been created. -/
def withBlank (s : Installation) : Installation :=
  { wrapped s with draft := some (blankRow s.draws (s.draws + 1)) }

/-- The draft was opened, and was created if there was none. -/
structure Loaded (s : Installation) (draft : Draft) (t : Installation) : Prop where
  opened : ∃ row ∈ t.draft, t.slot = some row.key ∧ draft = row.opened
  eq : t = s ∨ s.draft = none ∧ t = withBlank s

/-- The draft was not opened: its key is gone for good, or nothing is known. -/
structure Unloaded (s : Installation) (error : DraftError) (t : Installation) : Prop where
  eq : t = s ∨ s.draft = none ∧ Astray s t
  gone : error = .key .notFound ∨ error = .aeadOpen → t = s ∧ ¬ s.Opens

/-- The draft opens, or nothing has changed but the draws. -/
theorem does_loadOrCreate (hke : Keyed s) :
    Does licence loadOrCreate (Loaded s) (Unloaded s) s := by
  refine does_readRow.bind ?_ ?_
  · rintro row t ⟨rfl, rfl⟩
    cases hr : t.draft with
    | some row =>
      refine does_unwrapSecret.bind ?_ ?_
      · rintro key u ⟨rfl, hs⟩
        refine .ofExcept_bind (fun _ hk => ?_) (fun e he => ?_)
        · obtain rfl : key = row.key := by simpa using hk
          exact ⟨⟨row, hr, hs, rfl⟩, .inl rfl⟩
        · have hne : key ≠ row.key := fun heq => by simp [ensure, heq] at he
          refine ⟨.inl rfl, fun _ => ⟨rfl, fun ho => hne ?_⟩⟩
          exact Option.some.inj (hs.symm.trans (ho row hr))
      · rintro e u ⟨rfl, ⟨rfl, hn⟩ | rfl⟩
        · refine ⟨.inl rfl, fun _ => ⟨rfl, fun ho => ?_⟩⟩
          have := ho row hr
          rw [hn] at this
          cases this
        · exact ⟨.inl rfl, by rintro (h | h) <;> cases h⟩
    | none =>
      have hl : t.Locked := fun row hm => by rw [hr] at hm; cases hm
      refine (does_createBlank hke hl (does_insertBlank hke hr)).bind ?_ ?_
      · rintro _ u ⟨rfl, rfl⟩
        exact ⟨⟨_, rfl, rfl, rfl⟩, .inr ⟨hr, rfl⟩⟩
      · rintro e u ⟨ha, hne, _⟩
        exact ⟨.inr ⟨hr, ha⟩, by rintro (h | h) <;> contradiction⟩
  · rintro e t ⟨rfl, rfl⟩
    exact ⟨.inl rfl, by rintro (h | h) <;> cases h⟩

theorem perform_updateDraft (hr : s.draft = some row) :
    (Port.updateDraft row.opened row.key).perform s
      = (.ok (), { s with draft := some { row with revision := row.revision + 1 } }) := by
  simp [Port.perform, commit, Installation.updateDraft, hr, DraftRow.opened]

/-- `save` of the opened draft: its revision advances. -/
theorem does_save (hr : s.draft = some row) (hs : s.slot = some row.key) :
    Does licence (save row.opened)
      (fun saved t => saved = ⟨row.draftId, row.revision + 1⟩ ∧ s.draws ≤ t.draws
        ∧ t = { s with draft := some { row with revision := row.revision + 1 }, draws := t.draws })
      (fun _ t => s.draws ≤ t.draws ∧ t = { s with draws := t.draws }) s := by
  refine does_readRow.bind ?_ ?_
  · rintro found t ⟨rfl, rfl⟩
    refine .ofExcept_bind (fun found hf => ?_) (fun e _ => ⟨le_rfl, rfl⟩)
    obtain rfl : row = found := by
      rw [hr] at hf
      exact Except.ok.inj hf
    refine .ofExcept_bind (fun _ _ => ?_) (fun e _ => ⟨le_rfl, rfl⟩)
    refine does_unwrapSecret.bind ?_ ?_
    · rintro dek u ⟨rfl, hde⟩
      obtain rfl : row.key = dek := Option.some.inj (hs.symm.trans hde)
      refine .transact_bind rfl trivial ?_ ?_
      · refine .ofExcept_bind (fun nonce _ => ?_) (fun e he => (nomatch he))
        refine .transact_bind rfl ⟨row, hr, hs, rfl, rfl⟩ ?_ ?_
        · have hd : (Port.draw.perform u).2.draft = some row := hr
          rw [perform_updateDraft hd]
          exact ⟨rfl, Nat.le_succ u.draws, rfl⟩
        · exact ⟨Nat.le_succ _, rfl⟩
      · exact ⟨le_rfl, rfl⟩
    · rintro e u ⟨rfl, -⟩
      exact ⟨le_rfl, rfl⟩
  · rintro e t ⟨rfl, -⟩
    exact ⟨le_rfl, rfl⟩

/-- There is a handle only for the present draft. -/
theorem does_draftDekHandle {saved : SavedDraft} : Does licence (draftDekHandle saved)
      (fun _ t => t = s ∧ ∃ row ∈ s.draft, row.draftId = saved.draftId) (fun _ t => t = s) s := by
  refine does_readRow.bind ?_ (fun _ _ h => h.1)
  rintro _ t ⟨rfl, rfl⟩
  refine .ofExcept_bind (fun row hr => ?_) (fun e _ => rfl)
  exact .ofExcept (fun _ hs => ⟨rfl, row, okOr_eq_ok.mp hr, by simpa using hs⟩) (fun e _ => rfl)

omit [Normalization] [EvidenceSource] in
/-- A draft without its key is locked. -/
theorem Installation.locked_of_not_opens (h : ¬ s.Opens) : s.Locked := by
  intro row hr heq
  refine h fun row' hr' => ?_
  obtain rfl : row = row' := Option.some.inj (hr.symm.trans hr')
  exact heq

omit [Normalization] [EvidenceSource] in
theorem Installation.not_opens_of_locked (hr : s.draft = some row) (h : s.Locked) : ¬ s.Opens :=
  fun ho => h row hr (ho row hr)

/-- A locked draft is given up. -/
theorem does_replaceWithBlank (hke : Keyed s) (hl : s.Locked)
    (hs : ∀ tx ∈ s.marker, s.Holds tx.pairs) :
    Does licence replaceWithBlank (fun saved t => saved = ⟨s.draws, 0⟩
        ∧ t = { withBlank s with transition := none }) (fun _ t => Astray s t) s :=
  (does_createBlank hke hl (does_replaceDraft hke hs)).imp
    (fun _ _ h => ⟨h.2, h.1⟩) (fun _ _ h => h.1)

theorem does_preparedFinalizationMarker :
    Does licence preparedFinalizationMarker (fun marker t => t = s ∧ marker = s.marker)
      (fun _ t => t = s) s := by
  exact .transact_bind rfl trivial ⟨rfl, rfl⟩ rfl

omit [Normalization] [EvidenceSource] in
theorem keyed_withBlank (h : Keyed s) : Keyed (withBlank s) where
  slot key hk := by
    obtain rfl : s.draws + 1 = key := Option.some.inj hk
    exact Nat.lt_succ_of_lt (Nat.lt_succ_self _)
  draft row hr := by
    obtain rfl : blankRow s.draws (s.draws + 1) = row := Option.some.inj hr
    exact ⟨Nat.lt_succ_of_lt (Nat.lt_succ_self _), Nat.lt_add_of_pos_right (by decide)⟩
  claims claim hc := Nat.lt_add_right 3 (h.claims claim hc)
  own row hr claim hc := by
    obtain rfl : blankRow s.draws (s.draws + 1) = row := Option.some.inj hr
    have hlt := h.claims claim hc
    exact ⟨hlt.le, fun heq => absurd heq hlt.ne⟩

namespace Loaded

variable {draft : Draft}

section

omit [Normalization] [EvidenceSource]

/-- After a load the draft opens. -/
theorem opens (h : Loaded s draft t) : t.Opens := by
  obtain ⟨row, hr, hs, -⟩ := h.opened
  intro row' hr'
  obtain rfl : row = row' := Option.some.inj (hr.symm.trans hr')
  exact hs

theorem keyed (h : Loaded s draft t) (hke : Keyed s) : Keyed t := by
  rcases h.eq with rfl | ⟨-, rfl⟩
  · exact hke
  · exact keyed_withBlank hke

/-- Nothing but the draft, its key and the generator moves. -/
theorem frame (h : Loaded s draft t) :
    t = { s with draft := t.draft, slot := t.slot, draws := t.draws } ∧ s.draws ≤ t.draws := by
  rcases h.eq with rfl | ⟨-, rfl⟩
  · exact ⟨rfl, le_rfl⟩
  · exact ⟨rfl, Nat.le_add_right _ _⟩

end

end Loaded

/-! ## 4. Discarding -/

namespace DiscardService

/-- The key is deleted for the intent, then the draft is replaced. -/
theorem does_complete {intent : DiscardIntent} (hke : Keyed s)
    (hint : s.intent = some intent) : Yields licence (complete intent) (fun _ _ => True) s := by
  have hm : s.marker = none := by
    rw [Installation.intent_eq_some] at hint
    simp [Installation.marker, hint]
  refine does_draftDekHandle.yields.bind ?_
  rintro - t ⟨rfl, row, hr, hid⟩
  have hg : MayDeleteKey licence t := .inr (.inr ⟨intent, hint, row, hr, hid⟩)
  -- whatever the deletion answers, the program goes on only when the slot is empty
  have ha : Yields licence (confirmAbsence >>= fun _ =>
      removeCiphertextAndIntentCreateBlank intent) (fun _ _ => True) { t with slot := none } := by
    have hkeyed' : Keyed { t with slot := none } :=
      ⟨fun _ h => (nomatch h), hke.draft, hke.claims, hke.own⟩
    have hl : ({ t with slot := none } : Installation).Locked := fun row _ => by simp
    have hc : Yields licence confirmAbsence (fun _ u => u = { t with slot := none })
        { t with slot := none } := by
      refine .transact_bind rfl trivial ?_ trivial
      exact .ofExcept_bind fun _ _ => .ofExcept fun _ _ => rfl
    refine hc.bind ?_
    rintro - u rfl
    refine does_readRow.yields.bind ?_
    rintro _ u ⟨rfl, rfl⟩
    refine .ofExcept_bind fun row _ => ?_
    refine .ofExcept_bind fun _ _ => ?_
    refine (does_replaceWithBlank hkeyed' hl ?_).yields.bind fun _ _ _ => trivial
    intro _ htx
    exact absurd (hm.symm.trans htx) (by simp)
  have hd : Yields licence deleteDraftDek (fun _ u => u = { t with slot := none }) t := by
    refine .call_bind hg ?_ ?_ ?_
    · split
      · exact rfl
      · exact rfl
      · exact trivial
    · rintro _ ⟨⟩
      exact trivial
    · rintro _ ⟨⟩ -
      exact trivial
  refine hd.bind ?_
  rintro - u rfl
  exact ha

/-- The booked intent is the one that is handed on. -/
theorem does_commitIntent (hke : Keyed s) (hb : licence.Books) :
    Yields licence commitIntent (fun intent t => Keyed t ∧ t.intent = some intent) s := by
  refine (does_loadOrCreate hke).yields.bind ?_
  intro _ t hl
  refine .transact_bind rfl ⟨hb, hl.opens⟩ ?_ trivial
  refine .ofExcept fun intent hint => ?_
  -- the reply is the intent that was written
  simp only [Port.perform, commitWith] at hint ⊢
  split at hint
  · rename_i written u hw
    obtain rfl := Except.ok.inj hint
    unfold Installation.commitDiscardIntent at hw
    split at hw
    · cases hw
    · split at hw
      · cases hw
      · split at hw
        · cases hw
        · obtain ⟨rfl, rfl⟩ := Prod.mk.inj (Except.ok.inj hw)
          obtain ⟨hs, hd, hc, ho⟩ := hl.keyed hke
          exact ⟨⟨hs, hd, hc, ho⟩, rfl⟩
  · cases hint

variable {service : DiscardService} {proof : OperatorSessionProof}

theorem does_enter : Yields licence (service.enter proof) (fun _ t => t = s) s := by
  refine .ofExcept_bind fun _ _ => ?_
  refine does_preparedFinalizationMarker.yields.bind ?_
  rintro _ t ⟨rfl, -⟩
  exact .ofExcept fun _ _ => rfl

theorem does_pendingDiscard :
    Yields licence pendingDiscard (fun intent t => t = s ∧ intent = s.intent) s := by
  exact .transact_bind rfl trivial ⟨rfl, rfl⟩ trivial

section

variable (hke : Keyed s)
include hke

/-- A discard stays within its licence. -/
theorem does_beginDiscard (hb : licence.Books) :
    Yields licence (service.beginDiscard proof) (fun _ _ => True) s := by
  refine does_enter.bind ?_
  rintro - t rfl
  refine (does_commitIntent hke hb).bind ?_
  rintro _ u ⟨hkeyed', hint⟩
  exact does_complete hkeyed' hint

/-- So does one that is resumed. -/
theorem does_resumeDiscard : Yields licence (service.resumeDiscard proof) (fun _ _ => True) s := by
  refine does_enter.bind ?_
  rintro - t rfl
  refine does_pendingDiscard.bind ?_
  rintro _ t ⟨rfl, rfl⟩
  refine .ofExcept_bind fun intent hint => ?_
  exact does_complete hke (okOr_eq_ok.mp hint)

/-- A draft whose key is gone is replaced only where no marker stands. -/
theorem does_reopen (hm : s.marker = none) : Yields licence reopen (fun _ _ => True) s := by
  refine (does_loadOrCreate hke).result_bind (fun _ _ _ => trivial) ?_
  intro e t hu
  have hr : e = .key .notFound ∨ e = .aeadOpen → Yields licence (do
      let _ ← replaceWithBlank
      return RestartState.newBlankDraft) (fun _ _ => True) t := by
    intro he
    obtain ⟨rfl, hc⟩ := hu.gone he
    refine (does_replaceWithBlank hke
      (Installation.locked_of_not_opens hc) ?_).yields.bind fun _ _ _ => trivial
    intro _ htx
    exact absurd (hm.symm.trans htx) (by simp)
  split
  · cases ‹Except.error e = Except.ok _›
  · rename_i heq
    exact hr (.inl (Except.error.inj heq))
  · rename_i heq
    exact hr (.inr (Except.error.inj heq))
  · exact trivial

/-- And a restart. -/
theorem does_resumeAfterRestart :
    Yields licence (service.resumeAfterRestart proof) (fun _ _ => True) s := by
  refine .ofExcept_bind fun _ _ => ?_
  refine does_preparedFinalizationMarker.yields.bind ?_
  rintro _ t ⟨rfl, rfl⟩
  cases hm : t.marker with
  | some _ => exact trivial
  | none =>
    refine does_pendingDiscard.bind ?_
    rintro _ u ⟨rfl, rfl⟩
    cases hint : u.intent with
    | some _ =>
      exact (does_complete hke hint).bind fun _ _ _ => trivial
    | none => exact does_reopen hke hm

end

end DiscardService

end Einsatzarchiv.Writer
