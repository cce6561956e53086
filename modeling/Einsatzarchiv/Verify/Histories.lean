/-
  File:      Einsatzarchiv/Verify/Histories.lean
  Subject:   The history of one destruction (crate `ea-verify`, `assess_destruction`).

  * `Walk`: the loop of `assess_destruction` without fuel; `followEvents_walk`: the loop of the
    model is such a walk, so that it ends at one of the exits of the source.
  * `SoleRoot`, `Continues`, `LegalHistory`: what an accepted path is.
  * `assessDestruction_perm`: the order of the events does not matter.
  * `assessDestruction_history`: every event is on the accepted path or in conflict, and the
    accepted path is a legal history.
  * `assessDestruction_of_continues`: a history without repetitions is accepted to its end.
-/
import Einsatzarchiv.Verify.Destructions

namespace Einsatzarchiv.Verify

open Lib Format
open DestructionState (fromCode)

/-! ## 1. The walk over the events -/

/-- The pending events that name `current` as their predecessor. -/
def successors (current : ObjectHash) (pending : List VerifiedEvent) : List VerifiedEvent :=
  pending.filter (·.fields.previousEventObjectHash = some current)

/-- The pending events without one of them. -/
def without (next : VerifiedEvent) (pending : List VerifiedEvent) : List VerifiedEvent :=
  pending.filter (·.objectHash ≠ next.objectHash)

/-- The walk from `current` over the pending events: the events it accepts, those it leaves in
conflict, and the last state.  It stops without a single successor, and at a successor that is no
legal step. -/
inductive Walk (authorization : ObjectHash) : ObjectHash → DestructionState → List VerifiedEvent →
    List VerifiedEvent → List ObjectHash → DestructionState → Prop
  | stops {current : ObjectHash} {state : DestructionState} {pending : List VerifiedEvent}
      (hnone : ∀ next, successors current pending ≠ [next]) :
      Walk authorization current state pending [] (pending.map (·.objectHash)) state
  | refuses {current : ObjectHash} {state : DestructionState} {pending : List VerifiedEvent}
      {next : VerifiedEvent} (hnext : successors current pending = [next])
      (hillegal : advancedState state authorization next = none) :
      Walk authorization current state pending []
        (next.objectHash :: (without next pending).map (·.objectHash)) state
  | accepts {current : ObjectHash} {state reached final : DestructionState}
      {pending path : List VerifiedEvent} {next : VerifiedEvent} {conflicting : List ObjectHash}
      (hnext : successors current pending = [next])
      (hlegal : advancedState state authorization next = some reached)
      (hrest : Walk authorization next.objectHash reached (without next pending) path conflicting
        final) :
      Walk authorization current state pending (next :: path) conflicting final

variable {authorization current : ObjectHash} {state final : DestructionState}
  {group group' pending pending' path : List VerifiedEvent} {conflicting : List ObjectHash}
  {event root next : VerifiedEvent} {fuel : Nat}

theorem mem_of_successors (hn : successors current pending = [next]) :
    next ∈ pending ∧ next.fields.previousEventObjectHash = some current := by
  have hm : next ∈ successors current pending := by simp [hn]
  exact ⟨List.mem_of_mem_filter hm, by simpa using List.of_mem_filter hm⟩

/-- A round takes an event, so that the events shrink. -/
theorem length_without_lt (hn : next ∈ pending) :
    (without next pending).length < pending.length := by
  refine List.length_filter_lt_length_iff_exists.mpr ⟨next, hn, ?_⟩
  simp

/-- **The loop of the model is a walk**: with as much fuel as there are events it never runs out. -/
theorem followEvents_walk (hf : pending.length ≤ fuel) :
    ∃ path, Walk authorization current state pending path
      (followEvents authorization fuel current state pending).1
      (followEvents authorization fuel current state pending).2 := by
  induction fuel generalizing current state pending with
  | zero =>
    obtain rfl : pending = [] := List.length_eq_zero_iff.mp (Nat.le_zero.mp hf)
    exact ⟨[], .stops (by simp [successors])⟩
  | succ fuel ih =>
    by_cases hsi : ∃ next, successors current pending = [next]
    · obtain ⟨next, hne⟩ := hsi
      have hle := length_without_lt (mem_of_successors hne).1
      rw [followEvents.eq_2, show pending.filter
        (·.fields.previousEventObjectHash = some current) = [next] from hne]
      dsimp only
      cases hl : advancedState state authorization next with
      | none => exact ⟨[], .refuses hne hl⟩
      | some reached =>
        have hs : (without next pending).length ≤ fuel := by omega
        obtain ⟨path, hw⟩ : ∃ path, Walk authorization next.objectHash reached
            (without next pending) path _ _ := ih hs
        exact ⟨next :: path, .accepts hne hl hw⟩
    · have hn : ∀ next, successors current pending ≠ [next] := fun next hne =>
        hsi ⟨next, hne⟩
      refine ⟨[], ?_⟩
      have heq : followEvents authorization (fuel + 1) current state pending =
          (pending.map (·.objectHash), state) := by
        rw [followEvents.eq_2]
        split
        next next hne => exact absurd hne (hn next)
        next => rfl
      rw [heq]
      exact .stops hn

/-! ## 2. Legal histories -/

/-- The events lead from `state`, reached at `current`, to `final`: each names the one before,
repeats the authorization, starts in the state reached and takes an allowed edge. -/
inductive Continues (authorization : ObjectHash) :
    ObjectHash → DestructionState → List VerifiedEvent → DestructionState → Prop
  | done {current : ObjectHash} {state : DestructionState} :
      Continues authorization current state [] state
  | step {current : ObjectHash} {state reached final : DestructionState} {next : VerifiedEvent}
      {path : List VerifiedEvent}
      (hprevious : next.fields.previousEventObjectHash = some current)
      (hauthorization : next.fields.destructionAuthorizationObjectHash = authorization)
      (hfrom : next.fields.fromState = some state.code)
      (hto : fromCode next.fields.toState = some reached)
      (hedge : state.mayAdvanceTo reached = true)
      (hrest : Continues authorization next.objectHash reached path final) :
      Continues authorization current state (next :: path) final

theorem advancedState_eq_some {reached : DestructionState} :
    advancedState state authorization next = some reached ↔
      fromCode next.fields.toState = some reached ∧
      next.fields.fromState = some state.code ∧
      next.fields.destructionAuthorizationObjectHash = authorization ∧
      state.mayAdvanceTo reached = true := by
  simp [advancedState, Option.filter_eq_some_iff, and_assoc]

namespace Walk

section

variable (h : Walk authorization current state pending path conflicting final)
include h

theorem continues : Continues authorization current state path final := by
  induction h with
  | stops hn | refuses hne hi => exact .done
  | accepts hne hl _ ih =>
    obtain ⟨hto, hf, ha, he⟩ := advancedState_eq_some.mp hl
    exact .step (mem_of_successors hne).2 ha hf hto he ih

theorem subset : path ⊆ pending := by
  induction h with
  | stops hn | refuses hne hi => exact List.nil_subset _
  | accepts hne _ _ ih =>
    exact List.cons_subset.mpr ⟨(mem_of_successors hne).1,
      List.Subset.trans ih List.filter_sublist.subset⟩

/-- What is in conflict was pending. -/
theorem exists_of_mem {hash : ObjectHash} (hh : hash ∈ conflicting) :
    ∃ event ∈ pending, event.objectHash = hash := by
  induction h with
  | stops _ => exact List.mem_map.mp hh
  | refuses hn _ =>
    rcases List.mem_cons.mp hh with rfl | hr
    · exact ⟨_, (mem_of_successors hn).1, rfl⟩
    · obtain ⟨event, hev, rfl⟩ := List.mem_map.mp hr
      exact ⟨event, List.mem_of_mem_filter hev, rfl⟩
  | accepts hn _ hr ih =>
    obtain ⟨event, hev, rfl⟩ := ih hh
    exact ⟨event, List.mem_of_mem_filter hev, rfl⟩

/-- **A pending event is accepted or in conflict**, if a hash stands for one event. -/
theorem mem_iff (hd : ∀ a ∈ pending, ∀ b ∈ pending, a.objectHash = b.objectHash → a = b)
    (hev : event ∈ pending) : event ∈ path ↔ event.objectHash ∉ conflicting := by
  induction h with
  | stops _ =>
    have hm := List.mem_map_of_mem (f := fun e : VerifiedEvent => e.objectHash) hev
    simp [hm]
  | @refuses _ _ pending next hn _ =>
    have hm : event.objectHash ∈ next.objectHash :: (without next pending).map (·.objectHash) := by
      by_cases hs : event.objectHash = next.objectHash
      · exact List.mem_cons.mpr (.inl hs)
      · refine List.mem_cons_of_mem _ (List.mem_map_of_mem ?_)
        exact List.mem_filter.mpr ⟨hev, by simpa using hs⟩
    simp [hm]
  | @accepts _ _ _ _ pending path next conflicting hn _ hr ih =>
    obtain ⟨hm, -⟩ := mem_of_successors hn
    by_cases hs : event.objectHash = next.objectHash
    · obtain rfl := hd event hev next hm hs
      refine iff_of_true List.mem_cons_self fun hc => ?_
      obtain ⟨_, ho, hh⟩ := hr.exists_of_mem hc
      exact absurd hh (by simpa using List.of_mem_filter ho)
    · have hl : event ∈ without next pending := List.mem_filter.mpr ⟨hev, by simpa using hs⟩
      have hne : event ≠ next := fun heq => hs (heq ▸ rfl)
      rw [List.mem_cons, or_iff_right hne]
      exact ih (fun a ha b hb => hd a (List.mem_of_mem_filter ha) b (List.mem_of_mem_filter hb)) hl

end

end Walk

/-! ## 3. The order of the events -/

theorem eq_singleton_of_perm {l l' : List VerifiedEvent} (hp : l.Perm l') :
    (∀ next, l = [next] ↔ l' = [next]) := by
  intro next
  constructor
  · rintro rfl
    exact List.perm_singleton.mp hp.symm
  · rintro rfl
    exact List.perm_singleton.mp hp

theorem followEvents_perm (authorization : ObjectHash) (fuel : Nat) (current : ObjectHash)
    (state : DestructionState) (hp : pending.Perm pending') :
    (followEvents authorization fuel current state pending).1.Perm
        (followEvents authorization fuel current state pending').1 ∧
      (followEvents authorization fuel current state pending).2 =
        (followEvents authorization fuel current state pending').2 := by
  induction fuel generalizing current state pending pending' with
  | zero => exact ⟨hp.map _, rfl⟩
  | succ fuel ih =>
    have hs := hp.filter (fun event => decide (event.fields.previousEventObjectHash = some current))
    rw [followEvents.eq_2, followEvents.eq_2]
    split
    next next hne =>
      rw [(eq_singleton_of_perm hs next).mp hne]
      have hr := hp.filter (fun event => decide (event.objectHash ≠ next.objectHash))
      dsimp only
      cases advancedState state authorization next with
      | none => exact ⟨(hr.map _).cons _, rfl⟩
      | some _ => exact ih _ _ hr
    next hn =>
      have hnone' : ∀ next, pending'.filter
          (fun event => decide (event.fields.previousEventObjectHash = some current)) ≠ [next] :=
        fun next hne => hn next ((eq_singleton_of_perm hs next).mpr hne)
      split
      next next hne => exact absurd hne (hnone' next)
      next => exact ⟨hp.map _, rfl⟩

theorem isContested_perm (hp : group.Perm group') : isContested group = isContested group' := by
  funext event
  unfold isContested
  rw [(hp.filter _).length_eq]

/-! ## 4. The assessment -/

/-- The objects that are set aside. -/
def contested (group : List VerifiedEvent) : List ObjectHash :=
  (group.filter (isContested group)).map (·.objectHash)

def uncontested (group : List VerifiedEvent) : List VerifiedEvent :=
  group.filter (!isContested group ·)

/-- The event requests the destruction, and no other event without a predecessor takes part:
whatever else has none shares its identifier with another event. -/
structure SoleRoot (group : List VerifiedEvent) (root : VerifiedEvent) : Prop where
  mem : root ∈ group
  uncontested : isContested group root = false
  first : root.fields.previousEventObjectHash = none
  only : ∀ event ∈ group, event.fields.previousEventObjectHash = none →
    event = root ∨ isContested group event = true
  fresh : root.fields.fromState = none
  requested : fromCode root.fields.toState = some .requested

/-- The path starts at the sole root and continues legally to the state of the destruction. -/
def LegalHistory (group path : List VerifiedEvent) (destruction : AuthorizedDestruction) : Prop :=
  ∃ root rest, path = root :: rest ∧ SoleRoot group root ∧
    destruction.authorizationObjectHash = root.fields.destructionAuthorizationObjectHash ∧
    Continues destruction.authorizationObjectHash root.objectHash .requested rest destruction.state

theorem mem_uncontested : event ∈ uncontested group ↔
    event ∈ group ∧ isContested group event = false := by
  simp [uncontested]

/-- An uncontested event stands once in the group. -/
theorem roots_eq_singleton_iff :
    (uncontested group).filter (·.fields.previousEventObjectHash.isNone) = [root] ↔
      root ∈ group ∧ isContested group root = false ∧
        root.fields.previousEventObjectHash = none ∧
        ∀ event ∈ group, event.fields.previousEventObjectHash = none →
          event = root ∨ isContested group event = true := by
  set roots := (uncontested group).filter (·.fields.previousEventObjectHash.isNone) with hr
  have hm : ∀ event, event ∈ roots ↔ event ∈ group ∧ isContested group event = false ∧
      event.fields.previousEventObjectHash = none := by
    intro event
    simp [hr, mem_uncontested, and_assoc]
  constructor
  · intro hsi
    obtain ⟨hg, hu, hf⟩ := (hm root).mp (by simp [hsi])
    refine ⟨hg, hu, hf, fun event hev hn => ?_⟩
    by_cases hc : isContested group event = true
    · exact .inr hc
    · have hin := (hm event).mpr ⟨hev, by simpa using hc, hn⟩
      rw [hsi] at hin
      exact .inl (List.mem_singleton.mp hin)
  · rintro ⟨hg, hu, hf, ho⟩
    have ha : ∀ event ∈ roots, event = root := by
      intro event hin
      obtain ⟨hev, hno, hn⟩ := (hm event).mp hin
      exact (ho event hev hn).resolve_right (by simp [hno])
    -- all roots carry the identifier of the root, which stands once
    have hsu : (roots.filter (·.fields.eventId = root.fields.eventId)).Sublist
        (group.filter (·.fields.eventId = root.fields.eventId)) :=
      (List.filter_sublist.trans List.filter_sublist).filter _
    have hs : roots.filter (·.fields.eventId = root.fields.eventId) = roots :=
      List.filter_eq_self.mpr fun event hin => by simp [ha event hin]
    have hl : roots.length ≤ 1 := by
      have hle := hsu.length_le
      rw [hs] at hle
      simp only [isContested, decide_eq_false_iff_not, not_lt] at hu
      exact hle.trans hu
    have hin := (hm root).mpr ⟨hg, hu, hf⟩
    match roots, hl, hin with
    | [other], _, hin => rw [List.mem_singleton.mp hin]

/-- **The two ends of an assessment**: the events are followed from a sole root, or all of them are
in conflict. -/
theorem assessDestruction_cases (group : List VerifiedEvent) : (∃ root, SoleRoot group root ∧
      let authorization := root.fields.destructionAuthorizationObjectHash
      let followed := followEvents authorization (without root (uncontested group)).length
        root.objectHash .requested (without root (uncontested group))
      assessDestruction group = (contested group ++ followed.1, some ⟨authorization, followed.2⟩)) ∨
    (∀ root, ¬ SoleRoot group root) ∧ assessDestruction group =
      (contested group ++ (uncontested group).map (·.objectHash), none) := by
  by_cases hsi : ∃ root,
      (uncontested group).filter (·.fields.previousEventObjectHash.isNone) = [root]
  · obtain ⟨root, hr⟩ := hsi
    obtain ⟨hg, hu, hf, hon⟩ := roots_eq_singleton_iff.mp hr
    have heq : assessDestruction group =
        if root.fields.fromState.isNone ∧
            fromCode root.fields.toState = some .requested then
          let followed := followEvents root.fields.destructionAuthorizationObjectHash
            (without root (uncontested group)).length root.objectHash .requested
            (without root (uncontested group))
          (contested group ++ followed.1,
            some ⟨root.fields.destructionAuthorizationObjectHash, followed.2⟩)
        else (contested group ++ (uncontested group).map (·.objectHash), none) := by
      unfold uncontested at hr
      simp only [assessDestruction, hr]
      rfl
    rw [heq]
    split
    next hrq =>
      refine .inl ⟨root, ⟨hg, hu, hf, hon, ?_, hrq.2⟩, rfl⟩
      exact Option.isNone_iff_eq_none.mp hrq.1
    next hre =>
      refine .inr ⟨fun other ho => hre ?_, rfl⟩
      have hs : other = root := (hon other ho.mem ho.first).resolve_right (by simp [ho.uncontested])
      exact ⟨by simp [← hs, ho.fresh], hs ▸ ho.requested⟩
  · refine .inr ⟨fun root hr => hsi ⟨root, roots_eq_singleton_iff.mpr
      ⟨hr.mem, hr.uncontested, hr.first, hr.only⟩⟩, ?_⟩
    dsimp only [assessDestruction]
    split
    next root hr => exact absurd ⟨root, hr⟩ hsi
    next => rfl

theorem SoleRoot.perm (hp : group.Perm group') (h : SoleRoot group root) :
    SoleRoot group' root where
  mem := hp.mem_iff.mp h.mem
  uncontested := isContested_perm hp ▸ h.uncontested
  first := h.first
  only event hev := isContested_perm hp ▸ h.only event (hp.mem_iff.mpr hev)
  fresh := h.fresh
  requested := h.requested

theorem SoleRoot.eq {other : VerifiedEvent} (h : SoleRoot group root)
    (ho : SoleRoot group other) : other = root :=
  (h.only other ho.mem ho.first).resolve_right (by simp [ho.uncontested])

/-- **The order of the events does not matter.** -/
theorem assessDestruction_perm (hp : group.Perm group') :
    (assessDestruction group).1.Perm (assessDestruction group').1 ∧
      (assessDestruction group).2 = (assessDestruction group').2 := by
  have hco : (contested group).Perm (contested group') := by
    unfold contested
    rw [← isContested_perm hp]
    exact (hp.filter _).map _
  have hu : (uncontested group).Perm (uncontested group') := by
    unfold uncontested
    rw [← isContested_perm hp]
    exact hp.filter _
  rcases assessDestruction_cases group with ⟨root, hro, heq⟩ | ⟨hn, heq⟩
  · rcases assessDestruction_cases group' with ⟨root', hroot', heq'⟩ | ⟨hnone', -⟩
    · obtain rfl := (hro.perm hp).eq hroot'
      have hr : (without root' (uncontested group)).Perm (without root' (uncontested group')) :=
        hu.filter _
      obtain ⟨hc, hs⟩ := followEvents_perm
        root'.fields.destructionAuthorizationObjectHash (without root' (uncontested group)).length
        root'.objectHash .requested hr
      rw [heq, heq']
      dsimp only
      rw [hr.length_eq] at hc hs ⊢
      exact ⟨hco.append hc, by rw [hs]⟩
    · exact absurd (hro.perm hp) (hnone' root)
  · rcases assessDestruction_cases group' with ⟨root', hroot', -⟩ | ⟨-, heq'⟩
    · exact absurd (hroot'.perm hp.symm) (hn root')
    · rw [heq, heq']
      exact ⟨hco.append (hu.map _), rfl⟩

/-! ## 5. Accepted or in conflict -/

/-- An object hash stands for one event. -/
def EventsDetermined (group : List VerifiedEvent) : Prop :=
  ∀ a ∈ group, ∀ b ∈ group, a.objectHash = b.objectHash → a = b

/-- What is in conflict as contested is not what takes part. -/
theorem mem_contested_iff (hd : EventsDetermined group) (hev : event ∈ group) :
    event.objectHash ∈ contested group ↔ isContested group event = true := by
  constructor
  · intro hm
    obtain ⟨other, ho, hh⟩ := List.mem_map.mp hm
    obtain ⟨hg, hc⟩ := List.mem_filter.mp ho
    exact hd other hg event hev hh ▸ hc
  · exact fun hc => List.mem_map_of_mem (List.mem_filter.mpr ⟨hev, hc⟩)

/-- The path of an assessment that follows the events from a root. -/
theorem exists_path (hd : EventsDetermined group) (hr : SoleRoot group root)
    {followed : List ObjectHash × DestructionState}
    (hw : Walk root.fields.destructionAuthorizationObjectHash root.objectHash .requested
      (without root (uncontested group)) path followed.1 followed.2) (hev : event ∈ group) :
    event ∈ root :: path ↔ event.objectHash ∉ contested group ++ followed.1 := by
  have hpe : ∀ e ∈ without root (uncontested group), e ∈ group := fun e he =>
    (mem_uncontested.mp (List.mem_of_mem_filter he)).1
  rw [List.mem_append, not_or, mem_contested_iff hd hev, Bool.not_eq_true]
  by_cases hs : event.objectHash = root.objectHash
  · obtain rfl := hd event hev root hr.mem hs
    refine iff_of_true List.mem_cons_self ⟨hr.uncontested, fun hc => ?_⟩
    obtain ⟨_, ho, hh⟩ := hw.exists_of_mem hc
    exact absurd hh (by simpa using List.of_mem_filter ho)
  · have hne : event ≠ root := fun heq => hs (heq ▸ rfl)
    rw [List.mem_cons, or_iff_right hne]
    cases hco : isContested group event with
    | true =>
      refine iff_of_false (fun hp => ?_) (by simp)
      have hin := List.mem_of_mem_filter (hw.subset hp)
      simp [mem_uncontested, hco] at hin
    | false =>
      have hl : event ∈ without root (uncontested group) := List.mem_filter.mpr
        ⟨mem_uncontested.mpr ⟨hev, hco⟩, by simpa using hs⟩
      rw [hw.mem_iff (fun a ha b hb => hd a (hpe a ha) b (hpe b hb)) hl]
      simp

/-- **An assessment splits the events and accepts a legal history.**  An event is on the accepted
path exactly if it is not in conflict; the path is a legal history that ends in the reported state,
and it is missing only if there is no sole root; nothing depends on the order of the events. -/
theorem assessDestruction_history (hdetermined : EventsDetermined group) : (∃ path ⊆ group,
      (∀ event ∈ group, event ∈ path ↔ event.objectHash ∉ (assessDestruction group).1) ∧
      (∀ destruction, (assessDestruction group).2 = some destruction →
        LegalHistory group path destruction) ∧
      ((assessDestruction group).2 = none → path = [] ∧ ∀ root, ¬ SoleRoot group root)) ∧
    (∀ hash ∈ (assessDestruction group).1, ∃ event ∈ group, event.objectHash = hash) ∧
    ∀ group', group.Perm group' → (assessDestruction group').2 = (assessDestruction group).2 ∧
        ∀ hash, hash ∈ (assessDestruction group').1 ↔ hash ∈ (assessDestruction group).1 := by
  have ho : ∀ group', group.Perm group' →
      (assessDestruction group').2 = (assessDestruction group).2 ∧
        ∀ hash, hash ∈ (assessDestruction group').1 ↔ hash ∈ (assessDestruction group).1 := by
    intro group' hp
    obtain ⟨hco, hre⟩ := assessDestruction_perm hp
    exact ⟨hre.symm, fun hash => hco.mem_iff.symm⟩
  have hcn : ∀ hash ∈ contested group, ∃ event ∈ group, event.objectHash = hash := by
    intro hash hh
    obtain ⟨event, hev, rfl⟩ := List.mem_map.mp hh
    exact ⟨event, List.mem_of_mem_filter hev, rfl⟩
  rcases assessDestruction_cases group with ⟨root, hr, heq⟩ | ⟨hn, heq⟩
  · obtain ⟨path, hw⟩ : ∃ path, Walk root.fields.destructionAuthorizationObjectHash
        root.objectHash .requested (without root (uncontested group)) path _ _ :=
      followEvents_walk le_rfl
    refine ⟨⟨root :: path, ?_, ?_, ?_, ?_⟩, ?_, ho⟩
    · refine List.cons_subset.mpr ⟨hr.mem, fun event hev => ?_⟩
      exact (mem_uncontested.mp (List.mem_of_mem_filter (hw.subset hev))).1
    · intro event hev
      rw [heq]
      exact exists_path hdetermined hr hw hev
    · intro destruction hd
      rw [heq] at hd
      cases hd
      exact ⟨root, path, rfl, hr, rfl, hw.continues⟩
    · intro hn
      rw [heq] at hn
      cases hn
    · intro hash hh
      rw [heq] at hh
      rcases List.mem_append.mp hh with hin | hin
      · exact hcn hash hin
      · obtain ⟨event, hev, rfl⟩ := hw.exists_of_mem hin
        exact ⟨event, (mem_uncontested.mp (List.mem_of_mem_filter hev)).1, rfl⟩
  · refine ⟨⟨[], List.nil_subset _, ?_, ?_, fun _ => ⟨rfl, hn⟩⟩, ?_, ho⟩
    · intro event hev
      refine iff_of_false List.not_mem_nil (not_not.mpr ?_)
      rw [heq, List.mem_append]
      cases hc : isContested group event with
      | true => exact .inl ((mem_contested_iff hdetermined hev).mpr hc)
      | false => exact .inr (List.mem_map_of_mem (mem_uncontested.mpr ⟨hev, hc⟩))
    · intro destruction hd
      rw [heq] at hd
      cases hd
    · intro hash hh
      rw [heq] at hh
      rcases List.mem_append.mp hh with hin | hin
      · exact hcn hash hin
      · obtain ⟨event, hev, rfl⟩ := List.mem_map.mp hin
        exact ⟨event, (mem_uncontested.mp hev).1, rfl⟩

/-- A request and its first step, and two more requests that share their identifier. -/
def sharedRequests : List VerifiedEvent :=
  [⟨1, 9, 90, 1, none, none, 0⟩, ⟨2, 9, 90, 2, some 1, some 0, 1⟩,
    ⟨3, 9, 90, 3, none, none, 0⟩, ⟨4, 9, 90, 3, none, none, 0⟩]

theorem eventsDetermined_sharedRequests : EventsDetermined sharedRequests := by
  simp [EventsDetermined, sharedRequests]

theorem assessDestruction_history_sharedRequests : EventsDetermined sharedRequests ∧
    (∃ path ⊆ sharedRequests, (∀ event ∈ sharedRequests,
        event ∈ path ↔ event.objectHash ∉ (assessDestruction sharedRequests).1) ∧
      (∀ destruction, (assessDestruction sharedRequests).2 = some destruction →
        LegalHistory sharedRequests path destruction) ∧
      ((assessDestruction sharedRequests).2 = none →
        path = [] ∧ ∀ root, ¬ SoleRoot sharedRequests root)) ∧
    (∀ hash ∈ (assessDestruction sharedRequests).1,
      ∃ event ∈ sharedRequests, event.objectHash = hash) ∧
    ∀ group', sharedRequests.Perm group' →
      (assessDestruction group').2 = (assessDestruction sharedRequests).2 ∧
        ∀ hash, hash ∈ (assessDestruction group').1 ↔ hash ∈ (assessDestruction sharedRequests).1 :=
  ⟨eventsDetermined_sharedRequests, assessDestruction_history eventsDetermined_sharedRequests⟩

/-- The history that starts at the first request is accepted, although it is not the only request
without a predecessor: the other two are set aside for their identifier. -/
theorem accepted_with_further_requests : EventsDetermined sharedRequests ∧
    (assessDestruction sharedRequests).2.map (·.state) = some .inProgress ∧
    ¬ ∃ root ∈ sharedRequests, ∀ event ∈ sharedRequests,
      event.fields.previousEventObjectHash = none →
        fromCode event.fields.toState = some .requested → event.objectHash = root.objectHash := by
  refine ⟨eventsDetermined_sharedRequests, by decide, ?_⟩
  rintro ⟨root, -, ho⟩
  have hf := ho ⟨1, 9, 90, 1, none, none, 0⟩ (by simp [sharedRequests]) rfl rfl
  have ht := ho ⟨3, 9, 90, 3, none, none, 0⟩ (by simp [sharedRequests]) rfl rfl
  exact absurd (hf.trans ht.symm) (by decide)

/-! ## 6. Histories without repetitions -/

/-- An event of a history names an event before it. -/
theorem previous_of_continues (h : Continues authorization current state path final)
    (hev : event ∈ path) : ∃ hash ∈ current :: path.map (·.objectHash),
      event.fields.previousEventObjectHash = some hash := by
  induction h with
  | done => cases hev
  | step hp _ _ _ _ _ ih =>
    rcases List.mem_cons.mp hev with rfl | hev
    · exact ⟨_, List.mem_cons_self, hp⟩
    · obtain ⟨hash, hm, heq⟩ := ih hev
      exact ⟨hash, List.mem_cons_of_mem _ hm, heq⟩

theorem without_cons (h : next.objectHash ∉ path.map (·.objectHash)) :
    without next (next :: path) = path := by
  rw [without, List.filter_cons_of_neg (by simp), List.filter_eq_self]
  intro event hev
  simpa using fun heq => h (List.mem_map.mpr ⟨event, hev, heq⟩)

/-- **A history without repetitions is followed to its end.** -/
theorem followEvents_of_continues (h : Continues authorization current state path final)
    (hn : (current :: path.map (·.objectHash)).Nodup) :
    followEvents authorization path.length current state path = ([], final) := by
  induction h with
  | done => rfl
  | @step current state _ final next path hpr ha hf hto he hr ih =>
    obtain ⟨hc, hp⟩ := List.nodup_cons.mp hn
    -- the later events name one of the path, not the current one
    have hs : (next :: path).filter (·.fields.previousEventObjectHash = some current) = [next] := by
      rw [List.filter_cons_of_pos (by simpa using hpr), List.filter_eq_nil_iff.mpr]
      intro _ hev heq
      obtain ⟨_, hm, hash_eq⟩ := previous_of_continues hr hev
      rw [hash_eq, decide_eq_true_eq] at heq
      exact hc (Option.some.inj heq ▸ hm)
    have ho : (next :: path).filter (·.objectHash ≠ next.objectHash) = path :=
      without_cons (List.nodup_cons.mp hp).1
    have hl := advancedState_eq_some.mpr ⟨hto, hf, ha, he⟩
    rw [List.length_cons, followEvents.eq_2, hs]
    dsimp only
    rw [hl, ho]
    exact ih hp

theorem isContested_of_nodup (h : (group.map (·.fields.eventId)).Nodup)
    (event : VerifiedEvent) : isContested group event = false := by
  have hc := List.nodup_iff_count_le_one.mp h event.fields.eventId
  rw [List.count_eq_countP, List.countP_map, List.countP_eq_length_filter] at hc
  simpa [isContested, Function.comp_def, beq_eq_decide] using hc

/-- **The assessment follows a requested history to its end.** -/
theorem assessDestruction_of_continues (hf : root.fields.previousEventObjectHash = none)
    (hfr : root.fields.fromState = none)
    (hre : fromCode root.fields.toState = some .requested)
    (h : Continues root.fields.destructionAuthorizationObjectHash root.objectHash .requested path
      final) (hi : ((root :: path).map (·.fields.eventId)).Nodup)
    (hhs : ((root :: path).map (·.objectHash)).Nodup) :
    SoleRoot (root :: path) root ∧ assessDestruction (root :: path) =
      ([], some ⟨root.fields.destructionAuthorizationObjectHash, final⟩) := by
  have hc := isContested_of_nodup hi
  have hr : SoleRoot (root :: path) root := by
    refine ⟨List.mem_cons_self, hc root, hf, fun event hev hn => ?_, hfr, hre⟩
    refine .inl ((List.mem_cons.mp hev).resolve_right fun hl => ?_)
    obtain ⟨_, -, heq⟩ := previous_of_continues h hl
    exact absurd (heq.symm.trans hn) (by simp)
  have ha : uncontested (root :: path) = root :: path :=
    List.filter_eq_self.mpr fun event _ => by simp [hc event]
  have hn : contested (root :: path) = [] := by
    simp [contested, hc]
  refine ⟨hr, ?_⟩
  rcases assessDestruction_cases (root :: path) with ⟨_, ho, heq⟩ | ⟨hno, -⟩
  · obtain rfl := hr.eq ho
    rw [heq, ha, hn, without_cons (List.nodup_cons.mp hhs).1, followEvents_of_continues h hhs]
    rfl
  · exact absurd hr (hno root)

end Einsatzarchiv.Verify
