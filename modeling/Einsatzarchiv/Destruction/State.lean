/-
  File:      Einsatzarchiv/Destruction/State.lean
  Subject:   The local history of one destruction (crate `ea-destruction`, `state.rs`) against the
             assessment of the same events in an archive.

  * `DestructionStateMachine.apply`, `answer_apply`: an event advances the machine, was applied
    before, or is refused.
  * `Advances.nodup`, `Advances.continues`: accepted events differ and continue the history.
  * `local_history_agrees`: the assessment accepts what the machine has accepted.
  * `calls_settle`: whatever is called, only the accepted events count.
-/
import Einsatzarchiv.Verify.Histories

namespace Einsatzarchiv.Destruction

open Format Verify
open DestructionState (fromCode)

/-! ## 1. The machine -/

/-- `VerifiedDestructionAuthorization`, as far as a machine reads it. -/
structure VerifiedDestructionAuthorization where
  destructionId : DestructionId
  objectHash : ObjectHash

/-- A verified transition with its time and its exact bytes. -/
structure VerifiedDestructionEvent extends VerifiedEvent where
  executedAt : Int
  exact : Bytes

/-- A new step, or one that is known. -/
inductive ApplyOutcome
  | advanced | replay

/-- `Error`: `apply` has one way to fail. -/
inductive DestructionError
  | securityConflict

/-- The first state, or one that follows the present one. -/
def transitionAllowed (fromState : Option Nat) (toState : Nat) : Bool :=
  match fromState, fromCode toState with
  | none, some .requested => true
  | some fromState, some toState =>
    (fromCode fromState).any (·.mayAdvanceTo toState)
  | _, _ => false

/-- How far a destruction is, and the events it has seen. -/
structure DestructionStateMachine where
  destruction : DestructionId
  authorization : ObjectHash
  state : Option DestructionState
  last : Option ObjectHash
  lastTime : Option Int
  ids : List (EventId × ObjectHash × Bytes)
  hashes : List (ObjectHash × Bytes)

namespace DestructionStateMachine

/-- No event has been seen. -/
def new (auth : VerifiedDestructionAuthorization) : DestructionStateMachine :=
  ⟨auth.destructionId, auth.objectHash, none, none, none, [], []⟩

section

variable (machine : DestructionStateMachine) (event : VerifiedDestructionEvent)

/-- The machine after an event that it accepts. -/
def advance : DestructionStateMachine :=
  { machine with
    ids := (event.fields.eventId, event.objectHash, event.exact) :: machine.ids
    hashes := (event.objectHash, event.exact) :: machine.hashes
    state := fromCode event.fields.toState
    last := some event.objectHash
    lastTime := some event.executedAt }

/-- `apply`: the answer, and the machine afterwards. -/
def apply : Except DestructionError ApplyOutcome × DestructionStateMachine :=
  if event.fields.destructionId ≠ machine.destruction
      ∨ event.fields.destructionAuthorizationObjectHash ≠ machine.authorization then
    (.error .securityConflict, machine)
  else match machine.ids.lookup event.fields.eventId with
    | some (hash, bytes) =>
      if hash = event.objectHash ∧ bytes = event.exact then (.ok .replay, machine)
      else (.error .securityConflict, machine)
    | none =>
      if (machine.hashes.lookup event.objectHash).isSome then (.error .securityConflict, machine)
      else if event.fields.previousEventObjectHash ≠ machine.last
          ∨ event.fields.fromState ≠ machine.state.map DestructionState.code
          ∨ transitionAllowed event.fields.fromState event.fields.toState = false
          ∨ machine.lastTime.any (event.executedAt < ·) = true then
        (.error .securityConflict, machine)
      else (.ok .advanced, machine.advance event)

/-- The machine after calls, whatever they answer. -/
def run (calls : List VerifiedDestructionEvent) : DestructionStateMachine :=
  calls.foldl (fun machine event => (machine.apply event).2) machine

/-- The events advance the machine one after another. -/
def Advances : DestructionStateMachine → List VerifiedDestructionEvent → Prop
  | _, [] => True
  | machine, event :: events =>
    (machine.apply event).1 = .ok .advanced ∧ Advances (machine.apply event).2 events

/-! ## 2. One event -/

/-- What an event meets that advances the machine. -/
structure Extends : Prop where
  authorization : event.fields.destructionAuthorizationObjectHash = machine.authorization
  fresh : machine.ids.lookup event.fields.eventId = none
  unseen : machine.hashes.lookup event.objectHash = none
  previous : event.fields.previousEventObjectHash = machine.last
  fromState : event.fields.fromState = machine.state.map DestructionState.code
  allowed : transitionAllowed event.fields.fromState event.fields.toState = true

/-- The machine knows the event under its identifier. -/
structure Applied : Prop where
  destruction : event.fields.destructionId = machine.destruction
  authorization : event.fields.destructionAuthorizationObjectHash = machine.authorization
  known : machine.ids.lookup event.fields.eventId = some (event.objectHash, event.exact)

/-- The three answers and what each leaves. -/
inductive Answer : Except DestructionError ApplyOutcome × DestructionStateMachine → Prop
  | advanced (hextends : Extends machine event) (happlied : Applied (machine.advance event) event) :
      Answer (.ok .advanced, machine.advance event)
  | replay (happlied : Applied machine event) : Answer (.ok .replay, machine)
  | refused : Answer (.error .securityConflict, machine)

theorem answer_apply : Answer machine event (machine.apply event) := by
  unfold apply
  split
  · exact .refused
  · next hb =>
    rw [not_or, not_not, not_not] at hb
    split
    · next hash bytes hid =>
      split
      · next hs => exact .replay ⟨hb.1, hb.2, by rw [hid, hs.1, hs.2]⟩
      · exact .refused
    · next hid =>
      split
      · exact .refused
      · next hh =>
        split
        · exact .refused
        · next hf =>
          rw [Option.not_isSome_iff_eq_none] at hh
          simp only [not_or, not_not, Bool.not_eq_false] at hf
          exact .advanced ⟨hb.2, hid, hh, hf.1, hf.2.1, hf.2.2.1⟩
            ⟨hb.1, hb.2, List.lookup_cons_self⟩

end

variable {machine : DestructionStateMachine} {event : VerifiedDestructionEvent}
  {events : List VerifiedDestructionEvent}

theorem Advances.cons (h : Advances machine (event :: events)) :
    Extends machine event ∧ (machine.apply event).2 = machine.advance event
      ∧ Advances (machine.advance event) events := by
  obtain ⟨ha, hr⟩ := h
  have han := answer_apply machine event
  generalize machine.apply event = answer at *
  cases han with
  | advanced he => exact ⟨he, rfl, hr⟩
  | replay | refused => cases ha

/-- An applied event stays applied. -/
theorem Applied.run (h : Applied machine event) (calls : List VerifiedDestructionEvent) :
    Applied (machine.run calls) event := by
  induction calls generalizing machine with
  | nil => exact h
  | cons call calls ih =>
    have hk : Applied (machine.apply call).2 event := by
      have ha := answer_apply machine call
      generalize machine.apply call = answer at *
      cases ha with
      | replay | refused => exact h
      | advanced he =>
        have hne : event.fields.eventId ≠ call.fields.eventId := by
          intro heq
          have hf := he.fresh
          rw [← heq, h.known] at hf
          cases hf
        refine ⟨h.destruction, h.authorization, ?_⟩
        rw [advance, List.lookup_cons, beq_false_of_ne hne]
        exact h.known
    exact ih hk

theorem Applied.replay (h : Applied machine event) :
    machine.apply event = (.ok .replay, machine) := by
  simp [apply, h.destruction, h.authorization, h.known]

/-! ## 3. Accepted events -/

theorem notMem_of_lookup {α β : Type} [BEq α] [LawfulBEq α] {a : α} {l : List (α × β)}
    (h : l.lookup a = none) : a ∉ l.map Prod.fst := by
  intro hm
  obtain ⟨pair, hp, heq⟩ := List.mem_map.mp hm
  simpa [heq] using List.lookup_eq_none_iff.mp h pair hp

/-- Accepted events differ in identifier and hash from each other and from those before. -/
theorem Advances.nodup (h : Advances machine events) (hi : (machine.ids.map Prod.fst).Nodup)
    (hhs : (machine.hashes.map Prod.fst).Nodup) :
    (events.map (·.fields.eventId) ++ machine.ids.map Prod.fst).Nodup ∧
      (events.map (·.objectHash) ++ machine.hashes.map Prod.fst).Nodup := by
  induction events generalizing machine with
  | nil => exact ⟨hi, hhs⟩
  | cons _ events ih =>
    obtain ⟨he, -, hr⟩ := h.cons
    have hn := ih hr (List.nodup_cons.mpr ⟨notMem_of_lookup he.fresh, hi⟩)
      (List.nodup_cons.mpr ⟨notMem_of_lookup he.unseen, hhs⟩)
    exact ⟨List.nodup_middle.mp hn.1, List.nodup_middle.mp hn.2⟩

theorem fromCode_code (state : DestructionState) : fromCode state.code = state := by
  cases state <;> rfl

/-- From a state on, accepted events continue its history. -/
theorem Advances.continues (h : Advances machine events) {cur : ObjectHash}
    {state : DestructionState} (hl : machine.last = some cur)
    (hs : machine.state = some state) :
    ∃ reached, (machine.run events).state = some reached ∧
      Continues machine.authorization cur state (events.map (·.toVerifiedEvent)) reached := by
  induction events generalizing machine cur state with
  | nil => exact ⟨state, hs, .done⟩
  | cons event events ih =>
    obtain ⟨het, ha, hr⟩ := h.cons
    have hfr := het.fromState
    have hal := het.allowed
    rw [hs, Option.map_some] at hfr
    rw [hfr] at hal
    cases hto : fromCode event.fields.toState with
    | none => simp [transitionAllowed, hto] at hal
    | some reached =>
      have he : state.mayAdvanceTo reached = true := by
        simpa [transitionAllowed, hto, fromCode_code] using hal
      obtain ⟨final, hf, hc⟩ := ih hr rfl hto
      refine ⟨final, ?_, .step (het.previous.trans hl) het.authorization hfr hto he hc⟩
      rw [run, List.foldl_cons, ha]
      exact hf

/-! ## 4. The assessment of the same events -/

/-- **The machine and the archive agree.**  What the machine has accepted the assessment accepts in
any order, in conflict with nothing and up to the same state; an event that was applied is a replay
ever after; and a refused event changes nothing. -/
theorem local_history_agrees (auth : VerifiedDestructionAuthorization)
    (h : (new auth).Advances events) :
    (∀ group, group.Perm (events.map (·.toVerifiedEvent)) → (assessDestruction group).1 = [] ∧
        (assessDestruction group).2 = ((new auth).run events).state.map (⟨auth.objectHash, ·⟩) ∧
        ∀ destruction, (assessDestruction group).2 = some destruction →
          LegalHistory group (events.map (·.toVerifiedEvent)) destruction) ∧
    (∀ (machine : DestructionStateMachine) event outcome, (machine.apply event).1 = .ok outcome →
      ∀ calls, let later := (machine.apply event).2.run calls
        later.apply event = (.ok .replay, later)) ∧
    ∀ (machine : DestructionStateMachine) event error, (machine.apply event).1 = .error error →
      (machine.apply event).2 = machine := by
  refine ⟨fun group hp => ?_, fun machine event outcome hok calls => ?_,
    fun machine event error he => ?_⟩
  · cases events with
    | nil =>
      obtain rfl := List.perm_nil.mp hp
      exact ⟨rfl, rfl, fun _ hso => (nomatch hso)⟩
    | cons event events =>
      obtain ⟨het, hap, hre⟩ := h.cons
      have hf : event.fields.fromState = none := het.fromState
      have hrq : fromCode event.fields.toState = some .requested := by
        have hal := het.allowed
        cases hto : fromCode event.fields.toState with
        | none => simp [transitionAllowed, hto] at hal
        | some state => cases state <;> simp_all [transitionAllowed]
      obtain ⟨reached, hr, hco⟩ := hre.continues rfl hrq
      obtain ⟨hi, hhs⟩ := h.nodup List.nodup_nil List.nodup_nil
      have hau : event.fields.destructionAuthorizationObjectHash = auth.objectHash :=
        het.authorization
      obtain ⟨hro, ha⟩ := assessDestruction_of_continues het.previous hf hrq
        (by rw [hau]; exact hco) (by simpa [new, Function.comp_def] using hi)
        (by simpa [new, Function.comp_def] using hhs)
      obtain ⟨hc, hrs⟩ := assessDestruction_perm hp.symm
      rw [List.map_cons, ha] at hc hrs
      rw [hau] at hrs
      refine ⟨List.perm_nil.mp hc.symm, ?_, fun destruction hd => ?_⟩
      · have hs : ((new auth).run (event :: events)).state = some reached := by
          rw [run, List.foldl_cons, hap]
          exact hr
        rw [← hrs, hs]
        rfl
      · obtain rfl := Option.some.inj (hrs.trans hd)
        exact ⟨event.toVerifiedEvent, _, rfl, hro.perm hp.symm, hau.symm, hco⟩
  · have happl : Applied (machine.apply event).2 event := by
      have han := answer_apply machine event
      generalize machine.apply event = answer at *
      cases han with
      | advanced _ happl | replay happl => exact happl
      | refused => cases hok
    exact (happl.run calls).replay
  · have han := answer_apply machine event
    generalize machine.apply event = answer at *
    cases han with
    | advanced | replay => cases he
    | refused => rfl

/-- A request and its first step, assessed the other way round. -/
theorem local_history_agrees_inProgress :
    let request : VerifiedDestructionEvent := ⟨⟨1, 9, 90, 1, none, none, 0⟩, 5, [1]⟩
    let step : VerifiedDestructionEvent := ⟨⟨2, 9, 90, 2, some 1, some 0, 1⟩, 6, [2]⟩
    (new ⟨9, 90⟩).Advances [request, step] ∧
      (assessDestruction [step.toVerifiedEvent, request.toVerifiedEvent]).1 = [] ∧
      (assessDestruction [step.toVerifiedEvent, request.toVerifiedEvent]).2 =
        some ⟨90, .inProgress⟩ := by
  intro request step
  have h : (new ⟨9, 90⟩).Advances [request, step] := ⟨rfl, rfl, trivial⟩
  obtain ⟨hn, hs, -⟩ := (local_history_agrees ⟨9, 90⟩ h).1 _ (.swap _ _ _)
  exact ⟨h, hn, hs⟩

/-! ## 5. Calls in any order -/

theorem exists_advances_run (machine : DestructionStateMachine)
    (calls : List VerifiedDestructionEvent) :
    ∃ events, events.Sublist calls ∧ machine.Advances events
      ∧ machine.run events = machine.run calls := by
  induction calls generalizing machine with
  | nil => exact ⟨[], .slnil, trivial, rfl⟩
  | cons call calls ih =>
    obtain ⟨events, hs, ha, hr⟩ := ih (machine.apply call).2
    have han := answer_apply machine call
    generalize hap : machine.apply call = answer at *
    cases han with
    | advanced =>
      refine ⟨call :: events, hs.cons_cons call, ?_, ?_⟩
      · rw [Advances, hap]
        exact ⟨rfl, ha⟩
      · rw [run, List.foldl_cons, run, List.foldl_cons, hap]
        exact hr
    | replay | refused =>
      refine ⟨events, hs.cons call, ha, ?_⟩
      rw [hr, run, run, List.foldl_cons, hap]

theorem Advances.applied (h : Advances machine events) :
    ∀ event ∈ events, Applied (machine.run events) event := by
  induction events generalizing machine with
  | nil => simp
  | cons event events ih =>
    obtain ⟨ha, hr⟩ := h
    refine List.forall_mem_cons.mpr ⟨?_, ih hr⟩
    have hap : Applied (machine.apply event).2 event := by
      have han := answer_apply machine event
      generalize machine.apply event = answer at *
      cases han with
      | advanced _ hap | replay hap => exact hap
      | refused => cases ha
    exact hap.run events

/-- **Calls may come in any order and again.**  Whatever is called, the machine ends where the calls
it accepted take it, which is one history without repetitions; and calling any of these again leaves
it there. -/
theorem calls_settle (auth : VerifiedDestructionAuthorization)
    (calls : List VerifiedDestructionEvent) :
    ∃ events, events.Sublist calls ∧ (new auth).Advances events
      ∧ (new auth).run calls = (new auth).run events
      ∧ (events.map (·.fields.eventId)).Nodup ∧ (events.map (·.objectHash)).Nodup
      ∧ ∀ again ⊆ events, ((new auth).run calls).run again = (new auth).run calls := by
  obtain ⟨events, hs, ha, hr⟩ := exists_advances_run (new auth) calls
  obtain ⟨hi, ho⟩ := ha.nodup List.nodup_nil List.nodup_nil
  rw [new, List.map_nil, List.append_nil] at hi ho
  refine ⟨events, hs, ha, hr.symm, hi, ho, fun again hsub => ?_⟩
  rw [← hr]
  induction again with
  | nil => rfl
  | cons event again ih =>
    obtain ⟨he, hag⟩ := List.cons_subset.mp hsub
    rw [run, List.foldl_cons, (ha.applied event he).replay]
    exact ih hag

end DestructionStateMachine

end Einsatzarchiv.Destruction
