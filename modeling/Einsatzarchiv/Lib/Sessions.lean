/-
  File:      Einsatzarchiv/Lib/Sessions.lean
  Subject:   Calls one after the other, each of which may be cut off anywhere.

  * `Devices`, `Fate`: an operation is answered or refused, or it takes effect and only its answer
    is lost.
  * `Machine`, `Session`, `Turn`: a process starts a call and makes its operations one by one; the
    start of the next call is the death of a process that had not ended.
  * `Program.Heeds`: every operation of a program is called under its guard, and what holds at the
    end of the program.
  * `Machine.Sound.run`, `Machine.Sound.run_started`: what operations under their guards keep,
    every session keeps.
-/
import Einsatzarchiv.Lib.Programs
import Mathlib.Data.List.Induction
import Mathlib.Logic.Relation

namespace Einsatzarchiv.Lib

variable {σ Op Call : Type} {Reply : Op → Type} {ε ε' α β : Type} {f : α → Program Reply ε β}
  {x : Except ε α} {Guard : Op → σ → Prop} {op : Op} {s : σ}

/-! ## 1. Devices -/

/-- What the surroundings do with the next operation. -/
inductive Fate
  | answered | refused | lost

/-- Services, some of which can take effect without being able to say so. -/
structure Devices (σ : Type) {Op : Type} (Reply : Op → Type) extends Services σ Reply where
  lossy : Op → Bool

namespace Devices

variable (devices : Devices σ Reply)

/-- The reply to an operation and the state after it. -/
def meet (op : Op) (fate : Fate) (s : σ) : Reply op × σ :=
  match fate, devices.refuse op with
  | .refused, some reply => (reply, s)
  | .lost, some reply => (reply, if devices.lossy op then (devices.perform op s).2 else s)
  | _, _ => devices.perform op s

@[simp] theorem meet_answered (op : Op) (s : σ) :
    devices.meet op .answered s = devices.perform op s := by
  simp [meet]

/-- An operation is performed, refused, or performed without an answer. -/
theorem meet_cases (op : Op) (fate : Fate) (s : σ) : devices.meet op fate s = devices.perform op s
      ∨ ∃ reply, devices.refuse op = some reply
        ∧ (devices.meet op fate s = (reply, s)
          ∨ devices.lossy op = true
            ∧ devices.meet op fate s = (reply, (devices.perform op s).2)) := by
  unfold meet
  cases hr : devices.refuse op with
  | none => cases fate <;> exact .inl rfl
  | some reply =>
    cases fate with
    | answered => exact .inl rfl
    | refused => exact .inr ⟨reply, rfl, .inl rfl⟩
    | lost =>
      cases hl : devices.lossy op with
      | false => exact .inr ⟨reply, rfl, .inl (by simp)⟩
      | true => exact .inr ⟨reply, rfl, .inr ⟨rfl, by simp⟩⟩

end Devices

/-! ## 2. Sessions -/

/-- The programs of the calls, and what they work on. -/
structure Machine (σ Call : Type) {Op : Type} (Reply : Op → Type) (ε α : Type) where
  devices : Devices σ Reply
  program : Call → Program Reply ε α

/-- The durable state, and what is left of the running call. -/
structure Session (σ : Type) {Op : Type} (Reply : Op → Type) (ε α : Type) where
  state : σ
  current : Option (Program Reply ε α) := none

/-- A call is started, or the running one goes on. -/
inductive Turn (Call : Type)
  | start (call : Call)
  | proceed (fate : Fate)

namespace Machine

variable (machine : Machine σ Call Reply ε α)

section

variable (session : Session σ Reply ε α)

/-- What a turn does: a start abandons the running call. -/
def turn : Turn Call → Session σ Reply ε α
  | .start call => { session with current := some (machine.program call) }
  | .proceed fate =>
    match session.current with
    | some (.call op next) =>
      ⟨(machine.devices.meet op fate session.state).2,
        some (next (machine.devices.meet op fate session.state).1)⟩
    | _ => session

/-- The turns one after the other. -/
def run (turns : List (Turn Call)) : Session σ Reply ε α :=
  turns.foldl machine.turn session

theorem run_append (turns more : List (Turn Call)) :
    machine.run session (turns ++ more) = machine.run (machine.run session turns) more :=
  List.foldl_append

end

end Machine

/-- The call that a turn starts, if it starts one. -/
def Turn.call? : Turn Call → Option Call
  | .start call => some call
  | .proceed _ => none

/-- What is checked at each place of a list of turns holds wherever the list starts a call. -/
theorem forall_start_of_take {P : List (Turn Call) → Call → Prop} {turns : List (Turn Call)}
    (h : ∀ i < turns.length, ∀ call ∈ turns[i]?.bind Turn.call?, P (turns.take i) call)
    {earlier : List (Turn Call)} {call : Call} {later : List (Turn Call)}
    (ht : turns = earlier ++ .start call :: later) : P earlier call := by
  subst ht
  have hp := h earlier.length (by simp) call (by simp [Turn.call?])
  rwa [List.take_left] at hp

/-- The call that was started last. -/
def lastCall : List (Turn Call) → Option Call :=
  List.foldl (fun last turn => match turn with
    | .start call => some call
    | .proceed _ => last) none

/-- Since the last call was started, it only proceeds. -/
theorem exists_of_lastCall {turns : List (Turn Call)} {call : Call}
    (h : lastCall turns = some call) :
    ∃ (earlier : List (Turn Call)) (fates : List Fate),
      turns = earlier ++ .start call :: fates.map .proceed := by
  induction turns using List.reverseRecOn with
  | nil => cases h
  | append_singleton turns turn ih =>
    rw [lastCall, List.foldl_append] at h
    cases turn with
    | start started =>
      obtain rfl : started = call := Option.some.inj h
      exact ⟨turns, [], rfl⟩
    | proceed fate =>
      obtain ⟨earlier, fates, rfl⟩ := ih h
      exact ⟨earlier, fates ++ [fate], by simp⟩

/-- Without a call nothing moves. -/
theorem run_of_lastCall_eq_none {machine : Machine σ Call Reply ε α} {turns : List (Turn Call)}
    (h : lastCall turns = none) : machine.run ⟨s, none⟩ turns = ⟨s, none⟩ := by
  induction turns using List.reverseRecOn with
  | nil => rfl
  | append_singleton turns turn ih =>
    rw [lastCall, List.foldl_append] at h
    cases turn with
    | start _ => cases h
    | proceed _ =>
      rw [Machine.run_append, ih h]
      rfl

/-! ## 3. Programs that heed a guard -/

/-- What the operations do to the state when each is called under its guard. -/
inductive Devices.Change (devices : Devices σ Reply) (Guard : Op → σ → Prop) (s : σ) : σ → Prop
  | perform (op : Op) (h : Guard op s) : Change devices Guard s (devices.perform op s).2
  | refuse : Change devices Guard s s

theorem Devices.change_meet {devices : Devices σ Reply} (h : Guard op s) (fate : Fate) :
    devices.Change Guard s (devices.meet op fate s).2 := by
  rcases devices.meet_cases op fate s with hm | ⟨reply, -, hm | ⟨-, hm⟩⟩ <;> rw [hm]
  · exact .perform op h
  · exact .refuse
  · exact .perform op h

/-- A postcondition, from one for values and one for errors. -/
def ends (Ok : α → σ → Prop) (Err : ε → σ → Prop) : Except ε α → σ → Prop
  | .ok a, s => Ok a s
  | .error e, s => Err e s

namespace Program

variable (devices : Devices σ Reply) (Guard : Op → σ → Prop)

/-- Every operation of the program is called under its guard, whatever the fates of the earlier
ones, and if the program ends, it establishes the postcondition. -/
def Heeds (Post : Except ε α → σ → Prop) : Program Reply ε α → σ → Prop
  | done a, s => Post (.ok a) s
  | fail e, s => Post (.error e) s
  | call op next, s => Guard op s ∧ ∀ fate,
      Heeds Post (next (devices.meet op fate s).1) (devices.meet op fate s).2

variable {devices Guard} {Post : Except ε α → σ → Prop}

variable {p : Program Reply ε α}

section

variable (h : p.Heeds devices Guard Post s)
include h

theorem Heeds.imp {Post' : Except ε α → σ → Prop} (hi : ∀ r t, Post r t → Post' r t) :
    p.Heeds devices Guard Post' s := by
  induction p generalizing s with
  | done a | fail e => exact hi _ _ h
  | call _ _ ih => exact ⟨h.1, fun fate => ih _ (h.2 fate)⟩

theorem Heeds.mono {Guard' : Op → σ → Prop} (hi : ∀ op s, Guard op s → Guard' op s) :
    p.Heeds devices Guard' Post s := by
  induction p generalizing s with
  | done a | fail e => exact h
  | call op _ ih => exact ⟨hi _ _ h.1, fun fate => ih _ (h.2 fate)⟩

/-- The second part starts where the first has ended. -/
theorem Heeds.bind {Post' : Except ε β → σ → Prop}
    (hok : ∀ a t, Post (.ok a) t → (f a).Heeds devices Guard Post' t)
    (he : ∀ e t, Post (.error e) t → Post' (.error e) t := by intros; trivial) :
    (p >>= f).Heeds devices Guard Post' s := by
  induction p generalizing s with
  | done a => exact hok a s h
  | fail e => exact he e s h
  | call _ _ ih => exact ⟨h.1, fun fate => ih _ (h.2 fate)⟩

theorem Heeds.result {Post' : Except ε' (Except ε α) → σ → Prop}
    (hi : ∀ r t, Post r t → Post' (.ok r) t) :
    (p.result : Program Reply ε' (Except ε α)).Heeds devices Guard Post' s := by
  induction p generalizing s with
  | done a | fail e => exact hi _ _ h
  | call _ _ ih => exact ⟨h.1, fun fate => ih _ (h.2 fate)⟩

theorem Heeds.mapError {f : ε → ε'} {Post' : Except ε' α → σ → Prop}
    (hi : ∀ r t, Post r t → Post' (r.mapError f) t) :
    (p.mapError f).Heeds devices Guard Post' s := by
  induction p generalizing s with
  | done a | fail e => exact hi _ _ h
  | call _ _ ih => exact ⟨h.1, fun fate => ih _ (h.2 fate)⟩

end

theorem heeds_ofExcept (h : Post x s) :
    (ofExcept x : Program Reply ε α).Heeds devices Guard Post s := by
  cases x with
  | ok a | error e => exact h

theorem heeds_ofExcept_bind {x : Except ε β} {f : β → Program Reply ε α}
    (hok : ∀ b, x = .ok b → (f b).Heeds devices Guard Post s)
    (he : ∀ e, x = .error e → Post (.error e) s := by intros; trivial) :
    (ofExcept x >>= f).Heeds devices Guard Post s := by
  cases x with
  | ok b => exact hok b rfl
  | error e => exact he e rfl

/-- One operation and what follows: it answers, it is refused, or only its answer is lost. -/
theorem heeds_ask_bind {f : Reply op → Program Reply ε α} (hg : Guard op s)
    (hp : (f (devices.perform op s).1).Heeds devices Guard Post (devices.perform op s).2)
    (hre : ∀ reply, devices.refuse op = some reply → (f reply).Heeds devices Guard Post s)
    (hlo : ∀ reply, devices.refuse op = some reply → devices.lossy op = true →
      (f reply).Heeds devices Guard Post (devices.perform op s).2) :
    (ask op >>= f).Heeds devices Guard Post s := by
  refine ⟨hg, fun fate => ?_⟩
  rcases devices.meet_cases op fate s with h | ⟨reply, hr, h | ⟨hl, h⟩⟩ <;> rw [h]
  · exact hp
  · exact hre reply hr
  · exact hlo reply hr hl

end Program

/-! ## 4. Calls that run to their end -/

namespace Machine

variable {machine : Machine σ Call Reply ε α}

/-- An undisturbed call ends. -/
theorem exists_answered (p : Program Reply ε α) (s : σ) :
    ∃ n, machine.run ⟨s, some p⟩ (List.replicate n (.proceed .answered))
      = ⟨(p.run machine.devices.toServices s).2,
        some (.ofExcept (p.run machine.devices.toServices s).1)⟩ := by
  induction p generalizing s with
  | done a | fail e => exact ⟨0, rfl⟩
  | call op next ih =>
    obtain ⟨n, hn⟩ := ih (machine.devices.perform op s).1 (machine.devices.perform op s).2
    refine ⟨n + 1, ?_⟩
    change machine.run ⟨(machine.devices.meet op .answered s).2,
      some (next (machine.devices.meet op .answered s).1)⟩ _ = _
    exact hn

end Machine

/-! ## 5. Sessions of calls that heed a guard -/

namespace Machine

variable (machine : Machine σ Call Reply ε α) (Inv : σ → Prop) (Guard : Op → σ → Prop)

/-- The state is as it should be, and what is left of the running call heeds the guard. -/
structure Sound (session : Session σ Reply ε α) : Prop where
  inv : Inv session.state
  current : ∀ p ∈ session.current, p.Heeds machine.devices Guard (fun _ _ => True) session.state

/-- How a session develops: under the invariant, by operations under their guards. -/
def Develops : σ → σ → Prop :=
  Relation.ReflTransGen fun s t => Inv s ∧ machine.devices.Change Guard s t

variable {machine Inv Guard}

variable {sess : Session σ Reply ε α}

section

variable (h : machine.Sound Inv Guard sess)
include h

theorem Sound.proceed (hs : ∀ s t, Inv s → machine.devices.Change Guard s t → Inv t) (fate : Fate) :
    machine.Sound Inv Guard (machine.turn sess (.proceed fate))
      ∧ machine.Develops Inv Guard sess.state (machine.turn sess (.proceed fate)).state := by
  obtain ⟨hi, hcu⟩ := h
  rcases sess with ⟨state, _ | (_ | _ | ⟨op, _⟩)⟩
  · exact ⟨⟨hi, hcu⟩, .refl⟩
  · exact ⟨⟨hi, hcu⟩, .refl⟩
  · exact ⟨⟨hi, hcu⟩, .refl⟩
  · obtain ⟨hg, hn⟩ := hcu _ rfl
    have hc : machine.devices.Change Guard state (machine.devices.meet op fate state).2 :=
      Devices.change_meet hg fate
    refine ⟨⟨hs _ _ hi hc, ?_⟩, .single ⟨hi, hc⟩⟩
    rintro p ⟨⟩
    exact hn fate

/-- **One call**, up to any point and under any fates. -/
theorem Sound.proceed_all (hst : ∀ s t, Inv s → machine.devices.Change Guard s t → Inv t)
    (fates : List Fate) :
    machine.Sound Inv Guard (machine.run sess (fates.map .proceed))
      ∧ machine.Develops Inv Guard sess.state (machine.run sess (fates.map .proceed)).state := by
  induction fates generalizing sess with
  | nil => exact ⟨h, .refl⟩
  | cons fate fates ih =>
    obtain ⟨hs, hr⟩ := h.proceed hst fate
    obtain ⟨he, hreach'⟩ := ih hs
    exact ⟨he, hr.trans hreach'⟩

theorem Sound.turn {turn : Turn Call} (hc : ∀ call, turn = .start call → ∀ s, Inv s →
      (machine.program call).Heeds machine.devices Guard (fun _ _ => True) s)
    (hs : ∀ s t, Inv s → machine.devices.Change Guard s t → Inv t) :
    machine.Sound Inv Guard (machine.turn sess turn)
      ∧ machine.Develops Inv Guard sess.state (machine.turn sess turn).state := by
  cases turn with
  | start call =>
    refine ⟨⟨h.inv, ?_⟩, .refl⟩
    rintro p ⟨⟩
    exact hc call rfl sess.state h.inv
  | proceed fate => exact h.proceed hs fate

/-- **Sessions.**  If every call heeds the guard, and operations under it keep the invariant, then
the invariant holds at every moment of every session, and each later moment is reached from the
earlier one by such operations. -/
theorem Sound.run {turns : List (Turn Call)} (hc : ∀ call, .start call ∈ turns → ∀ s, Inv s →
      (machine.program call).Heeds machine.devices Guard (fun _ _ => True) s)
    (hst : ∀ s t, Inv s → machine.devices.Change Guard s t → Inv t) :
    machine.Sound Inv Guard (machine.run sess turns)
      ∧ machine.Develops Inv Guard sess.state (machine.run sess turns).state := by
  induction turns generalizing sess with
  | nil => exact ⟨h, .refl⟩
  | cons _ turns ih =>
    obtain ⟨hs, hr⟩ := h.turn (fun call heq => hc call (heq ▸ List.mem_cons_self)) hst
    obtain ⟨he, hreach'⟩ := ih hs fun call hca =>
      hc call (List.mem_cons_of_mem _ hca)
    exact ⟨he, hr.trans hreach'⟩

/-- Sessions in which a call heeds the guard at least in the state it is started in. -/
theorem Sound.run_started {turns : List (Turn Call)}
    (hc : ∀ earlier call later, turns = earlier ++ .start call :: later →
      Inv (machine.run sess earlier).state →
      (machine.program call).Heeds machine.devices Guard (fun _ _ => True)
        (machine.run sess earlier).state)
    (hst : ∀ s t, Inv s → machine.devices.Change Guard s t → Inv t) :
    machine.Sound Inv Guard (machine.run sess turns) := by
  induction turns using List.reverseRecOn with
  | nil => exact h
  | append_singleton turns turn ih =>
    have hs := ih fun earlier call later heq =>
      hc earlier call (later ++ [turn]) (by rw [heq, List.append_assoc]; rfl)
    rw [run_append]
    cases turn with
    | start call =>
      refine ⟨hs.inv, ?_⟩
      rintro p ⟨⟩
      exact hc turns call [] rfl hs.inv
    | proceed fate => exact (hs.proceed hst fate).1

end

end Machine

end Einsatzarchiv.Lib
