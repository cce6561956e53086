/-
  File:      Einsatzarchiv/Lib/Programs.lean
  Subject:   Programs that call services, alone and side by side.

  * `Program`: a program ends with a value, fails, or calls an operation and goes on with the
    reply.
  * `Program.run`: one program alone.
  * `System`, `Pool`: calls that arrive at any time and proceed one operation at a time in any
    order, while services may refuse and the surroundings change; each keeps a log.
  * `Program.Safe`: what a program keeps at each of its operations, whatever the others do in
    between (rely and guarantee).
  * `Program.Returns`: which operations a program may call and what it ends with, whatever the
    operations answer; `Program.Kept`: what such a program leaves alone.
  * `System.run_keeps`: programs that are safe one by one are safe side by side.
-/
import Einsatzarchiv.Lib.Lists

namespace Einsatzarchiv.Lib

variable {σ Op Call Event : Type} {Reply : Op → Type} {ε ε' α β : Type} {a : α} {t s : σ}
  {x : Except ε α}

/-! ## 1. Programs -/

/-- A program over operations, each with the type of its reply. -/
inductive Program {Op : Type} (Reply : Op → Type) (ε α : Type)
  | done (value : α)
  | fail (error : ε)
  | call (op : Op) (next : Reply op → Program Reply ε α)

namespace Program

/-- First one program, then what follows from its result. -/
def bind (f : α → Program Reply ε β) : Program Reply ε α → Program Reply ε β
  | done a => f a
  | fail e => fail e
  | call op next => call op fun reply => bind f (next reply)

instance : Monad (Program Reply ε) where
  pure := done
  bind p f := bind f p

/-- Calls one operation. -/
def ask (op : Op) : Program Reply ε (Reply op) :=
  call op done

/-- A computation without calls. -/
def ofExcept : Except ε α → Program Reply ε α
  | .ok a => done a
  | .error e => fail e

/-- The program with its failure as a value, so that the caller can go on. -/
def result {ε' : Type} : Program Reply ε α → Program Reply ε' (Except ε α)
  | done a => done (.ok a)
  | fail e => done (.error e)
  | call op next => call op fun reply => result (next reply)

/-- The program with another name for its failures. -/
def mapError {ε' : Type} (f : ε → ε') : Program Reply ε α → Program Reply ε' α
  | done a => done a
  | fail e => fail (f e)
  | call op next => call op fun reply => mapError f (next reply)

/-- The value a program has ended with. -/
def value? : Program Reply ε α → Option α
  | done a => some a
  | _ => none

theorem value?_eq_some {p : Program Reply ε α} : p.value? = some a ↔ p = done a := by
  cases p <;> simp [value?]

end Program

/-! ## 2. One program alone -/

/-- What the operations do.  A service that does not answer leaves the state as it is. -/
structure Services (σ : Type) {Op : Type} (Reply : Op → Type) where
  perform : (op : Op) → σ → Reply op × σ
  refuse : (op : Op) → Option (Reply op)

namespace Program

variable (services : Services σ Reply)

/-- The program alone, with every operation answered. -/
def run : Program Reply ε α → σ → Except ε α × σ
  | done a, s => (.ok a, s)
  | fail e, s => (.error e, s)
  | call op next, s => run (next (services.perform op s).1) (services.perform op s).2

@[simp] theorem run_done (a : α) (s : σ) :
    (done a : Program Reply ε α).run services s = (.ok a, s) := rfl

@[simp] theorem run_fail (e : ε) (s : σ) :
    (fail e : Program Reply ε α).run services s = (.error e, s) := rfl

theorem run_bind (p : Program Reply ε α) (f : α → Program Reply ε β) (s : σ) :
    (p >>= f).run services s =
      match p.run services s with
      | (.ok a, t) => (f a).run services t
      | (.error e, t) => (.error e, t) := by
  induction p generalizing s with
  | done a | fail e => rfl
  | call _ _ ih => exact ih _ _

/-- A program that only passes its result on leaves the state alone. -/
theorem run_bind_done_snd (p : Program Reply ε α) (f : α → β) (s : σ) :
    ((p >>= fun a => (done (f a) : Program Reply ε β)).run services s).2
      = (p.run services s).2 := by
  rw [run_bind]
  rcases p.run services s with ⟨_ | _, _⟩ <;> rfl

theorem run_bind_of_ok {p : Program Reply ε α} (h : p.run services s = (.ok a, t))
    (f : α → Program Reply ε β) : (p >>= f).run services s = (f a).run services t := by
  rw [run_bind, h]

/-- A program ends with a value exactly when each part does. -/
theorem run_bind_eq_ok {p : Program Reply ε α} {f : α → Program Reply ε β} {b : β} {u : σ} :
    (p >>= f).run services s = (.ok b, u) ↔
      ∃ a t, p.run services s = (.ok a, t) ∧ (f a).run services t = (.ok b, u) := by
  rw [run_bind]
  constructor
  · intro h
    cases hp : p.run services s with
    | mk res t =>
      cases res with
      | error e => simp [hp] at h
      | ok a => exact ⟨a, t, rfl, by simpa [hp] using h⟩
  · rintro ⟨a, t, hp, h⟩
    rw [hp]
    exact h

@[simp] theorem run_ofExcept (x : Except ε α) (s : σ) :
    (ofExcept x : Program Reply ε α).run services s = (x, s) := by
  cases x <;> rfl

end Program

/-! ## 3. Programs side by side -/

/-- Calls of the programs of one server and what happens around them. -/
structure System (σ Call Event : Type) {Op : Type} (Reply : Op → Type) (ε α : Type) where
  services : Services σ Reply
  program : Call → Program Reply ε α
  occur : Event → σ → σ

/-- One operation that a program has called: its reply, and the state it was called in. -/
structure Step (σ : Type) {Op : Type} (Reply : Op → Type) where
  op : Op
  reply : Reply op
  before : σ

/-- A call that has arrived: what is left of its program, and what it has done. -/
structure Thread (σ Call : Type) {Op : Type} (Reply : Op → Type) (ε α : Type) where
  call : Call
  program : Program Reply ε α
  log : List (Step σ Reply) := []

/-- The shared state and the calls that have arrived. -/
structure Pool (σ Call : Type) {Op : Type} (Reply : Op → Type) (ε α : Type) where
  state : σ
  threads : List (Thread σ Call Reply ε α) := []

/-- A call arrives, goes on, is refused an operation; or something else happens. -/
inductive Action (Call Event : Type)
  | arrive (call : Call)
  | proceed (thread : Nat)
  | refuse (thread : Nat)
  | occur (event : Event)

namespace System

variable (system : System σ Call Event Reply ε α)

section

variable (pool : Pool σ Call Reply ε α)

/-- The next operation of a thread, with the reply and the state it leads to. -/
def proceed (thread : Nat)
    (answer : (op : Op) → Option (Reply op × σ)) : Pool σ Call Reply ε α :=
  match pool.threads[thread]? with
  | some ⟨call, .call op next, log⟩ =>
    match answer op with
    | some (reply, state) =>
      ⟨state, pool.threads.set thread ⟨call, next reply, log ++ [⟨op, reply, pool.state⟩]⟩⟩
    | none => pool
  | _ => pool

/-- What an action does to the pool. -/
def act : Action Call Event → Pool σ Call Reply ε α
  | .arrive call => { pool with threads := pool.threads ++ [⟨call, system.program call, []⟩] }
  | .proceed thread =>
    proceed pool thread fun op => some (system.services.perform op pool.state)
  | .refuse thread =>
    proceed pool thread fun op => (system.services.refuse op).map (·, pool.state)
  | .occur event => { pool with state := system.occur event pool.state }

def run (actions : List (Action Call Event)) :
    Pool σ Call Reply ε α :=
  actions.foldl system.act pool

end

end System

/-! ## 4. Rely and guarantee -/

/-- An invariant, and how far a state may develop behind the back of a program. -/
structure Discipline (σ : Type) where
  Inv : σ → Prop
  Rely : σ → σ → Prop
  refl : ∀ s, Rely s s
  trans : ∀ {s t u}, Rely s t → Rely t u → Rely s u

/-- An operation keeps the invariant and moves the state as others rely on. -/
def Discipline.Keeps (discipline : Discipline σ) (s t : σ) : Prop :=
  discipline.Inv t ∧ discipline.Rely s t

/-- What may be said about the log of a program, and about its end. -/
structure Contract (σ : Type) {Op : Type} (Reply : Op → Type) (ε α : Type) where
  Good : List (Step σ Reply) → Prop := fun _ => True
  Post : List (Step σ Reply) → Except ε α → σ → Prop

namespace Program

variable (services : Services σ Reply) (discipline : Discipline σ)

/-- From a state on, each operation of the program keeps the discipline in whatever state it
meets, its log stays good, and its end establishes the postcondition. -/
def Safe (contract : Contract σ Reply ε α) :
    Program Reply ε α → List (Step σ Reply) → σ → Prop
  | done a, log, s => contract.Post log (.ok a) s
  | fail e, log, s => contract.Post log (.error e) s
  | call op next, log, s => ∀ t, discipline.Rely s t → discipline.Inv t →
      (discipline.Keeps t (services.perform op t).2
        ∧ contract.Good (log ++ [⟨op, (services.perform op t).1, t⟩])
        ∧ Safe contract (next (services.perform op t).1)
          (log ++ [⟨op, (services.perform op t).1, t⟩]) (services.perform op t).2)
      ∧ ∀ reply, services.refuse op = some reply → contract.Good (log ++ [⟨op, reply, t⟩])
          ∧ Safe contract (next reply) (log ++ [⟨op, reply, t⟩]) t

variable {services discipline} {ctr ctr' : Contract σ Reply ε α}

variable {p : Program Reply ε α} {log : List (Step σ Reply)}

/-- What others do in between does not make a program unsafe. -/
theorem Safe.mono (h : p.Safe services discipline ctr log s)
    (hpo : ∀ log r s t, ctr.Post log r s → discipline.Rely s t → discipline.Inv t →
      ctr.Post log r t) (hr : discipline.Rely s t) (hi : discipline.Inv t) :
    p.Safe services discipline ctr log t := by
  cases p with
  | done a | fail e => exact hpo _ _ _ _ h hr hi
  | call _ _ => exact fun u hu => h u (discipline.trans hr hu)

/-- The second part starts where the first has ended. -/
theorem Safe.bind {f : α → Program Reply ε β} {ctr : Contract σ Reply ε β}
    (h : p.Safe services discipline ⟨ctr.Good, fun log r t =>
      match r with
      | .ok a => (f a).Safe services discipline ctr log t
      | .error e => ctr.Post log (.error e) t⟩ log s) :
    (p >>= f).Safe services discipline ctr log s := by
  induction p generalizing log s with
  | done a | fail e => exact h
  | call _ _ ih =>
    intro t hre hi
    obtain ⟨⟨hk, hg, hn⟩, hrf⟩ := h t hre hi
    exact ⟨⟨hk, hg, ih _ hn⟩, fun reply hr =>
      ⟨(hrf reply hr).1, ih _ (hrf reply hr).2⟩⟩

theorem safe_ofExcept_bind {f : α → Program Reply ε β} {ctr : Contract σ Reply ε β}
    (h : ∀ a, x = .ok a → (f a).Safe services discipline ctr log s)
    (he : ∀ e, ctr.Post log (.error e) s := by intro _ _ h; cases h) :
    (ofExcept x >>= f).Safe services discipline ctr log s := by
  cases x with
  | error e => exact he e
  | ok a => exact h a rfl

theorem Safe.imp (h : p.Safe services discipline ctr log s)
    (hpo : ∀ log r t, ctr.Post log r t → ctr'.Post log r t)
    (hg : ∀ log, ctr.Good log → ctr'.Good log := by exact fun _ h => h) :
    p.Safe services discipline ctr' log s := by
  induction p generalizing log s with
  | done a | fail e => exact hpo _ _ _ h
  | call _ _ ih =>
    intro t hre hi
    obtain ⟨⟨hk, hl, hn⟩, hrf⟩ := h t hre hi
    exact ⟨⟨hk, hg _ hl, ih _ hn⟩, fun reply hr =>
      ⟨hg _ (hrf reply hr).1, ih _ (hrf reply hr).2⟩⟩

/-- A part that may fail, and what follows where it has not. -/
theorem Safe.then {f : α → Program Reply ε β} {ctr : Contract σ Reply ε β}
    {Post : List (Step σ Reply) → Except ε α → σ → Prop}
    (h : p.Safe services discipline ⟨ctr.Good, Post⟩ log s)
    (hf : ∀ log a t, Post log (.ok a) t → (f a).Safe services discipline ctr log t)
    (he : ∀ log e t, ctr.Post log (.error e) t := by intro _ _ _ _ h; cases h) :
    (p >>= f).Safe services discipline ctr log s := by
  refine Safe.bind (h.imp ?_)
  rintro log (e | a) t hen
  · exact he log e t
  · exact hf log a t hen

/-- A program that is safe among others is safe alone. -/
theorem Safe.run (h : p.Safe services discipline ctr log s) (hs : discipline.Inv s) :
    discipline.Keeps s (p.run services s).2
      ∧ ∃ log, ctr.Post log (p.run services s).1 (p.run services s).2 := by
  induction p generalizing log s with
  | done a | fail e => exact ⟨⟨hs, discipline.refl s⟩, log, h⟩
  | call _ _ ih =>
    obtain ⟨⟨⟨hi, hr⟩, -, hn⟩, -⟩ := h s (discipline.refl s) hs
    obtain ⟨⟨he, hrely'⟩, hpo⟩ := ih _ hn hi
    exact ⟨⟨he, discipline.trans hr hrely'⟩, hpo⟩

end Program

/-! ## 5. Programs without a view of the state -/

/-- What an operation may answer, in some state or in none. -/
def Services.Answers (services : Services σ Reply) (op : Op) (reply : Reply op) : Prop :=
  (∃ s, (services.perform op s).1 = reply) ∨ services.refuse op = some reply

namespace Program

variable (services : Services σ Reply) (Allowed Final : Op → Prop)

/-- The program calls allowed operations, or fails after a final one, and whatever they answer, a
value it ends with is as `Post` says. -/
def Returns (Post : α → Prop) : Program Reply ε α → Prop
  | done a => Post a
  | fail _ => True
  | call op next =>
    (Allowed op ∧ ∀ reply, services.Answers op reply → Returns Post (next reply))
    ∨ (Final op ∧ ∀ reply, ∃ e, next reply = fail e)

variable {services Allowed Final} {Post Post' : α → Prop}

theorem Returns.bind {p : Program Reply ε α} {f : α → Program Reply ε β} {Post' : β → Prop}
    (h : p.Returns services Allowed Final Post)
    (hf : ∀ a, Post a → (f a).Returns services Allowed Final Post') :
    (p >>= f).Returns services Allowed Final Post' := by
  induction p with
  | done a => exact hf a h
  | fail e => trivial
  | call _ _ ih =>
    rcases h with ⟨hop, hn⟩ | ⟨hop, hn⟩
    · exact .inl ⟨hop, fun reply hr => ih reply (hn reply hr)⟩
    · refine .inr ⟨hop, fun reply => ?_⟩
      obtain ⟨e, he⟩ := hn reply
      exact ⟨e, congrArg (Program.bind f) he⟩

theorem returns_ofExcept (h : ∀ a, x = .ok a → Post a) :
    (ofExcept x : Program Reply ε α).Returns services Allowed Final Post := by
  cases x with
  | ok a => exact h a rfl
  | error e => trivial

/-- What the calls of a program leave alone: a property of its log and of the state that others
keep, that allowed operations keep, and that makes every log good, up to a final operation. -/
structure Kept (services : Services σ Reply) (Allowed Final : Op → Prop)
    (discipline : Discipline σ) (Good : List (Step σ Reply) → Prop)
    (P : List (Step σ Reply) → σ → Prop) : Prop where
  keeps : ∀ op, Allowed op ∨ Final op → ∀ s, discipline.Inv s →
    discipline.Keeps s (services.perform op s).2
  stable : ∀ log s t, P log s → discipline.Rely s t → discipline.Inv t → P log t
  step : ∀ log op reply before s, Allowed op → P log s → P (log ++ [⟨op, reply, before⟩]) s
  good : ∀ log s, P log s → Good log
  final : ∀ log op reply before s, Final op → P log s → Good (log ++ [⟨op, reply, before⟩])

variable {disc : Discipline σ} {P : List (Step σ Reply) → σ → Prop} {log : List (Step σ Reply)}

/-- Where every operation keeps the discipline, so does the program, and so it keeps what its
operations and the others leave alone. -/
theorem Returns.safe {p : Program Reply ε α} {Good : List (Step σ Reply) → Prop}
    (h : p.Returns services Allowed Final Post)
    (hk : Kept services Allowed Final disc Good P) (hs : P log s) :
    p.Safe services disc ⟨Good, fun log r t => ∀ a, r = .ok a → Post a ∧ P log t⟩ log s := by
  induction p generalizing log s with
  | done a =>
    intro b hb
    obtain rfl := Except.ok.inj hb
    exact ⟨h, hs⟩
  | fail e => exact fun _ hb => (nomatch hb)
  | call op next ih =>
    intro t hrl hi
    have ht := hk.stable log s t hs hrl hi
    rcases h with ⟨hop, hn⟩ | ⟨hop, hn⟩
    · obtain ⟨hinv', hrely'⟩ := hk.keeps op (.inl hop) t hi
      have hd := hk.step log op (services.perform op t).1 t _ hop
        (hk.stable log t _ ht hrely' hinv')
      refine ⟨⟨⟨hinv', hrely'⟩, hk.good _ _ hd, ih _ (hn _ (.inl ⟨t, rfl⟩)) hd⟩, fun reply hr => ?_⟩
      have hre := hk.step log op reply t t hop ht
      exact ⟨hk.good _ _ hre, ih _ (hn _ (.inr hr)) hre⟩
    · -- after a final operation nothing is left but the failure
      have hf : ∀ reply log u, (next reply).Safe services disc
          ⟨Good, fun log r t => ∀ a, r = .ok a → Post a ∧ P log t⟩ log u := by
        intro reply log u
        obtain ⟨e, he⟩ := hn reply
        rw [he]
        exact fun _ hb => (nomatch hb)
      exact ⟨⟨hk.keeps op (.inr hop) t hi, hk.final _ _ _ _ _ hop ht, hf _ _ _⟩,
        fun reply _ => ⟨hk.final _ _ _ _ _ hop ht, hf _ _ _⟩⟩

/-- The first part of a program returns, the second is safe from where it ends. -/
theorem Returns.safe_bind {p : Program Reply ε α} {f : α → Program Reply ε β}
    {contract : Contract σ Reply ε β} (h : p.Returns services Allowed Final Post)
    (hk : Kept services Allowed Final disc contract.Good P) (hs : P log s)
    (hf : ∀ a, Post a → ∀ log t, P log t → (f a).Safe services disc contract log t)
    (he : ∀ log e t, contract.Post log (.error e) t := by intro _ _ _ _ h; cases h) :
    (p >>= f).Safe services disc contract log s :=
  (h.safe hk hs).then (fun log a t hen => hf a (hen a rfl).1 log t (hen a rfl).2) he

end Program

/-! ## 6. Safe programs side by side -/

namespace System

variable {system : System σ Call Event Reply ε α} {discipline : Discipline σ}
  {contract : Call → Contract σ Reply ε α}

/-- The invariant of the state, and every thread safe from here on, with a good log. -/
structure Safe (system : System σ Call Event Reply ε α) (discipline : Discipline σ)
    (contract : Call → Contract σ Reply ε α) (pool : Pool σ Call Reply ε α) : Prop where
  inv : discipline.Inv pool.state
  threads : ∀ thread ∈ pool.threads,
    thread.program.Safe system.services discipline (contract thread.call) thread.log pool.state
  logs : ∀ thread ∈ pool.threads, (contract thread.call).Good thread.log

variable (hpo : ∀ call log r s t, (contract call).Post log r s → discipline.Rely s t →
  discipline.Inv t → (contract call).Post log r t)
include hpo

variable {pool : Pool σ Call Reply ε α}

section

variable (h : Safe system discipline contract pool)
include h

/-- One thread proceeds, the others rely on what it did. -/
theorem Safe.proceed {thread : Nat}
    {answer : (op : Op) → Option (Reply op × σ)} (ha : ∀ call op next log reply state,
      (Program.call op next).Safe system.services discipline (contract call) log pool.state →
      answer op = some (reply, state) → discipline.Keeps pool.state state
        ∧ (contract call).Good (log ++ [⟨op, reply, pool.state⟩])
        ∧ (next reply).Safe system.services discipline (contract call)
          (log ++ [⟨op, reply, pool.state⟩]) state) :
    Safe system discipline contract (System.proceed pool thread answer) := by
  unfold System.proceed
  split
  · rename_i call op next log ht
    split
    · rename_i reply state hr
      have hs := h.threads _ (List.mem_of_getElem? ht)
      obtain ⟨⟨hi, hre⟩, hg, hn⟩ := ha call op next log reply state hs hr
      refine ⟨hi, fun other ho => ?_, fun other ho => ?_⟩
      · rcases List.mem_or_eq_of_mem_set ho with ho | rfl
        · exact (h.threads other ho).mono (hpo other.call) hre hi
        · exact hn
      · rcases List.mem_or_eq_of_mem_set ho with ho | rfl
        · exact h.logs other ho
        · exact hg
    · exact h
  · exact h

theorem Safe.act {action : Action Call Event}
    (hp : ∀ call, action = .arrive call → (contract call).Good []
      ∧ (system.program call).Safe system.services discipline (contract call) [] pool.state)
    (hev : ∀ event, action = .occur event →
      discipline.Keeps pool.state (system.occur event pool.state)) :
    Safe system discipline contract (system.act pool action) := by
  cases action with
  | arrive call =>
    obtain ⟨hl, hs⟩ := hp call rfl
    exact ⟨h.inv, forall_mem_concat h.threads hs, forall_mem_concat h.logs hl⟩
  | proceed thread =>
    rw [System.act]
    refine h.proceed hpo fun call op next log reply state hs hr => ?_
    obtain ⟨hn, -⟩ := hs pool.state (discipline.refl _) h.inv
    obtain ⟨rfl, rfl⟩ : (system.services.perform op pool.state).1 = reply
        ∧ (system.services.perform op pool.state).2 = state := by
      rw [Option.some.inj hr]
      exact ⟨rfl, rfl⟩
    exact hn
  | refuse thread =>
    rw [System.act]
    refine h.proceed hpo fun call op next log reply state hs hr => ?_
    obtain ⟨-, hrf⟩ := hs pool.state (discipline.refl _) h.inv
    obtain ⟨reply', hreply', heq⟩ := Option.map_eq_some_iff.mp hr
    obtain ⟨rfl, rfl⟩ := Prod.mk.inj heq
    exact ⟨⟨h.inv, discipline.refl _⟩, hrf reply' hreply'⟩
  | occur event =>
    obtain ⟨hi, hre⟩ := hev event rfl
    exact ⟨hi, fun thread ht =>
      (h.threads thread ht).mono (hpo thread.call) hre hi, h.logs⟩

/-- **Side by side.**  If every call is safe from the state on in which it arrives, and everything
that happens around the calls keeps the discipline, then so does the run of all of them. -/
theorem run_keeps {acts : List (Action Call Event)}
    (hp : ∀ earlier call, earlier ++ [.arrive call] <+: acts →
      discipline.Inv (system.run pool earlier).state → (contract call).Good []
        ∧ (system.program call).Safe system.services discipline (contract call) []
          (system.run pool earlier).state)
    (hev : ∀ event, .occur event ∈ acts → ∀ s, discipline.Inv s →
      discipline.Keeps s (system.occur event s)) :
    Safe system discipline contract (system.run pool acts) := by
  induction acts generalizing pool with
  | nil => exact h
  | cons action acts ih =>
    refine ih (h.act hpo (fun call heq => ?_) (fun event heq => ?_)) (fun earlier call he hi => ?_)
      (fun event ho => hev event (List.mem_cons_of_mem _ ho))
    · exact hp [] call (by rw [heq]; exact ⟨acts, rfl⟩) h.inv
    · exact hev event (heq ▸ List.mem_cons_self) _ h.inv
    · exact hp (action :: earlier) call (List.cons_prefix_cons.mpr ⟨rfl, he⟩) hi

end

end System

end Einsatzarchiv.Lib
