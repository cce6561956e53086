/-
  File:      Einsatzarchiv/Lib/Guards.lean
  Subject:   Loops, and what the success of a sequence of checks establishes.

  What a step adds for its element, a fold adds for all of them:

  * `foldl_or_of_pairwise`: a property that a step either inherits or gains from its element, where
    what an element gives does not depend on the elements before it;
  * `foldl_or`: the same where it does not depend on the state at all;
  * `foldl_or_of_frame`: the same where no step changes what it depends on;
  * `foldl_frame`: what no step changes;
  * `foldl_append_filterMap`: a list that each step appends a selection to;
  * `getElem?_foldl_insert`, `getElem?_foldl_insertIfNew`: of the values with one key the last or
    the first one stays.
  * `Exits`: the first round that leaves the size as it is; `Exits.add_le`: a loop whose earlier
    rounds all shrink a measure has few rounds.
  * `ensure`: a check that fails with a given error.
  * `okOr`: an optional value whose absence is an error.
  * `bind_eq_ok`, `ensure_eq_ok`, `okOr_eq_ok`, `forM_eq_ok`: each successful step, read back as
    the fact it checked; `ok_iff` and `some_iff` are the sets of them.
  * `mapM_eq_ok`, `eq_map_of_mapM_eq_ok`, `exists_ok_of_mapM_eq_ok`: a fallible map, member by
    member.
  * `Yields`, `Decides`: when a sequence of steps succeeds, and how it ends.
  * `foldlM_invariant`: an invariant carried along a fallible fold.
-/
import Mathlib.Data.List.Basic
import Mathlib.Data.List.Forall2
import Mathlib.Logic.Function.Iterate
import Std.Data.TreeMap.Lemmas

namespace Einsatzarchiv.Lib

section

/-! ## 1. Folds -/

variable {α β σ : Type*} {f : σ → α → σ} {l : List α} {s : σ} {P : σ → Prop} {r : σ → α → Prop}
  {p : α → Option β}

theorem foldl_or_of_pairwise {R : α → α → Prop} (hP : ∀ s a, a ∈ l → (P (f s a) ↔ P s ∨ r s a))
    (hr : ∀ s a b, a ∈ l → b ∈ l → R a b → (r (f s a) b ↔ r s b)) (hl : l.Pairwise R) :
    P (l.foldl f s) ↔ P s ∨ ∃ a ∈ l, r s a := by
  induction l generalizing s with
  | nil => simp
  | cons a l ih =>
    have hre : (∃ b ∈ l, r (f s a) b) ↔ ∃ b ∈ l, r s b :=
      exists_congr fun b => and_congr_right fun hb =>
        hr s a b List.mem_cons_self (List.mem_cons_of_mem _ hb) (List.rel_of_pairwise_cons hl hb)
    rw [List.foldl_cons, ih (fun s b hb => hP s b (List.mem_cons_of_mem _ hb))
      (fun s b c hb hc => hr s b c (List.mem_cons_of_mem _ hb) (List.mem_cons_of_mem _ hc))
      hl.of_cons, hP s a List.mem_cons_self, hre]
    simp [or_assoc]

theorem foldl_or_of_frame (hP : ∀ s a, a ∈ l → (P (f s a) ↔ P s ∨ r s a))
    (hr : ∀ s a b, r (f s a) b ↔ r s b) : P (l.foldl f s) ↔ P s ∨ ∃ a ∈ l, r s a :=
  foldl_or_of_pairwise hP (fun s a b _ _ _ => hr s a b) (List.pairwise_of_forall fun _ _ => trivial)

theorem foldl_or {q : α → Prop} (hP : ∀ s a, a ∈ l → (P (f s a) ↔ P s ∨ q a)) :
    P (l.foldl f s) ↔ P s ∨ ∃ a ∈ l, q a :=
  foldl_or_of_frame hP fun _ _ _ => Iff.rfl

theorem foldl_frame {g : σ → β} (h : ∀ s a, a ∈ l → g (f s a) = g s) : g (l.foldl f s) = g s :=
  List.foldlRecOn (motive := fun t => g t = g s) l f rfl fun t ht a ha => (h t a ha).trans ht

/-- A loop that appends what it selects selects from the whole list. -/
theorem foldl_append_filterMap {g : σ → List β}
    (h : ∀ s a, a ∈ l → g (f s a) = g s ++ (p a).toList) :
    g (l.foldl f s) = g s ++ l.filterMap p := by
  induction l generalizing s with
  | nil => simp
  | cons a l ih =>
    rw [List.foldl_cons, ih fun s b hb => h s b (List.mem_cons_of_mem _ hb),
      h s a List.mem_cons_self, List.append_assoc]
    cases hp : p a <;> simp [hp]

/-- Two selections that never pick the same element pick no more than there are. -/
theorem length_filterMap_add_le {γ : Type*} {q : α → Option γ}
    (h : ∀ a ∈ l, p a = none ∨ q a = none) :
    (l.filterMap p).length + (l.filterMap q).length ≤ l.length := by
  induction l with
  | nil => simp
  | cons a l ih =>
    have ih := ih (List.forall_mem_cons.mp h).2
    simp only [List.filterMap_cons, List.length_cons]
    rcases h a List.mem_cons_self with ha | ha
    · rw [ha]
      cases q a <;> simp <;> omega
    · rw [ha]
      cases p a <;> simp <;> omega

/-! ## 2. Maps -/

section

variable {cmp : α → α → Ordering} [Std.TransCmp cmp] [Std.LawfulEqCmp cmp] [DecidableEq α]
  (keyOf : β → α) (l : List β) (m : Std.TreeMap α β cmp) (key : α)

theorem getElem?_foldl_insert : (l.foldl (fun m b => m.insert (keyOf b) b) m)[key]? =
      ((l.filter fun b => keyOf b = key).getLast?).or m[key]? := by
  induction l generalizing m with
  | nil => simp
  | cons b l ih =>
    rw [List.foldl_cons, ih, Std.TreeMap.getElem?_insert, List.filter_cons]
    by_cases hk : keyOf b = key
    · simp only [hk, Std.LawfulEqCmp.compare_eq_iff_eq, if_true, decide_true, List.getLast?_cons]
      cases (l.filter fun b => keyOf b = key).getLast? <;> rfl
    · simp [hk, Std.LawfulEqCmp.compare_eq_iff_eq]

theorem getElem?_foldl_insertIfNew : (l.foldl (fun m b => m.insertIfNew (keyOf b) b) m)[key]? =
      m[key]?.or (l.find? fun b => keyOf b = key) := by
  induction l generalizing m with
  | nil => simp
  | cons b l ih =>
    rw [List.foldl_cons, ih, Std.TreeMap.getElem?_insertIfNew, List.find?_cons]
    by_cases hk : keyOf b = key
    · subst hk
      by_cases hm : keyOf b ∈ m
      · simp [hm]
      · simp [hm]
    · simp [hk]

end

/-! ## 3. Rounds -/

section

variable {σ : Type} {round : σ → σ} {size : σ → Nat} {s : σ} {n : Nat}

/-- After `n` rounds that change the size comes one that does not. -/
structure Exits (round : σ → σ) (size : σ → Nat) (s : σ) (n : Nat) : Prop where
  stops : size (round (round^[n] s)) = size (round^[n] s)
  changes : ∀ m < n, size (round (round^[m] s)) ≠ size (round^[m] s)

theorem Exits.zero (h : size (round s) = size s) : Exits round size s 0 :=
  ⟨h, fun _ hm => absurd hm (Nat.not_lt_zero _)⟩

theorem Exits.cons (hne : size (round s) ≠ size s) (h : Exits round size (round s) n) :
    Exits round size s (n + 1) := by
  refine ⟨h.stops, fun m hm => ?_⟩
  cases m with
  | zero => exact hne
  | succ m => exact h.changes m (Nat.lt_of_succ_lt_succ hm)

/-- Each round before the last takes something from the measure. -/
theorem Exits.add_le {measure : σ → Nat}
    (hs : ∀ s, size (round s) ≠ size s → measure (round s) < measure s)
    (h : Exits round size s n) : n + measure (round^[n] s) ≤ measure s := by
  have ha : ∀ m ≤ n, m + measure (round^[m] s) ≤ measure s := by
    intro m
    induction m with
    | zero => intro _; simp
    | succ m _ =>
      intro hm
      have hl := hs _ (h.changes m hm)
      rw [Function.iterate_succ_apply']
      omega
  exact ha n (Nat.le_refl n)

/-- What every round preserves holds at the exit. -/
theorem iterate_preserves {motive : σ → Prop} (hs : ∀ s, motive s → motive (round s))
    (h : motive s) (n : Nat) : motive (round^[n] s) := by
  induction n with
  | zero => exact h
  | succ n ih =>
    rw [Function.iterate_succ_apply']
    exact hs _ ih

end

end

variable {ε ε' α β σ : Type}

/-- Fails with `e` unless `c` holds. -/
def ensure (c : Bool) (e : ε) : Except ε Unit :=
  if c then .ok () else .error e

/-- The value, or the error `e` when there is none. -/
def okOr (o : Option α) (e : ε) : Except ε α :=
  match o with
  | some a => .ok a
  | none => .error e

variable {e e' : ε} {a : α} {x : Except ε α} {f : α → Except ε β} {l : List α} {r : List β}
  {o : Option α} {c : Bool} {b : β}

@[simp] theorem ensure_eq_ok {u : Unit} : ensure c e = .ok u ↔ c = true := by
  cases c <;> simp [ensure]

@[simp] theorem ensure_eq_error : ensure c e = .error e' ↔ c = false ∧ e = e' := by
  cases c <;> simp [ensure]

@[simp] theorem okOr_eq_ok : okOr o e = .ok a ↔ o = some a := by
  cases o <;> simp [okOr]

theorem okOr_eq_error : okOr o e = .error e' ↔ o = none ∧ e = e' := by
  cases o <;> simp [okOr]

/-- A sequence of steps succeeds exactly when each step succeeds in turn. -/
@[simp] theorem bind_eq_ok : (x >>= f) = .ok b ↔ ∃ a, x = .ok a ∧ f a = .ok b := by
  cases x <;> simp [bind, Except.bind]

theorem bind_eq_error : (x >>= f) = .error e ↔ x = .error e ∨ ∃ a, x = .ok a ∧ f a = .error e := by
  cases x with
  | error e' | ok a => simp [bind, Except.bind]

theorem ok_bind : (Except.ok a >>= f) = f a := rfl

@[simp] theorem pure_eq_ok {b : α} : (pure a : Except ε α) = .ok b ↔ a = b := by
  simp [pure, Except.pure]

@[simp] theorem map_eq_ok {f : α → β} : (f <$> x) = .ok b ↔ ∃ a, x = .ok a ∧ f a = b := by
  cases x <;> simp [Functor.map, Except.map]

@[simp] theorem exists_unit_eq_ok {x : Except ε Unit} : (∃ u, x = .ok u) ↔ x = .ok () :=
  ⟨fun ⟨_, h⟩ => h, fun h => ⟨(), h⟩⟩

@[simp] theorem throw_ne_ok : (throw e : Except ε α) ≠ .ok a := by
  simp [throw, throwThe, MonadExceptOf.throw]

@[simp] theorem mapError_eq_ok {f : ε → ε'} : x.mapError f = .ok a ↔ x = .ok a := by
  cases x <;> simp [Except.mapError]

@[simp] theorem toOption_eq_some : x.toOption = some a ↔ x = .ok a := by
  cases x <;> simp [Except.toOption]

/-- The rules that take a successful sequence of checks apart, as one set for `simp only`. -/
theorem ok_iff : (∀ {ε α β : Type} {x : Except ε α} {f : α → Except ε β} {b : β},
      (x >>= f) = .ok b ↔ ∃ a, x = .ok a ∧ f a = .ok b) ∧
    (∀ {ε α : Type} {a b : α}, (pure a : Except ε α) = .ok b ↔ a = b) ∧
    (∀ {ε : Type} {c : Bool} {e : ε} {u : Unit}, ensure c e = .ok u ↔ c = true) ∧
    (∀ {ε α : Type} {o : Option α} {e : ε} {a : α}, okOr o e = .ok a ↔ o = some a) ∧
    (∀ {ε ε' α : Type} {x : Except ε α} {f : ε → ε'} {a : α}, x.mapError f = .ok a ↔ x = .ok a) ∧
    (∀ {p : Prop} [Decidable p], decide p = true ↔ p) ∧
    ∀ {α β : Type} {a c : α} {b d : β}, (a, b) = (c, d) ↔ a = c ∧ b = d :=
  ⟨bind_eq_ok, pure_eq_ok, ensure_eq_ok, okOr_eq_ok, mapError_eq_ok, decide_eq_true_iff, by simp⟩

/-- The same for a sequence that ends with a value or without one. -/
theorem some_iff : (∀ {α β : Type} {o : Option α} {f : α → Option β} {b : β},
      (o >>= f) = some b ↔ ∃ a, o = some a ∧ f a = some b) ∧
    (∀ {α β : Type} {o : Option α} {f : α → Option β} {b : β},
      o.bind f = some b ↔ ∃ a, o = some a ∧ f a = some b) ∧
    (∀ {ε α : Type} {x : Except ε α} {a : α}, x.toOption = some a ↔ x = .ok a) ∧
    ∀ {α : Type} {a b : α}, some a = some b ↔ a = b :=
  ⟨Option.bind_eq_some_iff, Option.bind_eq_some_iff, toOption_eq_some, Option.some_inj⟩

/-- The computation succeeds exactly if the condition holds, and then with this value. -/
def Yields (x : Except ε α) (p : Prop) (a : α) : Prop := ∀ b, x = .ok b ↔ p ∧ b = a

/-- And if the condition does not hold, the computation fails with this error. -/
def Decides (e : ε) (x : Except ε α) (p : Prop) (a : α) : Prop :=
  (p → x = .ok a) ∧ (¬ p → x = .error e)

theorem Decides.yields {p : Prop} (h : Decides e x p a) : Yields x p a := by
  intro b
  by_cases hp : p
  · rw [h.1 hp, Except.ok.injEq, and_iff_right hp, eq_comm]
  · simp [h.2 hp, hp]

theorem decides_pure : Decides e (pure a : Except ε α) True a :=
  ⟨fun _ => rfl, fun h => absurd trivial h⟩

theorem decides_ensure : Decides e (ensure c e) (c = true) () :=
  ⟨fun h => by rw [h]; rfl, fun h => by simp [ensure, h]⟩

theorem Decides.bind {p q r : Prop} (hx : Decides e x p a) (hr : r ↔ p ∧ q)
    (hf : Decides e (f a) q b) : Decides e (x >>= f) r b := by
  rw [Decides, hr]
  refine ⟨fun h => by rw [hx.1 h.1, ok_bind, hf.1 h.2], fun h => ?_⟩
  by_cases hp : p
  · rw [hx.1 hp, ok_bind, hf.2 fun hq => h ⟨hp, hq⟩]
  · rw [hx.2 hp]
    rfl

/-- A check of every member succeeds exactly when the check of each succeeds. -/
theorem forM_eq_ok {f : α → Except ε Unit} : forM l f = .ok () ↔ ∀ a ∈ l, f a = .ok () := by
  induction l with
  | nil => simp
  | cons a l ih =>
    rw [List.forM_cons, bind_eq_ok]
    constructor
    · rintro ⟨⟨⟩, ha, hl⟩ b hb
      rcases List.mem_cons.mp hb with rfl | hb
      · exact ha
      · exact ih.mp hl b hb
    · intro h
      exact ⟨(), h a List.mem_cons_self, ih.mpr (List.forall_mem_cons.mp h).2⟩

/-- A check of every member ends with the error of the first member that fails. -/
theorem forM_eq_error {f : α → Except ε Unit} {e : ε} : forM l f = .error e ↔
    ∃ front a rest, l = front ++ a :: rest ∧ (∀ b ∈ front, f b = .ok ()) ∧ f a = .error e := by
  induction l with
  | nil =>
    constructor
    · intro h
      cases h
    · rintro ⟨front, a, rest, h, -⟩
      simp at h
  | cons a l ih =>
    rw [List.forM_cons, bind_eq_error]
    constructor
    · rintro (ha | ⟨⟨⟩, ha, hl⟩)
      · exact ⟨[], a, l, rfl, by simp, ha⟩
      · obtain ⟨front, b, rest, rfl, hf, hb⟩ := ih.mp hl
        exact ⟨a :: front, b, rest, rfl, List.forall_mem_cons.mpr ⟨ha, hf⟩, hb⟩
    · rintro ⟨front, b, rest, hl, hf, hb⟩
      cases front with
      | nil =>
        obtain ⟨rfl, rfl⟩ := List.cons.inj hl
        exact .inl hb
      | cons c front =>
        obtain ⟨rfl, rfl⟩ := List.cons.inj hl
        obtain ⟨hc, hf⟩ := List.forall_mem_cons.mp hf
        exact .inr ⟨(), hc, ih.mpr ⟨front, b, rest, rfl, hf, hb⟩⟩

/-- A fallible map succeeds exactly when it succeeds on each member. -/
theorem mapM_eq_ok : l.mapM f = .ok r ↔ List.Forall₂ (fun a b => f a = .ok b) l r := by
  induction l generalizing r with
  | nil => cases r <;> simp [pure, Except.pure]
  | cons a l ih =>
    rw [List.mapM_cons, bind_eq_ok]
    constructor
    · rintro ⟨b, hb, h⟩
      rw [bind_eq_ok] at h
      obtain ⟨_, hr', h⟩ := h
      rw [pure_eq_ok] at h
      subst h
      exact .cons hb (ih.mp hr')
    · rintro (_ | ⟨hb, hr⟩)
      exact ⟨_, hb, by simp [ih.mpr hr, pure, Except.pure]⟩

/-- What each success determines is determined for the whole map. -/
theorem map_eq_map_of_mapM_eq_ok {γ : Type} {p : β → γ} {g : α → γ}
    (hf : ∀ a b, f a = .ok b → p b = g a) (h : l.mapM f = .ok r) : r.map p = l.map g := by
  induction mapM_eq_ok.mp h with
  | nil => rfl
  | cons hb hr ih => rw [List.map_cons, List.map_cons, hf _ _ hb, ih (mapM_eq_ok.mpr hr)]

/-- Where each success has one possible value, so does the whole map. -/
theorem eq_map_of_mapM_eq_ok {g : α → β} (hf : ∀ a b, f a = .ok b → b = g a)
    (h : l.mapM f = .ok r) : r = l.map g := by
  simpa using map_eq_map_of_mapM_eq_ok (p := id) hf h

/-- Every member succeeds. -/
theorem exists_ok_of_mapM_eq_ok (h : l.mapM f = .ok r) : ∀ a ∈ l, ∃ b, f a = .ok b := by
  induction mapM_eq_ok.mp h with
  | nil => simp
  | cons hb hr ih =>
    intro a ha
    rcases List.mem_cons.mp ha with rfl | ha
    · exact ⟨_, hb⟩
    · exact ih (mapM_eq_ok.mpr hr) a ha

/-- Every result comes from a member. -/
theorem exists_mem_of_mapM_eq_ok (h : l.mapM f = .ok r) : ∀ b ∈ r, ∃ a ∈ l, f a = .ok b := by
  induction mapM_eq_ok.mp h with
  | nil => simp
  | cons hb hr ih =>
    intro b hm
    rcases List.mem_cons.mp hm with rfl | hm
    · exact ⟨_, List.mem_cons_self, hb⟩
    · obtain ⟨a, ha, hab⟩ := ih (mapM_eq_ok.mpr hr) b hm
      exact ⟨a, List.mem_cons_of_mem _ ha, hab⟩

/-- What holds at the start and is kept by every successful step holds at the end of a
successful fold. -/
theorem foldlM_invariant {P : σ → Prop} {f : σ → α → Except ε σ} {s t : σ}
    (hst : ∀ s a t, a ∈ l → P s → f s a = .ok t → P t) (hs : P s) (h : l.foldlM f s = .ok t) :
    P t := by
  induction l generalizing s with
  | nil =>
    obtain rfl : s = t := by simpa using h
    exact hs
  | cons a l ih =>
    rw [List.foldlM_cons, bind_eq_ok] at h
    obtain ⟨u, hu, h⟩ := h
    exact ih (fun s b t hb => hst s b t (List.mem_cons_of_mem _ hb))
      (hst s a u List.mem_cons_self hs hu) h

end Einsatzarchiv.Lib
