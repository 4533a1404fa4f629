/-
# Computations that return, fail or panic

A function of a systems language may return a value, return an error, or abort
the process.  `Outcome ε α` keeps the three apart.  `Exec ε σ α` adds a state
that the computation mutates in place: after an error the state is whatever the
computation had written so far, there is no rollback.  A panic leaves no state.

* `Outcome.bind_eq_ok`, `Exec.bind_eq_ok` (and `_err`, `_panicked`) invert a bind;
* `Exec.Preserves` is the rule for an invariant of the successful runs;
* `Exec.Steady` is a computation that never panics, `Exec.SteadyAt` one that does not panic where a
  part of the state is as given;
* `Exec.forEach` runs a computation for every element of a list.
-/
import Mathlib.Tactic

/-! ## Outcomes -/

/-- What a computation of a systems language ends with. -/
inductive Outcome (ε α : Type) where
  | ok (value : α)
  | err (error : ε)
  | panicked
  deriving DecidableEq, Repr

namespace Outcome

variable {ε α β : Type}

instance : Monad (Outcome ε) where
  pure := Outcome.ok
  bind x f := match x with
    | ok a => f a
    | err e => err e
    | panicked => panicked

@[simp] theorem pure_eq (a : α) : (pure a : Outcome ε α) = ok a := rfl

@[simp] theorem ok_bind (a : α) (f : α → Outcome ε β) : (ok a >>= f) = f a := rfl

@[simp] theorem err_bind (e : ε) (f : α → Outcome ε β) : (err e >>= f) = err e := rfl

@[simp] theorem panic_bind (f : α → Outcome ε β) :
    ((panicked : Outcome ε α) >>= f) = panicked := rfl

/-- A bind returns a value exactly when both halves do. -/
theorem bind_eq_ok {x : Outcome ε α} {f : α → Outcome ε β} {b : β} :
    (x >>= f) = ok b ↔ ∃ a, x = ok a ∧ f a = ok b := by
  cases x <;> simp

/-- A bind fails in its first half, or in its second after the first returned. -/
theorem bind_eq_err {x : Outcome ε α} {f : α → Outcome ε β} {e : ε} :
    (x >>= f) = err e ↔ x = err e ∨ ∃ a, x = ok a ∧ f a = err e := by
  cases x <;> simp

/-- A bind panics in its first half, or in its second after the first returned. -/
theorem bind_eq_panicked {x : Outcome ε α} {f : α → Outcome ε β} :
    (x >>= f) = panicked ↔ x = panicked ∨ ∃ a, x = ok a ∧ f a = panicked := by
  cases x <;> simp

/-- Refuse with `e` unless the condition holds. -/
def ensure (c : Prop) [Decidable c] (e : ε) : Outcome ε Unit :=
  if c then ok () else err e

@[simp] theorem ensure_eq_ok {c : Prop} [Decidable c] {e : ε} {u : Unit} :
    ensure c e = ok u ↔ c := by
  unfold ensure; split <;> simp_all

@[simp] theorem ensure_eq_err {c : Prop} [Decidable c] {e e' : ε} :
    ensure c e = err e' ↔ ¬ c ∧ e = e' := by
  unfold ensure; split <;> simp_all

@[simp] theorem ensure_ne_panicked {c : Prop} [Decidable c] {e : ε} :
    ensure c e ≠ panicked := by
  unfold ensure; split <;> simp

theorem ensure_pos {c : Prop} [Decidable c] {e : ε} (h : c) : ensure c e = ok () :=
  if_pos h

theorem ensure_neg {c : Prop} [Decidable c] {e : ε} (h : ¬ c) : ensure c e = err e :=
  if_neg h

/-- The value of an option, or the error `e` when there is none. -/
def okOr (o : Option α) (e : ε) : Outcome ε α :=
  match o with
  | some a => ok a
  | none => err e

@[simp] theorem okOr_some (a : α) (e : ε) : okOr (some a) e = ok a := rfl
@[simp] theorem okOr_none (e : ε) : okOr (none : Option α) e = err e := rfl

@[simp] theorem okOr_eq_ok {o : Option α} {e : ε} {a : α} :
    okOr o e = ok a ↔ o = some a := by
  cases o <;> simp

@[simp] theorem okOr_eq_err {o : Option α} {e e' : ε} :
    okOr o e = err e' ↔ o = none ∧ e = e' := by
  cases o <;> simp

@[simp] theorem okOr_ne_panicked {o : Option α} {e : ε} : okOr o e ≠ panicked := by
  cases o <;> simp

/-- The value of an option that the code takes for granted: a plain operator
with overflow checks on, an `unwrap`, an index. -/
def plain (o : Option α) : Outcome ε α :=
  match o with
  | some a => ok a
  | none => panicked

@[simp] theorem plain_some (a : α) : (plain (some a) : Outcome ε α) = ok a := rfl
@[simp] theorem plain_none : (plain (none : Option α) : Outcome ε α) = panicked := rfl

@[simp] theorem plain_eq_ok {o : Option α} {a : α} :
    (plain o : Outcome ε α) = ok a ↔ o = some a := by
  cases o <;> simp

@[simp] theorem plain_ne_err {o : Option α} {e : ε} : (plain o : Outcome ε α) ≠ err e := by
  cases o <;> simp

@[simp] theorem plain_eq_panicked {o : Option α} :
    (plain o : Outcome ε α) = panicked ↔ o = none := by
  cases o <;> simp

/-- Replace the error, as `map_err` does. -/
def mapErr {ε' : Type} (f : ε → ε') : Outcome ε α → Outcome ε' α
  | ok a => ok a
  | err e => err (f e)
  | panicked => panicked

@[simp] theorem mapErr_eq_ok {ε' : Type} {f : ε → ε'} {x : Outcome ε α} {a : α} :
    x.mapErr f = ok a ↔ x = ok a := by
  cases x <;> simp [mapErr]

@[simp] theorem mapErr_eq_panicked {ε' : Type} {f : ε → ε'} {x : Outcome ε α} :
    x.mapErr f = panicked ↔ x = panicked := by
  cases x <;> simp [mapErr]

@[simp] theorem mapErr_eq_err {ε' : Type} {f : ε → ε'} {x : Outcome ε α} {e' : ε'} :
    x.mapErr f = err e' ↔ ∃ e, x = err e ∧ f e = e' := by
  cases x <;> simp [mapErr]

/-- Whether a value is returned and passes a test. -/
def returns (p : α → Bool) : Outcome ε α → Bool
  | ok a => p a
  | _ => false

theorem exists_of_returns {p : α → Bool} {x : Outcome ε α} (h : x.returns p = true) :
    ∃ a, x = ok a ∧ p a = true := by
  cases x with
  | ok a => exact ⟨a, rfl, h⟩
  | err e => cases h
  | panicked => cases h

/-- Whether an error is returned that passes a test. -/
def refuses (p : ε → Bool) : Outcome ε α → Bool
  | err e => p e
  | _ => false

theorem exists_of_refuses {p : ε → Bool} {x : Outcome ε α} (h : x.refuses p = true) :
    ∃ e, x = err e ∧ p e = true := by
  cases x with
  | ok a => cases h
  | err e => exact ⟨e, rfl, h⟩
  | panicked => cases h

end Outcome

/-! ## Computations on a state -/

/-- A computation that mutates a state in place.  An error carries the state it
leaves behind. -/
def Exec (ε σ α : Type) := σ → Outcome (ε × σ) (α × σ)

namespace Exec

open Outcome

variable {ε σ α β : Type}

instance : Monad (Exec ε σ) where
  pure a := fun s => ok (a, s)
  bind x f := fun s => match x s with
    | ok (a, s') => f a s'
    | err e => err e
    | panicked => panicked

@[simp] theorem pure_apply (a : α) (s : σ) : (pure a : Exec ε σ α) s = ok (a, s) := rfl

theorem bind_apply (x : Exec ε σ α) (f : α → Exec ε σ β) (s : σ) :
    (x >>= f) s = match x s with
      | ok (a, s') => f a s'
      | err e => err e
      | panicked => panicked := rfl

/-- After a step that returned, a bind is its continuation. -/
theorem bind_of_ok {x : Exec ε σ α} {f : α → Exec ε σ β} {s s' : σ} {a : α}
    (h : x s = ok (a, s')) : (x >>= f) s = f a s' := by
  rw [bind_apply, h]

/-- After a step that failed, a bind has failed with the same state. -/
theorem bind_of_err {x : Exec ε σ α} {f : α → Exec ε σ β} {s : σ} {e : ε × σ}
    (h : x s = err e) : (x >>= f) s = err e := by
  rw [bind_apply, h]

theorem bind_of_panicked {x : Exec ε σ α} {f : α → Exec ε σ β} {s : σ}
    (h : x s = panicked) : (x >>= f) s = panicked := by
  rw [bind_apply, h]

theorem bind_assoc {γ : Type} (x : Exec ε σ α) (f : α → Exec ε σ β) (g : β → Exec ε σ γ) :
    (x >>= f) >>= g = x >>= fun a => f a >>= g := by
  funext s
  simp only [bind_apply]
  cases x s <;> rfl

/-- A bind returns exactly when both halves do. -/
theorem bind_eq_ok {x : Exec ε σ α} {f : α → Exec ε σ β} {s s'' : σ} {b : β} :
    (x >>= f) s = ok (b, s'') ↔ ∃ a s', x s = ok (a, s') ∧ f a s' = ok (b, s'') := by
  rw [bind_apply]
  rcases x s with ⟨a, s'⟩ | e | _ <;> simp

/-- A bind fails in its first half, or in its second after the first returned. -/
theorem bind_eq_err {x : Exec ε σ α} {f : α → Exec ε σ β} {s : σ} {e : ε × σ} :
    (x >>= f) s = err e ↔
      x s = err e ∨ ∃ a s', x s = ok (a, s') ∧ f a s' = err e := by
  rw [bind_apply]
  rcases x s with ⟨a, s'⟩ | e | _ <;> simp

/-- A bind panics in its first half, or in its second after the first returned. -/
theorem bind_eq_panicked {x : Exec ε σ α} {f : α → Exec ε σ β} {s : σ} :
    (x >>= f) s = panicked ↔
      x s = panicked ∨ ∃ a s', x s = ok (a, s') ∧ f a s' = panicked := by
  rw [bind_apply]
  rcases x s with ⟨a, s'⟩ | e | _ <;> simp

/-- Compute from the state without changing it. -/
def read (f : σ → Outcome ε α) : Exec ε σ α := fun s =>
  match f s with
  | ok a => ok (a, s)
  | err e => err (e, s)
  | panicked => panicked

@[simp] theorem read_eq_ok {f : σ → Outcome ε α} {s s' : σ} {a : α} :
    read f s = ok (a, s') ↔ f s = ok a ∧ s = s' := by
  unfold read; cases f s <;> simp

@[simp] theorem read_eq_err {f : σ → Outcome ε α} {s s' : σ} {e : ε} :
    read f s = err (e, s') ↔ f s = err e ∧ s = s' := by
  unfold read; cases f s <;> simp

@[simp] theorem read_eq_panicked {f : σ → Outcome ε α} {s : σ} :
    read f s = panicked ↔ f s = panicked := by
  unfold read; cases f s <;> simp

/-- Reading a value that is there is plain function application. -/
theorem read_ok_bind (f : σ → α) (g : α → Exec ε σ β) (s : σ) :
    ((read fun s => ok (f s)) >>= g) s = g (f s) s := rfl

/-- Overwrite the state by a function of it. -/
def modify (f : σ → σ) : Exec ε σ Unit := fun s => ok ((), f s)

@[simp] theorem modify_apply (f : σ → σ) (s : σ) :
    (modify f : Exec ε σ Unit) s = ok ((), f s) := rfl

/-- Overwrite the state by a function of it that may fail or panic, in which
case nothing is written. -/
def update (f : σ → Outcome ε σ) : Exec ε σ Unit := fun s =>
  match f s with
  | ok s' => ok ((), s')
  | err e => err (e, s)
  | panicked => panicked

@[simp] theorem update_eq_ok {f : σ → Outcome ε σ} {s s' : σ} {u : Unit} :
    update f s = ok (u, s') ↔ f s = ok s' := by
  unfold update; cases f s <;> simp

@[simp] theorem update_eq_err {f : σ → Outcome ε σ} {s s' : σ} {e : ε} :
    update f s = err (e, s') ↔ f s = err e ∧ s = s' := by
  unfold update; cases f s <;> simp

@[simp] theorem update_eq_panicked {f : σ → Outcome ε σ} {s : σ} :
    update f s = panicked ↔ f s = panicked := by
  unfold update; cases f s <;> simp

/-- Compute a value and the state to write with it; on failure nothing is written. -/
def readWrite (f : σ → Outcome ε (α × σ)) : Exec ε σ α := fun s =>
  match f s with
  | ok r => ok r
  | err e => err (e, s)
  | panicked => panicked

@[simp] theorem readWrite_eq_ok {f : σ → Outcome ε (α × σ)} {s s' : σ} {a : α} :
    readWrite f s = ok (a, s') ↔ f s = ok (a, s') := by
  unfold readWrite; cases f s <;> simp

/-- The final state of a run, or its error without the state it left. -/
def finalState (x : Exec ε σ Unit) (s : σ) : Outcome ε σ :=
  match x s with
  | ok r => ok r.2
  | err e => err e.1
  | panicked => panicked

@[simp] theorem finalState_eq_ok {x : Exec ε σ Unit} {s s' : σ} :
    finalState x s = ok s' ↔ x s = ok ((), s') := by
  unfold finalState
  rcases x s with ⟨_, t⟩ | e | _ <;> simp

@[simp] theorem finalState_eq_panicked {x : Exec ε σ Unit} {s : σ} :
    finalState x s = panicked ↔ x s = panicked := by
  unfold finalState; cases x s <;> simp

/-- Run a computation and discard its error, as `let _ = x` does.  What it had
written before failing stays. -/
def attempt (x : Exec ε σ Unit) : Exec ε σ Unit := fun s =>
  match x s with
  | ok r => ok r
  | err e => ok ((), e.2)
  | panicked => panicked

theorem attempt_of_ok {x : Exec ε σ Unit} {s : σ} {r : Unit × σ} (h : x s = ok r) :
    attempt x s = ok r := by
  rw [attempt, h]

theorem attempt_of_err {x : Exec ε σ Unit} {s s' : σ} {e : ε} (h : x s = err (e, s')) :
    attempt x s = ok ((), s') := by
  rw [attempt, h]

/-- What an attempt leaves was left by a return or by a failure. -/
theorem attempt_ok {x : Exec ε σ Unit} {s s' : σ} {u : Unit} (h : attempt x s = ok (u, s')) :
    x s = ok ((), s') ∨ ∃ e, x s = err (e, s') := by
  unfold attempt at h
  cases hx : x s with
  | ok r =>
    rw [hx, ok.injEq] at h
    exact Or.inl (by rw [h])
  | err r =>
    rw [hx, ok.injEq, Prod.mk.injEq] at h
    exact Or.inr ⟨r.1, by rw [← h.2]⟩
  | panicked =>
    rw [hx] at h
    cases h

@[simp] theorem attempt_eq_panicked {x : Exec ε σ Unit} {s : σ} :
    attempt x s = panicked ↔ x s = panicked := by
  unfold attempt; cases x s <;> simp

/-- Run a computation for every element of a list, in order. -/
def forEach (f : β → Exec ε σ Unit) : List β → Exec ε σ Unit
  | [] => pure ()
  | b :: rest => do f b; forEach f rest

@[simp] theorem forEach_nil (f : β → Exec ε σ Unit) (s : σ) :
    forEach f [] s = ok ((), s) := rfl

theorem forEach_cons (f : β → Exec ε σ Unit) (b : β) (rest : List β) :
    forEach f (b :: rest) = (f b >>= fun _ => forEach f rest) := rfl

/-! ## Failing, and what stays -/

/-- The computation ends with an error. -/
def Fails (x : Exec ε σ α) (s : σ) : Prop := ∃ r, x s = err r

/-- A computation that neither returns nor aborts fails. -/
theorem fails_of_not {x : Exec ε σ α} {s : σ} (hok : ∀ a s', x s ≠ ok (a, s'))
    (hpanic : x s ≠ panicked) : x.Fails s := by
  cases h : x s with
  | ok r => exact absurd h (hok r.1 r.2)
  | err r => exact ⟨r, h⟩
  | panicked => exact absurd h hpanic

@[simp] theorem pure_fails (a : α) (s : σ) : ¬ (pure a : Exec ε σ α).Fails s := by
  rintro ⟨r, h⟩
  cases h

@[simp] theorem modify_fails (f : σ → σ) (s : σ) : ¬ (modify f : Exec ε σ Unit).Fails s := by
  rintro ⟨r, h⟩
  cases h

theorem read_fails {f : σ → Outcome ε α} {s : σ} : (read f).Fails s ↔ ∃ e, f s = err e := by
  simp [Fails, Prod.exists]

theorem update_fails {f : σ → Outcome ε σ} {s : σ} :
    (update f).Fails s ↔ ∃ e, f s = err e := by
  simp [Fails, Prod.exists]

/-- A bind fails in its first half, or in its second after the first returned. -/
theorem bind_fails {x : Exec ε σ α} {f : α → Exec ε σ β} {s : σ} :
    (x >>= f).Fails s ↔ x.Fails s ∨ ∃ a s', x s = ok (a, s') ∧ (f a).Fails s' := by
  constructor
  · rintro ⟨r, h⟩
    rcases bind_eq_err.mp h with h | ⟨a, s', h₁, h₂⟩
    · exact Or.inl ⟨r, h⟩
    · exact Or.inr ⟨a, s', h₁, r, h₂⟩
  · rintro (⟨r, h⟩ | ⟨a, s', h₁, r, h₂⟩)
    · exact ⟨r, bind_of_err h⟩
    · exact ⟨r, by rw [bind_of_ok h₁, h₂]⟩

/-- After a step that returns, a bind fails when its continuation does. -/
theorem bind_fails_of_ok {x : Exec ε σ α} {f : α → Exec ε σ β} {s s' : σ} {a : α}
    (h : x s = ok (a, s')) : (x >>= f).Fails s ↔ (f a).Fails s' := by
  rw [Fails, bind_of_ok h, Fails]

/-- A step that either fails, exactly when `c` holds, or returns: the continuation matters
only when it returns. -/
theorem bind_fails_iff {x : Exec ε σ α} {f : α → Exec ε σ β} {s s' : σ} {a : α} {c : Prop}
    (hfail : x.Fails s ↔ c) (hok : ¬ c → x s = ok (a, s')) :
    (x >>= f).Fails s ↔ c ∨ (f a).Fails s' := by
  by_cases hc : c
  · exact ⟨fun _ => Or.inl hc, fun _ => bind_fails.mpr (Or.inl (hfail.mpr hc))⟩
  · rw [bind_fails_of_ok (hok hc), or_iff_right hc]

theorem modify_bind_fails {f : σ → σ} {k : Unit → Exec ε σ β} {s : σ} :
    (modify f >>= k).Fails s ↔ (k ()).Fails (f s) :=
  bind_fails_of_ok rfl

theorem read_ok_bind_fails {f : σ → α} {k : α → Exec ε σ β} {s : σ} :
    ((read fun s => ok (f s)) >>= k).Fails s ↔ (k (f s)).Fails s :=
  bind_fails_of_ok rfl

/-- The computation fails at no state. -/
def Infallible (x : Exec ε σ α) : Prop := ∀ s, ¬ x.Fails s

theorem Infallible.bind {x : Exec ε σ α} {f : α → Exec ε σ β} (hx : Infallible x)
    (hf : ∀ a, Infallible (f a)) : Infallible (x >>= f) := by
  intro s h
  rcases bind_fails.mp h with h | ⟨a, s', -, h⟩
  · exact hx s h
  · exact hf a s' h

theorem Infallible.modify (f : σ → σ) : Infallible (modify f : Exec ε σ Unit) := modify_fails f

theorem Infallible.read {f : σ → Outcome ε α} (h : ∀ s e, f s ≠ err e) : Infallible (read f) := by
  intro s hs
  obtain ⟨e, he⟩ := read_fails.mp hs
  exact h s e he

theorem Infallible.update {f : σ → Outcome ε σ} (h : ∀ s e, f s ≠ err e) :
    Infallible (update f) := by
  intro s hs
  obtain ⟨e, he⟩ := update_fails.mp hs
  exact h s e he

/-- Before a continuation that cannot fail, only the first half fails. -/
theorem bind_infallible_fails {x : Exec ε σ α} {f : α → Exec ε σ β} {s : σ}
    (hf : ∀ a, Infallible (f a)) : (x >>= f).Fails s ↔ x.Fails s := by
  rw [bind_fails]
  refine or_iff_left ?_
  rintro ⟨a, s', -, h⟩
  exact hf a s' h

/-- A first half that always returns or fails, and a second that fails when `c` holds. -/
theorem bind_fails_of_returns {x : Exec ε σ α} {f : α → Exec ε σ β} {s : σ} {c : Prop}
    (hp : x s ≠ panicked) (hf : ∀ a s', x s = ok (a, s') → ((f a).Fails s' ↔ c)) :
    (x >>= f).Fails s ↔ x.Fails s ∨ c := by
  rw [bind_fails]
  cases h : x s with
  | ok r =>
    obtain ⟨a, s'⟩ := r
    refine or_congr Iff.rfl ⟨?_, fun hc => ⟨a, s', rfl, (hf a s' h).mpr hc⟩⟩
    rintro ⟨b, t, ht, hb⟩
    cases ht
    exact (hf a s' h).mp hb
  | err r =>
    have hfail : x.Fails s := ⟨r, h⟩
    exact iff_of_true (Or.inl hfail) (Or.inl hfail)
  | panicked => exact absurd h hp

/-- A failing computation leaves the state as it was. -/
def AtomicAt (x : Exec ε σ α) (s : σ) : Prop := ∀ e s', x s = err (e, s') → s' = s

theorem AtomicAt.of_not_fails {x : Exec ε σ α} {s : σ} (h : ¬ x.Fails s) : AtomicAt x s :=
  fun _ _ hs => absurd ⟨_, hs⟩ h

/-- When only the first half can fail, it decides. -/
theorem AtomicAt.bind_infallible {x : Exec ε σ α} {f : α → Exec ε σ β} {s : σ}
    (hx : AtomicAt x s) (hf : ∀ a, Infallible (f a)) : AtomicAt (x >>= f) s := by
  intro e t h
  rcases bind_eq_err.mp h with h | ⟨a, t', -, h⟩
  · exact hx e t h
  · exact absurd ⟨_, h⟩ (hf a t')

/-- After a test that only reads, atomicity is that of what follows a passed test. -/
theorem read_bind_atomic_iff {f : σ → Outcome ε α} {k : α → Exec ε σ β} {s : σ} :
    AtomicAt (read f >>= k) s ↔ ∀ a, f s = ok a → AtomicAt (k a) s := by
  constructor
  · intro h a ha e s' hs
    exact h e s' (by rw [bind_of_ok (read_eq_ok.mpr ⟨ha, rfl⟩)]; exact hs)
  · intro h e s' hs
    rcases bind_eq_err.mp hs with hs | ⟨a, t, ht, hs⟩
    · exact (read_eq_err.mp hs).2.symm
    · obtain ⟨ha, rfl⟩ := read_eq_ok.mp ht
      exact h a ha e s' hs

/-- However the computation ends, `f` of the state stays. -/
def Leaves {γ : Type} (f : σ → γ) (x : Exec ε σ α) : Prop :=
  ∀ s, (∀ a s', x s = ok (a, s') → f s' = f s) ∧ ∀ e s', x s = err (e, s') → f s' = f s

theorem Leaves.bind {γ : Type} {g : σ → γ} {x : Exec ε σ α} {f : α → Exec ε σ β}
    (hx : Leaves g x) (hf : ∀ a, Leaves g (f a)) : Leaves g (x >>= f) := by
  refine fun s => ⟨fun b s'' h => ?_, fun e s'' h => ?_⟩
  · obtain ⟨a, s', h₁, h₂⟩ := bind_eq_ok.mp h
    rw [(hf a s').1 b s'' h₂, (hx s).1 a s' h₁]
  · rcases bind_eq_err.mp h with h | ⟨a, s', h₁, h₂⟩
    · exact (hx s).2 e s'' h
    · rw [(hf a s').2 e s'' h₂, (hx s).1 a s' h₁]

/-- Continuations that agree wherever a step may leave the state make equal binds. -/
theorem bind_congr {x : Exec ε σ α} {f f' : α → Exec ε σ β} {s : σ}
    (h : ∀ a s', x s = ok (a, s') → f a s' = f' a s') : (x >>= f) s = (x >>= f') s := by
  cases hx : x s with
  | ok r => rw [bind_of_ok hx, bind_of_ok hx, h r.1 r.2 hx]
  | err r => rw [bind_of_err hx, bind_of_err hx]
  | panicked => rw [bind_of_panicked hx, bind_of_panicked hx]

/-- Steps that agree on a state make equal binds there. -/
theorem bind_congr_left {x y : Exec ε σ α} {s : σ} (h : x s = y s) (f : α → Exec ε σ β) :
    (x >>= f) s = (y >>= f) s := by
  rw [bind_apply, bind_apply, h]

/-- Continuations need only agree where `g` is left alone, when the step leaves it. -/
theorem Leaves.bind_congr {γ : Type} {g : σ → γ} {x : Exec ε σ α} {f f' : α → Exec ε σ β} {s : σ}
    (hx : Leaves g x) (h : ∀ a s', g s' = g s → f a s' = f' a s') :
    (x >>= f) s = (x >>= f') s :=
  Exec.bind_congr fun a s' hs => h a s' ((hx s).1 a s' hs)

theorem Leaves.read {γ : Type} (g : σ → γ) (f : σ → Outcome ε α) : Leaves g (read f) := by
  refine fun s => ⟨fun a s' h => ?_, fun e s' h => ?_⟩
  · rw [(read_eq_ok.mp h).2]
  · rw [(read_eq_err.mp h).2]

theorem Leaves.modify {γ : Type} {g : σ → γ} {f : σ → σ} (h : ∀ s, g (f s) = g s) :
    Leaves g (modify f : Exec ε σ Unit) := by
  refine fun s => ⟨fun a s' hs => ?_, fun e s' hs => ?_⟩
  · rw [modify_apply, ok.injEq, Prod.mk.injEq] at hs
    rw [← hs.2, h]
  · cases hs

theorem Leaves.update {γ : Type} {g : σ → γ} {f : σ → Outcome ε σ}
    (h : ∀ s s', f s = ok s' → g s' = g s) : Leaves g (update f) := by
  refine fun s => ⟨fun a s' hs => h s s' (update_eq_ok.mp hs), fun e s' hs => ?_⟩
  rw [(update_eq_err.mp hs).2]

theorem Leaves.readWrite {γ : Type} {g : σ → γ} {f : σ → Outcome ε (α × σ)}
    (h : ∀ s a s', f s = ok (a, s') → g s' = g s) : Leaves g (readWrite f) := by
  refine fun s => ⟨fun a s' hs => h s a s' (readWrite_eq_ok.mp hs), fun e s' hs => ?_⟩
  unfold Exec.readWrite at hs
  cases hf : f s with
  | ok r => rw [hf] at hs; cases hs
  | err e => rw [hf] at hs; cases hs; rfl
  | panicked => rw [hf] at hs; cases hs

theorem Leaves.pure {γ : Type} (g : σ → γ) (a : α) : Leaves g (Pure.pure a : Exec ε σ α) := by
  refine fun s => ⟨fun b s' h => ?_, fun e s' h => ?_⟩
  · rw [pure_apply, ok.injEq, Prod.mk.injEq] at h
    rw [← h.2]
  · cases h

theorem Leaves.attempt {γ : Type} {g : σ → γ} {x : Exec ε σ Unit} (hx : Leaves g x) :
    Leaves g (attempt x) := by
  refine fun s => ⟨fun a s' h => ?_, fun e s' h => ?_⟩
  · unfold Exec.attempt at h
    cases hs : x s with
    | ok r => rw [hs] at h; cases h; exact (hx s).1 _ _ hs
    | err e => rw [hs] at h; cases h; exact (hx s).2 _ _ hs
    | panicked => rw [hs] at h; cases h
  · unfold Exec.attempt at h
    cases hs : x s <;> rw [hs] at h <;> cases h

theorem Leaves.forEach {γ : Type} {g : σ → γ} {f : β → Exec ε σ Unit} (hf : ∀ b, Leaves g (f b))
    (l : List β) : Leaves g (forEach f l) := by
  induction l with
  | nil => exact Leaves.pure g ()
  | cons b rest ih =>
    rw [forEach_cons]
    exact (hf b).bind fun _ => ih

/-! ## Invariants of successful runs -/

/-- Whenever the computation returns, it keeps `P`. -/
def Preserves (P : σ → Prop) (x : Exec ε σ α) : Prop :=
  ∀ s a s', P s → x s = ok (a, s') → P s'

theorem Preserves.bind {P : σ → Prop} {x : Exec ε σ α} {f : α → Exec ε σ β}
    (hx : Preserves P x) (hf : ∀ a, Preserves P (f a)) : Preserves P (x >>= f) := by
  intro s b s'' hs h
  obtain ⟨a, s', h₁, h₂⟩ := bind_eq_ok.mp h
  exact hf a s' b s'' (hx s a s' hs h₁) h₂

theorem Preserves.pure {P : σ → Prop} (a : α) : Preserves P (Pure.pure a : Exec ε σ α) := by
  intro s b s' hs h
  rw [pure_apply, ok.injEq, Prod.mk.injEq] at h
  exact h.2 ▸ hs

theorem Preserves.read {P : σ → Prop} (f : σ → Outcome ε α) : Preserves P (read f) := by
  intro s a s' hs h
  exact (read_eq_ok.mp h).2 ▸ hs

theorem Preserves.modify {P : σ → Prop} {f : σ → σ} (h : ∀ s, P s → P (f s)) :
    Preserves P (modify f : Exec ε σ Unit) := by
  intro s a s' hs hm
  rw [modify_apply, ok.injEq, Prod.mk.injEq] at hm
  exact hm.2 ▸ h s hs

theorem Preserves.update {P : σ → Prop} {f : σ → Outcome ε σ}
    (h : ∀ s s', P s → f s = ok s' → P s') : Preserves P (update f) :=
  fun s _ s' hs hu => h s s' hs (update_eq_ok.mp hu)

theorem Preserves.readWrite {P : σ → Prop} {f : σ → Outcome ε (α × σ)}
    (h : ∀ s a s', P s → f s = ok (a, s') → P s') : Preserves P (readWrite f) :=
  fun s a s' hs hr => h s a s' hs (readWrite_eq_ok.mp hr)

/-- What is left alone keeps its properties. -/
theorem Leaves.preserves {γ : Type} {g : σ → γ} {x : Exec ε σ α} (h : Leaves g x)
    (Q : γ → Prop) : Preserves (fun s => Q (g s)) x := by
  intro s a s' hs hx
  change Q (g s')
  rw [(h s).1 a s' hx]
  exact hs

theorem Preserves.forEach {P : σ → Prop} {f : β → Exec ε σ Unit} {l : List β}
    (hf : ∀ b ∈ l, Preserves P (f b)) : Preserves P (forEach f l) := by
  induction l with
  | nil =>
    intro s a s' hs h
    simp only [forEach_nil, ok.injEq, Prod.mk.injEq] at h
    exact h.2 ▸ hs
  | cons b rest ih =>
    rw [forEach_cons]
    exact (hf b List.mem_cons_self).bind
      (fun _ => ih (fun b' hb' => hf b' (List.mem_cons_of_mem b hb')))

/-- A loop over distinct elements, each of which sees to its own view of the state. -/
theorem forEach_views {γ : Type} {view : σ → β → γ} {R : γ → γ → Prop} {f : β → Exec ε σ Unit}
    {l : List β} (hnd : l.Nodup) (hstep : ∀ b ∈ l, ∀ t t', f b t = ok ((), t') →
      R (view t b) (view t' b) ∧ ∀ x, b ≠ x → view t' x = view t x) :
    ∀ {s s' : σ}, forEach f l s = ok ((), s') → ∀ a,
      (a ∈ l → R (view s a) (view s' a)) ∧ (a ∉ l → view s' a = view s a) := by
  induction l with
  | nil =>
    intro s s' h a
    rw [forEach_nil, ok.injEq, Prod.mk.injEq] at h
    rw [← h.2]
    exact ⟨fun ha => absurd ha List.not_mem_nil, fun _ => rfl⟩
  | cons b rest ih =>
    intro s s' h a
    obtain ⟨hb, hrest⟩ := List.nodup_cons.mp hnd
    rw [forEach_cons] at h
    obtain ⟨_, t, h₁, h₂⟩ := Exec.bind_eq_ok.mp h
    obtain ⟨hown, hothers⟩ := hstep b List.mem_cons_self s t h₁
    obtain ⟨hin, hout⟩ := ih hrest (fun c hc => hstep c (List.mem_cons_of_mem b hc)) h₂ a
    by_cases heq : b = a
    · -- the head is seen to now, and not again
      subst heq
      refine ⟨fun _ => ?_, fun hnot => absurd List.mem_cons_self hnot⟩
      rw [hout hb]
      exact hown
    · rw [← hothers a heq]
      exact ⟨fun ha => hin ((List.mem_cons.mp ha).resolve_left (Ne.symm heq)),
        fun ha => hout fun hmem => ha (List.mem_cons_of_mem b hmem)⟩

/-- Under `P`, the computation never panics and never fails, and it keeps `P`. -/
def Total (P : σ → Prop) (x : Exec ε σ α) : Prop :=
  ∀ s, P s → ∃ a s', x s = ok (a, s') ∧ P s'

theorem Total.bind {P : σ → Prop} {x : Exec ε σ α} {f : α → Exec ε σ β}
    (hx : Total P x) (hf : ∀ a, Total P (f a)) : Total P (x >>= f) := by
  intro s hs
  obtain ⟨a, s₁, h₁, hs₁⟩ := hx s hs
  obtain ⟨b, s₂, h₂, hs₂⟩ := hf a s₁ hs₁
  exact ⟨b, s₂, by rw [bind_of_ok h₁, h₂], hs₂⟩

theorem Total.forEach {P : σ → Prop} {f : β → Exec ε σ Unit} {l : List β}
    (hf : ∀ b ∈ l, Total P (f b)) : Total P (forEach f l) := by
  induction l with
  | nil => exact fun s hs => ⟨(), s, rfl, hs⟩
  | cons b rest ih =>
    intro s hs
    obtain ⟨_, s₁, h₁, hs₁⟩ := hf b List.mem_cons_self s hs
    obtain ⟨_, s₂, h₂, hs₂⟩ := ih (fun b' hb' => hf b' (List.mem_cons_of_mem b hb')) s₁ hs₁
    exact ⟨(), s₂, by rw [forEach_cons, bind_of_ok h₁, h₂], hs₂⟩

/-- Loops whose bodies agree wherever the invariant holds agree. -/
theorem forEach_congr {P : σ → Prop} {f g : β → Exec ε σ Unit} {l : List β}
    (hp : ∀ b ∈ l, Preserves P (f b)) (hfg : ∀ b ∈ l, ∀ s, P s → f b s = g b s) :
    ∀ s, P s → forEach f l s = forEach g l s := by
  induction l with
  | nil => exact fun _ _ => rfl
  | cons b rest ih =>
    intro s hs
    rw [forEach_cons, forEach_cons, bind_apply, bind_apply, ← hfg b List.mem_cons_self s hs]
    cases h : f b s with
    | ok r =>
      exact ih (fun b' hb' => hp b' (List.mem_cons_of_mem b hb'))
        (fun b' hb' => hfg b' (List.mem_cons_of_mem b hb')) r.2
        (hp b List.mem_cons_self s r.1 r.2 hs h)
    | err e => rfl
    | panicked => rfl

/-! ## Aborting -/

/-- The computation aborts at no state. -/
def Steady (x : Exec ε σ α) : Prop := ∀ s, x s ≠ panicked

theorem Steady.bind {x : Exec ε σ α} {f : α → Exec ε σ β} (hx : Steady x)
    (hf : ∀ a, Steady (f a)) : Steady (x >>= f) := by
  intro s h
  rcases bind_eq_panicked.mp h with h | ⟨a, s', -, h⟩
  · exact hx s h
  · exact hf a s' h

theorem Steady.modify (f : σ → σ) : Steady (modify f : Exec ε σ Unit) := nofun

theorem Steady.read {f : σ → Outcome ε α} (h : ∀ s, f s ≠ panicked) : Steady (read f) :=
  fun s hs => h s (read_eq_panicked.mp hs)

theorem Steady.update {f : σ → Outcome ε σ} (h : ∀ s, f s ≠ panicked) : Steady (update f) :=
  fun s hs => h s (update_eq_panicked.mp hs)

/-- The computation aborts at no state of which `g` reads `v`. -/
def SteadyAt {γ : Type} (g : σ → γ) (v : γ) (x : Exec ε σ α) : Prop := ∀ s, g s = v → x s ≠ panicked

/-- A steady step that leaves the reading alone in front of a computation. -/
theorem SteadyAt.bind {γ : Type} {g : σ → γ} {v : γ} {x : Exec ε σ α} {f : α → Exec ε σ β}
    (hl : Leaves g x) (hx : Steady x) (hf : ∀ a, SteadyAt g v (f a)) : SteadyAt g v (x >>= f) := by
  intro s hs h
  rcases bind_eq_panicked.mp h with h | ⟨a, s', hok, h⟩
  · exact hx s h
  · exact hf a s' (((hl s).1 a s' hok).trans hs) h

end Exec
