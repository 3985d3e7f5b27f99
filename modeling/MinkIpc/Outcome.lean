import Mathlib.Data.List.Basic

/-! Computations that pass a state along and stop at the first error, keeping the state they stopped
in. An attempt is `none` where it does not apply. -/

inductive Outcome (ε σ : Type*)
  | ok (s : σ)
  | error (e : ε) (s : σ)
  deriving DecidableEq, Repr

namespace Outcome

variable {ε σ τ α : Type*}

def bind (x : Outcome ε σ) (f : σ → Outcome ε σ) : Outcome ε σ :=
  match x with
  | ok s => f s
  | error e s => error e s

def state : Outcome ε σ → σ
  | ok s => s
  | error _ s => s

def map (f : σ → τ) : Outcome ε σ → Outcome ε τ
  | ok s => ok (f s)
  | error e s => error e (f s)

def mapError (f : ε → ε) : Outcome ε σ → Outcome ε σ
  | ok s => ok s
  | error e s => error (f e) s

def forEach (f : σ → α → Outcome ε σ) : List α → σ → Outcome ε σ
  | [], s => ok s
  | a :: as, s => (f s a).bind (forEach f as)

@[simp]
theorem ok_bind (s : σ) (f : σ → Outcome ε σ) : (ok s).bind f = f s := rfl

@[simp]
theorem error_bind (e : ε) (s : σ) (f : σ → Outcome ε σ) : (error e s).bind f = error e s := rfl

@[simp]
theorem state_map (f : σ → τ) (x : Outcome ε σ) : (x.map f).state = f x.state := by
  cases x <;> rfl

theorem bind_eq_ok {x : Outcome ε σ} {f : σ → Outcome ε σ} {t : σ} :
    x.bind f = ok t ↔ ∃ s, x = ok s ∧ f s = ok t := by
  cases x <;> simp

theorem mapError_eq_ok {f : ε → ε} {x : Outcome ε σ} {t : σ} (h : x.mapError f = ok t) :
    x = ok t := by
  cases x with
  | ok s => exact h
  | error e s => cases h

variable {f : σ → α → Outcome ε σ}

theorem forEach_cons_eq_ok {a : α} {as : List α} {s t : σ} :
    forEach f (a :: as) s = ok t ↔ ∃ u, f s a = ok u ∧ forEach f as u = ok t :=
  bind_eq_ok

theorem forEach_invariant (I : σ → Prop) (hstep : ∀ s a, I s → I (f s a).state) (as : List α)
    {s : σ} (h : I s) :
    I (forEach f as s).state := by
  induction as generalizing s with
  | nil => exact h
  | cons a as ih =>
    have ha := hstep s a h
    simp only [forEach]
    cases hf : f s a with
    | ok t =>
      rw [hf] at ha
      exact ih ha
    | error e t =>
      rw [hf] at ha
      exact ha

/-- A loop over a state with more in it runs as the loop over what is kept of that state. -/
theorem map_forEach {f' : τ → α → Outcome ε τ} {g : σ → τ} (h : ∀ s a, (f s a).map g = f' (g s) a)
    (as : List α) (s : σ) :
    (forEach f as s).map g = forEach f' as (g s) := by
  induction as generalizing s with
  | nil => rfl
  | cons a as ih =>
    have ha := h s a
    simp only [forEach]
    cases hf : f s a with
    | ok t =>
      rw [hf] at ha
      rw [← ha]
      exact ih t
    | error e t =>
      rw [hf] at ha
      rw [← ha]
      rfl

end Outcome
