import Mathlib.Data.List.Induction

/-! Runs of a partial step function. A guarded run is one whose steps all meet a condition on the
state before them. -/

namespace Run

variable {σ α : Type*} {step : σ → α → Option σ} {ok : σ → α → Prop}

def exec (step : σ → α → Option σ) : σ → List α → Option σ
  | s, [] => some s
  | s, a :: as => (step s a).bind (exec step · as)

/-- The runs from `s₀` in which every action meets `ok` in the state it is
performed in. -/
inductive Guarded (step : σ → α → Option σ) (ok : σ → α → Prop) (s₀ : σ) : List α → σ → Prop
  | nil : Guarded step ok s₀ [] s₀
  | snoc {as : List α} {a : α} {s t : σ} (h : Guarded step ok s₀ as s) (hok : ok s a)
      (hs : step s a = some t) : Guarded step ok s₀ (as ++ [a]) t

def execIf (step : σ → α → Option σ) (ok : σ → α → Prop) [∀ s a, Decidable (ok s a)] :
    σ → List α → Option σ
  | s, [] => some s
  | s, a :: as => if ok s a then (step s a).bind (execIf step ok · as) else none

theorem exec_append (s : σ) (as bs : List α) :
    exec step s (as ++ bs) = (exec step s as).bind (exec step · bs) := by
  induction as generalizing s with
  | nil => rfl
  | cons a as ih =>
    cases hs : step s a with
    | none => simp [exec, hs]
    | some t => simpa [exec, hs] using ih t

variable {s : σ} {as : List α}

theorem exec_append_of_eq {t : σ} (h : exec step s as = some t) (bs : List α) :
    exec step s (as ++ bs) = exec step t bs := by
  rw [exec_append, h, Option.bind_some]

theorem exec_snoc {t u : σ} {a : α} (h : exec step s as = some t) (hs : step t a = some u) :
    exec step s (as ++ [a]) = some u := by
  rw [exec_append_of_eq h]
  simp [exec, hs]

theorem Guarded.exec {s₀ : σ} (h : Guarded step ok s₀ as s) : exec step s₀ as = some s := by
  induction h with
  | nil => rfl
  | snoc _ _ hs ih => exact exec_snoc ih hs

theorem Guarded.of_exec {s₀ : σ} (h : Run.exec step s₀ as = some s) :
    Guarded step (fun _ _ => True) s₀ as s := by
  induction as using List.reverseRecOn generalizing s with
  | nil =>
    obtain rfl : s₀ = s := Option.some.inj h
    exact .nil
  | append_singleton as a ih =>
    rw [exec_append] at h
    obtain ⟨t, ht, hs⟩ := Option.bind_eq_some_iff.mp h
    have hs' : step t a = some s := by simpa [Run.exec] using hs
    exact .snoc (ih ht) trivial hs'

theorem Guarded.trans {s₀ t : σ} {bs : List α} (h : Guarded step ok s₀ as s)
    (h' : Guarded step ok s bs t) : Guarded step ok s₀ (as ++ bs) t := by
  induction h' with
  | nil => simpa using h
  | snoc _ hok hs ih => simpa using Guarded.snoc ih hok hs

theorem Guarded.single {t : σ} {a : α} (hok : ok s a) (hs : step s a = some t) :
    Guarded step ok s [a] t :=
  .snoc .nil hok hs

theorem Guarded.of_execIf [∀ s a, Decidable (ok s a)] {t : σ} (h : execIf step ok s as = some t) :
    Guarded step ok s as t := by
  induction as generalizing s with
  | nil =>
    obtain rfl : s = t := Option.some.inj h
    exact .nil
  | cons a as ih =>
    simp only [execIf] at h
    split_ifs at h with hok
    obtain ⟨u, hs, hu⟩ := Option.bind_eq_some_iff.mp h
    exact (Guarded.single hok hs).trans (ih hu)

theorem exists_guarded (step : σ → α → Option σ) (ok : σ → α → Prop) [∀ s a, Decidable (ok s a)]
    (s : σ) (as : List α) (h : (execIf step ok s as).isSome) :
    ∃ t, execIf step ok s as = some t ∧ Guarded step ok s as t := by
  obtain ⟨t, ht⟩ := Option.isSome_iff_exists.mp h
  exact ⟨t, ht, .of_execIf ht⟩

/-- What holds at the start and is kept by every guarded step holds in every
state a guarded run reaches. -/
theorem Guarded.invariant {s₀ : σ} (I : σ → Prop) (h₀ : I s₀)
    (hstep : ∀ s a t, I s → ok s a → step s a = some t → I t) (h : Guarded step ok s₀ as s) :
    I s := by
  induction h with
  | nil => exact h₀
  | snoc _ hok hs ih => exact hstep _ _ _ ih hok hs

theorem exec_invariant {s₀ : σ} (I : σ → Prop) (h₀ : I s₀)
    (hstep : ∀ s a t, I s → step s a = some t → I t) (h : exec step s₀ as = some s) : I s :=
  (Guarded.of_exec h).invariant I h₀ (fun s a t hi _ hs => hstep s a t hi hs)

end Run
