import MinkIpc.Run
import Mathlib.Data.List.Nodup

/-! The waits on one listener. Calls of `CListenerCBO_wait` are numbered in the order in which
they start to wait; what is done under `wait_mutex` is one step. -/

namespace MinkIpc.ListenerQueue

open List

/-- `finished` requests have yet to signal and `looked` calls have found the listener busy. A call
without memory leaves the mutex locked. `blocked` are the calls in `pthread_cond_timedwait`, and
`waiting` those of them that have not been signalled, which the code does not keep. -/
structure State where
  listenerBusy : Bool := false
  finished : Nat := 0
  looked : Nat := 0
  waitMutex : Bool := false
  started : Nat := 0
  listWaitCond : List Nat := []
  blocked : List Nat := []
  waiting : List Nat := []

inductive Act
  | request
  | finish
  | signal
  | look
  | wait (alloc : Bool)
  | wake (t : Nat)
  | timeout (t : Nat)

def signalWaitingListener (s : State) : State :=
  s.listWaitCond.getLast?.elim s fun t =>
    { s with listWaitCond := s.listWaitCond.dropLast, waiting := s.waiting.erase t }

def wait (s : State) (alloc : Bool) : State :=
  if alloc then
    { s with
      started := s.started + 1
      listWaitCond := s.listWaitCond ++ [s.started]
      blocked := s.blocked ++ [s.started]
      waiting := s.waiting ++ [s.started] }
  else { s with waitMutex := true }

def timeout (s : State) (t : Nat) : State :=
  { s with
    listWaitCond := s.listWaitCond.dropLast
    blocked := s.blocked.erase t
    waiting := s.waiting.erase t }

def step (s : State) : Act → Option State
  | .request => some { s with listenerBusy := true }
  | .finish =>
    if s.listenerBusy then some { s with listenerBusy := false, finished := s.finished + 1 }
    else none
  | .signal =>
    if s.finished = 0 ∨ s.waitMutex then none
    else some (signalWaitingListener { s with finished := s.finished - 1 })
  | .look => some { s with looked := s.looked + s.listenerBusy.toNat }
  | .wait alloc =>
    if s.looked = 0 ∨ s.waitMutex then none
    else some (wait { s with looked := s.looked - 1 } alloc)
  | .wake t =>
    if t ∉ s.blocked ∨ t ∈ s.waiting ∨ s.waitMutex then none
    else some { s with blocked := s.blocked.erase t }
  | .timeout t => if t ∉ s.blocked ∨ s.waitMutex then none else some (timeout s t)

structure Exact (s : State) (a : Act) (s' : State) : Prop where
  listed : s'.listWaitCond = s'.waiting
  own : ∀ t, a = .timeout t → s'.listWaitCond = s.listWaitCond.erase t
  ordered : a = .signal → s'.waiting = s.waiting.tail

/-- The end of the list, where entries are taken from, is the right one. -/
def AtEnd (s : State) : Act → Prop
  | .signal => s.waiting.length ≤ 1
  | .timeout t => ∀ u ∈ s.waiting.getLast?, u = t
  | _ => True

instance (s : State) : (a : Act) → Decidable (AtEnd s a)
  | .signal => Nat.decLe _ _
  | .timeout t => inferInstanceAs (Decidable (∀ u ∈ s.waiting.getLast?, u = t))
  | .request | .finish | .look | .wait _ | .wake _ => .isTrue trivial

structure Queue (s : State) : Prop where
  listed : s.listWaitCond = s.waiting
  nodup : s.waiting.Nodup
  bound : ∀ t ∈ s.waiting, t < s.started

variable {s s' : State} {a : Act}

theorem dropLast_eq_erase_iff {l : List Nat} (h : l.Nodup) {t : Nat} :
    l.dropLast = l.erase t ↔ ∀ u ∈ l.getLast?, u = t := by
  induction l using reverseRecOn with
  | nil => simp
  | append_singleton l x =>
    have hx : x ∉ l := fun hm => (nodup_append.mp h).2.2 x hm x (mem_singleton.mpr rfl) rfl
    rw [dropLast_concat, getLast?_concat]
    constructor
    · rintro he u ⟨⟩
      by_contra hne
      exact hx (he ▸ (mem_erase_of_ne hne).mpr (by simp))
    · intro he
      rw [← he x rfl, erase_append_right _ hx, erase_cons_head, append_nil]

theorem dropLast_eq_tail_iff {l : List Nat} (h : l.Nodup) : l.dropLast = l.tail ↔ l.length ≤ 1 := by
  match l with
  | [] | [x] => simp
  | x :: y :: l =>
    refine iff_of_false (fun he => ?_) (by simp)
    have hx : x ∈ (x :: y :: l).tail := he ▸ mem_cons_self ..
    exact (nodup_cons.mp h).1 hx

theorem Queue.step_spec (h : Queue s) (hs : step s a = some s') :
    (Exact s a s' ↔ AtEnd s a) ∧ s'.waiting.Nodup ∧ ∀ t ∈ s'.waiting, t < s'.started := by
  obtain ⟨hlisted, hnodup, hbound⟩ := h
  have herase : ∀ t, (s.waiting.erase t).Nodup ∧ ∀ u ∈ s.waiting.erase t, u < s.started :=
    fun t => ⟨hnodup.erase t, fun u hu => hbound u (mem_of_mem_erase hu)⟩
  cases a with
  | signal =>
    simp only [step, Option.ite_none_left_eq_some, Option.some.injEq] at hs
    obtain ⟨-, rfl⟩ := hs
    unfold signalWaitingListener
    rw [hlisted]
    cases hl : s.waiting.getLast? with
    | none =>
      have hnil := getLast?_eq_none_iff.mp hl
      exact ⟨iff_of_true ⟨rfl, by simp, by simp [hnil]⟩ (by simp [AtEnd, hnil]), hnodup, hbound⟩
    | some x =>
      have hx : s.waiting.dropLast = s.waiting.erase x :=
        (dropLast_eq_erase_iff hnodup).mpr (by simp [hl])
      refine ⟨⟨fun he => ?_, fun hle => ⟨hx, by simp, fun _ => ?_⟩⟩, herase x⟩
      · exact (dropLast_eq_tail_iff hnodup).mp (hx.trans (he.ordered rfl))
      · exact hx.symm.trans ((dropLast_eq_tail_iff hnodup).mpr hle)
  | timeout t =>
    simp only [step, Option.ite_none_left_eq_some, Option.some.injEq] at hs
    obtain ⟨-, rfl⟩ := hs
    refine ⟨Iff.trans ?_ (dropLast_eq_erase_iff hnodup), herase t⟩
    rw [← hlisted]
    refine ⟨fun he => he.own t rfl, fun he => ⟨?_, fun u hu => ?_, by simp⟩⟩
    · exact he.trans (hlisted ▸ rfl)
    · cases hu
      exact he
  | request | look =>
    cases hs
    exact ⟨iff_of_true ⟨hlisted, by simp, by simp⟩ trivial, hnodup, hbound⟩
  | finish | wake t =>
    simp only [step, Option.ite_none_right_eq_some, Option.ite_none_left_eq_some,
      Option.some.injEq] at hs
    exact hs.2 ▸ ⟨iff_of_true ⟨hlisted, by simp, by simp⟩ trivial, hnodup, hbound⟩
  | wait alloc =>
    simp only [step, Option.ite_none_left_eq_some, Option.some.injEq] at hs
    obtain ⟨-, rfl⟩ := hs
    cases alloc with
    | false => exact ⟨iff_of_true ⟨hlisted, by simp, by simp⟩ trivial, hnodup, hbound⟩
    | true =>
      have hnew : s.started ∉ s.waiting := fun h => absurd (hbound _ h) (Nat.lt_irrefl _)
      refine ⟨iff_of_true ⟨by simp [wait, hlisted], by simp, by simp⟩ trivial, ?_, ?_⟩
      · exact hnodup.append (nodup_singleton _) (by simpa using hnew)
      · exact forall_mem_append.mpr ⟨fun u hu => Nat.lt_succ_of_lt (hbound u hu), by simp [wait]⟩

/-- While every signal came with at most one call waiting and only the last one timed out, the list
is right; the next step keeps it so and signals the first call iff it is such a step. -/
theorem waiting_queue_exact_iff {as : List Act} (h : Run.Guarded step AtEnd {} as s)
    (hs : step s a = some s') : s.listWaitCond = s.waiting ∧ (Exact s a s' ↔ AtEnd s a) := by
  have hqueue : Queue s := by
    refine h.invariant Queue ⟨rfl, nodup_nil, by simp⟩ fun s a t hq hok hst => ?_
    obtain ⟨hiff, hrest⟩ := hq.step_spec hst
    exact ⟨(hiff.mpr hok).listed, hrest.1, hrest.2⟩
  exact ⟨hqueue.listed, (hqueue.step_spec hs).1⟩

/-- Two calls wait, the later one gives up, and the signal goes to the one that is left. -/
theorem waiting_queue_exact_signal : ∃ s s',
    Run.execIf step AtEnd {} [.request, .look, .look, .wait true, .wait true, .timeout 1, .finish] =
      some s ∧ s.waiting = [0] ∧ step s .signal = some s' ∧ s'.waiting = [] ∧ Exact s .signal s' := by
  have hrun : Run.execIf step AtEnd {}
      [.request, .look, .look, .wait true, .wait true, .timeout 1, .finish] =
    some { finished := 1, started := 2, listWaitCond := [0], blocked := [0], waiting := [0] } := rfl
  refine ⟨_, { started := 2, blocked := [0] }, hrun, rfl, rfl, rfl, ?_⟩
  exact (waiting_queue_exact_iff (.of_execIf hrun) rfl).2.mpr (by decide)

/-- Of two calls that wait, the later one is signalled. -/
theorem waiting_queue_last_first : ∃ s s',
    Run.exec step {} [.request, .look, .look, .wait true, .wait true, .finish] = some s ∧
      step s .signal = some s' ∧ s'.waiting = [0] ∧ ¬ Exact s .signal s' :=
  ⟨_, _, rfl, rfl, rfl, fun h => absurd (h.ordered rfl) (by decide)⟩

end MinkIpc.ListenerQueue
