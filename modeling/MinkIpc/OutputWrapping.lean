import Mathlib.Data.List.Count
import Mathlib.Logic.Function.Iterate
import MinkIpc.ObjectQuota

/-! Two forwarders wrap the output objects of an invocation: that of the secure world's transport,
which also repeats busy calls, and that of the daemon. -/

namespace MinkIpc.OutputWrapping

open ObjectQuota (Out)

/-- An output slot; a reference that was received is known by the index it came in. A wrapper owns
what it was made from, the null object as well. -/
inductive Slot
  | null
  | raw (ref : Nat)
  | wrapper (owned : Option Nat)
  deriving DecidableEq

def Slot.ref : Slot → Option Nat
  | null => none
  | raw r => some r
  | wrapper owned => owned

structure Outputs where
  slot : Nat → Slot
  released : List Nat

namespace Outputs

def received (outs : List Out) : Outputs where
  slot j := match outs[j]? with
    | some o => if o.invoke = 0 then .null else .raw j
    | none => .null
  released := []

variable (st : Outputs)

def wrap (i : Nat) : Outputs :=
  { st with slot := Function.update st.slot i (.wrapper (st.slot i).ref) }

def assignNull (i : Nat) : Outputs where
  slot := Function.update st.slot i .null
  released := st.released ++ (st.slot i).ref.toList

def cleanup (i : Nat) : Outputs := Nat.iterate (assignNull · i) i st

end Outputs

/-- The loop over the output slots from `i` on, of which `outs` is left: what has the invoke pointer
`remote` is wrapped. -/
def wrapLoop (remote : Nat) : List Out → Nat → Outputs → Bool × Outputs
  | [], _, st => (true, st)
  | o :: os, i, st =>
    if o.invoke = remote then
      if o.alloc then wrapLoop remote os (i + 1) (st.wrap i) else (false, st.cleanup i)
    else wrapLoop remote os (i + 1) st

def busy : ObjectError := .other (-99)

/-- One round of the retry loop: what the object answers, and whether the time is up after the call
and after the pause. -/
structure Round where
  answer : Except ObjectError (List Out)
  lateAfterCall : Bool
  lateAfterPause : Bool

def isBusy : Except ObjectError (List Out) → Bool
  | .error e => e = busy
  | .ok _ => false

def retry : Nat → (Nat → Round) → Option (Except ObjectError (List Out))
  | 0, _ => none
  | n + 1, rounds =>
    if (rounds 0).lateAfterCall then some (rounds 0).answer
    else if !(rounds 0).lateAfterPause && isBusy (rounds 0).answer then
      retry n fun k => rounds (k + 1)
    else some (rounds 0).answer

/-- `TimedRetryForwarder_invoke` for a method, with the slots it leaves; `invoke` is that of the
wrapped object. -/
def timedRetryForwarderInvoke (invoke : Nat) (locked : Bool) (fuel : Nat) (rounds : Nat → Round) :
    Option (Option ObjectError × Outputs) :=
  if locked then
    (retry fuel rounds).map fun
      | .error e => (some e, .received [])
      | .ok outs =>
        match wrapLoop invoke outs 0 (.received outs) with
        | (true, st) => (none, st)
        | (false, st) => (some .kmem, st)
  else some (some .unavail, .received [])

def objWrapperInvoke (s : ObjectQuota.State) (e : ObjectQuota.EnvWrapper)
    (inv : ObjectQuota.Invocation) : ObjectQuota.Answer × Outputs :=
  if (ObjectQuota.systemObjQuotaReached s e || ObjectQuota.objLimitReached e) &&
      0 < inv.outs.length then (.refused, .received [])
  else match inv.err with
    | some err => (.failed err, .received [])
    | none =>
      match wrapLoop s.qteeInvoke inv.outs 0 (.received inv.outs) with
      | (true, st) => (.ok, st)
      | (false, st) => (.failed .kmem, st)

structure FailsAt (remote : Nat) (outs : List Out) (i : Nat) : Prop where
  fails : ∃ o, outs[i]? = some o ∧ o.invoke = remote ∧ o.alloc = false
  first : ∀ j, j < i → ∀ o, outs[j]? = some o → o.invoke = remote → o.alloc = true

def AllReleased (outs : List Out) (st : Outputs) : Prop :=
  ∀ j o, outs[j]? = some o → o.invoke ≠ 0 → st.released.count j = 1 ∧ st.slot j = .null

/-- The only object that was received is the one in slot `i`, which is not the first slot. -/
def OnlyAt (outs : List Out) (i : Nat) : Prop :=
  ∀ j o, outs[j]? = some o → o.invoke ≠ 0 → j = i ∧ 0 < i

section Loop

variable {remote : Nat} {outs : List Out} {i k : Nat} {st st' : Outputs}

structure Outputs.Kept (st st' : Outputs) : Prop where
  released : st'.released = st.released
  ref : ∀ j, (st'.slot j).ref = (st.slot j).ref
  null : ∀ j, st'.slot j = .null → st.slot j = .null

theorem Outputs.Kept.refl (st : Outputs) : st.Kept st := ⟨rfl, fun _ => rfl, fun _ h => h⟩

theorem Outputs.Kept.trans {st'' : Outputs} (h : st.Kept st') (h' : st'.Kept st'') : st.Kept st'' :=
  ⟨h'.released.trans h.released, fun j => (h'.ref j).trans (h.ref j),
    fun j hj => h.null j (h'.null j hj)⟩

theorem Outputs.kept_wrap (st : Outputs) (i : Nat) : st.Kept (st.wrap i) := by
  refine ⟨rfl, fun j => ?_, fun j hj => ?_⟩
  · by_cases hij : j = i
    · subst hij
      simp [wrap, Slot.ref]
    · simp [wrap, hij]
  · by_cases hij : j = i
    · subst hij
      simp [wrap] at hj
    · simpa [wrap, hij] using hj

theorem wrapLoop_of_failsAt (h : FailsAt remote outs k) :
    ∃ st', st.Kept st' ∧ wrapLoop remote outs i st = (false, st'.cleanup (i + k)) := by
  induction outs generalizing i k st with
  | nil =>
    obtain ⟨o, ho, -⟩ := h.fails
    cases ho
  | cons o outs ih =>
    cases k with
    | zero =>
      obtain ⟨o', ho', hremote, halloc⟩ := h.fails
      cases ho'
      exact ⟨st, .refl st, by simp [wrapLoop, hremote, halloc]⟩
    | succ k =>
      have hrest : FailsAt remote outs k := ⟨h.fails, fun j hj => h.first (j + 1) (by omega)⟩
      have hadd : i + 1 + k = i + (k + 1) := by omega
      by_cases hremote : o.invoke = remote
      · have halloc : o.alloc = true := h.first 0 (by omega) o rfl hremote
        obtain ⟨st', hkept, hloop⟩ := @ih (i + 1) k (st.wrap i) hrest
        refine ⟨st', (st.kept_wrap i).trans hkept, ?_⟩
        rw [wrapLoop, if_pos hremote, if_pos halloc, hloop, hadd]
      · obtain ⟨st', hkept, hloop⟩ := @ih (i + 1) k st hrest
        refine ⟨st', hkept, ?_⟩
        rw [wrapLoop, if_neg hremote, hloop, hadd]

theorem Outputs.cleanup_of_pos (st : Outputs) (h : 0 < i) : st.cleanup i = st.assignNull i := by
  obtain ⟨n, rfl⟩ := Nat.exists_eq_succ_of_ne_zero (Nat.ne_of_gt h)
  exact Function.iterate_fixed ((by simp [assignNull, Slot.ref])) n

theorem Outputs.ref_received {o : Out} (h : outs[i]? = some o) :
    ((received outs).slot i).ref = if o.invoke = 0 then none else some i := by
  simp only [received, h]
  split_ifs <;> rfl

theorem allReleased_cleanup_iff (hkept : (Outputs.received outs).Kept st) :
    AllReleased outs (st.cleanup i) ↔ OnlyAt outs i := by
  have hlive : ∀ j o, outs[j]? = some o → o.invoke ≠ 0 → st.slot j ≠ .null := by
    intro j o ho hne hnull
    have hslot := hkept.null j hnull
    simp [Outputs.received, ho, hne] at hslot
  have href : ∀ j o, outs[j]? = some o → o.invoke ≠ 0 → (st.slot j).ref = some j := by
    intro j o ho hne
    rw [hkept.ref, Outputs.ref_received ho, if_neg hne]
  have hnone : st.released = [] := hkept.released
  rcases Nat.eq_zero_or_pos i with rfl | hpos
  · -- nothing is cleaned up
    constructor
    · intro hall j o ho hne
      exact absurd (hall j o ho hne).2 (hlive j o ho hne)
    · intro honly j o ho hne
      exact absurd (honly j o ho hne).2 (Nat.lt_irrefl 0)
  · rw [st.cleanup_of_pos hpos]
    constructor
    · intro hall j o ho hne
      refine ⟨?_, hpos⟩
      by_contra hij
      have hnull := (hall j o ho hne).2
      dsimp only [Outputs.assignNull] at hnull
      rw [Function.update_of_ne hij] at hnull
      exact hlive j o ho hne hnull
    · intro honly j o ho hne
      obtain ⟨rfl, -⟩ := honly j o ho hne
      simp [Outputs.assignNull, hnone, href j o ho hne]

theorem wrapLoop_failsAt_iff (h : FailsAt remote outs i) :
    ∃ st, wrapLoop remote outs 0 (.received outs) = (false, st) ∧
      (AllReleased outs st ↔ OnlyAt outs i) := by
  obtain ⟨st, hkept, hloop⟩ := @wrapLoop_of_failsAt remote outs 0 i (.received outs) h
  rw [Nat.zero_add] at hloop
  exact ⟨_, hloop, allReleased_cleanup_iff hkept⟩

end Loop

theorem wrapLoop_fst {s : ObjectQuota.State} {p i : Nat} {outs : List Out} {st : Outputs}
    (hp : (s.envs p).isSome = true) :
    (wrapLoop s.qteeInvoke outs i st).1 = (ObjectQuota.wrapLoop p outs s).1 := by
  induction outs generalizing i st s with
  | nil => rfl
  | cons o outs ih =>
    obtain ⟨e, he⟩ := Option.isSome_iff_exists.mp hp
    rw [wrapLoop, ObjectQuota.wrapLoop]
    by_cases hremote : o.invoke = s.qteeInvoke
    · rw [if_pos hremote, if_pos hremote]
      cases o.alloc with
      | true =>
        rw [he]
        refine @ih (ObjectQuota.objWrapperNew s p e o) (i + 1) _ ?_
        simp [ObjectQuota.objWrapperNew, ObjectQuota.incrementObjCount, ObjectQuota.State.setEnv]
      | false => rfl
    · rw [if_neg hremote, if_neg hremote]
      exact ih hp

theorem objWrapperInvoke_fst {s : ObjectQuota.State} {p : Nat} {e : ObjectQuota.EnvWrapper}
    (hp : s.envs p = some e) (inv : ObjectQuota.Invocation) :
    (objWrapperInvoke s e inv).1 = (ObjectQuota.objWrapperInvoke s p e inv).1 := by
  have hloop := @wrapLoop_fst s p 0 inv.outs (.received inv.outs) (by rw [hp]; rfl)
  unfold objWrapperInvoke ObjectQuota.objWrapperInvoke
  split_ifs
  · rfl
  cases inv.err with
  | some err => rfl
  | none =>
    cases hl : wrapLoop s.qteeInvoke inv.outs 0 (.received inv.outs) with
    | mk b st =>
      cases hl' : ObjectQuota.wrapLoop p inv.outs s with
      | mk b' s' =>
        rw [hl, hl'] at hloop
        subst hloop
        cases b <;> rfl

theorem retry_ends {rounds : Nat → Round} {n : Nat}
    (h : (rounds n).lateAfterCall = true ∨ isBusy (rounds n).answer = false) :
    ∃ answer, retry (n + 1) rounds = some answer := by
  induction n generalizing rounds with
  | zero =>
    rcases h with h | h
    · exact ⟨_, by rw [retry, if_pos h]⟩
    · simp [retry, h]
  | succ n ih =>
    rw [retry]
    split_ifs
    · exact ⟨_, rfl⟩
    · exact ih h
    · exact ⟨_, rfl⟩

/-- A call that fails to wrap an output reports it. All that was received is released only if the
object that could not be wrapped is the only one and not in the first slot. -/
theorem wrapping_failure_releases_iff (invoke fuel i : Nat) (rounds : Nat → Round)
    (outs : List Out) (s : ObjectQuota.State) (e : ObjectQuota.EnvWrapper)
    (inv : ObjectQuota.Invocation) :
    (retry fuel rounds = some (.ok outs) → FailsAt invoke outs i →
      ∃ st, timedRetryForwarderInvoke invoke true fuel rounds = some (some .kmem, st) ∧
        (AllReleased outs st ↔ OnlyAt outs i)) ∧
    ((ObjectQuota.systemObjQuotaReached s e || ObjectQuota.objLimitReached e) = false →
      inv.err = none → FailsAt s.qteeInvoke inv.outs i →
      ∃ st, objWrapperInvoke s e inv = (.failed .kmem, st) ∧
        (AllReleased inv.outs st ↔ OnlyAt inv.outs i)) := by
  constructor
  · intro hretry hfails
    obtain ⟨st, hloop, hiff⟩ := wrapLoop_failsAt_iff hfails
    refine ⟨st, ?_, hiff⟩
    rw [timedRetryForwarderInvoke, if_pos rfl, hretry, Option.map_some]
    dsimp only
    rw [hloop]
  · intro hquota herr hfails
    obtain ⟨st, hloop, hiff⟩ := wrapLoop_failsAt_iff hfails
    refine ⟨st, ?_, hiff⟩
    rw [objWrapperInvoke, hquota, Bool.false_and, if_neg Bool.false_ne_true, herr]
    rw [hloop]

def answerOnce (outs : List Out) : Nat → Round := fun _ => ⟨.ok outs, false, false⟩

def roomyEnv : ObjectQuota.EnvWrapper := ⟨1, 1, 9, 1, 100, 100⟩

def secureSide : ObjectQuota.State := { ObjectQuota.State.init with qteeInvoke := 5 }

def oneRemote : List Out := [⟨0, true⟩, ⟨5, false⟩]

theorem wrapping_failure_releases_oneRemote :
    (∃ st, timedRetryForwarderInvoke 5 true 1 (answerOnce oneRemote) = some (some .kmem, st) ∧
      AllReleased oneRemote st) ∧
    ∃ st, objWrapperInvoke secureSide roomyEnv ⟨none, oneRemote⟩ = (.failed .kmem, st) ∧
      AllReleased oneRemote st := by
  have hfails : FailsAt 5 oneRemote 1 := by
    refine ⟨⟨⟨5, false⟩, rfl, rfl, rfl⟩, fun j hj o ho hremote => ?_⟩
    obtain rfl : j = 0 := by omega
    cases ho
    rfl
  have honly : OnlyAt oneRemote 1 := by
    intro j o ho hne
    rcases j with _ | _ | j
    · cases ho
      exact absurd rfl hne
    · exact ⟨rfl, Nat.one_pos⟩
    · simp [oneRemote] at ho
  obtain ⟨hretry, hwrapper⟩ := wrapping_failure_releases_iff 5 1 1 (answerOnce oneRemote)
    oneRemote secureSide roomyEnv ⟨none, oneRemote⟩
  obtain ⟨st, hst, hiff⟩ := hretry rfl hfails
  obtain ⟨st', hst', hiff'⟩ := hwrapper (by decide) rfl hfails
  exact ⟨⟨st, hst, hiff.mpr honly⟩, st', hst', hiff'.mpr honly⟩

def twoRemote : List Out := [⟨5, true⟩, ⟨5, false⟩]

/-- The clean-up releases the object that could not be wrapped and leaves the wrapper before it. -/
theorem wrapping_failure_leaves_wrapper :
    ∃ st, timedRetryForwarderInvoke 5 true 1 (answerOnce twoRemote) = some (some .kmem, st) ∧
      objWrapperInvoke secureSide roomyEnv ⟨none, twoRemote⟩ = (.failed .kmem, st) ∧
      st.released = [1] ∧ st.slot 0 = .wrapper (some 0) ∧ ¬ AllReleased twoRemote st := by
  refine ⟨_, rfl, rfl, rfl, rfl, fun hall => ?_⟩
  exact absurd (hall 0 ⟨5, true⟩ rfl (by decide)).2 (by decide)

end MinkIpc.OutputWrapping
