import MinkIpc.Run
import Mathlib.Data.List.ReduceOption

/-! The output buffers of a callback object. Each dispatch allocates them and writes them
into the array of the object, from where they are freed after the response; the array
outlives the dispatch. -/

namespace MinkIpc.Adaptor

open List

inductive Attr where
  | ubufInput
  | ubufOutput
  | objrefInput
  | objrefOutput
  | other
deriving DecidableEq

def maxBO : Nat := 15

inductive Status where
  | ok
  | errorInvalid
  | error
  | overrun
deriving DecidableEq

structure Marshal where
  allocatedBo : List (Option Nat)
  allocated : List Nat

-- `malloc n` is what the allocator answers for the output buffer number `n`.
def objectArgsFromTeeParamsCb (malloc : Nat → Option Nat) : List Attr → Marshal → Status × Marshal
  | [], m => (.ok, m)
  | .ubufOutput :: params, m =>
      match malloc m.allocated.length with
      | none => (.error, m)
      | some p =>
          if m.allocated.length < m.allocatedBo.length then
            objectArgsFromTeeParamsCb malloc params
              ⟨m.allocatedBo.set m.allocated.length (some p), m.allocated ++ [p]⟩
          else (.overrun, ⟨m.allocatedBo, m.allocated ++ [p]⟩)
  | .other :: _, m => (.errorInvalid, m)
  | .ubufInput :: params, m | .objrefInput :: params, m | .objrefOutput :: params, m =>
      objectArgsFromTeeParamsCb malloc params m

/-- A dispatch with its environment: the parameters, the allocator, the result of the Mink
object, and whether its output objects could be wrapped. -/
structure Round where
  params : List Attr
  malloc : Nat → Option Nat
  invoked : Bool
  wrapped : Bool

structure Ledger where
  allocated : List Nat
  freed : List Nat
deriving DecidableEq

structure CallbackObj where
  allocatedBo : List (Option Nat)
  size : allocatedBo.length = maxBO
  history : List Ledger

def CallbackObj.new : CallbackObj := ⟨replicate maxBO none, by simp, []⟩

-- The slots are read and freed, and not cleared.
def callbackObjCleanup (allocatedBo : List (Option Nat)) : List Nat := allocatedBo.reduceOption

def callbackObjDispatch (r : Round) (allocatedBo : List (Option Nat)) :
    Option (List (Option Nat) × Ledger × Bool) :=
  match objectArgsFromTeeParamsCb r.malloc r.params ⟨allocatedBo, []⟩ with
  | (.overrun, _) => none
  | (.errorInvalid, m) => some (m.allocatedBo, ⟨m.allocated, []⟩, false)
  | (.error, m) =>
      some (m.allocatedBo, ⟨m.allocated, (m.allocatedBo.take m.allocated.length).reduceOption⟩, false)
  | (.ok, m) =>
      if r.invoked then
        if r.wrapped then some (m.allocatedBo, ⟨m.allocated, []⟩, true)
        else some (m.allocatedBo, ⟨m.allocated, callbackObjCleanup m.allocatedBo⟩, false)
      else some (m.allocatedBo, ⟨m.allocated, []⟩, false)

def round (r : Round) (allocatedBo : List (Option Nat)) : Option (List (Option Nat) × Ledger) :=
  match callbackObjDispatch r allocatedBo with
  | none => none
  | some (bo, ledger, true) => some (bo, ⟨ledger.allocated, ledger.freed ++ callbackObjCleanup bo⟩)
  | some (bo, ledger, false) => some (bo, ledger)

section Marshalling

variable {malloc : Nat → Option Nat} {params : List Attr} {base : List (Option Nat)} {m : Marshal}

structure Stored (base : List (Option Nat)) (m : Marshal) : Prop where
  fits : m.allocated.length ≤ base.length
  slots : m.allocatedBo = m.allocated.map some ++ base.drop m.allocated.length

theorem Stored.nil : Stored base ⟨base, []⟩ := ⟨Nat.zero_le _, rfl⟩

theorem Stored.length (h : Stored base m) : m.allocatedBo.length = base.length := by
  have hfits := h.fits
  rw [h.slots, length_append, length_map, length_drop]
  omega

theorem Stored.snoc {p : Nat} (h : Stored base m) (hlt : m.allocated.length < m.allocatedBo.length) :
    Stored base ⟨m.allocatedBo.set m.allocated.length (some p), m.allocated ++ [p]⟩ := by
  rw [h.length] at hlt
  refine ⟨by simpa [Nat.succ_le_iff] using hlt, ?_⟩
  rw [h.slots, set_append_right _ _ (by simp), length_map, Nat.sub_self,
    drop_eq_getElem_cons hlt, set_cons_zero, length_append, length_singleton,
    map_append, append_assoc, map_singleton, singleton_append]

theorem Stored.taken (h : Stored base m) :
    (m.allocatedBo.take m.allocated.length).reduceOption = m.allocated := by
  rw [h.slots, take_append_of_le_length (by simp), take_of_length_le (by simp)]
  simp [reduceOption]

theorem Stored.cleanup (h : Stored base m) : callbackObjCleanup m.allocatedBo =
    m.allocated ++ (base.drop m.allocated.length).reduceOption := by
  rw [callbackObjCleanup, h.slots]
  simp [reduceOption]

def outputs (params : List Attr) : Nat := (params.takeWhile (· ≠ .other)).count .ubufOutput

theorem outputs_output : outputs (.ubufOutput :: params) = outputs params + 1 := by
  simp [outputs]

theorem outputs_other : outputs (.other :: params) = 0 := by
  simp [outputs]

theorem marshal_error (h : Stored base m) (hfail : ∃ j, m.allocated.length ≤ j ∧
      j < m.allocated.length + outputs params ∧ j ≤ base.length ∧ malloc j = none) :
    ∃ m', objectArgsFromTeeParamsCb malloc params m = (.error, m') ∧ Stored base m' := by
  obtain ⟨j, hge, hlt, hfit, hnone⟩ := hfail
  induction params generalizing m with
  | nil => exact absurd hlt (by simp [outputs, hge])
  | cons a params ih =>
    cases a with
    | ubufOutput =>
      rw [outputs_output] at hlt
      unfold objectArgsFromTeeParamsCb
      rcases hp : malloc m.allocated.length with _ | p
      · exact ⟨m, rfl, h⟩
      have hne : j ≠ m.allocated.length := fun hj => by simp [hj, hp] at hnone
      have hroom : m.allocated.length < m.allocatedBo.length := by
        rw [h.length]
        omega
      simp only [if_pos hroom]
      refine ih (h.snoc hroom) ?_ ?_
      · simp only [length_append, length_singleton]
        omega
      · simp only [length_append, length_singleton]
        omega
    | other => exact absurd hlt (by simp [outputs_other, hge])
    | ubufInput | objrefInput | objrefOutput =>
      exact ih h hge hlt

variable (hmalloc : ∀ j, m.allocated.length ≤ j → j < m.allocated.length + outputs params →
  j ≤ base.length → malloc j ≠ none)
include hmalloc

theorem marshal_ok (h : Stored base m) (hfit : m.allocated.length + outputs params ≤ base.length) :
    ∃ m', objectArgsFromTeeParamsCb malloc params m =
        (if .other ∈ params then .errorInvalid else .ok, m') ∧ Stored base m' ∧
      m'.allocated.length = m.allocated.length + outputs params := by
  induction params generalizing m with
  | nil => exact ⟨m, by simp [objectArgsFromTeeParamsCb], h, rfl⟩
  | cons a params ih =>
    cases a with
    | ubufOutput =>
      rw [outputs_output] at hfit hmalloc
      obtain ⟨p, hp⟩ := Option.ne_none_iff_exists'.mp
        (hmalloc m.allocated.length (Nat.le_refl _) (by omega) (by omega))
      have hroom : m.allocated.length < m.allocatedBo.length := by
        rw [h.length]
        omega
      unfold objectArgsFromTeeParamsCb
      simp only [hp, if_pos hroom]
      obtain ⟨m', hrun, hstored, hlen⟩ := ih (m := ⟨_, m.allocated ++ [p]⟩)
        (fun j hge hlt => hmalloc j (by simp at hge; omega) (by simp at hlt; omega))
        (h.snoc hroom) (by simp; omega)
      refine ⟨m', by simpa using hrun, hstored, hlen.trans ?_⟩
      rw [outputs_output]
      simp
      omega
    | other =>
      exact ⟨m, by simp [objectArgsFromTeeParamsCb], h, by simp [outputs_other]⟩
    | ubufInput | objrefInput | objrefOutput =>
      obtain ⟨m', hrun, hkept⟩ := ih hmalloc h hfit
      exact ⟨m', by simpa [objectArgsFromTeeParamsCb] using hrun, hkept⟩

theorem marshal_overrun (h : Stored base m)
    (hfull : base.length < m.allocated.length + outputs params) :
    ∃ m', objectArgsFromTeeParamsCb malloc params m = (.overrun, m') := by
  have hfits := h.fits
  induction params generalizing m with
  | nil => exact absurd hfull (by simp [outputs, hfits])
  | cons a params ih =>
    cases a with
    | ubufOutput =>
      rw [outputs_output] at hfull hmalloc
      obtain ⟨p, hp⟩ := Option.ne_none_iff_exists'.mp
        (hmalloc m.allocated.length (Nat.le_refl _) (by omega) hfits)
      unfold objectArgsFromTeeParamsCb
      simp only [hp]
      split_ifs with hroom
      · have hstored := h.snoc (p := p) (h.length ▸ hroom)
        refine ih ?_ hstored ?_ hstored.fits
        · exact fun j hge hlt => hmalloc j (by simp at hge; omega) (by simp at hlt; omega)
        · simp
          omega
      · exact ⟨_, rfl⟩
    | other => exact absurd hfull (by simp [outputs_other, hfits])
    | ubufInput | objrefInput | objrefOutput =>
      exact ih hmalloc h hfull hfits

end Marshalling

section Rounds

variable {r : Round} {bo : List (Option Nat)}

/-- An allocation fails; or all output buffers fit, and if the Mink object is reached and
succeeds no slot behind them is in use, while otherwise there are none. -/
def RoundOk (bo : List (Option Nat)) (r : Round) : Prop :=
  (∃ j < maxBO + 1, j < outputs r.params ∧ r.malloc j = none) ∨ (outputs r.params ≤ maxBO ∧
      if .other ∉ r.params ∧ r.invoked then ∀ slot ∈ bo.drop (outputs r.params), slot = none
      else outputs r.params = 0)

instance : Decidable (RoundOk bo r) := by
  unfold RoundOk
  infer_instance

def Balanced (ledger : Ledger) : Prop := ledger.freed.Perm ledger.allocated

theorem reduceOption_eq_nil_iff {l : List (Option Nat)} :
    l.reduceOption = [] ↔ ∀ slot ∈ l, slot = none := by
  simp [reduceOption]

theorem perm_append_nil_iff {a b : List Nat} : (a ++ b).Perm a ↔ b = [] := by
  constructor
  · intro h
    have hlen := h.length_eq
    rw [length_append] at hlen
    exact length_eq_zero_iff.mp (by omega)
  · rintro rfl
    rw [append_nil]

theorem round_of_dispatch {bo' : List (Option Nat)} {ledger : Ledger} {success : Bool}
    (h : callbackObjDispatch r bo = some (bo', ledger, success)) : round r bo = some (bo',
      ⟨ledger.allocated, ledger.freed ++ if success then callbackObjCleanup bo' else []⟩) := by
  rw [round, h]
  cases success <;> simp

section

variable (hsize : bo.length = maxBO)
include hsize

theorem round_error (hfail : ∃ j < maxBO + 1, j < outputs r.params ∧ r.malloc j = none) :
    ∃ bo' ledger, round r bo = some (bo', ledger) ∧ Balanced ledger := by
  obtain ⟨j, hj, hlt, hnone⟩ := hfail
  obtain ⟨m, hrun, hstored⟩ :=
    marshal_error (m := ⟨bo, []⟩) .nil ⟨j, Nat.zero_le _, by simpa using hlt, by omega, hnone⟩
  have hdispatch :
      callbackObjDispatch r bo = some (m.allocatedBo, ⟨m.allocated, m.allocated⟩, false) := by
    rw [callbackObjDispatch, hrun]
    dsimp only
    rw [hstored.taken]
  refine ⟨_, _, round_of_dispatch hdispatch, ?_⟩
  simp [Balanced]

section

variable (hmalloc : ¬ ∃ j < maxBO + 1, j < outputs r.params ∧ r.malloc j = none)
include hmalloc

theorem malloc_ne_none (j : Nat) (_ : 0 ≤ j) (hlt : j < 0 + outputs r.params)
    (hle : j ≤ bo.length) : r.malloc j ≠ none :=
  fun hnone => hmalloc ⟨j, by omega, by simpa using hlt, hnone⟩

theorem round_ok
    (hfit : outputs r.params ≤ maxBO) : ∃ m, Stored bo m ∧ m.allocated.length = outputs r.params ∧
      round r bo = some (m.allocatedBo, ⟨m.allocated,
        if .other ∉ r.params ∧ r.invoked then callbackObjCleanup m.allocatedBo else []⟩) := by
  obtain ⟨m, hrun, hstored, hlen⟩ :=
    marshal_ok (m := ⟨bo, []⟩) (malloc_ne_none hsize hmalloc) .nil (by simpa [hsize] using hfit)
  refine ⟨m, hstored, by simpa using hlen, ?_⟩
  rw [round, callbackObjDispatch, hrun]
  by_cases hother : .other ∈ r.params
  · simp [hother]
  · cases hinvoked : r.invoked <;> cases hwrapped : r.wrapped <;> simp [hother]

theorem round_overrun (hfit : ¬ outputs r.params ≤ maxBO) : round r bo = none := by
  obtain ⟨m, hrun⟩ := marshal_overrun (m := ⟨bo, []⟩) (malloc_ne_none hsize hmalloc) .nil
    (by simp; omega)
  rw [round, callbackObjDispatch, hrun]

end

theorem round_balanced_iff :
    (∃ bo' ledger, round r bo = some (bo', ledger) ∧ Balanced ledger) ↔ RoundOk bo r := by
  by_cases hfail : ∃ j < maxBO + 1, j < outputs r.params ∧ r.malloc j = none
  · exact iff_of_true (round_error hsize hfail) (.inl hfail)
  rw [RoundOk, or_iff_right hfail]
  by_cases hfit : outputs r.params ≤ maxBO
  · obtain ⟨m, hstored, hlen, hround⟩ := round_ok hsize hfail hfit
    have hbalanced : (∃ bo' ledger, round r bo = some (bo', ledger) ∧ Balanced ledger) ↔
        Balanced ⟨m.allocated,
          if .other ∉ r.params ∧ r.invoked then callbackObjCleanup m.allocatedBo else []⟩ := by
      rw [hround]
      constructor
      · rintro ⟨bo', ledger, heq, h⟩
        obtain ⟨-, rfl⟩ := Prod.mk.inj (Option.some.inj heq)
        exact h
      · exact fun h => ⟨_, _, rfl, h⟩
    rw [hbalanced, and_iff_right hfit, Balanced]
    by_cases hclean : .other ∉ r.params ∧ r.invoked
    · simp only [if_pos hclean]
      rw [hstored.cleanup, hlen, perm_append_nil_iff, reduceOption_eq_nil_iff]
    · simp only [if_neg hclean]
      rw [← hlen, nil_perm, length_eq_zero_iff]
  · refine iff_of_false ?_ fun h => hfit h.1
    rw [round_overrun hsize hfail hfit]
    rintro ⟨_, _, h, -⟩
    cases h

end

theorem marshal_length {malloc : Nat → Option Nat} {params : List Attr} {m : Marshal} :
    (objectArgsFromTeeParamsCb malloc params m).2.allocatedBo.length = m.allocatedBo.length := by
  induction params generalizing m with
  | nil => rfl
  | cons a params ih =>
    cases a with
    | ubufOutput =>
      unfold objectArgsFromTeeParamsCb
      split
      · rfl
      · split_ifs
        · rw [ih, length_set]
        · rfl
    | other => rfl
    | ubufInput | objrefInput | objrefOutput => exact ih

theorem round_length {bo' : List (Option Nat)} {ledger : Ledger}
    (h : round r bo = some (bo', ledger)) : bo'.length = bo.length := by
  have hlen := @marshal_length r.malloc r.params ⟨bo, []⟩
  rw [round, callbackObjDispatch] at h
  generalize objectArgsFromTeeParamsCb r.malloc r.params ⟨bo, []⟩ = out at hlen h
  obtain ⟨status, m⟩ := out
  rw [← hlen]
  cases status with
  | overrun => cases h
  | errorInvalid | error =>
    obtain ⟨rfl, -⟩ := Prod.mk.inj (Option.some.inj h)
    rfl
  | ok =>
    cases hinvoked : r.invoked <;> cases hwrapped : r.wrapped <;> rw [hinvoked, hwrapped] at h <;>
    · obtain ⟨rfl, -⟩ := Prod.mk.inj (Option.some.inj h)
      rfl

end Rounds

section Runs

def step (s : CallbackObj) (r : Round) : Option CallbackObj :=
  match h : round r s.allocatedBo with
  | none => none
  | some (bo, ledger) => some ⟨bo, (round_length h).trans s.size, s.history ++ [ledger]⟩

variable {s t : CallbackObj} {r : Round} {rounds : List Round}

theorem step_eq_some_iff : step s r = some t ↔ ∃ ledger,
    round r s.allocatedBo = some (t.allocatedBo, ledger) ∧ t.history = s.history ++ [ledger] := by
  unfold step
  split
  · next h => simp [h]
  next bo ledger h =>
  constructor
  · intro ht
    obtain rfl := Option.some.inj ht
    exact ⟨ledger, h, rfl⟩
  · rintro ⟨ledger', heq, hhistory⟩
    obtain ⟨hbo, rfl⟩ := Prod.mk.inj (Option.some.inj (h.symm.trans heq))
    obtain ⟨bo', size, history⟩ := t
    obtain rfl : bo = bo' := hbo
    obtain rfl : history = s.history ++ [ledger] := hhistory
    rfl

theorem step_balanced_iff (hstep : step s r = some t) (hs : ∀ l ∈ s.history, Balanced l) :
    (∀ l ∈ t.history, Balanced l) ↔ RoundOk s.allocatedBo r := by
  obtain ⟨ledger, hround, hhistory⟩ := step_eq_some_iff.mp hstep
  rw [← round_balanced_iff s.size, hhistory]
  constructor
  · exact fun h => ⟨_, ledger, hround, h ledger (by simp)⟩
  · rintro ⟨bo', ledger', hround', hb⟩
    obtain ⟨-, rfl⟩ := Prod.mk.inj (Option.some.inj (hround.symm.trans hround'))
    exact forall_mem_append.mpr ⟨hs, forall_mem_singleton.mpr hb⟩

theorem step_exists (h : RoundOk s.allocatedBo r) : ∃ t, step s r = some t := by
  obtain ⟨bo, ledger, hround, -⟩ := (round_balanced_iff s.size).mpr h
  exact ⟨⟨bo, (round_length hround).trans s.size, s.history ++ [ledger]⟩,
    step_eq_some_iff.mpr ⟨ledger, hround, rfl⟩⟩

theorem Guarded.balanced (h : Run.Guarded step (fun s r => RoundOk s.allocatedBo r) .new rounds s) :
    ∀ l ∈ s.history, Balanced l :=
  h.invariant (fun s => ∀ l ∈ s.history, Balanced l) (fun _ hl => absurd hl not_mem_nil)
    fun _ _ _ hs hok hstep => (step_balanced_iff hstep hs).mpr hok

theorem guarded_of_balanced (hexec : Run.exec step .new rounds = some s)
    (h : ∀ l ∈ s.history, Balanced l) :
    Run.Guarded step (fun s r => RoundOk s.allocatedBo r) .new rounds s := by
  induction rounds using reverseRecOn generalizing s with
  | nil =>
    obtain rfl : CallbackObj.new = s := Option.some.inj hexec
    exact .nil
  | append_singleton rounds r ih =>
    rw [Run.exec_append] at hexec
    obtain ⟨u, hu, hr⟩ := Option.bind_eq_some_iff.mp hexec
    have hstep : step u r = some s := by simpa [Run.exec] using hr
    obtain ⟨ledger, -, hhistory⟩ := step_eq_some_iff.mp hstep
    have hbal : ∀ l ∈ u.history, Balanced l := fun l hl => h l (by simp [hhistory, hl])
    exact .snoc (ih hu hbal) ((step_balanced_iff hstep hbal).mp h) hstep

/-- In a run of dispatches every buffer is freed once, by the dispatch it was allocated for, exactly
if every dispatch meets the condition. -/
theorem buffers_freed_once_iff (rounds : List Round) :
    ((∃ s, Run.exec step .new rounds = some s ∧ ∀ l ∈ s.history, Balanced l) ↔
        ∃ s, Run.Guarded step (fun s r => RoundOk s.allocatedBo r) .new rounds s) ∧
      ∀ s r, Run.exec step .new rounds = some s → RoundOk s.allocatedBo r → ∃ t, step s r = some t := by
  refine ⟨⟨?_, ?_⟩, fun s r _ hok => step_exists hok⟩
  · rintro ⟨s, hexec, h⟩
    exact ⟨s, guarded_of_balanced hexec h⟩
  · rintro ⟨s, h⟩
    exact ⟨s, h.exec, Guarded.balanced h⟩

/-- Two output buffers, then one: the second cleanup frees the second buffer again. -/
theorem buffer_freed_twice :
    let first : Round := ⟨[.ubufOutput, .ubufOutput], fun n => some (100 + n), true, true⟩
    let second : Round := ⟨[.ubufOutput], fun _ => some 200, true, true⟩
    (Run.exec step .new [first, second]).map (·.history) =
      some [⟨[100, 101], [100, 101]⟩, ⟨[200], [200, 101]⟩] ∧ ¬ Balanced ⟨[200], [200, 101]⟩ := by
  refine ⟨by decide, ?_⟩
  unfold Balanced
  decide

end Runs

end MinkIpc.Adaptor
