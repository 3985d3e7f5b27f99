import Mathlib.Data.List.Count
import Mathlib.Logic.Function.Basic
import MinkIpc.ObjectError
import MinkIpc.Run

/-! The quota on objects of the secure side that clients of the daemon may hold. Every output object
that comes back through a wrapper is wrapped again and counted. -/

namespace MinkIpc.ObjectQuota

open Function List Option

/-- An environment wrapper with its counters. `obj` is the invoke pointer of what it wraps, 0 for
the null object; `held` counts the references held to it. -/
structure EnvWrapper where
  refs : Int
  held : Nat
  obj : Nat
  qteeObjectCount : Int
  maxSystemObjectLimit : Int
  maxQTEEObjectLimit : Int
  deriving DecidableEq

structure ObjWrapper where
  id : Nat
  parentWrapper : Nat
  refs : Int
  held : Nat
  obj : Nat
  deriving DecidableEq

structure State where
  globalCount : Int
  qteeInvoke : Nat
  envs : Nat → Option EnvWrapper
  objs : List ObjWrapper
  next : Nat

def State.init : State where
  globalCount := 1
  qteeInvoke := 0
  envs _ := none
  objs := []
  next := 0

inductive Ref
  | env (id : Nat)
  | obj (id : Nat)
  deriving DecidableEq

structure Out where
  invoke : Nat
  alloc : Bool
  deriving DecidableEq

structure Invocation where
  err : Option ObjectError
  outs : List Out
  deriving DecidableEq

section Counters

variable (s : State) (p : Nat) (e : EnvWrapper)

def State.setEnv : State := { s with envs := update s.envs p (some e) }

def incrementObjCount : State :=
  { s with globalCount := s.globalCount + 1 }.setEnv p
    { e with qteeObjectCount := e.qteeObjectCount + 1 }

def sysDecremented : Int := if s.globalCount > 0 then s.globalCount - 1 else s.globalCount

def EnvWrapper.decremented : EnvWrapper :=
  { e with qteeObjectCount :=
      if e.qteeObjectCount > 0 then e.qteeObjectCount - 1 else e.qteeObjectCount }

-- Both counters stop at 0.
def decrementObjCount : State :=
  { s with globalCount := sysDecremented s }.setEnv p e.decremented

def objLimitReached : Bool := !decide (e.maxQTEEObjectLimit > e.qteeObjectCount)

def systemObjQuotaReached : Bool := !decide (e.maxSystemObjectLimit > s.globalCount)

end Counters

def envWrapperOpen (s : State) (root : Option Nat) (env : Nat) (qteeObjectLimit quotaLimit : Int) :
    State :=
  { s with
    qteeInvoke := if s.qteeInvoke = 0 then root.getD 0 else s.qteeInvoke
    next := s.next + 1 }.setEnv s.next ⟨1, 1, env, 1, quotaLimit, qteeObjectLimit⟩

def objWrapperNew (s : State) (p : Nat) (e : EnvWrapper) (o : Out) : State :=
  { incrementObjCount s p e with
    objs := ⟨s.next, p, 1, 1, o.invoke⟩ :: s.objs
    next := s.next + 1 }

def wrapLoop (p : Nat) : List Out → State → Bool × State
  | [], s => (true, s)
  | o :: os, s =>
    if o.invoke = s.qteeInvoke then
      if o.alloc then
        match s.envs p with
        | some e => wrapLoop p os (objWrapperNew s p e o)
        | none => (false, s)
      else (false, s)
    else wrapLoop p os s

/-- After a failure no output is delivered. The clean-up names the object that could not be wrapped
instead of those that were, so the wrappers made stay without a holder. -/
def abandon (first : Nat) (s : State) : State :=
  { s with objs := s.objs.map fun o => if first ≤ o.id then { o with held := 0 } else o }

inductive Answer
  | refused
  | failed (err : ObjectError)
  | ok
  deriving DecidableEq

def objWrapperInvoke (s : State) (p : Nat) (e : EnvWrapper) (inv : Invocation) : Answer × State :=
  if (systemObjQuotaReached s e || objLimitReached e) && 0 < inv.outs.length then (.refused, s)
  else match inv.err with
    | some err => (.failed err, s)
    | none =>
      match wrapLoop p inv.outs s with
      | (true, s') => (.ok, s')
      | (false, s') => (.failed .kmem, abandon s.next s')

section References

variable (s : State)

def State.obj? (i : Nat) : Option ObjWrapper := s.objs.find? fun o => o.id = i

def getMeta : Ref → Option (Nat × EnvWrapper)
  | .env p => (s.envs p).map (p, ·)
  | .obj i => (s.obj? i).bind fun o => (s.envs o.parentWrapper).map (o.parentWrapper, ·)

def State.wrapped : Ref → Nat
  | .env p => ((s.envs p).map EnvWrapper.obj).getD 0
  | .obj i => ((s.obj? i).map ObjWrapper.obj).getD 0

def State.held : Ref → Nat
  | .env p => ((s.envs p).map EnvWrapper.held).getD 0
  | .obj i => ((s.obj? i).map ObjWrapper.held).getD 0

def envObjWrapperInvoke (w : Ref) (inv : Invocation) : Option (Answer × State) :=
  (getMeta s w).map fun (p, e) =>
    if s.wrapped w = 0 then (.failed .invalid, s) else objWrapperInvoke s p e inv

def State.setObj (o o' : ObjWrapper) : State := { s with objs := o' :: s.objs.erase o }

def retain : Ref → Option State
  | .env p => (s.envs p).map fun e => s.setEnv p { e with refs := e.refs + 1, held := e.held + 1 }
  | .obj i => (s.obj? i).map fun o => s.setObj o { o with refs := o.refs + 1, held := o.held + 1 }

def releaseEnv (p : Nat) (e : EnvWrapper) : State :=
  let e : EnvWrapper := { e with refs := e.refs - 1, held := e.held - 1 }
  if e.refs = 0 then
    let s := decrementObjCount s p e
    let e : EnvWrapper := { e.decremented with obj := 0 }
    if e.qteeObjectCount = 0 then { s with envs := update s.envs p none } else s.setEnv p e
  else s.setEnv p e

def releaseObj (o : ObjWrapper) (e : EnvWrapper) : State :=
  if o.refs - 1 = 0 then
    { decrementObjCount s o.parentWrapper e with objs := s.objs.erase o }
  else s.setObj o { o with refs := o.refs - 1, held := o.held - 1 }

def release : Ref → Option State
  | .env p => (s.envs p).map (releaseEnv s p)
  | .obj i => (s.obj? i).bind fun o => (s.envs o.parentWrapper).map (releaseObj s o)

end References

inductive Action
  | openEnv (alloc : Bool) (root : Option Nat) (env : Nat) (qteeObjectLimit quotaLimit : Int)
  | invoke (w : Ref) (inv : Invocation)
  | retain (w : Ref)
  | release (w : Ref)
  deriving DecidableEq

def step (s : State) : Action → Option State
  | .openEnv alloc root env limit quota =>
    some (if alloc then envWrapperOpen s root env limit quota else s)
  | .invoke w inv => if s.held w = 0 then none else (envObjWrapperInvoke s w inv).map Prod.snd
  | .retain w => if s.held w = 0 then none else retain s w
  | .release w => if s.held w = 0 then none else release s w

def liveObjs (s : State) (p : Nat) : Nat := s.objs.countP fun o => o.parentWrapper = p

/-- What holds in every run: the counter of a client is the number of its wrappers. -/
structure WellFormed (s : State) : Prop where
  env_lt : ∀ p e, s.envs p = some e → p < s.next
  obj_lt : ∀ o ∈ s.objs, o.id < s.next
  parent : ∀ o ∈ s.objs, ∃ e, s.envs o.parentWrapper = some e
  env_refs : ∀ p e, s.envs p = some e → e.refs = e.held
  obj_refs : ∀ o ∈ s.objs, 0 < o.refs ∧ (0 < o.held → o.refs = o.held)
  count : ∀ p e, s.envs p = some e →
    e.qteeObjectCount = (if 0 < e.held then 1 else 0) + (liveObjs s p : Int)

/-- What holds as long as no environment is released for good and no wrapping fails half way. -/
structure Balanced (s : State) : Prop extends WellFormed s where
  env_held : ∀ p e, s.envs p = some e → 0 < e.held
  obj_held : ∀ o ∈ s.objs, 0 < o.held
  system : s.globalCount = 1 + (s.objs.length : Int)

theorem wellFormed_init : WellFormed .init where
  env_lt _ _ h := nomatch h
  obj_lt _ h := nomatch h
  parent _ h := nomatch h
  env_refs _ _ h := nomatch h
  obj_refs _ h := nomatch h
  count _ _ h := nomatch h

theorem balanced_init : Balanced .init where
  toWellFormed := wellFormed_init
  env_held _ _ h := nomatch h
  obj_held _ h := nomatch h
  system := rfl

section Update

variable {s s' : State} {p : Nat} {e : EnvWrapper}

theorem WellFormed.of_update (h : WellFormed s) (henvs : s'.envs = update s.envs p (some e))
    (hnext : s.next ≤ s'.next) (hp : p < s'.next) (hrefs : e.refs = e.held)
    (hcount : e.qteeObjectCount = (if 0 < e.held then 1 else 0) + (liveObjs s' p : Int))
    (hothers : ∀ q, q ≠ p → liveObjs s' q = liveObjs s q)
    (hobjs : ∀ o ∈ s'.objs, o ∈ s.objs ∨
      o.id < s'.next ∧ o.parentWrapper = p ∧ 0 < o.refs ∧ (0 < o.held → o.refs = o.held)) :
    WellFormed s' := by
  have hself : s'.envs p = some e := by rw [henvs, update_self]
  have hother : ∀ q, q ≠ p → s'.envs q = s.envs q := fun q hq => by
    rw [henvs, update_of_ne hq]
  refine ⟨fun q e' hq => ?_, fun o ho => ?_, fun o ho => ?_, fun q e' hq => ?_, fun o ho => ?_,
    fun q e' hq => ?_⟩
  · by_cases hqp : q = p
    · exact hqp ▸ hp
    · rw [hother q hqp] at hq
      exact Nat.lt_of_lt_of_le (h.env_lt q e' hq) hnext
  · rcases hobjs o ho with ho | ho
    · exact Nat.lt_of_lt_of_le (h.obj_lt o ho) hnext
    · exact ho.1
  · rcases hobjs o ho with ho | ho
    · by_cases hqp : o.parentWrapper = p
      · exact ⟨e, hqp ▸ hself⟩
      · obtain ⟨e', he'⟩ := h.parent o ho
        exact ⟨e', (hother _ hqp).trans he'⟩
    · exact ⟨e, ho.2.1 ▸ hself⟩
  · by_cases hqp : q = p
    · subst hqp
      cases hself.symm.trans hq
      exact hrefs
    · rw [hother q hqp] at hq
      exact h.env_refs q e' hq
  · rcases hobjs o ho with ho | ho
    · exact h.obj_refs o ho
    · exact ho.2.2
  · by_cases hqp : q = p
    · subst hqp
      cases hself.symm.trans hq
      exact hcount
    · rw [hother q hqp] at hq
      rw [hothers q hqp]
      exact h.count q e' hq

theorem WellFormed.none_of_next (h : WellFormed s) : s.envs s.next = none := by
  cases he : s.envs s.next with
  | none => rfl
  | some e => exact absurd (h.env_lt _ e he) (Nat.lt_irrefl _)

theorem WellFormed.liveObjs_of_none (h : WellFormed s) (hp : s.envs p = none) :
    liveObjs s p = 0 := by
  rw [liveObjs, countP_eq_zero]
  intro o ho
  obtain ⟨e, he⟩ := h.parent o ho
  simp only [decide_eq_true_eq]
  rintro rfl
  rw [hp] at he
  cases he

theorem WellFormed.envWrapperOpen (h : WellFormed s) (root : Option Nat) (env : Nat)
    (limit quota : Int) : WellFormed (envWrapperOpen s root env limit quota) := by
  have hlive := h.liveObjs_of_none h.none_of_next
  refine h.of_update (p := s.next) (e := ⟨1, 1, env, 1, quota, limit⟩) rfl (Nat.le_succ _)
    (Nat.lt_succ_self _) rfl ?_ (fun _ _ => rfl) (fun o ho => .inl ho)
  change (1 : Int) = 1 + (liveObjs s s.next : Int)
  rw [hlive]
  rfl

theorem liveObjs_cons (s : State) (o : ObjWrapper) (os : List ObjWrapper) (q : Nat) :
    liveObjs { s with objs := o :: os } q =
      liveObjs { s with objs := os } q + if o.parentWrapper = q then 1 else 0 := by
  simp [liveObjs, countP_cons]

variable {o : ObjWrapper}

theorem liveObjs_erase (ho : o ∈ s.objs) (q : Nat) :
    liveObjs { s with objs := s.objs.erase o } q + (if o.parentWrapper = q then 1 else 0) =
      liveObjs s q := by
  have hperm := (perm_cons_erase ho).countP_eq fun o => decide (o.parentWrapper = q)
  simp only [liveObjs]
  rw [hperm, countP_cons]
  simp

theorem WellFormed.objWrapperNew (h : WellFormed s) (hp : s.envs p = some e) (o : Out) :
    WellFormed (objWrapperNew s p e o) := by
  have hcount := h.count p e hp
  have hlive : ∀ q, liveObjs (ObjectQuota.objWrapperNew s p e o) q =
      liveObjs s q + if p = q then 1 else 0 := liveObjs_cons s _ _
  refine h.of_update (e := { e with qteeObjectCount := e.qteeObjectCount + 1 }) rfl
    (Nat.le_succ _) (Nat.lt_succ_of_lt (h.env_lt p e hp)) (h.env_refs p e hp) ?_ ?_ ?_
  · rw [hlive, if_pos rfl]
    dsimp only
    omega
  · intro q hq
    rw [hlive, if_neg (Ne.symm hq), Nat.add_zero]
  · intro x hx
    rcases mem_cons.mp hx with rfl | hx
    · exact .inr ⟨Nat.lt_succ_self _, rfl, Int.one_pos, fun _ => rfl⟩
    · exact .inl hx

theorem Balanced.env_held_update (h : Balanced s)
    (henvs : s'.envs = update s.envs p (some e)) (he : 0 < e.held) (q : Nat)
    (e' : EnvWrapper) (hq : s'.envs q = some e') : 0 < e'.held := by
  rw [henvs, update_apply] at hq
  split_ifs at hq
  · cases hq
    exact he
  · exact h.env_held q e' hq

theorem Balanced.objWrapperNew (h : Balanced s) (hp : s.envs p = some e) (o : Out) :
    Balanced (objWrapperNew s p e o) where
  toWellFormed := h.toWellFormed.objWrapperNew hp o
  env_held := h.env_held_update (e := { e with qteeObjectCount := e.qteeObjectCount + 1 }) rfl
    (h.env_held p e hp)
  obj_held x hx := by
    rcases mem_cons.mp hx with rfl | hx
    · exact Nat.one_pos
    · exact h.obj_held x hx
  system := by
    have hsys := h.system
    simp only [ObjectQuota.objWrapperNew, incrementObjCount, State.setEnv, length_cons]
    omega

theorem wrapLoop_invariant (I : State → Prop)
    (hnew : ∀ s e o, I s → s.envs p = some e → I (objWrapperNew s p e o)) (outs : List Out)
    (h : I s) : I (wrapLoop p outs s).2 := by
  induction outs generalizing s with
  | nil => exact h
  | cons o os ih =>
    rw [wrapLoop]
    by_cases hq : o.invoke = s.qteeInvoke
    · rw [if_pos hq]
      cases o.alloc with
      | false => exact h
      | true =>
        cases he : s.envs p with
        | none => exact h
        | some e => exact ih (hnew s e o h he)
    · rw [if_neg hq]
      exact ih h

theorem WellFormed.abandon (h : WellFormed s) (first : Nat) : WellFormed (abandon first s) := by
  have hlive : ∀ q, liveObjs (ObjectQuota.abandon first s) q = liveObjs s q := by
    intro q
    simp only [liveObjs, ObjectQuota.abandon, countP_map]
    refine countP_congr fun o _ => ?_
    simp only [comp_apply]
    split_ifs <;> rfl
  have hobjs : ∀ x ∈ (ObjectQuota.abandon first s).objs, ∃ o ∈ s.objs, x.id = o.id ∧
      x.parentWrapper = o.parentWrapper ∧ x.refs = o.refs ∧ (x.held = o.held ∨ x.held = 0) := by
    intro x hx
    obtain ⟨o, ho, rfl⟩ := mem_map.mp hx
    refine ⟨o, ho, ?_⟩
    split_ifs
    · exact ⟨rfl, rfl, rfl, .inr rfl⟩
    · exact ⟨rfl, rfl, rfl, .inl rfl⟩
  refine ⟨h.env_lt, fun x hx => ?_, fun x hx => ?_, h.env_refs, fun x hx => ?_, fun q e he => ?_⟩
  · obtain ⟨o, ho, hid, -⟩ := hobjs x hx
    exact hid ▸ h.obj_lt o ho
  · obtain ⟨o, ho, -, hpar, -⟩ := hobjs x hx
    rw [hpar]
    exact h.parent o ho
  · obtain ⟨o, ho, -, -, hrefs, hheld⟩ := hobjs x hx
    have hor := h.obj_refs o ho
    rw [hrefs]
    refine ⟨hor.1, fun hpos => ?_⟩
    rcases hheld with heq | hzero
    · rw [heq] at hpos ⊢
      exact hor.2 hpos
    · omega
  · rw [hlive]
    exact h.count q e he

theorem abandon_of_lt {first : Nat} (h : ∀ o ∈ s.objs, o.id < first) : abandon first s = s := by
  have hmap : s.objs.map (fun o => if first ≤ o.id then { o with held := 0 } else o) = s.objs := by
    refine (map_congr_left fun o ho => ?_).trans (map_id _)
    have hlt := h o ho
    rw [if_neg (by omega)]
    rfl
  simp only [abandon, hmap]

theorem EnvWrapper.decremented_of_pos (h : 0 < e.qteeObjectCount) :
    e.decremented.qteeObjectCount = e.qteeObjectCount - 1 := if_pos h

theorem WellFormed.setObj (h : WellFormed s) {o' : ObjWrapper} (ho : o ∈ s.objs)
    (hid : o'.id = o.id) (hpar : o'.parentWrapper = o.parentWrapper)
    (hrefs : 0 < o'.refs ∧ (0 < o'.held → o'.refs = o'.held)) : WellFormed (s.setObj o o') := by
  obtain ⟨e, he⟩ := h.parent o ho
  have hlive : ∀ q, liveObjs (s.setObj o o') q = liveObjs s q := fun q => by
    rw [State.setObj, liveObjs_cons, hpar, liveObjs_erase ho]
  refine h.of_update (p := o.parentWrapper) (update_eq_self_iff.mpr he.symm).symm
    (Nat.le_refl _) (h.env_lt _ e he) (h.env_refs _ e he) ?_ (fun q _ => hlive q) ?_
  · rw [hlive]
    exact h.count _ e he
  · intro x hx
    rcases mem_cons.mp hx with rfl | hx
    · exact .inr ⟨hid ▸ h.obj_lt o ho, hpar, hrefs⟩
    · exact .inl (mem_of_mem_erase hx)

theorem Balanced.setObj (h : Balanced s) {o' : ObjWrapper} (ho : o ∈ s.objs) (hid : o'.id = o.id)
    (hpar : o'.parentWrapper = o.parentWrapper) (hheld : 0 < o'.held) (hrefs : o'.refs = o'.held) :
    Balanced (s.setObj o o') where
  toWellFormed := h.toWellFormed.setObj ho hid hpar ⟨by omega, fun _ => hrefs⟩
  env_held := h.env_held
  obj_held x hx := by
    rcases mem_cons.mp hx with rfl | hx
    · exact hheld
    · exact h.obj_held x (mem_of_mem_erase hx)
  system := by
    have hlen := (perm_cons_erase ho).length_eq
    rw [length_cons] at hlen
    simp only [State.setObj, length_cons, ← hlen]
    exact h.system

theorem held_env (he : s.envs p = some e) : s.held (.env p) = e.held := by
  simp [State.held, he]

theorem held_obj {i : Nat} (ho : s.obj? i = some o) : s.held (.obj i) = o.held := by
  simp [State.held, ho]

theorem WellFormed.setEnv (h : WellFormed s) (hp : s.envs p = some e) (hheld : 0 < e.held)
    {e' : EnvWrapper} (hheld' : 0 < e'.held) (hrefs : e'.refs = e'.held)
    (hcount : e'.qteeObjectCount = e.qteeObjectCount) : WellFormed (s.setEnv p e') := by
  have hc := h.count p e hp
  refine h.of_update (e := e') rfl (Nat.le_refl _) (h.env_lt p e hp) hrefs ?_
    (fun _ _ => rfl) (fun o ho => .inl ho)
  rw [if_pos hheld'] at *
  rw [hcount, hc, if_pos hheld]
  rfl

theorem Balanced.setEnv (h : Balanced s) (hp : s.envs p = some e) {e' : EnvWrapper}
    (hheld : 0 < e'.held) (hrefs : e'.refs = e'.held)
    (hcount : e'.qteeObjectCount = e.qteeObjectCount) : Balanced (s.setEnv p e') where
  toWellFormed := h.toWellFormed.setEnv hp (h.env_held p e hp) hheld hrefs hcount
  env_held := h.env_held_update rfl hheld
  obj_held := h.obj_held
  system := h.system

theorem WellFormed.retain (h : WellFormed s) {w : Ref} (hheld : s.held w ≠ 0)
    (hs : retain s w = some s') : WellFormed s' := by
  cases w with
  | env p =>
    obtain ⟨e, he, rfl⟩ := map_eq_some_iff.mp hs
    have hrefs := h.env_refs p e he
    rw [held_env he] at hheld
    refine h.setEnv he (Nat.pos_of_ne_zero hheld) (Nat.succ_pos _) ?_ rfl
    dsimp only
    omega
  | obj i =>
    obtain ⟨o, ho, rfl⟩ := map_eq_some_iff.mp hs
    have hmem := mem_of_find?_eq_some ho
    have hrefs := h.obj_refs o hmem
    rw [held_obj ho] at hheld
    refine h.setObj hmem rfl rfl ?_
    dsimp only
    omega

theorem Balanced.retain (h : Balanced s) {w : Ref} (hs : retain s w = some s') : Balanced s' := by
  cases w with
  | env p =>
    obtain ⟨e, he, rfl⟩ := map_eq_some_iff.mp hs
    have hrefs := h.env_refs p e he
    refine h.setEnv he (Nat.succ_pos _) ?_ rfl
    dsimp only
    omega
  | obj i =>
    obtain ⟨o, ho, rfl⟩ := map_eq_some_iff.mp hs
    have hmem := mem_of_find?_eq_some ho
    have hrefs := (h.obj_refs o hmem).2 (h.obj_held o hmem)
    refine h.setObj hmem rfl rfl (Nat.succ_pos _) ?_
    dsimp only
    omega

theorem WellFormed.of_delete (h : WellFormed s) (hlive : liveObjs s p = 0)
    (henvs : s'.envs = update s.envs p none) (hobjs : s'.objs = s.objs)
    (hnext : s'.next = s.next) : WellFormed s' := by
  have henv : ∀ q e', s'.envs q = some e' → s.envs q = some e' := by
    intro q e' hq
    rw [henvs, update_apply] at hq
    split_ifs at hq
    exact hq
  have hsame : ∀ q, liveObjs s' q = liveObjs s q := fun q => by rw [liveObjs, hobjs, liveObjs]
  rw [liveObjs, countP_eq_zero] at hlive
  refine ⟨fun q e' hq => hnext ▸ h.env_lt q e' (henv q e' hq), fun o ho => ?_, fun o ho => ?_,
    fun q e' hq => h.env_refs q e' (henv q e' hq), fun o ho => ?_, fun q e' hq => ?_⟩
  · rw [hobjs] at ho
    exact hnext ▸ h.obj_lt o ho
  · rw [hobjs] at ho
    obtain ⟨e', he'⟩ := h.parent o ho
    have hne : o.parentWrapper ≠ p := by simpa using hlive o ho
    exact ⟨e', by rw [henvs, update_of_ne hne, he']⟩
  · rw [hobjs] at ho
    exact h.obj_refs o ho
  · rw [hsame]
    exact h.count q e' (henv q e' hq)

theorem WellFormed.releaseEnv (h : WellFormed s) (hp : s.envs p = some e) (hheld : 0 < e.held) :
    WellFormed (releaseEnv s p e) := by
  have hcount := h.count p e hp
  have hrefs := h.env_refs p e hp
  unfold ObjectQuota.releaseEnv
  dsimp only
  by_cases hlast : e.refs - 1 = 0
  · have hdec : ({ e with refs := e.refs - 1, held := e.held - 1 } : EnvWrapper).decremented.qteeObjectCount =
        (liveObjs s p : Int) := by
      rw [EnvWrapper.decremented_of_pos (by dsimp only; omega)]
      dsimp only
      omega
    rw [hdec]
    split_ifs with hzero
    · refine h.of_delete (p := p) (by omega) ?_ rfl rfl
      exact update_idem ..
    refine h.of_update (update_idem ..) (Nat.le_refl _) (h.env_lt p e hp) ?_ ?_
      (fun _ _ => rfl) (fun o ho => .inl ho)
    · simp only [EnvWrapper.decremented]
      omega
    · rw [if_neg (by simp only [EnvWrapper.decremented]; omega)]
      exact (Int.zero_add _).symm
  · rw [if_neg hlast]
    refine h.setEnv hp hheld ?_ ?_ rfl <;> dsimp only <;> omega

theorem WellFormed.releaseObj (h : WellFormed s) (ho : o ∈ s.objs) (hheld : 0 < o.held)
    (he : s.envs o.parentWrapper = some e) : WellFormed (releaseObj s o e) := by
  have hcount := h.count _ e he
  have hrefs := (h.obj_refs o ho).2 hheld
  have herase := liveObjs_erase ho
  unfold ObjectQuota.releaseObj
  split_ifs with hlast
  · have hlive := herase o.parentWrapper
    rw [if_pos rfl] at hlive
    refine h.of_update (p := o.parentWrapper) (e := e.decremented) rfl (Nat.le_refl _)
      (h.env_lt _ e he) (h.env_refs _ e he) ?_ (fun q hq => ?_)
      (fun x hx => .inl (mem_of_mem_erase hx))
    · have hpos : 0 < e.qteeObjectCount := by
        split_ifs at hcount <;> omega
      rw [EnvWrapper.decremented_of_pos hpos]
      change _ = (if 0 < e.held then 1 else 0) +
        (liveObjs { s with objs := s.objs.erase o } o.parentWrapper : Int)
      omega
    · have hother := herase q
      rw [if_neg (Ne.symm hq)] at hother
      exact hother
  · refine h.setObj ho rfl rfl ?_
    dsimp only
    omega

theorem WellFormed.release (h : WellFormed s) {w : Ref} (hheld : s.held w ≠ 0)
    (hs : release s w = some s') : WellFormed s' := by
  cases w with
  | env p =>
    obtain ⟨e, he, rfl⟩ := map_eq_some_iff.mp hs
    rw [held_env he] at hheld
    exact h.releaseEnv he (Nat.pos_of_ne_zero hheld)
  | obj i =>
    obtain ⟨o, ho, hs⟩ := bind_eq_some_iff.mp hs
    obtain ⟨e, he, rfl⟩ := map_eq_some_iff.mp hs
    rw [held_obj ho] at hheld
    exact h.releaseObj (mem_of_find?_eq_some ho) (Nat.pos_of_ne_zero hheld) he

theorem Balanced.releaseObj (h : Balanced s) (ho : o ∈ s.objs)
    (he : s.envs o.parentWrapper = some e) : Balanced (releaseObj s o e) := by
  have hwf := h.toWellFormed.releaseObj ho (h.obj_held o ho) he
  have hrefs := (h.obj_refs o ho).2 (h.obj_held o ho)
  have hheld := h.obj_held o ho
  have hsys := h.system
  unfold ObjectQuota.releaseObj at hwf ⊢
  by_cases hlast : o.refs - 1 = 0
  · rw [if_pos hlast] at hwf ⊢
    refine ⟨hwf, h.env_held_update (e := e.decremented) rfl (h.env_held _ e he),
      fun x hx => h.obj_held x (mem_of_mem_erase hx), ?_⟩
    have hlen := (perm_cons_erase ho).length_eq
    rw [length_cons] at hlen
    have hpos : s.globalCount > 0 := by omega
    simp only [decrementObjCount, State.setEnv, sysDecremented]
    omega
  · rw [if_neg hlast]
    refine h.setObj ho rfl rfl ?_ ?_ <;> dsimp only <;> omega

theorem WellFormed.objWrapperInvoke (h : WellFormed s) (inv : Invocation) :
    WellFormed (objWrapperInvoke s p e inv).2 := by
  have hloop := wrapLoop_invariant WellFormed (fun _ _ o hs he => hs.objWrapperNew he o) inv.outs h
    (p := p)
  unfold ObjectQuota.objWrapperInvoke
  split_ifs
  · exact h
  cases inv.err with
  | some err => exact h
  | none =>
    rcases hwrap : wrapLoop p inv.outs s with ⟨ok, s₁⟩
    rw [hwrap] at hloop
    cases ok with
    | true => exact hloop
    | false => exact hloop.abandon s.next

theorem WellFormed.step (h : WellFormed s) {a : Action} (hs : step s a = some s') :
    WellFormed s' := by
  cases a with
  | openEnv alloc root env limit quota =>
    cases hs
    cases alloc with
    | true => exact h.envWrapperOpen root env limit quota
    | false => exact h
  | invoke w inv =>
    obtain ⟨-, hs⟩ := ite_none_left_eq_some.mp hs
    obtain ⟨⟨ans, s₁⟩, hinv, rfl⟩ := map_eq_some_iff.mp hs
    obtain ⟨⟨p, e⟩, -, heq⟩ := map_eq_some_iff.mp hinv
    have hkeep := h.objWrapperInvoke (p := p) (e := e) inv
    dsimp only at heq
    split_ifs at heq
    · cases heq
      exact h
    · rw [heq] at hkeep
      exact hkeep
  | retain w =>
    obtain ⟨hheld, hs⟩ := ite_none_left_eq_some.mp hs
    exact h.retain hheld hs
  | release w =>
    obtain ⟨hheld, hs⟩ := ite_none_left_eq_some.mp hs
    exact h.release hheld hs

theorem held_env_update (henvs : s'.envs = update s.envs p (some e)) (q : Nat) :
    s'.held (.env q) = if q = p then e.held else s.held (.env q) := by
  simp only [State.held, henvs, update_apply]
  split_ifs <;> rfl

theorem held_env_same (hp : s.envs p = some e) (d : EnvWrapper) (hd : d.held = e.held)
    (henvs : s'.envs = update s.envs p (some d)) (q : Nat) :
    s'.held (.env q) = s.held (.env q) := by
  rw [held_env_update henvs q]
  split_ifs with hq
  · rw [hq, held_env hp, hd]
  · rfl

theorem held_env_retain (hs : retain s (.env p) = some s') (q : Nat) :
    s'.held (.env q) = if q = p then s.held (.env p) + 1 else s.held (.env q) := by
  obtain ⟨e, he, rfl⟩ := map_eq_some_iff.mp hs
  rw [held_env_update rfl q, held_env he]

theorem held_env_retain_obj {i : Nat} (hs : retain s (.obj i) = some s') (q : Nat) :
    s'.held (.env q) = s.held (.env q) := by
  obtain ⟨o, -, rfl⟩ := map_eq_some_iff.mp hs
  rfl

theorem WellFormed.held_env_release (h : WellFormed s)
    (hs : ObjectQuota.release s (.env p) = some s') (q : Nat) :
    s'.held (.env q) = if q = p then s.held (.env p) - 1 else s.held (.env q) := by
  obtain ⟨e, he, rfl⟩ := map_eq_some_iff.mp hs
  have hrefs := h.env_refs p e he
  rw [held_env he]
  unfold ObjectQuota.releaseEnv
  dsimp only
  by_cases hlast : e.refs - 1 = 0
  · split_ifs with hzero hq hq
    · have hone : e.held - 1 = 0 := by omega
      simp [State.held, hq, hone]
    · simp [State.held, decrementObjCount, State.setEnv, hq]
    · rw [held_env_update (update_idem ..) q, if_pos hq]
      rfl
    · exact (held_env_update (update_idem ..) q).trans (if_neg hq)
  · rw [if_neg hlast]
    exact held_env_update (e := { e with refs := e.refs - 1, held := e.held - 1 }) rfl q

theorem release_envs_of_ne {q : Nat} (hs : release s (.env p) = some s') (hq : q ≠ p) :
    s'.envs q = s.envs q := by
  obtain ⟨e, -, rfl⟩ := map_eq_some_iff.mp hs
  unfold ObjectQuota.releaseEnv
  dsimp only
  split_ifs <;> simp [decrementObjCount, State.setEnv, hq]

theorem held_env_release_obj {i : Nat} (hs : release s (.obj i) = some s') (q : Nat) :
    s'.held (.env q) = s.held (.env q) := by
  obtain ⟨o, -, hs⟩ := bind_eq_some_iff.mp hs
  obtain ⟨e, he, rfl⟩ := map_eq_some_iff.mp hs
  unfold ObjectQuota.releaseObj
  split_ifs
  · exact held_env_same he e.decremented rfl rfl q
  · rfl

theorem held_env_objWrapperInvoke (inv : Invocation) (q : Nat) :
    (objWrapperInvoke s p e inv).2.held (.env q) = s.held (.env q) := by
  have hloop := wrapLoop_invariant (fun t => t.held (.env q) = s.held (.env q))
    (fun t e o ht he => Eq.trans (held_env_same he
      { e with qteeObjectCount := e.qteeObjectCount + 1 } rfl rfl q) ht)
    inv.outs rfl (p := p)
  unfold ObjectQuota.objWrapperInvoke
  split_ifs
  · rfl
  cases inv.err with
  | some err => rfl
  | none =>
    rcases hwrap : wrapLoop p inv.outs s with ⟨ok, s₁⟩
    rw [hwrap] at hloop
    cases ok with
    | true | false => exact hloop

theorem held_env_invoke {w : Ref} {inv : Invocation} (hs : step s (.invoke w inv) = some s')
    (q : Nat) : s'.held (.env q) = s.held (.env q) := by
  obtain ⟨-, hs⟩ := ite_none_left_eq_some.mp hs
  obtain ⟨⟨ans, s₁⟩, hinv, rfl⟩ := map_eq_some_iff.mp hs
  obtain ⟨⟨p, e⟩, -, heq⟩ := map_eq_some_iff.mp hinv
  have hkeep := held_env_objWrapperInvoke (s := s) (p := p) (e := e) inv q
  dsimp only at heq
  split_ifs at heq
  · cases heq
    rfl
  · rw [heq] at hkeep
    exact hkeep

end Update

section Runs

variable {s s' : State}

def WholeOrNothing (qteeInvoke : Nat) (outs : List Out) : Prop :=
  (∀ o ∈ outs, o.invoke = qteeInvoke → o.alloc = true) ∨
    (outs.find? fun o => o.invoke = qteeInvoke).all (fun o => !o.alloc) = true

/-- The steps that keep the account: no last reference to an environment is given up, and no
wrapping fails after another one of the same call. -/
def Fair (s : State) : Action → Prop
  | .invoke _ inv => WholeOrNothing s.qteeInvoke inv.outs
  | .release (.env p) => s.held (.env p) ≠ 1
  | _ => True

theorem wrapLoop_ok {p : Nat} {outs : List Out} (hp : ∃ e, s.envs p = some e)
    (h : ∀ o ∈ outs, o.invoke = s.qteeInvoke → o.alloc = true) : (wrapLoop p outs s).1 = true := by
  induction outs generalizing s with
  | nil => rfl
  | cons o os ih =>
    obtain ⟨e, he⟩ := hp
    rw [wrapLoop]
    by_cases hq : o.invoke = s.qteeInvoke
    · rw [if_pos hq, if_pos (h o mem_cons_self hq), he]
      refine ih ⟨_, update_self ..⟩ fun x hx => ?_
      exact h x (mem_cons_of_mem _ hx)
    · rw [if_neg hq]
      exact ih ⟨e, he⟩ fun x hx => h x (mem_cons_of_mem _ hx)

theorem wrapLoop_nothing {p : Nat} {outs : List Out}
    (h : (outs.find? fun o => o.invoke = s.qteeInvoke).all (fun o => !o.alloc) = true) :
    (wrapLoop p outs s).2 = s := by
  induction outs with
  | nil => rfl
  | cons o os ih =>
    rw [wrapLoop]
    by_cases hq : o.invoke = s.qteeInvoke
    · have hfail : o.alloc = false := by simpa [hq] using h
      simp [hq, hfail]
    · rw [if_neg hq]
      exact ih (by simpa [hq] using h)

theorem Balanced.objWrapperInvoke (h : Balanced s) {p : Nat} {e : EnvWrapper}
    (he : s.envs p = some e) {inv : Invocation} (hw : WholeOrNothing s.qteeInvoke inv.outs) :
    Balanced (objWrapperInvoke s p e inv).2 := by
  have hloop := wrapLoop_invariant Balanced (fun _ _ o hs he => hs.objWrapperNew he o) inv.outs h
    (p := p)
  unfold ObjectQuota.objWrapperInvoke
  split_ifs
  · exact h
  cases inv.err with
  | some err => exact h
  | none =>
    rcases hwrap : wrapLoop p inv.outs s with ⟨ok, s₁⟩
    rw [hwrap] at hloop
    cases ok with
    | true => exact hloop
    | false =>
      have hsame : s₁ = s := by
        rcases hw with hall | hfirst
        · have hok := wrapLoop_ok ⟨e, he⟩ hall
          rw [hwrap] at hok
          cases hok
        · have hnone := wrapLoop_nothing (p := p) hfirst
          rw [hwrap] at hnone
          exact hnone
      subst hsame
      dsimp only
      rw [abandon_of_lt h.obj_lt]
      exact h

theorem getMeta_envs {w : Ref} {p : Nat} {e : EnvWrapper} (h : getMeta s w = some (p, e)) :
    s.envs p = some e := by
  cases w with
  | env q =>
    obtain ⟨e', he', heq⟩ := map_eq_some_iff.mp h
    cases heq
    exact he'
  | obj i =>
    obtain ⟨o, -, h⟩ := bind_eq_some_iff.mp h
    obtain ⟨e', he', heq⟩ := map_eq_some_iff.mp h
    cases heq
    exact he'

theorem Balanced.envWrapperOpen (h : Balanced s) (root : Option Nat) (env : Nat)
    (limit quota : Int) : Balanced (envWrapperOpen s root env limit quota) where
  toWellFormed := h.toWellFormed.envWrapperOpen root env limit quota
  env_held := h.env_held_update (e := ⟨1, 1, env, 1, quota, limit⟩) rfl Nat.one_pos
  obj_held := h.obj_held
  system := h.system

theorem Balanced.step (h : Balanced s) {a : Action} (hfair : Fair s a) (hs : step s a = some s') :
    Balanced s' := by
  cases a with
  | openEnv alloc root env limit quota =>
    cases hs
    cases alloc with
    | true => exact h.envWrapperOpen root env limit quota
    | false => exact h
  | invoke w inv =>
    obtain ⟨-, hs⟩ := ite_none_left_eq_some.mp hs
    obtain ⟨⟨ans, s₁⟩, hinv, rfl⟩ := map_eq_some_iff.mp hs
    obtain ⟨⟨p, e⟩, hmeta, heq⟩ := map_eq_some_iff.mp hinv
    have hkeep := h.objWrapperInvoke (getMeta_envs hmeta) hfair
    dsimp only at heq
    split_ifs at heq
    · cases heq
      exact h
    · rw [heq] at hkeep
      exact hkeep
  | retain w =>
    obtain ⟨-, hs⟩ := ite_none_left_eq_some.mp hs
    exact h.retain hs
  | release w =>
    obtain ⟨hheld, hs⟩ := ite_none_left_eq_some.mp hs
    cases w with
    | env p =>
      obtain ⟨e, he, rfl⟩ := map_eq_some_iff.mp hs
      have hfair : s.held (.env p) ≠ 1 := hfair
      rw [held_env he] at hheld hfair
      have hrefs := h.env_refs p e he
      have hlast : ¬ e.refs - 1 = 0 := by omega
      unfold ObjectQuota.releaseEnv
      rw [if_neg hlast]
      refine h.setEnv he ?_ ?_ rfl <;> dsimp only <;> omega
    | obj i =>
      obtain ⟨o, ho, hs⟩ := bind_eq_some_iff.mp hs
      obtain ⟨e, he, rfl⟩ := map_eq_some_iff.mp hs
      exact h.releaseObj (mem_of_find?_eq_some ho) he

structure Accounts (s : State) : Prop where
  system : s.globalCount = State.init.globalCount + (s.objs.countP fun o => 0 < o.held : Nat)
  client : ∀ p e, s.envs p = some e → e.qteeObjectCount = (if 0 < e.held then 1 else 0) +
    (s.objs.countP fun o => o.parentWrapper = p && 0 < o.held : Nat)

/-- An invocation of a wrapped object for output objects is refused just when a limit is reached. -/
def RefusesAtLimit (s : State) : Prop :=
  ∀ w inv p e ans s', getMeta s w = some (p, e) → s.wrapped w ≠ 0 → inv.outs ≠ [] →
    envObjWrapperInvoke s w inv = some (ans, s') →
    (ans = .refused ↔
      e.maxSystemObjectLimit ≤ s.globalCount ∨ e.maxQTEEObjectLimit ≤ e.qteeObjectCount)

theorem Balanced.accounts (h : Balanced s) : Accounts s where
  system := by
    have hall : s.objs.countP (fun o => decide (0 < o.held)) = s.objs.length :=
      countP_eq_length.mpr fun o ho => decide_eq_true (h.obj_held o ho)
    rw [hall]
    exact h.system
  client p e he := by
    have hsame : s.objs.countP (fun o => decide (o.parentWrapper = p) && decide (0 < o.held)) =
        liveObjs s p :=
      countP_congr fun o ho => by simp [h.obj_held o ho]
    rw [hsame]
    exact h.count p e he

theorem refusesAtLimit (s : State) : RefusesAtLimit s := by
  intro w inv p e ans s' hmeta hwrapped houts hinv
  simp only [envObjWrapperInvoke, hmeta, map_some, if_neg hwrapped] at hinv
  have hlen : 0 < inv.outs.length := length_pos_iff.mpr houts
  have hreached : (systemObjQuotaReached s e || objLimitReached e) = true ↔
      e.maxSystemObjectLimit ≤ s.globalCount ∨ e.maxQTEEObjectLimit ≤ e.qteeObjectCount := by
    simp [systemObjQuotaReached, objLimitReached]
  rw [← hreached]
  unfold ObjectQuota.objWrapperInvoke at hinv
  by_cases hlim : (systemObjQuotaReached s e || objLimitReached e) = true
  · rw [if_pos (by simp [hlim, hlen])] at hinv
    cases hinv
    simp [hlim]
  rw [if_neg (by simp [hlim])] at hinv
  refine iff_of_false ?_ hlim
  rintro rfl
  split at hinv
  · cases hinv
  · split at hinv <;> cases hinv

theorem wellFormed_of_run {as : List Action} (h : Run.exec step .init as = some s) : WellFormed s :=
  Run.exec_invariant WellFormed wellFormed_init (fun _ _ _ hs ht => hs.step ht) h

/-- In a fair run each client is charged for the objects it holds, and refused at its limit. -/
theorem quota_accounts_of_fair {as : List Action} (h : Run.Guarded step Fair .init as s) :
    Accounts s ∧ RefusesAtLimit s := by
  have hbal := h.invariant Balanced balanced_init fun s a t hs hok ht => hs.step hok ht
  exact ⟨hbal.accounts, refusesAtLimit s⟩

instance (qteeInvoke : Nat) (outs : List Out) : Decidable (WholeOrNothing qteeInvoke outs) :=
  inferInstanceAs (Decidable (_ ∨ _))

instance (s : State) (a : Action) : Decidable (Fair s a) :=
  match a with
  | .invoke _ _ => inferInstanceAs (Decidable (WholeOrNothing _ _))
  | .release (.env _) => inferInstanceAs (Decidable (_ ≠ _))
  | .release (.obj _) | .openEnv .. | .retain _ => inferInstanceAs (Decidable True)

def twoClients : List Action :=
  [.openEnv true (some 7) 5 20 100, .openEnv true none 5 20 100,
    .invoke (.env 0) ⟨none, [⟨7, true⟩, ⟨3, true⟩, ⟨7, true⟩]⟩, .retain (.env 1), .release (.env 1),
    .release (.obj 2)]

theorem quota_accounts_two_clients :
    ∃ s, Run.execIf step Fair .init twoClients = some s ∧ s.globalCount = 2 ∧ Accounts s ∧
      RefusesAtLimit s := by
  obtain ⟨s, hs, hrun⟩ := Run.exists_guarded step Fair .init twoClients (by decide)
  have hcount : (Run.execIf step Fair .init twoClients).map State.globalCount = some 2 := by decide
  rw [hs] at hcount
  exact ⟨s, hs, Option.some.inj hcount, quota_accounts_of_fair hrun⟩

theorem wellFormed_two_clients : ∃ s, Run.exec step .init twoClients = some s ∧ WellFormed s :=
  ⟨_, rfl, wellFormed_of_run (rfl : Run.exec step .init twoClients = _)⟩

/-- Giving up an environment lowers the count of the system; a wrapping that fails second leaves the
first wrapper counted. -/
theorem quota_miscounts :
    (∃ s, Run.exec step .init [.openEnv true (some 7) 5 20 100, .release (.env 0)] = some s ∧
      s.globalCount = 0 ∧ s.objs = [] ∧ ¬ Accounts s) ∧
    ∃ s, Run.exec step .init [.openEnv true (some 7) 5 20 100,
        .invoke (.env 0) ⟨none, [⟨7, true⟩, ⟨7, false⟩]⟩] = some s ∧
      s.globalCount = 2 ∧ s.objs.all (fun o => o.held = 0) ∧ ¬ Accounts s :=
  ⟨⟨_, rfl, rfl, rfl, fun h => absurd h.system (by decide)⟩,
    ⟨_, rfl, rfl, rfl, fun h => absurd h.system (by decide)⟩⟩

end Runs

end MinkIpc.ObjectQuota
