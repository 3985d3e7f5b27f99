import MinkIpc.TzComMarshal
import MinkIpc.Ledger

/-! One request of the driver served by a call-back thread, from the moment it
is accepted until the thread asks for the next one, with the references taken
and released on the way. -/

namespace MinkIpc.TzCom

open List

/-- The references a thread deals with; `null` stands for the argument of an
`Object_release` on a null object. -/
inductive Ref
  | target
  | input (i : Nat)
  | output (i : Nat)
  | null
  deriving DecidableEq, Repr

abbrev Log := List (Ledger.Entry Ref Empty)

inductive Input
  | null
  | descriptor (fd : Int32)
  | callback (obj : Nat)
  deriving DecidableEq, Repr

def getObjectFromHandle (alloc : Bool) (c : CBContext) (handle : Int32) :
    CBContext × Except ObjectError Input :=
  if handle = -1 then (c, .ok .null)
  else if -1 < handle then (c, if alloc then .ok (.descriptor handle) else .error .badObj)
  else ((c.getLocalObj handle).1, (c.getLocalObj handle).2.map .callback)

structure Inputs where
  ctx : CBContext
  objs : List Input
  ret : Option ObjectError
  deriving DecidableEq, Repr

def getInputs (alloc : Nat → Bool) (c : CBContext) : Nat → List Int32 → Inputs
  | _, [] => ⟨c, [], none⟩
  | i, handle :: handles =>
    match getObjectFromHandle (alloc i) c handle with
    | (c, .error e) => ⟨c, [], some e⟩
    | (c, .ok obj) =>
      let rest := getInputs alloc c (i + 1) handles
      { rest with objs := obj :: rest.objs }

def inputRefs : Nat → List Input → List Ref
  | _, [] => []
  | i, .null :: objs => inputRefs (i + 1) objs
  | i, _ :: objs => .input i :: inputRefs (i + 1) objs

-- `Object_ASSIGN_NULL` passes over null objects
def marshalRequestIn (alloc : Nat → Bool) (c : CBContext) (handles : List Int32) : Inputs × Log :=
  let r := getInputs alloc c 0 handles
  let refs := inputRefs 0 r.objs
  if r.ret.isSome then
    ({ r with ret := some .badObj }, refs.map .acquire ++ refs.map .release)
  else (r, refs.map .acquire)

/-- The arguments of `Object_release` in the loop over the inputs, which does
not ask whether an input is null. -/
def releasedRefs : Nat → List Input → List Ref
  | _, [] => []
  | i, .null :: objs => .null :: releasedRefs (i + 1) objs
  | i, _ :: objs => .input i :: releasedRefs (i + 1) objs

structure Accept where
  release : Bool
  cbobjId : Int32
  inputs : List Int32
  deriving DecidableEq, Repr

/-- What the invoked object does: it returns a result and outputs, and leaves
the tables of the context in any state. -/
structure Invocation where
  result : Option ObjectError
  outputs : List Object
  ctx : CBContext
  memRegions : List Nat

structure Returned where
  ctx : CBContext
  outputs : List Object
  response : Response

structure Served where
  ctx : CBContext
  memRegions : List Nat
  memReleased : Option Nat
  log : Log
  returned : Option Returned

/-- The descriptors of the memory objects, and the inputs for which there is
memory for a `MinkDescriptor`. -/
structure Host extends Kernel where
  descriptor : Nat → Int32
  alloc : Nat → Bool

def clearLocalMemObj (w : Host) (memRegions : List Nat) (handle : Int32) : Option Nat :=
  memRegions.find? fun obj => w.descriptor obj == handle

def worker2 (w : Host) (inv : Invocation) (c : CBContext) (memRegions : List Nat)
    (req : Accept) : Served :=
  if req.release then
    if w.checkDmaBufFd req.cbobjId then
      ⟨c, memRegions, clearLocalMemObj w memRegions req.cbobjId, [], none⟩
    else ⟨(c.clearLocalObj req.cbobjId).1, memRegions, none, [], none⟩
  else
    match c.getLocalObj req.cbobjId with
    | (c, .error _) => ⟨c, memRegions, none, [], none⟩
    | (c, .ok _) =>
      let r := marshalRequestIn w.alloc c req.inputs
      if r.1.ret.isSome then
        -- `continue`
        ⟨r.1.ctx, memRegions, none, .acquire .target :: r.2, none⟩
      else
        let log := .acquire .target :: r.2 ++ (releasedRefs 0 r.1.objs).map .release
        if inv.result.isSome then
          ⟨inv.ctx, inv.memRegions, none, log ++ [.release .target], none⟩
        else
          let out := marshalResponseOut w.toKernel inv.ctx inv.memRegions inv.outputs
          ⟨out.ctx, out.memRegions, none, log ++ [.release .target],
            some ⟨inv.ctx, inv.outputs, out⟩⟩

/-- The outputs from number `i` on, marshalled from the context `c`: each is
null, released, kept as memory in the list, or kept in the slot its handle
names. -/
def AllKept (k : Kernel) (log : Log) (final : Response) : Nat → CBContext → List Object → Prop
  | _, _, [] => True
  | i, c, obj :: objs =>
    let r := getHandleFromObject k c 0 obj
    (obj = .null ∨ .release (.output i) ∈ log ∨
      ((∃ fd ∈ obj.memFd, k.checkDmaBufFd fd) ∧ ∃ o ∈ fdWrapperOf obj, o ∈ final.memRegions) ∨
      (obj.isLocal ∧ ValidHandle k c r.ctx r.handle obj ∧
        final.ctx.slot (indexOf r.handle) = r.ctx.slot (indexOf r.handle))) ∧
    AllKept k log final (i + 1) r.ctx objs

structure Balanced (k : Kernel) (s : Served) : Prop where
  once : ∀ r, .acquire r ∈ s.log → Ledger.released s.log r = 1
  only : ∀ r, .acquire r ∉ s.log → .release r ∉ s.log
  notNull : .release .null ∉ s.log
  outputs : ∀ ret ∈ s.returned, AllKept k s.log ret.response 0 ret.ctx ret.outputs

def Object.Keepable (k : Kernel) (obj : Object) : Prop :=
  obj = .null ∨ obj.isLocal ∨ ((∃ fd ∈ obj.memFd, k.checkDmaBufFd fd) ∧ (fdWrapperOf obj).isSome)

def Resolves (c : CBContext) (alloc : Bool) (handle : Int32) : Prop :=
  (-1 < handle ∧ alloc) ∨ (handle ≤ maxLocObjHandle ∧ (c.slot (indexOf handle)).isSome)

def Absent (c : CBContext) (handle : Int32) : Prop :=
  maxLocObjHandle < handle ∨ c.slot (indexOf handle) = none

/-- The requests served without a loss: releases, requests for a missing object, and requests with
inputs that are all found, none null, and outputs the context keeps. -/
def Lossless (w : Host) (inv : Invocation) (c : CBContext) (req : Accept) : Prop :=
  req.release ∨ Absent c req.cbobjId ∨
    ((∀ i handle, req.inputs[i]? = some handle → Resolves c (w.alloc i) handle) ∧
      (inv.result = none →
        (∀ obj ∈ inv.outputs, obj.Keepable w.toKernel) ∧ Room inv.ctx inv.outputs))

section Inputs

variable {alloc : Nat → Bool} {c : CBContext}

variable {handle : Int32}

theorem getLocalObj_absent (h : Absent c handle) : c.getLocalObj handle = (c, .error .badObj) := by
  unfold CBContext.getLocalObj
  by_cases hm : maxLocObjHandle < handle
  · rw [if_pos hm]
  · rw [if_neg hm, h.resolve_left hm]

theorem getLocalObj_present (h : ¬ Absent c handle) :
    ∃ obj, c.getLocalObj handle = ({ c with lent := obj :: c.lent }, .ok obj) := by
  unfold Absent at h
  push Not at h
  obtain ⟨held, hheld⟩ := Option.ne_none_iff_exists'.mp h.2
  refine ⟨held.obj, ?_⟩
  unfold CBContext.getLocalObj
  rw [if_neg h.1, hheld]

theorem not_neg_one_le : ¬ (-1 : Int32) ≤ maxLocObjHandle := by decide

theorem le_maxLocObjHandle (h : handle ≠ -1) (h' : ¬ -1 < handle) : handle ≤ maxLocObjHandle := by
  have h₁ : (-1 : Int32).toInt = -1 := by decide
  have h₂ : maxLocObjHandle.toInt = -2 := by decide
  have hne : handle.toInt ≠ -1 := fun he => h (Int32.toInt_inj.mp (he.trans h₁.symm))
  have hle := Int32.le_iff_toInt_le.mp (Int32.not_lt.mp h')
  rw [Int32.le_iff_toInt_le]
  omega

theorem getObjectFromHandle_cases (a : Bool) (c : CBContext) (handle : Int32) :
    (Resolves c a handle ∧ ∃ lent obj, obj ≠ .null ∧
      getObjectFromHandle a c handle = ({ c with lent := lent }, .ok obj)) ∨
    (¬ Resolves c a handle ∧ ((getObjectFromHandle a c handle = (c, .ok .null)) ∨
      getObjectFromHandle a c handle = (c, .error .badObj))) := by
  unfold getObjectFromHandle
  by_cases hnull : handle = -1
  · subst hnull
    refine .inr ⟨?_, .inl (if_pos rfl)⟩
    rintro (⟨h, -⟩ | ⟨h, -⟩)
    · exact absurd h (by decide)
    · exact not_neg_one_le h
  · rw [if_neg hnull]
    by_cases hd : -1 < handle
    · have hm : ¬ handle ≤ maxLocObjHandle := by
        intro h
        exact absurd (Int32.lt_of_lt_of_le hd h) (by decide)
      rw [if_pos hd]
      cases a with
      | true => exact .inl ⟨.inl ⟨hd, rfl⟩, c.lent, .descriptor handle, by simp, rfl⟩
      | false => exact .inr ⟨by simp [Resolves, hm], .inr rfl⟩
    · have hle := le_maxLocObjHandle hnull hd
      rw [if_neg hd]
      by_cases habs : Absent c handle
      · rw [getLocalObj_absent habs]
        have hnone := habs.resolve_left (Int32.not_lt.mpr hle)
        exact .inr ⟨by simp [Resolves, hd, hnone], .inr rfl⟩
      obtain ⟨obj, hobj⟩ := getLocalObj_present habs
      have hsome : (c.slot (indexOf handle)).isSome :=
        Option.isSome_iff_ne_none.mpr fun h => habs (.inr h)
      rw [hobj]
      exact .inl ⟨.inr ⟨hle, hsome⟩, obj :: c.lent, .callback obj, by simp, rfl⟩

theorem getInputs_iff (handles : List Int32) (i : Nat) :
    ((getInputs alloc c i handles).ret = none ∧ .null ∉ (getInputs alloc c i handles).objs) ↔
      ∀ j handle, handles[j]? = some handle → Resolves c (alloc (i + j)) handle := by
  induction handles generalizing c i with
  | nil => simp [getInputs]
  | cons handle handles ih =>
    have hsplit : (∀ j h, (handle :: handles)[j]? = some h → Resolves c (alloc (i + j)) h) ↔
        Resolves c (alloc i) handle ∧
          ∀ j h, handles[j]? = some h → Resolves c (alloc (i + 1 + j)) h := by
      constructor
      · intro h
        refine ⟨h 0 handle rfl, fun j x hx => ?_⟩
        rw [Nat.add_assoc, Nat.add_comm 1 j]
        exact h (j + 1) x hx
      · rintro ⟨h₀, hrest⟩ j x hx
        cases j with
        | zero =>
          obtain rfl : handle = x := Option.some.inj hx
          exact h₀
        | succ j =>
          rw [show i + (j + 1) = i + 1 + j by omega]
          exact hrest j x hx
    rw [hsplit]
    rcases getObjectFromHandle_cases (alloc i) c handle with
      ⟨hres, lent, obj, hobj, he⟩ | ⟨hres, he | he⟩
    · have hrest := ih (c := { c with lent := lent }) (i + 1)
      simp only [getInputs, he, mem_cons, not_or]
      rw [and_left_comm, hrest]
      exact ⟨fun h => ⟨hres, h.2⟩, fun h => ⟨hobj.symm, h.2⟩⟩
    · simp [getInputs, he, hres]
    · simp [getInputs, he, hres]

end Inputs

section Refs

variable {objs : List Input}

theorem releasedRefs_eq (h : .null ∉ objs) (i : Nat) : releasedRefs i objs = inputRefs i objs := by
  induction objs generalizing i with
  | nil => rfl
  | cons obj objs ih =>
    rw [mem_cons, not_or] at h
    obtain ⟨hobj, hrest⟩ := h
    cases obj with
    | null => exact absurd rfl hobj
    | descriptor fd | callback o => exact congrArg (.input i :: ·) (ih hrest (i + 1))

theorem null_mem_releasedRefs (h : .null ∈ objs) (i : Nat) : .null ∈ releasedRefs i objs := by
  induction objs generalizing i with
  | nil => cases h
  | cons obj objs ih =>
    cases obj with
    | null => exact mem_cons_self
    | descriptor fd | callback o => exact mem_cons_of_mem _ (ih (by simpa using h) _)

theorem mem_inputRefs {i : Nat} {r : Ref} (h : r ∈ inputRefs i objs) :
    ∃ j, i ≤ j ∧ r = .input j := by
  induction objs generalizing i with
  | nil => cases h
  | cons obj objs ih =>
    have hrest : r ∈ inputRefs (i + 1) objs → ∃ j, i ≤ j ∧ r = .input j := by
      intro hr
      obtain ⟨j, hj, he⟩ := ih hr
      exact ⟨j, by omega, he⟩
    cases obj with
    | null => exact hrest h
    | descriptor fd | callback o =>
      rcases mem_cons.mp h with rfl | hr
      · exact ⟨i, le_rfl, rfl⟩
      · exact hrest hr

theorem nodup_inputRefs (objs : List Input) (i : Nat) : (inputRefs i objs).Nodup := by
  induction objs generalizing i with
  | nil => exact nodup_nil
  | cons obj objs ih =>
    have hnew : .input i ∉ inputRefs (i + 1) objs := by
      intro h
      obtain ⟨j, hj, he⟩ := mem_inputRefs h
      injection he with he
      omega
    cases obj with
    | null => exact ih (i + 1)
    | descriptor fd | callback o => exact nodup_cons.mpr ⟨hnew, ih (i + 1)⟩

variable (l : List Ref) (r : Ref)

theorem acquired_map_acquire : Ledger.acquired (l.map .acquire : Log) r = l.count r :=
  count_map_of_injective l _ (fun _ _ h => by injection h) r

theorem released_map_release : Ledger.released (l.map .release : Log) r = l.count r :=
  count_map_of_injective l _ (fun _ _ h => by injection h) r

theorem released_map_acquire : Ledger.released (l.map .acquire : Log) r = 0 := by
  rw [Ledger.released, count_eq_zero]
  simp

theorem acquired_map_release : Ledger.acquired (l.map .release : Log) r = 0 := by
  rw [Ledger.acquired, count_eq_zero]
  simp

end Refs

section Outputs

variable {k : Kernel} {log : Log} {objs : List Object}

theorem not_local_of_mem_memFd {obj : Object} {fd : Fd} (h : fd ∈ obj.memFd) : ¬ obj.isLocal := by
  cases obj with
  | null | descriptor context => cases h
  | other o unwrapFd w =>
    have hm : (Object.other o unwrapFd w).memFd = some fd := h
    simp [Object.isLocal, hm]

theorem Object.Keepable.not_fails {obj : Object} (h : obj.Keepable k) : ¬ obj.Fails k := by
  rcases h with rfl | hl | ⟨⟨fd, hfd, hd⟩, -⟩
  · simp [Object.Fails, Object.memFd]
  · obtain ⟨o, -, hf⟩ := getHandle_local k .empty 0 hl
    exact hf
  · rintro (rfl | ⟨fd', hfd', hd'⟩)
    · cases hfd
    · obtain rfl : fd = fd' := Option.mem_unique hfd hfd'
      exact hd' hd

theorem AllKept.keepable {final : Response} (hlog : ∀ i, .release (.output i) ∉ log) {i : Nat}
    {c : CBContext} (h : AllKept k log final i c objs) :
    (∀ obj ∈ objs, obj.Keepable k) ∧ Room c objs := by
  induction objs generalizing i c with
  | nil => exact ⟨by simp, room_nil c⟩
  | cons obj objs ih =>
    obtain ⟨hobj, hrest⟩ := h
    obtain ⟨hkeep, hroom⟩ := ih hrest
    rw [forall_mem_cons]
    rcases hobj with rfl | hrel | ⟨⟨fd, hfd, hd⟩, o, ho, -⟩ | ⟨hl, hv, -⟩
    · exact ⟨⟨.inl rfl, hkeep⟩, (room_cons_of_not_local (by simp [Object.isLocal])).mpr hroom⟩
    · exact absurd hrel (hlog i)
    · have hl := not_local_of_mem_memFd hfd
      rw [(getHandle_other _ _ _ hl).1] at hroom
      exact ⟨⟨.inr (.inr ⟨⟨fd, hfd, hd⟩, Option.isSome_iff_exists.mpr ⟨o, ho⟩⟩), hkeep⟩,
        (room_cons_of_not_local hl).mpr hroom⟩
    · refine ⟨⟨.inr (.inl hl), hkeep⟩, ?_⟩
      obtain ⟨o, ho, -⟩ := getHandle_local k c 0 hl
      rw [ho] at hroom
      by_contra hno
      rcases not_room_cases hl hno with hfull | hn
      · have := (validHandle_local hl).mp hv
        omega
      · exact hn o hroom

theorem mem_marshalOutputs {s : Response} {o : Nat} (h : o ∈ s.memRegions) :
    o ∈ (marshalOutputs k s objs).memRegions := by
  induction objs generalizing s with
  | nil => exact h
  | cons obj objs ih =>
    apply ih
    unfold marshalOutput
    dsimp only
    split
    · exact mem_append_left _ h
    · exact h

theorem mem_marshalOutput {s : Response} {obj : Object} {fd : Fd} (hfd : fd ∈ obj.memFd)
    (hd : k.checkDmaBufFd fd) {o : Nat} (ho : o ∈ fdWrapperOf obj) :
    o ∈ (marshalOutput k s obj).memRegions := by
  have hnum : obj.number = fd := by
    cases obj with
    | null | descriptor context => cases hfd
    | other x unwrapFd w =>
      have hm : (Object.other x unwrapFd w).memFd = some fd := hfd
      simp [Object.number, hm]
  have hhandle : (getHandleFromObject k s.ctx 0 obj).handle = fd :=
    (getHandle_other _ _ 0 (not_local_of_mem_memFd hfd)).2.2.trans hnum
  have ho' : fdWrapperOf obj = some o := ho
  simp [marshalOutput, hhandle, hd, ho']

theorem allKept_marshalOutputs {s : Response} {i : Nat} (hkeep : ∀ obj ∈ objs, obj.Keepable k)
    (hroom : Room s.ctx objs) : AllKept k log (marshalOutputs k s objs) i s.ctx objs := by
  induction objs generalizing s i with
  | nil => trivial
  | cons obj objs ih =>
    obtain ⟨hobj, hrest⟩ := forall_mem_cons.mp hkeep
    refine ⟨?_, ih (s := marshalOutput k s obj) hrest hroom.marshalOutput⟩
    rcases hobj with rfl | hl | ⟨⟨fd, hfd, hd⟩, hw⟩
    · exact .inl rfl
    · have hv := (validHandle_local (k := k) hl).mpr (hroom.store hl).1
      refine .inr (.inr (.inr ⟨hl, hv, ?_⟩))
      obtain ⟨o, ho, -⟩ := getHandle_local k s.ctx 0 hl
      have hslot : (marshalOutput k s obj).ctx.slot s.ctx.freeIndex = some ⟨o, s.ctx.taken⟩ := by
        change (getHandleFromObject k s.ctx 0 obj).ctx.slot s.ctx.freeIndex = _
        rw [ho, s.ctx.slot_getLocObjHandle, if_pos rfl]
        rfl
      change (marshalOutputs k (marshalOutput k s obj) objs).ctx.slot
          (indexOf (getHandleFromObject k s.ctx 0 obj).handle) =
        (marshalOutput k s obj).ctx.slot (indexOf (getHandleFromObject k s.ctx 0 obj).handle)
      rw [ho, indexOf_handleOf (hroom.store hl).1, hslot, slot_marshalOutputs_of_some hslot]
    · obtain ⟨o, ho⟩ := Option.isSome_iff_exists.mp hw
      have hmem : o ∈ (marshalOutputs k (marshalOutput k s obj) objs).memRegions :=
        mem_marshalOutputs (mem_marshalOutput hfd hd ho)
      exact .inr (.inr (.inl ⟨⟨fd, hfd, hd⟩, o, ho, hmem⟩))

theorem allKept_iff (hlog : ∀ i, .release (.output i) ∉ log) {c : CBContext}
    {memRegions : List Nat} :
    AllKept k log (marshalResponseOut k c memRegions objs) 0 c objs ↔
      (∀ obj ∈ objs, obj.Keepable k) ∧ Room c objs := by
  refine ⟨fun h => h.keepable hlog, fun ⟨hkeep, hroom⟩ => ?_⟩
  have hret : ¬ (marshalOutputs k ⟨c, memRegions, none, []⟩ objs).ret.isSome := by
    rw [marshalOutputs_ret (s := ⟨c, memRegions, none, []⟩) hroom]
    rintro (⟨h, -⟩ | ⟨pre, obj, post, rfl, hf, -⟩)
    · cases h
    · exact (hkeep obj (by simp)).not_fails hf
  have hout : marshalResponseOut k c memRegions objs =
      marshalOutputs k ⟨c, memRegions, none, []⟩ objs := by
    unfold marshalResponseOut
    rw [if_neg hret]
  rw [hout]
  exact allKept_marshalOutputs hkeep hroom

end Outputs

def servedLog (objs : List Input) : Log :=
  .acquire .target :: (inputRefs 0 objs).map .acquire ++ (releasedRefs 0 objs).map .release ++
    [.release .target]

section Log

variable {objs : List Input}

theorem servedLog_counts (h : .null ∉ objs) (r : Ref) :
    Ledger.released (servedLog objs) r = Ledger.acquired (servedLog objs) r ∧
      Ledger.acquired (servedLog objs) r = (.target :: inputRefs 0 objs).count r := by
  unfold servedLog
  rw [releasedRefs_eq h]
  simp only [Ledger.released_append, Ledger.released_cons, Ledger.acquired_append,
    Ledger.acquired_cons, acquired_map_acquire,
    released_map_release, released_map_acquire, acquired_map_release, count_cons]
  by_cases hr : r = .target
  · simp
  · have hr' : ¬ .target = r := fun h => hr h.symm
    simp

theorem not_mem_inputRefs {r : Ref} (h : ∀ j, r ≠ .input j) : r ∉ inputRefs 0 objs := by
  intro hm
  obtain ⟨j, -, he⟩ := mem_inputRefs hm
  exact h j he

theorem servedLog_settled (h : .null ∉ objs) :
    (∀ r, .acquire r ∈ servedLog objs → Ledger.released (servedLog objs) r = 1) ∧
      ∀ r, .acquire r ∉ servedLog objs → .release r ∉ servedLog objs := by
  have hnodup : (.target :: inputRefs 0 objs).Nodup :=
    nodup_cons.mpr ⟨not_mem_inputRefs (by simp), nodup_inputRefs objs 0⟩
  refine (Ledger.balanced_iff fun r => ?_).mpr fun r => (servedLog_counts h r).1
  rw [(servedLog_counts h r).2]
  exact nodup_iff_count_le_one.mp hnodup r

theorem not_mem_servedLog (h : .null ∉ objs) {r : Ref} (ht : r ≠ .target)
    (hr : ∀ j, r ≠ .input j) : .release r ∉ servedLog objs := by
  unfold servedLog
  rw [releasedRefs_eq h]
  have hm : r ∉ inputRefs 0 objs := not_mem_inputRefs hr
  simp [ht, hm]

end Log

section Cases

variable {w : Host} {inv : Invocation} {c : CBContext} {memRegions : List Nat} {req : Accept}

theorem balanced_of_log_nil {k : Kernel} {s : Served} (hlog : s.log = [])
    (hret : s.returned = none) : Balanced k s := by
  refine ⟨?_, ?_, ?_, ?_⟩
  · intro r h
    rw [hlog] at h
    cases h
  · intro r _ h
    rw [hlog] at h
    cases h
  · rw [hlog]
    exact not_mem_nil
  · intro ret h
    rw [hret] at h
    cases h

variable (w inv memRegions) in
theorem worker2_log_nil (h : req.release ∨ Absent c req.cbobjId) :
    (worker2 w inv c memRegions req).log = [] ∧
      (worker2 w inv c memRegions req).returned = none := by
  unfold worker2
  by_cases hr : req.release
  · rw [if_pos hr]
    split <;> exact ⟨rfl, rfl⟩
  · rw [if_neg hr, getLocalObj_absent (h.resolve_left hr)]
    exact ⟨rfl, rfl⟩

section Found

variable {obj : Nat} {c' : CBContext} (hr : ¬ req.release)
  (hget : c.getLocalObj req.cbobjId = (c', .ok obj))
include hr hget

theorem not_balanced_of_inputs (h : (getInputs w.alloc c' 0 req.inputs).ret.isSome) :
    ¬ Balanced w.toKernel (worker2 w inv c memRegions req) := by
  intro hb
  have honce := hb.once .target
  unfold worker2 marshalRequestIn at honce
  rw [if_neg hr, hget] at honce
  dsimp only at honce
  rw [if_pos h] at honce
  have hone := honce (by simp)
  have hnot : .target ∉ inputRefs 0 (getInputs w.alloc c' 0 req.inputs).objs :=
    not_mem_inputRefs (by simp)
  simp [released_map_acquire, released_map_release, count_eq_zero.mpr hnot] at hone

variable (inv memRegions) in
theorem worker2_served (h : (getInputs w.alloc c' 0 req.inputs).ret = none) :
    (worker2 w inv c memRegions req).log = servedLog (getInputs w.alloc c' 0 req.inputs).objs ∧
      (worker2 w inv c memRegions req).returned =
        if inv.result.isSome then none
        else some ⟨inv.ctx, inv.outputs,
          marshalResponseOut w.toKernel inv.ctx inv.memRegions inv.outputs⟩ := by
  have hmr : marshalRequestIn w.alloc c' req.inputs = (getInputs w.alloc c' 0 req.inputs,
      (inputRefs 0 (getInputs w.alloc c' 0 req.inputs).objs).map .acquire) := by
    rw [marshalRequestIn, if_neg (by simp [h])]
  unfold worker2
  rw [if_neg hr, hget]
  dsimp only
  rw [hmr, if_neg (by simp [h])]
  by_cases hres : inv.result.isSome
  · rw [if_pos hres, if_pos hres]
    exact ⟨rfl, rfl⟩
  · rw [if_neg hres, if_neg hres]
    exact ⟨rfl, rfl⟩

theorem balanced_served_iff (h : (getInputs w.alloc c' 0 req.inputs).ret = none) :
    Balanced w.toKernel (worker2 w inv c memRegions req) ↔
      .null ∉ (getInputs w.alloc c' 0 req.inputs).objs ∧ (inv.result = none →
        (∀ obj ∈ inv.outputs, obj.Keepable w.toKernel) ∧ Room inv.ctx inv.outputs) := by
  obtain ⟨hlog, hret⟩ := worker2_served inv memRegions hr hget h
  by_cases hnull : .null ∈ (getInputs w.alloc c' 0 req.inputs).objs
  · refine iff_of_false ?_ fun h => h.1 hnull
    intro hb
    apply hb.notNull
    rw [hlog]
    have hm := null_mem_releasedRefs hnull 0
    simp [servedLog, hm]
  · have hsettled := servedLog_settled hnull
    have hout (i : Nat) := not_mem_servedLog hnull (r := .output i) (by simp) (by simp)
    constructor
    · intro hb
      refine ⟨hnull, fun hres => ?_⟩
      have hkept := hb.outputs _ (by rw [hret, hres]; rfl)
      rw [hlog] at hkept
      exact (allKept_iff hout).mp hkept
    · rintro ⟨-, hkeep⟩
      refine ⟨by rw [hlog]; exact hsettled.1, by rw [hlog]; exact hsettled.2, ?_, ?_⟩
      · rw [hlog]
        exact not_mem_servedLog hnull (by simp) (by simp)
      · intro ret hm
        rw [hret] at hm
        cases hres : inv.result with
        | none =>
          rw [hres] at hm
          obtain rfl := Option.some.inj hm
          rw [hlog]
          exact (allKept_iff hout).mpr (hkeep hres)
        | some e =>
          rw [hres] at hm
          cases hm

end Found

end Cases

/-- The references of a request balance if and only if it is served without a loss. -/
theorem worker2_balanced_iff (w : Host) (inv : Invocation) (c : CBContext)
    (memRegions : List Nat) (req : Accept) :
    Balanced w.toKernel (worker2 w inv c memRegions req) ↔ Lossless w inv c req := by
  by_cases hnil : req.release ∨ Absent c req.cbobjId
  · obtain ⟨hlog, hret⟩ := worker2_log_nil w inv memRegions hnil
    refine iff_of_true (balanced_of_log_nil hlog hret) ?_
    rcases hnil with hr | ha
    · exact .inl hr
    · exact .inr (.inl ha)
  · rw [not_or] at hnil
    obtain ⟨hr, habs⟩ := hnil
    obtain ⟨obj, hget⟩ := getLocalObj_present habs
    have hinputs := @getInputs_iff w.alloc { c with lent := obj :: c.lent } req.inputs 0
    simp only [Nat.zero_add] at hinputs
    have hlossless : Lossless w inv c req ↔
        ((∀ i handle, req.inputs[i]? = some handle → Resolves c (w.alloc i) handle) ∧
          (inv.result = none →
            (∀ obj ∈ inv.outputs, obj.Keepable w.toKernel) ∧ Room inv.ctx inv.outputs)) := by
      unfold Lossless
      rw [or_iff_right hr, or_iff_right habs]
    cases hret : (getInputs w.alloc { c with lent := obj :: c.lent } 0 req.inputs).ret with
    | none =>
      rw [balanced_served_iff hr hget hret, hlossless]
      refine and_congr_left' ?_
      rw [hret] at hinputs
      exact ⟨fun h => hinputs.mp ⟨rfl, h⟩, fun h => (hinputs.mpr h).2⟩
    | some e =>
      refine iff_of_false (not_balanced_of_inputs hr hget (by rw [hret]; rfl)) fun h => ?_
      have hnone := (hinputs.mpr (hlossless.mp h).1).1
      rw [hret] at hnone
      cases hnone

/-- A null input is released; an input that is not found leaves the reference on the target; a
descriptor object among the outputs is neither kept nor released. -/
theorem worker2_not_balanced :
    .release .null ∈ (worker2 ⟨⟨fun _ => false⟩, fun _ => 0, fun _ => true⟩
      ⟨none, [], .empty, []⟩ (CBContext.empty.getLocObjHandle (some 7)).1 []
      ⟨false, -2, [-1]⟩).log ∧
    Ledger.released (worker2 ⟨⟨fun _ => false⟩, fun _ => 0, fun _ => true⟩
      ⟨none, [], .empty, []⟩ (CBContext.empty.getLocObjHandle (some 7)).1 []
      ⟨false, -2, [-9]⟩).log .target = 0 ∧
    ¬ Balanced ⟨fun _ => false⟩ (worker2 ⟨⟨fun _ => false⟩, fun _ => 0, fun _ => true⟩
      ⟨none, [.descriptor (some ⟨4, by decide⟩)], .empty, []⟩
      (CBContext.empty.getLocObjHandle (some 7)).1 [] ⟨false, -2, []⟩) := by
  refine ⟨by decide, by decide, ?_⟩
  intro h
  rcases (h.outputs _ rfl).1 with h | h | ⟨⟨_, h, -⟩, -⟩ | ⟨h, -⟩
  · cases h
  · exact absurd h (by decide)
  · cases h
  · cases h

end MinkIpc.TzCom
