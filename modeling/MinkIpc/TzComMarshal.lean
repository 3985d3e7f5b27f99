import MinkIpc.TzComTable
import Mathlib.Data.Finset.Card
import Mathlib.Data.Finset.Range

/-! The handles of the objects a call-back context passes to the driver. Each local object takes a
slot of the table, so that a call given up half-way has slots to clear. -/

namespace MinkIpc.TzCom

open List

/-- A descriptor of the process: `MinkDescriptor_new` is called on no other. -/
abbrev Fd := { fd : Int32 // 0 ≤ fd }

structure Kernel where
  dmaBuf : Fd → Bool

-- the `ioctl` fails on a negative descriptor, with `EBADF`
def Kernel.checkDmaBufFd (k : Kernel) (fd : Int32) : Bool :=
  if h : 0 ≤ fd then k.dmaBuf ⟨fd, h⟩ else false

/-- `descriptor` is an object with the invoke function `invoke_over_ioctl`, its
context null or a `MinkDescriptor`. Any other object answers `Object_unwrapFd`
with a number or with an error. -/
inductive Object
  | null
  | descriptor (context : Option Fd)
  | other (obj : Nat) (unwrapFd : Option Int32) (fdWrapper : Bool)
  deriving DecidableEq, Repr

namespace Object

def memFd : Object → Option Fd
  | .other _ (some fd) _ => if h : 0 ≤ fd then some ⟨fd, h⟩ else none
  | _ => none

def isLocal : Object → Bool
  | .other obj unwrapFd w => ((Object.other obj unwrapFd w).memFd).isNone
  | _ => false

end Object

structure Handle where
  ctx : CBContext
  ret : Option ObjectError
  handle : Int32
  deriving DecidableEq, Repr

def getHandleFromObject (k : Kernel) (c : CBContext) (handle : Int32) : Object → Handle
  | .null => ⟨c, none, -1⟩
  | .descriptor (some fd) => ⟨c, none, fd⟩
  | .descriptor none => ⟨c, some .badObj, handle⟩
  | .other obj unwrapFd w =>
    match (Object.other obj unwrapFd w).memFd with
    | some fd => ⟨c, if k.checkDmaBufFd fd then none else some .badObj, fd⟩
    | none => ⟨(c.getLocObjHandle (some obj)).1, none, (c.getLocObjHandle (some obj)).2⟩

def fdWrapperOf : Object → Option Nat
  | .other obj _ true => some obj
  | _ => none

/-- What `marshalResponseOut` has done so far. `memRegions` has the nodes
appended to the list of memory objects. -/
structure Response where
  ctx : CBContext
  memRegions : List Nat
  ret : Option ObjectError
  fds : List Int32
  deriving DecidableEq, Repr

def marshalOutput (k : Kernel) (s : Response) (obj : Object) : Response :=
  let r := getHandleFromObject k s.ctx 0 obj
  { ctx := r.ctx
    memRegions :=
      if k.checkDmaBufFd r.handle then s.memRegions ++ (fdWrapperOf obj).toList
      else s.memRegions
    -- `ret` is what `addMemObjToList` returns, and 0 again when that is an error
    ret := if k.checkDmaBufFd r.handle then none else s.ret <|> r.ret
    fds := s.fds ++ [r.handle] }

def marshalOutputs (k : Kernel) (s : Response) (objs : List Object) : Response :=
  objs.foldl (marshalOutput k) s

def releaseHandles (c : CBContext) (fds : List Int32) : CBContext :=
  fds.foldl (fun c fd => if fd ≤ maxLocObjHandle then (c.clearLocalObj fd).1 else c) c

def marshalResponseOut (k : Kernel) (c : CBContext) (memRegions : List Nat)
    (objs : List Object) : Response :=
  let s := marshalOutputs k ⟨c, memRegions, none, []⟩ objs
  if s.ret.isSome then { s with ctx := releaseHandles s.ctx s.fds } else s

structure Request where
  ctx : CBContext
  ret : Option ObjectError
  fds : List Int32
  deriving DecidableEq, Repr

def marshalIn (k : Kernel) (c : CBContext) : List Object → Request
  | [] => ⟨c, none, []⟩
  | obj :: objs =>
    let r := getHandleFromObject k c (-1) obj
    if r.ret.isSome then ⟨r.ctx, some .badObj, []⟩
    else
      let rest := marshalIn k r.ctx objs
      { rest with fds := r.handle :: rest.fds }

/-- No handle is found: a null context, or memory that is no dma buffer. -/
def Object.Fails (k : Kernel) (obj : Object) : Prop :=
  obj = .descriptor none ∨ ∃ fd ∈ obj.memFd, ¬ k.checkDmaBufFd fd

def Object.number : Object → Int32
  | .null => -1
  | .descriptor (some fd) => fd
  | .descriptor none => 0
  | .other obj unwrapFd w => ((Object.other obj unwrapFd w).memFd).elim 0 Subtype.val

def Object.Dma (k : Kernel) (obj : Object) : Prop :=
  ¬ obj.isLocal ∧ k.checkDmaBufFd obj.number

variable {k : Kernel} {c : CBContext} {obj : Object} {objs : List Object} {s : Response}

variable (k c) in
theorem getHandle_local (handle : Int32) (h : obj.isLocal) : ∃ o,
      getHandleFromObject k c handle obj =
        ⟨(c.getLocObjHandle (some o)).1, none, handleOf c.freeIndex⟩ ∧
      ¬ obj.Fails k := by
  cases obj with
  | null | descriptor context => cases h
  | other o unwrapFd w =>
    have hm : (Object.other o unwrapFd w).memFd = none := Option.isNone_iff_eq_none.mp h
    refine ⟨o, ?_, ?_⟩
    · simp only [getHandleFromObject, hm]
      rfl
    · rintro (he | ⟨fd, hfd, -⟩)
      · cases he
      · rw [hm] at hfd
        cases hfd

variable (k c) in
theorem getHandle_other (handle : Int32) (h : ¬ obj.isLocal) :
    (getHandleFromObject k c handle obj).ctx = c ∧
      ((getHandleFromObject k c handle obj).ret.isSome ↔ obj.Fails k) ∧
      ((getHandleFromObject k c 0 obj).handle = obj.number) := by
  cases obj with
  | null => simp [getHandleFromObject, Object.Fails, Object.memFd, Object.number]
  | descriptor context =>
    cases context with
    | none => simp [getHandleFromObject, Object.Fails, Object.number]
    | some fd => simp [getHandleFromObject, Object.Fails, Object.memFd, Object.number]
  | other o unwrapFd w =>
    obtain ⟨fd, hfd⟩ : ∃ fd, (Object.other o unwrapFd w).memFd = some fd :=
      Option.ne_none_iff_exists'.mp fun hn => h (Option.isNone_iff_eq_none.mpr hn)
    by_cases hd : k.checkDmaBufFd fd
    · simp [getHandleFromObject, Object.Fails, Object.number, hfd]
    · simp [getHandleFromObject, Object.Fails, Object.number, hfd]

def CBContext.inUse (c : CBContext) : Finset Nat :=
  (Finset.range handleLimit).filter fun i => (c.slot i).isSome

def Room (c : CBContext) (objs : List Object) : Prop :=
  c.inUse.card + objs.countP Object.isLocal ≤ handleLimit

theorem mem_inUse {i : Nat} : i ∈ c.inUse ↔ i < handleLimit ∧ (c.slot i).isSome := by
  rw [CBContext.inUse, Finset.mem_filter, Finset.mem_range]

theorem card_inUse_le (c : CBContext) : c.inUse.card ≤ handleLimit := by
  calc c.inUse.card ≤ (Finset.range handleLimit).card := Finset.card_filter_le _ _
    _ = handleLimit := Finset.card_range handleLimit

theorem room_nil (c : CBContext) : Room c [] := by
  unfold Room
  rw [countP_nil, Nat.add_zero]
  exact card_inUse_le c

theorem freeIndex_lt_iff (c : CBContext) :
    c.freeIndex < handleLimit ↔ c.inUse.card < handleLimit := by
  have hsub : c.inUse ⊆ Finset.range handleLimit := Finset.filter_subset _ _
  constructor
  · intro h
    have hss : c.inUse ⊂ Finset.range handleLimit := by
      refine Finset.ssubset_iff_subset_ne.mpr ⟨hsub, fun he => ?_⟩
      have hm : c.freeIndex ∈ c.inUse := he ▸ Finset.mem_range.mpr h
      have hs := (mem_inUse.mp hm).2
      rw [c.slot_freeIndex] at hs
      cases hs
    simpa using Finset.card_lt_card hss
  · intro h
    by_contra hge
    have he : c.inUse = Finset.range handleLimit := by
      refine Finset.Subset.antisymm hsub fun i hi => ?_
      have hi' := Finset.mem_range.mp hi
      exact mem_inUse.mpr ⟨hi', c.slot_isSome_of_lt_freeIndex (by omega)⟩
    rw [he, Finset.card_range] at h
    omega

theorem card_inUse_store (h : c.freeIndex < handleLimit) (obj : Nat) :
    (c.getLocObjHandle (some obj)).1.inUse.card = c.inUse.card + 1 := by
  have hnot : c.freeIndex ∉ c.inUse := by
    intro hm
    have hs := (mem_inUse.mp hm).2
    rw [c.slot_freeIndex] at hs
    cases hs
  have hinsert : (c.getLocObjHandle (some obj)).1.inUse = insert c.freeIndex c.inUse := by
    ext i
    rw [mem_inUse, Finset.mem_insert, mem_inUse, c.slot_getLocObjHandle]
    by_cases hi : i = c.freeIndex
    · simp [hi, h]
    · simp [hi]
  rw [hinsert, Finset.card_insert_of_notMem hnot]

theorem Room.store (hl : obj.isLocal) (h : Room c (obj :: objs)) :
    c.freeIndex < handleLimit ∧ ∀ o, Room (c.getLocObjHandle (some o)).1 objs := by
  unfold Room at h
  rw [countP_cons_of_pos hl] at h
  have hfree : c.freeIndex < handleLimit := (freeIndex_lt_iff c).mpr (by omega)
  refine ⟨hfree, fun o => ?_⟩
  unfold Room
  rw [card_inUse_store hfree]
  omega

theorem not_room_cases (hl : obj.isLocal) (h : ¬ Room c (obj :: objs)) :
    handleLimit ≤ c.freeIndex ∨ ∀ o, ¬ Room (c.getLocObjHandle (some o)).1 objs := by
  by_cases hfree : c.freeIndex < handleLimit
  · refine .inr fun o hr => h ?_
    unfold Room at hr ⊢
    rw [card_inUse_store hfree] at hr
    rw [countP_cons_of_pos hl]
    omega
  · exact .inl (by omega)

theorem room_cons_of_not_local (hl : ¬ obj.isLocal) : Room c (obj :: objs) ↔ Room c objs := by
  unfold Room
  rw [countP_cons_of_neg hl]

/-- A handle the driver can send back: null, the number of a descriptor or dma buffer, or the slot
that was free and has the object now. -/
def ValidHandle (k : Kernel) (before after : CBContext) (handle : Int32) : Object → Prop
  | .null => handle = -1
  | .descriptor context => context.map Subtype.val = some handle
  | .other obj unwrapFd w =>
    match (Object.other obj unwrapFd w).memFd with
    | some fd => k.checkDmaBufFd fd ∧ handle = fd
    | none => handle ≤ maxLocObjHandle ∧ before.slot (indexOf handle) = none ∧
        (after.slot (indexOf handle)).map Held.obj = some obj

def AllReceived (k : Kernel) : CBContext → List Object → Prop
  | _, [] => True
  | c, obj :: objs =>
    let r := getHandleFromObject k c 0 obj
    ValidHandle k c r.ctx r.handle obj ∧ AllReceived k r.ctx objs

theorem validHandle_local (hl : obj.isLocal) :
    ValidHandle k c (getHandleFromObject k c 0 obj).ctx (getHandleFromObject k c 0 obj).handle obj ↔
      c.freeIndex < handleLimit := by
  cases obj with
  | null | descriptor context => cases hl
  | other o unwrapFd w =>
    have hm : (Object.other o unwrapFd w).memFd = none := Option.isNone_iff_eq_none.mp hl
    simp only [getHandleFromObject, ValidHandle, hm, c.getLocObjHandle_snd]
    constructor
    · rintro ⟨hle, hfree, -⟩
      -- a position past the limit is not the one its handle names, and those before it are taken
      by_contra hge
      have hlt := indexOf_lt (Int32.not_lt.mpr hle)
      have hs := c.slot_isSome_of_lt_freeIndex (i := indexOf (handleOf c.freeIndex)) (by omega)
      rw [hfree] at hs
      cases hs
    · intro h
      rw [indexOf_handleOf h, c.slot_getLocObjHandle, if_pos rfl]
      exact ⟨handleOf_le h, c.slot_freeIndex, rfl⟩

theorem validHandle_other (hl : ¬ obj.isLocal) :
    ValidHandle k c (getHandleFromObject k c 0 obj).ctx (getHandleFromObject k c 0 obj).handle obj ↔
      ¬ obj.Fails k := by
  cases obj with
  | null => simp [getHandleFromObject, ValidHandle, Object.Fails, Object.memFd]
  | descriptor context =>
    cases context with
    | none => simp [ValidHandle, Object.Fails]
    | some fd => simp [getHandleFromObject, ValidHandle, Object.Fails, Object.memFd]
  | other o unwrapFd w =>
    obtain ⟨fd, hfd⟩ : ∃ fd, (Object.other o unwrapFd w).memFd = some fd :=
      Option.ne_none_iff_exists'.mp fun hn => hl (Option.isNone_iff_eq_none.mpr hn)
    simp [getHandleFromObject, ValidHandle, Object.Fails, hfd]

theorem checkDmaBufFd_of_le {fd : Int32} (h : fd ≤ maxLocObjHandle) :
    k.checkDmaBufFd fd = false := by
  have hneg : ¬ (0 : Int32) ≤ fd := by
    have := Int32.le_iff_toInt_le.mp h
    rw [Int32.le_iff_toInt_le]
    have h2 : maxLocObjHandle.toInt = -2 := by decide
    have h0 : (0 : Int32).toInt = 0 := by decide
    omega
  rw [Kernel.checkDmaBufFd, dif_neg hneg]

theorem not_number_le (obj : Object) : ¬ obj.number ≤ maxLocObjHandle := by
  have hfd (fd : Fd) : ¬ fd.val ≤ maxLocObjHandle := by
    have := fd.property
    rw [Int32.le_iff_toInt_le] at this ⊢
    have h2 : maxLocObjHandle.toInt = -2 := by decide
    have h0 : (0 : Int32).toInt = 0 := by decide
    omega
  cases obj with
  | null => simp only [Object.number]; decide
  | descriptor context =>
    cases context with
    | none => simp only [Object.number]; decide
    | some fd => exact hfd fd
  | other o unwrapFd w =>
    simp only [Object.number]
    cases (Object.other o unwrapFd w).memFd with
    | none => simp only [Option.elim_none]; decide
    | some fd => exact hfd fd

section Step

variable {k : Kernel} {s : Response} {obj : Object} {objs : List Object}

theorem marshalOutput_ctx_other (hl : ¬ obj.isLocal) : (marshalOutput k s obj).ctx = s.ctx :=
  (getHandle_other _ _ _ hl).1

theorem marshalOutput_fds_other (hl : ¬ obj.isLocal) :
    (marshalOutput k s obj).fds = s.fds ++ [obj.number] :=
  congrArg (s.fds ++ [·]) (getHandle_other _ _ 0 hl).2.2

theorem marshalOutput_local (hl : obj.isLocal) : ∃ o,
    (marshalOutput k s obj).ctx = (s.ctx.getLocObjHandle (some o)).1 ∧
      (marshalOutput k s obj).fds = s.fds ++ [handleOf s.ctx.freeIndex] := by
  obtain ⟨o, ho, -⟩ := getHandle_local k s.ctx 0 hl
  exact ⟨o, by rw [marshalOutput, ho], by rw [marshalOutput, ho]⟩

theorem Room.marshalOutput (h : Room s.ctx (obj :: objs)) :
    Room (marshalOutput k s obj).ctx objs := by
  by_cases hl : obj.isLocal
  · obtain ⟨o, ho, -⟩ := marshalOutput_local hl
    rw [ho]
    exact (h.store hl).2 o
  · rw [marshalOutput_ctx_other hl]
    exact (room_cons_of_not_local hl).mp h

theorem marshalOutput_ret (h : Room s.ctx (obj :: objs)) :
    (TzCom.marshalOutput k s obj).ret.isSome ↔ ¬ obj.Dma k ∧ (s.ret.isSome ∨ obj.Fails k) := by
  by_cases hl : obj.isLocal
  · obtain ⟨o, ho, hf⟩ := getHandle_local k s.ctx 0 hl
    have hd : k.checkDmaBufFd (handleOf s.ctx.freeIndex) = false :=
      checkDmaBufFd_of_le (handleOf_le (h.store hl).1)
    have hnd : ¬ obj.Dma k := fun hd => hd.1 hl
    simp [TzCom.marshalOutput, ho, hd, hf, hnd]
  · obtain ⟨-, hret, hnum⟩ := getHandle_other k s.ctx 0 hl
    by_cases hd : k.checkDmaBufFd obj.number
    · have : obj.Dma k := ⟨hl, hd⟩
      simp [TzCom.marshalOutput, hnum, hd, this]
    · have : ¬ obj.Dma k := fun h => hd h.2
      simp [TzCom.marshalOutput, hnum, hd, this, hret]

end Step

/-- Some object finds no handle, and no number stored from there on is that of
a dma buffer. -/
def Pending (k : Kernel) (objs : List Object) : Prop :=
  ∃ pre obj post, objs = pre ++ obj :: post ∧ obj.Fails k ∧ ∀ x ∈ obj :: post, ¬ x.Dma k

theorem pending_cons : Pending k (obj :: objs) ↔
      (obj.Fails k ∧ ∀ x ∈ obj :: objs, ¬ x.Dma k) ∨ Pending k objs := by
  constructor
  · rintro ⟨pre, x, post, he, hf, hd⟩
    cases pre with
    | nil =>
      obtain ⟨rfl, rfl⟩ := cons.inj he
      exact .inl ⟨hf, hd⟩
    | cons y pre =>
      obtain ⟨-, rfl⟩ := cons.inj he
      exact .inr ⟨pre, x, post, rfl, hf, hd⟩
  · rintro (⟨hf, hd⟩ | ⟨pre, x, post, rfl, hf, hd⟩)
    · exact ⟨[], obj, objs, rfl, hf, hd⟩
    · exact ⟨obj :: pre, x, post, rfl, hf, hd⟩

theorem marshalOutputs_ret (h : Room s.ctx objs) : (marshalOutputs k s objs).ret.isSome ↔
      (s.ret.isSome ∧ ∀ x ∈ objs, ¬ x.Dma k) ∨ Pending k objs := by
  induction objs generalizing s with
  | nil =>
    have hp : ¬ Pending k [] := by
      rintro ⟨pre, obj, post, he, -⟩
      simp at he
    simp [marshalOutputs, hp]
  | cons obj objs ih =>
    have hstep := marshalOutput_ret (k := k) h
    change (marshalOutputs k (marshalOutput k s obj) objs).ret.isSome ↔ _
    rw [ih h.marshalOutput, pending_cons, forall_mem_cons]
    tauto

theorem allReceived_iff (h : Room c objs) : AllReceived k c objs ↔ ∀ obj ∈ objs, ¬ obj.Fails k := by
  induction objs generalizing c with
  | nil => simp [AllReceived]
  | cons obj objs ih =>
    rw [AllReceived, forall_mem_cons]
    by_cases hl : obj.isLocal
    · obtain ⟨o, ho, hf⟩ := getHandle_local k c 0 hl
      obtain ⟨hfree, hroom⟩ := h.store hl
      rw [validHandle_local hl, ho, ih (hroom o)]
      simp [hfree, hf]
    · rw [validHandle_other hl, (getHandle_other _ _ _ hl).1, ih ((room_cons_of_not_local hl).mp h)]

/-- What the roll-back rests on: the local handles stored so far name slots that
were free in `c`, all other slots are as they were, and the count is right. -/
structure Filled (c : CBContext) (s : Response) : Prop where
  free : ∀ fd ∈ s.fds, fd ≤ maxLocObjHandle →
    c.slot (indexOf fd) = none ∧ indexOf fd < s.ctx.mLocObjTab.length
  same : ∀ i, (∀ fd ∈ s.fds, fd ≤ maxLocObjHandle → indexOf fd ≠ i) → s.ctx.slot i = c.slot i
  count : s.ctx.mLocObjCnt = c.mLocObjCnt + s.fds.countP (· ≤ maxLocObjHandle)

theorem Filled.slot_eq_none (hs : Filled c s) {i : Nat} (h : s.ctx.slot i = none) :
    c.slot i = none := by
  by_cases hn : ∃ fd ∈ s.fds, fd ≤ maxLocObjHandle ∧ indexOf fd = i
  · obtain ⟨fd, hm, hle, rfl⟩ := hn
    exact (hs.free fd hm hle).1
  · rw [← hs.same i fun fd hm hle he => hn ⟨fd, hm, hle, he⟩, h]

theorem Filled.store (hs : Filled c s) (hfree : s.ctx.freeIndex < handleLimit) {o : Nat}
    {t : Response} (hctx : t.ctx = (s.ctx.getLocObjHandle (some o)).1)
    (hfds : t.fds = s.fds ++ [handleOf s.ctx.freeIndex]) : Filled c t := by
  have hle := handleOf_le hfree
  have hidx := indexOf_handleOf hfree
  refine ⟨?_, ?_, ?_⟩
  · intro fd hm hfd
    rw [hctx, s.ctx.length_getLocObjHandle]
    rw [hfds, mem_append, mem_singleton] at hm
    rcases hm with hm | rfl
    · have := hs.free fd hm hfd
      exact ⟨this.1, by omega⟩
    · rw [hidx]
      exact ⟨hs.slot_eq_none s.ctx.slot_freeIndex, by omega⟩
  · intro i hi
    rw [hfds] at hi
    have hne : i ≠ s.ctx.freeIndex := by
      rintro rfl
      exact hi _ (by simp) hle hidx
    rw [hctx, s.ctx.slot_getLocObjHandle, if_neg hne]
    exact hs.same i fun fd hm => hi fd (mem_append_left _ hm)
  · have hc := hs.count
    rw [hctx, s.ctx.getLocObjHandle_cnt, hfds]
    simp [hle]
    omega

theorem Filled.marshalOutput (hs : Filled c s) (h : Room s.ctx (obj :: objs)) :
    Filled c (marshalOutput k s obj) := by
  by_cases hl : obj.isLocal
  · obtain ⟨o, hctx, hfds⟩ := marshalOutput_local hl
    exact hs.store (h.store hl).1 hctx hfds
  have hctx := marshalOutput_ctx_other (k := k) (s := s) hl
  have hfds := marshalOutput_fds_other (k := k) (s := s) hl
  have hnum := not_number_le obj
  refine ⟨?_, ?_, ?_⟩
  · intro fd hm hfd
    rw [hfds, mem_append, mem_singleton] at hm
    rw [hctx]
    rcases hm with hm | rfl
    · exact hs.free fd hm hfd
    · exact absurd hfd hnum
  · intro i hi
    rw [hctx]
    exact hs.same i fun fd hm => hi fd (mem_append_left _ hm)
  · rw [hctx, hfds, hs.count]
    simp [hnum]

theorem Filled.marshalOutputs (hs : Filled c s) (h : Room s.ctx objs) :
    Filled c (marshalOutputs k s objs) := by
  induction objs generalizing s with
  | nil => exact hs
  | cons obj objs ih => exact ih (hs.marshalOutput h) h.marshalOutput

def SameTable (c c' : CBContext) : Prop :=
  (∀ i, c'.slot i = c.slot i) ∧ c'.mLocObjCnt = c.mLocObjCnt

theorem length_clearLocalObj (c : CBContext) (fd : Int32) :
    (c.clearLocalObj fd).1.mLocObjTab.length = c.mLocObjTab.length := by
  unfold CBContext.clearLocalObj
  split
  · rfl
  · split
    · rfl
    · exact length_set ..

theorem slot_releaseHandles (c : CBContext) (fds : List Int32) (i : Nat) :
    (releaseHandles c fds).slot i =
      if ∃ fd ∈ fds, fd ≤ maxLocObjHandle ∧ indexOf fd = i then none else c.slot i := by
  induction fds generalizing c with
  | nil => simp [releaseHandles]
  | cons fd fds ih =>
    change (releaseHandles (if fd ≤ maxLocObjHandle then (c.clearLocalObj fd).1 else c) fds).slot i
      = _
    rw [ih]
    simp only [exists_mem_cons_iff]
    by_cases hrest : ∃ fd ∈ fds, fd ≤ maxLocObjHandle ∧ indexOf fd = i
    · rw [if_pos hrest, if_pos (.inr hrest)]
    by_cases hfd : fd ≤ maxLocObjHandle
    · rw [if_neg hrest, if_pos hfd, CBContext.slot_clearLocalObj (Int32.not_lt.mpr hfd)]
      by_cases he : indexOf fd = i
      · rw [if_pos he.symm, if_pos (.inl ⟨hfd, he⟩)]
      · rw [if_neg (fun h => he h.symm), if_neg]
        rintro (⟨-, h⟩ | h)
        · exact he h
        · exact hrest h
    · rw [if_neg hrest, if_neg hfd, if_neg]
      rintro (⟨h, -⟩ | h)
      · exact hfd h
      · exact hrest h

theorem cnt_releaseHandles {fds : List Int32}
    (h : ∀ fd ∈ fds, fd ≤ maxLocObjHandle → indexOf fd < c.mLocObjTab.length) :
    (releaseHandles c fds).mLocObjCnt = c.mLocObjCnt - fds.countP (· ≤ maxLocObjHandle) := by
  induction fds generalizing c with
  | nil => simp [releaseHandles]
  | cons fd fds ih =>
    obtain ⟨hhead, htail⟩ := forall_mem_cons.mp h
    change (releaseHandles (if fd ≤ maxLocObjHandle then (c.clearLocalObj fd).1 else c)
      fds).mLocObjCnt = _
    by_cases hfd : fd ≤ maxLocObjHandle
    · rw [if_pos hfd, ih fun x hx hle => by rw [length_clearLocalObj]; exact htail x hx hle,
        CBContext.clearLocalObj_of_inside (Int32.not_lt.mpr hfd) (hhead hfd),
        countP_cons_of_pos (by simpa using hfd)]
      change c.mLocObjCnt - 1 - _ = _
      omega
    · rw [if_neg hfd, ih htail, countP_cons_of_neg (by simpa using hfd)]

theorem Filled.releaseHandles (hs : Filled c s) : SameTable c (releaseHandles s.ctx s.fds) := by
  refine ⟨fun i => ?_, ?_⟩
  · rw [slot_releaseHandles]
    split_ifs with hn
    · obtain ⟨fd, hm, hle, rfl⟩ := hn
      exact (hs.free fd hm hle).1.symm
    · exact hs.same i fun fd hm hle he => hn ⟨fd, hm, hle, he⟩
  · rw [cnt_releaseHandles fun fd hm hle => (hs.free fd hm hle).2, hs.count]
    omega

theorem slot_store_of_some {i : Nat} {held : Held} (h : c.slot i = some held) (obj : Nat) :
    (c.getLocObjHandle (some obj)).1.slot i = some held := by
  rw [c.slot_getLocObjHandle, if_neg, h]
  rintro rfl
  rw [c.slot_freeIndex] at h
  cases h

theorem slot_marshalOutputs_of_some {i : Nat} {held : Held} (h : s.ctx.slot i = some held) :
    (marshalOutputs k s objs).ctx.slot i = some held := by
  induction objs generalizing s with
  | nil => exact h
  | cons obj objs ih =>
    apply ih
    by_cases hl : obj.isLocal
    · obtain ⟨o, ho, -⟩ := marshalOutput_local hl
      rw [ho]
      exact slot_store_of_some h o
    · rw [marshalOutput_ctx_other hl, h]

/-- Without room some local object is put past the limit, where no handle
reaches it. -/
theorem marshalOutputs_of_not_room (h : ¬ Room s.ctx objs) : ¬ AllReceived k s.ctx objs ∧
      ∃ i, handleLimit ≤ i ∧ s.ctx.slot i = none ∧
        ((marshalOutputs k s objs).ctx.slot i).isSome := by
  induction objs generalizing s with
  | nil =>
    exact absurd (room_nil s.ctx) h
  | cons obj objs ih =>
    change ¬ (_ ∧ _) ∧ ∃ i, _ ∧ _ ∧ ((marshalOutputs k (marshalOutput k s obj) objs).ctx.slot i).isSome
    by_cases hl : obj.isLocal
    · obtain ⟨o, ho, -⟩ := marshalOutput_local hl
      rcases not_room_cases hl h with hfull | hrest
      · refine ⟨fun hall => ?_, s.ctx.freeIndex, hfull, s.ctx.slot_freeIndex, ?_⟩
        · have := (validHandle_local hl).mp hall.1
          omega
        · have hslot : (marshalOutput k s obj).ctx.slot s.ctx.freeIndex = some ⟨o, s.ctx.taken⟩ := by
            rw [ho, s.ctx.slot_getLocObjHandle, if_pos rfl]
            rfl
          rw [slot_marshalOutputs_of_some hslot]
          rfl
      · obtain ⟨hall, i, hi, hnone, hsome⟩ := ih (s := marshalOutput k s obj) (ho ▸ hrest o)
        refine ⟨fun h => hall h.2, i, hi, ?_, hsome⟩
        by_contra hne
        obtain ⟨held, hheld⟩ := Option.ne_none_iff_exists'.mp hne
        rw [ho, slot_store_of_some hheld] at hnone
        cases hnone
    · have hctx := marshalOutput_ctx_other (k := k) (s := s) hl
      obtain ⟨hall, i, hi, hnone, hsome⟩ := ih (s := marshalOutput k s obj)
        (by rw [hctx]; exact fun hr => h ((room_cons_of_not_local hl).mpr hr))
      exact ⟨fun h => hall h.2, i, hi, hctx ▸ hnone, hsome⟩

def OutputsAtomic (k : Kernel) (c : CBContext) (memRegions : List Nat)
    (objs : List Object) : Prop :=
  ((marshalResponseOut k c memRegions objs).ret = none ↔ AllReceived k c objs) ∧
    ((marshalResponseOut k c memRegions objs).ret ≠ none →
      SameTable c (marshalResponseOut k c memRegions objs).ctx)

theorem marshalResponseOut_ret (k : Kernel) (c : CBContext) (memRegions : List Nat)
    (objs : List Object) : (marshalResponseOut k c memRegions objs).ret =
      (marshalOutputs k ⟨c, memRegions, none, []⟩ objs).ret := by
  unfold marshalResponseOut
  dsimp only
  split <;> rfl

theorem marshalResponseOut_ctx {memRegions : List Nat}
    (h : (marshalResponseOut k c memRegions objs).ret ≠ none) :
    (marshalResponseOut k c memRegions objs).ctx =
      releaseHandles (marshalOutputs k ⟨c, memRegions, none, []⟩ objs).ctx
        (marshalOutputs k ⟨c, memRegions, none, []⟩ objs).fds := by
  rw [marshalResponseOut_ret, ← Option.isSome_iff_ne_none] at h
  unfold marshalResponseOut
  rw [if_pos h]

theorem outputsAtomic_iff (k : Kernel) (c : CBContext) (memRegions : List Nat)
    (objs : List Object) : OutputsAtomic k c memRegions objs ↔
      ((∃ obj ∈ objs, obj.Fails k) → Pending k objs) ∧ Room c objs := by
  have hout := marshalResponseOut_ret k c memRegions objs
  have hctx := @marshalResponseOut_ctx k c objs memRegions
  unfold OutputsAtomic
  generalize marshalResponseOut k c memRegions objs = out at hout hctx ⊢
  by_cases hroom : Room c objs
  · have hret := marshalOutputs_ret (k := k) (s := ⟨c, memRegions, none, []⟩) hroom
    have hall := allReceived_iff (k := k) hroom
    have hsome : out.ret ≠ none ↔ Pending k objs := by
      rw [hout, ← Option.isSome_iff_ne_none, hret]
      simp
    have hsame : out.ret ≠ none → SameTable c out.ctx := by
      intro h
      have h₀ : Filled c ⟨c, memRegions, none, []⟩ := ⟨by simp, by simp, by simp⟩
      rw [hctx h]
      exact (h₀.marshalOutputs hroom).releaseHandles
    have hfails : Pending k objs → ∃ obj ∈ objs, obj.Fails k := by
      rintro ⟨pre, obj, post, rfl, hf, -⟩
      exact ⟨obj, by simp, hf⟩
    have hnone : out.ret = none ↔ ¬ Pending k objs := by
      rw [← hsome, not_not]
    have hno : (∀ obj ∈ objs, ¬ obj.Fails k) ↔ ¬ ∃ obj ∈ objs, obj.Fails k := by simp
    rw [hnone, hall, hno, not_iff_not]
    exact ⟨fun h => ⟨h.1.mpr, hroom⟩, fun h => ⟨⟨hfails, h.1⟩, hsame⟩⟩
  · refine iff_of_false ?_ fun h => hroom h.2
    rintro ⟨hiff, hsame⟩
    obtain ⟨hall, i, hi, hnone, hsome⟩ :=
      marshalOutputs_of_not_room (s := ⟨c, memRegions, none, []⟩) hroom
    have hne : out.ret ≠ none := fun h => hall (hiff.mp h)
    have hslot := (hsame hne).1 i
    rw [hctx hne, slot_releaseHandles, if_neg, hnone] at hslot
    · rw [hslot] at hsome
      cases hsome
    · rintro ⟨fd, -, hle, rfl⟩
      have := indexOf_lt (Int32.not_lt.mpr hle)
      omega

variable (c objs) in
theorem marshalIn_cons_other (hl : ¬ obj.isLocal) (hf : ¬ obj.Fails k) :
    (marshalIn k c (obj :: objs)).ret = (marshalIn k c objs).ret ∧
      (marshalIn k c (obj :: objs)).ctx = (marshalIn k c objs).ctx := by
  obtain ⟨hctx, hret, -⟩ := getHandle_other k c (-1) hl
  have hr : ¬ (getHandleFromObject k c (-1) obj).ret.isSome := fun h => hf (hret.mp h)
  rw [marshalIn]
  simp only [if_neg hr, hctx, and_self]

variable (k c objs) in
theorem marshalIn_cons_local (hl : obj.isLocal) : ∃ o,
      (marshalIn k c (obj :: objs)).ret = (marshalIn k (c.getLocObjHandle (some o)).1 objs).ret ∧
      (marshalIn k c (obj :: objs)).ctx =
        (marshalIn k (c.getLocObjHandle (some o)).1 objs).ctx := by
  obtain ⟨o, ho, -⟩ := getHandle_local k c (-1) hl
  refine ⟨o, ?_⟩
  rw [marshalIn]
  simp only [ho, Option.isSome_none, Bool.false_eq_true, if_false, and_self]

theorem marshalIn_cons_fails (hf : obj.Fails k) :
    marshalIn k c (obj :: objs) = ⟨c, some .badObj, []⟩ := by
  have hl : ¬ obj.isLocal := by
    intro hl
    obtain ⟨o, -, hn⟩ := getHandle_local k c (-1) hl
    exact hn hf
  obtain ⟨hctx, hret, -⟩ := getHandle_other k c (-1) hl
  rw [marshalIn]
  simp only [if_pos (hret.mpr hf), hctx]

theorem slot_marshalIn_of_some {i : Nat} {held : Held} (h : c.slot i = some held) :
    (marshalIn k c objs).ctx.slot i = some held := by
  induction objs generalizing c with
  | nil => exact h
  | cons obj objs ih =>
    by_cases hf : obj.Fails k
    · rw [marshalIn_cons_fails hf]
      exact h
    by_cases hl : obj.isLocal
    · obtain ⟨o, -, ho⟩ := marshalIn_cons_local k c objs hl
      rw [ho]
      exact ih (slot_store_of_some h o)
    · rw [(marshalIn_cons_other _ _ hl hf).2]
      exact ih h

variable (c) in
theorem marshalIn_append {pre : List Object} (post : List Object) (hpre : ∀ x ∈ pre, ¬ x.Fails k)
    (hf : obj.Fails k) :
    (marshalIn k c (pre ++ obj :: post)).ret = some .badObj ∧
      (SameTable c (marshalIn k c (pre ++ obj :: post)).ctx ↔ ∀ x ∈ pre, ¬ x.isLocal) := by
  induction pre generalizing c with
  | nil =>
    rw [nil_append, marshalIn_cons_fails hf]
    simp [SameTable]
  | cons x pre ih =>
    obtain ⟨hx, hrest⟩ := forall_mem_cons.mp hpre
    rw [cons_append, forall_mem_cons]
    by_cases hl : x.isLocal
    · obtain ⟨o, hret, hctx⟩ := marshalIn_cons_local k c (pre ++ obj :: post) hl
      refine ⟨hret.trans (ih _ hrest).1, iff_of_false ?_ fun h => h.1 hl⟩
      rintro ⟨hslot, -⟩
      have hfilled : (c.getLocObjHandle (some o)).1.slot c.freeIndex = some ⟨o, c.taken⟩ := by
        rw [c.slot_getLocObjHandle, if_pos rfl]
        rfl
      have hs := hslot c.freeIndex
      rw [hctx, slot_marshalIn_of_some hfilled, c.slot_freeIndex] at hs
      cases hs
    · obtain ⟨hret, hctx⟩ := marshalIn_cons_other c (pre ++ obj :: post) hl hx
      rw [hret, hctx, (ih _ hrest).2]
      exact ⟨(ih _ hrest).1, fun h => ⟨hl, h⟩, And.right⟩

theorem marshalIn_ret_none (h : ∀ obj ∈ objs, ¬ obj.Fails k) : (marshalIn k c objs).ret = none := by
  induction objs generalizing c with
  | nil => rfl
  | cons obj objs ih =>
    obtain ⟨hf, hrest⟩ := forall_mem_cons.mp h
    by_cases hl : obj.isLocal
    · obtain ⟨o, hret, -⟩ := marshalIn_cons_local k c objs hl
      rw [hret]
      exact ih hrest
    · rw [(marshalIn_cons_other _ _ hl hf).1]
      exact ih hrest

theorem exists_first_fails (h : ∃ obj ∈ objs, obj.Fails k) :
    ∃ pre obj post, objs = pre ++ obj :: post ∧ (∀ x ∈ pre, ¬ x.Fails k) ∧ obj.Fails k := by
  induction objs with
  | nil => simp at h
  | cons x objs ih =>
    by_cases hx : x.Fails k
    · exact ⟨[], x, objs, rfl, by simp, hx⟩
    · obtain ⟨pre, obj, post, rfl, hpre, hf⟩ := ih (by simpa [hx] using h)
      exact ⟨x :: pre, obj, post, rfl, forall_mem_cons.mpr ⟨hx, hpre⟩, hf⟩

theorem inputsAtomic_iff (k : Kernel) (c : CBContext) (objs : List Object) :
    ((marshalIn k c objs).ret ≠ none → SameTable c (marshalIn k c objs).ctx) ↔
      ∀ pre obj post, objs = pre ++ obj :: post → (∀ x ∈ pre, ¬ x.Fails k) → obj.Fails k →
        ∀ x ∈ pre, ¬ x.isLocal := by
  constructor
  · rintro h pre obj post rfl hpre hf
    obtain ⟨hret, hsame⟩ := marshalIn_append c post hpre hf
    exact hsame.mp (h (by rw [hret]; simp))
  · intro h hne
    have hex : ∃ obj ∈ objs, obj.Fails k := by
      by_contra hno
      exact hne (marshalIn_ret_none fun obj hm hf => hno ⟨obj, hm, hf⟩)
    obtain ⟨pre, obj, post, rfl, hpre, hf⟩ := exists_first_fails hex
    exact (marshalIn_append _ _ hpre hf).2.mpr (h pre obj post rfl hpre hf)

/-- Outputs are all or nothing if and only if an error is not overwritten by a later dma buffer and
all local objects find a handle, inputs if and only if no local object comes before the first bad
one. -/
theorem marshalling_atomic_iff (k : Kernel) (c : CBContext) (memRegions : List Nat)
    (objs : List Object) :
    (OutputsAtomic k c memRegions objs ↔
      ((∃ obj ∈ objs, obj.Fails k) → Pending k objs) ∧ Room c objs) ∧
    (((marshalIn k c objs).ret ≠ none → SameTable c (marshalIn k c objs).ctx) ↔
      ∀ pre obj post, objs = pre ++ obj :: post → (∀ x ∈ pre, ¬ x.Fails k) → obj.Fails k →
        ∀ x ∈ pre, ¬ x.isLocal) :=
  ⟨outputsAtomic_iff k c memRegions objs, inputsAtomic_iff k c objs⟩

/-- Descriptor 5 is a dma buffer. After an output that has no handle it turns
the error into success; an input that has none leaves the local object before
it in the table. -/
theorem marshalling_not_atomic :
    (marshalResponseOut ⟨fun fd => fd.val == 5⟩ .empty [] [.other 7 none false,
      .descriptor none, .other 8 (some 5) true]).ret = none ∧
    ¬ OutputsAtomic ⟨fun fd => fd.val == 5⟩ .empty []
      [.other 7 none false, .descriptor none, .other 8 (some 5) true] ∧
    (marshalIn ⟨fun fd => fd.val == 5⟩ .empty [.other 7 none false, .descriptor none]).ret =
      some .badObj ∧
    ¬ SameTable .empty
      (marshalIn ⟨fun fd => fd.val == 5⟩ .empty [.other 7 none false, .descriptor none]).ctx := by
  refine ⟨by decide, ?_, by decide, ?_⟩
  · intro h
    have hall := h.1.mp (by decide)
    have hsecond : (none : Option Int32) = some 0 := hall.2.1
    cases hsecond
  · intro h
    exact absurd (h.1 0) (by decide)

end MinkIpc.TzCom
