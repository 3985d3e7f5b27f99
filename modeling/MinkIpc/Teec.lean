import Mathlib.Data.Nat.Bitwise
import Mathlib.Data.Fin.Basic

/-! The GlobalPlatform client library: the parameters of an operation, and how they are turned into
those of an invocation. A large temporary reference is rewritten in place for the duration of the
call. -/

namespace MinkIpc.Teec

section ParamTypes

def paramTypeGet (t : BitVec 32) (i : Fin 4) : BitVec 4 := (t >>> (4 * i.val) &&& 0xF#32).setWidth 4

def paramTypeSet (p : BitVec 4) (i : Fin 4) (t : BitVec 32) : BitVec 32 :=
  (~~~(0xF#32 <<< (4 * i.val)) &&& t) ||| (p.setWidth 32 <<< (4 * i.val))

def paramMask : BitVec 32 := 0xFFFF0000#32

variable {t t' : BitVec 32} {p : BitVec 4} {i j : Fin 4} {n : Nat}

theorem getLsbD_fifteen (h : n < 32) : (0xF#32).getLsbD n = decide (n < 4) := by
  decide +revert

theorem getLsbD_paramTypeGet :
    (paramTypeGet t i).getLsbD n = (decide (n < 4) && t.getLsbD (4 * i.val + n)) := by
  rw [paramTypeGet, BitVec.getLsbD_setWidth, BitVec.getLsbD_and]
  by_cases h : n < 4
  · rw [getLsbD_fifteen (by omega)]
    simp [h]
  · simp [h]

theorem getLsbD_paramTypeSet (hn : n < 32) : (paramTypeSet p i t).getLsbD n =
    if 4 * i.val ≤ n ∧ n < 4 * i.val + 4 then p.getLsbD (n - 4 * i.val) else t.getLsbD n := by
  rw [paramTypeSet, BitVec.getLsbD_or, BitVec.getLsbD_and, BitVec.getLsbD_not, BitVec.getLsbD_shiftLeft]
  by_cases h : n < 4 * i.val
  · simp [hn, h]
  rw [getLsbD_fifteen (by omega)]
  by_cases h' : n < 4 * i.val + 4
  · have hlt : n - 4 * i.val < 4 := by omega
    have hlt' : n - 4 * i.val < 32 := by omega
    simp [hn, h, h', hlt]
  · have hge : ¬ n - 4 * i.val < 4 := by omega
    have hbit : p.getLsbD (n - 4 * i.val) = false := BitVec.getLsbD_of_ge _ _ (by omega)
    simp [hn, h', hge, hbit]

theorem paramTypeGet_set_self : paramTypeGet (paramTypeSet p i t) i = p := by
  refine BitVec.eq_of_getLsbD_eq fun n hn => ?_
  rw [getLsbD_paramTypeGet, getLsbD_paramTypeSet (by omega)]
  simp [hn]

theorem paramTypeGet_set_of_ne (h : j ≠ i) :
    paramTypeGet (paramTypeSet p i t) j = paramTypeGet t j := by
  refine BitVec.eq_of_getLsbD_eq fun n hn => ?_
  rw [getLsbD_paramTypeGet, getLsbD_paramTypeGet, getLsbD_paramTypeSet (by omega),
    if_neg (by omega)]

theorem paramTypes_ext (htypes : ∀ i, paramTypeGet t i = paramTypeGet t' i)
    (hhigh : t >>> 16 = t' >>> 16) : t = t' := by
  refine BitVec.eq_of_getLsbD_eq fun n hn => ?_
  by_cases h : n < 16
  · have hbit := congrArg (fun v => v.getLsbD (n % 4)) (htypes ⟨n / 4, by omega⟩)
    have hindex : 4 * (n / 4) + n % 4 = n := by omega
    have hmod : n % 4 < 4 := by omega
    rw [getLsbD_paramTypeGet, getLsbD_paramTypeGet, hindex] at hbit
    simpa [hmod] using hbit
  · have hbit := congrArg (fun v => v.getLsbD (n - 16)) hhigh
    have hindex : 16 + (n - 16) = n := by omega
    simpa [hindex] using hbit

theorem paramTypeSet_high : paramTypeSet p i t >>> 16 = t >>> 16 := by
  refine BitVec.eq_of_getLsbD_eq fun n hn => ?_
  rw [BitVec.getLsbD_ushiftRight, BitVec.getLsbD_ushiftRight]
  by_cases h : n < 16
  · rw [getLsbD_paramTypeSet (by omega), if_neg (by omega)]
  · rw [BitVec.getLsbD_of_ge _ _ (by omega), BitVec.getLsbD_of_ge _ _ (by omega)]

end ParamTypes

section Types

def teecNone : BitVec 4 := 0
def valueInput : BitVec 4 := 1
def valueOutput : BitVec 4 := 2
def valueInout : BitVec 4 := 3
def memrefTempInput : BitVec 4 := 5
def memrefTempOutput : BitVec 4 := 6
def memrefTempInout : BitVec 4 := 7
def memrefWhole : BitVec 4 := 12
def memrefPartialInput : BitVec 4 := 13
def memrefPartialOutput : BitVec 4 := 14
def memrefPartialInout : BitVec 4 := 15

def isValue (t : BitVec 4) : Bool := t == valueInput || t == valueOutput || t == valueInout

def isTemp (t : BitVec 4) : Bool :=
  t == memrefTempInput || t == memrefTempOutput || t == memrefTempInout

def isPartial (t : BitVec 4) : Bool :=
  t == memrefPartialInput || t == memrefPartialOutput || t == memrefPartialInout

def memInput : UInt32 := 1
def memOutput : UInt32 := 2

def memoryRegistered : UInt8 := 2

def shmMaxHeapSz : UInt64 := 0x1000

def success : UInt32 := 0
def errorGeneric : UInt32 := 0xFFFF0000
def errorBadParameters : UInt32 := 0xFFFF0006
def errorOutOfMemory : UInt32 := 0xFFFF000C
def errorBusy : UInt32 := 0xFFFF000D
def errorTargetDead : UInt32 := 0xFFFF3024

end Types

structure SharedMemory where
  buffer : UInt64
  size : UInt64
  flags : UInt32
  ctx : UInt64
  type : UInt8
  converted : UInt8
  memObj : Option Nat
deriving DecidableEq

-- The union of a temporary reference, a registered reference and a value: `buffer` and
-- `parent` share the first word, the two sizes the second, and only `offset` is in the third.
structure Parameter where
  pointer : UInt64
  size : UInt64
  offset : UInt64
deriving DecidableEq

inductive Event where
  | alloc (p : UInt64)
  | free (p : UInt64)
  | create (o : Nat)
  | release (o : Nat)
deriving DecidableEq

/-- The operation, the shared memory blocks by address, and what the call has allocated
and freed so far. -/
structure State where
  paramTypes : BitVec 32
  params : Fin 4 → Parameter
  shm : UInt64 → SharedMemory
  log : List Event

namespace State

def typeAt (s : State) (i : Fin 4) : BitVec 4 := paramTypeGet s.paramTypes i

def parent (s : State) (i : Fin 4) : SharedMemory := s.shm (s.params i).pointer

def start (s : State) : State := { s with log := [] }

end State

structure Env where
  malloc : Fin 4 → Option UInt64
  memObject : Fin 4 → Option Nat
  memObjectInfo : Nat → Option (UInt64 × UInt64)

section Verification

def verifyShm (memref : Parameter) (shm : SharedMemory) (ctx : UInt64) (type : BitVec 4) : Bool :=
  if shm.ctx ≠ ctx then false
  else if (type = memrefPartialInput ∨ type = memrefPartialInout) ∧ shm.flags &&& memInput = 0 then
    false
  else if (type = memrefPartialOutput ∨ type = memrefPartialInout) ∧
      shm.flags &&& memOutput = 0 then false
  else if type ≠ memrefWhole ∧ memref.offset + memref.size > shm.size then false
  else true

def verifyParams (ctx : UInt64) (s : State) : UInt32 :=
  if (List.finRange 4).all fun i =>
      if s.typeAt i = memrefWhole ∨ isPartial (s.typeAt i) then
        (s.params i).pointer ≠ 0 && verifyShm (s.params i) (s.parent i) ctx (s.typeAt i)
      else true
  then success else errorBadParameters

def verifyParamTypes (paramTypes : BitVec 32) : UInt32 :=
  if paramTypes &&& paramMask ≠ 0 then errorBadParameters
  else if (List.finRange 4).all fun i =>
      let type := paramTypeGet paramTypes i
      type = teecNone || isValue type || isTemp type || type = memrefWhole || isPartial type
  then success else errorBadParameters

end Verification

section Conversion

-- `convert` is written into the block only when the memory object could be had.
def registerSharedMemory (env : Env) (ctx : UInt64) (i : Fin 4) (p : UInt64) (convert : UInt8)
    (s : State) : State × UInt32 :=
  let registered (mo : Option Nat) : SharedMemory :=
    { s.shm p with type := memoryRegistered, converted := convert, memObj := mo, ctx := ctx }
  if (s.shm p).size > shmMaxHeapSz then
    match env.memObject i with
    | none => (s, errorGeneric)
    | some o =>
        ({ s with shm := Function.update s.shm p (registered (some o)),
                  log := s.log ++ [.create o] }, success)
  else ({ s with shm := Function.update s.shm p (registered none) }, success)

def memrefTempFromPartial (i : Fin 4) (s : State) : State :=
  let parent := s.parent i
  { paramTypes := paramTypeSet (s.typeAt i ^^^ 8) i s.paramTypes
    params := Function.update s.params i ⟨parent.buffer, parent.size, 0⟩
    shm := s.shm
    log := s.log ++ [.free (s.params i).pointer] }

def memrefTempFromPartialParams (s : State) : State :=
  (List.finRange 4).foldl (fun s i =>
    if isPartial (s.typeAt i) ∧ (s.parent i).converted ≠ 0 then memrefTempFromPartial i s else s) s

def tempFlags (type : BitVec 4) : UInt32 :=
  (if type = memrefTempInput ∨ type = memrefTempInout then memInput else 0) |||
    (if type = memrefTempOutput ∨ type = memrefTempInout then memOutput else 0)

/-- The block as it is before it is registered: what the library does not write is what the
allocator left there. -/
def partialBlock (s : State) (i : Fin 4) (p : UInt64) : SharedMemory :=
  { s.shm p with
    buffer := (s.params i).pointer, size := (s.params i).size, flags := tempFlags (s.typeAt i) }

def memrefTempToPartial (env : Env) (ctx : UInt64) (i : Fin 4) (s : State) : State × UInt32 :=
  match env.malloc i with
  | none => (s, errorOutOfMemory)
  | some p =>
      registerSharedMemory env ctx i p 1
        { paramTypes := paramTypeSet (s.typeAt i ||| 8) i s.paramTypes
          params := Function.update s.params i ⟨p, (s.params i).size, 0⟩
          shm := Function.update s.shm p (partialBlock s i p)
          log := s.log ++ [.alloc p] }

def Large (s : State) (i : Fin 4) : Prop := isTemp (s.typeAt i) ∧ (s.params i).size > shmMaxHeapSz

instance (s : State) (i : Fin 4) : Decidable (Large s i) := inferInstanceAs (Decidable (_ ∧ _))

def memrefTempToPartialLoop (env : Env) (ctx : UInt64) : List (Fin 4) → State → State × UInt32
  | [], s => (s, success)
  | i :: rest, s =>
      if Large s i then
        let (s', result) := memrefTempToPartial env ctx i s
        if result ≠ success then (memrefTempFromPartialParams s', result)
        else memrefTempToPartialLoop env ctx rest s'
      else memrefTempToPartialLoop env ctx rest s

def memrefTempToPartialParams (env : Env) (ctx : UInt64) (s : State) : State × UInt32 :=
  memrefTempToPartialLoop env ctx (List.finRange 4) s

end Conversion

section MinkParameters

inductive Buffer where
  | null
  | address (a : UInt64)
  | value
  | memObjParams
deriving DecidableEq

structure InBuffer where
  buf : Buffer
  len : UInt64
  shObjIndex : UInt64
deriving DecidableEq

inductive LenOut where
  | own
  | paramSize
deriving DecidableEq

structure OutBuffer where
  buf : Buffer
  len : UInt64
  lenOut : LenOut
deriving DecidableEq

structure MemoryObjectParams where
  size : UInt64
  offset : UInt64
  sharedObjIndex : UInt64
deriving DecidableEq

structure MinkParameter where
  inBuf : InBuffer
  outBuf : OutBuffer
  memObj : Option Nat
  memObjParams : MemoryObjectParams
deriving DecidableEq

def minkParamInit : MinkParameter where
  inBuf := ⟨.null, 0, 0⟩
  outBuf := ⟨.null, 0, .own⟩
  memObj := none
  memObjParams := ⟨0, 0, 0⟩

def sizeofValue : UInt64 := 8
def sizeofMemObjParams : UInt64 := 24
def definingIndexNA : UInt64 := 0xFFFFFFFF

def exParamTypeMemrefNull : BitVec 4 := 1
def exParamTypeMemrefDup : BitVec 4 := 2
def exParamTypeMemrefForceRw : BitVec 4 := 3

def processValueParam (type : BitVec 4) : MinkParameter :=
  let m := minkParamInit
  let m := if type = valueInput ∨ type = valueInout then
    { m with inBuf := ⟨.value, sizeofValue, 0xFF⟩ } else m
  if type = valueOutput ∨ type = valueInout then
    { m with outBuf := { m.outBuf with buf := .value, len := sizeofValue } } else m

def processMemrefTemp (type : BitVec 4) (param : Parameter) : MinkParameter :=
  { minkParamInit with
    inBuf := ⟨.address param.pointer, param.size, 0⟩
    -- the size field is where the length goes for an input-only reference as well
    outBuf := if type = memrefTempOutput ∨ type = memrefTempInout then
        ⟨.address param.pointer, param.size, .paramSize⟩
      else ⟨.null, 0, .paramSize⟩ }

def isMemObjEqual (env : Env) (mo1 mo2 : Nat) : Bool :=
  match env.memObjectInfo mo1, env.memObjectInfo mo2 with
  | some (addr1, size1), some (addr2, size2) => addr1 == addr2 && size1 == size2
  | _, _ => false

def getSharedMemObjIndex (env : Env) (index : Fin 4) (mo : Nat) (s : State) : Option (Fin 4) :=
  (List.finRange 4).find? fun i =>
    i < index && (isPartial (s.typeAt i) || s.typeAt i == memrefWhole) &&
      (match (s.parent i).memObj with
        | none => false
        | some mo' => isMemObjEqual env mo' mo)

def shObjIndex : Option (Fin 4) → UInt64
  | none => definingIndexNA
  | some j => j.val.toUInt64

def assignExtendedParams (index shmIndex : Fin 4) (type : BitVec 4) (etype : BitVec 32) : BitVec 32 :=
  let etype := paramTypeSet exParamTypeMemrefDup index etype
  if type = memrefPartialOutput ∨ type = memrefPartialInout then
    paramTypeSet exParamTypeMemrefForceRw shmIndex etype
  else etype

/-- A reference to a shared memory block: the part `range` of it, tagged as output or not.
Whole and partial references differ in these two only. -/
def processRegistered (shm : SharedMemory) (range : MemoryObjectParams) (output : Bool)
    (shared : Nat → Option (Fin 4)) : MinkParameter :=
  match shm.memObj with
  | some mo =>
      { inBuf := ⟨.memObjParams, sizeofMemObjParams, shObjIndex (shared mo)⟩
        outBuf := ⟨.null, 0, if output then .paramSize else .own⟩
        memObj := some mo
        memObjParams := range }
  | none =>
      { minkParamInit with
        inBuf := ⟨.address (shm.buffer + range.offset), range.size, 0⟩
        outBuf := if output then ⟨.address (shm.buffer + range.offset), range.size, .paramSize⟩
          else ⟨.null, 0, .own⟩ }

def processMemrefWhole (env : Env) (i : Fin 4) (s : State) : MinkParameter :=
  let shm := s.parent i
  processRegistered shm ⟨shm.size, 0, 0⟩ (shm.flags &&& memOutput != 0)
    fun mo => getSharedMemObjIndex env i mo s

def processMemrefPartial (env : Env) (i : Fin 4) (s : State) : MinkParameter :=
  let type := s.typeAt i
  let param := s.params i
  processRegistered (s.parent i) ⟨param.size, param.offset, 0⟩
    (type == memrefPartialOutput || type == memrefPartialInout)
    fun mo => getSharedMemObjIndex env i mo s

def minkParam (env : Env) (s : State) (i : Fin 4) : MinkParameter :=
  let type := s.typeAt i
  if isValue type then processValueParam type
  else if isTemp type then processMemrefTemp type (s.params i)
  else if isPartial type then processMemrefPartial env i s
  else if type = memrefWhole then processMemrefWhole env i s
  else minkParamInit

def exParamType (env : Env) (s : State) (i : Fin 4) (etype : BitVec 32) : BitVec 32 :=
  let type := s.typeAt i
  if isTemp type then
    if (s.params i).pointer = 0 then paramTypeSet exParamTypeMemrefNull i etype else etype
  else if isPartial type ∨ type = memrefWhole then
    match (s.parent i).memObj with
    | none => etype
    | some mo =>
        match getSharedMemObjIndex env i mo s with
        | none => etype
        | some j => assignExtendedParams i j type etype
  else etype

def minkParamsFromTeecParams (env : Env) (s : State) : (Fin 4 → MinkParameter) × BitVec 32 :=
  (minkParam env s, (List.finRange 4).foldl (fun etype i => exParamType env s i etype) 0)

def getTeeType (type : BitVec 4) (flags : UInt32) : BitVec 4 :=
  if type = memrefPartialInput then 5
  else if type = memrefPartialOutput then 6
  else if type = memrefPartialInout then 7
  else if type = memrefWhole then
    if flags &&& memInput ≠ 0 ∧ flags &&& memOutput ≠ 0 then 7
    else if flags &&& memInput ≠ 0 then 5
    else if flags &&& memOutput ≠ 0 then 6
    else type
  else type

def teeTypesFromTeecTypes (s : State) : BitVec 32 :=
  (List.finRange 4).foldl (fun t i => paramTypeSet (getTeeType (s.typeAt i) (s.parent i).flags) i t)
    s.paramTypes

end MinkParameters

section Call

structure Request where
  state : State
  paramTypes : BitVec 32
  exParamTypes : BitVec 32
  params : Fin 4 → MinkParameter

def requestOf (env : Env) (s : State) : Request :=
  let (params, exParamTypes) := minkParamsFromTeecParams env s
  ⟨s, teeTypesFromTeecTypes s, exParamTypes, params⟩

structure Reply where
  lenOut : Fin 4 → UInt64
  memSzOut : Fin 4 → UInt32
  result : UInt32

def resultOfError (rv : Int) : UInt32 :=
  if rv = -90 then errorTargetDead
  else if rv = -99 then errorBusy
  else if rv = -97 ∨ rv = -93 then errorOutOfMemory
  else errorGeneric

def storeLen (m : MinkParameter) (len : UInt64) (param : Parameter) : Parameter :=
  match m.outBuf.lenOut with
  | .own => param
  | .paramSize => { param with size := len }

-- The stub stores the lengths of the output buffers; the sizes of the memory objects that
-- are not zero are then stored over them.
def storeReply (r : Request) (reply : Reply) : State :=
  { r.state with params := fun i =>
      let param := storeLen (r.params i) (reply.lenOut i) (r.state.params i)
      if reply.memSzOut i ≠ 0 then storeLen (r.params i) (reply.memSzOut i).toUInt64 param
      else param }

def minkCall (r : Request) : Except Int Reply → State × UInt32
  | .error rv => (r.state, resultOfError rv)
  | .ok reply => (storeReply r reply, reply.result)

inductive Entry where
  | openSession
  | invokeCommand
deriving DecidableEq

-- Only opening a session looks at the result of the conversion.
def Entry.request (k : Entry) (env : Env) (ctx : UInt64) (s : State) :
    Except (State × UInt32) Request :=
  let (s', result) := memrefTempToPartialParams env ctx s
  match k with
  | .openSession => if result ≠ success then .error (s', result) else .ok (requestOf env s')
  | .invokeCommand => .ok (requestOf env s')

def Entry.call (k : Entry) (env : Env) (ctx : UInt64) (answer : Except Int Reply) (s : State) :
    State × UInt32 :=
  match k.request env ctx s.start with
  | .error out => out
  | .ok r =>
      let (s', result) := minkCall r answer
      (memrefTempFromPartialParams s', result)

end Call

section Sharing

def State.backing (s : State) (i : Fin 4) : Option Nat :=
  if isPartial (s.typeAt i) ∨ s.typeAt i = memrefWhole then (s.parent i).memObj else none

def Shares (env : Env) (s : State) (j i : Fin 4) : Prop :=
  j < i ∧ ∃ mo ∈ s.backing i, ∃ mo' ∈ s.backing j, isMemObjEqual env mo' mo

def State.outputAt (s : State) (i : Fin 4) : Prop :=
  s.typeAt i = memrefPartialOutput ∨ s.typeAt i = memrefPartialInout ∨
    s.typeAt i = memrefWhole ∧ (s.parent i).flags &&& memOutput ≠ 0

structure SharingMarked (env : Env) (s : State) (r : Request) : Prop where
  shared : ∀ i j, Shares env s j i → (∀ k < j, ¬ Shares env s k i) →
    paramTypeGet r.exParamTypes i = exParamTypeMemrefDup ∧
      (r.params i).memObjParams.sharedObjIndex = j.val.toUInt64
  first : ∀ i, (s.backing i).isSome → (∀ j, ¬ Shares env s j i) →
    0xFF ≤ (r.params i).memObjParams.sharedObjIndex ∧
      (paramTypeGet r.exParamTypes i = exParamTypeMemrefForceRw ↔
        ∃ j, Shares env s i j ∧ s.outputAt j)

theorem sharedObjIndex_minkParam (env : Env) (s : State) (i : Fin 4) :
    (minkParam env s i).memObjParams.sharedObjIndex = 0 := by
  unfold minkParam
  dsimp only
  split_ifs
  · unfold processValueParam
    dsimp only
    split_ifs <;> rfl
  · rfl
  · unfold processMemrefPartial processRegistered
    dsimp only
    split <;> rfl
  · unfold processMemrefWhole processRegistered
    dsimp only
    split <;> rfl
  · rfl

/-- No index is stored where it is sent from, so the first memory object of an operation is sent
with the index of the first parameter. -/
theorem sharing_marked_iff (env : Env) (s : State) :
    SharingMarked env s (requestOf env s) ↔ ∀ i, s.backing i = none := by
  constructor
  · rintro h ⟨i, hi⟩
    -- the parameters before the first one that is backed cannot share with it
    induction i using Nat.strongRecOn with
    | ind i ih =>
      by_contra hne
      have hfirst : ∀ j, ¬ Shares env s j ⟨i, hi⟩ := by
        rintro j ⟨hlt, -, -, mo', hmo', -⟩
        cases (ih j hlt j.isLt).symm.trans hmo'
      have hindex := (h.first ⟨i, hi⟩ (Option.isSome_iff_ne_none.mpr hne) hfirst).1
      rw [show ((requestOf env s).params ⟨i, hi⟩).memObjParams.sharedObjIndex = 0 from
        sharedObjIndex_minkParam env s _] at hindex
      exact absurd hindex (by decide)
  · intro h
    refine ⟨?_, fun i hi => absurd (h i) (Option.isSome_iff_ne_none.mp hi)⟩
    rintro i j ⟨-, mo, hmo, -⟩
    cases (h i).symm.trans hmo

def sharedOperation : State where
  paramTypes := 0xED1
  params := fun _ => ⟨0x1000, 16, 0⟩
  shm := fun _ => ⟨0x2000, 0x2000, 3, 1, memoryRegistered, 0, some 7⟩
  log := []

/-- The parameters at 1 and 2 have one memory object, and 0 is sent for the index of both. -/
theorem sharing_index_not_sent :
    ¬ SharingMarked ⟨fun _ => none, fun _ => none, fun _ => some (0, 0)⟩ sharedOperation
      (requestOf ⟨fun _ => none, fun _ => none, fun _ => some (0, 0)⟩ sharedOperation) := by
  intro h
  refine absurd (h.shared 2 1 ⟨by decide, 7, rfl, 7, rfl, rfl⟩ ?_).2 (by decide)
  rintro k hk ⟨-, -, -, mo, hmo, -⟩
  obtain rfl : k = 0 := by omega
  cases hmo

end Sharing

end MinkIpc.Teec
