import Mathlib.Data.List.Basic
import Mathlib.Logic.Function.Basic
import Mathlib.Tactic.Ring
import MinkIpc.ObjectError
import MinkIpc.Run

/-! The memory service: pools that take a heap each, and buffers allocated from them. A buffer
owns a call-back object that holds its pool and gives the bytes back when the buffer goes. -/

namespace MinkIpc.MemoryPool

inductive MemError
  | object (err : ObjectError)
  | setup
  | alloc
  | invalidConfinement
  | noAvailableHeap
  | heapSetup
  | remoteAlloc
  deriving DecidableEq

def alignBlock4KB : Nat := 2 ^ 12

def alignBlock2MB : Nat := 2 ^ 21

def uint64Max : Nat := 2 ^ 64 - 1

-- The borders are powers of two, so clearing the low bits rounds down to a multiple.
def sizeAlign (requestSize alignBorder : Nat) : Nat :=
  if alignBorder ≠ alignBlock4KB ∧ alignBorder ≠ alignBlock2MB then requestSize
  else if uint64Max - (alignBorder - 1) ≤ requestSize then uint64Max
  else (requestSize + (alignBorder - 1)) / alignBorder * alignBorder

structure DmaBufHeap where
  heapName : String
  available : Bool

structure TMemPool where
  refs : Int
  held : Nat
  poolSizeinBytes : Nat
  remainInBytes : Nat
  heapListIdx : Nat
  heapDstName : String

structure TBufCallBack where
  refs : Int
  pool : Nat
  bufSize : Nat
  deriving DecidableEq

structure MSMem where
  id : Nat
  refs : Int
  held : Nat
  dmaBufFd : Nat
  bufCallBack : TBufCallBack
  deriving DecidableEq

structure State where
  heaps : List DmaBufHeap
  pools : Nat → Option TMemPool
  mems : List MSMem
  openFds : List Nat
  nextPool : Nat
  nextMem : Nat
  nextFd : Nat

def gListOfHeaps : List DmaBufHeap :=
  [⟨"qcom,tui", true⟩, ⟨"qcom,ms1", true⟩, ⟨"qcom,ms2", true⟩, ⟨"qcom,ms3", true⟩,
    ⟨"qcom,ms4", true⟩, ⟨"qcom,ms5", true⟩, ⟨"qcom,ms6", true⟩, ⟨"qcom,ms7", true⟩]

def State.init : State where
  heaps := gListOfHeaps
  pools _ := none
  mems := []
  openFds := []
  nextPool := 0
  nextMem := 0
  nextFd := 0

/-- A request for a pool, with the outcome of each step. `specialRules` is `none` when no rules are
given; `remoteAlloc` says of each attempt whether it succeeds. -/
structure PoolCall where
  size : Nat
  specialRules : Option Nat
  powerService : Option ObjectError
  wakeLock : Option ObjectError
  poolAlloc : Bool
  createVmMem : Bool
  findVm : Bool
  remoteAlloc : List Bool

structure BufferCall where
  size : Nat
  powerService : Option ObjectError
  wakeLock : Option ObjectError
  allocator : Bool
  heapAlloc : Bool
  callBackAlloc : Bool
  memAlloc : Bool

section Pools

variable (sizeMax : Nat) (s : State)

def State.setPool (p : Nat) (m : TMemPool) : State :=
  { s with pools := Function.update s.pools p (some m) }

def getAvailableHeap : Option (Nat × String) :=
  (s.heaps.findIdx? DmaBufHeap.available).bind fun idx =>
    (s.heaps[idx]?).map fun h => (idx, h.heapName)

def populateHeap (call : PoolCall) : Option MemError :=
  if !call.createVmMem then some .heapSetup
  else if !call.findVm then some .heapSetup
  else if (call.remoteAlloc.take 11).any id then none
  else some .remoteAlloc

def State.setAvailable (idx : Nat) (b : Bool) : State :=
  { s with heaps := s.heaps.modify idx fun h => { h with available := b } }

def memPoolNew (call : PoolCall) (poolSize : Nat) : Except MemError Nat × State :=
  if call.poolAlloc then
    match getAvailableHeap s with
    | none => (.error .noAvailableHeap, s)
    | some (idx, heapName) =>
      match populateHeap call with
      | some err => (.error err, s)
      | none =>
        let size := poolSize % (sizeMax + 1)
        let s' := (s.setAvailable idx false).setPool s.nextPool ⟨1, 1, size, size, idx, heapName⟩
        (.ok s.nextPool, { s' with nextPool := s.nextPool + 1 })
  else (.error (.object .mem), s)

def confined (specialRules : Nat) : Bool := specialRules = 0 || specialRules &&& 8 ≠ 0

def createPool (call : PoolCall) : Except MemError Nat × State :=
  if sizeMax < call.size then (.error (.object .error), s)
  else match call.powerService with
    | some err => (.error (.object err), s)
    | none =>
      match call.wakeLock with
      | some err => (.error (.object err), s)
      | none =>
        if (call.specialRules.all confined) then
          memPoolNew sizeMax s call (sizeAlign call.size alignBlock2MB)
        else (.error .invalidConfinement, s)

def memPoolRelease (p : Nat) : Option State :=
  (s.pools p).map fun m =>
    if m.refs - 1 = 0 then
      { s.setAvailable m.heapListIdx true with pools := Function.update s.pools p none }
    else s.setPool p { m with refs := m.refs - 1 }

end Pools

section Buffers

variable (sizeMax : Nat) (s : State)

def bufCallBackRelease (cb : TBufCallBack) : Option (Option TBufCallBack × State) :=
  if cb.refs - 1 = 0 then
    (s.pools cb.pool).bind fun m =>
      let m := { m with remainInBytes := (m.remainInBytes + cb.bufSize) % (sizeMax + 1) }
      (memPoolRelease (s.setPool cb.pool m) cb.pool).map (none, ·)
  else some (some { cb with refs := cb.refs - 1 }, s)

def bufCallBackNew (p : Nat) (m : TMemPool) (bufSize : Nat) : TBufCallBack × State :=
  (⟨1, p, bufSize % (sizeMax + 1)⟩, s.setPool p { m with refs := m.refs + 1 })

/-- The part once the buffer is there. The memory object retains the call-back object, and the
function drops its own reference at the end. Nothing closes the descriptor on a failure: the jump
to the exit is taken before the test that would. -/
def wrapBuffer (call : BufferCall) (p : Nat) (m : TMemPool) (actualBufSize : Nat) :
    Option (Except MemError Nat × State) :=
  let fd := s.nextFd
  let m : TMemPool := { m with remainInBytes := m.remainInBytes - actualBufSize }
  let s := { s with openFds := fd :: s.openFds, nextFd := fd + 1 }.setPool p m
  if call.callBackAlloc then
    let (cb, s) := bufCallBackNew sizeMax s p m actualBufSize
    if call.memAlloc then
      (bufCallBackRelease sizeMax s { cb with refs := cb.refs + 1 }).bind fun (cb, s) =>
        cb.map fun cb =>
          (.ok s.nextMem,
            { s with mems := ⟨s.nextMem, 1, 1, fd, cb⟩ :: s.mems, nextMem := s.nextMem + 1 })
    else (bufCallBackRelease sizeMax s cb).map fun (_, s) => (.error (.object .mem), s)
  else some (.error (.object .mem), s)

def allocateBuffer (p : Nat) (call : BufferCall) : Option (Except MemError Nat × State) :=
  (s.pools p).bind fun m =>
    if sizeMax < call.size then some (.error (.object .mem), s)
    else
      let actualBufSize := sizeAlign call.size alignBlock4KB
      match call.powerService with
      | some err => some (.error (.object err), s)
      | none =>
        match call.wakeLock with
        | some err => some (.error (.object err), s)
        | none =>
          if !call.allocator then some (.error .setup, s)
          else if m.remainInBytes < actualBufSize then some (.error (.object .mem), s)
          else if !call.heapAlloc then some (.error .alloc, s)
          else wrapBuffer sizeMax s call p m actualBufSize

def State.mem? (i : Nat) : Option MSMem := s.mems.find? fun b => b.id = i

def State.setMem (b b' : MSMem) : State := { s with mems := b' :: s.mems.erase b }

def msMemRelease (b : MSMem) : Option State :=
  if b.refs - 1 = 0 then
    let s := { s with openFds := s.openFds.erase b.dmaBufFd, mems := s.mems.erase b }
    (bufCallBackRelease sizeMax s b.bufCallBack).map Prod.snd
  else some (s.setMem b { b with refs := b.refs - 1, held := b.held - 1 })

end Buffers

inductive Action
  | createPool (call : PoolCall)
  | allocateBuffer (p : Nat) (call : BufferCall)
  | retainBuffer (i : Nat)
  | releaseBuffer (i : Nat)
  | retainPool (p : Nat)
  | releasePool (p : Nat)

def step (sizeMax : Nat) (s : State) : Action → Option State
  | .createPool call => some (createPool sizeMax s call).2
  | .allocateBuffer p call =>
    (s.pools p).bind fun m =>
      if m.held = 0 then none else (allocateBuffer sizeMax s p call).map Prod.snd
  | .retainBuffer i =>
    (s.mem? i).bind fun b =>
      if b.held = 0 then none
      else some (s.setMem b { b with refs := b.refs + 1, held := b.held + 1 })
  | .releaseBuffer i =>
    (s.mem? i).bind fun b => if b.held = 0 then none else msMemRelease sizeMax s b
  | .retainPool p =>
    (s.pools p).bind fun m =>
      if m.held = 0 then none
      else some (s.setPool p { m with refs := m.refs + 1, held := m.held + 1 })
  | .releasePool p =>
    (s.pools p).bind fun m =>
      if m.held = 0 then none
      else memPoolRelease (s.setPool p { m with held := m.held - 1 }) p

end MinkIpc.MemoryPool
