import Mathlib.Data.List.Basic
import MinkIpc.ObjectError
import MinkIpc.RefHeap
import MinkIpc.Run

/-! The process manager of the root daemon: the list of running processes, the process objects that
its nodes, the process controllers and clients refer to, and the steps that add and remove nodes. -/

namespace MinkIpc.ProcessRegistry

abbrev DistId := List UInt8

structure TProcess where
  pPid : Nat
  pid : Nat
  did : DistId
  isZombie : Bool

structure TProcessNode where
  cid : Nat
  tProcObj : Nat
  deriving DecidableEq

structure TProcController where
  id : Nat
  refs : Int
  tprocObj : Nat
  neverUnload : Bool
  deriving DecidableEq

/-- `held` counts the references to a process object other than those of nodes and controllers:
those of clients, and that of the running function. -/
structure State where
  procCnt : Int
  procs : List TProcessNode
  heap : RefHeap.Heap TProcess
  ctrls : List TProcController
  held : Nat → Nat
  next : Nat
  nextCtrl : Nat

def State.init : State where
  procCnt := 0
  procs := []
  heap _ := none
  ctrls := []
  held _ := 0
  next := 0
  nextCtrl := 0

inductive LaunchError
  | object (err : ObjectError)
  | invalidBuffer
  | procAlreadyLoaded
  | procNotLoaded
  deriving DecidableEq

/-- A launch, with the outcome of each step: `programData` carries `neverUnload`, `buffer` is
whether the memory object has a descriptor, `launched` has the process id and its parent's. -/
structure LaunchCall where
  did : DistId
  cid : Nat
  programData : Option Bool
  buffer : Bool
  launched : Option (Nat × Nat)
  procAlloc : Bool
  nodeAlloc : Bool
  ctrlAlloc : Bool

/-- `ret` is `none` for OK; the other fields are what the call has written. -/
structure Answer where
  ret : Option LaunchError
  pid : Option Nat
  tProcObj : Option Nat
  tProcCtrlObj : Option Nat
  deriving DecidableEq

section Objects

variable (s : State)

def retainProc (p : Nat) : Option State :=
  (RefHeap.retain s.heap p).map fun h =>
    { s with heap := h, held := Function.update s.held p (s.held p + 1) }

def releaseProc (p : Nat) : Option State :=
  (RefHeap.release s.heap p).map fun h =>
    { s with heap := h, held := Function.update s.held p (s.held p - 1) }

def findNode (test : TProcess → Bool) : List TProcessNode → Option (Option TProcessNode)
  | [] => some none
  | n :: ns =>
    (RefHeap.val? s.heap n.tProcObj).bind fun proc =>
      if test proc then some (some n) else findNode test ns

def deleteNode (n : TProcessNode) : Option State :=
  (RefHeap.release s.heap n.tProcObj).map fun h =>
    { s with heap := h, procs := s.procs.erase n, procCnt := s.procCnt - 1 }

def ppmRemove (p : Nat) : Option State :=
  match s.procs.find? fun n => n.tProcObj = p with
  | none => some s
  | some n => deleteNode s n

def forceClose (p : Nat) : Option State :=
  (RefHeap.val? s.heap p).bind fun proc =>
    if proc.isZombie then some s
    else
      (RefHeap.modify s.heap p fun proc => { proc with isZombie := true }).bind fun h =>
        ppmRemove { s with heap := h } p

def processDied (pPid : Nat) : Option State :=
  (findNode s (fun proc => proc.pPid = pPid) s.procs).bind fun
    | none => some s
    | some n =>
      (retainProc s n.tProcObj).bind fun s =>
        (forceClose s n.tProcObj).bind fun s => releaseProc s n.tProcObj

def processNew (pid pPid : Nat) (did : DistId) : State :=
  { s with
    heap := RefHeap.alloc s.heap s.next ⟨pPid, pid, did, false⟩
    held := Function.update s.held s.next 1
    next := s.next + 1 }

-- Without memory for the node the clean-up takes the null pointer for one.
def add (p cid : Nat) (nodeAlloc : Bool) : Option State :=
  if nodeAlloc then
    (RefHeap.retain s.heap p).map fun h =>
      { s with heap := h, procs := s.procs ++ [⟨cid, p⟩], procCnt := s.procCnt + 1 }
  else none

def controllerNew (p : Nat) (neverUnload : Bool) : Option State :=
  (RefHeap.retain s.heap p).map fun h =>
    { s with
      heap := h
      ctrls := ⟨s.nextCtrl, 1, p, neverUnload⟩ :: s.ctrls
      nextCtrl := s.nextCtrl + 1 }

def controllerRelease (c : TProcController) : Option State :=
  (if c.refs = 1 ∧ c.neverUnload = false then forceClose s c.tprocObj else some s).bind fun s =>
    if c.refs - 1 = 0 then
      (RefHeap.release s.heap c.tprocObj).map fun h =>
        { s with heap := h, ctrls := s.ctrls.erase c }
    else some { s with ctrls := { c with refs := c.refs - 1 } :: s.ctrls.erase c }

end Objects

section Manager

variable (s : State)

/-- The process id reported is the one the launch has set, which a launch that finds the process
already there has not done. -/
def launch (call : LaunchCall) : Option (Answer × State) :=
  (findNode s (fun proc => proc.did = call.did) s.procs).bind fun
    | some _ => some (⟨some .procAlreadyLoaded, some 0, none, none⟩, s)
    | none =>
      match call.programData with
      | none => some (⟨some (.object .error), none, none, none⟩, s)
      | some neverUnload =>
        if call.buffer then
          match call.launched with
          | none => some (⟨some .procNotLoaded, none, none, none⟩, s)
          | some (pid, pPid) =>
            if call.procAlloc then
              let p := s.next
              (add (processNew s pid pPid call.did) p call.cid call.nodeAlloc).bind fun s =>
                if call.ctrlAlloc then
                  (controllerNew s p neverUnload).map (⟨none, some pid, some p, some s.nextCtrl⟩, ·)
                else
                  (releaseProc s p).map (⟨some (.object .mem), none, none, none⟩, ·)
            else some (⟨some (.object .mem), none, none, none⟩, s)
        else some (⟨some .invalidBuffer, none, none, none⟩, s)

def shutdown (dlBase embeddedBase : Nat) (force : Bool) : Option State :=
  if !force && s.procs.any fun n => dlBase ≤ n.cid && n.cid < embeddedBase then some s
  else Run.exec deleteNode s s.procs

inductive Action
  | launch (call : LaunchCall)
  | processDied (pPid : Nat)
  | retainProc (p : Nat)
  | releaseProc (p : Nat)
  | forceCloseProc (p : Nat)
  | retainController (c : TProcController)
  | releaseController (c : TProcController)
  | forceCloseController (c : TProcController)
  | shutdown (dlBase embeddedBase : Nat) (force : Bool)

def step : Action → Option State
  | .launch call => (launch s call).map Prod.snd
  | .processDied pPid => processDied s pPid
  | .retainProc p => if s.held p = 0 then none else retainProc s p
  | .releaseProc p => if s.held p = 0 then none else releaseProc s p
  | .forceCloseProc p => if s.held p = 0 then none else forceClose s p
  | .retainController c =>
    if c ∈ s.ctrls then some { s with ctrls := { c with refs := c.refs + 1 } :: s.ctrls.erase c }
    else none
  | .releaseController c => if c ∈ s.ctrls then controllerRelease s c else none
  | .forceCloseController c => if c ∈ s.ctrls then forceClose s c.tprocObj else none
  | .shutdown dlBase embeddedBase force => shutdown s dlBase embeddedBase force

end Manager

end MinkIpc.ProcessRegistry
