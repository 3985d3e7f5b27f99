import MinkIpc.Run
import Mathlib.Data.List.Nodup
import Mathlib.Logic.Function.Basic

/-! Waits and signals on one wait object. Threads that wait and signals that nobody waits for stand
in one list under a lock; a thread looks at its own item without the lock. -/

namespace MinkIpc.CWait

structure Request where
  msec : UInt32
  code : UInt32
  events : UInt32
  out : UInt32

structure WaiterItem where
  events : UInt32
  code : UInt32
  signaled : Bool

structure SignalItem where
  id : Nat
  events : UInt32
  code : UInt32

inductive Item
  | waiter (t : Nat)
  | signal (x : SignalItem)

inductive Status
  | ok
  | error
  deriving DecidableEq

inductive Phase
  | inLoop
  | left (rv : Status)
  | saw (rv : Status)
  | looked (rv : Status)
  | returned (rv : Status)
  deriving DecidableEq

structure Wait where
  request : Request
  item : WaiterItem
  phase : Phase
  out : UInt32
  woken : Option Nat

structure State where
  list : List Item
  waits : Nat → Option Wait
  signals : List SignalItem

def init : State := ⟨[], fun _ => none, []⟩

def waitInfinite : UInt32 := 0xFFFFFFFF

section Matching

variable (code events : UInt32)

def WaiterItem.accepts (w : WaiterItem) : Bool :=
  w.events &&& events != 0 && (w.code == 0 || w.code == code)

def SignalItem.answers (x : SignalItem) : Bool :=
  x.events &&& events != 0 && (x.code == code || x.code == 0)

def findWaiter (s : State) : Option (Nat × Wait) :=
  s.list.findSome? fun
    | .waiter t => (s.waits t).bind fun w => if w.item.accepts code events then some (t, w) else none
    | .signal _ => none

def getSignalItem : List Item → Option (SignalItem × List Item)
  | [] => none
  | .waiter t :: rest => (getSignalItem rest).map fun r => (r.1, .waiter t :: r.2)
  | .signal x :: rest =>
    if x.answers code events then some (x, rest)
    else (getSignalItem rest).map fun r => (r.1, .signal x :: r.2)

end Matching

def Wait.Waiting (w : Wait) : Prop :=
  w.item.signaled = false ∧ (w.phase = .inLoop ∨ w.phase = .left .ok)

instance (w : Wait) : Decidable w.Waiting := inferInstanceAs (Decidable (_ ∧ _))

def Wait.signal (w : Wait) (x : SignalItem) : Wait :=
  { w with
    item := { w.item with signaled := true, events := w.item.events &&& x.events }
    woken := if w.Waiting then some x.id else w.woken }

inductive Move
  | timedOut
  | failed
  | wokenUp
  | look
  | report
  | clear
  deriving DecidableEq

-- The time may be over although the flag has just been set.
def Wait.advance (w : Wait) : Move → Option Wait
  | .timedOut =>
    if w.phase = .inLoop ∧ w.request.msec ≠ waitInfinite then some { w with phase := .left .ok }
    else none
  | .failed => if w.phase = .inLoop then some { w with phase := .left .error } else none
  | .wokenUp =>
    if w.phase = .inLoop ∧ w.item.signaled then some { w with phase := .left .ok } else none
  | .look =>
    match w.phase with
    | .left rv => some { w with phase := if w.item.signaled then .saw rv else .looked rv }
    | _ => none
  | .report =>
    match w.phase with
    | .saw rv => some { w with out := w.item.events, phase := .looked rv }
    | _ => none
  | .clear =>
    match w.phase with
    | .looked rv => some { w with phase := .returned rv }
    | _ => none

section Calls

variable (s : State)

def State.setWait (t : Nat) (w : Wait) : State :=
  { s with waits := Function.update s.waits t (some w) }

/-- `CWait_wait` until the lock is given up. Without memory a null item is dereferenced, and
nothing follows. -/
def wait (t : Nat) (r : Request) (allocated : Bool) : Option State :=
  let item : WaiterItem := ⟨r.events, r.code, false⟩
  if r.events = 0 ∨ r.msec = 0 then some (s.setWait t ⟨r, item, .returned .ok, 0, none⟩)
  else
    match getSignalItem r.code r.events s.list with
    | some (x, list) =>
      some ({ s with list := list }.setWait t
        ⟨r, item, .returned .ok, x.events &&& r.events, some x.id⟩)
    | none =>
      if allocated then
        some ({ s with list := s.list ++ [Item.waiter t] }.setWait t ⟨r, item, .inLoop, r.out, none⟩)
      else none

def signal (code events : UInt32) (allocated : Bool) : State :=
  let x : SignalItem := ⟨s.signals.length, events, code⟩
  let s' := { s with signals := s.signals ++ [x] }
  match findWaiter code events s with
  | some (t, w) => s'.setWait t (w.signal x)
  | none => if code ≠ 0 ∧ allocated then { s' with list := s.list ++ [.signal x] } else s'

def isWaiter (t : Nat) : Item → Bool
  | .waiter u => u == t
  | .signal _ => false

def move (t : Nat) (m : Move) : Option State := do
  let w ← s.waits t
  let w' ← w.advance m
  if m = .clear then
    return { s with list := s.list.filter fun i => !isWaiter t i }.setWait t w'
  else return s.setWait t w'

end Calls

inductive Action
  | wait (t : Nat) (r : Request) (allocated : Bool)
  | signal (code events : UInt32) (allocated : Bool)
  | move (t : Nat) (m : Move)

def step (s : State) : Action → Option State
  | .wait t r allocated => if (s.waits t).isSome then none else wait s t r allocated
  | .signal code events allocated => some (signal s code events allocated)
  | .move t m => move s t m

end MinkIpc.CWait
