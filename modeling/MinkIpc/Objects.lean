import MinkIpc.ObjectTable
import MinkIpc.ObjectError

/-! The objects an invocation can carry, as far as marshalling tells them apart,
and what marshalling asks of its surroundings. -/

namespace MinkIpc

structure MSForwarder where
  conn : Nat
  handle : Nat
  deriving DecidableEq, Repr

inductive Confinement
  | none
  | rules (specialRules : Nat)
  | foreign
  deriving DecidableEq, Repr

/-- `dependency` is the forwarder that keeps the peer's object alive; other
dependencies play no part in marshalling. -/
structure FdWrapper where
  descriptor : Int
  dependency : Option MSForwarder
  confinement : Confinement
  deriving DecidableEq, Repr

structure MSMem where
  dmaBufFd : Int
  memParcelHandle : Nat
  dependency : Option MSForwarder
  isLocal : Bool
  specialRules : Nat
  deriving DecidableEq, Repr

inductive MemObj
  | fdWrapper (w : FdWrapper)
  | msMem (m : MSMem)
  deriving DecidableEq, Repr

inductive Object
  | null
  | plain (id : Nat)
  | primordial
  | forwarder (f : MSForwarder)
  | mem (o : MemObj)
  | wrappedMemparcel (attached : MemObj) (memparcelHandle : Nat)
  deriving DecidableEq, Repr

abbrev Table := ObjectTable Object

structure MinkSocket where
  id : Nat
  isRemote : Bool
  version : Nat

/-- The outcomes of allocations and of the memory-sharing driver, by the position
of the argument they are asked for. -/
structure Env where
  extend : Nat → Bool
  reserve : Nat → Option Nat
  fdWrapperNew : Nat → Bool
  msForwarderNew : Nat → Bool
  attachConfinement : Nat → Bool
  wrappedMemparcelNew : Nat → Option Nat
  getMSMem : Nat → Nat → Option Int

def FdWrapperFromObject : Object → Option FdWrapper
  | .mem (.fdWrapper w) => some w
  | _ => none

def MSMemFromObject : Object → Option MSMem
  | .mem (.msMem m) => some m
  | _ => none

def MSForwarderFromObject : Object → Option MSForwarder
  | .forwarder f => some f
  | _ => none

def isWrappedFd (obj : Object) : Option Int :=
  (FdWrapperFromObject obj).bind fun w => if w.descriptor > 0 then some w.descriptor else none

def isMSMem (obj : Object) : Option Int :=
  (MSMemFromObject obj).bind fun m => if m.dmaBufFd > 0 then some m.dmaBufFd else none

def isPrimordialOrPrimordialFwd (hd : Handles) : Object → Bool
  | .primordial => true
  | .forwarder f => f.handle == hd.primordial
  | _ => false

def retrieveMemObj (t : Table) (obj : Object) : Option Object :=
  (isWrappedFd obj).bind fun targetFd =>
    (List.range' 1 (t.objectsCount - 1)).findSome? fun h =>
      match t.objects h with
      | some (.wrappedMemparcel attached mp) =>
        if isWrappedFd (.mem attached) = some targetFd then some (.wrappedMemparcel attached mp)
        else none
      | _ => none

def localSock : MinkSocket := ⟨0, false, 0x20000⟩

def healthyEnv : Env where
  extend _ := true
  reserve _ := some 0
  fdWrapperNew _ := true
  msForwarderNew _ := true
  attachConfinement _ := true
  wrappedMemparcelNew _ := some 1
  getMSMem _ _ := some 1

def sampleTable : Table where
  objects n := if n = 3 then some (.plain 8) else none
  objectsLen := 1024
  objectsCount := 1

end MinkIpc
