import MinkIpc.IDSet
import MinkIpc.ObjectError
import MinkIpc.Run

/-! Service access in the daemon of the virtual machine. Processes are registered as modules;
callers open services through an env, which checks them against the module of their process. -/

namespace MinkIpc.TEnv

/-- An `IDSet` with the ids it was filled with, which the code does not keep. -/
structure IdRecord where
  ids : List UInt32
  set : List IDSet.Chunk
  filled : set = ids.foldl (fun cs id => IDSet.set id cs) [.empty]

def IdRecord.ofIds (ids : List UInt32) : IdRecord := ⟨ids, _, rfl⟩

inductive OpenError
  | notFound
  | privilege
  | localExclusive
  | embedRetry
  | embedMissingProperty
  | object (e : ObjectError)
  deriving DecidableEq

inductive CallerType
  | «local»
  | remote
  deriving DecidableEq

structure Config where
  processLoader : UInt32
  memPoolFactory : UInt32
  powerService : UInt32
  ctRegisterModule : UInt32
  platformInfoService : UInt32
  rebootService : UInt32
  tAccessControl : UInt32
  ctTouchControlService : UInt32
  oemVm : Bool
  embeddedProcessIDList : List UInt32

section Platform

structure PlatformService where
  uid : UInt32
  isRemoteAllowed : Bool

variable (c : Config)

def gServices : List PlatformService :=
  [⟨c.processLoader, true⟩, ⟨c.memPoolFactory, true⟩, ⟨c.powerService, true⟩,
    ⟨c.ctRegisterModule, false⟩, ⟨c.platformInfoService, true⟩, ⟨c.rebootService, true⟩,
    ⟨c.tAccessControl, true⟩] ++ if c.oemVm then [] else [⟨c.ctTouchControlService, false⟩]

def isUIDSupported (id : UInt32) : Bool := (gServices c).any fun p => id == p.uid

def isRemoteAllowed (id : UInt32) : Bool :=
  match (gServices c).find? fun p => id == p.uid with
  | some p => p.isRemoteAllowed
  | none => true

def isEmbeddedService (uid : UInt32) : Bool := c.embeddedProcessIDList.any fun id => uid == id

end Platform

/-- Who holds a reference to a module: a call of `TEnv_open`, or another part of the daemon. -/
inductive Holder
  | call (t : Nat)
  | other
  deriving DecidableEq

structure TModule where
  id : Nat
  refs : List Holder
  key : UInt32
  isLocal : Bool
  session : Option Nat
  privileges : IdRecord
  hasProcCred : Bool

structure MinkHubSession where
  id : Nat
  services : IdRecord

structure Call where
  callerType : CallerType
  uid : UInt32
  lpid : Except OpenError UInt32
  hasCred : Bool

inductive Stage
  | localOpen
  | load
  | remoteOpen
  deriving DecidableEq

/-- A call that has passed its checks; `tMod` is `none` for the module of remote callers. -/
structure Pending where
  call : Call
  tMod : Option Nat
  reloadCount : Nat
  stage : Stage

structure State where
  tModList : List TModule
  sessionList : List MinkHubSession
  isValid : Bool
  calls : Nat → Option Pending
  nextId : Nat

def init : State := ⟨[], [], true, fun _ => none, 0⟩

inductive Service
  | ofSession (id object : Nat)
  | ofRemote (object : Nat)

structure Reply where
  call : Call
  result : Except OpenError Service

section Modules

variable (s : State)

def State.findTModule (key : UInt32) : Option TModule := s.tModList.find? fun m => m.key == key

def State.findId (id : Nat) : Option TModule := s.tModList.find? fun m => m.id == id

def State.destroySession : Option Nat → State
  | none => s
  | some id => { s with sessionList := s.sessionList.filter fun session => session.id != id }

def State.modify (id : Nat) (f : TModule → TModule) : State :=
  { s with tModList := s.tModList.map fun m => if m.id = id then f m else m }

def retain (m : TModule) (h : Holder) : State :=
  s.modify m.id fun m => { m with refs := h :: m.refs }

def release (m : TModule) (h : Holder) : State :=
  if m.refs.erase h = [] then
    { s with tModList := s.tModList.filter fun m' => m'.id != m.id }.destroySession m.session
  else s.modify m.id fun m => { m with refs := m.refs.erase h }

def shutdown (m : TModule) : State :=
  (s.modify m.id fun m => { m with session := none }).destroySession m.session

structure Registration where
  key : UInt32
  serviceIds : List UInt32
  privilegeIds : List UInt32
  hasProcCred : Bool
  hasModule : Bool
  moduleAllocated : Bool
  privilegesAllocated : Bool
  sessionAllocated : Bool
  servicesAllocated : Bool

def registerTModule (r : Registration) : Except OpenError Nat × State :=
  match s.findTModule r.key with
  | some m => (.ok m.id, retain s m .other)
  | none =>
    if r.moduleAllocated = false ∨ r.privilegesAllocated = false then (.error (.object .mem), s)
    else if s.isValid = false then (.error (.object .defunct), s)
    else if r.sessionAllocated = false then (.error (.object .mem), s)
    else if r.serviceIds = [] ∨ r.hasModule = false then (.error (.object .invalid), s)
    else if r.servicesAllocated = false then (.error (.object .mem), s)
    else
      (.ok s.nextId, { s with
        tModList := s.tModList ++
          [⟨s.nextId, [.other], r.key, true, some s.nextId, .ofIds r.privilegeIds, r.hasProcCred⟩]
        sessionList := s.sessionList ++ [⟨s.nextId, .ofIds r.serviceIds⟩]
        nextId := s.nextId + 1 })

end Modules

section Opening

variable (c : Config) (s : State)

def remoteTMod : TModule := ⟨0, [.other], 0, false, none, .ofIds [], false⟩

def State.tModule : Option Nat → Option TModule
  | none => some remoteTMod
  | some id => s.findId id

/-- The first session that registers the service; `answer` is what its module makes of
`IModule_open`. -/
def openSession (uid : UInt32) (answer : Except OpenError Nat) : Except OpenError Service :=
  match s.sessionList.find? fun session => IDSet.test uid session.services.set with
  | some session => answer.map (Service.ofSession session.id)
  | none => .error .notFound

def minkHubLocalOpen (isLocal hasCred : Bool) (wrap : Except OpenError Unit)
    (uid : UInt32) (answer : Except OpenError Nat) : Except OpenError Service :=
  if hasCred = false then .error (.object .invalid)
  else if s.isValid = false then .error (.object .defunct)
  else if isLocal then wrap.bind fun _ => openSession s uid answer
  else openSession s uid answer

def tModuleLocalOpen (m : TModule) (call : Call) (wrap : Except OpenError Unit)
    (answer : Except OpenError Nat) : Except OpenError Service :=
  let hasCred := if m.isLocal then m.hasProcCred else call.hasCred
  minkHubLocalOpen s m.isLocal hasCred wrap call.uid answer

def askServers : List (Except OpenError Nat) → Except OpenError Nat
  | [] => .error .notFound
  | answer :: answers =>
    match answer with
    | .error .notFound => askServers answers
    | _ => answer

def minkHubRemoteOpen (hasCred : Bool) (wrap : Except OpenError Unit)
    (answers : List (Except OpenError Nat)) : Except OpenError Service :=
  if hasCred = false then .error (.object .invalid)
  else if s.isValid = false then .error (.object .defunct)
  else wrap.bind fun _ => (askServers answers).map Service.ofRemote

def tModuleRemoteOpen (m : TModule) (busy : Bool) (wrap : Except OpenError Unit)
    (answers : List (Except OpenError Nat)) : Except OpenError Service :=
  if busy then .error .notFound else minkHubRemoteOpen s m.hasProcCred wrap answers

def maxReloadAttempts : Nat := 10

inductive LoadResult
  | ok
  | transport (e : ObjectError)
  | invalidBuffer
  | procNotLoaded
  | procAlreadyLoaded
  | embedMissingProperty
  | iModuleRegistration
  | unlisted

def itProcessLoaderToITEnvError : LoadResult → Except OpenError Unit
  | .ok => .ok ()
  | .transport e => .error (.object e)
  | .procAlreadyLoaded => .ok ()
  | .embedMissingProperty => .error .embedMissingProperty
  | .invalidBuffer => .error (.object .error)
  | .procNotLoaded => .error (.object .error)
  | .iModuleRegistration => .error (.object .error)
  | .unlisted => .error (.object .error)

def checkPrivilege (uid : UInt32) (m : TModule) : Except OpenError (Option TModule) :=
  if isUIDSupported c uid then .ok (some m)
  else if IDSet.test uid m.privileges.set then .ok (some m)
  else .error .privilege

def checkKey (uid key : UInt32) : Except OpenError (Option TModule) :=
  match s.findTModule key with
  | none => .error (.object .invalid)
  | some m => checkPrivilege c uid m

def checkLocal (call : Call) : Except OpenError (Option TModule) :=
  if call.uid = c.ctRegisterModule then .ok none else call.lpid.bind (checkKey c s call.uid)

def checkRemote (call : Call) (wrap : Except OpenError Unit) : Except OpenError (Option TModule) :=
  if isRemoteAllowed c call.uid = false then .error .localExclusive
  else wrap.bind fun _ => .ok none

/-- `TEnv_open` up to its loop; `wake` is what the power service answers. A reference that the
search for the module takes is given back if the call fails here. -/
def enter (call : Call) (wake wrap : Except OpenError Unit) : Except OpenError (Option TModule) :=
  wake.bind fun _ =>
    match call.callerType with
    | .local => checkLocal c s call
    | .remote => checkRemote c call wrap

def start (t : Nat) (call : Call) : Option TModule → State
  | none => { s with calls := Function.update s.calls t (some ⟨call, none, reloads, .localOpen⟩) }
  | some m => { retain s m (.call t) with
      calls := Function.update s.calls t (some ⟨call, some m.id, reloads, .localOpen⟩) }
where
  reloads : Nat := if isEmbeddedService c call.uid then maxReloadAttempts else 1

def finish (t : Nat) (p : Pending) : State :=
  let s' := { s with calls := Function.update s.calls t none }
  match p.tMod.bind s.findId with
  | none => s'
  | some m => release s' m (.call t)

def State.setCall (t : Nat) (p : Pending) : State :=
  { s with calls := Function.update s.calls t (some p) }

def afterAttempt (t : Nat) (p : Pending) : State × Option Reply :=
  if p.reloadCount = 0 then
    if isEmbeddedService c p.call.uid then (finish s t p, some ⟨p.call, .error .embedRetry⟩)
    else
      match p.call.callerType with
      | .local => (s.setCall t { p with stage := .remoteOpen }, none)
      | .remote => (finish s t p, some ⟨p.call, .error .notFound⟩)
  else
    let stage := if isEmbeddedService c p.call.uid then Stage.load else .localOpen
    (s.setCall t { p with reloadCount := p.reloadCount - 1, stage := stage }, none)

end Opening

inductive Action
  | register (r : Registration)
  | retain (id : Nat)
  | release (id : Nat)
  | shutdown (id : Nat)
  | destroyHub
  | «open» (t : Nat) (call : Call) (wake wrap : Except OpenError Unit)
  | localOpen (t : Nat) (wrap : Except OpenError Unit) (answer : Except OpenError Nat)
  | load (t : Nat) (result : LoadResult)
  | remoteOpen (t : Nat) (busy : Bool) (wrap : Except OpenError Unit)
      (answers : List (Except OpenError Nat))

section Steps

variable (c : Config) (s : State)

/-- The action in a state, with the reply if it ends a call. References are released and modules
shut down by those that hold them. -/
def perform : Action → Option (State × Option Reply)
  | .register r => some ((registerTModule s r).2, none)
  | .retain id => do
      let m ← s.findId id
      guard (.other ∈ m.refs)
      return (TEnv.retain s m .other, none)
  | .release id => do
      let m ← s.findId id
      guard (.other ∈ m.refs)
      return (TEnv.release s m .other, none)
  | .shutdown id => do
      let m ← s.findId id
      guard (.other ∈ m.refs)
      return (TEnv.shutdown s m, none)
  | .destroyHub => some ({ s with isValid := false }, none)
  | .open t call wake wrap => do
      guard ((s.calls t).isNone)
      match enter c s call wake wrap with
      | .error e => return (s, some ⟨call, .error e⟩)
      | .ok m => return (start c s t call m, none)
  | .localOpen t wrap answer => do
      let p ← s.calls t
      guard (p.stage = .localOpen)
      let m ← s.tModule p.tMod
      match tModuleLocalOpen s m p.call wrap answer with
      | .ok service => return (finish s t p, some ⟨p.call, .ok service⟩)
      | .error _ => return afterAttempt c s t p
  | .load t result => do
      let p ← s.calls t
      guard (p.stage = .load)
      match itProcessLoaderToITEnvError result with
      | .ok () => return (s.setCall t { p with stage := .localOpen }, none)
      | .error e => return (finish s t p, some ⟨p.call, .error e⟩)
  | .remoteOpen t busy wrap answers => do
      let p ← s.calls t
      guard (p.stage = .remoteOpen)
      let m ← s.tModule p.tMod
      return (finish s t p, some ⟨p.call, tModuleRemoteOpen s m busy wrap answers⟩)

def step (a : Action) : Option State := (perform c s a).map Prod.fst

def reply (a : Action) : Option Reply := (perform c s a).bind Prod.snd

end Steps

end MinkIpc.TEnv
