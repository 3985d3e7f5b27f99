import Mathlib.Data.List.Nodup
import MinkIpc.IDSet
import MinkIpc.ObjectQuota

/-! Environments that the daemon hands out to its clients. The first call of a client makes a hub
session, an environment and a wrapper around it, which is kept in a map. -/

namespace MinkIpc.ClientEnv

open ObjectQuota (Ref Invocation)

abbrev ClientId := List UInt8

structure Custom where
  refs : Int
  session : Nat
  services : List IDSet.Chunk

/-- `wraps` says which environment a wrapper was made for, and `destroyed` how often each of the
`sessions` made so far was destroyed. -/
structure State where
  wrappers : ObjectQuota.State
  credMap : List (ClientId × Nat)
  customs : Nat → Option Custom
  nextCustom : Nat
  wraps : Nat → Nat
  sessions : Nat
  destroyed : Nat → Nat

def State.init : State where
  wrappers := .init
  credMap := []
  customs _ := none
  nextCustom := 0
  wraps _ := 0
  sessions := 0
  destroyed _ := 0

structure Config where
  maxSystemClients : Nat
  maxQTEEObjectsPerClient : Int
  qteeObjectQuota : Int
  customInvoke : Nat

structure Uid where
  id : UInt32
  alloc : Bool
  deriving DecidableEq

/-- A call of `CRegister_getClientEnv`, with the outcome of each step that may fail; a `none` buffer
is the null pointer. -/
structure Call where
  clientId : ClientId
  credentialBuf : Option (List UInt8)
  whitelistBuf : Option (List Uid)
  newLASystem : Option ObjectError
  createSession : Option ObjectError
  customAlloc : Bool
  wrapperAlloc : Bool
  root : Option Nat

def Call.noCredentials (call : Call) : Bool := (call.credentialBuf.getD []).isEmpty

structure Answer where
  ret : Option ObjectError
  clientEnvObj : Option Nat
  deriving DecidableEq

section Objects

variable (s : State)

def destroySession (session : Nat) : State :=
  { s with destroyed := Function.update s.destroyed session (s.destroyed session + 1) }

def setServices : List Uid → List IDSet.Chunk → Option (List IDSet.Chunk)
  | [], cs => some cs
  | u :: us, cs => if u.alloc then setServices us (IDSet.set u.id cs) else none

def State.setCustom (c : Nat) (k : Option Custom) : State :=
  { s with customs := Function.update s.customs c k }

def State.newCustom (k : Custom) : State :=
  { s with
    customs := Function.update s.customs s.nextCustom (some k)
    nextCustom := s.nextCustom + 1 }

-- A call that fails after the allocation does not free the environment.
def customNewClient (session : Nat) (call : Call) : Except ObjectError Nat × State :=
  if call.customAlloc then
    match call.whitelistBuf.getD [] with
    | [] => (.error .error, s.newCustom ⟨1, session, [.empty]⟩)
    | u :: us =>
      match setServices (u :: us) [.empty] with
      | none => (.error .mem, s.newCustom ⟨1, session, [.empty]⟩)
      | some services => (.ok s.nextCustom, s.newCustom ⟨1, session, services⟩)
  else (.error .mem, s)

def customRetain (c : Nat) : Option State :=
  (s.customs c).map fun k => s.setCustom c (some { k with refs := k.refs + 1 })

def customRelease (c : Nat) : Option State :=
  (s.customs c).map fun k =>
    if k.refs - 1 = 0 then (destroySession s k.session).setCustom c none
    else s.setCustom c (some { k with refs := k.refs - 1 })

def State.setWrappers (w : ObjectQuota.State) : State := { s with wrappers := w }

def retainEnv (p : Nat) : Option State := (ObjectQuota.retain s.wrappers (.env p)).map s.setWrappers

def releaseEnv (p : Nat) : Option State :=
  (s.wrappers.envs p).bind fun e =>
    (ObjectQuota.release s.wrappers (.env p)).bind fun w =>
      if e.refs - 1 = 0 then customRelease (s.setWrappers w) (s.wraps p)
      else some (s.setWrappers w)

end Objects

section Map

variable (cfg : Config) (s : State)

def State.find (clientId : ClientId) : Option Nat := s.credMap.lookup clientId

def unused (e : ObjectQuota.EnvWrapper) : Bool := e.refs ≤ 1 && e.qteeObjectCount ≤ 1

def cleanEntry (x : ClientId × Nat) : Option State :=
  (s.wrappers.envs x.2).bind fun e =>
    if unused e then
      (releaseEnv s x.2).map fun t => { t with credMap := t.credMap.erase x }
    else some s

def cleanEnvs : Option State := Run.exec cleanEntry s s.credMap

/-- The part of `get` before the clean-up: an environment that is found is retained. -/
def lookUp (clientId : ClientId) : Option (Option Nat × State) :=
  match s.find clientId with
  | some p => (retainEnv s p).map (some p, ·)
  | none => some (none, s)

def get (clientId : ClientId) : Option (Option Nat × State) :=
  (lookUp s clientId).bind fun (found, s) => (cleanEnvs s).map (found, ·)

def envWrapperOpen (call : Call) (custom : Nat) : Option State :=
  customRetain { s with
      wrappers := ObjectQuota.envWrapperOpen s.wrappers call.root cfg.customInvoke
        cfg.maxQTEEObjectsPerClient cfg.qteeObjectQuota
      wraps := Function.update s.wraps s.wrappers.next custom }
    custom

/-- Returns the wrapper that was stored for the caller, if any. The credentials object is never
null here. -/
def add (call : Call) (custom : Nat) : Option (Option Nat × State) :=
  if call.clientId.isEmpty then some (none, s)
  else if call.wrapperAlloc then
    let p := s.wrappers.next
    (envWrapperOpen cfg s call custom).bind fun s =>
      match s.find call.clientId with
      | none => (retainEnv { s with credMap := (call.clientId, p) :: s.credMap } p).map (some p, ·)
      | some q => (releaseEnv s p).bind fun s => (retainEnv s q).map (some q, ·)
  else some (none, s)

/-- The part for a client not in the map. Once `Custom_newClient` has returned, the status stays OK,
also when `add` refuses; the function drops its own reference to the environment. -/
def newClientEnv (call : Call) : Option (Answer × State) :=
  match call.newLASystem with
  | some err => some (⟨some err, none⟩, s)
  | none =>
    match call.createSession with
    | some err => some (⟨some err, none⟩, s)
    | none =>
      let session := s.sessions
      match customNewClient { s with sessions := session + 1 } session call with
      | (.error err, s) => some (⟨some err, none⟩, destroySession s session)
      | (.ok custom, s) =>
        (add cfg s call custom).bind fun (stored, s) =>
          (customRelease s custom).map (⟨none, stored⟩, ·)

def getClientEnv (call : Call) : Option (Answer × State) :=
  if call.noCredentials then some (⟨some .error, none⟩, s)
  else
    (get s call.clientId).bind fun (found, s) =>
      match found with
      | some p => some (⟨none, some p⟩, s)
      | none =>
        if s.credMap.length < cfg.maxSystemClients then newClientEnv cfg s call
        else some (⟨some .noSlots, none⟩, s)

end Map

section Clients

variable (cfg : Config) (s : State)

def clientHeld : Ref → Nat
  | .env p => s.wrappers.held (.env p) - if p ∈ s.credMap.map Prod.snd then 1 else 0
  | .obj i => s.wrappers.held (.obj i)

inductive Action
  | getClientEnv (call : Call)
  | invoke (w : Ref) (inv : Invocation)
  | retain (w : Ref)
  | release (w : Ref)

def step : Action → Option State
  | .getClientEnv call => (getClientEnv cfg s call).map Prod.snd
  | .invoke w inv =>
    if clientHeld s w = 0 then none
    else (ObjectQuota.step s.wrappers (.invoke w inv)).map s.setWrappers
  | .retain w =>
    if clientHeld s w = 0 then none
    else (ObjectQuota.step s.wrappers (.retain w)).map s.setWrappers
  | .release w =>
    if clientHeld s w = 0 then none
    else match w with
      | .env p => releaseEnv s p
      | .obj i => (ObjectQuota.step s.wrappers (.release (.obj i))).map s.setWrappers

end Clients

end MinkIpc.ClientEnv
