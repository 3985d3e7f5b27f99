import Mathlib.Data.List.Basic
import MinkIpc.Run

/-! The loop that serves a connectionless socket: a datagram is received, its session is found or
created, and the datagram is handed to it. Worker threads close sessions in between. -/

namespace MinkIpc.ConnlessDispatch

inductive IpcType
  | unix
  | qipcrtr
  | vsock
  | simulated
  | qmsgq
  deriving DecidableEq

structure SockAgnostic where
  sockType : IpcType
  sockFd : Int
  node : UInt32
  port : UInt32
  bServer : Bool
  deriving DecidableEq

namespace SockAgnostic

def zero : SockAgnostic := ⟨.unix, 0, 0, 0, false⟩

def isAlive (me : SockAgnostic) : Bool := me.sockFd ≠ -1

/-- `dup` is what `vm_osal_fd_dup` returns. If it fails, the destination is not written. -/
def adaptAndCopy (dst src : SockAgnostic) (dup : Int) : Int × SockAgnostic :=
  match src.sockType with
  | .unix | .simulated | .qmsgq =>
    if src.bServer then (0, ⟨src.sockType, src.sockFd, -1, -1, src.bServer⟩)
    else if dup < 0 then (dup, dst)
    else (0, ⟨src.sockType, dup, -1, -1, src.bServer⟩)
  | .qipcrtr | .vsock =>
    if dup < 0 then (dup, dst) else (0, ⟨src.sockType, dup, src.node, src.port, src.bServer⟩)

def fullMatched (a b : SockAgnostic) : Bool :=
  if a.sockType ≠ b.sockType then false
  else
    match a.sockType with
    | .unix | .simulated | .qmsgq => a.sockFd = b.sockFd
    | .qipcrtr => a.node = b.node ∧ a.port = b.port
    | .vsock => a.port = b.port

def nodeMatched (a b : SockAgnostic) : Bool :=
  if a.sockType ≠ b.sockType then false else a.node = b.node

end SockAgnostic

section PreProcess

def objectOk : Nat := 0

def objectError : Nat := 1

def discard : Nat := 1

def clientDown : Nat := 2

def serverDown : Nat := 3

def subsysDown : Nat := 4

def vsockCase : Nat := 5

inductive PktType
  | data
  | newServer
  | delServer
  | delClient
  | bye
  | other
  deriving DecidableEq

structure Datagram where
  type : PktType
  node : UInt32
  port : UInt32

def sockQRTRPreProcess (pkt : Datagram) : Nat :=
  let status := 0
  let status :=
    if pkt.type = .newServer ∨ pkt.type = .delServer then
      if pkt.node = 0 ∧ pkt.port = 0 then discard else status
    else status
  let status := if pkt.type ≠ .data then discard else status
  let status := if pkt.type = .delClient then clientDown else status
  let status := if pkt.type = .delServer then serverDown else status
  if pkt.type = .bye then if pkt.node ≠ 0 then discard else subsysDown else status

def sockVSOCKPreProcess : Nat := vsockCase

def SockAgnostic.preProcess (me : SockAgnostic) (pkt : Datagram) : Nat × SockAgnostic :=
  match me.sockType with
  | .qipcrtr => (sockQRTRPreProcess pkt, ⟨me.sockType, me.sockFd, pkt.node, pkt.port, me.bServer⟩)
  | .vsock => (sockVSOCKPreProcess, ⟨me.sockType, me.sockFd, pkt.node, pkt.port, me.bServer⟩)
  | _ => (objectError, ⟨me.sockType, me.sockFd, 0, 0, me.bServer⟩)

end PreProcess

structure Session where
  id : Nat
  sockAgnostic : SockAgnostic
  bDone : Bool
  deriving DecidableEq

namespace Session

def isAlive (x : Session) : Bool := !x.bDone && x.sockAgnostic.isAlive

def close (x : Session) : Session :=
  if x.isAlive then ⟨x.id, { x.sockAgnostic with sockFd := -1 }, true⟩ else x

end Session

section Sessions

variable (sessions : List Session) (peer : SockAgnostic)

def closeSession (i : Nat) : List Session := sessions.map fun x => if x.id = i then x.close else x

def closeSessionOfNode : List Session :=
  sessions.map fun x => if x.sockAgnostic.nodeMatched peer then x.close else x

def closeAllSessions : List Session := sessions.map Session.close

def cleanupDeadSessions : List Session := sessions.filter Session.isAlive

def retrieveSession : Option Session := sessions.find? fun x => x.sockAgnostic.fullMatched peer

end Sessions

/-- What the creation of a session meets: the two allocations, the result of `vm_osal_fd_dup`, and
the initialisations behind it. -/
structure Creation where
  session : Bool
  minksock : Bool
  dup : Int
  primordial : Bool
  credentials : Bool
  objectTable : Bool

inductive Pc
  | cleanup
  | receive
  | lookup (peer : SockAgnostic)
  | handle (peer : SockAgnostic) (i : Nat)
  | done
  deriving DecidableEq

/-- What became of a datagram: it was handed to a session, as that was then, and possibly queued
there, or abandoned because no session could be created. -/
inductive Entry
  | handed (peer : SockAgnostic) (session : Session) (queued : Bool)
  | abandoned (peer : SockAgnostic) (creation : Creation)

/-- `through` are the peers of the datagrams let through so far, and `closed` the sessions that
workers have closed since the last clean-up. -/
structure State where
  bServer : Bool
  bModule : Bool
  sockAgnostic : SockAgnostic
  bDone : Bool
  sessions : List Session
  next : Nat
  pc : Pc
  through : List SockAgnostic
  closed : List Nat
  log : List Entry

section Functions

variable (s : State)

def Creation.succeeds (c : Creation) : Bool :=
  c.session && c.minksock && c.primordial &&
    (!s.bServer || ((!s.bModule || c.credentials) && c.objectTable))

def newSession (peer : SockAgnostic) (c : Creation) : Option Session :=
  if c.succeeds s then
    some ⟨s.next, (SockAgnostic.zero.adaptAndCopy peer c.dup).2, false⟩
  else none

def preProcess (pkt : Datagram) : Nat × SockAgnostic × List Session :=
  let (ret, peer) := s.sockAgnostic.preProcess pkt
  if ret = discard then (ret, peer, s.sessions)
  else if ret = clientDown then
    match retrieveSession s.sessions peer with
    | some x => (ret, peer, closeSession s.sessions x.id)
    | none => (ret, peer, s.sessions)
  else if ret = serverDown then
    if s.sockAgnostic.fullMatched peer then
      match retrieveSession s.sessions peer with
      | some x => (ret, peer, closeSession s.sessions x.id)
      | none => (ret, peer, s.sessions)
    else (objectError, peer, s.sessions)
  else if ret = subsysDown then (ret, peer, closeSessionOfNode s.sessions peer)
  else if ret = vsockCase then
    match retrieveSession s.sessions peer with
    | some _ => (objectOk, peer, s.sessions)
    | none => (objectOk, peer, closeAllSessions s.sessions)
  else (objectOk, peer, s.sessions)

def serverDone : State := { s with sessions := closeAllSessions s.sessions, pc := .done }

def continueLoop : State := if s.bDone then serverDone s else { s with pc := .cleanup }

def receive (pkt : Datagram) : State :=
  let (ret, peer, sessions) := preProcess s pkt
  let s := { s with sessions := sessions }
  if ret = discard ∨ ret = clientDown ∨ ret = subsysDown then continueLoop s
  else if ret = serverDown ∨ ret = objectError then serverDone s
  else { s with pc := .lookup peer, through := s.through ++ [peer] }

def retrieveOrNewSession (peer : SockAgnostic) (c : Creation) : State :=
  match retrieveSession s.sessions peer with
  | some x => { s with pc := .handle peer x.id }
  | none =>
    match newSession s peer c with
    | some x =>
      { s with sessions := s.sessions ++ [x], next := s.next + 1, pc := .handle peer x.id }
    | none => continueLoop { s with log := s.log ++ [.abandoned peer c] }

def handleConnless (x : Session) (ctx data work : Bool) : Bool := ctx && data && x.isAlive && work

end Functions

inductive Action
  | cleanup
  | recvfrom (pkt : Option Datagram)
  | lookup (c : Creation)
  | handle (ctx data work : Bool)
  /-- A worker thread closes a session. -/
  | close (i : Nat)
  /-- `MinkIPC_stop` by another thread, up to where it waits. -/
  | stop

def step (s : State) : Action → Option State
  | .cleanup =>
    match s.pc with
    | .cleanup =>
      some { s with sessions := cleanupDeadSessions s.sessions, pc := .receive, closed := [] }
    | _ => none
  | .recvfrom pkt =>
    match s.pc, pkt with
    | .receive, some pkt => some (receive s pkt)
    | .receive, none => some (serverDone s)
    | _, _ => none
  | .lookup c =>
    match s.pc with
    | .lookup peer => some (retrieveOrNewSession s peer c)
    | _ => none
  | .handle ctx data work =>
    match s.pc with
    | .handle peer i =>
      (s.sessions.find? fun x => x.id = i).map fun x =>
        continueLoop { s with log := s.log ++ [.handed peer x (handleConnless x ctx data work)] }
    | _ => none
  | .close i => some { s with sessions := closeSession s.sessions i, closed := i :: s.closed }
  | .stop => some { s with bDone := true, sockAgnostic := { s.sockAgnostic with sockFd := -1 } }

def State.init (sockAgnostic : SockAgnostic) (bModule : Bool) (dup : Nat) : State where
  bServer := sockAgnostic.bServer
  bModule := bModule
  sockAgnostic := sockAgnostic
  bDone := false
  sessions :=
    if sockAgnostic.bServer then []
    else [⟨0, (SockAgnostic.zero.adaptAndCopy sockAgnostic dup).2, false⟩]
  next := 1
  pc := .cleanup
  through := []
  closed := []
  log := []

end MinkIpc.ConnlessDispatch
