import MinkIpc.Run
import MinkIpc.TwoParty

/-! The invocations of a connection. An endpoint handles what it has received in any order, since
the next receive is armed before a message is handled. The numbers of invocations are for the
statements only. -/

namespace MinkIpc.Invocation

open TwoParty

structure InvokeInfo where
  inv : Nat
  invokeId : UInt32
  bComplete : Bool
  result : Option Nat
  deriving DecidableEq, Repr

/-- `inv` is the invocation that a request starts or a response answers. A response is a
success or an error. -/
inductive Message
  | request (invokeId : UInt32) (inv : Nat)
  | response (invokeId : UInt32) (inv : Nat)
  deriving DecidableEq, Repr

/-- A thread in `recvInvocationRequest`. `tls` is its specific invoke id, `waits` the
invocation of its own that it waits for. -/
structure Worker where
  invokeId : UInt32
  inv : Nat
  tls : Option UInt32
  waits : Option Nat
  sent : Bool
  deriving DecidableEq, Repr

/-- A thread in `recvInvocationSuccess` or `recvInvocationError` that has got the pending
invocation `pii`. -/
structure Answer where
  invokeId : UInt32
  inv : Nat
  pii : Nat
  bComplete : Bool
  deriving DecidableEq, Repr

/-- `completed` lists the completed invocations, each with the one whose response did it, and
`returned` those that returned, each with the result it read. -/
structure Endpoint where
  qlInvokes : List InvokeInfo
  inbox : List Message
  workers : List Worker
  answers : List Answer
  completed : List (Nat × Nat)
  returned : List (Nat × Option Nat)

structure Connection where
  ends : Side → Endpoint
  invokes : Nat

def Connection.new : Connection := ⟨fun _ => ⟨[], [], [], [], [], []⟩, 0⟩

def Connection.modify (c : Connection) (s : Side) (f : Endpoint → Endpoint) : Connection :=
  { c with ends := TwoParty.modify c.ends s f }

@[simp] theorem Connection.modify_ends (c : Connection) (s : Side) (f : Endpoint → Endpoint) :
    (c.modify s f).ends = TwoParty.modify c.ends s f := rfl

def getInvokeInfo (qlInvokes : List InvokeInfo) (id : UInt32) : Option InvokeInfo :=
  qlInvokes.find? fun pii => pii.invokeId == id

/-- A step of a thread at an endpoint. An invocation is made by a worker or by a thread that
serves nothing, whose id is random. -/
inductive Action
  | invoke (worker : Option Nat) (rand : UInt32)
  | invokeUnsent (worker : Nat)
  | recvInvocationRequest (i : Nat)
  | sendResponse (worker : Nat)
  | endRequest (worker : Nat)
  | recvResponse (i : Nat)
  | setComplete (answer : Nat)
  | setResult (answer : Nat)
  | wake (i : Nat)
  deriving DecidableEq, Repr

def Endpoint.post (e : Endpoint) (m : Message) : Endpoint := { e with inbox := e.inbox ++ [m] }

def Endpoint.nextId (e : Endpoint) (worker : Option Nat) (rand : UInt32) : UInt32 :=
  ((worker.bind (e.workers[·]?)).bind Worker.tls).getD rand

def Connection.send (c : Connection) (s : Side) (id : UInt32) (workers : List Worker) : Connection :=
  { (c.modify s fun e => { e with
      qlInvokes := e.qlInvokes ++ [⟨c.invokes, id, false, none⟩]
      workers := workers }).modify s.peer (·.post (.request id c.invokes)) with
    invokes := c.invokes + 1 }

def Connection.invoke (c : Connection) (s : Side) (worker : Option Nat) (rand : UInt32) :
    Option Connection :=
  let e := c.ends s
  let id := e.nextId worker rand
  match worker with
  | none => some (c.send s id e.workers)
  | some i => e.workers[i]?.bind fun w =>
    if w.waits.isSome then none
    else some (c.send s id (e.workers.set i { w with tls := none, waits := some c.invokes }))

def Endpoint.invokeUnsent (e : Endpoint) (i : Nat) : Option Endpoint :=
  e.workers[i]?.bind fun w =>
    if w.waits.isSome then none
    else some { e with workers := e.workers.set i { w with tls := none } }

def Endpoint.recvInvocationRequest (e : Endpoint) (i : Nat) : Option Endpoint :=
  e.inbox[i]?.bind fun m => match m with
    | .request id inv => some { e with
        inbox := e.inbox.eraseIdx i
        workers := e.workers ++ [⟨id, inv, some id, none, false⟩] }
    | .response _ _ => none

def Connection.sendResponse (c : Connection) (s : Side) (i : Nat) : Option Connection :=
  (c.ends s).workers[i]?.bind fun w =>
    if w.waits.isSome || w.sent then none
    else some ((c.modify s fun e => { e with workers := e.workers.set i { w with sent := true } }).modify
      s.peer (·.post (.response w.invokeId w.inv)))

def Endpoint.endRequest (e : Endpoint) (i : Nat) : Option Endpoint :=
  e.workers[i]?.bind fun w =>
    if w.waits.isSome then none else some { e with workers := e.workers.eraseIdx i }

/-- `recvInvocationSuccess` or `recvInvocationError` up to `getInvokeInfo`; a response for
which there is none is dropped. -/
def Endpoint.recvResponse (e : Endpoint) (i : Nat) : Option Endpoint :=
  e.inbox[i]?.bind fun m => match m with
    | .request _ _ => none
    | .response id inv =>
      let e := { e with inbox := e.inbox.eraseIdx i }
      match getInvokeInfo e.qlInvokes id with
      | none => some e
      | some pii => some { e with answers := e.answers ++ [⟨id, inv, pii.inv, false⟩] }

/-- The first store of `InvokeInfo_setResult`. The mutex is not held: the thread that waits
can return before the second. -/
def Endpoint.setComplete (e : Endpoint) (j : Nat) : Option Endpoint :=
  e.answers[j]?.bind fun a =>
    if a.bComplete then none
    else some { e with
      qlInvokes := e.qlInvokes.map fun p => if p.inv = a.pii then { p with bComplete := true } else p
      answers := e.answers.set j { a with bComplete := true }
      completed := e.completed ++ [(a.pii, a.inv)] }

def Endpoint.setResult (e : Endpoint) (j : Nat) : Option Endpoint :=
  e.answers[j]?.bind fun a =>
    if a.bComplete then
      some { e with
        qlInvokes := e.qlInvokes.map fun p =>
          if p.inv = a.pii then { p with result := some a.inv } else p
        answers := e.answers.eraseIdx j }
    else none

def Endpoint.wake (e : Endpoint) (i : Nat) : Option Endpoint :=
  e.qlInvokes[i]?.bind fun p =>
    if p.bComplete then
      some { e with
        qlInvokes := e.qlInvokes.eraseIdx i
        workers := e.workers.map fun w =>
          if w.waits = some p.inv then { w with waits := none } else w
        returned := e.returned ++ [(p.inv, p.result)] }
    else none

def Connection.atEnd (c : Connection) (s : Side) (f : Endpoint → Option Endpoint) :
    Option Connection :=
  (f (c.ends s)).map fun e => c.modify s fun _ => e

def step (c : Connection) : Side × Action → Option Connection
  | (s, .invoke worker rand) => c.invoke s worker rand
  | (s, .invokeUnsent i) => c.atEnd s (·.invokeUnsent i)
  | (s, .recvInvocationRequest i) => c.atEnd s (·.recvInvocationRequest i)
  | (s, .sendResponse i) => c.sendResponse s i
  | (s, .endRequest i) => c.atEnd s (·.endRequest i)
  | (s, .recvResponse i) => c.atEnd s (·.recvResponse i)
  | (s, .setComplete j) => c.atEnd s (·.setComplete j)
  | (s, .setResult j) => c.atEnd s (·.setResult j)
  | (s, .wake i) => c.atEnd s (·.wake i)

/-- Responses find their invocation if no invocation takes an id that one of the endpoint's queue
still carries. -/
def FreshId (c : Connection) : Side × Action → Prop
  | (s, .invoke worker rand) =>
    ∀ p ∈ (c.ends s).qlInvokes, p.invokeId ≠ (c.ends s).nextId worker rand
  | _ => True

end MinkIpc.Invocation
