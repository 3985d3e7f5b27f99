import MinkIpc.ObjectError
import MinkIpc.TIObjectTable
import MinkIpc.TwoParty

/-! How a tunnel endpoint passes objects. An own object goes out as a reference counted in the
object table, an object of the peer as its index there. The loops over buffers stand as the error
they end with. -/

namespace MinkIpc.TunnelInvoke

abbrev TIMessageObj := UInt32

def gNullTIMessageObj : TIMessageObj := 0

def remoteInDestDomain : UInt32 := 0x80000000

def isRemoteInDestDomain (h : TIMessageObj) : Bool := h &&& remoteInDestDomain != 0

def markRemoteInDestDomain (h : TIMessageObj) : TIMessageObj := h ||| remoteInDestDomain

def markLocalInDestDomain (h : TIMessageObj) : TIMessageObj := h &&& ~~~remoteInDestDomain

def handleToIndex (h : TIMessageObj) : Nat := (markLocalInDestDomain h - 1).toNat

def indexToHandle (i : Nat) : TIMessageObj := UInt32.ofNat (i + 1)

inductive Object
  | null
  | own (context : Nat)
  | forwarder (tif : Nat)
  deriving DecidableEq, Repr

structure TIF where
  refs : Nat
  remoteObjectIndex : Nat
  deriving DecidableEq, Repr

/-- Forwarders are addressed by their position in `tifs`. `deleted` has the index of each deleted
forwarder whose release has not been sent to the peer yet. -/
structure Endpoint where
  objTable : ObjectTable Nat
  tifs : List TIF
  deleted : List Nat
  deriving DecidableEq

inductive ObjectOp
  | release
  | otherLocal
  | method (id : Nat)
  deriving DecidableEq, Repr

structure TIMessage where
  cxt : TIMessageObj
  op : ObjectOp
  args : List TIMessageObj
  deriving DecidableEq, Repr

namespace Endpoint

def newTIF (e : Endpoint) (index : Nat) : Endpoint × Object :=
  ({ e with tifs := e.tifs ++ [⟨1, index⟩] }, .forwarder e.tifs.length)

def index (e : Endpoint) (f : Nat) : Nat := (e.tifs[f]?.map TIF.remoteObjectIndex).getD 0

def retain (e : Endpoint) (f : Nat) : Endpoint :=
  match e.tifs[f]? with
  | some ⟨refs + 1, index⟩ => { e with tifs := e.tifs.set f ⟨refs + 2, index⟩ }
  | _ => e

def release (e : Endpoint) (f : Nat) : Endpoint :=
  match e.tifs[f]? with
  | some ⟨1, index⟩ => { e with tifs := e.tifs.set f ⟨0, index⟩, deleted := e.deleted ++ [index] }
  | some ⟨refs + 2, index⟩ => { e with tifs := e.tifs.set f ⟨refs + 1, index⟩ }
  | _ => e

def releaseHandle (e : Endpoint) (i : Nat) : Endpoint :=
  { e with objTable := e.objTable.releaseHandle i }

def releaseObject (e : Endpoint) : Object → Endpoint
  | .forwarder f => e.release f
  | _ => e

def releaseObjects (e : Endpoint) (os : List Object) : Endpoint := os.foldl releaseObject e

def copyObjectFromRemote (e : Endpoint) (arg : TIMessageObj × Bool) :
    Except ObjectError (Endpoint × Object) :=
  if arg.1 = gNullTIMessageObj then .ok (e, .null)
  else if isRemoteInDestDomain arg.1 then
    if arg.2 then .ok (e.newTIF (handleToIndex arg.1)) else .error .mem
  else match e.objTable.recoverObject (handleToIndex arg.1) with
    | none => .error .badObj
    | some o => .ok (e, .own o)

def copyObjectToRemote (outbound : Bool) (e : Endpoint) :
    Object → Except ObjectError (Endpoint × TIMessageObj)
  | .null => .ok (e, gNullTIMessageObj)
  | .forwarder f =>
    .ok (if outbound then e.retain f else e, markLocalInDestDomain (indexToHandle (e.index f)))
  | .own o =>
    match e.objTable.addObject o with
    | none => .error .noSlots
    | some (i, t) => .ok ({ e with objTable := t }, markRemoteInDestDomain (indexToHandle i))

def copyObjects {α β : Type} (copy : Endpoint → α → Except ObjectError (Endpoint × β)) :
    List α → Endpoint → Endpoint × List β × Option ObjectError
  | [], e => (e, [], none)
  | a :: as, e =>
    match copy e a with
    | .error err => (e, [], some err)
    | .ok (e', b) =>
      let (e'', bs, err) := copyObjects copy as e'
      (e'', b :: bs, err)

def inboundMarshalIn (e : Endpoint) (buffers : Option ObjectError)
    (args : List (TIMessageObj × Bool)) : Endpoint × List Object × Option ObjectError :=
  match buffers with
  | some err => (e, [], some err)
  | none => copyObjects copyObjectFromRemote args e

def undoInbound (e : Endpoint) (arg : Object × TIMessageObj) : Endpoint :=
  if arg.1 = .null then e
  else if isRemoteInDestDomain arg.2 then e.releaseHandle (handleToIndex arg.2)
  else e

def inboundMarshalOut (e : Endpoint) (buffers : Option ObjectError) (args : List Object) :
    Endpoint × Except ObjectError (List TIMessageObj) :=
  match buffers with
  | some err => (e, .error err)
  | none =>
    match copyObjects (copyObjectToRemote false) args e with
    | (e', hs, none) => (e', .ok hs)
    | (e', hs, some err) => ((args.zip hs).foldl undoInbound e', .error err)

def undoOutbound (e : Endpoint) (arg : Object × TIMessageObj) : Endpoint :=
  match arg.1 with
  | .forwarder f => e.release f
  | .null => e
  | .own _ => e.releaseHandle (handleToIndex arg.2)

def outboundMarshalIn (e : Endpoint) (buffers : Option ObjectError) (args : List Object) :
    Endpoint × Except ObjectError (List TIMessageObj) :=
  match buffers with
  | some err => (e, .error err)
  | none =>
    match copyObjects (copyObjectToRemote true) args e with
    | (e', hs, none) => (e', .ok hs)
    | (e', hs, some err) => ((args.zip hs).foldl undoOutbound e', .error err)

def outboundMarshalOut (e : Endpoint) (buffers : Option ObjectError)
    (args : List (TIMessageObj × Bool)) : Endpoint × Except ObjectError (List Object) :=
  match buffers with
  | some err => (e, .error err)
  | none =>
    match copyObjects copyObjectFromRemote args e with
    | (e', os, none) => (e', .ok os)
    | (e', os, some err) => (e'.releaseObjects os, .error err)

def newOutbound (e : Endpoint) (mem : Bool) (h : Nat) (op : ObjectOp) (args : List Object)
    (buffers : Option ObjectError) : Endpoint × Except ObjectError TIMessage :=
  if mem then
    match e.outboundMarshalIn buffers args with
    | (e', .ok hs) => (e', .ok ⟨indexToHandle h, op, hs⟩)
    | (e', .error err) => (e', .error err)
  else (e, .error .mem)

def processResponse (e : Endpoint) (reply : Option (List (TIMessageObj × Bool)))
    (buffers : Option ObjectError) : Endpoint :=
  match reply with
  | none => e
  | some args => (e.outboundMarshalOut buffers args).1

def releaseLocalOI (e : Endpoint) (msg : TIMessage) : Endpoint :=
  msg.args.foldl
    (fun e h => if isRemoteInDestDomain h then e.releaseHandle (handleToIndex h) else e) e

def releaseRemoteOI (e : Endpoint) (args : List Object) : Endpoint := e.releaseObjects args

/-- `TIMessage_handleInbound` up to the invocation of the target, whose input objects it gives,
or `none` where the message is a release. `ready` is the error of the checks and allocations at
its start, if any. -/
def handleInbound (e : Endpoint) (ready : Option ObjectError) (msg : TIMessage)
    (buffers : Option ObjectError) (args : List (TIMessageObj × Bool)) :
    Endpoint × Except ObjectError (Option (List Object)) :=
  match ready with
  | some err => (e, .error err)
  | none =>
    match msg.op with
    | .release => (e.releaseHandle (handleToIndex msg.cxt), .ok none)
    | .otherLocal => (e, .error .badObj)
    | .method _ =>
      match e.objTable.recoverObject (handleToIndex msg.cxt) with
      | none => (e, .error .badObj)
      | some _ =>
        match e.inboundMarshalIn buffers args with
        | (e', os, none) => (e', .ok (some os))
        | (e', os, some err) => (e'.releaseObjects os, .error err)

/-- The rest of `TIMessage_handleInbound`: the target has returned an error, or output
objects. -/
def handleInboundReturn (e : Endpoint) (args : List Object) (result : Option (List Object))
    (buffers : Option ObjectError) : Endpoint × Except ObjectError (Option (List TIMessageObj)) :=
  match result with
  | none => (e.releaseObjects args, .ok none)
  | some oo =>
    let (e', reply) := e.inboundMarshalOut buffers oo
    ((e'.releaseObjects oo).releaseObjects args, reply.map some)

end Endpoint

end MinkIpc.TunnelInvoke
