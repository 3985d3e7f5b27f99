import MinkIpc.MarshalIn

/-! Marshalling of requests at the caller and of success responses at the callee. When the buffers
outgrow the preallocated message, a larger one is allocated once and the copy goes on there. -/

namespace MinkIpc

open Bytes

structure OutState where
  buf : Mem
  sizeOnWire : Nat
  sizeLimit : Nat
  pos : Nat
  fds : List Int
  table : Table

def OutState.word (base : Nat) (st : OutState) (flags handle : Nat) : OutState :=
  { st with buf := putArgObj st.buf base st.pos flags handle, pos := st.pos + 1 }

def OutState.skip (st : OutState) (n : Nat) : OutState := { st with pos := st.pos + n }

def OutState.chunks (base flag : Nat) : Nat → Nat → OutState → OutState
  | 0, _, st => st
  | n + 1, v, st => OutState.chunks base flag n (v / 65536) (st.word base flag (v % 65536))

section Scenarios

variable (hd : Handles) (sock : MinkSocket) (env : Env) (base numFds objFlag : Nat) (obj : Object)
  (st : OutState)

def marshalOutNullObject : Attempt OutState :=
  match obj with
  | .null => some (.ok (st.word base nullObjectFlag nullObjectHandle))
  | _ => none

def marshalOutMsforwarder : Attempt OutState :=
  (MSForwarderFromObject obj).bind fun f =>
    if f.conn = sock.id then some (.ok (st.word base objFlag f.handle)) else none

def marshalOutForwardMemDep (dependency : Option MSForwarder) (objFlags : Nat) : Option OutState :=
  dependency.bind fun f =>
    if f.conn = sock.id then
      let st := st.word base objFlags f.handle
      let st := if hasFlag objFlags memparcelObject then
        st.skip (numExtraArgsPerMemparcel + numExtraArgsSpecialRules) else st
      if verIndirectMem ≤ sock.version && hasFlag objFlags descriptorObject then
        some (st.skip numExtraArgsSpecialRules)
      else some st
    else none

def Confinement.specialRules : Confinement → Nat
  | .rules r => r
  | _ => 0

def marshalOutLocalGenericMem (w : FdWrapper) : OutState :=
  let st := st.word base descriptorObject invalidObjectHandle
  let st := { st with fds := st.fds ++ [w.descriptor] }
  if verIndirectMem ≤ sock.version then
    st.chunks base memparcelSpecialRules numExtraArgsSpecialRules w.confinement.specialRules
  else st

def marshalOutRetainLocalGenericMemDep (w : FdWrapper) : Outcome ObjectError OutState :=
  match w.dependency with
  | none => .ok st
  | some f =>
    if f.conn = sock.id then
      match st.table.addObject hd (.forwarder f) with
      | none => .error .kmem st
      | some (handle, table) =>
        let first := if verIndirectMem ≤ sock.version then st.pos - 1 - numExtraArgsSpecialRules
          else st.pos - 1
        .ok { st with buf := putWord st.buf (base + 4 * first + 2) 2 handle, table := table }
    else .ok st

def marshalOutCallerLocalGenericMem : Attempt OutState :=
  (FdWrapperFromObject obj).bind fun w =>
    if sock.isRemote then none
    else if st.fds.length ≥ numFds then some (.error .maxArgs st)
    else
      let objFlags := if verIndirectMem ≤ sock.version then calleeObject ||| descriptorObject
        else calleeObject
      match marshalOutForwardMemDep sock base st w.dependency objFlags with
      | some st' => some (.ok st')
      | none => some (.ok (marshalOutLocalGenericMem sock base st w))

def marshalOutCalleeLocalGenericMem : Attempt OutState :=
  (FdWrapperFromObject obj).bind fun w =>
    if sock.isRemote then none
    else if st.fds.length ≥ numFds then some (.error .maxArgs st)
    else some (marshalOutRetainLocalGenericMemDep hd sock base
      (marshalOutLocalGenericMem sock base st w) w)

def marshalOutLocalMSMem : Attempt OutState :=
  (MSMemFromObject obj).bind fun m =>
    if sock.isRemote then none
    else if st.fds.length ≥ numFds then some (.error .maxArgs st)
    else match st.table.addObject hd obj with
      | none => some (.error .kmem st)
      | some (handle, table) =>
        let st := { st with table := table, fds := st.fds ++ [m.dmaBufFd] }
        let st := st.word base descriptorObject handle
        if verIndirectMem ≤ sock.version then
          some (.ok (st.chunks base memparcelSpecialRules numExtraArgsSpecialRules m.specialRules))
        else some (.ok st)

def marshalOutPopulateWrappedMemparcel (specialRules : Nat) (attached : MemObj) :
    Outcome ObjectError OutState :=
  let wmp := match retrieveMemObj st.table obj with
    | some wmp => some wmp
    | none => (env.wrappedMemparcelNew st.pos).map (Object.wrappedMemparcel attached)
  match wmp with
  | some (.wrappedMemparcel a mp) =>
    match st.table.addObject hd (.wrappedMemparcel a mp) with
    | none => .error .kmem st
    | some (handle, table) =>
      let st := { st with table := table }
      let st := st.word base (objFlag ||| memparcelObject) handle
      let st := st.chunks base memparcelInfo numExtraArgsPerMemparcel mp
      .ok (st.chunks base memparcelSpecialRules numExtraArgsSpecialRules specialRules)
  | _ => .error .unavail st

def marshalOutRemoteGenericMem : Attempt OutState :=
  (FdWrapperFromObject obj).bind fun w =>
    if !sock.isRemote then none
    else
      let forwarded := if objFlag = calleeObject then
        marshalOutForwardMemDep sock base st w.dependency (callerObject ||| memparcelObject)
        else none
      match forwarded, w.confinement with
      | some st', _ => some (.ok st')
      | none, .foreign => some (.error .unavail st)
      | none, .rules r =>
        some ((marshalOutPopulateWrappedMemparcel hd env base objFlag obj st r
          (.fdWrapper w)).mapError fun _ => .unavail)
      | none, .none =>
        -- the source attaches a confinement with the default rules first
        if env.attachConfinement st.pos then
          some ((marshalOutPopulateWrappedMemparcel hd env base objFlag obj st 0
            (.fdWrapper { w with confinement := .rules 0 })).mapError fun _ => .unavail)
        else some (.error .unavail st)

def mixedControlled : Nat := 4
def smmuProxyControlled : Nat := 2

def marshalOutCheckMSMemConfinement (m : MSMem) : Nat :=
  let rules := if m.isLocal then 0 else m.specialRules
  if hasFlag rules mixedControlled || hasFlag rules smmuProxyControlled then
    rules ^^^ (mixedControlled ||| smmuProxyControlled)
  else rules

def marshalOutRemoteMSMem (flagDep : Nat) : Attempt OutState :=
  (MSMemFromObject obj).bind fun m =>
    if !sock.isRemote then none
    else match marshalOutForwardMemDep sock base st m.dependency (flagDep ||| memparcelObject) with
      | some st' => some (.ok st')
      | none =>
        some ((marshalOutPopulateWrappedMemparcel hd env base objFlag obj st
          (marshalOutCheckMSMemConfinement m)
          (.msMem (if m.isLocal then { m with specialRules := 0 } else m))).mapError
            fun _ => .unavail)

def marshalOutGenericObject : Attempt OutState :=
  match st.table.addObject hd obj with
  | none => some (.error .kmem st)
  | some (handle, table) => some (.ok ({ st with table := table }.word base objFlag handle))

def marshalOutCallerObject : Outcome ObjectError OutState :=
  if st.pos ≥ lxcomMaxArgs then .error .maxArgs st
  else if isPrimordialOrPrimordialFwd hd obj then .error .error st
  else
    (marshalOutNullObject base obj st <|> marshalOutMsforwarder sock base calleeObject obj st <|>
      marshalOutCallerLocalGenericMem sock base numFds obj st <|>
      marshalOutLocalMSMem hd sock base numFds obj st <|>
      marshalOutRemoteGenericMem hd sock env base callerObject obj st <|>
      marshalOutRemoteMSMem hd sock env base callerObject obj st calleeObject <|>
      marshalOutGenericObject hd base callerObject obj st).getD (.error .error st)

def marshalOutCalleeObject : Outcome ObjectError OutState :=
  if st.pos ≥ lxcomMaxArgs then .error .maxArgs st
  else if isPrimordialOrPrimordialFwd hd obj then .error .error st
  else
    (marshalOutNullObject base obj st <|> marshalOutMsforwarder sock base callerObject obj st <|>
      marshalOutCalleeLocalGenericMem hd sock base numFds obj st <|>
      marshalOutLocalMSMem hd sock base numFds obj st <|>
      marshalOutRemoteGenericMem hd sock env base calleeObject obj st <|>
      marshalOutRemoteMSMem hd sock env base calleeObject obj st callerObject <|>
      marshalOutGenericObject hd base calleeObject obj st).getD (.error .error st)

end Scenarios

def numExtraArgsOutbound (sock : MinkSocket) (obj : Object) : Nat :=
  if (isWrappedFd obj).isSome || (isMSMem obj).isSome then
    if sock.isRemote then numExtraArgsPerMemparcel + numExtraArgsSpecialRules
    else if verIndirectMem ≤ sock.version then numExtraArgsSpecialRules
    else 0
  else 0

def countNumExtraArgsOutbound (sock : MinkSocket) (objs : List Object) : Nat :=
  (objs.map (numExtraArgsOutbound sock)).sum

def padBuf : List UInt8 := [15, 0, 0, 0, 0, 0, 0, 0]

/-- `MarshalOut_caller_buffer` and `MarshalOut_callee_buffer`; `none` when the buffer
does not fit. -/
def marshalOutBuffer (bytes : List UInt8) (st : OutState) : Option OutState :=
  let pad := padded st.sizeOnWire - st.sizeOnWire
  if st.sizeOnWire + pad + bytes.length > st.sizeLimit then none
  else
    let buf := if pad ≠ 0 then write st.buf st.sizeOnWire (padBuf.take pad) else st.buf
    some { st with
      buf := write buf (st.sizeOnWire + pad) bytes
      sizeOnWire := st.sizeOnWire + (pad + bytes.length) }

def flatdataExtendAndCopy (env : Env) (sizeExtend : Nat) (st : OutState) :
    Outcome ObjectError OutState :=
  if sizeExtend = 0 then .error .invalid st
  else if sizeExtend > msgBufferMax then .error .invalid st
  else if !env.extend sizeExtend then .error .kmem st
  else .ok { st with
    buf := fun i => if i < st.sizeOnWire then st.buf i else 0
    sizeLimit := sizeExtend }

def sizeofData (bufs : List (List UInt8)) (sizeOnWire : Nat) : Nat :=
  padded sizeOnWire + (bufs.map fun b => padded b.length).sum

/-- The buffer loop. `note` is what the loop writes for buffer `j` before it copies
it. A buffer that does not fit is tried again after the message was extended, and then
always fits (`marshalOutBuffer_extended`). -/
def marshalOutBuffers (env : Env) (note : Nat → List UInt8 → Mem → Mem) :
    List (List UInt8) → Nat → OutState → Outcome ObjectError OutState
  | [], _, st => .ok st
  | b :: bs, j, st =>
    let st := { st with buf := note j b st.buf }
    match marshalOutBuffer b st with
    | some st' => marshalOutBuffers env note bs (j + 1) st'
    | none =>
      (flatdataExtendAndCopy env (sizeofData (b :: bs) st.sizeOnWire) st).bind fun st =>
        match marshalOutBuffer b { st with buf := note j b st.buf } with
        | some st' => marshalOutBuffers env note bs (j + 1) st'
        | none => .error .invalid st

def putArgSizes (base : Nat) : List Nat → Nat → Mem → Mem
  | [], _, m => m
  | s :: ss, i, m => putArgSizes base ss (i + 1) (putArgSize m base i s)

structure BufferOut where
  null : Bool
  size : Nat
  deriving DecidableEq, Repr

structure Request where
  handle : Int32
  op : Int32
  k : Nat
  bi : List (List UInt8)
  bo : List BufferOut
  oi : List Object
  k_lt : k < 2 ^ 32
  bi_length : bi.length = numBI k
  bo_length : bo.length = numBO k
  oi_length : oi.length = numOI k

def maxFds : Nat := 15

def Request.putHeader (req : Request) (size : Nat) (m : Mem) : Mem :=
  let m := putArgSizes reqArgs (req.bi.map List.length ++ req.bo.map BufferOut.size) 0 m
  let m := putWord m 4 4 lxcomRequest
  let m := putInt32 m 12 req.handle
  let m := putInt32 m 16 req.op
  let m := putWord m 20 4 req.k
  putWord m 0 4 size

def OutState.new (size pos : Nat) (table : Table) : OutState where
  buf _ := 0
  sizeOnWire := size
  sizeLimit := msgBufferPrealloc
  pos := pos
  fds := []
  table := table

def marshalOutCallerObjects (hd : Handles) (sock : MinkSocket) (env : Env) (objs : List Object)
    (st : OutState) : Outcome ObjectError OutState :=
  Outcome.forEach (fun st obj => marshalOutCallerObject hd sock env reqArgs maxFds obj st) objs st

def marshalOutCaller (hd : Handles) (sock : MinkSocket) (env : Env) (table : Table)
    (req : Request) : Outcome ObjectError OutState :=
  let numExtra := countNumExtraArgsOutbound sock req.oi
  let st := OutState.new (sizeofInvReq req.k numExtra) (indexOI req.k) table
  if numIn req.k + numExtra > lxcomMaxArgs then .error .maxArgs st
  else (marshalOutBuffers env (fun _ _ m => m) req.bi 0 st).bind fun st =>
    if req.bo.any fun b => b.null && b.size != 0 then .error .invalid st
    else marshalOutCallerObjects hd sock env req.oi
      { st with buf := req.putHeader st.sizeOnWire st.buf }

structure Response where
  invId : Nat
  k : Nat
  bo : List (List UInt8)
  oo : List Object
  bo_length : bo.length = numBO k
  oo_length : oo.length = numOO k

def Response.putHeader (resp : Response) (size : Nat) (m : Mem) : Mem :=
  let m := putWord m 4 4 lxcomSuccess
  let m := putWord m 8 4 resp.invId
  putWord m 0 4 size

def marshalOutCalleeObjects (hd : Handles) (sock : MinkSocket) (env : Env) (objs : List Object)
    (st : OutState) : Outcome ObjectError OutState :=
  Outcome.forEach (fun st obj => marshalOutCalleeObject hd sock env succArgs maxFds obj st) objs st

def marshalOutCallee (hd : Handles) (sock : MinkSocket) (env : Env) (table : Table)
    (resp : Response) : Outcome ObjectError OutState :=
  let numExtra := countNumExtraArgsOutbound sock resp.oo
  let st := OutState.new (sizeofInvSucc resp.k numExtra) (numBO resp.k) table
  if numOut resp.k + numExtra > lxcomMaxArgs then .error .maxArgs st
  else (marshalOutBuffers env (fun j b m => putArgSize m succArgs j b.length) resp.bo 0 st).bind
    fun st => marshalOutCalleeObjects hd sock env resp.oo
      { st with buf := resp.putHeader st.sizeOnWire st.buf }

end MinkIpc
