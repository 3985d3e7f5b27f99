import MinkIpc.TIMessage
import MinkIpc.Wire

/-! The bytes of a tunnel message: a header of 16 bytes, an array of eight-byte arguments and, on
eight-byte boundaries, the buffers. A read that leaves the message has the result `none`. -/

namespace MinkIpc.TunnelInvoke

open Bytes

structure HeapPtr where
  addr : Nat
  aligned : addr % 8 = 0

def uint32Max : Nat := 2 ^ 32 - 1

def sizeofTIMessage : Nat := 16
def sizeofTIMessageArg : Nat := 8

def maxData : ObjectError := .other (-95)

def indexOO (k : Nat) : Nat := indexOI k + numOI k

def argsAlign (w x : Nat) : Nat := (x + 7) % 2 ^ w / 8 * 8

def getHeaderLen (k : Nat) : Nat := argsAlign 64 (sizeofTIMessage + sizeofTIMessageArg * total k)

/-- `GET_MESSAGE_LEN`. The sizes of an `ObjectArg` have 64 bits, those of a `TIMessageArg` 32. -/
def getMessageLen (w k : Nat) (sizes : List Nat) : Nat :=
  argsAlign 64
    (sizes.foldl (fun argsSize size => (argsSize + argsAlign w size) % 2 ^ 64) (getHeaderLen k))

structure BBuf where
  ptr : Nat
  len : Nat

namespace BBuf

def alloc (me : BBuf) (size : Nat) : Option (Nat × BBuf) :=
  let pad := if me.ptr % 8 ≠ 0 then 8 - me.ptr % 8 else 0
  if pad > me.len ∨ size > me.len - pad then none
  else some (me.ptr + pad, ⟨me.ptr + pad + size, me.len - pad - size⟩)

def allocAll : BBuf → List Nat → Option (List Nat)
  | _, [] => some []
  | me, size :: sizes =>
    (me.alloc size).bind fun (dst, me) => (me.allocAll sizes).map (dst :: ·)

end BBuf

def newBbufForMessageBuffers (msg : HeapPtr) (msgLen k : Nat) : BBuf :=
  ⟨msg.addr + getHeaderLen k, (msgLen + 2 ^ 64 - getHeaderLen k) % 2 ^ 64⟩

section Layout

theorem total_le (k : Nat) : total k ≤ 60 := by
  have hbi : numBI k ≤ 15 := by unfold numBI; omega
  have hbo : numBO k ≤ 15 := by unfold numBO; omega
  have hoi : numOI k ≤ 15 := by unfold numOI; omega
  have hoo : numOO k ≤ 15 := by unfold numOO; omega
  unfold total
  omega

theorem getHeaderLen_eq (k : Nat) : getHeaderLen k = 16 + 8 * total k := by
  have h := total_le k
  unfold getHeaderLen argsAlign sizeofTIMessage sizeofTIMessageArg
  omega

theorem BBuf.alloc_eq (ptr len size : Nat) : (BBuf.mk ptr len).alloc size =
    if padded ptr + size ≤ ptr + len then
      some (padded ptr, ⟨padded ptr + size, ptr + len - (padded ptr + size)⟩)
    else none := by
  have hpad : padded ptr = ptr + if ptr % 8 ≠ 0 then 8 - ptr % 8 else 0 := by
    rw [padded_eq]
    split_ifs <;> omega
  unfold BBuf.alloc
  simp only [hpad]
  generalize (if ptr % 8 ≠ 0 then 8 - ptr % 8 else 0) = pad
  by_cases h : pad > len ∨ size > len - pad
  · rw [if_pos h, if_neg (by omega)]
  · rw [if_neg h, if_pos (by omega)]
    congr 3
    omega

theorem BBuf.allocAll_eq (ptr len : Nat) (sizes : List Nat) : (BBuf.mk ptr len).allocAll sizes =
    if layoutEnd ptr sizes ≤ ptr + len then some ((layoutRanges ptr sizes).map Prod.fst)
    else none := by
  induction sizes generalizing ptr len with
  | nil =>
    rw [layoutEnd, if_pos (Nat.le_add_right ..)]
    rfl
  | cons s ss ih =>
    have hend := le_layoutEnd (padded ptr + s) ss
    rw [BBuf.allocAll, BBuf.alloc_eq, layoutEnd]
    by_cases hfit : padded ptr + s ≤ ptr + len
    · have hroom : padded ptr + s + (ptr + len - (padded ptr + s)) = ptr + len := by omega
      rw [if_pos hfit, Option.bind_some]
      simp only [ih, hroom]
      split_ifs <;> rfl
    · rw [if_neg hfit, if_neg (by omega), Option.bind_none]

theorem argsAlign_eq {w x : Nat} (h : x + 7 < 2 ^ w) : argsAlign w x = padded x := by
  rw [argsAlign, Nat.mod_eq_of_lt h, padded_eq]

variable {sizes : List Nat}

theorem foldl_sizes_eq {w : Nat} {start : Nat}
    (h : start + (sizes.map (argsAlign w)).sum < 2 ^ 64) :
    sizes.foldl (fun argsSize size => (argsSize + argsAlign w size) % 2 ^ 64) start =
      start + (sizes.map (argsAlign w)).sum := by
  induction sizes generalizing start with
  | nil => rfl
  | cons s ss ih =>
    simp only [List.map_cons, List.sum_cons] at h ⊢
    have hstart : (start + argsAlign w s) % 2 ^ 64 = start + argsAlign w s :=
      Nat.mod_eq_of_lt (by omega)
    rw [List.foldl_cons, ih (by omega)]
    omega

theorem argsAlign_lt (x : Nat) : argsAlign 32 x < 2 ^ 32 := by
  unfold argsAlign
  omega

theorem argsAlign_mod (w x : Nat) : argsAlign w x % 8 = 0 := Nat.mul_mod_left ..

theorem sum_argsAlign_mod (w : Nat) (sizes : List Nat) : (sizes.map (argsAlign w)).sum % 8 = 0 := by
  induction sizes with
  | nil => rfl
  | cons s ss ih =>
    have hs := argsAlign_mod w s
    rw [List.map_cons, List.sum_cons]
    omega

theorem getMessageLen_eq {w k : Nat}
    (h : getHeaderLen k + (sizes.map (argsAlign w)).sum + 7 < 2 ^ 64) :
    getMessageLen w k sizes = getHeaderLen k + (sizes.map (argsAlign w)).sum := by
  have hmod := sum_argsAlign_mod w sizes
  have hheader := getHeaderLen_eq k
  rw [getMessageLen, foldl_sizes_eq (by omega), argsAlign]
  omega

theorem sum_argsAlign_lt (sizes : List Nat) :
    (sizes.map (argsAlign 32)).sum ≤ sizes.length * 2 ^ 32 := by
  induction sizes with
  | nil => simp
  | cons s ss ih =>
    have hs := argsAlign_lt s
    simp only [List.map_cons, List.sum_cons, List.length_cons]
    omega

theorem getMessageLen_inbound {k : Nat} (h : sizes.length = numBO k) :
    getMessageLen 32 k sizes = getHeaderLen k + (sizes.map (argsAlign 32)).sum := by
  have hsum := sum_argsAlign_lt sizes
  have hbo : numBO k ≤ 15 := by unfold numBO; omega
  have hheader := getHeaderLen_eq k
  have htotal := total_le k
  exact getMessageLen_eq (by omega)

theorem newBbufForMessageBuffers_eq {k msgLen : Nat} (msg : HeapPtr)
    (h : getHeaderLen k ≤ msgLen) (hlt : msgLen < 2 ^ 64) :
    newBbufForMessageBuffers msg msgLen k = ⟨msg.addr + getHeaderLen k, msgLen - getHeaderLen k⟩ := by
  unfold newBbufForMessageBuffers
  congr 1
  omega

theorem allocAll_newBbuf {k msgLen : Nat} (msg : HeapPtr) (h : getHeaderLen k ≤ msgLen)
    (hlt : msgLen < 2 ^ 64) (sizes : List Nat) :
    (newBbufForMessageBuffers msg msgLen k).allocAll sizes =
      if layoutEnd (getHeaderLen k) sizes ≤ msgLen then
        some ((layoutRanges (getHeaderLen k) sizes).map fun r => msg.addr + r.1)
      else none := by
  rw [newBbufForMessageBuffers_eq msg h hlt, BBuf.allocAll_eq, layoutEnd_add msg.aligned,
    layoutRanges_add msg.aligned, List.map_map]
  by_cases hfit : layoutEnd (getHeaderLen k) sizes ≤ msgLen
  · rw [if_pos hfit, if_pos (by omega)]
    rfl
  · rw [if_neg hfit, if_neg (by omega)]

end Layout

theorem mapM_eq_some_iff {α β : Type} {f : α → Option β} {as : List α} {bs : List β} :
    as.mapM f = some bs ↔ List.Forall₂ (fun a b => f a = some b) as bs := by
  induction as generalizing bs with
  | nil => simp
  | cons a as ih =>
    rw [List.mapM_cons, List.forall₂_cons_left_iff]
    simp only [Option.bind_eq_bind, Option.bind_eq_some_iff, Option.pure_def, Option.some.injEq, ih]
    constructor
    · rintro ⟨b, hb, bs', hbs, rfl⟩
      exact ⟨b, bs', hb, hbs, rfl⟩
    · rintro ⟨b, bs', hb, hbs, rfl⟩
      exact ⟨b, hb, bs', hbs, rfl⟩

structure Message where
  data : Mem
  len : Nat

namespace Message

def load (msg : Message) (a n : Nat) : Option (List UInt8) :=
  if a + n ≤ msg.len then some (read msg.data a n) else none

def load32 (msg : Message) (a : Nat) : Option Nat := (msg.load a 4).map ofLe

/-- The offset and the size of the buffer `args[i]`. The offset of an empty buffer is not read. -/
def loadBuf (msg : Message) (i : Nat) : Option (Nat × Nat) :=
  (msg.load32 (sizeofTIMessage + sizeofTIMessageArg * i + 4)).bind fun size =>
    if size = 0 then some (0, 0)
    else (msg.load32 (sizeofTIMessage + sizeofTIMessageArg * i)).map (·, size)

def loadObj (msg : Message) (i : Nat) : Option TIMessageObj :=
  (msg.load32 (sizeofTIMessage + sizeofTIMessageArg * i)).map UInt32.ofNat

end Message

/-- The fields of `args[i]`, for an array that starts at `args`: at 16 in a message, at 0 in the
handler's copy. -/
def bufOffset (m : Mem) (args i : Nat) : Nat := word m (args + sizeofTIMessageArg * i) 4
def bufSize (m : Mem) (args i : Nat) : Nat := word m (args + sizeofTIMessageArg * i + 4) 4
def objHandle (m : Mem) (args i : Nat) : TIMessageObj :=
  UInt32.ofNat (word m (args + sizeofTIMessageArg * i) 4)

def putBufOffset (m : Mem) (args i v : Nat) : Mem := putWord m (args + sizeofTIMessageArg * i) 4 v
def putBufSize (m : Mem) (args i v : Nat) : Mem := putWord m (args + sizeofTIMessageArg * i + 4) 4 v

def putObjs (m : Mem) (args i : Nat) : List TIMessageObj → Mem
  | [] => m
  | h :: hs => putObjs (putWord m (args + sizeofTIMessageArg * i) 4 h.toNat) args (i + 1) hs

inductive BufPtr
  | invalidPointer
  | message (offset : Nat)
  deriving DecidableEq, Repr

def getTIMessageBuffer (offset size k : Nat) (ptr : HeapPtr) (msgLen : Nat) : Option BufPtr :=
  if size = 0 then some .invalidPointer
  else if offset > msgLen ∨ offset < getHeaderLen k then none
  else if size > msgLen - offset then none
  else if (ptr.addr + offset) % 8 ≠ 0 then none
  else some (.message offset)

section Inbound

def sizesBO (msgArgs : Mem) (k : Nat) : List Nat :=
  (List.range' (indexBO k) (numBO k)).map (bufSize msgArgs 0)

def handlesOI (msgArgs : Mem) (k : Nat) : List TIMessageObj :=
  (List.range' (indexOI k) (numOI k)).map (objHandle msgArgs 0)

/-- The loops of `inbound_marshalIn` over the buffers: the input buffers, and the places in the
output message that are reserved for the output buffers. -/
def inboundMarshalInBuffers (k : Nat) (msgArgs : Mem) (inputMsg : HeapPtr) (inputMsgLen : Nat)
    (outputMsg : HeapPtr) (outputMsgLen : Nat) :
    Except ObjectError (List (BufPtr × Nat) × List (Nat × Nat)) :=
  if outputMsgLen > uint32Max then .error maxData
  else
    let bi := (List.range (numBI k)).mapM fun i =>
      (getTIMessageBuffer (bufOffset msgArgs 0 i) (bufSize msgArgs 0 i) k inputMsg inputMsgLen).map
        (·, bufSize msgArgs 0 i)
    match bi with
    | none => .error .unavail
    | some bi =>
      match (newBbufForMessageBuffers outputMsg outputMsgLen k).allocAll (sizesBO msgArgs k) with
      | none => .error maxData
      | some dsts => .ok (bi, (dsts.map (· - outputMsg.addr)).zip (sizesBO msgArgs k))

def errorOf {α : Type} : Except ObjectError α → Option ObjectError
  | .error err => some err
  | .ok _ => none

/-- The allocations of `TIMessage_handleInbound`: its two arrays, the output message, and the
forwarder of each input object. -/
structure InboundMem where
  arrays : Bool
  outputMsg : Option HeapPtr
  forwarders : Nat → Bool

structure Pending where
  target : Nat
  op : Nat
  k : Nat
  bi : List (BufPtr × Nat)
  bo : List (Nat × Nat)
  oi : List Object
  msgArgs : Mem
  outputMsgLen : Nat

def ObjectOp.ofWord (op : Nat) : ObjectOp :=
  if op / 2 ^ 15 % 2 = 1 then if op = 0xFFFF then .release else .otherLocal else .method op

def putOffsets (msgArgs : Mem) (i : Nat) : List (Nat × Nat) → Mem
  | [] => msgArgs
  | (offset, _) :: bo => putOffsets (putBufOffset msgArgs 0 i offset) (i + 1) bo

def handleInbound (e : Endpoint) (mem : InboundMem) (inputMsg : HeapPtr) (msg : Message) :
    Option (Endpoint × Except ObjectError (Option Pending)) :=
  (msg.load32 8).bind fun op =>
  (msg.load32 12).bind fun k =>
  (msg.load32 4).bind fun cxt =>
  if msg.len < getHeaderLen k then some (e, .error .unavail)
  else if total k ≠ 0 ∧ !mem.arrays then some (e, .error .mem)
  else
    (msg.load sizeofTIMessage (min (sizeofTIMessageArg * total k) (msg.len - sizeofTIMessage))).bind
      fun copied =>
    let msgArgs : Mem := fun a => copied.getD a 0
    let outputMsgLen := getMessageLen 32 k (sizesBO msgArgs k)
    match mem.outputMsg with
    | none => some (e, .error .mem)
    | some outputMsg =>
      let buffers := inboundMarshalInBuffers k msgArgs inputMsg msg.len outputMsg outputMsgLen
      let handles := handlesOI msgArgs k
      let cxt := UInt32.ofNat cxt
      let (e', objects) := e.handleInbound none ⟨cxt, .ofWord op, handles⟩ (errorOf buffers)
        (handles.zipIdx.map fun (h, i) => (h, mem.forwarders i))
      some (e', objects.map fun oi => do
        let target ← e.objTable.recoverObject (handleToIndex cxt)
        let (bi, bo) ← buffers.toOption
        return ⟨target, op, k, bi, bo, ← oi, putOffsets msgArgs (indexBO k) bo, outputMsgLen⟩)

inductive TargetResult
  | failed (result : Nat)
  | ok (bo : List (List UInt8 × Nat)) (oo : List Object)

def inboundMarshalOutBuffers (msgArgs : Mem) (i : Nat) : List (List UInt8 × Nat) →
    Except ObjectError Mem
  | [] => .ok msgArgs
  | (_, size) :: bo =>
    if size > uint32Max then .error maxData
    else inboundMarshalOutBuffers
      (if size < bufSize msgArgs 0 i then putBufSize msgArgs 0 i size else msgArgs) (i + 1) bo

def putContents (data : Mem) : List (Nat × Nat) → List (List UInt8 × Nat) → Mem
  | (offset, _) :: ranges, (content, _) :: bo => putContents (write data offset content) ranges bo
  | _, _ => data

def handleInboundReturn (e : Endpoint) (p : Pending) : TargetResult →
    Endpoint × Except ObjectError Message
  | .failed result =>
    ((e.handleInboundReturn p.oi none none).1,
      .ok ⟨putWord (fun _ => 0) 0 4 result, getHeaderLen p.k⟩)
  | .ok bo oo =>
    let msgArgs := inboundMarshalOutBuffers p.msgArgs (indexBO p.k) bo
    let (e', reply) := e.handleInboundReturn p.oi (some oo) (errorOf msgArgs)
    (e', do
      let handles ← reply
      let msgArgs := putObjs (← msgArgs) 0 (indexOO p.k) (handles.getD [])
      let data := putContents (fun _ => 0) p.bo bo
      return ⟨write data sizeofTIMessage (read msgArgs 0 (min
        (p.outputMsgLen - sizeofTIMessage) (sizeofTIMessageArg * total p.k))), p.outputMsgLen⟩)

end Inbound

section Outbound

inductive InputBuf
  | bytes (data : List UInt8)
  | null (size : Nat)

namespace InputBuf

def size : InputBuf → Nat
  | bytes data => data.length
  | null size => size

def data : InputBuf → List UInt8
  | bytes data => data
  | null _ => []

end InputBuf

structure Invocation where
  op : UInt32
  k : UInt32
  bi : List InputBuf
  bo : List Nat
  oi : List Object
  length_bi : bi.length = numBI k.toNat
  length_bo : bo.length = numBO k.toNat
  length_oi : oi.length = numOI k.toNat

def outboundMarshalInBI (msg : HeapPtr) : List InputBuf → Nat → BBuf → Mem → Except ObjectError Mem
  | [], _, _, m => .ok m
  | buf :: bi, i, bbuf, m =>
    if buf.size > uint32Max then .error maxData
    else
      match bbuf.alloc buf.size, buf with
      | none, _ => .error maxData
      | some _, .null (_ + 1) => .error .error
      | some (dst, bbuf), buf =>
        let m := write m (dst - msg.addr) buf.data
        let m := putBufSize m sizeofTIMessage i buf.size
        outboundMarshalInBI msg bi (i + 1) bbuf (putBufOffset m sizeofTIMessage i (dst - msg.addr))

def outboundMarshalInBO : List Nat → Nat → Mem → Except ObjectError Mem
  | [], _, m => .ok m
  | size :: bo, i, m =>
    if size > uint32Max then .error maxData
    else outboundMarshalInBO bo (i + 1)
      (putBufOffset (putBufSize m sizeofTIMessage i size) sizeofTIMessage i 0)

def putHeader (cxt : TIMessageObj) (op k : UInt32) : Mem :=
  putWord (putWord (putWord (putWord (fun _ => 0) 0 4 1) 4 4 cxt.toNat) 8 4 op.toNat) 12 4 k.toNat

def newOutbound (e : Endpoint) (inputMsg : Option HeapPtr) (h : Nat) (call : Invocation) :
    Endpoint × Except ObjectError Message :=
  match inputMsg with
  | none => (e, .error .mem)
  | some ptr =>
    let k := call.k.toNat
    let inputMsgLen := getMessageLen 64 k (call.bi.map InputBuf.size)
    let buffers := do
      let m ← outboundMarshalInBI ptr call.bi 0 (newBbufForMessageBuffers ptr inputMsgLen k)
        (putHeader (indexToHandle h) call.op call.k)
      outboundMarshalInBO call.bo (indexBO k) m
    let (e', msg) := e.newOutbound true h (.ofWord call.op.toNat) call.oi (errorOf buffers)
    (e', do return ⟨putObjs (← buffers) sizeofTIMessage (indexOI k) (← msg).args, inputMsgLen⟩)

/-- The loop of `outbound_marshalOut` over the output buffers from `args[i]` on, whose sizes the
caller supplies: what is copied up to the error that ends it, if any. -/
def outboundMarshalOutBuffers (k : Nat) (ptr : HeapPtr) (msg : Message) : Nat → List Nat →
    Option (List (List UInt8) × Option ObjectError)
  | _, [] => some ([], none)
  | i, supplied :: bo =>
    (msg.loadBuf i).bind fun (offset, size) =>
      match getTIMessageBuffer offset size k ptr msg.len with
      | none => some ([], some .unavail)
      | some data =>
        if size > supplied then some ([], some maxData)
        else
          let bytes := match data with
            | .invalidPointer => some []
            | .message offset => msg.load offset (min supplied size)
          bytes.bind fun bytes =>
            (outboundMarshalOutBuffers k ptr msg (i + 1) bo).map fun (copied, err) =>
              (bytes :: copied, err)

def outboundMarshalOutObjects (msg : Message) : Endpoint → Nat → List Bool →
    Option (Endpoint × List Object × Option ObjectError)
  | e, _, [] => some (e, [], none)
  | e, i, forwarder :: oo =>
    (msg.loadObj i).bind fun h =>
      match e.copyObjectFromRemote (h, forwarder) with
      | .error err => some (e, [], some err)
      | .ok (e', o) =>
        (outboundMarshalOutObjects msg e' (i + 1) oo).map fun (e'', os, err) => (e'', o :: os, err)

/-- `TIMessage_processResponse`: what is copied to the output buffers, and the output objects. -/
def processResponse (e : Endpoint) (ptr : HeapPtr) (msg : Message) (k : Nat) (bo : List Nat)
    (forwarders : List Bool) :
    Option (Endpoint × List (List UInt8) × Except ObjectError (List Object)) :=
  (msg.load32 0).bind fun result =>
    if result ≠ 0 then
      some (e, [], .error (.other (UInt32.ofNat result).toInt32.toInt))
    else
      (outboundMarshalOutBuffers k ptr msg (indexBO k) bo).bind fun (copied, err) =>
        match err with
        | some err => some (e, copied, .error err)
        | none =>
          (outboundMarshalOutObjects msg e (indexOO k) forwarders).map fun (e', os, err) =>
            match err with
            | none => (e', copied, .ok os)
            | some err => (e'.releaseObjects os, copied, .error err)

end Outbound

end MinkIpc.TunnelInvoke
