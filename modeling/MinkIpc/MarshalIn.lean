import MinkIpc.Objects
import MinkIpc.Outcome
import MinkIpc.Wire

/-! Unmarshalling of requests at the callee and of success responses at the caller. Each scenario of
the source is an attempt that does not apply when the flags of the word are not its own. -/

namespace MinkIpc

open Bytes

abbrev Attempt (σ : Type) := Option (Outcome ObjectError σ)

/-- `pos` is the next word of the argument vector, `objs` the slots filled so
far. A descriptor that an object has taken over is -1 in `fds`. -/
structure InState where
  pos : Nat
  fdIdx : Nat
  fds : List Int
  objs : List Object
  deriving DecidableEq, Repr

def InState.take (st : InState) (obj : Object) (last : Nat) : InState :=
  { st with pos := last + 1, objs := st.objs ++ [obj] }

def InState.leave (st : InState) (obj : Object) : InState := { st with objs := st.objs ++ [obj] }

def hasFlag (flags flag : Nat) : Bool := flags &&& flag != 0

def readChunks (a : Nat → Arg) (flag : Nat) : Nat → Nat → Option Nat
  | 0, _ => some 0
  | n + 1, pos =>
    if hasFlag (a pos).flags flag then
      (readChunks a flag n (pos + 1)).map fun v => (a pos).handle + 65536 * v
    else none

def marshalInNullObject (a : Nat → Arg) (st : InState) : Attempt InState :=
  if (a st.pos).flags = nullObjectFlag then some (.ok (st.take .null st.pos)) else none

def marshalInSpecialMsforwarder (pos : Nat) : Object → Option (Object × Nat)
  | .wrappedMemparcel attached _ =>
    some (.mem attached, pos + numExtraArgsPerMemparcel + numExtraArgsSpecialRules)
  | _ => none

def marshalInMsforwarder (sock : MinkSocket) (table : Table) (a : Nat → Arg) (objFlag : Nat)
    (st : InState) : Attempt InState :=
  let arg := a st.pos
  if !hasFlag arg.flags objFlag then none
  else some <|
    match table.recoverObject arg.handle with
    | none => .error .unavail (st.leave .null)
    | some obj =>
      match if hasFlag arg.flags memparcelObject then marshalInSpecialMsforwarder st.pos obj
          else some (obj, st.pos) with
      | none => .error .unavail (st.leave obj)
      | some (obj, pos) =>
        if verIndirectMem ≤ sock.version && hasFlag arg.flags descriptorObject then
          .ok (st.take obj (pos + numExtraArgsSpecialRules))
        else .ok (st.take obj pos)

def marshalInLocalGenericMem (sock : MinkSocket) (env : Env) (a : Nat → Arg) (st : InState) :
    Attempt InState :=
  let arg := a st.pos
  if !hasFlag arg.flags descriptorObject then none
  else some <|
    match st.fds[st.fdIdx]? with
    | none => .error .maxArgs (st.leave .null)
    | some fd =>
      let dependent := arg.handle != invalidObjectHandle && arg.handle != nullObjectHandle
      let dependency := if dependent then some ⟨sock.id, arg.handle⟩ else none
      let wrapper (d : Option MSForwarder) (c : Confinement) := Object.mem (.fdWrapper ⟨fd, d, c⟩)
      let taken := { st with fdIdx := st.fdIdx + 1, fds := st.fds.set st.fdIdx (-1) }
      if !env.fdWrapperNew st.pos then .error .unavail (st.leave .null)
      else if dependent && !env.msForwarderNew st.pos then
        .error .unavail (st.leave (wrapper none .none))
      else if verIndirectMem ≤ sock.version then
        match readChunks a memparcelSpecialRules numExtraArgsSpecialRules (st.pos + 1) with
        | none => .error .unavail (st.leave (wrapper dependency .none))
        | some rules =>
          if !env.attachConfinement st.pos then
            .error .unavail (st.leave (wrapper dependency .none))
          else
            .ok (taken.take (wrapper dependency (.rules rules)) (st.pos + numExtraArgsSpecialRules))
      else .ok (taken.take (wrapper dependency .none) st.pos)

def marshalInRemoteGenericMem (sock : MinkSocket) (env : Env) (a : Nat → Arg) (objFlag : Nat)
    (st : InState) : Attempt InState :=
  let arg := a st.pos
  if !hasFlag arg.flags objFlag || !hasFlag arg.flags memparcelObject then none
  else some <|
    match readChunks a memparcelInfo numExtraArgsPerMemparcel (st.pos + 1),
        readChunks a memparcelSpecialRules numExtraArgsSpecialRules
          (st.pos + 1 + numExtraArgsPerMemparcel) with
    | some memparcelHandle, some rules =>
      match env.getMSMem st.pos memparcelHandle with
      | none => .error .unavail (st.leave .null)
      | some dmaFd =>
        if !env.msForwarderNew st.pos then .error .unavail (st.leave .null)
        else
          .ok (st.take (.mem (.msMem ⟨dmaFd, memparcelHandle, some ⟨sock.id, arg.handle⟩, false,
            rules⟩)) (st.pos + numExtraArgsPerMemparcel + numExtraArgsSpecialRules))
    | _, _ => .error .unavail (st.leave .null)

def marshalInGenericObject (sock : MinkSocket) (env : Env) (a : Nat → Arg) (objFlag : Nat)
    (st : InState) : Attempt InState :=
  let arg := a st.pos
  if !hasFlag arg.flags objFlag || hasFlag arg.flags memparcelObject then none
  else if env.msForwarderNew st.pos then
    some (.ok (st.take (.forwarder ⟨sock.id, arg.handle⟩) st.pos))
  else some (.error .unavail (st.leave .null))

def countNumExtraArgsInbound (sock : MinkSocket) (a : Nat → Arg) : Nat → Nat → Nat
  | 0, _ => 0
  | n + 1, ii =>
    if hasFlag (a ii).flags memparcelObject then
      numExtraArgsPerMemparcel + numExtraArgsSpecialRules + countNumExtraArgsInbound sock a n
        (ii + numExtraArgsPerMemparcel + numExtraArgsSpecialRules + 1)
    else if hasFlag (a ii).flags descriptorObject && verIndirectMem ≤ sock.version then
      numExtraArgsSpecialRules +
        countNumExtraArgsInbound sock a n (ii + numExtraArgsSpecialRules + 1)
    else countNumExtraArgsInbound sock a n (ii + 1)

def marshalInCalleeObject (sock : MinkSocket) (table : Table) (env : Env) (a : Nat → Arg)
    (st : InState) : Outcome ObjectError InState :=
  if st.pos ≥ lxcomMaxArgs then .error .maxArgs st
  else
    (marshalInNullObject a st <|> marshalInMsforwarder sock table a calleeObject st <|>
      marshalInLocalGenericMem sock env a st <|>
      marshalInLocalGenericMem sock env a st <|>
      marshalInRemoteGenericMem sock env a callerObject st <|>
      marshalInRemoteGenericMem sock env a callerObject st <|>
      marshalInGenericObject sock env a callerObject st).getD (.error .error st)

def InState.cleanup (st : InState) : InState := { st with objs := [] }

def marshalInCallerObject (sock : MinkSocket) (table : Table) (env : Env) (a : Nat → Arg)
    (st : InState) : Outcome ObjectError InState :=
  if st.pos ≥ lxcomMaxArgs then .error .maxArgs st
  else
    match marshalInNullObject a st <|> marshalInMsforwarder sock table a callerObject st <|>
      marshalInLocalGenericMem sock env a st <|>
      marshalInLocalGenericMem sock env a st <|>
      marshalInRemoteGenericMem sock env a calleeObject st <|>
      marshalInRemoteGenericMem sock env a callerObject st <|>
      marshalInGenericObject sock env a calleeObject st with
    | none => .error .error st
    | some (.ok st') => .ok st'
    | some (.error e st') => .error e st'.cleanup

def subSize (x y : Nat) : Nat := (x + 2 ^ 64 - y % 2 ^ 64) % 2 ^ 64

/-- The second loop of `MarshalIn_reserveBuffer`. `pad` is not reset between
buffers, so a buffer that starts aligned is moved by the pad of an earlier one. -/
def reserveLoop : List Nat → Nat → Nat → Nat → Except ObjectError (List (Nat × Nat))
  | [], _, _, _ => .ok []
  | size :: sizes, ptr, sizeRemain, pad =>
    let remain := ptr % lxcomMsgAlignment
    let pad := if remain ≠ 0 then lxcomMsgAlignment - remain else pad
    if remain ≠ 0 && (pad > sizeRemain || pad + size > sizeRemain) then .error .invalid
    else
      (reserveLoop sizes (ptr + pad + size) (subSize sizeRemain (pad + size)) pad).map
        ((ptr + pad, size) :: ·)

/-- The address and size given to each output buffer. `bufResv` is the address of the
`sizeResv` bytes the caller offers. -/
def marshalInReserveBuffer (env : Env) (bufResv sizeResv : Nat) (sizes : List Nat) :
    Except ObjectError (List (Nat × Nat)) :=
  let sizeActual := (sizes.map fun s => if s ≠ 0 then padded s else lxcomMsgAlignment).sum
  if sizeActual > sizeResv then
    if sizeActual > msgBufferMax - 4 then .error .invalid
    else match env.reserve (sizeActual + 4) with
      | none => .error .kmem
      | some ptr => reserveLoop sizes ptr (sizeActual + 4) 0
  else reserveLoop sizes bufResv (sizeActual + 4) 0

def marshalInCalleeBuffer (sizeArg sizeOnWire sizeMax : Nat) : Option ((Nat × Nat) × Nat) :=
  let pad := padded sizeOnWire - sizeOnWire
  if sizeOnWire + pad > sizeMax then none
  else some ((sizeOnWire + pad, sizeArg), pad + sizeArg)

def marshalInCalleeBuffers (sizeMax : Nat) : List Nat → Nat → Option (List (Nat × Nat))
  | [], _ => some []
  | size :: sizes, sizeOnWire =>
    (marshalInCalleeBuffer size sizeOnWire sizeMax).bind fun (range, sizeAdded) =>
      (marshalInCalleeBuffers sizeMax sizes (sizeOnWire + sizeAdded)).map (range :: ·)

/-- What the invoked object gets: input buffers as ranges of the message, output buffers as ranges
of memory, input objects. -/
structure CalleeArgs where
  bi : List (Nat × Nat)
  bo : List (Nat × Nat)
  oi : InState
  deriving DecidableEq, Repr

def reqExtra (sock : MinkSocket) (data : Mem) : Nat :=
  countNumExtraArgsInbound sock (argObj data reqArgs) (numOI (reqK data)) (indexOI (reqK data))

def sizeReq (sock : MinkSocket) (data : Mem) : Nat := sizeofInvReq (reqK data) (reqExtra sock data)

def reqSizesBI (data : Mem) : List Nat := (List.range (numBI (reqK data))).map (argSize data reqArgs)

def reqSizesBO (data : Mem) : List Nat :=
  (List.range (numBO (reqK data))).map fun i => argSize data reqArgs (indexBO (reqK data) + i)

def reserveBO (env : Env) (data : Mem) (bufResv sizeResv : Nat) :
    Except ObjectError (List (Nat × Nat)) :=
  if numBO (reqK data) ≠ 0 then marshalInReserveBuffer env bufResv sizeResv (reqSizesBO data)
  else .ok []

def marshalInCalleeObjects (sock : MinkSocket) (table : Table) (env : Env) (a : Nat → Arg) (n : Nat)
    (st : InState) : Outcome ObjectError InState :=
  Outcome.forEach (fun st (_ : Unit) => marshalInCalleeObject sock table env a st)
    (List.replicate n ()) st

def marshalInCallee (sock : MinkSocket) (table : Table) (env : Env) (data : Mem) (fds : List Int)
    (bufResv sizeResv : Nat) : Outcome ObjectError CalleeArgs :=
  let k := reqK data
  let oi : InState := ⟨indexOI k, 0, fds, []⟩
  if numIn k + reqExtra sock data > lxcomMaxArgs then .error .maxArgs ⟨[], [], oi⟩
  else if sizeReq sock data > hdrSize data then .error .maxArgs ⟨[], [], oi⟩
  else match marshalInCalleeBuffers (hdrSize data) (reqSizesBI data) (sizeReq sock data) with
    | none => .error .maxArgs ⟨[], [], oi⟩
    | some bi =>
      match reserveBO env data bufResv sizeResv with
      | .error e => .error e ⟨bi, [], oi⟩
      | .ok bo =>
        match marshalInCalleeObjects sock table env (argObj data reqArgs) (numOI k) oi with
        | .error e oi => .error e ⟨bi, bo, oi⟩
        | .ok oi => .ok ⟨bi, bo, oi⟩

/-- An output buffer of the caller: the size it supplied, the bytes written to it,
and the size field of its argument. -/
structure OutBuffer where
  supplied : Nat
  written : List UInt8
  size : Nat
  deriving DecidableEq, Repr

def OutBuffer.new (supplied : Nat) : OutBuffer := ⟨supplied, [], supplied⟩

def marshalInCallerBuffer (data : Mem) (arg : OutBuffer) (sizeArg sizeOnWire sizeMax : Nat) :
    Option (OutBuffer × Nat) :=
  let pad := padded sizeOnWire - sizeOnWire
  if sizeOnWire + pad + sizeArg > sizeMax then none
  else some ({ arg with written := read data (sizeOnWire + pad) sizeArg, size := sizeArg },
    pad + sizeArg)

def marshalInCallerBuffers (data : Mem) (sizeMax : Nat) :
    List OutBuffer → Nat → Nat → Outcome ObjectError (List OutBuffer)
  | [], _, _ => .ok []
  | arg :: args, j, sizeOnWire =>
    match marshalInCallerBuffer data arg (argSize data succArgs j) sizeOnWire sizeMax with
    | none => .error .maxArgs (arg :: args)
    | some (arg', sizeAdded) =>
      (marshalInCallerBuffers data sizeMax args (j + 1) (sizeOnWire + sizeAdded)).map (arg' :: ·)

structure CallerArgs where
  bo : List OutBuffer
  oo : InState
  deriving DecidableEq, Repr

def succExtra (sock : MinkSocket) (data : Mem) (k : Nat) : Nat :=
  countNumExtraArgsInbound sock (argObj data succArgs) (numOO k) (numBO k)

def sizeSucc (sock : MinkSocket) (data : Mem) (k : Nat) : Nat :=
  sizeofInvSucc k (succExtra sock data k)

def marshalInCallerObjects (sock : MinkSocket) (table : Table) (env : Env) (a : Nat → Arg) (n : Nat)
    (st : InState) : Outcome ObjectError InState :=
  Outcome.forEach (fun st (_ : Unit) => marshalInCallerObject sock table env a st)
    (List.replicate n ()) st

def marshalInCaller (sock : MinkSocket) (table : Table) (env : Env) (data : Mem) (fds : List Int)
    (k : Nat) (bo : List OutBuffer) : Outcome ObjectError CallerArgs :=
  let oo : InState := ⟨numBO k, 0, fds, []⟩
  if sizeSucc sock data k > hdrSize data then .error .maxArgs ⟨bo, oo⟩
  else if total k > lxcomMaxArgs then .error .maxArgs ⟨bo, oo⟩
  else match marshalInCallerBuffers data (hdrSize data) bo 0 (sizeSucc sock data k) with
    | .error e bo => .error e ⟨bo, oo⟩
    | .ok bo =>
      match marshalInCallerObjects sock table env (argObj data succArgs) (numOO k) oo with
      | .error e oo => .error e ⟨bo, oo⟩
      | .ok oo => .ok ⟨bo, oo⟩

variable {sizeMax : Nat} {sizes : List Nat}

theorem marshalInCalleeBuffers_eq {start : Nat} {ranges : List (Nat × Nat)}
    (h : marshalInCalleeBuffers sizeMax sizes start = some ranges) :
    ranges = layoutRanges start sizes := by
  induction sizes generalizing start ranges with
  | nil => simpa [marshalInCalleeBuffers, layoutRanges] using h.symm
  | cons s ss ih =>
    have hp := le_padded start
    obtain ⟨⟨range, added⟩, hb, h⟩ := Option.bind_eq_some_iff.mp h
    obtain ⟨rest, hrest, rfl⟩ := Option.map_eq_some_iff.mp h
    simp only [marshalInCalleeBuffer] at hb
    split_ifs at hb
    cases hb
    have hstart : start + (padded start - start + s) = padded start + s := by omega
    rw [ih hrest]
    congr
    omega

theorem marshalInCalleeBuffers_of_le {start : Nat} (h : layoutEnd start sizes ≤ sizeMax) :
    marshalInCalleeBuffers sizeMax sizes start = some (layoutRanges start sizes) := by
  induction sizes generalizing start with
  | nil => rfl
  | cons s ss ih =>
    have hp := le_padded start
    have hle := le_layoutEnd (padded start + s) ss
    simp only [layoutEnd] at h
    have hpad : start + (padded start - start) = padded start := by omega
    have hnext : start + (padded start - start + s) = padded start + s := by omega
    have hfit : ¬ padded start > sizeMax := by omega
    simp [marshalInCalleeBuffers, marshalInCalleeBuffer, hpad, hnext, hfit, ih h, layoutRanges]

theorem marshalInCallerBuffers_of_le {data : Mem} {bo : List OutBuffer} {j start : Nat}
    (hsizes : sizes = (List.range' j bo.length).map (argSize data succArgs))
    (h : layoutEnd start sizes ≤ sizeMax) :
    marshalInCallerBuffers data sizeMax bo j start = .ok (List.zipWith (fun b (r : Nat × Nat) =>
      { b with written := read data r.1 r.2, size := r.2 }) bo (layoutRanges start sizes)) := by
  induction bo generalizing j start sizes with
  | nil => rfl
  | cons b bs ih =>
    rw [List.length_cons, List.range'_succ, List.map_cons] at hsizes
    subst hsizes
    have hp := le_padded start
    simp only [layoutEnd] at h
    have hle := le_layoutEnd (padded start + argSize data succArgs j)
      ((List.range' (j + 1) bs.length).map (argSize data succArgs))
    have hpad : start + (padded start - start) = padded start := by omega
    have hnext : start + (padded start - start + argSize data succArgs j) =
        padded start + argSize data succArgs j := by omega
    have hfit : ¬ padded start + argSize data succArgs j > sizeMax := by omega
    simp [marshalInCallerBuffers, marshalInCallerBuffer, hpad, hnext, hfit, ih rfl h, layoutRanges,
      Outcome.map]

section Inversion

variable {sock : MinkSocket} {table : Table} {env : Env} {data : Mem} {fds : List Int}

theorem marshalInCallee_eq_ok {bufResv sizeResv : Nat} {args : CalleeArgs} :
    marshalInCallee sock table env data fds bufResv sizeResv = .ok args ↔
      numIn (reqK data) + reqExtra sock data ≤ lxcomMaxArgs ∧ sizeReq sock data ≤ hdrSize data ∧
      marshalInCalleeBuffers (hdrSize data) (reqSizesBI data) (sizeReq sock data) = some args.bi ∧
      reserveBO env data bufResv sizeResv = .ok args.bo ∧
      marshalInCalleeObjects sock table env (argObj data reqArgs) (numOI (reqK data))
        ⟨indexOI (reqK data), 0, fds, []⟩ = .ok args.oi := by
  unfold marshalInCallee
  by_cases h₁ : numIn (reqK data) + reqExtra sock data > lxcomMaxArgs
  · simp [h₁]
  by_cases h₂ : sizeReq sock data > hdrSize data
  · simp [h₂]
  rw [if_neg h₁, if_neg h₂]
  simp only [Nat.not_lt.mp h₁, Nat.not_lt.mp h₂]
  cases marshalInCalleeBuffers (hdrSize data) (reqSizesBI data) (sizeReq sock data) with
  | none => simp
  | some bi =>
    cases reserveBO env data bufResv sizeResv with
    | error e => simp
    | ok bo =>
      cases marshalInCalleeObjects sock table env (argObj data reqArgs) (numOI (reqK data))
          ⟨indexOI (reqK data), 0, fds, []⟩ with
      | error e oi => simp
      | ok oi =>
        cases args
        simp

theorem total_le (k : Nat) : total k ≤ lxcomMaxArgs := by
  unfold total numBI numBO numOI numOO lxcomMaxArgs
  omega

theorem marshalInCaller_eq_ok {k : Nat} {bo : List OutBuffer} {args : CallerArgs} :
    marshalInCaller sock table env data fds k bo = .ok args ↔ sizeSucc sock data k ≤ hdrSize data ∧
      marshalInCallerBuffers data (hdrSize data) bo 0 (sizeSucc sock data k) = .ok args.bo ∧
      marshalInCallerObjects sock table env (argObj data succArgs) (numOO k) ⟨numBO k, 0, fds, []⟩ =
        .ok args.oo := by
  unfold marshalInCaller
  by_cases h₁ : sizeSucc sock data k > hdrSize data
  · simp [h₁]
  rw [if_neg h₁, if_neg (Nat.not_lt.mpr (total_le k))]
  simp only [Nat.not_lt.mp h₁]
  cases marshalInCallerBuffers data (hdrSize data) bo 0 (sizeSucc sock data k) with
  | error e bo => simp
  | ok bo =>
    cases marshalInCallerObjects sock table env (argObj data succArgs) (numOO k)
        ⟨numBO k, 0, fds, []⟩ with
    | error e oo => simp
    | ok oo =>
      cases args
      simp

end Inversion

end MinkIpc
