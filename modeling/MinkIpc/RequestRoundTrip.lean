import MinkIpc.BufferLayout
import MinkIpc.ObjectEncode
import MinkIpc.ReservedBuffers

/-! A request that the caller marshals is unmarshalled by the callee to the same
invocation, provided the callee can reserve the output buffers. File descriptors
are passed as such only on a local connection. -/

namespace MinkIpc

open Bytes List

def Request.sizes (req : Request) : List Nat := req.bi.map length ++ req.bo.map BufferOut.size

theorem Request.sizes_length (req : Request) : req.sizes.length = indexOI req.k := by
  simp [Request.sizes, indexOI, req.bi_length, req.bo_length]

section Header

variable (req : Request) (size : Nat) (m : Mem)

theorem Request.putHeader_of_ge {a : Nat} (h : reqArgs + 4 * indexOI req.k ≤ a) :
    req.putHeader size m a = m a := by
  have hlen := req.sizes_length
  have hbase : reqArgs = 24 := rfl
  unfold Request.putHeader putInt32 putWord
  rw [write_of_ge (by simp; omega), write_of_ge (by simp; omega), write_of_ge (by simp; omega),
    write_of_ge (by simp; omega), write_of_ge (by simp; omega)]
  refine putArgSizes_of_outside (.inr ?_)
  rw [show (_ ++ _ : List Nat) = req.sizes from rfl]
  omega

theorem Request.hdrSize_putHeader : hdrSize (req.putHeader size m) = size % 2 ^ 32 :=
  word_putWord_self _ _ _ _

theorem Request.reqK_putHeader : reqK (req.putHeader size m) = req.k := by
  unfold Request.putHeader reqK
  rw [word_putWord_of_disjoint (by omega), word_putWord_self]
  exact Nat.mod_eq_of_lt req.k_lt

theorem int32_putWord_of_disjoint {m : Mem} {a b n v : Nat} (h : b + 4 ≤ a ∨ a + n ≤ b) :
    int32 (putWord m a n v) b = int32 m b := by
  unfold int32
  rw [word_putWord_of_disjoint h]

theorem Request.reqOp_putHeader : reqOp (req.putHeader size m) = req.op := by
  unfold Request.putHeader reqOp
  rw [int32_putWord_of_disjoint (by omega), int32_putWord_of_disjoint (by omega),
    int32_putInt32_self]

theorem Request.reqHandle_putHeader : reqHandle (req.putHeader size m) = req.handle := by
  unfold Request.putHeader reqHandle
  rw [int32_putWord_of_disjoint (by omega), int32_putWord_of_disjoint (by omega)]
  conv_lhs => rw [putInt32, int32_putWord_of_disjoint (by omega)]
  exact int32_putInt32_self _ _ _

theorem Request.argSize_putHeader {j : Nat} (hj : j < req.sizes.length) :
    argSize (req.putHeader size m) reqArgs j = req.sizes.getD j 0 % 2 ^ 32 := by
  have hsizes := argSize_putArgSizes reqArgs 0 m hj
  rw [Nat.zero_add] at hsizes
  rw [← hsizes]
  have hbase : reqArgs = 24 := rfl
  refine word_congr fun a ha _ => ?_
  unfold Request.putHeader putInt32 putWord
  rw [write_of_ge (by simp; omega), write_of_ge (by simp; omega), write_of_ge (by simp; omega),
    write_of_ge (by simp; omega), write_of_ge (by simp; omega)]
  rfl

end Header

theorem marshalOutCaller_eq_ok {hd : Handles} {sock : MinkSocket} {env : Env} {table : Table}
    {req : Request} {st : OutState} (h : marshalOutCaller hd sock env table req = .ok st) :
    numIn req.k + countNumExtraArgsOutbound sock req.oi ≤ lxcomMaxArgs ∧
    ∃ st₁, marshalOutBuffers env (fun _ _ m => m) req.bi 0
        (.new (sizeofInvReq req.k (countNumExtraArgsOutbound sock req.oi)) (indexOI req.k) table) =
          .ok st₁ ∧
      marshalOutCallerObjects hd sock env req.oi
        { st₁ with buf := req.putHeader st₁.sizeOnWire st₁.buf } = .ok st := by
  unfold marshalOutCaller at h
  dsimp only at h
  split_ifs at h with hmax
  · obtain ⟨st₁, -, h⟩ := Outcome.bind_eq_ok.mp h
    cases h
  · obtain ⟨st₁, hbuf, h⟩ := Outcome.bind_eq_ok.mp h
    exact ⟨by omega, st₁, hbuf, h⟩

structure RequestMessage (req : Request) (sock : MinkSocket) (table : Table) (st : OutState)
    (data : Mem) : Prop where
  max : numIn req.k + countNumExtraArgsOutbound sock req.oi ≤ lxcomMaxArgs
  k : reqK data = req.k
  handle : reqHandle data = req.handle
  op : reqOp data = req.op
  size : hdrSize data =
    layoutEnd (sizeofInvReq req.k (countNumExtraArgsOutbound sock req.oi)) (req.bi.map length)
  sizes : ∀ j < req.sizes.length, argSize data reqArgs j = req.sizes.getD j 0 % 2 ^ 32
  bytes : (layoutRanges (sizeofInvReq req.k (countNumExtraArgsOutbound sock req.oi))
    (req.bi.map length)).map (fun r => read data r.1 r.2) = req.bi
  small : ∀ b ∈ req.bi, b.length < 2 ^ 32
  objects : VectorWords .request sock.id sock.indirect
    (fun n o => table.objects n = none ∧ st.table.objects n = some o) (argObj data reqArgs)
    (indexOI req.k) req.oi st.fds (numIn req.k + countNumExtraArgsOutbound sock req.oi)

theorem marshalOutCaller_message {hd : Handles} {sock : MinkSocket} {env : Env} {table : Table}
    {req : Request} {st : OutState} {data : Mem} (hs : ∀ obj ∈ req.oi, Supported sock obj)
    (h : marshalOutCaller hd sock env table req = .ok st)
    (hdata : ∀ a, a < 8 ∨ 12 ≤ a → data a = st.buf a) : RequestMessage req sock table st data := by
  obtain ⟨hmax, st₁, hbuf, hobj⟩ := marshalOutCaller_eq_ok h
  have hin : numIn req.k = indexOI req.k + numOI req.k := rfl
  have hbase : reqArgs = 24 := rfl
  have hargs : lxcomMaxArgs = 60 := rfl
  have hbi := req.bi_length
  have hsum := req.sizes_length
  have hwire : sizeofInvReq req.k (countNumExtraArgsOutbound sock req.oi) =
      24 + (numIn req.k + countNumExtraArgsOutbound sock req.oi) * 4 := rfl
  have hnum : numBI req.k ≤ indexOI req.k := Nat.le_add_right _ _
  -- the buffers, then the header, then the objects
  have hcopied : Copied reqArgs 0 req.bi _ st₁ :=
    marshalOutBuffers_copied (fun _ _ _ _ _ => rfl) (by simp only [OutState.new]; omega) hbuf
  have hsmall : st₁.sizeOnWire ≤ msgBufferMax :=
    marshalOutBuffers_size_le reqArgs (fun _ _ _ _ _ => rfl)
      (by simp only [OutState.new]; decide) (by simp only [OutState.new, msgBufferMax]; omega) hbuf
  obtain ⟨fs, hwords, hwritten, hfds, hpos⟩ := forEach_encoded
    (fun st obj st' hs h => marshalOutCallerObject_encoded hs h) hs hobj
  have hsize := hcopied.size
  have hpos₁ : st₁.pos = indexOI req.k := hcopied.pos
  have htable₁ : st₁.table = table := hcopied.table
  have hfds₁ : st₁.fds = [] := hcopied.fds
  simp only [req.oi_length] at hpos
  simp only [hfds₁] at hfds
  subst hfds
  have hkeep : ∀ a, (a < 8 ∨ 12 ≤ a ∧ a < reqArgs + 4 * indexOI req.k) ∨
      sizeofInvReq req.k (countNumExtraArgsOutbound sock req.oi) ≤ a →
      data a = req.putHeader st₁.sizeOnWire st₁.buf a := by
    intro a ha
    rw [hdata a (by omega), hwritten.frame a (by simp only [hpos]; omega)]
  refine ⟨hmax, ?_, ?_, ?_, ?_, ?_, ?_, ?_, ?_⟩
  · rw [← req.reqK_putHeader st₁.sizeOnWire st₁.buf]
    exact word_congr fun a ha hlt => hkeep a (by omega)
  · rw [← req.reqHandle_putHeader st₁.sizeOnWire st₁.buf]
    exact congrArg (fun v => (UInt32.ofNat v).toInt32) (word_congr fun a ha hlt => hkeep a (by omega))
  · rw [← req.reqOp_putHeader st₁.sizeOnWire st₁.buf]
    exact congrArg (fun v => (UInt32.ofNat v).toInt32) (word_congr fun a ha hlt => hkeep a (by omega))
  · have hhdr : hdrSize data = st₁.sizeOnWire % 2 ^ 32 := by
      rw [← req.hdrSize_putHeader st₁.sizeOnWire st₁.buf]
      exact word_congr fun a ha hlt => hkeep a (by omega)
    rw [hhdr, hsize, Nat.mod_eq_of_lt]
    · rfl
    · have hmax : msgBufferMax < 2 ^ 32 := by decide
      omega
  · intro j hj
    rw [← req.argSize_putHeader st₁.sizeOnWire st₁.buf hj]
    exact word_congr fun a ha hlt => hkeep a (by omega)
  · refine Eq.trans (map_congr_left fun r hr => read_congr fun a ha hlt => ?_) hcopied.bytes
    have hb := (layoutRanges_bounds hr).1
    rw [hkeep a (by omega), req.putHeader_of_ge _ _ (by omega)]
  · intro b hb
    have hle := mem_le_layoutEnd (sizeofInvReq req.k (countNumExtraArgsOutbound sock req.oi))
      (mem_map_of_mem (f := length) hb)
    have hmax : msgBufferMax < 2 ^ 32 := by decide
    simp only [OutState.new] at hsize
    omega
  · have hvec : ∀ i, indexOI req.k ≤ i → argObj st.buf reqArgs i = argObj data reqArgs i := by
      intro i hi
      unfold argObj
      rw [word_congr fun a ha hlt => (hdata a (by omega)).symm,
        word_congr fun a ha hlt => (hdata a (by omega)).symm]
    rw [show numIn req.k + countNumExtraArgsOutbound sock req.oi = st.pos by omega]
    simp only [hpos₁] at hwords
    exact hwords.congr hvec fun n o hn => ⟨htable₁ ▸ hn.1, hn.2⟩

section RoundTrip

variable {req : Request} {sock : MinkSocket} {table : Table} {st : OutState} {data : Mem}

section

variable (h : RequestMessage req sock table st data)
include h

theorem RequestMessage.sizesBI : reqSizesBI data = req.bi.map length := by
  unfold reqSizesBI
  rw [h.k]
  refine list_eq_map_range (by simp [req.bi_length]) fun j hj => ?_
  have hlen := req.bi_length
  have hget : req.sizes.getD j 0 = (req.bi.map length).getD j 0 :=
    getD_append _ _ _ _ (by simp; omega)
  rw [h.sizes j (by simp [Request.sizes]; omega), hget]
  refine Nat.mod_eq_of_lt ?_
  rw [getD_eq_getElem _ _ (by simp; omega), getElem_map]
  exact h.small _ (getElem_mem _)

theorem RequestMessage.sizesBO
    (hbo : ∀ b ∈ req.bo, b.size < 2 ^ 32) : reqSizesBO data = req.bo.map BufferOut.size := by
  unfold reqSizesBO
  rw [h.k]
  refine list_eq_map_range (by simp [req.bo_length]) fun j hj => ?_
  have hlen := req.bi_length
  have hlen' := req.bo_length
  have hget : req.sizes.getD (indexBO req.k + j) 0 = (req.bo.map BufferOut.size).getD j 0 := by
    rw [Request.sizes, getD_append_right _ _ _ _ (by simp [indexBO]; omega)]
    simp [indexBO, hlen]
  rw [h.sizes _ (by simp [Request.sizes, indexBO]; omega), hget]
  refine Nat.mod_eq_of_lt ?_
  rw [getD_eq_getElem _ _ (by simp; omega), getElem_map]
  exact hbo _ (getElem_mem _)

theorem RequestMessage.sizeReq_eq {sock' : MinkSocket} (hver : sock'.version = sock.version) :
    reqExtra sock' data = countNumExtraArgsOutbound sock req.oi ∧
      sizeReq sock' data = sizeofInvReq req.k (countNumExtraArgsOutbound sock req.oi) := by
  have hwords := h.objects
  rw [MinkSocket.indirect, ← hver] at hwords
  have hcount := hwords.count (.inl rfl)
  have hin : numIn req.k = indexOI req.k + numOI req.k := rfl
  rw [req.oi_length] at hcount
  have hextra : reqExtra sock' data = countNumExtraArgsOutbound sock req.oi := by
    unfold reqExtra
    rw [h.k]
    omega
  exact ⟨hextra, by rw [sizeReq, h.k, hextra]⟩

end

theorem marshalInCalleeObject_of_attempts {sock : MinkSocket} {table : Table} {env : Env}
    {a : Nat → Arg} {st st' : InState} (hp : st.pos < lxcomMaxArgs)
    (h : attempts .request sock table env a callerObject st = some (.ok st')) :
    marshalInCalleeObject sock table env a st = .ok st' := by
  unfold marshalInCalleeObject
  rw [if_neg (by omega)]
  exact (congrArg (fun x => Option.getD x _) h).trans rfl

end RoundTrip

/-- Unmarshalling a marshalled request gives back the invocation. `invId` is the invocation id the
caller puts into the message before it sends it. -/
theorem marshalInCallee_marshalOutCaller {hd : Handles} {caller callee : MinkSocket} {env env' : Env}
    {table table' : Table} {req : Request} {st : OutState} {fds : List Int} {bufResv sizeResv : Nat}
    (hver : callee.version = caller.version)
    (hout : marshalOutCaller hd caller env table req = .ok st)
    (hs : ∀ obj ∈ req.oi, Supported caller obj)
    (hk : ∀ obj ∈ req.oi, Known .request caller.id table' obj)
    (hlen : table'.objectsLen ≤ 1024) (hh : env'.Healthy) (hfds : fds.length = st.fds.length)
    (hbo : ∀ b ∈ req.bo, b.size < 2 ^ 32)
    (hres : Reservable env' bufResv sizeResv (req.bo.map BufferOut.size)) (invId : Nat) :
    ∃ args, marshalInCallee callee table' env' (putWord st.buf 8 4 invId) fds bufResv sizeResv =
        .ok args ∧
      reqHandle (putWord st.buf 8 4 invId) = req.handle ∧
      reqOp (putWord st.buf 8 4 invId) = req.op ∧ reqK (putWord st.buf 8 4 invId) = req.k ∧
      args.bi.map (fun r => read (putWord st.buf 8 4 invId) r.1 r.2) = req.bi ∧
      args.bo.map Prod.snd = req.bo.map BufferOut.size ∧
      ReceivedAll .request caller.id
        (fun n o => table.objects n = none ∧ st.table.objects n = some o) callee table' req.oi
        (st.fds.zip fds) args.oi.objs := by
  have hdata : ∀ a, a < 8 ∨ 12 ≤ a → putWord st.buf 8 4 invId a = st.buf a := by
    intro a ha
    rcases ha with ha | ha
    · exact write_of_lt ha
    · exact write_of_ge ha
  generalize putWord st.buf 8 4 invId = data at hdata ⊢
  have hmsg := marshalOutCaller_message hs hout hdata
  obtain ⟨hextra, hreq⟩ := hmsg.sizeReq_eq hver
  have hsizes := hmsg.sizesBI
  have hle := le_layoutEnd (sizeReq callee data) (reqSizesBI data)
  have hsize := hmsg.size
  rw [← hreq, ← hsizes] at hsize
  have hbytes := hmsg.bytes
  rw [← hreq, ← hsizes] at hbytes
  have hwords := hmsg.objects
  rw [MinkSocket.indirect, ← hver] at hwords
  let init : InState := ⟨indexOI req.k, 0, fds, []⟩
  have hinit : init.fds.drop init.fdIdx = fds ++ [] := by simp [init]
  obtain ⟨os, st', hloop, hobjs, hrec⟩ := forEach_received (.inl rfl) hh (by omega) hk
    (fun st st' hp h => marshalInCalleeObject_of_attempts hp h) hwords (show init.pos = _ from rfl)
    hmsg.max hinit hfds
  rw [← hmsg.sizesBO hbo] at hres ⊢
  obtain ⟨bo, hreserve, hsizesBO⟩ := hres.reserveBO
  refine ⟨⟨layoutRanges (sizeReq callee data) (reqSizesBI data), bo, st'⟩,
    marshalInCallee_eq_ok.mpr ⟨?_, ?_, ?_, hreserve, ?_⟩, hmsg.handle, hmsg.op, hmsg.k,
    hbytes, hsizesBO, ?_⟩
  · rw [hmsg.k, hextra]
    exact hmsg.max
  · rw [hsize]
    exact hle
  · exact marshalInCalleeBuffers_of_le (Nat.le_of_eq hsize.symm)
  · rw [hmsg.k, ← req.oi_length]
    exact hloop
  · rw [hobjs]
    exact hrec

def sampleRequest (sizeBO : Nat) : Request where
  handle := 3
  op := 5
  k := 0x411
  bi := [[1, 2, 3]]
  bo := [⟨false, sizeBO⟩]
  oi := [.null, .plain 4, .forwarder ⟨0, 3⟩, .mem (.fdWrapper ⟨7, none, .none⟩)]
  k_lt := by decide
  bi_length := rfl
  bo_length := rfl
  oi_length := rfl

def sampleRequestOut (sizeBO : Nat) : OutState :=
  (marshalOutCaller sampleHandles localSock healthyEnv (ObjectTable.construct 1024)
    (sampleRequest sizeBO)).state

theorem marshalInCallee_marshalOutCaller_sample :
    ∃ args, marshalInCallee localSock sampleTable healthyEnv
        (putWord (sampleRequestOut 16).buf 8 4 1) [30] 0 1024 = .ok args ∧
      args.bi.map (fun r => read (putWord (sampleRequestOut 16).buf 8 4 1) r.1 r.2) = [[1, 2, 3]] ∧
      args.bo.map Prod.snd = [16] := by
  have hs : ∀ obj ∈ (sampleRequest 16).oi, Supported localSock obj := by
    simp [sampleRequest, Supported, localSock]
  have hk : ∀ obj ∈ (sampleRequest 16).oi, Known .request localSock.id sampleTable obj := by
    simp [sampleRequest, Known, Direction.dependency, sampleTable, ObjectTable.recoverObject]
  have hbo : ∀ b ∈ (sampleRequest 16).bo, b.size < 2 ^ 32 := by simp [sampleRequest]
  have hout : marshalOutCaller sampleHandles localSock healthyEnv (ObjectTable.construct 1024)
      (sampleRequest 16) = .ok (sampleRequestOut 16) := rfl
  have hfds : [(30 : Int)].length = (sampleRequestOut 16).fds.length := rfl
  have hres : Reservable healthyEnv 0 1024 ((sampleRequest 16).bo.map BufferOut.size) := by
    refine ⟨by decide, fun area harea => ?_⟩
    obtain rfl : ⟨0, 1024⟩ = area := Except.ok.inj harea
    exact ⟨by decide, by decide, by decide⟩
  obtain ⟨args, hin, -, -, -, hbi, hbo, -⟩ := marshalInCallee_marshalOutCaller rfl hout hs hk
    (by decide) healthyEnv_healthy hfds hbo hres 1
  exact ⟨args, hin, hbi, hbo⟩

/-- A caller can ask for more output than the callee agrees to reserve. -/
theorem marshalInCallee_refuses_large_bo :
    marshalOutCaller sampleHandles localSock healthyEnv (ObjectTable.construct 1024)
        (sampleRequest (5 * 2 ^ 20)) = .ok (sampleRequestOut (5 * 2 ^ 20)) ∧
      marshalInCallee localSock sampleTable healthyEnv
        (putWord (sampleRequestOut (5 * 2 ^ 20)).buf 8 4 1) [30] 0 1024 =
        .error .invalid ⟨[(64, 3)], [], ⟨2, 0, [30], []⟩⟩ :=
  ⟨rfl, by decide⟩

end MinkIpc
