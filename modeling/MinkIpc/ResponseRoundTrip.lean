import MinkIpc.BufferLayout
import MinkIpc.Containment
import MinkIpc.ObjectEncode

/-! A success response that the callee marshals is unmarshalled by the caller to
the callee's results. The sizes of the buffers are written while they are copied,
the header after them and the objects last. -/

namespace MinkIpc

open Bytes List

section Header

variable (resp : Response) (size : Nat) (m : Mem)

theorem Response.putHeader_of_ge {a : Nat} (h : succArgs ≤ a) : resp.putHeader size m a = m a := by
  have hbase : succArgs = 12 := rfl
  simp only [Response.putHeader, putWord]
  rw [write_of_ge (by simp; omega), write_of_ge (by simp; omega), write_of_ge (by simp; omega)]

theorem Response.hdrSize_putHeader : hdrSize (resp.putHeader size m) = size % 2 ^ 32 :=
  word_putWord_self _ _ _ _

theorem Response.hdrInvokeId_putHeader :
    hdrInvokeId (resp.putHeader size m) = resp.invId % 2 ^ 32 := by
  have hkeep : hdrInvokeId (resp.putHeader size m) =
      word (putWord (putWord m 4 4 lxcomSuccess) 8 4 resp.invId) 8 4 :=
    word_putWord_of_disjoint (by omega)
  exact hkeep.trans (word_putWord_self _ _ _ _)

end Header

variable {sock : MinkSocket} {table : Table} {resp : Response}

theorem marshalOutCallee_eq_ok {hd : Handles} {env : Env} {st : OutState}
    (h : marshalOutCallee hd sock env table resp = .ok st) :
    numOut resp.k + countNumExtraArgsOutbound sock resp.oo ≤ lxcomMaxArgs ∧
    ∃ st₁, marshalOutBuffers env (fun j b m => putArgSize m succArgs j b.length) resp.bo 0
        (.new (sizeofInvSucc resp.k (countNumExtraArgsOutbound sock resp.oo)) (numBO resp.k) table) =
          .ok st₁ ∧
      marshalOutCalleeObjects hd sock env resp.oo
        { st₁ with buf := resp.putHeader st₁.sizeOnWire st₁.buf } = .ok st := by
  simp only [marshalOutCallee] at h
  split_ifs at h with hmax
  obtain ⟨st₁, hbuf, h⟩ := Outcome.bind_eq_ok.mp h
  exact ⟨by omega, st₁, hbuf, h⟩

structure ResponseMessage (resp : Response) (sock : MinkSocket) (table : Table) (st : OutState) :
    Prop where
  max : numOut resp.k + countNumExtraArgsOutbound sock resp.oo ≤ lxcomMaxArgs
  invId : hdrInvokeId st.buf = resp.invId % 2 ^ 32
  size : hdrSize st.buf = layoutEnd (sizeofInvSucc resp.k (countNumExtraArgsOutbound sock resp.oo))
      (resp.bo.map length)
  sizes : (range (numBO resp.k)).map (argSize st.buf succArgs) = resp.bo.map length
  bytes : (layoutRanges (sizeofInvSucc resp.k (countNumExtraArgsOutbound sock resp.oo))
    (resp.bo.map length)).map (fun r => read st.buf r.1 r.2) = resp.bo
  objects : VectorWords .response sock.id sock.indirect
    (fun n o => table.objects n = none ∧ st.table.objects n = some o) (argObj st.buf succArgs)
    (numBO resp.k) resp.oo st.fds (numOut resp.k + countNumExtraArgsOutbound sock resp.oo)

theorem marshalOutCallee_message {hd : Handles} {env : Env} {st : OutState}
    (hs : ∀ obj ∈ resp.oo, Supported sock obj)
    (h : marshalOutCallee hd sock env table resp = .ok st) :
    ResponseMessage resp sock table st := by
  obtain ⟨hmax, st₁, hbuf, hobj⟩ := marshalOutCallee_eq_ok h
  have hout : numOut resp.k = numBO resp.k + numOO resp.k := rfl
  have hbase : succArgs = 12 := rfl
  have hargs : lxcomMaxArgs = 60 := rfl
  have hmsg : msgBufferMax < 2 ^ 32 := by decide
  have hbo := resp.bo_length
  have hwire : sizeofInvSucc resp.k (countNumExtraArgsOutbound sock resp.oo) =
      12 + (numOut resp.k + countNumExtraArgsOutbound sock resp.oo) * 4 := rfl
  have hroom : succArgs + 4 * (0 + resp.bo.length) ≤ (OutState.new
      (sizeofInvSucc resp.k (countNumExtraArgsOutbound sock resp.oo)) (numBO resp.k) table).sizeOnWire := by
    simp only [OutState.new]
    omega
  have hcopied := marshalOutBuffers_copied (putArgSize_of_outside succArgs) hroom hbuf
  have hsmall : st₁.sizeOnWire ≤ msgBufferMax :=
    marshalOutBuffers_size_le succArgs (putArgSize_of_outside succArgs)
      (by simp only [OutState.new]; decide) (by simp only [OutState.new, msgBufferMax]; omega) hbuf
  obtain ⟨fs, hwords, hwritten, hfds, hpos⟩ := forEach_encoded
    (fun st obj st' hs h => marshalOutCalleeObject_encoded hs h) hs hobj
  have hsize := hcopied.size
  have hpos₁ : st₁.pos = numBO resp.k := hcopied.pos
  have htable₁ : st₁.table = table := hcopied.table
  have hfds₁ : st₁.fds = [] := hcopied.fds
  simp only [resp.oo_length] at hpos
  simp only [hfds₁] at hfds
  subst hfds
  -- the objects leave the header, the sizes and the buffers alone
  have hkeep : ∀ a, a < succArgs + 4 * numBO resp.k ∨
      sizeofInvSucc resp.k (countNumExtraArgsOutbound sock resp.oo) ≤ a →
      st.buf a = resp.putHeader st₁.sizeOnWire st₁.buf a := by
    intro a ha
    exact hwritten.frame a (by simp only [hpos]; omega)
  have hlen : ∀ b ∈ resp.bo, b.length < 2 ^ 32 := by
    intro b hb
    have hle := mem_le_layoutEnd (sizeofInvSucc resp.k (countNumExtraArgsOutbound sock resp.oo))
      (mem_map_of_mem (f := length) hb)
    simp only [OutState.new] at hsize
    omega
  refine ⟨hmax, ?_, ?_, ?_, ?_, ?_⟩
  · rw [← resp.hdrInvokeId_putHeader st₁.sizeOnWire st₁.buf]
    exact word_congr fun a ha hlt => hkeep a (by omega)
  · have hhdr : hdrSize st.buf = st₁.sizeOnWire % 2 ^ 32 := by
      rw [← resp.hdrSize_putHeader st₁.sizeOnWire st₁.buf]
      exact word_congr fun a ha hlt => hkeep a (by omega)
    rw [hhdr, Nat.mod_eq_of_lt (by omega), hsize]
    rfl
  · refine list_eq_map_range (by simp [hbo]) fun j hj => ?_
    have hword := marshalOutBuffers_sizes hroom (by omega : j < resp.bo.length) hbuf
    rw [Nat.zero_add] at hword
    have hsame : argSize st.buf succArgs j = argSize st₁.buf succArgs j := by
      refine word_congr fun a ha hlt => ?_
      rw [hkeep a (by omega), resp.putHeader_of_ge _ _ (by omega)]
    rw [hsame, hword, getD_eq_getElem _ _ (by simp; omega), getElem_map]
    exact Nat.mod_eq_of_lt (hlen _ (getElem_mem _))
  · refine Eq.trans (map_congr_left fun r hr => read_congr fun a ha hlt => ?_) hcopied.bytes
    have hb := (layoutRanges_bounds hr).1
    rw [hkeep a (by omega), resp.putHeader_of_ge _ _ (by omega)]
  · rw [show numOut resp.k + countNumExtraArgsOutbound sock resp.oo = st.pos by omega]
    simp only [hpos₁] at hwords
    exact hwords.congr (fun _ _ => rfl) fun n o hn => ⟨htable₁ ▸ hn.1, hn.2⟩

theorem ResponseMessage.sizeSucc_eq {sock' : MinkSocket} {st : OutState}
    (h : ResponseMessage resp sock table st) (hver : sock'.version = sock.version) :
    sizeSucc sock' st.buf resp.k =
      sizeofInvSucc resp.k (countNumExtraArgsOutbound sock resp.oo) := by
  have hwords := h.objects
  rw [MinkSocket.indirect, ← hver] at hwords
  have hcount := hwords.count (.inr rfl)
  have hout : numOut resp.k = numBO resp.k + numOO resp.k := rfl
  rw [resp.oo_length] at hcount
  have hextra : succExtra sock' st.buf resp.k = countNumExtraArgsOutbound sock resp.oo := by
    unfold succExtra
    omega
  rw [sizeSucc, hextra]

theorem marshalInCallerObject_of_attempts {env : Env} {a : Nat → Arg} {st st' : InState}
    (hp : st.pos < lxcomMaxArgs)
    (h : attempts .response sock table env a callerObject st = some (.ok st')) :
    marshalInCallerObject sock table env a st = .ok st' := by
  unfold marshalInCallerObject
  rw [if_neg (by omega)]
  split
  · rename_i hnone
    have heq := h.symm.trans hnone
    cases heq
  · rename_i st₁ hok
    have heq := h.symm.trans hok
    cases heq
    rfl
  · rename_i e st₁ herr
    have heq := h.symm.trans herr
    cases heq

theorem zipWith_filled {data : Mem} {supplied : List Nat} {ranges : List (Nat × Nat)}
    {bs : List (List UInt8)} (hbytes : ranges.map (fun r => read data r.1 r.2) = bs) :
    zipWith (fun (b : OutBuffer) (r : Nat × Nat) =>
        { b with written := read data r.1 r.2, size := r.2 }) (supplied.map .new) ranges =
      zipWith (fun n b => ⟨n, b, b.length⟩) supplied bs := by
  subst hbytes
  rw [zipWith_map_left, zipWith_map_right]
  refine congrArg (fun f => zipWith f supplied ranges) (funext fun n => funext fun r => ?_)
  simp [OutBuffer.new]

/-- Unmarshalling a marshalled response gives the caller the callee's results. -/
theorem marshalInCaller_marshalOutCallee {hd : Handles} {callee caller : MinkSocket} {env env' : Env}
    {table table' : Table} {resp : Response} {st : OutState} {fds : List Int} {supplied : List Nat}
    (hver : caller.version = callee.version)
    (hout : marshalOutCallee hd callee env table resp = .ok st)
    (hs : ∀ obj ∈ resp.oo, Supported callee obj)
    (hk : ∀ obj ∈ resp.oo, Known .response callee.id table' obj)
    (hlen : table'.objectsLen ≤ 1024) (hh : env'.Healthy) (hfds : fds.length = st.fds.length)
    (hfit : List.Forall₂ (fun b n => b.length ≤ n) resp.bo supplied) :
    ∃ args, marshalInCaller caller table' env' st.buf fds resp.k (supplied.map .new) = .ok args ∧
      args.bo = List.zipWith (fun n b => ⟨n, b, b.length⟩) supplied resp.bo ∧
      (∀ b ∈ args.bo, b.Fits) ∧
      ReceivedAll .response callee.id
        (fun n o => table.objects n = none ∧ st.table.objects n = some o) caller table' resp.oo
        (st.fds.zip fds) args.oo.objs := by
  have hmsg := marshalOutCallee_message hs hout
  have hsucc := hmsg.sizeSucc_eq hver
  have hle := le_layoutEnd (sizeSucc caller st.buf resp.k) (resp.bo.map length)
  have hsize := hmsg.size
  rw [← hsucc] at hsize
  have hbytes := hmsg.bytes
  rw [← hsucc] at hbytes
  have hwords := hmsg.objects
  rw [MinkSocket.indirect, ← hver] at hwords
  let init : InState := ⟨numBO resp.k, 0, fds, []⟩
  have hinit : init.fds.drop init.fdIdx = fds ++ [] := by simp [init]
  obtain ⟨os, st', hloop, hobjs, hrec⟩ := forEach_received (.inr rfl) hh (by omega) hk
    (fun st st' hp h => marshalInCallerObject_of_attempts hp h) hwords (show init.pos = _ from rfl)
    hmsg.max hinit hfds
  have hsup : supplied.length = numBO resp.k := hfit.length_eq.symm.trans resp.bo_length
  have hsizes : resp.bo.map length =
      (range' 0 (supplied.map OutBuffer.new).length).map (argSize st.buf succArgs) := by
    rw [length_map, hsup, ← hmsg.sizes, range_eq_range']
  have hbufs := marshalInCallerBuffers_of_le hsizes (Nat.le_of_eq hsize.symm)
  rw [zipWith_filled hbytes] at hbufs
  refine ⟨⟨_, st'⟩, marshalInCaller_eq_ok.mpr ⟨?_, hbufs, ?_⟩, rfl, ?_, ?_⟩
  · rw [hsize]
    exact hle
  · rw [← resp.oo_length]
    exact hloop
  · intro b hb
    obtain ⟨i, hi, rfl⟩ := mem_iff_getElem.mp hb
    have hi' : i < resp.bo.length ∧ i < supplied.length := by simpa [and_comm] using hi
    have hlength := hfit.get hi'.1 hi'.2
    simpa [OutBuffer.Fits] using hlength
  · rw [hobjs]
    exact hrec

def sampleResponse : Response where
  invId := 7
  k := 0x4010
  bo := [[4, 5, 6]]
  oo := [.null, .plain 6, .forwarder ⟨0, 3⟩, .mem (.fdWrapper ⟨7, none, .none⟩)]
  bo_length := rfl
  oo_length := rfl

def sampleResponseOut (sock : MinkSocket) : OutState :=
  (marshalOutCallee sampleHandles sock healthyEnv (ObjectTable.construct 1024) sampleResponse).state

theorem marshalInCaller_marshalOutCallee_sample :
    ∃ args, marshalInCaller localSock sampleTable healthyEnv (sampleResponseOut localSock).buf [30]
        0x4010 [.new 5] = .ok args ∧ args.bo = [⟨5, [4, 5, 6], 3⟩] := by
  have hs : ∀ obj ∈ sampleResponse.oo, Supported localSock obj := by
    simp [sampleResponse, Supported, localSock]
  have hk : ∀ obj ∈ sampleResponse.oo, Known .response localSock.id sampleTable obj := by
    simp [sampleResponse, Known, Direction.dependency, sampleTable, ObjectTable.recoverObject]
  have hout : marshalOutCallee sampleHandles localSock healthyEnv (ObjectTable.construct 1024)
      sampleResponse = .ok (sampleResponseOut localSock) := rfl
  have hfds : [(30 : Int)].length = (sampleResponseOut localSock).fds.length := rfl
  have hfit : List.Forall₂ (fun (b : List UInt8) n => b.length ≤ n) sampleResponse.bo [5] := by
    simp [sampleResponse]
  obtain ⟨args, hin, hbo, -, -⟩ := marshalInCaller_marshalOutCallee rfl hout hs hk (by decide)
    healthyEnv_healthy hfds hfit
  exact ⟨args, hin, hbo⟩

def remoteSock : MinkSocket := { localSock with isRemote := true }

/-- On a remote connection the memory behind a descriptor arrives as a memparcel. -/
theorem marshalInCaller_remote_memparcel :
    marshalOutCallee sampleHandles remoteSock healthyEnv (ObjectTable.construct 1024)
        sampleResponse = .ok (sampleResponseOut remoteSock) ∧
      marshalInCaller remoteSock sampleTable healthyEnv (sampleResponseOut remoteSock).buf [] 0x4010
        [.new 5] = .ok ⟨[⟨5, [4, 5, 6], 3⟩], ⟨13, 0, [], [.null, .forwarder ⟨0, 1⟩, .plain 8,
          .mem (.msMem ⟨1, 1, some ⟨0, 2⟩, false, 0⟩)]⟩⟩ :=
  ⟨rfl, by decide⟩

end MinkIpc
