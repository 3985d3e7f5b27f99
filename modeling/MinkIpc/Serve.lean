import MinkIpc.ResponseRoundTrip
import MinkIpc.Run
import Mathlib.Algebra.Order.Group.Multiset

/-! The receiving end of a connection. A request is unmarshalled and its target invoked by one of
several threads, so that other messages are handled before it is answered. -/

namespace MinkIpc

open Bytes Option

section Header

variable {hd : Handles} {sock : MinkSocket} {env : Env} {base numFds objFlag : Nat} {obj : Object}
  {st st' : OutState}

theorem written_fds (base : Nat) (st : OutState) (fds : List Int) :
    Written base st { st with fds := fds } :=
  ⟨fun _ _ => rfl, Nat.le_refl _, fun _ _ h => h, rfl⟩

theorem written_addObject {n : Nat} {table : Table}
    (h : st.table.addObject hd obj = some (n, table)) (base : Nat) :
    Written base st { st with table := table } := by
  obtain ⟨-, -, hfree, hobjects, -⟩ := ObjectTable.addObject_eq_some h
  refine ⟨fun _ _ => rfl, Nat.le_refl _, fun m o hm => ?_, rfl⟩
  rw [hobjects, Function.update_of_ne (by rintro rfl; rw [hfree] at hm; cases hm), hm]

theorem written_forwardMemDep {dependency : Option MSForwarder} {objFlags : Nat}
    (h : marshalOutForwardMemDep sock base st dependency objFlags = some st') :
    Written base st st' := by
  obtain ⟨f, -, h⟩ := bind_eq_some_iff.mp h
  have hword := st.word_written base objFlags f.handle
  split_ifs at h
  all_goals cases h
  · exact (hword.trans (OutState.skip_written base _ _)).trans (OutState.skip_written base _ _)
  · exact hword.trans (OutState.skip_written base _ _)
  · exact hword.trans (OutState.skip_written base _ _)
  · exact hword

variable (sock base st) in
theorem written_localGenericMem (w : FdWrapper) :
    Written base st (marshalOutLocalGenericMem sock base st w) ∧
      (if verIndirectMem ≤ sock.version then
        (marshalOutLocalGenericMem sock base st w).pos - 1 - numExtraArgsSpecialRules
        else (marshalOutLocalGenericMem sock base st w).pos - 1) = st.pos ∧
      st.pos < (marshalOutLocalGenericMem sock base st w).pos := by
  have hword := st.word_written base descriptorObject invalidObjectHandle
  have hfds := hword.trans (written_fds base _ (st.fds ++ [w.descriptor]))
  unfold marshalOutLocalGenericMem
  split_ifs
  · refine ⟨hfds.trans (OutState.chunks_written base _ _ _ _), ?_, ?_⟩
    · simp [OutState.chunks_pos, OutState.word]
    · simp [OutState.chunks_pos, OutState.word]
      omega
  · exact ⟨hfds, rfl, Nat.lt_succ_self _⟩

theorem written_retainDep {w : FdWrapper}
    (h : marshalOutRetainLocalGenericMemDep hd sock base (marshalOutLocalGenericMem sock base st w) w =
      .ok st') : Written base st st' := by
  obtain ⟨hmem, hfirst, hlt⟩ := written_localGenericMem sock base st w
  unfold marshalOutRetainLocalGenericMemDep at h
  rw [hfirst] at h
  split at h
  · cases h
    exact hmem
  split_ifs at h with hconn
  · split at h
    · cases h
    · rename_i hadd
      cases h
      have htable := hmem.trans (written_addObject hadd base)
      refine ⟨fun a ha => ?_, htable.le, htable.grows, htable.wire⟩
      refine Eq.trans ?_ (htable.frame a ha)
      simp only at ha
      rcases ha with ha | ha
      · exact write_of_lt (by omega)
      · exact write_of_ge (by simp; omega)
  · cases h
    exact hmem

theorem written_populate {specialRules : Nat} {attached : MemObj}
    (h : marshalOutPopulateWrappedMemparcel hd env base objFlag obj st specialRules attached =
      .ok st') : Written base st st' := by
  unfold marshalOutPopulateWrappedMemparcel at h
  simp only at h
  split at h
  · split at h
    · cases h
    · rename_i hadd
      cases h
      exact (((written_addObject hadd base).trans (OutState.word_written base _ _ _)).trans
        (OutState.chunks_written base _ _ _ _)).trans (OutState.chunks_written base _ _ _ _)
  · cases h

theorem written_remoteGenericMem
    (h : marshalOutRemoteGenericMem hd sock env base objFlag obj st = some (.ok st')) :
    Written base st st' := by
  obtain ⟨w, -, h⟩ := bind_eq_some_iff.mp h
  by_cases hremote : (!sock.isRemote) = true
  · rw [if_pos hremote] at h
    cases h
  rw [if_neg hremote] at h
  have hdep : ∀ st₁, (if objFlag = calleeObject then marshalOutForwardMemDep sock base st
      w.dependency (callerObject ||| memparcelObject) else none) = some st₁ →
      Written base st st₁ := by
    intro st₁ h₁
    split_ifs at h₁
    exact written_forwardMemDep h₁
  simp only at h
  split at h
  · rename_i st₁ _ hfwd
    cases h
    exact hdep _ hfwd
  · cases h
  · exact written_populate (Outcome.mapError_eq_ok (Option.some.inj h))
  · split_ifs at h
    · exact written_populate (Outcome.mapError_eq_ok (Option.some.inj h))
    · cases h

theorem written_remoteMSMem {flagDep : Nat}
    (h : marshalOutRemoteMSMem hd sock env base objFlag obj st flagDep = some (.ok st')) :
    Written base st st' := by
  obtain ⟨m, -, h⟩ := bind_eq_some_iff.mp h
  by_cases hremote : (!sock.isRemote) = true
  · rw [if_pos hremote] at h
    cases h
  rw [if_neg hremote] at h
  split at h
  · rename_i hdep
    cases h
    exact written_forwardMemDep hdep
  · exact written_populate (Outcome.mapError_eq_ok (Option.some.inj h))

theorem written_localMSMem (h : marshalOutLocalMSMem hd sock base numFds obj st = some (.ok st')) :
    Written base st st' := by
  obtain ⟨m, -, h⟩ := bind_eq_some_iff.mp h
  by_cases hremote : sock.isRemote
  · rw [if_pos hremote] at h
    cases h
  rw [if_neg hremote] at h
  by_cases hfull : st.fds.length ≥ numFds
  · rw [if_pos hfull] at h
    cases h
  rw [if_neg hfull] at h
  split at h
  · cases h
  rename_i handle table hadd
  have hword := ((written_addObject hadd base).trans
    (written_fds base _ (st.fds ++ [m.dmaBufFd]))).trans
      (OutState.word_written base _ descriptorObject handle)
  split_ifs at h
  · cases h
    exact hword.trans (OutState.chunks_written base _ _ _ _)
  · cases h
    exact hword

theorem written_calleeLocalGenericMem
    (h : marshalOutCalleeLocalGenericMem hd sock base numFds obj st = some (.ok st')) :
    Written base st st' := by
  obtain ⟨w, -, h⟩ := bind_eq_some_iff.mp h
  split_ifs at h
  · cases h
  · exact written_retainDep (Option.some.inj h)

theorem written_msforwarder (h : marshalOutMsforwarder sock base objFlag obj st = some (.ok st')) :
    Written base st st' := by
  obtain ⟨f, -, h⟩ := bind_eq_some_iff.mp h
  split_ifs at h
  cases h
  exact OutState.word_written base _ _ _

theorem written_genericObject (h : marshalOutGenericObject hd base objFlag obj st = some (.ok st')) :
    Written base st st' := by
  unfold marshalOutGenericObject at h
  split at h
  · cases h
  · rename_i hadd
    cases h
    exact (written_addObject hadd base).trans (OutState.word_written base _ _ _)

theorem written_nullObject (h : marshalOutNullObject base obj st = some (.ok st')) :
    Written base st st' := by
  unfold marshalOutNullObject at h
  split at h
  · cases h
    exact OutState.word_written base _ _ _
  · cases h

theorem of_orElse_ok {P : Prop} {x y : Attempt OutState} (hx : x = some (.ok st') → P)
    (hy : y = some (.ok st') → P) (h : (x <|> y) = some (.ok st')) : P := by
  cases x with
  | none => exact hy h
  | some r => exact hx h

theorem of_getD_ok {x : Attempt OutState} {e : ObjectError} (h : x.getD (.error e st) = .ok st') :
    x = some (.ok st') := by
  cases x with
  | none => cases h
  | some r => exact congrArg some h

theorem written_calleeObject
    (h : marshalOutCalleeObject hd sock env base numFds obj st = .ok st') : Written base st st' := by
  unfold marshalOutCalleeObject at h
  split_ifs at h
  refine of_orElse_ok written_nullObject ?_ (of_getD_ok h)
  refine of_orElse_ok written_msforwarder ?_
  refine of_orElse_ok written_calleeLocalGenericMem ?_
  refine of_orElse_ok written_localMSMem ?_
  refine of_orElse_ok written_remoteGenericMem ?_
  exact of_orElse_ok written_remoteMSMem written_genericObject

theorem written_calleeObjects {objs : List Object}
    (h : marshalOutCalleeObjects hd sock env objs st = .ok st') : Written succArgs st st' := by
  induction objs generalizing st with
  | nil =>
    cases h
    exact .refl succArgs _
  | cons obj objs ih =>
    obtain ⟨st₁, h₁, h⟩ := Outcome.forEach_cons_eq_ok.mp h
    exact (written_calleeObject h₁).trans (ih h)

theorem marshalOutCallee_header {table : Table} {resp : Response}
    (h : marshalOutCallee hd sock env table resp = .ok st) :
    hdrType st.buf = lxcomSuccess ∧ hdrInvokeId st.buf = resp.invId % 2 ^ 32 := by
  obtain ⟨-, st₁, -, hobj⟩ := marshalOutCallee_eq_ok h
  have hframe := (written_calleeObjects hobj).frame
  have hbase : succArgs = 12 := rfl
  have hkeep : ∀ a < 12, st.buf a = resp.putHeader st₁.sizeOnWire st₁.buf a :=
    fun a ha => hframe a (.inl (by omega))
  constructor
  · exact word_congr fun a _ hlt => hkeep a (by omega)
  · rw [← resp.hdrInvokeId_putHeader st₁.sizeOnWire st₁.buf]
    exact word_congr fun a _ hlt => hkeep a (by omega)

end Header

namespace Serve

def lxcomError : Nat := 3
def lxcomClose : Nat := 4

def ctlHandle : Int32 := -1
def ctlOpSync : Int32 := 1

def ctlCounts : Nat := 17

def sizeofCtl : Nat := 32
def sizeofInvErr : Nat := 16
def sizeofInvClose : Nat := 12

def verLocal : Nat := 2 * 65536

structure InvokeInfo where
  invokeId : Nat
  k : Nat
  bo : List OutBuffer
  result : Option Int32

structure Job where
  invokeId : Nat
  handle : Int32
  op : Int32
  k : Nat
  target : Object
  args : CalleeArgs

/-- `received` has the invoke ids of the requests that came in, `responses` the messages sent in
answer. -/
structure Endpoint where
  sock : MinkSocket
  table : Table
  qlInvokes : List InvokeInfo
  bDone : Bool
  firstShot : Bool
  vsock : Bool
  closeOnOTEmpty : Bool
  jobs : List Job
  received : List Nat
  responses : List Mem

structure Inbound where
  data : Mem
  fds : List Int
  env : Env
  bufResv : Nat
  specificInvoke : Bool

def invErr (invokeId : Nat) (err : Int32) : Mem :=
  let m := putWord (fun _ => 0) 4 4 lxcomError
  let m := putWord m 0 4 sizeofInvErr
  let m := putWord m 8 4 invokeId
  putInt32 m 12 err

def errorCode (e : ObjectError) : Int32 := Int32.ofInt e.code

namespace Endpoint

def sendInvokeError (me : Endpoint) (invokeId : Nat) (err : Int32) : Endpoint :=
  { me with responses := me.responses ++ [invErr invokeId err] }

def sendInvokeSuccess (hd : Handles) (me : Endpoint) (env : Env) (resp : Response) :
    Endpoint × Option ObjectError :=
  match marshalOutCallee hd me.sock env me.table resp with
  | .error _ st => ({ me with table := st.table }, some .invalid)
  | .ok st => ({ me with table := st.table, responses := me.responses ++ [st.buf] }, none)

def respond (hd : Handles) (me : Endpoint) (env : Env) (errInvoke : Int32) (resp : Response) :
    Endpoint × Option ObjectError :=
  if errInvoke ≠ 0 then (me.sendInvokeError resp.invId errInvoke, none)
  else
    match me.sendInvokeSuccess hd env resp with
    | (me, none) => (me, none)
    | (me, some e) => (me.sendInvokeError resp.invId (errorCode e), some e)

/-- `ackCtlInfo`: the version that the server takes up, and the bytes of its answer. Only the
size of the input is checked. -/
def ackCtlInfo (data : Mem) (args : CalleeArgs) : Except ObjectError (Nat × List UInt8) :=
  match args.bi, args.bo with
  | [(ptr, size)], [(_, sizeOut)] =>
    if size ≠ sizeofCtl then .error .invalid
    else
      let clientVersion := word data ptr 4
      let ackVersion := if verLocal < clientVersion then verLocal else clientVersion
      .ok (ackVersion, (le 4 ackVersion ++ List.replicate (max 28 sizeOut) 0).take sizeOut)
  | _, _ => .error .invalid

/-- An unmarshalled request: the version sync is answered here, any other handed to its target. -/
def dispatch (hd : Handles) (me : Endpoint) (msg : Inbound) (args : CalleeArgs) :
    Endpoint × Option ObjectError :=
  let id := hdrInvokeId msg.data
  if reqHandle msg.data = ctlHandle ∧ reqOp msg.data = ctlOpSync ∧ reqK msg.data = ctlCounts then
    match ackCtlInfo msg.data args with
    | .error e => (me.sendInvokeError id (errorCode e), none)
    | .ok (ackVersion, bo) =>
      respond hd { me with sock := { me.sock with version := ackVersion } } msg.env 0
        ⟨id, ctlCounts, [bo], [], rfl, rfl⟩
  else
    match me.table.recoverObject (reqHandle msg.data).toInt with
    | none => (me.sendInvokeError id (errorCode .invalid), none)
    | some target =>
      ({ me with jobs := me.jobs ++ [⟨id, reqHandle msg.data, reqOp msg.data, reqK msg.data,
        target, args⟩] }, none)

def recvInvocationRequest (hd : Handles) (me : Endpoint) (msg : Inbound) :
    Endpoint × Option ObjectError :=
  let id := hdrInvokeId msg.data
  if !msg.specificInvoke then (me.sendInvokeError id (errorCode .kmem), some .kmem)
  else
    match marshalInCallee me.sock me.table msg.env msg.data msg.fds msg.bufResv
        msgBufferPrealloc with
    | .error e _ => (me.sendInvokeError id (errorCode e), some e)
    | .ok args => me.dispatch hd msg args

def withInvokeInfo (id : Nat) (f : InvokeInfo → InvokeInfo) : List InvokeInfo → Option (List InvokeInfo)
  | [] => none
  | pii :: rest =>
    if pii.invokeId = id then some (f pii :: rest)
    else (withInvokeInfo id f rest).map (pii :: ·)

def recvInvocationSuccess (me : Endpoint) (msg : Inbound) : Endpoint × Option ObjectError :=
  match me.qlInvokes.find? fun pii => pii.invokeId = hdrInvokeId msg.data with
  | none => (me, some .unavail)
  | some pii =>
    let setResult (bo : List OutBuffer) (result : Int32) : List InvokeInfo :=
      (withInvokeInfo (hdrInvokeId msg.data)
        (fun pii => { pii with bo := bo, result := some result }) me.qlInvokes).getD []
    match marshalInCaller me.sock me.table msg.env msg.data msg.fds pii.k pii.bo with
    | .error e args => ({ me with qlInvokes := setResult args.bo (errorCode e) }, some e)
    | .ok args => ({ me with qlInvokes := setResult args.bo 0 }, none)

def recvInvocationError (me : Endpoint) (msg : Inbound) : Endpoint × Option ObjectError :=
  if hdrSize msg.data ≠ sizeofInvErr then (me, some .invalid)
  else
    match withInvokeInfo (hdrInvokeId msg.data)
        (fun pii => { pii with result := some (int32 msg.data 12) }) me.qlInvokes with
    | none => (me, some .unavail)
    | some qlInvokes => ({ me with qlInvokes := qlInvokes }, none)

def close (me : Endpoint) : Endpoint :=
  if me.bDone then me else { me with bDone := true, qlInvokes := [] }

def isCleaned (hd : Handles) (table : Table) : Bool :=
  table.objectsCount = 1 && (table.objects hd.primordial).isSome

def recvClose (hd : Handles) (me : Endpoint) (msg : Inbound) : Endpoint × Option ObjectError :=
  if hdrSize msg.data ≠ sizeofInvClose then (me, some .invalid)
  else
    match me.table.releaseHandle hd (int32 msg.data 8).toInt with
    | none => (me, some .error)
    | some (_, table) =>
      let me := { me with table := table }
      if me.vsock && me.closeOnOTEmpty && isCleaned hd table then (me.close, none) else (me, none)

def processMsgInternal (hd : Handles) (me : Endpoint) (msg : Inbound) :
    Endpoint × Option ObjectError :=
  if hdrType msg.data = lxcomRequest then me.recvInvocationRequest hd msg
  else if hdrType msg.data = lxcomSuccess then me.recvInvocationSuccess msg
  else if hdrType msg.data = lxcomError then me.recvInvocationError msg
  else if hdrType msg.data = lxcomClose then me.recvClose hd msg
  else (me, some .defunct)

def processException (hd : Handles) (me : Endpoint) : Option ObjectError → Endpoint
  | some .defunct =>
    if me.firstShot then
      { me.close with firstShot := false, table := (me.table.closeAllHandles hd).2 }
    else me
  | _ => me

def receive (hd : Handles) (me : Endpoint) (work : Bool) (msg : Inbound) : Endpoint :=
  let ids := if hdrType msg.data = lxcomRequest then [hdrInvokeId msg.data] else []
  let me := { me with received := me.received ++ ids }
  let (me, err) := if !work then (me, some .mem) else me.processMsgInternal hd msg
  me.processException hd err

def finish (hd : Handles) (me : Endpoint) (j : Nat) (env : Env) (errInvoke : Int32)
    (bo : List (List UInt8)) (oo : List Object) : Option Endpoint :=
  me.jobs[j]?.bind fun job =>
    if h : bo.length = numBO job.k ∧ oo.length = numOO job.k then
      let (me, err) := respond hd { me with jobs := me.jobs.eraseIdx j } env errInvoke
        ⟨job.invokeId, job.k, bo, oo, h.1, h.2⟩
      some (me.processException hd err)
    else none

end Endpoint

/-- What can happen at an endpoint. In between, its own invocations change the table and the list
of those that wait. -/
inductive Action
  | receive (work : Bool) (msg : Inbound)
  | finish (j : Nat) (env : Env) (errInvoke : Int32) (bo : List (List UInt8)) (oo : List Object)
  | invoke (table : Table) (qlInvokes : List InvokeInfo)

def step (hd : Handles) (me : Endpoint) : Action → Option Endpoint
  | .receive work msg => if me.bDone then none else some (me.receive hd work msg)
  | .finish j env errInvoke bo oo => me.finish hd j env errInvoke bo oo
  | .invoke table qlInvokes => some { me with table := table, qlInvokes := qlInvokes }

def IsResponse (m : Mem) (id : Nat) : Prop :=
  (hdrType m = lxcomSuccess ∨ hdrType m = lxcomError) ∧ hdrInvokeId m = id

structure Quiet (me me' : Endpoint) : Prop where
  jobs : me'.jobs = me.jobs
  received : me'.received = me.received
  responses : me'.responses = me.responses

structure Answers (id : Nat) (me me' : Endpoint) : Prop where
  jobs : me'.jobs = me.jobs
  received : me'.received = me.received
  responses : ∃ m, me'.responses = me.responses ++ [m] ∧ IsResponse m id

structure Starts (id : Nat) (me me' : Endpoint) : Prop where
  jobs : ∃ job : Job, me'.jobs = me.jobs ++ [job] ∧ job.invokeId = id
  received : me'.received = me.received
  responses : me'.responses = me.responses

section Steps

variable {hd : Handles} {me me' me'' : Endpoint} {id : Nat}

theorem Answers.trans_quiet (h : Answers id me me') (h' : Quiet me' me'') : Answers id me me'' where
  jobs := h'.jobs.trans h.jobs
  received := h'.received.trans h.received
  responses := by
    rw [h'.responses]
    exact h.responses

theorem Starts.trans_quiet (h : Starts id me me') (h' : Quiet me' me'') : Starts id me me'' where
  jobs := by
    rw [h'.jobs]
    exact h.jobs
  received := h'.received.trans h.received
  responses := h'.responses.trans h.responses

theorem Quiet.trans_answers (h : Quiet me me') (h' : Answers id me' me'') : Answers id me me'' where
  jobs := h'.jobs.trans h.jobs
  received := h'.received.trans h.received
  responses := by
    rw [← h.responses]
    exact h'.responses

theorem Quiet.trans (h : Quiet me me') (h' : Quiet me' me'') : Quiet me me'' :=
  ⟨h'.jobs.trans h.jobs, h'.received.trans h.received, h'.responses.trans h.responses⟩

theorem isResponse_invErr (hid : id < 2 ^ 32) (err : Int32) : IsResponse (invErr id err) id := by
  constructor
  · right
    refine (word_putWord_of_disjoint (by omega)).trans ?_
    refine (word_putWord_of_disjoint (by omega)).trans ?_
    refine (word_putWord_of_disjoint (by omega)).trans ?_
    exact word_putWord_self _ _ _ _
  · refine (word_putWord_of_disjoint (by omega)).trans ?_
    rw [word_putWord_self]
    exact Nat.mod_eq_of_lt hid

theorem answers_sendInvokeError (hid : id < 2 ^ 32) (me : Endpoint) (err : Int32) :
    Answers id me (me.sendInvokeError id err) :=
  ⟨rfl, rfl, _, rfl, isResponse_invErr hid err⟩

theorem answers_respond {env : Env} {errInvoke : Int32} {resp : Response} (hresp : resp.invId = id)
    (hid : id < 2 ^ 32) : Answers id me (me.respond hd env errInvoke resp).1 := by
  subst hresp
  unfold Endpoint.respond
  split_ifs
  · exact answers_sendInvokeError hid me errInvoke
  unfold Endpoint.sendInvokeSuccess
  cases hm : marshalOutCallee hd me.sock env me.table resp with
  | error e st => exact ⟨rfl, rfl, _, rfl, isResponse_invErr hid _⟩
  | ok st =>
    obtain ⟨htype, hinv⟩ := marshalOutCallee_header hm
    exact ⟨rfl, rfl, _, rfl, .inl htype, hinv.trans (Nat.mod_eq_of_lt hid)⟩

theorem quiet_processException (err : Option ObjectError) :
    Quiet me (me.processException hd err) := by
  unfold Endpoint.processException Endpoint.close
  split
  · split_ifs <;> exact ⟨rfl, rfl, rfl⟩
  · exact ⟨rfl, rfl, rfl⟩

theorem hdrInvokeId_lt (m : Mem) : hdrInvokeId m < 2 ^ 32 := word_lt m 8 4

variable {msg : Inbound}

theorem answers_or_starts_dispatch {args : CalleeArgs} :
    Answers (hdrInvokeId msg.data) me (me.dispatch hd msg args).1 ∨
      Starts (hdrInvokeId msg.data) me (me.dispatch hd msg args).1 := by
  have hid := hdrInvokeId_lt msg.data
  unfold Endpoint.dispatch
  split_ifs
  · split
    · exact .inl (answers_sendInvokeError hid me _)
    · refine .inl (Quiet.trans_answers ?_ (answers_respond rfl hid))
      exact ⟨rfl, rfl, rfl⟩
  · split
    · exact .inl (answers_sendInvokeError hid me _)
    · exact .inr ⟨⟨_, rfl, rfl⟩, rfl, rfl⟩

theorem answers_or_starts : Answers (hdrInvokeId msg.data) me (me.recvInvocationRequest hd msg).1 ∨
      Starts (hdrInvokeId msg.data) me (me.recvInvocationRequest hd msg).1 := by
  have hid := hdrInvokeId_lt msg.data
  unfold Endpoint.recvInvocationRequest
  split_ifs
  · exact .inl (answers_sendInvokeError hid me _)
  · split
    · exact .inl (answers_sendInvokeError hid me _)
    · exact answers_or_starts_dispatch

theorem quiet_recvInvocationSuccess (msg : Inbound) : Quiet me (me.recvInvocationSuccess msg).1 := by
  unfold Endpoint.recvInvocationSuccess
  split
  · exact ⟨rfl, rfl, rfl⟩
  · split <;> exact ⟨rfl, rfl, rfl⟩

theorem quiet_recvInvocationError (msg : Inbound) : Quiet me (me.recvInvocationError msg).1 := by
  unfold Endpoint.recvInvocationError
  split_ifs
  · exact ⟨rfl, rfl, rfl⟩
  · split <;> exact ⟨rfl, rfl, rfl⟩

theorem quiet_close (me : Endpoint) : Quiet me me.close := by
  unfold Endpoint.close
  split_ifs <;> exact ⟨rfl, rfl, rfl⟩

theorem quiet_recvClose (msg : Inbound) : Quiet me (me.recvClose hd msg).1 := by
  unfold Endpoint.recvClose
  split_ifs
  · exact ⟨rfl, rfl, rfl⟩
  split
  · exact ⟨rfl, rfl, rfl⟩
  simp only
  split_ifs
  · refine Quiet.trans ?_ (quiet_close _)
    exact ⟨rfl, rfl, rfl⟩
  · exact ⟨rfl, rfl, rfl⟩

theorem processMsgInternal_request (h : hdrType msg.data = lxcomRequest) :
    me.processMsgInternal hd msg = me.recvInvocationRequest hd msg :=
  if_pos h

theorem quiet_processMsgInternal (h : hdrType msg.data ≠ lxcomRequest) :
    Quiet me (me.processMsgInternal hd msg).1 := by
  unfold Endpoint.processMsgInternal
  rw [if_neg h]
  split_ifs
  · exact quiet_recvInvocationSuccess msg
  · exact quiet_recvInvocationError msg
  · exact quiet_recvClose msg
  · exact ⟨rfl, rfl, rfl⟩

variable (hd me) in
theorem receive_request (h : hdrType msg.data = lxcomRequest) : Answers (hdrInvokeId msg.data)
        { me with received := me.received ++ [hdrInvokeId msg.data] } (me.receive hd true msg) ∨
      Starts (hdrInvokeId msg.data)
        { me with received := me.received ++ [hdrInvokeId msg.data] } (me.receive hd true msg) := by
  have hreceive : me.receive hd true msg =
      let r := Endpoint.recvInvocationRequest hd
        { me with received := me.received ++ [hdrInvokeId msg.data] } msg
      r.1.processException hd r.2 := by
    simp only [Endpoint.receive, h, if_true, Bool.not_true, Bool.false_eq_true, if_false,
      processMsgInternal_request h]
  rw [hreceive]
  exact answers_or_starts.imp (·.trans_quiet (quiet_processException _))
    (·.trans_quiet (quiet_processException _))

theorem receive_other (h : hdrType msg.data ≠ lxcomRequest) (work : Bool) :
    Quiet me (me.receive hd work msg) := by
  simp only [Endpoint.receive, if_neg h, List.append_nil]
  split_ifs
  · exact quiet_processException _
  · exact (quiet_processMsgInternal h).trans (quiet_processException _)

variable (hd) in
theorem finish_job {j : Nat} {job : Job} (hj : me.jobs[j]? = some job)
    (hid : job.invokeId < 2 ^ 32) (env : Env) (errInvoke : Int32) {bo : List (List UInt8)}
    {oo : List Object} (hbo : bo.length = numBO job.k) (hoo : oo.length = numOO job.k) :
    ∃ me', me.finish hd j env errInvoke bo oo = some me' ∧
      Answers job.invokeId { me with jobs := me.jobs.eraseIdx j } me' := by
  unfold Endpoint.finish
  rw [hj, bind_some, dif_pos ⟨hbo, hoo⟩]
  refine ⟨_, rfl, Answers.trans_quiet ?_ (quiet_processException _)⟩
  exact answers_respond rfl hid

theorem of_finish {j : Nat} {env : Env} {errInvoke : Int32} {bo : List (List UInt8)}
    {oo : List Object} (h : me.finish hd j env errInvoke bo oo = some me') :
    ∃ job, me.jobs[j]? = some job ∧ bo.length = numBO job.k ∧ oo.length = numOO job.k := by
  obtain ⟨job, hj, h⟩ := bind_eq_some_iff.mp h
  split_ifs at h with hlen
  exact ⟨job, hj, hlen⟩

/-- Every request that came in is answered or its target being invoked, but for those in `due`; and
all that was sent is such an answer. -/
structure Ledger (due : Multiset Nat) (me : Endpoint) : Prop where
  balanced : (me.responses.map hdrInvokeId : Multiset Nat) + (me.jobs.map Job.invokeId) + due =
    me.received
  responses : ∀ m ∈ me.responses, IsResponse m (hdrInvokeId m)
  ids : ∀ job ∈ me.jobs, job.invokeId < 2 ^ 32

variable {due : Multiset Nat}

theorem Ledger.quiet (h : Ledger due me) (hq : Quiet me me') : Ledger due me' := by
  constructor
  · rw [hq.responses, hq.jobs, hq.received]
    exact h.balanced
  · rw [hq.responses]
    exact h.responses
  · rw [hq.jobs]
    exact h.ids

theorem Ledger.answers (h : Ledger {id} me) (ha : Answers id me me') : Ledger 0 me' := by
  obtain ⟨m, hm, hresp⟩ := ha.responses
  have hid := hresp.2
  constructor
  · rw [hm, ha.jobs, ha.received, ← h.balanced, List.map_append, ← Multiset.coe_add, List.map_singleton,
      hid, Multiset.coe_singleton, add_zero, add_right_comm]
  · rw [hm]
    exact List.forall_mem_append.mpr ⟨h.responses, List.forall_mem_singleton.mpr (hid.symm ▸ hresp)⟩
  · rw [ha.jobs]
    exact h.ids

theorem Ledger.starts (h : Ledger {id} me) (hid : id < 2 ^ 32) (hs : Starts id me me') :
    Ledger 0 me' := by
  obtain ⟨job, hjob, rfl⟩ := hs.jobs
  constructor
  · rw [hjob, hs.responses, hs.received, ← h.balanced, List.map_append, ← Multiset.coe_add,
      List.map_singleton, Multiset.coe_singleton, add_zero, add_assoc]
  · rw [hs.responses]
    exact h.responses
  · rw [hjob]
    exact List.forall_mem_append.mpr ⟨h.ids, List.forall_mem_singleton.mpr hid⟩

theorem Ledger.came (h : Ledger 0 me) (id : Nat) :
    Ledger {id} { me with received := me.received ++ [id] } := by
  refine ⟨?_, h.responses, h.ids⟩
  have hbal := h.balanced
  rw [add_zero] at hbal
  rw [hbal, ← Multiset.coe_add, Multiset.coe_singleton]

theorem Ledger.returned (h : Ledger 0 me) {j : Nat} {job : Job} (hj : me.jobs[j]? = some job) :
    Ledger {job.invokeId} { me with jobs := me.jobs.eraseIdx j } := by
  obtain ⟨hlt, rfl⟩ := List.getElem?_eq_some_iff.mp hj
  refine ⟨?_, h.responses, fun x hx => h.ids x (List.mem_of_mem_eraseIdx hx)⟩
  have hperm := (List.getElem_cons_eraseIdx_perm hlt).map Job.invokeId
  have hsum : (↑((me.jobs.eraseIdx j).map Job.invokeId) : Multiset Nat) + {me.jobs[j].invokeId} =
      me.jobs.map Job.invokeId := by
    rw [← Multiset.coe_eq_coe.mpr hperm, List.map_cons, ← Multiset.cons_coe, ← Multiset.singleton_add,
      add_comm]
  have hbal := h.balanced
  rw [add_zero] at hbal
  rw [add_assoc, hsum, hbal]

def Allocated (_ : Endpoint) : Action → Prop
  | .receive work msg => hdrType msg.data = lxcomRequest → work = true
  | _ => True

theorem Ledger.step (h : Ledger 0 me) {a : Action} (ha : Allocated me a)
    (hs : step hd me a = some me') : Ledger 0 me' := by
  cases a with
  | receive work msg =>
    simp only [Serve.step] at hs
    split_ifs at hs
    cases hs
    by_cases htype : hdrType msg.data = lxcomRequest
    · obtain rfl := ha htype
      rcases receive_request hd me htype with hans | hstart
      · exact (h.came _).answers hans
      · exact (h.came _).starts (hdrInvokeId_lt _) hstart
    · exact h.quiet (receive_other htype work)
  | finish j env errInvoke bo oo =>
    obtain ⟨job, hj, hbo, hoo⟩ := of_finish hs
    have hid := h.ids job (List.mem_of_getElem? hj)
    obtain ⟨me'', hfinish, hans⟩ := finish_job hd hj hid env errInvoke hbo hoo
    obtain rfl : me'' = me' := Option.some.inj (hfinish.symm.trans hs)
    exact (h.returned hj).answers hans
  | invoke table qlInvokes =>
    cases hs
    exact h.quiet ⟨rfl, rfl, rfl⟩

/-- Every request is answered once and with its own id, or is still being served. -/
theorem one_response {start : Endpoint} {as : List Action}
    (hstart : start.received = [] ∧ start.jobs = [] ∧ start.responses = [])
    (h : Run.Guarded (step hd) Allocated start as me) :
    ((me.responses.map hdrInvokeId : Multiset Nat) + me.jobs.map Job.invokeId = me.received ∧
      ∀ m ∈ me.responses, IsResponse m (hdrInvokeId m)) ∧
    (∀ j job, me.jobs[j]? = some job → ∀ env errInvoke bo oo, bo.length = numBO job.k →
      oo.length = numOO job.k → ∃ me', step hd me (.finish j env errInvoke bo oo) = some me' ∧
        ∃ m, me'.responses = me.responses ++ [m] ∧ IsResponse m job.invokeId) ∧
    ∀ work msg me', hdrType msg.data ≠ lxcomRequest →
      step hd me (.receive work msg) = some me' → me'.responses = me.responses := by
  have hledger : Ledger 0 me := by
    refine h.invariant (Ledger 0) ?_ fun s a t hs ha hst => hs.step ha hst
    obtain ⟨hreceived, hjobs, hresponses⟩ := hstart
    exact ⟨by simp [hreceived, hjobs, hresponses], by simp [hresponses], by simp [hjobs]⟩
  refine ⟨⟨by simpa using hledger.balanced, hledger.responses⟩, ?_, ?_⟩
  · intro j job hj env errInvoke bo oo hbo hoo
    have hid := hledger.ids job (List.mem_of_getElem? hj)
    obtain ⟨me', hfinish, hans⟩ := finish_job hd hj hid env errInvoke hbo hoo
    exact ⟨me', hfinish, hans.responses⟩
  · intro work msg me' htype hstep
    simp only [Serve.step] at hstep
    split_ifs at hstep
    cases hstep
    exact (receive_other htype work).responses

end Steps

def sampleEndpoint : Endpoint where
  sock := localSock
  table := sampleTable
  qlInvokes := []
  bDone := false
  firstShot := true
  vsock := false
  closeOnOTEmpty := false
  jobs := []
  received := []
  responses := []

def sampleRequest (id handle : Nat) : Inbound where
  data := putWord (putWord (putWord (putWord (fun _ => 0) 0 4 24) 4 4 lxcomRequest) 8 4 id) 12 4 handle
  fds := []
  env := healthyEnv
  bufResv := 0
  specificInvoke := true

def sampleActions : List Action :=
  [.receive true (sampleRequest 21 3), .receive true (sampleRequest 22 5), .finish 0 healthyEnv 0 [] []]

instance (me : Endpoint) (a : Action) : Decidable (Allocated me a) :=
  match a with
  | .receive work msg => inferInstanceAs (Decidable (hdrType msg.data = lxcomRequest → work = true))
  | .finish .. | .invoke .. => inferInstanceAs (Decidable True)

theorem one_response_sample :
    ∃ me, Run.execIf (step sampleHandles) Allocated sampleEndpoint sampleActions = some me ∧
      (me.responses.map hdrInvokeId : Multiset Nat) + me.jobs.map Job.invokeId = me.received := by
  obtain ⟨me, hexec, hrun⟩ := Run.exists_guarded (step sampleHandles) Allocated sampleEndpoint
    sampleActions (by decide)
  exact ⟨me, hexec, (one_response ⟨rfl, rfl, rfl⟩ hrun).1.1⟩

theorem request_dropped :
    ∃ me ∈ Run.exec (step sampleHandles) sampleEndpoint [.receive false (sampleRequest 21 3)],
      me.received = [21] ∧ me.jobs.length = 0 ∧ me.responses.length = 0 := by
  decide

end Serve

end MinkIpc
