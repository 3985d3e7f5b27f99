import MinkIpc.Run
import MinkIpc.Serve
import MinkIpc.TwoParty

/-! The protocol version of a connection. Each side keeps the version to itself, and every message
is encoded and decoded under the version its sender or receiver has at that moment. -/

namespace MinkIpc.VersionSync

open Bytes TwoParty List Option
open Serve (verLocal ctlCounts)

def verUninitialized : Nat := 0

def verLegacy : Nat := 1 * 65536

/-- The messages of a connection, with the counts of those with arguments. `sync` is the request to
the control handle, `ack` its success and `refusal` its error. -/
inductive Body
  | sync (clientVersion : Nat)
  | ack (ackVersion : Nat)
  | refusal
  | request (k : Nat)
  | success (k : Nat)
  | error
  deriving DecidableEq, Repr

def Body.objects : Body → Nat
  | .request k => numOI k
  | .success k => numOO k
  | _ => 0

structure Message where
  body : Body
  encoded : Nat
  deriving DecidableEq, Repr

structure Decode where
  body : Body
  encoded : Nat
  decoded : Nat
  deriving DecidableEq, Repr

/-- A request being served: a version sync past `ackCtlInfo`, or an invocation of a target. -/
inductive Job
  | ack (ackVersion : Nat)
  | invoke (k : Nat)
  deriving DecidableEq, Repr

/-- `forwarder` tells whether somebody holds a forwarder of the connection; only such an object
and the version sync call `MinkSocket_invoke`. -/
structure Endpoint where
  version : Nat
  alive : Bool
  forwarder : Bool
  jobs : List Job
  inbox : List Message
  deriving Repr

/-- How far `connectService` has come: before the sync, waiting for its answer, returned from
it, and past the construction of the first forwarder. -/
inductive Phase
  | connecting
  | syncing
  | synced (ackVersion : Option Nat)
  | ready
  deriving DecidableEq, Repr

structure State where
  ends : Side → Endpoint
  phase : Phase
  decodes : List Decode

def start : State :=
  ⟨fun _ => ⟨verUninitialized, true, false, [], []⟩, .connecting, []⟩

def ackVersion (clientVersion : Nat) : Nat :=
  if verLocal < clientVersion then verLocal else clientVersion

namespace State

def update (s : State) (side : Side) (f : Endpoint → Endpoint) : State :=
  { s with ends := modify s.ends side f }

def send (s : State) (side : Side) (body : Body) : State :=
  s.update side.peer fun e => { e with inbox := e.inbox ++ [⟨body, (s.ends side).version⟩] }

def decode (s : State) (side : Side) (i : Nat) : Option (Body × State) :=
  if (s.ends side).alive then
    (s.ends side).inbox[i]?.map fun m =>
      (m.body, { s.update side fun e => { e with inbox := e.inbox.eraseIdx i } with
        decodes := s.decodes ++ [⟨m.body, m.encoded, (s.ends side).version⟩] })
  else none

def gain (s : State) (side : Side) (objects : Nat) : State :=
  s.update side fun e => { e with forwarder := e.forwarder || objects != 0 }

def begin (s : State) (side : Side) (job : Job) : State :=
  s.update side fun e => { e with jobs := e.jobs ++ [job] }

def syncCtlInfo (s : State) (sent : Bool) : Option State :=
  if s.phase = .connecting then
    if (s.ends .left).alive && sent then
      some { s.send .left (.sync verLocal) with phase := .syncing }
    else some { s with phase := .synced none }
  else none

/-- `recvInvocationRequest`, up to the invocation of the target. The server takes up the version
in `ackCtlInfo`, before it answers. `ok` is false where an allocation, the unmarshalling or the
lookup of the target fails. -/
def recvInvocationRequest (s : State) (side : Side) (i : Nat) (ok : Bool) : Option State :=
  (s.decode side i).bind fun (body, s) =>
    match body with
    | .sync clientVersion =>
      if ok then
        some ((s.update side fun e => { e with version := ackVersion clientVersion }).begin side
          (.ack (ackVersion clientVersion)))
      else some (s.send side .refusal)
    | .request k =>
      if ok then some ((s.gain side (numOI k)).begin side (.invoke k)) else some (s.send side .error)
    | _ => none

/-- `sendInvokeSuccess` and, where the answer cannot be encoded or sent or the target reports an
error, `sendInvokeError`. -/
def respond (s : State) (side : Side) (j : Nat) (ok : Bool) : Option State :=
  (s.ends side).jobs[j]?.map fun job =>
    let s := s.update side fun e => { e with jobs := e.jobs.eraseIdx j }
    match job with
    | .ack v => s.send side (if ok then .ack v else .refusal)
    | .invoke k => s.send side (if ok then .success k else .error)

def recvInvocationResponse (s : State) (side : Side) (i : Nat) (ok : Bool) : Option State :=
  (s.decode side i).bind fun (body, s) =>
    match body with
    | .ack v =>
      if s.phase = .syncing then some { s with phase := .synced (if ok then some v else none) }
      else none
    | .refusal => if s.phase = .syncing then some { s with phase := .synced none } else none
    | .success k => some (s.gain side (if ok then numOO k else 0))
    | .error => some s
    | _ => none

/-- The rest of `connectService`: the version that was acknowledged or, if the sync failed, the
legacy one; and the first forwarder. -/
def connectService (s : State) : Option State :=
  match s.phase with
  | .synced v =>
    some { s.update .left fun e => { e with version := v.getD verLegacy, forwarder := true } with
      phase := .ready }
  | _ => none

def close (s : State) (side : Side) : State :=
  { s.update side fun e => { e with alive := false } with
    phase := if side = .left ∧ s.phase = .syncing then .synced none else s.phase }

end State

inductive Action
  | syncCtlInfo (sent : Bool)
  | recvInvocationRequest (side : Side) (i : Nat) (ok : Bool)
  | respond (side : Side) (j : Nat) (ok : Bool)
  | recvInvocationResponse (side : Side) (i : Nat) (ok : Bool)
  | connectService
  | attachObject (side : Side)
  | invoke (side : Side) (k : Nat)
  | lose (side : Side) (i : Nat)
  | close (side : Side)
  deriving DecidableEq, Repr

def step (s : State) : Action → Option State
  | .syncCtlInfo sent => s.syncCtlInfo sent
  | .recvInvocationRequest side i ok => s.recvInvocationRequest side i ok
  | .respond side j ok => s.respond side j ok
  | .recvInvocationResponse side i ok => s.recvInvocationResponse side i ok
  | .connectService => s.connectService
  | .attachObject side => some (s.update side fun e => { e with forwarder := true })
  | .invoke side k =>
    if (s.ends side).alive ∧ (s.ends side).forwarder then some (s.send side (.request k)) else none
  | .lose side i => some (s.update side fun e => { e with inbox := e.inbox.eraseIdx i })
  | .close side => some (s.close side)

def Job.isAck : Job → Bool
  | .ack _ => true
  | .invoke _ => false

def Body.isAck : Body → Bool
  | .ack _ => true
  | _ => false

/-- No error is sent in the place of an acknowledgement, an acknowledgement that arrives is
unmarshalled, and no forwarder is made by hand before the first one of the connection. -/
def Orderly (s : State) : Action → Prop
  | .respond side j ok => (s.ends side).jobs[j]?.all fun job => ok || !job.isAck
  | .recvInvocationResponse side i ok => (s.ends side).inbox[i]?.all fun m => ok || !m.body.isAck
  | .attachObject _ => s.phase = .ready
  | _ => True

instance (s : State) (a : Action) : Decidable (Orderly s a) := by
  cases a <;> unfold Orderly <;> infer_instance

/-- The versions differ only in the words that follow a memory object. -/
def Decode.SameFormat (d : Decode) : Prop :=
  d.body.objects = 0 ∨ (verIndirectMem ≤ d.encoded ↔ verIndirectMem ≤ d.decoded)

section Format

variable {sock sock' : MinkSocket} (hid : sock.id = sock'.id)
  (hformat : verIndirectMem ≤ sock.version ↔ verIndirectMem ≤ sock'.version)

include hformat in
theorem countNumExtraArgsInbound_format (a : Nat → Arg) (n ii : Nat) :
    countNumExtraArgsInbound sock a n ii = countNumExtraArgsInbound sock' a n ii := by
  induction n generalizing ii with
  | zero => rfl
  | succ n ih => simp only [countNumExtraArgsInbound, hformat, ih]

include hformat in
theorem marshalInMsforwarder_format (table : Table) (a : Nat → Arg) (objFlag : Nat) (st : InState) :
    marshalInMsforwarder sock table a objFlag st = marshalInMsforwarder sock' table a objFlag st := by
  simp only [marshalInMsforwarder, hformat]

include hid hformat in
theorem marshalInLocalGenericMem_format (env : Env) (a : Nat → Arg) (st : InState) :
    marshalInLocalGenericMem sock env a st = marshalInLocalGenericMem sock' env a st := by
  simp only [marshalInLocalGenericMem, hid, hformat]

include hid hformat in
theorem marshalInCalleeObject_format (table : Table) (env : Env) (a : Nat → Arg) (st : InState) :
    marshalInCalleeObject sock table env a st = marshalInCalleeObject sock' table env a st := by
  simp only [marshalInCalleeObject, marshalInMsforwarder_format hformat,
    marshalInLocalGenericMem_format hid hformat, marshalInRemoteGenericMem, marshalInGenericObject,
    hid]

include hid hformat in
theorem marshalInCallerObject_format (table : Table) (env : Env) (a : Nat → Arg) (st : InState) :
    marshalInCallerObject sock table env a st = marshalInCallerObject sock' table env a st := by
  simp only [marshalInCallerObject, marshalInMsforwarder_format hformat,
    marshalInLocalGenericMem_format hid hformat, marshalInRemoteGenericMem, marshalInGenericObject,
    hid]

include hid hformat in
theorem marshalInCallee_format (table : Table) (env : Env) (data : Mem) (fds : List Int)
    (bufResv sizeResv : Nat) :
    marshalInCallee sock table env data fds bufResv sizeResv =
      marshalInCallee sock' table env data fds bufResv sizeResv := by
  have hextra : reqExtra sock data = reqExtra sock' data :=
    countNumExtraArgsInbound_format hformat _ _ _
  have hobject : marshalInCalleeObject sock table env (argObj data reqArgs) =
      marshalInCalleeObject sock' table env (argObj data reqArgs) :=
    funext (marshalInCalleeObject_format hid hformat table env _)
  unfold marshalInCallee sizeReq marshalInCalleeObjects
  rw [hextra, hobject]

include hid hformat in
theorem marshalInCaller_format (table : Table) (env : Env) (data : Mem) (fds : List Int) (k : Nat)
    (bo : List OutBuffer) :
    marshalInCaller sock table env data fds k bo = marshalInCaller sock' table env data fds k bo := by
  have hextra : succExtra sock data k = succExtra sock' data k :=
    countNumExtraArgsInbound_format hformat _ _ _
  have hobject : marshalInCallerObject sock table env (argObj data succArgs) =
      marshalInCallerObject sock' table env (argObj data succArgs) :=
    funext (marshalInCallerObject_format hid hformat table env _)
  unfold marshalInCaller sizeSucc marshalInCallerObjects
  rw [hextra, hobject]

theorem marshalInCallee_noObjects {data : Mem} (hk : numOI (reqK data) = 0) (table : Table)
    (env : Env) (fds : List Int) (bufResv sizeResv : Nat) :
    marshalInCallee sock table env data fds bufResv sizeResv =
      marshalInCallee sock' table env data fds bufResv sizeResv := by
  simp only [marshalInCallee, marshalInCalleeObjects, sizeReq, reqExtra, hk,
    countNumExtraArgsInbound, replicate_zero, Outcome.forEach]

theorem marshalInCaller_noObjects {k : Nat} (hk : numOO k = 0) (table : Table) (env : Env)
    (data : Mem) (fds : List Int) (bo : List OutBuffer) :
    marshalInCaller sock table env data fds k bo = marshalInCaller sock' table env data fds k bo := by
  simp only [marshalInCaller, marshalInCallerObjects, sizeSucc, succExtra, hk,
    countNumExtraArgsInbound, replicate_zero, Outcome.forEach]

/-- The message is unmarshalled as it would be under the version of its sender. An error message
has no arguments. -/
def Decode.AsEncoded (d : Decode) : Prop :=
  let callee (k : Nat) : Prop := ∀ (sock : MinkSocket) table env data fds bufResv sizeResv,
    reqK data = k →
    marshalInCallee { sock with version := d.decoded } table env data fds bufResv sizeResv =
      marshalInCallee { sock with version := d.encoded } table env data fds bufResv sizeResv
  let caller (k : Nat) : Prop := ∀ (sock : MinkSocket) table env data fds bo,
    marshalInCaller { sock with version := d.decoded } table env data fds k bo =
      marshalInCaller { sock with version := d.encoded } table env data fds k bo
  match d.body with
  | .sync _ => callee ctlCounts
  | .ack _ => caller ctlCounts
  | .request k => callee k
  | .success k => caller k
  | .refusal | .error => True

theorem Decode.SameFormat.asEncoded {d : Decode} (h : d.SameFormat) : d.AsEncoded := by
  obtain ⟨body, encoded, decoded⟩ := d
  cases body with
  | sync v =>
    rintro sock table env data fds bufResv sizeResv hk
    exact marshalInCallee_noObjects (hk ▸ by decide) _ _ _ _ _
  | ack v => exact fun sock table env data fds bo => marshalInCaller_noObjects (by decide) _ _ _ _ _
  | request k =>
    rintro sock table env data fds bufResv sizeResv rfl
    rcases h with hobjects | hformat
    · exact marshalInCallee_noObjects hobjects _ _ _ _ _
    · refine marshalInCallee_format ?_ ?_ _ _ _ _ _ _
      · rfl
      · exact hformat.symm
  | success k =>
    intro sock table env data fds bo
    rcases h with hobjects | hformat
    · exact marshalInCaller_noObjects hobjects _ _ _ _ _
    · refine marshalInCaller_format ?_ ?_ _ _ _ _ _ _
      · rfl
      · exact hformat.symm
  | refusal | error => exact trivial

end Format

section Invariant

/-- The server has not taken up the new format. -/
def Old (s : State) : Prop := ¬ verIndirectMem ≤ (s.ends .right).version

/-- Until the sync is over its messages are alone: the request, the job it becomes and the answer,
one at a time. The server's version is old until it has a job, and stays so if it refuses. -/
structure Before (s : State) : Prop where
  phase : s.phase ≠ .ready
  forwarder : ∀ side, (s.ends side).forwarder = false
  answers : ∀ m ∈ (s.ends .left).inbox,
    m.body = .refusal ∧ Old s ∨ m.body = .ack (s.ends .right).version
  requests : ∀ m ∈ (s.ends .right).inbox, m.body = .sync verLocal ∧ Old s
  idle : (s.ends .left).jobs = []
  jobs : ∀ j ∈ (s.ends .right).jobs, j = .ack (s.ends .right).version
  single : (s.ends .right).inbox.length + (s.ends .right).jobs.length +
    (s.ends .left).inbox.length ≤ if s.phase = .syncing then 1 else 0
  synced : ∀ v, s.phase = .synced (some v) → v = (s.ends .right).version
  failed : s.phase = .connecting ∨ s.phase = .synced none → Old s

structure Closed (s : State) : Prop where
  dead : (s.ends .left).alive = false
  idle : (s.ends .left).jobs = []
  requests : ∀ m ∈ (s.ends .right).inbox, m.body.objects = 0

structure After (s : State) : Prop where
  phase : s.phase = .ready
  agree : ∀ side, verIndirectMem ≤ (s.ends side).version ↔ verIndirectMem ≤ (s.ends side.peer).version
  inbox : ∀ side, ∀ m ∈ (s.ends side).inbox, (∀ v, m.body ≠ .sync v) ∧
    (verIndirectMem ≤ m.encoded ↔ verIndirectMem ≤ (s.ends side).version)

structure Agreement (s : State) : Prop where
  decodes : ∀ d ∈ s.decodes, d.SameFormat
  stage : Before s ∨ Closed s ∨ After s

theorem agreement_start : Agreement start := by
  refine ⟨by simp [start], .inl ⟨by decide, fun _ => rfl, ?_, ?_, rfl, ?_, by decide, ?_, ?_⟩⟩
  all_goals simp [start, Old, verUninitialized, verIndirectMem]

variable {s t : State} {side : Side} {i j k : Nat} {ok : Bool} {body : Body}

theorem decode_eq_some (h : s.decode side i = some (body, t)) :
    (s.ends side).alive ∧ ∃ m, (s.ends side).inbox[i]? = some m ∧ m.body = body ∧
      t = { s.update side fun e => { e with inbox := e.inbox.eraseIdx i } with
        decodes := s.decodes ++ [⟨m.body, m.encoded, (s.ends side).version⟩] } := by
  unfold State.decode at h
  split_ifs at h with halive
  obtain ⟨m, hm, heq⟩ := map_eq_some_iff.mp h
  cases heq
  exact ⟨halive, m, hm, rfl, rfl⟩

@[simp] theorem ends_update (side' : Side) (f : Endpoint → Endpoint) :
    (s.update side f).ends side' = if side' = side then f (s.ends side) else s.ends side' := by
  simp [State.update, TwoParty.modify, Function.update_apply]

@[simp] theorem phase_update (f : Endpoint → Endpoint) : (s.update side f).phase = s.phase := rfl

section Closed

section

variable (h : Closed s)
include h

theorem Closed.of (hdead : (t.ends .left).alive = false)
    (hidle : (t.ends .left).jobs = (s.ends .left).jobs)
    (hinbox : ∀ m ∈ (t.ends .right).inbox, m ∈ (s.ends .right).inbox) : Closed t :=
  ⟨hdead, hidle.trans h.idle, fun m hm => h.requests m (hinbox m hm)⟩

theorem Closed.send_right : Closed (s.send .right body) :=
  h.of h.dead (by simp [State.send, Side.peer]) fun _ hm => hm

theorem Closed.update_right {f : Endpoint → Endpoint}
    (hinbox : ∀ m ∈ (f (s.ends .right)).inbox, m ∈ (s.ends .right).inbox) :
    Closed (s.update .right f) :=
  h.of h.dead (by simp) hinbox

theorem Closed.update_left {f : Endpoint → Endpoint} (hdead : (f (s.ends .left)).alive = false)
    (hidle : (f (s.ends .left)).jobs = (s.ends .left).jobs) : Closed (s.update .left f) :=
  h.of hdead hidle fun _ hm => hm

theorem Closed.with (phase : Phase) (decodes : List Decode) :
    Closed { s with phase := phase, decodes := decodes } :=
  h.of h.dead rfl fun _ hm => hm

theorem Closed.decode (hd : s.decode side i = some (body, t)) : side = .right ∧ Closed t := by
  obtain ⟨halive, m, -, -, rfl⟩ := decode_eq_some hd
  cases side with
  | left => simp [h.dead] at halive
  | right => exact ⟨rfl, (h.update_right fun _ hm => mem_of_mem_eraseIdx hm).with _ _⟩

theorem Closed.begin_right (job : Job) : Closed (s.begin .right job) :=
  h.update_right fun _ hm => hm

theorem Closed.recvInvocationRequest
    (hs : s.recvInvocationRequest side i ok = some t) : Closed t := by
  obtain ⟨⟨body, u⟩, hdec, hs⟩ := bind_eq_some_iff.mp hs
  obtain ⟨rfl, hu⟩ := h.decode hdec
  cases body with
  | sync v | request k =>
    cases ok
    · cases hs
      exact hu.send_right
    · cases hs
      exact (hu.update_right fun _ hm => hm).begin_right _
  | _ => cases hs

theorem Closed.recvInvocationResponse
    (hs : s.recvInvocationResponse side i ok = some t) : Closed t := by
  obtain ⟨⟨body, u⟩, hdec, hs⟩ := bind_eq_some_iff.mp hs
  obtain ⟨rfl, hu⟩ := h.decode hdec
  cases body with
  | sync v | request k => cases hs
  | ack v | refusal =>
    obtain ⟨-, hs⟩ := ite_none_right_eq_some.mp hs
    cases hs
    exact hu.with _ _
  | success k =>
    cases hs
    exact hu.update_right fun _ hm => hm
  | error =>
    cases hs
    exact hu

theorem Closed.respond (hs : s.respond side j ok = some t) : Closed t := by
  obtain ⟨job, hjob, rfl⟩ := map_eq_some_iff.mp hs
  cases side with
  | left => simp [h.idle] at hjob
  | right =>
    have hu := h.update_right (f := fun e => { e with jobs := e.jobs.eraseIdx j }) fun _ hm => hm
    cases job <;> exact hu.send_right

theorem Closed.step {a : Action} (hs : step s a = some t) : Closed t := by
  cases a with
  | syncCtlInfo sent =>
    simp only [VersionSync.step, State.syncCtlInfo, h.dead, Bool.false_and, Bool.false_eq_true,
      if_false] at hs
    split_ifs at hs
    cases hs
    exact h.with _ _
  | recvInvocationRequest side i ok => exact h.recvInvocationRequest hs
  | respond side j ok => exact h.respond hs
  | recvInvocationResponse side i ok => exact h.recvInvocationResponse hs
  | connectService =>
    simp only [VersionSync.step, State.connectService] at hs
    split at hs
    · cases hs
      exact (h.update_left h.dead rfl).with _ _
    · cases hs
  | attachObject side =>
    cases hs
    cases side
    · exact h.update_left h.dead rfl
    · exact h.update_right fun _ hm => hm
  | invoke side k =>
    simp only [VersionSync.step] at hs
    split_ifs at hs with hsend
    cases hs
    cases side with
    | left => simp [h.dead] at hsend
    | right => exact h.send_right
  | lose side i =>
    cases hs
    cases side
    · exact h.update_left h.dead rfl
    · exact h.update_right fun _ hm => mem_of_mem_eraseIdx hm
  | close side =>
    cases hs
    cases side
    · exact (h.update_left rfl rfl).with _ _
    · exact (h.update_right fun _ hm => hm).with _ _

end

end Closed

section After

section

variable (h : After s)
include h

theorem After.of (hphase : t.phase = s.phase)
    (hversion : ∀ side, (t.ends side).version = (s.ends side).version)
    (hinbox : ∀ side, ∀ m ∈ (t.ends side).inbox, m ∈ (s.ends side).inbox ∨
      (∀ v, m.body ≠ .sync v) ∧ m.encoded = (s.ends side.peer).version) : After t := by
  refine ⟨hphase.trans h.phase, fun side => ?_, fun side m hm => ?_⟩
  · rw [hversion, hversion]
    exact h.agree side
  · rw [hversion]
    rcases hinbox side m hm with hm | ⟨hbody, hm⟩
    · exact h.inbox side m hm
    · rw [hm]
      exact ⟨hbody, (h.agree side).symm⟩

theorem After.send (hbody : ∀ v, body ≠ .sync v) : After (s.send side body) := by
  refine h.of rfl (fun side' => ?_) (fun side' m hm => ?_)
  · simp only [State.send, ends_update]
    split_ifs with heq
    · rw [heq]
    · rfl
  · simp only [State.send, ends_update] at hm
    split_ifs at hm with heq
    · rcases mem_append.mp hm with hm | hm
      · exact .inl (heq ▸ hm)
      · obtain rfl := mem_singleton.mp hm
        exact .inr ⟨hbody, by rw [heq, Side.peer_peer]⟩
    · exact .inl hm

theorem After.update {f : Endpoint → Endpoint}
    (hversion : (f (s.ends side)).version = (s.ends side).version)
    (hinbox : ∀ m ∈ (f (s.ends side)).inbox, m ∈ (s.ends side).inbox) :
    After (s.update side f) := by
  refine h.of rfl (fun side' => ?_) (fun side' m hm => ?_)
  · rw [ends_update]
    split_ifs with heq
    · rw [heq, hversion]
    · rfl
  · rw [ends_update] at hm
    split_ifs at hm with heq
    · exact .inl (heq ▸ hinbox m hm)
    · exact .inl hm

theorem After.with (decodes : List Decode) : After { s with decodes := decodes } :=
  ⟨h.phase, h.agree, h.inbox⟩

theorem After.decode (hd : s.decode side i = some (body, t)) : (∀ v, body ≠ .sync v) ∧ After t := by
  obtain ⟨-, m, hm, rfl, rfl⟩ := decode_eq_some hd
  exact ⟨(h.inbox side m (mem_of_getElem? hm)).1,
    (h.update rfl fun _ hm => mem_of_mem_eraseIdx hm).with _⟩

theorem After.recvInvocationRequest
    (hs : s.recvInvocationRequest side i ok = some t) : After t := by
  obtain ⟨⟨body, u⟩, hdec, hs⟩ := bind_eq_some_iff.mp hs
  obtain ⟨hbody, hu⟩ := h.decode hdec
  cases body with
  | sync v => exact absurd rfl (hbody v)
  | request k =>
    cases ok
    · cases hs
      exact hu.send nofun
    · cases hs
      have hgain : After (u.gain side (numOI k)) := hu.update rfl fun _ hm => hm
      exact hgain.update rfl fun _ hm => hm
  | _ => cases hs

theorem After.recvInvocationResponse
    (hs : s.recvInvocationResponse side i ok = some t) : After t := by
  obtain ⟨⟨body, u⟩, hdec, hs⟩ := bind_eq_some_iff.mp hs
  obtain ⟨-, hu⟩ := h.decode hdec
  cases body with
  | sync v | request k => cases hs
  | ack v | refusal =>
    obtain ⟨hsyncing, -⟩ := ite_none_right_eq_some.mp hs
    cases hu.phase.symm.trans hsyncing
  | success k =>
    cases hs
    exact hu.update rfl fun _ hm => hm
  | error =>
    cases hs
    exact hu

theorem After.respond (hs : s.respond side j ok = some t) : After t := by
  obtain ⟨job, -, rfl⟩ := map_eq_some_iff.mp hs
  have hu : After (s.update side fun e => { e with jobs := e.jobs.eraseIdx j }) :=
    h.update rfl fun _ hm => hm
  cases job <;> cases ok <;> exact hu.send nofun

theorem After.step {a : Action} (hs : step s a = some t) : After t := by
  cases a with
  | syncCtlInfo sent => simp [VersionSync.step, State.syncCtlInfo, h.phase] at hs
  | recvInvocationRequest side i ok => exact h.recvInvocationRequest hs
  | respond side j ok => exact h.respond hs
  | recvInvocationResponse side i ok => exact h.recvInvocationResponse hs
  | connectService => simp [VersionSync.step, State.connectService, h.phase] at hs
  | attachObject side =>
    cases hs
    exact h.update rfl fun _ hm => hm
  | invoke side k =>
    simp only [VersionSync.step] at hs
    split_ifs at hs
    cases hs
    exact h.send nofun
  | lose side i =>
    cases hs
    exact h.update rfl fun _ hm => mem_of_mem_eraseIdx hm
  | close side =>
    cases hs
    have hu : After (s.update side fun e => { e with alive := false }) :=
      h.update rfl fun _ hm => hm
    refine hu.of ?_ (fun _ => rfl) fun _ _ hm => .inl hm
    simp [State.close, h.phase]

end

end After

section Before

structure Bare (s : State) : Prop where
  forwarder : ∀ side, (s.ends side).forwarder = false
  inbox : ∀ side, (s.ends side).inbox = []
  jobs : ∀ side, (s.ends side).jobs = []

theorem Bare.before (h : Bare s) (hphase : s.phase ≠ .ready)
    (hsynced : ∀ v, s.phase = .synced (some v) → v = (s.ends .right).version)
    (hfailed : s.phase = .connecting ∨ s.phase = .synced none → Old s) : Before s := by
  refine ⟨hphase, h.forwarder, ?_, ?_, h.jobs _, ?_, ?_, hsynced, hfailed⟩
  all_goals simp [h.inbox, h.jobs]

theorem Bare.of (hforwarder : ∀ side, (s.ends side).forwarder = false)
    (hidle : (s.ends .left).jobs = [])
    (hnone : (s.ends .right).inbox.length + (s.ends .right).jobs.length +
      (s.ends .left).inbox.length = 0) : Bare s := by
  simp only [Nat.add_eq_zero_iff, length_eq_zero_iff] at hnone
  obtain ⟨⟨hright, hjobs⟩, hleft⟩ := hnone
  refine ⟨hforwarder, fun side => ?_, fun side => ?_⟩ <;> cases side <;> assumption

theorem Before.bare (h : Before s) (hphase : s.phase ≠ .syncing) : Bare s := by
  have hsingle := h.single
  rw [if_neg hphase] at hsingle
  exact .of h.forwarder h.idle (Nat.le_zero.mp hsingle)

theorem Before.alone (h : Before s)
    (hpos : 0 < (s.ends .right).inbox.length + (s.ends .right).jobs.length +
      (s.ends .left).inbox.length) : s.phase = .syncing ∧
      (s.ends .right).inbox.length + (s.ends .right).jobs.length +
        (s.ends .left).inbox.length = 1 := by
  have hsingle := h.single
  split_ifs at hsingle with hphase
  · exact ⟨hphase, by omega⟩
  · omega

theorem Before.decode (h : Before s) (hd : s.decode side i = some (body, t)) :
    t.phase = .syncing ∧ Bare t ∧ (side = .right ∧ body = .sync verLocal ∧ Old t ∨
      side = .left ∧ (body = .refusal ∧ Old t ∨ body = .ack (t.ends .right).version)) := by
  obtain ⟨-, m, hm, rfl, rfl⟩ := decode_eq_some hd
  obtain ⟨hi, -⟩ := List.getElem?_eq_some_iff.mp hm
  have hlen := length_eraseIdx_of_lt hi
  have hmem := mem_of_getElem? hm
  cases side with
  | left =>
    obtain ⟨hphase, hone⟩ := h.alone (by omega)
    refine ⟨hphase, .of (fun side => ?_) h.idle ?_, .inr ⟨rfl, ?_⟩⟩
    · cases side <;> simp [h.forwarder]
    · show (s.ends .right).inbox.length + (s.ends .right).jobs.length +
        ((s.ends .left).inbox.eraseIdx i).length = 0
      omega
    · simpa [Old] using h.answers m hmem
  | right =>
    obtain ⟨hphase, hone⟩ := h.alone (by omega)
    refine ⟨hphase, .of (fun side => ?_) h.idle ?_, .inl ⟨rfl, ?_⟩⟩
    · cases side <;> simp [h.forwarder]
    · show ((s.ends .right).inbox.eraseIdx i).length + (s.ends .right).jobs.length +
        (s.ends .left).inbox.length = 0
      omega
    · simpa [Old] using h.requests m hmem

theorem Bare.ask (h : Bare s) (hold : Old s) :
    Before { s.send .left (.sync verLocal) with phase := .syncing } := by
  refine ⟨nofun, fun side => ?_, ?_, ?_, ?_, ?_, ?_, nofun, nofun⟩
  · cases side <;> simp [State.send, Side.peer, h.forwarder]
  · simp [State.send, Side.peer, h.inbox]
  · simpa [Old, State.send, Side.peer, h.inbox] using hold
  all_goals simp [State.send, Side.peer, h.inbox, h.jobs]

theorem Bare.take (h : Bare s) (hphase : s.phase = .syncing) (v : Nat) :
    Before ((s.update .right fun e => { e with version := v }).begin .right (.ack v)) := by
  refine ⟨by simp [State.begin, hphase], fun side => ?_, ?_, ?_, ?_, ?_, ?_, ?_, ?_⟩
  · cases side <;> simp [State.begin, h.forwarder]
  all_goals simp [State.begin, h.inbox, h.jobs, hphase]

theorem Bare.answer (h : Bare s) (hphase : s.phase = .syncing)
    (hbody : body = .refusal ∧ Old s ∨ body = .ack (s.ends .right).version) :
    Before (s.send .right body) := by
  refine ⟨by simp [State.send, hphase], fun side => ?_, ?_, ?_, ?_, ?_, ?_, ?_, ?_⟩
  · cases side <;> simp [State.send, Side.peer, h.forwarder]
  · simpa [Old, State.send, Side.peer, h.inbox] using hbody
  all_goals simp [State.send, Side.peer, h.inbox, h.jobs, hphase]

theorem Bare.result (h : Bare s) {v : Option Nat}
    (hv : ∀ w, v = some w → w = (s.ends .right).version) (hold : v = none → Old s) :
    Before { s with phase := .synced v } := by
  refine Bare.before ⟨h.forwarder, h.inbox, h.jobs⟩ nofun (fun w hw => hv w ?_) fun hv => hold ?_
  · exact Phase.synced.inj hw
  · simpa using hv

section

variable (h : Before s)
include h

theorem Before.recvInvocationRequest
    (hs : s.recvInvocationRequest side i ok = some t) : Before t := by
  obtain ⟨⟨body, u⟩, hdec, hs⟩ := bind_eq_some_iff.mp hs
  obtain ⟨hphase, hu, ⟨rfl, rfl, hold⟩ | ⟨rfl, ⟨rfl, -⟩ | rfl⟩⟩ := h.decode hdec
  · cases ok
    · cases hs
      exact hu.answer hphase (.inl ⟨rfl, hold⟩)
    · cases hs
      exact hu.take hphase _
  · cases hs
  · cases hs

theorem Before.recvInvocationResponse (hok : Orderly s (.recvInvocationResponse side i ok))
    (hs : s.recvInvocationResponse side i ok = some t) : Before t := by
  obtain ⟨⟨body, u⟩, hdec, hs⟩ := bind_eq_some_iff.mp hs
  obtain ⟨-, m, hm, hbody, -⟩ := decode_eq_some hdec
  obtain ⟨hphase, hu, ⟨rfl, rfl, -⟩ | ⟨rfl, ⟨rfl, hold⟩ | rfl⟩⟩ := h.decode hdec
  · cases hs
  · obtain ⟨-, hs⟩ := ite_none_right_eq_some.mp hs
    cases hs
    exact hu.result nofun fun _ => hold
  · obtain ⟨-, hs⟩ := ite_none_right_eq_some.mp hs
    cases hs
    have htaken : ok = true := by simpa [Orderly, hm, hbody, Body.isAck] using hok
    rw [htaken, if_pos rfl]
    exact hu.result (fun w hw => (Option.some.inj hw).symm) nofun

theorem Before.respond (hok : Orderly s (.respond side j ok))
    (hs : s.respond side j ok = some t) : Before t := by
  obtain ⟨job, hjob, rfl⟩ := map_eq_some_iff.mp hs
  cases side with
  | left => simp [h.idle] at hjob
  | right =>
    obtain rfl := h.jobs job (mem_of_getElem? hjob)
    obtain ⟨hj, -⟩ := List.getElem?_eq_some_iff.mp hjob
    obtain ⟨hphase, hone⟩ := h.alone (by omega)
    have hbare : Bare (s.update .right fun e => { e with jobs := e.jobs.eraseIdx j }) := by
      refine .of (fun side => ?_) h.idle ?_
      · cases side <;> simp [h.forwarder]
      · show (s.ends .right).inbox.length + ((s.ends .right).jobs.eraseIdx j).length +
          (s.ends .left).inbox.length = 0
        rw [length_eraseIdx_of_lt hj]
        omega
    have hsent : ok = true := by simpa [Orderly, hjob, Job.isAck] using hok
    exact hbare.answer hphase (.inr (by simp [hsent]))

theorem Before.shrink (hphase : t.phase = s.phase)
    (hforwarder : ∀ side, (t.ends side).forwarder = (s.ends side).forwarder)
    (hjobs : ∀ side, (t.ends side).jobs = (s.ends side).jobs)
    (hversion : (t.ends .right).version = (s.ends .right).version)
    (hinbox : ∀ side, ((t.ends side).inbox).Sublist (s.ends side).inbox) : Before t := by
  refine ⟨hphase ▸ h.phase, fun side => (hforwarder side).trans (h.forwarder side), ?_, ?_,
    (hjobs _).trans h.idle, ?_, ?_, ?_, ?_⟩
  · rw [Old, hversion]
    exact fun m hm => h.answers m ((hinbox _).subset hm)
  · rw [Old, hversion]
    exact fun m hm => h.requests m ((hinbox _).subset hm)
  · rw [hversion, hjobs]
    exact h.jobs
  · have hsingle := h.single
    have hleft := (hinbox .left).length_le
    have hright := (hinbox .right).length_le
    rw [hphase, hjobs]
    omega
  · rw [hphase, hversion]
    exact h.synced
  · rw [hphase, Old, hversion]
    exact h.failed

theorem Before.lose : Before (s.update side fun e => { e with inbox := e.inbox.eraseIdx i }) := by
  refine h.shrink rfl (fun side' => ?_) (fun side' => ?_) ?_ fun side' => ?_
  · cases side <;> cases side' <;> simp
  · cases side <;> cases side' <;> simp
  · cases side <;> simp
  · rw [ends_update]
    split_ifs with heq
    · rw [heq]
      exact eraseIdx_sublist _ _
    · exact List.Sublist.refl _

theorem Before.close_right : Before (s.close .right) := by
  refine h.shrink (by simp [State.close]) (fun side => ?_) (fun side => ?_) ?_ fun side => ?_
  · cases side <;> simp [State.close]
  · cases side <;> simp [State.close]
  · simp [State.close]
  · cases side <;> simp [State.close]

theorem Before.closed (hdead : (t.ends .left).alive = false)
    (hidle : (t.ends .left).jobs = (s.ends .left).jobs)
    (hinbox : (t.ends .right).inbox = (s.ends .right).inbox) : Closed t := by
  refine ⟨hdead, hidle.trans h.idle, fun m hm => ?_⟩
  rw [(h.requests m (hinbox ▸ hm)).1]
  rfl

theorem Before.connectService (hs : s.connectService = some t) : After t := by
  unfold State.connectService at hs
  split at hs
  · rename_i v hphase
    cases hs
    have hbare := h.bare (by simp [hphase])
    have hagree : verIndirectMem ≤ v.getD verLegacy ↔ verIndirectMem ≤ (s.ends .right).version := by
      cases v with
      | none => exact iff_of_false (by decide) (h.failed (.inr hphase))
      | some v => rw [← h.synced v hphase, getD_some]
    refine ⟨rfl, fun side => ?_, fun side m hm => ?_⟩
    · cases side
      · exact hagree
      · exact hagree.symm
    · cases side <;> simp [hbare.inbox] at hm
  · cases hs

theorem Before.step {a : Action} (hok : Orderly s a) (hs : step s a = some t) :
    Before t ∨ Closed t ∨ After t := by
  by_cases halive : (s.ends .left).alive = true
  swap
  · exact .inr (.inl ((h.closed (Bool.eq_false_iff.mpr halive) rfl rfl).step hs))
  cases a with
  | syncCtlInfo sent =>
    simp only [VersionSync.step, State.syncCtlInfo] at hs
    split_ifs at hs with hphase
    · cases hs
      exact .inl ((h.bare (by simp [hphase])).ask (h.failed (.inl hphase)))
    · cases hs
      exact .inl ((h.bare (by simp [hphase])).result nofun fun _ => h.failed (.inl hphase))
  | recvInvocationRequest side i ok => exact .inl (h.recvInvocationRequest hs)
  | respond side j ok => exact .inl (h.respond hok hs)
  | recvInvocationResponse side i ok => exact .inl (h.recvInvocationResponse hok hs)
  | connectService => exact .inr (.inr (h.connectService hs))
  | attachObject side => exact absurd hok h.phase
  | invoke side k => simp [VersionSync.step, h.forwarder] at hs
  | lose side i =>
    cases hs
    exact .inl h.lose
  | close side =>
    cases hs
    cases side
    · exact .inr (.inl (h.closed rfl rfl rfl))
    · exact .inl h.close_right

end

end Before

theorem Agreement.sameFormat (h : Agreement s) (halive : (s.ends side).alive = true) {m : Message}
    (hm : m ∈ (s.ends side).inbox) :
    Decode.SameFormat ⟨m.body, m.encoded, (s.ends side).version⟩ := by
  rcases h.stage with hb | hc | ha
  · left
    cases side with
    | left => rcases hb.answers m hm with ⟨hbody, -⟩ | hbody <;> rw [hbody] <;> rfl
    | right =>
      rw [(hb.requests m hm).1]
      rfl
  · cases side with
    | left => simp [hc.dead] at halive
    | right => exact .inl (hc.requests m hm)
  · exact .inr (ha.inbox side m hm).2

theorem Agreement.decode (h : Agreement s) (hd : s.decode side i = some (body, t)) :
    ∀ d ∈ t.decodes, d.SameFormat := by
  obtain ⟨halive, m, hm, -, rfl⟩ := decode_eq_some hd
  exact forall_mem_append.mpr
    ⟨h.decodes, forall_mem_singleton.mpr (h.sameFormat halive (mem_of_getElem? hm))⟩

theorem decodes_recvInvocationRequest (hs : s.recvInvocationRequest side i ok = some t) :
    ∃ body u, s.decode side i = some (body, u) ∧ t.decodes = u.decodes := by
  obtain ⟨⟨body, u⟩, hdec, hs⟩ := bind_eq_some_iff.mp hs
  refine ⟨body, u, hdec, ?_⟩
  cases body <;> cases ok <;> cases hs <;> rfl

theorem decodes_recvInvocationResponse (hs : s.recvInvocationResponse side i ok = some t) :
    ∃ body u, s.decode side i = some (body, u) ∧ t.decodes = u.decodes := by
  obtain ⟨⟨body, u⟩, hdec, hs⟩ := bind_eq_some_iff.mp hs
  refine ⟨body, u, hdec, ?_⟩
  cases body with
  | ack v | refusal =>
    obtain ⟨-, hs⟩ := ite_none_right_eq_some.mp hs
    cases hs
    rfl
  | _ => cases hs <;> rfl

theorem decodes_syncCtlInfo (hs : s.syncCtlInfo ok = some t) : t.decodes = s.decodes := by
  unfold State.syncCtlInfo at hs
  split_ifs at hs <;> cases hs <;> rfl

theorem decodes_connectService (hs : s.connectService = some t) : t.decodes = s.decodes := by
  unfold State.connectService at hs
  split at hs
  · cases hs
    rfl
  · cases hs

theorem decodes_respond (hs : s.respond side j ok = some t) : t.decodes = s.decodes := by
  obtain ⟨job, -, rfl⟩ := map_eq_some_iff.mp hs
  cases job <;> rfl

theorem decodes_step {a : Action} (hs : step s a = some t) : t.decodes = s.decodes ∨
    ∃ side i body u, s.decode side i = some (body, u) ∧ t.decodes = u.decodes := by
  cases a with
  | syncCtlInfo sent => exact .inl (decodes_syncCtlInfo hs)
  | recvInvocationRequest side i ok => exact .inr ⟨side, i, decodes_recvInvocationRequest hs⟩
  | respond side j ok => exact .inl (decodes_respond hs)
  | recvInvocationResponse side i ok => exact .inr ⟨side, i, decodes_recvInvocationResponse hs⟩
  | connectService => exact .inl (decodes_connectService hs)
  | invoke side k =>
    obtain ⟨-, hs⟩ := ite_none_right_eq_some.mp hs
    cases hs
    exact .inl rfl
  | _ =>
    cases hs
    exact .inl rfl

theorem Agreement.step (h : Agreement s) {a : Action} (hok : Orderly s a)
    (hs : step s a = some t) : Agreement t := by
  constructor
  · rcases decodes_step hs with heq | ⟨side, i, body, u, hdec, heq⟩
    · rw [heq]
      exact h.decodes
    · rw [heq]
      exact h.decode hdec
  · rcases h.stage with hb | hc | ha
    · exact hb.step hok hs
    · exact .inr (.inl (hc.step hs))
    · exact .inr (.inr (ha.step hs))

end Invariant

/-- In an orderly run every message is decoded as under the version of its sender. -/
theorem decoded_as_encoded {as : List Action} {s : State}
    (h : Run.Guarded step Orderly start as s) :
    ∀ d ∈ s.decodes, d.AsEncoded ∧ d.SameFormat := by
  have hagree : Agreement s :=
    h.invariant Agreement agreement_start fun _ _ _ hs hok hstep => hs.step hok hstep
  exact fun d hd => ⟨(hagree.decodes d hd).asEncoded, hagree.decodes d hd⟩

def oneObject : Nat := 256

def connection : List Action :=
  [.syncCtlInfo true, .recvInvocationRequest .right 0 true, .respond .right 0 true,
    .recvInvocationResponse .left 0 true, .connectService, .invoke .left oneObject,
    .recvInvocationRequest .right 0 true]

theorem decoded_as_encoded_connection : ∃ s, Run.execIf step Orderly start connection = some s ∧
      s.decodes.getLast? = some ⟨.request oneObject, verLocal, verLocal⟩ ∧
      ∀ d ∈ s.decodes, d.AsEncoded ∧ d.SameFormat := by
  obtain ⟨s, hs, hrun⟩ := Run.exists_guarded step Orderly start connection (by decide)
  refine ⟨s, hs, ?_, decoded_as_encoded hrun⟩
  have hlast : (Run.execIf step Orderly start connection).map (·.decodes.getLast?) =
      some (some ⟨.request oneObject, verLocal, verLocal⟩) := by decide
  rw [hs] at hlast
  exact Option.some.inj hlast

/-- The acknowledgement is encoded under the version it announces. If it cannot be sent but the
error in its place can, only the client falls back. A forwarder made by hand sends before the sync
is over. -/
theorem versions_differ :
    (∃ s, Run.exec step start [.syncCtlInfo true, .recvInvocationRequest .right 0 true,
        .respond .right 0 true, .recvInvocationResponse .left 0 true] = some s ∧
      ⟨.ack verLocal, verLocal, verUninitialized⟩ ∈ s.decodes) ∧
    (∃ s, Run.exec step start [.syncCtlInfo true, .recvInvocationRequest .right 0 true,
        .respond .right 0 false, .recvInvocationResponse .left 0 true, .connectService,
        .invoke .left oneObject, .recvInvocationRequest .right 0 true] = some s ∧
      ⟨.request oneObject, verLegacy, verLocal⟩ ∈ s.decodes) ∧
    ∃ s, Run.exec step start [.attachObject .left, .syncCtlInfo true, .invoke .left oneObject,
        .recvInvocationRequest .right 0 true, .recvInvocationRequest .right 0 true] = some s ∧
      ⟨.request oneObject, verUninitialized, verLocal⟩ ∈ s.decodes :=
  ⟨⟨_, rfl, by decide⟩, ⟨_, rfl, by decide⟩, ⟨_, rfl, by decide⟩⟩

end MinkIpc.VersionSync
