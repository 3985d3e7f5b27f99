import MinkIpc.Run
import MinkIpc.TIAccounting

/-! The references that two tunnel endpoints hold to each other's objects, over any interleaving of
invocations and of the release messages of deleted forwarders. -/

namespace MinkIpc.TunnelInvoke

open TwoParty

/-- Where an invocation stands: its request is out, the target runs with its input objects, the
handler has answered (`none` is the target's error), or the transport has failed. -/
inductive Stage
  | sent
  | running (args : List Object)
  | replied (reply : Option (List TIMessageObj))
  | failed
  deriving DecidableEq, Repr

/-- A call of `TI_invokeRemoteObject` with input objects `oi`; `target` is the forwarder it comes
from, unless that is being deleted. -/
structure RemoteCall where
  caller : Side
  target : Option Nat
  oi : List Object
  msg : TIMessage
  stage : Stage
  deriving DecidableEq, Repr

structure Peers where
  ends : Side → Endpoint
  calls : List RemoteCall

def Peers.new (len : Side → Nat) (hlen : ∀ r, len r < 2 ^ 31) : Peers :=
  ⟨fun r => ⟨.construct (len r) (hlen r), [], []⟩, []⟩

inductive CallMove
  | lose
  | handle (ready buffers : Option ObjectError) (fail : Option Nat)
  | finish (result : Option (List Object)) (buffers : Option ObjectError)
  | receive (decrypted : Bool) (buffers : Option ObjectError) (fail : Option Nat)
  | giveUp
  deriving DecidableEq, Repr

/-- Besides the steps of calls: an endpoint adds a local object and its peer makes the forwarder, a
program invokes, retains or releases a forwarder, and a deleted one sends its release. -/
inductive PeersAction
  | publish (r : Side) (o : Nat)
  | invoke (r : Side) (f id : Nat) (oi : List Object) (mem : Bool) (buffers : Option ObjectError)
  | retain (r : Side) (f : Nat)
  | release (r : Side) (f : Nat)
  | delete (r : Side) (j : Nat) (mem : Bool)
  | move (i : Nat) (m : CallMove)
  deriving DecidableEq, Repr

/-- Each handle with whether a forwarder can be allocated for it: `fail` is where it cannot. -/
def memory (hs : List TIMessageObj) (fail : Option Nat) : List (TIMessageObj × Bool) :=
  hs.zipIdx.map fun p => (p.1, fail != some p.2)

namespace Peers

def setEnd (s : Peers) (r : Side) (e : Endpoint) : Peers :=
  { s with ends := modify s.ends r fun _ => e }

def add (s : Peers) (c : RemoteCall) : Peers := { s with calls := s.calls ++ [c] }

def put (s : Peers) (i : Nat) (c : RemoteCall) : Peers := { s with calls := s.calls.set i c }

def drop (s : Peers) (i : Nat) : Peers := { s with calls := s.calls.eraseIdx i }

end Peers

def Endpoint.forget (e : Endpoint) (j : Nat) : Endpoint :=
  { e with deleted := e.deleted.eraseIdx j }

def Endpoint.releaseTarget (e : Endpoint) : Option Nat → Endpoint
  | none => e
  | some f => e.release f

def Endpoint.isLive (e : Endpoint) (f : Nat) : Bool := e.tifs[f]?.any fun t => 0 < t.refs

def Peers.advance (s : Peers) (i : Nat) (c : RemoteCall) : Stage → CallMove → Option Peers
  -- mutex, encryption or transport fail, or the handler cannot decrypt
  | .sent, .lose => some (s.put i { c with stage := .failed })
  -- the handler cannot encrypt its reply, or the transport fails after it
  | .replied _, .lose => some (s.put i { c with stage := .failed })
  | .sent, .handle ready buffers fail =>
    match (s.ends c.caller.peer).handleInbound ready c.msg buffers (memory c.msg.args fail) with
    | (e, .error _) => some ((s.setEnd c.caller.peer e).put i { c with stage := .failed })
    | (e, .ok none) => some ((s.setEnd c.caller.peer e).put i { c with stage := .replied (some []) })
    | (e, .ok (some args)) => some ((s.setEnd c.caller.peer e).put i { c with stage := .running args })
  | .running args, .finish result buffers =>
    match (s.ends c.caller.peer).handleInboundReturn args result buffers with
    | (e, .error _) => some ((s.setEnd c.caller.peer e).put i { c with stage := .failed })
    | (e, .ok reply) => some ((s.setEnd c.caller.peer e).put i { c with stage := .replied reply })
  | .replied reply, .receive decrypted buffers fail =>
    let e := if decrypted then
      (s.ends c.caller).processResponse (reply.map (memory · fail)) buffers else s.ends c.caller
    some ((s.setEnd c.caller ((e.releaseRemoteOI c.oi).releaseTarget c.target)).drop i)
  | .failed, .giveUp =>
    let e := ((s.ends c.caller).releaseRemoteOI c.oi).releaseLocalOI c.msg
    some ((s.setEnd c.caller (e.releaseTarget c.target)).drop i)
  | _, _ => none

def Peers.step (s : Peers) : PeersAction → Option Peers
  | .publish r o =>
    ((s.ends r).objTable.addObject o).map fun (i, t) =>
      (s.setEnd r { s.ends r with objTable := t }).setEnd r.peer ((s.ends r.peer).newTIF i).1
  | .invoke r f id oi mem buffers =>
    if (s.ends r).isLive f then
      match ((s.ends r).retain f).newOutbound mem ((s.ends r).index f) (.method id) oi buffers with
      | (e, .error _) => some (s.setEnd r (e.release f))
      | (e, .ok msg) => some ((s.setEnd r e).add ⟨r, some f, oi, msg, .sent⟩)
    else none
  | .retain r f => if (s.ends r).isLive f then some (s.setEnd r ((s.ends r).retain f)) else none
  | .release r f => if (s.ends r).isLive f then some (s.setEnd r ((s.ends r).release f)) else none
  | .delete r j mem =>
    (s.ends r).deleted[j]?.bind fun index =>
      match ((s.ends r).forget j).newOutbound mem index .release [] none with
      | (e, .error _) => some (s.setEnd r e)
      | (e, .ok msg) => some ((s.setEnd r e).add ⟨r, none, [], msg, .sent⟩)
  | .move i m => s.calls[i]?.bind fun c => s.advance i c c.stage m

/-- An error may be reported to the caller: no reference has passed to the handler, and none is
on its way back. -/
def Stage.MayFail (msg : TIMessage) : Stage → Prop
  | .sent => msg.op ≠ .release
  | .replied reply => exports msg.args = [] ∧ exports (reply.getD []) = []
  | _ => True

instance (msg : TIMessage) (stage : Stage) : Decidable (stage.MayFail msg) :=
  match stage with
  | .sent => inferInstanceAs (Decidable (msg.op ≠ .release))
  | .replied reply =>
    inferInstanceAs (Decidable (exports msg.args = [] ∧ exports (reply.getD []) = []))
  | .running _ | .failed => inferInstanceAs (Decidable True)

def Stage.reply : Stage → List TIMessageObj
  | .replied (some reply) => reply
  | _ => []

def Peers.MoveKept (s : Peers) (c : RemoteCall) : CallMove → Prop
  | .lose => c.stage.MayFail c.msg
  | .handle ready _ fail => (c.msg.op = .release → ready = none) ∧
    NoneAfterExport (s.ends c.caller.peer).objTable (memory c.msg.args fail)
  | .finish result buffers => exports c.msg.args = [] ∨
    ∀ oo ∈ result, buffers = none ∧ (s.ends c.caller.peer).Room oo
  | .receive decrypted buffers fail => exports c.stage.reply = [] ∨
    decrypted = true ∧ buffers = none ∧
      NoneUpToExport (s.ends c.caller).objTable (memory c.stage.reply fail)
  | .giveUp => True

instance (s : Peers) (c : RemoteCall) (m : CallMove) : Decidable (s.MoveKept c m) :=
  match m with
  | .lose => inferInstanceAs (Decidable (c.stage.MayFail c.msg))
  | .handle .. => inferInstanceAs (Decidable (_ ∧ _))
  | .finish .. | .receive .. => inferInstanceAs (Decidable (_ ∨ _))
  | .giveUp => inferInstanceAs (Decidable True)

def Peers.Kept (s : Peers) : PeersAction → Prop
  | .delete _ _ mem => mem = true
  | .move i m => ∀ c ∈ s.calls[i]?, s.MoveKept c m
  | _ => True

instance (s : Peers) (a : PeersAction) : Decidable (s.Kept a) :=
  match a with
  | .delete _ _ mem => inferInstanceAs (Decidable (mem = true))
  | .move i m => inferInstanceAs (Decidable (∀ c ∈ s.calls[i]?, s.MoveKept c m))
  | .publish .. | .invoke .. | .retain .. | .release .. => inferInstanceAs (Decidable True)

def RemoteCall.due (c : RemoteCall) (r : Side) : List Nat :=
  match c.stage with
  | .sent => if c.caller = r then exports c.msg.args
    else if c.msg.op = .release then [handleToIndex c.msg.cxt] else []
  | .running _ => []
  | .replied reply => if c.caller = r then [] else exports (reply.getD [])
  | .failed => if c.caller = r then exports c.msg.args else []

def Peers.due (s : Peers) (r : Side) (j : Nat) : Nat :=
  (s.calls.map fun c => (c.due r).count j).sum

structure Peers.Conserved (s : Peers) : Prop where
  balance : ∀ r j, (s.ends r).objTable.refCount j = (s.ends r.peer).named j + s.due r j
  bare : ∀ c ∈ s.calls, c.msg.op = .release → c.msg.args = []

section Steps

variable {s s' : Peers} {r : Side} {i j : Nat} {c c' : RemoteCall}

theorem map_fst_memory (hs : List TIMessageObj) (fail : Option Nat) :
    (memory hs fail).map Prod.fst = hs := by
  simp [memory, Function.comp_def]

theorem Endpoint.releaseTarget_changed (e : Endpoint) (f : Option Nat) :
    e.Changed (e.releaseTarget f) [] [] := by
  cases f with
  | none => exact .refl e
  | some f => exact e.release_changed f

variable {e : Endpoint} {buffers : Option ObjectError}

theorem Endpoint.named_forget {index : Nat} (h : e.deleted[j]? = some index) (k : Nat) :
    e.named k = (e.forget j).named k + [index].count k := by
  have hperm := (Multiset.coe_eq_coe.mp (coe_eq_cons_eraseIdx h)).count_eq k
  rw [List.count_cons] at hperm
  simp only [named, live, forget, List.count_singleton]
  omega

theorem Peers.due_eraseIdx (h : s.calls[i]? = some c) (r : Side) (j : Nat) :
    s.due r j = (c.due r).count j + (s.drop i).due r j :=
  sum_map_eraseIdx (fun c : RemoteCall => (c.due r).count j) h

theorem Peers.due_put (h : s.calls[i]? = some c) (c' : RemoteCall) (r : Side) (j : Nat) :
    (s.put i c').due r j = (c'.due r).count j + (s.drop i).due r j :=
  sum_map_set (fun c : RemoteCall => (c.due r).count j) h c'

theorem Peers.due_add (s : Peers) (c : RemoteCall) (r : Side) (j : Nat) :
    (s.add c).due r j = s.due r j + (c.due r).count j := by
  simp [Peers.due, Peers.add]

theorem Peers.Conserved.update (h : s.Conserved) (hends : s'.ends = modify s.ends r fun _ => e)
    (hbare : ∀ c ∈ s'.calls, c ∈ s.calls ∨ (c.msg.op = .release → c.msg.args = []))
    (hr : ∀ j, e.objTable.refCount j = (s.ends r.peer).named j + s'.due r j)
    (hp : ∀ j, (s.ends r.peer).objTable.refCount j = e.named j + s'.due r.peer j) :
    s'.Conserved where
  balance := by
    refine (Side.forall_iff r).mpr ⟨fun j => ?_, fun j => ?_⟩
    · rw [hends, modify_self, modify_peer]
      exact hr j
    · rw [hends, modify_peer, Side.peer_peer, modify_self]
      exact hp j
  bare c hc := (hbare c hc).elim (h.bare c) id

theorem Peers.Conserved.setEnd (h : s.Conserved) (hch : (s.ends r).Changed e [] []) :
    (s.setEnd r e).Conserved := by
  refine h.update rfl (fun c hc => .inl hc) (fun j => ?_) fun j => ?_
  · rw [hch.refs, h.balance]
    simp [Peers.due, Peers.setEnd]
  · rw [h.balance, hch.named]
    simp [Peers.due, Peers.setEnd]

theorem Peers.Conserved.put (h : s.Conserved) (hc : s.calls[i]? = some c) (stage : Stage)
    (hrefs : ∀ k, e.objTable.refCount k + (c.due c.caller.peer).count k =
      (s.ends c.caller.peer).objTable.refCount k +
        (RemoteCall.due { c with stage := stage } c.caller.peer).count k)
    (hnamed : ∀ k, e.named k + (RemoteCall.due { c with stage := stage } c.caller).count k =
      (s.ends c.caller.peer).named k + (c.due c.caller).count k) :
    ((s.setEnd c.caller.peer e).put i { c with stage := stage }).Conserved := by
  have hbare : ∀ d ∈ ((s.setEnd c.caller.peer e).put i { c with stage := stage }).calls,
      d ∈ s.calls ∨ (d.msg.op = .release → d.msg.args = []) := by
    intro d hd
    rcases (List.mem_or_eq_of_mem_set hd) with hd | rfl
    · exact .inl hd
    · exact .inr (h.bare c (List.mem_of_getElem? hc))
  have hput : ∀ r k, ((s.setEnd c.caller.peer e).put i { c with stage := stage }).due r k =
      (RemoteCall.due { c with stage := stage } r).count k + (s.drop i).due r k :=
    fun r k => Peers.due_put hc _ r k
  refine h.update rfl hbare (fun k => ?_) fun k => ?_
  · have hbal := h.balance c.caller.peer k
    have hdue := Peers.due_eraseIdx hc c.caller.peer k
    have hnew := hrefs k
    rw [hput]
    omega
  · have hbal := h.balance c.caller k
    have hdue := Peers.due_eraseIdx hc c.caller k
    have hnew := hnamed k
    rw [Side.peer_peer, hput]
    omega

theorem Peers.Conserved.drop (h : s.Conserved) (hc : s.calls[i]? = some c)
    (hrefs : ∀ k, e.objTable.refCount k + (c.due c.caller).count k =
      (s.ends c.caller).objTable.refCount k)
    (hnamed : ∀ k, e.named k = (s.ends c.caller).named k + (c.due c.caller.peer).count k) :
    ((s.setEnd c.caller e).drop i).Conserved := by
  refine h.update rfl (fun d hd => .inl (List.mem_of_mem_eraseIdx hd)) (fun k => ?_) fun k => ?_
  · have hbal := h.balance c.caller k
    have hdue := Peers.due_eraseIdx hc c.caller k
    have hnew := hrefs k
    show _ = _ + ((s.drop i).due c.caller k : Int)
    omega
  · have hbal := h.balance c.caller.peer k
    have hdue := Peers.due_eraseIdx hc c.caller.peer k
    have hnew := hnamed k
    rw [Side.peer_peer] at hbal
    show _ = _ + ((s.drop i).due c.caller.peer k : Int)
    omega

theorem RemoteCall.due_caller (c : RemoteCall) : c.due c.caller = match c.stage with
    | .sent | .failed => exports c.msg.args
    | _ => [] := by
  unfold RemoteCall.due
  cases c.stage <;> simp

theorem RemoteCall.due_callee (c : RemoteCall) : c.due c.caller.peer = match c.stage with
    | .sent => if c.msg.op = .release then [handleToIndex c.msg.cxt] else []
    | .replied reply => exports (reply.getD [])
    | _ => [] := by
  unfold RemoteCall.due
  cases c.stage <;> simp

theorem Stage.reply_eq (reply : Option (List TIMessageObj)) :
    (Stage.replied reply).reply = reply.getD [] := by
  cases reply <;> rfl

theorem Peers.setEnd_ends (s : Peers) (r : Side) : s.setEnd r (s.ends r) = s := by
  simp [Peers.setEnd, TwoParty.modify]

section

variable (h : s.Conserved)
include h

section

variable (hc : s.calls[i]? = some c)
include hc

theorem Peers.Conserved.lose (hstage : c.stage = .sent ∨ ∃ reply, c.stage = .replied reply)
    (hok : c.stage.MayFail c.msg) : (s.put i { c with stage := .failed }).Conserved := by
  have hput := h.put (e := s.ends c.caller.peer) hc .failed
  rw [Peers.setEnd_ends] at hput
  rcases hstage with hst | ⟨reply, hst⟩
  · rw [hst] at hok
    refine hput (fun k => ?_) fun k => ?_
    · rw [RemoteCall.due_callee c, RemoteCall.due_callee { c with stage := .failed }, hst]
      simp only [if_neg hok]
    · rw [RemoteCall.due_caller c, RemoteCall.due_caller { c with stage := .failed }, hst]
  · rw [hst] at hok
    refine hput (fun k => ?_) fun k => ?_
    · rw [RemoteCall.due_callee c, RemoteCall.due_callee { c with stage := .failed }, hst]
      simp only [hok.2]
    · rw [RemoteCall.due_caller c, RemoteCall.due_caller { c with stage := .failed }, hst]
      simp only [hok.1]

theorem Peers.Conserved.handle {ready : Option ObjectError} {fail : Option Nat}
    {r : Except ObjectError (Option (List Object))}
    (hst : c.stage = .sent) (hok : s.MoveKept c (.handle ready buffers fail))
    (hr : (s.ends c.caller.peer).handleInbound ready c.msg buffers (memory c.msg.args fail) = (e, r)) :
    ((s.setEnd c.caller.peer e).put i { c with stage := match r with
      | .error _ => .failed
      | .ok none => .replied (some [])
      | .ok (some args) => .running args }).Conserved := by
  have hcallee := c.due_callee
  have hcaller := c.due_caller
  simp only [hst] at hcallee hcaller
  rcases Endpoint.handleInbound_changed hr hok.2 with
    ⟨err, rfl, hrel, hch⟩ | ⟨rfl, hop, rfl⟩ | ⟨os, rfl, hop, hch⟩
  · have hop : c.msg.op ≠ .release := fun hop => hrel hop (hok.1 hop)
    rw [if_neg hop] at hcallee
    refine h.put hc .failed (fun k => ?_) fun k => ?_
    · rw [hcallee, hch.refs, RemoteCall.due_callee]
      simp
    · rw [hcaller, hch.named, RemoteCall.due_caller]
      simp
  · -- the released slot counts the reference that the message gives up
    have hbare := h.bare c (List.mem_of_getElem? hc) hop
    rw [if_pos hop] at hcallee
    have hpos : 0 < (s.ends c.caller.peer).objTable.refCount (handleToIndex c.msg.cxt) := by
      have hbal := h.balance c.caller.peer (handleToIndex c.msg.cxt)
      have hdue := Peers.due_eraseIdx hc c.caller.peer (handleToIndex c.msg.cxt)
      rw [hcallee, List.count_singleton_self] at hdue
      omega
    have hch := Endpoint.releaseHandle_changed hpos
    refine h.put hc (.replied (some [])) (fun k => ?_) fun k => ?_
    · rw [hcallee, hch.refs, RemoteCall.due_callee]
      simp [exports]
    · have hnamed := hch.named k
      rw [hcaller, hbare, RemoteCall.due_caller, hnamed]
      simp [exports]
  · rw [if_neg hop] at hcallee
    rw [map_fst_memory] at hch
    refine h.put hc (.running os) (fun k => ?_) fun k => ?_
    · rw [hcallee, hch.refs, RemoteCall.due_callee]
      simp
    · rw [hcaller, hch.named, RemoteCall.due_caller]
      simp

theorem Peers.Conserved.finish {args : List Object} {result : Option (List Object)}
    {r : Except ObjectError (Option (List TIMessageObj))} (hst : c.stage = .running args)
    (hok : s.MoveKept c (.finish result buffers))
    (hr : (s.ends c.caller.peer).handleInboundReturn args result buffers = (e, r)) :
    ((s.setEnd c.caller.peer e).put i { c with stage := match r with
      | .error _ => .failed
      | .ok reply => .replied reply }).Conserved := by
  have hch := Endpoint.handleInboundReturn_changed hr
  have hcallee := c.due_callee
  have hcaller := c.due_caller
  simp only [hst] at hcallee hcaller
  cases r with
  | error err =>
    -- the handler fails only where the request exports nothing
    have hnil : exports c.msg.args = [] := by
      rcases hok with hnil | hroom
      · exact hnil
      cases result with
      | none => cases hr
      | some oo =>
        obtain ⟨rfl, hlen⟩ := hroom oo rfl
        obtain ⟨e', reply, hreply⟩ := Endpoint.handleInboundReturn_ok args hlen
        rw [hreply] at hr
        cases hr
    replace hch : (s.ends c.caller.peer).Changed e [] [] := hch
    refine h.put hc .failed (fun k => ?_) fun k => ?_
    · rw [hcallee, hch.refs, RemoteCall.due_callee]
      simp
    · rw [hcaller, hch.named, RemoteCall.due_caller]
      simp [hnil]
  | ok reply =>
    replace hch : (s.ends c.caller.peer).Changed e (exports (reply.getD [])) [] := hch
    refine h.put hc (.replied reply) (fun k => ?_) fun k => ?_
    · rw [hcallee, hch.refs, RemoteCall.due_callee]
      simp
    · rw [hcaller, hch.named, RemoteCall.due_caller]
      simp

theorem Peers.Conserved.receive {reply : Option (List TIMessageObj)} {decrypted : Bool}
    {fail : Option Nat}
    (hst : c.stage = .replied reply) (hok : s.MoveKept c (.receive decrypted buffers fail))
    (he : e = if decrypted then
      (s.ends c.caller).processResponse (reply.map (memory · fail)) buffers else s.ends c.caller) :
    ((s.setEnd c.caller ((e.releaseRemoteOI c.oi).releaseTarget c.target)).drop i).Conserved := by
  have hcallee := c.due_callee
  have hcaller := c.due_caller
  simp only [hst] at hcallee hcaller
  have hch : (s.ends c.caller).Changed e [] (exports (reply.getD [])) := by
    have hreply : ∀ args ∈ reply.map (memory · fail),
        exports (args.map Prod.fst) = exports (reply.getD []) := by
      intro args hargs
      obtain ⟨hs, rfl, rfl⟩ := Option.map_eq_some_iff.mp hargs
      rw [map_fst_memory, Option.getD_some]
    have hmap : ((reply.map (memory · fail)).getD []).map Prod.fst = reply.getD [] := by
      cases reply <;> simp [map_fst_memory]
    have hkept : exports (reply.getD []) = [] ∨ decrypted = true ∧ buffers = none ∧
        NoneUpToExport (s.ends c.caller).objTable (memory (reply.getD []) fail) := by
      simpa [Peers.MoveKept, hst, Stage.reply_eq] using hok
    subst he
    rcases hkept with hnil | ⟨rfl, rfl, hnone⟩
    · cases decrypted with
      | false =>
        rw [hnil]
        exact .refl _
      | true =>
        rw [← hmap]
        refine Endpoint.processResponse_changed fun args hargs => ?_
        have hargs' := (hreply args hargs).trans hnil
        exact ⟨Endpoint.noneUpToExport_of_exports_eq_nil hargs', .inr hargs'⟩
    · rw [← hmap]
      refine Endpoint.processResponse_changed fun args hargs => ⟨?_, .inl rfl⟩
      obtain ⟨hs, rfl, rfl⟩ := Option.map_eq_some_iff.mp hargs
      exact hnone
  have hend := (hch.trans (e.releaseObjects_changed c.oi)).trans
    ((e.releaseRemoteOI c.oi).releaseTarget_changed c.target)
  refine h.drop hc (fun k => ?_) fun k => ?_
  · rw [hcaller, hend.refs]
    simp
  · rw [hcallee, hend.named]
    simp

theorem Peers.Conserved.giveUp (hst : c.stage = .failed) :
    ((s.setEnd c.caller ((((s.ends c.caller).releaseRemoteOI c.oi).releaseLocalOI c.msg).releaseTarget
      c.target)).drop i).Conserved := by
  have hcallee := c.due_callee
  have hcaller := c.due_caller
  simp only [hst] at hcallee hcaller
  have hremote := (s.ends c.caller).releaseObjects_changed c.oi
  have hcount : ∀ k, ((exports c.msg.args).count k : Int) ≤
      ((s.ends c.caller).releaseRemoteOI c.oi).objTable.refCount k := by
    intro k
    have hbal := h.balance c.caller k
    have hdue := Peers.due_eraseIdx hc c.caller k
    have hrefs := hremote.refs k
    rw [hcaller] at hdue
    unfold Endpoint.releaseRemoteOI
    omega
  have hlocal := Endpoint.releaseLocalOI_changed hcount
  have htarget := (((s.ends c.caller).releaseRemoteOI c.oi).releaseLocalOI c.msg).releaseTarget_changed
    c.target
  refine h.drop hc (fun k => ?_) fun k => ?_
  · have h₁ := hremote.refs k
    have h₂ := hlocal.refs k
    have h₃ := htarget.refs k
    unfold Endpoint.releaseRemoteOI at *
    rw [List.count_nil] at h₁ h₃
    rw [hcaller]
    omega
  · have h₁ := hremote.named k
    have h₂ := hlocal.named k
    have h₃ := htarget.named k
    unfold Endpoint.releaseRemoteOI at *
    rw [List.count_nil] at h₁ h₂ h₃
    rw [hcallee, List.count_nil]
    omega

theorem Peers.Conserved.move {m : CallMove}
    (hok : s.MoveKept c m) (hs : s.advance i c c.stage m = some s') : s'.Conserved := by
  unfold Peers.advance at hs
  split at hs
  · rename_i hst
    cases hs
    exact h.lose hc (.inl hst) hok
  · rename_i reply hst
    cases hs
    exact h.lose hc (.inr ⟨reply, hst⟩) hok
  · rename_i hst
    split at hs
    all_goals
      rename_i hr
      cases hs
      exact h.handle hc hst hok hr
  · rename_i hst
    split at hs
    all_goals
      rename_i hr
      cases hs
      exact h.finish hc hst hok hr
  · rename_i hst
    cases hs
    exact h.receive hc hst hok rfl
  · rename_i hst
    cases hs
    exact h.giveUp hc hst
  · cases hs

end

theorem Peers.Conserved.add (hbare : c.msg.op = .release → c.msg.args = [])
    (hrefs : ∀ k, e.objTable.refCount k = (s.ends r).objTable.refCount k + (c.due r).count k)
    (hnamed : ∀ k, e.named k + (c.due r.peer).count k = (s.ends r).named k) :
    ((s.setEnd r e).add c).Conserved := by
  have hcalls : ∀ d ∈ ((s.setEnd r e).add c).calls,
      d ∈ s.calls ∨ (d.msg.op = .release → d.msg.args = []) :=
    List.forall_mem_append.mpr ⟨fun _ => .inl, List.forall_mem_singleton.mpr (.inr hbare)⟩
  refine h.update rfl hcalls (fun k => ?_) fun k => ?_
  · have hbal := h.balance r k
    have hdue := Peers.due_add (s.setEnd r e) c r k
    have hsame : (s.setEnd r e).due r k = s.due r k := rfl
    rw [hrefs]
    omega
  · have hbal := h.balance r.peer k
    have hdue := Peers.due_add (s.setEnd r e) c r.peer k
    have hsame : (s.setEnd r e).due r.peer k = s.due r.peer k := rfl
    have hnew := hnamed k
    rw [Side.peer_peer] at hbal
    omega

theorem Peers.Conserved.invoke {f id : Nat} {oi : List Object} {mem : Bool}
    (hs : s.step (.invoke r f id oi mem buffers) = some s') : s'.Conserved := by
  simp only [Peers.step] at hs
  split_ifs at hs
  have hretain := (s.ends r).retain_changed f
  split at hs
  · rename_i e err hn
    cases hs
    have hch := (hretain.trans (Endpoint.newOutbound_changed hn).1).trans (e.release_changed f)
    exact h.setEnd hch
  · rename_i e msg hn
    cases hs
    obtain ⟨hnew, hmsg⟩ := Endpoint.newOutbound_changed hn
    have hch : (s.ends r).Changed e (exports msg.args) [] := hretain.trans hnew
    have hop : msg.op ≠ .release := by
      rw [(hmsg msg rfl).2]
      exact ObjectOp.noConfusion
    refine h.add (fun h => absurd h hop) (fun k => ?_) fun k => ?_
    · rw [hch.refs, RemoteCall.due_caller ⟨r, some f, oi, msg, .sent⟩]
    · rw [hch.named, RemoteCall.due_callee ⟨r, some f, oi, msg, .sent⟩]
      simp [hop]

theorem Peers.Conserved.delete {mem : Bool} (hok : mem = true)
    (hs : s.step (.delete r j mem) = some s') : s'.Conserved := by
  subst hok
  obtain ⟨index, hd, hs⟩ := Option.bind_eq_some_iff.mp hs
  have hforget := Endpoint.named_forget hd
  -- the peer still counts the reference, so that its index fits a handle
  have hindex : handleToIndex (indexToHandle index) = index := by
    refine handleToIndex_indexToHandle (ObjectTable.lt_of_refCount_pos (t := (s.ends r.peer).objTable) ?_)
    have hbal := h.balance r.peer index
    have hone := hforget index
    rw [Side.peer_peer] at hbal
    rw [List.count_singleton_self] at hone
    omega
  cases hs
  refine h.add (fun _ => rfl) (fun k => ?_) fun k => ?_
  · rw [RemoteCall.due_caller ⟨r, none, [], ⟨indexToHandle index, .release, []⟩, .sent⟩]
    simp [exports, Endpoint.forget]
  · rw [RemoteCall.due_callee ⟨r, none, [], ⟨indexToHandle index, .release, []⟩, .sent⟩, hforget k]
    simp [hindex]

theorem Peers.Conserved.publish {o : Nat}
    (hs : s.step (.publish r o) = some s') : s'.Conserved := by
  obtain ⟨⟨n, t⟩, ht, rfl⟩ := Option.map_eq_some_iff.mp hs
  have hrefs := ObjectTable.refCount_addObject ht
  have hnew := (s.ends r.peer).newTIF_changed n
  refine ⟨(Side.forall_iff r).mpr ⟨fun k => ?_, fun k => ?_⟩, h.bare⟩
  · have hbal := h.balance r k
    have hn := hnew.named k
    have hr := hrefs k
    simp only [Peers.setEnd, modify_of_peer, modify_self]
    simp only [Peers.due] at hbal ⊢
    rw [hr, hn, hbal]
    by_cases hk : k = n
    · simp [hk]
      omega
    · simp [hk, Ne.symm hk]
  · have hbal := h.balance r.peer k
    simpa [Peers.setEnd, Peers.due, Endpoint.newTIF, Endpoint.named, Endpoint.live] using hbal

theorem Peers.Conserved.step {a : PeersAction} (hok : s.Kept a)
    (hs : s.step a = some s') : s'.Conserved := by
  cases a with
  | publish r o => exact h.publish hs
  | invoke r f id oi mem buffers => exact h.invoke hs
  | retain r f =>
    simp only [Peers.step] at hs
    split_ifs at hs
    cases hs
    exact h.setEnd ((s.ends r).retain_changed f)
  | release r f =>
    simp only [Peers.step] at hs
    split_ifs at hs
    cases hs
    exact h.setEnd ((s.ends r).release_changed f)
  | delete r j mem => exact h.delete hok hs
  | move i m =>
    obtain ⟨c, hc, hs⟩ := Option.bind_eq_some_iff.mp hs
    exact h.move hc (hok c hc) hs

end

end Steps

theorem ObjectTable.refCount_construct {n : Nat} (hn : n < 2 ^ 31) (j : Nat) :
    (ObjectTable.construct n hn : ObjectTable Nat).refCount j = 0 := by
  unfold ObjectTable.refCount ObjectTable.construct
  by_cases hj : j < n
  · simp [hj, Slot.refCount, Slot.empty]
  · simp [hj]

theorem Peers.Conserved.new (len : Side → Nat) (hlen : ∀ r, len r < 2 ^ 31) :
    (Peers.new len hlen).Conserved where
  balance r j := by
    simp [Peers.new, ObjectTable.refCount_construct, Endpoint.named, Endpoint.live, Peers.due]
  bare c hc := by cases hc

def Peers.Quiescent (s : Peers) : Prop := s.calls = [] ∧ ∀ r, (s.ends r).deleted = []

theorem Peers.Conserved.recover_of_live {s : Peers} (h : s.Conserved) {r : Side} {j : Nat}
    (hlive : 0 < (s.ends r.peer).live j) : ((s.ends r).objTable.recoverObject j).isSome := by
  rw [← ObjectTable.refCount_pos_iff, h.balance]
  unfold Endpoint.named
  omega

theorem Peers.Conserved.refCount_of_quiescent {s : Peers} (h : s.Conserved) (hq : s.Quiescent)
    (r : Side) (j : Nat) : (s.ends r).objTable.refCount j = (s.ends r.peer).live j := by
  have hbal := h.balance r j
  simpa [Peers.due, hq.1, Endpoint.named, hq.2 r.peer] using hbal

/-- While every reference is accounted for, no slot is released that the peer has a live forwarder
for. -/
theorem references_conserved {len : Side → Nat} {hlen : ∀ r, len r < 2 ^ 31} {s : Peers}
    {as : List PeersAction}
    (h : Run.Guarded Peers.step Peers.Kept (Peers.new len hlen) as s) (r : Side) (j : Nat) :
    (0 < (s.ends r.peer).live j → ((s.ends r).objTable.recoverObject j).isSome) ∧
    (s.Quiescent → (s.ends r).objTable.refCount j = (s.ends r.peer).live j ∧
      (((s.ends r).objTable.recoverObject j).isSome ↔ 0 < (s.ends r.peer).live j)) := by
  have hcons := h.invariant Peers.Conserved (.new len hlen) fun _ _ _ hi hok hs => hi.step hok hs
  refine ⟨hcons.recover_of_live, fun hq => ?_⟩
  have hcount := hcons.refCount_of_quiescent hq r j
  refine ⟨hcount, ?_⟩
  rw [← ObjectTable.refCount_pos_iff]
  omega

def passObject : List PeersAction :=
  [.publish .right 7, .invoke .left 0 0 [.own 1] true none, .move 0 (.handle none none none),
    .retain .right 0, .move 0 (.finish (some []) none), .move 0 (.receive true none none)]

def twoSlots : Peers := Peers.new (fun _ => 2) fun _ => by decide

theorem references_conserved_passObject :
    ∃ s, Run.Guarded Peers.step Peers.Kept twoSlots passObject s ∧
      (s.ends .left).objTable.refCount 0 = (s.ends .right).live 0 ∧ (s.ends .right).live 0 = 1 := by
  obtain ⟨s, hs, h⟩ := Run.exists_guarded Peers.step Peers.Kept twoSlots passObject (by decide)
  have hall : ∀ s ∈ Run.execIf Peers.step Peers.Kept twoSlots passObject,
      s.calls = [] ∧ (s.ends .left).deleted = [] ∧ (s.ends .right).deleted = [] ∧
        (s.ends .right).live 0 = 1 := by
    decide
  obtain ⟨hcalls, hleft, hright, hlive⟩ := hall s hs
  have hq : s.Quiescent := ⟨hcalls, fun r => by cases r <;> assumption⟩
  exact ⟨s, h, ((references_conserved h .left 0).2 hq).1, hlive⟩

/-- The client passes the object again with another one, for which the host has no memory, and takes
both back although the host keeps its forwarder. -/
theorem slot_released_under_forwarder : ∃ s ∈ Run.exec Peers.step twoSlots (passObject ++
        [.invoke .left 0 0 [.own 1, .own 2] true none, .move 0 (.handle none none (some 1)),
          .delete .right 0 true, .move 1 (.handle none none none), .move 1 (.receive true none none),
          .move 0 .giveUp]),
      s.calls = [] ∧ (s.ends .left).deleted = [] ∧ (s.ends .right).deleted = [] ∧
        (s.ends .right).live 0 = 1 ∧ (s.ends .left).objTable.recoverObject 0 = none := by
  decide

end MinkIpc.TunnelInvoke
