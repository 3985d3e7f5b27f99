import MinkIpc.CustodyKept
import MinkIpc.Serve

/-! The receiving end of a request and what it has in custody. A request that cannot be
unmarshalled is answered with an error, but what was taken into custody for it is not given
back. -/

namespace MinkIpc.Unmarshal

open Bytes Ledger Serve

namespace ArgVector

variable (v : ArgVector)

def Accepts : Nat → Nat → Nat → Prop
  | 0, _, _ => True
  | n + 1, pos, fdIdx =>
    (v.exit pos fdIdx).accepted = true ∧
      Accepts n (pos + v.words pos (v.exit pos fdIdx)) (fdIdx + (v.exit pos fdIdx).taken)

def LeavesNothing : Nat → Nat → Nat → Prop
  | 0, _, _ => True
  | n + 1, pos, fdIdx =>
    v.exit pos fdIdx = .null ∧ LeavesNothing n (pos + 1) fdIdx ∨
      (v.exit pos fdIdx).accepted = false ∧ v.exit pos fdIdx ≠ .wrapperFailed

end ArgVector

section Objects

variable {sock : MinkSocket} {table : Table} {env : Env} {a : Nat → Arg} {fds : List Int}
  {c : Custody}

theorem trackCalleeObjects_succ (n : Nat) (c : Custody) :
    trackCalleeObjects sock table env a (n + 1) c =
      (trackCalleeObject sock table env a c).bind (trackCalleeObjects sock table env a n) :=
  rfl

theorem trackCalleeObjects_spec {v : ArgVector} (hv : v = calleeVector sock table env a fds.length)
    (n : Nat) (hrefs : RefsKept (fun _ => false) c) (hfds : FdsKept fds c) :
    (v.Accepts n c.st.pos c.st.fdIdx → ∃ c', trackCalleeObjects sock table env a n c = .ok c' ∧
      RefsKept (fun _ => false) c' ∧ FdsKept fds c' ∧
      c'.st.objs.length = c.st.objs.length + n) ∧
    (¬ v.Accepts n c.st.pos c.st.fdIdx → ∃ e c',
      trackCalleeObjects sock table env a n c = .error e c' ∧
      (Settled (Received fds) c'.log ↔ (∀ x, ¬ Received fds x) ∧
        (∀ i, i < c.st.objs.length → c.slots i = none) ∧
        v.LeavesNothing n c.st.pos c.st.fdIdx)) := by
  induction n generalizing c with
  | zero => exact ⟨fun _ => ⟨c, rfl, hrefs, hfds, rfl⟩, absurd trivial⟩
  | succ n ih =>
    unfold ArgVector.Accepts ArgVector.LeavesNothing
    rw [trackCalleeObjects_succ]
    generalize hexit : v.exit c.st.pos c.st.fdIdx = exit
    obtain ⟨hok, herror⟩ := trackCalleeObject_spec hfds.length (hv ▸ hexit.symm)
    cases hacc : exit.accepted with
    | true =>
      obtain ⟨st, hst, hadv⟩ := hok hacc
      rw [← hv] at hadv
      have hrefs' := hrefs.leave hacc hadv
      have hfds' := hfds.leave hacc hadv fun hwrap => by
        have hlt := exit_wrapped_lt (hexit.trans hwrap)
        rw [hv] at hlt
        exact hlt
      obtain ⟨ihok, iherror⟩ := ih hrefs' hfds'
      rw [show (c.leave exit st).st = st from rfl, hadv.pos, hadv.fdIdx] at ihok iherror
      rw [hst]
      refine ⟨fun h => ?_, fun h => ?_⟩
      · obtain ⟨c', hc', hr, hf, hlen⟩ := ihok h.2
        refine ⟨c', hc', hr, hf, ?_⟩
        rw [hlen, hadv.objs]
        omega
      · obtain ⟨e, c', hc', hiff⟩ := iherror fun hn => h ⟨rfl, hn⟩
        refine ⟨e, c', hc', hiff.trans (and_congr_right fun _ => ?_)⟩
        rw [leave_slots_null_iff hacc hadv, and_assoc]
        refine and_congr_right fun _ => ?_
        rw [show (true = false ∧ exit ≠ .wrapperFailed) ↔ False by simp, or_false]
        refine and_congr_right fun hnull => ?_
        rw [hnull]
        rfl
    | false =>
      obtain ⟨e, st, hst, hsame⟩ := herror hacc
      rw [hst]
      refine ⟨fun h => absurd h.1 Bool.false_ne_true, fun _ => ⟨e, _, rfl, ?_⟩⟩
      rw [settled_rejected_iff hrefs hfds hacc fun _ => hrefs.later _ (Nat.le_refl _)]
      have hnull : exit ≠ .null := by
        rintro rfl
        cases hacc
      simp [hnull]

end Objects

inductive Answer
  | error (err : Int32)
  | filled (slots : Nat → Bool)

def outputs (filled : Nat → Bool) (i : Nat) : Option Ref :=
  if filled i then some (.output i) else none

def Answer.acquires (n : Nat) : Answer → List (Entry Ref Nat)
  | .error _ => []
  | .filled slots => takes (outputs slots) n

def Answer.calleeRelease (n : Nat) : Answer → List (Entry Ref Nat)
  | .error _ => [.release .target]
  | .filled slots => returns (outputs slots) n ++ [.release .target]

def recvInvocationRequest (sock : MinkSocket) (table : Table) (msg : Inbound) (answer : Answer) :
    List (Entry Ref Nat) :=
  if !msg.specificInvoke then []
  else
    match trackCallee sock table msg.env msg.data msg.fds msg.bufResv msgBufferPrealloc with
    | .error _ c => c.log
    | .ok c =>
      let k := reqK msg.data
      let released := c.giveBack (numOI k)
      if reqHandle msg.data = ctlHandle ∧ reqOp msg.data = ctlOpSync ∧ k = ctlCounts then
        c.log ++ released
      else
        match table.recoverObject (reqHandle msg.data).toInt with
        | none => c.log ++ released
        | some _ => c.log ++ (.acquire .target :: answer.acquires (numOO k) ++ released ++
            answer.calleeRelease (numOO k))

section Request

variable {sock : MinkSocket} {table : Table} {msg : Inbound} {answer : Answer}

def PassesChecks (sock : MinkSocket) (msg : Inbound) : Prop :=
  numIn (reqK msg.data) + reqExtra sock msg.data ≤ lxcomMaxArgs ∧
    sizeReq sock msg.data ≤ hdrSize msg.data ∧
    (∃ bi, marshalInCalleeBuffers (hdrSize msg.data) (reqSizesBI msg.data)
      (sizeReq sock msg.data) = some bi) ∧
    ∃ bo, reserveBO msg.env msg.data msg.bufResv msgBufferPrealloc = .ok bo

def requestVector (sock : MinkSocket) (table : Table) (msg : Inbound) : ArgVector :=
  calleeVector sock table msg.env (argObj msg.data reqArgs) msg.fds.length

theorem trackCallee_of_checks (h : PassesChecks sock msg) :
    trackCallee sock table msg.env msg.data msg.fds msg.bufResv msgBufferPrealloc =
      trackCalleeObjects sock table msg.env (argObj msg.data reqArgs) (numOI (reqK msg.data))
        (Custody.new (indexOI (reqK msg.data)) msg.fds fun _ => false) := by
  obtain ⟨hmax, hsize, ⟨bi, hbi⟩, bo, hbo⟩ := h
  unfold trackCallee
  rw [if_neg (Nat.not_lt.mpr hmax), if_neg (Nat.not_lt.mpr hsize), hbi, hbo]

theorem trackCallee_of_not_checks (h : ¬ PassesChecks sock msg) :
    ∃ e, trackCallee sock table msg.env msg.data msg.fds msg.bufResv msgBufferPrealloc =
      .error e (Custody.new (indexOI (reqK msg.data)) msg.fds fun _ => false) := by
  unfold trackCallee
  dsimp only
  by_cases hmax : numIn (reqK msg.data) + reqExtra sock msg.data > lxcomMaxArgs
  · rw [if_pos hmax]
    exact ⟨_, rfl⟩
  split_ifs with hsize
  · exact ⟨_, rfl⟩
  cases hbi : marshalInCalleeBuffers (hdrSize msg.data) (reqSizesBI msg.data)
      (sizeReq sock msg.data) with
  | none => exact ⟨_, rfl⟩
  | some bi =>
    cases hbo : reserveBO msg.env msg.data msg.bufResv msgBufferPrealloc with
    | error e => exact ⟨_, rfl⟩
    | ok bo =>
      exact absurd ⟨Nat.not_lt.mp hmax, Nat.not_lt.mp hsize, ⟨bi, hbi⟩, bo, hbo⟩ h

theorem settled_nil_iff {fds : List Int} :
    Settled (Received fds) ([] : List (Entry Ref Nat)) ↔ ∀ x, ¬ Received fds x := by
  constructor
  · intro h x hx
    rcases h.descriptors x hx with ⟨hclosed, -⟩ | ⟨-, r, -, hreleased⟩
    · cases hclosed
    · cases hreleased
  · exact fun h => ⟨nofun, nofun, fun x hx => absurd hx (h x)⟩

def invocation (answer : Answer) (n : Nat) : List (Entry Ref Nat) :=
  .acquire .target :: answer.acquires n ++ answer.calleeRelease n

theorem outputs_eq_some {filled : Nat → Bool} {i : Nat} {r : Ref}
    (h : outputs filled i = some r) : r = .output i := by
  unfold outputs at h
  split_ifs at h
  exact (Option.some.inj h).symm

theorem outputs_index (filled : Nat → Bool) (r : Ref) :
    ∃ i, ∀ j, outputs filled j = some r → j = i := by
  cases r with
  | output i =>
    refine ⟨i, fun j hj => ?_⟩
    cases outputs_eq_some hj
    rfl
  | _ => exact ⟨0, fun j hj => nomatch outputs_eq_some hj⟩

theorem counts_filled (filled : Nat → Bool) (n : Nat) (r : Ref) :
    released (returns (outputs filled) n : List (Entry Ref Nat)) r =
        acquired (takes (outputs filled) n : List (Entry Ref Nat)) r ∧
      acquired (takes (outputs filled) n : List (Entry Ref Nat)) r ≤ 1 ∧
      (1 ≤ acquired (takes (outputs filled) n : List (Entry Ref Nat)) r → ∃ i, r = .output i) := by
  obtain ⟨i, hi⟩ := outputs_index filled r
  rw [released_returns hi, acquired_takes hi]
  refine ⟨rfl, ?_, fun h => ?_⟩
  · split_ifs <;> omega
  · split_ifs at h with hfilled
    · exact ⟨i, outputs_eq_some hfilled.2⟩
    · cases h

theorem counts_invocation (answer : Answer) (n : Nat) (r : Ref) :
    released (invocation answer n) r = acquired (invocation answer n) r ∧
      acquired (invocation answer n) r ≤ 1 ∧
      (1 ≤ acquired (invocation answer n) r → r.slot = none) := by
  cases answer with
  | error err =>
    by_cases hr : Ref.target = r
    · subst hr
      simp [invocation, Answer.acquires, Answer.calleeRelease, Ref.slot]
    · simp [invocation, Answer.acquires, Answer.calleeRelease, hr]
  | filled slots =>
    obtain ⟨heq, hle, hout⟩ := counts_filled slots n r
    simp only [invocation, Answer.acquires, Answer.calleeRelease,
      acquired_cons, acquired_append, acquired_returns, acquired_nil, released_cons,
      released_append, released_takes, released_nil, heq]
    by_cases hr : Ref.target = r
    · subst hr
      have hzero : acquired (takes (outputs slots) n : List (Entry Ref Nat)) .target = 0 := by
        by_contra hne
        obtain ⟨i, hi⟩ := hout (by omega)
        cases hi
      simp [hzero, Ref.slot]
    · simp only [Entry.acquire.injEq, Entry.release.injEq, hr, if_false, reduceCtorEq]
      refine ⟨by omega, by omega, fun h => ?_⟩
      obtain ⟨i, rfl⟩ := hout (by omega)
      rfl

theorem mem_invocation {n : Nat} {e : Entry Ref Nat} (h : e ∈ invocation answer n) :
    ∃ r, e = .acquire r ∨ e = .release r := by
  have htarget : ∀ {e : Entry Ref Nat}, e ∈ [.release .target] → ∃ r, e = .release r :=
    fun h => ⟨.target, List.mem_singleton.mp h⟩
  rcases List.mem_append.mp h with h | h
  · rcases List.mem_cons.mp h with rfl | h
    · exact ⟨_, .inl rfl⟩
    · cases answer with
      | error err => cases h
      | filled slots =>
        obtain ⟨r, rfl⟩ := mem_takes h
        exact ⟨r, .inl rfl⟩
  · cases answer with
    | error err =>
      obtain ⟨r, rfl⟩ := htarget h
      exact ⟨r, .inr rfl⟩
    | filled slots =>
      rcases List.mem_append.mp h with h | h
      · obtain ⟨r, rfl⟩ := mem_returns h
        exact ⟨r, .inr rfl⟩
      · obtain ⟨r, rfl⟩ := htarget h
        exact ⟨r, .inr rfl⟩

theorem settled_invocation {fds : List Int} {c : Custody} {n : Nat}
    (hrefs : RefsKept (fun _ => false) c) (hfds : FdsKept fds c) (hlen : c.st.objs.length = n)
    (answer : Answer) (m : Nat) : Settled (Received fds) (c.log ++
      (.acquire .target :: answer.acquires m ++ c.giveBack n ++ answer.calleeRelease m)) := by
  subst hlen
  have hlog : Settled (Received fds) ((c.log ++ c.giveBack c.st.objs.length) ++
      invocation answer m) := by
    refine (settled_giveBack hrefs hfds).append (fun r => (counts_invocation answer m r).2.1)
      (fun r => (counts_invocation answer m r).1) (fun r hr => ?_) (fun r x h => ?_) fun x => ?_
    · have hslot := (counts_invocation answer m r).2.2 hr
      have hfresh : ∀ i, r.slot = some i → c.st.objs.length ≤ i := fun i hi => by
        rw [hslot] at hi
        cases hi
      rw [acquired_append, acquired_giveBack, hrefs.fresh r hfresh]
    · obtain ⟨s, hs | hs⟩ := mem_invocation h <;> cases hs
    · refine List.count_eq_zero.mpr fun h => ?_
      obtain ⟨s, hs | hs⟩ := mem_invocation h <;> cases hs
  refine hlog.perm ?_
  unfold invocation
  rw [List.append_assoc]
  refine List.Perm.append_left _ ?_
  rw [← List.append_assoc]
  exact List.Perm.append_right _ List.perm_append_comm

theorem recvInvocationRequest_of_ok {c : Custody} (halloc : msg.specificInvoke = true)
    (h : trackCallee sock table msg.env msg.data msg.fds msg.bufResv msgBufferPrealloc = .ok c)
    (hrefs : RefsKept (fun _ => false) c) (hfds : FdsKept msg.fds c)
    (hlen : c.st.objs.length = numOI (reqK msg.data)) :
    Settled (Received msg.fds) (recvInvocationRequest sock table msg answer) := by
  have hgive := settled_giveBack hrefs hfds
  rw [hlen] at hgive
  unfold recvInvocationRequest
  rw [halloc, Bool.not_true, if_neg Bool.false_ne_true, h]
  dsimp only
  split_ifs
  · exact hgive
  · cases table.recoverObject (reqHandle msg.data).toInt with
    | none => exact hgive
    | some target => exact settled_invocation hrefs hfds hlen answer _

/-- The request is settled if it is unmarshalled. If it is not, the ledger is settled only if no
descriptor came with it and nothing was taken into custody. -/
theorem recvInvocationRequest_settled_iff (sock : MinkSocket) (table : Table) (msg : Inbound)
    (answer : Answer) :
    Settled (Received msg.fds) (recvInvocationRequest sock table msg answer) ↔
      (msg.specificInvoke = true ∧ PassesChecks sock msg ∧
        (requestVector sock table msg).Accepts (numOI (reqK msg.data))
          (indexOI (reqK msg.data)) 0) ∨
      ((∀ x, ¬ Received msg.fds x) ∧ (msg.specificInvoke = true → PassesChecks sock msg →
        (requestVector sock table msg).LeavesNothing (numOI (reqK msg.data))
          (indexOI (reqK msg.data)) 0)) := by
  cases halloc : msg.specificInvoke with
  | false =>
    have hlog : recvInvocationRequest sock table msg answer = [] := by
      unfold recvInvocationRequest
      rw [halloc]
      rfl
    rw [hlog, settled_nil_iff]
    simp
  | true =>
    by_cases hchecks : PassesChecks sock msg
    · have htrack := @trackCallee_of_checks sock table msg hchecks
      obtain ⟨hok, herror⟩ := @trackCalleeObjects_spec sock table msg.env (argObj msg.data reqArgs)
        msg.fds _ (requestVector sock table msg) rfl (numOI (reqK msg.data)) (.new _ _ _)
        (.new (indexOI (reqK msg.data)) _ _)
      by_cases hacc : (requestVector sock table msg).Accepts (numOI (reqK msg.data))
          (indexOI (reqK msg.data)) 0
      · obtain ⟨c, hc, hrefs, hfds, hlen⟩ := hok hacc
        refine iff_of_true ?_ (.inl ⟨rfl, hchecks, hacc⟩)
        exact recvInvocationRequest_of_ok halloc (htrack.trans hc) hrefs hfds
          (hlen.trans (Nat.zero_add _))
      · obtain ⟨e, c, hc, hiff⟩ := herror hacc
        have hlog : recvInvocationRequest sock table msg answer = c.log := by
          unfold recvInvocationRequest
          rw [halloc, Bool.not_true, if_neg Bool.false_ne_true, htrack, hc]
        rw [hlog, hiff]
        constructor
        · rintro ⟨hno, -, hleaves⟩
          exact .inr ⟨hno, fun _ _ => hleaves⟩
        · rintro (h | ⟨hno, hleaves⟩)
          · exact absurd h.2.2 hacc
          · exact ⟨hno, nofun, hleaves rfl hchecks⟩
    · obtain ⟨e, htrack⟩ := @trackCallee_of_not_checks sock table msg hchecks
      have hlog : recvInvocationRequest sock table msg answer = [] := by
        unfold recvInvocationRequest
        rw [halloc, htrack]
        rfl
      rw [hlog, settled_nil_iff]
      simp [hchecks]

end Request

def halfKnown : Inbound where
  data := write (fun _ => 0) 0 (le 4 32 ++ le 4 1 ++ le 4 7 ++ le 4 3 ++ le 4 0 ++ le 4 0x200 ++
    le 2 calleeObject ++ le 2 3 ++ le 2 calleeObject ++ le 2 4)
  fds := [5]
  env := healthyEnv
  bufResv := 0
  specificInvoke := true

/-- The first object is retained and never released, the descriptor is never closed. The target
is not reached, so that its answer does not matter. -/
theorem recvInvocationRequest_halfKnown_leaks :
    recvInvocationRequest localSock sampleTable halfKnown (.error 1) = [.acquire (.recovered 0)] ∧
      Received halfKnown.fds 0 ∧
      ¬ Settled (Received halfKnown.fds)
        (recvInvocationRequest localSock sampleTable halfKnown (.error 1)) := by
  have hlog : recvInvocationRequest localSock sampleTable halfKnown (.error 1) =
      [.acquire (.recovered 0)] := rfl
  refine ⟨hlog, ⟨5, rfl, by decide⟩, fun h => ?_⟩
  exact absurd (h.once (.recovered 0) (by decide)) (by decide)

end MinkIpc.Unmarshal
