import MinkIpc.Ledger
import MinkIpc.MarshalIn

/-! What unmarshalling takes into custody. Each function of the source is known by its exits, and an
exit by the slot and the ledger it leaves behind. -/

namespace MinkIpc.Unmarshal

open Bytes Ledger

/-- The references of slot `i` are what it held before the call, the object recovered from the
table for it, and the object made for it or found behind a recovered memparcel. The outputs and
the target belong to the invocation. -/
inductive Ref
  | prior (i : Nat)
  | recovered (i : Nat)
  | made (i : Nat)
  | output (i : Nat)
  | target
  deriving DecidableEq, Repr

def Ref.slot : Ref → Option Nat
  | .prior i | .recovered i | .made i => some i
  | .output _ | .target => none

inductive Exit
  | null
  | recovered
  | attached
  | wrapped
  | mapped
  | forwarder
  | position
  | unmatched
  | unknownHandle
  | notMemparcel
  | noDescriptor
  | noWrapper
  | wrapperFailed
  | noMemory
  | memoryFailed
  | noForwarder
  deriving DecidableEq, Repr

namespace Exit

def accepted : Exit → Bool
  | .null | .recovered | .attached | .wrapped | .mapped | .forwarder => true
  | _ => false

/-- The slot after the exit. A recovered object that is no memparcel is released and stays in
its slot. -/
def slot (i : Nat) (before : Option Ref) : Exit → Option Ref
  | .null | .unknownHandle | .noWrapper | .noMemory | .memoryFailed => none
  | .recovered | .notMemparcel => some (.recovered i)
  | .attached | .wrapped | .mapped | .forwarder | .wrapperFailed => some (.made i)
  | .position | .unmatched | .noDescriptor | .noForwarder => before

/-- `MarshalIn_remoteGenericMem` releases what is in the slot, also when it is not its own. -/
def entries (i fdIdx : Nat) (before : Option Ref) : Exit → List (Entry Ref Nat)
  | .recovered => [.acquire (.recovered i)]
  | .attached => [.acquire (.recovered i), .acquire (.made i), .release (.recovered i)]
  | .wrapped | .wrapperFailed => [.acquire (.made i), .own (.made i) fdIdx]
  | .mapped | .forwarder => [.acquire (.made i)]
  | .notMemparcel => [.acquire (.recovered i), .release (.recovered i)]
  | .noMemory => (before.map .release).toList
  | .memoryFailed => [.acquire (.made i), .release (.made i)]
  | .null | .position | .unmatched | .unknownHandle | .noDescriptor | .noWrapper
  | .noForwarder => []

end Exit

def msforwarderExit (table : Table) (arg : Arg) : Exit :=
  match table.recoverObject arg.handle with
  | none => .unknownHandle
  | some obj =>
    if hasFlag arg.flags memparcelObject then
      match obj with
      | .wrappedMemparcel _ _ => .attached
      | _ => .notMemparcel
    else .recovered

def localGenericMemExit (sock : MinkSocket) (env : Env) (a : Nat → Arg) (numFds pos fdIdx : Nat) :
    Exit :=
  let arg := a pos
  let dependent := arg.handle != invalidObjectHandle && arg.handle != nullObjectHandle
  if fdIdx ≥ numFds then .noDescriptor
  else if !env.fdWrapperNew pos then .noWrapper
  else if dependent && !env.msForwarderNew pos then .wrapperFailed
  else if verIndirectMem ≤ sock.version then
    match readChunks a memparcelSpecialRules numExtraArgsSpecialRules (pos + 1) with
    | none => .wrapperFailed
    | some _ => if !env.attachConfinement pos then .wrapperFailed else .wrapped
  else .wrapped

def remoteGenericMemExit (env : Env) (a : Nat → Arg) (pos : Nat) : Exit :=
  match readChunks a memparcelInfo numExtraArgsPerMemparcel (pos + 1),
      readChunks a memparcelSpecialRules numExtraArgsSpecialRules
        (pos + 1 + numExtraArgsPerMemparcel) with
  | some memparcelHandle, some _ =>
    match env.getMSMem pos memparcelHandle with
    | none => .noMemory
    | some _ => if !env.msForwarderNew pos then .memoryFailed else .mapped
  | _, _ => .noMemory

def genericObjectExit (env : Env) (pos : Nat) : Exit :=
  if env.msForwarderNew pos then .forwarder else .noForwarder

structure Custody where
  st : InState
  slots : Nat → Option Ref
  log : List (Entry Ref Nat)

namespace Custody

def new (pos : Nat) (fds : List Int) (prior : Nat → Bool) : Custody where
  st := ⟨pos, 0, fds, []⟩
  slots i := if prior i then some (.prior i) else none
  log := []

def leave (c : Custody) (exit : Exit) (st : InState) : Custody :=
  let i := c.st.objs.length
  { st := st
    slots := Function.update c.slots i (exit.slot i (c.slots i))
    log := c.log ++ exit.entries i c.st.fdIdx (c.slots i) }

def attempt (c : Custody) (exit : Exit) (r : Attempt InState) : Attempt Custody :=
  r.map (Outcome.map (c.leave exit))

/-- Both `MarshalIn_calleeRelease` and the clean-up of `MarshalIn_caller`: the first `n` slots are
released and the descriptors no object has taken are closed. -/
def giveBack (c : Custody) (n : Nat) : List (Entry Ref Nat) :=
  returns c.slots n ++ closes (fun x => c.st.fds[x]? != some (-1)) c.st.fds.length

def cleanup (c : Custody) (n : Nat) : Custody where
  st := c.st.cleanup
  slots i := if i < n then none else c.slots i
  log := c.log ++ c.giveBack n

end Custody

section Track

variable (sock : MinkSocket) (table : Table) (env : Env) (a : Nat → Arg)

def trackCalleeObject (c : Custody) : Outcome ObjectError Custody :=
  let pos := c.st.pos
  let localExit := localGenericMemExit sock env a c.st.fds.length pos c.st.fdIdx
  if pos ≥ lxcomMaxArgs then .error .maxArgs c
  else
    (c.attempt .null (marshalInNullObject a c.st) <|> c.attempt (msforwarderExit table (a pos))
        (marshalInMsforwarder sock table a calleeObject c.st) <|>
      c.attempt localExit (marshalInLocalGenericMem sock env a c.st) <|>
      c.attempt localExit (marshalInLocalGenericMem sock env a c.st) <|>
      c.attempt (remoteGenericMemExit env a pos)
        (marshalInRemoteGenericMem sock env a callerObject c.st) <|>
      c.attempt (remoteGenericMemExit env a pos)
        (marshalInRemoteGenericMem sock env a callerObject c.st) <|>
      c.attempt (genericObjectExit env pos)
        (marshalInGenericObject sock env a callerObject c.st)).getD (.error .error c)

def trackCallerObject (n : Nat) (c : Custody) : Outcome ObjectError Custody :=
  let pos := c.st.pos
  let localExit := localGenericMemExit sock env a c.st.fds.length pos c.st.fdIdx
  if pos ≥ lxcomMaxArgs then .error .maxArgs c
  else
    match c.attempt .null (marshalInNullObject a c.st) <|> c.attempt (msforwarderExit table (a pos))
        (marshalInMsforwarder sock table a callerObject c.st) <|>
      c.attempt localExit (marshalInLocalGenericMem sock env a c.st) <|>
      c.attempt localExit (marshalInLocalGenericMem sock env a c.st) <|>
      c.attempt (remoteGenericMemExit env a pos)
        (marshalInRemoteGenericMem sock env a calleeObject c.st) <|>
      c.attempt (remoteGenericMemExit env a pos)
        (marshalInRemoteGenericMem sock env a callerObject c.st) <|>
      c.attempt (genericObjectExit env pos)
        (marshalInGenericObject sock env a calleeObject c.st) with
    | none => .error .error c
    | some (.ok c') => .ok c'
    | some (.error e c') => .error e (c'.cleanup n)

def trackCalleeObjects (n : Nat) (c : Custody) : Outcome ObjectError Custody :=
  Outcome.forEach (fun c (_ : Unit) => trackCalleeObject sock table env a c) (List.replicate n ()) c

def trackCallerObjects (n m : Nat) (c : Custody) : Outcome ObjectError Custody :=
  Outcome.forEach (fun c (_ : Unit) => trackCallerObject sock table env a n c)
    (List.replicate m ()) c

end Track

def trackCallee (sock : MinkSocket) (table : Table) (env : Env) (data : Mem) (fds : List Int)
    (bufResv sizeResv : Nat) : Outcome ObjectError Custody :=
  let k := reqK data
  let c := Custody.new (indexOI k) fds fun _ => false
  if numIn k + reqExtra sock data > lxcomMaxArgs then .error .maxArgs c
  else if sizeReq sock data > hdrSize data then .error .maxArgs c
  else match marshalInCalleeBuffers (hdrSize data) (reqSizesBI data) (sizeReq sock data) with
    | none => .error .maxArgs c
    | some _ =>
      match reserveBO env data bufResv sizeResv with
      | .error e => .error e c
      | .ok _ => trackCalleeObjects sock table env (argObj data reqArgs) (numOI k) c

/-- `MarshalIn_caller`. `prior` are the output slots that are not null before the call. -/
def trackCaller (sock : MinkSocket) (table : Table) (env : Env) (data : Mem) (fds : List Int)
    (k : Nat) (bo : List OutBuffer) (prior : Nat → Bool) : Outcome ObjectError Custody :=
  let c := Custody.new (numBO k) fds prior
  if sizeSucc sock data k > hdrSize data then .error .maxArgs c
  else if total k > lxcomMaxArgs then .error .maxArgs c
  else match marshalInCallerBuffers data (hdrSize data) bo 0 (sizeSucc sock data k) with
    | .error e _ => .error e c
    | .ok _ => trackCallerObjects sock table env (argObj data succArgs) (numOO k) (numOO k) c

section Erasure

variable (sock : MinkSocket) (table : Table) (env : Env)

theorem Custody.map_attempt (c : Custody) (exit : Exit) (r : Attempt InState) :
    (c.attempt exit r).map (Outcome.map Custody.st) = r := by
  cases r with
  | none => rfl
  | some r => cases r <;> rfl

theorem map_orElse_attempt (c : Custody) (exit : Exit) (r r' : Attempt InState)
    {y : Attempt Custody} (h : y.map (Outcome.map Custody.st) = r') :
    (c.attempt exit r <|> y).map (Outcome.map Custody.st) = (r <|> r') := by
  cases r with
  | none => exact h
  | some r => cases r <;> rfl

theorem trackCalleeObject_st (a : Nat → Arg) (c : Custody) :
    (trackCalleeObject sock table env a c).map Custody.st =
      marshalInCalleeObject sock table env a c.st := by
  unfold trackCalleeObject marshalInCalleeObject
  dsimp only
  split_ifs
  · rfl
  · rw [← map_orElse_attempt c _ _ _ (map_orElse_attempt c _ _ _ (map_orElse_attempt c _ _ _
      (map_orElse_attempt c _ _ _ (map_orElse_attempt c _ _ _ (map_orElse_attempt c _ _ _
        (c.map_attempt _ _))))))]
    exact (Option.getD_map _ _ _).symm

theorem trackCallerObject_st (a : Nat → Arg) (n : Nat) (c : Custody) :
    (trackCallerObject sock table env a n c).map Custody.st =
      marshalInCallerObject sock table env a c.st := by
  unfold trackCallerObject marshalInCallerObject
  dsimp only
  split_ifs
  · rfl
  -- the first attempt that applies decides, and none of them reads more than its own state
  generalize marshalInNullObject a c.st = null,
    marshalInMsforwarder sock table a callerObject c.st = msf,
    marshalInLocalGenericMem sock env a c.st = localMem,
    marshalInRemoteGenericMem sock env a calleeObject c.st = remoteMem,
    marshalInRemoteGenericMem sock env a callerObject c.st = remoteMSMem,
    marshalInGenericObject sock env a calleeObject c.st = generic
  rcases null with _ | _ | _
  · rcases msf with _ | _ | _
    · rcases localMem with _ | _ | _
      · rcases remoteMem with _ | _ | _
        · rcases remoteMSMem with _ | _ | _
          · rcases generic with _ | _ | _ <;> rfl
          all_goals rfl
        all_goals rfl
      all_goals rfl
    all_goals rfl
  all_goals rfl

theorem trackCalleeObjects_st (a : Nat → Arg) (n : Nat) (c : Custody) :
    (trackCalleeObjects sock table env a n c).map Custody.st =
      marshalInCalleeObjects sock table env a n c.st := by
  exact Outcome.map_forEach (fun c _ => trackCalleeObject_st sock table env a c) _ c

theorem trackCallerObjects_st (a : Nat → Arg) (n m : Nat) (c : Custody) :
    (trackCallerObjects sock table env a n m c).map Custody.st =
      marshalInCallerObjects sock table env a m c.st := by
  exact Outcome.map_forEach (fun c _ => trackCallerObject_st sock table env a n c) _ c

/-- Forgetting the slots and the ledger gives unmarshalling as it is modelled without them. -/
theorem trackCallee_st (data : Mem) (fds : List Int) (bufResv sizeResv : Nat) :
    (trackCallee sock table env data fds bufResv sizeResv).map Custody.st =
      (marshalInCallee sock table env data fds bufResv sizeResv).map CalleeArgs.oi := by
  unfold trackCallee marshalInCallee
  dsimp only
  split_ifs
  · rfl
  · rfl
  · cases marshalInCalleeBuffers (hdrSize data) (reqSizesBI data) (sizeReq sock data) with
    | none => rfl
    | some bi =>
      cases reserveBO env data bufResv sizeResv with
      | error e => rfl
      | ok bo =>
        rw [trackCalleeObjects_st]
        unfold Custody.new
        cases marshalInCalleeObjects sock table env (argObj data reqArgs) (numOI (reqK data))
          ⟨indexOI (reqK data), 0, fds, []⟩ <;> rfl

theorem trackCaller_st (data : Mem) (fds : List Int) (k : Nat) (bo : List OutBuffer)
    (prior : Nat → Bool) :
    (trackCaller sock table env data fds k bo prior).map Custody.st =
      (marshalInCaller sock table env data fds k bo).map CallerArgs.oo := by
  unfold trackCaller marshalInCaller
  dsimp only
  split_ifs
  · rfl
  · rfl
  · cases marshalInCallerBuffers data (hdrSize data) bo 0 (sizeSucc sock data k) with
    | error e bo => rfl
    | ok bo =>
      rw [trackCallerObjects_st]
      unfold Custody.new
      cases marshalInCallerObjects sock table env (argObj data succArgs) (numOO k)
        ⟨numBO k, 0, fds, []⟩ <;> rfl

end Erasure

end MinkIpc.Unmarshal
