import MinkIpc.TIFreshness
import MinkIpc.TwoParty

/-! Invocations through a tunnel: who holds the counter mutex, and where each transaction stands.
The carrier may report an error before the handler has run or after it has finished. -/

namespace MinkIpc.TunnelInvoke

inductive Leg
  | request
  | reply
  deriving DecidableEq, Repr

/-- Where a transaction stands. In `locking` the author of a packet waits for its counter mutex, in
`counted` it has read its counter, in `sent` the carrier has the packet, in `checked` the receiver
has compared its counter and in `accepted` stored it. The peer's handler is `running`, or has failed
and waits for the mutex in `aborting`. In `failed` the caller knows of an error and has yet to
unlock. -/
inductive Phase
  | locking (leg : Leg)
  | encrypting (leg : Leg)
  | counted (leg : Leg) (counter : UInt64) (message : List UInt8)
  | sent (leg : Leg) (packet : TIPacket)
  | checked (leg : Leg) (packet : TIPacket)
  | accepted (leg : Leg)
  | running
  | aborting
  | failed
  deriving DecidableEq, Repr

structure Transaction where
  caller : Role
  phase : Phase
  deriving DecidableEq, Repr

def Role.author (caller : Role) : Leg → Role
  | .request => caller
  | .reply => caller.peer

structure Tunnel where
  session : Session
  locked : Role → Bool
  transactions : List Transaction

def Tunnel.new : Tunnel := ⟨.new, fun r => r.isHost, []⟩

inductive Move
  | lock
  | read (message : List UInt8) (packetLen : Nat) (untrustedPacket bounceBuf : Bool)
  | write (gcmOk : Bool)
  | deliver (untrustedPacket messageBuf bounceBuf gcmOk : Bool)
  | lose
  | store
  | unlock
  | finish (ok : Bool)
  deriving DecidableEq, Repr

inductive TunnelAction
  | call (r : Role)
  | move (i : Nat) (m : Move)
  deriving DecidableEq, Repr

def Tunnel.put (s : Tunnel) (i : Nat) (t : Transaction) : Tunnel :=
  { s with transactions := s.transactions.set i t }

def Tunnel.drop (s : Tunnel) (i : Nat) : Tunnel :=
  { s with transactions := s.transactions.eraseIdx i }

def Tunnel.setLocked (s : Tunnel) (r : Role) (b : Bool) : Tunnel :=
  { s with locked := Function.update s.locked r b }

def Tunnel.access (gcm : Gcm) (key : List UInt8) (s : Tunnel) (i : Nat) (caller : Role) (a : Action)
    (next : Phase) : Option Tunnel :=
  (s.session.step gcm key a).map fun session => { s with session := session }.put i ⟨caller, next⟩

/-- What a step does to the transaction `i`, which is `caller`'s and stands at a phase. A packet
that the peer's handler refuses is an error to the caller, and so is a reply that the handler
cannot encrypt. -/
def Tunnel.advance (gcm : Gcm) (key : List UInt8) (s : Tunnel) (i : Nat) (caller : Role) :
    Phase → Move → Option Tunnel
  | .locking leg, .lock =>
    if s.locked (caller.author leg) then none
    else some ((s.setLocked (caller.author leg) true).put i ⟨caller, .encrypting leg⟩)
  | .aborting, .lock =>
    if s.locked caller.peer then none
    else some ((s.setLocked caller.peer true).put i ⟨caller, .failed⟩)
  | .encrypting leg, .read message packetLen untrustedPacket bounceBuf =>
    s.access gcm key i caller
      (.encryptRead (caller.author leg) message packetLen untrustedPacket bounceBuf)
      (match encryptReady message.length packetLen untrustedPacket bounceBuf with
        | .error _ => .failed
        | .ok () => .counted leg (s.session.counter (caller.author leg)) message)
  | .counted leg counter message, .write gcmOk =>
    s.access gcm key i caller (.encryptWrite (caller.author leg) counter message gcmOk)
      (match sealPacket gcm key (caller.author leg).isHost (counter + 1) message gcmOk with
        | .error _ => .failed
        | .ok packet => .sent leg packet)
  | .sent leg packet, .deliver untrustedPacket messageBuf bounceBuf gcmOk =>
    s.access gcm key i caller
      (.newMessageCheck (caller.author leg).peer packet untrustedPacket messageBuf bounceBuf gcmOk)
      (match openPacket gcm key (s.session.counter (caller.author leg).peer) packet untrustedPacket
          messageBuf bounceBuf gcmOk with
        | .error _ => .failed
        | .ok _ => .checked leg packet)
  | .sent _ _, .lose => some (s.put i ⟨caller, .failed⟩)
  | .checked leg packet, .store =>
    s.access gcm key i caller (.newMessageStore (caller.author leg).peer packet) (.accepted leg)
  | .accepted .request, .unlock => some ((s.setLocked caller.peer false).put i ⟨caller, .running⟩)
  | .accepted .reply, .unlock => some ((s.setLocked caller false).drop i)
  | .failed, .unlock => some ((s.setLocked caller false).drop i)
  | .running, .finish ok => some (s.put i ⟨caller, if ok then .locking .reply else .aborting⟩)
  | _, _ => none

def Tunnel.step (gcm : Gcm) (key : List UInt8) (s : Tunnel) : TunnelAction → Option Tunnel
  | .call r => some { s with transactions := s.transactions ++ [⟨r, .locking .request⟩] }
  | .move i m => s.transactions[i]?.bind fun t => s.advance gcm key i t.caller t.phase m

def Phase.counterNew : Phase → Option UInt64
  | .counted _ counter _ => some (counter + 1)
  | _ => none

/-- The counters stay in step if no encryption increments the last counter value, and no call is
given up while the peer's counter is ahead of the caller's. -/
def Tunnel.InStep (s : Tunnel) : TunnelAction → Prop
  | .move i (.write _) => ∀ t ∈ s.transactions[i]?, t.phase.counterNew ≠ some 0
  | .move i .unlock => ∀ t ∈ s.transactions[i]?, t.phase = .failed →
    s.session.counter t.caller.peer ≤ s.session.counter t.caller
  | _ => True

instance (s : Tunnel) (a : TunnelAction) : Decidable (s.InStep a) :=
  match a with
  | .move i (.write _) =>
    inferInstanceAs (Decidable (∀ t ∈ s.transactions[i]?, t.phase.counterNew ≠ some 0))
  | .move i .unlock =>
    inferInstanceAs (Decidable (∀ t ∈ s.transactions[i]?, t.phase = .failed →
      s.session.counter t.caller.peer ≤ s.session.counter t.caller))
  | .call _ | .move _ .lock | .move _ (.read ..) | .move _ (.deliver ..) | .move _ .lose |
    .move _ .store | .move _ (.finish _) => inferInstanceAs (Decidable True)

end MinkIpc.TunnelInvoke
