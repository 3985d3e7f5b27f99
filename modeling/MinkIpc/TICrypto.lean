import MinkIpc.Run
import MinkIpc.Bytes
import MinkIpc.ObjectError

/-! The packets of a Tunnel Invoke session. The cipher is a parameter. An operation reads the
session counter and writes it later without a lock, so the session performs the two accesses as
separate steps. -/

namespace MinkIpc.TunnelInvoke

inductive Role
  | client
  | host
  deriving DecidableEq, Repr

def Role.isHost : Role → Bool
  | client => false
  | host => true

def Role.peer : Role → Role
  | client => host
  | host => client

/-- The header is the additional authenticated data; `padding` is what the
compiler adds to it after `iv`. -/
structure TIPacketHeader where
  counter : UInt64
  iv : List UInt8
  padding : List UInt8
  deriving DecidableEq, Repr

structure TIPacket where
  header : TIPacketHeader
  tag : List UInt8
  message : List UInt8
  deriving DecidableEq, Repr

def TIPacketHeader.bytes (h : TIPacketHeader) : List UInt8 :=
  Bytes.le 8 h.counter.toNat ++ h.iv ++ h.padding

def ivLenBytes : Nat := 12

def offsetofMessage : Nat := 40
def sizeofTIPacket : Nat := 56

/-- Authenticated encryption as `TICrypto_port_doGCM` offers it: `encrypt` gives
the ciphertext and the tag, `decrypt` checks the tag. -/
structure Gcm where
  encrypt : (key iv aad plain : List UInt8) → List UInt8 × List UInt8
  decrypt : (key iv tag aad cipher : List UInt8) → Option (List UInt8)

def getPacketLen (messageLen : Nat) : Nat := messageLen + offsetofMessage

def TIPacket.len (p : TIPacket) : Nat := getPacketLen p.message.length

def constructIV (counter : UInt64) (isHost : Bool) (ivLen : Nat) :
    Except ObjectError (List UInt8) :=
  let id := if isHost then 1 else 0
  if 8 + 4 > ivLen then .error .error
  else .ok (Bytes.le 8 counter.toNat ++ Bytes.le 4 id)

/-- What `TICrypto_encrypt` checks before it touches the counter. `bounceBuf`
says whether the bounce buffer can be allocated. -/
def encryptReady (messageLen packetLen : Nat) (untrustedPacket bounceBuf : Bool) :
    Except ObjectError Unit :=
  if packetLen < getPacketLen messageLen then .error .error
  else if untrustedPacket && !bounceBuf then .error .mem
  else .ok ()

/-- What `TICrypto_encrypt` does with the counter value it has just stored.
`gcmOk` is false when the cipher library fails. -/
def sealPacket (gcm : Gcm) (key : List UInt8) (isHost : Bool) (counterNew : UInt64)
    (message : List UInt8) (gcmOk : Bool) : Except ObjectError TIPacket := do
  if counterNew = 0 then throw .maxReplay
  let iv ← constructIV counterNew isHost ivLenBytes
  let header : TIPacketHeader := ⟨counterNew, iv, [0, 0, 0, 0]⟩
  if !gcmOk then throw .error
  let (cipher, tag) := gcm.encrypt key iv header.bytes message
  return ⟨header, tag, cipher⟩

def openPacket (gcm : Gcm) (key : List UInt8) (counterSession : UInt64) (packet : TIPacket)
    (untrustedPacket messageBuf bounceBuf gcmOk : Bool) : Except ObjectError (List UInt8) :=
  if packet.len < sizeofTIPacket then .error .error
  else if !messageBuf then .error .mem
  else if untrustedPacket && !bounceBuf then .error .mem
  else if !gcmOk then .error .error
  else match gcm.decrypt key packet.header.iv packet.tag packet.header.bytes packet.message with
    | none => .error .error
    | some message =>
      if packet.header.counter > counterSession then .ok message else .error .replay

def newMessage (gcm : Gcm) (key : List UInt8) (counterSession : UInt64) (packet : TIPacket)
    (untrustedPacket messageBuf bounceBuf gcmOk : Bool) :
    UInt64 × Except ObjectError (List UInt8) :=
  match openPacket gcm key counterSession packet untrustedPacket messageBuf bounceBuf gcmOk with
  | .error e => (counterSession, .error e)
  | .ok message => (packet.header.counter, .ok message)

end MinkIpc.TunnelInvoke
