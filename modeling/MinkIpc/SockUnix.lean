import MinkIpc.ObjectError
import MinkIpc.Wire

/-! Reception on a UNIX stream socket. The bytes come in pieces, each with the descriptors that the
kernel attaches to it; the size in the header says how much is received after it. -/

namespace MinkIpc.SockUnix

open Bytes

def objectCountsMaxOI : Nat := 15
def sizeofLxcomHdr : Nat := 12
def sizeofCmsghdr : Nat := 16

/-- What one `recvmsg` can return, if it asks for as much: bytes and the number of descriptors with
them. -/
structure Piece where
  bytes : List UInt8
  numFds : Nat
  nonempty : 0 < bytes.length
  ssize : bytes.length < 2 ^ 63
  deriving DecidableEq

/-- `fds` are the descriptors of the pieces, in the order in which they were sent. -/
structure Stream where
  pieces : List Piece
  fds : List Int
  deriving DecidableEq

/-- The kernel is asked to write `len` bytes at `base` in a buffer of `capacity` bytes. -/
structure Request where
  base : Nat
  len : Nat
  capacity : Nat
  deriving DecidableEq, Repr

/-- `controlLen` is `msg_controllen` and `fds` the caller's array; `asked` has the requests made,
`closed` the descriptors closed and `received` those that have come to the process. -/
structure RecvState where
  buf : Mem
  base : Nat
  len : Nat
  controlLen : Nat
  fdCount : Nat
  fds : List Int
  stream : Stream
  asked : List Request
  closed : List Int
  received : List Int

def toSsize (n : Nat) : Int := if n < 2 ^ 63 then n else n - 2 ^ 64

/-- Word `i` of the control data where the kernel has written nothing: the first `numFdsMax`
bytes have been set to `0xff`, the others to 0. -/
def controlFill (numFdsMax i : Nat) : Int :=
  if 4 * i + 4 ≤ numFdsMax then -1 else 256 ^ (numFdsMax - 4 * i) - 1

def controlData (numFdsMax : Nat) (msgFds : List Int) (n : Nat) : List Int :=
  msgFds ++ (List.range' msgFds.length (n - msgFds.length)).map (controlFill numFdsMax)

def Piece.rest (p : Piece) (n : Nat) (h : n < p.bytes.length) : Piece where
  bytes := p.bytes.drop n
  numFds := 0
  nonempty := by rw [List.length_drop]; omega
  ssize := by
    have hlt := p.ssize
    rw [List.length_drop]
    omega

/-- What `recvmsg` leaves in `msg_controllen`: `CMSG_SPACE` of the descriptors, where that fits. -/
def controlUsed (controlLen numFds : Nat) : Nat :=
  if numFds = 0 then 0 else min controlLen (sizeofCmsghdr + (4 * numFds + 7) / 8 * 8)

namespace RecvState

-- the control buffer has room for the descriptors of one message
def start (buf : Mem) (base size : Nat) (fds : List Int) (stream : Stream) : RecvState :=
  ⟨buf, base, size, sizeofCmsghdr + objectCountsMaxOI * 4, 0, fds, stream, [], [], []⟩

/-- The descriptors of a piece for which the control data has room; the kernel drops the others. -/
def delivered (p : Piece) (st : RecvState) : List Int :=
  (st.stream.fds.take p.numFds).take ((st.controlLen - sizeofCmsghdr) / 4)

def ask (capacity : Nat) (st : RecvState) : RecvState :=
  { st with asked := st.asked ++ [⟨st.base, st.len, capacity⟩] }

def takePiece (p : Piece) (msgFds : List Int) (ps : List Piece) (st : RecvState) : RecvState :=
  { st with
    buf := write st.buf st.base (p.bytes.take st.len)
    controlLen := controlUsed st.controlLen msgFds.length
    received := st.received ++ msgFds
    stream :=
      { pieces := if h : st.len < p.bytes.length then p.rest st.len h :: ps else ps
        fds := st.stream.fds.drop p.numFds } }

def tooMany (numFdsMax : Nat) (msgFds : List Int) (st : RecvState) : RecvState :=
  { st with closed := st.closed ++ st.fds.take numFdsMax ++ msgFds.drop (numFdsMax - st.fdCount) }

def collect (numFdsMax : Nat) (msgFds : List Int) (st : RecvState) : RecvState :=
  let fdCount := st.fdCount + msgFds.length
  { st with
    fdCount := fdCount
    fds := controlData numFdsMax msgFds fdCount ++ st.fds.drop fdCount }

def advance (cb : Nat) (st : RecvState) : RecvState :=
  if cb ≤ toSsize st.len then { st with base := st.base + cb, len := st.len - cb } else st

end RecvState

/-- The loop of `SockUNIX_recvMsg` over the pieces that are left, and whether it ends without
an error. A piece that is longer than what is asked for is the last one, since `ssize_t` has
room for the length of every piece. -/
def recvMsgLoop (capacity numFdsMax : Nat) : List Piece → RecvState → RecvState × Bool
  | [], st => if st.len = 0 then (st, true) else (st.ask capacity, false)
  | p :: ps, st =>
    if st.len = 0 then (st, true)
    else
      let msgFds := st.delivered p
      let cb := (p.bytes.take st.len).length
      let st := (st.ask capacity).takePiece p msgFds ps
      if numFdsMax < st.fdCount + msgFds.length then (st.tooMany numFdsMax msgFds, false)
      else recvMsgLoop capacity numFdsMax ps ((st.collect numFdsMax msgFds).advance cb)

/-- `SockUNIX_recvMsg` into `size` bytes at `base` of a buffer; `none` is the source's -1. -/
def recvMsg (capacity : Nat) (buf : Mem) (base size : Nat) (fds : List Int) (numFdsMax : Nat)
    (stream : Stream) : RecvState × Option Nat :=
  let (st, ok) := recvMsgLoop capacity numFdsMax stream.pieces (.start buf base size fds stream)
  (st, if ok then some st.fdCount else none)

structure Message where
  buf : Mem
  sizeMsg : Nat
  fds : List Int

structure Received where
  result : Except ObjectError Message
  stream : Stream
  asked : List Request
  closed : List Int
  received : List Int

/-- The size of the buffer for the body in `SockUNIX_recv`: the preallocated one unless the message
is too large. -/
def bodyCapacity (sizeAct : Nat) : Nat :=
  if msgBufferPrealloc < sizeAct then sizeAct else msgBufferPrealloc

def bodyBuf (msg : Mem) : Mem :=
  if msgBufferPrealloc < hdrSize msg then write (fun _ => 0) 0 (read msg 0 sizeofLxcomHdr) else msg

def bodySize (sizeAct : Nat) : Nat := (sizeAct + (2 ^ 64 - sizeofLxcomHdr)) % 2 ^ 64

def recvBody (mem : Bool) (sizeMsg numFds : Nat) (hdr : RecvState) (statHdr : Nat) : Received :=
  let sizeAct := hdrSize hdr.buf
  if msgBufferPrealloc < sizeAct ∧ sizeMsg < sizeAct then
    ⟨.error .invalid, hdr.stream, hdr.asked, hdr.closed, hdr.received⟩
  else if msgBufferPrealloc < sizeAct ∧ mem = false then
    ⟨.error .mem, hdr.stream, hdr.asked, hdr.closed, hdr.received⟩
  else
    match recvMsg (bodyCapacity sizeAct) (bodyBuf hdr.buf) sizeofLxcomHdr (bodySize sizeAct)
        (hdr.fds.drop statHdr) (numFds - statHdr) hdr.stream with
    | (bdy, none) =>
      ⟨.error .defunct, bdy.stream, hdr.asked ++ bdy.asked,
        hdr.closed ++ bdy.closed ++ hdr.fds.take statHdr, hdr.received ++ bdy.received⟩
    | (bdy, some statBdy) =>
      ⟨.ok ⟨bdy.buf, sizeAct, hdr.fds.take statHdr ++ bdy.fds.take statBdy⟩, bdy.stream,
        hdr.asked ++ bdy.asked, hdr.closed ++ bdy.closed, hdr.received ++ bdy.received⟩

/-- `SockUNIX_recv` with the preallocated buffer `msg`, where `sizeMsg` is the size that can be
received; `mem` says whether a larger buffer can be allocated. -/
def recv (mem : Bool) (msg : Mem) (sizeMsg : Nat) (fds : List Int) (numFds : Nat)
    (stream : Stream) : Received :=
  match recvMsg msgBufferPrealloc msg 0 sizeofLxcomHdr fds numFds stream with
  | (hdr, none) => ⟨.error .defunct, hdr.stream, hdr.asked, hdr.closed, hdr.received⟩
  | (hdr, some statHdr) => recvBody mem sizeMsg numFds hdr statHdr

def processRecv (mem : Bool) (stream : Stream) : Received :=
  recv mem (fun _ => 0) msgBufferMax (List.replicate objectCountsMaxOI (-1)) objectCountsMaxOI
    stream

def Stream.bytes (s : Stream) : List UInt8 := s.pieces.flatMap Piece.bytes

def Stream.hdrSize (s : Stream) : Nat := ofLe (s.bytes.take 4)

section Loop

variable {capacity numFdsMax : Nat} {st : RecvState} {p : Piece} {ps : List Piece}

def RecvState.next (capacity numFdsMax : Nat) (p : Piece) (ps : List Piece) (st : RecvState) :
    RecvState :=
  (((st.ask capacity).takePiece p (st.delivered p) ps).collect numFdsMax (st.delivered p)).advance
    (p.bytes.take st.len).length

theorem recvMsgLoop_cons (hlen : st.len ≠ 0) : recvMsgLoop capacity numFdsMax (p :: ps) st =
      if numFdsMax < st.fdCount + (st.delivered p).length then
        (((st.ask capacity).takePiece p (st.delivered p) ps).tooMany numFdsMax (st.delivered p), false)
      else recvMsgLoop capacity numFdsMax ps (st.next capacity numFdsMax p ps) := by
  rw [recvMsgLoop, if_neg hlen]
  rfl

theorem recvMsgLoop_of_len_eq_zero (hlen : st.len = 0) :
    recvMsgLoop capacity numFdsMax ps st = (st, true) := by
  cases ps <;> rw [recvMsgLoop, if_pos hlen]

namespace RecvState

variable (capacity numFdsMax p ps st)

@[simp]
theorem next_stream : (st.next capacity numFdsMax p ps).stream =
    ((st.ask capacity).takePiece p (st.delivered p) ps).stream := by
  unfold next advance
  split <;> rfl

@[simp]
theorem next_buf : (st.next capacity numFdsMax p ps).buf =
    write st.buf st.base (p.bytes.take st.len) := by
  unfold next advance
  split <;> rfl

@[simp]
theorem next_fdCount : (st.next capacity numFdsMax p ps).fdCount =
    st.fdCount + (st.delivered p).length := by
  unfold next advance
  split <;> rfl

@[simp]
theorem next_fds : (st.next capacity numFdsMax p ps).fds =
    controlData numFdsMax (st.delivered p) (st.fdCount + (st.delivered p).length) ++
      st.fds.drop (st.fdCount + (st.delivered p).length) := by
  unfold next advance
  split <;> rfl

@[simp]
theorem next_controlLen : (st.next capacity numFdsMax p ps).controlLen =
    controlUsed st.controlLen (st.delivered p).length := by
  unfold next advance
  split <;> rfl

@[simp]
theorem next_received : (st.next capacity numFdsMax p ps).received =
    st.received ++ st.delivered p := by
  unfold next advance
  split <;> rfl

@[simp]
theorem next_asked : (st.next capacity numFdsMax p ps).asked =
    st.asked ++ [⟨st.base, st.len, capacity⟩] := by
  unfold next advance
  split <;> rfl

@[simp]
theorem next_closed : (st.next capacity numFdsMax p ps).closed = st.closed := by
  unfold next advance
  split <;> rfl

variable {st}

theorem next_of_lt (h : st.len < 2 ^ 63) :
    (st.next capacity numFdsMax p ps).base = st.base + (p.bytes.take st.len).length ∧
      (st.next capacity numFdsMax p ps).len = st.len - (p.bytes.take st.len).length := by
  have hle : ((p.bytes.take st.len).length : Int) ≤ toSsize st.len := by
    have hmin : (p.bytes.take st.len).length ≤ st.len := List.length_take_le _ _
    rw [toSsize]
    omega
  unfold next advance
  rw [if_pos]
  · exact ⟨rfl, rfl⟩
  · exact hle

theorem next_of_ge (h : 2 ^ 63 ≤ st.len) (hlt : st.len < 2 ^ 64) :
    (st.next capacity numFdsMax p ps).len = st.len := by
  have hgt : ¬ ((p.bytes.take st.len).length : Int) ≤ toSsize st.len := by
    rw [toSsize]
    omega
  unfold next advance
  rw [if_neg]
  · rfl
  · exact hgt

end RecvState

theorem next_pieces (capacity numFdsMax : Nat) (p : Piece) (ps : List Piece) (st : RecvState) :
    (st.next capacity numFdsMax p ps).len = 0 ∨
      (st.next capacity numFdsMax p ps).stream.pieces = ps := by
  by_cases hrest : st.len < p.bytes.length
  · left
    have hssize := p.ssize
    rw [(RecvState.next_of_lt capacity numFdsMax p ps (by omega)).2, List.length_take]
    omega
  · right
    rw [RecvState.next_stream]
    exact dif_neg hrest

/-- How the loop ends: in the state `st` with nothing left to receive, with a `recvmsg` that
fails, or with too many descriptors. -/
inductive Ends (capacity numFdsMax : Nat) (st : RecvState) : RecvState × Bool → Prop
  | full (hlen : st.len = 0) : Ends capacity numFdsMax st (st, true)
  | failed (hlen : st.len ≠ 0) (hpieces : st.stream.pieces = []) :
      Ends capacity numFdsMax st (st.ask capacity, false)
  | tooMany {p : Piece} {ps : List Piece} (hlen : st.len ≠ 0) (hpieces : st.stream.pieces = p :: ps)
      (hmany : numFdsMax < st.fdCount + (st.delivered p).length) :
      Ends capacity numFdsMax st
        (((st.ask capacity).takePiece p (st.delivered p) ps).tooMany numFdsMax (st.delivered p), false)

theorem recvMsgLoop_ends {I : RecvState → Prop}
    (hnext : ∀ st p ps, st.len ≠ 0 → st.stream.pieces = p :: ps →
      st.fdCount + (st.delivered p).length ≤ numFdsMax → I st →
      I (st.next capacity numFdsMax p ps))
    (hI : I st) (hpieces : st.len = 0 ∨ st.stream.pieces = ps) :
    ∃ st', I st' ∧ Ends capacity numFdsMax st' (recvMsgLoop capacity numFdsMax ps st) := by
  induction ps generalizing st with
  | nil =>
    unfold recvMsgLoop
    split_ifs with hlen
    · exact ⟨st, hI, .full hlen⟩
    · exact ⟨st, hI, .failed hlen (hpieces.resolve_left hlen)⟩
  | cons p ps ih =>
    by_cases hlen : st.len = 0
    · rw [recvMsgLoop_of_len_eq_zero hlen]
      exact ⟨st, hI, .full hlen⟩
    rw [recvMsgLoop_cons hlen]
    have hps := hpieces.resolve_left hlen
    split_ifs with hmany
    · exact ⟨st, hI, .tooMany hlen hps hmany⟩
    · exact ih (hnext st p ps hlen hps (by omega) hI) (next_pieces capacity numFdsMax p ps st)

/-- How far the loop has come from `st₀`, for a size that is not negative as an `ssize_t`. -/
structure Progress (capacity : Nat) (st₀ st : RecvState) : Prop where
  short : st.len < 2 ^ 63
  span : st.base + st.len = st₀.base + st₀.len
  bytes : read st.buf 0 st.base ++ st.stream.bytes = read st₀.buf 0 st₀.base ++ st₀.stream.bytes
  asked : ∀ q ∈ st.asked, q.capacity = capacity ∧ q.base + q.len = st₀.base + st₀.len

theorem takePiece_bytes (msgFds : List Int) :
    (st.takePiece p msgFds ps).stream.bytes = p.bytes.drop st.len ++ ps.flatMap Piece.bytes := by
  unfold RecvState.takePiece Stream.bytes
  by_cases h : st.len < p.bytes.length
  · simp [h, Piece.rest]
  · simp [h, List.drop_eq_nil_of_le (Nat.le_of_not_lt h)]

theorem Progress.next {st₀ : RecvState} (h : Progress capacity st₀ st)
    (hpieces : st.stream.pieces = p :: ps) :
    Progress capacity st₀ (st.next capacity numFdsMax p ps) := by
  obtain ⟨hbase, hlen⟩ := RecvState.next_of_lt capacity numFdsMax p ps h.short
  have hle : (p.bytes.take st.len).length ≤ st.len := List.length_take_le _ _
  have hspan := h.span
  have hshort := h.short
  refine ⟨by omega, by omega, ?_, ?_⟩
  · rw [RecvState.next_stream, takePiece_bytes, hbase, RecvState.next_buf, read_write_append,
      ← h.bytes]
    show read st.buf 0 st.base ++ p.bytes.take st.len ++
      (p.bytes.drop st.len ++ ps.flatMap Piece.bytes) = _
    rw [List.append_assoc, ← List.append_assoc (p.bytes.take st.len), List.take_append_drop,
      Stream.bytes, hpieces, List.flatMap_cons]
  · intro q hq
    rw [RecvState.next_asked, List.mem_append, List.mem_singleton] at hq
    rcases hq with hq | rfl
    · exact h.asked q hq
    · exact ⟨rfl, hspan⟩

theorem recvMsg_spec {buf : Mem} {base size : Nat} {fds : List Int} {stream : Stream}
    {r : Option Nat} (hsize : size < 2 ^ 63)
    (h : recvMsg capacity buf base size fds numFdsMax stream = (st, r)) :
    (∀ q ∈ st.asked, q.capacity = capacity ∧ q.base + q.len = base + size) ∧
      (r.isSome → read st.buf 0 (base + size) ++ st.stream.bytes =
        read buf 0 base ++ stream.bytes) := by
  have hstart : Progress capacity (.start buf base size fds stream)
      (.start buf base size fds stream) := ⟨hsize, rfl, rfl, by simp [RecvState.start]⟩
  obtain ⟨st', hprogress, hends⟩ := @recvMsgLoop_ends capacity numFdsMax _ stream.pieces _
    (fun _ _ _ _ hpieces _ hI => Progress.next hI hpieces) hstart (.inr rfl)
  have hasked : ∀ q ∈ st'.asked ++ [⟨st'.base, st'.len, capacity⟩],
      q.capacity = capacity ∧ q.base + q.len = base + size :=
    List.forall_mem_append.mpr
      ⟨hprogress.asked, List.forall_mem_singleton.mpr ⟨rfl, hprogress.span⟩⟩
  unfold recvMsg at h
  generalize hloop : recvMsgLoop capacity numFdsMax stream.pieces _ = result at h hends
  cases hends with
  | full hlen =>
    have hbase : st'.base = base + size := by
      have hspan := hprogress.span
      rwa [hlen, Nat.add_zero] at hspan
    cases h
    exact ⟨hprogress.asked, fun _ => hbase ▸ hprogress.bytes⟩
  | failed hlen hpieces | tooMany hlen hpieces hmany =>
    cases h
    exact ⟨hasked, nofun⟩

end Loop

/-- Nothing is written outside the buffer in use, and the size reported counts the bytes received
into it. -/
structure Bounded (stream : Stream) (r : Received) : Prop where
  inside : ∀ q ∈ r.asked, q.base + q.len ≤ q.capacity
  holds : ∀ m, r.result = .ok m → read m.buf 0 m.sizeMsg ++ r.stream.bytes = stream.bytes

theorem hdrSize_eq {buf : Mem} {rest bytes : List UInt8}
    (h : read buf 0 sizeofLxcomHdr ++ rest = bytes) : hdrSize buf = ofLe (bytes.take 4) := by
  have htake : bytes.take 4 = read buf 0 4 := by
    rw [← h]
    rfl
  rw [htake]
  rfl

theorem bodySize_of_le {sizeAct : Nat} (hle : sizeofLxcomHdr ≤ sizeAct) (hlt : sizeAct < 2 ^ 32) :
    bodySize sizeAct = sizeAct - sizeofLxcomHdr := by
  unfold bodySize
  omega

theorem read_bodyBuf (msg : Mem) :
    read (bodyBuf msg) 0 sizeofLxcomHdr = read msg 0 sizeofLxcomHdr := by
  unfold bodyBuf
  split_ifs with hlarge
  · have hcopy := read_write_self (fun _ => 0) 0 (read msg 0 sizeofLxcomHdr)
    rwa [length_read] at hcopy
  · rfl

theorem bounded_recvBody {mem : Bool} {sizeMsg numFds statHdr : Nat} {hdr : RecvState}
    {stream : Stream} (hsize : sizeofLxcomHdr ≤ hdrSize hdr.buf)
    (hinside : ∀ q ∈ hdr.asked, q.base + q.len ≤ q.capacity)
    (hall : read hdr.buf 0 sizeofLxcomHdr ++ hdr.stream.bytes = stream.bytes) :
    Bounded stream (recvBody mem sizeMsg numFds hdr statHdr) := by
  have hlt : hdrSize hdr.buf < 2 ^ 32 := word_lt hdr.buf 0 4
  unfold recvBody
  dsimp only
  split_ifs with hinvalid hnomem
  · exact ⟨hinside, nofun⟩
  · exact ⟨hinside, nofun⟩
  · rw [bodySize_of_le hsize hlt]
    generalize hbdy : recvMsg _ _ sizeofLxcomHdr _ _ _ hdr.stream = second
    obtain ⟨bdy, statBdy⟩ := second
    obtain ⟨hasked, hbytes⟩ := recvMsg_spec (by omega) hbdy
    rw [Nat.add_sub_cancel' hsize, read_bodyBuf, hall] at hbytes
    have hinside' : ∀ q ∈ hdr.asked ++ bdy.asked, q.base + q.len ≤ q.capacity := by
      intro q hq
      rcases List.mem_append.mp hq with hq | hq
      · exact hinside q hq
      · obtain ⟨hcapacity, hspan⟩ := hasked q hq
        rw [hcapacity]
        unfold bodyCapacity
        split_ifs <;> omega
    cases statBdy with
    | none => exact ⟨hinside', nofun⟩
    | some statBdy =>
      refine ⟨hinside', fun m hm => ?_⟩
      cases hm
      exact hbytes rfl

theorem bounded_of_le {mem : Bool} {stream : Stream} (hsize : sizeofLxcomHdr ≤ stream.hdrSize) :
    Bounded stream (processRecv mem stream) := by
  unfold processRecv recv
  generalize hhdr : recvMsg msgBufferPrealloc _ 0 sizeofLxcomHdr _ _ stream = first
  obtain ⟨hdr, statHdr⟩ := first
  obtain ⟨hasked, hbytes⟩ := recvMsg_spec (by decide) hhdr
  have hinside : ∀ q ∈ hdr.asked, q.base + q.len ≤ q.capacity := by
    intro q hq
    obtain ⟨hcapacity, hspan⟩ := hasked q hq
    rw [hcapacity, hspan]
    decide
  cases statHdr with
  | none => exact ⟨hinside, nofun⟩
  | some statHdr => exact bounded_recvBody (hdrSize_eq (hbytes rfl) ▸ hsize) hinside (hbytes rfl)

def shortHeader (size : Nat) : Stream :=
  ⟨[⟨le 4 size ++ le 4 lxcomSuccess ++ le 4 0, 0, by simp, by simp⟩], []⟩

theorem asked_outside : ∀ size < sizeofLxcomHdr, ∃ q ∈ (processRecv true (shortHeader size)).asked,
      q.capacity < q.base + q.len := by
  decide

theorem hdrSize_shortHeader {size : Nat} (h : size < 2 ^ 32) :
    (shortHeader size).hdrSize = size := by
  have htake : (shortHeader size).bytes.take 4 = le 4 size := by
    simp [shortHeader, Stream.bytes]
  rw [Stream.hdrSize, htake, ofLe_le_of_lt h]

/-- The size field that keeps the reception inside the buffer is at least the size of the
header. -/
theorem recv_bounded_iff (size : UInt32) :
    (∀ mem stream, stream.hdrSize = size.toNat → Bounded stream (processRecv mem stream)) ↔
      sizeofLxcomHdr ≤ size.toNat := by
  constructor
  · intro h
    by_contra hlt
    have hsize := hdrSize_shortHeader size.toNat_lt
    obtain ⟨q, hq, hout⟩ := asked_outside size.toNat (by omega)
    have hin := (h true (shortHeader size.toNat) hsize).inside q hq
    omega
  · intro h mem stream hsize
    exact bounded_of_le (hsize ▸ h)

theorem recv_asks_outside : (shortHeader 4).hdrSize = 4 ∧
      ⟨12, 2 ^ 64 - 8, 1024⟩ ∈ (processRecv true (shortHeader 4)).asked ∧
      ¬ Bounded (shortHeader 4) (processRecv true (shortHeader 4)) := by
  refine ⟨by decide, by decide, fun h => ?_⟩
  exact absurd (h.inside ⟨12, 2 ^ 64 - 8, 1024⟩ (by decide)) (by decide)

end MinkIpc.SockUnix
