import MinkIpc.Bytes
import MinkIpc.Rpmb

/-! Authenticated reads from the replay protected memory block of a UFS device. Requests and responses
share a buffer, so the request frames of a read in several transfers are copied first. -/

namespace MinkIpc.Rpmb

open Bytes

/-- The outcomes of the calls and what the device sends back. The limit is a byte of its geometry. -/
structure UfsReader where
  malloc : Bool
  openRet : Int
  relWrCount : UInt8
  sendRet : Nat → Int
  readRet : Nat → Int
  response : Nat → Mem

/-- One transfer: the request frame sent, the address of the response and its frames. -/
structure ReadTrans where
  frame : List UInt8
  respBuf : Nat
  frames : Nat

structure ReadState where
  mem : Mem
  respBuf : Nat
  blkCntRem : UInt32
  tempBlkCnt : UInt32
  done : List ReadTrans

structure ReadOutcome where
  ret : Int
  respLen : UInt32
  state : ReadState

def framesOf (done : List ReadTrans) : Nat := (done.map ReadTrans.frames).sum

section Model

variable (dev : UfsReader)

-- The last case is the one that should not come up; it keeps the count of the transfer before.
def chunk (s : ReadState) : UInt32 :=
  if 0 < s.blkCntRem ∧ s.blkCntRem ≤ dev.relWrCount.toUInt32 then s.blkCntRem
  else if s.blkCntRem > dev.relWrCount.toUInt32 then dev.relWrCount.toUInt32
  else s.tempBlkCnt

def ReadState.next (frame : List UInt8) (s : ReadState) : ReadState where
  mem := write s.mem s.respBuf (read (dev.response s.done.length) 0 (chunk dev s * 512).toNat)
  respBuf := s.respBuf + (chunk dev s * 512).toNat
  blkCntRem := s.blkCntRem - chunk dev s
  tempBlkCnt := chunk dev s
  done := s.done ++ [⟨frame, s.respBuf, (chunk dev s).toNat⟩]

/-- `cached` is the memory as it was copied, if it was. -/
def readLoop (cached : Option Mem) (reqBuf : Nat) : Nat → ReadState → Int × ReadState
  | 0, s => (0, s)
  | n + 1, s =>
    let i := s.done.length
    if dev.sendRet i ≠ 0 then (dev.sendRet i, s)
    else if dev.readRet i ≠ 0 then (dev.readRet i, s)
    else readLoop cached reqBuf n (s.next dev (read (cached.getD s.mem) (reqBuf + i * blkSize) blkSize))

/-- No outcome stands for the division by zero and for the overflow of the size of the copy. -/
def rpmbUfsRead (mem : Mem) (reqBuf : Nat) (blkCnt : UInt32) (respBuf : Nat) (respLen : UInt32) :
    Option ReadOutcome :=
  let rel := dev.relWrCount.toUInt32
  let s : ReadState := ⟨mem, respBuf, blkCnt, blkCnt, []⟩
  if rel = 0 then none
  else
    let numRpmbTrans := toInt (blkCnt / rel).toNat + if blkCnt % rel ≠ 0 then 1 else 0
    if numRpmbTrans > 1 ∧ numRpmbTrans * blkSize ≥ 2 ^ 31 then none
    else if numRpmbTrans > 1 ∧ dev.malloc = false then some ⟨-12, respLen, s⟩
    else
      let cached := if numRpmbTrans > 1 then some mem else none
      let (ret, s) := if dev.openRet ≠ 0 then (dev.openRet, s)
        else readLoop dev cached reqBuf numRpmbTrans.toNat s
      some ⟨ret, blkCnt * 512, s⟩

end Model

section Chunks

variable {dev : UfsReader} {mem : Mem} {reqBuf respBuf : Nat} {blkCnt : UInt32} {s : ReadState}

/-- Transfer `j` sends request frame `j`, reads up to the limit and stores the response right behind
those before it. -/
structure Chunks (dev : UfsReader) (mem : Mem) (reqBuf respBuf : Nat) (blkCnt : UInt32)
    (s : ReadState) : Prop where
  each : ∀ j t, s.done[j]? = some t → t.frame = read mem (reqBuf + j * blkSize) blkSize ∧
    1 ≤ t.frames ∧ t.frames ≤ dev.relWrCount.toNat ∧
    t.respBuf = respBuf + framesOf (s.done.take j) * blkSize
  stored : read s.mem respBuf (framesOf s.done * blkSize) =
    s.done.zipIdx.flatMap fun (t, j) => read (dev.response j) 0 (t.frames * blkSize)
  address : s.respBuf = respBuf + framesOf s.done * blkSize
  rest : framesOf s.done + s.blkCntRem.toNat = blkCnt.toNat

theorem chunk_toNat (dev : UfsReader) (h : 0 < s.blkCntRem.toNat) :
    (chunk dev s).toNat = min s.blkCntRem.toNat dev.relWrCount.toNat := by
  have hrel : dev.relWrCount.toUInt32.toNat = dev.relWrCount.toNat := UInt8.toNat_toUInt32 _
  unfold chunk
  split_ifs with hle hlt
  · have hle' := UInt32.le_iff_toNat_le.mp hle.2
    omega
  · have hlt' := UInt32.lt_iff_toNat_lt.mp hlt
    omega
  · exact absurd ⟨UInt32.lt_iff_toNat_lt.mpr h, UInt32.not_lt.mp hlt⟩ hle

theorem framesOf_concat (done : List ReadTrans) (t : ReadTrans) :
    framesOf (done ++ [t]) = framesOf done + t.frames := by
  simp [framesOf]

theorem Chunks.next (h : Chunks dev mem reqBuf respBuf blkCnt s) (hrel : 0 < dev.relWrCount.toNat)
    (hrem : 0 < s.blkCntRem.toNat) : Chunks dev mem reqBuf respBuf blkCnt
      (s.next dev (read mem (reqBuf + s.done.length * blkSize) blkSize)) := by
  have hchunk := chunk_toNat dev hrem
  have haddr := h.address
  have hlt := dev.relWrCount.toNat_lt
  have hbytes : (chunk dev s * 512).toNat = (chunk dev s).toNat * blkSize := by
    rw [UInt32.toNat_mul, show (512 : UInt32).toNat = blkSize from rfl, blkSize]
    omega
  refine ⟨fun j t ht => ?_, ?_, ?_, ?_⟩ <;> simp only [ReadState.next, framesOf_concat, hbytes] at *
  · rw [List.getElem?_append] at ht
    split_ifs at ht with hj
    · rw [List.take_append_of_le_length (by omega)]
      exact h.each j t ht
    · obtain ⟨rfl, rfl⟩ : j = s.done.length ∧ _ = t := by
        rw [List.getElem?_singleton] at ht
        split_ifs at ht with h0
        exact ⟨by omega, Option.some.inj ht⟩
      dsimp only
      rw [List.take_left]
      exact ⟨rfl, by omega, by omega, haddr⟩
  · have hself := read_write_self s.mem s.respBuf
      (read (dev.response s.done.length) 0 ((chunk dev s).toNat * blkSize))
    rw [length_read] at hself
    rw [Nat.add_mul, read_add, ← haddr, hself, read_write_of_disjoint (.inl haddr.ge), h.stored,
      List.zipIdx_append, List.flatMap_append]
    simp
  · rw [Nat.add_mul]
    omega
  · have hrest := h.rest
    rw [UInt32.toNat_sub_of_le _ _ (UInt32.le_iff_toNat_le.mpr (by omega))]
    omega

/-- `n` is the number of transfers that the rest takes. -/
theorem readLoop_chunks (n : Nat) (cached : Option Mem)
    (hsource : 0 < n → cached.getD s.mem = mem) (hcached : 1 < n → cached = some mem)
    (hok : ∀ i < s.done.length + n, dev.sendRet i = 0 ∧ dev.readRet i = 0)
    (h : Chunks dev mem reqBuf respBuf blkCnt s) (hrel : 0 < dev.relWrCount.toNat)
    (hle : s.blkCntRem.toNat ≤ n * dev.relWrCount.toNat)
    (hlt : n * dev.relWrCount.toNat < s.blkCntRem.toNat + dev.relWrCount.toNat) :
    ∃ s', readLoop dev cached reqBuf n s = (0, s') ∧ s'.done.length = s.done.length + n ∧
      framesOf s'.done = blkCnt.toNat ∧ Chunks dev mem reqBuf respBuf blkCnt s' := by
  induction n generalizing s with
  | zero =>
    have hrest := h.rest
    exact ⟨s, rfl, rfl, by omega, h⟩
  | succ n ih =>
    rw [Nat.succ_mul] at hle hlt
    have hrem : 0 < s.blkCntRem.toNat := by omega
    have hnext := h.next hrel hrem
    have hchunk := chunk_toNat dev hrem
    obtain ⟨hsend, hread⟩ := hok s.done.length (by omega)
    rw [readLoop, hsource n.succ_pos, if_neg (not_not_intro hsend), if_neg (not_not_intro hread)]
    generalize hs' : s.next dev _ = s' at hnext ⊢
    have hlength : s'.done.length = s.done.length + 1 := by
      rw [← hs']
      exact List.length_append
    have hrem' : s'.blkCntRem.toNat = s.blkCntRem.toNat - (chunk dev s).toNat := by
      rw [← hs']
      exact UInt32.toNat_sub_of_le _ _ (UInt32.le_iff_toNat_le.mpr (by omega))
    have hsource' : 0 < n → cached.getD s'.mem = mem := fun hn => by
      rw [hcached (by omega), Option.getD_some]
    obtain ⟨s'', hrun, hdone, hframes, hchunks⟩ := ih hsource' (fun hn => hcached (by omega))
      (fun i hi => hok i (by omega)) hnext (by omega) (by omega)
    exact ⟨s'', hrun, by omega, hframes, hchunks⟩

/-- The number of transfers: the blocks by the limit, rounded up. -/
def transfers (dev : UfsReader) (blkCnt : UInt32) : Nat :=
  (blkCnt.toNat + dev.relWrCount.toNat - 1) / dev.relWrCount.toNat

theorem transfers_eq (hrel : 0 < dev.relWrCount.toNat) : transfers dev blkCnt =
    blkCnt.toNat / dev.relWrCount.toNat + if blkCnt.toNat % dev.relWrCount.toNat ≠ 0 then 1 else 0 := by
  have hdiv := Nat.div_add_mod' blkCnt.toNat dev.relWrCount.toNat
  have hmod := Nat.mod_lt blkCnt.toNat hrel
  refine Nat.div_eq_of_lt_le ?_ ?_ <;> split_ifs <;> simp only [Nat.add_mul, Nat.one_mul, Nat.zero_mul] <;>
    omega

theorem numRpmbTrans_eq (hrel : 0 < dev.relWrCount.toNat) (hint : transfers dev blkCnt < 2 ^ 31) :
    toInt (blkCnt / dev.relWrCount.toUInt32).toNat +
      (if blkCnt % dev.relWrCount.toUInt32 ≠ 0 then 1 else 0) = transfers dev blkCnt := by
  have hmod : blkCnt % dev.relWrCount.toUInt32 ≠ 0 ↔ blkCnt.toNat % dev.relWrCount.toNat ≠ 0 := by
    rw [ne_eq, ← UInt32.toNat_inj, UInt32.toNat_mod, UInt8.toNat_toUInt32]
    rfl
  rw [transfers_eq hrel] at hint ⊢
  rw [UInt32.toNat_div, UInt8.toNat_toUInt32, toInt, if_pos (by omega)]
  simp only [hmod, Nat.cast_add, Nat.cast_ite, Nat.cast_one, Nat.cast_zero]

/-- If all commands succeed, a read of which the copy of the request frames can be made is done in
the fewest transfers. -/
theorem rpmbUfsRead_chunks (respLen : UInt32) (hrel : dev.relWrCount ≠ 0) (hopen : dev.openRet = 0)
    (hok : ∀ i < transfers dev blkCnt, dev.sendRet i = 0 ∧ dev.readRet i = 0)
    (hcopy : 1 < transfers dev blkCnt →
      dev.malloc = true ∧ transfers dev blkCnt * blkSize < 2 ^ 31) :
    ∃ out, rpmbUfsRead dev mem reqBuf blkCnt respBuf respLen = some out ∧ out.ret = 0 ∧
      out.state.done.length = transfers dev blkCnt ∧ framesOf out.state.done = blkCnt.toNat ∧
      Chunks dev mem reqBuf respBuf blkCnt out.state := by
  have hpos : 0 < dev.relWrCount.toNat := Nat.pos_of_ne_zero fun h0 => hrel (UInt8.toNat_inj.mp h0)
  have hne : dev.relWrCount.toUInt32 ≠ 0 := fun h0 => hpos.ne' (by
    rw [← UInt8.toNat_toUInt32, h0]
    rfl)
  have hdiv := Nat.div_add_mod' (blkCnt.toNat + dev.relWrCount.toNat - 1) dev.relWrCount.toNat
  have hmod := Nat.mod_lt (blkCnt.toNat + dev.relWrCount.toNat - 1) hpos
  rw [← transfers] at hdiv
  have hstart : Chunks dev mem reqBuf respBuf blkCnt ⟨mem, respBuf, blkCnt, blkCnt, []⟩ :=
    ⟨nofun, by simp [framesOf, Bytes.read], by simp [framesOf], by simp [framesOf]⟩
  obtain ⟨s, hrun, hdone, hframes, hchunks⟩ := readLoop_chunks
    (transfers dev blkCnt) (if (transfers dev blkCnt : Int) > 1 then some mem else none)
    (fun _ => by split_ifs <;> rfl) (fun hmany => if_pos (by omega)) (by simpa using hok) hstart hpos
    (by dsimp only; omega) (by dsimp only; omega)
  refine ⟨⟨0, blkCnt * 512, s⟩, ?_, rfl, by simpa using hdone, hframes, hchunks⟩
  unfold rpmbUfsRead
  dsimp only
  rw [if_neg hne, numRpmbTrans_eq hpos (by unfold blkSize at hcopy; omega), if_neg (by omega), if_neg,
    if_neg (not_not_intro hopen), Int.toNat_natCast, hrun]
  rintro ⟨hmany, hnone⟩
  simp [(hcopy (by omega)).1] at hnone

def reader (malloc : Bool) (relWrCount : UInt8) : UfsReader :=
  ⟨malloc, 0, relWrCount, fun _ => 0, fun _ => 0, fun i _ => UInt8.ofNat i⟩

theorem rpmbUfsRead_chunks_three : transfers (reader true 2) 3 = 2 ∧
    ∃ out, rpmbUfsRead (reader true 2) UInt8.ofNat 64 3 16 0 = some out ∧ out.ret = 0 ∧
      out.state.done.length = transfers (reader true 2) 3 ∧ framesOf out.state.done = 3 ∧
      Chunks (reader true 2) UInt8.ofNat 64 16 3 out.state :=
  ⟨by decide, rpmbUfsRead_chunks 0 (by decide) rfl (fun _ _ => ⟨rfl, rfl⟩) (by decide)⟩

/-- Without memory for the copy nothing is read, though the device has not failed. -/
theorem rpmbUfsRead_no_memory : ¬ ∃ out, rpmbUfsRead (reader false 2) UInt8.ofNat 64 3 16 0 = some out ∧
    out.state.done.length = transfers (reader false 2) 3 := by
  rintro ⟨out, hrun, hlength⟩
  cases Option.some.inj hrun
  revert hlength
  decide

end Chunks

end MinkIpc.Rpmb
