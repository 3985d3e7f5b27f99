import Mathlib.Data.UInt
import Mathlib.Data.List.Basic

/-! Authenticated writes to the replay protected memory block. Both storage drivers send the request
frames in batches and read the result register after each. -/

namespace MinkIpc.Rpmb

open List

def blkSize : Nat := 512

def maxedWrCounter : UInt8 := 0x80

structure Batch where
  offset : Nat
  frames : Nat
  result : UInt8
deriving DecidableEq

structure Outcome where
  status : Int
  respLen : Nat
  sent : List Batch
deriving DecidableEq

-- An unsigned 32-bit value stored in an `int`.
def toInt (n : Nat) : Int := if n < 2 ^ 31 then n else n - 2 ^ 32

/-- The loop over the transactions: `trans i` is what transaction `i` gave, `advance` how far
the request pointer moves after each. -/
def transLoop (trans : Nat → Except Int UInt8) (frames advance : Nat) :
    Nat → Nat → Nat → List Batch → Int × List Batch
  | 0, _, _, sent => (0, sent)
  | n + 1, i, offset, sent =>
      match trans i with
      | .error ret => (ret, sent)
      | .ok result =>
          transLoop trans frames advance n (i + 1) (offset + advance)
            (sent ++ [⟨offset, frames, result⟩])

def transactions (trans : Nat → Except Int UInt8) (blkCnt framesPerRpmbTrans : UInt32) :
    Int × List Batch :=
  let numRpmbTrans := toInt (blkCnt / framesPerRpmbTrans).toNat
  let advance := (framesPerRpmbTrans * blkSize.toUInt32).toNat
  transLoop trans framesPerRpmbTrans.toNat advance numRpmbTrans.toNat 0 0 []

section Emmc

structure EmmcReply where
  ioctl : Int
  result : UInt8

structure Emmc where
  calloc : Bool
  replies : Nat → EmmcReply

def Emmc.trans (dev : Emmc) (i : Nat) : Except Int UInt8 :=
  let reply := dev.replies i
  if reply.ioctl ≠ 0 then .error reply.ioctl
  else if reply.result &&& maxedWrCounter ≠ 0 then .error (-1)
  else if reply.result &&& ~~~maxedWrCounter ≠ 0 then .error (-1)
  else .ok reply.result

def rpmbEmmcWrite (dev : Emmc) (blkCnt framesPerRpmbTrans : UInt32) : Outcome :=
  if framesPerRpmbTrans = 0 then ⟨-1, 0, []⟩
  else if blkCnt % framesPerRpmbTrans ≠ 0 then ⟨-1, 0, []⟩
  else if dev.calloc = false then ⟨-1, 0, []⟩
  else
    let (ret, sent) := transactions dev.trans blkCnt framesPerRpmbTrans
    ⟨ret, if ret ≠ 0 then 0 else blkSize, sent⟩

end Emmc

section Ufs

structure UfsReply where
  sendFrames : Int
  sendRequest : Int
  readResult : Int
  result : UInt8

structure Ufs where
  openRet : Int
  relWrCount : UInt8
  replies : Nat → UfsReply

-- The result register is read and not looked at.
def Ufs.trans (dev : Ufs) (i : Nat) : Except Int UInt8 :=
  let reply := dev.replies i
  if reply.sendFrames ≠ 0 then .error reply.sendFrames
  else if reply.sendRequest ≠ 0 then .error reply.sendRequest
  else if reply.readResult ≠ 0 then .error reply.readResult
  else .ok reply.result

/-- No outcome stands for the division by zero; `respLen` is what the caller had stored. -/
def rpmbUfsWrite (dev : Ufs) (blkCnt framesPerRpmbTrans : UInt32) (respLen : Nat) : Option Outcome :=
  if dev.openRet ≠ 0 then some ⟨dev.openRet, respLen, []⟩
  else if framesPerRpmbTrans.toNat > dev.relWrCount.toNat then some ⟨-1, respLen, []⟩
  else if framesPerRpmbTrans = 0 then none
  else
    let (ret, sent) := transactions dev.trans blkCnt framesPerRpmbTrans
    some ⟨ret, blkSize, sent⟩

end Ufs

inductive Driver where
  | emmc (dev : Emmc)
  | ufs (dev : Ufs)

def rpmbHandleWrite (blkCnt framesPerOp : UInt32) : Driver → Option Outcome
  | .emmc dev => some (rpmbEmmcWrite dev blkCnt framesPerOp)
  | .ufs dev => rpmbUfsWrite dev blkCnt framesPerOp 0

/-- The contract: success means that all frames were sent, in order and in batches of
`framesPerOp`, each with a good result; after a failure there is no response. -/
structure Complete (blkCnt framesPerOp : UInt32) (out : Outcome) : Prop where
  whole : out.status = 0 → blkCnt.toNat % framesPerOp.toNat = 0
  batches : out.status = 0 → out.sent.map (fun b => (b.offset, b.frames)) =
    (range (blkCnt.toNat / framesPerOp.toNat)).map fun i =>
      (i * (framesPerOp.toNat * blkSize), framesPerOp.toNat)
  results : out.status = 0 → ∀ b ∈ out.sent, b.result = 0
  failure : out.status ≠ 0 → out.respLen = 0

section Loop

variable {trans : Nat → Except Int UInt8} {frames advance n i offset : Nat} {sent : List Batch}

theorem transLoop_ok (res : Nat → UInt8) (h : ∀ j < n, trans (i + j) = .ok (res (i + j))) :
    transLoop trans frames advance n i offset sent =
      (0, sent ++ (range n).map fun j => ⟨offset + j * advance, frames, res (i + j)⟩) := by
  induction n generalizing i offset sent with
  | zero => simp [transLoop]
  | succ n ih =>
    have hhead : trans i = .ok (res i) := h 0 (by omega)
    have htail : ∀ j < n, trans (i + 1 + j) = .ok (res (i + 1 + j)) := fun j hj => by
      have := h (j + 1) (by omega)
      rwa [show i + (j + 1) = i + 1 + j by omega] at this
    rw [transLoop, hhead]
    dsimp only
    rw [ih htail, range_succ_eq_map, append_assoc]
    simp only [map_cons, map_map, singleton_append, Nat.zero_mul]
    congr 3
    refine map_congr_left fun j _ => ?_
    simp only [Function.comp_apply, Nat.succ_eq_add_one, Nat.add_mul]
    congr 1
    · omega
    · rw [show i + (j + 1) = i + 1 + j by omega]

theorem transLoop_error (h : ∃ j < n, ∃ ret, trans (i + j) = .error ret) :
    ∃ j < n, trans (i + j) = .error (transLoop trans frames advance n i offset sent).1 := by
  induction n generalizing i offset sent with
  | zero =>
    omega
  | succ n ih =>
    unfold transLoop
    rcases htrans : trans i with ret | result
    · exact ⟨0, by omega, htrans⟩
    obtain ⟨j, hj, ret, hret⟩ := h
    obtain ⟨j, rfl⟩ : ∃ k, j = k + 1 := by
      cases j with
      | zero => rw [Nat.add_zero, htrans] at hret; cases hret
      | succ k => exact ⟨k, rfl⟩
    obtain ⟨k, hk, heq⟩ : ∃ k < n, trans (i + 1 + k) = .error (transLoop trans frames advance n
        (i + 1) (offset + advance) (sent ++ [⟨offset, frames, result⟩])).1 :=
      ih ⟨j, by omega, ret, by rwa [show i + 1 + j = i + (j + 1) by omega]⟩
    refine ⟨k + 1, by omega, ?_⟩
    rwa [show i + (k + 1) = i + 1 + k by omega]

def resultOf : Except Int UInt8 → UInt8
  | .ok result => result
  | .error _ => 0

theorem transLoop_cases (trans : Nat → Except Int UInt8) (frames advance n : Nat) :
    ((∀ i < n, trans i = .ok (resultOf (trans i))) ∧ transLoop trans frames advance n 0 0 [] =
        (0, (range n).map fun i => ⟨i * advance, frames, resultOf (trans i)⟩)) ∨
    ∃ i < n, trans i = .error (transLoop trans frames advance n 0 0 []).1 := by
  by_cases h : ∃ i < n, ∃ ret, trans i = .error ret
  · right
    have herror : ∃ j < n, trans (0 + j) = .error (transLoop trans frames advance n 0 0 []).1 :=
      transLoop_error (by simpa using h)
    simpa using herror
  · left
    have hok : ∀ i < n, trans i = .ok (resultOf (trans i)) := by
      intro i hi
      rcases htrans : trans i with ret | result
      · exact absurd ⟨i, hi, ret, htrans⟩ h
      · rfl
    have hok' : ∀ j < n, trans (0 + j) = .ok ((fun i => resultOf (trans i)) (0 + j)) := by
      simpa using hok
    have hloop : transLoop trans frames advance n 0 0 [] = _ :=
      transLoop_ok (fun i => resultOf (trans i)) hok'
    exact ⟨hok, by simpa using hloop⟩

theorem offsets_eq_iff {size : Nat} : ((range n).map fun i => (i * advance, frames)) =
      ((range n).map fun i => (i * size, frames)) ↔ n ≤ 1 ∨ advance = size := by
  constructor
  · intro h
    by_cases hn : n ≤ 1
    · exact .inl hn
    · right
      have hone := map_inj_left.mp h 1 (mem_range.mpr (by omega))
      simpa using hone
  · rintro (hn | rfl)
    · refine map_congr_left fun i hi => ?_
      have hi' := mem_range.mp hi
      obtain rfl : i = 0 := by omega
      simp
    · rfl

end Loop

section Contract

variable {blkCnt framesPerOp : UInt32}

/-- When a write keeps the contract. For eMMC: it is refused, or the number of batches fits
an `int` and a batch fails or the request pointer does not wrap. For UFS: it is refused, or
the batches make up the request, their number fits an `int`, and nothing goes wrong. -/
def Writes (blkCnt framesPerOp : UInt32) : Driver → Prop
  | .emmc dev => framesPerOp = 0 ∨ blkCnt % framesPerOp ≠ 0 ∨ dev.calloc = false ∨
      ((blkCnt / framesPerOp).toNat < 2 ^ 31 ∧
        ((∃ i < (blkCnt / framesPerOp).toNat, (dev.replies i).ioctl ≠ 0 ∨ (dev.replies i).result ≠ 0) ∨
          (blkCnt / framesPerOp).toNat ≤ 1 ∨ framesPerOp.toNat * blkSize < 2 ^ 32))
  | .ufs dev => dev.openRet ≠ 0 ∨ framesPerOp.toNat > dev.relWrCount.toNat ∨
      (framesPerOp ≠ 0 ∧ blkCnt % framesPerOp = 0 ∧ (blkCnt / framesPerOp).toNat < 2 ^ 31 ∧
        ∀ i < (blkCnt / framesPerOp).toNat, (dev.replies i).sendFrames = 0 ∧
          (dev.replies i).sendRequest = 0 ∧ (dev.replies i).readResult = 0 ∧
          (dev.replies i).result = 0)

theorem toInt_toNat {n : Nat} (hn : n < 2 ^ 32) :
    (toInt n).toNat = if n < 2 ^ 31 then n else 0 := by
  unfold toInt
  split_ifs
  · simp
  · omega

theorem eq_zero_of_masks {r m : UInt8} (h1 : r &&& m = 0) (h2 : r &&& ~~~m = 0) : r = 0 := by
  refine UInt8.eq_of_toBitVec_eq (BitVec.eq_of_getLsbD_eq fun i hi => ?_)
  have hbit1 : (r &&& m).toBitVec.getLsbD i = false := by rw [h1]; simp
  have hbit2 : (r &&& ~~~m).toBitVec.getLsbD i = false := by rw [h2]; simp
  rw [UInt8.toBitVec_and, BitVec.getLsbD_and] at hbit1 hbit2
  rw [UInt8.toBitVec_not, BitVec.getLsbD_not] at hbit2
  cases hm : m.toBitVec.getLsbD i
  · rw [hm] at hbit2
    simpa [hi] using hbit2
  · rw [hm] at hbit1
    simpa using hbit1

theorem Emmc.trans_ok_iff {dev : Emmc} {i : Nat} : (∃ result, dev.trans i = .ok result) ↔
      (dev.replies i).ioctl = 0 ∧ (dev.replies i).result = 0 := by
  unfold Emmc.trans
  dsimp only
  split_ifs with h1 h2 h3
  · simp [h1]
  · refine iff_of_false (by simp) fun h => h2 ?_
    rw [h.2]
    rfl
  · refine iff_of_false (by simp) fun h => h3 ?_
    rw [h.2]
    rfl
  · exact iff_of_true ⟨_, rfl⟩ ⟨not_not.mp h1, eq_zero_of_masks (not_not.mp h2) (not_not.mp h3)⟩

theorem Emmc.trans_error_ne {dev : Emmc} {i : Nat} {ret : Int} (h : dev.trans i = .error ret) :
    ret ≠ 0 := by
  unfold Emmc.trans at h
  dsimp only at h
  split_ifs at h with h1 <;> cases h
  · exact h1
  · decide
  · decide

variable {dev : Ufs}

theorem Ufs.trans_error_ne {i : Nat} {ret : Int} (h : dev.trans i = .error ret) : ret ≠ 0 := by
  unfold Ufs.trans at h
  dsimp only at h
  split_ifs at h with h1 h2 h3 <;> cases h <;> assumption

theorem Ufs.trans_ok_iff {i : Nat} :
    dev.trans i = .ok (resultOf (dev.trans i)) ↔ (dev.replies i).sendFrames = 0 ∧
      (dev.replies i).sendRequest = 0 ∧ (dev.replies i).readResult = 0 := by
  unfold Ufs.trans
  dsimp only
  split_ifs with h1 h2 h3
  · simp [h1]
  · simp [h2]
  · simp [h3]
  · exact iff_of_true rfl ⟨not_not.mp h1, not_not.mp h2, not_not.mp h3⟩

theorem Ufs.result_of_ok {i : Nat} (h : dev.trans i = .ok (resultOf (dev.trans i))) :
    resultOf (dev.trans i) = (dev.replies i).result := by
  obtain ⟨h1, h2, h3⟩ := Ufs.trans_ok_iff.mp h
  simp [Ufs.trans, resultOf, h1, h2, h3]

theorem advance_eq_iff {frames : UInt32} :
    (frames * blkSize.toUInt32).toNat = frames.toNat * blkSize ↔ frames.toNat * blkSize < 2 ^ 32 := by
  have hmul : (frames * blkSize.toUInt32).toNat = frames.toNat * blkSize % 2 ^ 32 := by
    rfl
  constructor
  · intro h
    rw [← h]
    exact Nat.mod_lt _ (by decide)
  · exact Nat.mod_eq_of_lt

theorem complete_of_failure {out : Outcome} (hstatus : out.status ≠ 0) (hlen : out.respLen = 0) :
    Complete blkCnt framesPerOp out :=
  ⟨fun h => absurd h hstatus, fun h => absurd h hstatus, fun h => absurd h hstatus, fun _ => hlen⟩

theorem complete_sent_iff {n advance respLen : Nat} {res : Nat → UInt8}
    (hn : n = blkCnt.toNat / framesPerOp.toNat) :
    Complete blkCnt framesPerOp ⟨0, respLen,
        (range n).map fun i => ⟨i * advance, framesPerOp.toNat, res i⟩⟩ ↔
      blkCnt.toNat % framesPerOp.toNat = 0 ∧ (n ≤ 1 ∨ advance = framesPerOp.toNat * blkSize) ∧
        ∀ i < n, res i = 0 := by
  have hbatches : ((range n).map fun i => (⟨i * advance, framesPerOp.toNat, res i⟩ : Batch)).map
      (fun b => (b.offset, b.frames)) = (range n).map fun i => (i * advance, framesPerOp.toNat) := by
    simp
  constructor
  · intro h
    refine ⟨h.whole rfl, ?_, fun i hi => ?_⟩
    · have hsent := h.batches rfl
      rw [hbatches, ← hn] at hsent
      exact offsets_eq_iff.mp hsent
    · have hmem : (⟨i * advance, framesPerOp.toNat, res i⟩ : Batch) ∈ (range n).map fun i =>
          (⟨i * advance, framesPerOp.toNat, res i⟩ : Batch) :=
        mem_map.mpr ⟨i, mem_range.mpr hi, rfl⟩
      exact h.results rfl _ hmem
  · rintro ⟨hwhole, hadv, hres⟩
    refine ⟨fun _ => hwhole, fun _ => ?_, fun _ b hb => ?_, absurd rfl⟩
    · rw [hbatches, ← hn]
      exact offsets_eq_iff.mpr hadv
    · obtain ⟨i, hi, rfl⟩ := mem_map.mp hb
      exact hres i (mem_range.mp hi)

theorem not_complete_of_none {respLen : Nat} (hn : 0 < blkCnt.toNat / framesPerOp.toNat) :
    ¬ Complete blkCnt framesPerOp ⟨0, respLen, []⟩ := fun h => by
  have hlen := congrArg length (h.batches rfl)
  simp at hlen
  omega

theorem transactions_cases (trans : Nat → Except Int UInt8) (blkCnt framesPerOp : UInt32) :
    (¬ (blkCnt / framesPerOp).toNat < 2 ^ 31 ∧ transactions trans blkCnt framesPerOp = (0, [])) ∨
      ((blkCnt / framesPerOp).toNat < 2 ^ 31 ∧
        (((∀ i < (blkCnt / framesPerOp).toNat, trans i = .ok (resultOf (trans i))) ∧
            transactions trans blkCnt framesPerOp = (0, (range (blkCnt / framesPerOp).toNat).map
              fun i => ⟨i * (framesPerOp * blkSize.toUInt32).toNat, framesPerOp.toNat,
                resultOf (trans i)⟩)) ∨
          ∃ i < (blkCnt / framesPerOp).toNat,
            trans i = .error (transactions trans blkCnt framesPerOp).1)) := by
  unfold transactions
  dsimp only
  rw [toInt_toNat (UInt32.toNat_lt _)]
  split_ifs with hfits
  · exact .inr ⟨hfits, transLoop_cases ..⟩
  · exact .inl ⟨hfits, rfl⟩

section Transactions

variable (hdivides : blkCnt % framesPerOp = 0)
include hdivides

theorem emmc_complete_of_trans {dev : Emmc} {out : Outcome}
    (hout : out = ⟨(transactions dev.trans blkCnt framesPerOp).1,
      if (transactions dev.trans blkCnt framesPerOp).1 ≠ 0 then 0 else blkSize,
      (transactions dev.trans blkCnt framesPerOp).2⟩) :
    Complete blkCnt framesPerOp out ↔ (blkCnt / framesPerOp).toNat < 2 ^ 31 ∧
      ((∃ i < (blkCnt / framesPerOp).toNat, (dev.replies i).ioctl ≠ 0 ∨ (dev.replies i).result ≠ 0) ∨
        (blkCnt / framesPerOp).toNat ≤ 1 ∨ framesPerOp.toNat * blkSize < 2 ^ 32) := by
  have hdiv : (blkCnt / framesPerOp).toNat = blkCnt.toNat / framesPerOp.toNat := UInt32.toNat_div ..
  have hwhole : blkCnt.toNat % framesPerOp.toNat = 0 := by
    rw [← UInt32.toNat_mod, hdivides]
    rfl
  rcases transactions_cases dev.trans blkCnt framesPerOp with
    ⟨hfits, hnone⟩ | ⟨hfits, ⟨hok, hall⟩ | ⟨i, hi, herror⟩⟩
  · rw [hnone] at hout
    rw [hout]
    exact iff_of_false (not_complete_of_none (by omega)) fun h => hfits h.1
  · have hgood : ∀ i < (blkCnt / framesPerOp).toNat,
        (dev.replies i).ioctl = 0 ∧ (dev.replies i).result = 0 := fun i hi =>
      Emmc.trans_ok_iff.mp ⟨_, hok i hi⟩
    have hres : ∀ i < (blkCnt / framesPerOp).toNat, resultOf (dev.trans i) = 0 := fun i hi => by
      obtain ⟨h1, h2⟩ := hgood i hi
      simp [Emmc.trans, h1, h2, resultOf]
    have hnone : ¬ ∃ i < (blkCnt / framesPerOp).toNat,
        (dev.replies i).ioctl ≠ 0 ∨ (dev.replies i).result ≠ 0 := by
      rintro ⟨i, hi, h | h⟩
      · exact h (hgood i hi).1
      · exact h (hgood i hi).2
    rw [hall] at hout
    rw [hout, complete_sent_iff hdiv, and_iff_right hfits, or_iff_right hnone, ← advance_eq_iff]
    exact ⟨fun h => h.2.1, fun h => ⟨hwhole, h, hres⟩⟩
  · have hne := Emmc.trans_error_ne herror
    have hbad : (dev.replies i).ioctl ≠ 0 ∨ (dev.replies i).result ≠ 0 := by
      by_contra hgood
      rw [not_or, not_not, not_not] at hgood
      obtain ⟨result, hresult⟩ := Emmc.trans_ok_iff.mpr hgood
      rw [hresult] at herror
      cases herror
    rw [hout]
    exact iff_of_true (complete_of_failure hne (if_pos hne)) ⟨hfits, .inl ⟨i, hi, hbad⟩⟩

end Transactions

theorem ufs_complete_of_trans {out : Outcome} (hsmall : framesPerOp.toNat ≤ dev.relWrCount.toNat)
    (hout : out = ⟨(transactions dev.trans blkCnt framesPerOp).1, blkSize,
      (transactions dev.trans blkCnt framesPerOp).2⟩) :
    Complete blkCnt framesPerOp out ↔ blkCnt % framesPerOp = 0 ∧
      (blkCnt / framesPerOp).toNat < 2 ^ 31 ∧
      ∀ i < (blkCnt / framesPerOp).toNat, (dev.replies i).sendFrames = 0 ∧
        (dev.replies i).sendRequest = 0 ∧ (dev.replies i).readResult = 0 ∧
        (dev.replies i).result = 0 := by
  have hdiv : (blkCnt / framesPerOp).toNat = blkCnt.toNat / framesPerOp.toNat := UInt32.toNat_div ..
  have hmod : blkCnt % framesPerOp = 0 ↔ blkCnt.toNat % framesPerOp.toNat = 0 := by
    rw [← UInt32.toNat_inj]
    rfl
  have hadvance : (framesPerOp * blkSize.toUInt32).toNat = framesPerOp.toNat * blkSize := by
    have hbyte := dev.relWrCount.toNat_lt
    refine advance_eq_iff.mpr ?_
    unfold blkSize
    omega
  rcases transactions_cases dev.trans blkCnt framesPerOp with
    ⟨hfits, hnone⟩ | ⟨hfits, ⟨hok, hall⟩ | ⟨i, hi, herror⟩⟩
  · rw [hnone] at hout
    rw [hout]
    exact iff_of_false (not_complete_of_none (by omega)) fun h => hfits h.2.1
  · rw [hall] at hout
    rw [hout, complete_sent_iff hdiv, and_iff_right hfits, hmod]
    constructor
    · rintro ⟨hwhole, -, hres⟩
      refine ⟨hwhole, fun i hi => ?_⟩
      obtain ⟨h1, h2, h3⟩ := Ufs.trans_ok_iff.mp (hok i hi)
      exact ⟨h1, h2, h3, Ufs.result_of_ok (hok i hi) ▸ hres i hi⟩
    · rintro ⟨hwhole, hgood⟩
      refine ⟨hwhole, .inr hadvance, fun i hi => ?_⟩
      rw [Ufs.result_of_ok (hok i hi)]
      exact (hgood i hi).2.2.2
  · have hne := Ufs.trans_error_ne herror
    rw [hout]
    refine iff_of_false (fun h => absurd (h.failure hne) (by decide : ¬ blkSize = 0)) fun h => ?_
    obtain ⟨h1, h2, h3, -⟩ := h.2.2 i hi
    have hok := Ufs.trans_ok_iff.mpr ⟨h1, h2, h3⟩
    rw [herror] at hok
    cases hok

theorem emmc_complete_iff {dev : Emmc} :
    Complete blkCnt framesPerOp (rpmbEmmcWrite dev blkCnt framesPerOp) ↔
      Writes blkCnt framesPerOp (.emmc dev) := by
  unfold rpmbEmmcWrite Writes
  dsimp only
  by_cases hzero : framesPerOp = 0
  · rw [if_pos hzero]
    exact iff_of_true (complete_of_failure (by decide) rfl) (.inl hzero)
  rw [if_neg hzero, or_iff_right hzero]
  by_cases hmod : blkCnt % framesPerOp ≠ 0
  · rw [if_pos hmod]
    exact iff_of_true (complete_of_failure (by decide) rfl) (.inl hmod)
  rw [if_neg hmod, or_iff_right hmod]
  by_cases hcalloc : dev.calloc = false
  · rw [if_pos hcalloc]
    exact iff_of_true (complete_of_failure (by decide) rfl) (.inl hcalloc)
  rw [if_neg hcalloc, or_iff_right hcalloc]
  exact emmc_complete_of_trans (not_not.mp hmod) rfl

/-- A write that succeeds has sent every frame in order, and one that fails has no response, exactly
under the conditions of its driver. -/
theorem write_complete_iff (d : Driver) :
    (∃ out, rpmbHandleWrite blkCnt framesPerOp d = some out ∧ Complete blkCnt framesPerOp out) ↔
      Writes blkCnt framesPerOp d := by
  cases d with
  | emmc dev =>
    simp only [rpmbHandleWrite, Option.some.injEq, exists_eq_left']
    exact emmc_complete_iff
  | ufs dev =>
    simp only [rpmbHandleWrite, Writes, rpmbUfsWrite]
    split_ifs with hopen hmany hzero
    · simp only [Option.some.injEq, exists_eq_left']
      exact iff_of_true (complete_of_failure hopen rfl) (.inl hopen)
    · simp only [Option.some.injEq, exists_eq_left']
      exact iff_of_true (complete_of_failure (by decide) rfl) (.inr (.inl hmany))
    · refine iff_of_false (by simp) ?_
      rintro (h | h | h)
      · exact hopen h
      · exact hmany h
      · exact h.1 hzero
    · simp only [Option.some.injEq, exists_eq_left']
      rw [ufs_complete_of_trans (Nat.le_of_not_lt hmany) rfl, or_iff_right hopen, or_iff_right hmany]
      exact (and_iff_right hzero).symm

/-- Three frames in batches of two, with a bad result: UFS reports success. A batch not sent leaves
a response length, and eMMC sends nothing of 2^31 single frames. -/
theorem write_incomplete :
    rpmbHandleWrite 3 2 (.ufs ⟨0, 8, fun _ => ⟨0, 0, 0, 5⟩⟩) = some ⟨0, 512, [⟨0, 2, 5⟩]⟩ ∧
      ¬ Complete 3 2 ⟨0, 512, [⟨0, 2, 5⟩]⟩ ∧
      rpmbHandleWrite 2 2 (.ufs ⟨0, 8, fun _ => ⟨-1, 0, 0, 0⟩⟩) = some ⟨-1, 512, []⟩ ∧
      rpmbHandleWrite 0x80000000 1 (.emmc ⟨true, fun _ => ⟨0, 0⟩⟩) = some ⟨0, 512, []⟩ := by
  refine ⟨by decide, fun h => ?_, by decide, by decide⟩
  exact absurd (h.whole rfl) (by decide)

end Contract

end MinkIpc.Rpmb
