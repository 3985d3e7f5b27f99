import Mathlib.Data.UInt
import MinkIpc.Bytes

/-! Reading and writing of files for the trusted side. The loop over `read` and `write` goes
on until all bytes asked for were transferred or a call fails, and so it also goes on at the
end of the file. -/

namespace MinkIpc.Gpfs

open Bytes

structure Errno where
  val : Nat
  ne_zero : val ≠ 0

def einval : Errno := ⟨22, by decide⟩

def gpfsErrorNoCmd : Int := -1

def dataFileRead : UInt32 := 4
def dataFileWrite : UInt32 := 5
def persistFileRead : UInt32 := 8
def persistFileWrite : UInt32 := 9

def gpfsFileSize : Nat := 500 * 1024

def isRead (cmdId : UInt32) : Bool := cmdId == dataFileRead || cmdId == persistFileRead

def isWrite (cmdId : UInt32) : Bool := cmdId == dataFileWrite || cmdId == persistFileWrite

section System

structure File where
  bytes : Mem
  size : Nat

structure Fd where
  file : File
  offset : Nat

/-- What the system does with one call: it fails, or is ready for `n` bytes. -/
inductive Reply
  | fail (e : Errno)
  | xfer (n : Nat)

def Reply.amount : Reply → Nat
  | .fail _ => 0
  | .xfer n => n

-- A hole left in front of the bytes reads as zero.
def File.put (f : File) (a : Nat) (bs : List UInt8) : File :=
  if bs = [] then f
  else ⟨write (fun i => if i < f.size then f.bytes i else 0) a bs, max f.size (a + bs.length)⟩

def Fd.read (fd : Fd) (n : Nat) : Reply → Except Errno (List UInt8 × Fd)
  | .fail e => .error e
  | .xfer m =>
    let k := min (max m 1) (min n (fd.file.size - fd.offset))
    .ok (Bytes.read fd.file.bytes fd.offset k, { fd with offset := fd.offset + k })

def Fd.write (fd : Fd) (bs : List UInt8) : Reply → Except Errno (Nat × Fd)
  | .fail e => .error e
  | .xfer m =>
    .ok ((bs.take m).length, ⟨fd.file.put fd.offset (bs.take m), fd.offset + (bs.take m).length⟩)

def Fd.lseek (fd : Fd) (offset : Int) : Int × Fd :=
  if offset < 0 then (-1, fd) else (offset, { fd with offset := offset.toNat })

end System

structure Transfer where
  calls : Nat
  fd : Fd
  buf : Mem
  done : Nat
  bytesRemaining : Nat

section Loop

variable (sys : Nat → Reply) (cmdId : UInt32)

def transferStep (s : Transfer) : Except Errno Transfer :=
  if isRead cmdId then
    (s.fd.read s.bytesRemaining (sys s.calls)).map fun (bs, fd) =>
      { calls := s.calls + 1
        fd := fd
        buf := write s.buf s.done bs
        done := s.done + bs.length
        bytesRemaining := s.bytesRemaining - bs.length }
  else if isWrite cmdId then
    (s.fd.write (read s.buf s.done s.bytesRemaining) (sys s.calls)).map fun (n, fd) =>
      { calls := s.calls + 1
        fd := fd
        buf := s.buf
        done := s.done + n
        bytesRemaining := s.bytesRemaining - n }
  else .error einval

def transferLoop : Nat → Transfer → Option (Nat × Transfer)
  | 0, s => if s.bytesRemaining = 0 then some (0, s) else none
  | fuel + 1, s =>
    if s.bytesRemaining = 0 then some (0, s)
    else match transferStep sys cmdId s with
      | .error e => some (e.val, s)
      | .ok s' => transferLoop fuel s'

structure Result where
  ret : Nat
  count : Nat
  state : Transfer

def performReadWrite (fuel : Nat) (fd : Fd) (buf : Mem) (count : Nat) : Option Result :=
  (transferLoop sys cmdId fuel ⟨0, fd, buf, 0, count⟩).map fun (ret, s) =>
    ⟨ret, if ret = 0 then count - s.bytesRemaining else count, s⟩

end Loop

section Termination

variable {sys : Nat → Reply} {cmdId : UInt32} {s s' : Transfer}

def Ends (sys : Nat → Reply) (cmdId : UInt32) (s : Transfer) : Prop :=
  ∃ fuel r, transferLoop sys cmdId fuel s = some r

theorem transferLoop_of_zero (h : s.bytesRemaining = 0) (fuel : Nat) :
    transferLoop sys cmdId fuel s = some (0, s) := by
  cases fuel <;> rw [transferLoop, if_pos h]

section

variable (h : s.bytesRemaining ≠ 0)
include h

theorem transferLoop_zero : transferLoop sys cmdId 0 s = none := by
  rw [transferLoop, if_neg h]

theorem transferLoop_error {e : Errno} (hs : transferStep sys cmdId s = .error e) (fuel : Nat) :
    transferLoop sys cmdId (fuel + 1) s = some (e.val, s) := by
  rw [transferLoop, if_neg h, hs]

theorem transferLoop_ok (hs : transferStep sys cmdId s = .ok s')
    (fuel : Nat) : transferLoop sys cmdId (fuel + 1) s = transferLoop sys cmdId fuel s' := by
  rw [transferLoop, if_neg h, hs]

theorem ends_iff_of_ok (hs : transferStep sys cmdId s = .ok s') :
    Ends sys cmdId s ↔ Ends sys cmdId s' := by
  constructor
  · rintro ⟨fuel, r, hr⟩
    cases fuel with
    | zero =>
      rw [transferLoop_zero h] at hr
      cases hr
    | succ fuel => exact ⟨fuel, r, (transferLoop_ok h hs fuel).symm.trans hr⟩
  · rintro ⟨fuel, r, hr⟩
    exact ⟨fuel + 1, r, (transferLoop_ok h hs fuel).trans hr⟩

end

theorem transferStep_fail {e : Errno} (h : sys s.calls = .fail e) :
    ∃ e', transferStep sys cmdId s = .error e' := by
  unfold transferStep
  rw [h]
  split_ifs
  · exact ⟨e, rfl⟩
  · exact ⟨e, rfl⟩
  · exact ⟨einval, rfl⟩

def Transfer.afterRead (s : Transfer) (k : Nat) : Transfer where
  calls := s.calls + 1
  fd := { s.fd with offset := s.fd.offset + k }
  buf := write s.buf s.done (read s.fd.file.bytes s.fd.offset k)
  done := s.done + k
  bytesRemaining := s.bytesRemaining - k

def Transfer.afterWrite (s : Transfer) (k : Nat) : Transfer where
  calls := s.calls + 1
  fd := ⟨s.fd.file.put s.fd.offset (read s.buf s.done k), s.fd.offset + k⟩
  buf := s.buf
  done := s.done + k
  bytesRemaining := s.bytesRemaining - k

theorem transferStep_read {m : Nat} (h : sys s.calls = .xfer m) (hcmd : isRead cmdId = true) :
    transferStep sys cmdId s = .ok (s.afterRead
      (min (max m 1) (min s.bytesRemaining (s.fd.file.size - s.fd.offset)))) := by
  rw [transferStep, if_pos hcmd, h, Fd.read, Except.map, Transfer.afterRead]
  simp only [length_read]

theorem transferStep_write {m : Nat} (h : sys s.calls = .xfer m) (hread : isRead cmdId = false)
    (hcmd : isWrite cmdId = true) :
    transferStep sys cmdId s = .ok (s.afterWrite (min m s.bytesRemaining)) := by
  rw [transferStep, if_neg (by simp [hread]), if_pos hcmd, h, Fd.write, Except.map, take_read,
    Transfer.afterWrite]
  simp only [length_read]

theorem transferStep_cases (h : transferStep sys cmdId s = .ok s') : ∃ m, sys s.calls = .xfer m ∧
      (isRead cmdId = true ∧ s' = s.afterRead
          (min (max m 1) (min s.bytesRemaining (s.fd.file.size - s.fd.offset))) ∨
        isRead cmdId = false ∧ isWrite cmdId = true ∧
          s' = s.afterWrite (min m s.bytesRemaining)) := by
  cases hsys : sys s.calls with
  | fail e =>
    obtain ⟨e', he'⟩ := transferStep_fail hsys
    rw [he'] at h
    cases h
  | xfer m =>
    refine ⟨m, rfl, ?_⟩
    cases hread : isRead cmdId with
    | true =>
      rw [transferStep_read hsys hread] at h
      exact .inl ⟨rfl, (Except.ok.inj h).symm⟩
    | false =>
      cases hwrite : isWrite cmdId with
      | true =>
        rw [transferStep_write hsys hread hwrite] at h
        exact .inr ⟨rfl, rfl, (Except.ok.inj h).symm⟩
      | false =>
        rw [transferStep, if_neg (by simp [hread]), if_neg (by simp [hwrite])] at h
        cases h

theorem transferStep_calls (h : transferStep sys cmdId s = .ok s') : s'.calls = s.calls + 1 := by
  obtain ⟨m, -, ⟨-, rfl⟩ | ⟨-, -, rfl⟩⟩ := transferStep_cases h
  · rfl
  · rfl

theorem ends_of_zero (h : s.bytesRemaining = 0) : Ends sys cmdId s :=
  ⟨0, _, transferLoop_of_zero h 0⟩

theorem ends_step (hnext : ∀ s', transferStep sys cmdId s = .ok s' → Ends sys cmdId s') :
    Ends sys cmdId s := by
  by_cases hrem : s.bytesRemaining = 0
  · exact ends_of_zero hrem
  · cases hs : transferStep sys cmdId s with
    | error e => exact ⟨1, _, transferLoop_error hrem hs 0⟩
    | ok s' => exact (ends_iff_of_ok hrem hs).mpr (hnext s' hs)

theorem ends_of_fail {k : Nat} {e : Errno} (h : sys (s.calls + k) = .fail e) :
    Ends sys cmdId s := by
  induction k generalizing s with
  | zero =>
    refine ends_step fun s' hs => ?_
    obtain ⟨m, hm, -⟩ := transferStep_cases hs
    rw [show s.calls + 0 = s.calls from rfl, hm] at h
    cases h
  | succ k ih =>
    refine ends_step fun s' hs => ih ?_
    rw [transferStep_calls hs, ← h]
    congr 1
    omega

theorem ends_read (hcmd : isRead cmdId = true) {n : Nat} (hn : s.bytesRemaining ≤ n)
    (h : s.fd.offset + s.bytesRemaining ≤ s.fd.file.size ∨ s.bytesRemaining = 0) :
    Ends sys cmdId s := by
  induction n generalizing s with
  | zero => exact ends_of_zero (Nat.le_zero.mp hn)
  | succ n ih =>
    rcases h with h | h
    · refine ends_step fun s' hs => ?_
      obtain ⟨m, -, ⟨-, rfl⟩ | ⟨hread, -, -⟩⟩ := transferStep_cases hs
      · refine ih ?_ ?_ <;> simp only [Transfer.afterRead] <;> omega
      · rw [hcmd] at hread
        cases hread
    · exact ends_of_zero h

def offered (sys : Nat → Reply) : Nat → Nat → Nat
  | _, 0 => 0
  | k, n + 1 => (sys k).amount + offered sys (k + 1) n

theorem ends_write (hread : isRead cmdId = false) {n : Nat}
    (h : s.bytesRemaining ≤ offered sys s.calls n) : Ends sys cmdId s := by
  induction n generalizing s with
  | zero => exact ends_of_zero (Nat.le_zero.mp h)
  | succ n ih =>
    refine ends_step fun s' hs => ih ?_
    obtain ⟨m, hm, ⟨hr, -⟩ | ⟨-, -, rfl⟩⟩ := transferStep_cases hs
    · rw [hread] at hr
      cases hr
    · simp only [offered, hm, Reply.amount] at h
      simp only [Transfer.afterWrite]
      omega

theorem not_ends (P : Transfer → Prop) (hrem : ∀ s, P s → s.bytesRemaining ≠ 0)
    (hstep : ∀ s, P s → ∃ s', transferStep sys cmdId s = .ok s' ∧ P s') (h : P s) :
    ¬ Ends sys cmdId s := by
  rintro ⟨fuel, r, hr⟩
  induction fuel generalizing s with
  | zero =>
    rw [transferLoop_zero (hrem s h)] at hr
    cases hr
  | succ fuel ih =>
    obtain ⟨s', hs, h'⟩ := hstep s h
    rw [transferLoop_ok (hrem s h) hs] at hr
    exact ih h' hr

/-- When a transfer of `count` bytes from the position of `fd` comes to an end. -/
def Finishes (sys : Nat → Reply) (cmdId : UInt32) (fd : Fd) (count : Nat) : Prop :=
  count = 0 ∨ (∃ k e, sys k = .fail e) ∨ (isRead cmdId = true → fd.offset + count ≤ fd.file.size) ∧
      (isRead cmdId = false → isWrite cmdId = true → ∃ n, count ≤ offered sys 0 n)

theorem not_ends_read (hcmd : isRead cmdId = true) (hfail : ∀ k e, sys k ≠ .fail e)
    (hrem : s.bytesRemaining ≠ 0) (h : s.fd.file.size < s.fd.offset + s.bytesRemaining) :
    ¬ Ends sys cmdId s := by
  refine not_ends (fun s => s.bytesRemaining ≠ 0 ∧ s.fd.file.size < s.fd.offset + s.bytesRemaining)
    (fun s hs => hs.1) (fun s hs => ?_) ⟨hrem, h⟩
  cases hsys : sys s.calls with
  | fail e => exact absurd hsys (hfail _ e)
  | xfer m =>
    refine ⟨_, transferStep_read hsys hcmd, ?_, ?_⟩ <;> simp only [Transfer.afterRead] <;> omega

theorem not_ends_write (hread : isRead cmdId = false) (hcmd : isWrite cmdId = true)
    (hfail : ∀ k e, sys k ≠ .fail e) (h : ∀ n, offered sys s.calls n < s.bytesRemaining) :
    ¬ Ends sys cmdId s := by
  refine not_ends (fun s => ∀ n, offered sys s.calls n < s.bytesRemaining)
    (fun s hs => Nat.ne_of_gt (hs 0)) (fun s hs => ?_) h
  cases hsys : sys s.calls with
  | fail e => exact absurd hsys (hfail _ e)
  | xfer m =>
    refine ⟨_, transferStep_write hsys hread hcmd, fun n => ?_⟩
    have hnext := hs (n + 1)
    simp only [offered, hsys, Reply.amount] at hnext
    simp only [Transfer.afterWrite]
    omega

theorem ends_iff (fd : Fd) (buf : Mem) (count : Nat) :
    Ends sys cmdId ⟨0, fd, buf, 0, count⟩ ↔ Finishes sys cmdId fd count := by
  constructor
  · intro hends
    by_contra hnot
    simp only [Finishes, not_or, not_exists] at hnot
    obtain ⟨hcount, hfail, hnot⟩ := hnot
    cases hread : isRead cmdId with
    | true =>
      refine not_ends_read hread hfail hcount ?_ hends
      by_contra hle
      exact hnot ⟨fun _ => Nat.not_lt.mp hle, fun hr => absurd (hread.symm.trans hr) nofun⟩
    | false =>
      cases hwrite : isWrite cmdId with
      | true =>
        refine not_ends_write hread hwrite hfail (fun n => ?_) hends
        by_contra hle
        exact hnot ⟨fun hr => absurd (hread.symm.trans hr) nofun, fun _ _ => ⟨n, Nat.not_lt.mp hle⟩⟩
      | false =>
        exact hnot ⟨fun hr => absurd (hread.symm.trans hr) nofun,
          fun _ hw => absurd (hwrite.symm.trans hw) nofun⟩
  · rintro (rfl | ⟨k, e, hk⟩ | ⟨hr, hw⟩)
    · exact ends_of_zero rfl
    · exact ends_of_fail (by simpa using hk)
    · cases hread : isRead cmdId with
      | true => exact ends_read hread (Nat.le_refl _) (.inl (hr hread))
      | false =>
        cases hwrite : isWrite cmdId with
        | true =>
          obtain ⟨n, hn⟩ := hw hread hwrite
          exact ends_write hread hn
        | false =>
          refine ends_step fun s' hs => ?_
          obtain ⟨m, -, ⟨hr, -⟩ | ⟨-, hw, -⟩⟩ := transferStep_cases hs
          · exact absurd (hread.symm.trans hr) nofun
          · exact absurd (hwrite.symm.trans hw) nofun

end Termination

section Contents

variable {sys : Nat → Reply} {cmdId : UInt32} {fd : Fd} {buf : Mem} {count : Nat} {s s' : Transfer}

structure Progress (cmdId : UInt32) (fd : Fd) (buf : Mem) (count : Nat) (s : Transfer) : Prop where
  sum : s.done + s.bytesRemaining = count
  offset : s.fd.offset = fd.offset + s.done
  inside : s.done = 0 ∨ s.fd.offset ≤ s.fd.file.size
  read : isRead cmdId = true → s.fd.file = fd.file ∧
    Bytes.read s.buf 0 s.done = Bytes.read fd.file.bytes fd.offset s.done
  write : isRead cmdId = false → s.buf = buf ∧
    Bytes.read s.fd.file.bytes fd.offset s.done = Bytes.read buf 0 s.done

theorem Progress.start : Progress cmdId fd buf count ⟨0, fd, buf, 0, count⟩ where
  sum := Nat.zero_add count
  offset := rfl
  inside := .inl rfl
  read _ := ⟨rfl, rfl⟩
  write _ := ⟨rfl, rfl⟩

section

variable (h : Progress cmdId fd buf count s)
include h

theorem Progress.afterRead (hcmd : isRead cmdId = true) {k : Nat}
    (hk : k ≤ s.bytesRemaining) (hsize : k ≤ s.fd.file.size - s.fd.offset) :
    Progress cmdId fd buf count (s.afterRead k) := by
  have hsum := h.sum
  have hoff := h.offset
  obtain ⟨hfile, hbytes⟩ := h.read hcmd
  refine ⟨?_, ?_, ?_, fun _ => ⟨hfile, ?_⟩, fun hr => absurd (hcmd.symm.trans hr) nofun⟩
  · simp only [Transfer.afterRead]
    omega
  · simp only [Transfer.afterRead]
    omega
  · have hin := h.inside
    simp only [Transfer.afterRead]
    omega
  · have happ := read_write_append s.buf s.done (Bytes.read s.fd.file.bytes s.fd.offset k)
    rw [length_read, hbytes, hfile, hoff, ← read_add] at happ
    simpa only [Transfer.afterRead, hfile, hoff] using happ

theorem Progress.afterWrite (hcmd : isRead cmdId = false)
    {k : Nat} (hk : k ≤ s.bytesRemaining) : Progress cmdId fd buf count (s.afterWrite k) := by
  have hsum := h.sum
  have hoff := h.offset
  obtain ⟨hbuf, hbytes⟩ := h.write hcmd
  have hlen : (Bytes.read s.buf s.done k).length = k := length_read _ _ _
  by_cases hzero : k = 0
  · subst hzero
    have hput : s.fd.file.put s.fd.offset (Bytes.read s.buf s.done 0) = s.fd.file := if_pos rfl
    refine ⟨hsum, hoff, ?_, fun hr => absurd (hcmd.symm.trans hr) nofun, fun _ => ⟨hbuf, ?_⟩⟩
    · exact h.inside
    · exact hbytes
  · have hne : Bytes.read s.buf s.done k ≠ [] := by
      intro hnil
      rw [hnil] at hlen
      exact hzero hlen.symm
    have hput : s.fd.file.put s.fd.offset (Bytes.read s.buf s.done k) =
        ⟨Bytes.write (fun i => if i < s.fd.file.size then s.fd.file.bytes i else 0) s.fd.offset
          (Bytes.read s.buf s.done k), max s.fd.file.size (s.fd.offset + k)⟩ := by
      rw [File.put, if_neg hne, hlen]
    refine ⟨?_, ?_, ?_, fun hr => absurd (hcmd.symm.trans hr) nofun, fun _ => ⟨hbuf, ?_⟩⟩
    · simp only [Transfer.afterWrite]
      omega
    · simp only [Transfer.afterWrite]
      omega
    · simp only [Transfer.afterWrite, hput]
      omega
    · -- the bytes written before lie inside the file, so they are kept
      have hkeep : Bytes.read (Bytes.write (fun i => if i < s.fd.file.size then
          s.fd.file.bytes i else 0) s.fd.offset (Bytes.read s.buf s.done k)) fd.offset s.done =
          Bytes.read s.fd.file.bytes fd.offset s.done := by
        refine read_congr fun i hi hlt => ?_
        have hin := h.inside
        rw [write_of_lt (by omega), if_pos (by omega)]
      have hself := read_write_self (fun i => if i < s.fd.file.size then s.fd.file.bytes i else 0)
        s.fd.offset (Bytes.read s.buf s.done k)
      rw [hlen] at hself
      simp only [Transfer.afterWrite, hput]
      rw [read_add, hkeep, hbytes, ← hoff, hself, hbuf, read_add, Nat.zero_add]

theorem Progress.step
    (hs : transferStep sys cmdId s = .ok s') : Progress cmdId fd buf count s' := by
  obtain ⟨m, -, ⟨hcmd, rfl⟩ | ⟨hread, -, rfl⟩⟩ := transferStep_cases hs
  · exact h.afterRead hcmd (by omega) (by omega)
  · exact h.afterWrite hread (by omega)

theorem Progress.loop {fuel ret : Nat} (hl : transferLoop sys cmdId fuel s = some (ret, s')) :
    Progress cmdId fd buf count s' ∧ (ret = 0 → s'.bytesRemaining = 0) := by
  induction fuel generalizing s with
  | zero =>
    by_cases hrem : s.bytesRemaining = 0
    · rw [transferLoop_of_zero hrem] at hl
      cases hl
      exact ⟨h, fun _ => hrem⟩
    · rw [transferLoop_zero hrem] at hl
      cases hl
  | succ fuel ih =>
    by_cases hrem : s.bytesRemaining = 0
    · rw [transferLoop_of_zero hrem] at hl
      cases hl
      exact ⟨h, fun _ => hrem⟩
    cases hs : transferStep sys cmdId s with
    | error e =>
      rw [transferLoop_error hrem hs] at hl
      cases hl
      exact ⟨h, fun h0 => absurd h0 e.ne_zero⟩
    | ok s₁ =>
      rw [transferLoop_ok hrem hs] at hl
      exact ih (h.step hs) hl

end

structure Transferred (cmdId : UInt32) (fd : Fd) (buf : Mem) (count : Nat) (r : Result) : Prop where
  reported : r.count = r.state.done
  read : isRead cmdId = true → (r.count = 0 ∨ fd.offset + r.count ≤ fd.file.size) ∧
    Bytes.read r.state.buf 0 r.count = Bytes.read fd.file.bytes fd.offset r.count
  written : isRead cmdId = false →
    Bytes.read r.state.fd.file.bytes fd.offset r.count = Bytes.read buf 0 r.count
  short : r.count < count → fd.file.size ≤ fd.offset + r.count

theorem performReadWrite_transferred {fuel : Nat} {r : Result}
    (h : performReadWrite sys cmdId fuel fd buf count = some r) (hret : r.ret = 0) :
    Transferred cmdId fd buf count r := by
  obtain ⟨⟨ret, s⟩, hl, rfl⟩ := Option.map_eq_some_iff.mp h
  obtain ⟨hp, hdone⟩ := Progress.start.loop hl
  have hrem := hdone hret
  have hsum := hp.sum
  have hcount : (if ret = 0 then count - s.bytesRemaining else count) = s.done := by
    rw [if_pos hret]
    omega
  simp only [hcount]
  refine ⟨rfl, fun hr => ?_, fun hr => (hp.write hr).2, fun hlt => ?_⟩
  · obtain ⟨hfile, hbytes⟩ := hp.read hr
    have hin := hp.inside
    rw [hp.offset, hfile] at hin
    exact ⟨hin, hbytes⟩
  · dsimp only at hlt
    omega

end Contents

section Request

structure Request where
  cmdId : UInt32
  pathname : List UInt8
  offset : Int32
  count : UInt32
  backup : Bool
  buf : Mem

/-- The outcomes of the calls for one request. `backup` also says where the copying of the file has
left the descriptor. -/
structure Env where
  opened : Except Errno File
  backup : Except Errno Nat
  sys : Nat → Reply

def prepare (env : Env) (req : Request) : Except Errno (Fd × Nat) :=
  env.opened.bind fun file =>
    (if req.backup then env.backup else .ok 0).bind fun offset =>
      let (pos, fd) := (Fd.mk file offset).lseek req.offset.toInt
      if pos ≠ req.offset.toInt then .error einval
      else .ok (fd, min req.count.toNat gpfsFileSize)

def gpfileReadwriteHelper (fuel : Nat) (env : Env) (req : Request) : Option (Nat × Nat) :=
  match prepare env req with
  | .error e => some (e.val, req.count.toNat)
  | .ok (fd, count) =>
    (performReadWrite env.sys req.cmdId fuel fd req.buf count).map fun r =>
      (r.ret, if r.ret ≠ 0 then 0 else r.count)

structure Response where
  err : Int
  numBytes : Nat
  deriving DecidableEq

def gpfileTransfer (accepts : UInt32 → Bool) (fuel : Nat) (env : Env) (req : Request) :
    Option Response :=
  if req.pathname = [] then some ⟨einval.val, 0⟩
  else if accepts req.cmdId = false then some ⟨gpfsErrorNoCmd, 0⟩
  else (gpfileReadwriteHelper fuel env req).map fun (err, count) =>
    ⟨err, if err ≠ 0 then 0 else count⟩

def gpfileRead : Nat → Env → Request → Option Response := gpfileTransfer isRead

def gpfileWrite : Nat → Env → Request → Option Response := gpfileTransfer isWrite

variable {env : Env} {req : Request} {fd : Fd} {count : Nat}

/-- -1 is what a failed `lseek` returns, so it is the one offset below 0 that is let through. -/
theorem prepare_offset (h : prepare env req = .ok (fd, count)) :
    (fd.offset : Int) = req.offset.toInt ↔ req.offset.toInt ≠ -1 := by
  unfold prepare at h
  cases hopen : env.opened with
  | error e =>
    rw [hopen] at h
    cases h
  | ok file =>
    cases hback : (if req.backup then env.backup else .ok 0 : Except Errno Nat) with
    | error e =>
      rw [hopen] at h
      simp only [hback] at h
      cases h
    | ok offset =>
      rw [hopen] at h
      simp only [Except.bind, hback, Fd.lseek] at h
      by_cases hneg : req.offset.toInt < 0
      · split_ifs at h with hpos
        cases h
        dsimp only
        omega
      · simp only [if_neg hneg, ne_eq] at h
        cases h
        dsimp only
        omega

/-- The transfer made for a request starts at the offset asked for, comes to an end, and a return
value of 0 means what it says. -/
structure TransferSound (env : Env) (req : Request) (fd : Fd) (count : Nat) : Prop where
  positioned : (fd.offset : Int) = req.offset.toInt
  ends : ∃ fuel r, performReadWrite env.sys req.cmdId fuel fd req.buf count = some r
  transferred : ∀ fuel r, performReadWrite env.sys req.cmdId fuel fd req.buf count = some r →
    r.ret = 0 → Transferred req.cmdId fd req.buf count r

/-- A transfer is sound exactly if the offset is not taken for the marker of none and the calls of
the system bring it to an end. -/
theorem transfer_sound_iff (env : Env) (req : Request) :
    (∀ fd count, prepare env req = .ok (fd, count) → TransferSound env req fd count) ↔
      ∀ fd count, prepare env req = .ok (fd, count) →
        req.offset.toInt ≠ -1 ∧ Finishes env.sys req.cmdId fd count := by
  refine forall₃_congr fun fd count hprep => ?_
  have hends : (∃ fuel r, performReadWrite env.sys req.cmdId fuel fd req.buf count = some r) ↔
      Finishes env.sys req.cmdId fd count := by
    rw [← ends_iff fd req.buf count]
    refine exists_congr fun fuel => ?_
    simp only [performReadWrite, Option.map_eq_some_iff]
    constructor
    · rintro ⟨r, x, hx, -⟩
      exact ⟨x, hx⟩
    · rintro ⟨x, hx⟩
      exact ⟨_, x, hx, rfl⟩
  constructor
  · intro hs
    exact ⟨(prepare_offset hprep).mp hs.positioned, hends.mp hs.ends⟩
  · rintro ⟨hoff, hfin⟩
    exact ⟨(prepare_offset hprep).mpr hoff, hends.mpr hfin,
      fun fuel r hr hret => performReadWrite_transferred hr hret⟩

theorem gpfileTransfer_reports {accepts : UInt32 → Bool} {fuel : Nat} {rsp : Response}
    (h : gpfileTransfer accepts fuel env req = some rsp) (herr : rsp.err = 0) :
    accepts req.cmdId = true ∧ ∃ fd count r, prepare env req = .ok (fd, count) ∧
      performReadWrite env.sys req.cmdId fuel fd req.buf count = some r ∧
      rsp.numBytes = r.count ∧ Transferred req.cmdId fd req.buf count r := by
  unfold gpfileTransfer gpfileReadwriteHelper at h
  split_ifs at h with hpath hacc
  · cases h
    exact absurd (Int.ofNat_eq_zero.mp herr) einval.ne_zero
  · cases h
    cases herr
  · split at h
    · cases h
      exact absurd (Int.ofNat_eq_zero.mp herr) (Errno.ne_zero _)
    · rename_i fd count hprep
      obtain ⟨x, hx, rfl⟩ := Option.map_eq_some_iff.mp h
      obtain ⟨r, hr, rfl⟩ := Option.map_eq_some_iff.mp hx
      have hret : r.ret = 0 := Int.ofNat_eq_zero.mp herr
      refine ⟨by simpa using hacc, fd, count, r, hprep, hr, by simp [hret], ?_⟩
      exact performReadWrite_transferred hr hret

end Request

def greeting : File := ⟨fun i => [104, 101, 108, 108, 111].getD i 0, 5⟩

def readRequest (offset : Int32) (count : UInt32) : Request :=
  ⟨dataFileRead, [102], offset, count, false, fun _ => 0⟩

def oneByteCalls (file : File) : Env := ⟨.ok file, .ok 0, fun _ => .xfer 1⟩

theorem transfer_sound_greeting :
    prepare (oneByteCalls greeting) (readRequest 1 4) = .ok (⟨greeting, 1⟩, 4) ∧
      TransferSound (oneByteCalls greeting) (readRequest 1 4) ⟨greeting, 1⟩ 4 := by
  have hprep : prepare (oneByteCalls greeting) (readRequest 1 4) = .ok (⟨greeting, 1⟩, 4) := rfl
  refine ⟨hprep, (transfer_sound_iff _ _).mpr (fun fd count h => ?_) _ _ hprep⟩
  cases Except.ok.inj (hprep.symm.trans h)
  exact ⟨by decide, .inr (.inr ⟨fun _ => by decide, fun hr => absurd hr (by decide)⟩)⟩

theorem gpfileRead_greeting :
    gpfileRead 4 (oneByteCalls greeting) (readRequest 1 4) = some ⟨0, 4⟩ ∧
      ∃ r, performReadWrite (oneByteCalls greeting).sys dataFileRead 4 ⟨greeting, 1⟩ (fun _ => 0) 4 =
        some r ∧ r.count = 4 ∧ Transferred dataFileRead ⟨greeting, 1⟩ (fun _ => 0) 4 r := by
  have h : gpfileRead 4 (oneByteCalls greeting) (readRequest 1 4) = some ⟨0, 4⟩ := rfl
  obtain ⟨-, fd, count, r, hprep, hrun, hcount, hr⟩ := gpfileTransfer_reports h rfl
  cases Except.ok.inj hprep
  exact ⟨h, r, hrun, hcount.symm, hr⟩

/-- Reading past the end never returns; reading from offset -1 succeeds with the bytes from
offset 0. -/
theorem transfer_unsound :
    prepare (oneByteCalls greeting) (readRequest 2 4) = .ok (⟨greeting, 2⟩, 4) ∧
      (¬ ∃ fuel r, performReadWrite (oneByteCalls greeting).sys dataFileRead fuel ⟨greeting, 2⟩
        (fun _ => 0) 4 = some r) ∧
    prepare (oneByteCalls greeting) (readRequest (-1) 2) = .ok (⟨greeting, 0⟩, 2) ∧
      ∃ fuel r, performReadWrite (oneByteCalls greeting).sys dataFileRead fuel ⟨greeting, 0⟩
        (fun _ => 0) 2 = some r ∧ r.ret = 0 ∧ Bytes.read r.state.buf 0 r.count = [104, 101] := by
  refine ⟨rfl, ?_, rfl, 2, _, rfl, rfl, rfl⟩
  rintro ⟨fuel, r, hr⟩
  obtain ⟨x, hx, -⟩ := Option.map_eq_some_iff.mp hr
  have hfail : ∀ k e, (oneByteCalls greeting).sys k ≠ .fail e := by
    intro k e h
    cases h
  exact not_ends_read (s := ⟨0, ⟨greeting, 2⟩, fun _ => 0, 0, 4⟩) rfl hfail (by decide) (by decide)
    ⟨fuel, x, hx⟩

end MinkIpc.Gpfs
