import MinkIpc.GpTransfer

/-! The backup of a file that is about to be written. Two loops move the bytes, and only the last
values that `read` and `write` returned say afterwards whether they came to the end. -/

namespace MinkIpc.Gpfs

open Bytes

/-- `returned` has the values of all calls of `read` and `write`, `rBytes` and `wBytes` the last of
each. -/
structure Copy where
  fd : Fd
  backup : Fd
  rBytes : Int
  wBytes : Int
  returned : List Int

def Copy.start (fd : Fd) : Copy := ⟨fd, ⟨⟨fun _ => 0, 0⟩, 0⟩, 0, 0, []⟩

section Loops

variable (sys : Nat → Reply)

def Copy.read (dataSize : Nat) (s : Copy) : List UInt8 × Copy :=
  match s.fd.read dataSize (sys s.returned.length) with
  | .error _ => ([], { s with rBytes := -1, returned := s.returned ++ [-1] })
  | .ok (bs, fd) =>
    (bs, { s with fd := fd, rBytes := bs.length, returned := s.returned ++ [(bs.length : Int)] })

def Copy.write (bs : List UInt8) (s : Copy) : Copy :=
  match s.backup.write bs (sys s.returned.length) with
  | .error _ => { s with wBytes := -1, returned := s.returned ++ [-1] }
  | .ok (n, backup) =>
    { s with backup := backup, wBytes := n, returned := s.returned ++ [(n : Int)] }

end Loops

/-- The outcomes of the calls; those that fail do so with an error number. -/
structure BackupEnv where
  fstat : Option Errno
  malloc : Bool
  opened : Option Errno
  sys : Nat → Reply

structure Backup where
  ret : Nat
  fd : Fd
  backup : Option Fd
  returned : List Int

theorem File.put_end (f : File) (bs : List UInt8) :
    (f.put f.size bs).size = f.size + bs.length ∧
      Bytes.read (f.put f.size bs).bytes 0 (f.size + bs.length) = Bytes.read f.bytes 0 f.size ++ bs := by
  by_cases hbs : bs = []
  · simp [File.put, hbs]
  · rw [File.put, if_neg hbs]
    refine ⟨by simp, ?_⟩
    rw [read_write_append]
    congr 1
    exact read_congr fun i _ hi => if_pos (by omega)

section Copying

variable {sys : Nat → Reply} {file : File} {bs : List UInt8} {s s' : Copy} {fuel dataSize : Nat}

/-- All bytes read so far are in the backup, but for those of `bs`. -/
structure Copied (file : File) (bs : List UInt8) (s : Copy) : Prop where
  source : s.fd.file = file
  atEnd : s.backup.offset = s.backup.file.size
  bytes : Bytes.read s.backup.file.bytes 0 s.backup.file.size ++ bs =
    Bytes.read file.bytes 0 s.fd.offset
  moved : ∀ v ∈ s.returned, 0 < v

/-- A call that failed or moved nothing has ended the copying. -/
structure Stopped (file : File) (s : Copy) : Prop where
  source : s.fd.file = file
  last : s.rBytes ≤ 0 ∨ s.wBytes ≤ 0
  call : ∃ v ∈ s.returned, v ≤ 0

theorem Copied.write (h : Copied file bs s) (hs' : s.write sys bs = s') :
    (s'.wBytes ≤ 0 ∧ Stopped file s') ∨ 0 < s'.wBytes ∧ s'.rBytes = s.rBytes ∧ s'.fd = s.fd ∧
      Copied file (bs.drop s'.wBytes.toNat) s' := by
  subst hs'
  unfold Copy.write
  cases sys s.returned.length with
  | fail e => exact .inl ⟨by simp [Fd.write], h.source, by simp [Fd.write], -1, by simp [Fd.write]⟩
  | xfer m =>
    dsimp only [Fd.write]
    by_cases hzero : (bs.take m).length = 0
    · simp only [hzero]
      exact .inl ⟨le_rfl, h.source, .inr le_rfl, 0, by simp⟩
    · obtain ⟨hsize, hput⟩ := s.backup.file.put_end (bs.take m)
      refine .inr ⟨by omega, rfl, rfl, h.source, ?_, ?_, ?_⟩
      · simp only [h.atEnd, hsize]
      · simp only [h.atEnd, hsize, hput, Int.toNat_natCast, ← h.bytes, List.append_assoc]
        rw [List.drop_eq_drop_iff.mpr (by simp : min (bs.take m).length bs.length = min m bs.length),
          List.take_append_drop]
      · exact List.forall_mem_append.mpr ⟨h.moved, List.forall_mem_singleton.mpr (by omega)⟩

theorem Copied.read (h : Copied file [] s) (hlt : s.fd.offset < file.size) (hdata : 0 < dataSize)
    (hs' : s.read sys dataSize = (bs, s')) : (s'.rBytes ≤ 0 ∧ Stopped file s') ∨
      bs ≠ [] ∧ s'.rBytes = bs.length ∧ s'.fd.offset = s.fd.offset + bs.length ∧
        s'.fd.offset ≤ file.size ∧ Copied file bs s' := by
  unfold Copy.read at hs'
  cases hsys : sys s.returned.length with
  | fail e =>
    rw [hsys] at hs'
    cases hs'
    exact .inl ⟨by simp, h.source, .inl (by simp), -1, by simp⟩
  | xfer m =>
    rw [hsys] at hs'
    dsimp only [Fd.read] at hs'
    rw [h.source] at hs'
    generalize hk : min (max m 1) _ = k at hs'
    cases hs'
    refine .inr ⟨List.ne_nil_of_length_pos ?_, rfl, ?_, ?_, rfl, h.atEnd, ?_, ?_⟩
    · rw [length_read]
      omega
    · rw [length_read]
    · dsimp only
      omega
    · rw [read_add, ← h.bytes, List.append_nil, Nat.zero_add]
    · refine List.forall_mem_append.mpr ⟨h.moved, List.forall_mem_singleton.mpr ?_⟩
      rw [length_read]
      omega

end Copying

/-- What is promised of a backup: a return value of 0 means that the backup has the contents of the
file, all calls that return what they should give it, and the file is left alone. -/
structure Faithful (env : BackupEnv) (file : File) (r : Backup) : Prop where
  contents : r.ret = 0 → ∃ b, r.backup = some b ∧ b.file.size = file.size ∧
    Bytes.read b.file.bytes 0 file.size = Bytes.read file.bytes 0 file.size
  success : r.ret = 0 ↔ env.fstat = none ∧ env.malloc = true ∧ env.opened = none ∧
    ∀ v ∈ r.returned, 0 < v
  kept : r.fd.file = file

theorem Faithful.of_error {env : BackupEnv} (fd : Fd) (e : Errno)
    (h : ¬ (env.fstat = none ∧ env.malloc = true ∧ env.opened = none)) :
    Faithful env fd.file ⟨e.val, fd, none, []⟩ where
  contents hret := absurd hret e.ne_zero
  success := iff_of_false e.ne_zero fun hall => h ⟨hall.1, hall.2.1, hall.2.2.1⟩
  kept := rfl

end MinkIpc.Gpfs
