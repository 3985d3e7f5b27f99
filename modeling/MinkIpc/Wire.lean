import MinkIpc.Bytes

/-! The messages of a MinkSocket connection as they lie in memory: a header, one four-byte word per
argument, and the bytes of the buffers, each on an eight-byte boundary. -/

namespace MinkIpc

open Bytes

def lxcomMaxArgs : Nat := 60
def lxcomMsgAlignment : Nat := 8
def msgBufferPrealloc : Nat := 1024
def msgBufferMax : Nat := 4 * 1024 * 1024

def lxcomRequest : Nat := 1
def lxcomSuccess : Nat := 2

def nullObjectFlag : Nat := 0
def callerObject : Nat := 1
def calleeObject : Nat := 2
def descriptorObject : Nat := 4
def memparcelObject : Nat := 8
def memparcelInfo : Nat := 16
def memparcelSpecialRules : Nat := 32

def nullObjectHandle : Nat := 65535
def invalidObjectHandle : Nat := 65534

def numExtraArgsPerMemparcel : Nat := 4
def numExtraArgsSpecialRules : Nat := 4

def verIndirectMem : Nat := 2 * 65536

def padded (x : Nat) : Nat := if x ≠ 0 then x + (8 - x % 8) % 8 else 0

def layoutEnd : Nat → List Nat → Nat
  | start, [] => start
  | start, s :: ss => layoutEnd (padded start + s) ss

def layoutRanges : Nat → List Nat → List (Nat × Nat)
  | _, [] => []
  | start, s :: ss => (padded start, s) :: layoutRanges (padded start + s) ss

def numBI (k : Nat) : Nat := k % 16
def numBO (k : Nat) : Nat := k / 16 % 16
def numOI (k : Nat) : Nat := k / 256 % 16
def numOO (k : Nat) : Nat := k / 4096 % 16

def indexBO (k : Nat) : Nat := numBI k
def indexOI (k : Nat) : Nat := numBI k + numBO k
def numIn (k : Nat) : Nat := numBI k + numBO k + numOI k
def numOut (k : Nat) : Nat := numBO k + numOO k
def total (k : Nat) : Nat := numBI k + numBO k + numOI k + numOO k

def reqArgs : Nat := 24
def succArgs : Nat := 12

def sizeofInvReq (k numExtra : Nat) : Nat := reqArgs + (numIn k + numExtra) * 4
def sizeofInvSucc (k numExtra : Nat) : Nat := succArgs + (numOut k + numExtra) * 4

def hdrSize (m : Mem) : Nat := word m 0 4
def hdrType (m : Mem) : Nat := word m 4 4
def hdrInvokeId (m : Mem) : Nat := word m 8 4
def int32 (m : Mem) (a : Nat) : Int32 := (UInt32.ofNat (word m a 4)).toInt32
def putInt32 (m : Mem) (a : Nat) (v : Int32) : Mem := putWord m a 4 v.toUInt32.toNat

def reqHandle (m : Mem) : Int32 := int32 m 12
def reqOp (m : Mem) : Int32 := int32 m 16
def reqK (m : Mem) : Nat := word m 20 4

structure Arg where
  flags : Nat
  handle : Nat
  deriving DecidableEq, Repr

def argSize (m : Mem) (base i : Nat) : Nat := word m (base + 4 * i) 4
def argObj (m : Mem) (base i : Nat) : Arg := ⟨word m (base + 4 * i) 2, word m (base + 4 * i + 2) 2⟩

def putArgSize (m : Mem) (base i v : Nat) : Mem := putWord m (base + 4 * i) 4 v
def putArgObj (m : Mem) (base i flags handle : Nat) : Mem :=
  putWord (putWord m (base + 4 * i) 2 flags) (base + 4 * i + 2) 2 handle

theorem padded_eq (x : Nat) : padded x = (x + 7) / 8 * 8 := by
  unfold padded
  split_ifs <;> omega

theorem le_padded (x : Nat) : x ≤ padded x := by
  rw [padded_eq]
  omega

theorem le_layoutEnd (start : Nat) (sizes : List Nat) : start ≤ layoutEnd start sizes := by
  induction sizes generalizing start with
  | nil => exact Nat.le_refl _
  | cons s ss ih =>
    have h := ih (padded start + s)
    have hp := le_padded start
    simp only [layoutEnd]
    omega

variable {sizes : List Nat}

theorem layoutRanges_bounds {start : Nat} {r : Nat × Nat} (h : r ∈ layoutRanges start sizes) :
    start ≤ r.1 ∧ r.1 + r.2 ≤ layoutEnd start sizes := by
  induction sizes generalizing start with
  | nil => simp [layoutRanges] at h
  | cons s ss ih =>
    have hp := le_padded start
    rcases List.mem_cons.mp h with rfl | h
    · exact ⟨hp, le_layoutEnd _ _⟩
    · have hr := ih h
      exact ⟨by omega, hr.2⟩

theorem exists_layoutRanges_end (start : Nat) (h : sizes ≠ []) :
    ∃ r ∈ layoutRanges start sizes, r.1 + r.2 = layoutEnd start sizes := by
  induction sizes generalizing start with
  | nil => exact absurd rfl h
  | cons s ss ih =>
    by_cases hs : ss = []
    · subst hs
      exact ⟨(padded start, s), by simp [layoutRanges], rfl⟩
    · obtain ⟨r, hr, he⟩ := ih (padded start + s) hs
      exact ⟨r, List.mem_cons_of_mem _ hr, he⟩

theorem mem_le_layoutEnd (start : Nat) {s : Nat} (h : s ∈ sizes) : s ≤ layoutEnd start sizes := by
  induction sizes generalizing start with
  | nil => simp at h
  | cons x xs ih =>
    rcases List.mem_cons.mp h with rfl | h
    · have hle := le_layoutEnd (padded start + s) xs
      simp only [layoutEnd]
      omega
    · exact ih _ h

theorem layoutRanges_pairwise (start : Nat) (sizes : List Nat) :
    (layoutRanges start sizes).Pairwise fun r r' => r.1 + r.2 ≤ r'.1 := by
  induction sizes generalizing start with
  | nil => exact .nil
  | cons s ss ih => exact .cons (fun r hr => (layoutRanges_bounds hr).1) (ih _)

theorem layoutRanges_eq_zip (start : Nat) (sizes : List Nat) :
    ((layoutRanges start sizes).map Prod.fst).zip sizes = layoutRanges start sizes := by
  induction sizes generalizing start with
  | nil => rfl
  | cons s ss ih => rw [layoutRanges, List.map_cons, List.zip_cons_cons, ih]

theorem map_snd_layoutRanges (start : Nat) (sizes : List Nat) :
    (layoutRanges start sizes).map Prod.snd = sizes := by
  induction sizes generalizing start with
  | nil => rfl
  | cons s ss ih => rw [layoutRanges, List.map_cons, ih]

theorem exists_layoutRanges_getElem? (start : Nat) {j s : Nat} (h : sizes[j]? = some s) :
    ∃ a, (layoutRanges start sizes)[j]? = some (a, s) := by
  induction sizes generalizing start j with
  | nil => simp at h
  | cons x xs ih =>
    cases j with
    | zero =>
      obtain rfl : x = s := by simpa using h
      exact ⟨padded start, rfl⟩
    | succ j => exact ih (padded start + x) h

theorem padded_add_padded (start s : Nat) : padded (padded start + s) = padded start + padded s := by
  simp only [padded_eq]
  omega

theorem layoutEnd_le (start : Nat) (sizes : List Nat) :
    layoutEnd start sizes ≤ padded start + (sizes.map padded).sum := by
  induction sizes generalizing start with
  | nil => exact le_padded start
  | cons s ss ih =>
    have h := ih (padded start + s)
    rw [padded_add_padded] at h
    rw [layoutEnd, List.map_cons, List.sum_cons]
    omega

theorem layoutRanges_mod {start : Nat} {r : Nat × Nat} (h : r ∈ layoutRanges start sizes) :
    r.1 % 8 = 0 := by
  induction sizes generalizing start with
  | nil => cases h
  | cons s ss ih =>
    rcases List.mem_cons.mp h with rfl | h
    · rw [padded_eq]
      exact Nat.mul_mod_left ..
    · exact ih h

section Shift

variable {a : Nat} (ha : a % 8 = 0)

include ha

theorem padded_add (start : Nat) : padded (a + start) = a + padded start := by
  rw [padded_eq, padded_eq]
  omega

theorem layoutRanges_add (start : Nat) (sizes : List Nat) :
    layoutRanges (a + start) sizes = (layoutRanges start sizes).map fun r => (a + r.1, r.2) := by
  induction sizes generalizing start with
  | nil => rfl
  | cons s ss ih => rw [layoutRanges, padded_add ha, Nat.add_assoc, ih, layoutRanges, List.map_cons]

theorem layoutEnd_add (start : Nat) (sizes : List Nat) :
    layoutEnd (a + start) sizes = a + layoutEnd start sizes := by
  induction sizes generalizing start with
  | nil => rfl
  | cons s ss ih => rw [layoutEnd, padded_add ha, Nat.add_assoc, ih, layoutEnd]

end Shift

theorem argObj_putArgObj_self (m : Mem) (base i flags handle : Nat) :
    argObj (putArgObj m base i flags handle) base i = ⟨flags % 65536, handle % 65536⟩ := by
  unfold argObj putArgObj
  rw [word_putWord_self, word_putWord_of_disjoint (by omega), word_putWord_self]
  rfl

theorem int32_putInt32_self (m : Mem) (a : Nat) (v : Int32) : int32 (putInt32 m a v) a = v := by
  have h : v.toUInt32.toNat < 256 ^ 4 := v.toUInt32.toNat_lt
  unfold int32 putInt32
  rw [word_putWord_self]
  simp

theorem putArgObj_of_lt {m : Mem} {base i flags handle a : Nat} (h : a < base + 4 * i) :
    putArgObj m base i flags handle a = m a := by
  unfold putArgObj putWord
  rw [write_of_lt (by omega), write_of_lt (by omega)]

theorem putArgObj_of_ge {m : Mem} {base i flags handle a : Nat} (h : base + 4 * (i + 1) ≤ a) :
    putArgObj m base i flags handle a = m a := by
  unfold putArgObj putWord
  rw [write_of_ge (by simp; omega), write_of_ge (by simp; omega)]

end MinkIpc
