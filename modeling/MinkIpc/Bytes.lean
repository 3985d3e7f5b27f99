import Mathlib.Data.List.Basic
import Mathlib.Tactic.Ring

/-! Little-endian numbers and byte-addressed memory. A memory is total: what
lies beyond an object of interest is some byte, as it is for a C pointer that
has left its buffer. -/

namespace Bytes

def le : Nat → Nat → List UInt8
  | 0, _ => []
  | n + 1, v => UInt8.ofNat v :: le n (v / 256)

def ofLe : List UInt8 → Nat
  | [] => 0
  | b :: bs => b.toNat + 256 * ofLe bs

@[simp]
theorem length_le (n v : Nat) : (le n v).length = n := by
  induction n generalizing v with
  | zero => rfl
  | succ n ih => simp [le, ih]

theorem ofLe_le (n v : Nat) : ofLe (le n v) = v % 256 ^ n := by
  induction n generalizing v with
  | zero => simp [le, ofLe, Nat.mod_one]
  | succ n ih =>
    have hmod : v % 256 ^ (n + 1) = v % 256 + 256 * (v / 256 % 256 ^ n) := by
      rw [pow_succ', Nat.mod_mul]
    simp [le, ofLe, ih, hmod]

variable {n a : Nat} {m : Mem}

theorem ofLe_le_of_lt {v : Nat} (h : v < 256 ^ n) : ofLe (le n v) = v := by
  rw [ofLe_le, Nat.mod_eq_of_lt h]

theorem le_inj {v w : Nat} (hv : v < 256 ^ n) (hw : w < 256 ^ n) (h : le n v = le n w) : v = w := by
  rw [← ofLe_le_of_lt hv, h, ofLe_le_of_lt hw]

theorem ofLe_lt (bs : List UInt8) : ofLe bs < 256 ^ bs.length := by
  induction bs with
  | nil => simp [ofLe]
  | cons b bs ih =>
    have hb := b.toNat_lt
    rw [List.length_cons, ofLe]
    omega

abbrev Mem := Nat → UInt8

def write (m : Mem) (a : Nat) (bs : List UInt8) : Mem :=
  fun i => if a ≤ i ∧ i < a + bs.length then bs.getD (i - a) 0 else m i

def read (m : Mem) (a n : Nat) : List UInt8 := (List.range n).map fun i => m (a + i)

@[simp]
theorem length_read (m : Mem) (a n : Nat) : (read m a n).length = n := by simp [read]

theorem read_congr {m' : Mem} (h : ∀ i, a ≤ i → i < a + n → m i = m' i) :
    read m a n = read m' a n := by
  refine List.map_congr_left fun i hi => h _ (by omega) ?_
  have hi := List.mem_range.mp hi
  omega

theorem take_read (m : Mem) (a n k : Nat) : (read m a n).take k = read m a (min k n) := by
  rw [read, read, ← List.map_take, List.take_range]

theorem read_add (m : Mem) (a n k : Nat) : read m a (n + k) = read m a n ++ read m (a + n) k := by
  simp [read, List.range_add, Nat.add_assoc]

theorem write_of_lt {i : Nat} {bs : List UInt8} (h : i < a) : write m a bs i = m i := by
  simp only [write]
  rw [if_neg (by omega)]

theorem write_of_ge {i : Nat} {bs : List UInt8} (h : a + bs.length ≤ i) : write m a bs i = m i := by
  simp only [write]
  rw [if_neg (by omega)]

theorem read_write_self (m : Mem) (a : Nat) (bs : List UInt8) :
    read (write m a bs) a bs.length = bs := by
  refine List.ext_getElem (by simp) fun i _ h => ?_
  simp [read, write, h]

theorem read_write_of_disjoint {b : Nat} {bs : List UInt8} (h : b + n ≤ a ∨ a + bs.length ≤ b) :
    read (write m a bs) b n = read m b n := by
  refine read_congr fun i hi hn => ?_
  rcases h with h | h
  · exact write_of_lt (by omega)
  · exact write_of_ge (by omega)

theorem write_nil (m : Mem) (a : Nat) : write m a [] = m := by
  funext i
  rcases Nat.lt_or_ge i a with hlt | hge
  · exact write_of_lt hlt
  · exact write_of_ge hge

theorem write_cons (m : Mem) (a : Nat) (b : UInt8) (bs : List UInt8) :
    write m a (b :: bs) = write (write m a [b]) (a + 1) bs := by
  funext i
  rcases Nat.lt_or_ge i (a + 1 + bs.length) with hlt | hge
  · rcases Nat.lt_trichotomy i a with ha | rfl | ha
    · rw [write_of_lt ha, write_of_lt (by omega), write_of_lt ha]
    · simp [write]
    · obtain ⟨j, rfl⟩ : ∃ j, i = a + 1 + j := ⟨i - (a + 1), by omega⟩
      have hj : a + 1 + j - a = j + 1 := by omega
      have hin : a + 1 + j < a + (bs.length + 1) := by omega
      simp [write, hj, hin, show a ≤ a + 1 + j by omega, show j < bs.length by omega]
  · rw [write_of_ge (by rw [List.length_cons]; omega), write_of_ge hge,
      write_of_ge (by rw [List.length_singleton]; omega)]

theorem write_last (m : Mem) (a : Nat) (bs : List UInt8) (x y : UInt8) :
    write (write m a (bs ++ [x])) (a + bs.length) [y] = write m a (bs ++ [y]) := by
  induction bs generalizing m a with
  | nil =>
    funext i
    rw [List.nil_append, List.nil_append, List.length_nil, Nat.add_zero]
    rcases Nat.lt_trichotomy i a with hlt | rfl | hgt
    · rw [write_of_lt hlt, write_of_lt hlt, write_of_lt hlt]
    · simp [write]
    · have hge : ∀ z : UInt8, a + [z].length ≤ i := fun z => hgt
      rw [write_of_ge (hge y), write_of_ge (hge x), write_of_ge (hge y)]
  | cons b bs ih =>
    have hlen : a + (b :: bs).length = a + 1 + bs.length := by rw [List.length_cons]; omega
    rw [List.cons_append, List.cons_append, write_cons m a b (bs ++ [x]), hlen, ih, ← write_cons]

theorem read_write_append (m : Mem) (n : Nat) (bs : List UInt8) :
    read (write m n bs) 0 (n + bs.length) = read m 0 n ++ bs := by
  rw [read_add, Nat.zero_add, read_write_self, read_write_of_disjoint (.inl (by omega))]

def word (m : Mem) (a n : Nat) : Nat := ofLe (read m a n)

def putWord (m : Mem) (a n v : Nat) : Mem := write m a (le n v)

theorem word_putWord_self (m : Mem) (a n v : Nat) : word (putWord m a n v) a n = v % 256 ^ n := by
  have h := read_write_self m a (le n v)
  rw [length_le] at h
  rw [word, putWord, h, ofLe_le]

theorem word_putWord_of_disjoint {b k v : Nat} (h : b + k ≤ a ∨ a + n ≤ b) :
    word (putWord m a n v) b k = word m b k := by
  rw [word, putWord, read_write_of_disjoint (by simpa using h), word]

theorem word_lt (m : Mem) (a n : Nat) : word m a n < 256 ^ n := by
  have h := ofLe_lt (read m a n)
  rwa [length_read] at h

theorem word_congr {m' : Mem} (h : ∀ i, a ≤ i → i < a + n → m i = m' i) :
    word m a n = word m' a n := by
  rw [word, read_congr h, word]

end Bytes
