import Mathlib.Data.List.Basic
import Mathlib.Tactic.Ring

/-! The scanner for sets of ids in metadata: hexadecimal ids, each followed by an
optional mask that stands for the ids after it, four to a digit. -/

namespace MinkIpc.Metadata

def hexValue (c : UInt8) : Option Nat :=
  if 48 ≤ c ∧ c ≤ 57 then some (c.toNat - 48)
  else if 97 ≤ c ||| 32 ∧ c ||| 32 ≤ 102 then some ((c ||| 32).toNat - 97 + 10)
  else none

structure IDScan where
  id : UInt32
  rest : List UInt8
  maskBits : Nat
  deriving DecidableEq, Repr

namespace IDScan

def init (value : List UInt8) : IDScan := ⟨0, value, 0⟩

def takeBits : Nat → UInt32 → Nat → UInt32 × Nat × Bool
  | 0, id, maskBits => (id, maskBits, false)
  | fuel + 1, id, maskBits =>
    if 1 < maskBits then
      if maskBits % 2 = 1 then (id + 1, maskBits / 2, true)
      else takeBits fuel (id + 1) (maskBits / 2)
    else (id, maskBits, false)

def maskLoop : List UInt8 → UInt32 → Nat → Bool × IDScan
  | [], id, maskBits =>
    match takeBits maskBits id maskBits with
    | (id, maskBits, true) => (true, ⟨id, [], maskBits⟩)
    | (id, _, false) => (false, ⟨id, [], 0⟩)
  | c :: cs, id, maskBits =>
    match takeBits maskBits id maskBits with
    | (id, maskBits, true) => (true, ⟨id, c :: cs, maskBits⟩)
    | (id, maskBits, false) =>
      if maskBits = 0 then (false, ⟨id, c :: cs, 0⟩)
      else
        match hexValue c with
        | some digit => maskLoop cs id (digit ||| 16)
        | none => (false, ⟨id, c :: cs, 0⟩)

def readId : List UInt8 → UInt32 → UInt32 × List UInt8
  | [], id => (id, [])
  | c :: cs, id =>
    match hexValue c with
    | some digit => readId cs ((id <<< 4) ||| UInt32.ofNat digit)
    | none => (id, c :: cs)

def after (id : UInt32) : List UInt8 → IDScan
  | 58 :: cs => ⟨id, cs, 1⟩
  | rest => ⟨id, rest, 0⟩

def skipComma : List UInt8 → List UInt8
  | 44 :: cs => cs
  | rest => rest

def next (s : IDScan) : Option IDScan :=
  match maskLoop s.rest s.id s.maskBits with
  | (true, s') => some s'
  | (false, s') =>
    let rest := skipComma s'.rest
    let (id, stop) := readId rest 0
    if stop.length = rest.length then none else some (after id stop)

inductive Scans : IDScan → List UInt32 → Prop
  | done {s : IDScan} (h : s.next = none) : Scans s []
  | step {s t : IDScan} {ids : List UInt32} (h : s.next = some t) (rest : Scans t ids) :
      Scans s (t.id :: ids)

theorem takeBits_fuel {fuel fuel' m : Nat} (h : m ≤ fuel) (h' : m ≤ fuel') (id : UInt32) :
    takeBits fuel id m = takeBits fuel' id m := by
  induction fuel generalizing fuel' id m with
  | zero =>
    obtain rfl : m = 0 := by omega
    cases fuel' <;> rfl
  | succ fuel ih =>
    cases fuel' with
    | zero =>
      obtain rfl : m = 0 := by omega
      rfl
    | succ fuel' =>
      unfold takeBits
      split_ifs
      · rfl
      · exact ih (by omega) (by omega) _
      · rfl

theorem takeBits_one (fuel : Nat) (id : UInt32) : takeBits fuel id 1 = (id, 1, false) := by
  cases fuel <;> rfl

theorem takeBits_odd {m : Nat} (hm : 1 < m) (hodd : m % 2 = 1) (id : UInt32) :
    takeBits m id m = (id + 1, m / 2, true) := by
  obtain ⟨k, rfl⟩ : ∃ k, m = k + 1 := ⟨m - 1, by omega⟩
  rw [takeBits, if_pos hm, if_pos hodd]

theorem takeBits_even {m : Nat} (hm : 1 < m) (heven : m % 2 = 0) (id : UInt32) :
    takeBits m id m = takeBits (m / 2) (id + 1) (m / 2) := by
  obtain ⟨k, rfl⟩ : ∃ k, m = k + 1 := ⟨m - 1, by omega⟩
  rw [takeBits, if_pos hm, if_neg (by omega)]
  exact takeBits_fuel (by omega) (Nat.le_refl _) _

variable {ids : List UInt32} {rest : List UInt8}

theorem Scans.of_next_eq {s t : IDScan} (h : s.next = t.next) (ht : Scans t ids) : Scans s ids := by
  cases ht with
  | done hn => exact .done (h.trans hn)
  | step hn rest => exact .step (h.trans hn) rest

theorem maskLoop_odd {m : Nat} (hm : 1 < m) (hodd : m % 2 = 1) (rest : List UInt8) (id : UInt32) :
    maskLoop rest id m = (true, ⟨id + 1, rest, m / 2⟩) := by
  cases rest <;> simp only [maskLoop, takeBits_odd hm hodd]

theorem maskLoop_even {m : Nat} (hm : 1 < m) (heven : m % 2 = 0) (rest : List UInt8)
    (id : UInt32) : maskLoop rest id m = maskLoop rest (id + 1) (m / 2) := by
  cases rest <;> simp only [maskLoop, takeBits_even hm heven]

def bitIds : Nat → Nat → Nat → List UInt32
  | 0, _, _ => []
  | n + 1, p, d => (if d % 2 = 1 then [UInt32.ofNat p] else []) ++ bitIds n (p + 1) (d / 2)

theorem scans_bits {n p d : Nat} (hd : d < 2 ^ n) {r : UInt32} (hr : r + 1 = UInt32.ofNat p)
    (h : ∀ r', r' + 1 = UInt32.ofNat (p + n) → Scans ⟨r', rest, 1⟩ ids) :
    Scans ⟨r, rest, 2 ^ n + d⟩ (bitIds n p d ++ ids) := by
  induction n generalizing p d r with
  | zero =>
    obtain rfl : d = 0 := by simpa using hd
    exact h r hr
  | succ n ih =>
    have hdiv : (2 ^ (n + 1) + d) / 2 = 2 ^ n + d / 2 := by omega
    have hr' : r + 1 + 1 = UInt32.ofNat (p + 1) := by rw [hr, UInt32.ofNat_add]; rfl
    have htail : Scans ⟨r + 1, rest, 2 ^ n + d / 2⟩ (bitIds n (p + 1) (d / 2) ++ ids) := by
      refine ih (by omega) hr' fun r' hr' => h r' ?_
      rw [hr', show p + 1 + n = p + (n + 1) by omega]
    by_cases hodd : d % 2 = 1
    · have hnext : IDScan.next ⟨r, rest, 2 ^ (n + 1) + d⟩ = some ⟨r + 1, rest, 2 ^ n + d / 2⟩ := by
        simp only [next, maskLoop_odd (show 1 < 2 ^ (n + 1) + d by omega) (by omega), hdiv]
      have hstep := Scans.step hnext htail
      simpa [bitIds, hodd, hr] using hstep
    · have hnext : IDScan.next ⟨r, rest, 2 ^ (n + 1) + d⟩ =
          IDScan.next ⟨r + 1, rest, 2 ^ n + d / 2⟩ := by
        simp only [next, maskLoop_even (show 1 < 2 ^ (n + 1) + d by omega) (by omega), hdiv]
      simpa [bitIds, hodd] using Scans.of_next_eq hnext htail

theorem scans_digit {p d : Nat} (hd : d < 16) {r : UInt32} (hr : r + 1 = UInt32.ofNat p) {c : UInt8}
    (hc : hexValue c = some d) (h : ∀ r', r' + 1 = UInt32.ofNat (p + 4) → Scans ⟨r', rest, 1⟩ ids) :
    Scans ⟨r, c :: rest, 1⟩ (bitIds 4 p d ++ ids) := by
  have hor : d ||| 16 = 2 ^ 4 + d := (by decide : ∀ d < 16, d ||| 16 = 2 ^ 4 + d) d hd
  have hnext : IDScan.next ⟨r, c :: rest, 1⟩ = IDScan.next ⟨r, rest, 2 ^ 4 + d⟩ := by
    simp only [next, maskLoop, takeBits_one, hc, hor]
    simp
  exact Scans.of_next_eq hnext (scans_bits hd hr h)

def NoDigit (rest : List UInt8) : Prop := ∀ c ∈ rest.head?, hexValue c = none

theorem readId_noDigit (h : NoDigit rest) (id : UInt32) : readId rest id = (id, rest) := by
  cases rest with
  | nil => rfl
  | cons c cs => rw [readId, h c rfl]

end IDScan

end MinkIpc.Metadata
