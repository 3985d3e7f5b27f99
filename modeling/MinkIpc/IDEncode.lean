import MinkIpc.IDScan
import Mathlib.Data.Finset.Sort

/-! The encoder of the signing script for sets of ids. It chooses for each id between
a number and a bit of the mask that follows the last number. -/

namespace MinkIpc.Metadata

def hexStr (val : Nat) : List Char := Nat.toDigits 16 val

def plainBytes (text : List Char) : List UInt8 := text.map fun c => UInt8.ofNat c.toNat

structure IDEncoder where
  s : List Char
  maskPos : Nat
  maskDigit : Nat
  deriving DecidableEq, Repr

namespace IDEncoder

def padMask : Nat → IDEncoder → Nat → IDEncoder
  | 0, e, _ => e
  | fuel + 1, e, id =>
    if e.maskPos + 4 ≤ id then padMask fuel ⟨e.s ++ hexStr e.maskDigit, e.maskPos + 4, 0⟩ id else e

def addNumber (e : IDEncoder) (id : Nat) : IDEncoder :=
  let s := if e.maskDigit ≠ 0 then e.s ++ hexStr e.maskDigit else e.s
  let s := if s ≠ [] then s ++ [','] else s
  ⟨s ++ hexStr id, id + 1, 0⟩

def addBit (e : IDEncoder) (id : Nat) : IDEncoder :=
  let s := if e.maskDigit = 0 then e.s ++ [':'] else e.s
  let e := padMask id { e with s := s } id
  { e with maskDigit := e.maskDigit ||| 1 <<< (id - e.maskPos) }

def add (e : IDEncoder) (id : Nat) : IDEncoder :=
  let numCost : Int := (hexStr id).length + (if e.maskDigit ≠ 0 then 1 else -1)
  let maskCost : Int := ((id : Int) - e.maskPos) / 4
  if e.s = [] ∨ numCost < maskCost then e.addNumber id else e.addBit id

theorem add_eq_or (e : IDEncoder) (id : Nat) : e.add id = e.addNumber id ∨ e.add id = e.addBit id :=
  ite_eq_or_eq ..

def finish (e : IDEncoder) : List Char :=
  if e.maskDigit ≠ 0 then e.s ++ hexStr e.maskDigit else e.s

end IDEncoder

def encodeIdSet (ids : Finset Nat) : List Char :=
  ((ids.sort (· ≤ ·)).foldl IDEncoder.add ⟨[], 0, 0⟩).finish

section Text

theorem plainBytes_append (s t : List Char) : plainBytes (s ++ t) = plainBytes s ++ plainBytes t :=
  List.map_append

theorem hexValue_digitChar {d : Nat} (hd : d < 16) :
    hexValue (UInt8.ofNat d.digitChar.toNat) = some d :=
  (by decide : ∀ d < 16, hexValue (UInt8.ofNat d.digitChar.toNat) = some d) d hd

theorem shiftLeft_or_ofNat {n : Nat} (h : n < 2 ^ 32) :
    (UInt32.ofNat (n / 16) <<< 4) ||| UInt32.ofNat (n % 16) = UInt32.ofNat n := by
  have hsmall : (UInt32.ofNat (n / 16)).toNat = n / 16 :=
    UInt32.toNat_ofNat_of_lt' (by show _ < 2 ^ 32; omega)
  have hlow : (UInt32.ofNat (n % 16)).toNat = n % 16 :=
    UInt32.toNat_ofNat_of_lt' (by show _ < 2 ^ 32; omega)
  have hfull : (UInt32.ofNat n).toNat = n := UInt32.toNat_ofNat_of_lt' h
  rw [← UInt32.toNat_inj, UInt32.toNat_or, UInt32.toNat_shiftLeft, hsmall, hlow, hfull]
  have hshift : (n / 16) <<< 4 % 2 ^ 32 = (n / 16) <<< 4 := by
    exact Nat.mod_eq_of_lt (by omega)
  have hadd := Nat.shiftLeft_add_eq_or_of_lt (show n % 16 < 2 ^ 4 by omega) (n / 16)
  show ((n / 16) <<< 4 % 2 ^ 32) ||| n % 16 = n
  rw [hshift]
  omega

theorem readId_hexStr {n : Nat} (h : n < 2 ^ 32) (rest : List UInt8) :
    IDScan.readId (plainBytes (hexStr n) ++ rest) 0 = IDScan.readId rest (UInt32.ofNat n) := by
  induction n using Nat.strongRecOn generalizing rest with
  | ind n ih =>
    by_cases hn : n < 16
    · rw [hexStr, Nat.toDigits_of_lt_base hn]
      show IDScan.readId (UInt8.ofNat n.digitChar.toNat :: rest) 0 = _
      rw [IDScan.readId, hexValue_digitChar hn]
      simp
    · have hmod : n % 16 < 16 := Nat.mod_lt _ (by decide)
      rw [hexStr, Nat.toDigits_of_base_le (by decide) (by omega), plainBytes_append,
        List.append_assoc]
      refine (ih (n / 16) (by omega) (by omega) _).trans ?_
      show IDScan.readId (UInt8.ofNat (n % 16).digitChar.toNat :: rest) _ = _
      rw [IDScan.readId, hexValue_digitChar hmod]
      simp only [shiftLeft_or_ofNat h]

theorem hexStr_ne_nil (n : Nat) : hexStr n ≠ [] := List.ne_nil_of_length_pos Nat.length_toDigits_pos

theorem readId_number {n : Nat} (h : n < 2 ^ 32) {rest : List UInt8} (hrest : IDScan.NoDigit rest) :
    IDScan.readId (plainBytes (hexStr n) ++ rest) 0 = (UInt32.ofNat n, rest) := by
  rw [readId_hexStr h, IDScan.readId_noDigit hrest]

theorem length_number (n : Nat) (rest : List UInt8) :
    rest.length ≠ (plainBytes (hexStr n) ++ rest).length := by
  have hpos : 0 < (hexStr n).length := Nat.length_toDigits_pos
  simp only [List.length_append, plainBytes, List.length_map]
  omega

theorem hexStr_cons (n : Nat) : ∃ d cs, d < 16 ∧ hexStr n = d.digitChar :: cs := by
  induction n using Nat.strongRecOn with
  | ind n ih =>
    by_cases hn : n < 16
    · exact ⟨n, [], hn, Nat.toDigits_of_lt_base hn⟩
    · obtain ⟨d, cs, hd, hcs⟩ := ih (n / 16) (by omega)
      refine ⟨d, cs ++ [(n % 16).digitChar], hd, ?_⟩
      rw [hexStr, Nat.toDigits_of_base_le (by decide) (by omega), ← hexStr, hcs, List.cons_append]

theorem skipComma_number (n : Nat) (rest : List UInt8) :
    IDScan.skipComma (plainBytes (hexStr n) ++ rest) = plainBytes (hexStr n) ++ rest := by
  obtain ⟨d, cs, hd, hcs⟩ := hexStr_cons n
  have hne : UInt8.ofNat d.digitChar.toNat ≠ 44 :=
    (by decide : ∀ d < 16, UInt8.ofNat d.digitChar.toNat ≠ 44) d hd
  rw [hcs]
  unfold IDScan.skipComma
  split
  · rename_i heq
    exact absurd (List.cons.inj heq).1 hne
  · rfl

end Text

namespace IDScan

variable {rest : List UInt8}

theorem scans_number {n : Nat} (hn : n < 2 ^ 32) (hrest : NoDigit rest) {ids : List UInt32}
    (h : Scans (after (UInt32.ofNat n) rest) ids) {s : IDScan}
    (hs : maskLoop s.rest s.id s.maskBits = (false, ⟨s.id, s.rest, 0⟩))
    (hskip : skipComma s.rest = plainBytes (hexStr n) ++ rest) :
    Scans s (UInt32.ofNat n :: ids) := by
  have hnext : s.next = some (after (UInt32.ofNat n) rest) := by
    simp only [next, hs, hskip, readId_number hn hrest, if_neg (length_number n rest)]
  have hid : (after (UInt32.ofNat n) rest).id = UInt32.ofNat n := by
    unfold after
    split <;> rfl
  exact hid ▸ Scans.step hnext h

theorem maskLoop_zero (rest : List UInt8) (id : UInt32) :
    maskLoop rest id 0 = (false, ⟨id, rest, 0⟩) := by
  cases rest <;> rfl

theorem maskLoop_end (h : NoDigit rest) (id : UInt32) :
    maskLoop rest id 1 = (false, ⟨id, rest, 0⟩) := by
  cases rest with
  | nil => rfl
  | cons c cs =>
    have hc : hexValue c = none := h c rfl
    simp [maskLoop, takeBits_one, hc]

theorem scans_comma {n : Nat} (hn : n < 2 ^ 32) (hrest : NoDigit rest) {ids : List UInt32}
    (h : Scans (after (UInt32.ofNat n) rest) ids) (r : UInt32) {m : Nat} (hm : m ≤ 1) :
    Scans ⟨r, 44 :: (plainBytes (hexStr n) ++ rest), m⟩ (UInt32.ofNat n :: ids) := by
  have hcomma : NoDigit (44 :: (plainBytes (hexStr n) ++ rest)) := by
    intro c hc
    cases hc
    decide
  refine scans_number hn hrest h ?_ rfl
  rcases (show m = 0 ∨ m = 1 by omega) with rfl | rfl
  · exact maskLoop_zero _ _
  · exact maskLoop_end hcomma _

theorem scans_end (r : UInt32) {m : Nat} (hm : m ≤ 1) : Scans ⟨r, [], m⟩ [] := by
  refine .done ?_
  rcases (show m = 0 ∨ m = 1 by omega) with rfl | rfl <;> rfl

theorem bitIds_zero (n p : Nat) : bitIds n p 0 = [] := by
  induction n generalizing p with
  | zero => rfl
  | succ n ih => exact ih (p + 1)

theorem bitIds_append {n j p d : Nat} (hj : j < n) (hd : d < 2 ^ j) :
    bitIds n p (d ||| 1 <<< j) = bitIds n p d ++ [UInt32.ofNat (p + j)] := by
  have hor : d ||| 1 <<< j = d + 2 ^ j := by
    have hadd := Nat.two_pow_add_eq_or_of_lt hd 1
    rw [Nat.mul_one] at hadd
    rw [Nat.one_shiftLeft, Nat.or_comm, Nat.add_comm, hadd]
  rw [hor]
  clear hor
  induction n generalizing j p d with
  | zero => omega
  | succ n ih =>
    cases j with
    | zero =>
      obtain rfl : d = 0 := by simpa using hd
      simp [bitIds, bitIds_zero]
    | succ j =>
      have hmod : (d + 2 ^ (j + 1)) % 2 = d % 2 := by omega
      have hdiv : (d + 2 ^ (j + 1)) / 2 = d / 2 + 2 ^ j := by omega
      rw [bitIds, bitIds, hmod, hdiv, ih (by omega) (by omega), List.append_assoc,
        show p + 1 + j = p + (j + 1) by omega]

end IDScan

namespace IDEncoder

open IDScan

theorem hexStr_digit {d : Nat} (hd : d < 16) : hexStr d = [d.digitChar] :=
  Nat.toDigits_of_lt_base hd

variable {e : IDEncoder}

theorem padMask_spec {fuel id : Nat} (hd : e.maskDigit < 16) (hle : e.maskPos ≤ id)
    (hfuel : id < e.maskPos + 4 * (fuel + 1)) (hbits : e.maskDigit < 2 ^ (id - e.maskPos))
    {r : UInt32} (hr : r + 1 = UInt32.ofNat e.maskPos) :
    ∃ pads e', padMask fuel e id = e' ∧ e'.s = e.s ++ pads ∧ e'.maskPos ≤ id ∧
      id < e'.maskPos + 4 ∧ e'.maskDigit < 2 ^ (id - e'.maskPos) ∧
      ∃ r', r' + 1 = UInt32.ofNat e'.maskPos ∧ ∀ t ids,
        Scans ⟨r', t, 1⟩ (bitIds 4 e'.maskPos e'.maskDigit ++ ids) →
          Scans ⟨r, plainBytes pads ++ t, 1⟩ (bitIds 4 e.maskPos e.maskDigit ++ ids) := by
  induction fuel generalizing e r with
  | zero => exact ⟨[], e, rfl, by simp, hle, by omega, hbits, r, hr, fun _ _ h => h⟩
  | succ fuel ih =>
    unfold padMask
    split_ifs with hnext
    · have hr' : r + 4 + 1 = UInt32.ofNat (e.maskPos + 4) := by
        rw [UInt32.ofNat_add, ← hr, UInt32.add_assoc, UInt32.add_assoc]
        rfl
      obtain ⟨pads, e', he', hs, hpos, hlt, hbits', r', hr'', hscan⟩ :=
        ih (e := ⟨e.s ++ hexStr e.maskDigit, e.maskPos + 4, 0⟩) (show 0 < 16 by decide) hnext
          (by simp only; omega) (Nat.two_pow_pos _) hr'
      refine ⟨hexStr e.maskDigit ++ pads, e', he', by rw [hs, List.append_assoc], hpos, hlt,
        hbits', r', hr'', fun t ids h => ?_⟩
      rw [plainBytes_append, hexStr_digit hd]
      refine scans_digit hd hr (hexValue_digitChar hd) fun r₁ hr₁ => ?_
      obtain rfl : r₁ = r + 4 := by
        have := hr₁.trans hr'.symm
        simpa using this
      simpa [bitIds_zero] using hscan t ids h
    · exact ⟨[], e, rfl, by simp, hle, by omega, hbits, r, hr, fun _ _ h => h⟩

/-- What is still to be emitted reads back as the ids behind the state of the encoder. In a mask
the next digit has the bits that are already there. -/
def Reads (p d : Nat) (text : List UInt8) (ids : List UInt32) : Prop :=
  ∀ r, r + 1 = UInt32.ofNat p →
    if d = 0 then NoDigit text ∧ Scans (after r text) ids else Scans ⟨r, text, 1⟩ (bitIds 4 p d ++ ids)

theorem noDigit_cons {c : UInt8} (hc : hexValue c = none) (rest : List UInt8) :
    NoDigit (c :: rest) := by
  intro c' hc'
  cases hc'
  exact hc

theorem reads_nil {p d : Nat} (hd : d < 16) (s : List Char) :
    ∃ t, finish ⟨s, p, d⟩ = s ++ t ∧ Reads p d (plainBytes t) [] := by
  by_cases h0 : d = 0
  · subst h0
    refine ⟨[], by simp [finish], fun r _ => ?_⟩
    exact ⟨by simp [NoDigit, plainBytes], scans_end r (by decide)⟩
  · refine ⟨hexStr d, by simp [finish, h0], fun r hr => ?_⟩
    rw [if_neg h0, hexStr_digit hd]
    exact scans_digit hd hr (hexValue_digitChar hd) fun r' _ => scans_end r' (Nat.le_refl 1)

theorem reads_number {id : Nat} (hd : e.maskDigit < 16) (hs : e.s ≠ []) (hid : id < 2 ^ 32)
    {t : List Char} {ids : List UInt32} (h : Reads (id + 1) 0 (plainBytes t) ids) :
    ∃ text, (e.addNumber id).s = e.s ++ text ∧
      Reads e.maskPos e.maskDigit (plainBytes (text ++ t)) (UInt32.ofNat id :: ids) := by
  obtain ⟨hno, hscan⟩ := h (UInt32.ofNat id) (by rw [UInt32.ofNat_add]; rfl)
  have htext : ∀ s, plainBytes (s ++ ',' :: hexStr id ++ t) =
      plainBytes s ++ 44 :: (plainBytes (hexStr id) ++ plainBytes t) := by
    intro s
    simp [plainBytes]
  by_cases h0 : e.maskDigit = 0
  · refine ⟨[] ++ ',' :: hexStr id, by simp [addNumber, h0, hs], fun r _ => ?_⟩
    rw [if_pos h0, htext]
    exact ⟨noDigit_cons (by decide) _, scans_comma hid hno hscan r (Nat.zero_le 1)⟩
  have hne : e.s ++ hexStr e.maskDigit ≠ [] := by simp [hs]
  refine ⟨hexStr e.maskDigit ++ ',' :: hexStr id, by simp [addNumber, h0, hne], fun r hr => ?_⟩
  rw [if_neg h0, htext, hexStr_digit hd]
  exact scans_digit hd hr (hexValue_digitChar hd) fun r' _ =>
    scans_comma hid hno hscan r' (Nat.le_refl 1)

theorem reads_bit {e' : IDEncoder} {id : Nat} (hd : e.maskDigit < 16) (hle : e.maskPos ≤ id)
    (hbits : e.maskDigit < 2 ^ (id - e.maskPos)) (he' : e.addBit id = e') :
    e'.maskPos ≤ id ∧ id < e'.maskPos + 4 ∧ e'.maskDigit < 2 ^ (id + 1 - e'.maskPos) ∧
      e'.maskDigit ≠ 0 ∧
      ∃ text, e'.s = e.s ++ text ∧ ∀ t ids, Reads e'.maskPos e'.maskDigit (plainBytes t) ids →
        Reads e.maskPos e.maskDigit (plainBytes (text ++ t)) (UInt32.ofNat id :: ids) := by
  let e₀ : IDEncoder := { e with s := if e.maskDigit = 0 then e.s ++ [':'] else e.s }
  have hr₀ : UInt32.ofNat e.maskPos - 1 + 1 = UInt32.ofNat e.maskPos := by simp
  obtain ⟨pads, e₁, he₁, hs, hle', hlt, hbits', r', hr', hscan⟩ :=
    padMask_spec (e := e₀) hd hle (show id < e.maskPos + 4 * (id + 1) by omega) hbits hr₀
  obtain rfl : { e₁ with maskDigit := e₁.maskDigit ||| 1 <<< (id - e₁.maskPos) } = e' := by
    rw [← he', ← he₁]
    rfl
  have hj : id - e₁.maskPos < 4 := by omega
  have hor : e₁.maskDigit ||| 1 <<< (id - e₁.maskPos) = 2 ^ (id - e₁.maskPos) + e₁.maskDigit := by
    have hadd := Nat.two_pow_add_eq_or_of_lt hbits' 1
    rw [Nat.mul_one] at hadd
    rw [Nat.one_shiftLeft, Nat.or_comm, hadd]
  have hne : e₁.maskDigit ||| 1 <<< (id - e₁.maskPos) ≠ 0 := by omega
  refine ⟨hle', hlt, ?_, hne, (if e.maskDigit = 0 then [':'] else []) ++ pads, ?_, ?_⟩
  · show e₁.maskDigit ||| 1 <<< (id - e₁.maskPos) < 2 ^ (id + 1 - e₁.maskPos)
    rw [show id + 1 - e₁.maskPos = id - e₁.maskPos + 1 by omega]
    omega
  · rw [hs]
    by_cases h0 : e.maskDigit = 0 <;> simp [e₀, h0]
  · intro t ids h r hr
    obtain rfl : r = UInt32.ofNat e.maskPos - 1 := UInt32.eq_sub_iff_add_eq.mpr hr
    have ht := h r' hr'
    rw [if_neg hne, bitIds_append hj hbits', List.append_assoc,
      show e₁.maskPos + (id - e₁.maskPos) = id by omega] at ht
    have hread := hscan (plainBytes t) (UInt32.ofNat id :: ids) ht
    by_cases h0 : e.maskDigit = 0
    · rw [if_pos h0, if_pos h0]
      have htext : plainBytes ([':'] ++ pads ++ t) = 58 :: (plainBytes pads ++ plainBytes t) := by
        simp [plainBytes]
      rw [htext]
      refine ⟨noDigit_cons (by decide) _, ?_⟩
      simpa [e₀, h0, bitIds_zero, after] using hread
    · rw [if_neg h0, if_neg h0, plainBytes_append]
      exact hread

theorem foldl_add_reads {ids : List Nat} (hsorted : ids.Pairwise (· < ·))
    (hids : ∀ id ∈ ids, id < 2 ^ 32) (hs : e.s ≠ []) (hd : e.maskDigit < 16)
    (hnext : ∀ id ∈ ids, e.maskPos ≤ id ∧ e.maskDigit < 2 ^ (id - e.maskPos)) :
    ∃ t, (ids.foldl add e).finish = e.s ++ t ∧
      Reads e.maskPos e.maskDigit (plainBytes t) (ids.map UInt32.ofNat) := by
  induction ids generalizing e with
  | nil => exact reads_nil hd e.s
  | cons id ids ih =>
    obtain ⟨hlt, hsorted⟩ := List.pairwise_cons.mp hsorted
    have hid := hids id (List.mem_cons_self ..)
    have hids' := fun i hi => hids i (List.mem_cons_of_mem _ hi)
    rw [List.foldl_cons]
    rcases e.add_eq_or id with hadd | hadd
    · rw [hadd]
      have hs' : (e.addNumber id).s ≠ [] := by simp [addNumber, hexStr_ne_nil]
      obtain ⟨t, ht, hreads⟩ := ih hsorted hids' (e := e.addNumber id) hs' (show 0 < 16 by decide)
        fun i hi => ⟨hlt i hi, Nat.two_pow_pos _⟩
      obtain ⟨text, htext, hread⟩ := reads_number hd hs hid hreads
      exact ⟨text ++ t, by rw [ht, htext, List.append_assoc], hread⟩
    · rw [hadd]
      obtain ⟨hle, hbits⟩ := hnext id (List.mem_cons_self ..)
      obtain ⟨hle', hin, hbits', hne, text, htext, hread⟩ := reads_bit hd hle hbits rfl
      have hs' : (e.addBit id).s ≠ [] := by simp [htext, hs]
      have hd' : (e.addBit id).maskDigit < 16 :=
        hbits'.trans_le (Nat.pow_le_pow_right (by decide) (by omega : _ ≤ 4))
      obtain ⟨t, ht, hreads⟩ := ih hsorted hids' hs' hd' fun i hi => by
        have hi := hlt i hi
        exact ⟨by omega, hbits'.trans_le (Nat.pow_le_pow_right (by decide) (by omega))⟩
      exact ⟨text ++ t, by rw [ht, htext, List.append_assoc], hread t _ hreads⟩

theorem scans_foldl_add {ids : List Nat} (hsorted : ids.Pairwise (· < ·))
    (hids : ∀ id ∈ ids, id < 2 ^ 32) :
    Scans (init (plainBytes (ids.foldl add ⟨[], 0, 0⟩).finish)) (ids.map UInt32.ofNat) := by
  cases ids with
  | nil => exact scans_end 0 (by decide)
  | cons id ids =>
    obtain ⟨hlt, hsorted⟩ := List.pairwise_cons.mp hsorted
    have hfirst : add ⟨[], 0, 0⟩ id = ⟨hexStr id, id + 1, 0⟩ := rfl
    obtain ⟨t, ht, hreads⟩ := foldl_add_reads hsorted
      (fun i hi => hids i (List.mem_cons_of_mem _ hi)) (e := ⟨hexStr id, id + 1, 0⟩)
      (hexStr_ne_nil id) (show 0 < 16 by decide) fun i hi => ⟨hlt i hi, Nat.two_pow_pos _⟩
    obtain ⟨hno, hscan⟩ := hreads (UInt32.ofNat id) (by rw [UInt32.ofNat_add]; rfl)
    rw [List.foldl_cons, hfirst, ht, plainBytes_append]
    exact scans_number (hids id (List.mem_cons_self ..)) hno hscan (maskLoop_zero _ _) (skipComma_number id _)

end IDEncoder

theorem scans_encodeIdSet {S : Finset Nat} (h : ∀ id ∈ S, id < 2 ^ 32) :
    ∃ ids, IDScan.Scans (IDScan.init (plainBytes (encodeIdSet S))) ids ∧
      ids.Nodup ∧ ids.toFinset.image UInt32.toNat = S := by
  have hids : ∀ id ∈ S.sort (· ≤ ·), id < 2 ^ 32 := fun id hid => h id ((Finset.mem_sort _).mp hid)
  refine ⟨_, IDEncoder.scans_foldl_add (Finset.sortedLT_sort _).pairwise hids, ?_, ?_⟩
  · refine List.Nodup.map_on ?_ (Finset.sort_nodup _ _)
    intro a ha b hb hab
    have := congrArg UInt32.toNat hab
    rwa [UInt32.toNat_ofNat_of_lt' (hids a ha), UInt32.toNat_ofNat_of_lt' (hids b hb)] at this
  · ext n
    simp only [Finset.mem_image, List.mem_toFinset, List.mem_map, Finset.mem_sort]
    constructor
    · rintro ⟨_, ⟨m, hm, rfl⟩, rfl⟩
      rwa [UInt32.toNat_ofNat_of_lt' (h m hm)]
    · intro hn
      exact ⟨UInt32.ofNat n, ⟨n, hn, rfl⟩, UInt32.toNat_ofNat_of_lt' (h n hn)⟩

/-- Scanning the encoding of a set gives its members, each of them once. -/
theorem encodeIdSet_roundTrip (S : Finset UInt32) :
    ∃ ids, IDScan.Scans (IDScan.init (plainBytes (encodeIdSet (S.image UInt32.toNat)))) ids ∧
      ids.Nodup ∧ ids.toFinset = S := by
  have hS : ∀ id ∈ S.image UInt32.toNat, id < 2 ^ 32 := by
    intro id hid
    obtain ⟨n, -, rfl⟩ := Finset.mem_image.mp hid
    exact n.toNat_lt
  obtain ⟨ids, hscan, hnodup, hids⟩ := scans_encodeIdSet hS
  exact ⟨ids, hscan, hnodup, Finset.image_injective (fun _ _ => UInt32.toNat_inj.mp) hids⟩

end MinkIpc.Metadata
