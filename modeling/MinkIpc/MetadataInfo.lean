import MinkIpc.IDScan
import Mathlib.Data.List.TakeWhile

/-! The loader's parser: entries of metadata separated by semicolons, and the record that
it fills from them. -/

namespace MinkIpc.Metadata

open List

structure Entry where
  name : List UInt8
  value : List UInt8
  deriving DecidableEq, Repr

def Entry.first (pos : List UInt8) : Entry :=
  let field := pos.takeWhile (· ≠ 59)
  ⟨field.takeWhile (· ≠ 61), (field.dropWhile (· ≠ 61)).drop 1⟩

def Entry.following (pos : List UInt8) : List UInt8 := (pos.dropWhile (· ≠ 59)).drop 1

def MDScan.next : Nat → List UInt8 → Option (Entry × List UInt8)
  | 0, _ => none
  | fuel + 1, pos =>
    if pos = [] then none
    else if (Entry.first pos).name.length ≠ 0 then some (Entry.first pos, Entry.following pos)
    else next fuel (Entry.following pos)

/-- The characters that `MDScan_readString` writes. Behind the end of a value there are zeros,
which are no digits. -/
def unescape : List UInt8 → List UInt8
  | [] => []
  | 37 :: a :: b :: rest =>
    match hexValue a, hexValue b with
    | some x, some y => UInt8.ofNat (x * 16 + y) :: unescape rest
    | _, _ => 37 :: unescape (a :: b :: rest)
  | c :: rest => c :: unescape rest

def readString (value dest : List UInt8) : List UInt8 :=
  let written := (unescape value ++ [0]).take dest.length
  (written ++ dest.drop written.length).set (dest.length - 1) 0

def cString (buffer : List UInt8) : List UInt8 := buffer.takeWhile (· ≠ 0)

def IDScan.scanAll : Nat → IDScan → List UInt32
  | 0, _ => []
  | fuel + 1, s =>
    match s.next with
    | none => []
    | some t => t.id :: scanAll fuel t

def maxAppNameLen : Nat := 32

structure MetadataInfo where
  privileges : List UInt32
  hostedServices : List UInt32
  appName : List UInt8
  neverUnload : Bool
  indAppName : Bool
  indNeverUnload : Bool
  deriving DecidableEq, Repr

namespace MetadataInfo

def zero : MetadataInfo := ⟨[], [], replicate maxAppNameLen 0, false, false, false⟩

def readIds (value : List UInt8) : List UInt32 :=
  (IDScan.init value).scanAll (32 * value.length + 1)

def store (me : MetadataInfo) (md : Entry) : MetadataInfo :=
  match md.name.head? with
  | some 110 => { me with appName := readString md.value me.appName, indAppName := true }
  | some 85 =>
    -- the comparison is with as much of the literal as the value is long
    let same := 1 ≤ md.value.length && md.value = [116, 114, 117, 101, 0].take md.value.length
    { me with neverUnload := if same then true else me.neverUnload, indNeverUnload := true }
  | some 112 => { me with privileges := me.privileges ++ readIds md.value }
  | some 115 => { me with hostedServices := me.hostedServices ++ readIds md.value }
  | _ => me

def parseLoop : Nat → List UInt8 → MetadataInfo → MetadataInfo
  | 0, _, me => me
  | fuel + 1, pos, me =>
    match MDScan.next pos.length pos with
    | none => me
    | some (md, pos) => parseLoop fuel pos (me.store md)

def parseMetaData (me : MetadataInfo) (data : List UInt8) : MetadataInfo :=
  let me := parseLoop data.length data me
  if me.indNeverUnload then me else { me with indNeverUnload := true, neverUnload := false }

def new (metaData : List UInt8) : Option MetadataInfo :=
  if 0 < metaData.length then some (zero.parseMetaData metaData) else none

end MetadataInfo

section Scan

def Entry.text (e : Entry) : List UInt8 := e.name ++ 61 :: e.value

structure Entry.Clean (e : Entry) : Prop where
  named : e.name ≠ []
  name : ∀ b ∈ e.name, b ≠ 59 ∧ b ≠ 61
  value : ∀ b ∈ e.value, b ≠ 59

theorem takeWhile_before {c : UInt8} {bs : List UInt8} (h : ∀ b ∈ bs, b ≠ c) (rest : List UInt8) :
    (bs ++ c :: rest).takeWhile (· ≠ c) = bs ∧ (bs ++ c :: rest).dropWhile (· ≠ c) = c :: rest := by
  have hall : ∀ b ∈ bs, decide (b ≠ c) = true := fun b hb => decide_eq_true (h b hb)
  constructor
  · rw [takeWhile_append_of_pos hall, takeWhile_cons_of_neg (by simp), append_nil]
  · rw [dropWhile_append_of_pos hall, dropWhile_cons_of_neg (by simp)]

theorem Entry.Clean.first {e : Entry} (he : e.Clean) {tail : List UInt8}
    (htail : tail = [] ∨ tail.head? = some 59) :
    Entry.first (e.text ++ tail) = e ∧ Entry.following (e.text ++ tail) = tail.drop 1 := by
  have hno : ∀ b ∈ e.text, b ≠ 59 := by
    intro b hb
    rcases mem_append.mp hb with hb | hb
    · exact (he.name b hb).1
    · rcases mem_cons.mp hb with rfl | hb
      · decide
      · exact he.value b hb
  have hsplit : (e.text ++ tail).takeWhile (· ≠ 59) = e.text ∧
      (e.text ++ tail).dropWhile (· ≠ 59) = tail := by
    rcases htail with rfl | hhead
    · have hall : ∀ b ∈ e.text, decide (b ≠ 59) = true := fun b hb => decide_eq_true (hno b hb)
      rw [append_nil]
      exact ⟨takeWhile_eq_self_iff.mpr hall, dropWhile_eq_nil_iff.mpr hall⟩
    obtain ⟨rest, rfl⟩ : ∃ rest, tail = 59 :: rest := by
      cases tail with
      | nil => cases hhead
      | cons c rest => exact ⟨rest, by cases hhead; rfl⟩
    exact takeWhile_before hno rest
  have hparts := takeWhile_before (fun b hb => (he.name b hb).2) e.value
  refine ⟨?_, by rw [Entry.following, hsplit.2]⟩
  simp only [Entry.first, hsplit.1]
  rw [Entry.text, hparts.1, hparts.2]
  rfl

theorem Entry.text_ne_nil (e : Entry) : e.text ≠ [] := by simp [Entry.text]

theorem Entry.Clean.next {e : Entry} (he : e.Clean) {tail : List UInt8}
    (htail : tail = [] ∨ tail.head? = some 59) :
    MDScan.next (e.text ++ tail).length (e.text ++ tail) = some (e, tail.drop 1) := by
  have hne : e.text ++ tail ≠ [] := by simp [e.text_ne_nil]
  obtain ⟨fuel, hfuel⟩ := Nat.exists_eq_succ_of_ne_zero (mt length_eq_zero_iff.mp hne)
  have hname : e.name.length ≠ 0 := mt length_eq_zero_iff.mp he.named
  obtain ⟨hfirst, hfollowing⟩ := he.first htail
  rw [hfuel, MDScan.next, if_neg hne, hfirst, hfollowing, if_pos hname]

def joined : List Entry → List UInt8
  | [] => []
  | [e] => e.text
  | e :: es => e.text ++ 59 :: joined es

theorem length_joined (es : List Entry) : es.length ≤ (joined es).length := by
  induction es with
  | nil => exact Nat.zero_le _
  | cons e es ih =>
    have hpos := length_pos_of_ne_nil e.text_ne_nil
    cases es with
    | nil => exact hpos
    | cons e' es =>
      simp only [joined, length_append, length_cons] at ih ⊢
      omega

theorem MetadataInfo.parseLoop_joined {es : List Entry} (hes : ∀ e ∈ es, e.Clean) {fuel : Nat}
    (hfuel : es.length ≤ fuel) (me : MetadataInfo) :
    parseLoop fuel (joined es) me = es.foldl store me := by
  induction es generalizing fuel me with
  | nil => cases fuel <;> rfl
  | cons e es ih =>
    obtain ⟨fuel, rfl⟩ : ∃ n, fuel = n + 1 := ⟨fuel - 1, by simp at hfuel; omega⟩
    have he := hes e (mem_cons_self ..)
    have hrest := ih (fun e' he' => hes e' (mem_cons_of_mem _ he')) (by simpa using hfuel)
    cases es with
    | nil =>
      have hnext := he.next (.inl rfl)
      rw [append_nil] at hnext
      rw [parseLoop, joined, hnext]
      exact hrest _
    | cons e' es =>
      rw [parseLoop, joined, he.next (.inr rfl)]
      · exact hrest _
      · simp

end Scan

namespace IDScan

def left (s : IDScan) : Nat := 32 * s.rest.length + s.maskBits

theorem takeBits_lt {fuel m m' : Nat} {id id' : UInt32}
    (h : takeBits fuel id m = (id', m', true)) : m' < m := by
  induction fuel generalizing id m with
  | zero => cases h
  | succ fuel ih =>
    unfold takeBits at h
    split_ifs at h with hm hodd
    · cases h
      omega
    · have := ih h
      omega
    · cases h

theorem hexValue_lt {c : UInt8} {d : Nat} (h : hexValue c = some d) : d < 16 := by
  unfold hexValue at h
  split_ifs at h with h1 h2
  · have hle : c.toNat ≤ 57 := h1.2
    cases h
    omega
  · have hle : (c ||| 32).toNat ≤ 102 := h2.2
    cases h
    omega

theorem digit_lt {d : Nat} (hd : d < 16) : d ||| 16 < 32 :=
  Nat.or_lt_two_pow (n := 5) (by omega) (by decide)

theorem maskLoop_left (rest : List UInt8) (id : UInt32) (m : Nat) :
    (maskLoop rest id m).2.left ≤ left ⟨id, rest, m⟩ ∧
      ((maskLoop rest id m).1 = true → (maskLoop rest id m).2.left < left ⟨id, rest, m⟩) := by
  induction rest generalizing id m with
  | nil =>
    unfold maskLoop
    split
    · rename_i htake
      have := takeBits_lt htake
      simp only [left]
      exact ⟨by omega, fun _ => by omega⟩
    · simp [left]
  | cons c rest ih =>
    unfold maskLoop
    split
    · rename_i htake
      have := takeBits_lt htake
      simp only [left]
      exact ⟨by omega, fun _ => by omega⟩
    · rename_i id' m' htake
      split_ifs
      · simp [left]
      split
      · rename_i digit hdigit
        have hlt := digit_lt (hexValue_lt hdigit)
        have hle := (ih id' (digit ||| 16)).1
        simp only [left, length_cons] at hle ⊢
        exact ⟨by omega, fun _ => by omega⟩
      · simp [left]

theorem readId_length (rest : List UInt8) (id : UInt32) :
    (readId rest id).2.length ≤ rest.length := by
  induction rest generalizing id with
  | nil => exact Nat.le_refl _
  | cons c rest ih =>
    unfold readId
    split
    · exact (ih _).trans (by simp)
    · exact Nat.le_refl _

theorem after_left (id : UInt32) (rest : List UInt8) : (after id rest).left ≤ 32 * rest.length + 1 := by
  unfold after
  split <;> simp [left]

theorem skipComma_length (rest : List UInt8) : (skipComma rest).length ≤ rest.length := by
  unfold skipComma
  split <;> simp

theorem next_left {s t : IDScan} (h : s.next = some t) : t.left < s.left := by
  obtain ⟨hle, hlt⟩ := maskLoop_left s.rest s.id s.maskBits
  unfold next at h
  split at h
  · rename_i s' hloop
    cases h
    rw [hloop] at hlt
    exact hlt rfl
  · rename_i s' hloop
    rw [hloop] at hle
    simp only at h
    split_ifs at h with hstop
    cases h
    have hafter := after_left (readId (skipComma s'.rest) 0).1 (readId (skipComma s'.rest) 0).2
    have hread := readId_length (skipComma s'.rest) 0
    have hskip := skipComma_length s'.rest
    simp only [left] at hle hafter ⊢
    omega

theorem scanAll_of_scans {s : IDScan} {ids : List UInt32} (h : Scans s ids) {fuel : Nat}
    (hfuel : s.left < fuel) : s.scanAll fuel = ids := by
  induction h generalizing fuel with
  | done hn =>
    cases fuel with
    | zero => rfl
    | succ fuel => rw [scanAll, hn]
  | step hn _ ih =>
    have hleft := next_left hn
    cases fuel with
    | zero => omega
    | succ fuel =>
      rw [scanAll, hn]
      exact congrArg _ (ih (by omega))

end IDScan

theorem MetadataInfo.readIds_eq {value : List UInt8} {ids : List UInt32}
    (h : IDScan.Scans (IDScan.init value) ids) : readIds value = ids :=
  IDScan.scanAll_of_scans h (by simp [IDScan.left, IDScan.init])

section Strings

theorem unescape_cons {c : UInt8} (hc : c ≠ 37) (rest : List UInt8) :
    unescape (c :: rest) = c :: unescape rest := by
  rw [unescape]
  intro a b rest' heq
  exact absurd heq hc

theorem unescape_append {bs : List UInt8} (h : ∀ b ∈ bs, b ≠ 37) (rest : List UInt8) :
    unescape (bs ++ rest) = bs ++ unescape rest := by
  induction bs with
  | nil => rfl
  | cons b bs ih =>
    rw [cons_append, unescape_cons (h b (mem_cons_self ..)),
      ih fun b hb => h b (mem_cons_of_mem _ hb)]
    rfl

theorem length_readString (value dest : List UInt8) :
    (readString value dest).length = dest.length := by
  simp only [readString, length_set, length_append, length_drop, length_take]
  omega

theorem zero_notMem_cString (buffer : List UInt8) : (0 : UInt8) ∉ cString buffer := by
  intro h
  have := mem_takeWhile_imp h
  simp at this

variable {value dest : List UInt8}

theorem length_cString_readString (hdest : dest ≠ []) :
    (cString (readString value dest)).length < dest.length := by
  have hpos := length_pos_of_ne_nil hdest
  have hlen := length_readString value dest
  have hzero : (0 : UInt8) ∈ readString value dest := by
    refine mem_of_getElem? (i := dest.length - 1) (getElem?_set_self ?_)
    simp only [length_append, length_drop]
    omega
  have hpre : cString (readString value dest) <+: readString value dest := takeWhile_prefix _
  refine (hlen ▸ hpre.length_le).lt_of_ne fun heq => ?_
  rw [← hpre.eq_of_length (heq.trans hlen.symm)] at hzero
  exact zero_notMem_cString _ hzero

theorem cString_readString (hfits : (unescape value).length < dest.length)
    (hzero : (0 : UInt8) ∉ unescape value) : cString (readString value dest) = unescape value := by
  have hall : ∀ b ∈ unescape value, decide (b ≠ 0) = true := by
    intro b hb
    exact decide_eq_true fun h => hzero (h ▸ hb)
  have hend : ∃ tail, readString value dest = unescape value ++ 0 :: tail := by
    simp only [readString]
    rw [take_of_length_le (by simp; omega), append_assoc, set_append_right _ _ (by omega)]
    cases dest.length - 1 - (unescape value).length with
    | zero | succ k => exact ⟨_, rfl⟩
  obtain ⟨tail, htail⟩ := hend
  rw [htail, cString, takeWhile_append_of_pos hall, takeWhile_cons_of_neg (by simp), append_nil]

theorem cString_readString_iff (hdest : dest ≠ []) :
    cString (readString value dest) = unescape value ↔
      (unescape value).length < dest.length ∧ (0 : UInt8) ∉ unescape value := by
  refine ⟨fun h => ?_, fun h => cString_readString h.1 h.2⟩
  rw [← h]
  exact ⟨length_cString_readString hdest, zero_notMem_cString _⟩

end Strings

end MinkIpc.Metadata
