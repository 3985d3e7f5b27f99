import MinkIpc.Bytes
import MinkIpc.MetadataInfo

/-! The scanner of metadata on the text in memory. It moves two offsets through the text; a read
behind the end of the text has no value. -/

namespace MinkIpc.MDScan

open Bytes Metadata List

structure RBuf where
  ptr : Nat
  len : Nat
  deriving DecidableEq, Repr

def RBuf.get (text : List UInt8) (me : RBuf) (index : Nat) : Option UInt8 :=
  if index < me.len then text[me.ptr + index]? else some 0

def RBuf.bytes (text : List UInt8) (me : RBuf) : List UInt8 := (text.drop me.ptr).take me.len

structure Scan where
  name : RBuf
  value : RBuf
  pos : Nat
  stop : Nat
  deriving DecidableEq, Repr

def init (len : Nat) : Scan := ⟨⟨0, 0⟩, ⟨0, 0⟩, 0, len⟩

section Next

variable (text : List UInt8)

def findCharLoop (ch : UInt8) : (n start : Nat) → Option Nat
  | 0, start => some start
  | n + 1, start =>
    text[start]?.bind fun c => if c = ch then some start else findCharLoop ch n (start + 1)

def findCharEnd (start stop : Nat) (ch : UInt8) : Option Nat :=
  findCharLoop text ch (stop - start) start

/-- The loop of `MDScan_next`. It has no value either if it does not end in time. -/
def nextLoop : Nat → Scan → Option (Bool × Scan)
  | 0, _ => none
  | fuel + 1, me =>
    if me.pos < me.stop then
      (findCharEnd text me.pos me.stop 59).bind fun valueEnd =>
        (findCharEnd text me.pos valueEnd 61).bind fun nameEnd =>
          let valueStart := if nameEnd < valueEnd then nameEnd + 1 else nameEnd
          let me : Scan :=
            { me with
              name := ⟨me.pos, nameEnd - me.pos⟩
              value := ⟨valueStart, valueEnd - valueStart⟩
              pos := if valueEnd < me.stop then valueEnd + 1 else valueEnd }
          if me.name.len ≠ 0 then some (true, me) else nextLoop fuel me
    else some (false, me)

def next (me : Scan) : Option (Bool × Scan) := nextLoop text (me.stop - me.pos + 1) me

def iterate : Nat → Scan → Option (List (RBuf × RBuf))
  | 0, _ => none
  | fuel + 1, me =>
    (next text me).bind fun (found, me) =>
      if found then (iterate fuel me).map ((me.name, me.value) :: ·) else some []

def entries : Option (List (RBuf × RBuf)) := iterate text (text.length + 1) (init text.length)

end Next

section Read

variable (text : List UInt8) (value : RBuf)

def sizeMax : Nat := 2 ^ 64 - 1

structure WBuf where
  ptr : Nat
  len : Nat
  deriving DecidableEq, Repr

def WBuf.set (me : WBuf) (index : Nat) (ch : UInt8) (m : Mem) : Mem :=
  if index < me.len then write m (me.ptr + index) [ch] else m

def readStringLoop (wb : WBuf) : Nat → (readIndex writeIndex : Nat) → Mem → Option (Nat × Mem)
  | 0, _, _, _ => none
  | fuel + 1, readIndex, writeIndex, m =>
    if readIndex < value.len then
      (value.get text readIndex).bind fun ch =>
        if ch = 37 then
          (value.get text (readIndex + 1)).bind fun c => (value.get text (readIndex + 2)).bind fun d =>
            match hexValue c, hexValue d with
            | some a, some b =>
              readStringLoop wb fuel (readIndex + 3) (writeIndex + 1)
                (wb.set writeIndex (UInt8.ofNat (a * 16 + b)) m)
            | _, _ => readStringLoop wb fuel (readIndex + 1) (writeIndex + 1) (wb.set writeIndex ch m)
        else readStringLoop wb fuel (readIndex + 1) (writeIndex + 1) (wb.set writeIndex ch m)
    else some (writeIndex, m)

def readString (wb : WBuf) (m : Mem) : Option (Nat × Mem) :=
  (readStringLoop text value wb (value.len + 1) 0 0 m).map fun (writeIndex, m) =>
    -- for a buffer of length 0 the last index wraps around
    (writeIndex + 1, wb.set (if wb.len = 0 then sizeMax else wb.len - 1) 0 (wb.set writeIndex 0 m))

def uint32Max : UInt32 := 0xFFFFFFFF

def u32SatMul (a b : UInt32) : UInt32 := if a ≥ uint32Max / b then uint32Max else a * b

def u32SatAdd (a b : UInt32) : UInt32 := if a ≥ uint32Max - b then uint32Max else a + b

def decValue (ch : UInt8) : Option UInt32 :=
  let u := ch.toUInt32 - 48
  if u ≤ 9 then some u else none

def readU32Loop : (n readIndex : Nat) → UInt32 → Option (Bool × UInt32)
  | 0, _, u => some (true, u)
  | n + 1, readIndex, u =>
    (value.get text readIndex).bind fun ch =>
      match decValue ch with
      | none => some (false, 0)
      | some d => readU32Loop n (readIndex + 1) (u32SatAdd (u32SatMul u 10) d)

def readU32 : Option (Bool × UInt32) := readU32Loop text value value.len 0 0

end Read

section Pieces

def entryOf (piece : List UInt8) : Entry :=
  ⟨piece.takeWhile (· ≠ 61), (piece.dropWhile (· ≠ 61)).drop 1⟩

def pieces (text : List UInt8) : List Entry :=
  ((text.splitOn 59).map entryOf).filter fun e => e.name ≠ []

theorem splitOn_eq_cons (text : List UInt8) : text.splitOn 59 = text.takeWhile (· ≠ 59) ::
      (if (text.dropWhile (· ≠ 59)) = [] then [] else (Entry.following text).splitOn 59) := by
  have hno : ∀ b ∈ text.takeWhile (· ≠ 59), (b == 59) = false := fun b hb => by
    simpa using mem_takeWhile_imp hb
  have hsplit : text = text.takeWhile (· ≠ 59) ++ text.dropWhile (· ≠ 59) :=
    takeWhile_append_dropWhile.symm
  cases hrest : text.dropWhile (· ≠ 59) with
  | nil =>
    rw [hrest, append_nil] at hsplit
    rw [← hsplit]
    rw [← hsplit] at hno
    exact splitOnP_eq_singleton hno
  | cons c rest =>
    have hc : c = 59 := by
      have hhead := head?_dropWhile_not (· ≠ 59) text
      rw [hrest] at hhead
      simpa using hhead
    have hfollowing : Entry.following text = rest := by rw [Entry.following, hrest, drop_one,
      tail_cons]
    rw [hfollowing]
    rw [hrest] at hsplit
    conv_lhs => rw [hsplit]
    exact splitOnP_append_cons_of_forall_mem hno c (by simp [hc]) rest

theorem pieces_nil : pieces [] = [] := rfl

theorem pieces_eq (text : List UInt8) :
    pieces text = (if (Entry.first text).name ≠ [] then [Entry.first text] else []) ++
      pieces (Entry.following text) := by
  have hrest : ((if (text.dropWhile (· ≠ 59)) = [] then [] else
      (Entry.following text).splitOn 59).map entryOf).filter (fun e => e.name ≠ []) =
        pieces (Entry.following text) := by
    split_ifs with hnil
    · rw [Entry.following, hnil]
      rfl
    · rfl
  have hfirst : entryOf (text.takeWhile (· ≠ 59)) = Entry.first text := rfl
  rw [pieces, splitOn_eq_cons, map_cons, filter_cons, hrest]
  split_ifs <;> simp_all

theorem length_following_lt {text : List UInt8} (h : text ≠ []) :
    (Entry.following text).length < text.length := by
  have hle := (dropWhile_suffix (l := text) (· ≠ 59)).length_le
  have hpos := length_pos_of_ne_nil h
  rw [Entry.following, length_drop]
  omega

theorem pieces_next {fuel : Nat} {text : List UInt8} (h : text.length ≤ fuel) :
    match Metadata.MDScan.next fuel text with
    | none => pieces text = []
    | some (e, rest) => pieces text = e :: pieces rest := by
  induction fuel generalizing text with
  | zero =>
    obtain rfl := length_eq_zero_iff.mp (Nat.le_zero.mp h)
    exact pieces_nil
  | succ fuel ih =>
    by_cases hnil : text = []
    · subst hnil
      exact pieces_nil
    rw [Metadata.MDScan.next, if_neg hnil, pieces_eq]
    have hlt := length_following_lt hnil
    by_cases hname : (Entry.first text).name = []
    · have hrest := ih (show (Entry.following text).length ≤ fuel by omega)
      simpa [hname] using hrest
    · simp [hname]

end Pieces

section Refines

variable {text : List UInt8} {me : Scan}

variable {start : Nat}

theorem findCharLoop_eq (ch : UInt8) {n : Nat} (h : start + n ≤ text.length) :
    findCharLoop text ch n start =
      some (start + (((text.drop start).take n).takeWhile (· ≠ ch)).length) := by
  induction n generalizing start with
  | zero => simp [findCharLoop]
  | succ n ih =>
    have hlt : start < text.length := by omega
    rw [findCharLoop, getElem?_eq_getElem hlt, Option.bind_some,
      drop_eq_getElem_cons hlt, take_succ_cons]
    by_cases hch : text[start] = ch
    · simp [hch]
    · rw [if_neg hch, ih (by omega), takeWhile_cons_of_pos (by simpa using hch), length_cons]
      congr 1
      omega

theorem findCharEnd_length (ch : UInt8) (h : start ≤ text.length) :
    findCharEnd text start text.length ch =
      some (start + ((text.drop start).takeWhile (· ≠ ch)).length) := by
  rw [findCharEnd, findCharLoop_eq ch (by omega), take_of_length_le (by simp)]

theorem findCharEnd_takeWhile (ch sep : UInt8) (h : start ≤ text.length) :
    findCharEnd text start (start + ((text.drop start).takeWhile (· ≠ sep)).length) ch =
      some (start + (((text.drop start).takeWhile (· ≠ sep)).takeWhile (· ≠ ch)).length) := by
  have hle := ( takeWhile_prefix (l := text.drop start) (· ≠ sep)).length_le
  rw [length_drop] at hle
  rw [findCharEnd, findCharLoop_eq ch (by omega), Nat.add_sub_cancel_left,
    ← prefix_iff_eq_take.mp ( takeWhile_prefix _)]

theorem bytes_of_append {pre mid post : List UInt8} (h : text.drop start = pre ++ (mid ++ post)) :
    RBuf.bytes text ⟨start + pre.length, mid.length⟩ = mid := by
  rw [RBuf.bytes, ← drop_drop, h, drop_left, take_left]

theorem drop_of_append {pre post : List UInt8} (h : text.drop start = pre ++ post) :
    text.drop (start + pre.length) = post := by
  rw [← drop_drop, h, drop_left]

def Scan.entry (text : List UInt8) (me : Scan) : Entry := ⟨me.name.bytes text, me.value.bytes text⟩

structure Scan.Within (text : List UInt8) (me : Scan) : Prop where
  stop : me.stop = text.length
  pos : me.pos ≤ text.length
  value : me.value.ptr + me.value.len ≤ text.length

theorem within_init (text : List UInt8) : (init text.length).Within text :=
  ⟨rfl, Nat.zero_le _, Nat.zero_le _⟩

theorem round (h : me.Within text) (hpos : me.pos < text.length) :
    ∃ me', (∀ fuel, nextLoop text (fuel + 1) me =
        if me'.name.len ≠ 0 then some (true, me') else nextLoop text fuel me') ∧
      me'.Within text ∧ me'.entry text = Entry.first (text.drop me.pos) ∧
      me'.name.len = (Entry.first (text.drop me.pos)).name.length ∧
      text.drop me'.pos = Entry.following (text.drop me.pos) ∧ me.pos < me'.pos := by
  obtain ⟨field, hfield⟩ : ∃ f, (text.drop me.pos).takeWhile (· ≠ 59) = f := ⟨_, rfl⟩
  obtain ⟨tail, htail⟩ : ∃ t, (text.drop me.pos).dropWhile (· ≠ 59) = t := ⟨_, rfl⟩
  obtain ⟨name, hname⟩ : ∃ n, field.takeWhile (· ≠ 61) = n := ⟨_, rfl⟩
  obtain ⟨value, hvalue⟩ : ∃ v, field.dropWhile (· ≠ 61) = v := ⟨_, rfl⟩
  have hdrop : text.drop me.pos = field ++ tail := by
    rw [← hfield, ← htail, takeWhile_append_dropWhile]
  have hparts : field = name ++ value := by rw [← hname, ← hvalue, takeWhile_append_dropWhile]
  have hlen : text.length = me.pos + (field.length + tail.length) := by
    have := congrArg length hdrop
    rw [length_drop, length_append] at this
    omega
  have hfirst : Entry.first (text.drop me.pos) = ⟨name, value.drop 1⟩ := by
    rw [Entry.first, hfield, hname, hvalue]
  have hvalueEnd := findCharEnd_length 59 h.pos
  have hnameEnd := findCharEnd_takeWhile 61 59 h.pos
  rw [hfield] at hvalueEnd hnameEnd
  rw [hname] at hnameEnd
  have hstart : (if me.pos + name.length < me.pos + field.length then me.pos + name.length + 1
      else me.pos + name.length) = me.pos + name.length + (value.take 1).length := by
    rw [hparts]
    cases value <;> simp
  have hsize : me.pos + field.length - (me.pos + name.length + (value.take 1).length) =
      (value.drop 1).length := by
    rw [hparts, length_append, length_take, length_drop]
    omega
  have hnext : (if me.pos + field.length < text.length then me.pos + field.length + 1
      else me.pos + field.length) = me.pos + field.length + (tail.take 1).length := by
    rw [hlen]
    cases tail <;> simp
  refine ⟨⟨⟨me.pos, name.length⟩, ⟨me.pos + name.length + (value.take 1).length,
    (value.drop 1).length⟩, me.pos + field.length + (tail.take 1).length, text.length⟩, ?_,
    ⟨rfl, ?_, ?_⟩, ?_, by rw [hfirst], ?_, ?_⟩
  · intro fuel
    rw [nextLoop, h.stop, if_pos hpos, hvalueEnd, Option.bind_some, hnameEnd, Option.bind_some]
    simp only [hstart, hsize, hnext, Nat.add_sub_cancel_left]
  · have hle := length_take_le' 1 tail
    show me.pos + field.length + (tail.take 1).length ≤ text.length
    omega
  · have hsum : (value.take 1).length + (value.drop 1).length = value.length := by
      rw [← length_append, take_append_drop]
    rw [hparts, length_append] at hlen
    show me.pos + name.length + (value.take 1).length + (value.drop 1).length ≤ text.length
    omega
  · have hrest : text.drop me.pos = (name ++ value.take 1) ++ (value.drop 1 ++ tail) := by
      rw [hdrop, hparts, append_assoc, append_assoc, ← append_assoc (value.take 1),
        take_append_drop]
    have hnamed : RBuf.bytes text ⟨me.pos + ([] : List UInt8).length, name.length⟩ = name :=
      bytes_of_append (by rw [hdrop, hparts, append_assoc]; rfl)
    have hvalued := bytes_of_append hrest
    rw [length_append, ← Nat.add_assoc] at hvalued
    rw [hfirst, Scan.entry, hvalued]
    exact congrArg (Entry.mk · _) hnamed
  · have hrest : text.drop me.pos = (field ++ tail.take 1) ++ tail.drop 1 := by
      rw [hdrop, append_assoc, take_append_drop]
    have hdropped := drop_of_append hrest
    rw [length_append, ← Nat.add_assoc] at hdropped
    rw [hdropped, Entry.following, htail]
  · have hne : field.length + (tail.take 1).length ≠ 0 := by
      rw [length_take]
      omega
    show me.pos < me.pos + field.length + (tail.take 1).length
    omega

def Yields (text : List UInt8) (me : Scan) : Option (Entry × List UInt8) → Bool × Scan → Prop
  | none, (found, _) => found = false
  | some (e, rest), (found, me') =>
    found = true ∧ me'.entry text = e ∧ text.drop me'.pos = rest ∧ me.pos < me'.pos

theorem Yields.of_lt {me' : Scan} {x : Option (Entry × List UInt8)} {r : Bool × Scan}
    (h : Yields text me' x r) (hlt : me.pos < me'.pos) : Yields text me x r := by
  cases x with
  | none => exact h
  | some x =>
    obtain ⟨hfound, hentry, hrest, hpos⟩ := h
    exact ⟨hfound, hentry, hrest, hlt.trans hpos⟩

theorem nextLoop_yields {fuel : Nat} (h : me.Within text) (hfuel : text.length - me.pos ≤ fuel) :
    ∃ r, nextLoop text (fuel + 1) me = some r ∧ r.2.Within text ∧
      Yields text me (Metadata.MDScan.next fuel (text.drop me.pos)) r := by
  induction fuel generalizing me with
  | zero =>
    refine ⟨(false, me), ?_, h, rfl⟩
    rw [nextLoop, if_neg (by rw [h.stop]; omega)]
  | succ fuel ih =>
    by_cases hpos : me.pos < text.length
    · obtain ⟨me', hround, hwithin, hentry, hlen, hrest, hlt⟩ := round h hpos
      have hne : text.drop me.pos ≠ [] := by simpa using hpos
      rw [hround, Metadata.MDScan.next, if_neg hne, ← hlen]
      by_cases hname : me'.name.len ≠ 0
      · rw [if_pos hname, if_pos hname]
        exact ⟨(true, me'), rfl, hwithin, rfl, hentry, hrest, hlt⟩
      · rw [if_neg hname, if_neg hname, ← hrest]
        obtain ⟨r, hr, hrwithin, hyields⟩ := ih hwithin (by omega)
        exact ⟨r, hr, hrwithin, hyields.of_lt hlt⟩
    · refine ⟨(false, me), ?_, h, ?_⟩
      · rw [nextLoop, if_neg (by rw [h.stop]; exact hpos)]
      · rw [drop_eq_nil_of_le (by omega)]
        rfl

theorem next_spec (h : me.Within text) :
    ∃ found me', next text me = some (found, me') ∧ me'.Within text ∧
      (found = false → pieces (text.drop me.pos) = []) ∧
      (found = true → me.pos < me'.pos ∧
        pieces (text.drop me.pos) = me'.entry text :: pieces (text.drop me'.pos)) := by
  obtain ⟨⟨found, me'⟩, hnext, hwithin, hyields⟩ := nextLoop_yields h (Nat.le_refl _)
  have hlen : (text.drop me.pos).length ≤ text.length - me.pos := by simp
  have hpieces := pieces_next hlen
  refine ⟨found, me', by rw [next, h.stop, hnext], hwithin, ?_⟩
  cases hfirst : Metadata.MDScan.next (text.length - me.pos) (text.drop me.pos) with
  | none =>
    rw [hfirst] at hyields hpieces
    obtain rfl : found = false := hyields
    simpa using hpieces
  | some x =>
    rw [hfirst] at hyields hpieces
    obtain ⟨rfl, hentry, hrest, hlt⟩ : found = true ∧ _ := hyields
    rw [hentry, hrest]
    simpa using ⟨hlt, hpieces⟩

theorem iterate_eq {fuel : Nat} (h : me.Within text) (hfuel : text.length - me.pos < fuel) :
    ∃ es, iterate text fuel me = some es ∧
      es.map (fun e => (⟨e.1.bytes text, e.2.bytes text⟩ : Entry)) = pieces (text.drop me.pos) ∧
      ∀ e ∈ es, e.2.ptr + e.2.len ≤ text.length := by
  induction fuel generalizing me with
  | zero => omega
  | succ fuel ih =>
    obtain ⟨found, me', hnext, hwithin, hnone, hsome⟩ := next_spec h
    rw [iterate, hnext]
    cases found with
    | false => exact ⟨[], rfl, (hnone rfl).symm, by simp⟩
    | true =>
      obtain ⟨hlt, hpieces⟩ := hsome rfl
      have hpos := hwithin.pos
      obtain ⟨es, hes, hmap, hin⟩ := ih hwithin (by omega)
      refine ⟨(me'.name, me'.value) :: es, by simp [hes], ?_, ?_⟩
      · rw [map_cons, hmap, hpieces]
        rfl
      · intro e he
        rcases mem_cons.mp he with rfl | he
        · exact hwithin.value
        · exact hin e he

end Refines

section Value

variable {text : List UInt8} {value : RBuf}

theorem RBuf.get_eq (h : value.ptr + value.len ≤ text.length) (i : Nat) :
    value.get text i = some ((value.bytes text)[i]?.getD 0) := by
  unfold RBuf.get RBuf.bytes
  split_ifs with hi
  · rw [getElem?_take_of_lt hi, getElem?_drop, getElem?_eq_getElem (by omega)]
    rfl
  · rw [getElem?_take_eq_none (by omega)]
    rfl

theorem RBuf.length_bytes (h : value.ptr + value.len ≤ text.length) :
    (value.bytes text).length = value.len := by
  rw [RBuf.bytes, length_take, length_drop]
  omega

theorem unescape_percent (rest : List UInt8) : unescape (37 :: rest) =
      match hexValue (rest[0]?.getD 0), hexValue (rest[1]?.getD 0) with
      | some a, some b => UInt8.ofNat (a * 16 + b) :: unescape (rest.drop 2)
      | _, _ => 37 :: unescape rest := by
  have hzero : hexValue 0 = none := by decide
  match rest with
  | [] => simp [unescape, hzero]
  | [a] => cases h : hexValue a <;> simp [unescape, hzero]
  | a :: b :: rest => cases ha : hexValue a <;> cases hb : hexValue b <;> simp [unescape, ha, hb]

def WBuf.put (me : WBuf) : Nat → List UInt8 → Mem → Mem
  | _, [], m => m
  | index, ch :: chs, m => me.put (index + 1) chs (me.set index ch m)

theorem WBuf.put_eq (me : WBuf) (index : Nat) (chs : List UInt8) (m : Mem) :
    me.put index chs m = write m (me.ptr + index) (chs.take (me.len - index)) := by
  induction chs generalizing index m with
  | nil => rw [WBuf.put, take_nil, write_nil]
  | cons ch chs ih =>
    rw [WBuf.put, ih, WBuf.set]
    split_ifs with h
    · have hlen : me.len - index = me.len - (index + 1) + 1 := by omega
      rw [hlen]
      exact (write_cons m (me.ptr + index) ch _).symm
    · rw [Nat.sub_eq_zero_of_le (Nat.not_lt.mp h), Nat.sub_eq_zero_of_le (by omega), take_zero,
        take_zero, write_nil, write_nil]

theorem WBuf.put_append (me : WBuf) (index : Nat) (chs chs' : List UInt8) (m : Mem) :
    me.put index (chs ++ chs') m = me.put (index + chs.length) chs' (me.put index chs m) := by
  induction chs generalizing index m with
  | nil => rfl
  | cons ch chs ih =>
    rw [cons_append, WBuf.put, ih, length_cons, WBuf.put, Nat.add_assoc, Nat.add_comm 1]

theorem readStringLoop_eq (h : value.ptr + value.len ≤ text.length) (wb : WBuf) {fuel r : Nat}
    (hfuel : value.len - r < fuel) (w : Nat) (m : Mem) :
    readStringLoop text value wb fuel r w m =
      some (w + (unescape ((value.bytes text).drop r)).length,
        wb.put w (unescape ((value.bytes text).drop r)) m) := by
  have hlen := RBuf.length_bytes h
  induction fuel generalizing r w m with
  | zero => omega
  | succ fuel ih =>
    by_cases hr : r < value.len
    · have hlt : r < (value.bytes text).length := by omega
      have hhead : (value.bytes text)[r]?.getD 0 = (value.bytes text)[r] := by simp [hlt]
      have hstep : ∀ k ch, 1 ≤ k → readStringLoop text value wb fuel (r + k) (w + 1)
          (wb.set w ch m) = some (w + (ch :: unescape ((value.bytes text).drop (r + k))).length,
            wb.put w (ch :: unescape ((value.bytes text).drop (r + k))) m) := by
        intro k ch hk
        rw [ih (by omega), length_cons]
        congr 2
        omega
      rw [readStringLoop, if_pos hr, RBuf.get_eq h, Option.bind_some, hhead,
        drop_eq_getElem_cons hlt]
      by_cases hpercent : (value.bytes text)[r] = 37
      · rw [RBuf.get_eq h, Option.bind_some, RBuf.get_eq h, Option.bind_some,
          hpercent, unescape_percent, getElem?_drop, getElem?_drop, drop_drop]
        cases hexValue ((value.bytes text)[r + 1]?.getD 0) with
        | none => exact hstep 1 37 (by omega)
        | some a =>
          cases hexValue ((value.bytes text)[r + 2]?.getD 0) with
          | none => exact hstep 1 37 (by omega)
          | some b => exact hstep 3 _ (by omega)
      · rw [if_neg hpercent, unescape_cons hpercent]
        exact hstep 1 _ (by omega)
    · rw [readStringLoop, if_neg hr, drop_eq_nil_of_le (by omega)]
      rfl

/-- The memory once a string was written to a buffer: as much of it as fits and a zero, and a zero
at the end of the buffer. -/
def WBuf.filled (me : WBuf) (string : List UInt8) (m : Mem) : Mem :=
  if me.len = 0 then m
  else write (write m me.ptr (string.take (me.len - 1) ++ [0])) (me.ptr + (me.len - 1)) [0]

theorem WBuf.set_put (me : WBuf) (string : List UInt8) (m : Mem) :
    me.set (if me.len = 0 then sizeMax else me.len - 1) 0
      (me.set string.length 0 (me.put 0 string m)) = me.filled string m := by
  have hput : me.set string.length 0 (me.put 0 string m) =
      write m me.ptr ((string ++ [0]).take me.len) := by
    have h := me.put_eq 0 (string ++ [0]) m
    rw [put_append, Nat.zero_add] at h
    exact h
  rw [hput, WBuf.set, WBuf.filled]
  by_cases hlen : me.len = 0
  · simp [hlen, write_nil]
  rw [if_neg hlen, if_neg hlen, if_pos (by omega)]
  rcases Nat.lt_or_ge string.length me.len with hlt | hge
  · rw [take_of_length_le (by simp; omega), take_of_length_le (by omega)]
  -- the byte that has no place is overwritten by the zero at the end
  have hs : (string.take (me.len - 1)).length = me.len - 1 := by rw [length_take]; omega
  have htake : ∃ x, (string ++ [0]).take me.len = string.take (me.len - 1) ++ [x] := by
    obtain ⟨n, hn⟩ := Nat.exists_eq_succ_of_ne_zero hlen
    rw [take_append_of_le_length hge, hn]
    exact ⟨_, take_succ_eq_append_getElem (by omega)⟩
  obtain ⟨x, hx⟩ := htake
  have hwrite := write_last m me.ptr (string.take (me.len - 1))
  rw [hs] at hwrite
  rw [hx, hwrite, hwrite]

theorem readString_eq (h : value.ptr + value.len ≤ text.length) (wb : WBuf) (m : Mem) :
    readString text value wb m = some (1 + (unescape (value.bytes text)).length,
      wb.filled (unescape (value.bytes text)) m) := by
  rw [readString, readStringLoop_eq h wb (by omega), drop_zero, Option.map_some]
  simp only [Nat.zero_add, WBuf.set_put, Nat.add_comm 1]

theorem WBuf.filled_of_outside (me : WBuf) (string : List UInt8) (m : Mem) {a : Nat}
    (h : a < me.ptr ∨ me.ptr + me.len ≤ a) : me.filled string m a = m a := by
  unfold WBuf.filled
  split_ifs with hlen
  · rfl
  have hle := length_take_le (me.len - 1) string
  rcases h with h | h
  · rw [write_of_lt (by omega), write_of_lt h]
  · rw [write_of_ge (by rw [length_singleton]; omega), write_of_ge]
    rw [length_append, length_singleton]
    omega

/-- The scan yields the entries of the text, and the value of each is decoded into any buffer for
it. -/
theorem scan_reads_entries (text : List UInt8) : ∃ es, entries text = some es ∧
      es.map (fun e => (⟨e.1.bytes text, e.2.bytes text⟩ : Entry)) = pieces text ∧
      ∀ e ∈ es, ∀ (wb : WBuf) (m : Mem),
        readString text e.2 wb m = some (1 + (unescape (e.2.bytes text)).length,
          wb.filled (unescape (e.2.bytes text)) m) ∧
        ∀ a, a < wb.ptr ∨ wb.ptr + wb.len ≤ a →
          wb.filled (unescape (e.2.bytes text)) m a = m a := by
  obtain ⟨es, hes, hmap, hin⟩ := iterate_eq (within_init text) (Nat.lt_succ_self _)
  refine ⟨es, hes, hmap, fun e he wb m => ⟨readString_eq (hin e he) wb m, fun a ha => ?_⟩⟩
  exact wb.filled_of_outside _ m ha

/-- The last byte of a buffer is cleared although the string ends before it. -/
theorem readString_clears_last : entries [110, 61, 97] = some [(⟨0, 1⟩, ⟨2, 1⟩)] ∧
      ∃ m, readString [110, 61, 97] ⟨2, 1⟩ ⟨0, 4⟩ (fun _ => 7) = some (2, m) ∧
        m ≠ write (fun _ => 7) 0 ((unescape (RBuf.bytes [110, 61, 97] ⟨2, 1⟩)).take 3 ++ [0]) := by
  refine ⟨by decide, _, rfl, fun h => ?_⟩
  exact absurd (congrFun h 3) (by decide)

end Value

section Number

def IsNumeral (v : List UInt8) : Prop := ∀ c ∈ v, 48 ≤ c ∧ c ≤ 57

instance : DecidablePred IsNumeral := fun v => decidableBAll (fun c => 48 ≤ c ∧ c ≤ 57) v

def numeral (v : List UInt8) : Nat := v.foldl (fun n c => 10 * n + (c.toNat - 48)) 0

theorem numeral_append_singleton (v : List UInt8) (c : UInt8) :
    numeral (v ++ [c]) = 10 * numeral v + (c.toNat - 48) := by
  simp [numeral]

def saturated (n : Nat) : UInt32 := if n < 4294967290 then UInt32.ofNat n else uint32Max

theorem toNat_saturated (n : Nat) :
    (saturated n).toNat = if n < 4294967290 then n else 4294967295 := by
  unfold saturated
  split_ifs with h
  · exact UInt32.toNat_ofNat_of_lt' (by rw [UInt32.size]; omega)
  · rfl

theorem toNat_u32SatMul_ten (a : UInt32) :
    (u32SatMul a 10).toNat = if 429496729 ≤ a.toNat then 4294967295 else 10 * a.toNat := by
  have hdiv : (uint32Max / 10).toNat = 429496729 := rfl
  have hiff : a ≥ uint32Max / 10 ↔ 429496729 ≤ a.toNat := by
    rw [ge_iff_le, UInt32.le_iff_toNat_le, hdiv]
  unfold u32SatMul
  simp only [hiff]
  split_ifs with h
  · rfl
  · show a.toNat * 10 % 2 ^ 32 = _
    omega

theorem toNat_u32SatAdd {a d : UInt32} :
    (u32SatAdd a d).toNat = min (a.toNat + d.toNat) 4294967295 := by
  have hd := d.toNat_lt
  have hmax : uint32Max.toNat = 4294967295 := rfl
  have hsub : (uint32Max - d).toNat = 4294967295 - d.toNat := by
    rw [UInt32.toNat_sub_of_le _ _ (by rw [UInt32.le_iff_toNat_le]; omega), hmax]
  have hiff : a ≥ uint32Max - d ↔ 4294967295 - d.toNat ≤ a.toNat := by
    rw [ge_iff_le, UInt32.le_iff_toNat_le, hsub]
  unfold u32SatAdd
  simp only [hiff]
  split_ifs with h
  · omega
  · rw [UInt32.toNat_add]
    omega

theorem saturated_step (n : Nat) {d : UInt32} (hd : d.toNat ≤ 9) :
    u32SatAdd (u32SatMul (saturated n) 10) d = saturated (10 * n + d.toNat) := by
  rw [← UInt32.toNat_inj, toNat_u32SatAdd, toNat_u32SatMul_ten, toNat_saturated, toNat_saturated]
  split_ifs <;> omega

theorem decValue_of_digit {c : UInt8} (h : 48 ≤ c ∧ c ≤ 57) :
    ∃ d, decValue c = some d ∧ d.toNat = c.toNat - 48 ∧ d.toNat ≤ 9 := by
  have hlo : 48 ≤ c.toNat := h.1
  have hhi : c.toNat ≤ 57 := h.2
  have hsub : (c.toUInt32 - 48).toNat = c.toNat - 48 := by
    rw [UInt32.toNat_sub_of_le]
    · rfl
    · exact hlo
  refine ⟨c.toUInt32 - 48, if_pos ?_, hsub, by omega⟩
  rw [UInt32.le_iff_toNat_le, hsub]
  show c.toNat - 48 ≤ 9
  omega

theorem decValue_of_not_digit {c : UInt8} (h : ¬ (48 ≤ c ∧ c ≤ 57)) : decValue c = none := by
  refine if_neg fun hle => h ?_
  have hc := c.toNat_lt
  have hnat : (2 ^ 32 - 48 + c.toNat) % 2 ^ 32 ≤ 9 := by
    have := UInt32.le_iff_toNat_le.mp hle
    rwa [UInt32.toNat_sub] at this
  constructor
  · show 48 ≤ c.toNat
    omega
  · show c.toNat ≤ 57
    omega

theorem readU32Loop_eq {text : List UInt8} {value : RBuf} (h : value.ptr + value.len ≤ text.length)
    {p q : List UInt8} (hv : value.bytes text = p ++ q) :
    readU32Loop text value q.length p.length (saturated (numeral p)) =
      some (if IsNumeral q then (true, saturated (numeral (p ++ q))) else (false, 0)) := by
  induction q generalizing p with
  | nil => simp [readU32Loop, IsNumeral]
  | cons c q ih =>
    have hget : (value.bytes text)[p.length]?.getD 0 = c := by simp [hv]
    rw [length_cons, readU32Loop, RBuf.get_eq h, Option.bind_some, hget]
    by_cases hc : 48 ≤ c ∧ c ≤ 57
    · obtain ⟨d, hd, hdc, hle⟩ := decValue_of_digit hc
      have hnext := ih (p := p ++ [c]) (by rw [hv, append_assoc]; rfl)
      rw [length_append, length_singleton, numeral_append_singleton, ← hdc,
        append_assoc, singleton_append] at hnext
      have hiff : IsNumeral (c :: q) ↔ IsNumeral q := by simp [IsNumeral, hc]
      simp only [hd, saturated_step _ hle, hnext, hiff]
    · have hnot : ¬ IsNumeral (c :: q) := fun hall => hc (hall c (mem_cons_self ..))
      rw [decValue_of_not_digit hc, if_neg hnot]

theorem readU32_eq {text : List UInt8} {value : RBuf} (h : value.ptr + value.len ≤ text.length) :
    readU32 text value = some (if IsNumeral (value.bytes text) then
      (true, saturated (numeral (value.bytes text))) else (false, 0)) := by
  have hloop := readU32Loop_eq h (nil_append (value.bytes text)).symm
  rwa [RBuf.length_bytes h] at hloop

/-- The value `v` of a metadata text is accepted if it is a decimal number, and the number is stored
or, if it is too large for that, the largest one. -/
def ReadsU32 (text : List UInt8) (value : RBuf) (v : List UInt8) : Prop :=
  ∃ ok u, readU32 text value = some (ok, u) ∧ (ok = true ↔ IsNumeral v) ∧
    (ok = true → u.toNat = min (numeral v) (2 ^ 32 - 1))

/-- A product of ten that still fits is already taken for too large. -/
theorem readU32_iff (pre v post : List UInt8) :
    ReadsU32 (pre ++ (v ++ post)) ⟨pre.length, v.length⟩ v ↔
      (IsNumeral v → numeral v < 4294967290 ∨ 4294967295 ≤ numeral v) := by
  have hin : pre.length + v.length ≤ (pre ++ (v ++ post)).length := by simp
  have hbytes : RBuf.bytes (pre ++ (v ++ post)) ⟨pre.length, v.length⟩ = v := by
    rw [RBuf.bytes, drop_left, take_left]
  have hread := @readU32_eq (pre ++ (v ++ post)) ⟨pre.length, v.length⟩ hin
  rw [hbytes] at hread
  unfold ReadsU32
  rw [hread]
  by_cases hv : IsNumeral v
  · simp only [hv, if_true, Option.some.injEq, Prod.mk.injEq, forall_true_left]
    constructor
    · rintro ⟨ok, u, ⟨rfl, rfl⟩, -, hu⟩
      have hnat := hu rfl
      rw [toNat_saturated] at hnat
      split_ifs at hnat <;> omega
    · intro hrange
      refine ⟨true, _, ⟨rfl, rfl⟩, by simp, fun _ => ?_⟩
      rw [toNat_saturated]
      split_ifs <;> omega
  · simp [hv]

theorem readU32_saturates_early : IsNumeral [52, 50, 57, 52, 57, 54, 55, 50, 57, 48] ∧
      readU32 [52, 50, 57, 52, 57, 54, 55, 50, 57, 48] ⟨0, 10⟩ = some (true, 4294967295) ∧
      min (numeral [52, 50, 57, 52, 57, 54, 55, 50, 57, 48]) (2 ^ 32 - 1) = 4294967290 := by
  decide

end Number

end MinkIpc.MDScan
