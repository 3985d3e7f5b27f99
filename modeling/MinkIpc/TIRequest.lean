import Mathlib.Algebra.Order.BigOperators.Group.List
import MinkIpc.TIBounds
import MinkIpc.TIDenotes

/-! The request that a caller writes is the request that the handler of the peer reads. Each loop
writes its own arguments of the array; what the other loops have written stays. -/

namespace MinkIpc.TunnelInvoke

open Bytes List

section Args

variable {m m' : Mem} {args i : Nat}

def SameArg (m m' : Mem) (args args' i : Nat) : Prop :=
  ∀ a < 8, m (args + 8 * i + a) = m' (args' + 8 * i + a)

variable {args' : Nat}

section

variable (h : SameArg m m' args args' i)
include h

theorem SameArg.word {b : Nat} (hb : b + 4 ≤ 8) :
    word m (args + 8 * i + b) 4 = word m' (args' + 8 * i + b) 4 := by
  unfold Bytes.word Bytes.read
  congr 1
  refine map_congr_left fun n hn => ?_
  have hn := mem_range.mp hn
  have hbyte := h (b + n) (by omega)
  rwa [← Nat.add_assoc, ← Nat.add_assoc] at hbyte

theorem SameArg.bufOffset :
    bufOffset m args i = TunnelInvoke.bufOffset m' args' i := h.word (b := 0) (by decide)

theorem SameArg.bufSize : bufSize m args i = TunnelInvoke.bufSize m' args' i := h.word (by decide)

theorem SameArg.objHandle : objHandle m args i = TunnelInvoke.objHandle m' args' i :=
  congrArg UInt32.ofNat (h.word (b := 0) (by decide))

end

theorem putObjs_frame {hs : List TIMessageObj} {a : Nat}
    (h : a < args + 8 * i ∨ args + 8 * (i + hs.length) ≤ a) : putObjs m args i hs a = m a := by
  induction hs generalizing i m with
  | nil => rfl
  | cons x xs ih =>
    rw [length_cons] at h
    rw [putObjs, ih (by omega)]
    unfold sizeofTIMessageArg
    rcases h with h | h
    · exact write_of_lt (by omega)
    · exact write_of_ge (by rw [length_le]; omega)

theorem objHandle_putObjs {hs : List TIMessageObj} {j : Nat} {h : TIMessageObj}
    (hj : hs[j]? = some h) : objHandle (putObjs m args i hs) args (i + j) = h := by
  induction hs generalizing i j m with
  | nil => simp at hj
  | cons x xs ih =>
    cases j with
    | zero =>
      obtain rfl : x = h := by simpa using hj
      have hkeep : SameArg (putObjs m args i (x :: xs))
          (putWord m (args + sizeofTIMessageArg * i) 4 x.toNat) args args i := by
        intro a ha
        rw [putObjs]
        exact putObjs_frame (by omega)
      rw [Nat.add_zero, hkeep.objHandle, objHandle, word_putWord_self]
      have hx := x.toNat_lt
      rw [Nat.mod_eq_of_lt (by omega), UInt32.ofNat_toNat]
    | succ j =>
      have hrest := ih (m := putWord m (args + sizeofTIMessageArg * i) 4 x.toNat) (i := i + 1) hj
      rwa [show i + 1 + j = i + (j + 1) by omega] at hrest

end Args

section Outbound

variable {m m' : Mem} {i : Nat}

theorem outboundMarshalInBO_frame {bo : List Nat} (h : outboundMarshalInBO bo i m = .ok m')
    {a : Nat} (ha : a < 16 + 8 * i ∨ 16 + 8 * (i + bo.length) ≤ a) : m' a = m a := by
  induction bo generalizing i m with
  | nil =>
    cases h
    rfl
  | cons s ss ih =>
    rw [outboundMarshalInBO] at h
    split_ifs at h
    rw [length_cons] at ha
    rw [ih h (by omega), putBufOffset, putBufSize, putWord, putWord]
    unfold sizeofTIMessage sizeofTIMessageArg
    rcases ha with ha | ha
    · rw [write_of_lt (by omega), write_of_lt (by omega)]
    · rw [write_of_ge (by rw [length_le]; omega), write_of_ge (by rw [length_le]; omega)]

theorem bufSize_outboundMarshalInBO {bo : List Nat} (h : outboundMarshalInBO bo i m = .ok m')
    {j s : Nat} (hj : bo[j]? = some s) :
    s ≤ uint32Max ∧ bufSize m' sizeofTIMessage (i + j) = s := by
  induction bo generalizing i j m with
  | nil => simp at hj
  | cons x xs ih =>
    rw [outboundMarshalInBO] at h
    split_ifs at h with hmax
    cases j with
    | zero =>
      obtain rfl : x = s := by simpa using hj
      have hkeep : SameArg m' (putBufOffset (putBufSize m sizeofTIMessage i x) sizeofTIMessage i 0)
          sizeofTIMessage sizeofTIMessage i :=
        fun a ha => outboundMarshalInBO_frame h (by unfold sizeofTIMessage; omega)
      refine ⟨by omega, ?_⟩
      rw [Nat.add_zero, hkeep.bufSize, bufSize, putBufOffset,
        word_putWord_of_disjoint (by omega), putBufSize, word_putWord_self]
      unfold uint32Max at hmax
      exact Nat.mod_eq_of_lt (by omega)
    | succ j =>
      have hrest := ih h hj
      rwa [show i + 1 + j = i + (j + 1) by omega] at hrest

def putInput (m : Mem) (i offset : Nat) (b : InputBuf) : Mem :=
  putBufOffset (putBufSize (write m offset b.data) sizeofTIMessage i b.size) sizeofTIMessage i offset

theorem putInput_frame {offset a : Nat} {b : InputBuf}
    (harg : a < 16 + 8 * i ∨ 16 + 8 * (i + 1) ≤ a) (hbuf : a < offset ∨ offset + b.data.length ≤ a) :
    putInput m i offset b a = m a := by
  have hbytes : write m offset b.data a = m a := by
    rcases hbuf with hbuf | hbuf
    · exact write_of_lt hbuf
    · exact write_of_ge hbuf
  unfold putInput putBufOffset putBufSize putWord sizeofTIMessage sizeofTIMessageArg
  rcases harg with harg | harg
  · rw [write_of_lt (by omega), write_of_lt (by omega), hbytes]
  · rw [write_of_ge (by rw [length_le]; omega), write_of_ge (by rw [length_le]; omega), hbytes]

theorem putInput_spec {offset : Nat} {b : InputBuf} (hmax : b.size ≤ uint32Max)
    (hlen : b.data.length = b.size) (hoffset : 16 + 8 * (i + 1) ≤ offset) :
    bufSize (putInput m i offset b) sizeofTIMessage i = b.size ∧
      bufOffset (putInput m i offset b) sizeofTIMessage i = offset % 2 ^ 32 ∧
      read (putInput m i offset b) offset b.size = b.data := by
  refine ⟨?_, word_putWord_self _ _ _ _, ?_⟩
  · rw [putInput, bufSize, putBufOffset, word_putWord_of_disjoint (by omega), putBufSize,
      word_putWord_self]
    unfold uint32Max at hmax
    exact Nat.mod_eq_of_lt (by omega)
  · rw [← hlen]
    unfold putInput putBufOffset putBufSize putWord sizeofTIMessage sizeofTIMessageArg
    rw [read_write_of_disjoint (by rw [length_le]; omega),
      read_write_of_disjoint (by rw [length_le]; omega), read_write_self]

variable {ptr : HeapPtr}

theorem outboundMarshalInBI_cons {b : InputBuf} {bi : List InputBuf} {pos len : Nat}
    (h : outboundMarshalInBI ptr (b :: bi) i ⟨ptr.addr + pos, len⟩ m = .ok m') :
    b.size ≤ uint32Max ∧ b.data.length = b.size ∧
      outboundMarshalInBI ptr bi (i + 1) ⟨ptr.addr + (padded pos + b.size),
        ptr.addr + pos + len - (ptr.addr + padded pos + b.size)⟩ (putInput m i (padded pos) b) =
        .ok m' := by
  have hsub : ptr.addr + padded pos - ptr.addr = padded pos := Nat.add_sub_cancel_left ..
  unfold outboundMarshalInBI at h
  rw [BBuf.alloc_eq, padded_add ptr.aligned] at h
  by_cases hmax : b.size > uint32Max
  · rw [if_pos hmax] at h
    cases h
  rw [if_neg hmax] at h
  by_cases hfit : ptr.addr + padded pos + b.size ≤ ptr.addr + pos + len
  swap
  · rw [if_neg hfit] at h
    cases b <;> cases h
  rw [if_pos hfit] at h
  have hpad : ptr.addr + (padded pos + b.size) = ptr.addr + padded pos + b.size := by omega
  refine ⟨Nat.le_of_not_lt hmax, ?_⟩
  rw [hpad]
  -- A null pointer is let through for an empty buffer only.
  cases b with
  | bytes data =>
    simp only [hsub] at h
    exact ⟨rfl, h⟩
  | null size =>
    cases size with
    | zero =>
      simp only [hsub] at h
      exact ⟨rfl, h⟩
    | succ size => cases h

theorem outboundMarshalInBI_spec {bi : List InputBuf} {pos len : Nat}
    (h : outboundMarshalInBI ptr bi i ⟨ptr.addr + pos, len⟩ m = .ok m')
    (hpos : 16 + 8 * (i + bi.length) ≤ pos) :
    (∀ a, a < 16 + 8 * i ∨ 16 + 8 * (i + bi.length) ≤ a ∧ a < pos → m' a = m a) ∧
      ∀ j b r, bi[j]? = some b → (layoutRanges pos (bi.map InputBuf.size))[j]? = some r →
        b.size ≤ uint32Max ∧ b.data.length = b.size ∧ bufSize m' sizeofTIMessage (i + j) = b.size ∧
          bufOffset m' sizeofTIMessage (i + j) = r.1 % 2 ^ 32 ∧ read m' r.1 b.size = b.data := by
  induction bi generalizing i pos len m with
  | nil =>
    cases h
    exact ⟨fun _ _ => rfl, fun j b r hj => by simp at hj⟩
  | cons b bi ih =>
    have hp := le_padded pos
    obtain ⟨hmax, hlen, hrest⟩ := outboundMarshalInBI_cons h
    rw [length_cons] at hpos
    obtain ⟨hframe, hargs⟩ := ih hrest (by omega)
    refine ⟨fun a ha => ?_, fun j b' r hj hr => ?_⟩
    · rw [length_cons] at ha
      rw [hframe a (by omega), putInput_frame (by omega) (by omega)]
    · cases j with
      | zero =>
        obtain rfl : b = b' := by simpa using hj
        obtain rfl : (padded pos, b.size) = r := by simpa [layoutRanges] using hr
        obtain ⟨hsize, hoffset, hread⟩ := putInput_spec hmax hlen (show 16 + 8 * (i + 1) ≤ padded pos by omega)
        have hkeep : SameArg m' (putInput m i (padded pos) b) sizeofTIMessage sizeofTIMessage i :=
          fun a ha => hframe _ (.inl (by unfold sizeofTIMessage; omega))
        refine ⟨hmax, hlen, ?_, ?_, ?_⟩
        · rw [Nat.add_zero, hkeep.bufSize, hsize]
        · rw [Nat.add_zero, hkeep.bufOffset, hoffset]
        · rw [← hread]
          exact read_congr fun a ha hlt => hframe a (by dsimp only at ha hlt; omega)
      | succ j =>
        have hj' := hargs j b' r hj (hr)
        rwa [show i + 1 + j = i + (j + 1) by omega] at hj'

theorem putHeader_spec (cxt : TIMessageObj) (op k : UInt32) :
    word (putHeader cxt op k) 4 4 = cxt.toNat ∧ word (putHeader cxt op k) 8 4 = op.toNat ∧
      word (putHeader cxt op k) 12 4 = k.toNat := by
  have hcxt := cxt.toNat_lt
  have hop := op.toNat_lt
  have hk := k.toNat_lt
  unfold putHeader
  refine ⟨?_, ?_, ?_⟩
  · rw [word_putWord_of_disjoint (by omega), word_putWord_of_disjoint (by omega), word_putWord_self]
    exact Nat.mod_eq_of_lt (by omega)
  · rw [word_putWord_of_disjoint (by omega), word_putWord_self]
    exact Nat.mod_eq_of_lt (by omega)
  · rw [word_putWord_self]
    exact Nat.mod_eq_of_lt (by omega)

theorem getMessageLen_of_le {k : Nat} {sizes : List Nat} (hlen : sizes.length ≤ 15)
    (h : ∀ s ∈ sizes, s ≤ uint32Max) :
    getMessageLen 64 k sizes = getHeaderLen k + (sizes.map padded).sum := by
  have halign : sizes.map (argsAlign 64) = sizes.map padded := by
    refine map_congr_left fun s hs => argsAlign_eq ?_
    have hs := h s hs
    unfold uint32Max at hs
    omega
  have hsum : (sizes.map padded).sum ≤ sizes.length * 2 ^ 33 := by
    clear halign hlen
    induction sizes with
    | nil => simp
    | cons s ss ih =>
      have hs := h s mem_cons_self
      have hss := ih fun s hs => h s (mem_cons_of_mem _ hs)
      have hpad : padded s ≤ s + 7 := by rw [padded_eq]; omega
      unfold uint32Max at hs
      simp only [map_cons, sum_cons, length_cons]
      omega
  have hheader := getHeaderLen_eq k
  have htotal := total_le k
  rw [getMessageLen_eq (by rw [halign]; omega), halign]

structure Request (msg : Message) (call : Invocation) (h : Nat) (hs : List TIMessageObj) : Prop where
  cxt : word msg.data 4 4 = (indexToHandle h).toNat
  op : word msg.data 8 4 = call.op.toNat
  counts : word msg.data 12 4 = call.k.toNat
  len : getHeaderLen call.k.toNat ≤ msg.len
  bi : ∀ j b, call.bi[j]? = some b → b.data.length = b.size ∧
    bufSize msg.data sizeofTIMessage j = b.size ∧
    ∃ offset, bufOffset msg.data sizeofTIMessage j = offset ∧ offset % 8 = 0 ∧
      getHeaderLen call.k.toNat ≤ offset ∧ offset + b.size ≤ msg.len ∧
      read msg.data offset b.size = b.data
  bo : ∀ j s, call.bo[j]? = some s → s ≤ uint32Max ∧
    bufSize msg.data sizeofTIMessage (indexBO call.k.toNat + j) = s
  oi : ∀ j h, hs[j]? = some h → objHandle msg.data sizeofTIMessage (indexOI call.k.toNat + j) = h

theorem newOutbound_ok {e e' : Endpoint} {h : Nat} {call : Invocation} {msg : Message}
    (hout : newOutbound e (some ptr) h call = (e', .ok msg)) :
    ∃ m₁ m₂ hs, outboundMarshalInBI ptr call.bi 0 (newBbufForMessageBuffers ptr
        (getMessageLen 64 call.k.toNat (call.bi.map InputBuf.size)) call.k.toNat)
        (putHeader (indexToHandle h) call.op call.k) = .ok m₁ ∧
      outboundMarshalInBO call.bo (indexBO call.k.toNat) m₁ = .ok m₂ ∧
      Endpoint.copyObjects (Endpoint.copyObjectToRemote true) call.oi e = (e', hs, none) ∧
      msg = ⟨putObjs m₂ sizeofTIMessage (indexOI call.k.toNat) hs,
        getMessageLen 64 call.k.toNat (call.bi.map InputBuf.size)⟩ := by
  unfold newOutbound at hout
  simp only [Prod.mk.injEq] at hout
  obtain ⟨he, hmsg⟩ := hout
  cases hbi : outboundMarshalInBI ptr call.bi 0 (newBbufForMessageBuffers ptr
      (getMessageLen 64 call.k.toNat (call.bi.map InputBuf.size)) call.k.toNat)
      (putHeader (indexToHandle h) call.op call.k) with
  | error err =>
    rw [hbi] at hmsg
    cases hmsg
  | ok m₁ =>
    rw [hbi] at hmsg he
    cases hbo : outboundMarshalInBO call.bo (indexBO call.k.toNat) m₁ with
    | error err =>
      simp only [bind, Except.bind, hbo] at hmsg
      cases hmsg
    | ok m₂ =>
      simp only [bind, Except.bind, hbo, errorOf] at hmsg he
      cases hcopy : Endpoint.copyObjects (Endpoint.copyObjectToRemote true) call.oi e with
      | mk e₁ r =>
        obtain ⟨hs, err⟩ := r
        cases err with
        | some err =>
          simp only [Endpoint.newOutbound, Endpoint.outboundMarshalIn, hcopy] at hmsg
          cases hmsg
        | none =>
          simp only [Endpoint.newOutbound, Endpoint.outboundMarshalIn, hcopy, if_true] at hmsg he
          cases hmsg
          exact ⟨m₁, m₂, hs, rfl, hbo, by rw [he], rfl⟩

theorem lengths_le_total (call : Invocation) {k : Nat} (hk : k = call.k.toNat) :
    indexBO k = call.bi.length ∧ indexOI k = call.bi.length + call.bo.length ∧
      indexOI k + call.oi.length ≤ total k := by
  have hbi := call.length_bi
  have hbo := call.length_bo
  have hoi := call.length_oi
  subst hk
  unfold indexBO indexOI total
  omega

theorem newOutbound_request {e e' : Endpoint} {h : Nat} {call : Invocation} {msg : Message}
    (hout : newOutbound e (some ptr) h call = (e', .ok msg)) (hmax : msg.len ≤ uint32Max) :
    ∃ hs, Request msg call h hs ∧ Keeps e e' ∧ List.Forall₂ (Names e') call.oi hs := by
  obtain ⟨m₁, m₂, hs, hbi, hbo, hoi, rfl⟩ := newOutbound_ok hout
  obtain ⟨hkeeps, hnames⟩ := names_copyObjects hoi
  obtain ⟨hindexBO, hindexOI, htotal⟩ := lengths_le_total call rfl
  have hheader := getHeaderLen_eq call.k.toNat
  have hhs := hnames.length_eq
  obtain ⟨hframeBI, hargsBI⟩ := outboundMarshalInBI_spec hbi (by omega)
  have hsizes : ∀ s ∈ call.bi.map InputBuf.size, s ≤ uint32Max := by
    intro s hs
    obtain ⟨b, hb, rfl⟩ := List.mem_map.mp hs
    obtain ⟨j, hj⟩ := List.mem_iff_getElem?.mp hb
    have hsize : (call.bi.map InputBuf.size)[j]? = some b.size := by simp [hj]
    obtain ⟨a, ha⟩ := exists_layoutRanges_getElem? (getHeaderLen call.k.toNat) hsize
    exact (hargsBI j b _ hj ha).1
  have hlen : getMessageLen 64 call.k.toNat (call.bi.map InputBuf.size) =
      getHeaderLen call.k.toNat + ((call.bi.map InputBuf.size).map padded).sum := by
    refine getMessageLen_of_le ?_ hsizes
    rw [List.length_map, call.length_bi]
    unfold numBI
    omega
  have hend := layoutEnd_le (getHeaderLen call.k.toNat) (call.bi.map InputBuf.size)
  have hpad : padded (getHeaderLen call.k.toNat) = getHeaderLen call.k.toNat := by
    rw [padded_eq]
    omega
  -- What the three loops leave in place, from the last one back.
  have hOI : ∀ a, a < 16 + 8 * indexOI call.k.toNat ∨ getHeaderLen call.k.toNat ≤ a →
      putObjs m₂ sizeofTIMessage (indexOI call.k.toNat) hs a = m₂ a :=
    fun a ha => putObjs_frame (by unfold sizeofTIMessage; omega)
  have hBO : ∀ a, a < 16 + 8 * indexBO call.k.toNat ∨ getHeaderLen call.k.toNat ≤ a →
      putObjs m₂ sizeofTIMessage (indexOI call.k.toNat) hs a = m₁ a :=
    fun a ha => (hOI a (by omega)).trans (outboundMarshalInBO_frame hbo (by omega))
  have hBI : ∀ a < 16, putObjs m₂ sizeofTIMessage (indexOI call.k.toNat) hs a =
      putHeader (indexToHandle h) call.op call.k a :=
    fun a ha => (hBO a (by omega)).trans (hframeBI a (by omega))
  obtain ⟨hcxt, hop, hk⟩ := putHeader_spec (indexToHandle h) call.op call.k
  refine ⟨hs, ⟨?_, ?_, ?_, ?_, fun j b hj => ?_, fun j s hj => ?_, fun j h hj => ?_⟩, hkeeps, hnames⟩
  · exact (word_congr fun a _ ha => hBI a (by omega)).trans hcxt
  · exact (word_congr fun a _ ha => hBI a (by omega)).trans hop
  · exact (word_congr fun a _ ha => hBI a (by omega)).trans hk
  · dsimp only
    omega
  · have hsize : (call.bi.map InputBuf.size)[j]? = some b.size := by simp [hj]
    obtain ⟨a, ha⟩ := exists_layoutRanges_getElem? (getHeaderLen call.k.toNat) hsize
    obtain ⟨-, hdata, hbufSize, hbufOffset, hread⟩ := hargsBI j b _ hj ha
    obtain ⟨hstart, hfit⟩ := layoutRanges_bounds (List.mem_of_getElem? ha)
    have hmod := layoutRanges_mod (List.mem_of_getElem? ha)
    obtain ⟨hjlt, -⟩ := List.getElem?_eq_some_iff.mp hj
    have hkeep : SameArg (putObjs m₂ sizeofTIMessage (indexOI call.k.toNat) hs) m₁ sizeofTIMessage
        sizeofTIMessage j := fun b hb => hBO _ (by unfold sizeofTIMessage; omega)
    rw [Nat.zero_add] at hbufSize hbufOffset
    dsimp only at hmax hstart hfit hmod
    refine ⟨hdata, hkeep.bufSize.trans hbufSize, a, ?_, hmod, hstart, by dsimp only; omega, ?_⟩
    · rw [hkeep.bufOffset, hbufOffset]
      unfold uint32Max at hmax
      exact Nat.mod_eq_of_lt (by omega)
    · rw [← hread]
      exact read_congr fun b hb _ => hBO b (by omega)
  · obtain ⟨hjlt, -⟩ := List.getElem?_eq_some_iff.mp hj
    obtain ⟨hsmax, hs'⟩ := bufSize_outboundMarshalInBO hbo hj
    have hkeep : SameArg (putObjs m₂ sizeofTIMessage (indexOI call.k.toNat) hs) m₂ sizeofTIMessage
        sizeofTIMessage (indexBO call.k.toNat + j) :=
      fun b hb => hOI _ (by unfold sizeofTIMessage; omega)
    exact ⟨hsmax, hkeep.bufSize.trans hs'⟩
  · exact objHandle_putObjs hj

end Outbound

section Inbound

def bytesOf (msg : Message) : BufPtr × Nat → List UInt8
  | (.invalidPointer, _) => []
  | (.message offset, size) => read msg.data offset size

structure Pending.Carries (p : Pending) (msg : Message) (call : Invocation) (target : Nat) : Prop where
  target : p.target = target
  op : p.op = call.op.toNat
  k : p.k = call.k.toNat
  bi : p.bi.map (bytesOf msg) = call.bi.map InputBuf.data
  bo : p.bo.map Prod.snd = call.bo

structure Pending.Reserves (p : Pending) (call : Invocation) : Prop where
  k : p.k = call.k.toNat
  bo : p.bo = layoutRanges (getHeaderLen call.k.toNat) call.bo
  fits : layoutEnd (getHeaderLen call.k.toNat) call.bo ≤ p.outputMsgLen
  header : getHeaderLen call.k.toNat ≤ p.outputMsgLen
  max : p.outputMsgLen ≤ uint32Max
  args : ∀ j r, p.bo[j]? = some r → bufOffset p.msgArgs 0 (indexBO call.k.toNat + j) = r.1 ∧
      bufSize p.msgArgs 0 (indexBO call.k.toNat + j) = r.2

theorem map_range'_eq {α : Type} {f : Nat → α} {l : List α} {i n : Nat} (hn : l.length = n)
    (h : ∀ j x, l[j]? = some x → f (i + j) = x) : (List.range' i n).map f = l := by
  refine List.ext_getElem? fun j => ?_
  rw [List.getElem?_map]
  cases hj : l[j]? with
  | none =>
    have hlen := List.getElem?_eq_none_iff.mp hj
    rw [List.getElem?_eq_none (by simp; omega), Option.map_none]
  | some x =>
    obtain ⟨hlt, -⟩ := List.getElem?_eq_some_iff.mp hj
    rw [List.getElem?_range' (by omega), Option.map_some, Nat.one_mul, h j x hj]

theorem sameArg_copied {msg : Message} {k : Nat} (hlen : getHeaderLen k ≤ msg.len) {i : Nat}
    (hi : i < total k) :
    SameArg (fun a => (read msg.data sizeofTIMessage (min (sizeofTIMessageArg * total k)
      (msg.len - sizeofTIMessage))).getD a 0) msg.data 0 sizeofTIMessage i := by
  rw [getHeaderLen_eq] at hlen
  intro a ha
  have hlt : 0 + 8 * i + a < min (8 * total k) (msg.len - 16) := by omega
  dsimp only
  rw [getD_eq_getElem _ _ (by rwa [length_read])]
  simp [Bytes.read, Nat.add_assoc]

section Handler

variable {msg : Message} {call : Invocation} {h : Nat} {hs : List TIMessageObj} {msgArgs : Mem}

theorem Request.sizesBO (hreq : Request msg call h hs)
    (hcopy : ∀ i < total call.k.toNat, SameArg msgArgs msg.data 0 sizeofTIMessage i) :
    sizesBO msgArgs call.k.toNat = call.bo := by
  obtain ⟨hindexBO, hindexOI, htotal⟩ := lengths_le_total call rfl
  refine map_range'_eq call.length_bo fun j s hj => ?_
  obtain ⟨hlt, -⟩ := List.getElem?_eq_some_iff.mp hj
  rw [(hcopy _ (by omega)).bufSize, (hreq.bo j s hj).2]

theorem Request.handlesOI (hreq : Request msg call h hs) (hlen : hs.length = call.oi.length)
    (hcopy : ∀ i < total call.k.toNat, SameArg msgArgs msg.data 0 sizeofTIMessage i) :
    handlesOI msgArgs call.k.toNat = hs := by
  obtain ⟨hindexBO, hindexOI, htotal⟩ := lengths_le_total call rfl
  refine map_range'_eq (hlen.trans call.length_oi) fun j s hj => ?_
  obtain ⟨hlt, -⟩ := List.getElem?_eq_some_iff.mp hj
  rw [(hcopy _ (by omega)).objHandle, hreq.oi j s hj]

theorem getTIMessageBuffer_of_inside {offset size k msgLen : Nat} {ptr : HeapPtr}
    (hmod : offset % 8 = 0) (hheader : getHeaderLen k ≤ offset) (hend : offset + size ≤ msgLen) :
    getTIMessageBuffer offset size k ptr msgLen =
      some (if size = 0 then .invalidPointer else .message offset) := by
  have haligned := ptr.aligned
  unfold getTIMessageBuffer
  by_cases hzero : size = 0
  · rw [if_pos hzero, if_pos hzero]
  · rw [if_neg hzero, if_neg (by omega), if_neg (by omega), if_neg (by omega), if_neg hzero]

theorem Request.inputs (hreq : Request msg call h hs) (ptr : HeapPtr)
    (hcopy : ∀ i < total call.k.toNat, SameArg msgArgs msg.data 0 sizeofTIMessage i) :
    ∃ bi, ((List.range (numBI call.k.toNat)).mapM fun i =>
        (getTIMessageBuffer (bufOffset msgArgs 0 i) (bufSize msgArgs 0 i) call.k.toNat ptr
          msg.len).map (·, bufSize msgArgs 0 i)) = some bi ∧
      bi.map (bytesOf msg) = call.bi.map InputBuf.data := by
  obtain ⟨hindexBO, hindexOI, htotal⟩ := lengths_le_total call rfl
  have hbi := call.length_bi
  let found (i : Nat) : BufPtr × Nat :=
    (if bufSize msgArgs 0 i = 0 then .invalidPointer else .message (bufOffset msgArgs 0 i),
      bufSize msgArgs 0 i)
  refine ⟨(List.range (numBI call.k.toNat)).map found, mapM_eq_some_iff.mpr ?_, ?_⟩
  · rw [List.forall₂_map_right_iff, List.forall₂_same]
    intro i hi
    have hlt : i < call.bi.length := by
      rw [hbi]
      exact List.mem_range.mp hi
    obtain ⟨-, hsize, offset, hoffset, hmod, hheader, hend, -⟩ :=
      hreq.bi i _ (List.getElem?_eq_getElem hlt)
    have harg := hcopy i (by omega)
    rw [harg.bufOffset, harg.bufSize, hoffset, hsize,
      getTIMessageBuffer_of_inside hmod hheader hend, Option.map_some]
    simp only [found, harg.bufOffset, harg.bufSize, hoffset, hsize]
  · rw [List.map_map, List.range_eq_range']
    refine map_range'_eq (by rw [List.length_map, hbi]) fun j x hj => ?_
    rw [List.getElem?_map] at hj
    obtain ⟨b, hb, rfl⟩ := Option.map_eq_some_iff.mp hj
    obtain ⟨hlt, -⟩ := List.getElem?_eq_some_iff.mp hb
    obtain ⟨hdata, hsize, offset, hoffset, -, -, -, hread⟩ := hreq.bi j b hb
    have harg := hcopy j (by omega)
    rw [Nat.zero_add]
    simp only [Function.comp_apply, found, harg.bufOffset, harg.bufSize, hoffset, hsize]
    split_ifs with hzero
    · exact (List.length_eq_zero_iff.mp (hdata.trans hzero)).symm
    · rw [bytesOf, hread]

theorem Request.outputMsgLen (hreq : Request msg call h hs)
    (hmax : getMessageLen 64 call.k.toNat call.bo ≤ uint32Max) :
    getMessageLen 32 call.k.toNat call.bo = getHeaderLen call.k.toNat + (call.bo.map padded).sum ∧
      getHeaderLen call.k.toNat + (call.bo.map padded).sum ≤ uint32Max := by
  have hsizes : ∀ s ∈ call.bo, s ≤ uint32Max := by
    intro s hs
    obtain ⟨j, hj⟩ := mem_iff_getElem?.mp hs
    exact (hreq.bo j s hj).1
  have hnum : call.bo.length ≤ 15 := by
    rw [call.length_bo]
    unfold numBO
    omega
  rw [getMessageLen_of_le hnum hsizes] at hmax
  refine ⟨?_, hmax⟩
  rw [getMessageLen_inbound call.length_bo]
  congr 2
  refine map_congr_left fun s hs => argsAlign_eq ?_
  have hle : padded s ≤ (call.bo.map padded).sum :=
    single_le_sum (fun _ _ => Nat.zero_le _) _ (mem_map_of_mem hs)
  rw [padded_eq] at hle
  unfold uint32Max at hmax
  omega

theorem layoutEnd_getHeaderLen_le (k : Nat) (sizes : List Nat) :
    layoutEnd (getHeaderLen k) sizes ≤ getHeaderLen k + (sizes.map padded).sum := by
  have hpad : padded (getHeaderLen k) = getHeaderLen k := by
    rw [padded_eq, getHeaderLen_eq]
    omega
  have hend := layoutEnd_le (getHeaderLen k) sizes
  rwa [hpad] at hend

theorem Request.buffers (hreq : Request msg call h hs) (inputMsg outputMsg : HeapPtr)
    (hcopy : ∀ i < total call.k.toNat, SameArg msgArgs msg.data 0 sizeofTIMessage i)
    (hmax : getMessageLen 64 call.k.toNat call.bo ≤ uint32Max) :
    ∃ bi, inboundMarshalInBuffers call.k.toNat msgArgs inputMsg msg.len outputMsg
        (getMessageLen 32 call.k.toNat call.bo) =
        .ok (bi, layoutRanges (getHeaderLen call.k.toNat) call.bo) ∧
      bi.map (bytesOf msg) = call.bi.map InputBuf.data := by
  obtain ⟨hlen, hle⟩ := hreq.outputMsgLen hmax
  obtain ⟨bi, hbi, hbytes⟩ := hreq.inputs inputMsg hcopy
  have hend := layoutEnd_getHeaderLen_le call.k.toNat call.bo
  refine ⟨bi, ?_, hbytes⟩
  have hlt : getMessageLen 32 call.k.toNat call.bo < 2 ^ 64 := by
    unfold uint32Max at hle
    omega
  rw [inboundMarshalInBuffers, if_neg (by omega), hbi, hreq.sizesBO hcopy]
  rw [allocAll_newBbuf outputMsg (by omega) hlt, if_pos (by omega)]
  simp only [map_map]
  have hoffsets : ((fun x => x - outputMsg.addr) ∘ fun r : Nat × Nat => outputMsg.addr + r.1) =
      Prod.fst := funext fun r => Nat.add_sub_cancel_left ..
  rw [hoffsets, layoutRanges_eq_zip]

theorem putOffsets_of_lt {m : Mem} {i a : Nat} {bo : List (Nat × Nat)} (ha : a < 8 * i) :
    putOffsets m i bo a = m a := by
  induction bo generalizing i m with
  | nil => rfl
  | cons r bo ih =>
    rw [putOffsets, ih (by omega)]
    exact write_of_lt (by unfold sizeofTIMessageArg; omega)

theorem bufSize_putOffsets (m : Mem) (i x : Nat) (bo : List (Nat × Nat)) :
    bufSize (putOffsets m i bo) 0 x = bufSize m 0 x := by
  induction bo generalizing i m with
  | nil => rfl
  | cons r bo ih =>
    rw [putOffsets, ih, bufSize, putBufOffset, word_putWord_of_disjoint, bufSize]
    unfold sizeofTIMessageArg
    omega

theorem bufOffset_putOffsets {m : Mem} {i j : Nat} {bo : List (Nat × Nat)} {r : Nat × Nat}
    (hj : bo[j]? = some r) : bufOffset (putOffsets m i bo) 0 (i + j) = r.1 % 2 ^ 32 := by
  induction bo generalizing i j m with
  | nil => simp at hj
  | cons x bo ih =>
    cases j with
    | zero =>
      obtain rfl : x = r := by simpa using hj
      have hkeep : bufOffset (putOffsets m i (x :: bo)) 0 i =
          bufOffset (putBufOffset m 0 i x.1) 0 i :=
        word_congr fun a _ ha => by
          rw [putOffsets, putOffsets_of_lt (by unfold sizeofTIMessageArg at ha; omega)]
      exact hkeep.trans (word_putWord_self _ _ _ _)
    | succ j =>
      have hrest := ih (m := putBufOffset m 0 i x.1) (i := i + 1) hj
      rwa [show i + 1 + j = i + (j + 1) by omega] at hrest

theorem Request.handleInbound {a p : Endpoint} {target : Nat} (hreq : Request msg call h hs)
    (hnames : List.Forall₂ (Names a) call.oi hs) (hheld : ∀ o ∈ call.oi, Held a p o)
    (htarget : p.objTable.recoverObject h = some target) (hop : call.op.toNat / 2 ^ 15 % 2 = 0)
    (hmax : getMessageLen 64 call.k.toNat call.bo ≤ uint32Max) (inputMsg outputMsg : HeapPtr) :
    ∃ p' pending, handleInbound p ⟨true, some outputMsg, fun _ => true⟩ inputMsg msg =
        some (p', .ok (some pending)) ∧
      pending.Carries msg call target ∧ pending.Reserves call ∧
      List.Forall₂ (Denotes a p') call.oi pending.oi := by
  have hlen := hreq.len
  have hheader := getHeaderLen_eq call.k.toNat
  have hcopied := fun i hi => sameArg_copied (i := i) hlen hi
  have hhs := hnames.length_eq
  obtain ⟨p', oi, hcopy, hdenotes, -, -⟩ := denotes_copyObjects hnames hheld
  obtain ⟨bi, hbuffers, hbytes⟩ := hreq.buffers inputMsg outputMsg hcopied hmax
  obtain ⟨houtLen, houtMax⟩ := hreq.outputMsgLen hmax
  have hcxt : handleToIndex (UInt32.ofNat (indexToHandle h).toNat) = h := by
    rw [UInt32.ofNat_toNat]
    exact handleToIndex_indexToHandle (ObjectTable.lt_of_recoverObject (by rw [htarget]; rfl))
  unfold TunnelInvoke.handleInbound
  rw [Message.load32_eq (by omega), Message.load32_eq (by omega), Message.load32_eq (by omega),
    hreq.op, hreq.counts, hreq.cxt]
  simp only [Option.bind_some]
  rw [if_neg (by omega), if_neg (by simp), Message.load_eq (by unfold sizeofTIMessage; omega)]
  simp only [Option.bind_some]
  rw [hreq.sizesBO hcopied, hreq.handlesOI hhs.symm hcopied, hbuffers, hcxt]
  have hargs : hs.zipIdx.map (fun x => (x.1, true)) = hs.map (·, true) := by
    conv_rhs => rw [← List.zipIdx_map_fst 0 hs, List.map_map]
    rfl
  have hinbound : p.handleInbound none ⟨UInt32.ofNat (indexToHandle h).toNat,
      .ofWord call.op.toNat, hs⟩ none (hs.map (·, true)) = (p', .ok (some oi)) := by
    have hofWord : ObjectOp.ofWord call.op.toNat = .method call.op.toNat := by
      rw [ObjectOp.ofWord, if_neg (by omega)]
    unfold Endpoint.handleInbound
    simp only [hofWord, hcxt, htarget, Endpoint.inboundMarshalIn, hcopy]
  dsimp only [errorOf]
  rw [hargs, hinbound, htarget]
  refine ⟨p', _, rfl, ⟨rfl, rfl, rfl, hbytes, ?_⟩, ?_, hdenotes⟩
  · exact map_snd_layoutRanges _ _
  · have hend := layoutEnd_getHeaderLen_le call.k.toNat call.bo
    refine ⟨rfl, rfl, by dsimp only; omega, by dsimp only; omega, by dsimp only; omega,
      fun j r hj => ?_⟩
    have hbounds := layoutRanges_bounds (List.mem_of_getElem? hj)
    have hsize : call.bo[j]? = some r.2 := by
      rw [← map_snd_layoutRanges (getHeaderLen call.k.toNat) call.bo, List.getElem?_map]
      exact congrArg (Option.map Prod.snd) hj
    obtain ⟨hindexBO, hindexOI, htotal⟩ := lengths_le_total call rfl
    obtain ⟨hlt, -⟩ := List.getElem?_eq_some_iff.mp hsize
    constructor
    · rw [bufOffset_putOffsets hj]
      unfold uint32Max at houtMax
      omega
    · rw [bufSize_putOffsets, (hcopied _ (by omega)).bufSize, (hreq.bo j _ hsize).2]

end Handler

end Inbound

end MinkIpc.TunnelInvoke
