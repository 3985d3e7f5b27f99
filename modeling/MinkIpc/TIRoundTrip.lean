import MinkIpc.TIRequest

/-! A call over the tunnel and back: the response that the handler makes of what the target
returns gives the caller those lengths, bytes and objects. -/

namespace MinkIpc.TunnelInvoke

open Bytes List

section Sizes

variable {m m' : Mem} {i : Nat} {bo : List (List UInt8 × Nat)}

theorem inboundMarshalOutBuffers_frame (h : inboundMarshalOutBuffers m i bo = .ok m') {a : Nat}
    (ha : a < 8 * i) : m' a = m a := by
  induction bo generalizing i m with
  | nil =>
    cases h
    rfl
  | cons b bo ih =>
    rw [inboundMarshalOutBuffers] at h
    split at h
    · cases h
    · rw [ih h (by omega)]
      split
      · exact write_of_lt (by unfold sizeofTIMessageArg; omega)
      · rfl

theorem exists_inboundMarshalOutBuffers (h : ∀ b ∈ bo, b.2 ≤ uint32Max) :
    ∃ m', inboundMarshalOutBuffers m i bo = .ok m' := by
  induction bo generalizing i m with
  | nil => exact ⟨m, rfl⟩
  | cons b bo ih =>
    rw [inboundMarshalOutBuffers, if_neg (Nat.not_lt.mpr (h b mem_cons_self))]
    exact ih fun b' hb' => h b' (mem_cons_of_mem _ hb')

theorem bufOffset_inboundMarshalOutBuffers (h : inboundMarshalOutBuffers m i bo = .ok m')
    (x : Nat) : bufOffset m' 0 x = bufOffset m 0 x := by
  induction bo generalizing i m with
  | nil =>
    cases h
    rfl
  | cons b bo ih =>
    rw [inboundMarshalOutBuffers] at h
    split at h
    · cases h
    rw [ih h]
    split
    · rw [bufOffset, putBufSize, word_putWord_of_disjoint, bufOffset]
      unfold sizeofTIMessageArg
      omega
    · rfl

theorem bufSize_inboundMarshalOutBuffers (h : inboundMarshalOutBuffers m i bo = .ok m')
    (hle : ∀ j b, bo[j]? = some b → b.2 ≤ bufSize m 0 (i + j)) {j : Nat} {b : List UInt8 × Nat}
    (hj : bo[j]? = some b) : bufSize m' 0 (i + j) = b.2 := by
  induction bo generalizing i j m with
  | nil => simp at hj
  | cons x bo ih =>
    have hx := hle 0 x rfl
    rw [inboundMarshalOutBuffers] at h
    split at h
    · cases h
    rename_i hmax
    cases j with
    | zero =>
      obtain rfl : x = b := by simpa using hj
      have hkeep : bufSize m' 0 i = bufSize (if x.2 < bufSize m 0 i then putBufSize m 0 i x.2
          else m) 0 i := word_congr fun a _ ha =>
        inboundMarshalOutBuffers_frame h (by unfold sizeofTIMessageArg at ha; omega)
      rw [Nat.add_zero, hkeep]
      split
      · rw [bufSize, putBufSize, word_putWord_self]
        unfold uint32Max at hmax
        omega
      · rw [Nat.add_zero] at hx
        omega
    | succ j =>
      have hsame : ∀ y, i < y → bufSize (if x.2 < bufSize m 0 i then putBufSize m 0 i x.2
          else m) 0 y = bufSize m 0 y := by
        intro y hy
        split
        · rw [bufSize, putBufSize, word_putWord_of_disjoint, bufSize]
          unfold sizeofTIMessageArg
          omega
        · rfl
      have hrest := ih h (fun j b hb => by
        rw [hsame _ (by omega), show i + 1 + j = i + (j + 1) by omega]
        exact hle (j + 1) b hb) hj
      rwa [show i + 1 + j = i + (j + 1) by omega] at hrest

end Sizes

section Contents

variable {data : Mem} {ranges : List (Nat × Nat)} {bo : List (List UInt8 × Nat)}

theorem putContents_of_lt {a : Nat} (ha : ∀ r ∈ ranges, a < r.1) :
    putContents data ranges bo a = data a := by
  induction ranges generalizing data bo with
  | nil => cases bo <;> rfl
  | cons r ranges ih =>
    cases bo with
    | nil => rfl
    | cons b bo =>
      rw [putContents, ih fun r' hr' => ha r' (mem_cons_of_mem _ hr')]
      exact write_of_lt (ha r mem_cons_self)

theorem read_putContents (hranges : ranges.Pairwise fun r r' => r.1 + r.2 ≤ r'.1)
    (hsize : List.Forall₂ (fun b r => b.1.length = r.2) bo ranges) {j : Nat} {r : Nat × Nat}
    {b : List UInt8 × Nat} (hr : ranges[j]? = some r) (hb : bo[j]? = some b) :
    read (putContents data ranges bo) r.1 b.1.length = b.1 := by
  induction hsize generalizing data j with
  | nil => simp at hr
  | @cons b' r' bo ranges hhead htail ih =>
    rw [pairwise_cons] at hranges
    cases j with
    | zero =>
      obtain rfl : r' = r := by simpa using hr
      obtain rfl : b' = b := by simpa using hb
      have hkeep : read (putContents data (r' :: ranges) (b' :: bo)) r'.1 b'.1.length =
          read (write data r'.1 b'.1) r'.1 b'.1.length := read_congr fun a _ ha => by
        rw [putContents, putContents_of_lt fun x hx => ?_]
        have hx := hranges.1 x hx
        omega
      rw [hkeep, read_write_self]
    | succ j => exact ih hranges.2 hr hb

end Contents

section Response

variable {q q' : Endpoint} {p : Pending} {call : Invocation} {bo : List (List UInt8 × Nat)}
  {oo : List Object} {resp : Message} {hs : List TIMessageObj}

theorem handleInboundReturn_ok (h : handleInboundReturn q p (.ok bo oo) = (q', .ok resp)) :
    ∃ msgArgs hs, inboundMarshalOutBuffers p.msgArgs (indexBO p.k) bo = .ok msgArgs ∧
      Keeps q q' ∧ List.Forall₂ (Names q') oo hs ∧
      resp = ⟨write (putContents (fun _ => 0) p.bo bo) sizeofTIMessage
        (read (putObjs msgArgs 0 (indexOO p.k) hs) 0 (min (p.outputMsgLen - sizeofTIMessage)
          (sizeofTIMessageArg * total p.k))), p.outputMsgLen⟩ := by
  unfold handleInboundReturn Endpoint.handleInboundReturn Endpoint.inboundMarshalOut at h
  cases hargs : inboundMarshalOutBuffers p.msgArgs (indexBO p.k) bo with
  | error err =>
    simp only [hargs] at h
    cases h
  | ok msgArgs =>
    simp only [hargs] at h
    rcases hcopy : Endpoint.copyObjects (Endpoint.copyObjectToRemote false) oo q with ⟨q₁, hs, err⟩
    rw [hcopy] at h
    cases err with
    | some err => cases h
    | none =>
      obtain ⟨hkeeps, hnames⟩ := names_copyObjects hcopy
      cases h
      have hreleased : Keeps q₁ ((q₁.releaseObjects oo).releaseObjects p.oi) :=
        (keeps_releaseObjects _ _).trans (keeps_releaseObjects _ _)
      exact ⟨msgArgs, hs, rfl, hkeeps.trans hreleased,
        hnames.imp fun _ _ hn => hreleased.names hn, rfl⟩

def Exports (q : Endpoint) (oo : List Object) : Prop :=
  (Endpoint.copyObjects (Endpoint.copyObjectToRemote false) oo q).2.2 = none

theorem exists_handleInboundReturn (hbo : ∀ b ∈ bo, b.2 ≤ uint32Max) (hoo : Exports q oo) :
    ∃ q' resp, handleInboundReturn q p (.ok bo oo) = (q', .ok resp) := by
  obtain ⟨msgArgs, hargs⟩ := exists_inboundMarshalOutBuffers (m := p.msgArgs) (i := indexBO p.k) hbo
  rcases hcopy : Endpoint.copyObjects (Endpoint.copyObjectToRemote false) oo q with ⟨q₁, hs, err⟩
  obtain rfl : err = none := by rwa [Exports, hcopy] at hoo
  unfold handleInboundReturn Endpoint.handleInboundReturn Endpoint.inboundMarshalOut
  simp only [hargs, hcopy]
  exact ⟨_, _, rfl⟩

def Returned (bo : List (List UInt8 × Nat)) (sizes : List Nat) : Prop :=
  List.Forall₂ (fun b s => b.1.length = s ∧ b.2 ≤ s) bo sizes

theorem Returned.exists_size {sizes : List Nat} (h : Returned bo sizes) {j : Nat}
    {b : List UInt8 × Nat} (hj : bo[j]? = some b) : sizes[j]? = some b.1.length ∧
      b.2 ≤ b.1.length := by
  induction h generalizing j with
  | nil => simp at hj
  | @cons x s bo sizes hhead _ ih =>
    cases j with
    | zero =>
      obtain rfl : x = b := by simpa using hj
      exact ⟨congrArg some hhead.1.symm, hhead.1 ▸ hhead.2⟩
    | succ j => exact ih hj

theorem Pending.Reserves.slot (hreserves : p.Reserves call) (hbo : Returned bo call.bo) {j : Nat}
    {b : List UInt8 × Nat} (hj : bo[j]? = some b) : ∃ a, b.2 ≤ b.1.length ∧ a % 8 = 0 ∧
      getHeaderLen call.k.toNat ≤ a ∧ a + b.1.length ≤ p.outputMsgLen ∧
      indexBO call.k.toNat + j < indexOI call.k.toNat ∧
      bufOffset p.msgArgs 0 (indexBO call.k.toNat + j) = a ∧
      bufSize p.msgArgs 0 (indexBO call.k.toNat + j) = b.1.length ∧
      read (putContents (fun _ => 0) p.bo bo) a b.1.length = b.1 := by
  obtain ⟨hsize, hb⟩ := hbo.exists_size hj
  obtain ⟨hlt, -⟩ := List.getElem?_eq_some_iff.mp hsize
  obtain ⟨a, ha⟩ := exists_layoutRanges_getElem? (getHeaderLen call.k.toNat) hsize
  obtain ⟨hstart, hend⟩ := layoutRanges_bounds (List.mem_of_getElem? ha)
  have hmod := layoutRanges_mod (List.mem_of_getElem? ha)
  have hfits := hreserves.fits
  obtain ⟨hindexBO, hindexOI, -⟩ := lengths_le_total call rfl
  have hsizes : List.Forall₂ (fun b r => b.1.length = r.2) bo p.bo := by
    rw [← List.forall₂_map_right_iff (R := fun (b : List UInt8 × Nat) s => b.1.length = s),
      hreserves.bo, map_snd_layoutRanges]
    exact hbo.imp fun _ _ h => h.1
  rw [← hreserves.bo] at ha
  obtain ⟨hoffset, hlen⟩ := hreserves.args j _ ha
  refine ⟨a, hb, hmod, hstart, hend.trans hfits, by omega, hoffset, hlen, ?_⟩
  refine read_putContents ?_ hsizes ha hj
  rw [hreserves.bo]
  exact layoutRanges_pairwise _ _

theorem sameArg_write {data args : Mem} {n i : Nat} (hi : 8 * (i + 1) ≤ n) :
    SameArg (write data sizeofTIMessage (read args 0 n)) args sizeofTIMessage 0 i := by
  intro a ha
  rw [write, if_pos (by rw [length_read]; omega), Bytes.read, getD_eq_getElem?_getD,
    getElem?_map, getElem?_range (by omega)]
  exact congrArg args (by omega)

theorem take_read (m : Mem) (a : Nat) {n n' : Nat} (h : n ≤ n') :
    (read m a n').take n = read m a n := by
  rw [Bytes.read, ← map_take, take_range, Nat.min_eq_left h, Bytes.read]

structure Response (resp : Message) (k : Nat) (bo : List (List UInt8 × Nat))
    (hs : List TIMessageObj) : Prop where
  result : word resp.data 0 4 = 0
  len : getHeaderLen k ≤ resp.len
  bo : ∀ j b, bo[j]? = some b → bufSize resp.data sizeofTIMessage (indexBO k + j) = b.2 ∧
    ∃ offset, bufOffset resp.data sizeofTIMessage (indexBO k + j) = offset ∧ offset % 8 = 0 ∧
      getHeaderLen k ≤ offset ∧ offset + b.2 ≤ resp.len ∧
      read resp.data offset b.2 = b.1.take b.2
  oo : ∀ j h, hs[j]? = some h → objHandle resp.data sizeofTIMessage (indexOO k + j) = h

theorem handleInboundReturn_response (hreserves : p.Reserves call) (hbo : Returned bo call.bo)
    (hoo : oo.length = numOO call.k.toNat)
    (h : handleInboundReturn q p (.ok bo oo) = (q', .ok resp)) :
    ∃ hs, Response resp call.k.toNat bo hs ∧ Keeps q q' ∧ List.Forall₂ (Names q') oo hs := by
  obtain ⟨msgArgs, hs, hargs, hkeeps, hnames, rfl⟩ := handleInboundReturn_ok h
  rw [hreserves.k] at hargs ⊢
  have hheader := hreserves.header
  have htotal := getHeaderLen_eq call.k.toNat
  have hlen : min (p.outputMsgLen - sizeofTIMessage) (sizeofTIMessageArg * total call.k.toNat) =
      8 * total call.k.toNat := by
    unfold sizeofTIMessage sizeofTIMessageArg
    omega
  rw [hlen]
  have hsame : ∀ i < total call.k.toNat, SameArg (write (putContents (fun _ => 0) p.bo bo)
      sizeofTIMessage (read (putObjs msgArgs 0 (indexOO call.k.toNat) hs) 0
        (8 * total call.k.toNat))) (putObjs msgArgs 0 (indexOO call.k.toNat) hs)
      sizeofTIMessage 0 i := fun i hi => sameArg_write (by omega)
  have harray : ∀ i < indexOO call.k.toNat,
      SameArg (putObjs msgArgs 0 (indexOO call.k.toNat) hs) msgArgs 0 0 i :=
    fun i hi a ha => putObjs_frame (by omega)
  have hhs := hnames.length_eq
  have hindexOO : indexOO call.k.toNat = indexOI call.k.toNat + numOI call.k.toNat := rfl
  have hOO : indexOO call.k.toNat + numOO call.k.toNat = total call.k.toNat := rfl
  refine ⟨hs, ⟨?_, hheader, fun j b hj => ?_, fun j h hj => ?_⟩, hkeeps, hnames⟩
  · have hzero : word (fun _ => 0) 0 4 = 0 := rfl
    refine (word_congr fun a _ ha => ?_).trans hzero
    dsimp only
    rw [write_of_lt (by unfold sizeofTIMessage; omega), putContents_of_lt fun r hr => ?_]
    rw [hreserves.bo] at hr
    have hr := (layoutRanges_bounds hr).1
    omega
  · obtain ⟨a, hb, hmod, hstart, hend, hlt, hoffset, -, hread⟩ := hreserves.slot hbo hj
    have hsizes : ∀ j b, bo[j]? = some b →
        b.2 ≤ bufSize p.msgArgs 0 (indexBO call.k.toNat + j) := by
      intro j b hj
      obtain ⟨-, hb, -, -, -, -, -, hsize, -⟩ := hreserves.slot hbo hj
      rwa [hsize]
    rw [(hsame _ (by omega)).bufSize, (hsame _ (by omega)).bufOffset,
      (harray _ (by omega)).bufSize, (harray _ (by omega)).bufOffset,
      bufSize_inboundMarshalOutBuffers hargs hsizes hj,
      bufOffset_inboundMarshalOutBuffers hargs, hoffset]
    refine ⟨rfl, a, rfl, hmod, hstart, by dsimp only; omega, ?_⟩
    rw [read_write_of_disjoint (by rw [length_read]; unfold sizeofTIMessage; omega),
      ← take_read _ _ hb, hread]
  · obtain ⟨hlt, -⟩ := List.getElem?_eq_some_iff.mp hj
    rw [(hsame _ (by omega)).objHandle, objHandle_putObjs hj]

end Response

section Caller

variable {e e' : Endpoint} {k i : Nat} {ptr : HeapPtr} {msg : Message} {sizes : List Nat}
  {bo : List (List UInt8 × Nat)} {hs : List TIMessageObj}

theorem outboundMarshalOutBuffers_copy (h : msg.Holds i 8) {size offset supplied : Nat}
    (hsize : bufSize msg.data sizeofTIMessage i = size)
    (hoffset : bufOffset msg.data sizeofTIMessage i = offset) (hmod : offset % 8 = 0)
    (hheader : getHeaderLen k ≤ offset) (hend : offset + size ≤ msg.len) (hle : size ≤ supplied) :
    outboundMarshalOutBuffers k ptr msg i (supplied :: sizes) =
      (outboundMarshalOutBuffers k ptr msg (i + 1) sizes).map fun r =>
        (read msg.data offset size :: r.1, r.2) := by
  obtain ⟨offset', hload, hoffset'⟩ := Message.loadBuf_eq h
  rw [hsize] at hload hoffset'
  rw [hoffset] at hoffset'
  rw [outboundMarshalOutBuffers, hload, Option.bind_some]
  simp only
  by_cases hzero : size = 0
  · subst hzero
    rfl
  · obtain rfl := hoffset' hzero
    rw [getTIMessageBuffer_of_inside hmod hheader hend, if_neg hzero]
    simp only
    rw [if_neg (by omega), Nat.min_eq_right hle, Message.load_eq hend, Option.bind_some]

variable (ptr) in
theorem outboundMarshalOutBuffers_returned (hbo : Returned bo sizes)
    (hfind : ∀ j b, bo[j]? = some b → msg.Holds (i + j) 8 ∧
      bufSize msg.data sizeofTIMessage (i + j) = b.2 ∧
      ∃ offset, bufOffset msg.data sizeofTIMessage (i + j) = offset ∧ offset % 8 = 0 ∧
        getHeaderLen k ≤ offset ∧ offset + b.2 ≤ msg.len ∧
        read msg.data offset b.2 = b.1.take b.2) :
    outboundMarshalOutBuffers k ptr msg i sizes = some (bo.map fun b => b.1.take b.2, none) := by
  induction hbo generalizing i with
  | nil => rfl
  | @cons b s bo sizes hb _ ih =>
    obtain ⟨hholds, hsize, offset, hoffset, hmod, hheader, hend, hread⟩ := hfind 0 b rfl
    have hrest := ih fun j b hj => by
      rw [show i + 1 + j = i + (j + 1) by omega]
      exact hfind (j + 1) b hj
    rw [Nat.add_zero] at hholds hsize hoffset
    rw [outboundMarshalOutBuffers_copy hholds hsize hoffset hmod hheader hend hb.2, hrest,
      Option.map_some, hread, map_cons]

theorem outboundMarshalOutObjects_eq (hfind : ∀ j h, hs[j]? = some h → msg.Holds (i + j) 4 ∧
      objHandle msg.data sizeofTIMessage (i + j) = h) :
    outboundMarshalOutObjects msg e i (replicate hs.length true) =
      some (Endpoint.copyObjects Endpoint.copyObjectFromRemote (hs.map (·, true)) e) := by
  induction hs generalizing i e with
  | nil => rfl
  | cons h hs ih =>
    obtain ⟨hholds, hhandle⟩ := hfind 0 h rfl
    have hrest := fun e' : Endpoint => ih (e := e') (i := i + 1) fun j h hj => by
      rw [show i + 1 + j = i + (j + 1) by omega]
      exact hfind (j + 1) h hj
    rw [Nat.add_zero] at hholds hhandle
    rw [length_cons, replicate_succ, outboundMarshalOutObjects,
      Message.loadObj_eq hholds, hhandle, Option.bind_some, map_cons, Endpoint.copyObjects]
    cases e.copyObjectFromRemote (h, true) with
    | error err => rfl
    | ok r =>
      simp only
      rw [hrest, Option.map_some]

theorem Response.processResponse {q c : Endpoint} {call : Invocation} {oo : List Object}
    (hresp : Response msg call.k.toNat bo hs) (hbo : Returned bo call.bo)
    (hoo : oo.length = numOO call.k.toNat) (hnames : List.Forall₂ (Names q) oo hs)
    (hheld : ∀ o ∈ oo, Held q c o) (ptr : HeapPtr) :
    ∃ c' os, processResponse c ptr msg call.k.toNat call.bo
        (List.replicate (numOO call.k.toNat) true) =
        some (c', bo.map fun b => b.1.take b.2, .ok os) ∧
      List.Forall₂ (Denotes q c') oo os := by
  have hlen := hresp.len
  rw [getHeaderLen_eq] at hlen
  obtain ⟨hindexBO, hindexOI, -⟩ := lengths_le_total call rfl
  have hhs := hnames.length_eq
  have hindexOO : indexOO call.k.toNat = indexOI call.k.toNat + numOI call.k.toNat := rfl
  have htotal : indexOO call.k.toNat + numOO call.k.toNat = total call.k.toNat := rfl
  have hholds : ∀ i n, i < total call.k.toNat → n ≤ 8 → msg.Holds i n := by
    intro i n hi hn
    unfold Message.Holds sizeofTIMessage sizeofTIMessageArg
    omega
  obtain ⟨c', os, hcopy, hdenotes, -, -⟩ := denotes_copyObjects hnames hheld
  have hbuffers := outboundMarshalOutBuffers_returned ptr hbo fun j b hj => by
    obtain ⟨hsize, -⟩ := hbo.exists_size hj
    obtain ⟨hlt, -⟩ := List.getElem?_eq_some_iff.mp hsize
    exact ⟨hholds _ 8 (by omega) le_rfl, hresp.bo j b hj⟩
  have hobjects := outboundMarshalOutObjects_eq (e := c) fun j h hj => by
    obtain ⟨hlt, -⟩ := List.getElem?_eq_some_iff.mp hj
    exact ⟨hholds _ 4 (by omega) (by decide), hresp.oo j h hj⟩
  refine ⟨c', os, ?_, hdenotes⟩
  unfold TunnelInvoke.processResponse
  rw [Message.load32_eq (by omega), hresp.result, Option.bind_some, if_neg (by decide), hbuffers,
    Option.bind_some]
  simp only
  rw [← hoo, hhs, hobjects, hcopy, Option.map_some]

end Caller

section Invocation

/-- The caller gets the lengths, bytes and objects that the target of `p` returns, if the peer's
table has room for them and the caller's holds its own that come back. -/
def Pending.Answers (p : Pending) (call : Invocation) : Prop :=
  ∀ ⦃q c : Endpoint⦄ ⦃bo : List (List UInt8 × Nat)⦄ ⦃oo : List Object⦄ (ptr : HeapPtr),
    Returned bo call.bo → oo.length = numOO call.k.toNat → Exports q oo →
    (∀ o ∈ oo, Held q c o) →
    ∃ q' resp c' os, handleInboundReturn q p (.ok bo oo) = (q', .ok resp) ∧
      processResponse c ptr resp call.k.toNat call.bo (replicate (numOO call.k.toNat) true) =
        some (c', bo.map fun b => b.1.take b.2, .ok os) ∧
      List.Forall₂ (Denotes q' c') oo os

theorem Pending.Reserves.answers {p : Pending} {call : Invocation} (hreserves : p.Reserves call) :
    p.Answers call := by
  intro q c bo oo ptr hbo hoo hexports hheld
  have hsizes : ∀ b ∈ bo, b.2 ≤ uint32Max := by
    intro b hb
    obtain ⟨j, hj⟩ := mem_iff_getElem?.mp hb
    obtain ⟨a, hle, -, -, hend, -⟩ := hreserves.slot hbo hj
    have hmax := hreserves.max
    omega
  obtain ⟨q', resp, hreturn⟩ := exists_handleInboundReturn hsizes hexports
  obtain ⟨hs, hresp, hkeeps, hnames⟩ := handleInboundReturn_response hreserves hbo hoo hreturn
  obtain ⟨c', os, hprocess, hdenotes⟩ :=
    hresp.processResponse hbo hoo hnames (fun o ho f hf => by
      rw [hkeeps.index]
      exact hheld o ho f hf) ptr
  exact ⟨q', resp, c', os, hreturn, hprocess, hdenotes⟩

/-- A call of a method on a forwarder, there and back. -/
theorem call_roundTrip {e e' p : Endpoint} {h target : Nat} {call : Invocation} {msg : Message}
    (ptr inputMsg outputMsg : HeapPtr) (hout : newOutbound e (some ptr) h call = (e', .ok msg))
    (hop : call.op.toNat / 2 ^ 15 % 2 = 0) (hlen : msg.len ≤ uint32Max)
    (hmax : getMessageLen 64 call.k.toNat call.bo ≤ uint32Max)
    (htarget : p.objTable.recoverObject h = some target) (hheld : ∀ o ∈ call.oi, Held e' p o) :
    ∃ p' pending, handleInbound p ⟨true, some outputMsg, fun _ => true⟩ inputMsg msg =
        some (p', .ok (some pending)) ∧
      pending.Carries msg call target ∧ List.Forall₂ (Denotes e' p') call.oi pending.oi ∧
      pending.Answers call := by
  obtain ⟨hs, hreq, -, hnames⟩ := newOutbound_request hout hlen
  obtain ⟨p', pending, hin, hcarries, hreserves, hdenotes⟩ :=
    hreq.handleInbound hnames hheld htarget hop hmax inputMsg outputMsg
  exact ⟨p', pending, hin, hcarries, hdenotes, hreserves.answers⟩

def serving : Endpoint :=
  { oneSlot with objTable := (oneSlot.objTable.addObject 7).elim oneSlot.objTable Prod.snd }

def mixedCall : Invocation := ⟨3, 0x1111, [.bytes [1, 2, 3]], [8], [.own 5], rfl, rfl, rfl⟩

theorem call_roundTrip_sample : ∃ e' msg p' pending q' resp c' os,
    newOutbound oneSlot (some block) 0 mixedCall = (e', .ok msg) ∧
    handleInbound serving ⟨true, some block, fun _ => true⟩ block msg =
      some (p', .ok (some pending)) ∧
    pending.Carries msg mixedCall 7 ∧ List.Forall₂ (Denotes e' p') mixedCall.oi pending.oi ∧
    handleInboundReturn p' pending (.ok [([4, 5, 0, 0, 0, 0, 0, 0], 2)] [.own 7]) = (q', .ok resp) ∧
    processResponse e' block resp 0x1111 [8] [true] = some (c', [[4, 5]], .ok os) ∧
    List.Forall₂ (Denotes q' c') [.own 7] os := by
  have hout : newOutbound oneSlot (some block) 0 mixedCall = (_, .ok _) := rfl
  have htarget : serving.objTable.recoverObject 0 = some 7 := by decide
  obtain ⟨p', pending, hin, hcarries, hdenotes, hanswers⟩ :=
    call_roundTrip block block block hout (by decide) (by decide) (by decide) htarget
      (by simp [mixedCall, Held])
  have hexports : Exports p' [.own 7] := by
    cases hin
    rfl
  have hreturned : Returned [([4, 5, 0, 0, 0, 0, 0, 0], 2)] mixedCall.bo :=
    .cons ⟨rfl, by decide⟩ .nil
  obtain ⟨q', resp, c', os, hreturn, hresponse, hback⟩ :=
    hanswers block hreturned (by decide) hexports (by simp [Held])
  exact ⟨_, _, p', pending, q', resp, c', os, hout, hin, hcarries, hdenotes, hreturn, hresponse,
    hback⟩

def releaseCall : Invocation := ⟨0xFFFF, 0, [], [], [], rfl, rfl, rfl⟩

def hugeCall : Invocation := ⟨3, 0x10, [], [2 ^ 32 - 8], [], rfl, rfl, rfl⟩

def echoCall : Invocation := ⟨3, 0x1100, [], [], [.own 5], rfl, rfl, rfl⟩

section Overlong

variable {data : List UInt8}

def overlongCall (data : List UInt8) : Invocation :=
  ⟨3, 2, [.bytes data, .bytes [1]], [], [], rfl, rfl, rfl⟩

def overlongMessage (data : List UInt8) : Message where
  data :=
    let m := write (putHeader 1 3 2) 32 data
    let m := putBufOffset (putBufSize m 16 0 (2 ^ 32 - 1)) 16 0 32
    putBufOffset (putBufSize (write m (2 ^ 32 + 32) [1]) 16 1 1) 16 1 (2 ^ 32 + 32)
  len := 2 ^ 32 + 40

theorem newOutbound_overlong (hlen : data.length = 2 ^ 32 - 1) :
    newOutbound oneSlot (some block) 0 (overlongCall data) =
      (oneSlot, .ok (overlongMessage data)) := by
  have hdata : (InputBuf.bytes data).size = 2 ^ 32 - 1 := hlen
  have hone : (InputBuf.bytes [1]).size = 1 := rfl
  have hsizes : (overlongCall data).bi.map InputBuf.size = [2 ^ 32 - 1, 1] := by
    rw [overlongCall, map_cons, hdata]
    rfl
  have hmsgLen : getMessageLen 64 2 [2 ^ 32 - 1, 1] = 2 ^ 32 + 40 := rfl
  have hbbuf : newBbufForMessageBuffers block (2 ^ 32 + 40) 2 = ⟨96, 2 ^ 32 + 8⟩ := rfl
  have hfirst : (⟨96, 2 ^ 32 + 8⟩ : BBuf).alloc (2 ^ 32 - 1) = some (96, ⟨2 ^ 32 + 95, 9⟩) := rfl
  have hsecond : (⟨2 ^ 32 + 95, 9⟩ : BBuf).alloc 1 = some (2 ^ 32 + 96, ⟨2 ^ 32 + 97, 7⟩) := rfl
  have hbuffers : outboundMarshalInBI block (overlongCall data).bi 0 ⟨96, 2 ^ 32 + 8⟩
      (putHeader 1 3 2) = .ok (overlongMessage data).data := by
    unfold overlongCall outboundMarshalInBI
    rw [hdata, hfirst]
    dsimp only
    unfold outboundMarshalInBI
    rw [hdata]
    rfl
  have hk : (overlongCall data).k = 2 := rfl
  have hop : (overlongCall data).op = 3 := rfl
  have hcxt : indexToHandle 0 = 1 := rfl
  unfold newOutbound
  simp only [hk, UInt32.reduceToNat, hsizes, hmsgLen, hbbuf, hcxt, hop, hbuffers]
  rfl

theorem handleInbound_overlong (data : List UInt8) : ∃ p' pending,
    handleInbound serving ⟨true, some block, fun _ => true⟩ block (overlongMessage data) =
      some (p', .ok (some pending)) ∧
    pending.bi = [(.message 32, 2 ^ 32 - 1), (.message 32, 1)] := by
  have hop : (overlongMessage data).load32 8 = some 3 := rfl
  have hk : (overlongMessage data).load32 12 = some 2 := rfl
  have hcxt : (overlongMessage data).load32 4 = some 1 := rfl
  have hargs : (overlongMessage data).load 16 16 =
      some [32, 0, 0, 0, 255, 255, 255, 255, 32, 0, 0, 0, 1, 0, 0, 0] := rfl
  have hlen : min (sizeofTIMessageArg * total 2) ((overlongMessage data).len - sizeofTIMessage) =
      16 := rfl
  have hlong : ¬ (overlongMessage data).len < getHeaderLen 2 := by
    change ¬ 2 ^ 32 + 40 < getHeaderLen 2
    decide
  unfold handleInbound
  rw [hop, hk, hcxt]
  simp only [Option.bind_some]
  rw [hlen, sizeofTIMessage, hargs]
  exact ⟨_, _, rfl, rfl⟩

theorem not_carries_overlong {pending : Pending} (hzero : data[0]? = some 0)
    (hbi : pending.bi = [(.message 32, 2 ^ 32 - 1), (.message 32, 1)]) :
    ¬ pending.Carries (overlongMessage data) (overlongCall data) 7 := by
  intro hcarries
  have hbytes := hcarries.bi
  rw [hbi] at hbytes
  obtain ⟨hfirst, hrest⟩ := cons.inj hbytes
  obtain ⟨hsecond, -⟩ := cons.inj hrest
  have hfirst : read (overlongMessage data).data 32 (2 ^ 32 - 1) = data := hfirst
  have hone : (overlongMessage data).data 32 = 1 := (cons.inj hsecond).1
  rw [← hfirst, Bytes.read, getElem?_map, getElem?_range (by decide), Option.map_some, hone] at hzero
  cases hzero

end Overlong

/-- A release invokes no object; the peer refuses output buffers that do not fit, and a call without
memory; a returned object needs a handle and a forwarder; a target that returns what it was given
makes the handler release it first; and more than 4 GiB of input give other bytes. -/
theorem call_lost : (∃ e' msg p', newOutbound oneSlot (some block) 0 releaseCall = (e', .ok msg) ∧
      handleInbound serving ⟨true, some block, fun _ => true⟩ block msg = some (p', .ok none)) ∧
    (∃ e' msg p', newOutbound oneSlot (some block) 0 hugeCall = (e', .ok msg) ∧
      handleInbound serving ⟨true, some block, fun _ => true⟩ block msg =
        some (p', .error maxData)) ∧
    (∃ e' msg p', newOutbound oneSlot (some block) 0 mixedCall = (e', .ok msg) ∧
      handleInbound serving ⟨true, none, fun _ => true⟩ block msg = some (p', .error .mem)) ∧
    (∃ e' msg p' pending q' q'' resp c',
      newOutbound oneSlot (some block) 0 mixedCall = (e', .ok msg) ∧
      handleInbound serving ⟨true, some block, fun _ => true⟩ block msg =
        some (p', .ok (some pending)) ∧
      handleInboundReturn p' pending (.ok [(List.replicate 8 0, 0)] [.own 8]) = (q', .error .noSlots) ∧
      handleInboundReturn p' pending (.ok [(List.replicate 8 0, 0)] [.own 7]) = (q'', .ok resp) ∧
      processResponse e' block resp 0x1111 [8] [false] = some (c', [[]], .error .mem)) ∧
    (∃ e' msg p' pending q' resp q'' release c c',
      newOutbound oneSlot (some block) 0 echoCall = (e', .ok msg) ∧
      handleInbound serving ⟨true, some block, fun _ => true⟩ block msg =
        some (p', .ok (some pending)) ∧
      pending.oi = [.forwarder 0] ∧
      handleInboundReturn (p'.retain 0) pending (.ok [] [.forwarder 0]) = (q', .ok resp) ∧
      q'.deleted = [0] ∧ newOutbound q' (some block) 0 releaseCall = (q'', .ok release) ∧
      handleInbound e' ⟨true, some block, fun _ => true⟩ block release = some (c, .ok none) ∧
      processResponse c block resp 0x1100 [] [true] = some (c', [], .error .badObj)) ∧
    ∃ e' msg p' pending, newOutbound oneSlot (some block) 0
        (overlongCall (List.replicate (2 ^ 32 - 1) 0)) = (e', .ok msg) ∧
      handleInbound serving ⟨true, some block, fun _ => true⟩ block msg =
        some (p', .ok (some pending)) ∧
      ¬ pending.Carries msg (overlongCall (List.replicate (2 ^ 32 - 1) 0)) 7 := by
  refine ⟨⟨_, _, _, rfl, rfl⟩, ⟨_, _, _, rfl, rfl⟩, ⟨_, _, _, rfl, rfl⟩,
    ⟨_, _, _, _, _, _, _, _, rfl, rfl, rfl, rfl, rfl⟩,
    ⟨_, _, _, _, _, _, _, _, _, _, rfl, rfl, rfl, rfl, rfl, rfl, rfl, rfl⟩, ?_⟩
  have hlen : (replicate (2 ^ 32 - 1) (0 : UInt8)).length = 2 ^ 32 - 1 := length_replicate
  have hzero : (replicate (2 ^ 32 - 1) (0 : UInt8))[0]? = some 0 :=
    getElem?_replicate_of_lt (by decide)
  obtain ⟨p', pending, hin, hbi⟩ := handleInbound_overlong (replicate (2 ^ 32 - 1) 0)
  exact ⟨_, _, p', pending, newOutbound_overlong hlen, hin, not_carries_overlong hzero hbi⟩

end Invocation

end MinkIpc.TunnelInvoke
