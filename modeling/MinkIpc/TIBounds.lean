import MinkIpc.TIAccounting
import MinkIpc.TICrypto
import MinkIpc.TIWire

/-! What the two parsers of tunnel messages read. The handler of a request checks that the message
holds the argument array; the caller that takes a response in does not. -/

namespace MinkIpc.TunnelInvoke

open Bytes Option

section Loads

variable {msg : Message} {a n i : Nat}

theorem Message.load_eq (h : a + n ≤ msg.len) : msg.load a n = some (read msg.data a n) := if_pos h

theorem Message.load32_eq (h : a + 4 ≤ msg.len) : msg.load32 a = some (word msg.data a 4) := by
  rw [Message.load32, Message.load_eq h]
  rfl

theorem Message.load32_eq_none (h : msg.len < a + 4) : msg.load32 a = none := by
  rw [Message.load32, Message.load, if_neg (by omega)]
  rfl

end Loads

section Inbound

/-- The buffers of an invocation: inputs inside the message, outputs inside the output message,
behind its argument array and one behind the other. -/
structure Pending.InBounds (p : Pending) (msgLen : Nat) : Prop where
  bi : ∀ b ∈ p.bi, b.2 = 0 ∨ ∃ offset, b.1 = .message offset ∧ offset + b.2 ≤ msgLen
  bo : ∀ r ∈ p.bo, sizeofTIMessage + sizeofTIMessageArg * total p.k ≤ r.1 ∧
    r.1 + r.2 ≤ p.outputMsgLen
  disjoint : p.bo.Pairwise fun r r' => r.1 + r.2 ≤ r'.1

variable {k offset size msgLen outputMsgLen : Nat} {ptr outputMsg : HeapPtr} {msgArgs : Mem}

theorem getTIMessageBuffer_inside {data : BufPtr}
    (h : getTIMessageBuffer offset size k ptr msgLen = some data) :
    size = 0 ∨ data = .message offset ∧ getHeaderLen k ≤ offset ∧ offset + size ≤ msgLen := by
  unfold getTIMessageBuffer at h
  split_ifs at h with hzero hrange hsize
  · exact .inl hzero
  · cases h
    exact .inr ⟨rfl, by omega, by omega⟩

theorem exists_of_mem_forall₂ {α β : Type} {R : α → β → Prop} {as : List α} {bs : List β} {b : β}
    (h : List.Forall₂ R as bs) (hb : b ∈ bs) : ∃ a, R a b := by
  induction h with
  | nil => cases hb
  | cons hR _ ih =>
    rcases List.mem_cons.mp hb with rfl | hb
    · exact ⟨_, hR⟩
    · exact ih hb

theorem inboundMarshalInBuffers_ok {bi : List (BufPtr × Nat)} {bo : List (Nat × Nat)}
    (hlen : getHeaderLen k ≤ outputMsgLen)
    (h : inboundMarshalInBuffers k msgArgs ptr msgLen outputMsg outputMsgLen = .ok (bi, bo)) :
    (∀ b ∈ bi, b.2 = 0 ∨ ∃ offset, b.1 = .message offset ∧ offset + b.2 ≤ msgLen) ∧
      bo = layoutRanges (getHeaderLen k) (sizesBO msgArgs k) ∧
      layoutEnd (getHeaderLen k) (sizesBO msgArgs k) ≤ outputMsgLen := by
  unfold inboundMarshalInBuffers at h
  split_ifs at h with hmax
  have hlt : outputMsgLen < 2 ^ 64 := by
    unfold uint32Max at hmax
    omega
  simp only [allocAll_newBbuf outputMsg hlen hlt] at h
  split at h
  · cases h
  rename_i hbi
  split at h
  · cases h
  rename_i hdsts
  cases h
  obtain ⟨hfit, hdsts⟩ := ite_none_right_eq_some.mp hdsts
  cases hdsts
  refine ⟨fun b hb => ?_, ?_, hfit⟩
  · obtain ⟨i, hi⟩ := exists_of_mem_forall₂ (mapM_eq_some_iff.mp hbi) hb
    obtain ⟨data, hdata, rfl⟩ := map_eq_some_iff.mp hi
    rcases getTIMessageBuffer_inside hdata with hzero | ⟨rfl, -, hend⟩
    · exact .inl hzero
    · exact .inr ⟨_, rfl, hend⟩
  · have hoffsets : ((layoutRanges (getHeaderLen k) (sizesBO msgArgs k)).map
        fun r => outputMsg.addr + r.1).map (· - outputMsg.addr) =
        (layoutRanges (getHeaderLen k) (sizesBO msgArgs k)).map Prod.fst := by
      rw [List.map_map]
      exact List.map_congr_left fun r _ => Nat.add_sub_cancel_left ..
    rw [hoffsets, layoutRanges_eq_zip]

theorem map_eq_ok {α β : Type} {x : Except ObjectError α} {f : α → β} {b : β}
    (h : x.map f = .ok b) : ∃ a, x = .ok a ∧ f a = b := by
  cases x with
  | error e => cases h
  | ok a => exact ⟨a, rfl, Except.ok.inj h⟩

theorem ok_of_toOption {α : Type} {x : Except ObjectError α} {a : α} (h : x.toOption = some a) :
    x = .ok a := by
  cases x with
  | error e => cases h
  | ok b =>
    cases h
    rfl

theorem length_sizesBO (msgArgs : Mem) (k : Nat) : (sizesBO msgArgs k).length = numBO k := by
  simp [sizesBO]

theorem handleInbound_inBounds {msg : Message} (e : Endpoint) (mem : InboundMem)
    (h : sizeofTIMessage ≤ msg.len) : ∃ e' r, handleInbound e mem ptr msg = some (e', r) ∧
      ∀ p, r = .ok (some p) → p.InBounds msg.len := by
  have hheader : 16 ≤ msg.len := h
  unfold handleInbound
  rw [Message.load32_eq (by omega), Message.load32_eq (by omega), Message.load32_eq (by omega)]
  simp only [bind_some]
  generalize word msg.data 12 4 = k
  split_ifs with hlen hmem
  · exact ⟨_, _, rfl, nofun⟩
  · exact ⟨_, _, rfl, nofun⟩
  have hcopy : sizeofTIMessage + min (sizeofTIMessageArg * total k) (msg.len - sizeofTIMessage) ≤
      msg.len := by omega
  rw [Message.load_eq hcopy]
  split
  · exact ⟨_, _, rfl, nofun⟩
  refine ⟨_, _, rfl, fun p hp => ?_⟩
  obtain ⟨oi, -, hp⟩ := map_eq_ok hp
  obtain ⟨target, -, hp⟩ := bind_eq_some_iff.mp hp
  obtain ⟨⟨bi, bo⟩, hbuffers, hp⟩ := bind_eq_some_iff.mp hp
  obtain ⟨oi, -, hp⟩ := bind_eq_some_iff.mp hp
  cases hp
  have hout := getMessageLen_inbound (length_sizesBO (fun a =>
    (read msg.data sizeofTIMessage (min (sizeofTIMessageArg * total k)
      (msg.len - sizeofTIMessage))).getD a 0) k)
  obtain ⟨hbi, rfl, hend⟩ := inboundMarshalInBuffers_ok (by omega) (ok_of_toOption hbuffers)
  refine ⟨hbi, fun r hr => ?_, layoutRanges_pairwise _ _⟩
  obtain ⟨hstart, hr⟩ := layoutRanges_bounds hr
  rw [getHeaderLen_eq] at hstart
  exact ⟨hstart, hr.trans hend⟩

end Inbound

section Response

def Message.Holds (msg : Message) (i n : Nat) : Prop :=
  sizeofTIMessage + sizeofTIMessageArg * i + n ≤ msg.len

instance (msg : Message) (i n : Nat) : Decidable (msg.Holds i n) := inferInstanceAs (Decidable (_ ≤ _))

def Message.Copies (msg : Message) (bytes : List UInt8) (supplied : Nat) : Prop :=
  bytes.length ≤ supplied ∧
    ∃ offset, offset + bytes.length ≤ msg.len ∧ bytes = read msg.data offset bytes.length

variable {msg : Message} {ptr : HeapPtr} {k i : Nat} {bo : List Nat} {e : Endpoint}
  {forwarders : List Bool}

theorem Message.Holds.mono {j n : Nat} (h : msg.Holds j n) (hij : i ≤ j) : msg.Holds i n := by
  unfold Message.Holds sizeofTIMessageArg at *
  omega

theorem Message.loadBuf_eq (h : msg.Holds i 8) : ∃ offset,
    msg.loadBuf i = some (offset, bufSize msg.data sizeofTIMessage i) ∧
      (bufSize msg.data sizeofTIMessage i ≠ 0 → offset = bufOffset msg.data sizeofTIMessage i) := by
  unfold Message.Holds at h
  rw [Message.loadBuf, Message.load32_eq (by omega), bind_some]
  split_ifs with hzero
  · rw [bufSize, hzero]
    exact ⟨0, rfl, absurd rfl⟩
  · rw [Message.load32_eq (by omega)]
    exact ⟨_, rfl, fun _ => rfl⟩

theorem Message.loadBuf_eq_none (h : ¬ msg.Holds i 8) : msg.loadBuf i = none := by
  unfold Message.Holds at h
  rw [Message.loadBuf, Message.load32_eq_none (by omega), bind_none]

theorem Message.loadObj_eq (h : msg.Holds i 4) :
    msg.loadObj i = some (objHandle msg.data sizeofTIMessage i) := by
  rw [Message.loadObj, Message.load32_eq h]
  rfl

theorem Message.loadObj_eq_none (h : ¬ msg.Holds i 4) : msg.loadObj i = none := by
  unfold Message.Holds at h
  rw [Message.loadObj, Message.load32_eq_none (by omega), map_none]

inductive Copied (k : Nat) (ptr : HeapPtr) (msg : Message) :
    Nat → List Nat → List (List UInt8) → Option ObjectError → Prop
  | done (i : Nat) : Copied k ptr msg i [] [] none
  | stop {i supplied : Nat} {bo : List Nat} (err : ObjectError) (h : msg.Holds i 8)
      (hsize : bufSize msg.data sizeofTIMessage i ≠ 0) :
      Copied k ptr msg i (supplied :: bo) [] (some err)
  | empty {i supplied : Nat} {bo : List Nat} {copied : List (List UInt8)}
      {err : Option ObjectError} (h : msg.Holds i 8)
      (hsize : bufSize msg.data sizeofTIMessage i = 0) (hrest : Copied k ptr msg (i + 1) bo copied err) :
      Copied k ptr msg i (supplied :: bo) ([] :: copied) err
  | copy {i supplied : Nat} {bo : List Nat} {bytes : List UInt8} {copied : List (List UInt8)}
      {err : Option ObjectError} (h : msg.Holds i 8)
      (hsize : bufSize msg.data sizeofTIMessage i ≠ 0) (hlen : getHeaderLen k ≤ msg.len)
      (hbytes : msg.Copies bytes supplied) (hrest : Copied k ptr msg (i + 1) bo copied err) :
      Copied k ptr msg i (supplied :: bo) (bytes :: copied) err

variable {copied : List (List UInt8)} {err : Option ObjectError}

theorem Message.copies_load {offset size supplied : Nat} (h : offset + size ≤ msg.len)
    (hle : ¬ size > supplied) :
    ∃ bytes, msg.load offset (min supplied size) = some bytes ∧ msg.Copies bytes supplied := by
  have hmin : min supplied size = size := by omega
  rw [hmin, Message.load_eq h]
  refine ⟨_, rfl, ?_, offset, ?_⟩
  · rw [length_read]
    omega
  · rw [length_read]
    exact ⟨h, rfl⟩

variable (ptr k bo) in
theorem outboundMarshalOutBuffers_cons (h : msg.Holds i 8) (supplied : Nat) :
    (∃ err, outboundMarshalOutBuffers k ptr msg i (supplied :: bo) = some ([], some err) ∧
      bufSize msg.data sizeofTIMessage i ≠ 0) ∨
    ∃ bytes, outboundMarshalOutBuffers k ptr msg i (supplied :: bo) =
        (outboundMarshalOutBuffers k ptr msg (i + 1) bo).map (fun r => (bytes :: r.1, r.2)) ∧
      (bufSize msg.data sizeofTIMessage i = 0 ∧ bytes = [] ∨
        bufSize msg.data sizeofTIMessage i ≠ 0 ∧ getHeaderLen k ≤ msg.len ∧
          msg.Copies bytes supplied) := by
  obtain ⟨offset, hload, -⟩ := Message.loadBuf_eq h
  rw [outboundMarshalOutBuffers, hload, bind_some]
  generalize bufSize msg.data sizeofTIMessage i = size
  by_cases hzero : size = 0
  · subst hzero
    right
    refine ⟨[], ?_, .inl ⟨rfl, rfl⟩⟩
    simp [getTIMessageBuffer]
  · simp only
    cases hdata : getTIMessageBuffer offset size k ptr msg.len with
    | none => exact .inl ⟨_, rfl, hzero⟩
    | some data =>
      obtain ⟨rfl, hheader, hend⟩ := (getTIMessageBuffer_inside hdata).resolve_left hzero
      simp only
      by_cases hsupplied : size > supplied
      · rw [if_pos hsupplied]
        exact .inl ⟨_, rfl, hzero⟩
      · obtain ⟨bytes, hbytes, hcopies⟩ := Message.copies_load hend hsupplied
        rw [if_neg hsupplied, hbytes]
        exact .inr ⟨bytes, rfl, .inr ⟨hzero, by omega, hcopies⟩⟩

theorem copied_of_some (h : outboundMarshalOutBuffers k ptr msg i bo = some (copied, err)) :
    Copied k ptr msg i bo copied err := by
  induction bo generalizing i copied err with
  | nil =>
    cases h
    exact .done i
  | cons supplied bo ih =>
    by_cases hholds : msg.Holds i 8
    swap
    · rw [outboundMarshalOutBuffers, Message.loadBuf_eq_none hholds] at h
      cases h
    rcases outboundMarshalOutBuffers_cons ptr k bo hholds supplied with
      ⟨err', hstop, hsize⟩ | ⟨bytes, hcons, hcase⟩
    · cases h.symm.trans hstop
      exact .stop _ hholds hsize
    obtain ⟨⟨rest, err'⟩, hrest, heq⟩ := map_eq_some_iff.mp (hcons.symm.trans h)
    cases heq
    rcases hcase with ⟨hsize, rfl⟩ | ⟨hsize, hlen, hcopies⟩
    · exact .empty hholds hsize (ih hrest)
    · exact .copy hholds hsize hlen hcopies (ih hrest)

theorem Copied.forall₂ (h : Copied k ptr msg i bo copied err) :
    List.Forall₂ msg.Copies copied (bo.take copied.length) := by
  induction h with
  | done i | stop err h hsize => exact .nil
  | empty h hsize _ ih => exact .cons ⟨Nat.zero_le _, 0, Nat.zero_le _, rfl⟩ ih
  | copy h hsize hlen hbytes _ ih => exact .cons hbytes ih

theorem Copied.exists_of_error {err : ObjectError} (h : Copied k ptr msg i bo copied (some err)) :
    ∃ j < bo.length, msg.Holds (i + j) 8 ∧ bufSize msg.data sizeofTIMessage (i + j) ≠ 0 := by
  generalize hsome : some err = err' at h
  induction h with
  | done i => cases hsome
  | stop err h hsize => exact ⟨0, by simp, h, hsize⟩
  | empty h hsize _ ih =>
    obtain ⟨j, hj, hholds⟩ := ih hsome
    exact ⟨j + 1, by simpa using hj, by rwa [← Nat.add_assoc, Nat.add_right_comm]⟩
  | copy h hsize hlen hbytes _ ih => exact ⟨0, by simp, h, hsize⟩

theorem Copied.holds_of_none (h : Copied k ptr msg i bo copied none) :
    (∀ j < bo.length, msg.Holds (i + j) 8) ∧
      ((∃ j < bo.length, bufSize msg.data sizeofTIMessage (i + j) ≠ 0) →
        getHeaderLen k ≤ msg.len) := by
  generalize hnone : none = err at h
  induction h with
  | done i => exact ⟨nofun, fun ⟨j, hj, _⟩ => absurd hj (Nat.not_lt_zero j)⟩
  | stop err h hsize => cases hnone
  | @empty i supplied bo copied err h hsize _ ih =>
    obtain ⟨hholds, hlen⟩ := ih hnone
    refine ⟨fun j hj => ?_, fun ⟨j, hj, hne⟩ => ?_⟩
    · cases j with
      | zero => exact h
      | succ j => simpa [Nat.add_right_comm, Nat.add_assoc] using hholds j (by simpa using hj)
    · cases j with
      | zero => exact absurd hsize hne
      | succ j =>
        refine hlen ⟨j, by simpa using hj, ?_⟩
        rwa [Nat.add_right_comm, Nat.add_assoc]
  | @copy i supplied bo bytes copied err h hsize hlen _ _ ih =>
    obtain ⟨hholds, -⟩ := ih hnone
    refine ⟨fun j hj => ?_, fun _ => hlen⟩
    cases j with
    | zero => exact h
    | succ j => simpa [Nat.add_right_comm, Nat.add_assoc] using hholds j (by simpa using hj)

theorem holds_of_headerLen (h : getHeaderLen k ≤ msg.len) {j n : Nat} (hj : j < total k)
    (hn : n ≤ 8) : msg.Holds j n := by
  rw [getHeaderLen_eq] at h
  unfold Message.Holds sizeofTIMessage sizeofTIMessageArg
  omega

variable (msg ptr) in
theorem outboundMarshalOutBuffers_isSome_iff (h : i + bo.length ≤ total k) :
    (∃ r, outboundMarshalOutBuffers k ptr msg i bo = some r) ↔
      (∃ j < bo.length, msg.Holds (i + j) 8 ∧ bufSize msg.data sizeofTIMessage (i + j) ≠ 0) ∨
        ∀ j < bo.length, msg.Holds (i + j) 8 := by
  constructor
  · rintro ⟨⟨copied, err⟩, hr⟩
    cases err with
    | some err => exact .inl (copied_of_some hr).exists_of_error
    | none => exact .inr (copied_of_some hr).holds_of_none.1
  · intro hcov
    induction bo generalizing i with
    | nil => exact ⟨_, rfl⟩
    | cons supplied bo ih =>
      rw [List.length_cons] at h hcov
      have hfirst : msg.Holds i 8 := by
        rcases hcov with ⟨j, -, hj, -⟩ | hall
        · exact hj.mono (Nat.le_add_right i j)
        · exact hall 0 (Nat.succ_pos _)
      rcases outboundMarshalOutBuffers_cons ptr k bo hfirst supplied with
        ⟨err, hstop, -⟩ | ⟨bytes, hcons, hcase⟩
      · exact ⟨_, hstop⟩
      have hrest : ∃ r, outboundMarshalOutBuffers k ptr msg (i + 1) bo = some r := by
        refine ih (by omega) ?_
        rcases hcase with ⟨hzero, -⟩ | ⟨-, hlen, -⟩
        · rcases hcov with ⟨j, hj, hholds, hne⟩ | hall
          · cases j with
            | zero => exact absurd hzero hne
            | succ j =>
              rw [← Nat.add_assoc, Nat.add_right_comm] at hholds hne
              exact .inl ⟨j, by omega, hholds, hne⟩
          · refine .inr fun j hj => ?_
            have hj' := hall (j + 1) (by omega)
            rwa [← Nat.add_assoc, Nat.add_right_comm] at hj'
        · exact .inr fun j hj => holds_of_headerLen hlen (by omega) (Nat.le_refl _)
      obtain ⟨r, hr⟩ := hrest
      exact ⟨_, by rw [hcons, hr, map_some]⟩

theorem copyObjectFromRemote_ok {arg : TIMessageObj × Bool} {e' : Endpoint} {o : Object}
    (h : e.copyObjectFromRemote arg = .ok (e', o)) :
    e'.objTable = e.objTable ∧ Copyable e.objTable arg := by
  unfold Endpoint.copyObjectFromRemote at h
  unfold Copyable
  split_ifs at h with hnull hremote hmem
  · cases h
    exact ⟨rfl, .inl hnull⟩
  · cases h
    exact ⟨rfl, .inr (by rwa [if_pos hremote])⟩
  · rw [if_neg hremote]
    split at h
    · cases h
    · rename_i hrecover
      cases h
      exact ⟨rfl, .inr (by rw [hrecover]; rfl)⟩

variable (msg i e forwarders) in
theorem outboundMarshalOutObjects_isSome_iff :
    (∃ r, outboundMarshalOutObjects msg e i forwarders = some r) ↔
      (∀ j < forwarders.length, msg.Holds (i + j) 4) ∨
        ∃ j f, forwarders[j]? = some f ∧ msg.Holds (i + j) 4 ∧
          ¬ Copyable e.objTable (objHandle msg.data sizeofTIMessage (i + j), f) := by
  induction forwarders generalizing e i with
  | nil => exact iff_of_true ⟨_, rfl⟩ (.inl nofun)
  | cons f fs ih =>
    by_cases hholds : msg.Holds i 4
    swap
    · rw [outboundMarshalOutObjects, Message.loadObj_eq_none hholds]
      refine iff_of_false nofun ?_
      rintro (hall | ⟨j, f', -, hj, -⟩)
      · exact hholds (hall 0 (Nat.succ_pos _))
      · exact hholds (hj.mono (Nat.le_add_right i j))
    rw [outboundMarshalOutObjects, Message.loadObj_eq hholds, bind_some]
    cases hcopy : e.copyObjectFromRemote (objHandle msg.data sizeofTIMessage i, f) with
    | error err =>
      refine iff_of_true ⟨_, rfl⟩ (.inr ⟨0, f, rfl, hholds, ?_⟩)
      exact Endpoint.not_copyable_of_error hcopy
    | ok r =>
      obtain ⟨e', o⟩ := r
      obtain ⟨htable, hcopyable⟩ := copyObjectFromRemote_ok hcopy
      have hshift : ∀ j, i + 1 + j = i + (j + 1) := fun j => by omega
      have hrest := ih (e := e') (i := i + 1)
      rw [htable] at hrest
      simp only [hshift] at hrest
      simp only [map_eq_some_iff]
      constructor
      · rintro ⟨r, r', hr, -⟩
        rcases hrest.mp ⟨r', hr⟩ with hall | ⟨j, f', hf', hj⟩
        · left
          intro j hj
          cases j with
          | zero => exact hholds
          | succ j => exact hall j (by simpa using hj)
        · exact .inr ⟨j + 1, f', hf', hj⟩
      · intro hcov
        have hcov' : ∃ r, outboundMarshalOutObjects msg e' (i + 1) fs = some r := by
          refine hrest.mpr ?_
          rcases hcov with hall | ⟨j, f', hf', hj, hnot⟩
          · exact .inl fun j hj => hall (j + 1) (by simpa using hj)
          cases j with
          | zero =>
            obtain rfl : f = f' := by simpa using hf'
            exact absurd hcopyable hnot
          | succ j => exact .inr ⟨j, f', hf', hj, hnot⟩
        obtain ⟨r, hr⟩ := hcov'
        exact ⟨_, r, hr, rfl⟩

/-- What keeps the caller inside the response: an error, an output buffer in the message that is
not empty, or output buffers and output objects that are all in it, or buffers that are and an
object that is and cannot be taken in. -/
def Covered (e : Endpoint) (msg : Message) (k : Nat) (forwarders : List Bool) : Prop :=
  word msg.data 0 4 ≠ 0 ∨ (∃ j < numBO k, msg.Holds (indexBO k + j) 8 ∧
      bufSize msg.data sizeofTIMessage (indexBO k + j) ≠ 0) ∨
    (∀ j < numBO k, msg.Holds (indexBO k + j) 8) ∧ ((∀ j < numOO k, msg.Holds (indexOO k + j) 4) ∨
        ∃ j f, forwarders[j]? = some f ∧ msg.Holds (indexOO k + j) 4 ∧
          ¬ Copyable e.objTable (objHandle msg.data sizeofTIMessage (indexOO k + j), f))

theorem processResponse_isSome_iff (hmsg : sizeofTIMessage ≤ msg.len) (hbo : bo.length = numBO k)
    (hoo : forwarders.length = numOO k) :
    (∃ r, processResponse e ptr msg k bo forwarders = some r) ↔ Covered e msg k forwarders := by
  have hheader : 16 ≤ msg.len := hmsg
  have hindex : indexBO k + bo.length ≤ total k := by
    unfold indexBO total
    omega
  have hbuffers := outboundMarshalOutBuffers_isSome_iff msg ptr hindex
  have hobjects := outboundMarshalOutObjects_isSome_iff msg (indexOO k) e forwarders
  rw [hbo] at hbuffers
  rw [hoo] at hobjects
  unfold processResponse Covered
  rw [Message.load32_eq (by omega), bind_some]
  split_ifs with hresult
  · exact iff_of_true ⟨_, rfl⟩ (.inl hresult)
  rw [or_iff_right hresult]
  cases hloop : outboundMarshalOutBuffers k ptr msg (indexBO k) bo with
  | none =>
    have hnone : ¬ ∃ r, outboundMarshalOutBuffers k ptr msg (indexBO k) bo = some r := by
      simp [hloop]
    rw [hbuffers, not_or] at hnone
    refine iff_of_false nofun ?_
    rintro (hsome | ⟨hall, -⟩)
    · exact hnone.1 hsome
    · exact hnone.2 hall
  | some r =>
    obtain ⟨copied, err⟩ := r
    have hcopied := copied_of_some hloop
    rw [bind_some]
    cases err with
    | some err =>
      have hexists := hcopied.exists_of_error
      rw [hbo] at hexists
      exact iff_of_true ⟨_, rfl⟩ (.inl hexists)
    | none =>
      obtain ⟨hall, hlen⟩ := hcopied.holds_of_none
      rw [hbo] at hall hlen
      simp only [map_eq_some_iff]
      constructor
      · rintro ⟨r, r', hr, -⟩
        exact .inr ⟨hall, hobjects.mp ⟨r', hr⟩⟩
      · intro hcov
        have hsome : ∃ r, outboundMarshalOutObjects msg e (indexOO k) forwarders = some r := by
          refine hobjects.mpr ?_
          rcases hcov with ⟨j, hj, -, hne⟩ | ⟨-, hcov⟩
          · refine .inl fun j' hj' => holds_of_headerLen (hlen ⟨j, hj, hne⟩) ?_ (by decide)
            unfold indexOO indexOI total
            omega
          · exact hcov
        obtain ⟨r, hr⟩ := hsome
        exact ⟨_, r, hr, rfl⟩

theorem processResponse_copies {e' : Endpoint} {r : Except ObjectError (List Object)}
    (h : processResponse e ptr msg k bo forwarders = some (e', copied, r)) :
    List.Forall₂ msg.Copies copied (bo.take copied.length) := by
  obtain ⟨result, -, h⟩ := bind_eq_some_iff.mp h
  split_ifs at h with hresult
  · cases h
    exact .nil
  obtain ⟨⟨copied', err⟩, hloop, h⟩ := bind_eq_some_iff.mp h
  have hcopies := (copied_of_some hloop).forall₂
  cases err with
  | some err =>
    cases h
    exact hcopies
  | none =>
    obtain ⟨⟨e'', os, err⟩, -, h⟩ := map_eq_some_iff.mp h
    cases err <;> cases h <;> exact hcopies

end Response

/-- Both parsers stay inside the message, and so do the buffers that they hand on, exactly if the
message covers what is read of it as a response. -/
theorem parsing_bounds_iff {msg : Message} {k : Nat} {bo : List Nat} {forwarders : List Bool}
    (e : Endpoint) (mem : InboundMem) (ptr : HeapPtr) (hmsg : sizeofTIMessage ≤ msg.len)
    (hbo : bo.length = numBO k) (hoo : forwarders.length = numOO k) :
    ((∃ e' r, handleInbound e mem ptr msg = some (e', r) ∧
        ∀ p, r = .ok (some p) → p.InBounds msg.len) ∧
      ∃ e' copied r, processResponse e ptr msg k bo forwarders = some (e', copied, r) ∧
        List.Forall₂ msg.Copies copied (bo.take copied.length)) ↔
      Covered e msg k forwarders := by
  rw [and_iff_right (handleInbound_inBounds e mem hmsg), ← processResponse_isSome_iff hmsg hbo hoo]
  constructor
  · rintro ⟨e', copied, r, hr, -⟩
    exact ⟨_, hr⟩
  · rintro ⟨⟨e', copied, r⟩, hr⟩
    exact ⟨e', copied, r, hr, processResponse_copies hr⟩

section Samples

def oneSlot : Endpoint := ⟨ObjectTable.construct 1 (by decide), [], []⟩

def bareResponse (len : Nat) : Message := ⟨fun _ => 0, len⟩

def block : HeapPtr := ⟨64, rfl⟩

def oneBO : Nat := 16

def dataResponse : Message := ⟨write (fun _ => 0) 16 (le 4 24 ++ le 4 4 ++ [1, 2, 3, 4]), 28⟩

theorem parsing_bounds_iff_sample :
    ((∃ e' r, handleInbound oneSlot ⟨true, some block, fun _ => true⟩ block dataResponse =
          some (e', r) ∧ ∀ p, r = .ok (some p) → p.InBounds 28) ∧
      ∃ e' copied r, processResponse oneSlot block dataResponse oneBO [8] [] = some (e', copied, r) ∧
        List.Forall₂ dataResponse.Copies copied ([8].take copied.length)) ∧
    (processResponse oneSlot block dataResponse oneBO [8] []).map (·.2.1) = some [[1, 2, 3, 4]] := by
  have hcovered : Covered oneSlot dataResponse oneBO [] :=
    .inr (.inl ⟨0, by decide, by decide, by decide⟩)
  exact ⟨(parsing_bounds_iff oneSlot ⟨true, some block, fun _ => true⟩ block (by decide) rfl rfl).mpr
    hcovered, by decide⟩

/-- The handler refuses a message shorter than its argument array; the caller reads the argument of
its output buffer behind a response of 16 bytes. -/
theorem response_read_outside : sizeofTIMessage ≤ (bareResponse 16).len ∧
      processResponse oneSlot block (bareResponse 16) oneBO [8] [] = none :=
  ⟨by decide, rfl⟩

end Samples

end MinkIpc.TunnelInvoke
