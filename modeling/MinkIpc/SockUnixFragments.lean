import MinkIpc.SockUnix

/-! Messages that reach a UNIX socket in several pieces. The bytes come together whatever the pieces
are; the descriptors do not. -/

namespace MinkIpc.SockUnix

open Bytes List

def bytesOf (ps : List Piece) : List UInt8 := ps.flatMap Piece.bytes

def numFdsOf (ps : List Piece) : Nat := (ps.map Piece.numFds).sum

def counts : Nat → List Piece → List Nat
  | _, [] => []
  | n, p :: ps => if n = 0 then [] else p.numFds :: counts (n - p.bytes.length) ps

def leftover : Nat → List Piece → List Piece
  | _, [] => []
  | n, p :: ps =>
    if n = 0 then p :: ps
    else if h : n < p.bytes.length then p.rest n h :: ps
    else leftover (n - p.bytes.length) ps

def firstFds : List Piece → Nat
  | [] => 0
  | p :: _ => p.numFds

/-- A reception that brings no descriptor or is one piece. -/
def Single (cs : List Nat) : Prop := cs.sum = 0 ∨ cs.length ≤ 1

instance (cs : List Nat) : Decidable (Single cs) := inferInstanceAs (Decidable (_ ∨ _))

def Spoiled (a : List Int) : Prop := ∃ m i, controlFill m i ∈ a

theorem length_controlData {m n : Nat} {msgFds : List Int} (h : msgFds.length ≤ n) :
    (controlData m msgFds n).length = n := by
  simp only [controlData, length_append, length_map, length_range']
  omega

theorem controlData_self (m : Nat) (msgFds : List Int) :
    controlData m msgFds msgFds.length = msgFds := by
  simp [controlData]

theorem spoiled_controlData {m n : Nat} {msgFds : List Int} (h : msgFds.length < n) :
    Spoiled (controlData m msgFds n) := by
  refine ⟨m, msgFds.length, mem_append_right _ (mem_map_of_mem ?_)⟩
  exact mem_range'_1.mpr ⟨Nat.le_refl _, by omega⟩

theorem headD_counts {n : Nat} (hn : n ≠ 0) (ps : List Piece) :
    (counts n ps).headD 0 = firstFds ps := by
  cases ps <;> simp [counts, firstFds, hn]

theorem numFdsOf_leftover (n : Nat) (ps : List Piece) :
    (counts n ps).sum + numFdsOf (leftover n ps) = numFdsOf ps := by
  induction ps generalizing n with
  | nil => rfl
  | cons p ps ih =>
    unfold counts leftover
    by_cases hn : n = 0
    · simp [hn]
    rw [if_neg hn, if_neg hn]
    by_cases hrest : n < p.bytes.length
    · have hzero : counts (n - p.bytes.length) ps = [] := by
        rw [Nat.sub_eq_zero_of_le (Nat.le_of_lt hrest)]
        cases ps <;> rfl
      simp [hrest, hzero, numFdsOf, Piece.rest]
    · have hrec := ih (n - p.bytes.length)
      simp only [dif_neg hrest, sum_cons, numFdsOf, map_cons] at hrec ⊢
      omega

section Reception

variable {capacity numFdsMax : Nat} {st : RecvState} {p : Piece} {ps : List Piece}

structure Roomy (fds : List Int) (st : RecvState) : Prop where
  supply : st.stream.fds.length = numFdsOf st.stream.pieces
  room : st.fdCount + numFdsOf st.stream.pieces ≤ fds.length
  order : st.stream.fds <:+ fds
  closed : st.closed = []
  received : st.received ⊆ fds

variable {fds : List Int}

theorem length_delivered_le : (st.delivered p).length ≤ p.numFds := by
  unfold RecvState.delivered
  rw [length_take, length_take]
  omega

theorem Roomy.not_tooMany (h : Roomy fds st) (hmax : fds.length ≤ numFdsMax)
    (hpieces : st.stream.pieces = p :: ps) : ¬ numFdsMax < st.fdCount + (st.delivered p).length := by
  have hroom := h.room
  have hle : (st.delivered p).length ≤ p.numFds := length_delivered_le
  rw [hpieces, numFdsOf, map_cons, sum_cons] at hroom
  omega

theorem numFdsOf_takePiece (msgFds : List Int) :
    numFdsOf ((st.takePiece p msgFds ps).stream.pieces) = numFdsOf ps := by
  unfold RecvState.takePiece numFdsOf
  by_cases h : st.len < p.bytes.length
  · simp [h, Piece.rest]
  · simp [h]

theorem Roomy.next (h : Roomy fds st) (hpieces : st.stream.pieces = p :: ps) :
    Roomy fds (st.next capacity numFdsMax p ps) := by
  have hsum : numFdsOf st.stream.pieces = p.numFds + numFdsOf ps := by simp [hpieces, numFdsOf]
  have hsupply := h.supply
  have hroom := h.room
  have hle : (st.delivered p).length ≤ p.numFds := length_delivered_le
  have hleft : numFdsOf (st.next capacity numFdsMax p ps).stream.pieces = numFdsOf ps := by
    rw [RecvState.next_stream, numFdsOf_takePiece]
  have hfds : (st.next capacity numFdsMax p ps).stream.fds = st.stream.fds.drop p.numFds := by
    rw [RecvState.next_stream]
    rfl
  refine ⟨?_, ?_, ?_, ?_, ?_⟩
  · rw [hfds, length_drop]
    omega
  · rw [RecvState.next_fdCount]
    omega
  · rw [hfds]
    exact (drop_suffix _ _).trans h.order
  · rw [RecvState.next_closed, h.closed]
  · rw [RecvState.next_received]
    refine append_subset.mpr ⟨h.received, fun fd hfd => ?_⟩
    exact h.order.subset (mem_of_mem_take (mem_of_mem_take hfd))

/-- The first piece has brought no descriptor, which leaves no control data for those of others. -/
structure Starved (st : RecvState) : Prop where
  controlLen : st.controlLen = 0
  fdCount : st.fdCount = 0
  received : st.received = []

/-- The first piece, after which the state was `first`, has brought descriptors: those that come
with another one take their places. -/
structure Busy (first st : RecvState) : Prop where
  fdCount : 0 < st.fdCount
  received : st.received ≠ []
  array : st = first ∨ Spoiled (st.fds.take st.fdCount)

theorem next_fds_take : (st.next capacity numFdsMax p ps).fds.take
      (st.next capacity numFdsMax p ps).fdCount =
    controlData numFdsMax (st.delivered p) (st.fdCount + (st.delivered p).length) := by
  rw [RecvState.next_fds, RecvState.next_fdCount]
  exact take_left' (length_controlData (by omega))

theorem Starved.next (h : Starved st) : Starved (st.next capacity numFdsMax p ps) := by
  have hnone : st.delivered p = [] := by simp [RecvState.delivered, h.controlLen]
  exact ⟨by simp [hnone, controlUsed], by simp [hnone, h.fdCount], by simp [hnone, h.received]⟩

theorem Busy.next {first : RecvState} (h : Busy first st) :
    Busy first (st.next capacity numFdsMax p ps) := by
  have hpos := h.fdCount
  refine ⟨by rw [RecvState.next_fdCount]; omega, ?_, .inr ?_⟩
  · rw [RecvState.next_received]
    exact append_ne_nil_of_left_ne_nil h.received _
  · rw [next_fds_take]
    exact spoiled_controlData (by omega)

variable {buf : Mem} {base size : Nat} {array : List Int} {stream : Stream} {r : Option Nat}

section Start

variable (hst : st = .start buf base size array stream)
  (hmax : stream.fds.length ≤ objectCountsMaxOI)
include hst hmax

theorem delivered_start : st.delivered p = stream.fds.take p.numFds := by
  subst hst
  have hcontrol : ((RecvState.start buf base size array stream).controlLen - sizeofCmsghdr) / 4 =
      objectCountsMaxOI := by simp [RecvState.start]
  rw [RecvState.delivered, hcontrol]
  exact take_of_length_le ((length_take_le' _ _).trans hmax)

theorem next_start_fds_take : (st.next capacity numFdsMax p ps).fds.take
    (st.next capacity numFdsMax p ps).fdCount = stream.fds.take p.numFds := by
  rw [next_fds_take, delivered_start hst hmax, show st.fdCount = 0 from hst ▸ rfl, Nat.zero_add,
    controlData_self]

theorem next_start_received :
    (st.next capacity numFdsMax p ps).received = stream.fds.take p.numFds := by
  rw [RecvState.next_received, delivered_start hst hmax, hst]
  rfl

end Start

structure Fits (numFdsMax : Nat) (stream : Stream) : Prop where
  supply : stream.fds.length = numFdsOf stream.pieces
  space : stream.fds.length ≤ numFdsMax
  control : stream.fds.length ≤ objectCountsMaxOI

theorem Fits.roomy (h : Fits numFdsMax stream) :
    Roomy stream.fds (.start buf base size array stream) :=
  ⟨h.supply, by simp [RecvState.start, ← h.supply], suffix_rfl, rfl, nil_subset _⟩

theorem Fits.onward (h : Fits numFdsMax stream) (hst : st = .start buf base size array stream)
    (hpieces : stream.pieces = p :: ps) :
    if p.numFds = 0 then Starved (st.next capacity numFdsMax p ps)
    else Busy (st.next capacity numFdsMax p ps) (st.next capacity numFdsMax p ps) := by
  have hdelivered := delivered_start (p := p) hst h.control
  split_ifs with hnone
  · rw [hnone, take_zero] at hdelivered
    exact ⟨by simp [hdelivered, controlUsed], by rw [RecvState.next_fdCount, hdelivered, hst]; rfl,
      by rw [RecvState.next_received, hdelivered, hst]; rfl⟩
  · have hpos : 0 < (stream.fds.take p.numFds).length := by
      have hsupply := h.supply
      rw [hpieces, numFdsOf, map_cons, sum_cons] at hsupply
      rw [length_take]
      omega
    refine ⟨by rw [RecvState.next_fdCount, hdelivered]; omega, ?_, .inl rfl⟩
    rw [next_start_received hst h.control]
    exact length_pos_iff.mp hpos

theorem recvMsgLoop_onward (h : Fits numFdsMax stream) (hsize : size ≠ 0)
    (hst : st = .start buf base size array stream) (hpieces : stream.pieces = p :: ps) :
    ∃ st', Roomy stream.fds st' ∧
      (if p.numFds = 0 then Starved st' else Busy (st.next capacity numFdsMax p ps) st') ∧
      Ends capacity numFdsMax st' (recvMsgLoop capacity numFdsMax stream.pieces st) := by
  have hroom : Roomy stream.fds st := hst ▸ h.roomy
  have hpieces' : st.stream.pieces = p :: ps := hst ▸ hpieces
  rw [hpieces, recvMsgLoop_cons (hst ▸ hsize), if_neg (hroom.not_tooMany h.space hpieces')]
  obtain ⟨st', ⟨hroom', honward⟩, hends⟩ := @recvMsgLoop_ends capacity numFdsMax _ ps
    (fun st' => Roomy stream.fds st' ∧ if p.numFds = 0 then Starved st' else
      Busy (st.next capacity numFdsMax p ps) st')
    (fun st q qs _ hqs _ hI => ⟨hI.1.next hqs, by
      have honward := hI.2
      split_ifs at honward ⊢
      · exact honward.next
      · exact honward.next⟩)
    ⟨hroom.next hpieces', h.onward hst hpieces⟩ (next_pieces capacity numFdsMax p ps _)
  exact ⟨st', hroom', honward, hends⟩

/-- What comes to the process of the descriptors `fds` of the pieces `ps`. -/
structure Taken (ps : List Piece) (fds received : List Int) : Prop where
  subset : received ⊆ fds
  none : received = [] ↔ firstFds ps = 0

theorem recvMsg_taken (hfits : Fits numFdsMax stream) (hsize : size ≠ 0)
    (h : recvMsg capacity buf base size array numFdsMax stream = (st, r)) :
    Taken stream.pieces stream.fds st.received := by
  unfold recvMsg at h
  rcases hps : stream.pieces with _ | ⟨p, ps⟩
  · rw [hps, recvMsgLoop, if_neg (show (RecvState.start buf base size array stream).len ≠ 0 from hsize)]
      at h
    cases h
    exact ⟨nil_subset _, iff_of_true rfl rfl⟩
  obtain ⟨st', hroom, honward, hends⟩ := recvMsgLoop_onward hfits hsize rfl hps
  have htaken : Taken (p :: ps) stream.fds st'.received := by
    refine ⟨hroom.received, ?_⟩
    show st'.received = [] ↔ p.numFds = 0
    split_ifs at honward with hnone
    · exact iff_of_true honward.received hnone
    · exact iff_of_false honward.received hnone
  generalize hloop : recvMsgLoop capacity numFdsMax stream.pieces _ = result at h hends
  cases hends with
  | full hlen | failed hlen hpieces =>
    cases h
    exact htaken
  | tooMany hlen hpieces hmany => exact absurd hmany (hroom.not_tooMany hfits.space hpieces)

/-- What the array of the caller holds, and what came to the process, after a reception whose pieces
had `cs` of the descriptors `fds`. -/
inductive Copied (cs : List Nat) (fds : List Int) : List Int → List Int → Prop
  | whole (hone : cs.length ≤ 1) : Copied cs fds (fds.take cs.sum) (fds.take cs.sum)
  | none (hfirst : cs.headD 0 = 0) : Copied cs fds [] []
  | spoiled {a received : List Int} (hmore : 1 < cs.length) (hfirst : cs.headD 0 ≠ 0)
      (hlength : a.length ≤ cs.sum) (hspoiled : Spoiled a) : Copied cs fds a received

theorem recvMsgLoop_leftover {st' : RecvState}
    (h : recvMsgLoop capacity numFdsMax ps st = (st', true)) (hshort : st.len < 2 ^ 63)
    (hpieces : st.stream.pieces = ps) :
    st'.stream.pieces = leftover st.len ps := by
  induction ps generalizing st with
  | nil =>
    by_cases hlen : st.len = 0
    · rw [recvMsgLoop_of_len_eq_zero hlen] at h
      cases h
      exact hpieces
    · rw [recvMsgLoop, if_neg hlen] at h
      cases h
  | cons p ps ih =>
    by_cases hlen : st.len = 0
    · rw [recvMsgLoop_of_len_eq_zero hlen] at h
      cases h
      rw [leftover, if_pos hlen, hpieces]
    rw [recvMsgLoop_cons hlen] at h
    split_ifs at h with hmany
    · cases h
    have hnextLen : (st.next capacity numFdsMax p ps).len = st.len - p.bytes.length := by
      rw [(RecvState.next_of_lt capacity numFdsMax p ps hshort).2, length_take]
      omega
    have hnext : (st.next capacity numFdsMax p ps).stream.pieces =
        if hrest : st.len < p.bytes.length then p.rest st.len hrest :: ps else ps := by
      rw [RecvState.next_stream]
      rfl
    rw [leftover, if_neg hlen]
    by_cases hrest : st.len < p.bytes.length
    · rw [recvMsgLoop_of_len_eq_zero (by omega)] at h
      cases h
      rw [hnext, dif_pos hrest, dif_pos hrest]
    · rw [dif_neg hrest] at hnext ⊢
      rw [← hnextLen]
      exact ih h (by omega) hnext

theorem eq_of_counts_eq_nil {st' : RecvState}
    (h : recvMsgLoop capacity numFdsMax ps st = (st', true)) (hnil : counts st.len ps = []) :
    st' = st := by
  by_cases hlen : st.len = 0
  · rw [recvMsgLoop_of_len_eq_zero hlen] at h
    cases h
    rfl
  cases ps with
  | nil =>
    rw [recvMsgLoop, if_neg hlen] at h
    cases h
  | cons p ps => simp [counts, hlen] at hnil

theorem copied_of_loop (hfits : Fits numFdsMax stream) (hsize : size < 2 ^ 63)
    (h : recvMsgLoop capacity numFdsMax stream.pieces (.start buf base size array stream) =
      (st, true)) (hcount : st.fdCount ≤ (counts size stream.pieces).sum) :
    Copied (counts size stream.pieces) stream.fds (st.fds.take st.fdCount) st.received := by
  by_cases hnil : counts size stream.pieces = []
  · rw [hnil, eq_of_counts_eq_nil h hnil]
    exact .none rfl
  rcases hps : stream.pieces with _ | ⟨p, ps⟩
  · exact absurd (by rw [hps]; rfl) hnil
  have hzero : size ≠ 0 := by
    rintro rfl
    exact hnil (by rw [hps]; rfl)
  have hcounts : counts size (p :: ps) = p.numFds :: counts (size - p.bytes.length) ps := by
    rw [counts, if_neg hzero]
  have hlen : ((RecvState.start buf base size array stream).next capacity numFdsMax p ps).len =
      size - p.bytes.length := by
    rw [(RecvState.next_of_lt capacity numFdsMax p ps hsize).2, length_take]
    show size - min size p.bytes.length = _
    omega
  obtain ⟨st', hroom, honward, hends⟩ := recvMsgLoop_onward hfits hzero rfl hps
  rw [h] at hends
  rw [hps] at h hcount
  rw [hcounts] at hcount ⊢
  by_cases htail : counts (size - p.bytes.length) ps = []
  · -- one piece: the state after it is the last one
    rw [recvMsgLoop_cons hzero, if_neg (hfits.roomy.not_tooMany hfits.space hps)] at h
    rw [eq_of_counts_eq_nil h (by rw [hlen, htail]), next_start_fds_take rfl hfits.control,
      next_start_received rfl hfits.control, htail]
    exact .whole (Nat.le_refl 1)
  cases hends with
  | full hend =>
    split_ifs at honward with hnone
    · rw [honward.fdCount, honward.received]
      exact .none hnone
    · refine .spoiled ?_ hnone ((length_take_le _ _).trans hcount) (honward.array.resolve_left ?_)
      · exact Nat.succ_lt_succ (length_pos_iff.mpr htail)
      · rintro rfl
        rw [hlen] at hend
        rw [hend] at htail
        exact htail (by cases ps <;> rfl)

theorem recvMsg_pieces (hfits : Fits numFdsMax stream) (hsize : size < 2 ^ 63)
    (h : recvMsg capacity buf base size array numFdsMax stream = (st, r)) :
    st.closed = [] ∧
      if size ≤ stream.bytes.length then
        ∃ n, r = some n ∧ n ≤ (counts size stream.pieces).sum ∧
        st.stream = ⟨leftover size stream.pieces, stream.fds.drop (counts size stream.pieces).sum⟩ ∧
        Copied (counts size stream.pieces) stream.fds (st.fds.take n) st.received
      else r = none := by
  obtain ⟨st', ⟨hprogress, hroom⟩, hends⟩ := @recvMsgLoop_ends capacity numFdsMax _ stream.pieces
    (fun st => Progress capacity (.start buf base size array stream) st ∧ Roomy stream.fds st)
    (fun _ _ _ _ hpieces _ hI => ⟨hI.1.next hpieces, hI.2.next hpieces⟩)
    ⟨⟨hsize, rfl, rfl, by simp [RecvState.start]⟩, hfits.roomy⟩ (.inr rfl)
  have hspan : st'.base + st'.len = base + size := hprogress.span
  have hbytes : st'.base + st'.stream.bytes.length = base + stream.bytes.length := by
    have hlength := congrArg length hprogress.bytes
    simpa only [length_append, length_read, RecvState.start] using hlength
  unfold recvMsg at h
  generalize hloop : recvMsgLoop capacity numFdsMax stream.pieces _ = result at h hends
  cases hends with
  | full hlen =>
    have hleft := recvMsgLoop_leftover hloop hsize rfl
    have hsum := numFdsOf_leftover size stream.pieces
    have hroom' := hroom.room
    have hsupply := hroom.supply
    have hall := hfits.supply
    have horder := suffix_iff_eq_drop.mp hroom.order
    change st'.stream.pieces = leftover size stream.pieces at hleft
    rw [hleft] at hroom' hsupply
    rw [show stream.fds.length - st'.stream.fds.length = (counts size stream.pieces).sum by omega]
      at horder
    have hcount : st'.fdCount ≤ (counts size stream.pieces).sum := by omega
    cases h
    refine ⟨hroom.closed, ?_⟩
    rw [if_pos (by omega)]
    exact ⟨_, rfl, hcount, congrArg₂ Stream.mk hleft horder,
      copied_of_loop hfits hsize hloop hcount⟩
  | failed hlen hpieces =>
    have hempty : st'.stream.bytes.length = 0 := by simp [Stream.bytes, hpieces]
    cases h
    refine ⟨hroom.closed, ?_⟩
    rw [if_neg (by omega)]
    rfl
  | tooMany hlen hpieces hmany => exact absurd hmany (hroom.not_tooMany hfits.space hpieces)

theorem recvMsg_negative (hfits : Fits numFdsMax stream) (hge : 2 ^ 63 ≤ size) (hlt : size < 2 ^ 64)
    (h : recvMsg capacity buf base size array numFdsMax stream = (st, r)) :
    st.closed = [] ∧ r = none := by
  obtain ⟨st', ⟨hsize, hroom⟩, hends⟩ := @recvMsgLoop_ends capacity numFdsMax _ stream.pieces
    (fun st => st.len = size ∧ Roomy stream.fds st)
    (fun st p ps _ hpieces _ hI => ⟨(RecvState.next_of_ge capacity numFdsMax p ps
      (hI.1 ▸ hge) (hI.1 ▸ hlt)).trans hI.1, hI.2.next hpieces⟩)
    (show _ ∧ Roomy stream.fds (.start buf base size array stream) from ⟨rfl, hfits.roomy⟩) (.inr rfl)
  unfold recvMsg at h
  generalize hloop : recvMsgLoop capacity numFdsMax stream.pieces _ = result at h hends
  cases hends with
  | full hlen => omega
  | failed hlen hpieces =>
    cases h
    exact ⟨hroom.closed, rfl⟩
  | tooMany hlen hpieces hmany => exact absurd hmany (hroom.not_tooMany hfits.space hpieces)

section Copied

variable {cs : List Nat} {a received : List Int}

theorem Copied.length_le (h : Copied cs fds a received) : a.length ≤ cs.sum := by
  cases h with
  | whole hone => exact length_take_le _ _
  | none hfirst => exact Nat.zero_le _
  | spoiled hmore hfirst hlength hspoiled => exact hlength

theorem Copied.eq_take (h : Copied cs fds a received) (hsingle : Single cs) :
    a = fds.take cs.sum := by
  cases h with
  | whole hone => rfl
  | none hfirst =>
    have hsum : cs.sum = 0 := by
      refine hsingle.elim id fun hone => ?_
      rcases cs with _ | ⟨c, _ | ⟨d, cs⟩⟩
      · rfl
      · exact hfirst
      · exact absurd hone (by simp)
    rw [hsum, take_zero]
  | spoiled hmore hfirst hlength hspoiled =>
    rcases cs with _ | ⟨c, cs⟩
    · exact absurd hmore (Nat.not_lt_zero 1)
    rcases hsingle with hsum | hone
    · rw [sum_cons] at hsum
      exact absurd (Nat.eq_zero_of_add_eq_zero_right hsum) hfirst
    · omega

theorem Copied.received_eq (h : Copied cs fds a received)
    (hcs : cs.headD 0 = 0 ∨ cs.length ≤ 1) : received = a := by
  cases h with
  | whole hone | none hfirst => rfl
  | spoiled hmore hfirst hlength hspoiled => omega

def Proper (fds : List Int) : Prop := ∀ m i, controlFill m i ∉ fds

theorem Copied.cases_of_proper (h : Copied cs fds a received) (hproper : Proper a) :
    cs.length ≤ 1 ∨ cs.headD 0 = 0 ∧ a = [] := by
  cases h with
  | whole hone => exact .inl hone
  | none hfirst => exact .inr ⟨hfirst, rfl⟩
  | spoiled hmore hfirst hlength hspoiled =>
    obtain ⟨m, i, hmem⟩ := hspoiled
    exact absurd hmem (hproper m i)

theorem Copied.single (h : Copied cs fds a received) (hproper : Proper a)
    (hlength : a.length = cs.sum) : Single cs := by
  rcases h.cases_of_proper hproper with hone | ⟨-, rfl⟩
  · exact .inr hone
  · exact .inl hlength.symm

end Copied

end Reception

theorem bytesOf_leftover (n : Nat) (ps : List Piece) :
    bytesOf (leftover n ps) = (bytesOf ps).drop n := by
  induction ps generalizing n with
  | nil => simp [leftover, bytesOf]
  | cons p ps ih =>
    unfold leftover
    by_cases hn : n = 0
    · simp [hn]
    rw [if_neg hn]
    by_cases hrest : n < p.bytes.length
    · have hdrop : (bytesOf (p :: ps)).drop n = p.bytes.drop n ++ bytesOf ps := by
        rw [bytesOf, flatMap_cons, drop_append_of_le_length (Nat.le_of_lt hrest)]
        rfl
      rw [dif_pos hrest, hdrop]
      rfl
    · rw [dif_neg hrest, ih, bytesOf, bytesOf, flatMap_cons, drop_append,
        drop_eq_nil_of_le (Nat.le_of_not_lt hrest), nil_append]

def sizeOf (ps : List Piece) : Nat := ofLe ((bytesOf ps).take 4)

def Refused (mem : Bool) (size : Nat) : Prop :=
  msgBufferPrealloc < size ∧ (msgBufferMax < size ∨ mem = false)

instance (mem : Bool) (size : Nat) : Decidable (Refused mem size) :=
  inferInstanceAs (Decidable (_ ∧ _))

/-- The body does not follow. A size below that of the header asks for more than there can be. -/
def Truncated (ps : List Piece) : Prop :=
  sizeOf ps < sizeofLxcomHdr ∨ (bytesOf ps).length < sizeOf ps

instance (ps : List Piece) : Decidable (Truncated ps) := inferInstanceAs (Decidable (_ ∨ _))

def hdrCounts (ps : List Piece) : List Nat := counts sizeofLxcomHdr ps

def bdyCounts (ps : List Piece) : List Nat :=
  counts (sizeOf ps - sizeofLxcomHdr) (leftover sizeofLxcomHdr ps)

inductive RecvOutcome (mem : Bool) (ps : List Piece) (fds : List Int) : Received → Prop
  | noHeader {stream : Stream} {asked : List Request} {received : List Int}
      (hhdr : (bytesOf ps).length < sizeofLxcomHdr) (hreceived : Taken ps fds received) :
      RecvOutcome mem ps fds ⟨.error .defunct, stream, asked, [], received⟩
  | refused {err : ObjectError} {stream : Stream} {asked : List Request} {received : List Int}
      (hhdr : sizeofLxcomHdr ≤ (bytesOf ps).length) (hrefused : Refused mem (sizeOf ps))
      (hreceived : Taken ps fds received) :
      RecvOutcome mem ps fds ⟨.error err, stream, asked, [], received⟩
  | truncated {stream : Stream} {asked : List Request} {a first second : List Int}
      (hhdr : sizeofLxcomHdr ≤ (bytesOf ps).length) (hrefused : ¬ Refused mem (sizeOf ps))
      (hbdy : Truncated ps) (ha : Copied (hdrCounts ps) fds a first) (hfirst : Taken ps fds first)
      (hsecond : Taken (leftover sizeofLxcomHdr ps) fds second) :
      RecvOutcome mem ps fds ⟨.error .defunct, stream, asked, a, first ++ second⟩
  | message {buf : Mem} {stream : Stream} {asked : List Request} {a b first second : List Int}
      (hhdr : sizeofLxcomHdr ≤ (bytesOf ps).length) (hrefused : ¬ Refused mem (sizeOf ps))
      (hbdy : ¬ Truncated ps) (ha : Copied (hdrCounts ps) fds a first)
      (hb : Copied (bdyCounts ps) (fds.drop (hdrCounts ps).sum) b second)
      (hfds : stream.fds = (fds.drop (hdrCounts ps).sum).drop (bdyCounts ps).sum) :
      RecvOutcome mem ps fds ⟨.ok ⟨buf, sizeOf ps, a ++ b⟩, stream, asked, [], first ++ second⟩

section Outcome

variable {mem : Bool} {ps : List Piece} {fds : List Int} {hdr : RecvState}

section

variable (hfds : fds.length = numFdsOf ps)
include hfds

theorem length_drop_hdrCounts :
    (fds.drop (hdrCounts ps).sum).length = numFdsOf (leftover sizeofLxcomHdr ps) := by
  have hsplit := numFdsOf_leftover sizeofLxcomHdr ps
  unfold hdrCounts
  rw [length_drop]
  omega

theorem outcome_recvBody {statHdr : Nat} (hmax : fds.length ≤ objectCountsMaxOI)
    (hhdr : sizeofLxcomHdr ≤ (bytesOf ps).length) (hsize : hdrSize hdr.buf = sizeOf ps)
    (hclosed : hdr.closed = []) (hreceived : Taken ps fds hdr.received)
    (hstat : statHdr ≤ (hdrCounts ps).sum)
    (hstream : hdr.stream = ⟨leftover sizeofLxcomHdr ps, fds.drop (hdrCounts ps).sum⟩)
    (ha : Copied (hdrCounts ps) fds (hdr.fds.take statHdr) hdr.received) :
    RecvOutcome mem ps fds (recvBody mem msgBufferMax objectCountsMaxOI hdr statHdr) := by
  have hlt : sizeOf ps < 2 ^ 32 := hsize ▸ word_lt hdr.buf 0 4
  have hfits : Fits (objectCountsMaxOI - statHdr) hdr.stream := by
    rw [hstream]
    refine ⟨length_drop_hdrCounts hfds, ?_, ?_⟩
    all_goals
      rw [length_drop]
      omega
  have hbytes : hdr.stream.bytes.length = (bytesOf ps).length - sizeofLxcomHdr := by
    rw [hstream, ← length_drop, ← bytesOf_leftover]
    rfl
  unfold recvBody
  rw [hsize, hclosed]
  by_cases hinvalid : msgBufferPrealloc < sizeOf ps ∧ msgBufferMax < sizeOf ps
  · rw [if_pos hinvalid]
    exact .refused hhdr ⟨hinvalid.1, .inl hinvalid.2⟩ hreceived
  by_cases hnomem : msgBufferPrealloc < sizeOf ps ∧ mem = false
  · rw [if_neg hinvalid, if_pos hnomem]
    exact .refused hhdr ⟨hnomem.1, .inr hnomem.2⟩ hreceived
  have hrefused : ¬ Refused mem (sizeOf ps) := by
    rintro ⟨hlarge, hmsg | hmem⟩
    · exact hinvalid ⟨hlarge, hmsg⟩
    · exact hnomem ⟨hlarge, hmem⟩
  rw [if_neg hinvalid, if_neg hnomem]
  generalize hbdy : recvMsg _ _ _ (bodySize (sizeOf ps)) _ _ hdr.stream = second
  obtain ⟨bdy, statBdy⟩ := second
  have hsecond : bodySize (sizeOf ps) ≠ 0 →
      Taken (leftover sizeofLxcomHdr ps) fds bdy.received := fun hne => by
    have htaken := recvMsg_taken hfits hne hbdy
    rw [hstream] at htaken
    exact ⟨fun fd hfd => drop_subset _ _ (htaken.subset hfd), htaken.none⟩
  by_cases hsmall : sizeOf ps < sizeofLxcomHdr
  · have hge : 2 ^ 63 ≤ bodySize (sizeOf ps) ∧ bodySize (sizeOf ps) < 2 ^ 64 := by
      unfold bodySize
      unfold sizeofLxcomHdr at hsmall ⊢
      omega
    obtain ⟨hclosed', rfl⟩ := recvMsg_negative hfits hge.1 hge.2 hbdy
    dsimp only
    rw [hclosed']
    exact .truncated hhdr hrefused (.inl hsmall) ha hreceived (hsecond (by omega))
  rw [bodySize_of_le (Nat.le_of_not_lt hsmall) hlt] at hbdy hsecond
  obtain ⟨hclosed', hresult⟩ := recvMsg_pieces hfits (by omega) hbdy
  by_cases hfull : (bytesOf ps).length < sizeOf ps
  · rw [if_neg (by omega)] at hresult
    subst hresult
    dsimp only
    rw [hclosed']
    exact .truncated hhdr hrefused (.inr hfull) ha hreceived (hsecond (by omega))
  · rw [if_pos (by omega), hstream] at hresult
    obtain ⟨statBdy, rfl, -, hstream', hb⟩ := hresult
    dsimp only
    rw [hclosed']
    refine .message hhdr hrefused ?_ ha hb (congrArg Stream.fds hstream')
    rintro (h | h)
    · exact hsmall h
    · exact hfull h

theorem outcome_processRecv (hmax : fds.length ≤ objectCountsMaxOI) :
    RecvOutcome mem ps fds (processRecv mem ⟨ps, fds⟩) := by
  have hfits : Fits objectCountsMaxOI ⟨ps, fds⟩ := ⟨hfds, hmax, hmax⟩
  unfold processRecv recv
  generalize hrecv : recvMsg _ _ 0 sizeofLxcomHdr _ _ _ = first
  obtain ⟨hdr, statHdr⟩ := first
  have htaken := recvMsg_taken hfits (by decide) hrecv
  obtain ⟨hclosed, hresult⟩ := recvMsg_pieces hfits (by decide) hrecv
  by_cases hhdr : sizeofLxcomHdr ≤ (bytesOf ps).length
  · rw [if_pos (show _ ≤ (Stream.mk ps fds).bytes.length from hhdr)] at hresult
    obtain ⟨statHdr, rfl, hstat, hstream, ha⟩ := hresult
    have hbytes := (recvMsg_spec (by decide) hrecv).2 rfl
    exact outcome_recvBody hfds hmax hhdr (hdrSize_eq hbytes) hclosed htaken hstat hstream ha
  · rw [if_neg (show ¬ _ ≤ (Stream.mk ps fds).bytes.length from hhdr)] at hresult
    subst hresult
    dsimp only
    rw [hclosed]
    exact .noHeader (Nat.lt_of_not_le hhdr) htaken

end

end Outcome

/-- Each reception that brings descriptors to a message is one piece. One that fails has brought none,
but for those of a header in one piece, which are closed when the body fails. -/
def Intact (mem : Bool) (ps : List Piece) : Prop :=
  if (bytesOf ps).length < sizeofLxcomHdr then firstFds ps = 0
  else if Refused mem (sizeOf ps) then firstFds ps = 0
  else if Truncated ps then
    (firstFds ps = 0 ∨ (hdrCounts ps).length ≤ 1) ∧ firstFds (leftover sizeofLxcomHdr ps) = 0
  else Single (hdrCounts ps) ∧ Single (bdyCounts ps)

instance (mem : Bool) (ps : List Piece) : Decidable (Intact mem ps) := by
  unfold Intact
  infer_instance

def OneMessage (mem : Bool) (ps : List Piece) : Prop :=
  sizeofLxcomHdr ≤ (bytesOf ps).length ∧ sizeOf ps = (bytesOf ps).length ∧ ¬ Refused mem (sizeOf ps)

instance (mem : Bool) (ps : List Piece) : Decidable (OneMessage mem ps) :=
  inferInstanceAs (Decidable (_ ∧ _))

/-- A message comes out with its bytes and its descriptors, and a failure has closed each descriptor
that came to the process. -/
structure Faithful (mem : Bool) (stream : Stream) (r : Received) : Prop where
  whole : OneMessage mem stream.pieces →
    ∃ m, r.result = .ok m ∧ read m.buf 0 m.sizeMsg = stream.bytes ∧ m.fds = stream.fds
  first : ∀ m, r.result = .ok m →
    read m.buf 0 m.sizeMsg ++ r.stream.bytes = stream.bytes ∧ m.fds ++ r.stream.fds = stream.fds
  failed : ∀ err, r.result = .error err → r.closed.Perm r.received

section Faithful

variable {mem : Bool} {ps : List Piece} {fds : List Int}

theorem eq_nil_of_bytesOf_eq_nil (h : bytesOf ps = []) : ps = [] := by
  cases ps with
  | nil => rfl
  | cons p ps =>
    have hpos := p.nonempty
    have hlength := congrArg length h
    rw [bytesOf, flatMap_cons, length_append, length_nil] at hlength
    omega

theorem drop_eq_nil_of_oneMessage (hfds : fds.length = numFdsOf ps) (h : OneMessage mem ps) :
    (fds.drop (hdrCounts ps).sum).drop (bdyCounts ps).sum = [] := by
  obtain ⟨hhdr, hsize, -⟩ := h
  have hleft : leftover (sizeOf ps - sizeofLxcomHdr) (leftover sizeofLxcomHdr ps) = [] := by
    refine eq_nil_of_bytesOf_eq_nil ?_
    rw [bytesOf_leftover, bytesOf_leftover, drop_drop, hsize, Nat.add_sub_cancel' hhdr, drop_length]
  have hbdy := numFdsOf_leftover (sizeOf ps - sizeofLxcomHdr) (leftover sizeofLxcomHdr ps)
  rw [hleft] at hbdy
  refine drop_eq_nil_of_le ?_
  rw [length_drop_hdrCounts hfds, ← hbdy]
  exact Nat.le_refl _

theorem faithful_of_intact (hfds : fds.length = numFdsOf ps)
    (hmax : fds.length ≤ objectCountsMaxOI) (h : Intact mem ps) :
    Faithful mem ⟨ps, fds⟩ (processRecv mem ⟨ps, fds⟩) := by
  have houtcome : RecvOutcome mem ps fds (processRecv mem ⟨ps, fds⟩) :=
    outcome_processRecv hfds hmax
  have hbounded : ¬ Truncated ps → Bounded ⟨ps, fds⟩ (processRecv mem ⟨ps, fds⟩) := fun hbdy =>
    bounded_of_le (Nat.le_of_not_lt fun hlt => hbdy (.inl hlt))
  have hheader : (hdrCounts ps).headD 0 = firstFds ps := headD_counts (by decide) ps
  unfold Intact at h
  generalize processRecv mem ⟨ps, fds⟩ = r at houtcome hbounded
  cases houtcome with
  | noHeader hhdr hreceived =>
    rw [if_pos hhdr] at h
    refine ⟨fun hmsg => absurd hmsg.1 (Nat.not_le_of_lt hhdr), nofun, fun _ _ => ?_⟩
    rw [hreceived.none.mpr h]
  | refused hhdr hrefused hreceived =>
    rw [if_neg (Nat.not_lt_of_le hhdr), if_pos hrefused] at h
    refine ⟨fun hmsg => absurd hrefused hmsg.2.2, nofun, fun _ _ => ?_⟩
    rw [hreceived.none.mpr h]
  | truncated hhdr hrefused hbdy ha hfirst hsecond =>
    rw [if_neg (Nat.not_lt_of_le hhdr), if_neg hrefused, if_pos hbdy] at h
    refine ⟨fun hmsg => ?_, nofun, fun _ _ => ?_⟩
    · have hsize : sizeOf ps = (bytesOf ps).length := hmsg.2.1
      rcases hbdy with hlt | hlt <;> omega
    · rw [hsecond.none.mpr h.2, append_nil, ha.received_eq (hheader ▸ h.1)]
  | message hhdr hrefused hbdy ha hb hdrop =>
    rw [if_neg (Nat.not_lt_of_le hhdr), if_neg hrefused, if_neg hbdy] at h
    have hbytes := (hbounded hbdy).holds _ rfl
    have hall : fds.take (hdrCounts ps).sum ++
        (fds.drop (hdrCounts ps).sum).take (bdyCounts ps).sum ++
        (fds.drop (hdrCounts ps).sum).drop (bdyCounts ps).sum = fds := by
      rw [append_assoc, take_append_drop, take_append_drop]
    refine ⟨fun hmsg => ⟨_, rfl, ?_, ?_⟩, fun m hm => ?_, nofun⟩
    · have hsize : sizeOf ps = (bytesOf ps).length := hmsg.2.1
      have hlength := congrArg length hbytes
      rw [length_append, length_read, hsize] at hlength
      have hnil := eq_nil_of_length_eq_zero (Nat.add_eq_left.mp hlength)
      rwa [hnil, append_nil] at hbytes
    · rw [drop_eq_nil_of_oneMessage hfds hmsg, append_nil] at hall
      rw [ha.eq_take h.1, hb.eq_take h.2, hall]
    · cases hm
      rw [ha.eq_take h.1, hb.eq_take h.2, hdrop]
      exact ⟨hbytes, hall⟩

theorem intact_of_faithful (hfds : fds.length = numFdsOf ps)
    (hmax : fds.length ≤ objectCountsMaxOI) (hproper : Proper fds)
    (h : Faithful mem ⟨ps, fds⟩ (processRecv mem ⟨ps, fds⟩)) : Intact mem ps := by
  have houtcome : RecvOutcome mem ps fds (processRecv mem ⟨ps, fds⟩) :=
    outcome_processRecv hfds hmax
  have hheader : (hdrCounts ps).headD 0 = firstFds ps := headD_counts (by decide) ps
  unfold Intact
  generalize processRecv mem ⟨ps, fds⟩ = r at houtcome h
  cases houtcome with
  | noHeader hhdr hreceived =>
    rw [if_pos hhdr]
    exact hreceived.none.mp (h.failed _ rfl).nil_eq.symm
  | refused hhdr hrefused hreceived =>
    rw [if_neg (Nat.not_lt_of_le hhdr), if_pos hrefused]
    exact hreceived.none.mp (h.failed _ rfl).nil_eq.symm
  | @truncated stream asked a first second hhdr hrefused hbdy ha hfirst hsecond =>
    have hperm : a.Perm (first ++ second) := h.failed _ rfl
    have hproper' : Proper a := fun m i hmem => by
      refine hproper m i ?_
      exact append_subset.mpr ⟨hfirst.subset, hsecond.subset⟩ (hperm.subset hmem)
    have hone : firstFds ps = 0 ∨ (hdrCounts ps).length ≤ 1 := by
      rw [← hheader]
      exact (ha.cases_of_proper hproper').symm.imp_left And.left
    rw [if_neg (Nat.not_lt_of_le hhdr), if_neg hrefused, if_pos hbdy]
    refine ⟨hone, hsecond.none.mp (eq_nil_of_length_eq_zero ?_)⟩
    have hlength := hperm.length_eq
    rw [ha.received_eq (hheader ▸ hone), length_append] at hlength
    omega
  | @message buf stream asked a b first second hhdr hrefused hbdy ha hb hdrop =>
    have hall : a ++ b ++ stream.fds = fds := (h.first _ rfl).2
    rw [if_neg (Nat.not_lt_of_le hhdr), if_neg hrefused, if_neg hbdy]
    have hsub : ∀ fd, fd ∈ a ∨ fd ∈ b → fd ∈ fds := by
      intro fd hmem
      rw [← hall]
      exact mem_append_left _ (mem_append.mpr hmem)
    -- nothing is lost, so that each reception has brought all it could
    have hhdrSum := numFdsOf_leftover sizeofLxcomHdr ps
    have hbdySum := numFdsOf_leftover (sizeOf ps - sizeofLxcomHdr) (leftover sizeofLxcomHdr ps)
    have hlength := congrArg length hall
    have hale := ha.length_le
    have hble := hb.length_le
    rw [length_append, length_append, hdrop, length_drop, length_drop] at hlength
    unfold hdrCounts bdyCounts at *
    exact ⟨ha.single (fun m i hmem => hproper m i (hsub _ (.inl hmem))) (by omega),
      hb.single (fun m i hmem => hproper m i (hsub _ (.inr hmem))) (by omega)⟩

def lowFds (n : Nat) : List Int := (range n).map fun i : Nat => (i : Int) + 3

theorem proper_lowFds {n : Nat} (h : n ≤ objectCountsMaxOI) : Proper (lowFds n) := by
  intro m i hmem
  obtain ⟨fd, hfd, heq⟩ := mem_map.mp hmem
  have hlt := mem_range.mp hfd
  unfold objectCountsMaxOI at h
  unfold controlFill at heq
  split_ifs at heq with hall
  · omega
  · have hk : m - 4 * i < 4 := by omega
    generalize m - 4 * i = k at heq hk
    obtain rfl | rfl | rfl | rfl : k = 0 ∨ k = 1 ∨ k = 2 ∨ k = 3 := by omega
    all_goals omega

theorem nodup_lowFds (n : Nat) : (lowFds n).Nodup := by
  unfold lowFds List.Nodup
  rw [pairwise_map]
  exact nodup_range.imp fun hne heq => hne (by omega)

end Faithful

/-- A delivery is taken right, whatever its descriptors, exactly if a reception that brings any is one
piece, and none are left open by one that fails. -/
theorem recv_faithful_iff (mem : Bool) (ps : List Piece) (hmax : numFdsOf ps ≤ objectCountsMaxOI) :
    (∀ fds : List Int, fds.length = numFdsOf ps → fds.Nodup → (∀ fd ∈ fds, 0 ≤ fd) →
      Faithful mem ⟨ps, fds⟩ (processRecv mem ⟨ps, fds⟩)) ↔ Intact mem ps := by
  constructor
  · intro h
    have hlength : (lowFds (numFdsOf ps)).length = numFdsOf ps := by simp [lowFds]
    refine intact_of_faithful hlength (by rwa [hlength]) (proper_lowFds hmax)
      (h _ hlength (nodup_lowFds _) fun fd hfd => ?_)
    obtain ⟨i, -, rfl⟩ := mem_map.mp hfd
    omega
  · intro h fds hlength _ _
    exact faithful_of_intact hlength (hlength ▸ hmax) h

def threePieces : List Piece :=
  [⟨le 4 16, 0, by simp, by simp⟩, ⟨le 4 lxcomRequest ++ le 4 1, 0, by simp, by simp⟩,
    ⟨[8, 0, 0, 0], 2, by decide, by decide⟩]

theorem recv_faithful_threePieces : numFdsOf threePieces ≤ objectCountsMaxOI ∧
      Faithful true ⟨threePieces, [6, 9]⟩ (processRecv true ⟨threePieces, [6, 9]⟩) :=
  ⟨by decide, (recv_faithful_iff true threePieces (by decide)).mpr (by decide) [6, 9] rfl (by decide)
    (by decide)⟩

def splitHeader : List Piece :=
  [⟨le 4 16, 1, by simp, by simp⟩,
    ⟨le 4 lxcomRequest ++ le 4 1 ++ [8, 0, 0, 0], 0, by simp, by simp⟩]

theorem recv_splitHeader_loses_descriptor : OneMessage true splitHeader ∧
      (∃ m, (processRecv true ⟨splitHeader, [6]⟩).result = .ok m ∧ m.fds = [-1]) ∧
      (processRecv true ⟨splitHeader, [6]⟩).closed = [] ∧
      ¬ Faithful true ⟨splitHeader, [6]⟩ (processRecv true ⟨splitHeader, [6]⟩) := by
  refine ⟨by decide, ⟨_, rfl, by decide⟩, by decide, fun h => ?_⟩
  exact absurd (h.first _ rfl).2 (by decide)

end MinkIpc.SockUnix
