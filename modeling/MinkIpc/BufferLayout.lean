import Mathlib.Data.List.GetD
import MinkIpc.MarshalOut

/-! Where the copy loop of marshalling puts the buffers: at the ranges of the
layout that both decoders recompute, with everything in front of them kept, also
when the message is extended on the way. -/

namespace MinkIpc

open Bytes

theorem list_eq_map_range {f : Nat → Nat} {l : List Nat} {n : Nat} (hn : l.length = n)
    (h : ∀ j < n, f j = l.getD j 0) : (List.range n).map f = l := by
  refine List.ext_getElem (by simp [hn]) fun i hi hi' => ?_
  have hf := h i (by omega)
  rw [List.getD_eq_getElem _ _ hi'] at hf
  simpa using hf

theorem putArgSize_of_outside (base : Nat) (j : Nat) (b : List UInt8) (m : Mem) (a : Nat)
    (h : a < base + 4 * j ∨ base + 4 * (j + 1) ≤ a) : putArgSize m base j b.length a = m a := by
  rcases h with h | h
  · exact write_of_lt h
  · exact write_of_ge (by simp; omega)

theorem putArgSizes_of_outside {base i a : Nat} {sizes : List Nat} {m : Mem}
    (h : a < base + 4 * i ∨ base + 4 * (i + sizes.length) ≤ a) :
    putArgSizes base sizes i m a = m a := by
  induction sizes generalizing i m with
  | nil => rfl
  | cons s ss ih =>
    rw [List.length_cons] at h
    rw [putArgSizes, ih (by omega)]
    rcases h with h | h
    · exact write_of_lt h
    · exact write_of_ge (by simp; omega)

theorem argSize_putArgSizes (base i : Nat) {j : Nat} {sizes : List Nat} (m : Mem)
    (h : j < sizes.length) :
    argSize (putArgSizes base sizes i m) base (i + j) = sizes.getD j 0 % 2 ^ 32 := by
  induction sizes generalizing i j m with
  | nil => simp at h
  | cons s ss ih =>
    rw [putArgSizes]
    cases j with
    | zero =>
      have hkeep : argSize (putArgSizes base ss (i + 1) (putArgSize m base i s)) base i =
          argSize (putArgSize m base i s) base i :=
        word_congr fun a ha hlt => putArgSizes_of_outside (by omega)
      exact hkeep.trans (word_putWord_self _ _ _ _)
    | succ j =>
      have hih := ih (i + 1) (putArgSize m base i s) (by simpa using h)
      rw [show i + 1 + j = i + (j + 1) by omega] at hih
      rw [hih]
      rfl

theorem marshalOutBuffer_eq_some {b : List UInt8} {st st' : OutState}
    (h : marshalOutBuffer b st = some st') :
    padded st.sizeOnWire + b.length ≤ st.sizeLimit ∧
      st'.sizeOnWire = padded st.sizeOnWire + b.length ∧ st'.sizeLimit = st.sizeLimit ∧
      (∀ a < st.sizeOnWire, st'.buf a = st.buf a) ∧
      read st'.buf (padded st.sizeOnWire) b.length = b ∧
      st'.pos = st.pos ∧ st'.fds = st.fds ∧ st'.table = st.table := by
  have hp := le_padded st.sizeOnWire
  have hpad : st.sizeOnWire + (padded st.sizeOnWire - st.sizeOnWire) = padded st.sizeOnWire := by
    omega
  simp only [marshalOutBuffer, hpad] at h
  split_ifs at h with hfit
  all_goals
    cases h
    refine ⟨by omega, by dsimp only; omega, rfl, fun a ha => ?_, read_write_self _ _ _, rfl, rfl, rfl⟩
  · dsimp only
    rw [write_of_lt (by omega), write_of_lt ha]
  · exact write_of_lt (by omega)

theorem flatdataExtendAndCopy_eq_ok {env : Env} {n : Nat} {st st' : OutState}
    (h : flatdataExtendAndCopy env n st = .ok st') :
    n ≤ msgBufferMax ∧ st'.sizeLimit = n ∧ st'.sizeOnWire = st.sizeOnWire ∧
      (∀ a < st.sizeOnWire, st'.buf a = st.buf a) ∧
      st'.pos = st.pos ∧ st'.fds = st.fds ∧ st'.table = st.table := by
  unfold flatdataExtendAndCopy at h
  split_ifs at h with _ hmax
  cases h
  exact ⟨by omega, rfl, rfl, fun a ha => if_pos ha, rfl, rfl, rfl⟩

theorem marshalOutBuffer_extended {b : List UInt8} {bs : List (List UInt8)} {st : OutState}
    (h : st.sizeLimit = sizeofData (b :: bs) st.sizeOnWire) : marshalOutBuffer b st ≠ none := by
  have hp := le_padded st.sizeOnWire
  have hb := le_padded b.length
  have hfit : ¬ st.sizeOnWire + (padded st.sizeOnWire - st.sizeOnWire) + b.length > st.sizeLimit := by
    rw [h, sizeofData, List.map_cons, List.sum_cons]
    omega
  simp [marshalOutBuffer, hfit]

section Loop

variable {env : Env} {note : Nat → List UInt8 → Mem → Mem} {base : Nat}

variable {bs : List (List UInt8)} {st st' : OutState}

theorem marshalOutBuffers_cons {b : List UInt8} {j : Nat}
    (hnote : ∀ j b m a, a < base + 4 * j ∨ base + 4 * (j + 1) ≤ a → note j b m a = m a)
    (h : marshalOutBuffers env note (b :: bs) j st = .ok st') :
    ∃ m st₁, marshalOutBuffers env note bs (j + 1) st₁ = .ok st' ∧
      st₁.sizeOnWire = padded st.sizeOnWire + b.length ∧
      (∀ a < st.sizeOnWire, a < base + 4 * j ∨ base + 4 * (j + 1) ≤ a → m a = st.buf a) ∧
      (∀ a < st.sizeOnWire, st₁.buf a = note j b m a) ∧
      read st₁.buf (padded st.sizeOnWire) b.length = b ∧
      (st.sizeLimit ≤ msgBufferMax → st₁.sizeOnWire ≤ msgBufferMax ∧ st₁.sizeLimit ≤ msgBufferMax) ∧
      st₁.pos = st.pos ∧ st₁.fds = st.fds ∧ st₁.table = st.table := by
  simp only [marshalOutBuffers] at h
  cases hfit : marshalOutBuffer b { st with buf := note j b st.buf } with
  | some st₁ =>
    rw [hfit] at h
    obtain ⟨hle, hsize, hlimit, hframe, hread, hpos, hfds, htable⟩ := marshalOutBuffer_eq_some hfit
    refine ⟨st.buf, st₁, h, hsize, fun _ _ _ => rfl, hframe, hread, fun hmax => ?_, hpos, hfds,
      htable⟩
    dsimp only at hle hsize hlimit
    omega
  | none =>
    rw [hfit] at h
    obtain ⟨ext, hext, h⟩ := Outcome.bind_eq_ok.mp h
    obtain ⟨hmax, hlimit, hwire, hkeep, hpos, hfds, htable⟩ := flatdataExtendAndCopy_eq_ok hext
    dsimp only at hwire hkeep hpos hfds htable
    cases hfit' : marshalOutBuffer b { ext with buf := note j b ext.buf } with
    | none =>
      have hlimit' : { ext with buf := note j b ext.buf : OutState }.sizeLimit =
          sizeofData (b :: bs) { ext with buf := note j b ext.buf : OutState }.sizeOnWire := by
        rw [hlimit, hwire]
      exact absurd hfit' (marshalOutBuffer_extended hlimit')
    | some st₁ =>
      rw [hfit'] at h
      obtain ⟨hle, hsize, hlimit', hframe, hread, hpos', hfds', htable'⟩ :=
        marshalOutBuffer_eq_some hfit'
      dsimp only at hle hsize hlimit' hframe hread hpos' hfds' htable'
      rw [hwire] at hle hsize hframe hread
      refine ⟨ext.buf, st₁, h, hsize, fun a ha hout => ?_, hframe, hread, fun _ => ?_,
        hpos'.trans hpos, hfds'.trans hfds, htable'.trans htable⟩
      · rw [hkeep a ha, hnote j b st.buf a hout]
      · omega

/-- What the loop leaves: the buffers at the ranges of the layout, and everything
before them except the words that `note` writes. -/
structure Copied (base j : Nat) (bs : List (List UInt8)) (st st' : OutState) : Prop where
  size : st'.sizeOnWire = layoutEnd st.sizeOnWire (bs.map List.length)
  frame : ∀ a < st.sizeOnWire, a < base + 4 * j ∨ base + 4 * (j + bs.length) ≤ a →
    st'.buf a = st.buf a
  bytes : (layoutRanges st.sizeOnWire (bs.map List.length)).map (fun r => read st'.buf r.1 r.2) = bs
  pos : st'.pos = st.pos
  fds : st'.fds = st.fds
  table : st'.table = st.table

theorem marshalOutBuffers_copied {j : Nat}
    (hnote : ∀ j b m a, a < base + 4 * j ∨ base + 4 * (j + 1) ≤ a → note j b m a = m a)
    (hbase : base + 4 * (j + bs.length) ≤ st.sizeOnWire)
    (h : marshalOutBuffers env note bs j st = .ok st') : Copied base j bs st st' := by
  induction bs generalizing j st with
  | nil =>
    cases h
    exact ⟨rfl, fun _ _ _ => rfl, rfl, rfl, rfl, rfl⟩
  | cons b bs ih =>
    obtain ⟨m, st₁, h, hsize, hm, hframe, hread, -, hpos, hfds, htable⟩ :=
      marshalOutBuffers_cons hnote h
    have hp := le_padded st.sizeOnWire
    rw [List.length_cons] at hbase
    have hcopied := ih (by omega) h
    refine ⟨?_, fun a ha hout => ?_, ?_, hcopied.pos.trans hpos, hcopied.fds.trans hfds,
      hcopied.table.trans htable⟩
    · rw [hcopied.size, hsize]
      rfl
    · rw [List.length_cons] at hout
      rw [hcopied.frame a (by omega) (by omega), hframe a ha, hnote j b m a (by omega),
        hm a ha (by omega)]
    · have hhead : read st'.buf (padded st.sizeOnWire) b.length = b := by
        have hkeep : read st'.buf (padded st.sizeOnWire) b.length =
            read st₁.buf (padded st.sizeOnWire) b.length :=
          read_congr fun a hle hlt => hcopied.frame a (by omega) (by omega)
        rw [hkeep, hread]
      have hbytes := hcopied.bytes
      rw [hsize] at hbytes
      rw [List.map_cons, layoutRanges, List.map_cons, hbytes, hhead]

theorem marshalOutBuffers_sizes {j i : Nat} (hbase : base + 4 * (j + bs.length) ≤ st.sizeOnWire)
    (hi : i < bs.length)
    (h : marshalOutBuffers env (fun j b m => putArgSize m base j b.length) bs j st = .ok st') :
    argSize st'.buf base (j + i) = (bs.map List.length).getD i 0 % 2 ^ 32 := by
  induction bs generalizing j i st with
  | nil => simp at hi
  | cons b bs ih =>
    obtain ⟨m, st₁, h, hsize, -, hframe, -⟩ := marshalOutBuffers_cons (putArgSize_of_outside base) h
    have hp := le_padded st.sizeOnWire
    rw [List.length_cons] at hbase hi
    cases i with
    | zero =>
      have hcopied := marshalOutBuffers_copied (putArgSize_of_outside base) (by omega) h
      have hkeep : argSize st'.buf base j = argSize (putArgSize m base j b.length) base j := by
        refine word_congr fun a ha hlt => ?_
        rw [hcopied.frame a (by omega) (by omega), hframe a (by omega)]
      exact hkeep.trans (word_putWord_self _ _ _ _)
    | succ i =>
      have hih := ih (by omega) (by omega : i < bs.length) h
      rw [show j + 1 + i = j + (i + 1) by omega] at hih
      exact hih

theorem marshalOutBuffers_size_le (base : Nat) {j : Nat}
    (hnote : ∀ j b m a, a < base + 4 * j ∨ base + 4 * (j + 1) ≤ a → note j b m a = m a)
    (hlimit : st.sizeLimit ≤ msgBufferMax) (hwire : st.sizeOnWire ≤ msgBufferMax)
    (h : marshalOutBuffers env note bs j st = .ok st') : st'.sizeOnWire ≤ msgBufferMax := by
  induction bs generalizing j st with
  | nil =>
    cases h
    exact hwire
  | cons b bs ih =>
    obtain ⟨m, st₁, h, -, -, -, -, hmax, -⟩ := marshalOutBuffers_cons hnote h
    exact ih (hmax hlimit).2 (hmax hlimit).1 h

end Loop

end MinkIpc
