import MinkIpc.TeecContainment
import MinkIpc.TeecRestoration

/-! The sizes a client sees after a call. They come back through the pointer each kind of
parameter has set up, and a converted reference gets the size of its block back. -/

namespace MinkIpc.Teec

variable {env : Env} {ctx : UInt64} {s : State} {i f : Fin 4} {p : UInt64} {k : Entry} {r : Request}
  {reply : Reply}

structure Reply.Valid (r : Request) (reply : Reply) : Prop where
  lens : ∀ i, reply.lenOut i ≤ (r.params i).outBuf.len
  sizes : ∀ i, (r.params i).memObj = none → reply.memSzOut i = 0

def reported (r : Request) (reply : Reply) (i : Fin 4) : UInt64 :=
  match (r.params i).memObj with
  | some _ => (reply.memSzOut i).toUInt64
  | none => reply.lenOut i

def isOutputType (t : BitVec 4) : Bool :=
  t == memrefTempOutput || t == memrefTempInout || t == memrefPartialOutput || t == memrefPartialInout

def IsOutput (s : State) (i : Fin 4) : Prop :=
  isOutputType (s.typeAt i) ∨ (s.typeAt i = memrefWhole ∧ (s.parent i).flags &&& memOutput ≠ 0)

def SizeOk (s z : State) (r : Request) (reply : Reply) (i : Fin 4) : Prop :=
  (IsOutput s i → (z.params i).size = reported r reply i) ∧
    (s.typeAt i = memrefTempInput → (z.params i).size = (s.params i).size)

def SizesReported (k : Entry) (env : Env) (ctx : UInt64) (s : State) : Prop :=
  ∀ r, k.request env ctx s.start = .ok r → ∀ reply, reply.Valid r → ∀ i,
    SizeOk s (k.call env ctx (.ok reply) s).1 r reply i

def Fails (env : Env) (s : State) (i : Fin 4) : Prop :=
  Large s i ∧ ((env.malloc i).isNone ∨ (env.memObject i).isNone)

instance : Decidable (Fails env s i) := inferInstanceAs (Decidable (_ ∧ _))

/-- When everything is converted: an input-only reference is empty or converted, an output
reference is not converted, and no output block is marked unless there is nothing in it. -/
def KeepsConverted (s : State) (i : Fin 4) : Prop :=
  (s.typeAt i = memrefTempInput → (s.params i).size = 0 ∨ (s.params i).size > shmMaxHeapSz) ∧
    (s.typeAt i = memrefTempOutput ∨ s.typeAt i = memrefTempInout →
      (s.params i).size ≤ shmMaxHeapSz) ∧
    (s.typeAt i = memrefPartialOutput ∨ s.typeAt i = memrefPartialInout →
      (s.parent i).converted = 0 ∨
        ((s.parent i).size = 0 ∧ (s.params i).size = 0 ∧ (s.parent i).memObj = none))

def Unmarked (env : Env) (s : State) (f : Fin 4) : Prop :=
  ∃ p, env.malloc f = some p ∧ (s.shm p).converted = 0

/-- When the conversion failed at `f` and was undone: an input-only reference is empty, or
it is the one that failed and its block is not marked. -/
def KeepsUndone (env : Env) (s : State) (f i : Fin 4) : Prop :=
  s.typeAt i = memrefTempInput → (s.params i).size = 0 ∨ (i = f ∧ Unmarked env s f)

def KeepsSizes (k : Entry) (env : Env) (s : State) : Prop :=
  match (List.finRange 4).find? (Fails env s ·) with
  | none => ∀ i, KeepsConverted s i
  | some f => k = .invokeCommand → ∀ i, KeepsUndone env s f i

section Stored

theorem minkParam_len {mo : Nat} (h : (minkParam env s i).memObj = some mo) :
    (minkParam env s i).outBuf.len = 0 := by
  revert h
  unfold minkParam
  dsimp only
  split_ifs
  · unfold processValueParam
    split_ifs <;> intro h <;> cases h
  · intro h
    cases h
  · unfold processMemrefPartial processRegistered
    dsimp only
    split <;> intro h
    · rfl
    · cases h
  · unfold processMemrefWhole processRegistered
    dsimp only
    split <;> intro h
    · rfl
    · cases h
  · intro h
    cases h

theorem stored_size (hvalid : reply.Valid (requestOf env s)) :
    ((storeReply (requestOf env s) reply).params i).size =
      match (minkParam env s i).outBuf.lenOut with
      | .paramSize => reported (requestOf env s) reply i
      | .own => (s.params i).size := by
  have hlens := hvalid.lens i
  have hsizes := hvalid.sizes i
  have hlen : ∀ mo, (minkParam env s i).memObj = some mo → _ := fun mo => minkParam_len
  change reply.lenOut i ≤ (minkParam env s i).outBuf.len at hlens
  change (minkParam env s i).memObj = none → _ at hsizes
  have hreported : reported (requestOf env s) reply i = match (minkParam env s i).memObj with
    | some _ => (reply.memSzOut i).toUInt64
    | none => reply.lenOut i := rfl
  have hparams : (requestOf env s).params i = minkParam env s i := rfl
  have hstate : (requestOf env s).state = s := rfl
  rw [hreported]
  simp only [storeReply, storeLen, hparams, hstate]
  generalize minkParam env s i = m at *
  rcases hout : m.outBuf.lenOut with _ | _
  · simp
  rcases hmo : m.memObj with _ | mo
  · simp [hsizes hmo]
  have hzero : reply.lenOut i = 0 := by
    rw [hlen mo hmo] at hlens
    exact UInt64.le_zero_iff.mp hlens
  by_cases hsz : reply.memSzOut i = 0
  · simp [hsz, hzero]
  · simp [hsz]

theorem sameRefs_storeReply {w : State} : SameRefs w (storeReply (requestOf env w) reply) := by
  have hsame : SameRefs (requestOf env w).state (minkCall (requestOf env w) (.ok reply)).1 :=
    sameRefs_minkCall
  exact hsame

theorem size_of_restorable {w : State} (h : Restorable w i) :
    ((memrefTempFromPartialParams (storeReply (requestOf env w) reply)).params i).size =
      (w.parent i).size := by
  have hsame : SameRefs w (storeReply (requestOf env w) reply) := sameRefs_storeReply
  have hslot : (memrefTempFromPartialParams (storeReply (requestOf env w) reply)).slot i = _ :=
    slot_undone
  rw [undone, if_pos (hsame.restorable.mpr h), hsame.parent] at hslot
  exact congrArg (fun x => x.2.size) hslot

theorem size_of_not_restorable {w : State} (h : ¬ Restorable w i)
    (hvalid : reply.Valid (requestOf env w)) :
    ((memrefTempFromPartialParams (storeReply (requestOf env w) reply)).params i).size =
      match (minkParam env w i).outBuf.lenOut with
      | .paramSize => reported (requestOf env w) reply i
      | .own => (w.params i).size := by
  have hsame : SameRefs w (storeReply (requestOf env w) reply) := sameRefs_storeReply
  have hslot : (memrefTempFromPartialParams (storeReply (requestOf env w) reply)).slot i = _ :=
    slot_undone
  rw [undone, if_neg (hsame.restorable.not.mpr h)] at hslot
  rw [← stored_size hvalid]
  exact congrArg (fun x => x.2.size) hslot

theorem minkParam_temp (h : isTemp (s.typeAt i)) :
    minkParam env s i = processMemrefTemp (s.typeAt i) (s.params i) := by
  have hvalue : isValue (s.typeAt i) = false := by
    generalize s.typeAt i = t at h
    decide +revert
  simp [minkParam, hvalue, h]

theorem lenOut_temp (h : isTemp (s.typeAt i)) : (minkParam env s i).outBuf.lenOut = .paramSize := by
  rw [minkParam_temp h, processMemrefTemp]
  split_ifs <;> rfl

theorem processRegistered_lenOut {shm : SharedMemory} {range : MemoryObjectParams} {output : Bool}
    {shared : Nat → Option (Fin 4)} : (processRegistered shm range output shared).outBuf.lenOut =
      if output then .paramSize else .own := by
  unfold processRegistered
  split
  · rfl
  · cases output <;> rfl

theorem lenOut_partialRef (h : isPartial (s.typeAt i)) : (minkParam env s i).outBuf.lenOut =
    if s.typeAt i = memrefPartialInput then .own else .paramSize := by
  have hparams : minkParam env s i = processMemrefPartial env i s := requestOf_partialRef h
  rw [hparams, processMemrefPartial, processRegistered_lenOut]
  generalize s.typeAt i = t at h
  decide +revert

theorem lenOut_whole (h : s.typeAt i = memrefWhole) (hflags : (s.parent i).flags &&& memOutput ≠ 0) :
    (minkParam env s i).outBuf.lenOut = .paramSize := by
  have hparams : minkParam env s i = processMemrefWhole env i s := requestOf_wholeRef h
  rw [hparams, processMemrefWhole, processRegistered_lenOut]
  simp [hflags]

end Stored

section Replies

def noSizes : Reply := ⟨fun _ => 0, fun _ => 0, 0⟩

def fullSizes (r : Request) : Reply where
  lenOut i := (r.params i).outBuf.len
  memSzOut i := if (r.params i).memObj = none then 0 else 1
  result := 0

theorem noSizes_valid : noSizes.Valid r := ⟨fun _ => UInt64.zero_le, fun _ _ => rfl⟩

theorem fullSizes_valid : (fullSizes r).Valid r := ⟨fun _ => UInt64.le_refl _, fun _ h => if_pos h⟩

theorem reported_noSizes : reported r noSizes i = 0 := by
  unfold reported
  split <;> rfl

end Replies

section Situations

variable {w : State}

def afterReply (env : Env) (w : State) (reply : Reply) : State :=
  memrefTempFromPartialParams (storeReply (requestOf env w) reply)

section

variable (hvalid : reply.Valid (requestOf env w))
include hvalid

theorem size_temp (h : isTemp (w.typeAt i)) :
    ((afterReply env w reply).params i).size = reported (requestOf env w) reply i := by
  have hrest : ¬ Restorable w i := fun hr =>
    Bool.false_ne_true ((isPartial_eq_false h).symm.trans hr.1)
  rw [afterReply, size_of_not_restorable hrest hvalid, lenOut_temp h]

theorem size_tempInput (h : w.typeAt i = memrefTempInput) :
    ((afterReply env w reply).params i).size = 0 := by
  have htemp : isTemp (w.typeAt i) := by rw [h]; decide
  have hparam : (requestOf env w).params i = processMemrefTemp (w.typeAt i) (w.params i) :=
    minkParam_temp htemp
  have hlen := hvalid.lens i
  rw [size_temp hvalid htemp, reported, hparam]
  rw [hparam, h] at hlen
  exact UInt64.le_zero_iff.mp hlen

theorem size_partialOutput (h : isPartial (w.typeAt i))
    (hout : w.typeAt i ≠ memrefPartialInput) (hmark : (w.parent i).converted = 0) :
    ((afterReply env w reply).params i).size = reported (requestOf env w) reply i := by
  have hrest : ¬ Restorable w i := fun hr => hr.2 hmark
  rw [afterReply, size_of_not_restorable hrest hvalid, lenOut_partialRef h, if_neg hout]

theorem size_partialInput
    (h : w.typeAt i = memrefPartialInput) (hmark : (w.parent i).converted = 0) :
    ((afterReply env w reply).params i).size = (w.params i).size := by
  have hrest : ¬ Restorable w i := fun hr => hr.2 hmark
  have hpart : isPartial (w.typeAt i) := by rw [h]; decide
  rw [afterReply, size_of_not_restorable hrest hvalid, lenOut_partialRef hpart, if_pos h]

theorem size_whole (h : w.typeAt i = memrefWhole) (hflags : (w.parent i).flags &&& memOutput ≠ 0) :
    ((afterReply env w reply).params i).size = reported (requestOf env w) reply i := by
  have hrest : ¬ Restorable w i := by
    rintro ⟨hr, -⟩
    rw [h] at hr
    exact absurd hr (by decide)
  rw [afterReply, size_of_not_restorable hrest hvalid, lenOut_whole h hflags]

end

theorem partial_memObj (h : isPartial (w.typeAt i)) :
    ((requestOf env w).params i).memObj = (w.parent i).memObj := by
  rw [requestOf_partialRef h, processMemrefPartial, processRegistered]
  split <;> simp [*, minkParamInit]

theorem partial_len (h : isPartial (w.typeAt i)) (hmo : (w.parent i).memObj = none) :
    ((requestOf env w).params i).outBuf.len =
      if w.typeAt i = memrefPartialInput then 0 else (w.params i).size := by
  rw [requestOf_partialRef h, processMemrefPartial, processRegistered, hmo]
  dsimp only
  by_cases hin : w.typeAt i = memrefPartialInput
  · rw [hin]
    rfl
  · have hout : (w.typeAt i == memrefPartialOutput || w.typeAt i == memrefPartialInout) = true := by
      generalize w.typeAt i = t at h hin
      decide +revert
    rw [if_neg hin, if_pos hout]

theorem reported_le (hvalid : reply.Valid (requestOf env w)) (h : isPartial (w.typeAt i))
    (hmo : (w.parent i).memObj = none) : reported (requestOf env w) reply i ≤ (w.params i).size := by
  have hlen := hvalid.lens i
  rw [partial_len h hmo] at hlen
  rw [reported, partial_memObj h, hmo]
  split_ifs at hlen
  · exact UInt64.le_trans hlen UInt64.zero_le
  · exact hlen

theorem reported_fullSizes (h : isPartial (w.typeAt i)) (hout : w.typeAt i ≠ memrefPartialInput)
    (hzero : reported (requestOf env w) (fullSizes (requestOf env w)) i = 0) :
    (w.params i).size = 0 ∧ (w.parent i).memObj = none := by
  rcases hmo : (w.parent i).memObj with _ | mo
  · have hmo' : ((requestOf env w).params i).memObj = _ := (partial_memObj h).trans hmo
    rw [reported, hmo'] at hzero
    have hlen : ((requestOf env w).params i).outBuf.len = (w.params i).size := by
      rw [partial_len h hmo, if_neg hout]
    exact ⟨hlen.symm.trans hzero, rfl⟩
  · have hmo' : ((requestOf env w).params i).memObj = _ := (partial_memObj h).trans hmo
    rw [reported] at hzero
    simp [fullSizes, hmo'] at hzero

end Situations

section TypeCases

variable {t : BitVec 4}

theorem output_cases (h : isOutputType t) : (isTemp t ∧ t ≠ memrefTempInput) ∨
    (isPartial t ∧ t ≠ memrefPartialInput) := by
  decide +revert

theorem temp_output (h : isTemp t) (hne : t ≠ memrefTempInput) :
    t = memrefTempOutput ∨ t = memrefTempInout := by
  decide +revert

theorem partial_output (h : isPartial t) (hne : t ≠ memrefPartialInput) :
    t = memrefPartialOutput ∨ t = memrefPartialInout := by
  decide +revert

theorem isTemp_of_output (h : t = memrefTempOutput ∨ t = memrefTempInout) :
    isTemp t ∧ isOutputType t := by
  decide +revert

theorem isPartial_of_output (h : t = memrefPartialOutput ∨ t = memrefPartialInout) :
    isPartial t ∧ isOutputType t ∧ t ≠ memrefPartialInput := by
  decide +revert

theorem or_eight_ne_input (h : isTemp t) (hne : t ≠ memrefTempInput) :
    t ||| 8 ≠ memrefPartialInput := by
  decide +revert

end TypeCases

section AllConverted

variable {w : State} (hconv : Converted env ctx (List.finRange 4) s w)
include hconv

theorem converted_large (hl : Large s i) :
    ((afterReply env w reply).params i).size = (s.params i).size := by
  obtain ⟨hrest, hundone⟩ := hconv.restores (List.mem_finRange i) hl
  rw [afterReply, size_of_restorable hrest]
  rw [undone, if_pos hrest] at hundone
  exact congrArg (fun x => x.2.size) hundone

theorem converted_small (hl : ¬ Large s i) : w.slot i = s.slot i := hconv.kept i fun h => hl h.2

theorem sizeOk_of_keepsConverted (hfresh : env.Fresh s) (hkeeps : KeepsConverted s i)
    (hvalid : reply.Valid (requestOf env w)) :
    SizeOk s (afterReply env w reply) (requestOf env w) reply i := by
  obtain ⟨hinput, houtput, hpart⟩ := hkeeps
  constructor
  · rintro (htype | ⟨hwhole, hflags⟩)
    · rcases output_cases htype with ⟨htemp, hne⟩ | ⟨hp, hne⟩
      · have hsmall : ¬ Large s i := fun hl =>
          UInt64.not_lt.mpr (houtput (temp_output htemp hne)) hl.2
        have hsame := typeAt_congr (converted_small hconv hsmall)
        exact size_temp hvalid (hsame ▸ htemp)
      · obtain ⟨hslot, hparent⟩ := hconv.registered_kept hfresh (isRegistered_of_isPartial hp)
        have hsame := typeAt_congr hslot
        rcases hpart (partial_output hp hne) with hmark | ⟨hempty, hsize, hmo⟩
        · exact size_partialOutput hvalid (hsame ▸ hp) (hsame ▸ hne) (hparent ▸ hmark)
        have hparam := params_congr hslot
        rw [← hparent] at hempty hmo
        have hzero : reported (requestOf env w) reply i = 0 := by
          have hle := reported_le hvalid (hsame ▸ hp) hmo
          rw [hparam, hsize] at hle
          exact UInt64.le_zero_iff.mp hle
        by_cases hmark : (w.parent i).converted = 0
        · exact size_partialOutput hvalid (hsame ▸ hp) (hsame ▸ hne) hmark
        · rw [hzero, ← hempty]
          exact size_of_restorable ⟨hsame ▸ hp, hmark⟩
    · have hreg : isRegistered (s.typeAt i) := by rw [hwhole]; decide
      obtain ⟨hslot, hparent⟩ := hconv.registered_kept hfresh hreg
      have hsame := typeAt_congr hslot
      exact size_whole hvalid (hsame.trans hwhole) (hparent ▸ hflags)
  · intro htype
    by_cases hl : Large s i
    · exact converted_large hconv hl
    have hsame := typeAt_congr (converted_small hconv hl)
    have htemp : isTemp (s.typeAt i) := by rw [htype]; decide
    rw [size_tempInput hvalid (hsame.trans htype)]
    rcases hinput htype with hzero | hlarge
    · exact hzero.symm
    · exact absurd ⟨htemp, hlarge⟩ hl

theorem keepsConverted_of_sizeOk (hfresh : env.Fresh s)
    (h : ∀ reply, reply.Valid (requestOf env w) →
      SizeOk s (afterReply env w reply) (requestOf env w) reply i) : KeepsConverted s i := by
  have hno := h noSizes noSizes_valid
  refine ⟨fun htype => ?_, fun htype => ?_, fun htype => ?_⟩
  · by_cases hl : Large s i
    · exact .inr hl.2
    · have hsame := typeAt_congr (converted_small hconv hl)
      refine .inl ?_
      rw [← hno.2 htype]
      exact size_tempInput noSizes_valid (hsame.trans htype)
  · obtain ⟨htemp, hout⟩ := isTemp_of_output htype
    by_contra hlt
    have hl : Large s i := ⟨htemp, UInt64.not_le.mp hlt⟩
    have hzero := hno.1 (.inl hout)
    rw [converted_large hconv hl, reported_noSizes] at hzero
    rw [hzero] at hlt
    exact hlt (by decide)
  · obtain ⟨hp, hout, hne⟩ := isPartial_of_output htype
    obtain ⟨hslot, hparent⟩ := hconv.registered_kept hfresh (isRegistered_of_isPartial hp)
    have hsame := typeAt_congr hslot
    have hparam := params_congr hslot
    by_cases hmark : (s.parent i).converted = 0
    · exact .inl hmark
    right
    have hrest : Restorable w i := ⟨hsame ▸ hp, hparent ▸ hmark⟩
    have hzero : (s.parent i).size = 0 := by
      rw [← hparent, ← size_of_restorable hrest, ← reported_noSizes]
      exact hno.1 (.inl hout)
    have hfull := (h _ fullSizes_valid).1 (.inl hout)
    rw [afterReply, size_of_restorable hrest, hparent, hzero] at hfull
    obtain ⟨hsize, hmo⟩ := reported_fullSizes (hsame ▸ hp) (hsame ▸ hne) hfull.symm
    exact ⟨hzero, hparam ▸ hsize, hparent ▸ hmo⟩

end AllConverted

section ConversionUndone

variable {pre : List (Fin 4)} {t u : State} (hf : f ∉ pre) (hlarge : Large s f)
  (hconv : Converted env ctx pre s t) (hstuck : Stuck env t f u) (hfresh : env.Fresh s)
include hf hlarge hconv hstuck hfresh

theorem undone_temp (htemp : isTemp (s.typeAt i)) :
    ((memrefTempFromPartialParams u).typeAt i = s.typeAt i ∧ ¬ (i = f ∧ Unmarked env s f)) ∨
      ((i = f ∧ Unmarked env s f) ∧ (memrefTempFromPartialParams u).typeAt i = s.typeAt i ||| 8 ∧
        ((memrefTempFromPartialParams u).parent i).converted = 0 ∧
        ((memrefTempFromPartialParams u).params i).size = (s.params i).size) := by
  by_cases hif : i = f
  · subst hif
    cases hstuck with
    | noBlock hnone =>
      refine .inl ⟨?_, ?_⟩
      · rw [typeAt_undone, undone_of_kept (hconv.kept i fun hc => hf hc.1) (isPartial_eq_false htemp)]
        rfl
      · rintro ⟨-, p, hp, -⟩
        simp [hnone] at hp
    | noObject p hp =>
      obtain ⟨hblock, hself⟩ := stuck_self hconv hf hlarge hfresh.inj hp
      by_cases hmark : (s.shm p).converted = 0
      · right
        rw [if_neg (not_not_intro hmark)] at hself
        have hparam : (memrefTempFromPartialParams (pending t i p)).params i =
            ⟨p, (s.params i).size, 0⟩ := congrArg Prod.snd (slot_undone.trans hself)
        refine ⟨⟨rfl, p, hp, hmark⟩, by rw [typeAt_undone, hself], ?_, by rw [hparam]⟩
        rw [State.parent, hparam, undone_params.shm, hblock]
        exact hmark
      · refine .inl ⟨by rw [typeAt_undone, hself, if_pos hmark], ?_⟩
        rintro ⟨-, q, hq, hmark'⟩
        obtain rfl : p = q := Option.some.inj (hp.symm.trans hq)
        exact hmark hmark'
  · refine .inl ⟨?_, fun h => hif h.1⟩
    rw [typeAt_undone]
    exact (stuck_other hconv hstuck hfresh.inj hif (isPartial_eq_false htemp)).1

theorem sizeOk_of_keepsUndone (hkeeps : KeepsUndone env s f i)
    (hvalid : reply.Valid (requestOf env (memrefTempFromPartialParams u))) :
    SizeOk s (afterReply env (memrefTempFromPartialParams u) reply)
      (requestOf env (memrefTempFromPartialParams u)) reply i := by
  constructor
  · rintro (htype | ⟨hwhole, hflags⟩)
    · rcases output_cases htype with ⟨htemp, hne⟩ | ⟨hp, hne⟩
      · rcases undone_temp hf hlarge hconv hstuck hfresh htemp with ⟨hsame, -⟩ | ⟨-, hor, hmark, -⟩
        · exact size_temp hvalid (hsame ▸ htemp)
        · exact size_partialOutput hvalid (hor ▸ isPartial_of_isTemp htemp)
            (hor ▸ or_eight_ne_input htemp hne) hmark
      · by_cases hmark : (s.parent i).converted = 0
        · obtain ⟨hslot, hparent⟩ := undone_registered hfresh hconv hlarge hstuck
            (isRegistered_of_isPartial hp) fun _ => hmark
          have hsame := typeAt_congr hslot
          exact size_partialOutput hvalid (hsame ▸ hp) (hsame ▸ hne) (hparent ▸ hmark)
        · have hslot := slot_undone.trans (stuck_partialRef hconv hlarge hstuck hfresh hp)
          rw [if_pos hmark] at hslot
          have hxor : (memrefTempFromPartialParams u).typeAt i = s.typeAt i ^^^ 8 :=
            congrArg Prod.fst hslot
          exact size_temp hvalid (hxor ▸ isTemp_of_isPartial hp)
    · have hreg : isRegistered (s.typeAt i) := by rw [hwhole]; decide
      have hnot : isPartial (s.typeAt i) → (s.parent i).converted = 0 := fun hp => by
        rw [hwhole] at hp
        exact absurd hp (by decide)
      obtain ⟨hslot, hparent⟩ := undone_registered hfresh hconv hlarge hstuck hreg hnot
      have hsame := typeAt_congr hslot
      exact size_whole hvalid (hsame.trans hwhole) (hparent ▸ hflags)
  · intro htype
    have htemp : isTemp (s.typeAt i) := by rw [htype]; decide
    rcases undone_temp hf hlarge hconv hstuck hfresh htemp with ⟨hsame, hnot⟩ | ⟨-, hor, hmark, hsize⟩
    · rw [size_tempInput hvalid (hsame.trans htype)]
      exact ((hkeeps htype).resolve_right hnot).symm
    · rw [htype] at hor
      exact (size_partialInput hvalid hor hmark).trans hsize

theorem keepsUndone_of_sizeOk
    (h : ∀ reply, reply.Valid (requestOf env (memrefTempFromPartialParams u)) →
      SizeOk s (afterReply env (memrefTempFromPartialParams u) reply)
        (requestOf env (memrefTempFromPartialParams u)) reply i) : KeepsUndone env s f i := by
  intro htype
  have htemp : isTemp (s.typeAt i) := by rw [htype]; decide
  have hno := (h noSizes noSizes_valid).2 htype
  rcases undone_temp hf hlarge hconv hstuck hfresh htemp with ⟨hsame, -⟩ | ⟨hleft, -⟩
  · left
    rw [← hno]
    exact size_tempInput noSizes_valid (hsame.trans htype)
  · exact .inr hleft

end ConversionUndone

theorem call_of_request (h : k.request env ctx s.start = .ok r) :
    (k.call env ctx (.ok reply) s).1 = memrefTempFromPartialParams (storeReply r reply) := by
  rw [Entry.call, h]
  rfl

theorem fails_none_iff : (List.finRange 4).find? (Fails env s ·) = none ↔ AllConvert env s := by
  rw [List.find?_eq_none]
  constructor
  · intro h i hl
    have hnot : ¬ Fails env s i := by simpa using h i (List.mem_finRange i)
    constructor
    · by_contra hp
      exact hnot ⟨hl, .inl (by simpa using hp)⟩
    · by_contra ho
      exact hnot ⟨hl, .inr (by simpa using ho)⟩
  · intro h i _ hfails
    obtain ⟨hl, hnone⟩ := of_decide_eq_true hfails
    obtain ⟨hp, ho⟩ := h i hl
    rcases hnone with hnone | hnone
    · simp [Option.isNone_iff_eq_none.mp hnone] at hp
    · simp [Option.isNone_iff_eq_none.mp hnone] at ho

theorem fails_first {pre post : List (Fin 4)} {t u : State}
    (hsplit : List.finRange 4 = pre ++ f :: post) (hlarge : Large s f)
    (hconv : Converted env ctx pre s t) (hstuck : Stuck env t f u) :
    (List.finRange 4).find? (Fails env s ·) = some f := by
  refine List.find?_eq_some_iff_append.mpr ⟨?_, pre, post, hsplit, fun i hi => ?_⟩
  · refine decide_eq_true ⟨hlarge, ?_⟩
    cases hstuck with
    | noBlock hnone => exact .inl (Option.isNone_iff_eq_none.mpr hnone)
    | noObject p _ hnone => exact .inr (Option.isNone_iff_eq_none.mpr hnone)
  · have hnot : ¬ Fails env s i := by
      rintro ⟨hl, hnone⟩
      obtain ⟨p, o, hp, ho, -⟩ := hconv.conv i hi hl
      simp [hp, ho] at hnone
    simp [hnot]

theorem sizesReported_iff_of_request (hfresh : env.Fresh s)
    (hreq : k.request env ctx s.start = .ok r) : SizesReported k env ctx s ↔ KeepsSizes k env s := by
  have hreported : SizesReported k env ctx s ↔ ∀ i reply, reply.Valid r →
      SizeOk s.start (memrefTempFromPartialParams (storeReply r reply)) r reply i := by
    constructor
    · intro h i reply hvalid
      have hok := h r hreq reply hvalid i
      rwa [call_of_request hreq] at hok
    · intro h r' hr' reply hvalid i
      obtain rfl : r = r' := Except.ok.inj (hreq.symm.trans hr')
      rw [call_of_request hreq]
      exact h i reply hvalid
  have hfresh' : env.Fresh s.start := ⟨hfresh.inj, hfresh.client⟩
  change _ ↔ KeepsSizes k env s.start
  rw [hreported]
  cases sent_of_request hfresh.inj hreq with
  | converted k w hconv =>
    have hnone : (List.finRange 4).find? (Fails env s.start ·) = none :=
      fails_none_iff.mpr hconv.allConvert
    rw [KeepsSizes, hnone]
    exact forall_congr' fun i => ⟨keepsConverted_of_sizeOk hconv hfresh',
      fun h reply hvalid => sizeOk_of_keepsConverted hconv hfresh' h hvalid⟩
  | undone pre post f t u hsplit hlarge hconv hstuck =>
    have hfirst : (List.finRange 4).find? (Fails env s.start ·) = some f :=
      fails_first hsplit hlarge hconv hstuck
    have hf := notMem_of_split hsplit
    rw [KeepsSizes, hfirst]
    constructor
    · exact fun h _ i => keepsUndone_of_sizeOk hf hlarge hconv hstuck hfresh' (h i)
    · exact fun h i reply hvalid =>
        sizeOk_of_keepsUndone hf hlarge hconv hstuck hfresh' (h rfl i) hvalid

/-- The client sees the sizes the application reported exactly if no reference is one of
those whose size is not carried back. -/
theorem sizes_reported_iff (hfresh : env.Fresh s) :
    SizesReported k env ctx s ↔ KeepsSizes k env s := by
  by_cases hreq : ∃ r, k.request env ctx s.start = .ok r
  · obtain ⟨r, hr⟩ := hreq
    exact sizesReported_iff_of_request hfresh hr
  -- a session was to be opened, and a reference could not be converted
  have hnot : ¬ (AllConvert env s.start ∨ k = .invokeCommand) := fun h =>
    hreq (request_exists hfresh.inj h)
  refine iff_of_true (fun r hr => absurd ⟨r, hr⟩ hreq) ?_
  unfold KeepsSizes
  split
  · next hnone => exact absurd (.inl (fails_none_iff.mp hnone)) hnot
  · exact fun hk => absurd (.inr hk) hnot

section Samples

def sampleRef (paramTypes : BitVec 32) (size : UInt64) : State where
  paramTypes := paramTypes
  params _ := ⟨0x20000, size, 0⟩
  shm _ := ⟨0, 0, 0, 0, 0, 0, none⟩
  log := []

theorem sizes_reported_sample : SizesReported .invokeCommand sampleEnv 1 (sampleRef 0x6 16) := by
  refine (sizes_reported_iff (sampleEnv_fresh _)).mpr ?_
  have hnone : (List.finRange 4).find? (Fails sampleEnv (sampleRef 0x6 16) ·) = none := by decide
  rw [KeepsSizes, hnone]
  unfold KeepsConverted
  decide

theorem sizes_not_reported : ¬ SizesReported .invokeCommand sampleEnv 1 (sampleRef 0x5 16) ∧
    ((Entry.invokeCommand.call sampleEnv 1 (.ok noSizes) (sampleRef 0x5 16)).1.params 0).size = 0 ∧
    ((Entry.openSession.call (sampleAlloc (some 7)) 1 (.ok { noSizes with memSzOut := fun _ => 100 })
      (sampleRef 0x6 0x2000)).1.params 0).size = 0x2000 := by
  refine ⟨fun h => ?_, by decide, by decide⟩
  have hsize := (h _ rfl noSizes noSizes_valid 0).2 (by decide)
  revert hsize
  decide

end Samples

end MinkIpc.Teec
