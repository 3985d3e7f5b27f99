import MinkIpc.TeecConversion

/-! Where the memory references of an accepted operation point. The bound on a partial
reference is checked with 64-bit arithmetic and relied upon when the request is built. -/

namespace MinkIpc.Teec

variable {env : Env} {ctx : UInt64} {s : State} {i : Fin 4} {k : Entry} {r : Request}
  {shm : SharedMemory} {len : UInt64}

def Accepted (ctx : UInt64) (s : State) : Prop :=
  verifyParamTypes s.paramTypes = success ∧ verifyParams ctx s = success

instance : Decidable (Accepted ctx s) := inferInstanceAs (Decidable (_ ∧ _))

def BufferWithin (shm : SharedMemory) (len : UInt64) : Buffer → Prop
  | .address a => (a - shm.buffer).toNat + len.toNat ≤ shm.size.toNat
  | _ => True

/-- What is handed over for a registered reference lies inside its block: the part of the
memory object, or the input and the output buffer. -/
def Within (shm : SharedMemory) (m : MinkParameter) : Prop :=
  match m.memObj with
  | some _ => m.memObjParams.offset.toNat + m.memObjParams.size.toNat ≤ shm.size.toNat
  | none => BufferWithin shm m.inBuf.len m.inBuf.buf ∧ BufferWithin shm m.outBuf.len m.outBuf.buf

instance : DecidablePred (BufferWithin shm len)
  | .address _ => inferInstanceAs (Decidable (_ ≤ _))
  | .null | .value | .memObjParams => instDecidableTrue

instance {m : MinkParameter} : Decidable (Within shm m) := by
  unfold Within
  split <;> infer_instance

def Request.Contained (r : Request) : Prop :=
  ∀ i, isRegistered (r.state.typeAt i) → Within (r.state.parent i) (r.params i)

/-- A partial reference of the client is sent as one, not undone into a temporary reference before.
-/
def SentPartial (k : Entry) (env : Env) (s : State) (i : Fin 4) : Prop :=
  AllConvert env s ∨ (k = .invokeCommand ∧ (s.parent i).converted = 0)

theorem within_processRegistered {range : MemoryObjectParams} {output : Bool}
    {shared : Nat → Option (Fin 4)} : Within shm (processRegistered shm range output shared) ↔
      range.offset.toNat + range.size.toNat ≤ shm.size.toNat := by
  unfold processRegistered
  rcases hmo : shm.memObj with _ | mo
  · have hsub : shm.buffer + range.offset - shm.buffer = range.offset := by
      rw [UInt64.add_comm, UInt64.add_sub_cancel]
    cases output <;> simp [Within, BufferWithin, minkParamInit, hsub]
  · rfl

theorem requestOf_partialRef (hi : isPartial (s.typeAt i)) :
    (requestOf env s).params i = processMemrefPartial env i s := by
  change minkParam env s i = _
  have hvalue : isValue (s.typeAt i) = false := by
    generalize s.typeAt i = t at hi
    decide +revert
  have htemp : isTemp (s.typeAt i) = false := by
    generalize s.typeAt i = t at hi
    decide +revert
  simp [minkParam, hvalue, htemp, hi]

theorem requestOf_wholeRef (hi : s.typeAt i = memrefWhole) :
    (requestOf env s).params i = processMemrefWhole env i s := by
  change minkParam env s i = _
  simp only [minkParam, hi]
  rfl

theorem within_requestOf (hi : isRegistered (s.typeAt i)) :
    Within (s.parent i) ((requestOf env s).params i) ↔ (isPartial (s.typeAt i) →
        (s.params i).offset.toNat + (s.params i).size.toNat ≤ (s.parent i).size.toNat) := by
  by_cases hpart : isPartial (s.typeAt i)
  · rw [requestOf_partialRef hpart, processMemrefPartial, within_processRegistered]
    exact ⟨fun h _ => h, fun h => h hpart⟩
  · have hwhole : s.typeAt i = memrefWhole := by simpa [isRegistered, hpart] using hi
    rw [requestOf_wholeRef hwhole, processMemrefWhole, within_processRegistered]
    simp [hpart]

theorem Accepted.partial_end (h : Accepted ctx s) (hi : isPartial (s.typeAt i)) :
    (s.params i).offset + (s.params i).size ≤ (s.parent i).size := by
  have hall := h.2
  unfold verifyParams at hall
  split at hall
  · next hverified =>
    have hparam := List.all_eq_true.mp hverified i (List.mem_finRange i)
    rw [if_pos (.inr hi)] at hparam
    have hshm : verifyShm (s.params i) (s.parent i) ctx (s.typeAt i) = true := by
      exact (Bool.and_eq_true_iff.mp hparam).2
    have hwhole : s.typeAt i ≠ memrefWhole := by
      generalize s.typeAt i = t at hi
      decide +revert
    unfold verifyShm at hshm
    split_ifs at hshm with h1 h2 h3 h4
    exact UInt64.not_lt.mp fun hlt => h4 ⟨hwhole, hlt⟩
  · cases hall

theorem Accepted.inside_iff (h : Accepted ctx s) (hi : isPartial (s.typeAt i)) :
    (s.params i).offset.toNat + (s.params i).size.toNat ≤ (s.parent i).size.toNat ↔
      (s.params i).offset.toNat + (s.params i).size.toNat < 2 ^ 64 := by
  have hend := UInt64.le_iff_toNat_le.mp (h.partial_end hi)
  rw [UInt64.toNat_add] at hend
  have hsize := (s.parent i).size.toNat_lt
  constructor
  · intro hle
    omega
  · intro hlt
    rwa [Nat.mod_eq_of_lt hlt] at hend

section Sent

theorem Sent.within_iff (h : Sent env ctx s k r) (hi : isRegistered (r.state.typeAt i)) :
    Within (r.state.parent i) (r.params i) ↔ (isPartial (r.state.typeAt i) →
      (r.state.params i).offset.toNat + (r.state.params i).size.toNat ≤
        (r.state.parent i).size.toNat) := by
  cases h <;> exact within_requestOf hi

theorem parent_of_slot {s' : State} (hslot : s'.slot i = s.slot i)
    (hshm : s'.shm (s.params i).pointer = s.parent i) : s'.parent i = s.parent i := by
  have hparam := params_congr hslot
  rw [State.parent, hparam, hshm]

variable (hfresh : env.Fresh s)
include hfresh

variable {pre : List (Fin 4)}

theorem undone_registered {f : Fin 4} {t u : State} (hconv : Converted env ctx pre s t)
    (hlarge : Large s f) (hstuck : Stuck env t f u) (hi : isRegistered (s.typeAt i))
    (hmark : isPartial (s.typeAt i) → (s.parent i).converted = 0) :
    (memrefTempFromPartialParams u).slot i = s.slot i ∧
      (memrefTempFromPartialParams u).parent i = s.parent i := by
  obtain ⟨hslot, hparent⟩ := stuck_registered hconv hlarge hstuck hfresh hi
  have htype := typeAt_congr hslot
  have hrest : ¬ Restorable u i := by
    rintro ⟨hpart, hne⟩
    rw [htype] at hpart
    rw [hparent] at hne
    exact hne (hmark hpart)
  have hundone : (memrefTempFromPartialParams u).slot i = s.slot i := by
    rw [slot_undone, undone, if_neg hrest, hslot]
  refine ⟨hundone, parent_of_slot hundone ?_⟩
  have hparam := params_congr hslot
  rw [undone_params.shm, ← hparent, State.parent, hparam]

theorem Sent.partial_kept (h : Sent env ctx s k r) (hi : isPartial (s.typeAt i))
    (hsent : SentPartial k env s i) :
    r.state.slot i = s.slot i ∧ r.state.parent i = s.parent i := by
  have hreg := isRegistered_of_isPartial hi
  cases h with
  | converted k s' hconv => exact hconv.registered_kept hfresh hreg
  | undone pre post f t u hsplit hlarge hconv hstuck =>
    rcases hsent with hall | ⟨-, hmark⟩
    · exact absurd hall (hstuck.not_allConvert hlarge)
    · exact undone_registered hfresh hconv hlarge hstuck hreg fun _ => hmark

omit hfresh in
theorem Converted.new_whole {s' : State} (hconv : Converted env ctx pre s s')
    (hi : isRegistered (s'.typeAt i)) (hnew : ¬ isRegistered (s.typeAt i)) :
    (s'.params i).offset = 0 ∧ (s'.params i).size = (s'.parent i).size := by
  by_cases hl : i ∈ pre ∧ Large s i
  · obtain ⟨p, o, -, -, hslot, hblock, -⟩ := hconv.conv i hl.1 hl.2
    have hparam : s'.params i = ⟨p, (s.params i).size, 0⟩ := congrArg Prod.snd hslot
    rw [State.parent, hparam, hblock]
    exact ⟨rfl, rfl⟩
  · have htype := typeAt_congr (hconv.kept i hl)
    exact absurd (htype ▸ hi) hnew

theorem undone_new {f : Fin 4} {t u : State} (hf : f ∉ pre) (hconv : Converted env ctx pre s t)
    (hlarge : Large s f) (hstuck : Stuck env t f u)
    (hi : isRegistered ((memrefTempFromPartialParams u).typeAt i))
    (hnew : ¬ isRegistered (s.typeAt i)) :
    ((memrefTempFromPartialParams u).params i).offset = 0 ∧
      ((memrefTempFromPartialParams u).params i).size =
        ((memrefTempFromPartialParams u).parent i).size := by
  have hpart : isPartial (s.typeAt i) = false :=
    Bool.eq_false_iff.mpr fun h => hnew (isRegistered_of_isPartial h)
  by_cases hif : i = f
  · subst hif
    cases hstuck with
    | noBlock =>
      rw [typeAt_undone, undone_of_kept (hconv.kept i fun hc => hf hc.1) hpart] at hi
      exact absurd hi hnew
    | noObject p hp =>
      obtain ⟨hblock, hself⟩ := stuck_self hconv hf hlarge hfresh.inj hp
      split at hself
      · rw [typeAt_undone, hself] at hi
        exact absurd hi hnew
      have hslot := slot_undone.trans hself
      have hparam := congrArg Prod.snd hslot
      dsimp only [State.slot] at hparam
      rw [State.parent, hparam, undone_params.shm, hblock]
      exact ⟨rfl, rfl⟩
  · obtain ⟨hsame, -⟩ := stuck_other hconv hstuck hfresh.inj hif hpart
    rw [typeAt_undone, hsame] at hi
    exact absurd hi hnew

theorem Sent.registered (h : Sent env ctx s k r) (hi : isRegistered (r.state.typeAt i)) :
    (r.state.slot i = s.slot i ∧ r.state.parent i = s.parent i ∧
        (isPartial (s.typeAt i) → SentPartial k env s i)) ∨
      ((r.state.params i).offset = 0 ∧ (r.state.params i).size = (r.state.parent i).size) := by
  by_cases hreg : isRegistered (s.typeAt i)
  · left
    cases h with
    | converted k s' hconv =>
      obtain ⟨hslot, hparent⟩ := hconv.registered_kept hfresh hreg
      exact ⟨hslot, hparent, fun _ => .inl hconv.allConvert⟩
    | undone pre post f t u hsplit hlarge hconv hstuck =>
      have hmark : isPartial (s.typeAt i) → (s.parent i).converted = 0 := by
        intro hpart
        by_contra hne
        have hslot := slot_undone.trans (stuck_partialRef hconv hlarge hstuck hfresh hpart)
        rw [if_pos hne] at hslot
        have htype : (memrefTempFromPartialParams u).typeAt i = s.typeAt i ^^^ 8 :=
          congrArg Prod.fst hslot
        have htemp := isTemp_not_registered (isTemp_of_isPartial hpart)
        rw [← htype] at htemp
        exact Bool.false_ne_true (htemp.symm.trans hi)
      obtain ⟨hslot, hparent⟩ := undone_registered hfresh hconv hlarge hstuck hreg hmark
      exact ⟨hslot, hparent, fun hpart => .inr ⟨rfl, hmark hpart⟩⟩
  · right
    cases h with
    | converted k s' hconv => exact hconv.new_whole hi hreg
    | undone pre post f t u hsplit hlarge hconv hstuck =>
      exact undone_new hfresh (notMem_of_split hsplit) hconv hlarge hstuck hi hreg

end Sent

/-- Every reference of an accepted operation is sent inside its block exactly if no partial
reference that is sent has an end beyond the 64-bit range. -/
theorem request_contained_iff (hfresh : env.Fresh s) (haccepted : Accepted ctx s) :
    (∀ r, k.request env ctx s = .ok r → r.Contained) ↔
      ∀ i, isPartial (s.typeAt i) → SentPartial k env s i →
        (s.params i).offset.toNat + (s.params i).size.toNat < 2 ^ 64 := by
  constructor
  · intro h i hi hsent
    obtain ⟨r, hr⟩ : ∃ r, k.request env ctx s = .ok r :=
      request_exists hfresh.inj (hsent.imp_right And.left)
    have hs : Sent env ctx s k r := sent_of_request hfresh.inj hr
    obtain ⟨hslot, hparent⟩ := hs.partial_kept hfresh hi hsent
    obtain ⟨htype, hparam⟩ := State.slot_eq_iff.mp hslot
    have hreg : isRegistered (r.state.typeAt i) := htype ▸ isRegistered_of_isPartial hi
    have hinside := (hs.within_iff hreg).mp (h r hr i hreg) (htype ▸ hi)
    rw [hparam, hparent] at hinside
    exact (haccepted.inside_iff hi).mp hinside
  · intro h r hr i hi
    have hs : Sent env ctx s k r := sent_of_request hfresh.inj hr
    refine (hs.within_iff hi).mpr fun hpart => ?_
    rcases hs.registered hfresh hi with ⟨hslot, hparent, hsent⟩ | ⟨hoffset, hsize⟩
    · obtain ⟨htype, hparam⟩ := State.slot_eq_iff.mp hslot
      rw [htype] at hpart
      rw [hparam, hparent]
      exact (haccepted.inside_iff hpart).mpr (h i hpart (hsent hpart))
    · rw [hoffset, hsize]
      simp

section Samples

def sampleEnv : Env where
  malloc _ := none
  memObject _ := none
  memObjectInfo _ := none

def sampleBlock : SharedMemory where
  buffer := 0x20000
  size := 4096
  flags := memInput
  ctx := 1
  type := memoryRegistered
  converted := 0
  memObj := none

def samplePartial (offset size : UInt64) : State where
  paramTypes := 0xD
  params _ := ⟨0x1000, size, offset⟩
  shm _ := sampleBlock
  log := []

theorem sampleEnv_fresh (s : State) : sampleEnv.Fresh s where
  inj _ _ _ h := by cases h
  client _ _ h := by cases h

theorem request_contained_samplePartial :
    ∃ r, Entry.invokeCommand.request sampleEnv 1 (samplePartial 16 32) = .ok r ∧ r.Contained := by
  have haccepted : Accepted 1 (samplePartial 16 32) := by decide
  have hwithin : (16 : UInt64).toNat + (32 : UInt64).toNat < 2 ^ 64 := by decide
  obtain ⟨r, hr⟩ : ∃ r, Entry.invokeCommand.request sampleEnv 1 (samplePartial 16 32) = .ok r :=
    ⟨_, rfl⟩
  have hiff := request_contained_iff (k := .invokeCommand) (sampleEnv_fresh _) haccepted
  exact ⟨r, hr, hiff.mpr (fun _ _ _ => hwithin) r hr⟩

/-- An offset that wraps is accepted, and a buffer that starts before the block is sent. -/
theorem request_not_contained : Accepted 1 (samplePartial (0 - 1) 2) ∧
      ∃ r, Entry.invokeCommand.request sampleEnv 1 (samplePartial (0 - 1) 2) = .ok r ∧
        (r.params 0).inBuf = ⟨.address 0x1FFFF, 2, 0⟩ ∧ ¬ r.Contained := by
  refine ⟨by decide, _, rfl, by decide, fun h => ?_⟩
  have hwithin := h 0 (by decide)
  revert hwithin
  decide

end Samples

end MinkIpc.Teec
