import MinkIpc.TeecConversion

/-! What a call leaves of the client's operation, and of what was made for its duration. -/

namespace MinkIpc.Teec

open List

variable {env : Env} {ctx : UInt64} {s w z : State} {i f : Fin 4} {p : UInt64} {o : Nat} {k : Entry}
  {answer : Except Int Reply}

/-- The operation is as before the call up to sizes, nothing of the client's is freed, and
what the conversion made is released once. -/
structure Restored (s z : State) : Prop where
  types : z.paramTypes = s.paramTypes
  refs : ∀ i, isTemp (s.typeAt i) ∨ isRegistered (s.typeAt i) →
    (z.params i).pointer = (s.params i).pointer
  client : ∀ i, isRegistered (s.typeAt i) → .free (s.params i).pointer ∉ z.log
  blocks : ∀ p, .alloc p ∈ z.log → z.log.count (.free p) = 1
  objects : ∀ o, .create o ∈ z.log → z.log.count (.release o) = 1

/-- No partial reference has a marked block, and the first large reference, if there is one,
gets no block, or gets a marked one and no memory object. -/
def Restores (env : Env) (s : State) : Prop :=
  (∀ i, isPartial (s.typeAt i) → (s.parent i).converted = 0) ∧
    ∀ f, (finRange 4).find? (Large s ·) = some f → ∀ p, env.malloc f = some p →
      env.memObject f = none ∧ (s.shm p).converted ≠ 0

section Loop

theorem loop_append {pre rest : List (Fin 4)} (h : ∀ i ∈ pre, ¬ Large s i) :
    memrefTempToPartialLoop env ctx (pre ++ rest) s = memrefTempToPartialLoop env ctx rest s := by
  induction pre with
  | nil => rfl
  | cons i pre ih =>
    obtain ⟨hi, hpre⟩ := forall_mem_cons.mp h
    rw [cons_append, memrefTempToPartialLoop, if_neg hi, ih hpre]

theorem toPartial_none (h : (finRange 4).find? (Large s ·) = none) :
    memrefTempToPartialParams env ctx s = (s, success) := by
  have hnone : ∀ i ∈ finRange 4, ¬ Large s i := fun i hi =>
    of_decide_eq_false (Bool.eq_false_iff.mpr (find?_eq_none.mp h i hi))
  have happend : memrefTempToPartialLoop env ctx (finRange 4 ++ []) s = (s, success) :=
    loop_append hnone
  rwa [append_nil] at happend

variable (env ctx) in
theorem toPartial_first (h : (finRange 4).find? (Large s ·) = some f) : Large s f ∧
    ∃ rest, memrefTempToPartialParams env ctx s = memrefTempToPartialLoop env ctx (f :: rest) s := by
  obtain ⟨hf, pre, rest, hsplit, hpre⟩ := find?_eq_some_iff_append.mp h
  refine ⟨of_decide_eq_true hf, rest, ?_⟩
  have hnone : ∀ i ∈ pre, ¬ Large s i := fun i hi => by
    simpa using hpre i hi
  rw [memrefTempToPartialParams, hsplit, loop_append hnone]

theorem undone_log_subset : s.log ⊆ (memrefTempFromPartialParams s).log := by
  rw [undone_params.log]
  exact subset_append_left ..

theorem toPartial_log_subset : s.log ⊆ (memrefTempToPartial env ctx i s).1.log := by
  unfold memrefTempToPartial
  split
  · exact List.Subset.refl _
  unfold registerSharedMemory
  split_ifs
  · split
    · exact subset_append_left ..
    · simp
  · exact subset_append_left ..

theorem loop_log_subset {l : List (Fin 4)} : s.log ⊆ (memrefTempToPartialLoop env ctx l s).1.log := by
  induction l generalizing s with
  | nil => exact List.Subset.refl _
  | cons i l ih =>
    unfold memrefTempToPartialLoop
    split_ifs
    · have hstep : s.log ⊆ (memrefTempToPartial env ctx i s).1.log := toPartial_log_subset
      dsimp only
      split_ifs
      · exact List.Subset.trans hstep undone_log_subset
      · exact List.Subset.trans hstep ih
    · exact ih

end Loop

section Final

structure SameRefs (w z : State) : Prop where
  types : z.paramTypes = w.paramTypes
  pointer : ∀ i, (z.params i).pointer = (w.params i).pointer
  shm : z.shm = w.shm
  log : z.log = w.log

theorem storeLen_pointer {m : MinkParameter} {len : UInt64} {param : Parameter} :
    (storeLen m len param).pointer = param.pointer := by
  unfold storeLen
  split <;> rfl

theorem sameRefs_minkCall {r : Request} : SameRefs r.state (minkCall r answer).1 := by
  rcases answer with rv | reply
  · exact ⟨rfl, fun _ => rfl, rfl, rfl⟩
  · refine ⟨rfl, fun i => ?_, rfl, rfl⟩
    simp only [minkCall, storeReply]
    split_ifs <;> simp only [storeLen_pointer]

theorem SameRefs.typeAt (h : SameRefs w z) : z.typeAt i = w.typeAt i := by
  rw [State.typeAt, State.typeAt, h.types]

theorem SameRefs.parent (h : SameRefs w z) : z.parent i = w.parent i := by
  rw [State.parent, State.parent, h.pointer, h.shm]

theorem SameRefs.restorable (h : SameRefs w z) : Restorable z i ↔ Restorable w i := by
  rw [Restorable, Restorable, h.typeAt, h.parent]

inductive Ends (w : State) : State → Prop where
  | early : Ends w w
  | late (m : State) : SameRefs w m → Ends w (memrefTempFromPartialParams m)

variable (k env ctx answer s) in
theorem ends_call : Ends (memrefTempToPartialParams env ctx s.start).1 (k.call env ctx answer s).1 ∧
    ((memrefTempToPartialParams env ctx s.start).2 = success →
      ∃ m, SameRefs (memrefTempToPartialParams env ctx s.start).1 m ∧
        (k.call env ctx answer s).1 = memrefTempFromPartialParams m) := by
  unfold Entry.call Entry.request
  generalize memrefTempToPartialParams env ctx s.start = out
  obtain ⟨w, result⟩ := out
  have hm : SameRefs (requestOf env w).state (minkCall (requestOf env w) answer).1 :=
    sameRefs_minkCall
  cases k with
  | openSession =>
    by_cases hr : result = success
    · simp only [hr]
      exact ⟨.late _ hm, fun _ => ⟨_, hm, rfl⟩⟩
    · simp only [hr, ne_eq]
      exact ⟨.early, fun h => absurd h (by simp)⟩
  | invokeCommand => exact ⟨.late _ hm, fun _ => ⟨_, hm, rfl⟩⟩

theorem undone_eq_self (h : ∀ i, ¬ Restorable s i) : memrefTempFromPartialParams s = s := by
  rw [memrefTempFromPartialParams_eq]
  induction finRange 4 with
  | nil => rfl
  | cons i l ih => rw [foldl_cons, undoAt, if_neg (h i), ih]

theorem Ends.sameRefs (h : Ends w z) (hw : ∀ i, ¬ Restorable w i) : SameRefs w z := by
  cases h with
  | early => exact ⟨rfl, fun _ => rfl, rfl, rfl⟩
  | late m hm => rwa [undone_eq_self fun i hr => hw i (hm.restorable.mp hr)]

theorem Ends.log_subset (h : Ends w z) : w.log ⊆ z.log := by
  cases h with
  | early => exact List.Subset.refl _
  | late m hm => exact hm.log ▸ undone_log_subset

end Final

section Cases

theorem filter_beq (f : Fin 4) : (finRange 4).filter (· == f) = [f] := by
  decide +revert

theorem pending_marked (hlarge : Large s f) (hmark : (s.shm p).converted ≠ 0) :
    Restorable (pending s f p) f ∧ undone (pending s f p) f =
      (s.typeAt f, ⟨(s.params f).pointer, (s.params f).size, 0⟩) := by
  obtain ⟨htype, hparam⟩ := State.slot_eq_iff.mp pending_slot_self
  have hparent : (pending s f p).parent f = partialBlock s f p := by
    rw [State.parent, hparam]
    exact Function.update_self ..
  have hrest : Restorable (pending s f p) f := by
    refine ⟨htype ▸ isPartial_of_isTemp hlarge.1, ?_⟩
    rw [hparent]
    exact hmark
  refine ⟨hrest, ?_⟩
  rw [undone, if_pos hrest, htype, hparent, type_restored hlarge.1]
  rfl

section Pending

variable (hpart : ∀ i, isPartial (s.typeAt i) → (s.parent i).converted = 0)
  (hclient : ∀ i, isRegistered (s.typeAt i) → (s.params i).pointer ≠ p)

include hpart hclient

theorem pending_other (hi : i ≠ f) :
    ¬ Restorable (pending s f p) i ∧ undone (pending s f p) i = s.slot i := by
  have hslot : (pending s f p).slot i = s.slot i := pending_slot_of_ne hi
  obtain ⟨htype, hparam⟩ := State.slot_eq_iff.mp hslot
  have hrest : ¬ Restorable (pending s f p) i := by
    rintro ⟨hp, hne⟩
    rw [htype] at hp
    have hshm : (pending s f p).shm (s.params i).pointer = s.parent i :=
      Function.update_of_ne (hclient i (isRegistered_of_isPartial hp)) ..
    rw [State.parent, hparam, hshm] at hne
    exact hne (hpart i hp)
  exact ⟨hrest, by rw [undone, if_neg hrest, hslot]⟩

theorem undone_pending (hlarge : Large s f) (hmark : (s.shm p).converted ≠ 0) (hlog : s.log = []) :
    let z := memrefTempFromPartialParams (pending s f p)
    z.paramTypes = s.paramTypes ∧ (∀ i, (z.params i).pointer = (s.params i).pointer) ∧
      z.log = [.alloc p, .free p] ∧ ∀ i, ¬ Restorable z i := by
  intro z
  have hself := pending_marked hlarge hmark
  have hother : ∀ i, i ≠ f → _ := fun i hi => pending_other hpart hclient hi
  have hslot : ∀ i, z.typeAt i = s.typeAt i ∧ (z.params i).pointer = (s.params i).pointer := by
    intro i
    have h : z.slot i = undone (pending s f p) i := slot_undone
    by_cases hi : i = f
    · subst hi
      rw [hself.2] at h
      exact ⟨congrArg Prod.fst h, congrArg (fun x => x.2.pointer) h⟩
    · rw [(hother i hi).2] at h
      exact ⟨congrArg Prod.fst h, congrArg (fun x => x.2.pointer) h⟩
  have hfilter : (finRange 4).filter (Restorable (pending s f p) ·) = [f] := by
    rw [← filter_beq f]
    refine filter_congr fun i _ => ?_
    by_cases hi : i = f
    · simp [hi, hself.1]
    · simp [hi, (hother i hi).1]
  refine ⟨?_, fun i => (hslot i).2, ?_, fun i => ?_⟩
  · exact paramTypes_ext (fun i => (hslot i).1) (undone_params.high.trans paramTypeSet_high)
  · rw [undone_params.log, freed, hfilter]
    simp [pending, hlog]
  · rintro ⟨hp, hne⟩
    rw [(hslot i).1] at hp
    have hshm : z.shm (s.params i).pointer = s.parent i :=
      (congrFun undone_params.shm _).trans
        (Function.update_of_ne (hclient i (isRegistered_of_isPartial hp)) ..)
    rw [State.parent, (hslot i).2, hshm] at hne
    exact hne (hpart i hp)

end Pending

theorem toPartial_of_restores (ctx : UInt64) (h : Restores env s) (hfresh : env.Fresh s)
    (hlog : s.log = []) :
    ∃ w result, memrefTempToPartialParams env ctx s = (w, result) ∧
      w.paramTypes = s.paramTypes ∧ (∀ i, (w.params i).pointer = (s.params i).pointer) ∧
      (w.log = [] ∨ ∃ f p, env.malloc f = some p ∧ w.log = [.alloc p, .free p]) ∧
      ∀ i, ¬ Restorable w i := by
  have hrest : ∀ i, ¬ Restorable s i := fun i hr => hr.2 (h.1 i hr.1)
  rcases hfind : (finRange 4).find? (Large s ·) with _ | f
  · exact ⟨s, success, toPartial_none hfind, rfl, fun _ => rfl, .inl hlog, hrest⟩
  obtain ⟨hlarge, rest, hloop⟩ := toPartial_first env ctx hfind
  rw [hloop, memrefTempToPartialLoop, if_pos hlarge]
  rcases hp : env.malloc f with _ | p
  · rw [memrefTempToPartial_no_block hp]
    refine ⟨s, errorOutOfMemory, ?_, rfl, fun _ => rfl, .inl hlog, hrest⟩
    rw [← undone_eq_self hrest]
    simp only [undone_eq_self hrest]
    exact if_pos (by decide)
  · obtain ⟨ho, hmark⟩ := h.2 f hfind p hp
    rw [memrefTempToPartial_no_object hlarge hp ho]
    obtain ⟨htypes, hptr, hlog', hrest'⟩ :=
      undone_pending h.1 (hfresh.client f p hp) hlarge hmark hlog
    exact ⟨_, errorGeneric, if_pos (by decide), htypes, hptr, .inr ⟨f, p, hp, hlog'⟩, hrest'⟩

theorem restored_of_restores (h : Restores env s) (hfresh : env.Fresh s) :
    Restored s (k.call env ctx answer s).1 := by
  obtain ⟨w, result, hw, htypes, hptr, hlog, hrest⟩ :=
    toPartial_of_restores ctx (show Restores env s.start from h) ⟨hfresh.inj, hfresh.client⟩ rfl
  have hends := (ends_call env ctx s k answer).1
  rw [hw] at hends
  have hsame : SameRefs w (k.call env ctx answer s).1 := hends.sameRefs hrest
  have hlog' : (k.call env ctx answer s).1.log = [] ∨ ∃ f p, env.malloc f = some p ∧
      (k.call env ctx answer s).1.log = [.alloc p, .free p] := hsame.log ▸ hlog
  refine ⟨hsame.types.trans htypes, fun i _ => (hsame.pointer i).trans (hptr i), ?_, ?_, ?_⟩
  · intro i hi
    rcases hlog' with hlog' | ⟨f, p, hp, hlog'⟩
    · simp [hlog']
    · simp [hlog', hfresh.client f p hp i hi]
  · intro q hq
    rcases hlog' with hlog' | ⟨f, p, hp, hlog'⟩
    · simp [hlog'] at hq
    · obtain rfl : q = p := by simpa [hlog'] using hq
      simp [hlog']
  · intro o ho
    rcases hlog' with hlog' | ⟨f, p, hp, hlog'⟩ <;> simp [hlog'] at ho

theorem free_mem_undone (h : Restorable s i) :
    .free (s.params i).pointer ∈ (memrefTempFromPartialParams s).log := by
  rw [undone_params.log]
  refine mem_append_right _ (mem_map.mpr ⟨i, ?_, rfl⟩)
  exact mem_filter.mpr ⟨mem_finRange i, decide_eq_true h⟩

theorem undone_no_release (h : .release o ∉ s.log) :
    .release o ∉ (memrefTempFromPartialParams s).log := by
  rw [undone_params.log, freed]
  simp [h]

theorem Stuck.no_release {t u : State} (hstuck : Stuck env t f u) (h : .release o ∉ t.log) :
    .release o ∉ u.log := by
  cases hstuck with
  | noBlock => exact h
  | noObject p => simp [pending, h]

theorem Ends.no_release (hends : Ends w z) (h : .release o ∉ w.log) : .release o ∉ z.log := by
  cases hends with
  | early => exact h
  | late m hm => exact undone_no_release (hm.log ▸ h)

section Necessary

variable {l : List (Fin 4)} {out : State × UInt32}

theorem Converts.no_release (hconv : Converts env ctx l s out) (hlog : s.log = []) :
    .release o ∉ out.1.log := by
  have hs : ∀ t pre, Converted env ctx pre s t → .release o ∉ t.log := fun t pre hc ho => by
    simpa [hlog] using hc.log o ho
  cases hconv with
  | all w hc => exact hs w l hc
  | stuck pre post f t u result _ _ hc hstuck _ =>
    exact undone_no_release (hstuck.no_release (hs t pre hc))

variable (hfresh : env.Fresh s)
include hfresh

theorem Converts.marked_freed (hconv : Converts env ctx l s out) (hi : isPartial (s.typeAt i))
    (hmark : (s.parent i).converted ≠ 0)
    (hlate : out.2 = success → ∃ m, SameRefs out.1 m ∧ z = memrefTempFromPartialParams m)
    (hends : Ends out.1 z) : .free (s.params i).pointer ∈ z.log := by
  have hreg := isRegistered_of_isPartial hi
  cases hconv with
  | all w hc =>
    obtain ⟨hslot, hparent⟩ := hc.registered_kept hfresh hreg
    obtain ⟨m, hm, rfl⟩ := hlate rfl
    obtain ⟨htype, hparam⟩ := State.slot_eq_iff.mp hslot
    have hrest : Restorable m i := hm.restorable.mpr ⟨htype ▸ hi, hparent ▸ hmark⟩
    rw [← hparam, ← hm.pointer]
    exact free_mem_undone hrest
  | stuck pre post f t u result _ hlarge hc hstuck _ =>
    obtain ⟨hslot, hparent⟩ := stuck_registered hc hlarge hstuck hfresh hreg
    obtain ⟨htype, hparam⟩ := State.slot_eq_iff.mp hslot
    have hrest : Restorable u i := ⟨htype ▸ hi, hparent ▸ hmark⟩
    rw [← hparam]
    exact hends.log_subset (free_mem_undone hrest)

omit hfresh in
theorem pending_left (hmark : (s.shm p).converted = 0)
    (hends : Ends (memrefTempFromPartialParams (pending s f p)) z) :
    z.typeAt f = s.typeAt f ||| 8 := by
  obtain ⟨htype, hparam⟩ := State.slot_eq_iff.mp pending_slot_self
  have hrest : ∀ {t : State}, (t.params f).pointer = p → t.shm = (pending s f p).shm →
      ¬ Restorable t f := by
    intro t hptr hshm hr
    have hparent : t.parent f = partialBlock s f p := by
      rw [State.parent, hptr, hshm]
      exact Function.update_self ..
    rw [Restorable, hparent] at hr
    exact hr.2 hmark
  have hslot : (memrefTempFromPartialParams (pending s f p)).slot f = (pending s f p).slot f := by
    rw [slot_undone, undone, if_neg (hrest (by rw [hparam]) rfl)]
  have htype' : (memrefTempFromPartialParams (pending s f p)).typeAt f = s.typeAt f ||| 8 :=
    (congrArg Prod.fst hslot).trans htype
  cases hends with
  | early => exact htype'
  | late m hm =>
    have hptr : (m.params f).pointer = p := by
      have hparam' := congrArg Prod.snd hslot
      rw [hm.pointer]
      dsimp only [State.slot] at hparam'
      rw [hparam', hparam]
    have hnot : ¬ Restorable m f := hrest hptr (hm.shm.trans undone_params.shm)
    have hslot' : (memrefTempFromPartialParams m).slot f = m.slot f := by
      rw [slot_undone, undone, if_neg hnot]
    exact (congrArg Prod.fst hslot').trans (hm.typeAt.trans htype')

end Necessary

theorem restores_of_restored (hfresh : env.Fresh s) (h : Restored s (k.call env ctx answer s).1) :
    Restores env s := by
  have hfresh' : env.Fresh s.start := ⟨hfresh.inj, hfresh.client⟩
  have hconv : Converts env ctx (finRange 4) s.start
      (memrefTempToPartialParams env ctx s.start) := converts_params hfresh.inj
  obtain ⟨hends, hlate⟩ := ends_call env ctx s k answer
  generalize (k.call env ctx answer s).1 = z at h hends hlate
  refine ⟨fun i hi => ?_, fun f hfind p hp => ?_⟩
  · by_contra hmark
    have hfreed : .free (s.start.params i).pointer ∈ z.log :=
      hconv.marked_freed hfresh' hi hmark hlate hends
    exact h.client i (isRegistered_of_isPartial hi) hfreed
  · obtain ⟨hlarge, rest, hloop⟩ :=
      toPartial_first env ctx (show (finRange 4).find? (Large s.start ·) = some f from hfind)
    have hnone : env.memObject f = none := by
      by_contra hsome
      obtain ⟨o, ho⟩ := Option.ne_none_iff_exists'.mp hsome
      rw [memrefTempToPartialLoop, if_pos hlarge, memrefTempToPartial_backed hlarge hp ho] at hloop
      have hcreate : .create o ∈ z.log := by
        refine hends.log_subset ?_
        rw [hloop]
        exact loop_log_subset (by simp [backed])
      have hcount := h.objects o hcreate
      rw [count_eq_zero.mpr (hends.no_release (hconv.no_release rfl))] at hcount
      exact Nat.zero_ne_one hcount
    refine ⟨hnone, fun hmark => ?_⟩
    rw [memrefTempToPartialLoop, if_pos hlarge, memrefTempToPartial_no_object hlarge hp hnone] at hloop
    rw [hloop] at hends
    have hmark' : (s.start.shm p).converted = 0 := hmark
    have htype : z.typeAt f = s.start.typeAt f ||| 8 := pending_left hmark' hends
    have hsame : z.typeAt f = s.typeAt f := by
      rw [State.typeAt, State.typeAt, h.types]
    have hpart := isPartial_of_isTemp hlarge.1
    rw [← htype, hsame] at hpart
    exact Bool.false_ne_true ((isPartial_eq_false hlarge.1).symm.trans hpart)

end Cases

/-- A call restores the operation exactly if the condition holds, whatever is answered. -/
theorem call_restores_iff (hfresh : env.Fresh s) :
    Restored s (k.call env ctx answer s).1 ↔ Restores env s :=
  ⟨restores_of_restored hfresh, fun h => restored_of_restores h hfresh⟩

section Samples

/-- One temporary input reference of two pages; `mark` is the byte that the allocator leaves in its
blocks. -/
def sampleTemp (mark : UInt8) : State where
  paramTypes := 0x5
  params _ := ⟨0x20000, 0x2000, 0⟩
  shm _ := ⟨0, 0, 0, 0, 0, mark, none⟩
  log := []

def sampleAlloc (memObject : Option Nat) : Env where
  malloc i := if i = 0 then some 0x1000 else none
  memObject _ := memObject
  memObjectInfo _ := none

theorem sampleAlloc_fresh (memObject : Option Nat) (mark : UInt8) :
    (sampleAlloc memObject).Fresh (sampleTemp mark) where
  inj i j p hi hj := by
    have hi' : i = 0 := by
      by_contra h
      simp [sampleAlloc, h] at hi
    have hj' : j = 0 := by
      by_contra h
      simp [sampleAlloc, h] at hj
    rw [hi', hj']
  client i p hp j hj := by
    revert hj
    change isRegistered (paramTypeGet 0x5 j) = true → _
    have hnone : ∀ j, isRegistered (paramTypeGet 0x5 j) = false := by decide
    rw [hnone j]
    exact fun h => absurd h Bool.false_ne_true

theorem call_restores_sample : Restored (sampleTemp 1)
    (Entry.openSession.call (sampleAlloc none) 1 (.error (-90)) (sampleTemp 1)).1 :=
  (call_restores_iff (sampleAlloc_fresh none 1)).mpr ⟨by decide, fun _ _ _ _ => ⟨rfl, (by decide : (1 : UInt8) ≠ 0)⟩⟩

/-- The memory object made for a temporary reference is not released, and without one the
reference may stay partial. -/
theorem call_not_restored : ¬ Restored (sampleTemp 0)
        (Entry.invokeCommand.call (sampleAlloc (some 7)) 1 (.error (-90)) (sampleTemp 0)).1 ∧
      (Entry.invokeCommand.call (sampleAlloc (some 7)) 1 (.error (-90)) (sampleTemp 0)).1.log =
        [.alloc 0x1000, .create 7, .free 0x1000] ∧
      (Entry.openSession.call (sampleAlloc none) 1 (.error (-90)) (sampleTemp 0)).1.paramTypes =
        0xD := by
  have hlog : (Entry.invokeCommand.call (sampleAlloc (some 7)) 1 (.error (-90))
      (sampleTemp 0)).1.log = [.alloc 0x1000, .create 7, .free 0x1000] := by decide
  refine ⟨fun h => ?_, hlog, by decide⟩
  have hcount := h.objects 7 (by simp [hlog])
  simp [hlog] at hcount

end Samples

end MinkIpc.Teec
