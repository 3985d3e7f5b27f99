import MinkIpc.Teec
import Mathlib.Data.List.FinRange

/-! What the conversion of temporary references does to each parameter, and what undoing it does.
Both loops treat a parameter on its own. -/

namespace MinkIpc.Teec

open Function List

variable {env : Env} {ctx : UInt64} {s s' : State} {i j : Fin 4} {p : UInt64}

namespace State

def slot (s : State) (i : Fin 4) : BitVec 4 × Parameter := (s.typeAt i, s.params i)

theorem slot_eq_iff {type : BitVec 4} {q : Parameter} :
    s.slot i = (type, q) ↔ s.typeAt i = type ∧ s.params i = q := Prod.mk_inj

end State

theorem typeAt_congr (h : s'.slot i = s.slot i) : s'.typeAt i = s.typeAt i := congrArg Prod.fst h

theorem params_congr (h : s'.slot i = s.slot i) : s'.params i = s.params i := congrArg Prod.snd h

section Undo

def Restorable (s : State) (i : Fin 4) : Prop :=
  isPartial (s.typeAt i) ∧ (s.parent i).converted ≠ 0

instance : Decidable (Restorable s i) := inferInstanceAs (Decidable (_ ∧ _))

def undoAt (i : Fin 4) (s : State) : State :=
  if Restorable s i then memrefTempFromPartial i s else s

def undone (s : State) (i : Fin 4) : BitVec 4 × Parameter :=
  if Restorable s i then (s.typeAt i ^^^ 8, ⟨(s.parent i).buffer, (s.parent i).size, 0⟩)
  else s.slot i

theorem memrefTempFromPartialParams_eq :
    memrefTempFromPartialParams s = (finRange 4).foldl (fun s i => undoAt i s) s := rfl

theorem undoAt_shm : (undoAt i s).shm = s.shm := by
  unfold undoAt
  split <;> rfl

theorem undoAt_high : (undoAt i s).paramTypes >>> 16 = s.paramTypes >>> 16 := by
  unfold undoAt
  split
  · exact paramTypeSet_high
  · rfl

theorem undoAt_log : (undoAt i s).log =
    s.log ++ if Restorable s i then [.free (s.params i).pointer] else [] := by
  unfold undoAt
  split
  · rfl
  · rw [append_nil]

theorem undoAt_slot_self : (undoAt i s).slot i = undone s i := by
  unfold undoAt undone
  split
  · simp [State.slot, State.typeAt, memrefTempFromPartial, paramTypeGet_set_self]
  · rfl

theorem undoAt_slot_of_ne (h : j ≠ i) : (undoAt i s).slot j = s.slot j := by
  unfold undoAt
  split
  · simp [State.slot, State.typeAt, memrefTempFromPartial, paramTypeGet_set_of_ne h, h]
  · rfl

theorem restorable_congr (hslot : s'.slot i = s.slot i) (hshm : s'.shm = s.shm) :
    Restorable s' i ↔ Restorable s i := by
  obtain ⟨htype, hparam⟩ := State.slot_eq_iff.mp hslot
  rw [Restorable, Restorable, State.parent, State.parent, htype, hparam, hshm]

theorem undone_congr (hslot : s'.slot i = s.slot i) (hshm : s'.shm = s.shm) :
    undone s' i = undone s i := by
  obtain ⟨htype, hparam⟩ := State.slot_eq_iff.mp hslot
  simp only [undone, restorable_congr hslot hshm, State.parent, htype, hparam, hshm, hslot]

def freed (s : State) (l : List (Fin 4)) : List Event :=
  (l.filter (Restorable s ·)).map fun i => .free (s.params i).pointer

structure Undone (l : List (Fin 4)) (s s' : State) : Prop where
  shm : s'.shm = s.shm
  high : s'.paramTypes >>> 16 = s.paramTypes >>> 16
  slot : ∀ i, s'.slot i = if i ∈ l then undone s i else s.slot i
  log : s'.log = s.log ++ freed s l

theorem undone_foldl {l : List (Fin 4)} (hl : l.Nodup) :
    Undone l s (l.foldl (fun s i => undoAt i s) s) := by
  induction l generalizing s with
  | nil => exact ⟨rfl, rfl, fun i => by simp, by simp [freed]⟩
  | cons j l ih =>
    obtain ⟨hj, hl⟩ := nodup_cons.mp hl
    have hrest : Undone l (undoAt j s) (l.foldl (fun s i => undoAt i s) (undoAt j s)) := ih hl
    have hsame : ∀ i ∈ l, (undoAt j s).slot i = s.slot i := fun i hi =>
      undoAt_slot_of_ne fun h => hj (h ▸ hi)
    refine ⟨hrest.shm.trans undoAt_shm, hrest.high.trans undoAt_high, fun i => ?_, ?_⟩
    · rw [foldl_cons, hrest.slot]
      by_cases hi : i ∈ l
      · rw [if_pos hi, if_pos (mem_cons_of_mem _ hi), undone_congr (hsame i hi) undoAt_shm]
      · by_cases hij : i = j
        · subst hij
          rw [if_neg hi, if_pos mem_cons_self, undoAt_slot_self]
        · rw [if_neg hi, if_neg (by simp [hi, hij]), undoAt_slot_of_ne hij]
    · have hfreed : freed (undoAt j s) l = freed s l := by
        have hfilter : l.filter (Restorable (undoAt j s) ·) = l.filter (Restorable s ·) :=
          filter_congr fun i hi => by
            simp only [restorable_congr (hsame i hi) undoAt_shm]
        rw [freed, hfilter]
        refine map_congr_left fun i hi => ?_
        have hparam := params_congr (hsame i (mem_of_mem_filter hi))
        rw [hparam]
      rw [foldl_cons, hrest.log, undoAt_log, hfreed]
      by_cases h : Restorable s j <;> simp [freed, h]

theorem undone_params : Undone (finRange 4) s (memrefTempFromPartialParams s) :=
  undone_foldl (nodup_finRange 4)

theorem slot_undone : (memrefTempFromPartialParams s).slot i = undone s i := by
  rw [undone_params.slot, if_pos (mem_finRange i)]

theorem typeAt_undone : (memrefTempFromPartialParams s).typeAt i = (undone s i).1 :=
  congrArg Prod.fst slot_undone

theorem undone_of_kept (hslot : s'.slot i = s.slot i) (hpart : isPartial (s.typeAt i) = false) :
    undone s' i = s.slot i := by
  have htype := typeAt_congr hslot
  rw [undone, if_neg, hslot]
  rintro ⟨hp, -⟩
  rw [htype, hpart] at hp
  cases hp

end Undo

section Convert

def isRegistered (t : BitVec 4) : Bool := isPartial t || t == memrefWhole

/-- The allocator hands out no block twice, and none that a client refers to. -/
structure Env.Fresh (env : Env) (s : State) : Prop where
  inj : ∀ i j p, env.malloc i = some p → env.malloc j = some p → i = j
  client : ∀ i p, env.malloc i = some p → ∀ j, isRegistered (s.typeAt j) → (s.params j).pointer ≠ p

def pending (s : State) (i : Fin 4) (p : UInt64) : State where
  paramTypes := paramTypeSet (s.typeAt i ||| 8) i s.paramTypes
  params := update s.params i ⟨p, (s.params i).size, 0⟩
  shm := update s.shm p (partialBlock s i p)
  log := s.log ++ [.alloc p]

def block (ctx : UInt64) (s : State) (i : Fin 4) (o : Nat) : SharedMemory where
  buffer := (s.params i).pointer
  size := (s.params i).size
  flags := tempFlags (s.typeAt i)
  ctx := ctx
  type := memoryRegistered
  converted := 1
  memObj := some o

def backed (ctx : UInt64) (s : State) (i : Fin 4) (p : UInt64) (o : Nat) : State :=
  { pending s i p with
    shm := update s.shm p (block ctx s i o)
    log := s.log ++ [.alloc p, .create o] }

theorem memrefTempToPartial_no_block (h : env.malloc i = none) :
    memrefTempToPartial env ctx i s = (s, errorOutOfMemory) := by
  simp only [memrefTempToPartial, h]

theorem memrefTempToPartial_no_object (hlarge : Large s i) (hp : env.malloc i = some p)
    (ho : env.memObject i = none) :
    memrefTempToPartial env ctx i s = (pending s i p, errorGeneric) := by
  have hsize : (partialBlock s i p).size > shmMaxHeapSz := hlarge.2
  simp only [memrefTempToPartial, hp, registerSharedMemory, update_self, if_pos hsize, ho]
  rfl

theorem memrefTempToPartial_backed {o : Nat} (hlarge : Large s i) (hp : env.malloc i = some p)
    (ho : env.memObject i = some o) :
    memrefTempToPartial env ctx i s = (backed ctx s i p o, success) := by
  have hsize : (partialBlock s i p).size > shmMaxHeapSz := hlarge.2
  simp only [memrefTempToPartial, hp, registerSharedMemory, update_self, if_pos hsize, ho,
    update_idem, append_assoc]
  rfl

theorem pending_slot_self : (pending s i p).slot i =
    (s.typeAt i ||| 8, ⟨p, (s.params i).size, 0⟩) := by
  simp [State.slot, State.typeAt, pending, paramTypeGet_set_self]

theorem pending_slot_of_ne (h : j ≠ i) : (pending s i p).slot j = s.slot j := by
  simp [State.slot, State.typeAt, pending, paramTypeGet_set_of_ne h, h]

theorem large_congr (hslot : s'.slot i = s.slot i) : Large s' i ↔ Large s i := by
  obtain ⟨htype, hparam⟩ := State.slot_eq_iff.mp hslot
  rw [Large, Large, htype, hparam]

theorem block_congr {o : Nat} (hslot : s'.slot i = s.slot i) : block ctx s' i o = block ctx s i o := by
  obtain ⟨htype, hparam⟩ := State.slot_eq_iff.mp hslot
  rw [block, block, htype, hparam]

structure Converted (env : Env) (ctx : UInt64) (l : List (Fin 4)) (s s' : State) : Prop where
  high : s'.paramTypes >>> 16 = s.paramTypes >>> 16
  kept : ∀ i, ¬ (i ∈ l ∧ Large s i) → s'.slot i = s.slot i
  conv : ∀ i ∈ l, Large s i → ∃ p o, env.malloc i = some p ∧ env.memObject i = some o ∧
    s'.slot i = (s.typeAt i ||| 8, ⟨p, (s.params i).size, 0⟩) ∧ s'.shm p = block ctx s i o ∧
    .create o ∈ s'.log
  shm : ∀ q, (∀ i ∈ l, Large s i → env.malloc i ≠ some q) → s'.shm q = s.shm q
  log : ∀ o, .release o ∈ s'.log → .release o ∈ s.log

variable {pre rest : List (Fin 4)} {t : State}

theorem Converted.refl : Converted env ctx [] s s :=
  ⟨rfl, fun _ _ => rfl, fun _ h => absurd h not_mem_nil, fun _ _ => rfl, fun _ h => h⟩

theorem Converted.skip (h : Converted env ctx pre s t) (hi : ¬ Large s i) :
    Converted env ctx (pre ++ [i]) s t := by
  have hmem : ∀ j, Large s j → j ∈ pre ++ [i] → j ∈ pre := by
    intro j hj hmem
    rcases mem_append.mp hmem with hmem | hmem
    · exact hmem
    · exact absurd (mem_singleton.mp hmem ▸ hj) hi
  refine ⟨h.high, fun j hj => h.kept j fun hc => hj ⟨mem_append_left _ hc.1, hc.2⟩,
    fun j hj hlarge => h.conv j (hmem j hlarge hj) hlarge, fun q hq => h.shm q fun j hj => ?_, h.log⟩
  exact hq j (mem_append_left _ hj)

theorem Converted.back {o : Nat} (h : Converted env ctx pre s t)
    (hinj : ∀ i j p, env.malloc i = some p → env.malloc j = some p → i = j) (hi : i ∉ pre)
    (hlarge : Large s i) (hp : env.malloc i = some p) (ho : env.memObject i = some o) :
    Converted env ctx (pre ++ [i]) s (backed ctx t i p o) := by
  have hslot : t.slot i = s.slot i := h.kept i fun hc => hi hc.1
  obtain ⟨htype, hparam⟩ := State.slot_eq_iff.mp hslot
  refine ⟨paramTypeSet_high.trans h.high, fun j hj => ?_, fun j hj hl => ?_, fun q hq => ?_,
    fun o' ho' => h.log o' ?_⟩
  · have hne : j ≠ i := fun hji => hj ⟨by simp [hji], hji ▸ hlarge⟩
    exact (pending_slot_of_ne hne).trans (h.kept j fun hc => hj ⟨mem_append_left _ hc.1, hc.2⟩)
  · by_cases hji : j = i
    · subst hji
      refine ⟨p, o, hp, ho, ?_, ?_, by simp [backed]⟩
      · rw [← htype, ← hparam]
        exact pending_slot_self
      · rw [← block_congr hslot]
        exact update_self ..
    · have hmem : j ∈ pre := by simpa [hji] using hj
      obtain ⟨q, oj, hq, hoj, hs, hblock, hlog⟩ := h.conv j hmem hl
      refine ⟨q, oj, hq, hoj, (pending_slot_of_ne hji).trans hs, ?_, by simp [backed, hlog]⟩
      have hne : q ≠ p := fun hqp => hji (hinj j i p (hqp ▸ hq) hp)
      exact (update_of_ne hne ..).trans hblock
  · have hne : q ≠ p := fun hqp => hq i (by simp) hlarge (hqp ▸ hp)
    exact (update_of_ne hne ..).trans (h.shm q fun j hj => hq j (mem_append_left _ hj))
  · simpa [backed] using ho'

inductive Stuck (env : Env) (t : State) (f : Fin 4) : State → Prop where
  | noBlock : env.malloc f = none → Stuck env t f t
  | noObject (p : UInt64) : env.malloc f = some p → env.memObject f = none →
      Stuck env t f (pending t f p)

inductive Converts (env : Env) (ctx : UInt64) (l : List (Fin 4)) (s : State) : State × UInt32 → Prop where
  | all (s' : State) : Converted env ctx l s s' → Converts env ctx l s (s', success)
  | stuck (pre post : List (Fin 4)) (f : Fin 4) (t u : State) (result : UInt32) :
      l = pre ++ f :: post → Large s f → Converted env ctx pre s t → Stuck env t f u →
      result ≠ success → Converts env ctx l s (memrefTempFromPartialParams u, result)

section

variable (hinj : ∀ i j p, env.malloc i = some p → env.malloc j = some p → i = j)
include hinj

theorem converts_loop (hnd : (pre ++ rest).Nodup) (h : Converted env ctx pre s t) :
    Converts env ctx (pre ++ rest) s (memrefTempToPartialLoop env ctx rest t) := by
  induction rest generalizing pre t with
  | nil =>
    rw [append_nil]
    exact .all t h
  | cons i rest ih =>
    have hi : i ∉ pre := fun hmem => (nodup_append.mp hnd).2.2 i hmem i mem_cons_self rfl
    have hlarge : Large t i ↔ Large s i := large_congr (h.kept i fun hc => hi hc.1)
    have happend : pre ++ i :: rest = (pre ++ [i]) ++ rest := by simp
    unfold memrefTempToPartialLoop
    split_ifs with hl
    · rcases hp : env.malloc i with _ | p
      · rw [memrefTempToPartial_no_block hp]
        exact .stuck pre rest i t t _ rfl (hlarge.mp hl) h (.noBlock hp) (by decide)
      · rcases ho : env.memObject i with _ | o
        · rw [memrefTempToPartial_no_object hl hp ho]
          exact .stuck pre rest i t _ _ rfl (hlarge.mp hl) h (.noObject p hp ho) (by decide)
        · rw [memrefTempToPartial_backed hl hp ho, happend]
          exact ih (happend ▸ hnd) (h.back hinj hi (hlarge.mp hl) hp ho)
    · rw [happend]
      exact ih (happend ▸ hnd) (h.skip fun hs => hl (hlarge.mpr hs))

theorem converts_params : Converts env ctx (finRange 4) s (memrefTempToPartialParams env ctx s) :=
  converts_loop hinj (nodup_finRange 4) .refl

end

end Convert

section TypeBits

variable {t : BitVec 4}

theorem isPartial_of_isTemp (h : isTemp t) : isPartial (t ||| 8) := by
  decide +revert

theorem type_restored (h : isTemp t) : (t ||| 8) ^^^ 8 = t := by
  decide +revert

theorem isTemp_of_isPartial (h : isPartial t) : isTemp (t ^^^ 8) := by
  decide +revert

theorem isPartial_eq_false (h : isTemp t) : isPartial t = false := by
  decide +revert

theorem isTemp_not_registered (h : isTemp t) : isRegistered t = false := by
  decide +revert

theorem isRegistered_of_isPartial (h : isPartial t) : isRegistered t := by
  decide +revert

end TypeBits

section Outcomes

variable {pre : List (Fin 4)} {f : Fin 4} {t u : State}

theorem not_large_of_registered (h : isRegistered (s.typeAt i)) : ¬ Large s i := fun hl => by
  rw [isTemp_not_registered hl.1] at h
  exact Bool.false_ne_true h

theorem Converted.registered_kept (h : Converted env ctx pre s t) (hfresh : env.Fresh s)
    (hi : isRegistered (s.typeAt i)) : t.slot i = s.slot i ∧ t.parent i = s.parent i := by
  have hslot : t.slot i = s.slot i := h.kept i fun hc => not_large_of_registered hi hc.2
  have hparam := params_congr hslot
  refine ⟨hslot, ?_⟩
  rw [State.parent, hparam]
  exact h.shm _ fun j _ _ hj => hfresh.client j _ hj i hi rfl

theorem Converted.restores (h : Converted env ctx pre s t) (hi : i ∈ pre) (hl : Large s i) :
    Restorable t i ∧ undone t i = (s.typeAt i, ⟨(s.params i).pointer, (s.params i).size, 0⟩) := by
  obtain ⟨p, o, -, -, hslot, hblock, -⟩ := h.conv i hi hl
  have htype : t.typeAt i = s.typeAt i ||| 8 := congrArg Prod.fst hslot
  have hparent : t.parent i = block ctx s i o := by
    have hparam : t.params i = ⟨p, (s.params i).size, 0⟩ := congrArg Prod.snd hslot
    rw [State.parent, hparam, hblock]
  have hrest : Restorable t i := by
    refine ⟨htype ▸ isPartial_of_isTemp hl.1, ?_⟩
    rw [hparent]
    exact (by decide : (1 : UInt8) ≠ 0)
  refine ⟨hrest, ?_⟩
  rw [undone, if_pos hrest, htype, hparent, type_restored hl.1]
  rfl

theorem Stuck.slot_of_ne (h : Stuck env t f u) (hi : i ≠ f) : u.slot i = t.slot i := by
  cases h with
  | noBlock => rfl
  | noObject p => exact pending_slot_of_ne hi

theorem Stuck.shm_of_ne (h : Stuck env t f u) {q : UInt64} (hq : env.malloc f ≠ some q) :
    u.shm q = t.shm q := by
  cases h with
  | noBlock => rfl
  | noObject p hp => exact update_of_ne (fun hqp : q = p => hq (hqp ▸ hp)) ..

theorem Stuck.parent_of_ne (h : Stuck env t f u) (hi : i ≠ f)
    (hq : env.malloc f ≠ some (t.params i).pointer) : u.parent i = t.parent i := by
  have hparam := params_congr (h.slot_of_ne hi)
  rw [State.parent, State.parent, hparam, h.shm_of_ne hq]

variable (hconv : Converted env ctx pre s t) (hf : f ∉ pre) (hlarge : Large s f)
  (hstuck : Stuck env t f u) (hfresh : env.Fresh s)

include hconv hlarge hstuck hfresh

theorem stuck_registered (hi : isRegistered (s.typeAt i)) :
    u.slot i = s.slot i ∧ u.parent i = s.parent i := by
  obtain ⟨hslot, hparent⟩ := hconv.registered_kept hfresh hi
  have hne : i ≠ f := fun hif => not_large_of_registered hi (hif ▸ hlarge)
  have hparam := params_congr hslot
  refine ⟨(hstuck.slot_of_ne hne).trans hslot, (hstuck.parent_of_ne hne ?_).trans hparent⟩
  rw [hparam]
  exact fun hq => hfresh.client f _ hq i hi rfl

theorem stuck_partialRef (hi : isPartial (s.typeAt i)) : undone u i =
    if (s.parent i).converted ≠ 0 then
      (s.typeAt i ^^^ 8, ⟨(s.parent i).buffer, (s.parent i).size, 0⟩)
    else s.slot i := by
  obtain ⟨hslot, hparent⟩ := stuck_registered hconv hlarge hstuck hfresh (isRegistered_of_isPartial hi)
  have htype := typeAt_congr hslot
  have hrest : Restorable u i ↔ (s.parent i).converted ≠ 0 := by
    rw [Restorable, htype, hparent]
    exact and_iff_right hi
  rw [undone, hslot, htype, hparent]
  simp only [hrest]

omit hlarge hfresh in
theorem stuck_other (hfresh : ∀ i j p, env.malloc i = some p → env.malloc j = some p → i = j)
    (hi : i ≠ f) (hpart : isPartial (s.typeAt i) = false) :
    (undone u i).1 = s.typeAt i ∧ (undone u i).2.pointer = (s.params i).pointer ∧
      (undone u i).2.size = (s.params i).size := by
  have hslot : u.slot i = t.slot i := hstuck.slot_of_ne hi
  by_cases hl : i ∈ pre ∧ Large s i
  · obtain ⟨hrest, hundone⟩ := hconv.restores hl.1 hl.2
    obtain ⟨p, o, hp, -, hs, -, -⟩ := hconv.conv i hl.1 hl.2
    have hparam : t.params i = ⟨p, (s.params i).size, 0⟩ := congrArg Prod.snd hs
    have hparent : u.parent i = t.parent i := hstuck.parent_of_ne hi fun hq =>
      hi (hfresh i f p hp (by rw [hq, hparam]))
    have htype := typeAt_congr hslot
    have hrest' : Restorable u i := by
      rw [Restorable, htype, hparent]
      exact hrest
    have heq : undone u i = undone t i := by
      rw [undone, undone, if_pos hrest', if_pos hrest, htype, hparent]
    rw [heq, hundone]
    exact ⟨rfl, rfl, rfl⟩
  · rw [undone_of_kept (hslot.trans (hconv.kept i hl)) hpart]
    exact ⟨rfl, rfl, rfl⟩

omit hstuck hfresh in
include hf in
/-- A parameter that failed after its block was allocated is undone only if the byte left in the
block says so. -/
theorem stuck_self (hinj : ∀ i j p, env.malloc i = some p → env.malloc j = some p → i = j)
    (hp : env.malloc f = some p) :
    (pending t f p).shm p = partialBlock s f p ∧ undone (pending t f p) f =
      if (s.shm p).converted ≠ 0 then
        (s.typeAt f, ⟨(s.params f).pointer, (s.params f).size, 0⟩)
      else (s.typeAt f ||| 8, ⟨p, (s.params f).size, 0⟩) := by
  have hslot : t.slot f = s.slot f := hconv.kept f fun hc => hf hc.1
  obtain ⟨htype, hparam⟩ := State.slot_eq_iff.mp hslot
  have hshm : t.shm p = s.shm p := hconv.shm p fun j hj _ hpj => hf (hinj f j p hp hpj ▸ hj)
  have hslot' : (pending t f p).slot f = (s.typeAt f ||| 8, ⟨p, (s.params f).size, 0⟩) := by
    rw [pending_slot_self, htype, hparam]
  obtain ⟨htype', hparam'⟩ := State.slot_eq_iff.mp hslot'
  have hblock : (pending t f p).shm p = partialBlock s f p := by
    refine (update_self ..).trans ?_
    rw [partialBlock, partialBlock, hshm, htype, hparam]
  have hparent : (pending t f p).parent f = partialBlock s f p := by
    rw [State.parent, hparam', hblock]
  have hrest : Restorable (pending t f p) f ↔ (s.shm p).converted ≠ 0 := by
    rw [Restorable, htype', hparent]
    exact and_iff_right (isPartial_of_isTemp hlarge.1)
  refine ⟨hblock, ?_⟩
  rw [undone, hslot', htype', hparent, type_restored hlarge.1]
  simp only [hrest]
  rfl

end Outcomes

section Requests

variable {k : Entry} {r : Request}

def AllConvert (env : Env) (s : State) : Prop :=
  ∀ i, Large s i → (env.malloc i).isSome ∧ (env.memObject i).isSome

theorem Converted.allConvert (h : Converted env ctx (finRange 4) s s') : AllConvert env s := by
  intro i hl
  obtain ⟨p, o, hp, ho, -⟩ := h.conv i (mem_finRange i) hl
  rw [hp, ho]
  exact ⟨rfl, rfl⟩

theorem Stuck.not_allConvert {f : Fin 4} {t u : State} (h : Stuck env t f u) (hl : Large s f) :
    ¬ AllConvert env s := fun hall => by
  obtain ⟨hp, ho⟩ := hall f hl
  cases h with
  | noBlock hnone => simp [hnone] at hp
  | noObject p _ hnone => simp [hnone] at ho

inductive Sent (env : Env) (ctx : UInt64) (s : State) : Entry → Request → Prop where
  | converted (k : Entry) (s' : State) : Converted env ctx (finRange 4) s s' →
      Sent env ctx s k (requestOf env s')
  | undone (pre post : List (Fin 4)) (f : Fin 4) (t u : State) :
      finRange 4 = pre ++ f :: post → Large s f → Converted env ctx pre s t → Stuck env t f u →
      Sent env ctx s .invokeCommand (requestOf env (memrefTempFromPartialParams u))

theorem notMem_of_split {pre post : List (Fin 4)} {f : Fin 4}
    (h : finRange 4 = pre ++ f :: post) : f ∉ pre := fun hmem =>
  (nodup_append.mp (h ▸ nodup_finRange 4)).2.2 f hmem f mem_cons_self rfl

variable (hinj : ∀ i j p, env.malloc i = some p → env.malloc j = some p → i = j)
include hinj

theorem sent_of_request (hreq : k.request env ctx s = .ok r) : Sent env ctx s k r := by
  unfold Entry.request at hreq
  have hconv : Converts env ctx _ s (memrefTempToPartialParams env ctx s) := converts_params hinj
  generalize memrefTempToPartialParams env ctx s = out at hconv hreq
  revert hreq
  rcases hconv with ⟨s', h⟩ | ⟨pre, post, f, t, u, result, hsplit, hl, h, hstuck, hresult⟩
  · cases k <;>
    · intro hreq
      obtain rfl : requestOf env s' = r := by simpa using hreq
      exact .converted _ s' h
  · cases k with
    | openSession =>
      intro hreq
      simp [hresult] at hreq
    | invokeCommand =>
      intro hreq
      obtain rfl : requestOf env (memrefTempFromPartialParams u) = r := by simpa using hreq
      exact .undone pre post f t u hsplit hl h hstuck

theorem request_exists (h : AllConvert env s ∨ k = .invokeCommand) :
    ∃ r, k.request env ctx s = .ok r := by
  unfold Entry.request
  have hconv : Converts env ctx _ s (memrefTempToPartialParams env ctx s) := converts_params hinj
  generalize memrefTempToPartialParams env ctx s = out at hconv
  rcases hconv with ⟨s', hc⟩ | ⟨pre, post, f, t, u, result, hsplit, hl, hc, hstuck, hresult⟩
  · cases k <;> exact ⟨requestOf env s', by simp⟩
  · cases k with
    | openSession =>
      rcases h with h | h
      · exact absurd h (hstuck.not_allConvert hl)
      · cases h
    | invokeCommand => exact ⟨_, rfl⟩

end Requests

end MinkIpc.Teec
