import MinkIpc.ObjectError
import Mathlib.Algebra.Group.Int.Defs
import Mathlib.Algebra.Group.Nat.Defs
import Mathlib.Data.List.Induction

/-! The local objects of a call-back context. The driver names a local object by a negative number
that stands for a position of a vector. Objects and references are numbers, null is `none`. -/

namespace MinkIpc.TzCom

open List Option

structure Held where
  obj : Nat
  ref : Nat
  deriving DecidableEq, Repr

/-- `taken` counts the references the vector has taken so far, each numbered by
the count before it. `givenUp` has those it has released again and `lent` the
objects retained for a caller of `getLocalObj`, the last one first. -/
structure CBContext where
  mLocObjTab : List (Option Held)
  mLocObjCnt : Int
  taken : Nat
  givenUp : List Nat
  lent : List Nat
  deriving DecidableEq, Repr

def CBContext.empty : CBContext := ⟨[], 0, 0, [], []⟩

def maxLocObjHandle : Int32 := -2

-- `MAX_LOCOBJ_HANDLE - i` is computed in `size_t` and cut to 32 bits when it is stored
def handleOf (i : Nat) : Int32 := Int32.ofInt (-2 - i)

def indexOf (handle : Int32) : Nat := ((-2 - handle.toInt) % 2 ^ 64).toNat

def handleLimit : Nat := 2 ^ 31 - 1

namespace CBContext

def slot (c : CBContext) (i : Nat) : Option Held := (c.mLocObjTab[i]?).join

def occupied (c : CBContext) : Nat := c.mLocObjTab.countP isSome

def assign (c : CBContext) (i : Nat) (obj : Option Nat) : CBContext :=
  { c with
    mLocObjTab := c.mLocObjTab.set i (obj.map (⟨·, c.taken⟩))
    taken := if obj.isSome then c.taken + 1 else c.taken
    givenUp := ((c.slot i).map Held.ref).toList ++ c.givenUp }

def freeIndex (c : CBContext) : Nat := c.mLocObjTab.findIdx isNone

def getLocObjHandle (c : CBContext) (locObj : Option Nat) : CBContext × Int32 :=
  let i := c.freeIndex
  let grown := if i = c.mLocObjTab.length then c.mLocObjTab ++ [none] else c.mLocObjTab
  ({ ({ c with mLocObjTab := grown }.assign i locObj) with mLocObjCnt := c.mLocObjCnt + 1 },
    handleOf i)

def clearLocalObj (c : CBContext) (handle : Int32) : CBContext × Option ObjectError :=
  if maxLocObjHandle < handle then (c, some .badObj)
  else if c.mLocObjTab.length ≤ indexOf handle then (c, some .badObj)
  else ({ c.assign (indexOf handle) none with mLocObjCnt := c.mLocObjCnt - 1 }, none)

def getLocalObj (c : CBContext) (handle : Int32) : CBContext × Except ObjectError Nat :=
  if maxLocObjHandle < handle then (c, .error .badObj)
  else
    match c.slot (indexOf handle) with
    | none => (c, .error .badObj)
    | some held => ({ c with lent := held.obj :: c.lent }, .ok held.obj)

end CBContext

theorem toInt_handleOf {i : Nat} (hi : i < handleLimit) : (handleOf i).toInt = -2 - i := by
  unfold handleLimit at hi
  exact Int32.toInt_ofInt_of_le (by omega) (by omega)

theorem handleOf_le {i : Nat} (hi : i < handleLimit) : handleOf i ≤ maxLocObjHandle := by
  rw [Int32.le_iff_toInt_le, toInt_handleOf hi]
  have : maxLocObjHandle.toInt = -2 := by decide
  omega

theorem indexOf_handleOf {i : Nat} (hi : i < handleLimit) : indexOf (handleOf i) = i := by
  unfold indexOf
  rw [toInt_handleOf hi]
  unfold handleLimit at hi
  omega

variable {handle : Int32}

section

variable (h : ¬ maxLocObjHandle < handle)
include h

theorem toInt_le : handle.toInt ≤ -2 := by
  have := Int32.le_iff_toInt_le.mp (Int32.not_lt.mp h)
  have : maxLocObjHandle.toInt = -2 := by decide
  omega

theorem indexOf_eq : (indexOf handle : Int) = -2 - handle.toInt := by
  have := toInt_le h
  have := handle.le_toInt
  unfold indexOf
  omega

theorem indexOf_lt : indexOf handle < handleLimit := by
  have := indexOf_eq h
  have := handle.le_toInt
  unfold handleLimit
  omega

theorem handleOf_indexOf : handleOf (indexOf handle) = handle := by
  have he := indexOf_eq h
  apply Int32.toInt_inj.mp
  rw [toInt_handleOf (indexOf_lt h)]
  omega

end

theorem handleOf_inj {i j : Nat} (hi : i < handleLimit) (hj : j < handleLimit)
    (h : handleOf i = handleOf j) : i = j := by
  rw [← indexOf_handleOf hi, h, indexOf_handleOf hj]

theorem not_maxLocObjHandle_lt_handleOf {i : Nat} (hi : i < handleLimit) :
    ¬ maxLocObjHandle < handleOf i :=
  Int32.not_lt.mpr (handleOf_le hi)

namespace CBContext

variable (c : CBContext)

theorem freeIndex_le : c.freeIndex ≤ c.mLocObjTab.length := findIdx_le_length

theorem slot_freeIndex : c.slot c.freeIndex = none := by
  by_cases h : c.freeIndex < c.mLocObjTab.length
  · have hp := findIdx_getElem (w := h)
    rw [slot, getElem?_eq_getElem h]
    exact isNone_iff_eq_none.mp hp
  · rw [slot, getElem?_eq_none (by omega), join_none]

theorem slot_isSome_of_lt_freeIndex {i : Nat} (hi : i < c.freeIndex) : (c.slot i).isSome := by
  have hp := not_of_lt_findIdx hi
  have hlen : i < c.mLocObjTab.length := Nat.lt_of_lt_of_le hi c.freeIndex_le
  rw [slot, getElem?_eq_getElem hlen]
  simpa using hp

def grown : List (Option Held) :=
  if c.freeIndex = c.mLocObjTab.length then c.mLocObjTab ++ [none] else c.mLocObjTab

theorem freeIndex_lt_grown : c.freeIndex < c.grown.length := by
  have := c.freeIndex_le
  unfold grown
  split
  · rw [length_append, length_singleton]
    omega
  · omega

theorem grown_join (i : Nat) : (c.grown[i]?).join = c.slot i := by
  unfold grown slot
  split
  · rcases Nat.lt_trichotomy i c.mLocObjTab.length with h | rfl | h
    · rw [getElem?_append_left h]
    · simp
    · rw [getElem?_eq_none (by rw [length_append]; exact h), getElem?_eq_none (by omega)]
  · rfl

variable {p : Option Held → Bool}

theorem countP_grown (hp : p none = false) : c.grown.countP p = c.mLocObjTab.countP p := by
  unfold grown
  split
  · simp [hp]
  · rfl

theorem getLocObjHandle_snd (obj : Option Nat) :
    (c.getLocObjHandle obj).2 = handleOf c.freeIndex := rfl

theorem getLocObjHandle_tab (obj : Option Nat) : (c.getLocObjHandle obj).1.mLocObjTab =
      c.grown.set c.freeIndex (obj.map (⟨·, c.taken⟩)) := rfl

theorem getLocObjHandle_cnt (obj : Option Nat) :
    (c.getLocObjHandle obj).1.mLocObjCnt = c.mLocObjCnt + 1 := rfl

theorem getLocObjHandle_taken (obj : Nat) :
    (c.getLocObjHandle (some obj)).1.taken = c.taken + 1 := rfl

theorem getLocObjHandle_givenUp (obj : Option Nat) :
    (c.getLocObjHandle obj).1.givenUp = c.givenUp := by
  have h : ({ c with mLocObjTab := c.grown } : CBContext).slot c.freeIndex = none :=
    (c.grown_join _).trans c.slot_freeIndex
  change ((({ c with mLocObjTab := c.grown } : CBContext).slot c.freeIndex).map Held.ref).toList ++
    c.givenUp = c.givenUp
  rw [h]
  rfl

theorem slot_getLocObjHandle (obj : Option Nat) (i : Nat) : (c.getLocObjHandle obj).1.slot i =
      if i = c.freeIndex then obj.map (⟨·, c.taken⟩) else c.slot i := by
  rw [slot, getLocObjHandle_tab, getElem?_set]
  by_cases h : i = c.freeIndex
  · subst h
    simp [c.freeIndex_lt_grown]
  · rw [if_neg (fun he => h he.symm), if_neg h, grown_join]

theorem countP_getLocObjHandle (hp : p none = false) (obj : Option Nat) :
    (c.getLocObjHandle obj).1.mLocObjTab.countP p =
      c.mLocObjTab.countP p + if p (obj.map (⟨·, c.taken⟩)) then 1 else 0 := by
  have hi := c.freeIndex_lt_grown
  have hnone : c.grown[c.freeIndex] = none := by
    have h := (c.grown_join c.freeIndex).trans c.slot_freeIndex
    rwa [getElem?_eq_getElem hi, join_some] at h
  rw [getLocObjHandle_tab, countP_set hi, hnone, hp, countP_grown c hp]
  rfl

theorem length_getLocObjHandle (obj : Option Nat) :
    (c.getLocObjHandle obj).1.mLocObjTab.length = max c.mLocObjTab.length (c.freeIndex + 1) := by
  have := c.freeIndex_le
  rw [getLocObjHandle_tab, length_set]
  unfold grown
  split
  · rw [length_append, length_singleton]
    omega
  · omega

variable {c} {handle : Int32}

theorem clearLocalObj_of_outside (h : maxLocObjHandle < handle ∨
    c.mLocObjTab.length ≤ indexOf handle) : c.clearLocalObj handle = (c, some .badObj) := by
  unfold clearLocalObj
  by_cases hm : maxLocObjHandle < handle
  · rw [if_pos hm]
  · rw [if_neg hm, if_pos (h.resolve_left hm)]

theorem clearLocalObj_of_inside (h : ¬ maxLocObjHandle < handle)
    (hi : indexOf handle < c.mLocObjTab.length) :
    c.clearLocalObj handle =
      ({ c.assign (indexOf handle) none with mLocObjCnt := c.mLocObjCnt - 1 }, none) := by
  rw [clearLocalObj, if_neg h, if_neg (by omega)]

theorem slot_assign_none {i : Nat} (j : Nat) :
    (c.assign i none).slot j = if j = i then none else c.slot j := by
  unfold assign slot
  rw [getElem?_set]
  by_cases h : j = i
  · subst h
    rw [if_pos rfl, if_pos rfl]
    split <;> rfl
  · rw [if_neg (fun he => h he.symm), if_neg h]

theorem slot_clearLocalObj (h : ¬ maxLocObjHandle < handle) (j : Nat) :
    (c.clearLocalObj handle).1.slot j = if j = indexOf handle then none else c.slot j := by
  by_cases hi : indexOf handle < c.mLocObjTab.length
  · rw [clearLocalObj_of_inside h hi]
    exact slot_assign_none j
  rw [clearLocalObj_of_outside (.inr (by omega))]
  by_cases hj : j = indexOf handle
  · have hnone : c.mLocObjTab[j]? = none := getElem?_eq_none (by omega)
    rw [if_pos hj, slot, hnone, join_none]
  · rw [if_neg hj]

theorem countP_assign_none (hp : p none = false) {i : Nat} (hi : i < c.mLocObjTab.length) :
    (c.assign i none).mLocObjTab.countP p + (if p (c.slot i) then 1 else 0) =
      c.mLocObjTab.countP p := by
  have hslot : c.slot i = c.mLocObjTab[i] := by
    rw [slot, getElem?_eq_getElem hi, join_some]
  have hle : (if p c.mLocObjTab[i] then 1 else 0) ≤ c.mLocObjTab.countP p := by
    split
    · exact countP_pos_iff.mpr ⟨_, getElem_mem hi, ‹_›⟩
    · omega
  have hset : (c.assign i none).mLocObjTab.countP p =
      c.mLocObjTab.countP p - (if p c.mLocObjTab[i] then 1 else 0) := by
    simp [assign, countP_set hi, hp]
  rw [hslot]
  omega

theorem freeIndex_le_occupied : c.freeIndex ≤ c.occupied := by
  have hall : (c.mLocObjTab.take c.freeIndex).countP isSome = c.freeIndex := by
    have hlen : (c.mLocObjTab.take c.freeIndex).length = c.freeIndex := by
      rw [length_take, Nat.min_eq_left c.freeIndex_le]
    rw [countP_eq_length.mpr, hlen]
    intro x hx
    obtain ⟨i, hi, rfl⟩ := mem_iff_getElem.mp hx
    have hs := c.slot_isSome_of_lt_freeIndex (hlen ▸ hi)
    rw [getElem_take]
    rwa [slot, getElem?_eq_getElem (by have := c.freeIndex_le; omega), join_some] at hs
  calc c.freeIndex = (c.mLocObjTab.take c.freeIndex).countP isSome := hall.symm
    _ ≤ c.occupied := (take_sublist _ _).countP_le

end CBContext

inductive Call
  | store (locObj : Option Nat)
  | get (handle : Int32)
  | clear (handle : Int32)
  deriving DecidableEq, Repr

inductive Event
  | stored (handle : Int32) (locObj : Option Nat)
  | cleared (handle : Int32)
  deriving DecidableEq, Repr

def recent : List Event → Int32 → Option Nat
  | [], _ => none
  | .stored h locObj :: events, handle => if h = handle then locObj else recent events handle
  | .cleared h :: events, handle => if h = handle then none else recent events handle

structure History where
  ctx : CBContext
  events : List Event
  deriving DecidableEq, Repr

namespace History

def start : History := ⟨.empty, []⟩

def perform (s : History) : Call → History
  | .store locObj =>
    ⟨(s.ctx.getLocObjHandle locObj).1, .stored (s.ctx.getLocObjHandle locObj).2 locObj :: s.events⟩
  | .get handle => ⟨(s.ctx.getLocalObj handle).1, s.events⟩
  | .clear handle => ⟨(s.ctx.clearLocalObj handle).1, .cleared handle :: s.events⟩

def after (calls : List Call) : History := calls.foldl perform start

/-- Every reference the table has taken is held in one slot or has been given up once. -/
structure Serves (s : History) : Prop where
  count : s.ctx.mLocObjCnt = s.ctx.occupied
  found : ∀ handle obj, recent s.events handle = some obj →
    s.ctx.getLocalObj handle = ({ s.ctx with lent := obj :: s.ctx.lent }, .ok obj)
  missing : ∀ handle, recent s.events handle = none →
    s.ctx.getLocalObj handle = (s.ctx, .error .badObj)
  distinct : ∀ i j, (s.ctx.slot i).isSome → (s.ctx.slot j).isSome → handleOf i = handleOf j → i = j
  references : ∀ r, s.ctx.givenUp.count r +
    s.ctx.mLocObjTab.countP (·.any (·.ref == r)) = if r < s.ctx.taken then 1 else 0

/-- Stored objects are not null and find a handle, and a cleared handle names a slot in use or none
at all. -/
def Orderly (s : History) : Call → Prop
  | .store locObj => locObj.isSome ∧ s.ctx.occupied < handleLimit
  | .get _ => True
  | .clear handle => maxLocObjHandle < handle ∨ s.ctx.mLocObjTab.length ≤ indexOf handle ∨
      (s.ctx.slot (indexOf handle)).isSome

instance (s : History) : (a : Call) → Decidable (s.Orderly a)
  | .store _ => inferInstanceAs (Decidable (_ ∧ _))
  | .get _ => isTrue trivial
  | .clear _ => inferInstanceAs (Decidable (_ ∨ _ ∨ _))

/-- The invariant behind `Serves`: all positions have a handle, and the slots
are the ones the history left. -/
structure Inv (s : History) : Prop where
  len : s.ctx.mLocObjTab.length ≤ handleLimit
  count : s.ctx.mLocObjCnt = s.ctx.occupied
  slots : ∀ i, i < handleLimit → (s.ctx.slot i).map Held.obj = recent s.events (handleOf i)
  outside : ∀ handle, maxLocObjHandle < handle → recent s.events handle = none
  references : ∀ r, s.ctx.givenUp.count r +
    s.ctx.mLocObjTab.countP (·.any (·.ref == r)) = if r < s.ctx.taken then 1 else 0

variable {s : History}

theorem Inv.lt_of_isSome (hs : s.Inv) {i : Nat} (h : (s.ctx.slot i).isSome) : i < handleLimit := by
  by_contra hge
  have hlen := hs.len
  have hnone : s.ctx.mLocObjTab[i]? = none := getElem?_eq_none (by omega)
  rw [CBContext.slot, hnone] at h
  cases h

theorem Inv.serves (hs : s.Inv) : s.Serves := by
  have hslot {handle : Int32} (h : ¬ maxLocObjHandle < handle) :
      (s.ctx.slot (indexOf handle)).map Held.obj = recent s.events handle := by
    rw [hs.slots _ (indexOf_lt h), handleOf_indexOf h]
  refine ⟨hs.count, ?_, ?_, ?_, hs.references⟩
  · intro handle obj hr
    by_cases hm : maxLocObjHandle < handle
    · rw [hs.outside handle hm] at hr
      cases hr
    · obtain ⟨held, hh, rfl⟩ := map_eq_some_iff.mp ((hslot hm).trans hr)
      simp only [CBContext.getLocalObj, if_neg hm, hh]
  · intro handle hr
    by_cases hm : maxLocObjHandle < handle
    · rw [CBContext.getLocalObj, if_pos hm]
    · have hh := map_eq_none_iff.mp ((hslot hm).trans hr)
      simp only [CBContext.getLocalObj, if_neg hm, hh]
  · intro i j hi hj he
    exact handleOf_inj (hs.lt_of_isSome hi) (hs.lt_of_isSome hj) he

theorem inv_start : start.Inv := by
  refine ⟨by decide, rfl, ?_, fun _ _ => rfl, ?_⟩
  · intro i _
    rfl
  · intro r
    simp [start, CBContext.empty]

theorem Inv.store (hs : s.Inv) {obj : Nat} (hroom : s.ctx.occupied < handleLimit) :
    (s.perform (.store (some obj))).Inv := by
  have hfree : s.ctx.freeIndex < handleLimit := Nat.lt_of_le_of_lt s.ctx.freeIndex_le_occupied hroom
  refine ⟨?_, ?_, ?_, ?_, ?_⟩
  · have hlen := hs.len
    change (s.ctx.getLocObjHandle (some obj)).1.mLocObjTab.length ≤ handleLimit
    rw [s.ctx.length_getLocObjHandle]
    omega
  · have hc := s.ctx.countP_getLocObjHandle (p := isSome) rfl (some obj)
    have hcount := hs.count
    change s.ctx.mLocObjCnt + 1 =
      (((s.ctx.getLocObjHandle (some obj)).1.mLocObjTab.countP isSome : Nat) : Int)
    rw [hc, hcount]
    rfl
  · intro i hi
    change ((s.ctx.getLocObjHandle (some obj)).1.slot i).map Held.obj =
      if handleOf s.ctx.freeIndex = handleOf i then some obj else recent s.events (handleOf i)
    rw [s.ctx.slot_getLocObjHandle]
    by_cases h : i = s.ctx.freeIndex
    · rw [if_pos h, if_pos (by rw [h])]
      rfl
    · rw [if_neg h, if_neg (fun he => h (handleOf_inj hfree hi he).symm), hs.slots i hi]
  · intro handle hm
    change (if handleOf s.ctx.freeIndex = handle then some obj else recent s.events handle) = none
    rw [if_neg, hs.outside handle hm]
    rintro rfl
    exact not_maxLocObjHandle_lt_handleOf hfree hm
  · intro r
    change (s.ctx.getLocObjHandle (some obj)).1.givenUp.count r +
      (s.ctx.getLocObjHandle (some obj)).1.mLocObjTab.countP (·.any (·.ref == r)) =
        if r < s.ctx.taken + 1 then 1 else 0
    rw [s.ctx.getLocObjHandle_givenUp, s.ctx.countP_getLocObjHandle rfl, ← Nat.add_assoc,
      hs.references r]
    simp only [map_some, any_some, beq_iff_eq]
    split <;> split <;> split <;> omega

theorem Inv.slots_clear (hs : s.Inv) (handle : Int32) {i : Nat} (hi : i < handleLimit) :
    ((s.ctx.clearLocalObj handle).1.slot i).map Held.obj =
      recent (.cleared handle :: s.events) (handleOf i) := by
  change _ = if handle = handleOf i then none else recent s.events (handleOf i)
  by_cases hm : maxLocObjHandle < handle
  · have hne : handle ≠ handleOf i := by
      rintro rfl
      exact not_maxLocObjHandle_lt_handleOf hi hm
    rw [CBContext.clearLocalObj_of_outside (.inl hm), if_neg hne, hs.slots i hi]
  · rw [CBContext.slot_clearLocalObj hm]
    by_cases h : i = indexOf handle
    · rw [if_pos h, if_pos (by rw [h, handleOf_indexOf hm])]
      rfl
    · rw [if_neg h, if_neg, hs.slots i hi]
      rintro rfl
      exact h (indexOf_handleOf hi).symm

theorem Inv.outside_clear (hs : s.Inv) (handle : Int32) {h : Int32} (hm : maxLocObjHandle < h) :
    recent (.cleared handle :: s.events) h = none := by
  change (if handle = h then none else recent s.events h) = none
  rw [hs.outside h hm, ite_self]

theorem Inv.references_assign (hs : s.Inv) {i : Nat} {held : Held}
    (hi : i < s.ctx.mLocObjTab.length) (hheld : s.ctx.slot i = some held) (r : Nat) :
    (s.ctx.assign i none).givenUp.count r +
      (s.ctx.assign i none).mLocObjTab.countP (·.any (·.ref == r)) =
        if r < s.ctx.taken then 1 else 0 := by
  have hp := CBContext.countP_assign_none (p := (·.any (·.ref == r))) rfl hi
  have hgiven : (s.ctx.assign i none).givenUp = held.ref :: s.ctx.givenUp := by
    simp [CBContext.assign, hheld]
  rw [hheld, any_some] at hp
  rw [← hs.references r, hgiven, count_cons]
  omega

theorem Inv.count_assign (hs : s.Inv) {i : Nat} (hi : i < s.ctx.mLocObjTab.length)
    (hheld : (s.ctx.slot i).isSome) :
    s.ctx.mLocObjCnt - 1 = (s.ctx.assign i none).occupied := by
  have hp := CBContext.countP_assign_none (p := isSome) rfl hi
  have hcount := hs.count
  rw [if_pos hheld] at hp
  unfold CBContext.occupied at hcount ⊢
  omega

theorem Inv.clear {s : History} (hs : s.Inv) {handle : Int32} (hok : s.Orderly (.clear handle)) :
    (s.perform (.clear handle)).Inv := by
  by_cases hin : ¬ maxLocObjHandle < handle ∧ indexOf handle < s.ctx.mLocObjTab.length
  · obtain ⟨hm, hi⟩ := hin
    have hsome := (hok.resolve_left hm).resolve_left (by omega)
    obtain ⟨held, hheld⟩ := isSome_iff_exists.mp hsome
    have hctx : (s.perform (.clear handle)).ctx =
        { s.ctx.assign (indexOf handle) none with mLocObjCnt := s.ctx.mLocObjCnt - 1 } :=
      congrArg Prod.fst (CBContext.clearLocalObj_of_inside hm hi)
    refine ⟨?_, ?_, fun _ => hs.slots_clear handle, fun _ => hs.outside_clear handle, ?_⟩
    · rw [hctx]
      change (s.ctx.mLocObjTab.set _ _).length ≤ handleLimit
      rw [length_set]
      exact hs.len
    · rw [hctx]
      exact hs.count_assign hi hsome
    · rw [hctx]
      exact hs.references_assign hi hheld
  · have hout : maxLocObjHandle < handle ∨ s.ctx.mLocObjTab.length ≤ indexOf handle := by
      by_contra h
      exact hin ⟨fun hm => h (.inl hm), by omega⟩
    have hctx : (s.perform (.clear handle)).ctx = s.ctx :=
      congrArg Prod.fst (CBContext.clearLocalObj_of_outside hout)
    exact ⟨hctx ▸ hs.len, hctx ▸ hs.count, fun _ => hs.slots_clear handle,
      fun _ => hs.outside_clear handle, hctx ▸ hs.references⟩

theorem getLocalObj_cases (c : CBContext) (handle : Int32) :
    ∃ lent, (c.getLocalObj handle).1 = { c with lent := lent } := by
  unfold CBContext.getLocalObj
  split
  · exact ⟨c.lent, rfl⟩
  · split
    · exact ⟨c.lent, rfl⟩
    · exact ⟨_, rfl⟩

theorem Inv.perform (hs : s.Inv) {a : Call} (hok : s.Orderly a) : (s.perform a).Inv := by
  cases a with
  | store locObj =>
    obtain ⟨hsome, hroom⟩ := hok
    obtain ⟨obj, rfl⟩ := isSome_iff_exists.mp hsome
    exact hs.store hroom
  | get handle =>
    obtain ⟨lent, hl⟩ := getLocalObj_cases s.ctx handle
    have hctx : s.perform (.get handle) = ⟨{ s.ctx with lent := lent }, s.events⟩ := by
      rw [History.perform, hl]
    rw [hctx]
    exact ⟨hs.len, hs.count, hs.slots, hs.outside, hs.references⟩
  | clear handle => exact hs.clear hok

theorem not_serves_store_null (s : History) (hs : s.Inv) : ¬ (s.perform (.store none)).Serves := by
  intro h
  have hc := h.count
  have hp := s.ctx.countP_getLocObjHandle (p := isSome) rfl none
  have hcount := hs.count
  change s.ctx.mLocObjCnt + 1 =
    (((s.ctx.getLocObjHandle none).1.mLocObjTab.countP isSome : Nat) : Int) at hc
  unfold CBContext.occupied at hcount
  rw [hp] at hc
  simp at hc
  omega

theorem not_serves_store_full (s : History) (hs : s.Inv) {obj : Nat}
    (hfull : ¬ s.ctx.occupied < handleLimit) : ¬ (s.perform (.store (some obj))).Serves := by
  have hlen := hs.len
  have hle : s.ctx.occupied ≤ s.ctx.mLocObjTab.length := countP_le_length
  have hall : s.ctx.freeIndex = s.ctx.mLocObjTab.length := by
    have hsome : ∀ x ∈ s.ctx.mLocObjTab, x.isSome :=
      countP_eq_length.mp (show s.ctx.occupied = s.ctx.mLocObjTab.length by omega)
    apply findIdx_eq_length.mpr
    intro x hx
    simpa using hsome x hx
  have hfree : s.ctx.freeIndex = handleLimit := by omega
  intro h
  have hr : recent (s.perform (.store (some obj))).events (handleOf handleLimit) = some obj := by
    change (if handleOf s.ctx.freeIndex = handleOf handleLimit then some obj else _) = some obj
    rw [hfree, if_pos rfl]
  have hg := h.found _ _ hr
  have hm : maxLocObjHandle < handleOf handleLimit := by decide
  have he := congrArg Prod.snd hg
  cases he

theorem not_serves_clear_empty (s : History) (hs : s.Inv) {handle : Int32}
    (hm : ¬ maxLocObjHandle < handle) (hi : indexOf handle < s.ctx.mLocObjTab.length)
    (hnone : s.ctx.slot (indexOf handle) = none) : ¬ (s.perform (.clear handle)).Serves := by
  intro h
  have hc := h.count
  have hp := CBContext.countP_assign_none (p := isSome) rfl hi
  have hcount := hs.count
  have hctx : (s.perform (.clear handle)).ctx =
      { s.ctx.assign (indexOf handle) none with mLocObjCnt := s.ctx.mLocObjCnt - 1 } :=
    congrArg Prod.fst (CBContext.clearLocalObj_of_inside hm hi)
  rw [hctx] at hc
  change s.ctx.mLocObjCnt - 1 =
    (((s.ctx.assign (indexOf handle) none).mLocObjTab.countP isSome : Nat) : Int) at hc
  unfold CBContext.occupied at hcount
  rw [hnone] at hp
  simp at hp
  omega

theorem Inv.orderly_of_serves (hs : s.Inv) {a : Call} (h : (s.perform a).Serves) : s.Orderly a := by
  cases a with
  | store locObj =>
    cases locObj with
    | none => exact absurd h (not_serves_store_null s hs)
    | some obj =>
      by_contra hok
      exact not_serves_store_full s hs (fun hroom => hok ⟨rfl, hroom⟩) h
  | get handle => trivial
  | clear handle =>
    by_cases hm : maxLocObjHandle < handle
    · exact .inl hm
    by_cases hi : indexOf handle < s.ctx.mLocObjTab.length
    · refine .inr (.inr ?_)
      rw [isSome_iff_ne_none]
      intro hnone
      exact not_serves_clear_empty s hs hm hi hnone h
    · exact .inr (.inl (by omega))

theorem after_append (pre : List Call) (a : Call) : after (pre ++ [a]) = (after pre).perform a := by
  rw [after, foldl_append]
  rfl

/-- The table serves its history in every state of a run iff the run stores no null object, finds a
handle for each object and clears no empty slot. -/
theorem run_serves_iff (calls : List Call) : (∀ pre, pre <+: calls → (after pre).Serves) ↔
      ∀ pre a, pre ++ [a] <+: calls → (after pre).Orderly a := by
  constructor
  · intro h
    have hinv : ∀ pre, pre <+: calls → (after pre).Inv := by
      intro pre
      induction pre using reverseRecOn with
      | nil => exact fun _ => inv_start
      | append_singleton pre a ih =>
        intro hp
        have hs := ih ((prefix_append pre [a]).trans hp)
        have hserves := h _ hp
        rw [after_append] at hserves ⊢
        exact hs.perform (hs.orderly_of_serves hserves)
    intro pre a hp
    have hserves := h _ hp
    rw [after_append] at hserves
    exact (hinv pre ((prefix_append pre [a]).trans hp)).orderly_of_serves hserves
  · intro h pre hp
    have hinv : (after pre).Inv := by
      induction pre using reverseRecOn with
      | nil => exact inv_start
      | append_singleton pre a ih =>
        rw [after_append]
        exact (ih ((prefix_append pre [a]).trans hp)).perform (h pre a hp)
    exact hinv.serves

/-- The second release of a handle finds the slot empty and takes the count below the slots in use.
-/
theorem repeated_clear_miscounts :
    (after [.store (some 7), .clear (-2), .clear (-2)]).ctx.occupied = 0 ∧
      (after [.store (some 7), .clear (-2), .clear (-2)]).ctx.mLocObjCnt = -1 ∧
      ¬ (after [.store (some 7), .clear (-2), .clear (-2)]).Serves := by
  refine ⟨by decide, by decide, ?_⟩
  intro h
  exact absurd h.count (by decide)

end History

end MinkIpc.TzCom
