import Mathlib.Data.List.Range
import Mathlib.Logic.Function.Basic

/-! The object table of a MinkSocket connection: the local objects that the
other side holds, each under a handle of its own. An object that is added again
takes another slot. -/

namespace MinkIpc

/-- The two handle constants of the build, the first slot for added objects and
the slot of the primordial object. -/
structure Handles where
  generic : Nat
  primordial : Nat
  generic_lt : generic < primordial
  primordial_lt : primordial < 1024

def sampleHandles : Handles := ⟨1, 9, by decide, by decide⟩

structure ObjectTable (α : Type*) where
  objects : Nat → Option α
  objectsLen : Nat
  objectsCount : Nat

namespace ObjectTable

variable {α : Type*}

def construct (size : Nat) : ObjectTable α where
  objects _ := none
  objectsLen := size
  objectsCount := 0

def add (t : ObjectTable α) (obj : α) (n : Nat) : Option (ObjectTable α) :=
  match t.objects n with
  | none =>
    some { t with
      objects := Function.update t.objects n (some obj)
      objectsCount := t.objectsCount + 1 }
  | some _ => none

def addPrimordial (hd : Handles) (t : ObjectTable α) (obj : α) : Option (ObjectTable α) :=
  t.add obj hd.primordial

/-- The first free slot from `generic` on; `none` is the source's -1. -/
def addObject (hd : Handles) (t : ObjectTable α) (obj : α) : Option (Nat × ObjectTable α) :=
  (List.range' hd.generic (hd.primordial - hd.generic)).findSome? fun n =>
    (t.add obj n).map fun t' => (n, t')

def recoverObject (t : ObjectTable α) (h : Int) : Option α :=
  if 0 ≤ h ∧ h < t.objectsLen then t.objects h.toNat else none

def close (t : ObjectTable α) (h : Nat) : Option (α × ObjectTable α) :=
  match t.objects h with
  | none => none
  | some obj =>
    some (obj, { t with
      objects := Function.update t.objects h none
      objectsCount := t.objectsCount - 1 })

def releaseHandle (hd : Handles) (t : ObjectTable α) (h : Int) : Option (α × ObjectTable α) :=
  if hd.generic ≤ h ∧ h < hd.primordial then t.close h.toNat else none

def closeEach : List Nat → ObjectTable α → List α × ObjectTable α
  | [], t => ([], t)
  | h :: hs, t =>
    match t.close h with
    | none => closeEach hs t
    | some (obj, t') => (obj :: (closeEach hs t').1, (closeEach hs t').2)

def closeAllHandles (hd : Handles) (t : ObjectTable α) : List α × ObjectTable α :=
  closeEach (List.range' hd.generic (hd.primordial - hd.generic)) t

variable {t t' : ObjectTable α} {obj : α} {n : Nat}

theorem add_eq_some (h : t.add obj n = some t') :
    t.objects n = none ∧ t'.objects = Function.update t.objects n (some obj) ∧
      t'.objectsLen = t.objectsLen ∧ t'.objectsCount = t.objectsCount + 1 := by
  unfold add at h
  split at h
  · cases h
    exact ⟨‹_›, rfl, rfl, rfl⟩
  · cases h

theorem close_eq_some (h : t.close n = some (obj, t')) :
    t.objects n = some obj ∧ t'.objects = Function.update t.objects n none ∧
      t'.objectsLen = t.objectsLen ∧ t'.objectsCount = t.objectsCount - 1 := by
  unfold close at h
  split at h
  · cases h
  · cases h
    exact ⟨‹_›, rfl, rfl, rfl⟩

theorem close_eq_none (h : t.close n = none) : t.objects n = none := by
  unfold close at h
  split at h
  · assumption
  · cases h

theorem add_of_addObject {hd : Handles} (h : t.addObject hd obj = some (n, t')) :
    hd.generic ≤ n ∧ n < hd.primordial ∧ t.add obj n = some t' := by
  obtain ⟨i, hi, hadd⟩ := List.exists_of_findSome?_eq_some h
  obtain ⟨u, hu, heq⟩ := Option.map_eq_some_iff.mp hadd
  cases heq
  have hrange := List.mem_range'_1.mp hi
  exact ⟨hrange.1, by omega, hu⟩

theorem addObject_eq_some {hd : Handles} (h : t.addObject hd obj = some (n, t')) :
    hd.generic ≤ n ∧ n < hd.primordial ∧ t.objects n = none ∧
      t'.objects = Function.update t.objects n (some obj) ∧ t'.objectsLen = t.objectsLen := by
  obtain ⟨hle, hlt, hadd⟩ := add_of_addObject h
  obtain ⟨hfree, hobjects, hlen, -⟩ := add_eq_some hadd
  exact ⟨hle, hlt, hfree, hobjects, hlen⟩

theorem add_eq_none_iff : t.add obj n = none ↔ (t.objects n).isSome := by
  unfold add
  cases t.objects n <;> simp

theorem addObject_eq_none_iff {hd : Handles} : t.addObject hd obj = none ↔
      ∀ n, hd.generic ≤ n → n < hd.primordial → (t.objects n).isSome := by
  unfold addObject
  rw [List.findSome?_eq_none_iff]
  constructor
  · intro h n hle hn
    have hmem : n ∈ List.range' hd.generic (hd.primordial - hd.generic) :=
      List.mem_range'_1.mpr ⟨hle, by omega⟩
    exact add_eq_none_iff.mp (Option.map_eq_none_iff.mp (h n hmem))
  · intro h n hn
    have hrange := List.mem_range'_1.mp hn
    rw [add_eq_none_iff.mpr (h n hrange.1 (by omega)), Option.map_none]

theorem recoverObject_ofNat {h : Nat} (hlt : h < t.objectsLen) :
    t.recoverObject h = t.objects h := by
  unfold recoverObject
  rw [if_pos (by omega), Int.toNat_natCast]

theorem releaseHandle_frame (hd : Handles) (t : ObjectTable α) (h : Nat) :
    let t' := ((t.releaseHandle hd h).map Prod.snd).getD t
    t'.objectsLen = t.objectsLen ∧ (∀ n, n ≠ h → t'.objects n = t.objects n) ∧
      ∀ n obj, t'.objects n = some obj → t.objects n = some obj := by
  unfold releaseHandle close
  split_ifs with hrange
  · rw [Int.toNat_natCast]
    cases hobj : t.objects h with
    | none => exact ⟨rfl, fun _ _ => rfl, fun _ _ => id⟩
    | some obj =>
      refine ⟨rfl, fun n hn => Function.update_of_ne hn _ _, fun n o ho => ?_⟩
      have hne : n ≠ h := by
        rintro rfl
        simp at ho
      simpa [Function.update_of_ne hne] using ho
  · exact ⟨rfl, fun _ _ => rfl, fun _ _ => id⟩

end ObjectTable

end MinkIpc
