import MinkIpc.ObjectTable
import MinkIpc.Run
import Mathlib.Algebra.BigOperators.Group.Finset.Piecewise
import Mathlib.Algebra.Order.Group.Multiset

/-! The object table of a connection over a whole history of calls. To its users it is a partial map
from handles to objects. -/

namespace MinkIpc.ObjectTable

open Function

variable {α : Type*}

inductive Op (α : Type*)
  | addPrimordial (obj : α)
  | addObject (obj : α)
  | recoverObject (h : Int)
  | releaseHandle (h : Int)
  | closeAllHandles
  deriving DecidableEq, Repr

inductive Reply (α : Type*)
  | done
  | failed
  | handle (n : Nat)
  | object (obj : α)
  deriving DecidableEq, Repr

/-- `calls` has the last call first. `retained` and `lent` are the objects that
`Object_retain` was called on, for a slot and for a caller of
`ObjectTable_recoverObject`, and `released` those of `Object_release`. -/
structure History (α : Type*) where
  table : ObjectTable α
  calls : List (Op α × Reply α)
  retained : List α
  lent : List α
  released : List α

namespace History

def start (size : Nat) : History α := ⟨construct size, [], [], [], []⟩

def perform (hd : Handles) (s : History α) : Op α → History α
  | .addPrimordial obj =>
    match s.table.addPrimordial hd obj with
    | none => { s with calls := (.addPrimordial obj, .failed) :: s.calls }
    | some t =>
      { s with
        table := t
        calls := (.addPrimordial obj, .done) :: s.calls
        retained := obj :: s.retained }
  | .addObject obj =>
    match s.table.addObject hd obj with
    | none => { s with calls := (.addObject obj, .failed) :: s.calls }
    | some (n, t) =>
      { s with
        table := t
        calls := (.addObject obj, .handle n) :: s.calls
        retained := obj :: s.retained }
  | .recoverObject h =>
    match s.table.recoverObject h with
    | none => { s with calls := (.recoverObject h, .failed) :: s.calls }
    | some obj =>
      { s with
        calls := (.recoverObject h, .object obj) :: s.calls
        lent := obj :: s.lent }
  | .releaseHandle h =>
    match s.table.releaseHandle hd h with
    | none => { s with calls := (.releaseHandle h, .failed) :: s.calls }
    | some (obj, t) =>
      { s with
        table := t
        calls := (.releaseHandle h, .done) :: s.calls
        released := obj :: s.released }
  | .closeAllHandles =>
    { s with
      table := (s.table.closeAllHandles hd).2
      calls := (.closeAllHandles, .done) :: s.calls
      released := (s.table.closeAllHandles hd).1 ++ s.released }

end History

/-- The partial map that the replies describe: what was added under a handle last, if not released
since. -/
def assigned (hd : Handles) : List (Op α × Reply α) → Int → Option α
  | [] => fun _ => none
  | (.addPrimordial obj, .done) :: calls =>
    update (assigned hd calls) hd.primordial (some obj)
  | (.addObject obj, .handle n) :: calls => update (assigned hd calls) n (some obj)
  | (.releaseHandle h, .done) :: calls => update (assigned hd calls) h none
  | (.closeAllHandles, _) :: calls => fun h =>
    if hd.generic ≤ h ∧ h < hd.primordial then none else assigned hd calls h
  | _ :: calls => assigned hd calls

def sumOccupied {M : Type*} [AddCommMonoid M] (f : α → M) (t : ObjectTable α) : M :=
  ∑ n ∈ Finset.range t.objectsLen, (t.objects n).elim 0 f

def occupied (t : ObjectTable α) : Nat := t.sumOccupied fun _ => 1

def held (t : ObjectTable α) : Multiset α := t.sumOccupied fun obj => {obj}

section Sum

variable {M : Type*} [AddCommMonoid M] {t t' : ObjectTable α}

theorem sumOccupied_of_update (f : α → M) {n : Nat} {obj : α} (hn : n < t.objectsLen)
    (hfree : t.objects n = none) (hlen : t'.objectsLen = t.objectsLen)
    (hobjects : t'.objects = update t.objects n (some obj)) :
    t'.sumOccupied f = f obj + t.sumOccupied f := by
  have hmem : n ∈ Finset.range t.objectsLen := Finset.mem_range.mpr hn
  have hrest : ∑ m ∈ Finset.range t.objectsLen \ {n}, (t'.objects m).elim 0 f =
      ∑ m ∈ Finset.range t.objectsLen \ {n}, (t.objects m).elim 0 f := by
    refine Finset.sum_congr rfl fun m hm => ?_
    have hne : m ≠ n := by simpa using (Finset.mem_sdiff.mp hm).2
    rw [hobjects, update_of_ne hne]
  unfold sumOccupied
  rw [hlen, Finset.sum_eq_add_sum_sdiff_singleton_of_mem hmem, hrest,
    Finset.sum_eq_add_sum_sdiff_singleton_of_mem hmem fun m => (t.objects m).elim 0 f]
  simp [hobjects, hfree]

theorem sumOccupied_add (f : α → M) {n : Nat} {obj : α} (h : t.add obj n = some t')
    (hn : n < t.objectsLen) : t'.sumOccupied f = f obj + t.sumOccupied f := by
  obtain ⟨hfree, hobjects, hlen, -⟩ := add_eq_some h
  exact sumOccupied_of_update f hn hfree hlen hobjects

theorem sumOccupied_close (f : α → M) {n : Nat} {obj : α} (h : t.close n = some (obj, t'))
    (hn : n < t.objectsLen) : t.sumOccupied f = f obj + t'.sumOccupied f := by
  obtain ⟨hobj, hobjects, hlen, -⟩ := close_eq_some h
  refine sumOccupied_of_update f (hlen ▸ hn) (by simp [hobjects]) hlen.symm ?_
  rw [hobjects, update_idem, ← hobj, update_eq_self]

theorem sumOccupied_closeEach (f : α → M) (hs : List Nat) (hlt : ∀ h ∈ hs, h < t.objectsLen) :
    t.sumOccupied f = ((closeEach hs t).1.map f).sum + (closeEach hs t).2.sumOccupied f := by
  induction hs generalizing t with
  | nil => simp [closeEach]
  | cons h hs ih =>
    have hlt' : ∀ h' ∈ hs, h' < t.objectsLen := fun h' hm => hlt h' (by simp [hm])
    cases hc : t.close h with
    | none => simpa [closeEach, hc] using ih hlt'
    | some result =>
      obtain ⟨obj, u⟩ := result
      have hlen := (close_eq_some hc).2.2.1
      rw [sumOccupied_close f hc (hlt h (by simp)), ih (hlen ▸ hlt')]
      simp [closeEach, hc, add_assoc]

end Sum

theorem closeEach_frame (hs : List Nat) (t : ObjectTable α) :
    (closeEach hs t).2.objectsLen = t.objectsLen ∧
      ∀ n, (closeEach hs t).2.objects n = if n ∈ hs then none else t.objects n := by
  induction hs generalizing t with
  | nil => simp [closeEach]
  | cons h hs ih =>
    cases hc : t.close h with
    | none =>
      have hfree := close_eq_none hc
      refine ⟨by simpa [closeEach, hc] using (ih t).1, fun n => ?_⟩
      simp only [closeEach, hc, (ih t).2 n]
      by_cases hn : n = h
      · simp [hn, hfree]
      · simp [hn]
    | some result =>
      obtain ⟨obj, u⟩ := result
      obtain ⟨-, hobjects, hlen, -⟩ := close_eq_some hc
      refine ⟨by simpa [closeEach, hc, hlen] using (ih u).1, fun n => ?_⟩
      simp only [closeEach, hc, (ih u).2 n, hobjects]
      by_cases hn : n = h
      · simp [hn]
      · simp [hn]

theorem occupied_close {t t' : ObjectTable α} {n : Nat} {obj : α}
    (h : t.close n = some (obj, t')) (hn : n < t.objectsLen)
    (hcount : t.objectsCount = t.occupied) : t'.objectsCount = t'.occupied := by
  have hsum : t.occupied = 1 + t'.occupied := sumOccupied_close _ h hn
  have hdec := (close_eq_some h).2.2.2
  omega

theorem occupied_closeEach (hs : List Nat) {t : ObjectTable α} (hlt : ∀ h ∈ hs, h < t.objectsLen)
    (hcount : t.objectsCount = t.occupied) :
    (closeEach hs t).2.objectsCount = (closeEach hs t).2.occupied := by
  induction hs generalizing t with
  | nil => exact hcount
  | cons h hs ih =>
    have hlt' : ∀ h' ∈ hs, h' < t.objectsLen := fun h' hm => hlt h' (by simp [hm])
    cases hc : t.close h with
    | none => simpa [closeEach, hc] using ih hlt' hcount
    | some result =>
      obtain ⟨obj, u⟩ := result
      have hlen := (close_eq_some hc).2.2.1
      have hu := occupied_close hc (hlt h (by simp)) hcount
      simpa [closeEach, hc] using ih (hlen ▸ hlt') hu

theorem update_natCast (g : Int → Option α) (n m : Nat) (v : Option α) :
    update g (n : Int) v (m : Int) = update (fun k : Nat => g k) n v m := by
  by_cases h : m = n
  · simp [h]
  · have h' : (m : Int) ≠ n := by omega
    rw [update_of_ne h', update_of_ne h]

/-- The table of a history is the map that the replies describe, and the references
it took are those it gave up and those it holds. -/
structure History.Refines (hd : Handles) (size : Nat) (s : History α) : Prop where
  len : s.table.objectsLen = size
  counted : s.table.objectsCount = s.table.occupied
  mapped : ∀ n : Nat, s.table.objects n = assigned hd s.calls n
  range : ∀ h, (assigned hd s.calls h).isSome → hd.generic ≤ h ∧ h ≤ hd.primordial
  balanced : (s.retained : Multiset α) = s.released + s.table.held

namespace History

section Refines

variable {hd : Handles} {size : Nat} {s s' : History α}

theorem refines_start : (start size : History α).Refines hd size where
  len := rfl
  counted := by simp [start, construct, occupied, sumOccupied]
  mapped _ := rfl
  range h hs := by simp [start, assigned] at hs
  balanced := by simp [start, construct, held, sumOccupied]

section

variable (h : s.Refines hd size)
include h

theorem Refines.same (htable : s'.table = s.table)
    (hcalls : assigned hd s'.calls = assigned hd s.calls) (hretained : s'.retained = s.retained)
    (hreleased : s'.released = s.released) : s'.Refines hd size where
  len := htable ▸ h.len
  counted := by rw [htable, h.counted]
  mapped n := by rw [htable, hcalls, h.mapped]
  range := hcalls ▸ h.range
  balanced := by rw [hretained, hreleased, htable, h.balanced]

theorem Refines.added {n : Nat} {obj : α} (hsize : n < size)
    (hn : hd.generic ≤ n ∧ n ≤ hd.primordial) (hadd : s.table.add obj n = some s'.table)
    (hcalls : assigned hd s'.calls = update (assigned hd s.calls) n (some obj))
    (hretained : s'.retained = obj :: s.retained) (hreleased : s'.released = s.released) :
    s'.Refines hd size := by
  obtain ⟨-, hobjects, hlen, hcount⟩ := add_eq_some hadd
  have hn' : n < s.table.objectsLen := h.len ▸ hsize
  constructor
  · rw [hlen, h.len]
  · have hsum : s'.table.occupied = 1 + s.table.occupied := sumOccupied_add _ hadd hn'
    rw [hcount, hsum, h.counted, Nat.add_comm]
  · intro m
    rw [hobjects, hcalls, update_natCast]
    simp only [← h.mapped]
  · intro k hk
    rw [hcalls] at hk
    by_cases hkn : k = n
    · omega
    · rw [update_of_ne hkn] at hk
      exact h.range k hk
  · have hheld : s'.table.held = {obj} + s.table.held := sumOccupied_add _ hadd hn'
    rw [hretained, hreleased, hheld, ← Multiset.cons_coe, h.balanced, Multiset.singleton_add,
      Multiset.add_cons]

theorem Refines.released {n : Nat} {obj : α} (hsize : n < size)
    (hclose : s.table.close n = some (obj, s'.table))
    (hcalls : assigned hd s'.calls = update (assigned hd s.calls) n none)
    (hretained : s'.retained = s.retained) (hreleased : s'.released = obj :: s.released) :
    s'.Refines hd size := by
  obtain ⟨-, hobjects, hlen, -⟩ := close_eq_some hclose
  have hn : n < s.table.objectsLen := h.len ▸ hsize
  constructor
  · rw [hlen, h.len]
  · exact occupied_close hclose hn h.counted
  · intro m
    rw [hobjects, hcalls, update_natCast]
    simp only [← h.mapped]
  · intro k hk
    rw [hcalls] at hk
    by_cases hkn : k = n
    · simp [hkn] at hk
    · rw [update_of_ne hkn] at hk
      exact h.range k hk
  · have hheld : s.table.held = {obj} + s'.table.held := sumOccupied_close _ hclose hn
    rw [hretained, hreleased, h.balanced, hheld, ← Multiset.cons_coe, Multiset.singleton_add,
      Multiset.add_cons, Multiset.cons_add]

theorem Refines.closedAll (hsize : hd.primordial < size) :
    (s.perform hd .closeAllHandles).Refines hd size := by
  have hlt : ∀ n ∈ List.range' hd.generic (hd.primordial - hd.generic), n < s.table.objectsLen := by
    intro n hn
    have hrange := List.mem_range'_1.mp hn
    have hlen := h.len
    omega
  obtain ⟨hlen, hobjects⟩ :=
    closeEach_frame (List.range' hd.generic (hd.primordial - hd.generic)) s.table
  constructor
  · exact hlen.trans h.len
  · exact occupied_closeEach _ hlt h.counted
  · intro m
    refine (hobjects m).trans ?_
    have hiff : (m ∈ List.range' hd.generic (hd.primordial - hd.generic)) ↔
        ((hd.generic : Int) ≤ m ∧ (m : Int) < hd.primordial) := by
      rw [List.mem_range'_1]
      omega
    simp only [hiff, perform, assigned, h.mapped]
  · intro k hk
    simp only [perform, assigned] at hk
    split_ifs at hk
    · simp at hk
    · exact h.range k hk
  · have hheld := sumOccupied_closeEach (fun obj : α => ({obj} : Multiset α)) _ hlt
    have hmap : ∀ l : List α, (l.map fun obj => ({obj} : Multiset α)).sum = l := fun l => by
      exact Multiset.sum_map_singleton (l : Multiset α)
    rw [hmap] at hheld
    have hbal := h.balanced
    unfold held at hbal
    rw [hheld] at hbal
    simp only [perform, hbal]
    exact (add_assoc _ _ _).symm.trans (congrArg (· + _) (add_comm _ _))

theorem Refines.perform (hsize : hd.primordial < size) (op : Op α) :
    (s.perform hd op).Refines hd size := by
  have hgen := hd.generic_lt
  cases op with
  | addPrimordial obj =>
    cases hadd : s.table.addPrimordial hd obj with
    | none =>
      simp only [History.perform, hadd]
      exact h.same rfl rfl rfl rfl
    | some t =>
      simp only [History.perform, hadd]
      exact h.added hsize ⟨by omega, by omega⟩ hadd rfl rfl rfl
  | addObject obj =>
    cases hadd : s.table.addObject hd obj with
    | none =>
      simp only [History.perform, hadd]
      exact h.same rfl rfl rfl rfl
    | some result =>
      obtain ⟨n, t⟩ := result
      obtain ⟨hle, hlt, hslot⟩ := add_of_addObject hadd
      simp only [History.perform, hadd]
      exact h.added (by omega) ⟨by omega, by omega⟩ hslot rfl rfl rfl
  | recoverObject k =>
    cases hrec : s.table.recoverObject k with
    | none | some obj =>
      simp only [History.perform, hrec]
      exact h.same rfl rfl rfl rfl
  | releaseHandle k =>
    cases hrel : s.table.releaseHandle hd k with
    | none =>
      simp only [History.perform, hrel]
      exact h.same rfl rfl rfl rfl
    | some result =>
      simp only [History.perform, hrel]
      unfold releaseHandle at hrel
      split_ifs at hrel with hrange
      have hk : ((k.toNat : Nat) : Int) = k := by omega
      exact h.released (n := k.toNat) (by omega) hrel (by rw [hk]; rfl) rfl rfl
  | closeAllHandles => exact h.closedAll hsize

theorem Refines.recoverObject (hsize : hd.primordial < size) (k : Int) :
    s.table.recoverObject k = assigned hd s.calls k := by
  unfold ObjectTable.recoverObject
  split_ifs with hk
  · have hcast : ((k.toNat : Nat) : Int) = k := by omega
    rw [h.mapped, hcast]
  cases hassigned : assigned hd s.calls k with
  | none => rfl
  | some obj =>
    have hrange := h.range k (by simp [hassigned])
    have hlen := h.len
    omega

end

theorem refines_exec (hsize : hd.primordial < size) {ops : List (Op α)}
    (h : Run.exec (fun s op => some (perform hd s op)) (start size) ops = some s) :
    s.Refines hd size := by
  refine Run.exec_invariant (History.Refines hd size) refines_start ?_ h
  intro s op t hs hstep
  cases hstep
  exact hs.perform hsize op

end Refines

end History

/-- What a history of calls leaves in a table with a slot for the primordial object. Only the slots
below that one are open to `ObjectTable_addObject`. -/
theorem table_refines_map (hd : Handles) (size : Nat) (hsize : hd.primordial < size)
    (ops : List (Op α)) {s : History α}
    (h : Run.exec (fun s op => some (s.perform hd op)) (History.start size) ops = some s) :
    s.table.objectsCount = s.table.occupied ∧
    (∀ obj, s.table.addObject hd obj = none ↔
      ∀ n, hd.generic ≤ n → n < hd.primordial → (s.table.objects n).isSome) ∧
    (∀ obj n t, s.table.addObject hd obj = some (n, t) → s.table.objects n = none) ∧
    (∀ k, s.table.recoverObject k = assigned hd s.calls k ∧
      (s.perform hd (.recoverObject k)).lent = (assigned hd s.calls k).toList ++ s.lent) ∧
    (s.retained : Multiset α) = s.released + s.table.held := by
  have hinv := History.refines_exec hsize h
  refine ⟨hinv.counted, fun obj => addObject_eq_none_iff, ?_, fun k => ?_, hinv.balanced⟩
  · intro obj n t hadd
    exact (addObject_eq_some hadd).2.2.1
  · have hrec := hinv.recoverObject hsize k
    refine ⟨hrec, ?_⟩
    cases hk : s.table.recoverObject k with
    | none | some obj => simp [History.perform, hk, ← hrec]

def sampleCalls : List (Op Nat) :=
  [.addPrimordial 30, .addObject 41, .addObject 52, .releaseHandle 1, .addObject 63,
    .recoverObject 1]

theorem table_refines_map_reuse :
    ∃ s : History Nat, Run.exec (fun s op => some (s.perform sampleHandles op))
        (History.start 1024) sampleCalls = some s ∧
      s.table.recoverObject 1 = assigned sampleHandles s.calls 1 :=
  ⟨_, rfl, ((table_refines_map sampleHandles 1024 (by decide) sampleCalls rfl).2.2.2.1 1).1⟩

theorem addObject_refused_beside_free_slot :
    ∃ s ∈ Run.exec (fun s op => some (History.perform sampleHandles s op)) (History.start 1024)
        (List.replicate 8 (.addObject 41)),
      (s.table.addObject sampleHandles 52).isNone ∧
        (s.table.objects sampleHandles.primordial).isNone := by
  decide

end MinkIpc.ObjectTable
