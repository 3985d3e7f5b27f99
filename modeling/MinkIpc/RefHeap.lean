import Mathlib.Logic.Function.Basic
import Mathlib.Tactic.SplitIfs

/-! A heap of reference-counted cells. A cell is freed when its count reaches 0, and an operation on
a cell that is not there has no result. -/

namespace RefHeap

open Function

structure Cell (α : Type*) where
  refs : Int
  val : α

abbrev Heap (α : Type*) := Nat → Option (Cell α)

section

variable {α : Type*} (h : Heap α) (p : Nat)

def val? : Option α := (h p).map Cell.val

def alloc (v : α) : Heap α := update h p (some ⟨1, v⟩)

def modify (f : α → α) : Option (Heap α) :=
  (h p).map fun c => update h p (some { c with val := f c.val })

def retain : Option (Heap α) :=
  (h p).map fun c => update h p (some { c with refs := c.refs + 1 })

def release : Option (Heap α) :=
  (h p).map fun c =>
    update h p (if c.refs - 1 = 0 then none else some { c with refs := c.refs - 1 })

/-- Each cell has as many references as its count says, and a cell without references is gone. -/
def Counted (n : Nat → Nat) : Prop :=
  ∀ p, (h p).map Cell.refs = if n p = 0 then none else some (n p : Int)

end

section

variable {α : Type*} {h h' : Heap α} {n : Nat → Nat} {p : Nat}

theorem Counted.exists (hc : Counted h n) (hp : n p ≠ 0) : ∃ c, h p = some c ∧ c.refs = n p := by
  have heq := hc p
  rw [if_neg hp] at heq
  exact Option.map_eq_some_iff.mp heq

theorem Counted.val_of_ne_zero (hc : Counted h n) (hp : n p ≠ 0) : ∃ v, val? h p = some v := by
  obtain ⟨c, hcell, -⟩ := hc.exists hp
  exact ⟨c.val, by rw [val?, hcell, Option.map_some]⟩

theorem Counted.update (hc : Counted h n) {c : Option (Cell α)} {k : Nat}
    (hk : c.map Cell.refs = if k = 0 then none else some (k : Int)) :
    Counted (update h p c) (update n p k) := by
  intro q
  by_cases hq : q = p
  · subst hq
    rw [update_self, update_self, hk]
  · rw [update_of_ne hq, update_of_ne hq, hc q]

theorem Counted.alloc (hc : Counted h n) (v : α) : Counted (alloc h p v) (Function.update n p 1) :=
  hc.update rfl

theorem val?_alloc (v : α) (q : Nat) :
    val? (alloc h p v) q = if q = p then some v else val? h q := by
  rw [val?, alloc, update_apply]
  split_ifs <;> rfl

theorem Counted.modify (hc : Counted h n) {f : α → α} (hm : modify h p f = some h') :
    Counted h' n := by
  obtain ⟨c, hcell, rfl⟩ := Option.map_eq_some_iff.mp hm
  have hp := hc p
  rw [hcell] at hp
  have hsame : n = Function.update n p (n p) := (Function.update_eq_self p n).symm
  rw [hsame]
  exact hc.update hp

theorem val?_modify {f : α → α} (hm : modify h p f = some h') (q : Nat) :
    val? h' q = if q = p then (val? h q).map f else val? h q := by
  obtain ⟨c, hcell, rfl⟩ := Option.map_eq_some_iff.mp hm
  rw [val?, update_apply]
  split_ifs with hq
  · rw [hq, val?, hcell]
    rfl
  · rfl

theorem Counted.retain (hc : Counted h n) (hp : n p ≠ 0) :
    ∃ h', retain h p = some h' ∧ Counted h' (Function.update n p (n p + 1)) ∧ val? h' = val? h := by
  obtain ⟨c, hcell, hrefs⟩ := hc.exists hp
  refine ⟨_, by rw [RefHeap.retain, hcell, Option.map_some], hc.update ?_, ?_⟩
  · rw [hrefs]
    rfl
  · funext q
    rw [val?, Function.update_apply]
    split_ifs with hq
    · rw [hq, val?, hcell]
      rfl
    · rfl

theorem Counted.release (hc : Counted h n) (hp : n p ≠ 0) :
    ∃ h', release h p = some h' ∧ Counted h' (Function.update n p (n p - 1)) ∧
      ∀ q, (q = p → n p ≠ 1) → val? h' q = val? h q := by
  obtain ⟨c, hcell, hrefs⟩ := hc.exists hp
  refine ⟨_, by rw [RefHeap.release, hcell, Option.map_some], hc.update ?_, fun q hq => ?_⟩
  · by_cases hone : n p = 1
    · rw [if_pos (by omega), if_pos (by omega)]
      rfl
    · rw [if_neg (by omega), if_neg (by omega)]
      exact congrArg some (by dsimp only; omega)
  · rw [val?, Function.update_apply]
    split_ifs with hqp hlast
    · exact absurd (by omega) (hq hqp)
    · rw [hqp, val?, hcell]
      rfl
    · rfl

end

end RefHeap
