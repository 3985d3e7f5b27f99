import Mathlib.Data.List.Perm.Subperm

/-! Linked lists in a heap that only grows. A node has a value and the address of the
next node, an address is a position in the heap, and what is allocated stands at the
end of it. -/

structure LinkedHeap.Node (β : Type*) where
  val : β
  next : Option Nat
  deriving DecidableEq, Repr

namespace LinkedHeap

variable {β : Type*} {h h' : List (Node β)} {p a : Nat} {q : Option Nat} {as : List Nat}
  {vs : List β} {n : Node β}

inductive Chain (h : List (Node β)) : Option Nat → List Nat → List β → Prop
  | nil : Chain h none [] []
  | cons {p : Nat} {n : Node β} {as : List Nat} {vs : List β} (hn : h[p]? = some n)
      (hp : p ∉ as) (rest : Chain h n.next as vs) : Chain h (some p) (p :: as) (n.val :: vs)

theorem Chain.frame (hc : Chain h q as vs) (hsame : ∀ a ∈ as, h'[a]? = h[a]?) :
    Chain h' q as vs := by
  induction hc with
  | nil => exact .nil
  | cons hn hp _ ih =>
    refine .cons ((hsame _ (by simp)).trans hn) hp (ih fun a ha => hsame a (by simp [ha]))

theorem Chain.exists_cons (hc : Chain h (some p) as vs) :
    ∃ n as' vs', h[p]? = some n ∧ as = p :: as' ∧ vs = n.val :: vs' := by
  cases hc with
  | cons hn _ _ => exact ⟨_, _, _, hn, rfl, rfl⟩

section

variable (hc : Chain h q as vs)
include hc

theorem Chain.lt_length (ha : a ∈ as) : a < h.length := by
  induction hc with
  | nil => cases ha
  | cons hn _ _ ih =>
    rcases List.mem_cons.mp ha with rfl | ha
    · exact (List.getElem?_eq_some_iff.mp hn).1
    · exact ih ha

theorem Chain.append (l : List (Node β)) : Chain (h ++ l) q as vs :=
  hc.frame fun _ ha => List.getElem?_append_left (hc.lt_length ha)

theorem Chain.set_of_notMem (hp : p ∉ as) (n : Node β) : Chain (h.set p n) q as vs := by
  refine hc.frame fun a ha => List.getElem?_set_ne ?_
  rintro rfl
  exact hp ha

theorem Chain.nodup : as.Nodup := by
  induction hc with
  | nil => exact List.nodup_nil
  | cons _ hp _ ih => exact List.nodup_cons.mpr ⟨hp, ih⟩

theorem Chain.length_le : as.length ≤ h.length := by
  have hsub : as ⊆ List.range h.length := fun a ha => List.mem_range.mpr (hc.lt_length ha)
  simpa using (List.subperm_of_subset hc.nodup hsub).length_le

end

end LinkedHeap
