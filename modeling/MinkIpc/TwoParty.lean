import Mathlib.Algebra.Order.Group.Multiset
import Mathlib.Data.List.Perm.Basic
import Mathlib.Tactic.Abel

/-! Two parties that exchange messages. What a party still has to handle, and the
threads that handle it, are lists in which only the members matter: any message
can be taken out next. -/

namespace TwoParty

inductive Side
  | left
  | right
  deriving DecidableEq, Repr

def Side.peer : Side → Side
  | left => right
  | right => left

@[simp] theorem Side.peer_peer (s : Side) : s.peer.peer = s := by cases s <;> rfl

@[simp] theorem Side.peer_ne (s : Side) : s.peer ≠ s := by cases s <;> decide

@[simp] theorem Side.ne_peer (s : Side) : s ≠ s.peer := by cases s <;> decide

theorem Side.eq_or_eq_peer (s t : Side) : t = s ∨ t = s.peer := by cases s <;> cases t <;> decide

theorem Side.forall_iff {p : Side → Prop} (s : Side) : (∀ t, p t) ↔ p s ∧ p s.peer := by
  refine ⟨fun h => ⟨h s, h s.peer⟩, fun h t => ?_⟩
  rcases s.eq_or_eq_peer t with rfl | rfl
  · exact h.1
  · exact h.2

section Modify

variable {ε : Type*}

def modify (ends : Side → ε) (s : Side) (f : ε → ε) : Side → ε := Function.update ends s (f (ends s))

@[simp] theorem modify_self (ends : Side → ε) (s : Side) (f : ε → ε) :
    modify ends s f s = f (ends s) := Function.update_self ..

@[simp] theorem modify_peer (ends : Side → ε) (s : Side) (f : ε → ε) :
    modify ends s f s.peer = ends s.peer := Function.update_of_ne s.peer_ne ..

@[simp] theorem modify_of_peer (ends : Side → ε) (s : Side) (f : ε → ε) :
    modify ends s.peer f s = ends s := Function.update_of_ne s.ne_peer ..

end Modify

section Members

variable {α β : Type*} {l : List α} {i : Nat} {x : α}

theorem coe_eq_cons_eraseIdx (h : l[i]? = some x) : (l : Multiset α) = x ::ₘ (l.eraseIdx i) := by
  obtain ⟨hi, rfl⟩ := List.getElem?_eq_some_iff.mp h
  exact Multiset.coe_eq_coe.mpr (List.getElem_cons_eraseIdx_perm hi).symm

theorem coe_set (h : l[i]? = some x) (y : α) : (l.set i y : Multiset α) = y ::ₘ (l.eraseIdx i) := by
  obtain ⟨hi, -⟩ := List.getElem?_eq_some_iff.mp h
  exact Multiset.coe_eq_coe.mpr (List.set_perm_cons_eraseIdx hi y)

theorem sum_map_eraseIdx (f : α → Nat) (h : l[i]? = some x) :
    (l.map f).sum = f x + ((l.eraseIdx i).map f).sum := by
  have hperm := Multiset.coe_eq_coe.mp (coe_eq_cons_eraseIdx h)
  rw [(hperm.map f).sum_nat, List.map_cons, List.sum_cons]

theorem sum_map_set (f : α → Nat) (h : l[i]? = some x) (y : α) :
    ((l.set i y).map f).sum = f y + ((l.eraseIdx i).map f).sum := by
  have hperm := Multiset.coe_eq_coe.mp (coe_set h y)
  rw [(hperm.map f).sum_nat, List.map_cons, List.sum_cons]

theorem coe_filterMap_of_coe_eq {l' : List α} (f : α → Option β) (h : (l : Multiset α) = x ::ₘ l') :
    (l.filterMap f : Multiset β) = ((f x).toList : Multiset β) + (l'.filterMap f : Multiset β) := by
  have hperm : l.Perm (x :: l') := Multiset.coe_eq_coe.mp h
  refine Multiset.coe_eq_coe.mpr ((hperm.filterMap f).trans ?_)
  cases hf : f x <;> simp [hf]

theorem coe_filterMap_eraseIdx (f : α → Option β) (h : l[i]? = some x) :
    (l.filterMap f : Multiset β) =
      ((f x).toList : Multiset β) + ((l.eraseIdx i).filterMap f : Multiset β) :=
  coe_filterMap_of_coe_eq f (coe_eq_cons_eraseIdx h)

theorem coe_filterMap_set (f : α → Option β) (h : l[i]? = some x) (y : α) :
    ((l.set i y).filterMap f : Multiset β) =
      ((f y).toList : Multiset β) + ((l.eraseIdx i).filterMap f : Multiset β) :=
  coe_filterMap_of_coe_eq f (coe_set h y)

theorem coe_flatMap_of_coe_eq {l' : List α} (f : α → List β) (h : (l : Multiset α) = x ::ₘ l') :
    (l.flatMap f : Multiset β) = (f x : Multiset β) + (l'.flatMap f : Multiset β) := by
  have hperm : l.Perm (x :: l') := Multiset.coe_eq_coe.mp h
  exact Multiset.coe_eq_coe.mpr (hperm.flatMap_right f)

theorem coe_flatMap_eraseIdx (f : α → List β) (h : l[i]? = some x) :
    (l.flatMap f : Multiset β) = (f x : Multiset β) + ((l.eraseIdx i).flatMap f : Multiset β) :=
  coe_flatMap_of_coe_eq f (coe_eq_cons_eraseIdx h)

theorem coe_flatMap_set (f : α → List β) (h : l[i]? = some x) (y : α) :
    ((l.set i y).flatMap f : Multiset β) = (f y : Multiset β) + ((l.eraseIdx i).flatMap f : Multiset β) :=
  coe_flatMap_of_coe_eq f (coe_set h y)

theorem coe_flatMap_concat (f : α → List β) (l : List α) (x : α) :
    ((l ++ [x]).flatMap f : Multiset β) = (f x : Multiset β) + (l.flatMap f : Multiset β) :=
  coe_flatMap_of_coe_eq f (Multiset.coe_eq_coe.mpr (List.perm_append_singleton x l))

theorem pairwise_set {R : α → α → Prop} {y : α} (hl : l.Pairwise R) (h : l[i]? = some x)
    (hleft : ∀ z, R z x → R z y) (hright : ∀ z, R x z → R y z) : (l.set i y).Pairwise R := by
  rw [List.pairwise_iff_getElem] at hl ⊢
  obtain ⟨hi, rfl⟩ := List.getElem?_eq_some_iff.mp h
  intro j k hj hk hjk
  rw [List.length_set] at hj hk
  have hjk' := hl j k hj hk hjk
  by_cases hij : i = j
  · subst hij
    rw [List.getElem_set_self, List.getElem_set_ne (by omega)]
    exact hright _ hjk'
  by_cases hik : i = k
  · subst hik
    rw [List.getElem_set_self, List.getElem_set_ne hij]
    exact hleft _ hjk'
  · rw [List.getElem_set_ne hij, List.getElem_set_ne hik]
    exact hjk'

theorem coe_filterMap_concat (f : α → Option β) (l : List α) (x : α) :
    ((l ++ [x]).filterMap f : Multiset β) =
      ((f x).toList : Multiset β) + (l.filterMap f : Multiset β) :=
  coe_filterMap_of_coe_eq f (Multiset.coe_eq_coe.mpr (List.perm_append_singleton x l))

end Members

end TwoParty
