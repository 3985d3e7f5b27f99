import MinkIpc.IDSet
import MinkIpc.LinkedHeap
import MinkIpc.Run
import Mathlib.Data.Finset.Erase
import Mathlib.Data.Finset.Insert

/-! Id sets in memory. Several sets live in one heap, and each behaves as a finite set of ids,
whatever is done to the others and whichever it was copied from. -/

namespace MinkIpc.IDSet

open LinkedHeap

abbrev Heap := List (Node Chunk)

/-- `IDSet_testOrSet` at the chunk `p`; `alloc` says whether an allocation succeeds. -/
def testOrSetAt (alloc : Bool) (g m : UInt32) (modifySet : Bool) :
    Nat → Heap → Entry → Nat → Option (Heap × Bool)
  | 0, _, _, _ => none
  | fuel + 1, h, insert, p =>
    h[p]?.bind fun cell =>
      match visitChunk g m modifySet insert cell.val with
      | .done c r => some (h.set p ⟨c, cell.next⟩, r)
      | .next c insert' =>
        match cell.next with
        | some q => testOrSetAt alloc g m modifySet fuel (h.set p ⟨c, cell.next⟩) insert' q
        | none =>
          if modifySet && alloc then
            testOrSetAt alloc g m modifySet fuel
              (h.set p ⟨c, some h.length⟩ ++ [⟨.empty, none⟩]) insert' h.length
          else some (h.set p ⟨c, none⟩, false)

def clearAt (id : UInt32) : Nat → Heap → Nat → Option (Heap × Bool)
  | 0, _, _ => none
  | fuel + 1, h, p =>
    h[p]?.bind fun cell =>
      if cell.val.entry0.group = group id then
        some (h.set p ⟨{ cell.val with entry0 := cell.val.entry0.clearBits (mask id) }, cell.next⟩,
          true)
      else if cell.val.entry1.group = group id then
        some (h.set p ⟨{ cell.val with entry1 := cell.val.entry1.clearBits (mask id) }, cell.next⟩,
          true)
      else
        match cell.next with
        | some q => clearAt id fuel h q
        | none => some (h, false)

def dupLoop : Nat → Heap → (set tmp : Nat) → Option Heap
  | 0, _, _, _ => none
  | fuel + 1, h, set, tmp =>
    h[set]?.bind fun cell =>
      match cell.next with
      | none => some h
      | some q =>
        h[q]?.bind fun src => h[tmp]?.bind fun copy =>
          dupLoop fuel (h.set tmp ⟨copy.val, some h.length⟩ ++ [⟨src.val, none⟩]) q h.length

def dupAt (fuel : Nat) (h : Heap) (set dup : Nat) : Option Heap :=
  h[set]?.bind fun src =>
    (dupLoop fuel (h ++ [⟨src.val, none⟩]) set h.length).bind fun h' =>
      h'[h.length]?.map fun id => h'.set dup id

structure Store where
  heap : Heap
  roots : List Nat
  deriving DecidableEq, Repr

inductive Op
  | new
  | set (i : Nat) (id : UInt32)
  | clear (i : Nat) (id : UInt32)
  | dup (i j : Nat)
  deriving DecidableEq, Repr

namespace Store

def start : Store := ⟨[], []⟩

def fuel (st : Store) : Nat := st.heap.length + 1

def step (st : Store) : Op → Option Store
  | .new => some ⟨st.heap ++ [⟨.empty, none⟩], st.roots ++ [st.heap.length]⟩
  | .set i id =>
    st.roots[i]?.bind fun p =>
      (testOrSetAt true (group id) (mask id) true st.fuel st.heap ⟨group id, mask id⟩ p).map
        fun r => { st with heap := r.1 }
  | .clear i id =>
    st.roots[i]?.bind fun p => (clearAt id st.fuel st.heap p).map fun r => { st with heap := r.1 }
  | .dup i j =>
    st.roots[i]?.bind fun p => st.roots[j]?.bind fun q =>
      (dupAt st.fuel st.heap p q).map fun h => { st with heap := h }

def test (st : Store) (i : Nat) (id : UInt32) : Option (Heap × Bool) :=
  st.roots[i]?.bind fun p =>
    testOrSetAt true (group id) (mask id) false st.fuel st.heap ⟨group id, mask id⟩ p

end Store

def setStep (sets : List (Finset UInt32)) : Op → Option (List (Finset UInt32))
  | .new => some (sets ++ [∅])
  | .set i id => sets[i]?.map fun s => sets.set i (insert id s)
  | .clear i id => sets[i]?.map fun s => sets.set i (s.erase id)
  | .dup i j => sets[i]?.bind fun s => sets[j]?.map fun _ => sets.set j s

section Heap

variable {h : Heap} {p : Nat} {as : List Nat} {cs : List Chunk} {g m : UInt32}

theorem visitChunk_empty (hg : g ≠ 0) (insert : Entry) :
    visitChunk g m true insert .empty = .done ⟨insert, available⟩ true := by
  have h0 : visit g m true insert Chunk.empty.entry0 = .done insert true := visit_available hg rfl
  unfold visitChunk
  rw [h0]
  rfl

structure Changed (h h' : Heap) (p : Nat) (as : List Nat) (cs' : List Chunk) (as' : List Nat) :
    Prop where
  chain : Chain h' (some p) as' cs'
  grown : h.length ≤ h'.length
  fresh : ∀ a ∈ as', a ∈ as ∨ h.length ≤ a
  frame : ∀ a < h.length, a ∉ as → h'[a]? = h[a]?

theorem Changed.cons {h h₁ h' : Heap} {q : Nat} {as as₁ as' : List Nat} {cs' : List Chunk}
    {c : Chunk} (hp : p < h.length) (hpas : p ∉ as) (h₁len : h.length ≤ h₁.length)
    (hq : h₁[p]? = some ⟨c, some q⟩) (hframe : ∀ a < h.length, a ≠ p → h₁[a]? = h[a]?)
    (hsub : ∀ a ∈ as₁, a ∈ as ∨ h.length ≤ a) (hch : Changed h₁ h' q as₁ cs' as') :
    Changed h h' p (p :: as) (c :: cs') (p :: as') := by
  have hfresh : ∀ a ∈ as', a ∈ as ∨ h.length ≤ a := fun a ha => by
    rcases hch.fresh a ha with ha | ha
    · exact hsub a ha
    · exact .inr (h₁len.trans ha)
  have hold : ∀ a < h.length, a ∉ as → a ∉ as₁ := fun a ha hnot hmem => by
    rcases hsub a hmem with h' | h'
    · exact hnot h'
    · omega
  refine ⟨?_, h₁len.trans hch.grown, fun a ha => ?_, fun a ha hnot => ?_⟩
  · have hpas' : p ∉ as' := fun hmem => by
      rcases hfresh p hmem with hp' | hp'
      · exact hpas hp'
      · omega
    exact .cons (n := ⟨c, some q⟩) ((hch.frame p (by omega) (hold p hp hpas)).trans hq) hpas'
      hch.chain
  · rcases List.mem_cons.mp ha with rfl | ha
    · exact .inl (by simp)
    · exact (hfresh a ha).imp_left fun ha => by simp [ha]
  · have hne : a ≠ p ∧ a ∉ as := by simpa using hnot
    rw [hch.frame a (by omega) (hold a ha hne.2), hframe a ha hne.1]

theorem Changed.head {n : Node Chunk} {as : List Nat} {vs : List Chunk} (hn : h[p]? = some n)
    (hp : p ∉ as) (hrest : Chain h n.next as vs) (c : Chunk) :
    Changed h (h.set p ⟨c, n.next⟩) p (p :: as) (c :: vs) (p :: as) where
  chain := by
    obtain ⟨hlt, -⟩ := List.getElem?_eq_some_iff.mp hn
    exact .cons (n := ⟨c, n.next⟩) (List.getElem?_set_self hlt) hp (hrest.set_of_notMem hp _)
  grown := by simp
  fresh a ha := .inl ha
  frame a _ hnot := List.getElem?_set_ne fun heq => hnot (by simp [heq])

variable {fuel : Nat}

theorem testOrSetAt_set (hg : g ≠ 0) (insert : Entry) (hc : Chain h (some p) as cs)
    (hfuel : as.length < fuel) :
    ∃ h' as', testOrSetAt true g m true fuel h insert p =
        some (h', (testOrSet g m true insert cs).2) ∧
      Changed h h' p as (testOrSet g m true insert cs).1 as' := by
  induction fuel generalizing h p as cs insert with
  | zero => omega
  | succ fuel ih =>
    cases hc with
    | @cons _ n as vs hn hp hrest =>
      obtain ⟨hlt, -⟩ := List.getElem?_eq_some_iff.mp hn
      cases hv : visitChunk g m true insert n.val with
      | done c r =>
        refine ⟨h.set p ⟨c, n.next⟩, p :: as, ?_, ?_⟩
        · simp [testOrSetAt, testOrSet, hn, hv]
        · simpa [testOrSet, hv] using Changed.head hn hp hrest c
      | next c insert' =>
        cases hq : n.next with
        | some q =>
          rw [hq] at hrest
          obtain ⟨h', as', heval, hch⟩ := ih insert'
            (hrest.set_of_notMem hp ⟨c, some q⟩) (by simpa using hfuel)
          refine ⟨h', p :: as', ?_, ?_⟩
          · simpa [testOrSetAt, testOrSet, hn, hv, hq] using heval
          · have hcons := Changed.cons hlt hp (by simp) (List.getElem?_set_self hlt)
              (fun a _ ha => List.getElem?_set_ne (Ne.symm ha)) (fun a ha => .inl ha) hch
            simpa [testOrSet, hv] using hcons
        | none =>
          rw [hq] at hrest
          cases hrest
          obtain ⟨fuel, rfl⟩ : ∃ k, fuel = k + 1 := ⟨fuel - 1, by simp at hfuel; omega⟩
          -- the new chunk takes the entry that is left over
          let h₁ : Heap := h.set p ⟨c, some h.length⟩ ++ [⟨.empty, none⟩]
          have hnew : h₁[h.length]? = some ⟨.empty, none⟩ := by simp [h₁]
          have hold : h₁[p]? = some ⟨c, some h.length⟩ := by
            rw [List.getElem?_append_left (by simpa using hlt), List.getElem?_set_self hlt]
          have hframe : ∀ a < h.length, a ≠ p → h₁[a]? = h[a]? := fun a ha hne => by
            rw [List.getElem?_append_left (by simpa using ha), List.getElem?_set_ne (Ne.symm hne)]
          have hch := Changed.head hnew (by simp) .nil ⟨insert', available⟩
          refine ⟨h₁.set h.length ⟨⟨insert', available⟩, none⟩, [p, h.length], ?_, ?_⟩
          · simp [testOrSetAt, testOrSet, hn, hv, hq, visitChunk_empty hg, h₁]
          · have hcons := Changed.cons hlt hp (by simp [h₁]) hold hframe (by simp) hch
            simpa [testOrSet, hv] using hcons

theorem testOrSetAt_test (alloc : Bool) (insert : Entry) (hc : Chain h (some p) as cs)
    (hfuel : as.length < fuel) :
    testOrSetAt alloc g m false fuel h insert p = some (h, (testOrSet g m false insert cs).2) := by
  induction fuel generalizing p as cs insert with
  | zero => omega
  | succ fuel ih =>
    cases hc with
    | @cons _ n as vs hn hp hrest =>
      have hself : h.set p n = h := by
        obtain ⟨hlt, hget⟩ := List.getElem?_eq_some_iff.mp hn
        rw [← hget, List.set_getElem_self]
      rcases visitChunk_test g m insert n.val with hv | ⟨r, hv⟩
      · cases hq : n.next with
        | some q =>
          rw [hq] at hrest
          have hself' : h.set p ⟨n.val, some q⟩ = h := by rw [← hq]; exact hself
          simpa [testOrSetAt, testOrSet, hn, hv, hq, hself'] using
            ih insert hrest (by simpa using hfuel)
        | none =>
          rw [hq] at hrest
          have hself' : h.set p ⟨n.val, none⟩ = h := by rw [← hq]; exact hself
          cases hrest
          simp [testOrSetAt, testOrSet, hn, hv, hq, hself']
      · simp [testOrSetAt, testOrSet, hn, hv, hself]

theorem clearAt_spec (id : UInt32) (hc : Chain h (some p) as cs) (hfuel : as.length < fuel) :
    ∃ h' r, clearAt id fuel h p = some (h', r) ∧ Changed h h' p as (clear id cs) as := by
  induction fuel generalizing p as cs with
  | zero => omega
  | succ fuel ih =>
    cases hc with
    | @cons _ n as vs hn hp hrest =>
      obtain ⟨hlt, -⟩ := List.getElem?_eq_some_iff.mp hn
      by_cases h0 : n.val.entry0.group = group id
      · let c : Chunk := { n.val with entry0 := n.val.entry0.clearBits (mask id) }
        refine ⟨h.set p ⟨c, n.next⟩, true, by simp [clearAt, hn, h0, c], ?_⟩
        simpa [clear, h0] using Changed.head hn hp hrest c
      by_cases h1 : n.val.entry1.group = group id
      · let c : Chunk := { n.val with entry1 := n.val.entry1.clearBits (mask id) }
        refine ⟨h.set p ⟨c, n.next⟩, true, by simp [clearAt, hn, h0, h1, c], ?_⟩
        simpa [clear, h0, h1] using Changed.head hn hp hrest c
      cases hq : n.next with
      | none =>
        rw [hq] at hrest
        cases hrest
        refine ⟨h, false, by simp [clearAt, hn, h0, h1, hq], ?_⟩
        have hchain : Chain h (some p) [p] [n.val] := .cons hn hp (hq ▸ .nil)
        exact ⟨by simpa [clear, h0, h1] using hchain, Nat.le_refl _, fun a ha => .inl ha,
          fun _ _ _ => rfl⟩
      | some q =>
        rw [hq] at hrest
        obtain ⟨h', r, heval, hch⟩ := ih hrest (by simpa using hfuel)
        refine ⟨h', r, by simpa [clearAt, hn, h0, h1, hq] using heval, ?_⟩
        have hcell : h[p]? = some ⟨n.val, some q⟩ := by rw [hn, ← hq]
        have hcons := Changed.cons hlt hp (Nat.le_refl _) hcell (fun _ _ _ => rfl)
          (fun a ha => .inl ha) hch
        simpa [clear, h0, h1] using hcons

theorem dupLoop_spec {src tmp : Nat} {c c' : Chunk} {vs : List Chunk}
    (hc : Chain h (some src) (src :: as) (c' :: vs)) (htmp : h[tmp]? = some ⟨c, none⟩)
    (hnot : tmp ∉ src :: as) (hfuel : as.length < fuel) :
    ∃ h' as', dupLoop fuel h src tmp = some h' ∧ Changed h h' tmp [tmp] (c :: vs) (tmp :: as') := by
  induction fuel generalizing h src tmp c c' as vs with
  | zero => omega
  | succ fuel ih =>
    obtain ⟨hlt, -⟩ := List.getElem?_eq_some_iff.mp htmp
    cases hc with
    | @cons _ n _ _ hn hp hrest =>
      cases hq : n.next with
      | none =>
        rw [hq] at hrest
        cases hrest
        exact ⟨h, [], by simp [dupLoop, hn, hq], .cons (n := ⟨c, none⟩) htmp (by simp) .nil,
          Nat.le_refl _, fun a ha => .inl ha, fun _ _ _ => rfl⟩
      | some q =>
        rw [hq] at hrest
        cases hrest with
        | @cons _ n' as vs hn' hp' hrest' =>
          let h₁ : Heap := h.set tmp ⟨c, some h.length⟩ ++ [⟨n'.val, none⟩]
          have hsame : ∀ a < h.length, a ≠ tmp → h₁[a]? = h[a]? := fun a ha hne => by
            rw [List.getElem?_append_left (by simpa using ha), List.getElem?_set_ne (Ne.symm hne)]
          have hcell : h₁[tmp]? = some ⟨c, some h.length⟩ := by
            rw [List.getElem?_append_left (by simpa using hlt), List.getElem?_set_self hlt]
          have hsrc : Chain h (some q) (q :: as) (n'.val :: vs) := .cons hn' hp' hrest'
          have hsrc₁ : Chain h₁ (some q) (q :: as) (n'.val :: vs) := by
            refine hsrc.frame fun a ha => hsame a (hsrc.lt_length ha) ?_
            rintro rfl
            exact hnot (by simp [List.mem_cons.mp ha])
          have hend : h.length ∉ q :: as := fun ha => Nat.lt_irrefl _ (hsrc.lt_length ha)
          have hlast : h₁[h.length]? = some ⟨n'.val, none⟩ := by simp [h₁]
          obtain ⟨h', as', heval, hch⟩ := ih hsrc₁ hlast hend (by simpa using hfuel)
          refine ⟨h', h.length :: as', ?_, ?_⟩
          · simpa [dupLoop, hn, hq, hn', htmp] using heval
          · exact Changed.cons hlt (by simp) (by simp [h₁]) hcell hsame (by simp) hch

theorem dupAt_spec {src dup : Nat} {c : Chunk} {vs : List Chunk}
    (hc : Chain h (some src) (src :: as) (c :: vs)) (hdup : dup < h.length)
    (hfuel : as.length < fuel) :
    ∃ h' as', dupAt fuel h src dup = some h' ∧ Changed h h' dup [dup] (c :: vs) (dup :: as') := by
  obtain ⟨n, _, _, hn, _, hval⟩ := hc.exists_cons
  rw [List.cons.injEq] at hval
  have hend : h.length ∉ src :: as := fun ha => Nat.lt_irrefl _ (hc.lt_length ha)
  have hlast : (h ++ [⟨c, none⟩])[h.length]? = some ⟨c, none⟩ := by simp
  obtain ⟨h₁, as', heval, hch⟩ := dupLoop_spec (hc.append _) hlast hend hfuel
  have hgrown : h.length + 1 ≤ h₁.length := by simpa using hch.grown
  have hfresh : ∀ a ∈ as', h.length ≤ a := fun a ha => by
    have hcases := hch.fresh a (by simp [ha])
    simp only [List.mem_singleton, List.length_append] at hcases
    omega
  have hold : ∀ a < h.length, h₁[a]? = h[a]? := fun a ha => by
    have hne : a ∉ [h.length] := by simpa using Nat.ne_of_lt ha
    rw [hch.frame a (by simp; omega) hne, List.getElem?_append_left ha]
  obtain ⟨id, hid, hidval, hrest⟩ : ∃ id, h₁[h.length]? = some id ∧ id.val = c ∧
      Chain h₁ id.next as' vs := by
    cases hch.chain with
    | cons hid _ hrest => exact ⟨_, hid, rfl, hrest⟩
  have hnot : dup ∉ as' := fun ha => by
    have := hfresh dup ha
    omega
  refine ⟨h₁.set dup id, as', ?_, ?_, by simp; omega, fun a ha => ?_, fun a ha hne => ?_⟩
  · simp [dupAt, hn, ← hval.1, heval, hid]
  · rw [← hidval]
    exact .cons (List.getElem?_set_self (by omega)) hnot (hrest.set_of_notMem hnot id)
  · rcases List.mem_cons.mp ha with rfl | ha
    · exact .inl (by simp)
    · exact .inr (hfresh a ha)
  · rw [List.getElem?_set_ne (by simpa [eq_comm] using hne), hold a ha]

end Heap

structure Owns (st : Store) (as : Nat → List Nat) (cs : Nat → List Chunk)
    (sets : List (Finset UInt32)) : Prop where
  len : st.roots.length = sets.length
  chain : ∀ (i p : Nat), st.roots[i]? = some p → Chain st.heap (some p) (as i) (cs i)
  built : ∀ i < sets.length, Built (cs i)
  members : ∀ (i : Nat) s, sets[i]? = some s → ∀ id, test id (cs i) = true ↔ id ∈ s
  apart : ∀ i j, i < sets.length → j < sets.length → i ≠ j → ∀ a ∈ as i, a ∉ as j

namespace Owns

variable {st : Store} {as : Nat → List Nat} {cs : Nat → List Chunk} {sets : List (Finset UInt32)}

section

variable (h : Owns st as cs sets)
include h

theorem root {i : Nat} (hi : i < sets.length) :
    ∃ p, st.roots[i]? = some p ∧ Chain st.heap (some p) (as i) (cs i) := by
  have hlt : i < st.roots.length := h.len ▸ hi
  have hp : st.roots[i]? = some st.roots[i] := List.getElem?_eq_getElem hlt
  exact ⟨st.roots[i], hp, h.chain i _ hp⟩

theorem update {i p : Nat} {heap' : Heap} {as₁ as' : List Nat}
    {cs' : List Chunk} {s : Finset UInt32} (hi : i < sets.length) (hp : st.roots[i]? = some p)
    (hsub : ∀ a ∈ as₁, a ∈ as i) (hch : Changed st.heap heap' p as₁ cs' as')
    (hbuilt : Built cs') (hmem : ∀ id, test id cs' = true ↔ id ∈ s) :
    Owns { st with heap := heap' } (Function.update as i as') (Function.update cs i cs')
      (sets.set i s) := by
  have hlt : ∀ j, j < sets.length → ∀ a ∈ as j, a < st.heap.length := fun j hj a ha => by
    obtain ⟨q, -, hc⟩ := h.root hj
    exact hc.lt_length ha
  have hother : ∀ j, j < sets.length → j ≠ i → ∀ a ∈ as j, a ∉ as₁ := fun j hj hne a ha hmem =>
    h.apart j i hj hi hne a ha (hsub a hmem)
  have hfresh : ∀ j, j < sets.length → j ≠ i → ∀ a ∈ as j, a ∉ as' := fun j hj hne a ha hmem => by
    rcases hch.fresh a hmem with ha' | ha'
    · exact hother j hj hne a ha ha'
    · have := hlt j hj a ha
      omega
  refine ⟨by simpa using h.len, fun j q hq => ?_, fun j hj => ?_, fun j t ht => ?_,
    fun j k hj hk hne => ?_⟩
  · by_cases hji : j = i
    · subst hji
      obtain rfl : p = q := Option.some.inj (hp.symm.trans hq)
      simpa using hch.chain
    · have hj : j < sets.length := h.len ▸ (List.getElem?_eq_some_iff.mp hq).1
      rw [Function.update_of_ne hji, Function.update_of_ne hji]
      exact (h.chain j q hq).frame fun a ha => hch.frame a (hlt j hj a ha) (hother j hj hji a ha)
  · rw [List.length_set] at hj
    by_cases hji : j = i
    · simpa [hji] using hbuilt
    · rw [Function.update_of_ne hji]
      exact h.built j hj
  · by_cases hji : j = i
    · subst hji
      rw [List.getElem?_set_self hi] at ht
      cases ht
      simpa using hmem
    · rw [List.getElem?_set_ne (Ne.symm hji)] at ht
      rw [Function.update_of_ne hji]
      exact h.members j t ht
  · rw [List.length_set] at hj hk
    by_cases hji : j = i
    · subst hji
      rw [Function.update_self, Function.update_of_ne (Ne.symm hne)]
      intro a ha hmem
      exact hfresh k hk (Ne.symm hne) a hmem ha
    · rw [Function.update_of_ne hji]
      by_cases hki : k = i
      · subst hki
        rw [Function.update_self]
        exact hfresh j hj hne
      · rw [Function.update_of_ne hki]
        exact h.apart j k hj hk hne

theorem fuel_lt {i : Nat} (hi : i < sets.length) : (as i).length < st.fuel := by
  obtain ⟨p, -, hc⟩ := h.root hi
  exact Nat.lt_succ_of_le hc.length_le

theorem test {i : Nat} {s : Finset UInt32} (hs : sets[i]? = some s)
    (id : UInt32) : st.test i id = some (st.heap, decide (id ∈ s)) := by
  obtain ⟨hi, -⟩ := List.getElem?_eq_some_iff.mp hs
  obtain ⟨p, hp, hc⟩ := h.root hi
  have htest := testOrSetAt_test (g := group id) (m := mask id) true ⟨group id, mask id⟩ hc
    (h.fuel_lt hi)
  have hmem : IDSet.test id (cs i) = decide (id ∈ s) := by
    rw [Bool.eq_iff_iff, h.members i s hs id, decide_eq_true_iff]
  unfold Store.test
  rw [hp, Option.bind_some, htest, ← hmem]
  rfl

theorem new : Owns ⟨st.heap ++ [⟨.empty, none⟩], st.roots ++ [st.heap.length]⟩
      (Function.update as sets.length [st.heap.length])
      (Function.update cs sets.length [.empty]) (sets ++ [∅]) := by
  have hlt : ∀ j, j < sets.length → ∀ a ∈ as j, a < st.heap.length := fun j hj a ha => by
    obtain ⟨q, -, hc⟩ := h.root hj
    exact hc.lt_length ha
  have hlen := h.len
  refine ⟨by simp [hlen], fun j q hq => ?_, fun j hj => ?_, fun j t ht => ?_,
    fun j k hj hk hne => ?_⟩
  · by_cases hj : j = sets.length
    · subst hj
      rw [List.getElem?_append_right (by omega), hlen] at hq
      obtain rfl : st.heap.length = q := by simpa using hq
      rw [Function.update_self, Function.update_self]
      exact .cons (n := ⟨Chunk.empty, none⟩) (by simp) (by simp) .nil
    · rw [Function.update_of_ne hj, Function.update_of_ne hj]
      have hlt' := (List.getElem?_eq_some_iff.mp hq).1
      rw [List.length_append, List.length_singleton] at hlt'
      rw [List.getElem?_append_left (by omega)] at hq
      exact (h.chain j q hq).append _
  · by_cases hj' : j = sets.length
    · simpa [hj'] using Built.empty
    · rw [Function.update_of_ne hj']
      exact h.built j (by simp at hj; omega)
  · by_cases hj : j = sets.length
    · subst hj
      obtain rfl : ∅ = t := by simpa using ht
      simp [test_empty]
    · have hlt' := (List.getElem?_eq_some_iff.mp ht).1
      rw [List.length_append, List.length_singleton] at hlt'
      rw [List.getElem?_append_left (by omega)] at ht
      rw [Function.update_of_ne hj]
      exact h.members j t ht
  · rw [List.length_append, List.length_singleton] at hj hk
    by_cases hj' : j = sets.length
    · rw [hj', Function.update_self, Function.update_of_ne (by omega)]
      intro a ha hmem
      have := hlt k (by omega) a hmem
      simp at ha
      omega
    · rw [Function.update_of_ne hj']
      by_cases hk' : k = sets.length
      · rw [hk']
        intro a ha hmem
        have := hlt j (by omega) a ha
        simp at hmem
        omega
      · rw [Function.update_of_ne hk']
        exact h.apart j k (by omega) (by omega) hne

theorem step {op : Op} {sets' : List (Finset UInt32)} (hop : setStep sets op = some sets') :
    ∃ st' as' cs', st.step op = some st' ∧ Owns st' as' cs' sets' := by
  cases op with
  | new =>
    cases hop
    exact ⟨_, _, _, rfl, h.new⟩
  | set i id =>
    obtain ⟨s, hs, rfl⟩ := Option.map_eq_some_iff.mp hop
    obtain ⟨hi, -⟩ := List.getElem?_eq_some_iff.mp hs
    obtain ⟨p, hp, hc⟩ := h.root hi
    obtain ⟨h', as', heval, hch⟩ := testOrSetAt_set (m := mask id) (group_ne_zero id)
      ⟨group id, mask id⟩ hc (h.fuel_lt hi)
    refine ⟨{ st with heap := h' }, _, _, ?_, h.update hi hp (fun _ ha => ha) hch
      ((h.built i hi).set id) fun id' => ?_⟩
    · simp [Store.step, hp, heval]
    · rw [← IDSet.set, test_set (h.built i hi).ordered, h.members i s hs, Finset.mem_insert]
  | clear i id =>
    obtain ⟨s, hs, rfl⟩ := Option.map_eq_some_iff.mp hop
    obtain ⟨hi, -⟩ := List.getElem?_eq_some_iff.mp hs
    obtain ⟨p, hp, hc⟩ := h.root hi
    obtain ⟨h', r, heval, hch⟩ := clearAt_spec id hc (h.fuel_lt hi)
    refine ⟨{ st with heap := h' }, _, _, ?_, h.update hi hp (fun _ ha => ha) hch
      ((h.built i hi).clear id) fun id' => ?_⟩
    · simp [Store.step, hp, heval]
    · rw [test_clear (h.built i hi).ordered, h.members i s hs, Finset.mem_erase]
  | dup i j =>
    obtain ⟨s, hs, hop⟩ := Option.bind_eq_some_iff.mp hop
    obtain ⟨t, ht, rfl⟩ := Option.map_eq_some_iff.mp hop
    obtain ⟨hi, -⟩ := List.getElem?_eq_some_iff.mp hs
    obtain ⟨hj, -⟩ := List.getElem?_eq_some_iff.mp ht
    obtain ⟨p, hp, hc⟩ := h.root hi
    obtain ⟨q, hq, hc'⟩ := h.root hj
    obtain ⟨n, as₁, vs, _, has, hvs⟩ := hc.exists_cons
    obtain ⟨_, as₂, _, _, has₂, _⟩ := hc'.exists_cons
    have hfuel := h.fuel_lt hi
    rw [has, hvs] at hc
    rw [has] at hfuel
    have hqmem : q ∈ as j := by simp [has₂]
    obtain ⟨h', as', heval, hch⟩ := dupAt_spec hc (hc'.lt_length hqmem) (Nat.lt_of_succ_lt hfuel)
    rw [← hvs] at hch
    refine ⟨{ st with heap := h' }, _, _, ?_, h.update hj hq (by simp [has₂]) hch
      (h.built i hi) (h.members i s hs)⟩
    simp [Store.step, hp, hq, heval]

end

end Owns

theorem owns_start : Owns .start (fun _ => []) (fun _ => []) [] :=
  ⟨rfl, by simp [Store.start], by simp, by simp, by simp⟩

/-- Every sequence of calls on finite sets is one on a store, and the members that
`IDSet_test` finds in each set of the store are those of the finite set. -/
theorem idSets_refine_sets (ops : List Op) {sets : List (Finset UInt32)}
    (h : Run.exec setStep [] ops = some sets) :
    ∃ st, Run.exec Store.step .start ops = some st ∧ st.roots.length = sets.length ∧
      ∀ (i : Nat) s, sets[i]? = some s → ∀ id, st.test i id = some (st.heap, decide (id ∈ s)) := by
  suffices hrun : ∃ st as cs, Run.exec Store.step .start ops = some st ∧ Owns st as cs sets by
    obtain ⟨st, as, cs, hexec, howns⟩ := hrun
    exact ⟨st, hexec, howns.len, fun i s hs id => howns.test hs id⟩
  induction Run.Guarded.of_exec h with
  | nil => exact ⟨_, _, _, rfl, owns_start⟩
  | snoc _ _ hs ih =>
    obtain ⟨st, as, cs, hexec, howns⟩ := ih (Run.Guarded.exec ‹_›)
    obtain ⟨st', as', cs', hstep, howns'⟩ := howns.step hs
    exact ⟨st', as', cs', Run.exec_snoc hexec hstep, howns'⟩

def sampleOps : List Op :=
  [.new, .set 0 70, .set 0 5, .set 0 200, .new, .dup 0 1, .clear 0 5, .set 1 33]

/-- The copy keeps what the original loses. -/
theorem idSets_refine_sets_dup : ∃ st, Run.exec Store.step .start sampleOps = some st ∧
      st.test 0 5 = some (st.heap, false) ∧ st.test 1 5 = some (st.heap, true) := by
  obtain ⟨st, hexec, -, htest⟩ := idSets_refine_sets sampleOps rfl
  refine ⟨st, hexec, ?_, ?_⟩
  · rw [htest 0 _ rfl 5]
    rfl
  · rw [htest 1 _ rfl 5]
    rfl

end MinkIpc.IDSet
