import Mathlib.Data.Finset.Card
import Mathlib.Tactic.Ring

/-! The object table of a tunnel endpoint. Unlike the table of a socket it keeps one
slot for an object however often it is exported, and counts the references that
the peer holds to it. -/

namespace MinkIpc.TunnelInvoke

structure Slot (α : Type*) where
  object : Option α
  refs : Int
  counted : object.isSome → 0 < refs
  deriving DecidableEq

structure ObjectTable (α : Type*) where
  slots : List (Slot α)
  objectsNum : Nat
  /-- A handle has 31 bits for the index, shifted by one. -/
  length_lt : slots.length < 2 ^ 31
  deriving DecidableEq

inductive Place
  | found (n : Nat)
  | free (n : Nat)
  | full
  deriving DecidableEq, Repr

namespace Slot

variable {α : Type*}

def empty : Slot α := ⟨none, 0, by simp⟩

def occupy (obj : α) : Slot α := ⟨some obj, 1, by simp⟩

def retain (s : Slot α) : Slot α :=
  ⟨s.object, s.refs + 1, fun h => Int.lt_add_one_of_le (Int.le_of_lt (s.counted h))⟩

def release (s : Slot α) : Slot α :=
  if h : s.refs - 1 = 0 then ⟨none, 0, by simp⟩
  else ⟨s.object, s.refs - 1, fun ho => by have := s.counted ho; omega⟩

def refCount (s : Slot α) : Int := if s.object.isSome then s.refs else 0

theorem refCount_pos_iff (s : Slot α) : 0 < s.refCount ↔ s.object.isSome := by
  unfold refCount
  by_cases h : s.object.isSome
  · simp [h, s.counted h]
  · simp [h]

theorem refCount_nonneg (s : Slot α) : 0 ≤ s.refCount := by
  by_cases h : s.object.isSome
  · exact Int.le_of_lt (s.refCount_pos_iff.mpr h)
  · simp [refCount, h]

theorem refCount_retain {s : Slot α} (h : s.object.isSome) :
    s.retain.refCount = s.refCount + 1 := by
  simp [refCount, retain, h]

theorem refCount_release {s : Slot α} (h : 0 < s.refCount) :
    s.release.refCount = s.refCount - 1 := by
  have ho := s.refCount_pos_iff.mp h
  unfold release
  by_cases hz : s.refs - 1 = 0
  · simp [refCount, ho, hz]
  · simp [refCount, ho, hz]

end Slot

namespace ObjectTable

variable {α : Type*} [DecidableEq α]

def construct (size : Nat) (h : size < 2 ^ 31) : ObjectTable α :=
  ⟨List.replicate size .empty, 0, by simpa using h⟩

/-- The search of `ObjectTable_addObject` from slot `n` on, after `count` occupied ones. It ends at
the object, or at a free slot once all occupied ones are counted. -/
def place (objectsNum : Nat) (obj : α) :
    List (Slot α) → (n count : Nat) → (firstFree : Option Nat) → Place
  | [], _, _, none => .full
  | [], _, _, some f => .free f
  | s :: ss, n, count, firstFree =>
    match s.object with
    | some o =>
      if o = obj then .found n else place objectsNum obj ss (n + 1) (count + 1) firstFree
    | none =>
      if count = objectsNum then .free (firstFree.getD n)
      else place objectsNum obj ss (n + 1) count (some (firstFree.getD n))

def addObject (t : ObjectTable α) (obj : α) : Option (Nat × ObjectTable α) :=
  match place t.objectsNum obj t.slots 0 0 none with
  | .found n => some (n, ⟨t.slots.modify n Slot.retain, t.objectsNum, by simpa using t.length_lt⟩)
  | .free n =>
    some (n, ⟨t.slots.set n (.occupy obj), t.objectsNum + 1, by simpa using t.length_lt⟩)
  | .full => none

def recoverObject (t : ObjectTable α) (h : Nat) : Option α := t.slots[h]?.bind Slot.object

def releaseHandle (t : ObjectTable α) (h : Nat) : ObjectTable α :=
  match t.slots[h]? with
  | none => t
  | some s =>
    ⟨t.slots.set h s.release,
      if s.object.isSome && s.release.object.isNone then t.objectsNum - 1 else t.objectsNum,
      by simpa using t.length_lt⟩

def refCount (t : ObjectTable α) (i : Nat) : Int := (t.slots[i]?.map Slot.refCount).getD 0

def freeSlots (t : ObjectTable α) : Nat := t.slots.countP (·.object.isNone)

def finds (t : ObjectTable α) (obj : α) : Bool :=
  match place t.objectsNum obj t.slots 0 0 none with
  | .found _ => true
  | _ => false

/-- The objects that need a slot of their own. -/
def newObjects (t : ObjectTable α) (os : List α) : Finset α := {o ∈ os.toFinset | ¬ t.finds o}

variable {t t' : ObjectTable α} {ss : List (Slot α)} {n objectsNum : Nat} {obj : α}
  {firstFree : Option Nat}

omit [DecidableEq α] in
theorem refCount_eq {i : Nat} {s : Slot α} (h : t.slots[i]? = some s) :
    t.refCount i = s.refCount := by
  simp [refCount, h]

omit [DecidableEq α] in
theorem refCount_nonneg (t : ObjectTable α) (i : Nat) : 0 ≤ t.refCount i := by
  cases h : t.slots[i]? with
  | none => simp [refCount, h]
  | some s => exact refCount_eq h ▸ s.refCount_nonneg

omit [DecidableEq α] in
theorem refCount_pos_iff (t : ObjectTable α) (i : Nat) :
    0 < t.refCount i ↔ (t.recoverObject i).isSome := by
  cases h : t.slots[i]? with
  | none => simp [refCount, recoverObject, h]
  | some s => simpa [refCount_eq h, recoverObject, h] using s.refCount_pos_iff

omit [DecidableEq α] in
theorem lt_of_refCount_pos {i : Nat} (h : 0 < t.refCount i) : i + 1 < 2 ^ 31 := by
  have hlen := t.length_lt
  cases hs : t.slots[i]? with
  | none => simp [refCount, hs] at h
  | some s =>
    obtain ⟨hi, -⟩ := List.getElem?_eq_some_iff.mp hs
    omega

omit [DecidableEq α] in
theorem refCount_of_set {i : Nat} {s s' : Slot α} (h : t.slots[i]? = some s)
    (ht' : t'.slots = t.slots.set i s') (j : Nat) :
    t'.refCount j = t.refCount j + if j = i then s'.refCount - s.refCount else 0 := by
  obtain ⟨hi, -⟩ := List.getElem?_eq_some_iff.mp h
  by_cases hj : j = i
  · subst hj
    have h' : t'.slots[j]? = some s' := by rw [ht', List.getElem?_set_self hi]
    rw [refCount_eq h, refCount_eq h']
    omega
  · have h' : t'.slots[j]? = t.slots[j]? := by rw [ht', List.getElem?_set_ne (Ne.symm hj)]
    simp [refCount, h', hj]

omit [DecidableEq α] in
theorem getElem?_cons_sub {s s' : Slot α} {m : Nat} (hle : n + 1 ≤ m)
    (hs : ss[m - (n + 1)]? = some s') : (s :: ss)[m - n]? = some s' := by
  rw [show m - n = (m - (n + 1)) + 1 by omega]
  exact hs

theorem place_found {count m : Nat} (h : place objectsNum obj ss n count firstFree = .found m) :
    n ≤ m ∧ ∃ s, ss[m - n]? = some s ∧ s.object = some obj := by
  induction ss generalizing n count firstFree with
  | nil => cases firstFree <;> cases h
  | cons s ss ih =>
    unfold place at h
    -- a slot further on is found by the search from `n + 1`
    have hnext : ∀ {c f}, place objectsNum obj ss (n + 1) c f = .found m →
        n ≤ m ∧ ∃ s', (s :: ss)[m - n]? = some s' ∧ s'.object = some obj := by
      intro c f hrec
      obtain ⟨hle, s', hs', hobj⟩ := ih hrec
      exact ⟨by omega, s', getElem?_cons_sub hle hs', hobj⟩
    cases hs : s.object with
    | some o =>
      simp only [hs] at h
      split_ifs at h with ho
      · cases h
        exact ⟨Nat.le_refl _, s, by simp, ho ▸ hs⟩
      · exact hnext h
    | none =>
      simp only [hs] at h
      by_cases hc : count = objectsNum
      · rw [if_pos hc] at h
        cases h
      · rw [if_neg hc] at h
        exact hnext h

theorem place_free {count m : Nat} (h : place objectsNum obj ss n count firstFree = .free m) :
    firstFree = some m ∨ n ≤ m ∧ ∃ s, ss[m - n]? = some s ∧ s.object = none := by
  induction ss generalizing n count firstFree with
  | nil =>
    cases firstFree with
    | none => cases h
    | some f =>
      cases h
      exact .inl rfl
  | cons s ss ih =>
    unfold place at h
    cases hs : s.object with
    | some o =>
      simp only [hs] at h
      by_cases ho : o = obj
      · rw [if_pos ho] at h
        cases h
      · rw [if_neg ho] at h
        rcases ih h with hf | ⟨hle, s', hs', hobj⟩
        · exact .inl hf
        · exact .inr ⟨by omega, s', getElem?_cons_sub hle hs', hobj⟩
    | none =>
      simp only [hs] at h
      -- this slot is the first free one, unless there was one before it
      have hhere : firstFree.getD n = m →
          firstFree = some m ∨ n ≤ m ∧ ∃ s', (s :: ss)[m - n]? = some s' ∧ s'.object = none := by
        intro hm
        cases firstFree with
        | none =>
          cases hm
          exact .inr ⟨Nat.le_refl _, s, by simp, hs⟩
        | some f => exact .inl (congrArg some hm)
      split_ifs at h with hc
      · exact hhere (Place.free.inj h)
      · rcases ih h with hf | ⟨hle, s', hs', hobj⟩
        · exact hhere (Option.some.inj hf)
        · exact .inr ⟨by omega, s', getElem?_cons_sub hle hs', hobj⟩

theorem place_full {count : Nat} (h : place objectsNum obj ss n count firstFree = .full) :
    firstFree = none ∧ ss.countP (·.object.isNone) = 0 := by
  induction ss generalizing n count firstFree with
  | nil => cases firstFree <;> first | exact ⟨rfl, rfl⟩ | cases h
  | cons s ss ih =>
    unfold place at h
    cases hs : s.object with
    | some o =>
      simp only [hs] at h
      by_cases ho : o = obj
      · rw [if_pos ho] at h
        cases h
      · rw [if_neg ho] at h
        simpa [hs] using ih h
    | none =>
      simp only [hs] at h
      by_cases hc : count = objectsNum
      · rw [if_pos hc] at h
        cases h
      · rw [if_neg hc] at h
        cases (ih h).1

omit [DecidableEq α] in
theorem modify_retain {m : Nat} {s : Slot α} (h : t.slots[m]? = some s) :
    t.slots.modify m Slot.retain = t.slots.set m s.retain := by
  rw [List.modify_eq_set_getElem?, h]
  rfl

section

variable (h : t.addObject obj = some (n, t'))
include h

theorem addObject_cases : ∃ s, t.slots[n]? = some s ∧
      (s.object = some obj ∧ t'.slots = t.slots.set n s.retain ∧ t'.objectsNum = t.objectsNum ∨
        s.object = none ∧ t'.slots = t.slots.set n (.occupy obj) ∧
          t'.objectsNum = t.objectsNum + 1) := by
  unfold addObject at h
  cases hp : place t.objectsNum obj t.slots 0 0 none with
  | found m =>
    simp only [hp] at h
    obtain ⟨rfl, rfl⟩ := h
    obtain ⟨-, s, hs, hobj⟩ := place_found hp
    exact ⟨s, hs, .inl ⟨hobj, modify_retain hs, rfl⟩⟩
  | free m =>
    simp only [hp] at h
    obtain ⟨rfl, rfl⟩ := h
    rcases place_free hp with hf | ⟨-, s, hs, hobj⟩
    · cases hf
    · exact ⟨s, hs, .inr ⟨hobj, rfl, rfl⟩⟩
  | full => simp [hp] at h

theorem refCount_addObject (j : Nat) : t'.refCount j = t.refCount j + if j = n then 1 else 0 := by
  obtain ⟨s, hs, ⟨hobj, hslots, -⟩ | ⟨hobj, hslots, -⟩⟩ := addObject_cases h
  · rw [refCount_of_set hs hslots, Slot.refCount_retain (by rw [hobj]; rfl)]
    rw [show s.refCount + 1 - s.refCount = 1 by omega]
  · rw [refCount_of_set hs hslots]
    simp [Slot.refCount, Slot.occupy, hobj]

theorem addObject_lt : n + 1 < 2 ^ 31 := by
  have hcount := refCount_addObject h n
  have hnonneg := t.refCount_nonneg n
  exact lt_of_refCount_pos (t := t') (by omega)

end

theorem place_modify_retain {count : Nat} (k : Nat) :
    place objectsNum obj (ss.modify k Slot.retain) n count firstFree =
      place objectsNum obj ss n count firstFree := by
  induction ss generalizing k n count firstFree with
  | nil => simp
  | cons s ss ih =>
    cases k with
    | zero => rfl
    | succ k => simp only [List.modify_succ_cons, place, ih]

theorem place_shift {count m : Nat} {firstFree' : Option Nat}
    (h : place objectsNum obj ss n count firstFree = .found m) :
    place (objectsNum + 1) obj ss n (count + 1) firstFree' = .found m := by
  induction ss generalizing n count firstFree firstFree' with
  | nil => cases firstFree <;> cases h
  | cons s ss ih =>
    unfold place at h ⊢
    cases hs : s.object with
    | some o =>
      simp only [hs] at h ⊢
      split_ifs at h ⊢
      · exact h
      · exact ih h
    | none =>
      simp only [hs] at h ⊢
      split_ifs at h with hc
      rw [if_neg (by omega)]
      exact ih h

theorem place_free_of_some {count f m : Nat}
    (h : place objectsNum obj ss n count (some f) = .free m) : f = m := by
  induction ss generalizing n count with
  | nil =>
    cases h
    rfl
  | cons s ss ih =>
    unfold place at h
    cases hs : s.object with
    | some o =>
      simp only [hs] at h
      split_ifs at h
      exact ih h
    | none =>
      simp only [hs] at h
      split_ifs at h
      · exact Place.free.inj h
      · exact ih h

/-- An object that was found, or has just been put into the first free slot, is found. -/
theorem place_occupied {obj' : α} {count k : Nat}
    (hfound : obj = obj' ∨ ∃ m, place objectsNum obj ss n count none = .found m)
    (hfree : place objectsNum obj' ss n count none = .free k) :
    ∃ m, place (objectsNum + 1) obj (ss.set (k - n) (.occupy obj')) n count none = .found m := by
  induction ss generalizing n count with
  | nil => cases hfree
  | cons s ss ih =>
    unfold place at hfound hfree
    cases hs : s.object with
    | some o =>
      simp only [hs] at hfound hfree
      split_ifs at hfree with ho
      obtain hnone | ⟨hle, -⟩ := place_free hfree
      · cases hnone
      rw [show k - n = k - (n + 1) + 1 by omega, List.set_cons_succ, place, hs]
      dsimp only
      split_ifs at hfound ⊢ with ho'
      · exact ⟨n, rfl⟩
      · exact ih hfound hfree
    | none =>
      simp only [hs, Option.getD_none] at hfound hfree
      have hk : n = k := by
        split_ifs at hfree
        · exact Place.free.inj hfree
        · exact place_free_of_some hfree
      rw [← hk, Nat.sub_self, List.set_cons_zero, place]
      simp only [Slot.occupy]
      split_ifs with ho
      · exact ⟨n, rfl⟩
      obtain ⟨m, hm⟩ := hfound.resolve_left (Ne.symm ho)
      split_ifs at hm
      exact ⟨m, place_shift hm⟩

theorem finds_addObject {obj' : α} (h : t.addObject obj' = some (n, t'))
    (hfinds : obj = obj' ∨ t.finds obj = true) : t'.finds obj = true := by
  have hiff : ∀ u : ObjectTable α, u.finds obj = true ↔
      ∃ m, place u.objectsNum obj u.slots 0 0 none = .found m := by
    intro u
    unfold finds
    split <;> simp_all
  rw [hiff] at hfinds ⊢
  unfold addObject at h
  cases hp : place t.objectsNum obj' t.slots 0 0 none with
  | found m =>
    simp only [hp] at h
    cases h
    rw [place_modify_retain]
    rcases hfinds with rfl | hm
    · exact ⟨_, hp⟩
    · exact hm
  | free m =>
    simp only [hp] at h
    cases h
    exact place_occupied hfinds hp
  | full => simp [hp] at h

theorem exists_addObject (obj : α) (h : t.finds obj = true ∨ 0 < t.freeSlots) :
    ∃ n t', t.addObject obj = some (n, t') ∧
      t.freeSlots ≤ t'.freeSlots + if t.finds obj then 0 else 1 := by
  unfold addObject finds at *
  cases hp : place t.objectsNum obj t.slots 0 0 none with
  | found m =>
    refine ⟨m, _, rfl, ?_⟩
    obtain ⟨-, s, hs, hobj⟩ := place_found hp
    rw [Nat.sub_zero] at hs
    obtain ⟨hm, hget⟩ := List.getElem?_eq_some_iff.mp hs
    show t.freeSlots ≤ (t.slots.modify m Slot.retain).countP (·.object.isNone)
    rw [modify_retain hs, List.countP_set hm]
    simp [freeSlots, hget, hobj]
  | free m =>
    refine ⟨m, _, rfl, ?_⟩
    show t.freeSlots ≤ (t.slots.set m (.occupy obj)).countP (·.object.isNone) + 1
    by_cases hm : m < t.slots.length
    · rw [List.countP_set hm]
      unfold freeSlots
      split <;> omega
    · rw [List.set_eq_of_length_le (by omega)]
      exact Nat.le_succ _
  | full =>
    have hzero := (place_full hp).2
    simp only [hp, Bool.false_eq_true, false_or, freeSlots] at h
    omega

theorem exists_addObject_of_room {os : List α} (h : (t.newObjects (obj :: os)).card ≤ t.freeSlots) :
    ∃ n t', t.addObject obj = some (n, t') ∧ (t'.newObjects os).card ≤ t'.freeSlots := by
  have hnew : t.finds obj = true ∨ obj ∈ t.newObjects (obj :: os) := by
    simp only [newObjects, Finset.mem_filter, List.toFinset_cons, Finset.mem_insert_self, true_and]
    exact Decidable.em _
  obtain ⟨n, t', hadd, hfree⟩ := exists_addObject obj (t := t)
    (hnew.imp_right fun hmem => (Finset.card_pos.mpr ⟨obj, hmem⟩).trans_le h)
  have hsub : t'.newObjects os ⊆ (t.newObjects (obj :: os)).erase obj := by
    intro x hx
    simp only [newObjects, Finset.mem_filter, Finset.mem_erase, List.mem_toFinset] at hx ⊢
    exact ⟨fun hxo => hx.2 (finds_addObject hadd (.inl hxo)), List.mem_cons_of_mem _ hx.1,
      fun hfinds => hx.2 (finds_addObject hadd (.inr hfinds))⟩
  have hcard := Finset.card_le_card hsub
  refine ⟨n, t', hadd, ?_⟩
  rcases hnew with hfinds | hmem
  · rw [if_pos hfinds] at hfree
    exact (hcard.trans (Finset.card_erase_le)).trans (h.trans hfree)
  · rw [Finset.card_erase_of_mem hmem] at hcard
    split_ifs at hfree <;> omega

omit [DecidableEq α] in
theorem refCount_releaseHandle {i : Nat} (h : 0 < t.refCount i) (j : Nat) :
    (t.releaseHandle i).refCount j = t.refCount j - if j = i then 1 else 0 := by
  cases hs : t.slots[i]? with
  | none => simp [refCount, hs] at h
  | some s =>
    have hslots : (t.releaseHandle i).slots = t.slots.set i s.release := by
      simp [releaseHandle, hs]
    rw [refCount_eq hs] at h
    rw [refCount_of_set hs hslots, Slot.refCount_release h]
    by_cases hj : j = i
    · omega
    · omega

end ObjectTable

end MinkIpc.TunnelInvoke
