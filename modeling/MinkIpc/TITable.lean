import MinkIpc.Run
import MinkIpc.TIObjectTable

/-! The table of a tunnel endpoint as its two arrays are kept, with 32-bit counts that
wrap, and what any sequence of calls leaves of it. -/

namespace MinkIpc.TunnelInvoke

open List Option

structure RawTable (α : Type*) where
  objects : List (Option α)
  objectRefs : List Int32
  objectsNum : Nat
  sameLen : objectRefs.length = objects.length
  deriving DecidableEq

namespace RawTable

variable {α : Type*}

def construct (size : Nat) : RawTable α :=
  ⟨replicate size none, replicate size 0, 0, by simp⟩

section

variable [DecidableEq α]

def search (objectsNum : Nat) (obj : α) :
    List (Option α) → (n count : Nat) → (firstFree : Option Nat) → Place
  | [], _, _, none => .full
  | [], _, _, some f => .free f
  | some o :: os, n, count, firstFree =>
    if o = obj then .found n else search objectsNum obj os (n + 1) (count + 1) firstFree
  | none :: os, n, count, firstFree =>
    if count = objectsNum then .free (firstFree.getD n)
    else search objectsNum obj os (n + 1) count (some (firstFree.getD n))

def store (t : RawTable α) (obj : α) (n : Nat) : RawTable α where
  objects := t.objects.set n (some obj)
  objectRefs := t.objectRefs.set n 1
  objectsNum := t.objectsNum + 1
  sameLen := by simp [t.sameLen]

def addObject (t : RawTable α) (obj : α) : Option (Nat × RawTable α) :=
  match search t.objectsNum obj t.objects 0 0 none with
  | .found n => some (n, { t with
      objectRefs := t.objectRefs.modify n (· + 1), sameLen := by simp [t.sameLen] })
  | .free n => some (n, t.store obj n)
  | .full => none

end

def recoverObject (t : RawTable α) (h : Nat) : Option α := t.objects[h]?.join

def closeHandle (t : RawTable α) (h : Nat) : RawTable α :=
  match t.objects[h]? with
  | some (some _) => { t with
      objects := t.objects.set h none
      objectsNum := t.objectsNum - 1
      sameLen := by simp [t.sameLen] }
  | _ => t

def retainHandle (t : RawTable α) (h : Nat) : RawTable α :=
  { t with objectRefs := t.objectRefs.modify h (· + 1), sameLen := by simp [t.sameLen] }

def releaseHandle (t : RawTable α) (h : Nat) : RawTable α :=
  let t' : RawTable α :=
    { t with objectRefs := t.objectRefs.modify h (· - 1), sameLen := by simp [t.sameLen] }
  if t'.objectRefs[h]? = some 0 then t'.closeHandle h else t'

def refs (t : RawTable α) (h : Nat) : Int32 := t.objectRefs[h]?.getD 0

section Search

variable [DecidableEq α] {objectsNum : Nat} {obj : α}

theorem place_eq_search (ss : List (Slot α)) (n count : Nat) (firstFree : Option Nat) :
    ObjectTable.place objectsNum obj ss n count firstFree =
      search objectsNum obj (ss.map Slot.object) n count firstFree := by
  induction ss generalizing n count firstFree with
  | nil => cases firstFree <;> rfl
  | cons s ss ih =>
    cases hs : s.object with
    | none | some o => simp [ObjectTable.place, search, hs, ih]

omit [DecidableEq α] in
theorem map_object_occupy (os : List (Option α)) :
    (os.map fun o => o.elim Slot.empty Slot.occupy).map Slot.object = os := by
  rw [List.map_map]
  conv_rhs => rw [← List.map_id os]
  refine List.map_congr_left fun o _ => ?_
  cases o <;> rfl

theorem search_eq_place (os : List (Option α)) (n count : Nat) (firstFree : Option Nat) :
    search objectsNum obj os n count firstFree =
      ObjectTable.place objectsNum obj (os.map fun o => o.elim Slot.empty Slot.occupy) n count
        firstFree := by
  rw [place_eq_search, map_object_occupy]

variable {os : List (Option α)}

omit [DecidableEq α] in
theorem getElem?_of_map_occupy {s : Slot α} {m : Nat}
    (h : (os.map fun o => o.elim Slot.empty Slot.occupy)[m]? = some s) :
    os[m]? = some s.object := by
  conv_lhs => rw [← map_object_occupy os]
  rw [getElem?_map, h, map_some]

theorem search_found {m : Nat} (h : search objectsNum obj os 0 0 none = .found m) :
    os[m]? = some (some obj) := by
  rw [search_eq_place] at h
  obtain ⟨-, s, hs, hobj⟩ := ObjectTable.place_found h
  rw [← hobj]
  exact getElem?_of_map_occupy hs

theorem search_free {m : Nat} (h : search objectsNum obj os 0 0 none = .free m) :
    os[m]? = some none := by
  rw [search_eq_place] at h
  rcases ObjectTable.place_free h with hf | ⟨-, s, hs, hobj⟩
  · cases hf
  · rw [← hobj]
    exact getElem?_of_map_occupy hs

theorem search_full {n count : Nat} {firstFree : Option Nat}
    (h : search objectsNum obj os n count firstFree = .full) : none ∉ os := by
  intro hmem
  rw [search_eq_place] at h
  have hcount := (ObjectTable.place_full h).2
  rw [countP_map, countP_eq_zero] at hcount
  exact hcount none hmem rfl

theorem search_present (n count : Nat) (firstFree : Option Nat) (hmem : some obj ∈ os)
    (hnum : objectsNum = count + os.countP isSome) :
    ∃ m, search objectsNum obj os n count firstFree = .found m := by
  induction os generalizing n count firstFree with
  | nil => cases hmem
  | cons o os ih =>
    cases o with
    | some o =>
      by_cases ho : o = obj
      · exact ⟨n, by rw [search, if_pos ho]⟩
      have hmem' : some obj ∈ os := by simpa [Ne.symm ho] using hmem
      rw [search, if_neg ho]
      refine ih _ _ _ hmem' ?_
      rw [hnum, countP_cons_of_pos rfl]
      omega
    | none =>
      have hmem' : some obj ∈ os := by simpa using hmem
      have hpos : 0 < os.countP isSome := countP_pos_iff.mpr ⟨_, hmem', rfl⟩
      have hnum' : objectsNum = count + os.countP isSome := hnum
      rw [search, if_neg (by omega)]
      exact ih _ _ _ hmem' hnum'

end Search

structure Consistent (t : RawTable α) : Prop where
  distinct : ∀ (i j : Nat) (obj : α),
    t.objects[i]? = some (some obj) → t.objects[j]? = some (some obj) → i = j
  counted : ∀ (i : Nat) (obj : α), t.objects[i]? = some (some obj) → 1 ≤ t.refs i
  number : t.objectsNum = t.objects.countP isSome

variable {t : RawTable α}

theorem refs_modify {h : Nat} (hh : h < t.objects.length) (f : Int32 → Int32) (j : Nat) :
    (t.objectRefs.modify h f)[j]?.getD 0 = if j = h then f (t.refs j) else t.refs j := by
  have hlen := t.sameLen
  by_cases hj : j = h
  · subst hj
    simp [refs, getElem?_eq_getElem (l := t.objectRefs) (i := j) (by omega)]
  · simp [refs, hj, Ne.symm hj]

theorem lt_of_objects {i : Nat} {o : Option α} (h : t.objects[i]? = some o) :
    i < t.objects.length :=
  (List.getElem?_eq_some_iff.mp h).1

section Cases

variable [DecidableEq α] {t : RawTable α} {obj : α}

theorem addObject_of_present (ht : t.Consistent) {i : Nat} (h : t.objects[i]? = some (some obj)) :
    t.addObject obj = some (i, t.retainHandle i) := by
  have hnum : t.objectsNum = 0 + t.objects.countP isSome := by rw [Nat.zero_add, ht.number]
  obtain ⟨m, hm⟩ := search_present 0 0 none (mem_of_getElem? h) hnum
  obtain rfl : m = i := ht.distinct m i obj (search_found hm) h
  unfold addObject
  rw [hm]
  rfl

theorem addObject_of_absent (h : some obj ∉ t.objects) :
    (∃ n, t.objects[n]? = some none ∧ t.addObject obj = some (n, t.store obj n)) ∨
      none ∉ t.objects ∧ t.addObject obj = none := by
  unfold addObject
  cases hp : search t.objectsNum obj t.objects 0 0 none with
  | found n => exact absurd (mem_of_getElem? (search_found hp)) h
  | free n => exact .inl ⟨n, search_free hp, rfl⟩
  | full => exact .inr ⟨search_full hp, rfl⟩

end Cases

theorem refs_retainHandle {h : Nat} (hh : h < t.objects.length) (j : Nat) :
    (t.retainHandle h).refs j = if j = h then t.refs j + 1 else t.refs j :=
  refs_modify hh (· + 1) j

theorem refs_store {n : Nat} (hn : n < t.objects.length) (obj : α) (j : Nat) :
    (t.store obj n).refs j = if j = n then 1 else t.refs j := by
  have hlen := t.sameLen
  unfold store refs
  by_cases hj : j = n
  · subst hj
    rw [getElem?_set_self (by omega), if_pos rfl, getD_some]
  · rw [getElem?_set_ne (Ne.symm hj), if_neg hj]

theorem objects_set {os : List (Option α)} {n i : Nat} {o o' : Option α}
    (h : (os.set n o)[i]? = some o') : i = n ∧ o' = o ∨ i ≠ n ∧ os[i]? = some o' := by
  by_cases hi : i = n
  · subst hi
    rw [getElem?_set_self'] at h
    cases hos : os[i]? with
    | none => simp [hos] at h
    | some o'' => simp_all
  · rw [getElem?_set_ne (Ne.symm hi)] at h
    exact .inr ⟨hi, h⟩

theorem closeHandle_objects_of_ne {h i : Nat} (hi : h ≠ i) :
    (t.closeHandle h).objects[i]? = t.objects[i]? := by
  unfold closeHandle
  split
  · exact getElem?_set_ne hi
  · rfl

theorem refs_closeHandle {h i : Nat} : (t.closeHandle h).refs i = t.refs i := by
  unfold closeHandle
  split <;> rfl

section Consistent

variable {t : RawTable α}

theorem consistent_construct (size : Nat) : (construct size : RawTable α).Consistent := by
  have hnone : ∀ (i : Nat) (obj : α), (replicate size none)[i]? ≠ some (some obj) := by
    intro i obj h
    have hmem := mem_of_getElem? h
    simp at hmem
  refine ⟨fun i j obj h _ => (hnone i obj h).elim, fun i obj h => (hnone i obj h).elim, ?_⟩
  simp [construct, countP_replicate]

theorem Consistent.retainHandle (ht : t.Consistent) {h : Nat} (hmax : t.refs h < Int32.maxValue) :
    (t.retainHandle h).Consistent := by
  refine ⟨ht.distinct, fun i obj hi => ?_, ht.number⟩
  have hone := ht.counted i obj hi
  by_cases hh : h < t.objects.length
  · rw [refs_retainHandle hh]
    split_ifs with hih
    · grind
    · exact hone
  · have hsame : t.objectRefs.modify h (· + 1) = t.objectRefs := by
      rw [modify_eq_self]
      have hlen := t.sameLen
      omega
    simpa [RawTable.retainHandle, hsame] using hone

theorem Consistent.store (ht : t.Consistent) {obj : α} {n : Nat} (hn : t.objects[n]? = some none)
    (habsent : some obj ∉ t.objects) : (t.store obj n).Consistent := by
  have hlt := lt_of_objects hn
  constructor
  · intro i j o hi hj
    rcases objects_set hi with ⟨hi, ho⟩ | ⟨hi, hoi⟩ <;>
      rcases objects_set hj with ⟨hj, ho'⟩ | ⟨hj, hoj⟩
    · omega
    · cases ho
      exact absurd (List.mem_of_getElem? hoj) habsent
    · cases ho'
      exact absurd (List.mem_of_getElem? hoi) habsent
    · exact ht.distinct i j o hoi hoj
  · intro i o hi
    rw [refs_store hlt]
    rcases objects_set hi with ⟨hi, -⟩ | ⟨hi, hoi⟩
    · rw [if_pos hi]
      decide
    · rw [if_neg hi]
      exact ht.counted i o hoi
  · have hnum := ht.number
    have hget : t.objects[n] = none := (List.getElem?_eq_some_iff.mp hn).2
    simp only [RawTable.store, List.countP_set hlt, hget]
    simp [hnum]

theorem Consistent.addObject [DecidableEq α] (ht : t.Consistent) {obj : α}
    (hmax : ∀ i, t.objects[i]? = some (some obj) → t.refs i < Int32.maxValue) :
    (((t.addObject obj).map Prod.snd).getD t).Consistent := by
  by_cases hmem : some obj ∈ t.objects
  · obtain ⟨i, hi⟩ := getElem?_of_mem hmem
    rw [addObject_of_present ht hi]
    exact ht.retainHandle (hmax i hi)
  rcases addObject_of_absent hmem with ⟨n, hn, hadd⟩ | ⟨-, hadd⟩
  · rw [hadd]
    exact ht.store hn hmem
  · rw [hadd]
    exact ht

theorem Consistent.closeHandle {h : Nat} (hdistinct : ∀ (i j : Nat) (obj : α),
      t.objects[i]? = some (some obj) → t.objects[j]? = some (some obj) → i = j)
    (hcounted : ∀ (i : Nat) (obj : α), i ≠ h → t.objects[i]? = some (some obj) → 1 ≤ t.refs i)
    (hnumber : t.objectsNum = t.objects.countP Option.isSome) :
    (t.closeHandle h).Consistent := by
  unfold RawTable.closeHandle
  split
  · rename_i o ho
    have hlt := lt_of_objects ho
    have hget : t.objects[h] = some o := (List.getElem?_eq_some_iff.mp ho).2
    refine ⟨fun i j obj hi hj => ?_, fun i obj hi => ?_, ?_⟩
    · rcases objects_set hi with ⟨-, hno⟩ | ⟨-, hoi⟩
      · cases hno
      · rcases objects_set hj with ⟨-, hno⟩ | ⟨-, hoj⟩
        · cases hno
        · exact hdistinct i j obj hoi hoj
    · rcases objects_set hi with ⟨-, hno⟩ | ⟨hne, hoi⟩
      · cases hno
      · exact hcounted i obj hne hoi
    · simp only [List.countP_set hlt, hget, hnumber]
      simp
  · rename_i hnone
    refine ⟨hdistinct, fun i obj hi => hcounted i obj ?_ hi, hnumber⟩
    rintro rfl
    exact hnone obj hi

theorem Consistent.releaseHandle (ht : t.Consistent) {h : Nat}
    (hheld : h < t.objects.length → 1 ≤ t.refs h) : (t.releaseHandle h).Consistent := by
  by_cases hh : h < t.objects.length
  · have hrefs := refs_modify hh (· - 1)
    have hother : ∀ (i : Nat) (obj : α), i ≠ h → t.objects[i]? = some (some obj) →
        1 ≤ (t.objectRefs.modify h (· - 1))[i]?.getD 0 := by
      intro i obj hi hobj
      rw [hrefs, if_neg hi]
      exact ht.counted i obj hobj
    unfold RawTable.releaseHandle
    dsimp only
    split_ifs with hzero
    · exact Consistent.closeHandle ht.distinct hother ht.number
    refine ⟨ht.distinct, fun i obj hi => ?_, ht.number⟩
    by_cases hih : i = h
    · subst hih
      have hlen := t.sameLen
      have hi' := hrefs i
      rw [if_pos rfl] at hi'
      show 1 ≤ (t.objectRefs.modify i (· - 1))[i]?.getD 0
      have hne : t.refs i - 1 ≠ 0 := by
        intro hz
        rw [hz] at hi'
        apply hzero
        rw [getElem?_eq_getElem (by simpa using hlen ▸ hh)] at hi' ⊢
        exact congrArg some hi'
      grind
    · exact hother i obj hih hi
  · have hsame : t.objectRefs.modify h (· - 1) = t.objectRefs := by
      rw [modify_eq_self]
      have hlen := t.sameLen
      omega
    have hnone : t.objectRefs[h]? = none := by
      rw [getElem?_eq_none_iff, t.sameLen]
      omega
    simpa [RawTable.releaseHandle, hsame, hnone] using ht

end Consistent

structure Represents (r : RawTable α) (t : ObjectTable α) : Prop where
  objects : r.objects = t.slots.map Slot.object
  objectRefs : r.objectRefs.map Int32.toInt = t.slots.map Slot.refs
  objectsNum : r.objectsNum = t.objectsNum

section Represents

variable {r : RawTable α} {t : ObjectTable α}

theorem Represents.slot (h : r.Represents t) {i : Nat} {s : Slot α} (hs : t.slots[i]? = some s) :
    r.objects[i]? = some s.object ∧ ∃ c, r.objectRefs[i]? = some c ∧ c.toInt = s.refs := by
  have hrefs : (r.objectRefs.map Int32.toInt)[i]? = some s.refs := by
    rw [h.objectRefs, getElem?_map, hs, map_some]
  rw [getElem?_map] at hrefs
  refine ⟨by rw [h.objects, getElem?_map, hs, map_some], ?_⟩
  exact map_eq_some_iff.mp hrefs

theorem Represents.objects_set (h : r.Represents t) {i : Nat} {s s' : Slot α}
    (hs : t.slots[i]? = some s) (hobj : s'.object = s.object) :
    r.objects = (t.slots.set i s').map Slot.object := by
  have hget : (t.slots.map Slot.object)[i]? = some s'.object := by
    rw [List.getElem?_map, hs, Option.map_some, hobj]
  obtain ⟨hlt, hget⟩ := List.getElem?_eq_some_iff.mp hget
  rw [List.map_set, ← hget, List.set_getElem_self, h.objects]

theorem toInt_add_one {c : Int32} (h : c < Int32.maxValue) : (c + 1).toInt = c.toInt + 1 := by
  have hlt : c.toInt < 2 ^ 31 - 1 := Int32.toInt_maxValue ▸ Int32.lt_iff_toInt_lt.mp h
  have hle := c.le_toInt
  rw [Int32.toInt_add, show (1 : Int32).toInt = 1 from rfl]
  exact Int.bmod_eq_of_le (by omega) (by omega)

theorem toInt_sub_one {c : Int32} (h : 1 ≤ c) : (c - 1).toInt = c.toInt - 1 := by
  have hle : (1 : Int32).toInt ≤ c.toInt := Int32.le_iff_toInt_le.mp h
  have hlt := c.toInt_lt
  rw [show (1 : Int32).toInt = 1 from rfl] at hle
  rw [Int32.toInt_sub, show (1 : Int32).toInt = 1 from rfl]
  exact Int.bmod_eq_of_le (by omega) (by omega)

theorem Represents.modify (h : r.Represents t) {i : Nat} {s' : Slot α} {c : Int32}
    (hc : r.objectRefs[i]? = some c) (f : Int32 → Int32) (hf : (f c).toInt = s'.refs) :
    (r.objectRefs.modify i f).map Int32.toInt = (t.slots.set i s').map Slot.refs := by
  have hset : r.objectRefs.modify i f = r.objectRefs.set i (f c) := by
    rw [modify_eq_set_getElem?, hc]
    rfl
  rw [hset, map_set, map_set, h.objectRefs, hf]

theorem Represents.addObject [DecidableEq α] (h : r.Represents t) {obj : α}
    (hmax : ∀ i < r.objects.length, r.objects[i]? = some (some obj) → r.refs i < Int32.maxValue) :
    (((r.addObject obj).map Prod.snd).getD r).Represents
      (((t.addObject obj).map Prod.snd).getD t) := by
  rw [RawTable.addObject, ObjectTable.addObject, place_eq_search, ← h.objects, ← h.objectsNum]
  cases hp : search r.objectsNum obj r.objects 0 0 none with
  | full => exact h
  | free n =>
    refine ⟨?_, ?_, rfl⟩
    · simp [store, h.objects, Slot.occupy]
    · simp [store, map_set, h.objectRefs, Slot.occupy]
  | found n =>
    have hobj := search_found hp
    obtain ⟨s, hs, -⟩ : ∃ s, t.slots[n]? = some s ∧ s.object = some obj := by
      simpa [h.objects] using hobj
    obtain ⟨-, c, hc, hrefs⟩ := h.slot hs
    have hlt : c < Int32.maxValue := by simpa [refs, hc] using hmax n (lt_of_objects hobj) hobj
    simp only [ObjectTable.modify_retain hs]
    refine ⟨h.objects_set hs rfl, h.modify hc _ ?_, rfl⟩
    rw [toInt_add_one hlt, hrefs]
    rfl

theorem Represents.releaseHandle (h : r.Represents t) {i : Nat}
    (hheld : i < r.objects.length → 1 ≤ r.refs i) :
    (r.releaseHandle i).Represents (t.releaseHandle i) := by
  cases hs : t.slots[i]? with
  | none =>
    have hnone : r.objectRefs[i]? = none := by simpa [hs] using congrArg (·[i]?) h.objectRefs
    have hsame : r.objectRefs.modify i (· - 1) = r.objectRefs :=
      modify_eq_self (getElem?_eq_none_iff.mp hnone)
    simpa [RawTable.releaseHandle, ObjectTable.releaseHandle, hs, hnone, hsame] using h
  | some s =>
    obtain ⟨hobj, c, hc, hrefs⟩ := h.slot hs
    have hc1 : 1 ≤ c := by simpa [refs, hc] using hheld (lt_of_objects hobj)
    have hsub := toInt_sub_one hc1
    have hget : (r.objectRefs.modify i (· - 1))[i]? = some (c - 1) := by simp [hc]
    -- the count reaches zero in the array exactly when it does in the slot
    have hzero : c - 1 = 0 ↔ s.refs - 1 = 0 := by
      rw [← Int32.toInt_inj, hsub, hrefs]
      rfl
    have hmap : (r.objectRefs.modify i (· - 1)).map Int32.toInt =
        (t.slots.set i s.release).map Slot.refs := by
      refine h.modify hc _ ?_
      rw [hsub, hrefs, Slot.release]
      grind
    unfold RawTable.releaseHandle RawTable.closeHandle ObjectTable.releaseHandle
    simp only [hs, hget, hobj, some_inj, hzero]
    by_cases hz : s.refs - 1 = 0
    · have hrelease : s.release.object = none := by rw [Slot.release, dif_pos hz]
      cases ho : s.object with
      | none =>
        have hobjects := h.objects_set hs (hrelease.trans ho.symm)
        exact ⟨by simpa [hz] using hobjects, by simpa [hz] using hmap, by simp [hz, h.objectsNum]⟩
      | some o =>
        refine ⟨?_, by simpa [hz] using hmap, by simp [hz, hrelease, h.objectsNum]⟩
        simp [hz, hrelease, h.objects, map_set]
    · have hrelease : s.release.object = s.object := by rw [Slot.release, dif_neg hz]
      simp only [hz, if_false]
      refine ⟨h.objects_set hs hrelease, hmap, ?_⟩
      cases ho : s.object <;> simp [hrelease, ho, h.objectsNum]

end Represents

inductive Op (α : Type*)
  | addObject (obj : α)
  | recoverObject (h : Nat)
  | retainHandle (h : Nat)
  | releaseHandle (h : Nat)
  | closeHandle (h : Nat)
  deriving DecidableEq, Repr

section Calls

variable [DecidableEq α]

def step (t : RawTable α) : Op α → Option (RawTable α)
  | .addObject obj => some (((t.addObject obj).map Prod.snd).getD t)
  | .recoverObject _ => some t
  | .retainHandle h => some (t.retainHandle h)
  | .releaseHandle h => some (t.releaseHandle h)
  | .closeHandle h => if h < t.objects.length then some (t.closeHandle h) else none

/-- A reference is there to be released, and the count that is raised is not the largest. -/
def Respects (t : RawTable α) : Op α → Prop
  | .addObject obj => ∀ i < t.objects.length,
      t.objects[i]? = some (some obj) → t.refs i < Int32.maxValue
  | .retainHandle h => t.refs h < Int32.maxValue
  | .releaseHandle h => h < t.objects.length → 1 ≤ t.refs h
  | _ => True

instance (t : RawTable α) (op : Op α) : Decidable (t.Respects op) :=
  match op with
  | .addObject _ => inferInstanceAs (Decidable (∀ _, _))
  | .recoverObject _ => inferInstanceAs (Decidable True)
  | .retainHandle _ => inferInstanceAs (Decidable (_ < _))
  | .releaseHandle _ => inferInstanceAs (Decidable (_ → _))
  | .closeHandle _ => inferInstanceAs (Decidable True)

theorem Consistent.step {t t' : RawTable α} {op : Op α} (ht : t.Consistent)
    (hop : t.Respects op) (h : t.step op = some t') : t'.Consistent := by
  cases op with
  | addObject obj =>
    cases h
    exact ht.addObject fun i hi => hop i (lt_of_objects hi) hi
  | recoverObject k =>
    cases h
    exact ht
  | retainHandle k =>
    cases h
    exact ht.retainHandle hop
  | releaseHandle k =>
    cases h
    exact ht.releaseHandle hop
  | closeHandle k =>
    simp only [RawTable.step] at h
    split_ifs at h
    cases h
    exact Consistent.closeHandle ht.distinct (fun i obj _ => ht.counted i obj) ht.number

/-- The call empties slot `i` and leaves its count, or raises the count of the empty slot. -/
def Marks (t : RawTable α) (i : Nat) : Op α → Prop
  | .closeHandle h => h = i ∧ ∃ obj, t.objects[i]? = some (some obj)
  | .retainHandle h => h = i ∧ t.objects[i]? = some none
  | _ => False

theorem marks_of_step {t t' : RawTable α} {op : Op α} {i : Nat} (hop : t.Respects op)
    (h : t.step op = some t') (hempty : t'.objects[i]? = some none) (hone : 1 ≤ t'.refs i) :
    t.objects[i]? = some none ∧ 1 ≤ t.refs i ∨ t.Marks i op := by
  cases op with
  | addObject obj =>
    left
    simp only [step, addObject] at h
    split at h
    · rename_i n hfound
      cases h
      have hn : n ≠ i := by
        rintro rfl
        cases (search_found hfound).symm.trans hempty
      exact ⟨hempty, by simpa [refs, hn] using hone⟩
    · rename_i n hfree
      cases h
      obtain ⟨-, ho⟩ | ⟨hi, ho⟩ := objects_set hempty
      · cases ho
      · have hrefs : (t.store obj n).refs i = t.refs i := by
          rw [refs_store (lt_of_objects (search_free hfree)), if_neg hi]
        exact ⟨ho, hrefs ▸ hone⟩
    · cases h
      exact ⟨hempty, hone⟩
  | recoverObject k =>
    cases h
    exact .inl ⟨hempty, hone⟩
  | retainHandle k =>
    cases h
    by_cases hk : k = i
    · exact .inr ⟨hk, hempty⟩
    · exact .inl ⟨hempty, by simpa [retainHandle, refs, hk] using hone⟩
  | releaseHandle k =>
    left
    simp only [step, releaseHandle, Option.some.injEq] at h
    by_cases hk : k = i
    · subst hk
      split_ifs at h with hzero <;> subst h
      · rw [refs_closeHandle, refs, hzero] at hone
        exact absurd hone (by decide)
      · exact ⟨hempty, hop (lt_of_objects hempty)⟩
    · split_ifs at h <;> subst h
      · rw [refs_closeHandle] at hone
        rw [closeHandle_objects_of_ne hk] at hempty
        exact ⟨hempty, by simpa [refs, hk] using hone⟩
      · exact ⟨hempty, by simpa [refs, hk] using hone⟩
  | closeHandle k =>
    simp only [step] at h
    split_ifs at h
    cases h
    rw [refs_closeHandle] at hone
    by_cases hk : k = i
    · subst hk
      cases ho : t.objects[k]? with
      | none => simp [closeHandle, ho] at hempty
      | some o =>
        cases o with
        | none => exact .inl ⟨rfl, hone⟩
        | some obj => exact .inr ⟨rfl, obj, ho⟩
    · exact .inl ⟨closeHandle_objects_of_ne hk ▸ hempty, hone⟩

theorem marked_of_run {size : Nat} {ops : List (Op α)} {t : RawTable α} {i : Nat}
    (h : Run.Guarded step Respects (construct size) ops t)
    (hempty : t.objects[i]? = some none) (hone : 1 ≤ t.refs i) :
    ∃ as op bs u, ops = as ++ op :: bs ∧ Run.exec step (construct size) as = some u ∧ u.Marks i op ∧
      ∀ cs, cs <+: bs → ∀ v, Run.exec step (construct size) (as ++ op :: cs) = some v →
        v.objects[i]? = some none := by
  induction h with
  | nil =>
    have hzero : (construct size : RawTable α).refs i = 0 := by
      unfold construct refs
      rw [getElem?_replicate]
      split_ifs <;> rfl
    exact absurd (hzero ▸ hone) (by decide)
  | @snoc ops op s t hrun hop hs ih =>
    rcases marks_of_step hop hs hempty hone with ⟨hbefore, hone'⟩ | hmark
    · obtain ⟨as, op', bs, u, rfl, hu, hmark, hstays⟩ := ih hbefore hone'
      refine ⟨as, op', bs ++ [op], u, by simp, hu, hmark, fun cs hcs v hv => ?_⟩
      rcases prefix_concat_iff.mp hcs with rfl | hcs
      · have hall := Run.exec_snoc hrun.exec hs
        rw [append_assoc, cons_append, hv] at hall
        exact Option.some.inj hall ▸ hempty
      · exact hstays cs hcs v hv
    · refine ⟨ops, op, [], s, rfl, hrun.exec, hmark, fun cs hcs v hv => ?_⟩
      rw [prefix_nil.mp hcs, Run.exec_snoc hrun.exec hs] at hv
      exact Option.some.inj hv ▸ hempty

/-- After any calls that respect the counts: no object is in two slots, occupied slots have a count,
an empty slot has none unless `closeHandle` emptied it or `retainHandle` raised it since it is empty,
and an object is found where it is or, if there is room, gets a slot. -/
theorem table_consistent (size : Nat) {ops : List (Op α)} {t : RawTable α}
    (h : Run.Guarded step Respects (construct size) ops t) :
    t.Consistent ∧
    (∀ i, t.objects[i]? = some none → 1 ≤ t.refs i → ∃ as op bs u, ops = as ++ op :: bs ∧
      Run.exec step (construct size) as = some u ∧ u.Marks i op ∧
      ∀ cs, cs <+: bs → ∀ v, Run.exec step (construct size) (as ++ op :: cs) = some v →
        v.objects[i]? = some none) ∧
    (∀ obj i, t.objects[i]? = some (some obj) → ∃ t', t.addObject obj = some (i, t') ∧
      t'.objects = t.objects ∧ ∀ j, t'.refs j = if j = i then t.refs j + 1 else t.refs j) ∧
    (∀ obj, t.addObject obj = none ↔ none ∉ t.objects ∧ some obj ∉ t.objects) := by
  have ht : t.Consistent := by
    refine h.invariant Consistent (consistent_construct size) ?_
    intro s op s' hs hop hstep
    exact hs.step hop hstep
  refine ⟨ht, fun i => marked_of_run h, fun obj i hi => ?_,
    fun obj => ⟨fun hnone => ?_, fun hfull => ?_⟩⟩
  · exact ⟨_, addObject_of_present ht hi, rfl, refs_retainHandle (lt_of_objects hi)⟩
  · have habsent : some obj ∉ t.objects := by
      intro hmem
      obtain ⟨i, hi⟩ := getElem?_of_mem hmem
      rw [addObject_of_present ht hi] at hnone
      cases hnone
    rcases addObject_of_absent habsent with ⟨n, -, hadd⟩ | ⟨hfull, -⟩
    · rw [hadd] at hnone
      cases hnone
    · exact ⟨hfull, habsent⟩
  · rcases addObject_of_absent hfull.2 with ⟨n, hn, -⟩ | ⟨-, hadd⟩
    · exact absurd (mem_of_getElem? hn) hfull.1
    · exact hadd

/-- The calls that the tunnel makes, on the table of slots. -/
def slotStep (t : ObjectTable α) : Op α → Option (ObjectTable α)
  | .addObject obj => some (((t.addObject obj).map Prod.snd).getD t)
  | .recoverObject _ => some t
  | .releaseHandle h => some (t.releaseHandle h)
  | _ => none

variable {r r' : RawTable α} {t t' : ObjectTable α}

theorem Represents.step {op : Op α} (h : r.Represents t) (hok : r.Respects op)
    (hr : r.step op = some r') (ht : slotStep t op = some t') : r'.Represents t' := by
  cases op with
  | addObject obj =>
    cases hr
    cases ht
    exact h.addObject hok
  | recoverObject =>
    cases hr
    cases ht
    exact h
  | releaseHandle =>
    cases hr
    cases ht
    exact h.releaseHandle hok
  | _ => cases ht

/-- As long as no count overflows, the arrays are the table of slots. -/
theorem represents_of_run {size : Nat} (hsize : size < 2 ^ 31) {ops : List (Op α)}
    (hr : Run.Guarded step Respects (construct size) ops r)
    (ht : Run.exec slotStep (.construct size hsize) ops = some t) :
    r.Represents t ∧
      ∀ obj, (r.addObject obj).map Prod.fst = (t.addObject obj).map Prod.fst := by
  have h : r.Represents t := by
    induction hr generalizing t with
    | nil =>
      cases ht
      refine ⟨?_, ?_, rfl⟩ <;> simp [construct, ObjectTable.construct, Slot.empty]
    | snoc _ hok hs ih =>
      rw [Run.exec_append] at ht
      obtain ⟨u, hu, ht⟩ := bind_eq_some_iff.mp ht
      exact (ih hu).step hok hs (by simpa [Run.exec] using ht)
  refine ⟨h, fun obj => ?_⟩
  rw [addObject, ObjectTable.addObject, place_eq_search, ← h.objects, ← h.objectsNum]
  cases search r.objectsNum obj r.objects 0 0 none <;> rfl

end Calls

/-- The object behind a hole is found again. -/
theorem table_consistent_hole : ∃ t, Run.execIf step Respects (construct 3 : RawTable Nat)
        [.addObject 7, .addObject 8, .releaseHandle 0] = some t ∧ t.Consistent := by
  obtain ⟨t, hexec, hrun⟩ := Run.exists_guarded step Respects (construct 3 : RawTable Nat)
    [.addObject 7, .addObject 8, .releaseHandle 0] (by decide)
  exact ⟨t, hexec, (table_consistent 3 hrun).1⟩

theorem represents_hole : ∃ r t, Run.exec step (construct 3 : RawTable Nat)
    [.addObject 7, .addObject 8, .releaseHandle 0] = some r ∧ r.Represents t := by
  obtain ⟨r, -, h⟩ := Run.exists_guarded step Respects (construct 3 : RawTable Nat)
    [.addObject 7, .addObject 8, .releaseHandle 0] (by decide)
  exact ⟨r, _, h.exec, (represents_of_run (by decide) h rfl).1⟩

theorem exec_addObject_again {n : Nat} (hn : 0 < n) :
    Run.exec step (construct 1 : RawTable Nat) (replicate n (.addObject 7)) =
      some ⟨[some 7], [Int32.ofNat n], 1, rfl⟩ := by
  induction n, hn using Nat.le_induction with
  | base => rfl
  | succ n hn ih =>
    rw [replicate_succ']
    refine Run.exec_snoc ih ?_
    simp [step, addObject, search]

/-- An empty slot may have a count, and a count may wrap. -/
theorem count_of_closed_slot :
    (∃ t ∈ Run.exec step (construct 1 : RawTable Nat) [.addObject 7, .closeHandle 0],
      t.objects = [none] ∧ t.objectRefs = [1]) ∧
    ∃ t ∈ Run.exec step (construct 1 : RawTable Nat) (List.replicate (2 ^ 31) (.addObject 7)),
      t.objects = [some 7] ∧ t.objectRefs = [Int32.minValue] := by
  exact ⟨by decide, _, mem_def.mpr (exec_addObject_again (by decide)), rfl, by decide⟩

end RawTable

end MinkIpc.TunnelInvoke
