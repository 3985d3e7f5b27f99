import MinkIpc.TIDenotes

/-! A marshalling that fails part of the way takes back what it has put into the object table; the
reference counts say where it stops. -/

namespace MinkIpc.TunnelInvoke

namespace ObjectTable

structure Same (t t' : ObjectTable Nat) : Prop where
  length : t'.slots.length = t.slots.length
  objects : ∀ i, t'.recoverObject i = t.recoverObject i
  refs : ∀ i, t'.refCount i = t.refCount i
  objectsNum : t'.objectsNum = t.objectsNum

structure Grows (t t' : ObjectTable Nat) : Prop where
  length : t'.slots.length = t.slots.length
  objects : ∀ i c, t.recoverObject i = some c → t'.recoverObject i = some c
  total : t'.objectsNum + t'.freeSlots = t.objectsNum + t.freeSlots

structure Shrinks (t t' : ObjectTable Nat) : Prop where
  length : t'.slots.length = t.slots.length
  objects : ∀ i c, t'.recoverObject i = some c → t.recoverObject i = some c
  free : t.freeSlots ≤ t'.freeSlots
  total : t'.objectsNum + t'.freeSlots = t.objectsNum + t.freeSlots ∨
    t.objectsNum + t.freeSlots < t'.freeSlots

variable {t t' t'' : ObjectTable Nat}

theorem Grows.refl (t : ObjectTable Nat) : t.Grows t := ⟨rfl, fun _ _ h => h, rfl⟩

theorem Grows.trans (h : t.Grows t') (h' : t'.Grows t'') : t.Grows t'' where
  length := h'.length.trans h.length
  objects i c hc := h'.objects i c (h.objects i c hc)
  total := h'.total.trans h.total

theorem Shrinks.refl (t : ObjectTable Nat) : t.Shrinks t :=
  ⟨rfl, fun _ _ h => h, Nat.le_refl _, .inl rfl⟩

theorem Shrinks.trans (h : t.Shrinks t') (h' : t'.Shrinks t'') : t.Shrinks t'' where
  length := h'.length.trans h.length
  objects i c hc := h.objects i c (h'.objects i c hc)
  free := h.free.trans h'.free
  total := by
    have hfree := h'.free
    rcases h.total with heq | hlt <;> rcases h'.total with heq' | hlt' <;> omega

theorem freeSlots_set {n : Nat} {s s' : Slot Nat} (hs : t.slots[n]? = some s)
    (ht' : t'.slots = t.slots.set n s') :
    t'.freeSlots + (if s.object.isNone then 1 else 0) =
      t.freeSlots + (if s'.object.isNone then 1 else 0) := by
  obtain ⟨hn, hget⟩ := List.getElem?_eq_some_iff.mp hs
  have hone : s.object.isNone = true → 0 < t.freeSlots := fun hnone =>
    List.countP_pos_iff.mpr ⟨s, hget ▸ List.getElem_mem hn, hnone⟩
  have hset : t'.freeSlots = t.freeSlots - (if s.object.isNone then 1 else 0) +
      (if s'.object.isNone then 1 else 0) := by
    unfold freeSlots
    rw [ht', List.countP_set hn, hget]
  by_cases hnone : s.object.isNone = true
  · have hpos := hone hnone
    rw [hset, if_pos hnone]
    omega
  · rw [hset, if_neg hnone]
    omega

theorem grows_addObject {obj n : Nat} (h : t.addObject obj = some (n, t')) : t.Grows t' := by
  have hobjects := (recoverObject_addObject h).2
  obtain ⟨s, hs, ⟨-, hslots, hnum⟩ | ⟨hobj, hslots, hnum⟩⟩ := addObject_cases h
  · have hfree := freeSlots_set hs hslots
    have hsome : s.retain.object = s.object := rfl
    refine ⟨by simp [hslots], hobjects, ?_⟩
    rw [hnum, Nat.add_right_cancel hfree]
  · have hfree := freeSlots_set hs hslots
    refine ⟨by simp [hslots], hobjects, ?_⟩
    simp only [hobj, Slot.occupy, Option.isNone_none, Option.isNone_some, if_true,
      Bool.false_eq_true, if_false] at hfree
    omega

theorem shrinks_releaseHandle (t : ObjectTable Nat) (i : Nat) : t.Shrinks (t.releaseHandle i) := by
  cases hs : t.slots[i]? with
  | none =>
    have hsame : t.releaseHandle i = t := by simp [releaseHandle, hs]
    rw [hsame]
    exact .refl t
  | some s =>
    have hslots : (t.releaseHandle i).slots = t.slots.set i s.release := by
      simp [releaseHandle, hs]
    have hnum : (t.releaseHandle i).objectsNum =
        if s.object.isSome && s.release.object.isNone then t.objectsNum - 1
        else t.objectsNum := by
      simp [releaseHandle, hs]
    have hrelease : s.release.object = s.object ∨ s.release.object = none := by
      unfold Slot.release
      by_cases hz : s.refs - 1 = 0
      · exact .inr (by rw [dif_pos hz])
      · exact .inl (by rw [dif_neg hz])
    have hfree := freeSlots_set hs hslots
    refine ⟨by simp [hslots], fun j c hc => ?_, ?_, ?_⟩
    · rw [recoverObject_set hs hslots] at hc
      by_cases hj : j = i
      · rw [if_pos hj] at hc
        rcases hrelease with hkept | hnone
        · rw [hj, recoverObject, hs, Option.bind_some, ← hkept, hc]
        · cases hnone.symm.trans hc
      · rwa [if_neg hj] at hc
    · rcases hrelease with hkept | hnone
      · rw [hkept] at hfree
        omega
      · rw [hnone] at hfree
        cases ho : s.object <;> simp [ho] at hfree <;> omega
    · rw [hnum]
      rcases hrelease with hkept | hnone
      · rw [hkept] at hfree ⊢
        cases ho : s.object <;> simp at hfree ⊢ <;> omega
      · rw [hnone] at hfree ⊢
        cases ho : s.object <;> simp [ho] at hfree ⊢ <;> omega

theorem freeSlots_eq_of_objects (hlength : t'.slots.length = t.slots.length)
    (hobjects : ∀ i, t'.recoverObject i = t.recoverObject i) : t'.freeSlots = t.freeSlots := by
  have hmap : t'.slots.map Slot.object = t.slots.map Slot.object := by
    refine List.ext_getElem (by simpa using hlength) fun i hi hi' => ?_
    rw [List.length_map] at hi hi'
    have hi'' := hobjects i
    rw [recoverObject, recoverObject, List.getElem?_eq_getElem hi,
      List.getElem?_eq_getElem hi'] at hi''
    simpa using hi''
  have hcount : ∀ u : ObjectTable Nat, u.freeSlots = (u.slots.map Slot.object).countP Option.isNone :=
    fun u => by rw [List.countP_map]; rfl
  rw [hcount, hcount, hmap]

theorem Grows.same (h : t.Grows t') (h' : t'.Shrinks t'')
    (hrefs : ∀ i, t''.refCount i = t.refCount i) : t.Same t'' := by
  have hlength := h'.length.trans h.length
  have hobjects : ∀ i, t''.recoverObject i = t.recoverObject i := by
    intro i
    have hsome : (t''.recoverObject i).isSome ↔ (t.recoverObject i).isSome := by
      rw [← refCount_pos_iff, ← refCount_pos_iff, hrefs]
    cases hc : t.recoverObject i with
    | none => simpa [hc] using hsome
    | some c =>
      obtain ⟨c', hc'⟩ := Option.isSome_iff_exists.mp (hsome.mpr (by simp [hc]))
      have hmid := h'.objects i c' hc'
      rw [h.objects i c hc] at hmid
      rw [hc', ← Option.some.inj hmid]
  have hfree := freeSlots_eq_of_objects hlength hobjects
  refine ⟨hlength, hobjects, hrefs, ?_⟩
  have hgrown := h.total
  rcases h'.total with heq | hlt <;> omega

end ObjectTable

namespace Endpoint

variable {e e' : Endpoint}

theorem retain_objTable (e : Endpoint) (f : Nat) : (e.retain f).objTable = e.objTable := by
  unfold retain
  split <;> rfl

theorem release_objTable (e : Endpoint) (f : Nat) : (e.release f).objTable = e.objTable := by
  unfold release
  split <;> rfl

variable {outbound : Bool}

theorem grows_copyObjectToRemote {o : Object} {h : TIMessageObj}
    (hc : copyObjectToRemote outbound e o = .ok (e', h)) : e.objTable.Grows e'.objTable := by
  cases o with
  | null =>
    cases hc
    exact .refl _
  | forwarder f =>
    obtain ⟨rfl, rfl⟩ := hc
    cases outbound with
    | true =>
      rw [if_pos rfl, retain_objTable]
      exact .refl _
    | false => exact .refl _
  | own o =>
    obtain ⟨i, t, ha, rfl, -⟩ := copyObjectToRemote_own hc
    exact ObjectTable.grows_addObject ha

theorem grows_copyObjects {args : List Object} {hs : List TIMessageObj} {err : Option ObjectError}
    (hc : copyObjects (copyObjectToRemote outbound) args e = (e', hs, err)) :
    e.objTable.Grows e'.objTable := by
  induction args generalizing e hs with
  | nil =>
    cases hc
    exact .refl _
  | cons o os ih =>
    cases ho : copyObjectToRemote outbound e o with
    | error err' =>
      simp only [copyObjects, ho] at hc
      cases hc
      exact .refl _
    | ok r =>
      simp only [copyObjects, ho] at hc
      cases hc
      exact (grows_copyObjectToRemote ho).trans (ih rfl)

theorem shrinks_undoInbound (e : Endpoint) (p : Object × TIMessageObj) :
    e.objTable.Shrinks (undoInbound e p).objTable := by
  unfold undoInbound
  by_cases hn : p.1 = .null
  · rw [if_pos hn]
    exact .refl _
  · split_ifs with hr
    · exact e.objTable.shrinks_releaseHandle _
    · exact .refl _

theorem shrinks_undoOutbound (e : Endpoint) (p : Object × TIMessageObj) :
    e.objTable.Shrinks (undoOutbound e p).objTable := by
  obtain ⟨o, h⟩ := p
  cases o with
  | null => exact .refl _
  | forwarder f =>
    rw [undoOutbound, release_objTable]
    exact .refl _
  | own o => exact e.objTable.shrinks_releaseHandle _

theorem shrinks_foldl {undo : Endpoint → Object × TIMessageObj → Endpoint}
    (hundo : ∀ (e : Endpoint) p, e.objTable.Shrinks (undo e p).objTable)
    (ps : List (Object × TIMessageObj)) :
    e.objTable.Shrinks (ps.foldl undo e).objTable := by
  induction ps generalizing e with
  | nil => exact .refl _
  | cons p ps ih => exact (hundo e p).trans ih

theorem CopiesOut.grows_shrinks {undo : Endpoint → Object × TIMessageObj → Endpoint}
    {args : List Object} {r : Except ObjectError (List TIMessageObj)}
    (hundo : ∀ (e : Endpoint) p, e.objTable.Shrinks (undo e p).objTable)
    (h : CopiesOut outbound undo args e e' r) :
    ∃ t, e.objTable.Grows t ∧ t.Shrinks e'.objTable := by
  cases h with
  | refused err => exact ⟨_, .refl _, .refl _⟩
  | copied hc => exact ⟨_, grows_copyObjects hc, .refl _⟩
  | rolledBack hc => exact ⟨_, grows_copyObjects hc, shrinks_foldl hundo _⟩

/-- A marshalling that fails leaves the table as it was. -/
theorem marshal_rolls_back (e e' : Endpoint) (buffers : Option ObjectError) (args : List Object)
    (err : ObjectError)
    (h : e.outboundMarshalIn buffers args = (e', .error err) ∨
      e.inboundMarshalOut buffers args = (e', .error err)) :
    e.objTable.Same e'.objTable := by
  have hrefs : ∀ i, e'.objTable.refCount i = e.objTable.refCount i := by
    intro i
    have hchanged : e.Changed e' [] [] := by
      rcases h with h | h
      · exact outboundMarshalIn_changed h
      · exact inboundMarshalOut_changed h
    simpa using hchanged.refs i
  have hmid : ∃ t, e.objTable.Grows t ∧ t.Shrinks e'.objTable := by
    rcases h with h | h
    · exact (outboundMarshalIn_copiesOut h).grows_shrinks shrinks_undoOutbound
    · exact (inboundMarshalOut_copiesOut h).grows_shrinks shrinks_undoInbound
  obtain ⟨t, hgrows, hshrinks⟩ := hmid
  exact hgrows.same hshrinks hrefs

def nearlyFull : Endpoint :=
  ⟨⟨[.occupy 1, .empty], 1, by decide⟩, [⟨1, 4⟩], []⟩

def oneTooMany : List Object :=
  [.own 1, .own 2, .null, .forwarder 0, .own 2, .own 1, .own 3]

theorem marshal_rolls_back_nearlyFull :
    ((nearlyFull.outboundMarshalIn none oneTooMany).2 = .error .noSlots ∧
      nearlyFull.objTable.Same (nearlyFull.outboundMarshalIn none oneTooMany).1.objTable) ∧
    (nearlyFull.inboundMarshalOut none oneTooMany).2 = .error .noSlots ∧
      nearlyFull.objTable.Same (nearlyFull.inboundMarshalOut none oneTooMany).1.objTable :=
  ⟨⟨rfl, marshal_rolls_back _ _ none oneTooMany .noSlots (.inl rfl)⟩,
    rfl, marshal_rolls_back _ _ none oneTooMany .noSlots (.inr rfl)⟩

end Endpoint

end MinkIpc.TunnelInvoke
