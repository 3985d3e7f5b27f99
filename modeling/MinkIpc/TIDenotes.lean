import MinkIpc.TIAccounting

/-! Which objects of the two endpoints of a tunnel are the same: null, a forwarder for an object of
the sender, or an object of the receiver. -/

namespace MinkIpc.TunnelInvoke

/-- The object `o` of `a` and the object `o'` of `b` are the same. -/
def Denotes (a b : Endpoint) : Object → Object → Prop
  | .null, .null => True
  | .own c, .forwarder f =>
    ∃ t, b.tifs[f]? = some t ∧ a.objTable.recoverObject t.remoteObjectIndex = some c
  | .forwarder f, .own c => b.objTable.recoverObject (a.index f) = some c
  | _, _ => False

def Names (e : Endpoint) : Object → TIMessageObj → Prop
  | .null, h => h = gNullTIMessageObj
  | .own c, h => ∃ i, i + 1 < 2 ^ 31 ∧ h = markRemoteInDestDomain (indexToHandle i) ∧
      e.objTable.recoverObject i = some c
  | .forwarder f, h => h = markLocalInDestDomain (indexToHandle (e.index f))

structure Keeps (e e' : Endpoint) : Prop where
  index : ∀ f, e'.index f = e.index f
  table : ∀ i c, e.objTable.recoverObject i = some c → e'.objTable.recoverObject i = some c

section Table

variable {t t' : ObjectTable Nat} {obj i n c : Nat}

theorem ObjectTable.recoverObject_set {s s' : Slot Nat} (hs : t.slots[n]? = some s)
    (ht' : t'.slots = t.slots.set n s') : t'.recoverObject i =
      if i = n then s'.object else t.recoverObject i := by
  obtain ⟨hn, -⟩ := List.getElem?_eq_some_iff.mp hs
  unfold ObjectTable.recoverObject
  rw [ht', List.getElem?_set]
  by_cases hi : i = n
  · rw [if_pos hi.symm, if_pos hi, if_pos hn, Option.bind_some]
  · rw [if_neg (Ne.symm hi), if_neg hi]

theorem ObjectTable.recoverObject_addObject (h : t.addObject obj = some (n, t')) :
    t'.recoverObject n = some obj ∧
      ∀ i c, t.recoverObject i = some c → t'.recoverObject i = some c := by
  have hat : ∀ s s', t.slots[n]? = some s → t'.slots = t.slots.set n s' → s'.object = some obj →
      (∀ c, s.object = some c → c = obj) → t'.recoverObject n = some obj ∧
        ∀ i c, t.recoverObject i = some c → t'.recoverObject i = some c := by
    intro s s' hs ht' hobj hold
    refine ⟨by rw [ObjectTable.recoverObject_set hs ht', if_pos rfl, hobj], fun i c hc => ?_⟩
    rw [ObjectTable.recoverObject_set hs ht']
    by_cases hi : i = n
    · subst hi
      rw [ObjectTable.recoverObject, hs] at hc
      rw [if_pos rfl, hobj, hold c hc]
    · rw [if_neg hi, hc]
  obtain ⟨s, hs, ⟨hobj, hslots, -⟩ | ⟨hobj, hslots, -⟩⟩ := ObjectTable.addObject_cases h
  · refine hat s s.retain hs hslots hobj fun c hc => ?_
    exact Option.some.inj (hc.symm.trans hobj)
  · refine hat s (.occupy obj) hs hslots rfl fun c hc => ?_
    cases hobj.symm.trans hc

theorem ObjectTable.lt_of_recoverObject (h : (t.recoverObject i).isSome) : i + 1 < 2 ^ 31 :=
  ObjectTable.lt_of_refCount_pos ((t.refCount_pos_iff i).mpr h)

end Table

section Keeps

variable {e e' e'' : Endpoint}

theorem Keeps.refl (e : Endpoint) : Keeps e e := ⟨fun _ => rfl, fun _ _ h => h⟩

theorem Keeps.trans (h : Keeps e e') (h' : Keeps e' e'') : Keeps e e'' :=
  ⟨fun f => (h'.index f).trans (h.index f), fun i c hc => h'.table i c (h.table i c hc)⟩

theorem Keeps.names (h : Keeps e e') {o : Object} {handle : TIMessageObj} (hn : Names e o handle) :
    Names e' o handle := by
  cases o with
  | null => exact hn
  | own c =>
    obtain ⟨i, hi, hhandle, hc⟩ := hn
    exact ⟨i, hi, hhandle, h.table i c hc⟩
  | forwarder f => rwa [Names, h.index f]

theorem index_set {f : Nat} {t t' : TIF} (ht : e.tifs[f]? = some t)
    (hindex : t'.remoteObjectIndex = t.remoteObjectIndex) (g : Nat) :
    ((e.tifs.set f t')[g]?.map TIF.remoteObjectIndex).getD 0 = e.index g := by
  obtain ⟨hf, -⟩ := List.getElem?_eq_some_iff.mp ht
  unfold Endpoint.index
  rw [List.getElem?_set]
  by_cases hg : f = g
  · subst hg
    rw [if_pos rfl, if_pos hf, ht, Option.map_some, Option.map_some, hindex]
  · rw [if_neg hg]

theorem keeps_retain (e : Endpoint) (f : Nat) : Keeps e (e.retain f) := by
  unfold Endpoint.retain
  split
  · rename_i hf
    exact ⟨index_set hf rfl, fun _ _ h => h⟩
  · exact .refl e

theorem keeps_release (e : Endpoint) (f : Nat) : Keeps e (e.release f) := by
  unfold Endpoint.release
  split
  · rename_i hf
    exact ⟨index_set hf rfl, fun _ _ h => h⟩
  · rename_i hf
    exact ⟨index_set hf rfl, fun _ _ h => h⟩
  · exact .refl e

theorem keeps_releaseObjects (e : Endpoint) (os : List Object) : Keeps e (e.releaseObjects os) := by
  induction os generalizing e with
  | nil => exact .refl e
  | cons o os ih =>
    have hhead : Keeps e (e.releaseObject o) := by
      cases o with
      | forwarder f => exact keeps_release e f
      | _ => exact .refl e
    exact hhead.trans (ih _)

end Keeps

section ToRemote

variable {e e' : Endpoint} {outbound : Bool}

theorem names_copyObjectToRemote {o : Object} {h : TIMessageObj}
    (hc : e.copyObjectToRemote outbound o = .ok (e', h)) : Keeps e e' ∧ Names e' o h := by
  cases o with
  | null =>
    cases hc
    exact ⟨.refl e, rfl⟩
  | forwarder f =>
    obtain ⟨rfl, rfl⟩ := hc
    cases outbound with
    | true => exact ⟨keeps_retain e f, by rw [Names, if_pos rfl, (keeps_retain e f).index]⟩
    | false => exact ⟨.refl e, rfl⟩
  | own c =>
    obtain ⟨i, t, hadd, rfl, rfl⟩ := Endpoint.copyObjectToRemote_own hc
    obtain ⟨hat, hold⟩ := ObjectTable.recoverObject_addObject hadd
    exact ⟨⟨fun _ => rfl, hold⟩, i, ObjectTable.addObject_lt hadd, rfl, hat⟩

theorem names_copyObjects {os : List Object} {hs : List TIMessageObj}
    (hc : Endpoint.copyObjects (Endpoint.copyObjectToRemote outbound) os e = (e', hs, none)) :
    Keeps e e' ∧ List.Forall₂ (Names e') os hs := by
  induction os generalizing e hs with
  | nil =>
    cases hc
    exact ⟨.refl _, .nil⟩
  | cons o os ih =>
    cases ho : e.copyObjectToRemote outbound o with
    | error err => simp [Endpoint.copyObjects, ho] at hc
    | ok r =>
      simp only [Endpoint.copyObjects, ho, Prod.mk.injEq] at hc
      obtain ⟨rfl, rfl, hnone⟩ := hc
      obtain ⟨hhead, hname⟩ := names_copyObjectToRemote ho
      obtain ⟨htail, hnames⟩ := ih (Prod.ext rfl (Prod.ext rfl hnone))
      exact ⟨hhead.trans htail, .cons (htail.names hname) hnames⟩

end ToRemote

section FromRemote

variable {a b : Endpoint} {o : Object} {h : TIMessageObj}

def Held (a b : Endpoint) (o : Object) : Prop :=
  ∀ f, o = .forwarder f → (b.objTable.recoverObject (a.index f)).isSome

theorem denotes_copyObjectFromRemote (hn : Names a o h) (hheld : Held a b o) :
    ∃ b' o', b.copyObjectFromRemote (h, true) = .ok (b', o') ∧ Denotes a b' o o' ∧
      b'.objTable = b.objTable ∧ b.tifs <+: b'.tifs := by
  unfold Endpoint.copyObjectFromRemote
  cases o with
  | null =>
    obtain rfl : h = gNullTIMessageObj := hn
    exact ⟨b, .null, rfl, trivial, rfl, List.prefix_rfl⟩
  | own c =>
    obtain ⟨i, hi, rfl, hc⟩ := hn
    have hremote := isRemote_markRemote (indexToHandle i)
    have hne : markRemoteInDestDomain (indexToHandle i) ≠ gNullTIMessageObj := by
      intro hnull
      rw [hnull] at hremote
      cases hremote
    have hindex : handleToIndex (markRemoteInDestDomain (indexToHandle i)) = i := by
      rw [handleToIndex, markLocal_markRemote]
      exact handleToIndex_indexToHandle hi
    rw [if_neg hne, if_pos hremote]
    refine ⟨_, _, rfl, ⟨⟨1, i⟩, ?_, hc⟩, rfl, List.prefix_append _ _⟩
    simp [hindex]
  | forwarder f =>
    have hsome := hheld f rfl
    obtain ⟨c, hc⟩ := Option.isSome_iff_exists.mp hsome
    have hlt := ObjectTable.lt_of_recoverObject hsome
    obtain rfl := hn
    have hindex : handleToIndex (markLocalInDestDomain (indexToHandle (a.index f))) = a.index f := by
      have hlocal : markLocalInDestDomain (markLocalInDestDomain (indexToHandle (a.index f))) =
          markLocalInDestDomain (indexToHandle (a.index f)) := by
        rw [← UInt32.toNat_inj, toNat_markLocalInDestDomain, toNat_markLocalInDestDomain,
          Nat.mod_mod]
      rw [handleToIndex, hlocal]
      exact handleToIndex_indexToHandle hlt
    have hne : markLocalInDestDomain (indexToHandle (a.index f)) ≠ gNullTIMessageObj := by
      intro hnull
      have hnat := congrArg UInt32.toNat hnull
      rw [toNat_markLocalInDestDomain, indexToHandle, UInt32.toNat_ofNat'] at hnat
      have hzero : (gNullTIMessageObj).toNat = 0 := rfl
      omega
    rw [if_neg hne, if_neg (by rw [isRemote_markLocal]; exact Bool.false_ne_true), hindex, hc]
    exact ⟨b, .own c, rfl, hc, rfl, List.prefix_rfl⟩

theorem Denotes.extend {b' : Endpoint} {o' : Object} (hd : Denotes a b o o')
    (htable : b'.objTable = b.objTable) (htifs : b.tifs <+: b'.tifs) : Denotes a b' o o' := by
  cases o with
  | null => cases o' <;> exact hd
  | own c =>
    cases o' with
    | forwarder f =>
      obtain ⟨t, ht, hc⟩ := hd
      obtain ⟨rest, hrest⟩ := htifs
      obtain ⟨hf, -⟩ := List.getElem?_eq_some_iff.mp ht
      exact ⟨t, by rw [← hrest, List.getElem?_append_left hf, ht], hc⟩
    | _ => exact hd.elim
  | forwarder f =>
    cases o' with
    | own c => rwa [Denotes, htable]
    | _ => exact hd.elim

theorem denotes_copyObjects {os : List Object} {hs : List TIMessageObj}
    (hnames : List.Forall₂ (Names a) os hs) (hheld : ∀ o ∈ os, Held a b o) :
    ∃ b' os', Endpoint.copyObjects Endpoint.copyObjectFromRemote (hs.map (·, true)) b =
        (b', os', none) ∧ List.Forall₂ (Denotes a b') os os' ∧ b'.objTable = b.objTable ∧
      b.tifs <+: b'.tifs := by
  induction hnames generalizing b with
  | nil => exact ⟨b, [], rfl, .nil, rfl, List.prefix_rfl⟩
  | cons hn _ ih =>
    obtain ⟨b₁, o', hcopy, hd, htable, htifs⟩ :=
      denotes_copyObjectFromRemote hn (hheld _ List.mem_cons_self)
    have hheld₁ : ∀ o ∈ _, Held a b₁ o := fun o ho f hf => by
      rw [htable]
      exact hheld o (List.mem_cons_of_mem _ ho) f hf
    obtain ⟨b₂, os', hrest, hds, htable', htifs'⟩ := ih hheld₁
    refine ⟨b₂, o' :: os', ?_, .cons (hd.extend htable' htifs') hds, htable'.trans htable,
      htifs.trans htifs'⟩
    simp only [List.map_cons, Endpoint.copyObjects, hcopy, hrest]

end FromRemote

end MinkIpc.TunnelInvoke
