import Mathlib.Data.Nat.Bitwise
import MinkIpc.TIMessage

/-! What passing objects does to the books of an endpoint: the references its table counts for each
own object, and the forwarders with which it names each object of the peer. -/

namespace MinkIpc.TunnelInvoke

open TwoParty List

def exported (h : TIMessageObj) : List Nat :=
  if isRemoteInDestDomain h then [handleToIndex h] else []

def exports (hs : List TIMessageObj) : List Nat := hs.flatMap exported

def Object.isOwn : Object → Bool
  | .own _ => true
  | _ => false

def Object.own? : Object → Option Nat
  | .own o => some o
  | _ => none

def TIF.names (i : Nat) (t : TIF) : Nat := if 0 < t.refs ∧ t.remoteObjectIndex = i then 1 else 0

/-- An argument that the receiver can copy: it has memory for a forwarder, or its table still has
the object. -/
def Copyable (t : ObjectTable Nat) (arg : TIMessageObj × Bool) : Prop :=
  arg.1 = gNullTIMessageObj ∨
    if isRemoteInDestDomain arg.1 then arg.2 = true
    else (t.recoverObject (handleToIndex arg.1)).isSome

instance (t : ObjectTable Nat) (arg : TIMessageObj × Bool) : Decidable (Copyable t arg) :=
  inferInstanceAs (Decidable (_ ∨ _))

def NoneAfterExport (t : ObjectTable Nat) (args : List (TIMessageObj × Bool)) : Prop :=
  args.Pairwise fun a b => isRemoteInDestDomain a.1 → Copyable t b

def NoneUpToExport (t : ObjectTable Nat) (args : List (TIMessageObj × Bool)) : Prop :=
  (∀ a ∈ args, isRemoteInDestDomain a.1 → Copyable t a) ∧
    args.Pairwise fun a b => isRemoteInDestDomain b.1 → Copyable t a

instance (t : ObjectTable Nat) (args : List (TIMessageObj × Bool)) :
    Decidable (NoneAfterExport t args) :=
  inferInstanceAs (Decidable (args.Pairwise _))

instance (t : ObjectTable Nat) (args : List (TIMessageObj × Bool)) :
    Decidable (NoneUpToExport t args) :=
  inferInstanceAs (Decidable (_ ∧ _))

namespace Endpoint

def live (e : Endpoint) (i : Nat) : Nat := (e.tifs.map (TIF.names i)).sum

def named (e : Endpoint) (i : Nat) : Nat := e.live i + e.deleted.count i

/-- From `e` to `e'` the table counts `counted` in addition, and `named` is named. -/
structure Changed (e e' : Endpoint) (counted named : List Nat) : Prop where
  refs : ∀ j, e'.objTable.refCount j = e.objTable.refCount j + counted.count j
  named : ∀ j, e'.named j = e.named j + named.count j

end Endpoint

section Handles

theorem toNat_markLocalInDestDomain (h : TIMessageObj) :
    (markLocalInDestDomain h).toNat = h.toNat % 2 ^ 31 := by
  have hmask : (~~~remoteInDestDomain).toNat = 2 ^ 31 - 1 := by decide
  rw [markLocalInDestDomain, UInt32.toNat_and, hmask, Nat.and_two_pow_sub_one_eq_mod]

theorem markLocal_markRemote (h : TIMessageObj) :
    markLocalInDestDomain (markRemoteInDestDomain h) = markLocalInDestDomain h := by
  have hbit : remoteInDestDomain.toNat % 2 ^ 31 = 0 := by decide
  rw [← UInt32.toNat_inj, toNat_markLocalInDestDomain, toNat_markLocalInDestDomain,
    markRemoteInDestDomain, UInt32.toNat_or, Nat.or_mod_two_pow, hbit, Nat.or_zero]

theorem isRemote_markRemote (h : TIMessageObj) :
    isRemoteInDestDomain (markRemoteInDestDomain h) = true := by
  have hbit : (h ||| remoteInDestDomain) &&& remoteInDestDomain = remoteInDestDomain := by
    rw [← UInt32.toBitVec_inj]
    ext i
    simp only [UInt32.toBitVec_and, BitVec.getElem_and]
    exact Bool.and_eq_right_iff_imp.mpr fun hi => by simp [hi]
  rw [isRemoteInDestDomain, markRemoteInDestDomain, hbit]
  decide

theorem isRemote_markLocal (h : TIMessageObj) :
    isRemoteInDestDomain (markLocalInDestDomain h) = false := by
  unfold isRemoteInDestDomain markLocalInDestDomain
  rw [UInt32.and_assoc]
  simp

theorem handleToIndex_indexToHandle {i : Nat} (h : i + 1 < 2 ^ 31) :
    handleToIndex (indexToHandle i) = i := by
  have hx : (markLocalInDestDomain (indexToHandle i)).toNat = i + 1 := by
    rw [toNat_markLocalInDestDomain, indexToHandle, UInt32.toNat_ofNat']
    omega
  unfold handleToIndex
  rw [UInt32.toNat_sub_of_le]
  · rw [hx]
    simp
  · rw [UInt32.le_iff_toNat_le, hx]
    simp

theorem exported_markRemote {i : Nat} (h : i + 1 < 2 ^ 31) :
    exported (markRemoteInDestDomain (indexToHandle i)) = [i] := by
  rw [exported, isRemote_markRemote, handleToIndex, markLocal_markRemote]
  exact congrArg (fun n => [n]) (handleToIndex_indexToHandle h)

theorem exported_of_isRemote_eq_false {h : TIMessageObj} (hr : isRemoteInDestDomain h = false) :
    exported h = [] := by
  rw [exported, hr, if_neg Bool.false_ne_true]

end Handles

namespace Endpoint

variable {e e' e'' : Endpoint}

theorem Changed.refl (e : Endpoint) : e.Changed e [] [] := ⟨by simp, by simp⟩

theorem Changed.trans {c c' n n' : List Nat} (h : e.Changed e' c n) (h' : e'.Changed e'' c' n') :
    e.Changed e'' (c ++ c') (n ++ n') where
  refs j := by rw [h'.refs, h.refs, count_append]; omega
  named j := by rw [h'.named, h.named, count_append]; omega

theorem live_set {f : Nat} {t : TIF} (h : e.tifs[f]? = some t) (t' : TIF) (j : Nat) :
    ((e.tifs.set f t').map (TIF.names j)).sum + t.names j = e.live j + t'.names j := by
  have hset := sum_map_set (TIF.names j) h t'
  have herase := sum_map_eraseIdx (TIF.names j) h
  unfold live
  omega

theorem retain_changed (e : Endpoint) (f : Nat) : e.Changed (e.retain f) [] [] := by
  unfold retain
  split
  · rename_i refs index hf
    refine ⟨by simp, fun j => ?_⟩
    have hset := live_set hf ⟨refs + 2, index⟩ j
    simp only [TIF.names, Nat.zero_lt_succ] at hset
    simp only [named, live, count_nil] at hset ⊢
    omega
  · exact .refl e

theorem release_changed (e : Endpoint) (f : Nat) : e.Changed (e.release f) [] [] := by
  unfold release
  split
  · rename_i index hf
    refine ⟨by simp, fun j => ?_⟩
    have hset := live_set hf ⟨0, index⟩ j
    have hcount : [index].count j = if index = j then 1 else 0 := by
      simp [count_singleton]
    simp only [TIF.names, Nat.zero_lt_one, Nat.lt_irrefl, true_and, false_and, if_false] at hset
    simp only [named, live, count_nil, count_append] at hset ⊢
    omega
  · rename_i refs index hf
    refine ⟨by simp, fun j => ?_⟩
    have hset := live_set hf ⟨refs + 1, index⟩ j
    simp only [TIF.names, Nat.zero_lt_succ] at hset
    simp only [named, live, count_nil] at hset ⊢
    omega
  · exact .refl e

theorem releaseObject_changed (e : Endpoint) (o : Object) : e.Changed (e.releaseObject o) [] [] := by
  cases o with
  | forwarder f => exact e.release_changed f
  | _ => exact .refl e

theorem releaseObjects_changed (e : Endpoint) (os : List Object) :
    e.Changed (e.releaseObjects os) [] [] := by
  induction os generalizing e with
  | nil => exact .refl e
  | cons o os ih => exact (e.releaseObject_changed o).trans (ih _)

theorem newTIF_changed (e : Endpoint) (index : Nat) : e.Changed (e.newTIF index).1 [] [index] := by
  refine ⟨by simp [newTIF], fun j => ?_⟩
  simp only [newTIF, named, live, map_append, sum_append, map_singleton,
    sum_singleton, TIF.names, Nat.zero_lt_one, true_and, count_singleton, beq_iff_eq]
  omega

theorem releaseHandle_changed {i : Nat} (h : 0 < e.objTable.refCount i) :
    (e.releaseHandle i).Changed e [i] [] := by
  refine ⟨fun j => ?_, fun j => by simp [releaseHandle, named, live]⟩
  have hrel := ObjectTable.refCount_releaseHandle h j
  simp only [releaseHandle, hrel]
  by_cases hj : j = i
  · simp [hj]
  · simp [hj, Ne.symm hj]

variable {outbound : Bool} {arg : TIMessageObj × Bool} {args : List Object} {hs : List TIMessageObj}
  {err buffers : Option ObjectError} {t : ObjectTable Nat}

theorem copyObjectToRemote_own {o : Nat} {h : TIMessageObj}
    (hc : copyObjectToRemote outbound e (.own o) = .ok (e', h)) :
    ∃ i t, e.objTable.addObject o = some (i, t) ∧ e' = { e with objTable := t } ∧
      h = markRemoteInDestDomain (indexToHandle i) := by
  cases ha : e.objTable.addObject o with
  | none => simp [copyObjectToRemote, ha] at hc
  | some r =>
    obtain ⟨i, t⟩ := r
    simp only [copyObjectToRemote, ha] at hc
    obtain ⟨rfl, rfl⟩ := hc
    exact ⟨i, t, rfl, rfl, rfl⟩

theorem copyObjectToRemote_changed {o : Object} {h : TIMessageObj}
    (hc : copyObjectToRemote outbound e o = .ok (e', h)) :
    e.Changed e' (exported h) [] ∧ isRemoteInDestDomain h = o.isOwn := by
  cases o with
  | null =>
    cases hc
    exact ⟨.refl e, rfl⟩
  | forwarder f =>
    obtain ⟨rfl, rfl⟩ := hc
    rw [exported_of_isRemote_eq_false (isRemote_markLocal _)]
    refine ⟨?_, isRemote_markLocal _⟩
    cases outbound with
    | true => exact e.retain_changed f
    | false => exact .refl e
  | own o =>
    obtain ⟨i, t, ha, rfl, rfl⟩ := copyObjectToRemote_own hc
    rw [exported_markRemote (ObjectTable.addObject_lt ha)]
    refine ⟨⟨fun j => ?_, fun j => by simp [named, live]⟩, isRemote_markRemote _⟩
    rw [ObjectTable.refCount_addObject ha j]
    by_cases hj : j = i
    · simp [hj]
    · simp [hj, Ne.symm hj]

theorem copyObjectFromRemote_changed {o : Object} (hc : copyObjectFromRemote e arg = .ok (e', o)) :
    e.Changed e' [] (exported arg.1) ∧ e'.objTable = e.objTable := by
  unfold copyObjectFromRemote at hc
  by_cases hn : arg.1 = gNullTIMessageObj
  · rw [if_pos hn] at hc
    cases hc
    rw [hn]
    exact ⟨.refl e, rfl⟩
  · rw [if_neg hn] at hc
    cases hr : isRemoteInDestDomain arg.1 with
    | true =>
      rw [if_pos hr] at hc
      by_cases hm : arg.2 = true
      · rw [if_pos hm] at hc
        cases hc
        rw [exported, if_pos hr]
        exact ⟨e.newTIF_changed _, rfl⟩
      · rw [if_neg hm] at hc
        cases hc
    | false =>
      rw [hr] at hc
      rw [exported_of_isRemote_eq_false hr]
      cases ho : e.objTable.recoverObject (handleToIndex arg.1) with
      | none => simp [ho] at hc
      | some o =>
        simp only [ho] at hc
        cases hc
        exact ⟨.refl e, rfl⟩

theorem copyObjects_toRemote
    (hc : copyObjects (copyObjectToRemote outbound) args e = (e', hs, err)) :
    e.Changed e' (exports hs) [] ∧ hs.length ≤ args.length ∧
      ∀ p ∈ args.zip hs, isRemoteInDestDomain p.2 = p.1.isOwn := by
  induction args generalizing e hs with
  | nil =>
    cases hc
    exact ⟨.refl _, Nat.le_refl _, by simp⟩
  | cons o os ih =>
    cases ho : copyObjectToRemote outbound e o with
    | error err =>
      simp only [copyObjects, ho] at hc
      cases hc
      exact ⟨.refl _, Nat.zero_le _, by simp⟩
    | ok r =>
      simp only [copyObjects, ho] at hc
      cases hc
      obtain ⟨hhead, hown⟩ := copyObjectToRemote_changed ho
      obtain ⟨htail, hlen, hzip⟩ := ih rfl
      refine ⟨hhead.trans htail, by simpa using hlen, ?_⟩
      intro p hp
      rcases mem_cons.mp hp with rfl | hp
      · exact hown
      · exact hzip p hp

theorem copyObjects_fromRemote {args : List (TIMessageObj × Bool)} {os : List Object}
    (hc : copyObjects copyObjectFromRemote args e = (e', os, err)) :
    e.Changed e' [] (exports ((args.take os.length).map Prod.fst)) ∧ e'.objTable = e.objTable ∧
      (err = none → os.length = args.length) ∧
      (err ≠ none → ∃ arg e₁ err', args[os.length]? = some arg ∧ e₁.objTable = e.objTable ∧
        copyObjectFromRemote e₁ arg = .error err') := by
  induction args generalizing e os with
  | nil =>
    cases hc
    exact ⟨.refl _, rfl, fun _ => rfl, absurd rfl⟩
  | cons a as ih =>
    cases ha : copyObjectFromRemote e a with
    | error err' =>
      simp only [copyObjects, ha] at hc
      cases hc
      exact ⟨.refl _, rfl, nofun, fun _ => ⟨a, _, err', rfl, rfl, ha⟩⟩
    | ok r =>
      simp only [copyObjects, ha] at hc
      cases hc
      obtain ⟨hhead, htable⟩ := copyObjectFromRemote_changed ha
      obtain ⟨htail, htable', hok, herr⟩ := ih rfl
      refine ⟨hhead.trans htail, htable'.trans htable, fun h => ?_, fun h => ?_⟩
      · simpa using hok h
      · obtain ⟨arg, e₂, err', harg, he₂, hcopy⟩ := herr h
        exact ⟨arg, e₂, err', harg, he₂.trans htable, hcopy⟩

theorem foldl_undo {α : Type} {undo : Endpoint → α → Endpoint} {ex : α → List Nat} {p : α → Prop}
    (hundo : ∀ e a, p a → (∀ i ∈ ex a, 0 < e.objTable.refCount i) → (undo e a).Changed e (ex a) [])
    (as : List α) (hok : ∀ a ∈ as, p a)
    (hcount : ∀ j, ((as.flatMap ex).count j : Int) ≤ e.objTable.refCount j) :
    (as.foldl undo e).Changed e (as.flatMap ex) [] := by
  induction as generalizing e with
  | nil => exact .refl e
  | cons a as ih =>
    have hsplit : ∀ j, ((a :: as).flatMap ex).count j = (ex a).count j + (as.flatMap ex).count j := by
      intro j
      rw [flatMap_cons, count_append]
    have hpos : ∀ i ∈ ex a, 0 < e.objTable.refCount i := by
      intro i hi
      have hle := hcount i
      have hmem := count_pos_iff.mpr hi
      rw [hsplit] at hle
      omega
    have hhead := hundo e a (hok a mem_cons_self) hpos
    have htail := ih (fun b hb => hok b (mem_cons_of_mem a hb)) (e := undo e a) (by
      intro j
      have hle := hcount j
      have hrefs := hhead.refs j
      rw [hsplit] at hle
      omega)
    rw [foldl_cons]
    refine ⟨fun j => ?_, fun j => ?_⟩
    · rw [hsplit, hhead.refs, htail.refs]
      omega
    · rw [hhead.named, htail.named]
      simp

theorem undoInbound_changed (p : Object × TIMessageObj) (hp : isRemoteInDestDomain p.2 = p.1.isOwn)
    (hpos : ∀ i ∈ exported p.2, 0 < e.objTable.refCount i) :
    (undoInbound e p).Changed e (exported p.2) [] := by
  unfold undoInbound
  by_cases hn : p.1 = .null
  · rw [if_pos hn, exported_of_isRemote_eq_false (by rw [hp, hn]; rfl)]
    exact .refl e
  rw [if_neg hn]
  cases hr : isRemoteInDestDomain p.2 with
  | true =>
    rw [exported, if_pos hr]
    exact releaseHandle_changed (hpos _ (by simp [exported, hr]))
  | false =>
    rw [exported_of_isRemote_eq_false hr]
    exact .refl e

theorem undoOutbound_changed (p : Object × TIMessageObj) (hp : isRemoteInDestDomain p.2 = p.1.isOwn)
    (hpos : ∀ i ∈ exported p.2, 0 < e.objTable.refCount i) :
    (undoOutbound e p).Changed e (exported p.2) [] := by
  obtain ⟨o, h⟩ := p
  cases o with
  | null =>
    rw [exported_of_isRemote_eq_false hp]
    exact .refl e
  | forwarder f =>
    rw [exported_of_isRemote_eq_false hp]
    have hrel := e.release_changed f
    exact ⟨fun j => (hrel.refs j).symm ▸ by simp, fun j => (hrel.named j).symm ▸ by simp⟩
  | own o =>
    have hr : isRemoteInDestDomain h = true := hp
    rw [exported, if_pos hr]
    exact releaseHandle_changed (hpos _ (by simp [exported, hr]))

theorem rollback_changed {undo : Endpoint → Object × TIMessageObj → Endpoint}
    (hundo : ∀ e p, isRemoteInDestDomain p.2 = p.1.isOwn →
      (∀ i ∈ exported p.2, 0 < e.objTable.refCount i) → (undo e p).Changed e (exported p.2) [])
    (hc : copyObjects (copyObjectToRemote outbound) args e = (e', hs, err)) :
    e.Changed ((args.zip hs).foldl undo e') [] [] := by
  obtain ⟨hcopy, hlen, hzip⟩ := copyObjects_toRemote hc
  have hexports : (args.zip hs).flatMap (fun p => exported p.2) = exports hs := by
    rw [← flatMap_map, map_snd_zip hlen]
    rfl
  have hback := foldl_undo hundo (args.zip hs) hzip (e := e') (by
    intro j
    have hrefs := hcopy.refs j
    have hnonneg := e.objTable.refCount_nonneg j
    rw [hexports]
    omega)
  rw [hexports] at hback
  refine ⟨fun j => ?_, fun j => ?_⟩
  · have h₁ := hcopy.refs j
    have h₂ := hback.refs j
    rw [count_nil]
    omega
  · have h₁ := hcopy.named j
    have h₂ := hback.named j
    rw [count_nil] at h₁ h₂ ⊢
    omega

inductive CopiesOut (outbound : Bool) (undo : Endpoint → Object × TIMessageObj → Endpoint)
    (args : List Object) (e : Endpoint) : Endpoint → Except ObjectError (List TIMessageObj) → Prop
  | refused (err : ObjectError) : CopiesOut outbound undo args e e (.error err)
  | copied {e' : Endpoint} {hs : List TIMessageObj}
      (h : copyObjects (copyObjectToRemote outbound) args e = (e', hs, none)) :
      CopiesOut outbound undo args e e' (.ok hs)
  | rolledBack {e' : Endpoint} {hs : List TIMessageObj} {err : ObjectError}
      (h : copyObjects (copyObjectToRemote outbound) args e = (e', hs, some err)) :
      CopiesOut outbound undo args e ((args.zip hs).foldl undo e') (.error err)

section CopiesOut

variable {outbound : Bool} {undo : Endpoint → Object × TIMessageObj → Endpoint}
  {buffers : Option ObjectError} {args : List Object} {r : Except ObjectError (List TIMessageObj)}

theorem outboundMarshalIn_copiesOut (h : e.outboundMarshalIn buffers args = (e', r)) :
    CopiesOut true undoOutbound args e e' r := by
  unfold outboundMarshalIn at h
  cases buffers with
  | some err =>
    cases h
    exact .refused err
  | none =>
    simp only at h
    split at h
    · rename_i hc
      cases h
      exact .copied hc
    · rename_i hc
      cases h
      exact .rolledBack hc

theorem inboundMarshalOut_copiesOut (h : e.inboundMarshalOut buffers args = (e', r)) :
    CopiesOut false undoInbound args e e' r := by
  unfold inboundMarshalOut at h
  cases buffers with
  | some err =>
    cases h
    exact .refused err
  | none =>
    simp only at h
    split at h
    · rename_i hc
      cases h
      exact .copied hc
    · rename_i hc
      cases h
      exact .rolledBack hc

theorem CopiesOut.changed (hundo : ∀ e p, isRemoteInDestDomain p.2 = p.1.isOwn →
      (∀ i ∈ exported p.2, 0 < e.objTable.refCount i) → (undo e p).Changed e (exported p.2) [])
    (h : CopiesOut outbound undo args e e' r) :
    e.Changed e' (exports (r.toOption.getD [])) [] := by
  cases h with
  | refused err => exact .refl e
  | copied hc => exact (copyObjects_toRemote hc).1
  | rolledBack hc => exact rollback_changed hundo hc

end CopiesOut

theorem outboundMarshalIn_changed {r : Except ObjectError (List TIMessageObj)}
    (h : e.outboundMarshalIn buffers args = (e', r)) :
    e.Changed e' (exports (r.toOption.getD [])) [] :=
  (outboundMarshalIn_copiesOut h).changed fun _ => undoOutbound_changed

theorem inboundMarshalOut_changed {r : Except ObjectError (List TIMessageObj)}
    (h : e.inboundMarshalOut buffers args = (e', r)) :
    e.Changed e' (exports (r.toOption.getD [])) [] :=
  (inboundMarshalOut_copiesOut h).changed fun _ => undoInbound_changed

theorem newOutbound_changed {mem : Bool} {h : Nat} {op : ObjectOp}
    {r : Except ObjectError TIMessage} (hn : e.newOutbound mem h op args buffers = (e', r)) :
    e.Changed e' (exports ((r.toOption.map TIMessage.args).getD [])) [] ∧
      ∀ msg, r = .ok msg → msg.cxt = indexToHandle h ∧ msg.op = op := by
  unfold newOutbound at hn
  cases mem with
  | false =>
    cases hn
    exact ⟨.refl e, nofun⟩
  | true =>
    simp only [if_true] at hn
    split at hn
    · rename_i hm
      cases hn
      exact ⟨outboundMarshalIn_changed hm, fun msg hmsg => by cases hmsg; exact ⟨rfl, rfl⟩⟩
    · rename_i hm
      cases hn
      exact ⟨outboundMarshalIn_changed hm, nofun⟩

theorem releaseLocalOI_changed {msg : TIMessage}
    (hcount : ∀ j, ((exports msg.args).count j : Int) ≤ e.objTable.refCount j) :
    (e.releaseLocalOI msg).Changed e (exports msg.args) [] := by
  refine foldl_undo (p := fun _ => True) (fun e h _ hpos => ?_) msg.args (fun _ _ => trivial) hcount
  cases hr : isRemoteInDestDomain h with
  | true =>
    rw [exported, if_pos hr]
    exact releaseHandle_changed (hpos _ (by simp [exported, hr]))
  | false =>
    rw [exported_of_isRemote_eq_false hr]
    exact .refl e

theorem not_copyable_of_error {err : ObjectError} (h : copyObjectFromRemote e arg = .error err) :
    ¬ Copyable e.objTable arg := by
  unfold copyObjectFromRemote at h
  rintro (hn | hcopy)
  · rw [if_pos hn] at h
    cases h
  · by_cases hn : arg.1 = gNullTIMessageObj
    · rw [if_pos hn] at h
      cases h
    · rw [if_neg hn] at h
      cases hr : isRemoteInDestDomain arg.1 with
      | true =>
        rw [if_pos hr] at hcopy h
        rw [if_pos hcopy] at h
        cases h
      | false =>
        rw [hr] at hcopy h
        obtain ⟨o, ho⟩ := Option.isSome_iff_exists.mp hcopy
        simp [ho] at h

theorem exports_eq_nil_iff : exports hs = [] ↔ ∀ x ∈ hs, isRemoteInDestDomain x = false := by
  unfold exports
  rw [flatMap_eq_nil_iff]
  refine forall₂_congr fun x _ => ⟨fun hx => ?_, exported_of_isRemote_eq_false⟩
  by_contra hr
  rw [exported, if_pos (by simpa using hr)] at hx
  cases hx

theorem noneUpToExport_of_exports_eq_nil {args : List (TIMessageObj × Bool)}
    (h : exports (args.map Prod.fst) = []) : NoneUpToExport t args := by
  have hall : ∀ a ∈ args, ¬ isRemoteInDestDomain a.1 = true := by
    intro a ha
    rw [exports_eq_nil_iff.mp h a.1 (mem_map_of_mem ha)]
    exact Bool.false_ne_true
  refine ⟨fun a ha hr => absurd hr (hall a ha), pairwise_iff_forall_sublist.mpr ?_⟩
  intro a b hab hr
  exact absurd hr (hall b (hab.subset (by simp)))

theorem exports_take_append_drop (args : List (TIMessageObj × Bool)) (k : Nat) :
    exports ((args.take k).map Prod.fst) ++ exports ((args.drop k).map Prod.fst) =
      exports (args.map Prod.fst) := by
  unfold exports
  rw [← flatMap_append, ← map_append, take_append_drop]

theorem exports_take_eq_nil {args : List (TIMessageObj × Bool)} {k : Nat}
    (h : NoneAfterExport t args) (hk : args[k]? = some arg) (hnot : ¬ Copyable t arg) :
    exports ((args.take k).map Prod.fst) = [] := by
  obtain ⟨hlt, rfl⟩ := List.getElem?_eq_some_iff.mp hk
  refine exports_eq_nil_iff.mpr fun x hx => ?_
  obtain ⟨a, ha, rfl⟩ := List.mem_map.mp hx
  obtain ⟨i, hi, rfl⟩ := List.mem_take_iff_getElem.mp ha
  have hpair := List.pairwise_iff_getElem.mp h i k (by omega) hlt (by omega)
  exact Bool.eq_false_iff.mpr fun hr => hnot (hpair hr)

theorem exports_drop_eq_nil {args : List (TIMessageObj × Bool)} {k : Nat}
    (h : NoneUpToExport t args) (hk : args[k]? = some arg) (hnot : ¬ Copyable t arg) :
    exports ((args.drop k).map Prod.fst) = [] := by
  obtain ⟨hlt, rfl⟩ := List.getElem?_eq_some_iff.mp hk
  refine exports_eq_nil_iff.mpr fun x hx => ?_
  obtain ⟨a, ha, rfl⟩ := List.mem_map.mp hx
  obtain ⟨i, hi, rfl⟩ := List.mem_drop_iff_getElem.mp ha
  refine Bool.eq_false_iff.mpr fun hr => ?_
  by_cases hzero : i = 0
  · subst hzero
    exact hnot (h.1 _ (List.getElem_mem _) hr)
  · exact hnot (List.pairwise_iff_getElem.mp h.2 k (k + i) hlt (by omega) (by omega) hr)

theorem copyObjects_fromRemote_error {args : List (TIMessageObj × Bool)} {os : List Object}
    {err : ObjectError} (hc : copyObjects copyObjectFromRemote args e = (e', os, some err)) :
    ∃ arg, args[os.length]? = some arg ∧ ¬ Copyable e.objTable arg := by
  obtain ⟨-, -, -, herr⟩ := copyObjects_fromRemote hc
  obtain ⟨arg, e₁, err', harg, htable, hcopy⟩ := herr (Option.some_ne_none _)
  exact ⟨arg, harg, htable ▸ not_copyable_of_error hcopy⟩

theorem handleInbound_changed {ready : Option ObjectError} {msg : TIMessage}
    {args : List (TIMessageObj × Bool)} {r : Except ObjectError (Option (List Object))}
    (h : e.handleInbound ready msg buffers args = (e', r))
    (hguard : NoneAfterExport e.objTable args) :
    (∃ err, r = .error err ∧ (msg.op = .release → ready ≠ none) ∧ e.Changed e' [] []) ∨
    (r = .ok none ∧ msg.op = .release ∧ e' = e.releaseHandle (handleToIndex msg.cxt)) ∨
    (∃ os, r = .ok (some os) ∧ msg.op ≠ .release ∧
      e.Changed e' [] (exports (args.map Prod.fst))) := by
  unfold handleInbound at h
  cases ready with
  | some err =>
    cases h
    exact .inl ⟨err, rfl, fun _ => Option.some_ne_none _, .refl e⟩
  | none =>
    cases hop : msg.op with
    | release =>
      simp only [hop] at h
      cases h
      exact .inr (.inl ⟨rfl, rfl, rfl⟩)
    | otherLocal =>
      simp only [hop] at h
      cases h
      exact .inl ⟨_, rfl, nofun, .refl e⟩
    | method id =>
      simp only [hop] at h
      cases ht : e.objTable.recoverObject (handleToIndex msg.cxt) with
      | none =>
        simp only [ht] at h
        cases h
        exact .inl ⟨_, rfl, nofun, .refl e⟩
      | some o =>
        simp only [ht] at h
        cases buffers with
        | some err =>
          cases h
          exact .inl ⟨_, rfl, nofun, .refl e⟩
        | none =>
          split at h
          · rename_i e₁ os hc
            cases h
            obtain ⟨hch, -, hlen, -⟩ := copyObjects_fromRemote hc
            rw [hlen rfl, take_length] at hch
            exact .inr (.inr ⟨os, rfl, nofun, hch⟩)
          · rename_i e₁ os err hc
            cases h
            obtain ⟨arg, harg, hnot⟩ := copyObjects_fromRemote_error hc
            have hch := (copyObjects_fromRemote hc).1
            rw [exports_take_eq_nil hguard harg hnot] at hch
            exact .inl ⟨err, rfl, nofun, hch.trans (e₁.releaseObjects_changed os)⟩

theorem handleInboundReturn_changed {result : Option (List Object)}
    {r : Except ObjectError (Option (List TIMessageObj))}
    (h : e.handleInboundReturn args result buffers = (e', r)) :
    e.Changed e' (exports ((r.toOption.bind id).getD [])) [] := by
  unfold handleInboundReturn at h
  cases result with
  | none =>
    cases h
    exact e.releaseObjects_changed args
  | some oo =>
    simp only at h
    cases hm : e.inboundMarshalOut buffers oo with
    | mk e₁ reply =>
      rw [hm] at h
      cases h
      have hch := ((inboundMarshalOut_changed hm).trans (e₁.releaseObjects_changed oo)).trans
        ((e₁.releaseObjects oo).releaseObjects_changed args)
      rw [append_nil, append_nil] at hch
      cases reply <;> exact hch

/-- The table has a slot for each object of its own that goes out. -/
def Room (e : Endpoint) (oo : List Object) : Prop :=
  (e.objTable.newObjects (oo.filterMap Object.own?)).card ≤ e.objTable.freeSlots

instance (e : Endpoint) (oo : List Object) : Decidable (e.Room oo) := Nat.decLe _ _

theorem copyObjects_toRemote_ok (outbound : Bool) (h : e.Room args) :
    (copyObjects (copyObjectToRemote outbound) args e).2.2 = none := by
  induction args generalizing e with
  | nil => rfl
  | cons o os ih =>
    cases o with
    | null => exact ih h
    | forwarder f =>
      refine ih (e := if outbound then e.retain f else e) ?_
      have htable : (if outbound then e.retain f else e).objTable = e.objTable := by
        unfold retain
        split_ifs
        · split <;> rfl
        · rfl
      rw [Room, htable]
      exact h
    | own o =>
      obtain ⟨i, t, ht, hroom⟩ := ObjectTable.exists_addObject_of_room h
      simp only [copyObjects, copyObjectToRemote, ht]
      exact ih (e := { e with objTable := t }) hroom

theorem handleInboundReturn_ok (args : List Object) {oo : List Object} (h : e.Room oo) :
    ∃ e' reply, e.handleInboundReturn args (some oo) none = (e', .ok (some reply)) := by
  have hok := copyObjects_toRemote_ok false h
  simp only [handleInboundReturn, inboundMarshalOut]
  split
  · exact ⟨_, _, rfl⟩
  · rename_i hc
    rw [hc] at hok
    cases hok

theorem processResponse_changed {reply : Option (List (TIMessageObj × Bool))}
    (hguard : ∀ args ∈ reply, NoneUpToExport e.objTable args ∧
      (buffers = none ∨ exports (args.map Prod.fst) = [])) :
    e.Changed (e.processResponse reply buffers) [] (exports ((reply.getD []).map Prod.fst)) := by
  cases reply with
  | none => exact .refl e
  | some args =>
    obtain ⟨hnone, hbuffers⟩ := hguard args rfl
    simp only [processResponse, outboundMarshalOut, Option.getD_some]
    cases buffers with
    | some err =>
      rw [hbuffers.resolve_left (Option.some_ne_none _)]
      exact .refl e
    | none =>
      simp only
      split
      · rename_i e₁ os hc
        obtain ⟨hch, -, hlen, -⟩ := copyObjects_fromRemote hc
        rw [hlen rfl, take_length] at hch
        exact hch
      · rename_i e₁ os err hc
        obtain ⟨arg, harg, hnot⟩ := copyObjects_fromRemote_error hc
        have hch := (copyObjects_fromRemote hc).1.trans (e₁.releaseObjects_changed os)
        rw [← exports_take_append_drop args os.length, exports_drop_eq_nil hnone harg hnot]
        exact hch

end Endpoint

end MinkIpc.TunnelInvoke
