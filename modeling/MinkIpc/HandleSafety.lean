import MinkIpc.HandleTransfer

/-! A lookup gives the object that the handle stood for, as long as closes are not handled before
the lookups sent ahead of them. -/

namespace MinkIpc.HandleTransfer

open TwoParty List

variable {α : Type*}

def Item.forward? : Item α → Option (Nat × α)
  | .recover _ _ => none
  | .forward h obj => some (h, obj)

def Message.forwards (m : Message α) : List (Nat × α) := m.items.filterMap Item.forward?

def Message.close? : Message α → Option Nat
  | .args _ => none
  | .close h => some h

def Endpoint.held (e : Endpoint α) : Multiset (Nat × α) :=
  (e.forwarders.map (fun f => (f.handle, f.target)) : Multiset (Nat × α)) +
    (e.inbox.flatMap Message.forwards : Multiset (Nat × α))

def Endpoint.closes (e : Endpoint α) : Multiset Nat := (e.inbox.filterMap Message.close? : Multiset Nat)

theorem Endpoint.closes_post (e : Endpoint α) (m : Message α) :
    (e.post m).closes = (m.close?.toList : Multiset Nat) + e.closes :=
  coe_filterMap_concat _ _ _

theorem Endpoint.held_post (e : Endpoint α) (m : Message α) :
    (e.post m).held = (m.forwards : Multiset (Nat × α)) + e.held := by
  simp only [Endpoint.held, Endpoint.post, coe_flatMap_concat]
  abel

/-- The invariant of an endpoint as the owner of a table, for the handles that its peer holds. -/
structure Safe (hd : Handles) (primordial : α) (e : Endpoint α) (held : Multiset (Nat × α)) :
    Prop where
  primordial : e.table.objects hd.primordial = some primordial
  bounded : ∀ h obj, e.table.objects h = some obj → h < e.table.objectsLen
  len : e.table.objectsLen = 1024
  slots : ∀ x ∈ held, e.table.objects x.1 = some x.2
  recovers : ∀ m ∈ e.inbox, ∀ h obj, .recover h obj ∈ m.items → e.table.objects h = some obj
  closes : ∀ h ∈ e.closes, h ≠ hd.primordial ∧ e.table.objects h ≠ none
  unique : ∀ h, h ≠ hd.primordial → (held.map Prod.fst + e.closes).count h ≤ 1
  order : e.inbox.Pairwise fun m m' => ∀ h, m = .close h → ¬ m'.Recovers h
  recovered : ∀ r ∈ e.recovered, r.2 = some r.1

section Owner

variable {hd : Handles} {primordial : α} {e : Endpoint α} {held held' : Multiset (Nat × α)}

section

variable (h : Safe hd primordial e held)
include h

theorem Safe.held_mono (hle : held' ≤ held) : Safe hd primordial e held' where
  primordial := h.primordial
  bounded := h.bounded
  len := h.len
  slots := fun x hx => h.slots x (Multiset.mem_of_le hle hx)
  recovers := h.recovers
  closes := h.closes
  unique := by
    intro n hn
    have hcount := h.unique n hn
    have hle' := Multiset.count_le_of_le n (Multiset.map_le_map (f := Prod.fst) hle)
    rw [Multiset.count_add] at hcount ⊢
    omega
  order := h.order
  recovered := h.recovered

theorem Safe.forwarders (fs : List (Forwarder α)) :
    Safe hd primordial { e with forwarders := fs } held :=
  ⟨h.primordial, h.bounded, h.len, h.slots, h.recovers, h.closes, h.unique, h.order, h.recovered⟩

theorem Safe.inbox {inbox : List (Message α)}
    (hrec : ∀ m ∈ inbox, ∀ n obj, .recover n obj ∈ m.items →
      ∃ m' ∈ e.inbox, .recover n obj ∈ m'.items)
    (hclose : (inbox.filterMap Message.close? : Multiset Nat) ≤ e.closes)
    (horder : inbox.Pairwise fun m m' => ∀ h, m = .close h → ¬ m'.Recovers h) :
    Safe hd primordial { e with inbox := inbox } held where
  primordial := h.primordial
  bounded := h.bounded
  len := h.len
  slots := h.slots
  recovers := by
    intro m hm n obj hmem
    obtain ⟨m', hm', hmem'⟩ := hrec m hm n obj hmem
    exact h.recovers m' hm' n obj hmem'
  closes := fun n hn => h.closes n (Multiset.mem_of_le hclose hn)
  unique := by
    intro n hn
    have hcount := h.unique n hn
    have hle := Multiset.count_le_of_le n hclose
    rw [Multiset.count_add] at hcount ⊢
    simp only [Endpoint.closes] at hcount hle ⊢
    omega
  order := horder
  recovered := h.recovered

theorem Safe.eraseIdx (i : Nat) :
    Safe hd primordial { e with inbox := e.inbox.eraseIdx i } held := by
  have hsub := eraseIdx_sublist e.inbox i
  refine h.inbox (fun m hm n obj hmem => ⟨m, hsub.subset hm, hmem⟩) ?_ (h.order.sublist hsub)
  exact Multiset.coe_le.mpr (hsub.filterMap _).subperm

end

theorem Safe.set (h : Safe hd primordial e held) {i : Nat} {item : Item α} {items : List (Item α)}
    (hi : e.inbox[i]? = some (.args (item :: items))) :
    Safe hd primordial { e with inbox := e.inbox.set i (.args items) } held := by
  refine h.inbox (fun m hm n obj hmem => ?_) (le_of_eq ?_) (pairwise_set h.order hi ?_ ?_)
  · rcases mem_or_eq_of_mem_set hm with hm | rfl
    · exact ⟨m, hm, hmem⟩
    · exact ⟨_, mem_of_getElem? hi, mem_cons_of_mem _ hmem⟩
  · rw [Endpoint.closes, coe_filterMap_set _ hi, coe_filterMap_eraseIdx _ hi]
    rfl
  · intro m hm n hclose hrec
    obtain ⟨obj, hobj⟩ := hrec
    exact hm n hclose ⟨obj, mem_cons_of_mem _ hobj⟩
  · intro m _ n hclose
    cases hclose

section

variable (h : Safe hd primordial e held)
include h

theorem Safe.recoverObject {m : Message α} (hm : m ∈ e.inbox) {n : Nat}
    {obj : α} (hmem : .recover n obj ∈ m.items) : e.table.recoverObject n = some obj := by
  have hobj := h.recovers m hm n obj hmem
  rw [ObjectTable.recoverObject_ofNat (h.bounded n obj hobj), hobj]

theorem Safe.recovered_concat (obj : α) :
    Safe hd primordial { e with recovered := e.recovered ++ [(obj, some obj)] } held where
  primordial := h.primordial
  bounded := h.bounded
  len := h.len
  slots := h.slots
  recovers := h.recovers
  closes := h.closes
  unique := h.unique
  order := h.order
  recovered := by
    intro r hr
    rcases mem_append.mp hr with hr | hr
    · exact h.recovered r hr
    · rw [mem_singleton] at hr
      rw [hr]

theorem Safe.not_mem_closes {x : Nat × α} (hx : x ∈ held) : x.1 ∉ e.closes := by
  intro hmem
  have hcount := h.unique x.1 (h.closes x.1 hmem).1
  have hheld : 0 < (held.map Prod.fst).count x.1 :=
    Multiset.count_pos.mpr (Multiset.mem_map_of_mem _ hx)
  have hclose : 0 < e.closes.count x.1 := Multiset.count_pos.mpr hmem
  rw [Multiset.count_add] at hcount
  omega

theorem Safe.cons_primordial : Safe hd primordial e ((hd.primordial, primordial) ::ₘ held) where
  primordial := h.primordial
  bounded := h.bounded
  len := h.len
  slots := by
    intro x hx
    rcases Multiset.mem_cons.mp hx with rfl | hx
    · exact h.primordial
    · exact h.slots x hx
  recovers := h.recovers
  closes := h.closes
  unique := by
    intro n hn
    rw [Multiset.map_cons, Multiset.cons_add, Multiset.count_cons_of_ne hn]
    exact h.unique n hn
  order := h.order
  recovered := h.recovered

theorem Safe.post_args {items : List (Item α)}
    (hitems : ∀ n obj, .recover n obj ∈ items → (n, obj) ∈ held) :
    Safe hd primordial (e.post (.args items)) held := by
  have hcloses : (e.post (.args items)).closes = e.closes := by
    rw [Endpoint.closes_post]
    exact zero_add _
  refine ⟨h.primordial, h.bounded, h.len, h.slots, ?_, hcloses ▸ h.closes, hcloses ▸ h.unique, ?_,
    h.recovered⟩
  · intro m hm n obj hmem
    rcases mem_append.mp hm with hm | hm
    · exact h.recovers m hm n obj hmem
    · rw [mem_singleton] at hm
      subst hm
      exact h.slots _ (hitems n obj hmem)
  · refine pairwise_append.mpr ⟨h.order, pairwise_singleton _ _, fun m hm m' hm' n hclose => ?_⟩
    rw [mem_singleton] at hm'
    subst hm' hclose
    rintro ⟨obj, hobj⟩
    exact h.not_mem_closes (hitems n obj hobj) (mem_filterMap.mpr ⟨_, hm, rfl⟩)

end

theorem Safe.post_close {n : Nat} {obj : α} (h : Safe hd primordial e ((n, obj) ::ₘ held))
    (hn : n ≠ hd.primordial) : Safe hd primordial (e.post (.close n)) held := by
  have hcloses : (e.post (.close n)).closes = n ::ₘ e.closes := e.closes_post (.close n)
  refine ⟨h.primordial, h.bounded, h.len, fun x hx => h.slots x (Multiset.mem_cons_of_mem hx), ?_, ?_, ?_,
    ?_, h.recovered⟩
  · intro m hm n' obj' hmem
    rcases mem_append.mp hm with hm | hm
    · exact h.recovers m hm n' obj' hmem
    · rw [mem_singleton] at hm
      subst hm
      cases hmem
  · intro n' hn'
    rw [hcloses] at hn'
    rcases Multiset.mem_cons.mp hn' with rfl | hn'
    · have hslot := h.slots (n', obj) (Multiset.mem_cons_self _ _)
      exact ⟨hn, by simp [Endpoint.post, hslot]⟩
    · exact h.closes n' hn'
  · intro n' hn'
    have hcount := h.unique n' hn'
    rw [hcloses]
    rw [Multiset.map_cons, Multiset.cons_add] at hcount
    rwa [Multiset.add_cons]
  · refine pairwise_append.mpr ⟨h.order, pairwise_singleton _ _, fun m hm m' hm' n hclose => ?_⟩
    rw [mem_singleton] at hm'
    subst hm'
    rintro ⟨obj, hobj⟩
    cases hobj

theorem Safe.table (h : Safe hd primordial e held) {t : ObjectTable α} {fresh : Multiset (Nat × α)}
    (hgrow : ∀ n obj, e.table.objects n = some obj → t.objects n = some obj)
    (hbounded : ∀ n obj, t.objects n = some obj → n < t.objectsLen)
    (hlen : t.objectsLen = e.table.objectsLen)
    (hfresh : ∀ x ∈ fresh, e.table.objects x.1 = none ∧ t.objects x.1 = some x.2)
    (hnodup : (fresh.map Prod.fst).Nodup) :
    Safe hd primordial { e with table := t } (fresh + held) where
  primordial := hgrow _ _ h.primordial
  bounded := hbounded
  len := hlen.trans h.len
  slots := by
    intro x hx
    rcases Multiset.mem_add.mp hx with hx | hx
    · exact (hfresh x hx).2
    · exact hgrow _ _ (h.slots x hx)
  recovers := fun m hm n obj hmem => hgrow n obj (h.recovers m hm n obj hmem)
  closes := by
    intro n hn
    obtain ⟨hne, hsome⟩ := h.closes n hn
    obtain ⟨obj, hobj⟩ := Option.ne_none_iff_exists'.mp hsome
    exact ⟨hne, by simp [hgrow n obj hobj]⟩
  unique := by
    intro n hn
    have hcount := h.unique n hn
    have hone := Multiset.nodup_iff_count_le_one.mp hnodup n
    have hcloses : Endpoint.closes { e with table := t } = e.closes := rfl
    rw [hcloses, Multiset.map_add, add_assoc, Multiset.count_add]
    by_cases hmem : n ∈ fresh.map Prod.fst
    · obtain ⟨x, hx, rfl⟩ := Multiset.mem_map.mp hmem
      have hfree := (hfresh x hx).1
      have hheld : x.1 ∉ held.map Prod.fst := by
        intro hin
        obtain ⟨y, hy, heq⟩ := Multiset.mem_map.mp hin
        have hslot := h.slots y hy
        rw [heq, hfree] at hslot
        cases hslot
      have hclose : x.1 ∉ e.closes := fun hin => (h.closes x.1 hin).2 hfree
      rw [Multiset.count_add, Multiset.count_eq_zero_of_notMem hheld,
        Multiset.count_eq_zero_of_notMem hclose]
      omega
    · rw [Multiset.count_eq_zero_of_notMem hmem]
      omega
  order := h.order
  recovered := h.recovered

theorem Safe.close (h : Safe hd primordial e held) {i n : Nat} (hi : e.inbox[i]? = some (.close n))
    (hbefore : ∀ m ∈ e.inbox.take i, ¬ m.Recovers n) {t : ObjectTable α}
    (hlen : t.objectsLen = e.table.objectsLen) (hframe : ∀ k, k ≠ n → t.objects k = e.table.objects k)
    (hsub : ∀ k obj, t.objects k = some obj → e.table.objects k = some obj) :
    Safe hd primordial { e with table := t, inbox := e.inbox.eraseIdx i } held := by
  have hcloses : e.closes = n ::ₘ ((e.inbox.eraseIdx i).filterMap Message.close? : Multiset Nat) := by
    rw [Endpoint.closes, coe_filterMap_eraseIdx _ hi]
    rfl
  have hn : n ∈ e.closes := hcloses ▸ Multiset.mem_cons_self _ _
  have hcut := h.eraseIdx i
  have hkeep : ∀ x ∈ held, x.1 ≠ n := by
    rintro x hx rfl
    exact h.not_mem_closes hx hn
  -- what stands behind the close was sent after it
  have hbehind : ∀ m ∈ e.inbox.eraseIdx i, ¬ m.Recovers n := by
    intro m hm
    obtain ⟨hlt, hget⟩ := List.getElem?_eq_some_iff.mp hi
    rw [List.eraseIdx_eq_take_drop_succ] at hm
    rcases List.mem_append.mp hm with hm | hm
    · exact hbefore m hm
    · have horder := h.order
      rw [← List.take_append_drop i e.inbox, List.drop_eq_getElem_cons hlt, hget] at horder
      have htail := (List.pairwise_append.mp horder).2.1
      exact List.rel_of_pairwise_cons htail hm n rfl
  refine ⟨?_, fun k obj hk => hlen ▸ h.bounded k obj (hsub k obj hk), hlen.trans h.len, ?_, ?_, ?_,
    hcut.unique, hcut.order, h.recovered⟩
  · rw [← h.primordial]
    exact hframe _ (h.closes n hn).1.symm
  · intro x hx
    rw [← h.slots x hx]
    exact hframe _ (hkeep x hx)
  · intro m hm k obj hmem
    have hk : k ≠ n := by
      rintro rfl
      exact hbehind m hm ⟨obj, hmem⟩
    exact (hframe k hk).trans (hcut.recovers m hm k obj hmem)
  · intro k hk
    have hkn : k ≠ n := by
      rintro rfl
      have hcount := h.unique k (h.closes k hn).1
      have hpos := Multiset.count_pos.mpr hk
      rw [hcloses, Multiset.count_add, Multiset.count_cons_self] at hcount
      simp only [Endpoint.closes] at hpos
      omega
    obtain ⟨hprim, hsome⟩ := hcut.closes k hk
    exact ⟨hprim, by rw [← hframe k hkn] at hsome; exact hsome⟩

end Owner

structure Marshalled (fs : List (Forwarder α)) (t : ObjectTable α)
    (st : ObjectTable α × List (Item α)) : Prop where
  grow : ∀ n obj, t.objects n = some obj → st.1.objects n = some obj
  bounded : ∀ n obj, st.1.objects n = some obj → n < st.1.objectsLen
  len : st.1.objectsLen = t.objectsLen
  fresh : ∀ x ∈ st.2.filterMap Item.forward?, t.objects x.1 = none ∧ st.1.objects x.1 = some x.2
  nodup : ((st.2.filterMap Item.forward?).map Prod.fst).Nodup
  recovers : ∀ n obj, .recover n obj ∈ st.2 → ⟨n, obj⟩ ∈ fs

section Loop

variable {hd : Handles} {fs : List (Forwarder α)} {t : ObjectTable α}
  {st : ObjectTable α × List (Item α)}

theorem Marshalled.generic (h : Marshalled fs t st) (hlen : t.objectsLen = 1024) {obj : α} {n : Nat}
    {table : ObjectTable α} (hadd : st.1.addObject hd obj = some (n, table)) :
    Marshalled fs t (table, st.2 ++ [.forward n obj]) := by
  obtain ⟨-, hn, hfree, hobjects, hlen'⟩ := ObjectTable.addObject_eq_some hadd
  have hlt := hd.primordial_lt
  have hother : ∀ k o, st.1.objects k = some o → k ≠ n ∧ table.objects k = some o := by
    intro k o hk
    have hne : k ≠ n := by
      rintro rfl
      rw [hfree] at hk
      cases hk
    exact ⟨hne, by rw [hobjects, Function.update_of_ne hne, hk]⟩
  have hnone : t.objects n = none := by
    cases hobj : t.objects n with
    | none => rfl
    | some o =>
      have hused := h.grow n o hobj
      rw [hfree] at hused
      cases hused
  have hitems : (st.2 ++ [Item.forward n obj]).filterMap Item.forward? =
      st.2.filterMap Item.forward? ++ [(n, obj)] := by simp [Item.forward?]
  refine ⟨fun k o hk => (hother k o (h.grow k o hk)).2, ?_, hlen'.trans h.len, ?_, ?_, ?_⟩
  · intro k o hk
    rw [hlen', h.len, hlen]
    by_cases hkn : k = n
    · omega
    · rw [hobjects, Function.update_of_ne hkn] at hk
      have hbound := h.bounded k o hk
      rwa [h.len, hlen] at hbound
  · intro x hx
    rw [hitems] at hx
    rcases mem_append.mp hx with hx | hx
    · obtain ⟨hfresh, hx⟩ := h.fresh x hx
      exact ⟨hfresh, (hother _ _ hx).2⟩
    · rw [mem_singleton] at hx
      subst hx
      exact ⟨hnone, by rw [hobjects, Function.update_self]⟩
  · rw [hitems, map_append]
    refine List.Nodup.append h.nodup (by simp) fun k hk hk' => ?_
    obtain ⟨x, hx, rfl⟩ := mem_map.mp hk
    exact (hother _ _ (h.fresh x hx).2).1 (by simpa using hk')
  · intro k o hmem
    rcases mem_append.mp hmem with hmem | hmem
    · exact h.recovers k o hmem
    · simp at hmem

theorem Marshalled.forwarder (h : Marshalled fs t st) {f : Forwarder α} (hf : f ∈ fs) :
    Marshalled fs t (st.1, st.2 ++ [.recover f.handle f.target]) := by
  have hitems : (st.2 ++ [Item.recover f.handle f.target]).filterMap Item.forward? =
      st.2.filterMap Item.forward? := by simp [Item.forward?]
  refine ⟨h.grow, h.bounded, h.len, hitems ▸ h.fresh, hitems ▸ h.nodup, fun k o hmem => ?_⟩
  rcases mem_append.mp hmem with hmem | hmem
  · exact h.recovers k o hmem
  · rw [mem_singleton] at hmem
    cases hmem
    exact hf

theorem Marshalled.arg (h : Marshalled fs t st) (hlen : t.objectsLen = 1024) (a : Arg α) :
    Marshalled fs t (marshalOutArg hd fs st a).state := by
  cases a with
  | forwarder j =>
    simp only [marshalOutArg]
    cases hj : fs[j]? with
    | none => exact h
    | some f =>
      dsimp only
      split_ifs
      · exact h
      · exact h.forwarder (mem_of_getElem? hj)
  | generic obj =>
    simp only [marshalOutArg]
    cases hadd : st.1.addObject hd obj with
    | none => exact h
    | some r => exact h.generic hlen hadd

end Loop

def Connection.Safe (hd : Handles) (primordial : Side → α) (c : Connection α) : Prop :=
  ∀ s, HandleTransfer.Safe hd (primordial s) (c s) (c s.peer).held

section Connection

variable {hd : Handles} {primordial : Side → α} {c c' : Connection α} {s : Side}

theorem Connection.Safe.modify (h : c.Safe hd primordial) {e : Endpoint α}
    (hs : HandleTransfer.Safe hd (primordial s) e (c s.peer).held) (hheld : e.held ≤ (c s).held) :
    Connection.Safe hd primordial (TwoParty.modify c s fun _ => e) := by
  refine (Side.forall_iff s).mpr ⟨?_, ?_⟩
  · rw [modify_self, modify_peer]
    exact hs
  · rw [modify_peer, Side.peer_peer, modify_self]
    have hpeer := h s.peer
    rw [Side.peer_peer] at hpeer
    exact hpeer.held_mono hheld

theorem Connection.Safe.send (h : c.Safe hd primordial) {args : List (Arg α)} {target : Option Nat}
    (hs : c.send hd s args target = some c') : c'.Safe hd primordial := by
  obtain ⟨last, hlast, rfl⟩ := Option.map_eq_some_iff.mp hs
  have hlen := (h s).len
  have hinit : Marshalled (c s).forwarders (c s).table ((c s).table, []) :=
    ⟨fun _ _ => id, (h s).bounded, rfl, by simp, by simp, by simp⟩
  have hloop : Marshalled (c s).forwarders (c s).table
      (Outcome.forEach (marshalOutArg hd (c s).forwarders) args ((c s).table, [])).state :=
    Outcome.forEach_invariant _ (fun st a hst => hst.arg hlen a) args hinit
  cases hout : Outcome.forEach (marshalOutArg hd (c s).forwarders) args ((c s).table, []) with
  | error u st =>
    rw [hout] at hloop
    have hnone : ∀ x ∈ (0 : Multiset (Nat × α)),
        (c s).table.objects x.1 = none ∧ st.1.objects x.1 = some x.2 := by simp
    have hgrown := (h s).table hloop.grow hloop.bounded hloop.len hnone (by simp)
    exact h.modify hgrown (le_refl _)
  | ok st =>
    rw [hout] at hloop
    have hlastItems : ∀ item ∈ last, ∃ f ∈ (c s).forwarders, item = .recover f.handle f.target := by
      cases target with
      | none =>
        cases hlast
        simp
      | some j =>
        obtain ⟨f, hf, rfl⟩ := Option.map_eq_some_iff.mp hlast
        intro item hitem
        rw [mem_singleton] at hitem
        exact ⟨f, mem_of_getElem? hf, hitem⟩
    have hforwards : (Message.args (st.2 ++ last)).forwards = st.2.filterMap Item.forward? := by
      have hnone : last.filterMap Item.forward? = [] := by
        refine filterMap_eq_nil_iff.mpr fun item hitem => ?_
        obtain ⟨f, -, rfl⟩ := hlastItems item hitem
        rfl
      simp [Message.forwards, Message.items, hnone]
    refine (Side.forall_iff s).mpr ⟨?_, ?_⟩
    · dsimp only
      rw [modify_of_peer, modify_self, modify_self, modify_peer, Endpoint.held_post, hforwards]
      exact (h s).table hloop.grow hloop.bounded hloop.len hloop.fresh
        (Multiset.coe_nodup.mpr hloop.nodup)
    · dsimp only
      rw [modify_self, modify_peer, Side.peer_peer, modify_of_peer, modify_self]
      have hpeer := h s.peer
      rw [Side.peer_peer] at hpeer
      refine hpeer.post_args fun n obj hmem => ?_
      have hf : (⟨n, obj⟩ : Forwarder α) ∈ (c s).forwarders := by
        rcases mem_append.mp hmem with hmem | hmem
        · exact hloop.recovers n obj hmem
        · obtain ⟨f, hf, heq⟩ := hlastItems _ hmem
          cases heq
          exact hf
      exact Multiset.mem_add.mpr (.inl (mem_map.mpr ⟨_, hf, rfl⟩))

theorem Endpoint.held_eraseIdx {e : Endpoint α} {j : Nat} {f : Forwarder α}
    (h : e.forwarders[j]? = some f) :
    e.held = (f.handle, f.target) ::ₘ Endpoint.held { e with forwarders := e.forwarders.eraseIdx j } := by
  simp only [Endpoint.held, ← Multiset.map_coe, coe_eq_cons_eraseIdx h, Multiset.map_cons,
    Multiset.cons_add]

theorem Connection.Safe.release (h : c.Safe hd primordial) {j : Nat}
    (hs : c.release hd s j = some c') : c'.Safe hd primordial := by
  obtain ⟨f, hf, rfl⟩ := Option.map_eq_some_iff.mp hs
  have hheld := Endpoint.held_eraseIdx hf
  have hself := (h s).forwarders ((c s).forwarders.eraseIdx j)
  split_ifs with hprim
  · exact h.modify hself (hheld ▸ Multiset.le_cons_self _ _)
  refine (Side.forall_iff s).mpr ⟨?_, ?_⟩
  · rw [modify_of_peer, modify_self, modify_self, modify_peer, Endpoint.held_post]
    exact hself.held_mono (le_of_eq (zero_add _))
  · rw [modify_self, modify_peer, Side.peer_peer, modify_of_peer, modify_self]
    have hpeer := h s.peer
    rw [Side.peer_peer, hheld] at hpeer
    exact hpeer.post_close hprim

theorem Connection.Safe.derivePrimordial (h : c.Safe hd primordial) :
    Connection.Safe hd primordial (TwoParty.modify c s fun e =>
      { e with forwarders := e.forwarders ++ [⟨hd.primordial, primordial s.peer⟩] }) := by
  refine (Side.forall_iff s).mpr ⟨?_, ?_⟩
  · rw [modify_self, modify_peer]
    exact (h s).forwarders _
  · rw [modify_peer, Side.peer_peer, modify_self]
    have hpeer := h s.peer
    rw [Side.peer_peer] at hpeer
    have hheld : Endpoint.held { c s with
        forwarders := (c s).forwarders ++ [⟨hd.primordial, primordial s.peer⟩] } =
        (hd.primordial, primordial s.peer) ::ₘ (c s).held := by
      simp only [Endpoint.held, map_append, ← Multiset.coe_add, ← Multiset.singleton_add]
      simp only [map_cons, map_nil, Multiset.coe_singleton]
      abel
    rw [hheld]
    exact hpeer.cons_primordial

theorem Endpoint.held_eraseIdx_inbox_le {e : Endpoint α} {i : Nat} {m : Message α}
    (h : e.inbox[i]? = some m) :
    Endpoint.held { e with inbox := e.inbox.eraseIdx i } ≤ e.held := by
  simp only [Endpoint.held]
  rw [coe_flatMap_eraseIdx Message.forwards h]
  exact add_le_add_right (Multiset.le_add_left _ _) _

theorem Connection.Safe.process (h : c.Safe hd primordial) {i : Nat}
    (hok : InOrder c (s, .process i)) (hs : c.atEnd s (·.process hd i) = some c') :
    c'.Safe hd primordial := by
  obtain ⟨e, he, rfl⟩ := Option.map_eq_some_iff.mp hs
  obtain ⟨m, hm, rfl⟩ := Option.map_eq_some_iff.mp he
  cases m with
  | close n =>
    obtain ⟨hlen, hframe, hsub⟩ := ObjectTable.releaseHandle_frame hd (c s).table n
    exact h.modify ((h s).close hm (hok n hm) hlen hframe hsub) (Endpoint.held_eraseIdx_inbox_le hm)
  | args items =>
    cases items with
    | nil => exact h.modify ((h s).eraseIdx i) (Endpoint.held_eraseIdx_inbox_le hm)
    | cons item items =>
      have hforwards := coe_flatMap_eraseIdx Message.forwards hm
      have hrest := coe_flatMap_set Message.forwards hm (.args items)
      cases item with
      | recover n obj =>
        have hfound := (h s).recoverObject (mem_of_getElem? hm) mem_cons_self
        dsimp only
        rw [hfound]
        refine h.modify (((h s).set hm).recovered_concat obj) (le_of_eq ?_)
        simp only [Endpoint.held]
        rw [hforwards]
        exact congrArg _ hrest
      | forward n obj =>
        refine h.modify (((h s).set hm).forwarders _) (le_of_eq ?_)
        simp only [Endpoint.held, hforwards, hrest, map_append, ← Multiset.coe_add]
        simp only [Message.forwards, Message.items, Item.forward?, filterMap_cons, map_cons, ← Multiset.cons_coe, ← Multiset.singleton_add]
        abel

theorem Connection.Safe.step (h : c.Safe hd primordial) {a : Side × Action α} (hok : InOrder c a)
    (hs : HandleTransfer.step hd primordial c a = some c') : c'.Safe hd primordial := by
  obtain ⟨s, a⟩ := a
  cases a with
  | send args target => exact h.send hs
  | release j => exact h.release hs
  | detach j =>
    obtain ⟨e, he, rfl⟩ := Option.map_eq_some_iff.mp hs
    obtain ⟨f, hf, rfl⟩ := Option.map_eq_some_iff.mp he
    exact h.modify ((h s).forwarders _) (Endpoint.held_eraseIdx hf ▸ Multiset.le_cons_self _ _)
  | derivePrimordial =>
    cases hs
    exact h.derivePrimordial
  | process i => exact h.process hok hs
  | abort i =>
    obtain ⟨e, he, rfl⟩ := Option.map_eq_some_iff.mp hs
    obtain ⟨m, hm, he⟩ := Option.bind_eq_some_iff.mp he
    cases m with
    | close n => cases he
    | args items =>
      cases he
      exact h.modify ((h s).eraseIdx i) (Endpoint.held_eraseIdx_inbox_le hm)

theorem Connection.Safe.new (hd : Handles) (primordial : Side → α) (service : α) :
    (Connection.new hd primordial service).Safe hd primordial := by
  have hlt := hd.generic_lt
  have hlt' := hd.primordial_lt
  intro s
  cases s with
  | left =>
    refine ⟨by simp [Connection.new], ?_, rfl, ?_, ?_, ?_, ?_, .nil, ?_⟩
    · intro n obj hn
      by_cases hprim : n = hd.primordial
      · simpa [hprim, Connection.new] using hlt'
      · simp [Connection.new, hprim] at hn
    all_goals simp [Connection.new, Side.peer, Endpoint.held, Endpoint.closes]
  | right =>
    refine ⟨?_, ?_, rfl, ?_, ?_, ?_, ?_, .nil, ?_⟩
    · simp [Connection.new, Function.update_of_ne (by omega : hd.primordial ≠ hd.generic)]
    · intro n obj hn
      show n < 1024
      by_cases hgen : n = hd.generic
      · omega
      · by_cases hprim : n = hd.primordial
        · omega
        · simp [Connection.new, hprim, hgen] at hn
    · simp [Connection.new, Side.peer, Endpoint.held]
    · simp [Connection.new]
    · simp [Connection.new, Endpoint.closes]
    · intro n hn
      simp only [Side.peer]
      exact Multiset.nodup_iff_count_le_one.mp (Multiset.nodup_singleton hd.generic) n
    · simp [Connection.new]

end Connection

/-- In every run in which closes are handled in order, each lookup gives the object that the handle
stood for when the sender's forwarder was made. -/
theorem recovered_object_denotes {hd : Handles} {primordial : Side → α} {service : α}
    {as : List (Side × Action α)} {c : Connection α}
    (h : Run.Guarded (step hd primordial) InOrder (.new hd primordial service) as c) (s : Side) :
    (∀ r ∈ (c s).recovered, r.2 = some r.1) ∧
    (∀ m ∈ (c s).inbox, ∀ (n : Nat) obj, .recover n obj ∈ m.items →
      (c s).table.recoverObject n = some obj) ∧
    ∀ f ∈ (c s.peer).forwarders, (c s).table.recoverObject f.handle = some f.target := by
  have hsafe : c.Safe hd primordial :=
    h.invariant (Connection.Safe hd primordial) (.new hd primordial service)
      fun _ _ _ hc hok hs => hc.step hok hs
  refine ⟨(hsafe s).recovered, fun m hm n obj hmem => (hsafe s).recoverObject hm hmem, fun f hf => ?_⟩
  have hslot := (hsafe s).slots (f.handle, f.target)
    (Multiset.mem_add.mpr (.inl (mem_map.mpr ⟨f, hf, rfl⟩)))
  rw [ObjectTable.recoverObject_ofNat ((hsafe s).bounded _ _ hslot), hslot]

def Item.recovers (h : Nat) : Item α → Bool
  | .recover n _ => n == h
  | .forward _ _ => false

theorem Message.recovers_iff (m : Message α) (h : Nat) :
    m.items.any (Item.recovers h) = true ↔ m.Recovers h := by
  constructor
  · intro hany
    obtain ⟨item, hmem, hitem⟩ := any_eq_true.mp hany
    cases item with
    | recover n obj =>
      obtain rfl : n = h := by simpa [Item.recovers] using hitem
      exact ⟨obj, hmem⟩
    | forward n obj => cases hitem
  · rintro ⟨obj, hmem⟩
    exact any_eq_true.mpr ⟨_, hmem, by simp [Item.recovers]⟩

instance (m : Message α) (h : Nat) : Decidable (m.Recovers h) :=
  decidable_of_iff _ (m.recovers_iff h)

def closeAllowed (before : List (Message α)) : Option (Message α) → Bool
  | some (.close h) => decide (∀ m ∈ before, ¬ m.Recovers h)
  | _ => true

theorem closeAllowed_iff (before : List (Message α)) (m : Option (Message α)) :
    closeAllowed before m = true ↔ ∀ h, m = some (.close h) → ∀ m' ∈ before, ¬ m'.Recovers h := by
  cases m with
  | none => simp [closeAllowed]
  | some m => cases m <;> simp [closeAllowed]

instance (c : Connection α) : ∀ a, Decidable (InOrder c a)
  | (s, .process i) => decidable_of_iff _ (closeAllowed_iff ((c s).inbox.take i) (c s).inbox[i]?)
  | (_, .send _ _) | (_, .release _) | (_, .detach _) | (_, .derivePrimordial) | (_, .abort _) =>
    inferInstanceAs (Decidable True)

def samplePrimordial : Side → Nat
  | .left => 90
  | .right => 91

def passAndReturn : List (Side × Action Nat) :=
  [(.left, .send [.generic 7] (some 0)), (.right, .process 0), (.right, .process 0),
    (.right, .process 0), (.right, .send [.forwarder 0] none), (.right, .release 0)]

theorem recovered_object_denotes_passAndReturn :
    ∃ c, Run.Guarded (step sampleHandles samplePrimordial) InOrder
        (.new sampleHandles samplePrimordial 100)
        (passAndReturn ++ [(.left, .process 0), (.left, .process 0), (.left, .process 0)]) c ∧
      (c .left).recovered = [(7, some 7)] ∧ ∀ r ∈ (c .left).recovered, r.2 = some r.1 := by
  obtain ⟨c, hc, h⟩ := Run.exists_guarded (step sampleHandles samplePrimordial) InOrder
    (.new sampleHandles samplePrimordial 100)
    (passAndReturn ++ [(.left, .process 0), (.left, .process 0), (.left, .process 0)]) (by decide)
  have hrec : (Run.execIf (step sampleHandles samplePrimordial) InOrder
      (.new sampleHandles samplePrimordial 100)
      (passAndReturn ++ [(.left, .process 0), (.left, .process 0), (.left, .process 0)])).map
      (fun c => (c .left).recovered) = some [(7, some 7)] := by decide
  rw [hc] at hrec
  exact ⟨c, h, Option.some.inj hrec, (recovered_object_denotes h .left).1⟩

/-- The client handles the close before the response sent ahead of it, and the slot goes to another
object in between. -/
theorem close_overtakes_success :
    (Run.exec (step sampleHandles samplePrimordial) (.new sampleHandles samplePrimordial 100)
      (passAndReturn ++ [(.left, .process 1), (.left, .send [.generic 8] (some 0)),
        (.left, .process 0)])).map (fun c => (c .left).recovered) = some [(7, some 8)] := by
  decide

end MinkIpc.HandleTransfer
