import MinkIpc.Invocation

/-! A response completes the invocation that it answers as long as the ids in the queue of an
endpoint differ. -/

namespace MinkIpc.Invocation

open TwoParty List Option

abbrev Due := UInt32 × Nat

def Message.request? : Message → Option Due
  | .request id inv => some (id, inv)
  | .response _ _ => none

def Message.response? : Message → Option Due
  | .request _ _ => none
  | .response id inv => some (id, inv)

def Worker.due (w : Worker) : Option Due := if w.sent then none else some (w.invokeId, w.inv)

def Answer.due (a : Answer) : Option Due := if a.bComplete then none else some (a.invokeId, a.inv)

def Endpoint.asked (e : Endpoint) : Multiset Due :=
  (e.inbox.filterMap Message.request? : Multiset Due) + (e.workers.filterMap Worker.due : Multiset Due)

def Endpoint.answering (e : Endpoint) : Multiset Due :=
  (e.inbox.filterMap Message.response? : Multiset Due) + (e.answers.filterMap Answer.due : Multiset Due)

def Connection.due (c : Connection) (s : Side) : Multiset Due :=
  (c.ends s.peer).asked + (c.ends s).answering

structure Matched (e : Endpoint) (due : Multiset Due) (n : Nat) : Prop where
  ids : (e.qlInvokes.map InvokeInfo.invokeId).Nodup
  once : (due.map Prod.snd).Nodup
  lt : ∀ t ∈ due, t.2 < n
  pending : ∀ t ∈ due, ∃ p ∈ e.qlInvokes, p.inv = t.2 ∧ p.invokeId = t.1 ∧ p.bComplete = false
  selected : ∀ a ∈ e.answers, a.pii = a.inv
  results : ∀ p ∈ e.qlInvokes, p.result = none ∨ p.result = some p.inv
  completed : ∀ r ∈ e.completed, r.1 = r.2 ∧ r.1 < n ∧
    ∀ p ∈ e.qlInvokes, p.inv = r.1 → p.bComplete = true
  completedOnce : (e.completed.map Prod.fst).Nodup
  returned : ∀ r ∈ e.returned, r.2 = none ∨ r.2 = some r.1

def Connection.Matched (c : Connection) : Prop :=
  ∀ s, Invocation.Matched (c.ends s) (c.due s) c.invokes

theorem Connection.Matched.new : Connection.new.Matched := by
  intro s
  have hdue : Connection.new.due s = 0 := rfl
  rw [hdue]
  constructor <;> simp [Connection.new]

section Endpoint

variable {e : Endpoint} {due due' : Multiset Due} {n : Nat}

theorem Matched.mono (h : Matched e due n) {e' : Endpoint} {n' : Nat} (hdue : due' ≤ due)
    (hn : n ≤ n') (hq : e'.qlInvokes = e.qlInvokes) (hc : e'.completed = e.completed)
    (hr : e'.returned = e.returned) (ha : ∀ a ∈ e'.answers, a ∈ e.answers ∨ a.pii = a.inv) :
    Matched e' due' n' where
  ids := hq ▸ h.ids
  once := Multiset.nodup_of_le (Multiset.map_le_map hdue) h.once
  lt := fun t ht => Nat.lt_of_lt_of_le (h.lt t (Multiset.mem_of_le hdue ht)) hn
  pending := fun t ht => hq ▸ h.pending t (Multiset.mem_of_le hdue ht)
  selected := fun a hmem => (ha a hmem).elim (h.selected a) id
  results := hq ▸ h.results
  completed := by
    rw [hc, hq]
    intro r hr
    obtain ⟨heq, hlt, hdone⟩ := h.completed r hr
    exact ⟨heq, Nat.lt_of_lt_of_le hlt hn, hdone⟩
  completedOnce := hc ▸ h.completedOnce
  returned := hr ▸ h.returned

theorem Matched.getInvokeInfo_of_due (h : Matched e due n) {t : Due} (ht : t ∈ due) :
    ∃ p, getInvokeInfo e.qlInvokes t.1 = some p ∧ p.inv = t.2 := by
  obtain ⟨p, hp, hinv, hid, -⟩ := h.pending t ht
  cases hget : getInvokeInfo e.qlInvokes t.1 with
  | none =>
    have hne := find?_eq_none.mp hget p hp
    simp [hid] at hne
  | some q =>
    have hq := mem_of_find?_eq_some hget
    have hqid : q.invokeId = t.1 := by simpa using find?_some hget
    have hqp : q = p := inj_on_of_nodup_map h.ids hq hp (hqid.trans hid.symm)
    exact ⟨q, rfl, hqp ▸ hinv⟩

theorem Matched.invoke (h : Matched e due n) {id : UInt32}
    (hfresh : ∀ p ∈ e.qlInvokes, p.invokeId ≠ id) (ws : List Worker) :
    Matched { e with qlInvokes := e.qlInvokes ++ [⟨n, id, false, none⟩], workers := ws }
      ((id, n) ::ₘ due) (n + 1) where
  ids := by
    rw [map_append]
    refine List.Nodup.append h.ids (by simp) ?_
    intro i hi hid
    obtain ⟨p, hp, rfl⟩ := mem_map.mp hi
    exact hfresh p hp (by simpa using hid)
  once := by
    rw [Multiset.map_cons, Multiset.nodup_cons]
    refine ⟨fun hmem => ?_, h.once⟩
    obtain ⟨t, ht, heq⟩ := Multiset.mem_map.mp hmem
    have hlt := h.lt t ht
    omega
  lt := by
    intro t ht
    rcases Multiset.mem_cons.mp ht with rfl | ht
    · exact Nat.lt_succ_self n
    · have hlt := h.lt t ht
      omega
  pending := by
    intro t ht
    rcases Multiset.mem_cons.mp ht with rfl | ht
    · exact ⟨_, mem_append_right _ (mem_singleton_self _), rfl, rfl, rfl⟩
    · obtain ⟨p, hp, hrest⟩ := h.pending t ht
      exact ⟨p, mem_append_left _ hp, hrest⟩
  selected := h.selected
  results := by
    intro p hp
    rcases mem_append.mp hp with hp | hp
    · exact h.results p hp
    · rw [mem_singleton] at hp
      exact .inl (by rw [hp])
  completed := by
    intro r hr
    obtain ⟨heq, hlt, hdone⟩ := h.completed r hr
    refine ⟨heq, by omega, fun p hp hinv => ?_⟩
    rcases mem_append.mp hp with hp | hp
    · exact hdone p hp hinv
    · rw [mem_singleton] at hp
      subst hp
      dsimp only at hinv
      omega
  completedOnce := h.completedOnce
  returned := h.returned

theorem nodup_map_invokeId {q : List InvokeInfo} (h : (q.map InvokeInfo.invokeId).Nodup) (inv : Nat)
    (f : InvokeInfo → InvokeInfo) (hf : ∀ p, (f p).invokeId = p.invokeId) :
    ((q.map fun p => if p.inv = inv then f p else p).map InvokeInfo.invokeId).Nodup := by
  have heq : (q.map fun p => if p.inv = inv then f p else p).map InvokeInfo.invokeId =
      q.map InvokeInfo.invokeId := by
    rw [List.map_map]
    refine List.map_congr_left fun p _ => ?_
    by_cases hp : p.inv = inv
    · simp [hp, hf]
    · simp [hp]
  rw [heq]
  exact h

theorem Matched.setComplete (h : Matched e due n) {a : Answer} {answers : List Answer}
    (ha : a.pii = a.inv) (hdue : due = (a.invokeId, a.inv) ::ₘ due')
    (hans : ∀ b ∈ answers, b.pii = b.inv) :
    Matched { e with
      qlInvokes := e.qlInvokes.map fun p => if p.inv = a.pii then { p with bComplete := true } else p
      answers := answers
      completed := e.completed ++ [(a.pii, a.inv)] } due' n := by
  have hmem : (a.invokeId, a.inv) ∈ due := hdue ▸ Multiset.mem_cons_self _ _
  have hle : due' ≤ due := hdue ▸ Multiset.le_cons_self _ _
  have honce := h.once
  rw [hdue, Multiset.map_cons, Multiset.nodup_cons] at honce
  obtain ⟨q, hq, hqinv, -, hopen⟩ := h.pending _ hmem
  have hnew : a.pii ∉ e.completed.map Prod.fst := by
    intro hin
    obtain ⟨r, hr, heq⟩ := mem_map.mp hin
    have hdone := (h.completed r hr).2.2 q hq (by rw [hqinv, heq, ha])
    rw [hopen] at hdone
    cases hdone
  refine ⟨?_, honce.2, fun t ht => h.lt t (Multiset.mem_of_le hle ht), ?_, hans, ?_, ?_, ?_, h.returned⟩
  · exact nodup_map_invokeId h.ids a.pii (fun p => { p with bComplete := true }) fun _ => rfl
  · intro t ht
    obtain ⟨p, hp, hinv, hid, hp'⟩ := h.pending t (Multiset.mem_of_le hle ht)
    have hne : p.inv ≠ a.pii := by
      intro heq
      refine honce.1 (Multiset.mem_map.mpr ⟨t, ht, ?_⟩)
      rw [← hinv, heq, ha]
    exact ⟨p, mem_map.mpr ⟨p, hp, if_neg hne⟩, hinv, hid, hp'⟩
  · intro p hp
    obtain ⟨p', hp', rfl⟩ := mem_map.mp hp
    have hres := h.results p' hp'
    split <;> exact hres
  · intro r hr
    rcases mem_append.mp hr with hr | hr
    · obtain ⟨heq, hlt, hdone⟩ := h.completed r hr
      refine ⟨heq, hlt, fun p hp hinv => ?_⟩
      obtain ⟨p', hp', rfl⟩ := mem_map.mp hp
      by_cases hpii : p'.inv = a.pii
      · simp [hpii]
      · rw [if_neg hpii] at hinv ⊢
        exact hdone p' hp' hinv
    · rw [mem_singleton] at hr
      subst hr
      refine ⟨ha, ha ▸ h.lt _ hmem, fun p hp hinv => ?_⟩
      obtain ⟨p', hp', rfl⟩ := mem_map.mp hp
      by_cases hpii : p'.inv = a.pii
      · simp [hpii]
      · rw [if_neg hpii] at hinv
        exact absurd hinv hpii
  · rw [map_append]
    refine List.Nodup.append h.completedOnce (by simp) ?_
    intro i hi hi'
    obtain rfl : i = a.pii := by simpa using hi'
    exact hnew hi

theorem Matched.setResult (h : Matched e due n) {a : Answer} {answers : List Answer}
    (ha : a.pii = a.inv) (hans : ∀ b ∈ answers, b.pii = b.inv) :
    Matched { e with
      qlInvokes := e.qlInvokes.map fun p => if p.inv = a.pii then { p with result := some a.inv } else p
      answers := answers } due n := by
  have hmap : ∀ p ∈ e.qlInvokes.map
        (fun p => if p.inv = a.pii then { p with result := some a.inv } else p),
      ∃ q ∈ e.qlInvokes, p.inv = q.inv ∧ p.invokeId = q.invokeId ∧ p.bComplete = q.bComplete ∧
        (p.result = q.result ∨ p.result = some p.inv) := by
    intro p hp
    obtain ⟨q, hq, rfl⟩ := mem_map.mp hp
    refine ⟨q, hq, ?_⟩
    by_cases hpii : q.inv = a.pii
    · simp [hpii, ha]
    · simp [hpii]
  refine ⟨?_, h.once, h.lt, ?_, hans, ?_, ?_, h.completedOnce, h.returned⟩
  · exact nodup_map_invokeId h.ids a.pii (fun p => { p with result := some a.inv }) fun _ => rfl
  · intro t ht
    obtain ⟨p, hp, hinv, hid, hopen⟩ := h.pending t ht
    refine ⟨_, mem_map_of_mem hp, ?_⟩
    split <;> exact ⟨hinv, hid, hopen⟩
  · intro p hp
    obtain ⟨q, hq, hinv, -, -, hres⟩ := hmap p hp
    rcases hres with hres | hres
    · rw [hres, hinv]
      exact h.results q hq
    · exact .inr hres
  · intro r hr
    obtain ⟨heq, hlt, hdone⟩ := h.completed r hr
    refine ⟨heq, hlt, fun p hp hr => ?_⟩
    obtain ⟨q, hq, hinv, -, hdone', -⟩ := hmap p hp
    rw [hdone']
    exact hdone q hq (hinv ▸ hr)

theorem Matched.wake (h : Matched e due n) {i : Nat} {p : InvokeInfo} (hp : e.qlInvokes[i]? = some p)
    (hdone : p.bComplete = true) (ws : List Worker) :
    Matched { e with
      qlInvokes := e.qlInvokes.eraseIdx i
      workers := ws
      returned := e.returned ++ [(p.inv, p.result)] } due n := by
  have hsub := eraseIdx_sublist e.qlInvokes i
  refine ⟨h.ids.sublist (hsub.map _), h.once, h.lt, ?_, h.selected, ?_, ?_, h.completedOnce, ?_⟩
  · intro t ht
    obtain ⟨q, hq, hinv, hid, hopen⟩ := h.pending t ht
    have hne : q ≠ p := by
      rintro rfl
      rw [hopen] at hdone
      cases hdone
    have hq' : q ∈ (p ::ₘ (e.qlInvokes.eraseIdx i : Multiset InvokeInfo)) :=
      coe_eq_cons_eraseIdx hp ▸ hq
    rcases Multiset.mem_cons.mp hq' with heq | hq'
    · exact absurd heq hne
    · exact ⟨q, hq', hinv, hid, hopen⟩
  · intro q hq
    exact h.results q (hsub.subset hq)
  · intro r hr
    obtain ⟨heq, hlt, hall⟩ := h.completed r hr
    exact ⟨heq, hlt, fun q hq => hall q (hsub.subset hq)⟩
  · intro r hr
    rcases mem_append.mp hr with hr | hr
    · exact h.returned r hr
    · rw [mem_singleton] at hr
      subst hr
      exact h.results p (mem_of_getElem? hp)

end Endpoint

section Connection

variable {c c' : Connection} {s : Side}

theorem Endpoint.asked_post (e : Endpoint) (m : Message) :
    (e.post m).asked = (m.request?.toList : Multiset Due) + e.asked := by
  simp only [Endpoint.post, Endpoint.asked, coe_filterMap_concat, add_assoc]

theorem Endpoint.answering_post (e : Endpoint) (m : Message) :
    (e.post m).answering = (m.response?.toList : Multiset Due) + e.answering := by
  simp only [Endpoint.post, Endpoint.answering, coe_filterMap_concat, add_assoc]

theorem Endpoint.asked_workers (e : Endpoint) {ws : List Worker}
    (hws : (ws.filterMap Worker.due : Multiset Due) = (e.workers.filterMap Worker.due : Multiset Due)) :
    { e with workers := ws }.asked = e.asked := by
  simp only [Endpoint.asked, hws]

theorem workers_due_set {ws : List Worker} {i : Nat} {w w' : Worker} (h : ws[i]? = some w)
    (hdue : w'.due = w.due) :
    ((ws.set i w').filterMap Worker.due : Multiset Due) = (ws.filterMap Worker.due : Multiset Due) := by
  rw [coe_filterMap_set _ h, coe_filterMap_eraseIdx _ h, hdue]

theorem Connection.Matched.send (h : c.Matched) {id : UInt32} {ws : List Worker}
    (hfresh : ∀ p ∈ (c.ends s).qlInvokes, p.invokeId ≠ id)
    (hws : (ws.filterMap Worker.due : Multiset Due) =
      ((c.ends s).workers.filterMap Worker.due : Multiset Due)) :
    (c.send s id ws).Matched := by
  have hself : (c.send s id ws).ends s = { c.ends s with
      qlInvokes := (c.ends s).qlInvokes ++ [⟨c.invokes, id, false, none⟩], workers := ws } := by
    simp [Connection.send]
  have hpeer : (c.send s id ws).ends s.peer = (c.ends s.peer).post (.request id c.invokes) := by
    simp [Connection.send]
  refine (Side.forall_iff s).mpr ⟨?_, ?_⟩
  · have hdue : (c.send s id ws).due s = (id, c.invokes) ::ₘ c.due s := by
      rw [Connection.due, hself, hpeer, Endpoint.asked_post]
      rfl
    rw [hdue, hself]
    exact (h s).invoke hfresh ws
  · have hasked : ((c.send s id ws).ends s).asked = (c.ends s).asked := by
      rw [hself]
      exact (c.ends s).asked_workers hws
    have hdue : (c.send s id ws).due s.peer = c.due s.peer := by
      rw [Connection.due, Side.peer_peer, hasked, hpeer, Endpoint.answering_post, Connection.due,
        Side.peer_peer]
      rfl
    rw [hdue, hpeer]
    exact (h s.peer).mono (le_refl _) (Nat.le_succ _) rfl rfl rfl fun a ha => .inl ha

theorem Connection.Matched.invoke (h : c.Matched) {worker : Option Nat} {rand : UInt32}
    (hfresh : FreshId c (s, .invoke worker rand)) (hs : c.invoke s worker rand = some c') :
    c'.Matched := by
  cases worker with
  | none =>
    cases hs
    exact h.send hfresh rfl
  | some i =>
    obtain ⟨w, hw, hs⟩ := bind_eq_some_iff.mp hs
    split_ifs at hs
    cases hs
    exact h.send hfresh (workers_due_set hw rfl)

theorem Connection.Matched.sendResponse (h : c.Matched) {i : Nat}
    (hs : c.sendResponse s i = some c') : c'.Matched := by
  obtain ⟨w, hw, hs⟩ := bind_eq_some_iff.mp hs
  split_ifs at hs with hidle
  cases hs
  have hdue : w.due = some (w.invokeId, w.inv) := by
    simp only [Bool.or_eq_true, not_or] at hidle
    simp [Worker.due, hidle.2]
  let e' : Endpoint := { c.ends s with workers := (c.ends s).workers.set i { w with sent := true } }
  have hasked : (c.ends s).asked = {(w.invokeId, w.inv)} + e'.asked := by
    simp only [Endpoint.asked, e']
    rw [coe_filterMap_eraseIdx _ hw, coe_filterMap_set _ hw, hdue]
    simp only [toList_some, Multiset.coe_singleton]
    abel
  refine (Side.forall_iff s).mpr ⟨?_, ?_⟩
  · simp only [Connection.due, Connection.modify_ends, modify_self, modify_of_peer,
      modify_peer, Endpoint.asked_post]
    refine (h s).mono (le_of_eq ?_) (Nat.le_refl _) rfl rfl rfl fun a ha => .inl ha
    rfl
  · simp only [Connection.due, Connection.modify_ends, modify_self, modify_of_peer, Side.peer_peer,
      modify_peer, Endpoint.answering_post]
    refine (h s.peer).mono (le_of_eq ?_) (Nat.le_refl _) rfl rfl rfl fun a ha => .inl ha
    rw [Connection.due, Side.peer_peer, hasked, Message.response?, toList_some,
      Multiset.coe_singleton]
    abel

def Keeps (f : Endpoint → Option Endpoint) : Prop :=
  ∀ ⦃e e' : Endpoint⦄ ⦃rest : Multiset Due⦄ ⦃n : Nat⦄, f e = some e' →
    Matched e (rest + e.answering) n → e'.asked ≤ e.asked ∧ Matched e' (rest + e'.answering) n

theorem Connection.Matched.atEnd (h : c.Matched) {f : Endpoint → Option Endpoint} (hf : Keeps f)
    (hs : c.atEnd s f = some c') : c'.Matched := by
  obtain ⟨e', he', rfl⟩ := map_eq_some_iff.mp hs
  obtain ⟨hasked, hmatched⟩ := hf he' (h s)
  refine (Side.forall_iff s).mpr ⟨?_, ?_⟩
  · have hdue : (c.modify s fun _ => e').due s = (c.ends s.peer).asked + e'.answering := by
      simp [Connection.due]
    rw [hdue, Connection.modify_ends, modify_self]
    exact hmatched
  · have hdue : (c.modify s fun _ => e').due s.peer ≤ c.due s.peer := by
      simp only [Connection.due, Side.peer_peer, Connection.modify_ends, modify_self, modify_peer]
      exact add_le_add_left hasked _
    rw [Connection.modify_ends, modify_peer]
    exact (h s.peer).mono hdue (Nat.le_refl _) rfl rfl rfl fun a ha => .inl ha

theorem keeps_invokeUnsent (i : Nat) : Keeps (·.invokeUnsent i) := by
  intro e e' rest n hs h
  obtain ⟨w, hw, hs⟩ := bind_eq_some_iff.mp hs
  split_ifs at hs
  cases hs
  refine ⟨le_of_eq (e.asked_workers (workers_due_set hw rfl)), ?_⟩
  exact h.mono (le_refl _) (Nat.le_refl _) rfl rfl rfl fun a ha => .inl ha

theorem keeps_recvInvocationRequest (i : Nat) : Keeps (·.recvInvocationRequest i) := by
  intro e e' rest n hs h
  obtain ⟨m, hm, hs⟩ := bind_eq_some_iff.mp hs
  cases m with
  | response id inv => cases hs
  | request id inv =>
    cases hs
    refine ⟨le_of_eq ?_, h.mono (le_of_eq ?_) (Nat.le_refl _) rfl rfl rfl fun a ha => .inl ha⟩
    · simp only [Endpoint.asked]
      rw [coe_filterMap_concat, coe_filterMap_eraseIdx Message.request? hm]
      simp only [Message.request?, Worker.due, Bool.false_eq_true, if_false]
      abel
    · simp only [Endpoint.answering]
      rw [coe_filterMap_eraseIdx Message.response? hm]
      simp [Message.response?]

theorem keeps_endRequest (i : Nat) : Keeps (·.endRequest i) := by
  intro e e' rest n hs h
  obtain ⟨w, hw, hs⟩ := bind_eq_some_iff.mp hs
  split_ifs at hs
  cases hs
  refine ⟨?_, h.mono (le_refl _) (Nat.le_refl _) rfl rfl rfl fun a ha => .inl ha⟩
  simp only [Endpoint.asked]
  rw [coe_filterMap_eraseIdx Worker.due hw]
  exact add_le_add_right (Multiset.le_add_left _ _) _

theorem keeps_recvResponse (i : Nat) : Keeps (·.recvResponse i) := by
  intro e e' rest n hs h
  obtain ⟨m, hm, hs⟩ := bind_eq_some_iff.mp hs
  cases m with
  | request id inv => cases hs
  | response id inv =>
    have hinbox := coe_filterMap_eraseIdx Message.response? hm
    have hmem : (id, inv) ∈ rest + e.answering := by
      rw [Endpoint.answering, hinbox]
      simp [Message.response?]
    obtain ⟨pii, hget, hpii⟩ := h.getInvokeInfo_of_due hmem
    dsimp only at hs hget
    rw [hget] at hs
    cases hs
    refine ⟨le_of_eq ?_, h.mono (le_of_eq ?_) (Nat.le_refl _) rfl rfl rfl fun a ha => ?_⟩
    · simp only [Endpoint.asked]
      rw [coe_filterMap_eraseIdx Message.request? hm]
      simp [Message.request?]
    · simp only [Endpoint.answering]
      rw [coe_filterMap_concat, hinbox]
      simp only [Message.response?, Answer.due, Bool.false_eq_true, if_false]
      abel
    · rcases mem_append.mp ha with ha | ha
      · exact .inl ha
      · rw [mem_singleton] at ha
        exact .inr (ha ▸ hpii)

theorem keeps_setComplete (j : Nat) : Keeps (·.setComplete j) := by
  intro e e' rest n hs h
  obtain ⟨a, ha, hs⟩ := bind_eq_some_iff.mp hs
  split_ifs at hs with hopen
  cases hs
  have hpii : a.pii = a.inv := h.selected a (mem_of_getElem? ha)
  have hdue : rest + e.answering = (a.invokeId, a.inv) ::ₘ (rest +
      ((e.inbox.filterMap Message.response? : Multiset Due) +
        ((e.answers.set j { a with bComplete := true }).filterMap Answer.due : Multiset Due))) := by
    rw [Endpoint.answering, coe_filterMap_eraseIdx _ ha, coe_filterMap_set _ ha,
      ← Multiset.singleton_add]
    simp only [Answer.due, hopen, Bool.false_eq_true, if_false, toList_some, Multiset.coe_singleton]
    abel
  refine ⟨le_refl _, h.setComplete hpii hdue fun b hb => ?_⟩
  rcases mem_or_eq_of_mem_set hb with hb | rfl
  · exact h.selected b hb
  · exact hpii

theorem keeps_setResult (j : Nat) : Keeps (·.setResult j) := by
  intro e e' rest n hs h
  obtain ⟨a, ha, hs⟩ := bind_eq_some_iff.mp hs
  split_ifs at hs with hdone
  cases hs
  have hdue : (e.answers.filterMap Answer.due : Multiset Due) =
      ((e.answers.eraseIdx j).filterMap Answer.due : Multiset Due) := by
    rw [coe_filterMap_eraseIdx Answer.due ha]
    simp [Answer.due, hdone]
  rw [Endpoint.answering, hdue] at h
  exact ⟨le_refl _, h.setResult (h.selected a (mem_of_getElem? ha))
    fun b hb => h.selected b ((eraseIdx_sublist _ _).subset hb)⟩

theorem keeps_wake (i : Nat) : Keeps (·.wake i) := by
  intro e e' rest n hs h
  obtain ⟨p, hp, hs⟩ := bind_eq_some_iff.mp hs
  split_ifs at hs with hdone
  cases hs
  refine ⟨le_of_eq ?_, h.wake hp hdone _⟩
  have hws : (e.workers.map fun w => if w.waits = some p.inv then { w with waits := none } else w).filterMap
      Worker.due = e.workers.filterMap Worker.due := by
    rw [filterMap_map]
    refine filterMap_congr fun w _ => ?_
    by_cases hw : w.waits = some p.inv
    · simp [hw, Worker.due]
    · simp [hw]
  simp only [Endpoint.asked, hws]

theorem Connection.Matched.step (h : c.Matched) {a : Side × Action} (hok : FreshId c a)
    (hs : Invocation.step c a = some c') : c'.Matched := by
  obtain ⟨s, a⟩ := a
  cases a with
  | invoke worker rand => exact h.invoke hok hs
  | invokeUnsent i => exact h.atEnd (keeps_invokeUnsent i) hs
  | recvInvocationRequest i => exact h.atEnd (keeps_recvInvocationRequest i) hs
  | sendResponse i => exact h.sendResponse hs
  | endRequest i => exact h.atEnd (keeps_endRequest i) hs
  | recvResponse i => exact h.atEnd (keeps_recvResponse i) hs
  | setComplete j => exact h.atEnd (keeps_setComplete j) hs
  | setResult j => exact h.atEnd (keeps_setResult j) hs
  | wake i => exact h.atEnd (keeps_wake i) hs

end Connection

/-- In every run in which no invocation takes an id that its endpoint's queue still carries, each
invocation is completed by its own response and at most once. -/
theorem response_completes_own_invocation {as : List (Side × Action)} {c : Connection}
    (h : Run.Guarded step FreshId .new as c) (s : Side) :
    (∀ id inv, .response id inv ∈ (c.ends s).inbox →
      ∃ pii, getInvokeInfo (c.ends s).qlInvokes id = some pii ∧ pii.inv = inv) ∧
    (∀ a ∈ (c.ends s).answers, a.pii = a.inv) ∧
    (∀ r ∈ (c.ends s).completed, r.1 = r.2) ∧ ((c.ends s).completed.map Prod.fst).Nodup ∧
    ∀ r ∈ (c.ends s).returned, r.2 = none ∨ r.2 = some r.1 := by
  have hm : c.Matched := h.invariant Connection.Matched .new fun _ _ _ hc hok hs => hc.step hok hs
  refine ⟨fun id inv hmem => ?_, (hm s).selected, fun r hr => ((hm s).completed r hr).1,
    (hm s).completedOnce, (hm s).returned⟩
  refine (hm s).getInvokeInfo_of_due (t := (id, inv)) (Multiset.mem_add.mpr (.inr ?_))
  exact Multiset.mem_add.mpr (.inl (mem_filterMap.mpr ⟨_, hmem, rfl⟩))

instance (c : Connection) : ∀ a, Decidable (FreshId c a)
  | (s, .invoke worker rand) =>
    inferInstanceAs (Decidable (∀ p ∈ (c.ends s).qlInvokes, p.invokeId ≠ (c.ends s).nextId worker rand))
  | (_, .invokeUnsent _) | (_, .recvInvocationRequest _) | (_, .sendResponse _) | (_, .endRequest _)
  | (_, .recvResponse _) | (_, .setComplete _) | (_, .setResult _) | (_, .wake _) =>
    inferInstanceAs (Decidable True)

def callback : List (Side × Action) :=
  [(.left, .invoke none 5), (.right, .recvInvocationRequest 0), (.right, .invoke (some 0) 9),
    (.left, .recvInvocationRequest 0), (.left, .sendResponse 0), (.right, .recvResponse 0),
    (.right, .setComplete 0), (.right, .setResult 0), (.right, .wake 0), (.right, .sendResponse 0),
    (.left, .recvResponse 0), (.left, .setComplete 0), (.left, .setResult 0), (.left, .wake 0)]

theorem response_completes_own_invocation_callback :
    ∃ c, Run.Guarded step FreshId .new callback c ∧ (c.ends .left).returned = [(0, some 0)] ∧
      ∀ r ∈ (c.ends .left).completed, r.1 = r.2 := by
  obtain ⟨c, hc, h⟩ := Run.exists_guarded step FreshId .new callback (by decide)
  have hret : (Run.execIf step FreshId .new callback).map (fun c => (c.ends .left).returned) =
      some [(0, some 0)] := by decide
  rw [hc] at hret
  exact ⟨c, h, Option.some.inj hret, (response_completes_own_invocation h .left).2.2.1⟩

/-- The callback calls back in turn: the left queue then has the id of the first invocation twice,
and the response to the inner invocation completes the outer one. -/
def nestedCallback : List (Side × Action) :=
  [(.left, .invoke none 5), (.right, .recvInvocationRequest 0), (.right, .invoke (some 0) 9),
    (.left, .recvInvocationRequest 0), (.left, .invoke (some 0) 9), (.right, .recvInvocationRequest 0),
    (.right, .sendResponse 1), (.left, .recvResponse 0), (.left, .setComplete 0),
    (.left, .setResult 0), (.left, .wake 0)]

theorem nestedCallback_completes_outer : (Run.exec step .new nestedCallback).map
        (fun c => ((c.ends .left).completed, (c.ends .left).returned)) =
      some ([(0, 2)], [(0, some 2)]) := by
  decide

end MinkIpc.Invocation
