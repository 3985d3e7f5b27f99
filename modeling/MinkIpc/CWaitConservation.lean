import MinkIpc.CWait

/-! No signal is lost as long as the first waiter that matches it is still waiting: one that has
been signaled before, or that has already looked at its flag, takes the signal with it. -/

namespace MinkIpc.CWait

open List Option

variable {s s' : State} {code events : UInt32} {t n : Nat} {w w' : Wait} {x : SignalItem}

section Events

def Within (a b : UInt32) : Prop := a &&& b = a

variable {a b c : UInt32}

theorem within_zero : Within 0 b := UInt32.zero_and

theorem within_and_left : Within (a &&& b) a := by
  unfold Within
  rw [UInt32.and_assoc, UInt32.and_comm b a, ← UInt32.and_assoc, UInt32.and_self]

theorem within_and_right : Within (a &&& b) b := by
  unfold Within
  rw [UInt32.and_assoc, UInt32.and_self]

theorem Within.trans (h : Within a b) (h' : Within b c) : Within a c := by
  unfold Within at *
  rw [← h, UInt32.and_assoc, h']

end Events

section Queue

def queued (l : List Item) : List SignalItem :=
  l.filterMap fun
    | .waiter _ => none
    | .signal x => some x

theorem queued_append (l l' : List Item) : queued (l ++ l') = queued l ++ queued l' :=
  filterMap_append

@[simp]
theorem queued_waiter (t : Nat) : queued [.waiter t] = [] := rfl

theorem queued_clear (l : List Item) (t : Nat) :
    queued (l.filter fun i => !isWaiter t i) = queued l := by
  induction l with
  | nil => rfl
  | cons i l ih =>
    cases i with
    | waiter u =>
      by_cases hu : u = t
      · simpa [isWaiter, hu, queued] using ih
      · simpa [isWaiter, hu, queued] using ih
    | signal y => simpa [isWaiter, queued] using ih

theorem getSignalItem_eq_some {l l' : List Item} (h : getSignalItem code events l = some (x, l')) :
    x.answers code events = true ∧ ∃ before after, queued l = before ++ x :: after ∧
      queued l' = before ++ after ∧ ∀ y ∈ before, y.answers code events = false := by
  induction l generalizing l' with
  | nil => cases h
  | cons i l ih =>
    cases i with
    | waiter t =>
      obtain ⟨⟨y, rest⟩, hrest, heq⟩ := map_eq_some_iff.mp h
      cases heq
      obtain ⟨hx, before, after, hl, hl', hbefore⟩ := ih hrest
      exact ⟨hx, before, after, hl, hl', hbefore⟩
    | signal y =>
      rw [getSignalItem] at h
      split_ifs at h with hy
      · cases h
        exact ⟨hy, [], queued l, rfl, rfl, fun _ hmem => absurd hmem not_mem_nil⟩
      obtain ⟨⟨z, rest⟩, hrest, heq⟩ := map_eq_some_iff.mp h
      cases heq
      obtain ⟨hx, before, after, hl, hl', hbefore⟩ := ih hrest
      refine ⟨hx, y :: before, after, congrArg (y :: ·) hl, congrArg (y :: ·) hl', ?_⟩
      intro u hu
      rcases mem_cons.mp hu with rfl | hu
      · simpa using hy
      · exact hbefore u hu

theorem getSignalItem_isSome {l : List Item} (hx : x ∈ queued l)
    (hanswers : x.answers code events = true) : ∃ y l', getSignalItem code events l = some (y, l') := by
  induction l with
  | nil => cases hx
  | cons i l ih =>
    cases i with
    | waiter t =>
      obtain ⟨y, l', h⟩ := ih hx
      exact ⟨y, .waiter t :: l', by rw [getSignalItem, h, map_some]⟩
    | signal y =>
      by_cases hy : y.answers code events = true
      · exact ⟨y, l, by rw [getSignalItem, if_pos hy]⟩
      · have hne : x ≠ y := fun heq => hy (heq ▸ hanswers)
        have hx : x ∈ queued l := (mem_cons.mp hx).resolve_left hne
        obtain ⟨z, l', h⟩ := ih hx
        exact ⟨z, .signal y :: l', by rw [getSignalItem, if_neg hy, h, map_some]⟩

theorem findWaiter_eq_some (h : findWaiter code events s = some (t, w)) :
    s.waits t = some w ∧ w.item.accepts code events = true := by
  obtain ⟨i, -, hi⟩ := exists_of_findSome?_eq_some h
  cases i with
  | waiter u =>
    obtain ⟨v, hv, heq⟩ := bind_eq_some_iff.mp hi
    split_ifs at heq with haccepts
    cases heq
    exact ⟨hv, haccepts⟩
  | signal x => cases hi

end Queue

section Reports

variable {signals : List SignalItem}

structure Reported (signals : List SignalItem) (w : Wait) : Prop where
  asked : Within w.out w.request.events
  timedOut : w.woken = none → w.out = 0
  sent : ∀ n, w.woken = some n → ∃ x, signals[n]? = some x ∧ w.out ≠ 0 ∧ Within w.out x.events

structure WaitOk (signals : List SignalItem) (w : Wait) : Prop where
  asked : Within w.item.events w.request.events
  unsignaled : (w.phase = .inLoop ∨ ∃ rv, w.phase = .left rv) → w.item.signaled = false → w.woken = none
  signaled : (w.phase = .inLoop ∨ w.phase = .left .ok ∨ w.phase = .saw .ok) → w.item.signaled = true →
    ∃ n x, w.woken = some n ∧ signals[n]? = some x ∧ w.item.events ≠ 0 ∧ Within w.item.events x.events
  saw : ∀ rv, w.phase = .saw rv → w.item.signaled = true
  reported : (w.phase = .looked .ok ∨ w.phase = .returned .ok) → Reported signals w
  known : ∀ n, w.woken = some n → n < signals.length

theorem getElem?_snoc_of_eq_some (h : signals[n]? = some x) (y : SignalItem) :
    (signals ++ [y])[n]? = some x := by
  obtain ⟨hn, rfl⟩ := List.getElem?_eq_some_iff.mp h
  rw [List.getElem?_append_left hn, List.getElem?_eq_getElem hn]

theorem waitOk_of_looked {rv : Status} (hphase : w.phase = .looked rv ∨ w.phase = .returned rv)
    (hasked : Within w.item.events w.request.events) (hreported : rv = .ok → Reported signals w)
    (hknown : ∀ n, w.woken = some n → n < signals.length) : WaitOk signals w := by
  refine ⟨hasked, fun hearly _ => ?_, fun hok _ => ?_, fun _ hsaw => ?_, fun hok => ?_, hknown⟩
  · rcases hphase with hphase | hphase <;> simp [hphase] at hearly
  · rcases hphase with hphase | hphase <;> simp [hphase] at hok
  · rcases hphase with hphase | hphase <;> simp [hphase] at hsaw
  · rcases hphase with hphase | hphase <;> exact hreported (by simpa [hphase] using hok)

theorem Reported.snoc (h : Reported signals w) (y : SignalItem) : Reported (signals ++ [y]) w := by
  refine ⟨h.asked, h.timedOut, fun n hn => ?_⟩
  obtain ⟨x, hx, hrest⟩ := h.sent n hn
  exact ⟨x, getElem?_snoc_of_eq_some hx y, hrest⟩

theorem WaitOk.snoc (h : WaitOk signals w) (y : SignalItem) : WaitOk (signals ++ [y]) w := by
  refine ⟨h.asked, h.unsignaled, fun hphase hs => ?_, h.saw, fun hphase => (h.reported hphase).snoc y,
    fun n hn => ?_⟩
  · obtain ⟨n, x, hn, hx, hrest⟩ := h.signaled hphase hs
    exact ⟨n, x, hn, getElem?_snoc_of_eq_some hx y, hrest⟩
  · have := h.known n hn
    rw [length_append]
    omega

theorem WaitOk.waiting (h : WaitOk signals w) (hw : w.Waiting) : w.woken = none := by
  refine h.unsignaled ?_ hw.1
  rcases hw.2 with hphase | hphase
  · exact Or.inl hphase
  · exact Or.inr ⟨.ok, hphase⟩

theorem WaitOk.signal (h : WaitOk signals w) (hx : x.id = signals.length)
    (haccepts : w.item.events &&& x.events ≠ 0) : WaitOk (signals ++ [x]) (w.signal x) := by
  have hnew : (signals ++ [x])[x.id]? = some x := by rw [hx, getElem?_concat_length]
  have hold := h.snoc x
  constructor
  · exact within_and_left.trans h.asked
  · intro _ hs
    cases hs
  · intro hphase _
    by_cases hw : w.Waiting
    · exact ⟨x.id, x, if_pos hw, hnew, haccepts, within_and_right⟩
    -- it will report a signal all the same, so another one has reached it before
    have hs : w.item.signaled = true := by
      by_contra hfalse
      rw [Bool.not_eq_true] at hfalse
      rcases hphase with hphase | hphase | hphase
      · exact hw ⟨hfalse, Or.inl hphase⟩
      · exact hw ⟨hfalse, Or.inr hphase⟩
      · rw [h.saw .ok hphase] at hfalse
        cases hfalse
    obtain ⟨n, y, hn, hy, -, hwithin⟩ := hold.signaled hphase hs
    exact ⟨n, y, (if_neg hw).trans hn, hy, haccepts, within_and_left.trans hwithin⟩
  · exact fun _ _ => rfl
  · intro hphase
    have hw : ¬ w.Waiting := by
      intro hw
      change w.phase = _ ∨ w.phase = _ at hphase
      rcases hw.2 with hw | hw <;> rw [hw] at hphase <;> simp at hphase
    obtain ⟨hasked, htimed, hsent⟩ := hold.reported hphase
    have hwoken : (w.signal x).woken = w.woken := if_neg hw
    exact ⟨hasked, fun hnone => htimed (hwoken.symm.trans hnone),
      fun n hn => hsent n (hwoken.symm.trans hn)⟩
  · intro n hn
    by_cases hw : w.Waiting
    · obtain rfl : x.id = n := Option.some.inj ((if_pos hw).symm.trans hn)
      rw [length_append, length_singleton]
      omega
    · exact hold.known n ((if_neg hw).symm.trans hn)

inductive Advanced (w : Wait) : Move → Wait → Prop
  | left {m : Move} (rv : Status) (hphase : w.phase = .inLoop) : Advanced w m { w with phase := .left rv }
  | look {rv : Status} (hphase : w.phase = .left rv) :
      Advanced w .look { w with phase := if w.item.signaled then .saw rv else .looked rv }
  | report {rv : Status} (hphase : w.phase = .saw rv) :
      Advanced w .report { w with out := w.item.events, phase := .looked rv }
  | clear {rv : Status} (hphase : w.phase = .looked rv) : Advanced w .clear { w with phase := .returned rv }

theorem advanced_of_advance {m : Move} (h : w.advance m = some w') : Advanced w m w' := by
  cases m with
  | timedOut =>
    obtain ⟨hphase, heq⟩ := ite_none_right_eq_some.mp h
    cases heq
    exact .left .ok hphase.1
  | failed =>
    obtain ⟨hphase, heq⟩ := ite_none_right_eq_some.mp h
    cases heq
    exact .left .error hphase
  | wokenUp =>
    obtain ⟨hphase, heq⟩ := ite_none_right_eq_some.mp h
    cases heq
    exact .left .ok hphase.1
  | look =>
    rcases hphase : w.phase with _ | rv | rv | rv | rv <;> simp [Wait.advance, hphase] at h
    rw [← h]
    exact .look hphase
  | report =>
    rcases hphase : w.phase with _ | rv | rv | rv | rv <;> simp [Wait.advance, hphase] at h
    rw [← h]
    exact .report hphase
  | clear =>
    rcases hphase : w.phase with _ | rv | rv | rv | rv <;> simp [Wait.advance, hphase] at h
    rw [← h]
    exact .clear hphase

theorem Advanced.woken {m : Move} (h : Advanced w m w') : w'.woken = w.woken := by
  cases h <;> rfl

theorem WaitOk.left (h : WaitOk signals w) (hphase : w.phase = .inLoop) (rv : Status) :
    WaitOk signals { w with phase := .left rv } := by
  refine ⟨h.asked, fun _ hs => h.unsignaled (Or.inl hphase) hs, fun _ hs => h.signaled (Or.inl hphase) hs,
    fun _ hsaw => ?_, fun hreport => ?_, h.known⟩
  · cases hsaw
  · rcases hreport with hreport | hreport <;> cases hreport

theorem WaitOk.look (h : WaitOk signals w) {rv : Status} (hphase : w.phase = .left rv)
    (hout : rv = .ok → w.item.signaled = false → w.out = 0) :
    WaitOk signals { w with phase := if w.item.signaled then .saw rv else .looked rv } := by
  split_ifs with hs
  · refine ⟨h.asked, fun _ hfalse => ?_, fun hok hs => ?_, fun _ _ => hs, fun hreport => ?_, h.known⟩
    · exact absurd (hs.symm.trans hfalse) (by decide)
    · have hrv : rv = .ok := by simpa using hok
      exact h.signaled (Or.inr (Or.inl (hrv ▸ hphase))) hs
    · rcases hreport with hreport | hreport <;> cases hreport
  · rw [Bool.not_eq_true] at hs
    have hnone : w.woken = none := h.unsignaled (Or.inr ⟨rv, hphase⟩) hs
    refine waitOk_of_looked (Or.inl rfl) h.asked (fun hrv => ?_) h.known
    have hzero := hout hrv hs
    refine ⟨?_, fun _ => hzero, fun n hn => ?_⟩
    · exact hzero ▸ within_zero
    · exact absurd (hnone.symm.trans hn) (by simp)

theorem WaitOk.report (h : WaitOk signals w) {rv : Status} (hphase : w.phase = .saw rv) :
    WaitOk signals { w with out := w.item.events, phase := .looked rv } := by
  have hs := h.saw rv hphase
  refine waitOk_of_looked (Or.inl rfl) h.asked (fun hrv => ?_) h.known
  obtain ⟨n, x, hn, hx, hne, hwithin⟩ := h.signaled (Or.inr (Or.inr (hrv ▸ hphase))) hs
  refine ⟨h.asked, fun hnone => ?_, fun n' hn' => ?_⟩
  · exact absurd (hn.symm.trans hnone) (by simp)
  · obtain rfl : n = n' := Option.some.inj (hn.symm.trans hn')
    exact ⟨x, hx, hne, hwithin⟩

theorem WaitOk.clear (h : WaitOk signals w) {rv : Status} (hphase : w.phase = .looked rv) :
    WaitOk signals { w with phase := .returned rv } := by
  refine waitOk_of_looked (Or.inr rfl) h.asked (fun hrv => ?_) h.known
  obtain ⟨hasked, htimed, hsent⟩ := h.reported (Or.inl (hrv ▸ hphase))
  exact ⟨hasked, htimed, hsent⟩

theorem WaitOk.advance (h : WaitOk signals w) {m : Move} (hmove : Advanced w m w')
    (hout : m = .look → w.phase = .left .ok → w.item.signaled = false → w.out = 0) :
    WaitOk signals w' := by
  cases hmove with
  | left rv hphase => exact h.left hphase rv
  | look hphase => exact h.look hphase fun hrv => hout rfl (hrv ▸ hphase)
  | report hphase => exact h.report hphase
  | clear hphase => exact h.clear hphase

end Reports

section Ledger

variable {q before after : List SignalItem} {signals : List SignalItem} {taken taken' : Nat → Nat → Prop}

/-- Where each signal is: `q` is the queue, and `taken n t` says that wait `t` has signal `n`. -/
structure Accounted (q signals : List SignalItem) (taken : Nat → Nat → Prop) : Prop where
  numbered : ∀ (n : Nat) (x : SignalItem), signals[n]? = some x → x.id = n
  distinct : (q.map SignalItem.id).Nodup
  sent : ∀ x ∈ q, x.code ≠ 0 ∧ signals[x.id]? = some x
  known : ∀ n t, taken n t → n < signals.length
  once : ∀ n t t', taken n t → taken n t' → t = t'
  apart : ∀ x ∈ q, ∀ t, ¬ taken x.id t
  kept : ∀ (n : Nat) (x : SignalItem), signals[n]? = some x → x.code ≠ 0 → x ∈ q ∨ ∃ t, taken n t

theorem Accounted.congr (h : Accounted q signals taken) (htaken : ∀ n t, taken' n t ↔ taken n t) :
    Accounted q signals taken' := by
  obtain rfl : taken' = taken := by
    funext n t
    exact propext (htaken n t)
  exact h

theorem Accounted.take (h : Accounted (before ++ x :: after) signals taken) (t : Nat) :
    Accounted (before ++ after) signals fun n u => taken n u ∨ n = x.id ∧ u = t := by
  have hsub : (before ++ after).Sublist (before ++ x :: after) :=
    (List.Sublist.refl before).append (List.sublist_cons_self x after)
  have hmem : x ∈ before ++ x :: after := by simp
  obtain ⟨-, hx⟩ := h.sent x hmem
  constructor
  · exact h.numbered
  · exact h.distinct.sublist (hsub.map _)
  · exact fun y hy => h.sent y (hsub.subset hy)
  · rintro n u (hn | ⟨rfl, rfl⟩)
    · exact h.known n u hn
    · exact (List.getElem?_eq_some_iff.mp hx).1
  · rintro n u u' (hn | ⟨rfl, rfl⟩) (hn' | ⟨heq, rfl⟩)
    · exact h.once n u u' hn hn'
    · exact absurd (heq ▸ hn) (h.apart x hmem u)
    · exact absurd hn' (h.apart x hmem u')
    · rfl
  · rintro y hy u (hn | ⟨heq, rfl⟩)
    · exact h.apart y (hsub.subset hy) u hn
    · have hnodup := h.distinct
      rw [List.map_append, List.map_cons, List.nodup_middle, List.nodup_cons, ← List.map_append] at hnodup
      exact hnodup.1 (List.mem_map.mpr ⟨y, hy, heq⟩)
  · intro n y hn hcode
    rcases h.kept n y hn hcode with hy | ⟨u, hu⟩
    · rcases List.mem_append.mp hy with hy | hy
      · exact Or.inl (List.mem_append_left _ hy)
      · rcases List.mem_cons.mp hy with rfl | hy
        · exact Or.inr ⟨t, Or.inr ⟨(h.numbered n y hn).symm, rfl⟩⟩
        · exact Or.inl (List.mem_append_right _ hy)
    · exact Or.inr ⟨u, Or.inl hu⟩

theorem getElem?_snoc_cases {y : SignalItem} (h : (signals ++ [x])[n]? = some y) :
    signals[n]? = some y ∨ n = signals.length ∧ y = x := by
  rcases Nat.lt_trichotomy n signals.length with hlt | heq | hgt
  · rw [getElem?_append_left hlt] at h
    exact Or.inl h
  · rw [heq, getElem?_concat_length] at h
    exact Or.inr ⟨heq, (Option.some.inj h).symm⟩
  · have hlength : (signals ++ [x]).length ≤ n := by
      rw [length_append]
      exact hgt
    rw [getElem?_eq_none hlength] at h
    cases h

section

variable (h : Accounted q signals taken)
include h

section

variable (hid : x.id = signals.length)
include hid

theorem Accounted.id_ne {y : SignalItem} (hy : y ∈ q) : y.id ≠ x.id := by
  have hlt := ((List.getElem?_eq_some_iff.mp (h.sent y hy).2).1)
  omega

theorem Accounted.numbered_snoc
    {y : SignalItem} (hn : (signals ++ [x])[n]? = some y) : y.id = n := by
  rcases getElem?_snoc_cases hn with hn | ⟨rfl, rfl⟩
  · exact h.numbered n y hn
  · exact hid

theorem Accounted.send
    (htaken : ∀ n t, taken' n t → taken n t ∨ n = x.id) (hold : ∀ n t, taken n t → taken' n t)
    (honce : ∀ t t', taken' x.id t → taken' x.id t' → t = t')
    (hkept : x.code ≠ 0 → ∃ t, taken' x.id t) : Accounted q (signals ++ [x]) taken' := by
  constructor
  · exact fun _ _ hn => h.numbered_snoc hid hn
  · exact h.distinct
  · exact fun y hy => ⟨(h.sent y hy).1, getElem?_snoc_of_eq_some (h.sent y hy).2 x⟩
  · intro n t ht
    rw [length_append, length_singleton]
    rcases htaken n t ht with ht | rfl
    · exact Nat.lt_succ_of_lt (h.known n t ht)
    · omega
  · intro n t t' ht ht'
    by_cases hn : n = x.id
    · subst hn
      exact honce t t' ht ht'
    · exact h.once n t t' ((htaken n t ht).resolve_right hn) ((htaken n t' ht').resolve_right hn)
  · intro y hy t ht
    exact h.apart y hy t ((htaken _ t ht).resolve_right (h.id_ne hid hy))
  · intro n y hn hcode
    rcases getElem?_snoc_cases hn with hn | ⟨rfl, rfl⟩
    · rcases h.kept n y hn hcode with hy | ⟨t, ht⟩
      · exact Or.inl hy
      · exact Or.inr ⟨t, hold n t ht⟩
    · rw [← hid]
      exact Or.inr (hkept hcode)

theorem Accounted.wake (t : Nat) :
    Accounted q (signals ++ [x]) fun n u => taken n u ∨ n = x.id ∧ u = t := by
  have hfresh : ∀ u, ¬ taken x.id u := fun u hu => absurd (h.known _ u hu) (by omega)
  refine h.send hid ?_ (fun _ _ => Or.inl) ?_ fun _ => ⟨t, Or.inr ⟨rfl, rfl⟩⟩
  · rintro n u (hn | ⟨hn, -⟩)
    · exact Or.inl hn
    · exact Or.inr hn
  · rintro u u' (hu | ⟨-, rfl⟩) (hu' | ⟨-, rfl⟩)
    · exact absurd hu (hfresh u)
    · exact absurd hu (hfresh u)
    · exact absurd hu' (hfresh u')
    · rfl

theorem Accounted.ignore (hcode : x.code = 0) : Accounted q (signals ++ [x]) taken := by
  refine h.send hid (fun _ _ => Or.inl) (fun _ _ ht => ht) ?_ (absurd hcode)
  exact fun t t' ht ht' => h.once _ t t' ht ht'

theorem Accounted.queue (hcode : x.code ≠ 0) : Accounted (q ++ [x]) (signals ++ [x]) taken := by
  have hfresh : ∀ t, ¬ taken x.id t := fun t ht => absurd (h.known _ t ht) (by omega)
  constructor
  · exact fun _ _ hn => h.numbered_snoc hid hn
  · rw [map_append, nodup_append]
    refine ⟨h.distinct, by simp, ?_⟩
    intro i hi i' hi' heq
    obtain ⟨y, hy, rfl⟩ := mem_map.mp hi
    exact h.id_ne hid hy (heq.trans (by simpa using hi'))
  · refine forall_mem_append.mpr ⟨fun y hy => ?_, forall_mem_singleton.mpr ?_⟩
    · exact ⟨(h.sent y hy).1, getElem?_snoc_of_eq_some (h.sent y hy).2 x⟩
    · exact ⟨hcode, hid ▸ getElem?_concat_length⟩
  · intro n t ht
    rw [length_append]
    exact Nat.lt_add_right _ (h.known n t ht)
  · exact h.once
  · exact forall_mem_append.mpr ⟨h.apart, forall_mem_singleton.mpr hfresh⟩
  · intro n y hn hcode
    rcases getElem?_snoc_cases hn with hn | ⟨-, rfl⟩
    · rcases h.kept n y hn hcode with hy | ht
      · exact Or.inl (mem_append_left _ hy)
      · exact Or.inr ht
    · exact Or.inl (by simp)

end

end

end Ledger

section Runs

variable {r : Request} {allocated : Bool}

def Taken (s : State) (n t : Nat) : Prop := ∃ w, s.waits t = some w ∧ w.woken = some n

theorem taken_iff (hw : s.waits t = some w) : Taken s n t ↔ w.woken = some n := by
  simp [Taken, hw]

structure Invariant (s : State) : Prop where
  waits : ∀ t w, s.waits t = some w → WaitOk s.signals w
  ledger : Accounted (queued s.list) s.signals (Taken s)

theorem invariant_init : Invariant init := by
  refine ⟨fun _ _ h => (nomatch h), ?_⟩
  constructor
  · exact fun _ _ h => nomatch h
  · exact nodup_nil
  · exact fun _ h => nomatch h
  · exact fun _ _ h => nomatch h.choose_spec.1
  · exact fun _ _ _ h => nomatch h.choose_spec.1
  · exact fun _ h => nomatch h
  · exact fun _ _ h => nomatch h

theorem setWait_eq_some {u : Nat} {v : Wait} (h : (s.setWait t w).waits u = some v) :
    u = t ∧ v = w ∨ u ≠ t ∧ s.waits u = some v := by
  by_cases hu : u = t
  · subst hu
    exact Or.inl ⟨rfl, by simpa [State.setWait] using h.symm⟩
  · exact Or.inr ⟨hu, by simpa [State.setWait, hu] using h⟩

theorem taken_setWait {u : Nat} :
    Taken (s.setWait t w) n u ↔ u = t ∧ w.woken = some n ∨ u ≠ t ∧ Taken s n u := by
  by_cases hu : u = t
  · subst hu
    simp [Taken, State.setWait]
  · simp [Taken, State.setWait, hu]

theorem taken_setWait_same {u : Nat} (hw : ∀ n, w'.woken = some n ↔ Taken s n t) :
    Taken (s.setWait t w') n u ↔ Taken s n u := by
  rw [taken_setWait, hw]
  by_cases hu : u = t
  · simp [hu]
  · simp [hu]

theorem taken_setWait_new {u : Nat} (hw : ∀ m, ¬ Taken s m t) (hwoken : w'.woken = some x.id) :
    Taken (s.setWait t w') n u ↔ Taken s n u ∨ n = x.id ∧ u = t := by
  rw [taken_setWait, hwoken]
  by_cases hu : u = t
  · subst hu
    simp [hw n, eq_comm]
  · simp [hu]

/-- What a step must meet for no signal to be lost and no stale result to be reported. -/
def Sound (s : State) : Action → Prop
  | .wait _ _ _ => True
  | .signal code events allocated => code ≠ 0 →
      (∀ t w, findWaiter code events s = some (t, w) → w.Waiting) ∧
        (findWaiter code events s = none → allocated = true)
  | .move t m => m = .look → ∀ w, s.waits t = some w → w.phase = .left .ok →
      w.item.signaled = false → w.out = 0

theorem not_taken_of_none (h : s.waits t = none) (n : Nat) : ¬ Taken s n t := by
  rintro ⟨w, hw, -⟩
  rw [h] at hw
  cases hw

theorem waitOk_inLoop : WaitOk s.signals ⟨r, ⟨r.events, r.code, false⟩, .inLoop, r.out, none⟩ := by
  refine ⟨UInt32.and_self, fun _ _ => rfl, fun _ hs => (nomatch hs), fun _ hsaw => (nomatch hsaw),
    fun hreport => ?_, fun _ hn => nomatch hn⟩
  rcases hreport with hreport | hreport <;> cases hreport

theorem invariant_setWait (h : ∀ u v, s.waits u = some v → WaitOk s.signals v)
    (hw : WaitOk s.signals w)
    (hledger : Accounted (queued s.list) s.signals (Taken (s.setWait t w))) :
    Invariant (s.setWait t w) := by
  refine ⟨fun u v hv => ?_, hledger⟩
  rcases setWait_eq_some hv with ⟨rfl, rfl⟩ | ⟨-, hv⟩
  · exact hw
  · exact h u v hv

theorem wait_cases (h : wait s t r allocated = some s') :
    s' = s.setWait t ⟨r, ⟨r.events, r.code, false⟩, .returned .ok, 0, none⟩ ∨
    (∃ x list, getSignalItem r.code r.events s.list = some (x, list) ∧
      s' = { s with list := list }.setWait t
        ⟨r, ⟨r.events, r.code, false⟩, .returned .ok, x.events &&& r.events, some x.id⟩) ∨
    s' = { s with list := s.list ++ [Item.waiter t] }.setWait t
      ⟨r, ⟨r.events, r.code, false⟩, .inLoop, r.out, none⟩ := by
  unfold wait at h
  by_cases hearly : r.events = 0 ∨ r.msec = 0
  · rw [if_pos hearly] at h
    exact Or.inl (Option.some.inj h).symm
  rw [if_neg hearly] at h
  rcases hget : getSignalItem r.code r.events s.list with _ | ⟨x, list⟩
  · rw [hget] at h
    obtain ⟨-, heq⟩ := ite_none_right_eq_some.mp h
    exact Or.inr (Or.inr (Option.some.inj heq).symm)
  · rw [hget] at h
    exact Or.inr (Or.inl ⟨x, list, rfl, (Option.some.inj h).symm⟩)

theorem Invariant.wait (h : Invariant s) (ht : s.waits t = none)
    (hstep : wait s t r allocated = some s') : Invariant s' := by
  have hnew := not_taken_of_none ht
  rcases wait_cases hstep with rfl | ⟨x, list, hget, rfl⟩ | rfl
  · have hreported : Reported s.signals ⟨r, ⟨r.events, r.code, false⟩, .returned .ok, 0, none⟩ :=
      ⟨within_zero, fun _ => rfl, nofun⟩
    refine invariant_setWait h.waits
      (waitOk_of_looked (Or.inr rfl) UInt32.and_self (fun _ => hreported) nofun)
      (h.ledger.congr fun n u => taken_setWait_same fun m => ?_)
    exact iff_of_false nofun (hnew m)
  · obtain ⟨hanswers, before, after, hlist, hlist', -⟩ := getSignalItem_eq_some hget
    have hledger := h.ledger
    rw [hlist] at hledger
    obtain ⟨-, hx⟩ := hledger.sent x (by simp)
    have hledger := hledger.take t
    rw [← hlist'] at hledger
    have hne : x.events &&& r.events ≠ 0 := by
      simp only [SignalItem.answers, Bool.and_eq_true, bne_iff_ne] at hanswers
      exact hanswers.1
    refine invariant_setWait h.waits (waitOk_of_looked (Or.inr rfl) UInt32.and_self (fun _ => ?_) ?_)
      (hledger.congr fun n u => taken_setWait_new hnew rfl)
    · refine ⟨within_and_right, nofun, fun n hn => ?_⟩
      obtain rfl : x.id = n := Option.some.inj hn
      exact ⟨x, hx, hne, within_and_left⟩
    · intro n hn
      obtain rfl : x.id = n := Option.some.inj hn
      exact (List.getElem?_eq_some_iff.mp hx).1
  · have hqueued : queued (s.list ++ [Item.waiter t]) = queued s.list := by
      rw [queued_append, queued_waiter, List.append_nil]
    have hledger := h.ledger
    rw [← hqueued] at hledger
    refine invariant_setWait h.waits waitOk_inLoop
      (hledger.congr fun n u => taken_setWait_same fun m => ?_)
    exact iff_of_false nofun (hnew m)

theorem move_eq_some {m : Move} (h : move s t m = some s') : ∃ w w', s.waits t = some w ∧
    Advanced w m w' ∧ (s' = s.setWait t w' ∨
      s' = { s with list := s.list.filter fun i => !isWaiter t i }.setWait t w') := by
  unfold move at h
  simp only [bind_eq_bind, bind_eq_some_iff] at h
  obtain ⟨w, hw, w', hw', h⟩ := h
  refine ⟨w, w', hw, advanced_of_advance hw', ?_⟩
  split_ifs at h
  · exact Or.inr (Option.some.inj h).symm
  · exact Or.inl (Option.some.inj h).symm

theorem Invariant.move (h : Invariant s) {m : Move} (hok : Sound s (.move t m))
    (hstep : move s t m = some s') : Invariant s' := by
  obtain ⟨w, w', hw, hadvanced, hs'⟩ := move_eq_some hstep
  have hw' : WaitOk s.signals w' := (h.waits t w hw).advance hadvanced fun hm => hok hm w hw
  have hsame : ∀ n, w'.woken = some n ↔ Taken s n t := by
    intro n
    rw [hadvanced.woken, taken_iff hw]
  rcases hs' with rfl | rfl
  · exact invariant_setWait h.waits hw' (h.ledger.congr fun n u => taken_setWait_same hsame)
  · have hledger := h.ledger
    rw [← queued_clear s.list t] at hledger
    exact invariant_setWait h.waits hw' (hledger.congr fun n u => taken_setWait_same hsame)

theorem Invariant.signalWaiter (h : Invariant s) (hid : x.id = s.signals.length)
    (hfind : findWaiter code events s = some (t, w)) (hevents : x.events = events)
    (hwaiting : x.code ≠ 0 → w.Waiting) :
    Invariant ({ s with signals := s.signals ++ [x] }.setWait t (w.signal x)) := by
  obtain ⟨hw, haccepts⟩ := findWaiter_eq_some hfind
  have hmatch : w.item.events &&& x.events ≠ 0 := by
    simp only [WaiterItem.accepts, Bool.and_eq_true, bne_iff_ne] at haccepts
    rw [hevents]
    exact haccepts.1
  refine invariant_setWait (fun u v hv => (h.waits u v hv).snoc x) ((h.waits t w hw).signal hid hmatch) ?_
  -- a call that is past its look swallows the signal: only one without a code may come there
  by_cases hwait : w.Waiting
  · have hnew : ∀ n, ¬ Taken s n t := by
      intro n hn
      rw [taken_iff hw, (h.waits t w hw).waiting hwait] at hn
      cases hn
    exact (h.ledger.wake hid t).congr fun n u => taken_setWait_new hnew (if_pos hwait)
  · have hcode : x.code = 0 := by
      by_contra hne
      exact hwait (hwaiting hne)
    have hwoken : (w.signal x).woken = w.woken := if_neg hwait
    refine (h.ledger.ignore hid hcode).congr fun n u => taken_setWait_same fun m => ?_
    rw [hwoken]
    exact (taken_iff hw).symm

theorem Invariant.signal (h : Invariant s) (hok : Sound s (.signal code events allocated)) :
    Invariant (signal s code events allocated) := by
  unfold CWait.signal
  rcases hfind : findWaiter code events s with _ | ⟨t, w⟩
  · split_ifs with hqueue
    · refine ⟨fun u v hv => (h.waits u v hv).snoc _, ?_⟩
      have hledger := h.ledger.queue (x := ⟨s.signals.length, events, code⟩) rfl hqueue.1
      rw [queued_append]
      exact hledger
    · have hcode : code = 0 := by
        by_contra hne
        exact hqueue ⟨hne, (hok hne).2 hfind⟩
      exact ⟨fun u v hv => (h.waits u v hv).snoc _, h.ledger.ignore rfl hcode⟩
  · exact h.signalWaiter rfl hfind rfl fun hcode => (hok hcode).1 t w hfind

theorem Invariant.step {a : Action} (h : Invariant s) (hok : Sound s a) (hstep : step s a = some s') :
    Invariant s' := by
  cases a with
  | wait t r allocated =>
    simp only [CWait.step] at hstep
    split_ifs at hstep with hused
    exact h.wait (by simpa using hused) hstep
  | signal code events allocated =>
    obtain rfl := Option.some.inj hstep
    exact h.signal hok
  | move t m => exact h.move hok hstep

theorem invariant_of_run {as : List Action} (h : Run.Guarded step Sound init as s) : Invariant s :=
  h.invariant Invariant invariant_init fun _ _ _ hs hok hstep => hs.step hok hstep

end Runs

section Conservation

variable {r : Request}

/-- Signals are neither lost nor duplicated, and results are those of the signals. A wait that
comes while `x` is queued for it takes `x`, or a signal before `x` for the same code. -/
structure Conserved (s : State) : Prop where
  once : ∀ n t t', Taken s n t → Taken s n t' → t = t'
  apart : ∀ x ∈ queued s.list, ∀ t, ¬ Taken s x.id t
  kept : ∀ (n : Nat) (x : SignalItem), s.signals[n]? = some x → x.code ≠ 0 →
    x ∈ queued s.list ∨ ∃ t, Taken s n t
  available : ∀ x ∈ queued s.list, ∀ (t : Nat) (r : Request) (allocated : Bool), s.waits t = none →
    r.code = x.code → x.events &&& r.events ≠ 0 → r.msec ≠ 0 →
      ∃ s' y before after, step s (.wait t r allocated) = some s' ∧ Taken s' y.id t ∧
        y.code = x.code ∧ queued s.list = before ++ y :: after ∧ queued s'.list = before ++ after ∧
          x ∈ y :: after
  reported : ∀ t w, s.waits t = some w → w.phase = .returned .ok → Reported s.signals w

theorem step_of_getSignalItem {list : List Item} (ht : s.waits t = none) (hevents : r.events ≠ 0)
    (hmsec : r.msec ≠ 0) (hget : getSignalItem r.code r.events s.list = some (x, list))
    (allocated : Bool) : step s (.wait t r allocated) = some ({ s with list := list }.setWait t
      ⟨r, ⟨r.events, r.code, false⟩, .returned .ok, x.events &&& r.events, some x.id⟩) := by
  rw [step, ht, if_neg (by decide), wait, if_neg (not_or.mpr ⟨hevents, hmsec⟩), hget]

theorem Invariant.available (h : Invariant s) (hx : x ∈ queued s.list) (ht : s.waits t = none)
    (hcode : r.code = x.code) (hevents : x.events &&& r.events ≠ 0) (hmsec : r.msec ≠ 0)
    (allocated : Bool) : ∃ s' y before after, CWait.step s (.wait t r allocated) = some s' ∧
      Taken s' y.id t ∧ y.code = x.code ∧ queued s.list = before ++ y :: after ∧
        queued s'.list = before ++ after ∧ x ∈ y :: after := by
  have hanswers : x.answers r.code r.events = true := by
    simp [SignalItem.answers, hevents, hcode]
  have hasked : r.events ≠ 0 := by
    intro hzero
    rw [hzero, UInt32.and_zero] at hevents
    exact hevents rfl
  obtain ⟨y, list, hget⟩ := getSignalItem_isSome hx hanswers
  obtain ⟨hy, before, after, hlist, hlist', hbefore⟩ := getSignalItem_eq_some hget
  have hstep := step_of_getSignalItem ht hasked hmsec hget allocated
  refine ⟨_, y, before, after, hstep, ⟨_, Function.update_self t _ _, rfl⟩, ?_, hlist, hlist', ?_⟩
  · have hnonzero := (h.ledger.sent y (by simp [hlist])).1
    simp only [SignalItem.answers, Bool.and_eq_true, Bool.or_eq_true, beq_iff_eq] at hy
    exact (hy.2.resolve_right hnonzero).trans hcode
  · rw [hlist] at hx
    rcases mem_append.mp hx with hx | hx
    · rw [hbefore x hx] at hanswers
      cases hanswers
    · exact hx

/-- In a sound run no signal is lost, delivered twice or withheld. -/
theorem signals_conserved {as : List Action} (h : Run.Guarded step Sound init as s) :
    Conserved s := by
  have hs := invariant_of_run h
  refine ⟨hs.ledger.once, hs.ledger.apart, hs.ledger.kept, ?_, ?_⟩
  · exact fun x hx t r allocated ht hcode hevents hmsec =>
      hs.available hx ht hcode hevents hmsec allocated
  · exact fun t w hw hphase => (hs.waits t w hw).reported (Or.inr hphase)

def exampleRequest : Request := ⟨10, 5, 1, 0⟩

def exampleRun : List Action :=
  [.wait 0 exampleRequest true, .signal 5 3 true, .move 0 .wokenUp, .move 0 .look, .move 0 .report,
    .move 0 .clear, .signal 5 1 true, .wait 1 exampleRequest true]

theorem woken_then_queued_conserved : ∃ s, Run.exec step init exampleRun = some s ∧ Conserved s := by
  have h0 : Run.Guarded step Sound init [] init := .nil
  have h1 := h0.snoc (a := Action.wait 0 exampleRequest true) trivial rfl
  have h2 := h1.snoc (a := Action.signal 5 3 true)
    (fun _ => ⟨fun t w h => by cases h; decide, fun h => nomatch h⟩) rfl
  have h3 := h2.snoc (a := Action.move 0 .wokenUp) nofun rfl
  have h4 := h3.snoc (a := Action.move 0 .look) (fun _ w hw _ hs => by cases hw; cases hs) rfl
  have h5 := h4.snoc (a := Action.move 0 .report) nofun rfl
  have h6 := h5.snoc (a := Action.move 0 .clear) nofun rfl
  have h7 := h6.snoc (a := Action.signal 5 1 true) (fun _ => ⟨fun t w h => (nomatch h), fun _ => rfl⟩) rfl
  have h8 := h7.snoc (a := Action.wait 1 exampleRequest true) trivial rfl
  exact ⟨_, h8.exec, signals_conserved h8⟩

def lateRun : List Action :=
  [.wait 0 exampleRequest true, .move 0 .timedOut, .move 0 .look, .signal 5 1 true, .move 0 .clear]

theorem late_signal_lost : ∃ s, Run.exec step init lateRun = some s ∧ ¬ Conserved s := by
  refine ⟨_, rfl, fun h => ?_⟩
  rcases h.kept 0 ⟨0, 1, 5⟩ rfl (by decide) with hqueued | ⟨t, w, hw, hwoken⟩
  · exact absurd hqueued not_mem_nil
  cases t with
  | zero =>
    obtain rfl := Option.some.inj hw
    cases hwoken
  | succ t => cases hw

end Conservation

end MinkIpc.CWait
