import MinkIpc.UnmarshalExits
import Mathlib.Data.List.Nodup

/-! What is in custody when an argument vector has been read up to a word, and what becomes of
it: a failure leaves it as it is, and a release gives it back. -/

namespace MinkIpc.Unmarshal

open Ledger

section Entries

variable {exit : Exit} {i fdIdx : Nat} {before : Option Ref} {r : Ref}

theorem entries_elsewhere (hbefore : ∀ s, before = some s → s.slot = some i)
    (hr : r.slot ≠ some i) :
    acquired (exit.entries i fdIdx before) r = 0 ∧
      released (exit.entries i fdIdx before) r = 0 := by
  have hrec : Ref.recovered i ≠ r := fun h => hr (h ▸ rfl)
  have hmade : Ref.made i ≠ r := fun h => hr (h ▸ rfl)
  cases exit with
  | noMemory =>
    cases before with
    | none => exact ⟨rfl, rfl⟩
    | some s =>
      have hs : s ≠ r := fun h => hr (h ▸ hbefore s rfl)
      simp [Exit.entries, hs]
  | _ => simp [Exit.entries, hrec, hmade]

theorem acquired_entries_le : acquired (exit.entries i fdIdx before) r ≤ 1 := by
  have hnodup : (exit.entries i fdIdx before).Nodup := by
    cases exit with
    | noMemory => cases before <;> simp [Exit.entries]
    | _ => simp [Exit.entries]
  exact List.nodup_iff_count_le_one.mp hnodup _

theorem acquired_entries_prior (j : Nat) :
    acquired (exit.entries i fdIdx before) (.prior j) = 0 := by
  cases exit with
  | noMemory => cases before <;> simp [Exit.entries]
  | _ => simp [Exit.entries]

theorem closed_entries (x : Nat) : closed (exit.entries i fdIdx before) x = 0 := by
  cases exit with
  | noMemory => cases before <;> simp [Exit.entries]
  | _ => simp [Exit.entries]

theorem own_mem_entries {x : Nat} : .own r x ∈ exit.entries i fdIdx before ↔
    (exit = .wrapped ∨ exit = .wrapperFailed) ∧ r = .made i ∧ x = fdIdx := by
  cases exit with
  | noMemory => cases before <;> simp [Exit.entries]
  | _ => simp [Exit.entries]

theorem entries_accepted (h : exit.accepted = true) :
    (exit.slot i before = some r → r.slot = some i ∧ acquired (exit.entries i fdIdx before) r = 1 ∧
      released (exit.entries i fdIdx before) r = 0) ∧
    (exit.slot i before ≠ some r →
      released (exit.entries i fdIdx before) r = acquired (exit.entries i fdIdx before) r) := by
  cases exit with
  | null => simp [Exit.slot, Exit.entries]
  | recovered | attached | wrapped | mapped | forwarder =>
    refine ⟨fun hslot => ?_, fun hslot => ?_⟩
    · cases hslot
      simp [Exit.entries, Ref.slot]
    · simp only [Exit.slot, ne_eq, Option.some.injEq] at hslot
      simp [Exit.entries, hslot]
  | _ => cases h

end Entries

def Received (fds : List Int) (x : Nat) : Prop := ∃ fd, fds[x]? = some fd ∧ fd ≠ -1

structure RefsKept (prior : Nat → Bool) (c : Custody) : Prop where
  slot : ∀ i r, c.slots i = some r → r.slot = some i
  later : ∀ i, c.st.objs.length ≤ i → c.slots i = if prior i then some (.prior i) else none
  held : ∀ i r, i < c.st.objs.length → c.slots i = some r →
    acquired c.log r = 1 ∧ released c.log r = 0
  even : ∀ r, (∀ i, i < c.st.objs.length → c.slots i ≠ some r) → released c.log r = acquired c.log r
  once : ∀ r, acquired c.log r ≤ 1
  fresh : ∀ r, (∀ i, r.slot = some i → c.st.objs.length ≤ i) → acquired c.log r = 0
  foreign : ∀ i, acquired c.log (.prior i) = 0

structure FdsKept (fds : List Int) (c : Custody) : Prop where
  unclosed : ∀ x, closed c.log x = 0
  length : c.st.fds.length = fds.length
  unread : ∀ x, c.st.fdIdx ≤ x → c.st.fds[x]? = fds[x]? ∧ ∀ r, .own r x ∉ c.log
  read : ∀ x, x < c.st.fdIdx → c.st.fds[x]? = some (-1) ∧
    ∃ i r, i < c.st.objs.length ∧ c.slots i = some r ∧ ∀ r', .own r' x ∈ c.log ↔ r' = r

theorem leave_slots_self (c : Custody) (exit : Exit) (st : InState) :
    (c.leave exit st).slots c.st.objs.length =
      exit.slot c.st.objs.length (c.slots c.st.objs.length) :=
  Function.update_self ..

theorem leave_slots_of_ne (c : Custody) (exit : Exit) (st : InState) {i : Nat}
    (hi : i ≠ c.st.objs.length) : (c.leave exit st).slots i = c.slots i :=
  Function.update_of_ne hi ..

theorem slot_of_accepted {exit : Exit} {i : Nat} {before : Option Ref}
    (hacc : exit.accepted = true) : exit.slot i before = none ↔ exit = .null := by
  cases exit with
  | null | recovered | attached | wrapped | mapped | forwarder => simp [Exit.slot]
  | _ => cases hacc

theorem leave_slots_null_iff {c : Custody} {exit : Exit} {words : Nat} {st : InState}
    (hacc : exit.accepted = true) (hadv : Advanced exit words c.st st) :
    (∀ i, i < st.objs.length → (c.leave exit st).slots i = none) ↔
      (∀ i, i < c.st.objs.length → c.slots i = none) ∧ exit = .null := by
  rw [hadv.objs]
  constructor
  · intro h
    refine ⟨fun i hi => ?_, ?_⟩
    · rw [← leave_slots_of_ne c exit st (Nat.ne_of_lt hi)]
      exact h i (by omega)
    · have hself := h c.st.objs.length (by omega)
      rw [leave_slots_self] at hself
      exact (slot_of_accepted hacc).mp hself
  · rintro ⟨h, hnull⟩ i hi
    by_cases hn : i = c.st.objs.length
    · subst hn
      rw [leave_slots_self]
      exact (slot_of_accepted hacc).mpr hnull
    · rw [leave_slots_of_ne c exit st hn]
      exact h i (by omega)

namespace RefsKept

variable {prior : Nat → Bool} {c : Custody} {exit : Exit} {words : Nat} {st : InState} {r : Ref}

theorem new (pos : Nat) (fds : List Int) (prior : Nat → Bool) :
    RefsKept prior (Custody.new pos fds prior) := by
  refine ⟨fun i r h => ?_, fun _ _ => rfl, fun _ _ hi => absurd hi (Nat.not_lt_zero _),
    fun _ _ => rfl, fun _ => Nat.zero_le _,
    fun _ _ => rfl, fun _ => rfl⟩
  unfold Custody.new at h
  dsimp only at h
  split_ifs at h
  cases h
  rfl

section

variable (h : RefsKept prior c)
include h

theorem released_fresh
    (hr : ∀ i, r.slot = some i → c.st.objs.length ≤ i) : released c.log r = 0 := by
  rw [h.even r fun i hi hslot => absurd (hr i (h.slot i r hslot)) (Nat.not_le.mpr hi), h.fresh r hr]

theorem counts_leave_of_ne (hr : r.slot ≠ some c.st.objs.length) :
    acquired (c.leave exit st).log r = acquired c.log r ∧
      released (c.leave exit st).log r = released c.log r := by
  obtain ⟨ha, hrel⟩ := @entries_elsewhere exit c.st.objs.length c.st.fdIdx
    (c.slots c.st.objs.length) r (h.slot _) hr
  simp only [Custody.leave, acquired_append, released_append, ha, hrel]
  exact ⟨rfl, rfl⟩

theorem counts_leave_self (hr : r.slot = some c.st.objs.length) : acquired (c.leave exit st).log r =
        acquired (exit.entries c.st.objs.length c.st.fdIdx (c.slots c.st.objs.length)) r ∧
      released (c.leave exit st).log r =
        released (exit.entries c.st.objs.length c.st.fdIdx (c.slots c.st.objs.length)) r := by
  have hfresh : ∀ i, r.slot = some i → c.st.objs.length ≤ i := fun i hi => by
    rw [hr] at hi
    cases hi
    exact Nat.le_refl _
  simp only [Custody.leave, acquired_append, released_append, h.fresh r hfresh,
    h.released_fresh hfresh, Nat.zero_add]
  exact ⟨trivial, trivial⟩

theorem acquired_leave_le (r : Ref) : acquired (c.leave exit st).log r ≤ 1 := by
  by_cases hn : r.slot = some c.st.objs.length
  · rw [(h.counts_leave_self hn).1]
    exact acquired_entries_le
  · rw [(h.counts_leave_of_ne hn).1]
    exact h.once r

theorem leave (hacc : exit.accepted = true)
    (hadv : Advanced exit words c.st st) : RefsKept prior (c.leave exit st) := by
  have hlen : (c.leave exit st).st.objs.length = c.st.objs.length + 1 := hadv.objs
  have hentries := fun r => @entries_accepted exit c.st.objs.length c.st.fdIdx
    (c.slots c.st.objs.length) r hacc
  refine ⟨fun i r hi => ?_, fun i hi => ?_, fun i r hi hslot => ?_, fun r hr => ?_,
    h.acquired_leave_le, fun r hr => ?_, fun i => ?_⟩
  · by_cases hn : i = c.st.objs.length
    · subst hn
      rw [leave_slots_self] at hi
      exact ((hentries r).1 hi).1
    · rw [leave_slots_of_ne c exit st hn] at hi
      exact h.slot i r hi
  · rw [leave_slots_of_ne c exit st (by omega)]
    exact h.later i (by omega)
  · by_cases hn : i = c.st.objs.length
    · subst hn
      rw [leave_slots_self] at hslot
      obtain ⟨hr, hcounts⟩ := (hentries r).1 hslot
      rw [(h.counts_leave_self hr).1, (h.counts_leave_self hr).2]
      exact hcounts
    · rw [leave_slots_of_ne c exit st hn] at hslot
      have hne : r.slot ≠ some c.st.objs.length := by
        rw [h.slot i r hslot]
        simpa using hn
      rw [(h.counts_leave_of_ne hne).1, (h.counts_leave_of_ne hne).2]
      exact h.held i r (by omega) hslot
  · by_cases hn : r.slot = some c.st.objs.length
    · rw [(h.counts_leave_self hn).1, (h.counts_leave_self hn).2]
      refine (hentries r).2 ?_
      rw [← leave_slots_self c exit st]
      exact hr _ (by omega)
    · rw [(h.counts_leave_of_ne hn).1, (h.counts_leave_of_ne hn).2]
      refine h.even r fun i hi => ?_
      rw [← leave_slots_of_ne c exit st (by omega)]
      exact hr i (by omega)
  · have hn : r.slot ≠ some c.st.objs.length := fun hslot => by
      have := hr _ hslot
      omega
    rw [(h.counts_leave_of_ne hn).1]
    refine h.fresh r fun i hi => ?_
    have := hr i hi
    omega
  · simp only [Custody.leave, acquired_append, h.foreign, acquired_entries_prior]

end

end RefsKept

namespace FdsKept

variable {fds : List Int} {c : Custody} {exit : Exit} {words : Nat} {st : InState}

theorem new (pos : Nat) (fds : List Int) (prior : Nat → Bool) :
    FdsKept fds (Custody.new pos fds prior) :=
  ⟨fun _ => rfl, rfl, fun _ _ => ⟨rfl, fun _ => List.not_mem_nil⟩,
    fun _ hx => absurd hx (Nat.not_lt_zero _)⟩

theorem own_mem_leave {r : Ref} {x : Nat} : .own r x ∈ (c.leave exit st).log ↔
    .own r x ∈ c.log ∨ (exit = .wrapped ∨ exit = .wrapperFailed) ∧
      r = .made c.st.objs.length ∧ x = c.st.fdIdx := by
  unfold Custody.leave
  rw [List.mem_append, own_mem_entries]

theorem read_leave (h : FdsKept fds c) (hlen : st.objs.length = c.st.objs.length + 1)
    (hfds : ∀ x, x < c.st.fdIdx → st.fds[x]? = c.st.fds[x]?) {x : Nat} (hx : x < c.st.fdIdx) :
    (c.leave exit st).st.fds[x]? = some (-1) ∧
      ∃ i r, i < (c.leave exit st).st.objs.length ∧ (c.leave exit st).slots i = some r ∧
        ∀ r', .own r' x ∈ (c.leave exit st).log ↔ r' = r := by
  obtain ⟨hneg, i, r, hi, hslot, hown⟩ := h.read x hx
  refine ⟨(hfds x hx).trans hneg, i, r, hi.trans_le (by simp [Custody.leave, hlen]), ?_,
    fun r' => ?_⟩
  · rw [leave_slots_of_ne c exit st (Nat.ne_of_lt hi)]
    exact hslot
  · rw [own_mem_leave, hown]
    refine or_iff_left fun hnew => ?_
    omega

theorem leave_of_ne (h : FdsKept fds c) (hacc : exit.accepted = true)
    (hadv : Advanced exit words c.st st) (hne : exit ≠ .wrapped) :
    FdsKept fds (c.leave exit st) := by
  have hfds : st.fds = c.st.fds := hadv.fds.trans (if_neg hne)
  have hidx : st.fdIdx = c.st.fdIdx := by
    rw [hadv.fdIdx]
    cases exit <;> first | rfl | exact absurd rfl hne
  have hown : ∀ r x, .own r x ∉ c.log → .own r x ∉ (c.leave exit st).log := by
    intro r x hr hmem
    rcases own_mem_leave.mp hmem with hold | ⟨hwrap | rfl, -⟩
    · exact hr hold
    · exact hne hwrap
    · cases hacc
  refine ⟨fun x => ?_, ?_, fun x hx => ⟨?_, fun r => hown r x ?_⟩, fun x hx => ?_⟩
  · simp only [Custody.leave, closed_append, h.unclosed, closed_entries]
  · exact (congrArg List.length hfds).trans h.length
  · exact (congrArg (·[x]?) hfds).trans (h.unread x (hidx ▸ hx)).1
  · exact (h.unread x (hidx ▸ hx)).2 r
  · exact h.read_leave hadv.objs (fun y _ => by rw [hfds]) (hidx ▸ hx)

theorem leave_wrapped (h : FdsKept fds c) (hadv : Advanced .wrapped words c.st st)
    (hlt : c.st.fdIdx < fds.length) : FdsKept fds (c.leave .wrapped st) := by
  have hfds : st.fds = c.st.fds.set c.st.fdIdx (-1) := hadv.fds.trans (if_pos rfl)
  have hidx : st.fdIdx = c.st.fdIdx + 1 := hadv.fdIdx
  refine ⟨fun x => ?_, ?_, fun x hx => ?_, fun x hx => ?_⟩
  · simp only [Custody.leave, closed_append, h.unclosed, closed_entries]
  · rw [show (c.leave .wrapped st).st.fds = st.fds from rfl, hfds, List.length_set]
    exact h.length
  · have hx : c.st.fdIdx + 1 ≤ x := hidx ▸ hx
    obtain ⟨hsame, hown⟩ := h.unread x (by omega)
    refine ⟨?_, fun r hr => ?_⟩
    · rw [show (c.leave .wrapped st).st.fds = st.fds from rfl, hfds,
        List.getElem?_set_ne (by omega)]
      exact hsame
    · rcases own_mem_leave.mp hr with hold | ⟨-, -, hnew⟩
      · exact hown r hold
      · omega
  · have hx : x < c.st.fdIdx + 1 := hidx ▸ hx
    by_cases hlast : x = c.st.fdIdx
    · subst hlast
      refine ⟨?_, c.st.objs.length, .made c.st.objs.length, ?_, leave_slots_self c _ _,
        fun r' => ?_⟩
      · rw [show (c.leave .wrapped st).st.fds = st.fds from rfl, hfds,
          List.getElem?_set_self (h.length ▸ hlt)]
      · simp [Custody.leave, hadv.objs]
      · rw [own_mem_leave]
        have hown := (h.unread c.st.fdIdx (Nat.le_refl _)).2 r'
        simp [hown]
    · refine h.read_leave hadv.objs (fun y hy => ?_) (by omega)
      rw [hfds, List.getElem?_set_ne (by omega)]

theorem leave (h : FdsKept fds c) (hacc : exit.accepted = true)
    (hadv : Advanced exit words c.st st) (hlt : exit = .wrapped → c.st.fdIdx < fds.length) :
    FdsKept fds (c.leave exit st) := by
  by_cases hwrap : exit = .wrapped
  · subst hwrap
    exact h.leave_wrapped hadv (hlt rfl)
  · exact h.leave_of_ne hacc hadv hwrap

end FdsKept

section GiveBack

variable {prior : Nat → Bool} {fds : List Int} {c : Custody} {n : Nat} {r : Ref}

theorem acquired_giveBack : acquired (c.giveBack n) r = 0 := by
  simp only [Custody.giveBack, acquired_append, acquired_returns, acquired_closes]

theorem released_giveBack (hslot : ∀ i r, c.slots i = some r → r.slot = some i) {i : Nat}
    (hr : r.slot = some i) :
    released (c.giveBack n) r = if i < n ∧ c.slots i = some r then 1 else 0 := by
  have honly : ∀ j, c.slots j = some r → j = i := fun j hj => by
    have := hslot j r hj
    rw [hr] at this
    cases this
    rfl
  simp only [Custody.giveBack, released_append, released_closes, released_returns honly]
  rfl

theorem released_giveBack_of_none (hslot : ∀ i r, c.slots i = some r → r.slot = some i)
    (hr : r.slot = none) : released (c.giveBack n) r = 0 := by
  have hno : ∀ j, c.slots j ≠ some r := fun j hj => by
    have := hslot j r hj
    rw [hr] at this
    cases this
  have honly : ∀ j, c.slots j = some r → j = 0 := fun j hj => absurd hj (hno j)
  simp only [Custody.giveBack, released_append, released_closes, released_returns honly]
  rw [if_neg fun h => hno 0 h.2]

theorem closed_giveBack (x : Nat) : closed (c.giveBack n) x =
    if x < c.st.fds.length ∧ c.st.fds[x]? ≠ some (-1) then 1 else 0 := by
  simp only [Custody.giveBack, closed_append, closed_returns, closed_closes, Nat.zero_add,
    bne_iff_ne]

theorem own_not_mem_giveBack {x : Nat} : .own r x ∉ c.giveBack n := by
  intro h
  rcases List.mem_append.mp h with h | h
  · obtain ⟨s, hs⟩ := mem_returns h
    cases hs
  · obtain ⟨s, hs⟩ := mem_closes h
    cases hs

theorem settled_giveBack (hrefs : RefsKept (fun _ => false) c) (hfds : FdsKept fds c) :
    Settled (Received fds) (c.log ++ c.giveBack c.st.objs.length) := by
  generalize hlog : c.log ++ c.giveBack c.st.objs.length = log
  have hacq : ∀ r, acquired log r = acquired c.log r := fun r => by
    rw [← hlog, acquired_append, acquired_giveBack, Nat.add_zero]
  have hheld : ∀ i r, i < c.st.objs.length → c.slots i = some r → released log r = 1 := by
    intro i r hi hslot
    rw [← hlog, released_append, (hrefs.held i r hi hslot).2,
      released_giveBack hrefs.slot (hrefs.slot i r hslot), if_pos ⟨hi, hslot⟩]
  have hbal : ∀ r, released log r = acquired log r := by
    intro r
    rw [hacq]
    by_cases hr : ∃ i, i < c.st.objs.length ∧ c.slots i = some r
    · obtain ⟨i, hi, hslot⟩ := hr
      rw [hheld i r hi hslot, (hrefs.held i r hi hslot).1]
    have hno : ∀ i, i < c.st.objs.length → c.slots i ≠ some r := fun i hi hslot => hr ⟨i, hi, hslot⟩
    rw [← hlog, released_append, hrefs.even r hno]
    cases hrs : r.slot with
    | none => rw [released_giveBack_of_none hrefs.slot hrs, Nat.add_zero]
    | some i =>
      rw [released_giveBack hrefs.slot hrs, if_neg fun h => hno i h.1 h.2, Nat.add_zero]
  obtain ⟨honce, honly⟩ := (balanced_iff fun r => (hacq r).trans_le (hrefs.once r)).mpr hbal
  refine ⟨honce, honly, fun x ⟨fd, hfd, hne⟩ => ?_⟩
  subst hlog
  by_cases hlt : x < c.st.fdIdx
  · obtain ⟨hneg, i, r, hi, hslot, hown⟩ := hfds.read x hlt
    refine .inr ⟨?_, r, fun r' => ?_, hheld i r hi hslot⟩
    · rw [closed_append, hfds.unclosed, closed_giveBack, if_neg fun h => h.2 hneg]
    · rw [List.mem_append, hown]
      exact or_iff_left own_not_mem_giveBack
  · obtain ⟨hsame, hown⟩ := hfds.unread x (Nat.not_lt.mp hlt)
    refine .inl ⟨?_, fun r hr => ?_⟩
    · have hlen : x < fds.length := (List.getElem?_eq_some_iff.mp hfd).1
      rw [closed_append, hfds.unclosed, closed_giveBack, if_pos]
      refine ⟨hfds.length ▸ hlen, fun hneg => hne ?_⟩
      rw [hsame, hfd] at hneg
      exact Option.some.inj hneg
    · rcases List.mem_append.mp hr with hr | hr
      · exact hown r hr
      · exact own_not_mem_giveBack hr

end GiveBack

section Rejected

variable {prior : Nat → Bool} {fds : List Int} {c : Custody} {exit : Exit} {st : InState}

theorem entries_rejected {i fdIdx : Nat} {before : Option Ref} (hrej : exit.accepted = false)
    (hwrap : exit ≠ .wrapperFailed) (hbefore : exit = .noMemory → before = none) (r : Ref) :
    released (exit.entries i fdIdx before) r = acquired (exit.entries i fdIdx before) r := by
  cases exit with
  | null | recovered | attached | wrapped | mapped | forwarder => cases hrej
  | wrapperFailed => exact absurd rfl hwrap
  | noMemory =>
    rw [hbefore rfl]
    rfl
  | _ => simp [Exit.entries]

theorem settled_rejected_iff (hrefs : RefsKept prior c) (hfds : FdsKept fds c)
    (hrej : exit.accepted = false)
    (hbefore : exit = .noMemory → c.slots c.st.objs.length = none) :
    Settled (Received fds) (c.leave exit st).log ↔ (∀ x, ¬ Received fds x) ∧
      (∀ i, i < c.st.objs.length → c.slots i = none) ∧ exit ≠ .wrapperFailed := by
  have hwrapped : exit ≠ .wrapped := by
    rintro rfl
    cases hrej
  constructor
  · intro h
    have hbal := (balanced_iff hrefs.acquired_leave_le).mp ⟨h.once, h.only⟩
    have hearlier : ∀ i, i < c.st.objs.length → c.slots i = none := by
      intro i hi
      refine Option.eq_none_iff_forall_ne_some.mpr fun r hslot => ?_
      have hne : r.slot ≠ some c.st.objs.length := by
        rw [hrefs.slot i r hslot]
        simpa using Nat.ne_of_lt hi
      have hr := hbal r
      rw [(hrefs.counts_leave_of_ne hne).1, (hrefs.counts_leave_of_ne hne).2,
        (hrefs.held i r hi hslot).1, (hrefs.held i r hi hslot).2] at hr
      cases hr
    have hwrap : exit ≠ .wrapperFailed := by
      rintro rfl
      have hr := hbal (.made c.st.objs.length)
      rw [(hrefs.counts_leave_self rfl).1, (hrefs.counts_leave_self rfl).2] at hr
      simp [Exit.entries] at hr
    refine ⟨fun x hx => ?_, hearlier, hwrap⟩
    by_cases hlt : x < c.st.fdIdx
    · obtain ⟨-, i, r, hi, hslot, -⟩ := hfds.read x hlt
      rw [hearlier i hi] at hslot
      cases hslot
    rcases h.descriptors x hx with ⟨hclosed, -⟩ | ⟨-, r, hown, -⟩
    · simp [Custody.leave, hfds.unclosed, closed_entries] at hclosed
    · rcases FdsKept.own_mem_leave.mp ((hown r).mpr rfl) with hold | ⟨hexit | hexit, -⟩
      · exact (hfds.unread x (Nat.not_lt.mp hlt)).2 r hold
      · exact hwrapped hexit
      · exact hwrap hexit
  · rintro ⟨hno, hearlier, hwrap⟩
    have hbal : ∀ r, released (c.leave exit st).log r = acquired (c.leave exit st).log r := by
      intro r
      by_cases hn : r.slot = some c.st.objs.length
      · rw [(hrefs.counts_leave_self hn).1, (hrefs.counts_leave_self hn).2]
        exact entries_rejected hrej hwrap hbefore r
      · rw [(hrefs.counts_leave_of_ne hn).1, (hrefs.counts_leave_of_ne hn).2]
        refine hrefs.even r fun i hi hslot => ?_
        rw [hearlier i hi] at hslot
        cases hslot
    obtain ⟨honce, honly⟩ := (balanced_iff hrefs.acquired_leave_le).mpr hbal
    exact ⟨honce, honly, fun x hx => absurd hx (hno x)⟩

end Rejected

end MinkIpc.Unmarshal
