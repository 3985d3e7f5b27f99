import MinkIpc.CustodyKept

/-! The receiving end of a response whose objects cannot all be unmarshalled. The clean-up of
`MarshalIn_caller` releases every output slot, whatever is in it, and not every failure reaches
the clean-up. -/

namespace MinkIpc.Unmarshal

open Bytes Ledger

/-- After the failure the ledger is settled and the first `n` slots are null. -/
structure CleanedUp (fds : List Int) (n : Nat) (c : Custody) : Prop where
  settled : Settled (Received fds) c.log
  null : ∀ i, i < n → c.slots i = none

def Exit.SlotClean (prior : Bool) : Exit → Prop
  | .notMemparcel => False
  | .noDescriptor | .noForwarder | .noMemory => prior = false
  | _ => True

section Slot

variable {exit : Exit} {i fdIdx : Nat} {before : Option Ref} {p : Bool}

theorem forall_slot_iff {P : Ref → Prop} :
    (∀ r, r.slot = some i → P r) ↔ P (.prior i) ∧ P (.recovered i) ∧ P (.made i) := by
  constructor
  · exact fun h => ⟨h _ rfl, h _ rfl, h _ rfl⟩
  · rintro ⟨hprior, hrec, hmade⟩ r hr
    cases r with
    | prior j | recovered j | made j =>
      cases hr
      assumption
    | _ => cases hr

theorem slotClean_iff (hrej : exit.accepted = false) (htried : exit.tried = true)
    (hbefore : before = if p then some (.prior i) else none) :
    (∀ r, r.slot = some i → released (exit.entries i fdIdx before) r +
      (if exit.slot i before = some r then 1 else 0) =
        acquired (exit.entries i fdIdx before) r) ↔ exit.SlotClean p := by
  rw [forall_slot_iff, hbefore]
  cases exit with
  | null | recovered | attached | wrapped | mapped | forwarder => cases hrej
  | position | unmatched => cases htried
  | _ => cases p <;> simp [Exit.entries, Exit.slot, Exit.SlotClean]

end Slot

section Tried

variable {prior : Nat → Bool} {fds : List Int} {c : Custody} {exit : Exit} {st : InState} {n : Nat}

theorem leave_slots_index (hrefs : RefsKept prior c) :
    ∀ j r, (c.leave exit st).slots j = some r → r.slot = some j := by
  intro j r hj
  by_cases hn : j = c.st.objs.length
  · subst hn
    rw [leave_slots_self] at hj
    cases exit with
    | position | unmatched | noDescriptor | noForwarder => exact hrefs.slot _ r hj
    | _ => cases hj <;> rfl
  · rw [leave_slots_of_ne c exit st hn] at hj
    exact hrefs.slot j r hj

theorem acquired_cleanup (c : Custody) (n : Nat) (r : Ref) :
    acquired (c.cleanup n).log r = acquired c.log r := by
  rw [Custody.cleanup, acquired_append, acquired_giveBack, Nat.add_zero]

theorem released_cleanup {d : Custody} (hslot : ∀ j r, d.slots j = some r → r.slot = some j)
    {r : Ref} {j : Nat} (hr : r.slot = some j) :
    released (d.cleanup n).log r =
      released d.log r + if j < n ∧ d.slots j = some r then 1 else 0 := by
  rw [Custody.cleanup, released_append, released_giveBack hslot hr]

theorem counts_later (hrefs : RefsKept prior c) {r : Ref} {j : Nat} (hr : r.slot = some j)
    (hj : c.st.objs.length < j) : acquired c.log r = 0 ∧ released c.log r = 0 := by
  have hle : ∀ k, r.slot = some k → c.st.objs.length ≤ k := fun k hk => by
    rw [hr] at hk
    cases hk
    exact Nat.le_of_lt hj
  exact ⟨hrefs.fresh r hle, hrefs.released_fresh hle⟩

theorem balanced_earlier (hrefs : RefsKept prior c) {r : Ref} {j : Nat} (hr : r.slot = some j)
    (hj : j < c.st.objs.length) (hn : j < n) :
    released c.log r + (if j < n ∧ c.slots j = some r then 1 else 0) = acquired c.log r := by
  by_cases hheld : c.slots j = some r
  · rw [if_pos ⟨hn, hheld⟩, (hrefs.held j r hj hheld).1, (hrefs.held j r hj hheld).2]
  rw [if_neg fun h => hheld h.2]
  refine hrefs.even r fun k _ hk => hheld ?_
  have hslot := hrefs.slot k r hk
  rw [hr] at hslot
  cases hslot
  exact hk

theorem balanced_cleanup_iff (hrefs : RefsKept prior c) (hrej : exit.accepted = false)
    (htried : exit.tried = true) (hn : c.st.objs.length < n) :
    (∀ r, released ((c.leave exit st).cleanup n).log r =
      acquired ((c.leave exit st).cleanup n).log r) ↔
      exit.SlotClean (prior c.st.objs.length) ∧
        ∀ j, c.st.objs.length < j → j < n → prior j = false := by
  have hslot := @leave_slots_index prior c exit st hrefs
  rw [← @slotClean_iff exit _ c.st.fdIdx _ _ hrej htried (hrefs.later _ (Nat.le_refl _))]
  constructor
  · intro h
    refine ⟨fun r hr => ?_, fun j hj hlt => Bool.eq_false_iff.mpr fun hprior => ?_⟩
    · have hbal := h r
      obtain ⟨hacq, hrel⟩ := hrefs.counts_leave_self hr
      rw [acquired_cleanup, released_cleanup hslot hr, leave_slots_self, hacq, hrel] at hbal
      simpa only [hn, true_and] using hbal
    · have hne : (Ref.prior j).slot ≠ some c.st.objs.length := by
        simpa [Ref.slot] using Nat.ne_of_gt hj
      have hbal := h (.prior j)
      rw [acquired_cleanup, released_cleanup hslot rfl, leave_slots_of_ne c exit st
        (Nat.ne_of_gt hj), hrefs.later j (Nat.le_of_lt hj), hprior,
        if_pos ⟨hlt, rfl⟩, (hrefs.counts_leave_of_ne hne).1,
        (counts_later hrefs rfl hj).1] at hbal
      cases hbal
  · rintro ⟨hclean, hlater⟩ r
    rw [acquired_cleanup]
    cases hr : r.slot with
    | none =>
      have hne : r.slot ≠ some c.st.objs.length := by
        rw [hr]
        exact (Option.some_ne_none _).symm
      obtain ⟨hacq, hrel⟩ := hrefs.counts_leave_of_ne hne
      rw [Custody.cleanup, released_append, released_giveBack_of_none hslot hr, hacq, hrel]
      refine hrefs.even r fun k _ hk => ?_
      have := hrefs.slot k r hk
      rw [hr] at this
      cases this
    | some j =>
      rw [released_cleanup hslot hr]
      by_cases hj : j = c.st.objs.length
      · subst hj
        obtain ⟨hacq, hrel⟩ := hrefs.counts_leave_self hr
        rw [leave_slots_self, hacq, hrel]
        simpa only [hn, true_and] using hclean r hr
      have hne : r.slot ≠ some c.st.objs.length := by
        rw [hr]
        simpa using hj
      obtain ⟨hacq, hrel⟩ := hrefs.counts_leave_of_ne hne
      rw [leave_slots_of_ne c exit st hj, hacq, hrel]
      rcases Nat.lt_or_gt_of_ne hj with hlt | hgt
      · exact balanced_earlier hrefs hr hlt (hlt.trans hn)
      obtain ⟨hnone, hzero⟩ := counts_later hrefs hr hgt
      rw [hnone, hzero, hrefs.later j (Nat.le_of_lt hgt), if_neg]
      rintro ⟨hjn, hsome⟩
      rw [hlater j hgt hjn] at hsome
      cases hsome

theorem descriptors_cleanup_iff (hrefs : RefsKept prior c) (hfds : FdsKept fds c)
    (hrej : exit.accepted = false) (hst : st.fds = c.st.fds) (hn : c.st.objs.length < n)
    {log : List (Entry Ref Nat)} (hlog : log = ((c.leave exit st).cleanup n).log) :
    (∀ x, Received fds x → (closed log x = 1 ∧ ∀ r, .own r x ∉ log) ∨
      (closed log x = 0 ∧ ∃ r, (∀ r', .own r' x ∈ log ↔ r' = r) ∧ released log r = 1)) ↔
      (exit = .wrapperFailed → ¬ Received fds c.st.fdIdx) := by
  have hslot := @leave_slots_index prior c exit st hrefs
  have hwrapped : exit ≠ .wrapped := by
    rintro rfl
    cases hrej
  have hown : ∀ r x, .own r x ∈ log ↔
      .own r x ∈ c.log ∨ exit = .wrapperFailed ∧ r = .made c.st.objs.length ∧ x = c.st.fdIdx := by
    intro r x
    rw [hlog, Custody.cleanup, List.mem_append, or_iff_left own_not_mem_giveBack,
      FdsKept.own_mem_leave, or_iff_right hwrapped]
  have hclosed : ∀ x, closed log x =
      if x < c.st.fds.length ∧ c.st.fds[x]? ≠ some (-1) then 1 else 0 := by
    intro x
    rw [hlog, Custody.cleanup, closed_append, closed_giveBack]
    simp only [Custody.leave, closed_append, hfds.unclosed, closed_entries, hst, Nat.zero_add]
  -- a received descriptor that was not read is closed by the clean-up
  have hopen : ∀ x, Received fds x → c.st.fdIdx ≤ x → closed log x = 1 := by
    rintro x ⟨fd, hfd, hne⟩ hx
    rw [hclosed, if_pos]
    refine ⟨hfds.length ▸ (List.getElem?_eq_some_iff.mp hfd).1, fun hneg => hne ?_⟩
    rw [(hfds.unread x hx).1, hfd] at hneg
    exact Option.some.inj hneg
  constructor
  · intro h hexit hx
    rcases h _ hx with ⟨-, hno⟩ | ⟨hzero, -⟩
    · exact hno _ ((hown _ _).mpr (.inr ⟨hexit, rfl, rfl⟩))
    · rw [hopen _ hx (Nat.le_refl _)] at hzero
      cases hzero
  · intro h x hx
    by_cases hlt : x < c.st.fdIdx
    · obtain ⟨hneg, i, r, hi, hheld, howner⟩ := hfds.read x hlt
      have hr := hrefs.slot i r hheld
      have hne : r.slot ≠ some c.st.objs.length := by
        rw [hr]
        simpa using Nat.ne_of_lt hi
      refine .inr ⟨?_, r, fun r' => ?_, ?_⟩
      · rw [hclosed, if_neg fun h => h.2 hneg]
      · rw [hown, howner]
        exact or_iff_left fun hnew => absurd hnew.2.2 (Nat.ne_of_lt hlt)
      · rw [hlog, released_cleanup hslot hr, (hrefs.counts_leave_of_ne hne).2,
          (hrefs.held i r hi hheld).2, leave_slots_of_ne c exit st (Nat.ne_of_lt hi),
          if_pos ⟨hi.trans hn, hheld⟩]
    · refine .inl ⟨hopen x hx (Nat.not_lt.mp hlt), fun r hr => ?_⟩
      rcases (hown r x).mp hr with hold | ⟨hexit, -, rfl⟩
      · exact (hfds.unread x (Nat.not_lt.mp hlt)).2 r hold
      · exact h hexit hx

theorem cleanedUp_tried_iff (hrefs : RefsKept prior c) (hfds : FdsKept fds c)
    (hrej : exit.accepted = false) (htried : exit.tried = true) (hst : st.fds = c.st.fds)
    (hn : c.st.objs.length < n) :
    CleanedUp fds n ((c.leave exit st).cleanup n) ↔ (exit.SlotClean (prior c.st.objs.length) ∧
        ∀ j, c.st.objs.length < j → j < n → prior j = false) ∧
      (exit = .wrapperFailed → ¬ Received fds c.st.fdIdx) := by
  rw [← @balanced_cleanup_iff prior c exit st n hrefs hrej htried hn,
    ← descriptors_cleanup_iff hrefs hfds hrej hst hn rfl]
  have hacq : ∀ r, acquired ((c.leave exit st).cleanup n).log r ≤ 1 := fun r => by
    rw [acquired_cleanup]
    exact hrefs.acquired_leave_le r
  rw [← balanced_iff hacq]
  constructor
  · exact fun h => ⟨⟨h.settled.once, h.settled.only⟩, h.settled.descriptors⟩
  · rintro ⟨⟨honce, honly⟩, hdesc⟩
    exact ⟨⟨honce, honly, hdesc⟩, fun i hi => if_pos hi⟩

end Tried

section Untried

variable {prior : Nat → Bool} {fds : List Int} {c : Custody} {n : Nat}

theorem cleanedUp_untried_iff (hrefs : RefsKept prior c) (hfds : FdsKept fds c) :
    CleanedUp fds n c ↔ (∀ x, ¬ Received fds x) ∧ (∀ i, i < c.st.objs.length → c.slots i = none) ∧
      ∀ j, c.st.objs.length ≤ j → j < n → prior j = false := by
  have hsettled := @settled_rejected_iff prior fds c .unmatched c.st hrefs hfds rfl nofun
  rw [c.leave_untried rfl] at hsettled
  have hprior : ∀ j, c.st.objs.length ≤ j → (c.slots j = none ↔ prior j = false) := fun j hj => by
    rw [hrefs.later j hj]
    cases prior j <;> simp
  constructor
  · intro h
    obtain ⟨hno, hearlier, -⟩ := hsettled.mp h.settled
    exact ⟨hno, hearlier, fun j hj hlt => (hprior j hj).mp (h.null j hlt)⟩
  · rintro ⟨hno, hearlier, hlater⟩
    refine ⟨hsettled.mpr ⟨hno, hearlier, by decide⟩, fun i hi => ?_⟩
    by_cases hlt : i < c.st.objs.length
    · exact hearlier i hlt
    · exact (hprior i (Nat.not_lt.mp hlt)).mpr (hlater i (Nat.not_lt.mp hlt) hi)

end Untried

/-- The clean-up condition for `m` objects from slot `i` on, which decides at the first one that
is refused. `allNull` says that the objects before were null. -/
def ArgVector.CleansUp (v : ArgVector) (fds : List Int) (prior : Nat → Bool) (n : Nat) :
    Nat → Nat → Nat → Nat → Bool → Prop
  | 0, _, _, _, _ => True
  | m + 1, i, pos, fdIdx, allNull =>
    if (v.exit pos fdIdx).accepted then
      v.CleansUp fds prior n m (i + 1) (pos + v.words pos (v.exit pos fdIdx))
        (fdIdx + (v.exit pos fdIdx).taken) (allNull && v.exit pos fdIdx == .null)
    else if (v.exit pos fdIdx).tried then
      ((v.exit pos fdIdx).SlotClean (prior i) ∧ ∀ j, i < j → j < n → prior j = false) ∧
        (v.exit pos fdIdx = .wrapperFailed → ¬ Received fds fdIdx)
    else (∀ x, ¬ Received fds x) ∧ allNull = true ∧ ∀ j, i ≤ j → j < n → prior j = false

section Objects

variable {sock : MinkSocket} {table : Table} {env : Env} {a : Nat → Arg} {fds : List Int}
  {prior : Nat → Bool} {c c' : Custody} {e : ObjectError} {n : Nat}

theorem trackCallerObjects_succ (n m : Nat) (c : Custody) :
    trackCallerObjects sock table env a n (m + 1) c =
      (trackCallerObject sock table env a n c).bind (trackCallerObjects sock table env a n m) :=
  rfl

theorem trackCallerObjects_cleanedUp_iff {v : ArgVector}
    (hv : v = callerVector sock table env a fds.length) {m : Nat} {allNull : Bool}
    (hrefs : RefsKept prior c) (hfds : FdsKept fds c) (hn : c.st.objs.length + m = n)
    (hnull : (∀ i, i < c.st.objs.length → c.slots i = none) ↔ allNull = true)
    (h : trackCallerObjects sock table env a n m c = .error e c') :
    CleanedUp fds n c' ↔ v.CleansUp fds prior n m c.st.objs.length c.st.pos c.st.fdIdx allNull := by
  induction m generalizing c allNull with
  | zero => cases h
  | succ m ih =>
    unfold ArgVector.CleansUp
    rw [trackCallerObjects_succ] at h
    generalize hexit : v.exit c.st.pos c.st.fdIdx = exit
    obtain ⟨hok, herror⟩ := trackCallerObject_spec hfds.length n (hv ▸ hexit.symm)
    cases hacc : exit.accepted with
    | true =>
      obtain ⟨st, hst, hadv⟩ := hok hacc
      rw [← hv] at hadv
      rw [hst] at h
      have hlt : exit = .wrapped → c.st.fdIdx < fds.length := fun hwrap => by
        have hlt := exit_wrapped_lt (hexit.trans hwrap)
        rw [hv] at hlt
        exact hlt
      have hnull' : (∀ i, i < st.objs.length → (c.leave exit st).slots i = none) ↔
          (allNull && exit == .null) = true := by
        rw [leave_slots_null_iff hacc hadv, hnull, Bool.and_eq_true, beq_iff_eq]
      have hiff := ih (hrefs.leave hacc hadv) (hfds.leave hacc hadv hlt)
        (by rw [show (c.leave exit st).st = st from rfl, hadv.objs]; omega) hnull' h
      rw [show (c.leave exit st).st = st from rfl, hadv.objs, hadv.pos, hadv.fdIdx] at hiff
      exact hiff
    | false =>
      obtain ⟨e', st, hst, hsame⟩ := herror hacc
      rw [hst] at h
      cases htried : exit.tried with
      | true =>
        rw [htried] at h
        cases h
        exact cleanedUp_tried_iff hrefs hfds hacc htried hsame (by omega)
      | false =>
        rw [htried] at h
        cases h
        rw [← hnull]
        exact cleanedUp_untried_iff hrefs hfds

end Objects

def ResponsePasses (sock : MinkSocket) (data : Mem) (k : Nat) (bo : List OutBuffer) : Prop :=
  sizeSucc sock data k ≤ hdrSize data ∧
    ∃ bo', marshalInCallerBuffers data (hdrSize data) bo 0 (sizeSucc sock data k) = .ok bo'

def responseVector (sock : MinkSocket) (table : Table) (env : Env) (data : Mem)
    (fds : List Int) : ArgVector :=
  callerVector sock table env (argObj data succArgs) fds.length

/-- When a check before the objects fails there must be nothing to clean up, and else the first
refused object decides. -/
theorem trackCaller_cleanedUp_iff {sock : MinkSocket} {table : Table} {env : Env} {data : Mem}
    {fds : List Int} {k : Nat} {bo : List OutBuffer} {prior : Nat → Bool} {e : ObjectError}
    {c : Custody} (h : trackCaller sock table env data fds k bo prior = .error e c) :
    CleanedUp fds (numOO k) c ↔
      (ResponsePasses sock data k bo → (responseVector sock table env data fds).CleansUp fds prior
        (numOO k) (numOO k) 0 (numBO k) 0 true) ∧
      (¬ ResponsePasses sock data k bo →
        (∀ x, ¬ Received fds x) ∧ ∀ j, j < numOO k → prior j = false) := by
  have hrefs := RefsKept.new (numBO k) fds prior
  have hfds := FdsKept.new (numBO k) fds prior
  have huntried : CleanedUp fds (numOO k) (Custody.new (numBO k) fds prior) ↔
      (∀ x, ¬ Received fds x) ∧ ∀ j, j < numOO k → prior j = false := by
    rw [cleanedUp_untried_iff hrefs hfds]
    exact and_congr_right fun _ =>
      ⟨fun h j hj => h.2 j (Nat.zero_le _) hj, fun h => ⟨nofun, fun j _ hj => h j hj⟩⟩
  unfold trackCaller at h
  by_cases hsize : sizeSucc sock data k > hdrSize data
  · have hfails : ¬ ResponsePasses sock data k bo := fun hp => absurd hp.1 (by omega)
    rw [if_pos hsize] at h
    cases h
    rw [huntried]
    exact ⟨fun h => ⟨fun hp => absurd hp hfails, fun _ => h⟩, fun h => h.2 hfails⟩
  rw [if_neg hsize, if_neg (Nat.not_lt.mpr (total_le k))] at h
  cases hbo : marshalInCallerBuffers data (hdrSize data) bo 0 (sizeSucc sock data k) with
  | error e' bo' =>
    have hfails : ¬ ResponsePasses sock data k bo := fun hp => by
      obtain ⟨bo'', hok⟩ := hp.2
      rw [hbo] at hok
      cases hok
    rw [hbo] at h
    cases h
    rw [huntried]
    exact ⟨fun h => ⟨fun hp => absurd hp hfails, fun _ => h⟩, fun h => h.2 hfails⟩
  | ok bo' =>
    have hpasses : ResponsePasses sock data k bo := ⟨Nat.not_lt.mp hsize, bo', hbo⟩
    rw [hbo] at h
    have hiff := @trackCallerObjects_cleanedUp_iff sock table env (argObj data succArgs) fds prior
      _ _ _ _ (responseVector sock table env data fds) rfl _ true hrefs hfds (Nat.zero_add _)
      (iff_of_true nofun rfl) h
    rw [hiff]
    exact ⟨fun h => ⟨fun _ => h, absurd hpasses⟩, fun h => h.1 hpasses⟩

def oneObject (size flags handle : Nat) : Mem :=
  write (fun _ => 0) 0 (le 4 size ++ le 4 2 ++ le 4 7 ++ le 2 flags ++ le 2 handle)

theorem trackCaller_cleanedUp_unknown : ∃ c, trackCaller localSock sampleTable healthyEnv
      (oneObject 16 callerObject 4) [5] 0x1000 [] (fun _ => false) = .error .unavail c ∧
    CleanedUp [5] (numOO 0x1000) c := by
  refine ⟨_, rfl, (@trackCaller_cleanedUp_iff localSock sampleTable healthyEnv
    (oneObject 16 callerObject 4) [5] 0x1000 [] (fun _ => false) .unavail _ rfl).mpr
      ⟨fun _ => ?_, fun h => ?_⟩⟩
  · have hexit : (responseVector localSock sampleTable healthyEnv
        (oneObject 16 callerObject 4) [5]).exit (numBO 0x1000) 0 = .unknownHandle := by decide
    show ArgVector.CleansUp _ _ _ _ (0 + 1) _ _ _ _
    unfold ArgVector.CleansUp
    exact ⟨⟨trivial, fun _ _ _ => rfl⟩, nofun⟩
  · exact absurd ⟨by decide, [], rfl⟩ h

/-- A descriptor whose rules are missing is closed twice. The clean-up after the first object also
releases what the caller had in the second slot. -/
theorem trackCaller_cleanup_wrong : (∃ c, trackCaller localSock sampleTable healthyEnv
        (oneObject 32 descriptorObject invalidObjectHandle) [5] 0x1000 [] (fun _ => false) =
        .error .unavail c ∧
      c.log = [.acquire (.made 0), .own (.made 0) 0, .release (.made 0), .close 0] ∧
      ¬ CleanedUp [5] 1 c) ∧
    ∃ c, trackCaller localSock sampleTable healthyEnv (oneObject 20 callerObject 4) [] 0x2000 []
        (fun _ => true) = .error .unavail c ∧ c.log = [.release (.prior 1)] ∧
      ¬ CleanedUp [] 2 c := by
  refine ⟨⟨_, rfl, rfl, fun h => ?_⟩, _, rfl, rfl, fun h => ?_⟩
  · rcases h.settled.descriptors 0 ⟨5, rfl, by decide⟩ with ⟨-, hno⟩ | ⟨hzero, -⟩
    · exact hno (.made 0) (by decide)
    · exact absurd hzero (by decide)
  · exact h.settled.only (.prior 1) (by decide) (by decide)

end MinkIpc.Unmarshal
