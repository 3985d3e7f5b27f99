import MinkIpc.IDSetHeap

/-! Insertion into an id set for which no chunk can be allocated. The entries behind the new one
have moved on by then, and the last of them is dropped. -/

namespace MinkIpc.IDSet

open LinkedHeap

/-- `IDSet_set` on the set at `p`. A set is no longer than the heap, and one chunk is new. -/
def setAt (alloc : Bool) (h : Heap) (p : Nat) (id : UInt32) : Option (Heap × Bool) :=
  testOrSetAt alloc (group id) (mask id) true (h.length + 1) h ⟨group id, mask id⟩ p

def testAt (h : Heap) (p : Nat) (id : UInt32) : Option Bool :=
  (testOrSetAt true (group id) (mask id) false (h.length + 1) h ⟨group id, mask id⟩ p).map Prod.snd

def scanFull (g m : UInt32) : Entry → List Entry → List Entry × Bool
  | _, [] => ([], false)
  | insert, pe :: es =>
    match visit g m true insert pe with
    | .done e r => (e :: es, r)
    | .next e insert' => (e :: (scanFull g m insert' es).1, (scanFull g m insert' es).2)

section Heap

variable {h : Heap} {p : Nat} {as : List Nat} {cs : List Chunk} {g m : UInt32}

theorem testOrSetAt_full (insert : Entry) {fuel : Nat} (hc : Chain h (some p) as cs)
    (hfuel : as.length < fuel) :
    ∃ h' cs', testOrSetAt false g m true fuel h insert p =
        some (h', (scanFull g m insert (entries cs)).2) ∧
      Changed h h' p as cs' as ∧ entries cs' = (scanFull g m insert (entries cs)).1 := by
  induction fuel generalizing h p as cs insert with
  | zero => omega
  | succ fuel ih =>
    cases hc with
    | @cons _ n as vs hn hp hrest =>
      obtain ⟨hlt, -⟩ := List.getElem?_eq_some_iff.mp hn
      cases h0 : visit g m true insert n.val.entry0 with
      | done e r =>
        refine ⟨_, ⟨e, n.val.entry1⟩ :: vs, ?_, Changed.head hn hp hrest ⟨e, n.val.entry1⟩, ?_⟩
        · simp [testOrSetAt, visitChunk, scanFull, entries_cons, hn, h0]
        · simp [scanFull, entries_cons, h0]
      | next e insert' =>
        cases h1 : visit g m true insert' n.val.entry1 with
        | done e' r =>
          refine ⟨_, ⟨e, e'⟩ :: vs, ?_, Changed.head hn hp hrest ⟨e, e'⟩, ?_⟩
          · simp [testOrSetAt, visitChunk, scanFull, entries_cons, hn, h0, h1]
          · simp [scanFull, entries_cons, h0, h1]
        | next e' insert'' =>
          cases hq : n.next with
          | some q =>
            rw [hq] at hrest
            obtain ⟨h', cs', heval, hch, hentries⟩ := ih insert''
              (hrest.set_of_notMem hp ⟨⟨e, e'⟩, some q⟩) (by simpa using hfuel)
            refine ⟨h', ⟨e, e'⟩ :: cs', ?_, ?_, ?_⟩
            · simpa [testOrSetAt, visitChunk, scanFull, entries_cons, hn, h0, h1, hq] using heval
            · exact Changed.cons hlt hp (by simp) (List.getElem?_set_self hlt)
                (fun a _ ha => List.getElem?_set_ne (Ne.symm ha)) (fun a ha => .inl ha) hch
            · simp [scanFull, entries_cons, h0, h1, hentries]
          | none =>
            have hhead := Changed.head hn hp hrest ⟨e, e'⟩
            rw [hq] at hrest hhead
            cases hrest
            refine ⟨_, [⟨e, e'⟩], ?_, hhead, ?_⟩
            · simp [testOrSetAt, visitChunk, scanFull, hn, h0, h1, hq, entries]
            · simp [scanFull, h0, h1, entries]

theorem testAt_eq (hc : Chain h (some p) as cs) (id : UInt32) : testAt h p id =
      some (scan (group id) (mask id) false ⟨group id, mask id⟩ (entries cs)).2 := by
  have hlen := hc.length_le
  rw [testAt, testOrSetAt_test true _ hc (by omega), Option.map_some,
    (testOrSet_eq_scan _ _ _ _ _).2]

end Heap

section Entries

variable {id : UInt32} {es : List Entry}

/-- All entries are in use, and none of them is for the group of the id. -/
def Full (id : UInt32) (es : List Entry) : Prop := ∀ e ∈ es, e.group ≠ 0 ∧ e.group ≠ group id

theorem visit_same {insert pe : Entry} (h : pe.group = group id) :
    visit (group id) (mask id) true insert pe =
      .done { pe with mask := pe.mask ||| mask id } true := by
  have hbit : ((pe.mask ||| mask id) &&& mask id != 0) = true := by
    rw [bne_iff_ne, and_mask_ne_zero_iff, UInt32.toBitVec_or, BitVec.getLsbD_or, getLsbD_mask]
    simp
  have hnot : ¬ (0 < pe.group ∧ pe.group < group id) := by grind
  unfold visit
  rw [if_neg hnot, if_pos h]
  simp only [if_true, hbit]

theorem visit_cases (id : UInt32) (insert pe : Entry) : ((pe.group = 0 ∨ pe.group = group id) ∧
        ∃ e, visit (group id) (mask id) true insert pe = .done e true) ∨
      (0 < pe.group ∧ pe.group < group id ∧
        visit (group id) (mask id) true insert pe = .next pe insert) ∨
      (group id < pe.group ∧ visit (group id) (mask id) true insert pe = .next insert pe) := by
  have hg := group_ne_zero id
  by_cases h0 : pe.group = 0
  · exact .inl ⟨.inl h0, _, visit_available hg h0⟩
  by_cases heq : pe.group = group id
  · exact .inl ⟨.inr heq, _, visit_same heq⟩
  · by_cases hlt : pe.group < group id
    · exact .inr (.inl ⟨by grind, hlt, visit_of_lt (by grind) hlt⟩)
    · have hgt : group id < pe.group := by grind
      exact .inr (.inr ⟨hgt, visit_of_gt hg hgt⟩)

theorem scan_set_true (insert : Entry) (es : List Entry) :
    (scan (group id) (mask id) true insert es).2 = true := by
  induction es generalizing insert with
  | nil => rfl
  | cons pe es ih =>
    rcases visit_cases id insert pe with ⟨-, e, hv⟩ | ⟨-, -, hv⟩ | ⟨-, hv⟩
    · rw [scan, hv]
    · rw [scan, hv]
      exact ih insert
    · rw [scan, hv]
      exact ih pe

theorem scanFull_true (insert : Entry) (h : ¬ Full id es) :
    (scanFull (group id) (mask id) insert es).2 = true := by
  induction es generalizing insert with
  | nil => exact absurd (by simp [Full]) h
  | cons pe es ih =>
    have hrest : pe.group ≠ 0 ∧ pe.group ≠ group id → ¬ Full id es := fun hpe hes =>
      h (List.forall_mem_cons.mpr ⟨hpe, hes⟩)
    rcases visit_cases id insert pe with ⟨-, e, hv⟩ | ⟨h0, hlt, hv⟩ | ⟨hgt, hv⟩
    · rw [scanFull, hv]
    · rw [scanFull, hv]
      exact ih insert (hrest (by grind))
    · rw [scanFull, hv]
      exact ih pe (hrest (by grind))

theorem scanFull_false (insert : Entry) (h : Full id es) :
    (scanFull (group id) (mask id) insert es).2 = false := by
  induction es generalizing insert with
  | nil => rfl
  | cons pe es ih =>
    obtain ⟨hpe, hes⟩ := List.forall_mem_cons.mp h
    rcases visit_cases id insert pe with ⟨hcase, -⟩ | ⟨-, -, hv⟩ | ⟨-, hv⟩
    · rcases hcase with h0 | heq
      · exact absurd h0 hpe.1
      · exact absurd heq hpe.2
    · rw [scanFull, hv]
      exact ih insert hes
    · rw [scanFull, hv]
      exact ih pe hes

theorem scanFull_of_lt (insert : Entry) (h : ∀ e ∈ es, 0 < e.group ∧ e.group < group id) :
    (scanFull (group id) (mask id) insert es).1 = es := by
  induction es generalizing insert with
  | nil => rfl
  | cons pe es ih =>
    obtain ⟨⟨h0, hlt⟩, hes⟩ := List.forall_mem_cons.mp h
    rw [scanFull, visit_of_lt h0 hlt]
    exact congrArg (pe :: ·) (ih insert hes)

theorem scan_scanFull (h : Full id es) (hgt : ∃ e ∈ es, group id < e.group) (insert' : Entry) :
    (scan (group id) (mask id) false insert' es).2 = false ∧
      (scan (group id) (mask id) false insert'
        (scanFull (group id) (mask id) ⟨group id, mask id⟩ es).1).2 = true := by
  induction es with
  | nil => simp at hgt
  | cons pe es ih =>
    obtain ⟨hpe, hes⟩ := List.forall_mem_cons.mp h
    rcases visit_cases id ⟨group id, mask id⟩ pe with ⟨hcase, -⟩ | ⟨h0, hlt, hv⟩ | ⟨hlarge, hv⟩
    · rcases hcase with h0 | heq
      · exact absurd h0 hpe.1
      · exact absurd heq hpe.2
    · have hrest : ∃ e ∈ es, group id < e.group := by
        obtain ⟨e, he, hlarge⟩ := hgt
        rcases List.mem_cons.mp he with rfl | he
        · grind
        · exact ⟨e, he, hlarge⟩
      rw [scanFull, hv, scan, scan, visit_of_lt h0 hlt]
      exact ih hes hrest
    · have hbit : (mask id &&& mask id != 0) = true := by
        rw [bne_iff_ne, and_mask_ne_zero_iff, getLsbD_mask]
        simp
      have hbefore : visit (group id) (mask id) false insert' pe = .done pe false := by
        have hnot : ¬ (0 < pe.group ∧ pe.group < group id) := by grind
        rw [visit, if_neg hnot, if_neg hpe.2]
        rfl
      have hafter : visit (group id) (mask id) false insert' ⟨group id, mask id⟩ =
          .done ⟨group id, mask id⟩ true := by
        have hnot : ¬ (0 < group id ∧ group id < group id) := by grind
        rw [visit, if_neg hnot, if_pos rfl]
        simp only [Bool.false_eq_true, if_false, hbit]
      rw [scanFull, hv, scan, hbefore, scan, hafter]
      exact ⟨rfl, rfl⟩

end Entries

section Failure

variable {h : Heap} {p : Nat} {as : List Nat} {cs : List Chunk}

theorem setAt_of_alloc (hc : Chain h (some p) as cs) (id : UInt32) :
    ∃ h', setAt true h p id = some (h', true) := by
  have hlen := hc.length_le
  obtain ⟨h', -, hset, -⟩ := testOrSetAt_set (m := mask id) (group_ne_zero id)
    ⟨group id, mask id⟩ hc (Nat.lt_succ_of_le hlen)
  refine ⟨h', ?_⟩
  rw [setAt, hset, (testOrSet_eq_scan _ _ _ _ _).2, scan_set_true]

theorem setAt_of_no_alloc (hc : Chain h (some p) as cs) (id : UInt32) :
    ∃ h' cs', setAt false h p id =
        some (h', (scanFull (group id) (mask id) ⟨group id, mask id⟩ (entries cs)).2) ∧
      Chain h' (some p) as cs' ∧
      entries cs' = (scanFull (group id) (mask id) ⟨group id, mask id⟩ (entries cs)).1 := by
  have hlen := hc.length_le
  obtain ⟨h', cs', hset, hch, hentries⟩ := testOrSetAt_full (g := group id) (m := mask id)
    ⟨group id, mask id⟩ hc (Nat.lt_succ_of_le hlen)
  exact ⟨h', cs', hset, hch.chain, hentries⟩

def FailsClean (alloc : Bool) (h : Heap) (p : Nat) (id : UInt32) : Prop :=
  ∃ h' ok, setAt alloc h p id = some (h', ok) ∧
    (ok = false → ∀ id', testAt h' p id' = testAt h p id')

/-- A failed insertion leaves the set as it was exactly if nothing is shifted before it fails. -/
theorem set_failsClean_iff (hc : Chain h (some p) as cs) (alloc : Bool) (id : UInt32) :
    FailsClean alloc h p id ↔
      (alloc = false → Full id (entries cs) → ∀ e ∈ entries cs, e.group < group id) := by
  unfold FailsClean
  cases alloc with
  | true =>
    obtain ⟨h', hset⟩ := setAt_of_alloc hc id
    simp [hset]
  | false =>
    obtain ⟨h', cs', hset, hchain, hentries⟩ := setAt_of_no_alloc hc id
    have htest : ∀ id', testAt h' p id' = testAt h p id' ↔
        (scan (group id') (mask id') false ⟨group id', mask id'⟩ (entries cs')).2 =
          (scan (group id') (mask id') false ⟨group id', mask id'⟩ (entries cs)).2 := by
      intro id'
      rw [testAt_eq hchain, testAt_eq hc, Option.some.injEq]
    by_cases hfull : Full id (entries cs)
    · rw [scanFull_false _ hfull] at hset
      simp only [hset, Option.some.injEq, Prod.mk.injEq, hfull, forall_true_left]
      constructor
      · rintro ⟨_, _, ⟨rfl, rfl⟩, hsame⟩ e he
        by_contra hge
        have hgt : group id < e.group := by
          have hne := (hfull e he).2
          grind
        have hscan := scan_scanFull hfull ⟨e, he, hgt⟩ ⟨group id, mask id⟩
        have hid := (htest id).mp (hsame rfl id)
        rw [hentries, hscan.1, hscan.2] at hid
        cases hid
      · intro hlt
        refine ⟨h', false, ⟨rfl, rfl⟩, fun _ id' => (htest id').mpr ?_⟩
        have hpos : ∀ e ∈ entries cs, 0 < e.group ∧ e.group < group id := fun e he => by
          have hne := (hfull e he).1
          exact ⟨by grind, hlt e he⟩
        rw [hentries, scanFull_of_lt _ hpos]
    · rw [scanFull_true _ hfull] at hset
      simp [hset, hfull]

def twoGroups : Heap := [⟨⟨⟨63, 1⟩, ⟨127, 1⟩⟩, none⟩]

theorem chain_twoGroups : Chain twoGroups (some 0) [0] [⟨⟨63, 1⟩, ⟨127, 1⟩⟩] := by
  have hcell : twoGroups[0]? = some ⟨⟨⟨63, 1⟩, ⟨127, 1⟩⟩, none⟩ := rfl
  exact .cons hcell (by simp) .nil

theorem set_failsClean_sample :
    setAt false twoGroups 0 128 = some (twoGroups, false) ∧ FailsClean false twoGroups 0 128 :=
  ⟨by decide, (set_failsClean_iff chain_twoGroups false 128).mpr fun _ _ => by decide⟩

/-- Inserting 64 fails, and yet 64 is a member afterwards and 96 is none any more. -/
theorem set_loses_member : ∃ h', setAt false twoGroups 0 64 = some (h', false) ∧
      testAt twoGroups 0 64 = some false ∧ testAt h' 0 64 = some true ∧
      testAt twoGroups 0 96 = some true ∧ testAt h' 0 96 = some false :=
  ⟨_, rfl, by decide, by decide, by decide, by decide⟩

end Failure

end MinkIpc.IDSet
