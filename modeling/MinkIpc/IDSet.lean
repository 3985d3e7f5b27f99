import Mathlib.Data.List.Pairwise
import Mathlib.Data.Nat.Bitwise
import Mathlib.Tactic.Ring

/-! Sets of 32-bit ids. An entry stands for 32 neighbouring ids, the entries are sorted by their
group, and two of them make a chunk. Here a set is the list of its chunks. -/

namespace MinkIpc.IDSet

open List

structure Entry where
  group : UInt32
  mask : UInt32
  deriving DecidableEq, Repr

def available : Entry := ⟨0, 0⟩

def group (id : UInt32) : UInt32 := id ||| 31

def mask (id : UInt32) : UInt32 := 1 <<< (31 &&& id)

structure Chunk where
  entry0 : Entry
  entry1 : Entry
  deriving DecidableEq, Repr

def Chunk.empty : Chunk := ⟨available, available⟩

inductive Visit (β : Type)
  | next (content : β) (insert : Entry)
  | done (content : β) (result : Bool)
  deriving DecidableEq, Repr

section

variable (g m : UInt32) (modifySet : Bool)

def visit (insert pe : Entry) : Visit Entry :=
  if 0 < pe.group ∧ pe.group < g then .next pe insert
  else if pe.group = g then
    let pe' := if modifySet then { pe with mask := pe.mask ||| m } else pe
    .done pe' (pe'.mask &&& m != 0)
  else if !modifySet then .done pe false
  else if pe.group = 0 then .done insert true
  else .next insert pe

def visitChunk (insert : Entry) (c : Chunk) : Visit Chunk :=
  match visit g m modifySet insert c.entry0 with
  | .done e r => .done ⟨e, c.entry1⟩ r
  | .next e insert' =>
    match visit g m modifySet insert' c.entry1 with
    | .done e' r => .done ⟨e, e'⟩ r
    | .next e' insert'' => .next ⟨e, e'⟩ insert''

/-- `IDSet_testOrSet` from a chunk on. Past the last chunk there is a new empty one if the
set is modified. -/
def testOrSet : Entry → List Chunk → List Chunk × Bool
  | insert, [] => if modifySet then ([⟨insert, available⟩], true) else ([], false)
  | insert, c :: cs =>
    match visitChunk g m modifySet insert c with
    | .done c' r => (c' :: cs, r)
    | .next c' insert' => (c' :: (testOrSet insert' cs).1, (testOrSet insert' cs).2)

end

def set (id : UInt32) (cs : List Chunk) : List Chunk :=
  (testOrSet (group id) (mask id) true ⟨group id, mask id⟩ cs).1

def test (id : UInt32) (cs : List Chunk) : Bool :=
  (testOrSet (group id) (mask id) false ⟨group id, mask id⟩ cs).2

def Entry.clearBits (m : UInt32) (pe : Entry) : Entry := { pe with mask := pe.mask &&& ~~~m }

def clear (id : UInt32) : List Chunk → List Chunk
  | [] => []
  | c :: cs =>
    if c.entry0.group = group id then { c with entry0 := c.entry0.clearBits (mask id) } :: cs
    else if c.entry1.group = group id then
      { c with entry1 := c.entry1.clearBits (mask id) } :: cs
    else c :: clear id cs

inductive Built : List Chunk → Prop
  | empty : Built [.empty]
  | set (id : UInt32) {cs : List Chunk} (h : Built cs) : Built (set id cs)
  | clear (id : UInt32) {cs : List Chunk} (h : Built cs) : Built (clear id cs)

theorem group_toNat (id : UInt32) : (group id).toNat = id.toNat / 32 * 32 + 31 := by
  have hor : (group id).toNat = id.toNat ||| 31 := UInt32.toNat_or _ _
  have hdiv : (id.toNat ||| 31) / 2 ^ 5 = id.toNat / 2 ^ 5 := by
    rw [Nat.or_div_two_pow]
    simp
  have hmod : (id.toNat ||| 31) % 2 ^ 5 = 31 := by
    rw [Nat.or_mod_two_pow]
    exact (by decide : ∀ x < 32, x ||| 31 = 31) _ (Nat.mod_lt _ (by decide))
  omega

theorem group_ne_zero (id : UInt32) : group id ≠ 0 := by
  intro h
  have hnat := group_toNat id
  rw [h] at hnat
  have hzero : (0 : UInt32).toNat = 0 := rfl
  omega

theorem mask_toNat (id : UInt32) : (mask id).toNat = 2 ^ (id.toNat % 32) := by
  have hand : (31 &&& id).toNat = id.toNat % 32 := by
    rw [UInt32.toNat_and, Nat.and_comm]
    exact Nat.and_two_pow_sub_one_eq_mod _ 5
  have hlt : id.toNat % 32 < 32 := Nat.mod_lt _ (by decide)
  unfold mask
  rw [UInt32.toNat_shiftLeft, hand, Nat.mod_mod, Nat.shiftLeft_eq]
  refine (Nat.mod_eq_of_lt ?_).trans (Nat.one_mul _)
  rw [show (1 : UInt32).toNat = 1 from rfl, Nat.one_mul]
  exact Nat.pow_lt_pow_right (by decide) hlt

theorem and_mask_ne_zero_iff (x id : UInt32) :
    x &&& mask id ≠ 0 ↔ x.toBitVec.getLsbD (id.toNat % 32) := by
  rw [Ne, ← UInt32.toNat_inj, UInt32.toNat_and, mask_toNat, Nat.and_two_pow]
  simp [BitVec.getLsbD]

theorem getLsbD_mask (id : UInt32) (k : Nat) :
    (mask id).toBitVec.getLsbD k = decide (id.toNat % 32 = k) := by
  show (mask id).toNat.testBit k = _
  rw [mask_toNat, Nat.testBit_two_pow]

theorem eq_of_group_mask {id id' : UInt32} (hgroup : group id = group id')
    (hbit : id.toNat % 32 = id'.toNat % 32) : id = id' := by
  have h := group_toNat id
  have h' := group_toNat id'
  rw [hgroup] at h
  rw [← UInt32.toNat_inj]
  omega

def entries (cs : List Chunk) : List Entry := cs.flatMap fun c => [c.entry0, c.entry1]

theorem entries_cons (c : Chunk) (cs : List Chunk) :
    entries (c :: cs) = c.entry0 :: c.entry1 :: entries cs := rfl

def scan (g m : UInt32) (modifySet : Bool) : Entry → List Entry → List Entry × Bool
  | insert, [] => if modifySet then ([insert, available], true) else ([], false)
  | insert, pe :: es =>
    match visit g m modifySet insert pe with
    | .done e r => (e :: es, r)
    | .next e insert' =>
      (e :: (scan g m modifySet insert' es).1, (scan g m modifySet insert' es).2)

theorem testOrSet_eq_scan (g m : UInt32) (modifySet : Bool) (insert : Entry) (cs : List Chunk) :
    entries (testOrSet g m modifySet insert cs).1 = (scan g m modifySet insert (entries cs)).1 ∧
      (testOrSet g m modifySet insert cs).2 = (scan g m modifySet insert (entries cs)).2 := by
  induction cs generalizing insert with
  | nil => cases modifySet <;> exact ⟨rfl, rfl⟩
  | cons c cs ih =>
    cases h0 : visit g m modifySet insert c.entry0 with
    | done e r => simp [testOrSet, visitChunk, scan, entries_cons, h0]
    | next e insert' =>
      cases h1 : visit g m modifySet insert' c.entry1 with
      | done e' r => simp [testOrSet, visitChunk, scan, entries_cons, h0, h1]
      | next e' insert'' =>
        simpa [testOrSet, visitChunk, scan, entries_cons, h0, h1] using ih insert''

def maskOf : List Entry → UInt32 → UInt32
  | [], _ => 0
  | e :: es, g => if e.group = g then e.mask else maskOf es g

def Before (a b : Entry) : Prop := b.group = 0 ∨ 0 < a.group ∧ a.group < b.group

theorem maskOf_eq_zero {es : List Entry} {g : UInt32} (h : ∀ e ∈ es, e.group ≠ g) :
    maskOf es g = 0 := by
  induction es with
  | nil => rfl
  | cons e es ih =>
    rw [maskOf, if_neg (h e (by simp))]
    exact ih fun e' he' => h e' (by simp [he'])

section Scan

variable {g m : UInt32}

variable {insert : Entry}

theorem visit_of_lt {modifySet : Bool} {pe : Entry} (h0 : 0 < pe.group) (hlt : pe.group < g) :
    visit g m modifySet insert pe = .next pe insert := by
  rw [visit, if_pos ⟨h0, hlt⟩]

theorem visit_available {pe : Entry} (hg : g ≠ 0) (h0 : pe.group = 0) :
    visit g m true insert pe = .done insert true := by
  unfold visit
  rw [if_neg (by simp [h0]), if_neg (by rw [h0]; exact Ne.symm hg)]
  simp [h0]

theorem visit_of_gt {pe : Entry} (hg : g ≠ 0) (hlt : g < pe.group) :
    visit g m true insert pe = .next insert pe := by
  have h0 : pe.group ≠ 0 := by grind
  have hne : pe.group ≠ g := by grind
  have hnot : ¬ (0 < pe.group ∧ pe.group < g) := by grind
  unfold visit
  rw [if_neg hnot, if_neg hne]
  simp [h0]

theorem scan_shift (hg : g ≠ 0) (hins : g < insert.group) {es : List Entry}
    (hes : (insert :: es).Pairwise Before) :
    (scan g m true insert es).2 = true ∧ (scan g m true insert es).1.Pairwise Before ∧
      (∀ e ∈ (scan g m true insert es).1, e = available ∨ e = insert ∨ e ∈ es) ∧
      ∀ k, k ≠ 0 → maskOf (scan g m true insert es).1 k = maskOf (insert :: es) k := by
  have hpos : insert.group ≠ 0 := by grind
  induction es generalizing insert with
  | nil =>
    refine ⟨rfl, by simp [scan, Before, available], by simp [scan], fun k hk => ?_⟩
    simp [scan, maskOf, available]
  | cons pe es ih =>
    obtain ⟨hbefore, hrest⟩ := pairwise_cons.mp hes
    by_cases h0 : pe.group = 0
    · have hscan : scan g m true insert (pe :: es) = (insert :: es, true) := by
        rw [scan, visit_available hg h0]
      rw [hscan]
      refine ⟨rfl, hes.sublist (by simp), by simp; grind, fun k hk => ?_⟩
      simp [maskOf, h0, Ne.symm hk]
    · have hlt : insert.group < pe.group := by
        rcases hbefore pe (by simp) with h | ⟨-, h⟩
        · exact absurd h h0
        · exact h
      have hscan : scan g m true insert (pe :: es) =
          (insert :: (scan g m true pe es).1, (scan g m true pe es).2) := by
        rw [scan, visit_of_gt hg (by grind)]
      obtain ⟨htrue, hsorted, hmem, hmask⟩ := ih (by grind) hrest h0
      rw [hscan]
      refine ⟨htrue, pairwise_cons.mpr ⟨fun e he => ?_, hsorted⟩, fun e he => ?_, fun k hk => ?_⟩
      · rcases hmem e he with rfl | rfl | he
        · exact .inl rfl
        · exact hbefore e (by simp)
        · exact hbefore e (by simp [he])
      · rcases mem_cons.mp he with rfl | he
        · exact .inr (.inl rfl)
        · grind
      · rw [maskOf, hmask k hk, maskOf, maskOf, maskOf]

structure Inserted (g m : UInt32) (es es' : List Entry) : Prop where
  sorted : es'.Pairwise Before
  mem : ∀ e ∈ es', e = available ∨ e.group = g ∨ e ∈ es
  mask : ∀ k, k ≠ 0 → maskOf es' k = if k = g then maskOf es g ||| m else maskOf es k

section Insert

variable {pe : Entry} {es es' : List Entry}

theorem inserted_available (hg : g ≠ 0) (hes : (pe :: es).Pairwise Before) (h0 : pe.group = 0) :
    Inserted g m (pe :: es) (⟨g, m⟩ :: es) := by
  obtain ⟨hbefore, hrest⟩ := pairwise_cons.mp hes
  have hall : ∀ e ∈ es, e.group = 0 := fun e he => by
    rcases hbefore e he with h | ⟨h, -⟩
    · exact h
    · simp [h0] at h
  refine ⟨pairwise_cons.mpr ⟨fun e he => .inl (hall e he), hrest⟩, ?_, fun k hk => ?_⟩
  · simp only [mem_cons]
    rintro e (rfl | he)
    · exact .inr (.inl rfl)
    · exact .inr (.inr (.inr he))
  · have hzero := maskOf_eq_zero fun e he => (hall e he).trans_ne (Ne.symm hg)
    simp only [maskOf, h0, if_neg (Ne.symm hg), if_neg (Ne.symm hk), hzero]
    by_cases hkg : k = g
    · simp [hkg]
    · simp [hkg, Ne.symm hkg]

theorem Inserted.cons (hes : (pe :: es).Pairwise Before) (h0 : 0 < pe.group) (hlt : pe.group < g)
    (h : Inserted g m es es') : Inserted g m (pe :: es) (pe :: es') := by
  obtain ⟨hbefore, -⟩ := pairwise_cons.mp hes
  have hne : pe.group ≠ g := by grind
  refine ⟨pairwise_cons.mpr ⟨fun e he => ?_, h.sorted⟩, fun e he => ?_, fun k hk => ?_⟩
  · rcases h.mem e he with rfl | he | he
    · exact .inl rfl
    · exact .inr ⟨h0, he ▸ hlt⟩
    · exact hbefore e he
  · rcases mem_cons.mp he with rfl | he
    · exact .inr (.inr (by simp))
    · have hcases := h.mem e he
      grind
  · simp only [maskOf, h.mask k hk]
    by_cases hkg : k = g
    · simp [hkg, hne]
    · simp [hkg]

theorem inserted_same (hes : (pe :: es).Pairwise Before) (heq : pe.group = g) :
    Inserted g m (pe :: es) ({ pe with mask := pe.mask ||| m } :: es) := by
  obtain ⟨hbefore, hrest⟩ := pairwise_cons.mp hes
  refine ⟨pairwise_cons.mpr ⟨hbefore, hrest⟩, ?_, fun k hk => ?_⟩
  · simp only [mem_cons]
    rintro e (rfl | he)
    · exact .inr (.inl heq)
    · exact .inr (.inr (.inr he))
  · by_cases hkg : k = g
    · simp [maskOf, heq, hkg]
    · simp [maskOf, heq, hkg, Ne.symm hkg]

theorem inserted_shift (hg : g ≠ 0) (hes : (pe :: es).Pairwise Before) (hgt : g < pe.group) :
    Inserted g m (pe :: es) (⟨g, m⟩ :: (scan g m true pe es).1) := by
  obtain ⟨hbefore, -⟩ := pairwise_cons.mp hes
  obtain ⟨-, hsorted, hmem, hmask⟩ := scan_shift hg hgt hes
  have hall : ∀ e ∈ es, e.group ≠ g := fun e he => by
    rcases hbefore e he with h | ⟨-, h⟩
    · exact h ▸ Ne.symm hg
    · grind
  refine ⟨pairwise_cons.mpr ⟨fun e he => ?_, hsorted⟩, fun e he => ?_, fun k hk => ?_⟩
  · rcases hmem e he with rfl | rfl | he
    · exact .inl rfl
    · exact .inr ⟨by grind, hgt⟩
    · rcases hbefore e he with h | ⟨-, h⟩
      · exact .inl h
      · exact .inr ⟨by grind, by grind⟩
  · rcases mem_cons.mp he with rfl | he
    · exact .inr (.inl rfl)
    · grind
  · rw [maskOf, hmask k hk]
    by_cases hkg : k = g
    · subst hkg
      have hne : pe.group ≠ k := by grind
      simp [maskOf, hne, maskOf_eq_zero hall]
    · simp [Ne.symm hkg, hkg]

end Insert

theorem scan_insert (hg : g ≠ 0) {es : List Entry} (hes : es.Pairwise Before) :
    Inserted g m es (scan g m true ⟨g, m⟩ es).1 := by
  induction es with
  | nil =>
    refine ⟨by simp [scan, Before, available], by simp [scan], fun k hk => ?_⟩
    simp [scan, maskOf, available, eq_comm]
  | cons pe es ih =>
    by_cases h0 : pe.group = 0
    · rw [scan, visit_available hg h0]
      exact inserted_available hg hes h0
    have hpos : 0 < pe.group := by grind
    rcases (by grind : pe.group < g ∨ pe.group = g ∨ g < pe.group) with hlt | heq | hgt
    · rw [scan, visit_of_lt hpos hlt]
      exact (ih hes.of_cons).cons hes hpos hlt
    · have hscan : (scan g m true ⟨g, m⟩ (pe :: es)).1 =
          { pe with mask := pe.mask ||| m } :: es := by
        simp [scan, visit, heq]
      rw [hscan]
      exact inserted_same hes heq
    · rw [scan, visit_of_gt hg hgt]
      exact inserted_shift hg hes hgt

theorem scan_test (hg : g ≠ 0) (insert : Entry) {es : List Entry} (hes : es.Pairwise Before) :
    scan g m false insert es = (es, maskOf es g &&& m != 0) := by
  induction es generalizing insert with
  | nil => simp [scan, maskOf]
  | cons pe es ih =>
    obtain ⟨hbefore, hrest⟩ := pairwise_cons.mp hes
    by_cases heq : pe.group = g
    · simp [scan, visit, heq, maskOf]
    by_cases hlt : 0 < pe.group ∧ pe.group < g
    · simp only [scan, visit_of_lt hlt.1 hlt.2, ih insert hrest, maskOf, if_neg heq]
    have hall : ∀ e ∈ es, e.group ≠ g := fun e he => by
      rcases hbefore e he with h | ⟨h0, h⟩
      · exact h ▸ Ne.symm hg
      · grind
    simp [scan, visit, hlt, heq, maskOf, maskOf_eq_zero hall]

end Scan

structure Ordered (cs : List Chunk) : Prop where
  sorted : (entries cs).Pairwise Before
  zero : ∀ e ∈ entries cs, e.group = 0 → e = available

theorem Ordered.set {cs : List Chunk} (h : Ordered cs) (id : UInt32) : Ordered (set id cs) := by
  have hscan := (testOrSet_eq_scan (group id) (mask id) true ⟨group id, mask id⟩ cs).1
  obtain ⟨hsorted, hmem, -⟩ := scan_insert (m := mask id) (group_ne_zero id) h.sorted
  refine ⟨hscan ▸ hsorted, fun e he h0 => ?_⟩
  rcases hmem e (hscan ▸ he) with hav | hgroup | he
  · exact hav
  · exact absurd (hgroup.symm.trans h0) (group_ne_zero id)
  · exact h.zero e he h0

variable {cs : List Chunk}

theorem maskOf_set (h : Ordered cs) (id : UInt32) {k : UInt32} (hk : k ≠ 0) :
    maskOf (entries (set id cs)) k =
      if k = group id then maskOf (entries cs) k ||| mask id else maskOf (entries cs) k := by
  have hscan := (testOrSet_eq_scan (group id) (mask id) true ⟨group id, mask id⟩ cs).1
  obtain ⟨-, -, hmask⟩ := scan_insert (m := mask id) (group_ne_zero id) h.sorted
  unfold set
  rw [hscan, hmask k hk]
  split_ifs with hkg
  · rw [hkg]
  · rfl

theorem test_eq (h : Ordered cs) (id : UInt32) :
    test id cs = (maskOf (entries cs) (group id) &&& mask id != 0) := by
  unfold test
  rw [(testOrSet_eq_scan _ _ _ _ _).2, scan_test (group_ne_zero id) _ h.sorted]

theorem visit_test (g m : UInt32) (insert pe : Entry) :
    visit g m false insert pe = .next pe insert ∨ ∃ r, visit g m false insert pe = .done pe r := by
  by_cases hlt : 0 < pe.group ∧ pe.group < g
  · exact .inl (visit_of_lt hlt.1 hlt.2)
  · by_cases heq : pe.group = g
    · exact .inr ⟨pe.mask &&& m != 0, by simp [visit, heq]⟩
    · exact .inr ⟨false, by simp [visit, hlt, heq]⟩

theorem visitChunk_test (g m : UInt32) (insert : Entry) (c : Chunk) :
    visitChunk g m false insert c = .next c insert ∨
      ∃ r, visitChunk g m false insert c = .done c r := by
  unfold visitChunk
  rcases visit_test g m insert c.entry0 with h0 | ⟨r, h0⟩
  · rcases visit_test g m insert c.entry1 with h1 | ⟨r, h1⟩
    · exact .inl (by rw [h0]; simp only [h1])
    · exact .inr ⟨r, by rw [h0]; simp only [h1]⟩
  · exact .inr ⟨r, by rw [h0]⟩

def clearFirst (id : UInt32) : List Entry → List Entry
  | [] => []
  | e :: es => if e.group = group id then e.clearBits (mask id) :: es else e :: clearFirst id es

theorem entries_clear (id : UInt32) (cs : List Chunk) :
    entries (clear id cs) = clearFirst id (entries cs) := by
  induction cs with
  | nil => rfl
  | cons c cs ih =>
    unfold clear
    rw [entries_cons, clearFirst, clearFirst]
    split_ifs
    · rfl
    · rfl
    · rw [entries_cons, ih]

theorem map_group_clearFirst (id : UInt32) (es : List Entry) :
    (clearFirst id es).map Entry.group = es.map Entry.group := by
  induction es with
  | nil => rfl
  | cons e es ih =>
    unfold clearFirst
    split_ifs
    · rfl
    · rw [map_cons, ih, map_cons]

theorem mem_clearFirst {id : UInt32} {es : List Entry} {e : Entry} (h : e ∈ clearFirst id es) :
    e ∈ es ∨ e.group = group id := by
  induction es with
  | nil => exact .inl h
  | cons e' es ih =>
    unfold clearFirst at h
    split_ifs at h with hgroup
    · rcases mem_cons.mp h with rfl | h
      · exact .inr hgroup
      · exact .inl (by simp [h])
    · rcases mem_cons.mp h with rfl | h
      · exact .inl (by simp)
      · exact (ih h).imp_left fun h => by simp [h]

theorem maskOf_clearFirst (id : UInt32) (es : List Entry) (k : UInt32) :
    maskOf (clearFirst id es) k =
      if k = group id then maskOf es k &&& ~~~mask id else maskOf es k := by
  induction es with
  | nil => simp [clearFirst, maskOf]
  | cons e es ih =>
    unfold clearFirst
    by_cases hgroup : e.group = group id
    · by_cases hk : k = group id
      · simp [maskOf, Entry.clearBits, hgroup, hk]
      · simp [maskOf, Entry.clearBits, hgroup, hk, Ne.symm hk]
    · rw [if_neg hgroup, maskOf, maskOf, ih]
      by_cases hk : k = group id
      · simp [hk, hgroup]
      · simp [hk]

theorem Ordered.clear {cs : List Chunk} (h : Ordered cs) (id : UInt32) : Ordered (clear id cs) := by
  constructor
  · have hmap : ∀ es : List Entry, es.Pairwise Before ↔
        (es.map Entry.group).Pairwise fun a b => b = 0 ∨ 0 < a ∧ a < b := by
      intro es
      rw [pairwise_map]
      rfl
    rw [hmap, entries_clear, map_group_clearFirst, ← hmap]
    exact h.sorted
  · intro e he h0
    rw [entries_clear] at he
    rcases mem_clearFirst he with he | hgroup
    · exact h.zero e he h0
    · exact absurd (hgroup.symm.trans h0) (group_ne_zero id)

theorem Built.ordered (h : Built cs) : Ordered cs := by
  induction h with
  | empty => exact ⟨by simp [entries, Chunk.empty, Before, available], by simp [entries, Chunk.empty]⟩
  | set id _ ih => exact ih.set id
  | clear id _ ih => exact ih.clear id

theorem test_set (h : Ordered cs) (id id' : UInt32) :
    test id' (set id cs) = true ↔ id' = id ∨ test id' cs = true := by
  rw [test_eq (h.set id), test_eq h, maskOf_set h id (group_ne_zero id')]
  simp only [bne_iff_ne, and_mask_ne_zero_iff]
  split_ifs with hgroup
  · rw [UInt32.toBitVec_or, BitVec.getLsbD_or, getLsbD_mask]
    have hid : id.toNat % 32 = id'.toNat % 32 ↔ id' = id :=
      ⟨fun hbit => eq_of_group_mask hgroup hbit.symm, fun heq => by rw [heq]⟩
    simp [hid, or_comm]
  · have hne : id' ≠ id := fun heq => hgroup (by rw [heq])
    simp [hne]

theorem test_clear (h : Ordered cs) (id id' : UInt32) :
    test id' (clear id cs) = true ↔ id' ≠ id ∧ test id' cs = true := by
  rw [test_eq (h.clear id), test_eq h, entries_clear, maskOf_clearFirst]
  simp only [bne_iff_ne, and_mask_ne_zero_iff]
  by_cases hgroup : group id' = group id
  · have hlt : id'.toNat % 32 < 32 := Nat.mod_lt _ (by decide)
    rw [if_pos hgroup, UInt32.toBitVec_and, UInt32.toBitVec_not, BitVec.getLsbD_and,
      BitVec.getLsbD_not, getLsbD_mask]
    have hid : id.toNat % 32 = id'.toNat % 32 ↔ id' = id :=
      ⟨fun hbit => eq_of_group_mask hgroup hbit.symm, fun heq => by rw [heq]⟩
    simp [hid, hlt, and_comm]
  · rw [if_neg hgroup]
    have hne : id' ≠ id := fun heq => hgroup (by rw [heq])
    simp [hne]

theorem test_empty (id : UInt32) : test id [.empty] = false := by
  rw [test_eq Built.empty.ordered]
  simp [entries, Chunk.empty, available, maskOf]

end MinkIpc.IDSet
