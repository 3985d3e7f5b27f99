import MinkIpc.IDSet

/-! The inclusion test on id sets walks through both lists of chunks at once. It takes an
unused entry of the subset for one that the set has to have, and goes on after the set
has run out. -/

namespace MinkIpc.IDSet

open List

/-- One entry of the set against one of the subset: `none` looks at the next entry; otherwise the
group is found with its bits or the function returns `false`. -/
def matchEntry (sub e : Entry) : Option Bool :=
  if e.group < sub.group then none
  else if e.group = sub.group then some (sub.mask &&& e.mask == sub.mask)
  else some false

/-- The loop over the set for one entry of the subset, and where it leaves the pointer into the set;
`none` returns `false`. -/
def advance (sub : Entry) : List Chunk → Option (List Chunk)
  | [] => some []
  | c :: cs =>
    match matchEntry sub c.entry0 with
    | some true => some (c :: cs)
    | some false => none
    | none =>
      match matchEntry sub c.entry1 with
      | some true => some (c :: cs)
      | some false => none
      | none => advance sub cs

def subEntry (sub : Entry) : List Chunk → Option (Option (List Chunk))
  | [] => none
  | c :: cs => some (advance sub (c :: cs))

/-- `IDSet_isSubSet` from a chunk of the subset on; `none` if a null pointer is read. -/
def isSubSet : List Chunk → List Chunk → Option Bool
  | _, [] => some true
  | set, b :: bs =>
    (subEntry b.entry0 set).bind fun
      | none => some false
      | some set => (subEntry b.entry1 set).bind fun
        | none => some false
        | some set =>
          if bs.isEmpty then some true else if set.isEmpty then some false else isSubSet set bs

def passed (a : List Entry) (e : Entry) : Bool :=
  if e.group = 0 then a.all (·.group = 0)
  else a.any fun x => x.group = e.group && e.mask &&& x.mask == e.mask

def refused (a : List Entry) (e : Entry) : Bool :=
  e.group = 0 || a.any fun x => e.group ≤ x.group

def outcome (a : List Entry) : List Chunk → Option Bool
  | [] => some true
  | b :: bs =>
    if !passed a b.entry0 then if refused a b.entry0 then some false else none
    else if !passed a b.entry1 then if refused a b.entry1 then some false else some bs.isEmpty
    else outcome a bs

section Match

variable {sub : Entry} {es : List Entry}

theorem findSome?_match_of_mem (hsub : sub.group ≠ 0) (hes : es.Pairwise Before) {x : Entry}
    (hx : x ∈ es) (hgroup : x.group = sub.group) :
    es.findSome? (matchEntry sub) = some (sub.mask &&& x.mask == sub.mask) := by
  induction es with
  | nil => cases hx
  | cons e es ih =>
    obtain ⟨hbefore, hrest⟩ := pairwise_cons.mp hes
    rcases mem_cons.mp hx with rfl | hx
    · simp [matchEntry, hgroup]
    have hlt : e.group < sub.group := by
      rcases hbefore x hx with h | ⟨-, h⟩
      · exact absurd (hgroup.symm.trans h) hsub
      · exact hgroup ▸ h
    rw [findSome?_cons, matchEntry, if_pos hlt]
    exact ih hrest hx

theorem findSome?_match_of_gt (hno : ∀ x ∈ es, x.group ≠ sub.group)
    (hgt : ∃ x ∈ es, sub.group < x.group) : es.findSome? (matchEntry sub) = some false := by
  induction es with
  | nil => simp at hgt
  | cons e es ih =>
    have hne := hno e (by simp)
    by_cases hlt : e.group < sub.group
    · rw [findSome?_cons, matchEntry, if_pos hlt]
      refine ih (fun x hx => hno x (by simp [hx])) ?_
      obtain ⟨x, hx, hxgt⟩ := hgt
      rcases mem_cons.mp hx with rfl | hx
      · grind
      · exact ⟨x, hx, hxgt⟩
    · simp [matchEntry, hlt, hne]

theorem findSome?_match_of_lt (hlt : ∀ x ∈ es, x.group < sub.group) :
    es.findSome? (matchEntry sub) = none :=
  findSome?_eq_none_iff.mpr fun x hx => if_pos (hlt x hx)

theorem advance_cases (sub : Entry) (S : List Chunk) :
    (∃ pre c cs, S = pre ++ c :: cs ∧ advance sub S = some (c :: cs) ∧
      (c.entry0.group = sub.group ∨ c.entry1.group = sub.group) ∧
      (∀ x ∈ entries pre, x.group < sub.group) ∧
      (entries S).findSome? (matchEntry sub) = some true) ∨
    advance sub S = none ∧ (entries S).findSome? (matchEntry sub) = some false ∨
    advance sub S = some [] ∧ (entries S).findSome? (matchEntry sub) = none := by
  induction S with
  | nil => exact .inr (.inr ⟨rfl, rfl⟩)
  | cons c cs ih =>
    have hfound : ∀ {e : Entry}, matchEntry sub e = some true → e.group = sub.group := by
      intro e he
      unfold matchEntry at he
      split_ifs at he with h1 h2
      · exact h2
      · simp at he
    have hless : ∀ {e : Entry}, matchEntry sub e = none → e.group < sub.group := by
      intro e he
      unfold matchEntry at he
      split_ifs at he with h1
      exact h1
    rw [entries_cons, findSome?_cons, findSome?_cons, advance]
    cases h0 : matchEntry sub c.entry0 with
    | some r =>
      cases r with
      | true => exact .inl ⟨[], c, cs, rfl, rfl, .inl (hfound h0), by simp [entries], rfl⟩
      | false => exact .inr (.inl ⟨rfl, rfl⟩)
    | none =>
      cases h1 : matchEntry sub c.entry1 with
      | some r =>
        cases r with
        | true => exact .inl ⟨[], c, cs, rfl, rfl, .inr (hfound h1), by simp [entries], rfl⟩
        | false => exact .inr (.inl ⟨rfl, rfl⟩)
      | none =>
        rcases ih with ⟨pre, c', cs', hS, hadv, hgroup, hpre, hfind⟩ | hrest
        · refine .inl ⟨c :: pre, c', cs', by rw [hS]; rfl, hadv, hgroup, ?_, hfind⟩
          intro x hx
          rw [entries_cons] at hx
          simp only [mem_cons] at hx
          rcases hx with rfl | rfl | hx
          · exact hless h0
          · exact hless h1
          · exact hpre x hx
        · exact .inr hrest

end Match

structure Cursor (a : List Entry) (S : List Chunk) (rest : List Entry) : Prop where
  sorted : (entries S).Pairwise Before
  head : ∃ c cs, S = c :: cs ∧ (c.entry0.group = 0 ↔ ∀ x ∈ a, x.group = 0)
  agrees : ∀ e ∈ rest, e.group ≠ 0 → ∀ x, e.group ≤ x.group → (x ∈ a ↔ x ∈ entries S)

theorem entries_append (cs cs' : List Chunk) : entries (cs ++ cs') = entries cs ++ entries cs' :=
  flatMap_append

section Cursor

variable {a : List Entry} {S : List Chunk} {e : Entry} {rest : List Entry}

theorem Cursor.passed_used (h : Cursor a S (e :: rest)) (hrest : (e :: rest).Pairwise Before)
    (he : e.group ≠ 0) (hpass : passed a e = true) :
    ∃ S', advance e S = some S' ∧ Cursor a S' rest := by
  simp only [passed, if_neg he, any_eq_true, Bool.and_eq_true, decide_eq_true_eq,
    beq_iff_eq] at hpass
  obtain ⟨x, hxa, hgroup, hmask⟩ := hpass
  have hxS : x ∈ entries S := (h.agrees e (by simp) he x (by grind)).mp hxa
  have hfind := findSome?_match_of_mem he h.sorted hxS hgroup
  rw [hmask, beq_self_eq_true] at hfind
  rcases advance_cases e S with ⟨pre, c, cs, hS, hadv, hc, hpre, -⟩ | ⟨-, hno⟩ | ⟨-, hno⟩
  · refine ⟨c :: cs, hadv, ?_, ⟨c, cs, rfl, ?_⟩, fun e' he' h0 y hy => ?_⟩
    · have hsorted := h.sorted
      rw [hS, entries_append] at hsorted
      exact (pairwise_append.mp hsorted).2.1
    · have hbefore : Before c.entry0 c.entry1 := by
        have hsorted := h.sorted
        rw [hS, entries_append] at hsorted
        exact (pairwise_cons.mp (pairwise_append.mp hsorted).2.1).1 _ (by simp)
      refine iff_of_false (fun h0 => ?_) fun hall => he (hgroup ▸ hall x hxa)
      rcases hc with hc | hc
      · exact he (hc ▸ h0)
      · rcases hbefore with hb | ⟨hb, -⟩
        · exact he (hc ▸ hb)
        · simp [h0] at hb
    · have hlt : e.group < e'.group := by
        rcases (pairwise_cons.mp hrest).1 e' he' with hb | ⟨-, hb⟩
        · exact absurd hb h0
        · exact hb
      have hnot : y ∉ entries pre := fun hy' => by
        grind
      rw [h.agrees e' (by simp [he']) h0 y hy, hS, entries_append]
      simp [hnot]
  · rw [hfind] at hno
    cases hno
  · rw [hfind] at hno
    cases hno

theorem Cursor.not_passed_used (h : Cursor a S (e :: rest)) (he : e.group ≠ 0)
    (hpass : passed a e = false) :
    advance e S = if refused a e then none else some [] := by
  simp only [passed, if_neg he, any_eq_false, Bool.and_eq_true, decide_eq_true_eq] at hpass
  have hagrees := h.agrees e (by simp) he
  split_ifs with href
  · simp only [refused, he, decide_false, Bool.false_or, any_eq_true, decide_eq_true_eq] at href
    obtain ⟨x, hxa, hle⟩ := href
    have hfind : (entries S).findSome? (matchEntry e) = some false := by
      by_cases hhas : ∃ y ∈ entries S, y.group = e.group
      · obtain ⟨y, hyS, hgroup⟩ := hhas
        have hya : y ∈ a := (hagrees y (by grind)).mpr hyS
        rw [findSome?_match_of_mem he h.sorted hyS hgroup]
        simpa using fun hmask => hpass y hya ⟨hgroup, hmask⟩
      · have hno : ∀ y ∈ entries S, y.group ≠ e.group := fun y hy hgroup => hhas ⟨y, hy, hgroup⟩
        have hxS := (hagrees x hle).mp hxa
        exact findSome?_match_of_gt hno ⟨x, hxS, by grind⟩
    rcases advance_cases e S with ⟨_, _, _, _, _, _, _, hf⟩ | ⟨hadv, -⟩ | ⟨-, hf⟩
    · rw [hfind] at hf
      cases hf
    · exact hadv
    · rw [hfind] at hf
      cases hf
  · simp only [refused, he, decide_false, Bool.false_or, Bool.not_eq_true, any_eq_false,
      decide_eq_true_eq] at href
    have hfind : (entries S).findSome? (matchEntry e) = none := by
      refine findSome?_match_of_lt fun x hx => ?_
      by_contra hle
      have hle' : e.group ≤ x.group := by grind
      exact href x ((hagrees x hle').mpr hx) hle'
    rcases advance_cases e S with ⟨_, _, _, _, _, _, _, hf⟩ | ⟨-, hf⟩ | ⟨hadv, -⟩
    · rw [hfind] at hf
      cases hf
    · rw [hfind] at hf
      cases hf
    · exact hadv

theorem Cursor.available (h : Cursor a S (available :: rest)) :
    advance available S = if passed a available then some S else none := by
  obtain ⟨c, cs, rfl, hhead⟩ := h.head
  have hpass : passed a IDSet.available = true ↔ c.entry0.group = 0 := by
    rw [hhead]
    simp [passed, IDSet.available]
  by_cases h0 : c.entry0.group = 0
  · rw [if_pos (hpass.mpr h0)]
    simp [advance, matchEntry, IDSet.available, h0]
  · rw [if_neg fun hp => h0 (hpass.mp hp)]
    simp [advance, matchEntry, IDSet.available, h0]

theorem Cursor.tail (h : Cursor a S (e :: rest)) : Cursor a S rest :=
  ⟨h.sorted, h.head, fun e' he' => h.agrees e' (by simp [he'])⟩

theorem Cursor.step (h : Cursor a S (e :: rest)) (hrest : (e :: rest).Pairwise Before)
    (hzero : e.group = 0 → e = IDSet.available) :
    (passed a e = true → ∃ S', advance e S = some S' ∧ Cursor a S' rest) ∧
      (passed a e = false → advance e S = if refused a e then none else some []) := by
  by_cases he : e.group = 0
  · obtain rfl := hzero he
    have hadv := h.available
    constructor
    · intro hpass
      exact ⟨S, by rw [hadv, if_pos hpass], h.tail⟩
    · intro hpass
      rw [hadv, hpass]
      rfl
  · exact ⟨h.passed_used hrest he, h.not_passed_used he⟩

theorem isSubSet_eq_outcome {bs : List Chunk} (h : Cursor a S (entries bs)) (hb : Ordered bs) :
    isSubSet S bs = outcome a bs := by
  induction bs generalizing S with
  | nil => cases S <;> rfl
  | cons b bs ih =>
    have hsorted := hb.sorted
    have hzero := hb.zero
    rw [entries_cons] at hsorted hzero
    have hrest := (pairwise_cons.mp hsorted).2
    have hb' : Ordered bs := ⟨(pairwise_cons.mp hrest).2, fun e he => hzero e (by simp [he])⟩
    have hsub : ∀ (e : Entry) {S : List Chunk} {rest : List Entry}, Cursor a S rest →
        subEntry e S = some (advance e S) := by
      intro e S rest hc
      obtain ⟨c, cs, rfl, -⟩ := hc.head
      rfl
    obtain ⟨hpass0, hstop0⟩ := h.step hsorted (hzero _ (by simp))
    rw [isSubSet, outcome, hsub b.entry0 h]
    cases hp0 : passed a b.entry0 with
    | false =>
      rw [hstop0 hp0]
      by_cases href : refused a b.entry0 = true
      · simp [href]
      · simp [href, subEntry]
    | true =>
      obtain ⟨S₁, hadv, h₁⟩ := hpass0 hp0
      obtain ⟨hpass1, hstop1⟩ := h₁.step hrest (hzero _ (by simp))
      simp only [hadv, hsub b.entry1 h₁, Option.bind_some]
      cases hp1 : passed a b.entry1 with
      | false =>
        rw [hstop1 hp1]
        by_cases href : refused a b.entry1 = true
        · simp [href]
        · cases bs <;> simp [href]
      | true =>
        obtain ⟨S₂, hadv₂, h₂⟩ := hpass1 hp1
        simp only [hadv₂]
        have hne : S₂.isEmpty = false := by
          obtain ⟨c, cs, rfl, -⟩ := h₂.head
          rfl
        rw [← ih h₂ hb']
        cases bs with
        | nil => cases S₂ <;> rfl
        | cons b' bs => simp [hne]

end Cursor

theorem Built.ne_nil {cs : List Chunk} (h : Built cs) : cs ≠ [] := by
  induction h with
  | empty => simp
  | @set id cs _ ih =>
    cases cs with
    | nil => exact absurd rfl ih
    | cons c cs =>
      unfold IDSet.set testOrSet
      split <;> simp
  | @clear id cs _ ih =>
    cases cs with
    | nil => exact absurd rfl ih
    | cons c cs =>
      unfold IDSet.clear
      split_ifs <;> simp

theorem Built.cursor {a b : List Chunk} (h : Built a) : Cursor (entries a) a (entries b) where
  sorted := h.ordered.sorted
  head := by
    obtain ⟨c, cs, rfl⟩ := exists_cons_of_ne_nil h.ne_nil
    refine ⟨c, cs, rfl, fun h0 x hx => ?_, fun hall => hall _ (by simp [entries_cons])⟩
    have hsorted := h.ordered.sorted
    rcases mem_cons.mp hx with rfl | hx
    · exact h0
    · rcases (pairwise_cons.mp hsorted).1 x hx with hz | ⟨hz, -⟩
      · exact hz
      · simp [h0] at hz
  agrees _ _ _ _ _ := Iff.rfl

def StopsAt (a es : List Entry) (i : Nat) (e : Entry) : Prop :=
  es[i]? = some e ∧ passed a e = false ∧ ∀ e' ∈ es.take i, passed a e' = true

def Extra (a b : List Entry) : Prop := ∃ e ∈ b, e.mask &&& maskOf a e.group ≠ e.mask

theorem stopsAt_or (a es : List Entry) :
    (∀ e ∈ es, passed a e = true) ∨ ∃ i e, StopsAt a es i e := by
  induction es with
  | nil => exact .inl (by simp)
  | cons e es ih =>
    cases hp : passed a e with
    | false => exact .inr ⟨0, e, rfl, hp, by simp⟩
    | true =>
      rcases ih with hall | ⟨i, e', hi, hp', hbefore⟩
      · exact .inl fun e' he' => (mem_cons.mp he').elim (fun h => h ▸ hp) (hall e')
      · refine .inr ⟨i + 1, e', hi, hp', fun x hx => ?_⟩
        rcases mem_cons.mp (take_succ_cons ▸ hx) with rfl | hx
        · exact hp
        · exact hbefore x hx

theorem StopsAt.unique {a es : List Entry} {i j : Nat} {e e' : Entry} (h : StopsAt a es i e)
    (h' : StopsAt a es j e') : i = j ∧ e = e' := by
  have hnot : ∀ {i j : Nat} {e e' : Entry}, StopsAt a es i e → StopsAt a es j e' → ¬ i < j := by
    intro i j e e' h h' hlt
    have hmem : e ∈ es.take j := mem_of_getElem? (by rw [getElem?_take_of_lt hlt]; exact h.1)
    have hpass := h'.2.2 e hmem
    rw [h.2.1] at hpass
    cases hpass
  have hij := hnot h h'
  have hji := hnot h' h
  obtain rfl : i = j := by omega
  exact ⟨rfl, Option.some.inj (h.1.symm.trans h'.1)⟩

theorem outcome_of_passed {a : List Entry} {bs : List Chunk}
    (h : ∀ e ∈ entries bs, passed a e = true) : outcome a bs = some true := by
  induction bs with
  | nil => rfl
  | cons b bs ih =>
    rw [entries_cons] at h
    simp only [outcome, h b.entry0 (by simp), h b.entry1 (by simp)]
    exact ih fun e he => h e (by simp [he])

theorem outcome_of_stop {a : List Entry} {bs : List Chunk} {i : Nat} {e : Entry}
    (h : StopsAt a (entries bs) i e) :
    outcome a bs = if refused a e then some false
      else if i % 2 = 0 then none else some (decide (i + 1 = (entries bs).length)) := by
  induction bs generalizing i with
  | nil => simp [StopsAt, entries] at h
  | cons b bs ih =>
    obtain ⟨hi, hp, hbefore⟩ := h
    rw [entries_cons] at hi hbefore
    rw [outcome, entries_cons]
    rcases i with _ | _ | i
    · obtain rfl : b.entry0 = e := by simpa using hi
      simp [hp]
    · obtain rfl : b.entry1 = e := by simpa using hi
      have hp0 := hbefore b.entry0 (by simp)
      cases bs <;> simp [hp0, hp, entries]
    · have hp0 := hbefore b.entry0 (by simp)
      have hp1 := hbefore b.entry1 (by simp)
      have hstop : StopsAt a (entries bs) i e := ⟨hi, hp, fun x hx => hbefore x (by simp [hx])⟩
      simp only [hp0, hp1, ih hstop]
      have hmod : (i + 2) % 2 = i % 2 := by omega
      simp [hmod]

theorem Built.exists_id {cs : List Chunk} (h : Built cs) :
    ∀ e ∈ entries cs, e.group ≠ 0 → ∃ id, group id = e.group := by
  induction h with
  | empty => simp [entries, Chunk.empty, available]
  | @set id cs h ih =>
    intro e he h0
    have hscan := (testOrSet_eq_scan (group id) (mask id) true ⟨group id, mask id⟩ cs).1
    obtain ⟨-, hmem, -⟩ := scan_insert (m := mask id) (group_ne_zero id) h.ordered.sorted
    rcases hmem e (hscan ▸ he) with rfl | hgroup | he
    · exact absurd rfl h0
    · exact ⟨id, hgroup.symm⟩
    · exact ih e he h0
  | @clear id cs _ ih =>
    intro e he h0
    rw [entries_clear] at he
    rcases mem_clearFirst he with he | hgroup
    · exact ih e he h0
    · exact ⟨id, hgroup.symm⟩

theorem maskOf_eq_of_mem {es : List Entry} (hes : es.Pairwise Before) {e : Entry} (he : e ∈ es)
    (h0 : e.group ≠ 0) : maskOf es e.group = e.mask := by
  induction es with
  | nil => cases he
  | cons x es ih =>
    obtain ⟨hbefore, hrest⟩ := pairwise_cons.mp hes
    rcases mem_cons.mp he with rfl | he
    · simp [maskOf]
    have hne : x.group ≠ e.group := by
      rcases hbefore e he with h | ⟨-, h⟩
      · exact absurd h h0
      · grind
    rw [maskOf, if_neg hne]
    exact ih hrest he

theorem exists_mem_of_maskOf_ne {es : List Entry} {g : UInt32} (h : maskOf es g ≠ 0) :
    ∃ e ∈ es, e.group = g ∧ e.mask = maskOf es g := by
  induction es with
  | nil => exact absurd rfl h
  | cons e es ih =>
    rw [maskOf] at h ⊢
    by_cases heq : e.group = g
    · rw [if_pos heq]
      exact ⟨e, by simp, heq, rfl⟩
    · rw [if_neg heq] at h ⊢
      obtain ⟨x, hx, hxg⟩ := ih h
      exact ⟨x, by simp [hx], hxg⟩

theorem exists_id_of_bit (id : UInt32) {k : Nat} (hk : k < 32) :
    ∃ id', group id' = group id ∧ id'.toNat % 32 = k := by
  have hlt := id.toNat_lt
  have hnat : (UInt32.ofNat (id.toNat / 32 * 32 + k)).toNat = id.toNat / 32 * 32 + k :=
    UInt32.toNat_ofNat_of_lt' (by show _ < 2 ^ 32; omega)
  refine ⟨UInt32.ofNat (id.toNat / 32 * 32 + k), ?_, by omega⟩
  rw [← UInt32.toNat_inj, group_toNat, group_toNat]
  omega

section Inclusion

variable {a b : List Chunk}

theorem and_eq_iff_bits (x y : UInt32) :
    x &&& y = x ↔ ∀ k < 32, x.toBitVec.getLsbD k → y.toBitVec.getLsbD k := by
  rw [← UInt32.toBitVec_inj, UInt32.toBitVec_and, BitVec.eq_of_getLsbD_eq_iff]
  simp only [BitVec.getLsbD_and]
  refine forall₂_congr fun k _ => ?_
  cases x.toBitVec.getLsbD k <;> simp

theorem extra_iff (ha : Built a) (hb : Built b) :
    Extra (entries a) (entries b) ↔ ¬ ∀ id, test id b = true → test id a = true := by
  have hbit : ∀ {cs : List Chunk}, Built cs → ∀ id, test id cs = true ↔
      (maskOf (entries cs) (group id)).toBitVec.getLsbD (id.toNat % 32) = true := by
    intro cs hcs id
    rw [test_eq hcs.ordered, bne_iff_ne, and_mask_ne_zero_iff]
  constructor
  · rintro ⟨e, he, hne⟩ hincl
    refine hne ((and_eq_iff_bits _ _).mpr fun k hk hek => ?_)
    have h0 : e.group ≠ 0 := by
      intro h0
      rw [hb.ordered.zero e he h0] at hek
      simp [available] at hek
    obtain ⟨id₀, hid₀⟩ := hb.exists_id e he h0
    obtain ⟨id, hgroup, hidk⟩ := exists_id_of_bit id₀ hk
    have htest := hincl id ((hbit hb id).mpr ?_)
    · rw [hbit ha, hgroup, hid₀, hidk] at htest
      exact htest
    · rw [hgroup, hid₀, hidk, maskOf_eq_of_mem hb.ordered.sorted he h0]
      exact hek
  · intro hnot
    by_contra hextra
    refine hnot fun id hid => ?_
    rw [hbit hb] at hid
    rw [hbit ha]
    have hne : maskOf (entries b) (group id) ≠ 0 := by
      intro hz
      simp [hz] at hid
    obtain ⟨e, he, hgroup, hmask⟩ := exists_mem_of_maskOf_ne hne
    have hsub : e.mask &&& maskOf (entries a) e.group = e.mask := by
      by_contra hne'
      exact hextra ⟨e, he, hne'⟩
    rw [hgroup] at hsub
    exact (and_eq_iff_bits _ _).mp hsub _ (Nat.mod_lt _ (by decide)) (hmask ▸ hid)

variable {e : Entry}

theorem mask_of_passed (ha : Built a) (hb : Built b) (he : e ∈ entries b)
    (hp : passed (entries a) e = true) : e.mask &&& maskOf (entries a) e.group = e.mask := by
  by_cases h0 : e.group = 0
  · rw [hb.ordered.zero e he h0]
    simp [available]
  simp only [passed, if_neg h0, any_eq_true, Bool.and_eq_true, decide_eq_true_eq, beq_iff_eq] at hp
  obtain ⟨x, hx, hgroup, hmask⟩ := hp
  rw [← hgroup, maskOf_eq_of_mem ha.ordered.sorted hx (hgroup ▸ h0)]
  exact hmask

/-- The answer is right if the first entry of the subset the walk does not get past, if any, is of
use: its group is in the set with fewer bits; or a larger group is, and some id is missing; or the
set ends before it, it is the second of its chunk, and it is the last and without bits, or it is not
and some id is missing. -/
def Decides (a b : List Entry) : Prop :=
  ∀ i e, StopsAt a b i e → e.group ≠ 0 ∧
    ((∃ x ∈ a, x.group = e.group) ∨ (∃ x ∈ a, e.group < x.group) ∧ Extra a b ∨
      (∀ x ∈ a, x.group < e.group) ∧ i % 2 = 1 ∧
        if i + 1 = b.length then e.mask = 0 else Extra a b)

theorem after_unused (hb : Built b) {i : Nat} (hi : (entries b)[i]? = some e) (h0 : e.group = 0) :
    ∀ x ∈ (entries b).drop (i + 1), x.group = 0 := by
  intro x hx
  obtain ⟨hlt, rfl⟩ := List.getElem?_eq_some_iff.mp hi
  have hsorted := hb.ordered.sorted.sublist (List.drop_sublist i (entries b))
  rw [List.drop_eq_getElem_cons hlt] at hsorted
  rcases (List.pairwise_cons.mp hsorted).1 x hx with h | ⟨h, -⟩
  · exact h
  · simp [h0] at h

theorem not_extra_iff (ha : Built a) (hb : Built b) {i : Nat}
    (hstop : StopsAt (entries a) (entries b) i e)
    (hafter : ∀ x ∈ (entries b).drop (i + 1), x.mask &&& maskOf (entries a) x.group = x.mask) :
    ¬ Extra (entries a) (entries b) ↔ e.mask &&& maskOf (entries a) e.group = e.mask := by
  obtain ⟨hi, -, hbefore⟩ := hstop
  have hsplit : entries b = (entries b).take i ++ e :: (entries b).drop (i + 1) := by
    obtain ⟨hlt, rfl⟩ := List.getElem?_eq_some_iff.mp hi
    rw [← List.drop_eq_getElem_cons hlt, List.take_append_drop]
  unfold Extra
  push Not
  constructor
  · intro h
    exact h e (List.mem_of_getElem? hi)
  · intro he x hx
    have hxb := hx
    rw [hsplit, List.mem_append, List.mem_cons] at hx
    rcases hx with hx | rfl | hx
    · exact mask_of_passed ha hb hxb (hbefore x hx)
    · exact he
    · exact hafter x hx

theorem false_answers_iff (ha : Built a) (hb : Built b) :
    (∃ r, some false = some r ∧ (r = true ↔ ∀ id, test id b = true → test id a = true)) ↔
      Extra (entries a) (entries b) := by
  rw [extra_iff ha hb]
  simp

theorem refused_iff {a : List Entry} (h0 : e.group ≠ 0) :
    refused a e = true ↔ ∃ x ∈ a, e.group ≤ x.group := by
  simp [refused, h0]

theorem decides_iff_of_stop {a b : List Entry} {i : Nat} (hstop : StopsAt a b i e) :
    Decides a b ↔ e.group ≠ 0 ∧
      ((∃ x ∈ a, x.group = e.group) ∨ (∃ x ∈ a, e.group < x.group) ∧ Extra a b ∨
        (∀ x ∈ a, x.group < e.group) ∧ i % 2 = 1 ∧
          if i + 1 = b.length then e.mask = 0 else Extra a b) := by
  constructor
  · intro h
    exact h i e hstop
  · intro h j e' hstop'
    obtain ⟨rfl, rfl⟩ := hstop.unique hstop'
    exact h

section Stop

variable {i : Nat} {e : Entry}

theorem not_extra_of_unused (ha : Built a) (hb : Built b)
    (hstop : StopsAt (entries a) (entries b) i e) (h0 : e.group = 0) :
    ¬ Extra (entries a) (entries b) := by
  have hafter : ∀ x ∈ (entries b).drop (i + 1), x.mask &&& maskOf (entries a) x.group = x.mask := by
    intro x hx
    have hzero := after_unused hb hstop.1 h0 x hx
    rw [hb.ordered.zero x (mem_of_mem_drop hx) hzero]
    simp [available]
  rw [not_extra_iff ha hb hstop hafter, hb.ordered.zero e (mem_of_getElem? hstop.1) h0]
  simp [available]

theorem extra_of_present (ha : Built a) (hstop : StopsAt (entries a) (entries b) i e)
    (h0 : e.group ≠ 0) {x : Entry} (hx : x ∈ entries a) (hgroup : x.group = e.group) :
    Extra (entries a) (entries b) := by
  refine ⟨e, mem_of_getElem? hstop.1, fun hmask => ?_⟩
  rw [← hgroup, maskOf_eq_of_mem ha.ordered.sorted hx (hgroup ▸ h0)] at hmask
  have hpass : passed (entries a) e = true := by
    simp only [passed, if_neg h0, any_eq_true, Bool.and_eq_true, decide_eq_true_eq, beq_iff_eq]
    exact ⟨x, hx, hgroup, hmask⟩
  have hp := hstop.2.1
  rw [hpass] at hp
  cases hp

theorem extra_iff_of_last (ha : Built a) (hb : Built b)
    (hstop : StopsAt (entries a) (entries b) i e) (hlt : ∀ x ∈ entries a, x.group < e.group)
    (hlast : i + 1 = (entries b).length) :
    ¬ Extra (entries a) (entries b) ↔ e.mask = 0 := by
  have hafter : ∀ x ∈ (entries b).drop (i + 1), x.mask &&& maskOf (entries a) x.group = x.mask := by
    rw [hlast]
    simp
  have hzero : maskOf (entries a) e.group = 0 := by
    refine maskOf_eq_zero fun x hx h => ?_
    grind
  rw [not_extra_iff ha hb hstop hafter, hzero, UInt32.and_zero, eq_comm]

end Stop

/-- The subset test answers, and rightly, exactly if the entry it stops at decides the question. -/
theorem isSubSet_decides_iff (ha : Built a) (hb : Built b) :
    (∃ r, isSubSet a b = some r ∧ (r = true ↔ ∀ id, test id b = true → test id a = true)) ↔
      Decides (entries a) (entries b) := by
  have hextra := extra_iff ha hb
  have hfalse := false_answers_iff ha hb
  rw [isSubSet_eq_outcome ha.cursor hb.ordered]
  rcases stopsAt_or (entries a) (entries b) with hall | ⟨i, e, hstop⟩
  · have hno : ¬ Extra (entries a) (entries b) := by
      rintro ⟨e, he, hne⟩
      exact hne (mask_of_passed ha hb he (hall e he))
    rw [outcome_of_passed hall]
    refine iff_of_true ⟨true, rfl, iff_of_true rfl (not_not.mp (hextra.not.mp hno))⟩ ?_
    rintro i e ⟨hi, hp, -⟩
    rw [hall e (mem_of_getElem? hi)] at hp
    cases hp
  · rw [decides_iff_of_stop hstop, outcome_of_stop hstop]
    by_cases h0 : e.group = 0
    · rw [if_pos (by simp [refused, h0]), hfalse]
      exact iff_of_false (not_extra_of_unused ha hb hstop h0) fun h => h.1 h0
    by_cases hhas : ∃ x ∈ entries a, x.group = e.group
    · obtain ⟨x, hx, hgroup⟩ := hhas
      rw [if_pos ((refused_iff h0).mpr ⟨x, hx, by grind⟩), hfalse]
      exact iff_of_true (extra_of_present ha hstop h0 hx hgroup) ⟨h0, .inl ⟨x, hx, hgroup⟩⟩
    by_cases hgt : ∃ x ∈ entries a, e.group < x.group
    · obtain ⟨x, hx, hlt⟩ := hgt
      rw [if_pos ((refused_iff h0).mpr ⟨x, hx, by grind⟩), hfalse]
      refine ⟨fun h => ⟨h0, .inr (.inl ⟨⟨x, hx, hlt⟩, h⟩)⟩, ?_⟩
      rintro ⟨-, hx' | ⟨-, h⟩ | ⟨hall, -⟩⟩
      · exact absurd hx' hhas
      · exact h
      · grind
    · have hlt : ∀ x ∈ entries a, x.group < e.group := fun x hx => by
        grind
      have href : ¬ refused (entries a) e = true := by
        rw [refused_iff h0]
        rintro ⟨x, hx, hle⟩
        grind
      rw [if_neg href]
      by_cases heven : i % 2 = 0
      · rw [if_pos heven]
        refine iff_of_false (by simp) ?_
        rintro ⟨-, hx' | ⟨hx', -⟩ | ⟨-, hodd, -⟩⟩
        · exact hhas hx'
        · exact hgt hx'
        · omega
      · have hlast : (e.group ≠ 0 ∧ ((∃ x ∈ entries a, x.group = e.group) ∨
            (∃ x ∈ entries a, e.group < x.group) ∧ Extra (entries a) (entries b) ∨
            (∀ x ∈ entries a, x.group < e.group) ∧ i % 2 = 1 ∧
              if i + 1 = (entries b).length then e.mask = 0
              else Extra (entries a) (entries b))) ↔
            if i + 1 = (entries b).length then e.mask = 0
            else Extra (entries a) (entries b) := by
          refine ⟨?_, fun h => ⟨h0, .inr (.inr ⟨hlt, by omega, h⟩)⟩⟩
          rintro ⟨-, hx' | ⟨hx', -⟩ | ⟨-, -, h⟩⟩
          · exact absurd hx' hhas
          · exact absurd hx' hgt
          · exact h
        rw [if_neg heven, hlast]
        by_cases hi : i + 1 = (entries b).length
        · have hmask := extra_iff_of_last ha hb hstop hlt hi
          rw [hextra] at hmask
          rw [if_pos hi, ← hmask, decide_eq_true hi]
          simp
        · rw [if_neg hi, decide_eq_false hi, hfalse]

def sampleSet : List Chunk := set 33 (set 1 [.empty])

theorem isSubSet_decides_iff_pair : (∃ r, isSubSet sampleSet sampleSet = some r ∧
      (r = true ↔ ∀ id, test id sampleSet = true → test id sampleSet = true)) ↔
      Decides (entries sampleSet) (entries sampleSet) :=
  isSubSet_decides_iff (.set 33 (.set 1 .empty)) (.set 33 (.set 1 .empty))

end Inclusion

theorem isSubSet_wrong : isSubSet (set 1 [.empty]) (set 1 [.empty]) = some false ∧
      isSubSet (set 1 [.empty]) (set 33 [.empty]) = none ∧
      isSubSet (set 33 (set 1 [.empty])) (set 65 (set 1 [.empty])) = some true ∧
      test 65 (set 33 (set 1 [.empty])) = false := by
  decide

end MinkIpc.IDSet
