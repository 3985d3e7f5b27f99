import MinkIpc.ElfSymbols

/-! Relocation of an ELF image. A call goes on with the entry the last one stopped at, and the
client supplies the symbol it stopped for. -/

namespace MinkIpc.Elf

open Checked Bytes

inductive RelocKind
  | relative
  | abs
  | slot
  deriving DecidableEq, Repr

-- ABS32, GLOB_DAT, JUMP_SLOT and RELATIVE of ARM; ABS64 and the same three of AARCH64
def relocKind (is64 : Bool) (rtype : Nat) : Option RelocKind :=
  if is64 then
    match rtype with
    | 257 => some .abs
    | 1025 => some .slot
    | 1026 => some .slot
    | 1027 => some .relative
    | _ => none
  else
    match rtype with
    | 2 => some .abs
    | 21 => some .slot
    | 22 => some .slot
    | 23 => some .relative
    | _ => none

def rSym (is64 : Bool) (info : Nat) : Nat := if is64 then info / 2 ^ 32 else info / 256
def rType (is64 : Bool) (info : Nat) : Nat := if is64 then info % 2 ^ 32 else info % 256

def relocValue (is64 : Bool) (k : RelocKind) (S T A B : Nat) : Nat :=
  match k with
  | .relative => (B + A) % 256 ^ wordSize is64
  | .abs => (S + A) % 256 ^ wordSize is64
  | .slot => (S + A) % 256 ^ wordSize is64 ||| T

structure ElfRelInfo where
  ptr : Nat := 0
  isRela : Bool := false
  symIndex : Nat := 0

structure RelState where
  mem : Mem
  relIndex : Nat := 0
  relInfo : ElfRelInfo := {}
  sym : ElfSymbol

inductive RelStatus
  | success
  | lookup
  deriving DecidableEq, Repr

section Code

variable (img : ElfImage) (base : Nat)

def relWord (mem : Mem) (ptr i : Nat) : Nat :=
  word mem (ptr + i * wordSize img.is64) (wordSize img.is64)

-- the flag of a PLT entry is left as it was
def getRelInfo (mem : Mem) (globalIndex : Nat) (info : ElfRelInfo) : Option ElfRelInfo :=
  let index := globalIndex - 1
  let symIndex := fun ptr => rSym img.is64 (relWord img mem ptr 1)
  if index < img.rel.len then
    let ptr := img.rel.off + index * relSize img.is64
    some ⟨ptr, false, symIndex ptr⟩
  else if index - img.rel.len < img.rela.len then
    let ptr := img.rela.off + (index - img.rel.len) * relaSize img.is64
    some ⟨ptr, true, symIndex ptr⟩
  else if index - img.rel.len - img.rela.len < img.plt.len then
    let ptr := img.plt.off + (index - img.rel.len - img.rela.len) *
      (if img.isPltRela then relaSize img.is64 else relSize img.is64)
    some ⟨ptr, info.isRela, symIndex ptr⟩
  else none

def symValue (sym : ElfSymbol) : Nat := sym.value % 256 ^ wordSize img.is64

def isThumb (sym : ElfSymbol) : Bool := sym.type = 2 ∧ symValue img sym % 2 = 1

def storeRel (mem : Mem) (ptr : Nat) (isRela : Bool) (sym : ElfSymbol) (S : Nat) : Checked Mem := do
  let place ← required (getAddr img.ranges img.base (relWord img mem ptr 0) (wordSize img.is64))
  let A := if isRela then relWord img mem ptr 2 else word mem place (wordSize img.is64)
  match relocKind img.is64 (rType img.is64 (relWord img mem ptr 1)) with
  | none => .error
  | some k =>
    ok (putWord mem place (wordSize img.is64)
      (relocValue img.is64 k S (if isThumb img sym then 1 else 0) A (base % 256 ^ wordSize img.is64)))

-- `~1u` has 32 bits
def updateRel (mem : Mem) (info : ElfRelInfo) (sym : ElfSymbol) : Checked Mem :=
  storeRel img base mem info.ptr info.isRela sym
    (if isThumb img sym then symValue img sym &&& 0xfffffffe else symValue img sym)

def applyPending (st : RelState) : Checked RelState :=
  if 0 < st.relIndex then do
    let mem ← updateRel img base st.mem st.relInfo st.sym
    ok { st with mem := mem }
  else ok st

def fetch (st : RelState) : Checked (RelState × Option RelStatus) :=
  match getRelInfo img st.mem (st.relIndex + 1) st.relInfo with
  | none =>
    ok ({ st with relIndex := st.relIndex + 1, relInfo := { st.relInfo with ptr := 0 } },
      some .success)
  | some info => do
    let sym ← getSymbol img st.mem info.symIndex st.sym
    ok ({ st with relIndex := st.relIndex + 1, relInfo := info, sym := sym },
      if info.symIndex ≠ 0 ∧ sym.needsLookup then some .lookup else none)

def iteration (st : RelState) : Checked (RelState × Option RelStatus) := do
  let st' ← applyPending img base st
  fetch img st'

def relocateLoop : Nat → RelState → Checked (RelState × RelStatus)
  | 0, _ => fault
  | n + 1, st => do
    let r ← iteration img base st
    match r.2 with
    | some s => ok (r.1, s)
    | none => relocateLoop n r.1

def total : Nat := img.rel.len + img.rela.len + img.plt.len

def relocate (st : RelState) : Checked (RelState × RelStatus) :=
  relocateLoop img base (total img + 1 - st.relIndex) st

variable (supply : Nat → ElfSymbol)

def supplied (st : RelState) : RelState := { st with sym := supply st.relIndex }

def drive : Nat → RelState → Checked Mem
  | 0, _ => fault
  | n + 1, st => do
    let r ← relocate img base st
    match r.2 with
    | .success => ok r.1.mem
    | .lookup => drive n (supplied supply r.1)

def relocateAll (mem : Mem) (sym : ElfSymbol) : Checked Mem :=
  drive img base supply (total img + 1) { mem, sym }

end Code

structure RelEntry where
  ptr : Nat
  isRela : Bool

def tableEntries (t : Table) (size : Nat) (isRela : Bool) : List RelEntry :=
  (List.range t.len).map fun i => ⟨t.off + i * size, isRela⟩

section Order

variable (img : ElfImage) (base : Nat) (supply : Nat → ElfSymbol)

def entries : List RelEntry :=
  tableEntries img.rel (relSize img.is64) false ++
    (tableEntries img.rela (relaSize img.is64) true ++
      tableEntries img.plt (if img.isPltRela then relaSize img.is64 else relSize img.is64)
        img.isPltRela)

def entrySym (mem : Mem) (e : RelEntry) : Nat := rSym img.is64 (relWord img mem e.ptr 1)

def entryKind (mem : Mem) (e : RelEntry) : Option RelocKind :=
  relocKind img.is64 (rType img.is64 (relWord img mem e.ptr 1))

def entrySymbol (mem : Mem) (k : Nat) (e : RelEntry) : ElfSymbol :=
  let s := (symEntry img mem (entrySym img mem e)).describe img.base {}
  if entrySym img mem e = 0 then {} else if s.needsLookup then supply k else s

def applyEntry (mem : Mem) (k : Nat) (e : RelEntry) : Checked Mem := do
  check (Named img mem (entrySym img mem e))
  let sym := entrySymbol img supply mem k e
  storeRel img base mem e.ptr e.isRela sym
    (if isThumb img sym then symValue img sym - 1 else symValue img sym)

def applyFrom : Nat → Mem → List RelEntry → Checked Mem
  | _, mem, [] => ok mem
  | k, mem, e :: es => do
    let mem' ← applyEntry img base supply mem k e
    applyFrom (k + 1) mem' es

/-- An entry that uses a symbol names one, and the low bit of a function above 4 GiB is clear. -/
def Regular (mem : Mem) (k : Nat) (e : RelEntry) : Prop :=
  ∀ kind, entryKind img mem e = some kind → kind ≠ .relative → entrySym img mem e ≠ 0 ∧
      (isThumb img (entrySymbol img supply mem k e) →
        symValue img (entrySymbol img supply mem k e) < 2 ^ 32)

def RegularFrom : Nat → Mem → List RelEntry → Prop
  | _, _, [] => True
  | k, mem, e :: es => Regular img supply mem k e ∧
      ∀ mem', applyEntry img base supply mem k e = ok mem' → RegularFrom (k + 1) mem' es

/-- The PLT entries are of the kind the flag is left with by the entries before them. -/
def PltKind : Prop := img.plt.len ≠ 0 → img.isPltRela = decide (0 < img.rela.len)

end Order

section Step

variable {img : ElfImage} {base : Nat} {supply : Nat → ElfSymbol} {mem : Mem}

theorem getElem?_tableEntries (t : Table) (size : Nat) (isRela : Bool) {i : Nat} (h : i < t.len) :
    (tableEntries t size isRela)[i]? = some ⟨t.off + i * size, isRela⟩ := by
  simp [tableEntries, h]

theorem length_entries (img : ElfImage) : (entries img).length = total img := by
  simp [entries, tableEntries, total, Nat.add_assoc]

def FlagAt (img : ElfImage) (k : Nat) (isRela : Bool) : Prop :=
  img.rel.len + img.rela.len ≤ k → isRela = decide (0 < img.rela.len)

theorem getRelInfo_of_le {k : Nat} (h : total img ≤ k) (info : ElfRelInfo) :
    getRelInfo img mem (k + 1) info = none := by
  unfold total at h
  unfold getRelInfo
  rw [if_neg (by omega), if_neg (by omega), if_neg (by omega)]

variable {e : RelEntry}

-- the three tables follow one another in both numberings
theorem getRelInfo_of_getElem? (mem : Mem) {k : Nat} {info : ElfRelInfo} (hplt : PltKind img)
    (hflag : FlagAt img k info.isRela) (he : (entries img)[k]? = some e) :
    getRelInfo img mem (k + 1) info = some ⟨e.ptr, e.isRela, entrySym img mem e⟩ ∧
      FlagAt img (k + 1) e.isRela := by
  have hk : k < total img := by
    rw [← length_entries]
    exact (List.getElem?_eq_some_iff.mp he).1
  have hlen : ∀ t size isRela, (tableEntries t size isRela).length = t.len := by
    simp [tableEntries]
  unfold total at hk
  unfold getRelInfo entries at *
  simp only [Nat.add_sub_cancel]
  by_cases h1 : k < img.rel.len
  · rw [List.getElem?_append_left (by rwa [hlen]), getElem?_tableEntries _ _ _ h1] at he
    cases he
    rw [if_pos h1]
    refine ⟨rfl, fun hle => ?_⟩
    have hz : ¬ 0 < img.rela.len := by omega
    simp [hz]
  rw [List.getElem?_append_right (by rw [hlen]; omega), hlen] at he
  by_cases h2 : k - img.rel.len < img.rela.len
  · rw [List.getElem?_append_left (by rwa [hlen]), getElem?_tableEntries _ _ _ h2] at he
    cases he
    rw [if_neg h1, if_pos h2]
    have hz : 0 < img.rela.len := by omega
    exact ⟨rfl, fun _ => by simp [hz]⟩
  · have h3 : k - img.rel.len - img.rela.len < img.plt.len := by omega
    rw [List.getElem?_append_right (by rw [hlen]; omega), hlen,
      getElem?_tableEntries _ _ _ h3] at he
    cases he
    have hkind := hplt (by omega)
    rw [if_neg h1, if_neg h2, if_pos h3, hflag (by omega), ← hkind]
    exact ⟨rfl, fun _ => hkind⟩

theorem and_mask {S : Nat} (hodd : S % 2 = 1) (hlt : S < 2 ^ 32) : S &&& 0xfffffffe = S - 1 := by
  have hq : S / 2 < 2 ^ 31 := by omega
  have hand : (S / 2) &&& (2 ^ 31 - 1) = S / 2 := by
    rw [Nat.and_two_pow_sub_one_eq_mod, Nat.mod_eq_of_lt hq]
  have hdiv : (S &&& 0xfffffffe) / 2 = S / 2 := by
    rw [Nat.and_div_two]
    exact hand
  have hmod : ¬ (S &&& 0xfffffffe) % 2 = 1 := fun h =>
    absurd (Nat.and_mod_two_eq_one.mp h).2 (by decide)
  omega

def SameValue (s t : ElfSymbol) : Prop := s.value = t.value ∧ s.type = t.type

theorem storeRel_relative {s t : ElfSymbol} {S S' : Nat}
    (h : entryKind img mem e = some .relative ∨ entryKind img mem e = none) :
    storeRel img base mem e.ptr e.isRela s S = storeRel img base mem e.ptr e.isRela t S' := by
  unfold entryKind at h
  unfold storeRel
  obtain h | h := h
  · simp only [h, relocValue]
  · simp only [h]

theorem updateRel_eq {k i : Nat} {sym sym' : ElfSymbol} (hr : Regular img supply mem k e)
    (hsym : entrySymbol img supply mem k e = sym')
    (hs : entrySym img mem e ≠ 0 → SameValue sym sym') :
    updateRel img base mem ⟨e.ptr, e.isRela, i⟩ sym = storeRel img base mem e.ptr e.isRela sym'
      (if isThumb img sym' then symValue img sym' - 1 else symValue img sym') := by
  by_cases hk : entryKind img mem e = some .relative ∨ entryKind img mem e = none
  · exact storeRel_relative hk
  obtain ⟨hnr, hnn⟩ := not_or.mp hk
  obtain ⟨kind, hkind⟩ := Option.ne_none_iff_exists'.mp hnn
  obtain ⟨hne, hsmall⟩ := hr kind hkind fun h => hnr (h ▸ hkind)
  rw [hsym] at hsmall
  obtain ⟨hv, ht⟩ := hs hne
  have hvalue : symValue img sym = symValue img sym' := by
    unfold symValue
    rw [hv]
  have hthumb : isThumb img sym = isThumb img sym' := by
    unfold isThumb
    rw [hvalue, ht]
  have hstore : ∀ S, storeRel img base mem e.ptr e.isRela sym S =
      storeRel img base mem e.ptr e.isRela sym' S := by
    intro S
    unfold storeRel
    rw [hthumb]
  unfold updateRel
  rw [hstore, hthumb, hvalue]
  by_cases hth : isThumb img sym'
  · have hodd := (of_decide_eq_true hth).2
    rw [if_pos hth, if_pos hth, and_mask hodd (hsmall hth)]
  · rw [if_neg hth, if_neg hth]

theorem SymEntry.describe_eq {s : SymEntry} {b : Nat} {old old' : ElfSymbol}
    (h : (s.describe b old).needsLookup = false) : s.describe b old = s.describe b old' := by
  have hdef : ¬ (s.shndx = undefIndex ∧ s.bind ≠ weakBinding) := of_decide_eq_false h
  unfold SymEntry.describe
  by_cases hu : s.shndx = undefIndex
  · have hw : s.bind = weakBinding := by
      by_contra hw
      exact hdef ⟨hu, hw⟩
    simp [hw]
  · simp [hu]

theorem entrySymbol_of_ne {k : Nat} (old : ElfSymbol) (h0 : entrySym img mem e ≠ 0) :
    entrySymbol img supply mem k e =
      if ((symEntry img mem (entrySym img mem e)).describe img.base old).needsLookup then supply k
      else (symEntry img mem (entrySym img mem e)).describe img.base old := by
  unfold entrySymbol
  rw [if_neg h0]
  -- the flag does not depend on the former content
  change (if ((symEntry img mem (entrySym img mem e)).describe img.base old).needsLookup then _
    else _) = _
  by_cases hl : ((symEntry img mem (entrySym img mem e)).describe img.base old).needsLookup
  · rw [if_pos hl, if_pos hl]
  · rw [if_neg hl, if_neg hl]
    exact (SymEntry.describe_eq (by simpa using hl)).symm

end Step

section Run

variable {img : ElfImage} {base : Nat} {supply : Nat → ElfSymbol}

def walk (img : ElfImage) (base : Nat) (supply : Nat → ElfSymbol) : Nat → RelState → Checked Mem
  | 0, _ => fault
  | n + 1, st => do
    let r ← iteration img base st
    match r.2 with
    | some .success => ok r.1.mem
    | some .lookup => walk img base supply n (supplied supply r.1)
    | none => walk img base supply n r.1

theorem iteration_relIndex {st : RelState} {r : RelState × Option RelStatus}
    (h : iteration img base st = ok r) : r.1.relIndex = st.relIndex + 1 := by
  obtain ⟨st', ha, hf⟩ := bind_eq_ok.mp h
  have hsame : st'.relIndex = st.relIndex := by
    unfold applyPending at ha
    split_ifs at ha
    · obtain ⟨m, -, hm⟩ := bind_eq_ok.mp ha
      cases hm
      rfl
    · cases ha
      rfl
  unfold fetch at hf
  split at hf
  · cases hf
    rw [hsame]
  · obtain ⟨sym, -, hm⟩ := bind_eq_ok.mp hf
    cases hm
    rw [hsame]

def resume (img : ElfImage) (base : Nat) (supply : Nat → ElfSymbol) (n : Nat)
    (r : RelState × RelStatus) : Checked Mem :=
  match r.2 with
  | .success => ok r.1.mem
  | .lookup => drive img base supply n (supplied supply r.1)

-- `r` iterations are left; a look-up ends the call and the next call goes on with the rest
theorem relocateLoop_resume (r n : Nat) (st : RelState) (hr : r = total img + 1 - st.relIndex)
    (hn : r ≤ n + 1) :
    (relocateLoop img base r st >>= resume img base supply n) = walk img base supply r st := by
  induction r generalizing n st with
  | zero => rfl
  | succ r ih =>
    rw [relocateLoop, walk]
    cases hi : iteration img base st with
    | error | fault => rfl
    | ok p =>
      obtain ⟨st', s⟩ := p
      have hidx : st'.relIndex = st.relIndex + 1 := iteration_relIndex hi
      have hr' : r = total img + 1 - st'.relIndex := by omega
      cases s with
      | none => exact ih n st' hr' (by omega)
      | some s =>
        cases s with
        | success => rfl
        | lookup =>
          change drive img base supply n (supplied supply st') =
            walk img base supply r (supplied supply st')
          cases n with
          | zero =>
            have h0 : r = 0 := by omega
            rw [h0]
            rfl
          | succ n =>
            rw [← ih n (supplied supply st') hr' (by omega), hr']
            rfl

theorem relocateAll_eq_walk (mem : Mem) (sym : ElfSymbol) :
    relocateAll img base supply mem sym = walk img base supply (total img + 1) { mem, sym } :=
  relocateLoop_resume (total img + 1) (total img) _ rfl le_rfl

def walkOn (img : ElfImage) (base : Nat) (supply : Nat → ElfSymbol) (n : Nat)
    (r : RelState × Option RelStatus) : Checked Mem :=
  match r.2 with
  | some .success => ok r.1.mem
  | some .lookup => walk img base supply n (supplied supply r.1)
  | none => walk img base supply n r.1

theorem walk_succ (n : Nat) (st : RelState) : walk img base supply (n + 1) st =
      applyPending img base st >>= fun st' => fetch img st' >>= walkOn img base supply n :=
  Checked.bind_assoc _ _ _

theorem walk_pending {n k : Nat} {e : RelEntry} (st : RelState) (hk : st.relIndex = k + 1)
    (hinfo : st.relInfo = ⟨e.ptr, e.isRela, entrySym img st.mem e⟩)
    (hr : Regular img supply st.mem (k + 1) e)
    (hs : entrySym img st.mem e ≠ 0 → SameValue st.sym (entrySymbol img supply st.mem (k + 1) e))
    (hnamed : Named img st.mem (entrySym img st.mem e)) :
    walk img base supply (n + 1) st = applyEntry img base supply st.mem (k + 1) e >>= fun mem' =>
        fetch img { st with mem := mem' } >>= walkOn img base supply n := by
  have hpos : 0 < st.relIndex := by omega
  rw [walk_succ, applyPending, if_pos hpos, hinfo, updateRel_eq hr rfl hs, Checked.bind_assoc, applyEntry,
    check, if_pos hnamed]
  rfl

theorem fetch_walkOn (hsym : img.sym.entry = symSize img.is64) (hplt : PltKind img)
    (es : List RelEntry) (k : Nat) (st : RelState) (hk : st.relIndex = k)
    (hes : (entries img).drop k = es) (hflag : FlagAt img k st.relInfo.isRela)
    (hreg : RegularFrom img base supply (k + 1) st.mem es) :
    (fetch img st >>= walkOn img base supply es.length) =
      applyFrom img base supply (k + 1) st.mem es := by
  induction es generalizing k st with
  | nil =>
    have hle : total img ≤ k := by
      rw [← length_entries]
      exact List.drop_eq_nil_iff.mp hes
    rw [fetch, hk, getRelInfo_of_le hle]
    rfl
  | cons e es ih =>
    have he : (entries img)[k]? = some e := by
      rw [← List.head?_drop, hes]
      rfl
    have htail : (entries img).drop (k + 1) = es := by
      rw [← List.tail_drop, hes]
      rfl
    obtain ⟨hinfo, hflag'⟩ := getRelInfo_of_getElem? st.mem hplt hflag he
    rw [fetch, hk, hinfo]
    simp only
    rw [getSymbol_eq hsym, applyFrom]
    split_ifs with hnamed
    · rw [ok_bind]
      -- whichever way the symbol came, the next iteration applies the entry and fetches the next
      have hnext : ∀ s : ElfSymbol, (entrySym img st.mem e ≠ 0 →
          SameValue s (entrySymbol img supply st.mem (k + 1) e)) →
          walk img base supply (es.length + 1)
            { st with relIndex := k + 1, relInfo := ⟨e.ptr, e.isRela, entrySym img st.mem e⟩,
                      sym := s } =
          applyEntry img base supply st.mem (k + 1) e >>= fun mem' =>
            applyFrom img base supply (k + 1 + 1) mem' es := by
        intro s hs
        rw [walk_pending ⟨st.mem, k + 1, ⟨e.ptr, e.isRela, entrySym img st.mem e⟩, s⟩ rfl rfl
          hreg.1 hs hnamed]
        cases ha : applyEntry img base supply st.mem (k + 1) e with
        | error | fault => rfl
        | ok mem' => exact ih (k + 1) _ rfl htail hflag' (hreg.2 mem' ha)
      have hspec : entrySym img st.mem e ≠ 0 → entrySymbol img supply st.mem (k + 1) e = _ :=
        entrySymbol_of_ne st.sym
      by_cases hl : entrySym img st.mem e ≠ 0 ∧
          ((symEntry img st.mem (entrySym img st.mem e)).describe img.base st.sym).needsLookup
      · rw [if_pos hl]
        refine hnext (supply (k + 1)) fun h0 => ?_
        rw [hspec h0, if_pos hl.2]
        exact ⟨rfl, rfl⟩
      · rw [if_neg hl]
        refine hnext _ fun h0 => ?_
        rw [hspec h0, if_neg fun h => hl ⟨h0, h⟩]
        exact ⟨rfl, rfl⟩
    · rw [applyEntry, check, if_neg hnamed]
      rfl

theorem storeRel_meets (mem : Mem) (ptr : Nat) (isRela : Bool) (sym : ElfSymbol) (S : Nat) :
    (storeRel img base mem ptr isRela sym S).Meets fun _ => True := by
  unfold storeRel
  cases getAddr img.ranges img.base (relWord img mem ptr 0) (wordSize img.is64) with
  | none => trivial
  | some place =>
    cases hk : relocKind img.is64 (rType img.is64 (relWord img mem ptr 1)) <;>
      simp only [required, ok_bind, Meets]

theorem applyFrom_meets (es : List RelEntry) (k : Nat) (mem : Mem) :
    (applyFrom img base supply k mem es).Meets fun _ => True := by
  induction es generalizing k mem with
  | nil => trivial
  | cons e es ih =>
    have happly : (applyEntry img base supply mem k e).Meets fun _ => True :=
      Meets.check_bind fun _ => storeRel_meets _ _ _ _ _
    exact happly.bind fun mem' _ => ih (k + 1) mem'

end Run

/-- However the look-ups split it into calls, a run applies every entry once and in order. -/
theorem relocateAll_in_order (img : ElfImage) (base : Nat) (supply : Nat → ElfSymbol) (mem : Mem)
    (sym : ElfSymbol) (hsym : img.sym.entry = symSize img.is64) (hplt : PltKind img)
    (hreg : RegularFrom img base supply 1 mem (entries img)) :
    relocateAll img base supply mem sym = applyFrom img base supply 1 mem (entries img) ∧
      relocateAll img base supply mem sym ≠ fault := by
  have hflag : FlagAt img 0 false := by
    intro hle
    have hz : ¬ 0 < img.rela.len := by omega
    simp [hz]
  have hrun := fetch_walkOn hsym hplt (entries img) 0 ⟨mem, 0, {}, sym⟩ rfl rfl hflag hreg
  have hall : relocateAll img base supply mem sym =
      applyFrom img base supply 1 mem (entries img) := by
    rw [relocateAll_eq_walk, ← length_entries]
    exact hrun
  exact ⟨hall, hall ▸ (applyFrom_meets _ _ _).ne_fault⟩

def relImage (size symOff : Nat) (rel rela plt : Nat × Nat) : ElfImage where
  is64 := true
  base := 4096
  ranges := [⟨0, size⟩]
  libnum := 0
  nbucket := 1
  isPltRela := true
  dyn := ⟨0, 0, 16⟩
  str := ⟨size - 1, 1, 1⟩
  sym := ⟨symOff, 2, 24⟩
  hash := ⟨0, 0, 4⟩
  rel := ⟨rel.1, rel.2, 16⟩
  rela := ⟨rela.1, rela.2, 24⟩
  plt := ⟨plt.1, plt.2, 24⟩

-- an ABS64 entry of each of the first two tables and a JUMP_SLOT one, with an undefined symbol
theorem relocateAll_in_order_sample : let img := relImage 144 88 (24, 1) (40, 1) (64, 1)
    let mem := wordsMem [7, 0, 0, 0, 0, 0, 0, 0, 257, 1, 8, 0, 257, 1, 5, 0, 16, 0, 1026, 1, 3, 0,
      0, 0, 0, 0, 0, 0, 0, 0x12]
    (relocateAll img 4096 (fun _ => { value := 0x2000 }) mem {} =
        applyFrom img 4096 (fun _ => { value := 0x2000 }) 1 mem (entries img) ∧
      relocateAll img 4096 (fun _ => { value := 0x2000 }) mem {} ≠ fault) ∧
    (relocateAll img 4096 (fun _ => { value := 0x2000 }) mem {}).toOption.map
      (fun m => [word m 0 8, word m 8 8, word m 16 8]) = some [0x2007, 0x2005, 0x2003] := by
  refine ⟨relocateAll_in_order _ _ _ _ _ rfl (fun _ => rfl) ⟨?_, fun m hm => ?_⟩, by decide +kernel⟩
  · exact fun _ _ _ => ⟨by decide +kernel, fun _ => by decide +kernel⟩
  cases hm
  refine ⟨fun _ _ _ => ⟨by decide +kernel, fun _ => by decide +kernel⟩, fun m hm => ?_⟩
  cases hm
  exact ⟨fun _ _ _ => ⟨by decide +kernel, fun _ => by decide +kernel⟩, fun _ _ => trivial⟩

/-- The addend of a PLT entry is not used, an entry without a symbol gets the value of the one
before, and a function above 4 GiB loses the upper half of its address. -/
theorem relocateAll_not_in_order : (let img := relImage 84 32 (0, 0) (0, 0) (8, 1)
     let mem := wordsMem [77, 0, 0, 0, 1026, 1, 5, 0, 0, 0, 0, 0, 0, 0, 0, 0x10012, 0x10]
     (relocateAll img 4096 (fun _ => {}) mem {}).toOption.map (word · 0 8) = some 0x105d ∧
     (applyFrom img 4096 (fun _ => {}) 1 mem (entries img)).toOption.map (word · 0 8) =
       some 0x1015) ∧
    (let img := relImage 100 48 (16, 2) (0, 0) (0, 0)
     let mem := wordsMem [0, 0, 0, 0, 0, 0, 257, 1, 8, 0, 257, 0, 0, 0, 0, 0, 0, 0, 0, 0x10012, 0x10]
     (relocateAll img 4096 (fun _ => {}) mem {}).toOption.map (word · 8 8) = some 0x1010 ∧
     (applyFrom img 4096 (fun _ => {}) 1 mem (entries img)).toOption.map (word · 8 8) = some 0) ∧
    let img := relImage 76 24 (8, 1) (0, 0) (0, 0)
    let mem := wordsMem [0, 0, 0, 0, 257, 1, 0, 0, 0, 0, 0, 0, 0, 0xfff10012, 1, 1]
    (relocateAll img 4096 (fun _ => {}) mem {}).toOption.map (word · 0 8) = some 0 ∧
    (applyFrom img 4096 (fun _ => {}) 1 mem (entries img)).toOption.map (word · 0 8) =
      some 0x100000000 := by
  decide +kernel

end MinkIpc.Elf
