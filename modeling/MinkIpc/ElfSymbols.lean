import MinkIpc.ElfImage

/-! Symbol look-up through the hash table of an ELF image. The read functions fault outside the
table they read, so that a run without a fault reads the hash, symbol and string tables only. -/

namespace MinkIpc.Elf

open Checked Bytes

def Table.read (t : Table) (mem : Mem) (pos n : Nat) : Checked Nat :=
  if pos + n ≤ t.len * t.entry then ok (word mem (t.off + pos) n) else fault

structure SymLayout where
  name : Field
  value : Field
  size : Field
  info : Field
  shndx : Field

def symLayout (is64 : Bool) : SymLayout :=
  if is64 then ⟨⟨0, 4⟩, ⟨8, 8⟩, ⟨16, 8⟩, ⟨4, 1⟩, ⟨6, 2⟩⟩
  else ⟨⟨0, 4⟩, ⟨4, 4⟩, ⟨8, 4⟩, ⟨12, 1⟩, ⟨14, 2⟩⟩

def SymLayout.fields (l : SymLayout) : List Field := [l.name, l.value, l.size, l.info, l.shndx]

theorem symLayout_fits (is64 : Bool) :
    ∀ f ∈ (symLayout is64).fields, f.off + f.width ≤ symSize is64 := by
  cases is64 <;> decide

structure ElfSymbol where
  name : Nat := 0
  value : Nat := 0
  type : Nat := 0
  binding : Nat := 0
  needsLookup : Bool := false
  size : Nat := 0
  deriving DecidableEq, Repr

structure SymEntry where
  name : Nat
  value : Nat
  size : Nat
  info : Nat
  shndx : Nat

def SymEntry.bind (e : SymEntry) : Nat := e.info / 16
def SymEntry.type (e : SymEntry) : Nat := e.info % 16

def undefIndex : Nat := 0
def absIndex : Nat := 0xfff1
def localBinding : Nat := 0
def weakBinding : Nat := 2

/-- What `getSymbol` makes of an entry. The value is left as it was if the symbol must be looked
up. -/
def SymEntry.describe (e : SymEntry) (base : Nat) (old : ElfSymbol) : ElfSymbol where
  name := e.name
  value :=
    if e.shndx ≠ undefIndex then (e.value + if e.shndx = absIndex then 0 else base) % 2 ^ 64
    else if e.bind = weakBinding then e.value
    else old.value
  type := e.type
  binding := e.bind
  needsLookup := e.shndx = undefIndex ∧ e.bind ≠ weakBinding
  size := if e.type = 1 then e.size else 0

section Lookup

variable (img : ElfImage) (mem : Mem)

def symEntry (i : Nat) : SymEntry :=
  let at_ := fun f : Field => word mem (img.sym.off + (i * symSize img.is64 + f.off)) f.width
  let l := symLayout img.is64
  ⟨at_ l.name, at_ l.value, at_ l.size, at_ l.info, at_ l.shndx⟩

def readEntry (i : Nat) : Checked SymEntry := do
  let get := fun f : Field => img.sym.read mem (i * symSize img.is64 + f.off) f.width
  let name ← get (symLayout img.is64).name
  let value ← get (symLayout img.is64).value
  let size ← get (symLayout img.is64).size
  let info ← get (symLayout img.is64).info
  let shndx ← get (symLayout img.is64).shndx
  ok ⟨name, value, size, info, shndx⟩

def getSymbol (symIndex : Nat) (old : ElfSymbol) : Checked ElfSymbol := do
  check (symIndex < img.sym.len)
  let e ← readEntry img mem symIndex
  check (e.name < img.str.len)
  ok (e.describe img.base old)

def strEq : List UInt8 → Nat → Checked Bool
  | [], pos => do
    let b ← img.str.read mem pos 1
    ok (b == 0)
  | c :: cs, pos => do
    let b ← img.str.read mem pos 1
    if b = c.toNat then strEq cs (pos + 1) else ok false

/-- One round of the hash: `char` is unsigned on the target. -/
def elfHashStep (h : Nat) (c : UInt8) : Nat :=
  let h := (h * 16 + c.toNat) % 2 ^ 32
  let g := h &&& 0xf0000000
  (h ^^^ (g >>> 24)) &&& (0xffffffff ^^^ g)

def elfHash (name : List UInt8) : Nat := name.foldl elfHashStep 0

-- the check on `symIndex` is the wrong way round: only index 0 gets past it
def findFrom (name : List UInt8) : Nat → Nat → ElfSymbol → Checked ElfSymbol
  | 0, _, _ => .error
  | limit + 1, hashIndex, old => do
    check (hashIndex < img.hash.len)
    let symIndex ← img.hash.read mem (hashIndex * 4) 4
    check (symIndex = 0)
    let sym ← getSymbol img mem symIndex old
    let same ← strEq img mem name sym.name
    if same ∧ sym.needsLookup = false ∧ sym.binding ≠ localBinding then ok sym
    else findFrom name limit (2 + img.nbucket + symIndex) sym

-- the 2 is added before the remainder is taken
def findSymbol (name : List UInt8) (old : ElfSymbol) : Checked ElfSymbol := do
  check (img.nbucket ≠ 0)
  findFrom img mem name img.sym.len ((2 + elfHash name) % 2 ^ 32 % img.nbucket) old

end Lookup

structure Loaded where
  img : ElfImage
  mem : Mem
  searchable : img.Searchable mem

namespace Loaded

variable (L : Loaded)

def hashWord (i : Nat) : Nat := word L.mem (L.img.hash.off + i * 4) 4

def entry (i : Nat) : SymEntry := symEntry L.img L.mem i

def NameAt (name : List UInt8) (pos : Nat) : Prop :=
  0 ∉ name ∧ pos + name.length < L.img.str.len ∧
    read L.mem (L.img.str.off + pos) (name.length + 1) = name ++ [0]

def Exported (i : Nat) : Prop :=
  i < L.img.sym.len ∧ (L.entry i).shndx ≠ undefIndex ∧ (L.entry i).bind ≠ localBinding

def Defines (name : List UInt8) (i : Nat) : Prop :=
  L.Exported i ∧ L.NameAt name (L.entry i).name

/-- The chain that starts with the index `v`; a list is finite, so that there is no cycle. -/
def IsChain : Nat → List Nat → Prop
  | v, [] => v = 0
  | v, i :: is => v = i ∧ i ≠ 0 ∧ i < L.img.sym.len ∧
      IsChain (L.hashWord (2 + L.img.nbucket + i)) is

/-- The standard hash table over the symbols: one chain for each bucket, on which every exported
symbol with that hash lies. -/
structure WellFormed : Prop where
  nbucket : L.img.nbucket ≠ 0 ∧ L.hashWord 0 = L.img.nbucket
  nchain : L.hashWord 1 = L.img.sym.len
  len : L.img.hash.len = 2 + L.img.nbucket + L.img.sym.len
  null : (L.entry 0).shndx = undefIndex ∧ (L.entry 0).info = 0
  names : ∀ i < L.img.sym.len, ∃ name, L.NameAt name (L.entry i).name
  chains : ∀ b < L.img.nbucket, ∃ is, L.IsChain (L.hashWord (2 + b)) is ∧
    (∀ i ∈ is, ∀ name, L.NameAt name (L.entry i).name → elfHash name % L.img.nbucket = b) ∧
    ∀ i name, L.Exported i → L.NameAt name (L.entry i).name →
      elfHash name % L.img.nbucket = b → i ∈ is

def find (name : List UInt8) (old : ElfSymbol) : Checked ElfSymbol :=
  findSymbol L.img L.mem name old

def Finds (name : List UInt8) (old : ElfSymbol) : Prop :=
  L.find name old ≠ fault ∧ (L.WellFormed →
      ((∃ s, L.find name old = ok s) ↔ ∃ i, L.Defines name i) ∧
      ∀ s, L.find name old = ok s → ∃ i, L.Defines name i ∧ s = (L.entry i).describe L.img.base old)

end Loaded

theorem Table.read_eq {t : Table} {mem : Mem} {pos n : Nat} (h : pos + n ≤ t.len * t.entry) :
    t.read mem pos n = ok (word mem (t.off + pos) n) := if_pos h

section Containment

variable {img : ElfImage} {mem : Mem}

theorem readEntry_eq (hs : img.sym.entry = symSize img.is64) {i : Nat} (hi : i < img.sym.len) :
    readEntry img mem i = ok (symEntry img mem i) := by
  have hend : i * symSize img.is64 + symSize img.is64 ≤ img.sym.len * img.sym.entry := by
    rw [hs, ← Nat.succ_mul]
    exact Nat.mul_le_mul_right _ hi
  have hget : ∀ f : Field, f.off + f.width ≤ symSize img.is64 →
      img.sym.read mem (i * symSize img.is64 + f.off) f.width =
        ok (word mem (img.sym.off + (i * symSize img.is64 + f.off)) f.width) :=
    fun f hf => Table.read_eq (by omega)
  have hfits := symLayout_fits img.is64
  simp only [SymLayout.fields, List.forall_mem_cons] at hfits
  obtain ⟨hname, hvalue, hsize, hinfo, hshndx, -⟩ := hfits
  simp only [readEntry, hget _ hname, hget _ hvalue, hget _ hsize, hget _ hinfo, hget _ hshndx]
  rfl

def Named (img : ElfImage) (mem : Mem) (i : Nat) : Prop :=
  i < img.sym.len ∧ (symEntry img mem i).name < img.str.len

instance (i : Nat) : Decidable (Named img mem i) := instDecidableAnd

theorem getSymbol_eq (hs : img.sym.entry = symSize img.is64) (i : Nat) (old : ElfSymbol) :
    getSymbol img mem i old =
      if Named img mem i then ok ((symEntry img mem i).describe img.base old) else .error := by
  unfold getSymbol
  by_cases hi : i < img.sym.len
  · rw [readEntry_eq hs hi]
    by_cases hn : (symEntry img mem i).name < img.str.len
    · simp [check, Named, hi, hn]
    · simp [check, Named, hi, hn]
  · simp [check, Named, hi]

theorem getSymbol_meets (hs : img.Searchable mem) (i : Nat) (old : ElfSymbol) :
    (getSymbol img mem i old).Meets fun s =>
      s = (symEntry img mem i).describe img.base old ∧ s.name < img.str.len := by
  rw [getSymbol_eq hs.sym_entry]
  split_ifs with hn
  · exact ⟨rfl, hn.2⟩
  · trivial

-- a byte that is equal to one of the name is not the zero at the end of the table
theorem strEq_meets (hs : img.Searchable mem) (name : List UInt8) (pos : Nat)
    (hname : 0 ∉ name) (hpos : pos < img.str.len) :
    (strEq img mem name pos).Meets fun _ => True := by
  have hread : ∀ p < img.str.len, img.str.read mem p 1 = ok (word mem (img.str.off + p) 1) :=
    fun p hp => Table.read_eq (by rw [hs.str_entry]; omega)
  induction name generalizing pos with
  | nil =>
    rw [strEq, hread pos hpos]
    trivial
  | cons c cs ih =>
    rw [strEq, hread pos hpos, ok_bind]
    split_ifs with hc
    · refine ih (pos + 1) (fun h => hname (List.mem_cons_of_mem _ h)) ?_
      by_contra hlast
      have he : pos = img.str.len - 1 := by omega
      rw [he, hs.terminated] at hc
      have hz : c = 0 := UInt8.toNat_inj.mp hc.symm
      exact hname (hz ▸ List.mem_cons_self)
    · trivial

theorem findFrom_meets (hs : img.Searchable mem) (name : List UInt8) (hname : 0 ∉ name)
    (limit hashIndex : Nat) (old : ElfSymbol) :
    (findFrom img mem name limit hashIndex old).Meets fun s =>
      s.binding = (symEntry img mem 0).bind ∧ s.binding ≠ localBinding := by
  induction limit generalizing hashIndex old with
  | zero => trivial
  | succ limit ih =>
    refine Meets.check_bind fun hi => ?_
    rw [Table.read_eq (by rw [hs.hash_entry]; omega)]
    refine Meets.check_bind fun hz => ?_
    rw [hz]
    refine (getSymbol_meets hs 0 old).bind fun sym hsym => ?_
    refine (strEq_meets hs name sym.name hname hsym.2).bind fun same _ => ?_
    split_ifs with hfound
    · exact ⟨by rw [hsym.1]; rfl, hfound.2.2⟩
    · exact ih _ _

end Containment

theorem Loaded.find_meets (L : Loaded) (name : List UInt8) (hname : 0 ∉ name) (old : ElfSymbol) :
    (L.find name old).Meets fun s => s.binding = (L.entry 0).bind ∧ s.binding ≠ localBinding :=
  Meets.check_bind fun _ => findFrom_meets L.searchable name hname _ _ old

theorem Loaded.WellFormed.find_ne_ok {L : Loaded} (hw : L.WellFormed) {name : List UInt8}
    (hname : 0 ∉ name) (old s : ElfSymbol) : L.find name old ≠ ok s := by
  intro h
  have hm := L.find_meets name hname old
  rw [h] at hm
  have hbind : (L.entry 0).bind = localBinding := by
    rw [SymEntry.bind, hw.null.2]
    rfl
  exact hm.2 (hm.1.trans hbind)

abbrev CName := { name : List UInt8 // 0 ∉ name }

/-- The look-up never leaves its tables, but in a well-formed table it is right only for names
that are not there. -/
theorem findSymbol_finds_iff (L : Loaded) (name : CName) (old : ElfSymbol) :
    L.Finds name.1 old ↔ (L.WellFormed → ∀ i, ¬ L.Defines name.1 i) := by
  have hsafe := (L.find_meets name.1 name.2 old).ne_fault
  constructor
  · intro hf hw i hi
    obtain ⟨s, hs⟩ := (hf.2 hw).1.mpr ⟨i, hi⟩
    exact hw.find_ne_ok name.2 old s hs
  · intro hnone
    refine ⟨hsafe, fun hw => ⟨⟨?_, ?_⟩, ?_⟩⟩
    · rintro ⟨s, hs⟩
      exact absurd hs (hw.find_ne_ok name.2 old s)
    · rintro ⟨i, hi⟩
      exact absurd hi (hnone hw i)
    · intro s hs
      exact absurd hs (hw.find_ne_ok name.2 old s)

-- a string table "\0a\0", a hash table with one bucket, the null symbol and a function `a`
def sampleSymbols : Loaded where
  img := { is64 := false, base := 4096, ranges := [⟨0, 56⟩], libnum := 0, nbucket := 1,
           isPltRela := false, dyn := ⟨0, 0, 8⟩, str := ⟨0, 3, 1⟩, sym := ⟨24, 2, 16⟩,
           hash := ⟨4, 5, 4⟩, rel := ⟨0, 0, 8⟩, rela := ⟨0, 0, 12⟩, plt := ⟨0, 0, 8⟩ }
  mem := wordsMem [0x6100, 1, 2, 1, 0, 0, 0, 0, 0, 0, 1, 16, 0, 0x10012]
  searchable := ⟨by decide, by decide, by decide +kernel, by decide, by decide⟩

theorem sampleSymbols_defines : sampleSymbols.Defines [97] 1 :=
  ⟨⟨by decide, by decide +kernel, by decide +kernel⟩, by decide, by decide, by decide +kernel⟩

theorem sampleSymbols_wellFormed : sampleSymbols.WellFormed where
  nbucket := ⟨by decide, by decide +kernel⟩
  nchain := by decide +kernel
  len := by decide
  null := ⟨by decide +kernel, by decide +kernel⟩
  names := by
    intro i hi
    have h2 : i < 2 := hi
    obtain rfl | rfl : i = 0 ∨ i = 1 := by omega
    · exact ⟨[], by decide, by decide +kernel, by decide +kernel⟩
    · exact ⟨[97], by decide, by decide +kernel, by decide +kernel⟩
  chains := by
    intro b hb
    have h0 : b = 0 := Nat.lt_one_iff.mp hb
    subst h0
    have hend : sampleSymbols.hashWord 4 = 0 := by decide +kernel
    refine ⟨[1], ⟨by decide +kernel, by decide, by decide, hend⟩,
      fun _ _ name _ => Nat.mod_one _, fun i name hi _ _ => ?_⟩
    have h2 : i < 2 := hi.1
    obtain rfl | rfl : i = 0 ∨ i = 1 := by omega
    · exact absurd (by decide +kernel) hi.2.1
    · exact List.mem_singleton_self 1

/-- The function is in the table, and the look-up of its name fails. -/
theorem findSymbol_misses : sampleSymbols.WellFormed ∧ sampleSymbols.Defines [97] 1 ∧
      ¬ ∃ s, sampleSymbols.find [97] {} = ok s := by
  refine ⟨sampleSymbols_wellFormed, sampleSymbols_defines, ?_⟩
  rintro ⟨s, hs⟩
  have hfail : (sampleSymbols.find [97] {}).Meets fun _ => False := by decide +kernel
  rw [hs] at hfail
  exact hfail

end MinkIpc.Elf
