import MinkIpc.Elf

/-! The constructor of an ELF image: the tables found through the dynamic segment are checked
against the load ranges. Addresses are those of the file; `base` is added to get a pointer. -/

namespace MinkIpc.Elf

open Checked Bytes

structure Range where
  start : Nat
  stop : Nat
  deriving DecidableEq, Repr

def InRange (ranges : List Range) (off size : Nat) : Prop :=
  ∃ r ∈ ranges, r.start ≤ off ∧ off + size ≤ r.stop

instance (ranges : List Range) (off size : Nat) : Decidable (InRange ranges off size) :=
  List.decidableBEx _ _

-- `satAdd` is a plain sum, and a null pointer stands for a range that is not valid
def getAddr (ranges : List Range) (base offset size : Nat) : Option Nat :=
  if (∃ r ∈ ranges, r.start ≤ offset ∧ (offset + size) % 2 ^ 64 ≤ r.stop) ∧
      (base + offset) % 2 ^ 64 ≠ 0 then some offset
  else none

def required : Option Nat → Checked Nat
  | some a => ok a
  | none => .error

def load (ranges : List Range) (mem : Mem) (addr n : Nat) : Checked Nat :=
  if InRange ranges (addr % 2 ^ 64) n then ok (word mem (addr % 2 ^ 64) n) else fault

def wordSize (is64 : Bool) : Nat := if is64 then 8 else 4
def dynSize (is64 : Bool) : Nat := 2 * wordSize is64
def relSize (is64 : Bool) : Nat := 2 * wordSize is64
def relaSize (is64 : Bool) : Nat := 3 * wordSize is64
def symSize (is64 : Bool) : Nat := if is64 then 24 else 16

structure DynInfo where
  libnum : Nat := 0
  strtab : Nat := 0
  strsz : Nat := 0
  symtab : Nat := 0
  hash : Nat := 0
  rela : Nat := 0
  relasz : Nat := 0
  relaent : Nat := 0
  rel : Nat := 0
  relsz : Nat := 0
  relent : Nat := 0
  pltrel : Nat := 0
  pltrelsz : Nat := 0
  isPltRela : Bool := false

def DynInfo.put (d : DynInfo) (tag val : Nat) : DynInfo :=
  match tag with
  | 1 => { d with libnum := d.libnum + 1 }
  | 2 => { d with pltrelsz := val }
  | 4 => { d with hash := val }
  | 5 => { d with strtab := val }
  | 6 => { d with symtab := val }
  | 7 => { d with rela := val }
  | 8 => { d with relasz := val }
  | 9 => { d with relaent := val }
  | 10 => { d with strsz := val }
  | 17 => { d with rel := val }
  | 18 => { d with relsz := val }
  | 19 => { d with relent := val }
  | 20 => { d with isPltRela := val == 7 }
  | 23 => { d with pltrel := val }
  | _ => d

section Constructor

variable (is64 : Bool) (base : Nat) (ranges : List Range) (mem : Mem)

def scanDyn : Nat → Nat → DynInfo → Checked DynInfo
  | 0, _, d => ok d
  | n + 1, off, d => do
    let val ← load ranges mem (off + wordSize is64) (wordSize is64)
    let tag ← load ranges mem off (wordSize is64)
    scanDyn n (off + dynSize is64) (d.put tag val)

structure Table where
  off : Nat
  len : Nat
  entry : Nat
  deriving DecidableEq, Repr

def relTable (d : DynInfo) : Checked Table :=
  if d.relsz = 0 then ok ⟨0, 0, relSize is64⟩
  else do
    check (d.relent = relSize is64)
    let off ← required (getAddr ranges base d.rel d.relsz)
    ok ⟨off, d.relsz / d.relent, relSize is64⟩

-- the table of the REL entries is asked for where `relaent` would have to be looked at
def relaTable (d : DynInfo) : Checked Table :=
  if d.relasz = 0 then ok ⟨0, 0, relaSize is64⟩
  else do
    check (d.relsz ≠ 0)
    let off ← required (getAddr ranges base d.rela d.relasz)
    if d.relaent = 0 then fault else ok ⟨off, d.relasz / d.relaent, relaSize is64⟩

def pltEntry (d : DynInfo) : Nat := if d.isPltRela then relaSize is64 else relSize is64

def pltTable (d : DynInfo) : Checked Table :=
  if d.pltrelsz = 0 then ok ⟨0, 0, pltEntry is64 d⟩
  else do
    let off ← required (getAddr ranges base d.pltrel d.pltrelsz)
    ok ⟨off, d.pltrelsz / pltEntry is64 d, pltEntry is64 d⟩

def strTable (d : DynInfo) : Checked Table := do
  let off ← required (getAddr ranges base d.strtab d.strsz)
  check (0 < d.strsz)
  let last ← load ranges mem (d.strtab + (d.strsz - 1)) 1
  check (last = 0)
  ok ⟨off, d.strsz, 1⟩

def hashTable (d : DynInfo) : Checked (Table × Nat × Nat) := do
  let _ ← required (getAddr ranges base d.hash 8)
  let nbucket ← load ranges mem d.hash 4
  let nchain ← load ranges mem (d.hash + 4) 4
  let hashLen := (nbucket + nchain + 2) % 2 ^ 64
  let off ← required (getAddr ranges base d.hash (hashLen * 4 % 2 ^ 64))
  ok (⟨off, hashLen, 4⟩, nbucket, nchain)

def symTable (d : DynInfo) (nchain : Nat) : Checked Table := do
  let off ← required (getAddr ranges base d.symtab (nchain * symSize is64 % 2 ^ 64))
  ok ⟨off, nchain, symSize is64⟩

structure ElfImage where
  is64 : Bool
  base : Nat
  ranges : List Range
  libnum : Nat
  nbucket : Nat
  isPltRela : Bool
  dyn : Table
  str : Table
  sym : Table
  hash : Table
  rel : Table
  rela : Table
  plt : Table
  relroStart : Option Nat := none
  relroLen : Nat := 0

def popRelocInfo (dyn : Table) : Checked ElfImage := do
  let d ← scanDyn is64 ranges mem dyn.len dyn.off {}
  let rel ← relTable is64 base ranges d
  let rela ← relaTable is64 base ranges d
  let plt ← pltTable is64 base ranges d
  let str ← strTable base ranges mem d
  let hash ← hashTable base ranges mem d
  let sym ← symTable is64 base ranges d hash.2.2
  ok { is64, base, ranges, libnum := d.libnum, nbucket := hash.2.1,
       isPltRela := d.pltrelsz ≠ 0 && d.isPltRela, dyn, str, sym, hash := hash.1, rel, rela, plt }

def maxRanges : Nat := 8

structure Scan where
  ranges : List Range := []
  dynHdr : Option ElfSegment := none
  relroStart : Option Nat := none
  relroLen : Nat := 0

-- an `end` that wraps gives a range; 0x6474e552 is `PT_GNU_RELRO`
def scanPhdr (s : Scan) (p : ElfSegment) : Checked Scan :=
  if p.type = 1 then do
    check (s.ranges.length < maxRanges)
    ok { s with ranges := s.ranges ++ [⟨p.vaddr, (p.vaddr + p.memsz) % 2 ^ 64⟩] }
  else if p.type = 2 then ok { s with dynHdr := some p }
  else if p.type = 0x6474e552 then
    ok { s with relroStart := getAddr s.ranges base p.vaddr p.memsz, relroLen := p.memsz }
  else ok s

def scanPhdrs : List ElfSegment → Scan → Checked Scan
  | [], s => ok s
  | p :: ps, s => do
    let s' ← scanPhdr base s p
    scanPhdrs ps s'

-- 40 is `EM_ARM` and 183 `EM_AARCH64`
def elfImageCtor (machine : Nat) (phdrs : List ElfSegment) : Checked ElfImage := do
  check (machine = 40 ∨ machine = 183)
  let s ← scanPhdrs base phdrs {}
  match s.dynHdr with
  | none => .error
  | some hdr => do
    let off ← required (getAddr s.ranges base hdr.vaddr hdr.filesz)
    let img ← popRelocInfo is64 base s.ranges mem ⟨off, hdr.filesz / dynSize is64, dynSize is64⟩
    ok { img with relroStart := s.relroStart, relroLen := s.relroLen }

end Constructor

def Table.Fits (t : Table) (ranges : List Range) : Prop :=
  t.len = 0 ∨ InRange ranges t.off (t.len * t.entry)

def ElfImage.tables (img : ElfImage) : List Table :=
  [img.dyn, img.str, img.sym, img.hash, img.rel, img.rela, img.plt]

def ElfImage.Contained (img : ElfImage) : Prop := ∀ t ∈ img.tables, t.Fits img.ranges

structure ElfImage.Searchable (img : ElfImage) (mem : Mem) : Prop where
  str_entry : img.str.entry = 1
  str_pos : 0 < img.str.len
  terminated : word mem (img.str.off + (img.str.len - 1)) 1 = 0
  hash_entry : img.hash.entry = 4
  sym_entry : img.sym.entry = symSize img.is64

instance (t : Table) (ranges : List Range) : Decidable (t.Fits ranges) := instDecidableOr

instance : DecidablePred ElfImage.Contained := fun _ => List.decidableBAll _ _

def dynInfo (is64 : Bool) (mem : Mem) : Nat → Nat → DynInfo → DynInfo
  | 0, _, d => d
  | n + 1, off, d =>
    dynInfo is64 mem n (off + dynSize is64)
      (d.put (word mem off (wordSize is64)) (word mem (off + wordSize is64) (wordSize is64)))

def Accepted (ranges : List Range) (base : Nat) (q : Nat × Nat) : Prop :=
  (getAddr ranges base q.1 q.2).isSome

def NoWrap (q : Nat × Nat) : Prop := q.1 + q.2 < 2 ^ 64

instance : DecidablePred NoWrap := fun _ => Nat.decLt _ _

def hashRange (mem : Mem) (d : DynInfo) : Nat × Nat :=
  (d.hash, (word mem d.hash 4 + word mem (d.hash + 4) 4 + 2) * 4)

def symRange (is64 : Bool) (mem : Mem) (d : DynInfo) : Nat × Nat :=
  (d.symtab, word mem (d.hash + 4) 4 * symSize is64)

section Conditions

variable (is64 : Bool) (base : Nat) (ranges : List Range) (mem : Mem) (d : DynInfo)

def RelPasses : Prop :=
  d.relsz = 0 ∨ d.relent = relSize is64 ∧ Accepted ranges base (d.rel, d.relsz)

def RelaPasses : Prop := d.relasz = 0 ∨ d.relsz ≠ 0 ∧ Accepted ranges base (d.rela, d.relasz)

def PltPasses : Prop := d.pltrelsz = 0 ∨ Accepted ranges base (d.pltrel, d.pltrelsz)

def StrPasses : Prop := Accepted ranges base (d.strtab, d.strsz) ∧ 0 < d.strsz

/-- What is asked of the entries of the dynamic segment, each where the checks before it let the
constructor come to it. -/
def UnwrappedTables : Prop :=
  RelPasses is64 base ranges d ∧ RelaPasses base ranges d → (d.relasz ≠ 0 → d.relaent ≠ 0) ∧
    (PltPasses base ranges d ∧ StrPasses base ranges d → NoWrap (d.strtab, d.strsz) ∧
      (word mem (d.strtab + (d.strsz - 1)) 1 = 0 ∧ Accepted ranges base (d.hash, 8) →
        NoWrap (d.hash, 8) ∧
        (Accepted ranges base (hashRange mem d) ∧ Accepted ranges base (symRange is64 mem d) →
          (d.relasz ≠ 0 → relaSize is64 ≤ d.relaent) ∧ ∀ q ∈ [(d.rel, d.relsz), (d.rela, d.relasz),
            (d.pltrel, d.pltrelsz), hashRange mem d, symRange is64 mem d], NoWrap q)))

def loadRanges (phdrs : List ElfSegment) : List Range :=
  (phdrs.filter (·.type = 1)).map fun p => ⟨p.vaddr, (p.vaddr + p.memsz) % 2 ^ 64⟩

/-- No range that the constructor comes to, and accepts, reaches the end of the address space, and
RELA entries have at least their size. -/
def Unwrapped (machine : Nat) (phdrs : List ElfSegment) : Prop :=
  (machine = 40 ∨ machine = 183) → (loadRanges phdrs).length ≤ maxRanges →
    ∀ hdr ∈ (phdrs.filter (·.type = 2)).getLast?,
      Accepted (loadRanges phdrs) base (hdr.vaddr, hdr.filesz) → NoWrap (hdr.vaddr, hdr.filesz) ∧
        UnwrappedTables is64 base (loadRanges phdrs) mem
          (dynInfo is64 mem (hdr.filesz / dynSize is64) hdr.vaddr {})

end Conditions

section Containment

variable {is64 : Bool} {base : Nat} {ranges : List Range} {mem : Mem} {d : DynInfo}

theorem InRange.mono {off size off' size' : Nat} (h : InRange ranges off size) (hl : off ≤ off')
    (hr : off' + size' ≤ off + size) : InRange ranges off' size' := by
  obtain ⟨r, hmem, hs, he⟩ := h
  exact ⟨r, hmem, hs.trans hl, hr.trans he⟩

theorem getAddr_meets {off size : Nat} : (required (getAddr ranges base off size)).Meets fun a =>
    a = off ∧ Accepted ranges base (off, size) := by
  unfold Accepted getAddr
  split_ifs
  · exact ⟨rfl, rfl⟩
  · trivial

theorem Accepted.inRange {q : Nat × Nat} (h : Accepted ranges base q) (hq : NoWrap q) :
    InRange ranges q.1 q.2 := by
  unfold Accepted getAddr at h
  split_ifs at h with hc
  · rw [Nat.mod_eq_of_lt hq] at hc
    exact hc.1
  · cases h

theorem load_meets {a n : Nat} (h : InRange ranges a n) (hlt : a < 2 ^ 64) :
    (load ranges mem a n).Meets (· = word mem a n) := by
  unfold load
  rw [Nat.mod_eq_of_lt hlt, if_pos h]
  rfl

theorem Table.fits_div {off size n entry : Nat} (h : InRange ranges off size) (he : entry ≤ n) :
    Table.Fits ⟨off, size / n, entry⟩ ranges := by
  refine Or.inr (h.mono le_rfl (Nat.add_le_add_left ?_ off))
  calc size / n * entry ≤ size / n * n := Nat.mul_le_mul_left _ he
    _ ≤ size := Nat.div_mul_le_self size n

-- every entry read is part of the range that was found valid for the whole segment
theorem scanDyn_meets (n off : Nat) (d : DynInfo) (h : InRange ranges off (n * dynSize is64))
    (hlt : off + n * dynSize is64 < 2 ^ 64) :
    (scanDyn is64 ranges mem n off d).Meets (· = dynInfo is64 mem n off d) := by
  induction n generalizing off d with
  | zero => rfl
  | succ n ih =>
    have hs : (n + 1) * dynSize is64 = n * dynSize is64 + 2 * wordSize is64 := by
      rw [Nat.add_mul, Nat.one_mul, dynSize]
    have hd : dynSize is64 = 2 * wordSize is64 := rfl
    refine (load_meets (h.mono (by omega) (by omega)) (by omega)).bind ?_
    rintro _ rfl
    refine (load_meets (h.mono le_rfl (by omega)) (by omega)).bind ?_
    rintro _ rfl
    exact ih _ _ (h.mono (by omega) (by omega)) (by omega)

theorem relTable_meets : (relTable is64 base ranges d).Meets fun t =>
    RelPasses is64 base ranges d ∧ (NoWrap (d.rel, d.relsz) → t.Fits ranges) := by
  unfold relTable
  split_ifs with hz
  · exact ⟨Or.inl hz, fun _ => Or.inl rfl⟩
  refine Meets.check_bind fun he => getAddr_meets.bind ?_
  rintro _ ⟨rfl, ha⟩
  exact ⟨Or.inr ⟨he, ha⟩, fun hq => Table.fits_div (ha.inRange hq) he.ge⟩

theorem relaTable_meets (hent : RelaPasses base ranges d → d.relasz ≠ 0 → d.relaent ≠ 0) :
    (relaTable is64 base ranges d).Meets fun t => RelaPasses base ranges d ∧
      (NoWrap (d.rela, d.relasz) → (d.relasz ≠ 0 → relaSize is64 ≤ d.relaent) → t.Fits ranges) := by
  unfold relaTable
  by_cases hz : d.relasz = 0
  · rw [if_pos hz]
    exact ⟨Or.inl hz, fun _ _ => Or.inl rfl⟩
  rw [if_neg hz]
  refine Meets.check_bind fun hrel => getAddr_meets.bind ?_
  rintro _ ⟨rfl, ha⟩
  have hpass : RelaPasses base ranges d := Or.inr ⟨hrel, ha⟩
  rw [if_neg (hent hpass hz)]
  exact ⟨hpass, fun hq hle => Table.fits_div (ha.inRange hq) (hle hz)⟩

theorem pltTable_meets : (pltTable is64 base ranges d).Meets fun t =>
    PltPasses base ranges d ∧ (NoWrap (d.pltrel, d.pltrelsz) → t.Fits ranges) := by
  unfold pltTable
  split_ifs with hz
  · exact ⟨Or.inl hz, fun _ => Or.inl rfl⟩
  refine getAddr_meets.bind ?_
  rintro _ ⟨rfl, ha⟩
  exact ⟨Or.inr ha, fun hq => Table.fits_div (ha.inRange hq) le_rfl⟩

theorem strTable_meets (h : StrPasses base ranges d → NoWrap (d.strtab, d.strsz)) :
    (strTable base ranges mem d).Meets fun t => t.Fits ranges ∧ t.entry = 1 ∧ 0 < t.len ∧
      word mem (t.off + (t.len - 1)) 1 = 0 ∧ t.off = d.strtab ∧ t.len = d.strsz ∧
      StrPasses base ranges d := by
  refine getAddr_meets.bind ?_
  rintro _ ⟨rfl, ha⟩
  refine Meets.check_bind fun hpos => ?_
  have hwrap := h ⟨ha, hpos⟩
  have hi : InRange ranges d.strtab d.strsz := ha.inRange hwrap
  unfold NoWrap at hwrap
  refine (load_meets (hi.mono (by omega) (by omega)) (by omega)).bind ?_
  rintro _ rfl
  refine Meets.check_bind fun hz => ⟨Or.inr ?_, rfl, hpos, hz, rfl, rfl, ha, hpos⟩
  simpa using hi

theorem hashTable_meets (h : Accepted ranges base (d.hash, 8) → NoWrap (d.hash, 8)) :
    (hashTable base ranges mem d).Meets fun t => t.1.entry = 4 ∧ t.2.2 = word mem (d.hash + 4) 4 ∧
      Accepted ranges base (d.hash, 8) ∧ Accepted ranges base (hashRange mem d) ∧
      (NoWrap (hashRange mem d) → t.1.Fits ranges) := by
  refine getAddr_meets.bind fun _ ha => ?_
  have hwrap := h ha.2
  have hi : InRange ranges d.hash 8 := ha.2.inRange hwrap
  unfold NoWrap at hwrap
  refine (load_meets (hi.mono le_rfl (by omega)) (by omega)).bind ?_
  rintro _ rfl
  refine (load_meets (hi.mono (by omega) (by omega)) (by omega)).bind ?_
  rintro _ rfl
  have hnbucket := word_lt mem d.hash 4
  have hnchain := word_lt mem (d.hash + 4) 4
  have hlen : (word mem d.hash 4 + word mem (d.hash + 4) 4 + 2) % 2 ^ 64 =
      word mem d.hash 4 + word mem (d.hash + 4) 4 + 2 := Nat.mod_eq_of_lt (by omega)
  have hsize : (word mem d.hash 4 + word mem (d.hash + 4) 4 + 2) * 4 % 2 ^ 64 =
      (word mem d.hash 4 + word mem (d.hash + 4) 4 + 2) * 4 := Nat.mod_eq_of_lt (by omega)
  simp only [hlen, hsize]
  refine getAddr_meets.bind ?_
  rintro _ ⟨rfl, hhash⟩
  exact ⟨rfl, rfl, ha.2, hhash, fun hq => Or.inr (hhash.inRange hq)⟩

theorem symTable_meets : (symTable is64 base ranges d (word mem (d.hash + 4) 4)).Meets fun t =>
    t.entry = symSize is64 ∧ Accepted ranges base (symRange is64 mem d) ∧
      (NoWrap (symRange is64 mem d) → t.Fits ranges) := by
  have hnchain := word_lt mem (d.hash + 4) 4
  have hentry : symSize is64 ≤ 24 := by cases is64 <;> decide
  have hsize : word mem (d.hash + 4) 4 * symSize is64 < 2 ^ 64 :=
    (Nat.mul_le_mul hnchain.le hentry).trans_lt (by decide)
  unfold symTable
  rw [Nat.mod_eq_of_lt hsize]
  refine getAddr_meets.bind ?_
  rintro _ ⟨rfl, ha⟩
  exact ⟨rfl, ha, fun hq => Or.inr (ha.inRange hq)⟩

theorem popRelocInfo_meets {hdr : ElfSegment} (hwrap : NoWrap (hdr.vaddr, hdr.filesz))
    (hi : InRange ranges hdr.vaddr hdr.filesz) (h : UnwrappedTables is64 base ranges mem
      (dynInfo is64 mem (hdr.filesz / dynSize is64) hdr.vaddr {})) :
    (popRelocInfo is64 base ranges mem
      ⟨hdr.vaddr, hdr.filesz / dynSize is64, dynSize is64⟩).Meets fun img =>
        img.Contained ∧ img.Searchable mem := by
  have hle := Nat.add_le_add_left (Nat.div_mul_le_self hdr.filesz (dynSize is64)) hdr.vaddr
  refine (scanDyn_meets _ _ _ (hi.mono le_rfl hle) (hle.trans_lt hwrap)).bind ?_
  rintro _ rfl
  generalize dynInfo _ _ _ _ _ = d at h ⊢
  refine relTable_meets.bind fun rel frel => ?_
  refine (relaTable_meets fun hrela => (h ⟨frel.1, hrela⟩).1).bind fun rela frela => ?_
  have h := (h ⟨frel.1, frela.1⟩).2
  refine pltTable_meets.bind fun plt fplt => ?_
  refine (strTable_meets fun hstr => (h ⟨fplt.1, hstr⟩).1).bind ?_
  rintro str ⟨fstr, hentry, hpos, hlast, hoff, hlen, hstr⟩
  have h := (h ⟨fplt.1, hstr⟩).2
  rw [← hoff, ← hlen] at h
  refine (hashTable_meets fun hhash => (h ⟨hlast, hhash⟩).1).bind fun hash fhash => ?_
  have h := (h ⟨hlast, fhash.2.2.1⟩).2
  rw [fhash.2.1]
  refine symTable_meets.bind fun sym fsym => ?_
  obtain ⟨hrela, hall⟩ := h ⟨fhash.2.2.2.1, fsym.2.1⟩
  simp only [List.forall_mem_cons, List.not_mem_nil, false_implies, implies_true, and_true] at hall
  obtain ⟨hqrel, hqrela, hqplt, hqhash, hqsym⟩ := hall
  refine ⟨?_, hentry, hpos, hlast, fhash.1, fsym.1⟩
  simp only [ElfImage.Contained, ElfImage.tables, List.forall_mem_cons]
  exact ⟨Table.fits_div hi le_rfl, fstr, fsym.2.2 hqsym, fhash.2.2.2.2 hqhash, frel.2 hqrel,
    frela.2 hqrela hrela, fplt.2 hqplt, List.forall_mem_nil _⟩

theorem scanPhdr_meets (s : Scan) (p : ElfSegment) : (scanPhdr base s p).Meets fun s' =>
    (s.ranges.length ≤ maxRanges → s'.ranges.length ≤ maxRanges) ∧
      s'.ranges = s.ranges ++ loadRanges [p] ∧
      s'.dynHdr = if p.type = 2 then some p else s.dynHdr := by
  unfold scanPhdr
  by_cases h1 : p.type = 1
  · rw [if_pos h1]
    refine Meets.check_bind fun hroom => ?_
    refine ⟨fun _ => ?_, by simp [loadRanges, h1], by simp [h1]⟩
    rw [List.length_append]
    exact hroom
  · have hnone : loadRanges [p] = [] := by simp [loadRanges, h1]
    rw [if_neg h1, hnone]
    split_ifs
    all_goals exact ⟨id, (List.append_nil _).symm, rfl⟩

theorem scanPhdrs_meets (phdrs : List ElfSegment) (s : Scan) (hs : s.ranges.length ≤ maxRanges) :
    (scanPhdrs base phdrs s).Meets fun s' => s'.ranges.length ≤ maxRanges ∧
      s'.ranges = s.ranges ++ loadRanges phdrs ∧
      s'.dynHdr = ((phdrs.filter (·.type = 2)).getLast?).or s.dynHdr := by
  induction phdrs generalizing s with
  | nil => exact ⟨hs, (List.append_nil _).symm, rfl⟩
  | cons p ps ih =>
    refine (scanPhdr_meets s p).bind fun s₁ ⟨hroom, hranges, hdyn⟩ => ?_
    refine (ih s₁ (hroom hs)).mono fun s₂ ⟨hroom', hranges', hdyn'⟩ => ⟨hroom', ?_, ?_⟩
    · rw [hranges', hranges, List.append_assoc, loadRanges, loadRanges, loadRanges,
        ← List.map_append, ← List.filter_append, List.singleton_append]
    · rw [hdyn', hdyn]
      by_cases h2 : p.type = 2
      · simp [h2, List.getLast?_cons]
      · simp [h2]

theorem elfImageCtor_meets {machine : Nat} {phdrs : List ElfSegment}
    (h : Unwrapped is64 base mem machine phdrs) :
    (elfImageCtor is64 base mem machine phdrs).Meets fun img =>
      img.Contained ∧ img.Searchable mem := by
  refine Meets.check_bind fun hmachine => (scanPhdrs_meets phdrs {} (Nat.zero_le _)).bind ?_
  rintro s ⟨hroom, hranges, hdyn⟩
  rw [List.nil_append] at hranges
  rw [Option.or_none] at hdyn
  rw [hranges] at hroom ⊢
  cases hd : s.dynHdr with
  | none => trivial
  | some hdr =>
    refine getAddr_meets.bind ?_
    rintro _ ⟨rfl, ha⟩
    obtain ⟨hwrap, htables⟩ := h hmachine hroom hdr (hdyn.symm.trans hd) ha
    exact (popRelocInfo_meets hwrap (ha.inRange hwrap) htables).bind fun _ hc =>
      ⟨hc.1, ⟨hc.2.str_entry, hc.2.str_pos, hc.2.terminated, hc.2.hash_entry, hc.2.sym_entry⟩⟩

end Containment

/-- If no range that it accepts wraps, the constructor reads only inside the load ranges, and every
table it records lies in one. -/
theorem elfImageCtor_contained (is64 : Bool) (base : Nat) (mem : Mem) (machine : Nat)
    (phdrs : List ElfSegment) (h : Unwrapped is64 base mem machine phdrs) :
    (elfImageCtor is64 base mem machine phdrs).Meets ElfImage.Contained :=
  (elfImageCtor_meets h).mono fun _ hc => hc.1

def wordsMem (ws : List Nat) : Mem := fun a => UInt8.ofNat (ws.getD (a / 4) 0 / 256 ^ (a % 4))

def segment (type size memsz : Nat) : ElfSegment := ⟨0, size, memsz, 0, 0, 0, 0, type⟩

-- four dynamic entries, then the string table, the hash table and one symbol
def sampleImage : Mem := wordsMem [5, 32, 10, 1, 4, 36, 6, 52, 0, 1, 1, 0, 0]

theorem elfImageCtor_contained_sample :
    (elfImageCtor false 4096 sampleImage 40 [segment 1 68 68, segment 2 32 32]).Meets
      ElfImage.Contained ∧
    elfImageCtor false 4096 sampleImage 40 [segment 1 68 68, segment 2 32 32] ≠ .error := by
  constructor
  · refine elfImageCtor_contained _ _ _ _ _ fun _ _ hdr h _ => ?_
    cases h
    refine ⟨by decide, fun _ => ⟨by decide +kernel, fun _ => ⟨by decide +kernel, fun _ => ?_⟩⟩⟩
    exact ⟨by decide +kernel, fun _ => ⟨by decide +kernel, by decide +kernel⟩⟩
  · intro h
    have hm : ¬ (elfImageCtor false 4096 sampleImage 40
        [segment 1 68 68, segment 2 32 32]).Meets fun _ => False := by decide +kernel
    exact hm (h ▸ trivial)

/-- A `DT_RELSZ` that carries the end of the table past the address space is accepted, and RELA
entries without a `DT_RELAENT` are a division by zero. -/
theorem elfImageCtor_not_contained : (¬ (elfImageCtor true 4096
        (wordsMem [17, 0, 16, 0, 18, 0, 0xfffffff0, 0xffffffff, 19, 0, 16, 0, 5, 0, 112, 0,
          10, 0, 1, 0, 4, 0, 116, 0, 6, 0, 136, 0, 0, 1, 1, 0, 0])
        183 [segment 1 160 160, segment 2 112 112]).Meets ElfImage.Contained) ∧
    (elfImageCtor true 4096
        (wordsMem [17, 0, 16, 0, 18, 0, 0xfffffff0, 0xffffffff, 19, 0, 16, 0, 5, 0, 112, 0,
          10, 0, 1, 0, 4, 0, 116, 0, 6, 0, 136, 0, 0, 1, 1, 0, 0])
        183 [segment 1 160 160, segment 2 112 112]).Meets
      (fun img => img.rel = ⟨16, 2 ^ 60 - 1, 16⟩ ∧ img.ranges = [⟨0, 160⟩]) ∧
    ¬ (elfImageCtor false 4096 (wordsMem [17, 0, 18, 8, 19, 8, 7, 0, 8, 12]) 40
        [segment 1 40 40, segment 2 40 40]).Meets fun _ => True := by
  decide +kernel

end MinkIpc.Elf
