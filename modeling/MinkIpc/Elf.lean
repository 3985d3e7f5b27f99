import MinkIpc.CheckedReads

/-! The ELF parser of the prelauncher: the header and the two tables are copied out of the
source, entries are read from the copies, and segments, sections and names are looked up in
the source itself. -/

namespace MinkIpc.Elf

open Checked

structure Field where
  off : Nat
  width : Nat

structure Layout where
  ehdrSize : Nat
  eMachine : Field
  eVersion : Field
  eEntry : Field
  ePhoff : Field
  eShoff : Field
  eFlags : Field
  eEhsize : Field
  ePhentsize : Field
  ePhnum : Field
  eShentsize : Field
  eShnum : Field
  eShstrndx : Field
  phdrSize : Nat
  pType : Field
  pFlags : Field
  pOffset : Field
  pVaddr : Field
  pPaddr : Field
  pFilesz : Field
  pMemsz : Field
  pAlign : Field
  shdrSize : Nat
  shName : Field
  shType : Field
  shFlags : Field
  shOffset : Field
  shSize : Field

def layout32 : Layout where
  ehdrSize := 52
  eMachine := ⟨18, 2⟩
  eVersion := ⟨20, 4⟩
  eEntry := ⟨24, 4⟩
  ePhoff := ⟨28, 4⟩
  eShoff := ⟨32, 4⟩
  eFlags := ⟨36, 4⟩
  eEhsize := ⟨40, 2⟩
  ePhentsize := ⟨42, 2⟩
  ePhnum := ⟨44, 2⟩
  eShentsize := ⟨46, 2⟩
  eShnum := ⟨48, 2⟩
  eShstrndx := ⟨50, 2⟩
  phdrSize := 32
  pType := ⟨0, 4⟩
  pOffset := ⟨4, 4⟩
  pVaddr := ⟨8, 4⟩
  pPaddr := ⟨12, 4⟩
  pFilesz := ⟨16, 4⟩
  pMemsz := ⟨20, 4⟩
  pFlags := ⟨24, 4⟩
  pAlign := ⟨28, 4⟩
  shdrSize := 40
  shName := ⟨0, 4⟩
  shType := ⟨4, 4⟩
  shFlags := ⟨8, 4⟩
  shOffset := ⟨16, 4⟩
  shSize := ⟨20, 4⟩

def layout64 : Layout where
  ehdrSize := 64
  eMachine := ⟨18, 2⟩
  eVersion := ⟨20, 4⟩
  eEntry := ⟨24, 8⟩
  ePhoff := ⟨32, 8⟩
  eShoff := ⟨40, 8⟩
  eFlags := ⟨48, 4⟩
  eEhsize := ⟨52, 2⟩
  ePhentsize := ⟨54, 2⟩
  ePhnum := ⟨56, 2⟩
  eShentsize := ⟨58, 2⟩
  eShnum := ⟨60, 2⟩
  eShstrndx := ⟨62, 2⟩
  phdrSize := 56
  pType := ⟨0, 4⟩
  pFlags := ⟨4, 4⟩
  pOffset := ⟨8, 8⟩
  pVaddr := ⟨16, 8⟩
  pPaddr := ⟨24, 8⟩
  pFilesz := ⟨32, 8⟩
  pMemsz := ⟨40, 8⟩
  pAlign := ⟨48, 8⟩
  shdrSize := 64
  shName := ⟨0, 4⟩
  shType := ⟨4, 4⟩
  shFlags := ⟨8, 8⟩
  shOffset := ⟨24, 8⟩
  shSize := ⟨32, 8⟩

def field (r : Region) (base : Nat) (f : Field) : Checked Nat := r.word (base + f.off) f.width

structure Source where
  addr : Nat
  region : Region
  addr_lt : addr < 2 ^ 64
  len_lt : region.len < 2 ^ 64

structure ElfFile where
  layout : Layout
  entry : Nat
  machine : Nat
  flags : Nat
  phOff : Nat
  shstrndx : Nat
  pht : Region
  phNum : Nat
  sht : Region
  shNum : Nat

structure ElfSegment where
  offset : Nat
  filesz : Nat
  memsz : Nat
  vaddr : Nat
  paddr : Nat
  flags : Nat
  align : Nat
  type : Nat

structure ElfSection where
  flags : Nat
  offset : Nat
  size : Nat
  type : Nat
  nameOffset : Nat
  nameAddr : Nat

def getData (src : Source) (zalloc : Bool) (offset size : Nat) : Checked Region := do
  check (zalloc = true)
  check (offset ≤ src.region.len ∧ size ≤ src.region.len - offset)
  src.region.copy offset size

-- Both factors are 16 bits wide and multiplied as `int`, then stored in a `size_t`.
def shtSize (shnum shentsize : Nat) : Nat :=
  if shnum * shentsize < 2 ^ 31 then shnum * shentsize else 2 ^ 64 - 2 ^ 32 + shnum * shentsize

def elfFileXXCtor (lay : Layout) (src : Source) (zalloc : Nat → Bool) : Checked ElfFile := do
  let pehdr ← getData src (zalloc 1) 0 lay.ehdrSize
  let ehdr ← pehdr.copy 0 lay.ehdrSize
  let version ← field ehdr 0 lay.eVersion
  check (version = 1)
  let ehsize ← field ehdr 0 lay.eEhsize
  check (ehsize = lay.ehdrSize)
  let phentsize ← field ehdr 0 lay.ePhentsize
  check (phentsize = lay.phdrSize)
  let entry ← field ehdr 0 lay.eEntry
  let machine ← field ehdr 0 lay.eMachine
  let flags ← field ehdr 0 lay.eFlags
  let phoff ← field ehdr 0 lay.ePhoff
  let shstrndx ← field ehdr 0 lay.eShstrndx
  let phnum ← field ehdr 0 lay.ePhnum
  let pht ← getData src (zalloc 2) phoff (phnum * lay.phdrSize)
  let shnum ← field ehdr 0 lay.eShnum
  let shentsize ← field ehdr 0 lay.eShentsize
  let shoff ← field ehdr 0 lay.eShoff
  let sht ← getData src (zalloc 3) shoff (shtSize shnum shentsize)
  return ⟨lay, entry, machine, flags, phoff, shstrndx, pht, phnum, sht, shnum⟩

def magicSize : Nat := 16

def magicWord : Nat := 0x464C457F

def elfFileCtor (src : Source) (zalloc : Nat → Bool) : Checked ElfFile := do
  let pm ← getData src (zalloc 0) 0 magicSize
  let magic ← pm.copy 0 magicSize
  let ident ← magic.word 0 4
  let cls ← magic.word 4 1
  check (ident = magicWord ∧ (cls = 1 ∨ cls = 2))
  elfFileXXCtor (if cls = 2 then layout64 else layout32) src zalloc

def getSegmentInfo (me : ElfFile) (ndx : Nat) : Checked ElfSegment := do
  check (ndx < me.phNum)
  let phdr := ndx * me.layout.phdrSize
  let type ← field me.pht phdr me.layout.pType
  let offset ← field me.pht phdr me.layout.pOffset
  let vaddr ← field me.pht phdr me.layout.pVaddr
  let paddr ← field me.pht phdr me.layout.pPaddr
  let filesz ← field me.pht phdr me.layout.pFilesz
  let memsz ← field me.pht phdr me.layout.pMemsz
  let flags ← field me.pht phdr me.layout.pFlags
  let align ← field me.pht phdr me.layout.pAlign
  return ⟨offset, filesz, memsz, vaddr, paddr, flags, align, type⟩

-- The sum of the two offsets has the width of `sh_offset`.
def getSectionInfo (me : ElfFile) (ndx : Nat) : Checked ElfSection := do
  check (ndx < me.shNum)
  let shdr := ndx * me.layout.shdrSize
  let name ← field me.sht shdr me.layout.shName
  let type ← field me.sht shdr me.layout.shType
  let flags ← field me.sht shdr me.layout.shFlags
  let offset ← field me.sht shdr me.layout.shOffset
  let size ← field me.sht shdr me.layout.shSize
  let strtab ← field me.sht (me.shstrndx * me.layout.shdrSize) me.layout.shOffset
  return ⟨flags, offset, size, type, name, (strtab + name) % 256 ^ me.layout.shOffset.width⟩

def addrAdd (a b : Nat) : Nat := (a + b) % 2 ^ 64

def checkOverflow (a b : Nat) : Bool := a > addrAdd a b

def getSegmentSrcAddr (ef : ElfFile) (src : Source) (segIdx : Nat) : Checked Nat := do
  check (segIdx < ef.phNum)
  let seg ← getSegmentInfo ef segIdx
  let segAddr := addrAdd src.addr seg.offset
  check (checkOverflow src.addr src.region.len = false)
  check (segAddr ≤ addrAdd src.addr src.region.len ∧ segAddr ≥ src.addr)
  return segAddr

def findSegment (ef : ElfFile) (src : Source) (segIdx : Nat) : Checked (Nat × Nat) := do
  let segSrcAddr ← getSegmentSrcAddr ef src segIdx
  let seg ← getSegmentInfo ef segIdx
  check (checkOverflow segSrcAddr seg.filesz = false)
  check (checkOverflow src.addr src.region.len = false)
  check (addrAdd segSrcAddr seg.filesz ≤ addrAdd src.addr src.region.len)
  return (segSrcAddr, seg.filesz)

def nameMatches (src : Source) (nameAddr len : Nat) (name : List UInt8) : Bool :=
  name.length == len && Bytes.read src.region.mem nameAddr len == name

def findSectionIndexFrom (ef : ElfFile) (src : Source) (name : List UInt8) : Nat → Nat → Checked Nat
  | 0, _ => .error
  | n + 1, ii => do
      let sec ← getSectionInfo ef ii
      let len ← src.region.strlen sec.nameAddr
      if nameMatches src sec.nameAddr len name then return ii
      else findSectionIndexFrom ef src name n (ii + 1)

def findSectionIndex (ef : ElfFile) (src : Source) (name : List UInt8) : Checked Nat :=
  findSectionIndexFrom ef src name ef.shNum 0

def manifestName : List UInt8 :=
  [0x2E, 0x6D, 0x69, 0x6E, 0x6B, 0x5F, 0x6D, 0x65, 0x74, 0x61, 0x64, 0x61, 0x74, 0x61]

def findManifestSection (ef : ElfFile) (src : Source) : Checked (Nat × Nat) := do
  let secIdx ← findSectionIndex ef src manifestName
  let sec ← getSectionInfo ef secIdx
  let secSrcAddr := addrAdd src.addr sec.offset
  check (checkOverflow src.addr src.region.len = false)
  check (secSrcAddr ≤ addrAdd src.addr src.region.len ∧ secSrcAddr ≥ src.addr)
  check (checkOverflow secSrcAddr sec.size = false)
  check (addrAdd secSrcAddr sec.size ≤ addrAdd src.addr src.region.len)
  return (secSrcAddr, sec.size)

end MinkIpc.Elf
