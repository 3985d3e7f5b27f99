import MinkIpc.Elf

/-! Which sources the parser reads inside its bounds. The program headers are checked where
they are fetched; the section headers and the names of the sections are not. -/

namespace MinkIpc.Elf

open Checked

variable {src : Source} {zalloc : Nat → Bool} {ef : ElfFile} {ndx : Nat} {lay : Layout}

section Fetching

variable {r : Region} {base : Nat} {f : Field} {β : Type} {g : Nat → Checked β}

theorem bind_field_ne_fault (hfit : base + f.off + f.width ≤ r.len)
    (h : ∀ v, g v ≠ fault) : (field r base f >>= g) ≠ fault := by
  rw [field, Region.word_of_le hfit]
  exact h _

theorem bind_check_ne_fault {p : Prop} [Decidable p] {x : Checked β} (h : x ≠ fault) :
    (check p >>= fun _ => x) ≠ fault := fun he => h (check_bind_eq_fault.mp he).2

theorem getData_eq_ok {ok : Bool} {offset size : Nat} (h : getData src ok offset size = .ok r) :
    r = ⟨fun i => src.region.mem (offset + i), size⟩ := by
  unfold getData at h
  rw [check_bind_eq_ok, check_bind_eq_ok] at h
  obtain ⟨-, hfit, h⟩ := h
  rw [Region.copy_of_le (by omega)] at h
  cases h
  rfl

theorem mem_of_copy {ok : Bool} {pr : Region} {size n : Nat} (hpr : getData src ok 0 size = .ok pr)
    (h : pr.copy 0 n = .ok r) : r.mem = src.region.mem := by
  rw [getData_eq_ok hpr] at h
  unfold Region.copy at h
  split_ifs at h
  cases h
  funext i
  simp

theorem getData_ne_fault {ok : Bool} {offset size : Nat} : getData src ok offset size ≠ fault := by
  intro h
  unfold getData at h
  rw [check_bind_eq_fault, check_bind_eq_fault] at h
  obtain ⟨-, hfit, h⟩ := h
  rw [Region.copy_of_le (by omega)] at h
  cases h

end Fetching

structure Layout.Fits (lay : Layout) : Prop where
  ehdr : ∀ f ∈ [lay.eVersion, lay.eEhsize, lay.ePhentsize, lay.eEntry, lay.eMachine, lay.eFlags,
    lay.ePhoff, lay.eShstrndx, lay.ePhnum, lay.eShnum, lay.eShentsize, lay.eShoff],
    0 + f.off + f.width ≤ lay.ehdrSize
  phdr : ∀ f ∈ [lay.pType, lay.pOffset, lay.pVaddr, lay.pPaddr, lay.pFilesz, lay.pMemsz, lay.pFlags,
    lay.pAlign], f.off + f.width ≤ lay.phdrSize
  shdr : ∀ f ∈ [lay.shName, lay.shType, lay.shFlags, lay.shOffset],
    f.off + f.width ≤ lay.shSize.off + lay.shSize.width
  sizes : lay.pFilesz.width ≤ 8 ∧ lay.shSize.width ≤ 8

theorem layout32_fits : layout32.Fits := ⟨by decide, by decide, by decide, by decide⟩

theorem layout64_fits : layout64.Fits := ⟨by decide, by decide, by decide, by decide⟩

section Constructor

theorem elfFileXXCtor_ne_fault (hlay : lay.Fits) : elfFileXXCtor lay src zalloc ≠ fault := by
  refine bind_ne_fault getData_ne_fault fun pehdr hpehdr => ?_
  rw [Region.copy_of_le (by simp [getData_eq_ok hpehdr])]
  refine bind_field_ne_fault (hlay.ehdr _ (by simp)) fun version => bind_check_ne_fault ?_
  refine bind_field_ne_fault (hlay.ehdr _ (by simp)) fun ehsize => bind_check_ne_fault ?_
  refine bind_field_ne_fault (hlay.ehdr _ (by simp)) fun phentsize => bind_check_ne_fault ?_
  refine bind_field_ne_fault (hlay.ehdr _ (by simp)) fun entry => ?_
  refine bind_field_ne_fault (hlay.ehdr _ (by simp)) fun machine => ?_
  refine bind_field_ne_fault (hlay.ehdr _ (by simp)) fun flags => ?_
  refine bind_field_ne_fault (hlay.ehdr _ (by simp)) fun phoff => ?_
  refine bind_field_ne_fault (hlay.ehdr _ (by simp)) fun shstrndx => ?_
  refine bind_field_ne_fault (hlay.ehdr _ (by simp)) fun phnum => ?_
  refine bind_ne_fault getData_ne_fault fun pht _ => ?_
  refine bind_field_ne_fault (hlay.ehdr _ (by simp)) fun shnum => ?_
  refine bind_field_ne_fault (hlay.ehdr _ (by simp)) fun shentsize => ?_
  refine bind_field_ne_fault (hlay.ehdr _ (by simp)) fun shoff => ?_
  exact bind_ne_fault getData_ne_fault fun sht _ => by simp

theorem elfFileCtor_ne_fault : elfFileCtor src zalloc ≠ fault := by
  refine bind_ne_fault getData_ne_fault fun pm hpm => ?_
  rw [Region.copy_of_le (by simp [getData_eq_ok hpm])]
  refine bind_check_ne_fault (elfFileXXCtor_ne_fault ?_)
  split_ifs
  · exact layout64_fits
  · exact layout32_fits

def fileLayout (src : Source) : Layout :=
  if Bytes.word src.region.mem 4 1 = 2 then layout64 else layout32

def header (src : Source) (f : Layout → Field) : Nat :=
  Bytes.word src.region.mem (f (fileLayout src)).off (f (fileLayout src)).width

structure Constructed (src : Source) (ef : ElfFile) : Prop where
  layout : ef.layout = fileLayout src
  shstrndx : ef.shstrndx = header src Layout.eShstrndx
  pht : ef.pht.len = ef.phNum * ef.layout.phdrSize
  shNum : ef.shNum = header src Layout.eShnum
  sht : ef.sht = ⟨fun i => src.region.mem (header src Layout.eShoff + i),
    shtSize (header src Layout.eShnum) (header src Layout.eShentsize)⟩

theorem fileLayout_fits (src : Source) : (fileLayout src).Fits := by
  unfold fileLayout
  split_ifs
  · exact layout64_fits
  · exact layout32_fits

theorem elfFileXXCtor_eq_ok (h : elfFileXXCtor (fileLayout src) src zalloc = .ok ef) :
    Constructed src ef := by
  unfold elfFileXXCtor at h
  simp only [bind_eq_ok] at h
  obtain ⟨pehdr, hpehdr, ehdr, hehdr, _, -, _, -, _, -, _, -, _, -, _, -, _, -, _, -, _, -, _, -,
    shstrndx, hshstrndx, phnum, -, pht, hpht, shnum, hshnum, shentsize, hshentsize, shoff, hshoff,
    sht, hsht, h⟩ := h
  cases h
  have hmem := mem_of_copy hpehdr hehdr
  have hread : ∀ {f : Layout → Field} {v : Nat}, field ehdr 0 (f (fileLayout src)) = .ok v →
      v = header src f := by
    intro f v hv
    have := (Region.word_eq_ok.mp hv).2
    rw [hmem, Nat.zero_add] at this
    exact this.symm
  refine ⟨rfl, hread hshstrndx, by rw [getData_eq_ok hpht], hread hshnum, ?_⟩
  rw [← hread hshnum, ← hread hshentsize, ← hread hshoff]
  exact getData_eq_ok hsht

theorem elfFileCtor_eq_ok (h : elfFileCtor src zalloc = .ok ef) : Constructed src ef := by
  unfold elfFileCtor at h
  simp only [bind_eq_ok] at h
  obtain ⟨pm, hpm, magic, hmagic, _, -, cls, hcls, _, -, h⟩ := h
  have hcls := (Region.word_eq_ok.mp hcls).2
  rw [mem_of_copy hpm hmagic] at hcls
  rw [← hcls] at h
  exact elfFileXXCtor_eq_ok h

end Constructor

section Segments

theorem getSegmentInfo_ne_fault (hef : Constructed src ef) : getSegmentInfo ef ndx ≠ fault := by
  intro h
  unfold getSegmentInfo at h
  rw [check_bind_eq_fault] at h
  obtain ⟨hndx, h⟩ := h
  have hfit : ∀ f ∈ [ef.layout.pType, ef.layout.pOffset, ef.layout.pVaddr, ef.layout.pPaddr,
      ef.layout.pFilesz, ef.layout.pMemsz, ef.layout.pFlags, ef.layout.pAlign],
      ndx * ef.layout.phdrSize + f.off + f.width ≤ ef.pht.len := by
    intro f hf
    have hmember := (hef.layout ▸ fileLayout_fits src).phdr f hf
    have hentry : (ndx + 1) * ef.layout.phdrSize ≤ ef.phNum * ef.layout.phdrSize :=
      Nat.mul_le_mul_right _ hndx
    rw [hef.pht]
    rw [Nat.add_mul] at hentry
    omega
  revert h
  refine bind_field_ne_fault (hfit _ (by simp)) fun type => ?_
  refine bind_field_ne_fault (hfit _ (by simp)) fun offset => ?_
  refine bind_field_ne_fault (hfit _ (by simp)) fun vaddr => ?_
  refine bind_field_ne_fault (hfit _ (by simp)) fun paddr => ?_
  refine bind_field_ne_fault (hfit _ (by simp)) fun filesz => ?_
  refine bind_field_ne_fault (hfit _ (by simp)) fun memsz => ?_
  refine bind_field_ne_fault (hfit _ (by simp)) fun flags => ?_
  exact bind_field_ne_fault (hfit _ (by simp)) fun align => by simp

def Inside (src : Source) (range : Nat × Nat) : Prop :=
  src.addr ≤ range.1 ∧ range.1 + range.2 ≤ src.addr + src.region.len

theorem add_of_checkOverflow {a b : Nat} (ha : a < 2 ^ 64) (hb : b < 2 ^ 64)
    (h : checkOverflow a b = false) : addrAdd a b = a + b ∧ a + b < 2 ^ 64 := by
  unfold checkOverflow addrAdd at h
  have hle : a ≤ (a + b) % 2 ^ 64 := by simpa using h
  unfold addrAdd
  omega

theorem getSegmentInfo_filesz_lt (hef : Constructed src ef) {seg : ElfSegment}
    (h : getSegmentInfo ef ndx = .ok seg) : seg.filesz < 2 ^ 64 := by
  unfold getSegmentInfo at h
  simp only [bind_eq_ok] at h
  obtain ⟨_, -, _, -, _, -, _, -, _, -, filesz, hfilesz, _, -, _, -, _, -, h⟩ := h
  cases h
  have hwidth := (hef.layout ▸ fileLayout_fits src).sizes.1
  calc filesz = Bytes.word _ _ _ := (Region.word_eq_ok.mp hfilesz).2.symm
    _ < 256 ^ ef.layout.pFilesz.width := Bytes.word_lt _ _ _
    _ ≤ 256 ^ 8 := Nat.pow_le_pow_right (by decide) hwidth
    _ = 2 ^ 64 := by decide

theorem findSegment_ne_fault (hef : Constructed src ef) : findSegment ef src ndx ≠ fault := by
  have hinfo : getSegmentInfo ef ndx ≠ fault := getSegmentInfo_ne_fault hef
  refine bind_ne_fault ?_ fun a _ => bind_ne_fault hinfo fun seg _ => ?_
  · refine bind_check_ne_fault (bind_ne_fault hinfo fun seg _ => ?_)
    exact bind_check_ne_fault (bind_check_ne_fault (by simp))
  · exact bind_check_ne_fault (bind_check_ne_fault (bind_check_ne_fault (by simp)))

theorem inside_of_checks {a n : Nat} (hn : n < 2 ^ 64) (ha : a < 2 ^ 64)
    (hsrc : checkOverflow src.addr src.region.len = false) (hstart : src.addr ≤ a)
    (hsize : checkOverflow a n = false)
    (hend : addrAdd a n ≤ addrAdd src.addr src.region.len) : Inside src (a, n) := by
  obtain ⟨hlimit, -⟩ := add_of_checkOverflow src.addr_lt src.len_lt hsrc
  obtain ⟨hsum, -⟩ := add_of_checkOverflow ha hn hsize
  rw [hlimit, hsum] at hend
  exact ⟨hstart, hend⟩

theorem findSegment_inside (hef : Constructed src ef) {range : Nat × Nat}
    (h : findSegment ef src ndx = .ok range) : Inside src range := by
  unfold findSegment getSegmentSrcAddr at h
  simp only [bind_eq_ok, check_eq_ok] at h
  obtain ⟨a, ⟨_, -, first, -, _, -, _, hstart, ha⟩, seg, hseg, _, hsize, _, hsrc, _, hend, h⟩ := h
  cases h
  cases ha
  exact inside_of_checks (getSegmentInfo_filesz_lt hef hseg) (Nat.mod_lt _ (by decide)) hsrc hstart.2
    hsize hend

end Segments

section Sections

def sectionHeader (src : Source) (ndx : Nat) (f : Layout → Field) : Nat :=
  Bytes.word src.region.mem
    (header src Layout.eShoff + (ndx * (fileLayout src).shdrSize + (f (fileLayout src)).off))
    (f (fileLayout src)).width

def nameAddrAt (src : Source) (ndx : Nat) : Nat :=
  (sectionHeader src (header src Layout.eShstrndx) Layout.shOffset
    + sectionHeader src ndx Layout.shName) % 256 ^ (fileLayout src).shOffset.width

def HeaderFetched (src : Source) (ndx : Nat) (f : Layout → Field) : Prop :=
  ndx * (fileLayout src).shdrSize + (f (fileLayout src)).off + (f (fileLayout src)).width
    ≤ shtSize (header src Layout.eShnum) (header src Layout.eShentsize)

theorem sht_word (hef : Constructed src ef) (f : Layout → Field) {v : Nat}
    (h : field ef.sht (ndx * ef.layout.shdrSize) (f ef.layout) = .ok v) :
    HeaderFetched src ndx f ∧ v = sectionHeader src ndx f := by
  rw [hef.layout, hef.sht] at h
  obtain ⟨hfit, hv⟩ := Region.word_eq_ok.mp h
  refine ⟨hfit, hv.symm.trans ?_⟩
  simp [Bytes.word, sectionHeader, Bytes.read, Nat.add_assoc]

theorem sht_word_ne_fault (hef : Constructed src ef) {f : Layout → Field}
    (h : HeaderFetched src ndx f) :
    ndx * ef.layout.shdrSize + (f ef.layout).off + (f ef.layout).width ≤ ef.sht.len := by
  rw [hef.layout, hef.sht]
  exact h

theorem getSectionInfo_eq_ok (hef : Constructed src ef) {sec : ElfSection}
    (h : getSectionInfo ef ndx = .ok sec) :
    ndx < ef.shNum ∧ HeaderFetched src ndx Layout.shSize ∧
      HeaderFetched src (header src Layout.eShstrndx) Layout.shOffset ∧
      sec.nameAddr = nameAddrAt src ndx ∧ sec.size < 2 ^ 64 := by
  unfold getSectionInfo at h
  simp only [bind_eq_ok, check_eq_ok] at h
  obtain ⟨_, hndx, name, hname, _, -, _, -, _, -, size, hsize, strtab, hstrtab, h⟩ := h
  cases h
  rw [hef.shstrndx] at hstrtab
  obtain ⟨-, hname⟩ := sht_word hef Layout.shName hname
  obtain ⟨hfetched, hsize⟩ := sht_word hef Layout.shSize hsize
  obtain ⟨hstrFetched, hstrtab⟩ := sht_word hef Layout.shOffset hstrtab
  refine ⟨hndx, hfetched, hstrFetched, ?_, ?_⟩
  · rw [nameAddrAt, ← hname, ← hstrtab, hef.layout]
  · calc size = sectionHeader src ndx Layout.shSize := hsize
      _ < 256 ^ (fileLayout src).shSize.width := Bytes.word_lt _ _ _
      _ ≤ 256 ^ 8 := Nat.pow_le_pow_right (by decide) (fileLayout_fits src).sizes.2
      _ = 2 ^ 64 := by decide

theorem getSectionInfo_ne_error (hndx : ndx < ef.shNum) : getSectionInfo ef ndx ≠ error := by
  unfold getSectionInfo
  rw [check_of hndx, ok_bind]
  refine bind_ne_error Region.word_ne_error fun name => ?_
  refine bind_ne_error Region.word_ne_error fun type => ?_
  refine bind_ne_error Region.word_ne_error fun flags => ?_
  refine bind_ne_error Region.word_ne_error fun offset => ?_
  refine bind_ne_error Region.word_ne_error fun size => ?_
  exact bind_ne_error Region.word_ne_error fun strtab => by simp

theorem getSectionInfo_ne_fault (hef : Constructed src ef)
    (hfetched : HeaderFetched src ndx Layout.shSize)
    (hstrtab : HeaderFetched src (header src Layout.eShstrndx) Layout.shOffset) :
    getSectionInfo ef ndx ≠ fault := by
  have hmember : ∀ f ∈ [ef.layout.shName, ef.layout.shType, ef.layout.shFlags, ef.layout.shOffset],
      ndx * ef.layout.shdrSize + f.off + f.width ≤ ef.sht.len := by
    intro f hf
    have hbefore := (hef.layout ▸ fileLayout_fits src).shdr f hf
    have hsize := sht_word_ne_fault hef hfetched
    omega
  have hstrtab := sht_word_ne_fault hef hstrtab
  rw [← hef.shstrndx] at hstrtab
  refine bind_check_ne_fault ?_
  refine bind_field_ne_fault (hmember _ (by simp)) fun name => ?_
  refine bind_field_ne_fault (hmember _ (by simp)) fun type => ?_
  refine bind_field_ne_fault (hmember _ (by simp)) fun flags => ?_
  refine bind_field_ne_fault (hmember _ (by simp)) fun offset => ?_
  refine bind_field_ne_fault (sht_word_ne_fault hef hfetched) fun size => ?_
  exact bind_field_ne_fault hstrtab fun strtab => by simp

structure HeadersFetched (src : Source) : Prop where
  sections : ∀ ndx < header src Layout.eShnum, HeaderFetched src ndx Layout.shSize
  strtab : 0 < header src Layout.eShnum →
    HeaderFetched src (header src Layout.eShstrndx) Layout.shOffset

theorem getSectionInfo_ne_fault_iff (hef : Constructed src ef) :
    (∀ ndx, getSectionInfo ef ndx ≠ fault) ↔ HeadersFetched src := by
  constructor
  · intro h
    have hok : ∀ ndx < header src Layout.eShnum, ∃ sec, getSectionInfo ef ndx = .ok sec := by
      intro ndx hndx
      rcases hinfo : getSectionInfo ef ndx with sec | _ | _
      · exact ⟨sec, rfl⟩
      · exact absurd hinfo (getSectionInfo_ne_error (hef.shNum ▸ hndx))
      · exact absurd hinfo (h ndx)
    constructor
    · intro ndx hndx
      obtain ⟨sec, hsec⟩ := hok ndx hndx
      exact (getSectionInfo_eq_ok hef hsec).2.1
    · intro hpos
      obtain ⟨sec, hsec⟩ := hok 0 hpos
      exact (getSectionInfo_eq_ok hef hsec).2.2.1
  · intro h ndx
    by_cases hndx : ndx < header src Layout.eShnum
    · exact getSectionInfo_ne_fault hef (h.sections ndx hndx) (h.strtab (Nat.zero_lt_of_lt hndx))
    · intro hfault
      exact hndx (hef.shNum ▸ (check_bind_eq_fault.mp hfault).1)

theorem HeadersFetched.getSectionInfo (h : HeadersFetched src) (hef : Constructed src ef)
    (hndx : ndx < ef.shNum) : ∃ sec, getSectionInfo ef ndx = .ok sec ∧
      sec.nameAddr = nameAddrAt src ndx ∧ sec.size < 2 ^ 64 := by
  rcases hinfo : Elf.getSectionInfo ef ndx with sec | _ | _
  · exact ⟨sec, rfl, (getSectionInfo_eq_ok hef hinfo).2.2.2⟩
  · exact absurd hinfo (getSectionInfo_ne_error hndx)
  · exact absurd hinfo ((getSectionInfo_ne_fault_iff hef).mpr h ndx)

end Sections

section Names

def Terminated (src : Source) (a : Nat) : Prop :=
  ∃ i, a + i < src.region.len ∧ src.region.mem (a + i) = 0

def isNamed (src : Source) (name : List UInt8) (ndx : Nat) : Bool :=
  match src.region.strlen (nameAddrAt src ndx) with
  | .ok len => nameMatches src (nameAddrAt src ndx) len name
  | _ => false

def NamesTerminated (src : Source) (name : List UInt8) (ii n : Nat) : Prop :=
  ∀ k < n, (∀ j < k, isNamed src name (ii + j) = false) → Terminated src (nameAddrAt src (ii + k))

variable {name : List UInt8} {ii n : Nat}

theorem namesTerminated_succ : NamesTerminated src name ii (n + 1) ↔
    Terminated src (nameAddrAt src ii) ∧
      (isNamed src name ii = false → NamesTerminated src name (ii + 1) n) := by
  constructor
  · intro h
    refine ⟨h 0 (by omega) (by simp), fun hii k hk hbefore => ?_⟩
    have hshift : ii + 1 + k = ii + (k + 1) := by omega
    rw [hshift]
    refine h (k + 1) (by omega) fun j hj => ?_
    cases j with
    | zero => exact hii
    | succ j =>
      have := hbefore j (by omega)
      rwa [show ii + 1 + j = ii + (j + 1) by omega] at this
  · rintro ⟨hfirst, hrest⟩ k hk hbefore
    cases k with
    | zero => exact hfirst
    | succ k =>
      rw [show ii + (k + 1) = ii + 1 + k by omega]
      refine hrest (hbefore 0 (by omega)) k (by omega) fun j hj => ?_
      rw [show ii + 1 + j = ii + (j + 1) by omega]
      exact hbefore (j + 1) (by omega)

theorem findSectionIndexFrom_ne_fault_iff (hef : Constructed src ef) (hfetched : HeadersFetched src)
    (hn : ii + n ≤ ef.shNum) :
    findSectionIndexFrom ef src name n ii ≠ fault ↔ NamesTerminated src name ii n := by
  -- on the sections that are left
  induction n generalizing ii with
  | zero =>
    refine iff_of_true (by simp [findSectionIndexFrom]) ?_
    intro k hk
    omega
  | succ n ih =>
    obtain ⟨sec, hsec, haddr, -⟩ := hfetched.getSectionInfo hef (show ii < ef.shNum by omega)
    have ih := ih (show ii + 1 + n ≤ ef.shNum by omega)
    rw [namesTerminated_succ, findSectionIndexFrom, hsec, ok_bind, haddr]
    rw [Terminated, ← Region.strlen_ne_fault_iff]
    rcases hlen : src.region.strlen (nameAddrAt src ii) with len | _ | _
    · have hnamed : isNamed src name ii = nameMatches src (nameAddrAt src ii) len name := by
        rw [isNamed, hlen]
      rw [hnamed]
      by_cases hmatch : nameMatches src (nameAddrAt src ii) len name = true
      · simp [hmatch]
      · simpa [hmatch] using ih
    · exact absurd hlen Region.strlen_ne_error
    · simp

theorem findSectionIndexFrom_lt (hn : ii + n ≤ ef.shNum)
    (h : findSectionIndexFrom ef src name n ii = .ok ndx) : ndx < ef.shNum := by
  induction n generalizing ii with
  | zero => simp [findSectionIndexFrom] at h
  | succ n ih =>
    rw [findSectionIndexFrom] at h
    simp only [bind_eq_ok] at h
    obtain ⟨sec, -, len, -, h⟩ := h
    split_ifs at h
    · cases h
      omega
    · exact ih (by omega) h

end Names

section Containment

structure SourceContained (src : Source) (zalloc : Nat → Bool) : Prop where
  ctor : elfFileCtor src zalloc ≠ fault
  segmentInfo : ∀ ef, elfFileCtor src zalloc = .ok ef → ∀ ndx, getSegmentInfo ef ndx ≠ fault
  sectionInfo : ∀ ef, elfFileCtor src zalloc = .ok ef → ∀ ndx, getSectionInfo ef ndx ≠ fault
  segment : ∀ ef, elfFileCtor src zalloc = .ok ef → ∀ ndx, findSegment ef src ndx ≠ fault ∧
    ∀ range, findSegment ef src ndx = .ok range → Inside src range
  manifest : ∀ ef, elfFileCtor src zalloc = .ok ef → findManifestSection ef src ≠ fault ∧
    ∀ range, findManifestSection ef src = .ok range → Inside src range

theorem findManifestSection_inside (hef : Constructed src ef) {range : Nat × Nat}
    (h : findManifestSection ef src = .ok range) : Inside src range := by
  unfold findManifestSection at h
  simp only [bind_eq_ok, check_eq_ok] at h
  obtain ⟨idx, -, sec, hsec, _, hsrc, _, hstart, _, hsize, _, hend, h⟩ := h
  cases h
  exact inside_of_checks (getSectionInfo_eq_ok hef hsec).2.2.2.2 (Nat.mod_lt _ (by decide)) hsrc
    hstart.2 hsize hend

theorem findManifestSection_ne_fault_iff (hef : Constructed src ef) (hfetched : HeadersFetched src) :
    findManifestSection ef src ≠ fault ↔ NamesTerminated src manifestName 0 (header src Layout.eShnum) := by
  have hsearch : findSectionIndexFrom ef src manifestName ef.shNum 0 ≠ fault ↔ _ :=
    findSectionIndexFrom_ne_fault_iff hef hfetched (show 0 + ef.shNum ≤ ef.shNum by omega)
  rw [← hef.shNum, ← hsearch]
  constructor
  · intro h hfault
    apply h
    rw [findManifestSection, findSectionIndex, hfault, fault_bind]
  · intro h
    refine bind_ne_fault h fun idx hidx => ?_
    have hlt := findSectionIndexFrom_lt (by omega) hidx
    obtain ⟨sec, hsec, -⟩ := hfetched.getSectionInfo hef hlt
    rw [hsec]
    refine bind_check_ne_fault (bind_check_ne_fault ?_)
    exact bind_check_ne_fault (bind_check_ne_fault (by simp))

/-- Nothing is read outside the source exactly if the headers of a file that is accepted can be
fetched and its section names end inside. -/
theorem source_contained_iff (src : Source) (zalloc : Nat → Bool) :
    SourceContained src zalloc ↔ ((∃ ef, elfFileCtor src zalloc = .ok ef) →
      HeadersFetched src ∧ NamesTerminated src manifestName 0 (header src Layout.eShnum)) := by
  constructor
  · rintro h ⟨ef, hctor⟩
    have hef := elfFileCtor_eq_ok hctor
    have hfetched := (getSectionInfo_ne_fault_iff hef).mp (h.sectionInfo ef hctor)
    exact ⟨hfetched, (findManifestSection_ne_fault_iff hef hfetched).mp (h.manifest ef hctor).1⟩
  · intro h
    refine ⟨elfFileCtor_ne_fault, ?_, ?_, ?_, ?_⟩
    · intro ef hctor ndx
      exact getSegmentInfo_ne_fault (elfFileCtor_eq_ok hctor)
    · intro ef hctor
      exact (getSectionInfo_ne_fault_iff (elfFileCtor_eq_ok hctor)).mpr (h ⟨ef, hctor⟩).1
    · intro ef hctor ndx
      have hef := elfFileCtor_eq_ok hctor
      exact ⟨findSegment_ne_fault hef, fun range => findSegment_inside hef⟩
    · intro ef hctor
      have hef := elfFileCtor_eq_ok hctor
      obtain ⟨hfetched, hnames⟩ := h ⟨ef, hctor⟩
      exact ⟨(findManifestSection_ne_fault_iff hef hfetched).mpr hnames,
        fun range => findManifestSection_inside hef⟩

def headerOnly : List UInt8 :=
  [0x7F, 0x45, 0x4C, 0x46, 2, 1, 1, 0, 0, 0, 0, 0, 0, 0, 0, 0,
   2, 0, 183, 0, 1, 0, 0, 0, 0, 0, 0, 0, 0, 0, 0, 0,
   0, 0, 0, 0, 0, 0, 0, 0, 0, 0, 0, 0, 0, 0, 0, 0,
   0, 0, 0, 0, 64, 0, 56, 0, 0, 0, 0, 0, 1, 0, 0, 0]

def headerOnlySource : Source := ⟨0x1000, ⟨fun i => headerOnly.getD i 0, 64⟩, by decide, by decide⟩

def headerOnlyFile : ElfFile where
  layout := layout64
  entry := 0
  machine := 183
  flags := 0
  phOff := 0
  shstrndx := 0
  pht := ⟨fun i => headerOnlySource.region.mem (0 + i), 0⟩
  phNum := 0
  sht := ⟨fun i => headerOnlySource.region.mem (0 + i), 0⟩
  shNum := 1

theorem headerOnly_not_contained : ¬ SourceContained headerOnlySource fun _ => true := by
  intro h
  have hctor : (elfFileCtor headerOnlySource fun _ => true) = .ok headerOnlyFile := by rfl
  exact h.sectionInfo headerOnlyFile hctor 0 rfl

end Containment

end MinkIpc.Elf
