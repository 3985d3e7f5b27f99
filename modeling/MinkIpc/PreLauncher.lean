import MinkIpc.Elf
import MinkIpc.MetadataInfo

/-! The prelauncher in a build with authentication and anti-rollback: the version an image was
signed with is compared with the one the key-value store has for its id. -/

namespace MinkIpc.PreLauncher

open Elf Metadata

inductive Code
  | error
  | errorMem
  | badObj
  | other (e : Int)
  | invalidBuffer
  | getAuthSvc
  | elfSignatureError
  | getArbVersion
  | getRpmbSvc
  | rpmbFailure
  | rollbackFailure
  | metadataInvalid
  | procInvalid
  | heapMallocFailure
  | procNotLoaded
  | procAlreadyLoaded
  | embedMissingProperty
  deriving DecidableEq

inductive Ending
  | code (c : Code)
  | fault
  deriving DecidableEq

def check (p : Prop) [Decidable p] (c : Code) : Except Ending Unit :=
  if p then .ok () else .error (.code c)

def ofOption {α : Type} (c : Code) : Option α → Except Ending α
  | some a => .ok a
  | none => .error (.code c)

def ofChecked {α : Type} (c : Code) : Checked α → Except Ending α
  | .ok a => .ok a
  | .error => .error (.code c)
  | .fault => .error .fault

structure Auth where
  clientEnv : Bool
  service : Bool
  verified : Bool
  authorities : Option Nat
  arVersion : Option UInt32

structure Rpmb where
  clientEnv : Bool
  service : Bool
  getKeyHandle : Bool
  getInfo : Bool
  getValue : Bool
  updateValue : Bool
  createNewKey : Bool

inductive ITPPMError
  | transport (e : Int)
  | invalidBuffer
  | heapMallocFailure
  | procAlreadyLoaded
  | procNotLoaded
  | unknown

structure Launch where
  cid : Nat
  mdStrLen : Nat
  isFd : Bool
  auth : Auth
  fstat : Bool
  mmap : Option Source
  elfAlloc : Nat → Bool
  didAlloc : Bool
  metadataAlloc : Bool
  domainAlloc : Bool
  distNameAlloc : Bool
  rpmb : Rpmb
  sha : Bool
  tppm : Option ITPPMError

structure Config (DistId : Type) where
  dlOemSigned : Nat
  embeddedBase : Nat
  sha256 : List UInt8 → DistId

section Image

def oemSigned : Nat := 1

def domainOem : List UInt8 := [0x6F, 0x65, 0x6D]

structure Authority where
  bufRot : Nat
  bufDomain : Option (List UInt8)
  elfArbVer : UInt32

def authTP (auth : Auth) : Except Ending Authority := do
  check (auth.clientEnv = true) .getAuthSvc
  check (auth.service = true) .getAuthSvc
  check (auth.verified = true) .elfSignatureError
  let bufRot ← ofOption .elfSignatureError auth.authorities
  check (oemSigned = bufRot) .elfSignatureError
  let elfArbVer ← ofOption .getArbVersion auth.arVersion
  return ⟨bufRot, some domainOem, elfArbVer⟩

variable {DistId : Type} (cfg : Config DistId) (w : Launch)

def authority : Except Ending Authority :=
  if w.cid = cfg.dlOemSigned then authTP w.auth
  else if cfg.embeddedBase ≤ w.cid then .ok ⟨oemSigned, some domainOem, 0⟩
  else .ok ⟨0, none, 0⟩

def checkDomain : Option (List UInt8) → Except Ending (List UInt8)
  | none => .error .fault
  | some domain => do
    check ((domain ++ [0])[3]? = some 0) .error
    return domain

def findSegmentIndexFrom (ef : ElfFile) (p : ElfSegment → Bool) : Nat → Nat → Checked Nat
  | 0, _ => .error
  | n + 1, ii => do
    let seg ← getSegmentInfo ef ii
    if p seg then return ii else findSegmentIndexFrom ef p n (ii + 1)

def ptFlagTypeMask : Nat := 0x7000000

def ptFlagManifestTypeMask : Nat := 0x4000000

def ptFlagTprocessTypeMask : Nat := 0x3000000

def ptInterp : Nat := 3

def ptGnuRelro : Nat := 0x6474e552

def findSegmentIndexByFlag (ef : ElfFile) (segFlag : Nat) : Checked Nat :=
  findSegmentIndexFrom ef (fun seg => seg.flags &&& ptFlagTypeMask == segFlag) ef.phNum 0

def findSegmentIndexByType (ef : ElfFile) (segType : Nat) : Checked Nat :=
  findSegmentIndexFrom ef (fun seg => seg.type == segType) ef.phNum 0

def findMetaData (ef : ElfFile) (src : Source) : Except Ending (Bool × Nat × Nat) :=
  match findSegmentIndexByFlag ef ptFlagManifestTypeMask with
  | .ok segIdx => (ofChecked .error (findSegment ef src segIdx)).map (true, ·)
  | .error => (ofChecked .metadataInvalid (findManifestSection ef src)).map (false, ·)
  | .fault => .error .fault

def readMetaData (src : Source) (addr size : Nat) : Except Ending (List UInt8) := do
  check (0 < size ∧ size ≤ w.mdStrLen) .error
  let last ← ofChecked .error (src.region.word (addr - src.addr + size - 1) 1)
  check (last = 0) .error
  let bytes ← ofChecked .error (src.region.copy (addr - src.addr) size)
  return Bytes.read bytes.mem 0 size

def getDistId (md : MetadataInfo) (domain : List UInt8) : Except Ending DistId := do
  check (md.indAppName = true) .error
  check (w.distNameAlloc = true) .error
  return cfg.sha256 (domain ++ 46 :: cString md.appName)

structure Image (DistId : Type) where
  elfArbVer : UInt32
  bufRot : Nat
  domain : List UInt8
  src : Source
  ef : ElfFile
  isSegmentMetaData : Bool
  mdStr : List UInt8
  md : MetadataInfo
  did : DistId

def parseImage : Except Ending (Image DistId) := do
  check (w.isFd = true) .badObj
  let auth ← authority cfg w
  let domain ← checkDomain auth.bufDomain
  check (w.fstat = true) (.other (-1))
  let src ← ofOption .error w.mmap
  let ef ← ofChecked .metadataInvalid (elfFileCtor src w.elfAlloc)
  let (isSegment, addr, size) ← findMetaData ef src
  let mdStr ← readMetaData w src addr size
  check (w.metadataAlloc = true) .errorMem
  let md ← ofOption .error (MetadataInfo.new (cString mdStr))
  check (w.domainAlloc = true) .errorMem
  let did ← getDistId cfg w md domain
  return ⟨auth.elfArbVer, auth.bufRot, domain, src, ef, isSegment, mdStr, md, did⟩

structure ProgramData where
  neverUnload : Bool
  offset : Nat
  fileSize : Nat
  fileName : List UInt8

structure AuthData (DistId : Type) where
  rot : Nat
  domain : List UInt8
  hash : DistId

structure Parsed (DistId : Type) where
  did : DistId
  mdStr : List UInt8
  programData : ProgramData
  authData : AuthData DistId

def findExecutable (img : Image DistId) : Except Ending (Nat × Nat) :=
  if img.isSegmentMetaData then do
    let segIdx ← ofChecked .procInvalid (findSegmentIndexByFlag img.ef ptFlagTprocessTypeMask)
    ofChecked .error (findSegment img.ef img.src segIdx)
  else do
    let _ ← ofChecked .procInvalid (findSegmentIndexByType img.ef ptInterp)
    let _ ← ofChecked .procInvalid (findSegmentIndexByType img.ef ptGnuRelro)
    return (img.src.addr, img.src.region.len)

def parseProgram (img : Image DistId) : Except Ending (Parsed DistId) := do
  let (addr, size) ← findExecutable img
  check (w.sha = true) .error
  let bytes ← ofChecked .error (img.src.region.copy (addr - img.src.addr) size)
  return {
    did := img.did
    mdStr := img.mdStr
    programData := ⟨img.md.neverUnload, addr - img.src.addr, size, (cString img.md.appName).take 256⟩
    authData := ⟨img.bufRot, img.domain, cfg.sha256 (Bytes.read bytes.mem 0 size)⟩ }

variable {cfg w} {img : Image DistId}

theorem bind_eq_ok {α β : Type} {x : Except Ending α} {f : α → Except Ending β} {b : β} :
    (x >>= f) = .ok b ↔ ∃ a, x = .ok a ∧ f a = .ok b := by
  cases x with
  | error e | ok a => simp [bind, Except.bind]

theorem ofOption_eq_ok {α : Type} {c : Code} {x : Option α} {a : α} :
    ofOption c x = .ok a ↔ x = some a := by
  cases x <;> simp [ofOption]

theorem parseImage_arVersion (h : parseImage cfg w = .ok img)
    (hcid : w.cid = cfg.dlOemSigned) : w.auth.arVersion = some img.elfArbVer := by
  simp only [parseImage, bind_eq_ok] at h
  obtain ⟨_, _, a, hauth, _, _, _, _, _, _, _, _, _, _, _, _, _, _, _, _, _, _, _, _, himg⟩ := h
  rw [authority, if_pos hcid] at hauth
  cases himg
  simp only [authTP, bind_eq_ok, ofOption_eq_ok] at hauth
  obtain ⟨_, _, _, _, _, _, _, _, _, _, v, hv, ha⟩ := hauth
  cases ha
  exact hv

theorem parseProgram_did {parsed : Parsed DistId}
    (h : parseProgram cfg w img = .ok parsed) : parsed.did = img.did := by
  simp only [parseProgram, bind_eq_ok] at h
  obtain ⟨_, _, _, _, _, _, hp⟩ := h
  cases hp
  rfl

end Image

structure Value where
  bytes : List UInt8
  length_eq : bytes.length = 4

def Value.toNat (v : Value) : Nat := Bytes.ofLe v.bytes

def Value.ofVersion (v : UInt32) : Value := ⟨Bytes.le 4 v.toNat, Bytes.length_le ..⟩

abbrev Store (DistId : Type) := DistId → Option Value

section Functions

variable {DistId : Type} [DecidableEq DistId] (cfg : Config DistId) (w : Launch)

abbrev Act (DistId : Type) := ExceptT Ending (StateM (Store DistId))

def put (did : DistId) (v : UInt32) : Act DistId Unit :=
  modify fun store => Function.update store did (some (.ofVersion v))

def antiRollBack (rpmb : Rpmb) (did : DistId) (elfArbVer : UInt32) : Act DistId Unit := do
  check (rpmb.clientEnv = true) .getRpmbSvc
  check (rpmb.service = true) .getRpmbSvc
  check (rpmb.getKeyHandle = true) .rpmbFailure
  match (← get) did with
  | some stored =>
    check (rpmb.getInfo = true) .rpmbFailure
    check (rpmb.getValue = true) .rpmbFailure
    check (stored.toNat ≤ elfArbVer.toNat) .rollbackFailure
    if stored.toNat < elfArbVer.toNat then
      check (rpmb.updateValue = true) .rpmbFailure
      put did elfArbVer
  | none =>
    check (rpmb.createNewKey = true) .rpmbFailure
    put did elfArbVer

def parseElf : Act DistId (Parsed DistId) := do
  let img ← parseImage cfg w
  if w.cid = cfg.dlOemSigned then antiRollBack w.rpmb img.did img.elfArbVer
  parseProgram cfg w img

def iTPPMToITPreLauncherError : ITPPMError → Code
  | .transport e => .other e
  | .invalidBuffer => .invalidBuffer
  | .heapMallocFailure => .procNotLoaded
  | .procAlreadyLoaded => .procAlreadyLoaded
  | .procNotLoaded => .procNotLoaded
  | .unknown => .error

def tppmLaunch : Option ITPPMError → Except Ending Unit
  | none => .ok ()
  | some e => .error (.code (iTPPMToITPreLauncherError e))

def launch : Act DistId (Parsed DistId) := do
  check (w.didAlloc = true) .heapMallocFailure
  let parsed ← parseElf cfg w
  if cfg.embeddedBase ≤ w.cid then check (parsed.programData.neverUnload = true) .embedMissingProperty
  tppmLaunch w.tppm
  return parsed

def launches : List Launch → Store DistId → Store DistId
  | [], store => store
  | w :: ws, store => launches ws (launch cfg w store).2

end Functions

section Atomic

variable {DistId α β : Type} {s t : Store DistId}

def Atomic (m : Act DistId α) (s : Store DistId) (Q : α → Store DistId → Prop) : Prop :=
  (∃ e, m s = (.error e, s)) ∨ ∃ a t, m s = (.ok a, t) ∧ Q a t

theorem bind_apply (m : Act DistId α) (f : α → Act DistId β) (s : Store DistId) : (m >>= f) s =
      match m s with
      | (.ok a, t) => f a t
      | (.error e, t) => (.error e, t) := by
  change (match m s with | (r, t) => ExceptT.bindCont f r t) = _
  rcases m s with ⟨_ | _, _⟩ <;> rfl

theorem lift_apply (x : Except Ending α) (s : Store DistId) : (liftM x : Act DistId α) s = (x, s) :=
  rfl

theorem snd_lift_bind {x : Except Ending α} {f : α → Act DistId β} (h : ∀ a, (f a s).2 = s) :
    (((liftM x : Act DistId α) >>= f) s).2 = s := by
  cases x with
  | error e => rfl
  | ok a => exact h a

variable {Q : β → Store DistId → Prop}

theorem Atomic.bind_lift {x : Except Ending α} {f : α → Act DistId β}
    (h : ∀ a, x = .ok a → Atomic (f a) s Q) : Atomic ((liftM x : Act DistId α) >>= f) s Q := by
  cases x with
  | error e => exact .inl ⟨e, rfl⟩
  | ok a => exact h a rfl

theorem Atomic.check {p : Prop} [Decidable p] {c : Code} {f : Unit → Act DistId β}
    (h : p → Atomic (f ()) s Q) :
    Atomic ((liftM (PreLauncher.check p c) : Act DistId Unit) >>= f) s Q := by
  refine bind_lift ?_
  intro _ hok
  refine h ?_
  by_contra hp
  rw [PreLauncher.check, if_neg hp] at hok
  cases hok

theorem Atomic.pure {a : α} {Q : α → Store DistId → Prop} (h : Q a s) :
    Atomic (Pure.pure a) s Q := .inr ⟨a, s, rfl, h⟩

theorem Atomic.get {f : Store DistId → Act DistId β} (h : Atomic (f s) s Q) :
    Atomic (MonadState.get >>= f) s Q := h

end Atomic

section Versions

variable {DistId : Type} [DecidableEq DistId] {cfg : Config DistId} {w : Launch}
  {s t : Store DistId} {did : DistId} {v : UInt32}

/-- The store after an image is admitted: its version is there, and it was not lower than the one
before. -/
def Admits (s : Store DistId) (did : DistId) (v : UInt32) (t : Store DistId) : Prop :=
  (∀ stored, s did = some stored → stored.toNat ≤ v.toNat) ∧
    ∃ value : Value, value.toNat = v.toNat ∧ t = Function.update s did (some value)

theorem atomic_put (h : ∀ stored, s did = some stored → stored.toNat ≤ v.toNat) :
    Atomic (put did v) s fun _ t => Admits s did v t :=
  .inr ⟨(), _, rfl, h, .ofVersion v, (Bytes.ofLe_le_of_lt v.toNat_lt), rfl⟩

theorem antiRollBack_atomic (rpmb : Rpmb) (did : DistId) (v : UInt32) (s : Store DistId) :
    Atomic (antiRollBack rpmb did v) s fun _ t => Admits s did v t := by
  apply Atomic.check
  intro _
  apply Atomic.check
  intro _
  apply Atomic.check
  intro _
  apply Atomic.get
  cases hs : s did with
  | none =>
    apply Atomic.check
    intro _
    apply atomic_put
    intro stored hstored
    rw [hs] at hstored
    cases hstored
  | some stored =>
    apply Atomic.check
    intro _
    apply Atomic.check
    intro _
    apply Atomic.check
    intro hle
    have hall : ∀ value, s did = some value → value.toNat ≤ v.toNat := by
      intro value hvalue
      cases hs.symm.trans hvalue
      exact hle
    split_ifs with hlt
    · exact .check fun _ => atomic_put hall
    · -- an equal version is left in place
      apply Atomic.pure
      refine ⟨hall, stored, by omega, ?_⟩
      rw [← hs, Function.update_eq_self]

theorem parseElf_cases (cfg : Config DistId) (w : Launch) (s : Store DistId) :
    ((parseElf cfg w s).2 = s ∧ (w.cid = cfg.dlOemSigned → ∃ e, (parseElf cfg w s).1 = .error e)) ∨
      ∃ img, parseImage cfg w = .ok img ∧ w.cid = cfg.dlOemSigned ∧
        Admits s img.did img.elfArbVer (parseElf cfg w s).2 ∧
        (parseElf cfg w s).1 = parseProgram cfg w img := by
  unfold parseElf
  rw [bind_apply, lift_apply]
  cases himg : parseImage cfg w with
  | error e => exact .inl ⟨rfl, fun _ => ⟨e, rfl⟩⟩
  | ok img =>
    dsimp only
    split_ifs with hcid
    · rw [bind_apply]
      rcases antiRollBack_atomic w.rpmb img.did img.elfArbVer s with ⟨e, he⟩ | ⟨u, t, ht, hadmits⟩
      · rw [he]
        exact .inl ⟨rfl, fun _ => ⟨e, rfl⟩⟩
      · rw [ht]
        exact .inr ⟨img, rfl, hcid, hadmits, rfl⟩
    · exact .inl ⟨rfl, fun h => absurd h hcid⟩

theorem launch_snd (cfg : Config DistId) (w : Launch) (s : Store DistId) :
    (launch cfg w s).2 = if w.didAlloc then (parseElf cfg w s).2 else s := by
  unfold launch
  rw [bind_apply, lift_apply, check]
  by_cases halloc : w.didAlloc
  · rw [if_pos halloc, if_pos halloc]
    dsimp only
    rw [bind_apply]
    rcases parseElf cfg w s with ⟨_ | parsed, t⟩
    · rfl
    · split_ifs
      · exact snd_lift_bind fun _ => snd_lift_bind fun _ => rfl
      · exact snd_lift_bind fun _ => rfl
  · rw [if_neg halloc, if_neg halloc]

def version (s : Store DistId) (id : DistId) : Option Nat := (s id).map Value.toNat

theorem Admits.version_self (h : Admits s did v t) : version t did = some v.toNat := by
  obtain ⟨-, value, hvalue, rfl⟩ := h
  rw [version, Function.update_self, Option.map_some, hvalue]

theorem Admits.of_ne (h : Admits s did v t) {id : DistId} (hne : id ≠ did) : t id = s id := by
  obtain ⟨-, value, -, rfl⟩ := h
  exact Function.update_of_ne hne _ _

theorem version_le_refl (x : Option Nat) : x ≤ x := by
  cases x with
  | none => trivial
  | some n => exact Nat.le_refl n

theorem version_le_trans {x y z : Option Nat} (hxy : x ≤ y) (hyz : y ≤ z) : x ≤ z := by
  cases x with
  | none => cases z <;> trivial
  | some n =>
    cases y with
    | none => cases hxy
    | some m =>
      cases z with
      | none => cases hyz
      | some k => exact Nat.le_trans hxy hyz

theorem Admits.version_le (h : Admits s did v t) (id : DistId) : version s id ≤ version t id := by
  by_cases hid : id = did
  · subst hid
    rw [h.version_self, version]
    cases hs : s id with
    | none => trivial
    | some stored => exact h.1 stored hs
  · rw [version, version, h.of_ne hid]
    exact version_le_refl _

theorem launch_version_le (cfg : Config DistId) (w : Launch) (s : Store DistId) (id : DistId) :
    version s id ≤ version (launch cfg w s).2 id := by
  rw [launch_snd]
  split_ifs
  · rcases parseElf_cases cfg w s with ⟨hsame, -⟩ | ⟨img, -, -, hadmits, -⟩
    · rw [hsame]
      exact version_le_refl _
    · exact hadmits.version_le id
  · exact version_le_refl _

theorem launches_version_le (ws : List Launch) (s : Store DistId) (id : DistId) :
    version s id ≤ version (launches cfg ws s) id := by
  induction ws generalizing s with
  | nil => exact version_le_refl _
  | cons w ws ih => exact version_le_trans (launch_version_le cfg w s id) (ih _)

theorem launches_append (ws ws' : List Launch) (s : Store DistId) :
    launches cfg (ws ++ ws') s = launches cfg ws' (launches cfg ws s) := by
  induction ws generalizing s with
  | nil => rfl
  | cons w ws ih => exact ih _

/-- A launch of a downloadable image of this id, signed with this version, that passes `_parseElf`.
-/
def Passes (cfg : Config DistId) (s : Store DistId) (w : Launch) (id : DistId) (v : UInt32) : Prop :=
  w.didAlloc = true ∧ w.cid = cfg.dlOemSigned ∧ w.auth.arVersion = some v ∧
    ∃ parsed, (parseElf cfg w s).1 = .ok parsed ∧ parsed.did = id

def imageId (cfg : Config DistId) (w : Launch) : Option DistId :=
  match parseImage cfg w with
  | .ok img => some img.did
  | .error _ => none

theorem Passes.admits {id : DistId} (h : Passes cfg s w id v) :
    Admits s id v (launch cfg w s).2 := by
  obtain ⟨halloc, hcid, hversion, parsed, hparsed, rfl⟩ := h
  rw [launch_snd, if_pos halloc]
  rcases parseElf_cases cfg w s with ⟨-, herror⟩ | ⟨img, himg, -, hadmits, hprogram⟩
  · obtain ⟨e, he⟩ := herror hcid
    cases he.symm.trans hparsed
  · cases hversion.symm.trans (parseImage_arVersion himg hcid)
    rw [parseProgram_did (hprogram.symm.trans hparsed)]
    exact hadmits

theorem Passes.le_of_launches {w' : Launch} {id : DistId} {v' : UInt32} {ws : List Launch}
    (h : Passes cfg s w id v) (h' : Passes cfg (launches cfg (w :: ws) s) w' id v') : v ≤ v' := by
  have hle : version (launch cfg w s).2 id ≤ version (launches cfg (w :: ws) s) id :=
    launches_version_le ws _ id
  rw [h.admits.version_self, version] at hle
  cases hstored : launches cfg (w :: ws) s id with
  | none =>
    rw [hstored] at hle
    cases hle
  | some stored =>
    rw [hstored] at hle
    exact UInt32.le_iff_toNat_le.mpr (Nat.le_trans hle (h'.admits.1 stored hstored))

/-- Over every sequence of launches no version decreases, and a launch changes nothing but the
version of its own image. -/
theorem antiRollBack_monotone (cfg : Config DistId) (s : Store DistId) (ws ws' : List Launch) :
    (∀ id, version (launches cfg ws s) id ≤ version (launches cfg (ws ++ ws') s) id) ∧
      (∀ w w' id v v', Passes cfg (launches cfg ws s) w id v →
        Passes cfg (launches cfg (ws ++ w :: ws') s) w' id v' → v ≤ v') ∧
      ∀ w id, imageId cfg w ≠ some id → launches cfg (ws ++ [w]) s id = launches cfg ws s id := by
  refine ⟨?_, ?_, ?_⟩
  · intro id
    rw [launches_append]
    exact launches_version_le ws' _ id
  · intro w w' id v v' hw hw'
    rw [launches_append] at hw'
    exact hw.le_of_launches hw'
  · intro w id hid
    rw [launches_append]
    change (launch cfg w (launches cfg ws s)).2 id = _
    rw [launch_snd]
    split_ifs
    · rcases parseElf_cases cfg w (launches cfg ws s) with ⟨hsame, -⟩ | ⟨img, himg, -, hadmits, -⟩
      · rw [hsame]
      · refine hadmits.of_ne ?_
        rintro rfl
        exact hid (by rw [imageId, himg])
    · rfl

def sampleFile : List UInt8 :=
  [0x7F, 0x45, 0x4C, 0x46, 1] ++ List.replicate 15 0 ++ Bytes.le 4 1 ++ Bytes.le 4 0 ++
    Bytes.le 4 52 ++ Bytes.le 4 0 ++ Bytes.le 4 0 ++ Bytes.le 2 52 ++ Bytes.le 2 32 ++ Bytes.le 2 2 ++
    List.replicate 6 0 ++
    (Bytes.le 4 0 ++ Bytes.le 4 116 ++ List.replicate 8 0 ++ Bytes.le 4 4 ++ Bytes.le 4 0 ++
      Bytes.le 4 ptFlagManifestTypeMask ++ Bytes.le 4 0) ++
    (Bytes.le 4 0 ++ Bytes.le 4 116 ++ List.replicate 8 0 ++ Bytes.le 4 4 ++ Bytes.le 4 0 ++
      Bytes.le 4 ptFlagTprocessTypeMask ++ Bytes.le 4 0) ++
    [0x6E, 0x3D, 0x61, 0]

def sampleSource : Source := ⟨0x4000, ⟨fun i => sampleFile.getD i 0, 120⟩, by decide, by decide⟩

def sampleConfig : Config (List UInt8) := ⟨1, 2, fun bytes => bytes⟩

def sampleLaunch (v : UInt32) : Launch where
  cid := 1
  mdStrLen := 100
  isFd := true
  auth := ⟨true, true, true, some 1, some v⟩
  fstat := true
  mmap := some sampleSource
  elfAlloc _ := true
  didAlloc := true
  metadataAlloc := true
  domainAlloc := true
  distNameAlloc := true
  rpmb := ⟨true, true, true, true, true, true, true⟩
  sha := true
  tppm := none

def sampleId : List UInt8 := [0x6F, 0x65, 0x6D, 0x2E, 0x61]

theorem antiRollBack_monotone_sample :
    ∃ s : Store (List UInt8), Passes sampleConfig s (sampleLaunch 5) sampleId 5 ∧
      Passes sampleConfig (launches sampleConfig [sampleLaunch 5] s) (sampleLaunch 7) sampleId 7 ∧
      (5 : UInt32) ≤ 7 := by
  have h : Passes sampleConfig (fun _ => none) (sampleLaunch 5) sampleId 5 :=
    ⟨rfl, rfl, rfl, _, rfl, rfl⟩
  have h' : Passes sampleConfig (launches sampleConfig [sampleLaunch 5] fun _ => none)
      (sampleLaunch 7) sampleId 7 := ⟨rfl, rfl, rfl, _, rfl, rfl⟩
  exact ⟨_, h, h', (antiRollBack_monotone sampleConfig _ [] []).2.1 _ _ _ _ _ h h'⟩

end Versions

end MinkIpc.PreLauncher
