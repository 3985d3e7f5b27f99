import MinkIpc.ProcessRegistry

/-! The descriptors of a launch: that of the image, which the memory object carries and closes
when it goes, and the copy of it that is made for a downloaded process. -/

namespace MinkIpc.ProcessRegistry

structure ProgramData where
  fileSize : UInt64
  neverUnload : Bool

inductive MemoryObject
  | msMem (dmaBufFd : Int)
  | fdWrapper (descriptor : Int) (needToCloseFd : Bool)
  | other
  deriving DecidableEq

namespace MemoryObject

def descriptor : MemoryObject → Option Int
  | msMem fd => some fd
  | fdWrapper fd _ => some fd
  | other => none

def isMSMem : MemoryObject → Option Int
  | msMem fd => if 0 < fd then some fd else none
  | _ => none

def fdWrapperFromObject : MemoryObject → Option Int
  | fdWrapper fd _ => some fd
  | _ => none

def launchFd (o : MemoryObject) : Option Int := o.isMSMem <|> o.fdWrapperFromObject

def closesFd : MemoryObject → Bool
  | msMem _ => true
  | fdWrapper _ needToCloseFd => needToCloseFd
  | other => false

end MemoryObject

inductive FdEvent
  | create (fd : Int)
  | close (fd : Int)
  deriving DecidableEq

/-- What the last release of a memory object does: `CMSMem_release`, `FdWrapper_delete`. -/
def MemoryObject.delete (o : MemoryObject) : List FdEvent :=
  match o.descriptor with
  | some fd => if o.closesFd then [.close fd] else []
  | none => []

/-- A launch with the outcome of each call it makes: `fstat` is the size of the image, `memfd` what
`memfd_create` returns, `written` what `write` returns as an `int`. A descriptor that is open is not
given out again. -/
structure ImageCall where
  did : DistId
  cid : Nat
  memObj : MemoryObject
  programData : Option ProgramData
  fstat : Option Nat
  mmap : Bool
  memfd : Int
  written : Int32
  addSeals : Bool
  launched : Option (Nat × Nat)
  procAlloc : Bool
  nodeAlloc : Bool
  ctrlAlloc : Bool
  memfd_fresh : ∀ fd, memObj.descriptor = some fd → fstat.isSome = true → memfd ≠ fd

section Launch

variable (dlBase cidEnumMax : Nat) (call : ImageCall)

/-- `_copyToMemFd`: what it does to descriptors, and `memFd` if it succeeds. A descriptor made is
given up with `-1` when a later check fails. -/
def copyToMemFd (pd : ProgramData) : List FdEvent × Option Int :=
  if call.mmap then
    let log := if 0 ≤ call.memfd then [.create call.memfd] else []
    if 0 < call.memfd ∧ pd.fileSize = call.written.toInt64.toUInt64 ∧ call.addSeals then
      (log, some call.memfd)
    else (log, none)
  else ([], none)

def isDownloaded : Bool := dlBase < call.cid && call.cid < cidEnumMax

def tppmLaunch (fd : Int) (pd : ProgramData) : List FdEvent × Option (Nat × Nat) :=
  match call.fstat with
  | none => ([], none)
  | some _ =>
    if isDownloaded dlBase cidEnumMax call then
      match copyToMemFd call pd with
      | (log, none) => (log, none)
      | (log, some memFd) => (log ++ [.close fd, .close memFd], call.launched)
    else ([], call.launched)

def ImageCall.toLaunchCall : LaunchCall where
  did := call.did
  cid := call.cid
  programData := call.programData.map ProgramData.neverUnload
  buffer := call.memObj.launchFd.isSome
  launched := call.memObj.launchFd.bind fun fd =>
    call.programData.bind fun pd => (tppmLaunch dlBase cidEnumMax call fd pd).2
  procAlloc := call.procAlloc
  nodeAlloc := call.nodeAlloc
  ctrlAlloc := call.ctrlAlloc

/-- `CTPPM_launch` with what it does to descriptors, which is over before the process object is
made. -/
def ctppmLaunch (s : State) : Option ((Answer × State) × List FdEvent) :=
  (findNode s (fun proc => proc.did = call.did) s.procs).bind fun found =>
    (launch s (call.toLaunchCall dlBase cidEnumMax)).map fun r =>
      (r, if found.isSome then [] else
        match call.programData, call.memObj.launchFd with
        | some pd, some fd => (tppmLaunch dlBase cidEnumMax call fd pd).1
        | _, _ => [])

/-- The descriptor of the image and every one that is made are closed once over the launch and the
last release of the memory object. -/
structure ClosedOnce (log : List FdEvent) : Prop where
  image : ∀ fd, call.memObj.descriptor = some fd → (log ++ call.memObj.delete).count (.close fd) = 1
  copies : ∀ fd, .create fd ∈ log → (log ++ call.memObj.delete).count (.close fd) = 1

structure MakesCopy (s : State) : Prop where
  absent : findNode s (fun proc => proc.did = call.did) s.procs = some none
  programData : call.programData.isSome = true
  launchFd : call.memObj.launchFd.isSome = true
  fstat : call.fstat.isSome = true
  downloaded : isDownloaded dlBase cidEnumMax call = true
  mmap : call.mmap = true
  memfd : 0 ≤ call.memfd

structure Copies (s : State) : Prop extends MakesCopy dlBase cidEnumMax call s where
  positive : 0 < call.memfd
  written : ∀ pd, call.programData = some pd → pd.fileSize = call.written.toInt64.toUInt64
  addSeals : call.addSeals = true

end Launch

section Log

variable {dlBase cidEnumMax : Nat} {call : ImageCall} {s : State} {r : Answer × State}
  {log : List FdEvent}

theorem MemoryObject.descriptor_of_launchFd {o : MemoryObject} {fd : Int}
    (h : o.launchFd = some fd) : o.descriptor = some fd := by
  cases o with
  | msMem d =>
    by_cases hd : 0 < d
    · simpa [launchFd, isMSMem, descriptor, hd] using h
    · simp [launchFd, isMSMem, fdWrapperFromObject, hd] at h
  | fdWrapper d b => exact h
  | other => simp [launchFd, isMSMem, fdWrapperFromObject] at h

theorem log_of_not_makesCopy (h : ctppmLaunch dlBase cidEnumMax call s = some (r, log))
    (hmade : ¬ MakesCopy dlBase cidEnumMax call s) : log = [] := by
  obtain ⟨found, hfound, h⟩ := Option.bind_eq_some_iff.mp h
  obtain ⟨r', -, h⟩ := Option.map_eq_some_iff.mp h
  obtain ⟨-, rfl⟩ := Prod.mk.inj h
  cases found with
  | some n => rfl
  | none =>
    rw [Option.isSome_none, if_neg Bool.false_ne_true]
    cases hpd : call.programData with
    | none => rfl
    | some pd =>
      cases hfd : call.memObj.launchFd with
      | none => rfl
      | some fd =>
        dsimp only
        unfold tppmLaunch
        cases hstat : call.fstat with
        | none => rfl
        | some size =>
          by_cases hdl : isDownloaded dlBase cidEnumMax call = true
          · rw [if_pos hdl]
            unfold copyToMemFd
            by_cases hmap : call.mmap = true
            · have hneg : ¬ 0 ≤ call.memfd := fun hge =>
                hmade ⟨hfound, by simp [hpd], by simp [hfd], by simp [hstat], hdl, hmap, hge⟩
              have hpos : ¬ 0 < call.memfd := by omega
              simp [hneg, hpos]
            · simp [hmap]
          · rw [if_neg hdl]

theorem log_of_makesCopy (h : ctppmLaunch dlBase cidEnumMax call s = some (r, log))
    (hmade : MakesCopy dlBase cidEnumMax call s) :
    ∃ fd, call.memObj.descriptor = some fd ∧ call.memfd ≠ fd ∧ (Copies dlBase cidEnumMax call s →
        log = [.create call.memfd, .close fd, .close call.memfd]) ∧
      (¬ Copies dlBase cidEnumMax call s → log = [.create call.memfd]) := by
  obtain ⟨pd, hpd⟩ := Option.isSome_iff_exists.mp hmade.programData
  obtain ⟨fd, hfd⟩ := Option.isSome_iff_exists.mp hmade.launchFd
  obtain ⟨size, hstat⟩ := Option.isSome_iff_exists.mp hmade.fstat
  have hdesc := MemoryObject.descriptor_of_launchFd hfd
  unfold ctppmLaunch at h
  rw [hmade.absent] at h
  obtain ⟨r', -, h⟩ := Option.map_eq_some_iff.mp h
  obtain ⟨-, rfl⟩ := Prod.mk.inj h
  rw [Option.isSome_none, if_neg Bool.false_ne_true, hpd, hfd]
  refine ⟨fd, hdesc, call.memfd_fresh fd hdesc hmade.fstat, fun hcopy => ?_, fun hcopy => ?_⟩
  · have hall : 0 < call.memfd ∧ pd.fileSize = call.written.toInt64.toUInt64 ∧ call.addSeals :=
      ⟨hcopy.positive, hcopy.written pd hpd, hcopy.addSeals⟩
    simp only [tppmLaunch, hstat, hmade.downloaded, copyToMemFd, hmade.mmap, hmade.memfd,
      if_pos hall]
    rfl
  · have hnot : ¬ (0 < call.memfd ∧ pd.fileSize = call.written.toInt64.toUInt64 ∧
        call.addSeals) := by
      rintro ⟨hpos, hsize, hseal⟩
      refine hcopy ⟨hmade, hpos, fun pd' hpd' => ?_, hseal⟩
      cases hpd.symm.trans hpd'
      exact hsize
    simp only [tppmLaunch, hstat, hmade.downloaded, if_true, copyToMemFd, hmade.mmap, hmade.memfd,
      if_neg hnot]

theorem count_delete {o : MemoryObject} {fd x : Int} (h : o.descriptor = some fd) :
    o.delete.count (.close x) = if o.closesFd = true ∧ x = fd then 1 else 0 := by
  unfold MemoryObject.delete
  rw [h]
  dsimp only
  by_cases hc : o.closesFd = true
  · rw [if_pos hc]
    by_cases hx : x = fd
    · simp [hx, hc]
    · simp [Ne.symm hx, hx]
  · simp [hc]

/-- A launch closes what it should if the memory object closes the image and no copy is made, or
the memory object does not and the copy is complete. -/
theorem ctppmLaunch_closedOnce_iff (dlBase cidEnumMax : Nat) (call : ImageCall) (s : State)
    (r : Answer × State) (log : List FdEvent)
    (h : ctppmLaunch dlBase cidEnumMax call s = some (r, log)) :
    ClosedOnce call log ↔ call.memObj.descriptor = none ∨
      call.memObj.closesFd = true ∧ ¬ MakesCopy dlBase cidEnumMax call s ∨
      call.memObj.closesFd = false ∧ Copies dlBase cidEnumMax call s := by
  by_cases hmade : MakesCopy dlBase cidEnumMax call s
  · obtain ⟨fd, hdesc, hne, hcopied, hpartial⟩ := log_of_makesCopy h hmade
    by_cases hcopy : Copies dlBase cidEnumMax call s
    · have hclose : ∀ x, (log ++ call.memObj.delete).count (.close x) =
          (if fd = x then 1 else 0) + (if call.memfd = x then 1 else 0) +
            if call.memObj.closesFd = true ∧ x = fd then 1 else 0 := by
        intro x
        rw [List.count_append, count_delete hdesc, hcopied hcopy]
        simp [List.count_cons, Nat.add_comm]
      constructor
      · intro honce
        have hfd := honce.image fd hdesc
        rw [hclose] at hfd
        refine .inr (.inr ⟨?_, hcopy⟩)
        cases hb : call.memObj.closesFd with
        | false => rfl
        | true => simp [hb] at hfd
      · intro hcond
        have hkeep : call.memObj.closesFd = false := by
          rcases hcond with hnone | ⟨-, hnot⟩ | ⟨hb, -⟩
          · rw [hdesc] at hnone
            cases hnone
          · exact absurd hmade hnot
          · exact hb
        refine ⟨fun x hx => ?_, fun x hx => ?_⟩
        · cases hdesc.symm.trans hx
          rw [hclose, hkeep]
          simp [hne]
        · rw [hcopied hcopy] at hx
          obtain rfl : x = call.memfd := by simpa using hx
          rw [hclose, hkeep]
          simp [Ne.symm hne]
    · -- the copy that was made is never closed
      have hlog := hpartial hcopy
      refine iff_of_false (fun honce => ?_) ?_
      · have hleak := honce.copies call.memfd (by simp [hlog])
        rw [List.count_append, count_delete hdesc, hlog] at hleak
        simp [hne] at hleak
      · rintro (hnone | ⟨-, hnot⟩ | ⟨-, hall⟩)
        · rw [hdesc] at hnone
          cases hnone
        · exact hnot hmade
        · exact hcopy hall
  · have hlog := log_of_not_makesCopy h hmade
    subst hlog
    cases hdesc : call.memObj.descriptor with
    | none =>
      refine iff_of_true ⟨fun fd hfd => ?_, fun fd hfd => ?_⟩ (.inl rfl)
      · rw [hdesc] at hfd
        cases hfd
      · cases hfd
    | some fd =>
      constructor
      · intro honce
        have hfd := honce.image fd hdesc
        rw [List.nil_append, count_delete hdesc] at hfd
        refine .inr (.inl ⟨?_, hmade⟩)
        by_contra hb
        simp [hb] at hfd
      · rintro (hnone | ⟨hb, -⟩ | ⟨-, hcopy⟩)
        · cases hnone
        · refine ⟨fun x hx => ?_, fun x hx => ?_⟩
          · cases hdesc.symm.trans hx
            rw [List.nil_append, count_delete hdesc]
            simp [hb]
          · cases hx
        · exact absurd hcopy.toMakesCopy hmade

end Log

def sampleImageCall (cid : Nat) : ImageCall where
  did := [1]
  cid := cid
  memObj := .fdWrapper 7 true
  programData := some ⟨100, false⟩
  fstat := some 100
  mmap := true
  memfd := 8
  written := 100
  addSeals := true
  launched := some (40, 40)
  procAlloc := true
  nodeAlloc := true
  ctrlAlloc := true
  memfd_fresh := by
    rintro fd h -
    cases h
    decide

theorem ctppmLaunch_closedOnce_embedded :
    ∃ r, ctppmLaunch 2 10 (sampleImageCall 1) .init = some (r, []) ∧
      ClosedOnce (sampleImageCall 1) [] := by
  refine ⟨_, rfl, (ctppmLaunch_closedOnce_iff 2 10 (sampleImageCall 1) .init _ [] rfl).mpr ?_⟩
  exact .inr (.inl ⟨rfl, fun hmade => absurd hmade.downloaded (by decide)⟩)

/-- The descriptor of a downloaded image is closed by the launch and again by its wrapper. -/
theorem ctppmLaunch_closes_twice : ∃ r, ctppmLaunch 2 10 (sampleImageCall 5) .init =
        some (r, [.create 8, .close 7, .close 8]) ∧
      (sampleImageCall 5).memObj.delete = [.close 7] ∧
      ¬ ClosedOnce (sampleImageCall 5) [.create 8, .close 7, .close 8] := by
  refine ⟨_, rfl, rfl, fun honce => ?_⟩
  exact absurd (honce.image 7 rfl) (by decide)

end MinkIpc.ProcessRegistry
