import Mathlib.Data.List.Basic

/-! Detection of the RPMB device. The drivers fill one record while they initialise, and the first
one that succeeds becomes the active one. -/

namespace MinkIpc.RpmbInit

structure Info where
  size : Nat
  relWrCount : Nat
  devType : Nat
  deriving DecidableEq

/-- The return values of the steps of the UFS driver, and the fields of the descriptors it uses. -/
structure Ufs where
  probe : Bool
  ufsBsgDev : Int
  rpmbBsgDev : Int
  bsgOpen : Int
  deviceDesc : Int
  wspecversion : Nat
  geometryDesc : Int
  readWriteSize : Nat
  unitDesc : Int
  logicalBlockCount : Nat
  region0Size : Nat
  requestSense : Int

structure Emmc where
  probe : Bool
  node : Bool
  rpmbMult : Int
  relSecCnt : Int
  enhRpmb : Int
  fd : Int

structure Env where
  ufs : Ufs
  emmc : Emmc

def emmcRpmb : Nat := 3
def ufsRpmb : Nat := 9
def noDevice : Nat := 0x7FFFFFFF

def getUfsRpmbParameters (u : Ufs) (info : Info) : Int × Info :=
  if u.bsgOpen ≠ 0 then (u.bsgOpen, info)
  else if u.deviceDesc ≠ 0 then (u.deviceDesc, info)
  else if u.geometryDesc ≠ 0 then (u.geometryDesc, info)
  else
    let info := { info with relWrCount := u.readWriteSize }
    if u.unitDesc ≠ 0 then (u.unitDesc, info)
    else if u.wspecversion < 0x300 then (0, { info with size := u.logicalBlockCount / 2 })
    else (0, { info with size := u.region0Size * 256 })

def rpmbUfsInit (u : Ufs) (info : Info) : Int × Info :=
  if u.ufsBsgDev ≠ 0 then (u.ufsBsgDev, info)
  else if u.rpmbBsgDev ≠ 0 then (u.rpmbBsgDev, info)
  else
    let (ret, info) := getUfsRpmbParameters u info
    if ret < 0 then (ret, info)
    else if u.requestSense < 0 then (u.requestSense, { info with devType := ufsRpmb })
    else (0, { info with devType := ufsRpmb })

-- `memset` clears the record before anything is tried
def rpmbEmmcInit (e : Emmc) (_ : Info) : Int × Info :=
  if ¬ e.node ∨ e.rpmbMult ≤ 0 ∨ e.rpmbMult > 0xFF then (-1, ⟨0, 0, 0⟩)
  else
    let size := e.rpmbMult.toNat * 256
    if e.relSecCnt ≤ 0 then (-1, ⟨size, 0, 0⟩)
    else
      let relWrCount := if e.enhRpmb > 0 then 32 else e.relSecCnt.toNat
      if e.fd < 0 then (-1, ⟨size, relWrCount, 0⟩) else (0, ⟨size, relWrCount, emmcRpmb⟩)

structure DevOps where
  probe : Env → Bool
  init : Env → Info → Int × Info

def rpmbDriverTable : List DevOps :=
  [⟨fun env => env.ufs.probe, fun env => rpmbUfsInit env.ufs⟩,
    ⟨fun env => env.emmc.probe, fun env => rpmbEmmcInit env.emmc⟩]

structure State where
  info : Info := ⟨0, 0, 0⟩
  activeOps : Option DevOps := none
  initDone : Bool := false

def probeLoop (env : Env) : List DevOps → Info → Option DevOps × Info
  | [], info => (none, info)
  | ops :: table, info =>
    if ops.probe env then
      let (ret, info) := ops.init env info
      if ret ≠ 0 then probeLoop env table info else (some ops, info)
    else probeLoop env table info

/-- The status and what is stored for the caller. -/
def rpmbInit (s : State) (env : Env) : State × Int × Info :=
  if s.initDone then (s, if s.activeOps.isSome then 0 else -1, s.info)
  else
    let (ops, info) := probeLoop env rpmbDriverTable s.info
    (⟨info, ops, true⟩, if ops.isSome then (0, info) else (-1, ⟨0, 0, noDevice⟩))

/-- Later calls answer as the first one does, and success comes with what the active driver finds. -/
structure Stable (env : Env) (first : State × Int × Info) : Prop where
  same : ∀ (later : List Env) (env' : Env),
    (rpmbInit (later.foldl (fun s e => (rpmbInit s e).1) first.1) env').2 = first.2
  own : first.2.1 = 0 → ∃ ops ∈ first.1.activeOps, ops ∈ rpmbDriverTable ∧
    ops.init env ⟨0, 0, 0⟩ = first.2

/-- The device is there and no step of the initialisation fails. A step that reads the parameters
fails with a negative value, and ends the reading with any value but 0. -/
structure Ufs.Ready (u : Ufs) : Prop where
  probe : u.probe = true
  nodes : u.ufsBsgDev = 0 ∧ u.rpmbBsgDev = 0
  parameters : ∀ ret ∈ [u.bsgOpen, u.deviceDesc, u.geometryDesc, u.unitDesc].find? (· ≠ 0), 0 ≤ ret
  requestSense : 0 ≤ u.requestSense

structure Emmc.Ready (e : Emmc) : Prop where
  probe : e.probe = true
  node : e.node = true
  rpmbMult : 0 < e.rpmbMult ∧ e.rpmbMult ≤ 0xFF
  relSecCnt : 0 < e.relSecCnt
  fd : 0 ≤ e.fd

variable {env : Env} {info : Info} {ops : DevOps} {table : List DevOps}

theorem rpmbUfsInit_eq_zero_iff (u : Ufs) (info : Info) :
    u.probe = true ∧ (rpmbUfsInit u info).1 = 0 ↔ u.Ready := by
  have hparameters : 0 ≤ (getUfsRpmbParameters u info).1 ↔
      ∀ ret ∈ [u.bsgOpen, u.deviceDesc, u.geometryDesc, u.unitDesc].find? (· ≠ 0), 0 ≤ ret := by
    simp only [getUfsRpmbParameters, List.find?_cons, List.find?_nil]
    split_ifs <;> simp_all
  constructor
  · rintro ⟨hprobe, h⟩
    simp only [rpmbUfsInit] at h
    split_ifs at h with hdev hrpmb hret hsense
    · exact absurd h hdev
    · exact absurd h hrpmb
    · omega
    · omega
    · exact ⟨hprobe, ⟨not_not.mp hdev, not_not.mp hrpmb⟩, hparameters.mp (Int.not_lt.mp hret),
        Int.not_lt.mp hsense⟩
  · rintro ⟨hprobe, ⟨hdev, hrpmb⟩, hret, hsense⟩
    have hret := Int.not_lt.mpr (hparameters.mpr hret)
    simp [rpmbUfsInit, hprobe, hdev, hrpmb, hret, Int.not_lt.mpr hsense]

theorem rpmbEmmcInit_eq_zero_iff (e : Emmc) (info : Info) :
    e.probe = true ∧ (rpmbEmmcInit e info).1 = 0 ↔ e.Ready := by
  have hinit : (rpmbEmmcInit e info).1 = 0 ↔ ¬ (¬ e.node ∨ e.rpmbMult ≤ 0 ∨ e.rpmbMult > 0xFF) ∧
      ¬ e.relSecCnt ≤ 0 ∧ ¬ e.fd < 0 := by
    simp only [rpmbEmmcInit]
    split_ifs <;> simp_all
  rw [hinit]
  constructor
  · rintro ⟨hprobe, hnode, hcnt, hfd⟩
    rw [not_or, not_not] at hnode
    exact ⟨hprobe, hnode.1, by omega, by omega, by omega⟩
  · rintro ⟨hprobe, hnode, hmult, hcnt, hfd⟩
    refine ⟨hprobe, ?_, by omega, by omega⟩
    rw [not_or, not_not]
    exact ⟨hnode, by omega⟩

theorem probeLoop_isSome_iff (env : Env) (info : Info) :
    (probeLoop env rpmbDriverTable info).1.isSome ↔ env.ufs.Ready ∨ env.emmc.Ready := by
  rw [← rpmbUfsInit_eq_zero_iff env.ufs info, ← rpmbEmmcInit_eq_zero_iff env.emmc info]
  have hcleared : rpmbEmmcInit env.emmc (rpmbUfsInit env.ufs info).2 =
    rpmbEmmcInit env.emmc info := rfl
  simp only [rpmbDriverTable, probeLoop, hcleared]
  split_ifs <;> simp_all

theorem devType_getUfsRpmbParameters (u : Ufs) (info : Info) :
    (getUfsRpmbParameters u info).2.devType = info.devType := by
  unfold getUfsRpmbParameters
  split_ifs <;> rfl

theorem devType_init (hops : ops ∈ rpmbDriverTable) (h : info.devType ≠ noDevice) :
    (ops.init env info).2.devType ≠ noDevice := by
  simp only [rpmbDriverTable, List.mem_cons, List.not_mem_nil, or_false] at hops
  rcases hops with rfl | rfl
  · have hufs : ufsRpmb ≠ noDevice := by decide
    simp only [rpmbUfsInit]
    split_ifs
    exacts [h, h, devType_getUfsRpmbParameters env.ufs info ▸ h, hufs, hufs]
  · simp only [rpmbEmmcInit]
    split_ifs <;> simp [emmcRpmb, noDevice]

theorem devType_probeLoop (htable : table ⊆ rpmbDriverTable) (h : info.devType ≠ noDevice) :
    (probeLoop env table info).2.devType ≠ noDevice := by
  induction table generalizing info with
  | nil => exact h
  | cons ops table ih =>
    obtain ⟨hops, htable⟩ := List.cons_subset.mp htable
    simp only [probeLoop]
    split_ifs
    exacts [ih htable (devType_init hops h), devType_init hops h, ih htable h]

theorem init_of_probeLoop (h : probeLoop env rpmbDriverTable ⟨0, 0, 0⟩ = (some ops, info)) :
    ops ∈ rpmbDriverTable ∧ ops.init env ⟨0, 0, 0⟩ = (0, info) := by
  simp only [rpmbDriverTable, probeLoop] at h ⊢
  split_ifs at h <;> cases h <;> exact ⟨by simp, Prod.ext (not_not.mp ‹_›) rfl⟩

/-- Without an active driver only the first call says that there is no device. -/
theorem rpmbInit_stable_iff (env : Env) :
    Stable env (rpmbInit {} env) ↔ env.ufs.Ready ∨ env.emmc.Ready := by
  have hagain : ∀ later : List Env, later.foldl (fun s e => (rpmbInit s e).1) (rpmbInit {} env).1 =
      (rpmbInit {} env).1 := by
    intro later
    induction later with
    | nil => rfl
    | cons e later ih => exact ih
  have hdev := @devType_probeLoop env ⟨0, 0, 0⟩ _ (List.Subset.refl _) (by decide)
  rw [← probeLoop_isSome_iff env ⟨0, 0, 0⟩]
  cases hp : probeLoop env rpmbDriverTable ⟨0, 0, 0⟩ with
  | mk ops info =>
    have hfirst : rpmbInit {} env = (⟨info, ops, true⟩,
        if ops.isSome then (0, info) else (-1, ⟨0, 0, noDevice⟩)) := by
      rw [rpmbInit, if_neg Bool.false_ne_true, hp]
    rw [hfirst] at hagain ⊢
    rw [hp] at hdev
    cases ops with
    | none =>
      refine iff_of_false (fun h => hdev ?_) (by simp)
      exact congrArg (·.2.devType) (h.same [] env)
    | some ops =>
      refine iff_of_true ⟨fun later env' => ?_, fun _ => ⟨ops, rfl, init_of_probeLoop hp⟩⟩ rfl
      rw [hagain later]
      rfl

def nothing : Env :=
  ⟨⟨false, 0, 0, 0, 0, 0, 0, 0, 0, 0, 0, 0⟩, ⟨false, false, 0, 0, 0, 0⟩⟩

/-- A board without a device is answered `NO_DEVICE` once, and the user partition from then on. -/
theorem rpmbInit_forgets_noDevice : (rpmbInit {} nothing).2 = (-1, ⟨0, 0, noDevice⟩) ∧
      (rpmbInit (rpmbInit {} nothing).1 nothing).2 = (-1, ⟨0, 0, 0⟩) ∧
      ¬ Stable nothing (rpmbInit {} nothing) :=
  ⟨rfl, rfl, fun h => absurd (h.same [] nothing) (by decide)⟩

end MinkIpc.RpmbInit
