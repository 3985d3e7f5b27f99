import Mathlib.Data.List.Count
import Mathlib.Data.List.TakeWhile

/-! The services that are started with the daemon. The counter is raised while an entry of a
configuration file is parsed; the list gets the entry once it has passed all checks. -/

namespace MinkIpc.AutoStart

structure ServiceInfo where
  type : Nat := 0
  uid : Nat := 0
  autoStart : Bool := false

/-- A pair of scalars; for an id, what `_parseServiceInfo` makes of it if it succeeds. A `broken`
pair has no key or no value. -/
inductive Pair
  | id (parsed : Option (Nat × Option Nat))
  | autostart (isTrue : Bool)
  | other
  | broken

structure State where
  serviceList : List ServiceInfo := []
  autoStartServiceCount : Nat := 0

/-- The loop over the pairs of an entry: its information if it ends, and the counter. -/
def parsePairs : List Pair → ServiceInfo → Nat → Option ServiceInfo × Nat
  | [], info, count => (some info, count)
  | .id none :: _, _, count | .broken :: _, _, count => (none, count)
  | .id (some (type, uid)) :: ps, info, count =>
    parsePairs ps { info with type := type, uid := uid.getD info.uid } count
  | .autostart b :: ps, info, count => parsePairs ps { info with autoStart := b } (count + b.toNat)
  | .other :: ps, info, count => parsePairs ps info count

def parseServiceConfiguration (s : State) (alloc : Bool) (isTargetType : Nat → Bool)
    (ps : List Pair) : State :=
  if alloc then
    let (info, count) := parsePairs ps {} s.autoStartServiceCount
    ⟨s.serviceList ++ (info.filter (isTargetType ·.type)).toList, count⟩
  else s

inductive Act
  | entry (alloc : Bool) (isTargetType : Nat → Bool) (ps : List Pair)
  | destory

def step (s : State) : Act → State
  | .entry alloc isTargetType ps => parseServiceConfiguration s alloc isTargetType ps
  | .destory => { s with serviceList := [] }

def getAutoStartServiceList (s : State) (sizeLen : Nat) : Option (List Nat × Nat) :=
  if sizeLen ≥ s.autoStartServiceCount then
    some (if s.autoStartServiceCount ≠ 0 then (s.serviceList.filter (·.autoStart)).map (·.uid)
      else [], s.autoStartServiceCount)
  else none

def State.autoStarts (s : State) : Nat := s.serviceList.countP (·.autoStart)

structure Consistent (s : State) : Prop where
  count : s.autoStartServiceCount = s.autoStarts
  list : getAutoStartServiceList s s.autoStarts =
    some ((s.serviceList.filter (·.autoStart)).map (·.uid), s.autoStarts)

/-- A pair at which the entry is given up. -/
def Pair.fails : Pair → Bool
  | .id none | .broken => true
  | _ => false

def Pair.type? : Pair → Option Nat
  | .id parsed => parsed.map Prod.fst
  | _ => none

def Pair.flag? : Pair → Option Bool
  | .autostart b => some b
  | _ => none

def raises (ps : List Pair) : Nat := ((ps.takeWhile (!·.fails)).filterMap Pair.flag?).count true

-- the last pair of a key counts
def lastType (ps : List Pair) (type : Nat) : Nat := (ps.filterMap Pair.type?).getLast?.getD type

def lastFlag (ps : List Pair) (flag : Bool) : Bool := (ps.filterMap Pair.flag?).getLast?.getD flag

def keptSet (isTargetType : Nat → Bool) (ps : List Pair) : Bool :=
  !ps.any (·.fails) && isTargetType (lastType ps 0) && lastFlag ps false

/-- The pairs `autostart: true` before the first failing pair are as many as the services with the
flag set that the entry adds; the list is destroyed only while it has no such service. -/
def InStep (s : State) : Act → Prop
  | .destory => s.autoStarts = 0
  | .entry alloc isTargetType ps => alloc = true → raises ps = (keptSet isTargetType ps).toNat

def AllInStep : State → List Act → Prop
  | _, [] => True
  | s, a :: as => InStep s a ∧ AllInStep (step s a) as

theorem consistent_iff (s : State) : Consistent s ↔ s.autoStartServiceCount = s.autoStarts := by
  refine ⟨fun h => h.count, fun h => ⟨h, ?_⟩⟩
  rw [getAutoStartServiceList, if_pos (Nat.le_of_eq h), h]
  split_ifs with hne
  · rfl
  · have hnil : s.serviceList.filter (·.autoStart) = [] := by
      rw [← List.length_eq_zero_iff, ← List.countP_eq_length_filter]
      exact not_not.mp hne
    rw [hnil]
    rfl

theorem parsePairs_spec (ps : List Pair) (info : ServiceInfo) (count : Nat) :
    (parsePairs ps info count).2 = count + raises ps ∧
      (parsePairs ps info count).1.map (fun i => (i.type, i.autoStart)) =
        if ps.any (·.fails) then none
        else some (lastType ps info.type, lastFlag ps info.autoStart) := by
  induction ps generalizing info count with
  | nil => simp [parsePairs, raises, lastType, lastFlag]
  | cons p ps ih =>
    cases p with
    | id parsed =>
      cases parsed with
      | none => simp [parsePairs, raises, Pair.fails]
      | some r =>
        obtain ⟨hcount, hinfo⟩ := ih { info with type := r.1, uid := r.2.getD info.uid } count
        simp only [parsePairs, hcount, hinfo]
        refine ⟨rfl, ?_⟩
        simp [lastType, lastFlag, Pair.fails, Pair.type?, Pair.flag?, List.getLast?_cons]
    | autostart b =>
      obtain ⟨hcount, hinfo⟩ := ih { info with autoStart := b } (count + b.toNat)
      simp only [parsePairs, hcount, hinfo]
      refine ⟨?_, ?_⟩
      · cases b <;> simp [raises, Pair.fails, Pair.flag?, Nat.add_assoc, Nat.add_comm]
      · simp [lastType, lastFlag, Pair.fails, Pair.type?, Pair.flag?, List.getLast?_cons]
    | other =>
      obtain ⟨hcount, hinfo⟩ := ih info count
      simp only [parsePairs, hcount, hinfo]
      exact ⟨rfl, rfl⟩
    | broken => simp [parsePairs, raises, Pair.fails]

theorem keptSet_le_raises (isTargetType : Nat → Bool) (ps : List Pair) :
    (keptSet isTargetType ps).toNat ≤ raises ps := by
  cases hkept : keptSet isTargetType ps with
  | false => exact Nat.zero_le _
  | true =>
    simp only [keptSet, Bool.and_eq_true, Bool.not_eq_true', List.any_eq_false] at hkept
    obtain ⟨⟨hnone, -⟩, hflag⟩ := hkept
    have hall : ps.takeWhile (!·.fails) = ps :=
      List.takeWhile_eq_self_iff.mpr fun p hp => by simpa using hnone p hp
    rw [raises, hall]
    refine List.count_pos_iff.mpr (List.mem_of_getLast? ?_)
    unfold lastFlag at hflag
    cases hlast : (ps.filterMap Pair.flag?).getLast? with
    | none => simp [hlast] at hflag
    | some b => simpa [hlast] using hflag

theorem entry_spec (s : State) (isTargetType : Nat → Bool) (ps : List Pair) :
    (step s (.entry true isTargetType ps)).autoStartServiceCount =
        s.autoStartServiceCount + raises ps ∧
      (step s (.entry true isTargetType ps)).autoStarts =
        s.autoStarts + (keptSet isTargetType ps).toNat := by
  obtain ⟨hcount, hinfo⟩ := parsePairs_spec ps {} s.autoStartServiceCount
  simp only [step, parseServiceConfiguration, if_true, State.autoStarts, List.countP_append]
  refine ⟨hcount, congrArg _ ?_⟩
  generalize parsePairs ps {} s.autoStartServiceCount = r at hinfo
  unfold keptSet
  cases hr : r.1 with
  | none =>
    have hfails : ps.any (·.fails) = true := by simpa [hr] using hinfo
    simp [hfails]
  | some info =>
    rw [hr] at hinfo
    split_ifs at hinfo with hfails
    · cases hinfo
    obtain ⟨htype, hflag⟩ := Prod.mk.inj (Option.some.inj hinfo)
    rw [Bool.eq_false_iff.mpr hfails, ← htype, ← hflag]
    cases hs : info.autoStart <;> cases ht : isTargetType info.type <;> simp [Option.filter, hs, ht]

theorem count_foldl_iff (as : List Act) (s : State) (h : s.autoStarts ≤ s.autoStartServiceCount) :
    (as.foldl step s).autoStartServiceCount = (as.foldl step s).autoStarts ↔
      s.autoStartServiceCount = s.autoStarts ∧ AllInStep s as := by
  induction as generalizing s with
  | nil => simp [AllInStep]
  | cons a as ih =>
    rw [List.foldl_cons, AllInStep]
    cases a with
    | entry alloc isTargetType ps =>
      cases alloc with
      | false =>
        have hsame : step s (.entry false isTargetType ps) = s := rfl
        simpa [InStep, hsame] using ih s h
      | true =>
        have hle := keptSet_le_raises isTargetType ps
        obtain ⟨hcount, hstarts⟩ := entry_spec s isTargetType ps
        rw [ih _ (by omega), InStep, hcount, hstarts, ← and_assoc]
        refine and_congr_left fun _ => ?_
        simp only [true_implies]
        omega
    | destory =>
      have hcount : (step s .destory).autoStarts = 0 := rfl
      rw [ih _ (by omega), InStep, hcount, ← and_assoc]
      refine and_congr_left fun _ => ?_
      change s.autoStartServiceCount = 0 ↔ _
      omega

/-- The counter and the list agree iff every entry that raises the counter is kept with its flag
set, and raises it once. -/
theorem autoStart_consistent_iff (as : List Act) :
    Consistent (as.foldl step {}) ↔ AllInStep {} as := by
  rw [consistent_iff, count_foldl_iff as {} (Nat.le_refl _)]
  exact and_iff_right rfl

/-- An entry of a type that is not wanted is counted and dropped. -/
theorem autoStart_counts_dropped :
    let s := step {} (.entry true (· == 1) [.id (some (2, some 7)), .autostart true])
    s.autoStartServiceCount = 1 ∧ s.serviceList = [] ∧ ¬ Consistent s :=
  ⟨rfl, rfl, fun h => absurd h.count (by decide)⟩

end MinkIpc.AutoStart
