import Mathlib.Algebra.GroupWithZero.Nat
import Mathlib.Data.List.Basic

/-! The wait for a socket file to get its attributes. What `read` delivers of the notifications is
walked with a counter of the bytes that are left; the pointer is the list of records from it on. -/

namespace MinkIpc.SocketWait

/-- `len` is the size of the name field, which is filled up with zeros. -/
structure Record where
  attrib : Bool
  name : List UInt8
  len : Nat
  named : len = 0 ∨ name.length < len

inductive Delivery
  | interrupted
  | records (r : Record) (rs : List Record)

inductive Result
  | ok
  | error
  | outside
  deriving DecidableEq

def eventSize : Nat := 16

def size (rs : List Record) : Nat := (rs.map (eventSize + ·.len)).sum

/-- The inner loop; no result sends the outer one back to `read`. -/
def walk (targetFileName : List UInt8) (length : Nat) : List Record → Option Result
  | [] => if length > eventSize then some .outside else none
  | r :: rs =>
    if length > eventSize then
      if ¬ (r.attrib ∧ r.len > 0 ∧ r.len ≤ length - eventSize) then some .error
      else if r.name.length ≥ r.len then some .outside
      else if r.name = targetFileName then some .ok
      else walk targetFileName (length - eventSize - r.len) rs
    else none

def waitSocketEnable (targetFileName : List UInt8) : List Delivery → Option Result
  | [] => none
  | .interrupted :: ds => waitSocketEnable targetFileName ds
  | .records r rs :: ds =>
    if size (r :: rs) > eventSize then
      (walk targetFileName (size (r :: rs)) (r :: rs)).or (waitSocketEnable targetFileName ds)
    else some .error

def Record.isFor (target : List UInt8) (r : Record) : Bool :=
  r.attrib && r.len != 0 && r.name == target

def Delivery.has (target : List UInt8) : Delivery → Bool
  | .interrupted => false
  | .records r rs => (r :: rs).any (·.isFor target)

/-- The wait ends with the awaited record and with nothing else. -/
def Exact (target : List UInt8) (ds : List Delivery) : Prop :=
  waitSocketEnable target ds = if ds.any (·.has target) then some .ok else none

/-- Before the awaited record every record has a name and `IN_ATTRIB`; one without a name may be
the last of a delivery, if it is not the first (`later`). -/
def passes (target : List UInt8) (later : Bool) : List Record → Bool
  | [] => true
  | r :: rs => r.isFor target || (r.attrib && r.len != 0 && passes target true rs) ||
    (later && r.len == 0 && rs.isEmpty)

def harmless (target : List UInt8) : List Delivery → Bool
  | [] => true
  | .interrupted :: ds => harmless target ds
  | .records r rs :: ds => passes target false (r :: rs) &&
    ((r :: rs).any (·.isFor target) || harmless target ds)

variable {target : List UInt8} {r : Record} {rs : List Record}

theorem size_cons : size (r :: rs) = eventSize + r.len + size rs := by
  simp [size]

theorem walk_eq : walk target (size rs) rs = if passes target true rs then
    if rs.any (·.isFor target) then some .ok else none else some .error := by
  induction rs with
  | nil => simp [walk, size, passes]
  | cons r rs ih =>
    rw [size_cons, walk]
    rcases Nat.eq_zero_or_pos r.len with hlen | hlen
    · -- a record without a name is an error unless nothing follows it
      cases rs with
      | nil => simp [hlen, size, passes, Record.isFor]
      | cons r' rs =>
        have hpos : 0 < size (r' :: rs) := by
          rw [size_cons, eventSize]
          omega
        simp [hlen, hpos, passes, Record.isFor]
    · have hne : r.len ≠ 0 := by omega
      have hnamed : ¬ r.name.length ≥ r.len := Nat.not_le.mpr (r.named.resolve_left hne)
      have hle : r.len ≤ eventSize + r.len + size rs - eventSize := by omega
      have hrest : eventSize + r.len + size rs - eventSize - r.len = size rs := by omega
      rw [if_pos (by omega), if_neg hnamed, hrest, ih]
      by_cases hattrib : r.attrib
      · by_cases hname : r.name = target
        · simp [hattrib, hlen, hle, hname, hne, passes, Record.isFor]
        · simp [hattrib, hlen, hle, hname, hne, passes, Record.isFor]
      · simp [hattrib, passes, Record.isFor, hne]

theorem passes_eq (h : size (r :: rs) > eventSize) :
    passes target false (r :: rs) = passes target true (r :: rs) := by
  have hnot : (r.len == 0 && rs.isEmpty) = false := by
    cases rs with
    | nil =>
      simp [size] at h ⊢
      omega
    | cons => simp
  simp [passes, hnot]

/-- The wait is exact if no record that comes before the awaited one makes it give up. -/
theorem waitSocketEnable_exact_iff (target : List UInt8) (ds : List Delivery) :
    Exact target ds ↔ harmless target ds := by
  induction ds with
  | nil => simp [Exact, waitSocketEnable, harmless]
  | cons d ds ih =>
    unfold Exact at ih ⊢
    cases d with
    | interrupted => simpa [waitSocketEnable, harmless, Delivery.has] using ih
    | records r rs =>
      have hgives : ∀ p : Bool, some Result.error ≠ if p then some .ok else none := by decide
      rw [waitSocketEnable, harmless, List.any_cons, Delivery.has]
      by_cases hsize : size (r :: rs) > eventSize
      · rw [if_pos hsize, walk_eq, passes_eq hsize]
        cases passes target true (r :: rs) with
        | false => simp
        | true =>
          cases (r :: rs).any (·.isFor target) with
          | false => simpa using ih
          | true => simp
      · obtain ⟨hlen, rfl⟩ : r.len = 0 ∧ rs = [] := by
          cases rs with
          | nil => simpa [size] using hsize
          | cons r' rs =>
            rw [size_cons, size_cons, eventSize] at hsize
            omega
        rw [if_neg hsize]
        exact iff_of_false (hgives _) (by simp [passes, Record.isFor, hlen])

/-- The notification for the directory itself ends the wait with an error. -/
theorem waitSocketEnable_gives_up :
    waitSocketEnable [97] [.records ⟨true, [], 0, .inl rfl⟩ []] = some .error ∧
      ¬ Exact [97] [.records ⟨true, [], 0, .inl rfl⟩ []] := by
  unfold Exact
  decide

end MinkIpc.SocketWait
