import Mathlib.Data.List.Basic
import Mathlib.Tactic.Common

/-! A ledger of references and descriptors: what is acquired and released, which reference owns
which descriptor, and which descriptor is closed. It is settled when all that was acquired is
given back exactly once. -/

namespace Ledger

open List

inductive Entry (ρ δ : Type*)
  | acquire (r : ρ)
  | release (r : ρ)
  | own (r : ρ) (d : δ)
  | close (d : δ)
  deriving DecidableEq, Repr

variable {ρ δ : Type*} [DecidableEq ρ] [DecidableEq δ]

def acquired (l : List (Entry ρ δ)) (r : ρ) : Nat := l.count (.acquire r)

def released (l : List (Entry ρ δ)) (r : ρ) : Nat := l.count (.release r)

def closed (l : List (Entry ρ δ)) (d : δ) : Nat := l.count (.close d)

/-- Every reference that was acquired is released once and no other is; every received
descriptor is closed once, or owned by one reference, which is released. -/
structure Settled (received : δ → Prop) (l : List (Entry ρ δ)) : Prop where
  once : ∀ r, .acquire r ∈ l → released l r = 1
  only : ∀ r, .acquire r ∉ l → .release r ∉ l
  descriptors : ∀ d, received d → (closed l d = 1 ∧ ∀ r, .own r d ∉ l) ∨
    (closed l d = 0 ∧ ∃ r, (∀ r', .own r' d ∈ l ↔ r' = r) ∧ released l r = 1)

section Counts

variable (l l' : List (Entry ρ δ)) (r s : ρ) (d x : δ)

@[simp]
theorem acquired_nil : acquired ([] : List (Entry ρ δ)) r = 0 := rfl

@[simp]
theorem released_nil : released ([] : List (Entry ρ δ)) r = 0 := rfl

@[simp]
theorem closed_nil : closed ([] : List (Entry ρ δ)) d = 0 := rfl

@[simp]
theorem acquired_append : acquired (l ++ l') r = acquired l r + acquired l' r := count_append

@[simp]
theorem released_append : released (l ++ l') r = released l r + released l' r := count_append

@[simp]
theorem closed_append : closed (l ++ l') d = closed l d + closed l' d := count_append

@[simp]
theorem acquired_cons (e : Entry ρ δ) :
    acquired (e :: l) r = acquired l r + if e = .acquire r then 1 else 0 := by
  simp [acquired, count_cons]

@[simp]
theorem released_cons (e : Entry ρ δ) :
    released (e :: l) r = released l r + if e = .release r then 1 else 0 := by
  simp [released, count_cons]

@[simp]
theorem closed_cons (e : Entry ρ δ) :
    closed (e :: l) d = closed l d + if e = .close d then 1 else 0 := by
  simp [closed, count_cons]

variable {l r} in
theorem acquire_mem_iff : .acquire r ∈ l ↔ 1 ≤ acquired l r := one_le_count_iff.symm

variable {l r} in
theorem release_mem_iff : .release r ∈ l ↔ 1 ≤ released l r := one_le_count_iff.symm

variable {l} in
theorem balanced_iff (h : ∀ r, acquired l r ≤ 1) :
    ((∀ r, .acquire r ∈ l → released l r = 1) ∧ ∀ r, .acquire r ∉ l → .release r ∉ l) ↔
      ∀ r, released l r = acquired l r := by
  simp only [acquire_mem_iff, release_mem_iff]
  constructor
  · rintro ⟨honce, honly⟩ r
    have := h r
    have := honce r
    have := honly r
    omega
  · intro hbal
    refine ⟨fun r hr => ?_, fun r hr => ?_⟩
    · have := h r
      have := hbal r
      omega
    · have := hbal r
      omega

end Counts

theorem count_filterMap_range {α : Type*} [DecidableEq α] {f : Nat → Option α} {a : α} {i : Nat}
    (h : ∀ j, f j = some a → j = i) (n : Nat) :
    ((range n).filterMap f).count a = if i < n ∧ f i = some a then 1 else 0 := by
  induction n with
  | zero => simp
  | succ n ih =>
    rw [range_succ, filterMap_append, count_append, ih]
    by_cases hn : f n = some a
    · obtain rfl := h n hn
      simp [hn]
    have hlast : (filterMap f [n]).count a = 0 := by
      rw [count_eq_zero]
      simpa using hn
    rw [hlast]
    by_cases hi : f i = some a
    · have hne : i ≠ n := fun heq => hn (heq ▸ hi)
      simp only [hi, and_true]
      split_ifs <;> omega
    · simp [hi]

section Returns

def takes (slots : Nat → Option ρ) (n : Nat) : List (Entry ρ δ) :=
  (range n).filterMap fun i => (slots i).map .acquire

def returns (slots : Nat → Option ρ) (n : Nat) : List (Entry ρ δ) :=
  (range n).filterMap fun i => (slots i).map .release

def closes (isOpen : Nat → Bool) (n : Nat) : List (Entry ρ Nat) :=
  (range n).filterMap fun x => if isOpen x then some (.close x) else none

variable {slots : Nat → Option ρ} {n : Nat} {isOpen : Nat → Bool}

omit [DecidableEq ρ] [DecidableEq δ] in
theorem mem_returns {e : Entry ρ δ} (h : e ∈ returns slots n) : ∃ r, e = .release r := by
  obtain ⟨i, -, hi⟩ := mem_filterMap.mp h
  obtain ⟨r, -, rfl⟩ := Option.map_eq_some_iff.mp hi
  exact ⟨r, rfl⟩

omit [DecidableEq ρ] [DecidableEq δ] in
theorem mem_takes {e : Entry ρ δ} (h : e ∈ takes slots n) : ∃ r, e = .acquire r := by
  obtain ⟨i, -, hi⟩ := mem_filterMap.mp h
  obtain ⟨r, -, rfl⟩ := Option.map_eq_some_iff.mp hi
  exact ⟨r, rfl⟩

omit [DecidableEq ρ] in
theorem mem_closes {e : Entry ρ Nat} (h : e ∈ closes isOpen n) : ∃ x, e = .close x := by
  obtain ⟨x, -, hx⟩ := mem_filterMap.mp h
  split_ifs at hx
  cases hx
  exact ⟨x, rfl⟩

theorem acquired_takes {r : ρ} {i : Nat} (h : ∀ j, slots j = some r → j = i) :
    acquired (takes slots n : List (Entry ρ δ)) r = if i < n ∧ slots i = some r then 1 else 0 := by
  have hf : ∀ j, (slots j).map (Entry.acquire : ρ → Entry ρ δ) = some (.acquire r) ↔
      slots j = some r := by
    intro j
    cases slots j <;> simp
  unfold acquired takes
  rw [count_filterMap_range fun j hj => h j ((hf j).mp hj)]
  simp only [hf]

theorem released_takes (r : ρ) : released (takes slots n : List (Entry ρ δ)) r = 0 :=
  count_eq_zero.mpr fun h => by
    obtain ⟨s, hs⟩ := mem_takes h
    cases hs

theorem released_returns {r : ρ} {i : Nat} (h : ∀ j, slots j = some r → j = i) :
    released (returns slots n : List (Entry ρ δ)) r =
      if i < n ∧ slots i = some r then 1 else 0 := by
  have hf : ∀ j, (slots j).map (Entry.release : ρ → Entry ρ δ) = some (.release r) ↔
      slots j = some r := by
    intro j
    cases slots j <;> simp
  unfold released returns
  rw [count_filterMap_range fun j hj => h j ((hf j).mp hj)]
  simp only [hf]

theorem acquired_returns (r : ρ) : acquired (returns slots n : List (Entry ρ δ)) r = 0 :=
  count_eq_zero.mpr fun h => by
    obtain ⟨s, hs⟩ := mem_returns h
    cases hs

theorem closed_returns (d : δ) : closed (returns slots n : List (Entry ρ δ)) d = 0 :=
  count_eq_zero.mpr fun h => by
    obtain ⟨s, hs⟩ := mem_returns h
    cases hs

theorem closed_closes (x : Nat) :
    closed (closes isOpen n : List (Entry ρ Nat)) x = if x < n ∧ isOpen x then 1 else 0 := by
  have hf : ∀ j, (if isOpen j then some (.close j : Entry ρ Nat) else none) = some (.close x) →
      j = x := by
    intro j hj
    split_ifs at hj
    simpa using hj
  unfold closed closes
  rw [count_filterMap_range hf]
  cases isOpen x <;> simp

theorem acquired_closes (r : ρ) : acquired (closes isOpen n : List (Entry ρ Nat)) r = 0 :=
  count_eq_zero.mpr fun h => by
    obtain ⟨s, hs⟩ := mem_closes h
    cases hs

theorem released_closes (r : ρ) : released (closes isOpen n : List (Entry ρ Nat)) r = 0 :=
  count_eq_zero.mpr fun h => by
    obtain ⟨s, hs⟩ := mem_closes h
    cases hs

end Returns

section Settled

variable {received : δ → Prop} {l l' : List (Entry ρ δ)}

theorem Settled.perm (h : Settled received l) (hperm : l.Perm l') : Settled received l' := by
  have hreleased : ∀ r, released l' r = released l r := fun r => (hperm.count_eq _).symm
  have hclosed : ∀ d, closed l' d = closed l d := fun d => (hperm.count_eq _).symm
  refine ⟨fun r hr => ?_, fun r hr hmem => ?_, fun d hd => ?_⟩
  · rw [hreleased]
    exact h.once r (hperm.mem_iff.mpr hr)
  · exact h.only r (fun h' => hr (hperm.mem_iff.mp h')) (hperm.mem_iff.mpr hmem)
  · simp only [hclosed, hreleased, ← hperm.mem_iff]
    exact h.descriptors d hd

theorem Settled.append (h : Settled received l) (hacq : ∀ r, acquired l' r ≤ 1)
    (hbal : ∀ r, released l' r = acquired l' r)
    (hdisj : ∀ r, 1 ≤ acquired l' r → acquired l r = 0) (hown : ∀ r d, .own r d ∉ l')
    (hclosed : ∀ d, closed l' d = 0) : Settled received (l ++ l') := by
  have hl : ∀ r, acquired l r = 0 → released l r = 0 := fun r hr => by
    have hrel := h.only r
    rw [acquire_mem_iff, release_mem_iff] at hrel
    omega
  refine ⟨fun r hr => ?_, fun r hr => ?_, fun d hd => ?_⟩
  · rw [released_append, hbal]
    by_cases hr' : 1 ≤ acquired l' r
    · have := hl r (hdisj r hr')
      have := hacq r
      omega
    · rw [h.once r ((mem_append.mp hr).resolve_right fun h' => hr' (acquire_mem_iff.mp h'))]
      omega
  · rw [acquire_mem_iff, acquired_append] at hr
    rw [release_mem_iff, released_append, hl r (by omega), hbal]
    omega
  · have hmem : ∀ r, .own r d ∈ l ++ l' ↔ .own r d ∈ l := fun r => by
      rw [mem_append]
      exact or_iff_left (hown r d)
    simp only [hmem, closed_append, hclosed, released_append]
    rcases h.descriptors d hd with hleft | ⟨hopen, r, howner, hrel⟩
    · exact .inl hleft
    refine .inr ⟨hopen, r, howner, ?_⟩
    by_cases hr' : 1 ≤ acquired l' r
    · have := hl r (hdisj r hr')
      omega
    · have := hbal r
      omega

end Settled

end Ledger
