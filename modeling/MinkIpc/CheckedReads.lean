import MinkIpc.Bytes

/-! Computations that read memory regions of known length. A computation gives a value, gives
up with an error, or faults at the first read outside its region; that it never faults is what
containment means. -/

inductive Checked (α : Type)
  | ok (a : α)
  | error
  | fault

namespace Checked

variable {α β : Type}

def bind (x : Checked α) (f : α → Checked β) : Checked β :=
  match x with
  | ok a => f a
  | error => error
  | fault => fault

instance : Monad Checked where
  pure := ok
  bind := bind

def check (p : Prop) [Decidable p] : Checked Unit := if p then ok () else error

@[simp]
theorem ok_bind (a : α) (f : α → Checked β) : (ok a >>= f) = f a := rfl

@[simp]
theorem error_bind (f : α → Checked β) : ((error : Checked α) >>= f) = error := rfl

@[simp]
theorem fault_bind (f : α → Checked β) : ((fault : Checked α) >>= f) = fault := rfl

@[simp]
theorem pure_eq_ok (a : α) : (pure a : Checked α) = ok a := rfl

def toOption : Checked α → Option α
  | ok a => some a
  | _ => none

theorem bind_assoc {γ : Type} (x : Checked α) (f : α → Checked β) (g : β → Checked γ) :
    ((x >>= f) >>= g) = x >>= fun a => f a >>= g := by
  cases x <;> rfl

variable {x : Checked α} {f : α → Checked β} {p : Prop}

theorem bind_eq_ok {b : β} : (x >>= f) = ok b ↔ ∃ a, x = ok a ∧ f a = ok b := by
  cases x <;> simp

theorem bind_eq_fault : (x >>= f) = fault ↔ x = fault ∨ ∃ a, x = ok a ∧ f a = fault := by
  cases x <;> simp

theorem bind_ne_fault (hx : x ≠ fault) (hf : ∀ a, x = ok a → f a ≠ fault) : (x >>= f) ≠ fault := by
  intro h
  rcases bind_eq_fault.mp h with h | ⟨a, ha, h⟩
  · exact hx h
  · exact hf a ha h

theorem bind_ne_error (hx : x ≠ error) (hf : ∀ a, f a ≠ error) : (x >>= f) ≠ error := by
  cases x with
  | ok a => exact hf a
  | error => exact absurd rfl hx
  | fault => simp

theorem check_of [Decidable p] (h : p) : check p = ok () := if_pos h

theorem check_eq_ok [Decidable p] {u : Unit} : check p = ok u ↔ p := by
  unfold check
  split_ifs with h <;> simp [h]

theorem check_bind_eq_ok [Decidable p] {x : Checked β} {b : β} :
    (check p >>= fun _ => x) = ok b ↔ p ∧ x = ok b := by
  unfold check
  split_ifs with h <;> simp [h]

theorem check_bind_eq_fault [Decidable p] {x : Checked β} :
    (check p >>= fun _ => x) = fault ↔ p ∧ x = fault := by
  unfold check
  split_ifs with h <;> simp [h]

def Meets (P : α → Prop) : Checked α → Prop
  | ok a => P a
  | error => True
  | fault => False

instance (P : α → Prop) [DecidablePred P] : (x : Checked α) → Decidable (x.Meets P)
  | ok a => inferInstanceAs (Decidable (P a))
  | error => .isTrue trivial
  | fault => .isFalse id

theorem Meets.bind {P : β → Prop} {Q : α → Prop} (hx : x.Meets Q) (hf : ∀ a, Q a → (f a).Meets P) :
    (x >>= f).Meets P := by
  cases x with
  | ok a => exact hf a hx
  | error => trivial
  | fault => exact hx.elim

theorem Meets.mono {P Q : α → Prop} (hx : x.Meets Q) (h : ∀ a, Q a → P a) : x.Meets P := by
  cases x with
  | ok a => exact h a hx
  | error => trivial
  | fault => exact hx.elim

theorem Meets.ne_fault {P : α → Prop} (hx : x.Meets P) : x ≠ fault := by
  rintro rfl
  exact hx

theorem Meets.check_bind {P : β → Prop} [Decidable p] {x : Checked β} (h : p → x.Meets P) :
    (check p >>= fun _ => x).Meets P := by
  unfold check
  split_ifs with hp
  · exact h hp
  · trivial

structure Region where
  mem : Bytes.Mem
  len : Nat

namespace Region

variable {r : Region} {off n : Nat}

def word (r : Region) (off n : Nat) : Checked Nat :=
  if off + n ≤ r.len then ok (Bytes.word r.mem off n) else fault

def copy (r : Region) (off n : Nat) : Checked Region :=
  if off + n ≤ r.len then ok ⟨fun i => r.mem (off + i), n⟩ else fault

def strlen (r : Region) (off : Nat) : Checked Nat :=
  match (List.range (r.len - off)).find? (fun i => r.mem (off + i) == 0) with
  | some i => ok i
  | none => fault

theorem word_eq_ok {v : Nat} : r.word off n = ok v ↔ off + n ≤ r.len ∧ Bytes.word r.mem off n = v := by
  unfold word
  split_ifs with h <;> simp [h]

theorem word_of_le (h : off + n ≤ r.len) : r.word off n = ok (Bytes.word r.mem off n) := if_pos h

theorem word_ne_error : r.word off n ≠ error := by
  unfold word
  split_ifs <;> simp

theorem copy_of_le (h : off + n ≤ r.len) :
    r.copy off n = ok ⟨fun i => r.mem (off + i), n⟩ := if_pos h

theorem strlen_ne_fault_iff :
    r.strlen off ≠ fault ↔ ∃ i, off + i < r.len ∧ r.mem (off + i) = 0 := by
  unfold strlen
  rcases h : (List.range (r.len - off)).find? (fun i => r.mem (off + i) == 0) with _ | i
  · refine iff_of_false (by simp) ?_
    rintro ⟨i, hi, hzero⟩
    exact List.find?_eq_none.mp h i (List.mem_range.mpr (by omega)) (by simp [hzero])
  · have hmem := List.mem_range.mp (List.mem_of_find?_eq_some h)
    have hzero := List.find?_some h
    exact iff_of_true (by simp) ⟨i, by omega, by simpa using hzero⟩

theorem strlen_ne_error : r.strlen off ≠ error := by
  unfold strlen
  split <;> simp

end Region

end Checked
