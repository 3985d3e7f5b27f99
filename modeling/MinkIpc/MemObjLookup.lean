import Mathlib.Order.Interval.Finset.Nat
import MinkIpc.Objects
import MinkIpc.TableHistory

/-! The search for the wrapped memparcel of a descriptor. It takes the number of objects
for the end of the occupied slots, which it is as long as the slots have no holes. -/

namespace MinkIpc

open ObjectTable

def Object.isMemparcelOf (fd : Int) : Object → Prop
  | .wrappedMemparcel (.fdWrapper w) _ => w.descriptor = fd
  | _ => False

instance (fd : Int) (o : Object) : Decidable (o.isMemparcelOf fd) := by
  unfold Object.isMemparcelOf
  split <;> infer_instance

namespace ObjectTable

def HoldsMemparcel (t : Table) (fd : Int) (h : Nat) : Prop :=
  ∃ o ∈ t.objects h, o.isMemparcelOf fd

instance (t : Table) (fd : Int) (h : Nat) : Decidable (t.HoldsMemparcel fd h) :=
  inferInstanceAs (Decidable (∃ o ∈ t.objects h, _))

def InGeneric (hd : Handles) (t : Table) (fd : Int) : Prop :=
  ∃ h, hd.generic ≤ h ∧ h < hd.primordial ∧ t.HoldsMemparcel fd h

def InSearched (t : Table) (fd : Int) : Prop :=
  ∃ h, 1 ≤ h ∧ h < t.objectsCount ∧ t.HoldsMemparcel fd h

end ObjectTable

/-- A wrapped memparcel of the descriptor is found if a generic slot holds one, and an error
says that none does. -/
def RetrievesMemObj (hd : Handles) (t : Table) (w : FdWrapper) : Prop :=
  (t.InGeneric hd w.descriptor →
    ∃ o, retrieveMemObj t (.mem (.fdWrapper w)) = some o ∧ o.isMemparcelOf w.descriptor) ∧
  (retrieveMemObj t (.mem (.fdWrapper w)) = none ↔ ¬ t.InGeneric hd w.descriptor)

theorem isWrappedFd_fdWrapper (w : FdWrapper) (fd : Int) :
    isWrappedFd (.mem (.fdWrapper w)) = some fd ↔ 0 < w.descriptor ∧ w.descriptor = fd := by
  simp [isWrappedFd, FdWrapperFromObject]

section Search

variable {t : Table} {w : FdWrapper} {o : Object}

theorem retrieveMemObj_eq_some (h : retrieveMemObj t (.mem (.fdWrapper w)) = some o) :
    0 < w.descriptor ∧ o.isMemparcelOf w.descriptor ∧ t.InSearched w.descriptor := by
  obtain ⟨fd, hfd, hfind⟩ := Option.bind_eq_some_iff.mp h
  obtain ⟨hpos, rfl⟩ := (isWrappedFd_fdWrapper w fd).mp hfd
  obtain ⟨n, hn, hat⟩ := List.exists_of_findSome?_eq_some hfind
  have hrange := List.mem_range'_1.mp hn
  split at hat
  · rename_i attached mp hobj
    split_ifs at hat with hattached
    cases hat
    cases attached with
    | msMem m => simp [isWrappedFd, FdWrapperFromObject] at hattached
    | fdWrapper v =>
      have hdescriptor := ((isWrappedFd_fdWrapper v w.descriptor).mp hattached).2
      exact ⟨hpos, hdescriptor, n, hrange.1, by omega, _, hobj, hdescriptor⟩
  · cases hat

theorem retrieveMemObj_eq_none_iff : retrieveMemObj t (.mem (.fdWrapper w)) = none ↔
    ¬ (0 < w.descriptor ∧ t.InSearched w.descriptor) := by
  constructor
  · rintro hnone ⟨hpos, n, hle, hlt, o, hobj, hmem⟩
    have hfd := (isWrappedFd_fdWrapper w w.descriptor).mpr ⟨hpos, rfl⟩
    unfold retrieveMemObj at hnone
    rw [hfd, Option.bind_some, List.findSome?_eq_none_iff] at hnone
    have hat := hnone n (List.mem_range'_1.mpr ⟨hle, by omega⟩)
    obtain ⟨v, mp, rfl, hv⟩ : ∃ v mp, o = .wrappedMemparcel (.fdWrapper v) mp ∧
        v.descriptor = w.descriptor := by
      unfold Object.isMemparcelOf at hmem
      split at hmem
      · exact ⟨_, _, rfl, hmem⟩
      · cases hmem
    have hattached := (isWrappedFd_fdWrapper v w.descriptor).mpr ⟨hv ▸ hpos, hv⟩
    rw [Option.mem_def] at hobj
    simp [hobj, hattached] at hat
  · intro h
    cases ho : retrieveMemObj t (.mem (.fdWrapper w)) with
    | none => rfl
    | some o =>
      obtain ⟨hpos, -, hsearched⟩ := retrieveMemObj_eq_some ho
      exact absurd ⟨hpos, hsearched⟩ h

end Search

theorem retrievesMemObj_of_searched {hd : Handles} {t : Table} {w : FdWrapper}
    (h : t.InGeneric hd w.descriptor ↔ 0 < w.descriptor ∧ t.InSearched w.descriptor) :
    RetrievesMemObj hd t w := by
  refine ⟨fun hgeneric => ?_, retrieveMemObj_eq_none_iff.trans (not_congr h.symm)⟩
  cases ho : retrieveMemObj t (.mem (.fdWrapper w)) with
  | none => exact absurd (h.mp hgeneric) (retrieveMemObj_eq_none_iff.mp ho)
  | some o => exact ⟨o, rfl, (retrieveMemObj_eq_some ho).2.1⟩

/-- The search is right where the slots that it comes to and the generic slots agree. -/
theorem retrievesMemObj_iff (hd : Handles) (t : Table) (w : FdWrapper) : RetrievesMemObj hd t w ↔
      (t.InGeneric hd w.descriptor ↔ 0 < w.descriptor ∧ t.InSearched w.descriptor) := by
  constructor
  · intro h
    exact not_iff_not.mp (h.2.symm.trans retrieveMemObj_eq_none_iff)
  · exact retrievesMemObj_of_searched

def holeCalls : List (Op Object) :=
  [.addPrimordial .primordial, .addObject (.plain 5),
    .addObject (.wrappedMemparcel (.fdWrapper ⟨7, none, .rules 0⟩) 3), .releaseHandle 1]

theorem retrieveMemObj_misses_behind_hole :
    ∃ s ∈ Run.exec (fun s op => some (History.perform sampleHandles s op)) (History.start 1024)
        holeCalls,
      s.table.objects 2 = some (.wrappedMemparcel (.fdWrapper ⟨7, none, .rules 0⟩) 3) ∧
      retrieveMemObj s.table (.mem (.fdWrapper ⟨7, none, .none⟩)) = none ∧
      ¬ RetrievesMemObj sampleHandles s.table ⟨7, none, .none⟩ := by
  refine ⟨_, rfl, by decide, by decide, fun h => ?_⟩
  exact h.2.mp (by decide) ⟨2, by decide, by decide, _, rfl, rfl⟩

structure ObjectTable.NoHoles (hd : Handles) (t : Table) : Prop where
  primordial : (t.objects hd.primordial).isSome
  below : ∀ m n, hd.generic ≤ m → m ≤ n → n < hd.primordial →
    (t.objects n).isSome → (t.objects m).isSome

section Reachable

variable {hd : Handles} {size : Nat} {s : History Object}

theorem occupied_eq_card (t : Table) :
    t.occupied = ((Finset.range t.objectsLen).filter fun n => (t.objects n).isSome).card := by
  unfold occupied sumOccupied
  rw [Finset.card_filter]
  refine Finset.sum_congr rfl fun n _ => ?_
  cases t.objects n <;> simp

theorem objectsCount_le_primordial (h : s.Refines hd size) (hgeneric : hd.generic = 1) :
    s.table.objectsCount ≤ hd.primordial := by
  rw [h.counted, occupied_eq_card]
  have hsub : (Finset.range s.table.objectsLen).filter (fun n => (s.table.objects n).isSome) ⊆
      Finset.Icc 1 hd.primordial := by
    intro n hn
    have hsome := (Finset.mem_filter.mp hn).2
    rw [h.mapped] at hsome
    have hrange := h.range n hsome
    exact Finset.mem_Icc.mpr (by omega)
  simpa using Finset.card_le_card hsub

theorem lt_objectsCount_of_noHoles (h : s.Refines hd size) (hsize : hd.primordial < size)
    (hgeneric : hd.generic = 1) (hholes : s.table.NoHoles hd) {n : Nat} (hlt : n < hd.primordial)
    (hsome : (s.table.objects n).isSome) : n < s.table.objectsCount := by
  rw [h.counted, occupied_eq_card]
  have hnotin : hd.primordial ∉ Finset.Icc 1 n := by
    simp only [Finset.mem_Icc]
    omega
  have hsub : insert hd.primordial (Finset.Icc 1 n) ⊆
      (Finset.range s.table.objectsLen).filter fun m => (s.table.objects m).isSome := by
    intro m hm
    have hlen := h.len
    rw [Finset.mem_filter, Finset.mem_range]
    rcases Finset.mem_insert.mp hm with rfl | hm
    · exact ⟨by omega, hholes.primordial⟩
    · have hle := Finset.mem_Icc.mp hm
      exact ⟨by omega, hholes.below m n (by omega) hle.2 hlt hsome⟩
  have hcard := Finset.card_le_card hsub
  rw [Finset.card_insert_of_notMem hnotin, Nat.card_Icc] at hcard
  omega

theorem retrievesMemObj_of_noHoles (hsize : hd.primordial < size) (hgeneric : hd.generic = 1)
    {ops : List (Op Object)}
    (h : Run.exec (fun s op => some (History.perform hd s op)) (History.start size) ops = some s)
    (hholes : s.table.NoHoles hd) {w : FdWrapper} (hw : 0 < w.descriptor) :
    RetrievesMemObj hd s.table w := by
  have hinv := History.refines_exec hsize h
  refine retrievesMemObj_of_searched ⟨fun hin => ⟨hw, ?_⟩, fun hin => ?_⟩
  · obtain ⟨n, hle, hlt, o, hobj, hmem⟩ := hin
    have hsome : (s.table.objects n).isSome := Option.isSome_of_mem hobj
    exact ⟨n, by omega, lt_objectsCount_of_noHoles hinv hsize hgeneric hholes hlt hsome, o, hobj,
      hmem⟩
  · obtain ⟨-, n, hle, hlt, hholds⟩ := hin
    have hcount := objectsCount_le_primordial hinv hgeneric
    exact ⟨n, by omega, by omega, hholds⟩

end Reachable

end MinkIpc
