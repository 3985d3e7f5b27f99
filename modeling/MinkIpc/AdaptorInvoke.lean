import MinkIpc.AdaptorCallback
import Mathlib.Logic.Function.Basic

/-! References on the way into the TEE. A local object is wrapped in a callback object that keeps a
reference to it. When the invocation cannot be made, one loop releases what stands in the
parameters. -/

namespace MinkIpc.Adaptor

open Function

inductive Object where
  | null
  | remote (q : Nat)
  | callback (m : Nat)
deriving DecidableEq

inductive QObject where
  | null
  | remote (q : Nat)
  | cb (c : Nat)
deriving DecidableEq

structure Refs where
  remote : Nat → Int
  locals : Nat → Int
  callbacks : Nat → Option (Int × Nat)

/-- A parameter slot; `filled` says whether it has been given its contents. -/
structure Slot where
  attr : Attr
  object : QObject
  filled : Bool
deriving DecidableEq

inductive Arg where
  | bufIn
  | bufOut
  | objIn (o : Object)
  | objOut
deriving DecidableEq

structure Args where
  numBI : Nat
  numBO : Nat
  oi : List Object
  numOO : Nat

def Args.list (a : Args) : List Arg :=
  List.replicate a.numBI .bufIn ++ List.replicate a.numBO .bufOut ++ a.oi.map .objIn ++
    List.replicate a.numOO .objOut

variable (calloc : Nat → Option Nat)

-- `calloc i` is the block for the argument number `i`.
def qcomteeObjFromMinkObj (i : Nat) (refs : Refs) : Object → Option (QObject × Refs)
  | .null => some (.null, refs)
  | .remote q => some (.remote q, refs)
  | .callback m =>
      match calloc i with
      | none => none
      | some c => some (.cb c, { refs with
            locals := update refs.locals m (refs.locals m + 1)
            callbacks := update refs.callbacks c (some (1, m)) })

def objectArgsToTeeParams : Nat → List Arg → List Slot → Refs → Bool × List Slot × Refs
  | _, [], slots, refs => (true, slots, refs)
  | _, _ :: _, [], refs => (true, [], refs)
  | i, .objIn o :: args, slot :: slots, refs =>
      match qcomteeObjFromMinkObj calloc i refs o with
      -- the kind is written, the object is not
      | none => (false, ⟨.objrefInput, slot.object, false⟩ :: slots, refs)
      | some (q, refs') =>
          let (ok, slots', refs'') := objectArgsToTeeParams (i + 1) args slots refs'
          (ok, ⟨.objrefInput, q, true⟩ :: slots', refs'')
  | i, .bufIn :: args, slot :: slots, refs =>
      let (ok, slots', refs') := objectArgsToTeeParams (i + 1) args slots refs
      (ok, ⟨.ubufInput, slot.object, true⟩ :: slots', refs')
  | i, .bufOut :: args, slot :: slots, refs =>
      let (ok, slots', refs') := objectArgsToTeeParams (i + 1) args slots refs
      (ok, ⟨.ubufOutput, slot.object, true⟩ :: slots', refs')
  | i, .objOut :: args, slot :: slots, refs =>
      let (ok, slots', refs') := objectArgsToTeeParams (i + 1) args slots refs
      (ok, ⟨.objrefOutput, slot.object, true⟩ :: slots', refs')

def refsInc (refs : Refs) : QObject → Refs
  | .null => refs
  | .remote q => { refs with remote := update refs.remote q (refs.remote q + 1) }
  | .cb c =>
      let more := (refs.callbacks c).map fun x => (x.1 + 1, x.2)
      { refs with callbacks := update refs.callbacks c more }

def refsDec (refs : Refs) : QObject → Refs
  | .null => refs
  | .remote q => { refs with remote := update refs.remote q (refs.remote q - 1) }
  | .cb c =>
      match refs.callbacks c with
      | none => refs
      | some (n, m) =>
          if n = 1 then
            { refs with
              locals := update refs.locals m (refs.locals m - 1)
              callbacks := update refs.callbacks c none }
          else { refs with callbacks := update refs.callbacks c (some (n - 1, m)) }

def releaseQcomteeObjs (slots : List Slot) (attr : Attr) (refs : Refs) : Refs :=
  if attr ≠ .objrefInput ∧ attr ≠ .objrefOutput then refs
  else slots.foldl (fun refs slot => if slot.attr = attr then refsDec refs slot.object else refs) refs

inductive Op where
  | retain
  | release
  | otherLocal
  | method
deriving DecidableEq

inductive Exit where
  | badObject
  | localDone
  | localUnknown
  | marshallingFailure
  | transportFailure
  | returned (result : Int)
deriving DecidableEq

structure Outcome where
  exit : Exit
  refs : Refs
  looked : List Slot

def freshSlots (garbage : Nat → Attr × QObject) (n : Nat) : List Slot :=
  (List.range n).map fun i => ⟨(garbage i).1, (garbage i).2, false⟩

def marshalledArgs (args : Args) (garbage : Nat → Attr × QObject) (refs : Refs) :
    Bool × List Slot × Refs :=
  objectArgsToTeeParams calloc 0 args.list (freshSlots garbage args.list.length) refs

def invokeOverTee (object : QObject) (op : Op) (args : Args) (garbage : Nat → Attr × QObject)
    (transport : Option Int) (refs : Refs) : Outcome :=
  if object = .null then ⟨.badObject, refs, []⟩
  else
    match op with
    | .retain =>
        ⟨.localDone, refsInc refs object, []⟩
    | .release => ⟨.localDone, refsDec refs object, []⟩
    | .otherLocal => ⟨.localUnknown, refs, []⟩
    | .method =>
        match marshalledArgs calloc args garbage refs with
        | (false, slots, refs') =>
            ⟨.marshallingFailure, releaseQcomteeObjs slots .objrefInput refs', slots⟩
        | (true, slots, refs') =>
            match transport with
            | none => ⟨.transportFailure, releaseQcomteeObjs slots .objrefInput refs', slots⟩
            | some result => ⟨.returned result, refs', []⟩

section Release

variable {refs : Refs} {slots : List Slot}

def afterDec : Option (Int × Nat) → (Nat → Int) → Nat → Int
  | none, locals => locals
  | some (n, m), locals => if n = 1 then update locals m (locals m - 1) else locals

def lessOne : Option (Int × Nat) → Option (Int × Nat)
  | none => none
  | some (n, m) => if n = 1 then none else some (n - 1, m)

theorem refsDec_cb (refs : Refs) (c : Nat) : refsDec refs (.cb c) =
    ⟨refs.remote, afterDec (refs.callbacks c) refs.locals,
      update refs.callbacks c (lessOne (refs.callbacks c))⟩ := by
  rcases h : refs.callbacks c with _ | ⟨n, m⟩
  · have hself : update refs.callbacks c none = refs.callbacks := by
      rw [← h, update_eq_self]
    simp only [refsDec, h, afterDec, lessOne, hself]
  · by_cases hn : n = 1 <;> simp [refsDec, h, afterDec, lessOne, hn]

theorem afterDec_comm (x y : Option (Int × Nat)) (locals : Nat → Int) :
    afterDec x (afterDec y locals) = afterDec y (afterDec x locals) := by
  rcases x with _ | ⟨n, m⟩
  · rfl
  rcases y with _ | ⟨n', m'⟩
  · rfl
  by_cases hn : n = 1 <;> by_cases hn' : n' = 1 <;> simp only [afterDec, hn, hn', if_false]
  by_cases h : m = m'
  · rw [h]
  · have h' : ¬ m' = m := fun he => h he.symm
    simp [h, h', update_comm h]

theorem refsDec_comm (refs : Refs) (a b : QObject) :
    refsDec (refsDec refs a) b = refsDec (refsDec refs b) a := by
  rcases a with _ | q | c <;> rcases b with _ | q' | d <;> try rfl
  · by_cases h : q = q'
    · rw [h]
    · have h' : ¬ q' = q := fun he => h he.symm
      simp [refsDec, h, h', update_comm h]
  · simp only [refsDec]
    split
    · rfl
    · split_ifs <;> rfl
  · simp only [refsDec]
    split
    · rfl
    · split_ifs <;> rfl
  · by_cases h : c = d
    · rw [h]
    · have h' : ¬ d = c := fun he => h he.symm
      simp only [refsDec_cb, update_of_ne h, update_of_ne h',
        update_comm h, afterDec_comm (refs.callbacks c)]

theorem release_cons (slot : Slot) : releaseQcomteeObjs (slot :: slots) .objrefInput refs =
    releaseQcomteeObjs slots .objrefInput
      (if slot.attr = .objrefInput then refsDec refs slot.object else refs) := rfl

theorem release_refsDec (a : QObject) : releaseQcomteeObjs slots .objrefInput (refsDec refs a) =
    refsDec (releaseQcomteeObjs slots .objrefInput refs) a := by
  induction slots generalizing refs with
  | nil => rfl
  | cons slot slots ih =>
    rw [release_cons, release_cons]
    split_ifs
    · rw [refsDec_comm, ih]
    · exact ih

theorem refsDec_remote_le (a : QObject) (q : Nat) : (refsDec refs a).remote q ≤ refs.remote q := by
  rcases a with _ | q' | c
  · exact Int.le_refl _
  · by_cases h : q = q'
    · subst h
      simp only [refsDec, update_self]
      omega
    · simp [refsDec, h]
  · simp [refsDec_cb]

theorem release_remote_le (q : Nat) :
    (releaseQcomteeObjs slots .objrefInput refs).remote q ≤ refs.remote q := by
  induction slots generalizing refs with
  | nil => exact Int.le_refl _
  | cons slot slots ih =>
    rw [release_cons]
    split_ifs
    · exact Int.le_trans ih (refsDec_remote_le ..)
    · exact ih

theorem release_remote_lt {slot : Slot} {q : Nat} (hmem : slot ∈ slots)
    (hattr : slot.attr = .objrefInput) (hobject : slot.object = .remote q) :
    (releaseQcomteeObjs slots .objrefInput refs).remote q < refs.remote q := by
  induction slots generalizing refs with
  | nil => exact absurd hmem List.not_mem_nil
  | cons slot' slots ih =>
    rw [release_cons]
    rcases List.mem_cons.mp hmem with rfl | hmem
    · rw [if_pos hattr, hobject]
      refine Int.lt_of_le_of_lt (release_remote_le q) ?_
      simp only [refsDec, update_self]
      omega
    · split_ifs
      · exact Int.lt_of_lt_of_le (ih hmem) (refsDec_remote_le ..)
      · exact ih hmem

end Release

section Marshalling

variable {calloc} {i : Nat} {args : List Arg} {slots : List Slot} {refs : Refs}

def Wraps (calloc : Nat → Option Nat) (i : Nat) (args : List Arg) : Prop :=
  ∀ j m, args[j]? = some (.objIn (.callback m)) → (calloc (i + j)).isSome

theorem wraps_cons {a : Arg} : Wraps calloc i (a :: args) ↔
    (∀ m, a = .objIn (.callback m) → (calloc i).isSome) ∧ Wraps calloc (i + 1) args := by
  constructor
  · intro h
    refine ⟨fun m hm => h 0 m (by simp [hm]), fun j m hj => ?_⟩
    have hnext := h (j + 1) m hj
    rwa [show i + (j + 1) = i + 1 + j by omega] at hnext
  · rintro ⟨hhead, htail⟩ (_ | j) m hj
    · exact hhead m (by simpa using hj)
    · have hnext := htail j m hj
      rwa [show i + 1 + j = i + (j + 1) by omega] at hnext

structure Filled (calloc : Nat → Option Nat) (i : Nat) (args : List Arg) (refs : Refs)
    (out : Bool × List Slot × Refs) : Prop where
  ok : out.1 = true ↔ Wraps calloc i args
  filled : out.1 = true ↔ ∀ slot ∈ out.2.1, slot.filled = true
  remote : out.2.2.remote = refs.remote
  passed : out.1 = true → ∀ q, .objIn (.remote q) ∈ args →
    ∃ slot ∈ out.2.1, slot.attr = .objrefInput ∧ slot.object = .remote q

theorem Filled.cons {a : Arg} {slot : Slot} {refs' : Refs} {out : Bool × List Slot × Refs}
    (h : Filled calloc (i + 1) args refs' out) (hremote : refs'.remote = refs.remote)
    (hwrap : ∀ m, a = .objIn (.callback m) → (calloc i).isSome) (hfilled : slot.filled = true)
    (hpass : ∀ q, a = .objIn (.remote q) → slot.attr = .objrefInput ∧ slot.object = .remote q) :
    Filled calloc i (a :: args) refs (out.1, slot :: out.2.1, out.2.2) := by
  refine ⟨?_, ?_, h.remote.trans hremote, ?_⟩
  · rw [wraps_cons, ← h.ok]
    exact ⟨fun hok => ⟨hwrap, hok⟩, And.right⟩
  · rw [List.forall_mem_cons, ← h.filled]
    exact ⟨fun hok => ⟨hfilled, hok⟩, And.right⟩
  · intro hok q hq
    rcases List.mem_cons.mp hq with hq | hq
    · exact ⟨slot, List.mem_cons_self, hpass q hq.symm⟩
    · obtain ⟨slot', hmem, h'⟩ := h.passed hok q hq
      exact ⟨slot', List.mem_cons_of_mem _ hmem, h'⟩

theorem filled_marshal (hlen : slots.length = args.length) :
    Filled calloc i args refs (objectArgsToTeeParams calloc i args slots refs) := by
  induction args generalizing i slots refs with
  | nil =>
    obtain rfl : slots = [] := List.length_eq_zero_iff.mp hlen
    exact ⟨by simp [objectArgsToTeeParams, Wraps], by simp [objectArgsToTeeParams], rfl,
      fun _ _ h => absurd h List.not_mem_nil⟩
  | cons a args ih =>
    obtain ⟨slot, slots, rfl⟩ := List.exists_cons_of_length_eq_add_one hlen
    have hlen' : slots.length = args.length := by simpa using hlen
    cases a with
    | bufIn | bufOut | objOut =>
      exact (ih hlen').cons rfl (fun _ h => by cases h) rfl (fun _ h => by cases h)
    | objIn o =>
      rcases o with _ | q | m
      · exact (ih hlen').cons rfl (fun _ h => by cases h) rfl (fun _ h => by cases h)
      · refine (ih hlen').cons rfl (fun _ h => by cases h) rfl fun q' h => ?_
        cases h
        exact ⟨rfl, rfl⟩
      · unfold objectArgsToTeeParams qcomteeObjFromMinkObj
        rcases hc : calloc i with _ | c
        · refine ⟨?_, by simp, rfl, fun h => by cases h⟩
          rw [wraps_cons]
          simp [hc]
        · exact (ih hlen').cons rfl (fun _ _ => by simp [hc]) rfl (fun _ h => by cases h)

structure FreshBlocks (calloc : Nat → Option Nat) (i : Nat) (refs : Refs) : Prop where
  inj : ∀ j k c, calloc j = some c → calloc k = some c → j = k
  unused : ∀ j c, i ≤ j → calloc j = some c → refs.callbacks c = none

theorem FreshBlocks.next (h : FreshBlocks calloc i refs) : FreshBlocks calloc (i + 1) refs :=
  ⟨h.inj, fun j c hj => h.unused j c (by omega)⟩

theorem release_marshal (hfresh : FreshBlocks calloc i refs) (hlen : slots.length = args.length)
    (hok : (objectArgsToTeeParams calloc i args slots refs).1 = true)
    (hremote : ∀ q, .objIn (.remote q) ∉ args) :
    releaseQcomteeObjs (objectArgsToTeeParams calloc i args slots refs).2.1 .objrefInput
      (objectArgsToTeeParams calloc i args slots refs).2.2 = refs := by
  induction args generalizing i slots refs with
  | nil =>
    obtain rfl : slots = [] := List.length_eq_zero_iff.mp hlen
    rfl
  | cons a args ih =>
    obtain ⟨slot, slots, rfl⟩ := List.exists_cons_of_length_eq_add_one hlen
    have hlen' : slots.length = args.length := by simpa using hlen
    have hremote' : ∀ q, .objIn (.remote q) ∉ args := fun q hq =>
      hremote q (List.mem_cons_of_mem _ hq)
    cases a with
    | bufIn | bufOut | objOut => exact ih hfresh.next hlen' hok hremote'
    | objIn o =>
      rcases o with _ | q | m
      · exact ih hfresh.next hlen' hok hremote'
      · exact absurd List.mem_cons_self (hremote q)
      · rcases hc : calloc i with _ | c
        · simp [objectArgsToTeeParams, qcomteeObjFromMinkObj, hc] at hok
        · have hnone : refs.callbacks c = none := hfresh.unused i c (Nat.le_refl _) hc
          have hnext : FreshBlocks calloc (i + 1) ⟨refs.remote,
              update refs.locals m (refs.locals m + 1),
              update refs.callbacks c (some (1, m))⟩ := by
            refine ⟨hfresh.inj, fun j d hj hd => ?_⟩
            have hne : d ≠ c := fun hdc => by
              have := hfresh.inj i j c hc (hdc ▸ hd)
              omega
            exact (update_of_ne hne ..).trans (hfresh.unused j d (by omega) hd)
          simp only [objectArgsToTeeParams, qcomteeObjFromMinkObj, hc] at hok ⊢
          rw [release_cons, if_pos rfl, release_refsDec, ih hnext hlen' hok hremote', refsDec_cb]
          simp [afterDec, lessOne, ← hnone]

end Marshalling

section Failures

variable {calloc} {object : QObject} {op : Op} {args : Args} {garbage : Nat → Attr × QObject}
  {transport : Option Int} {refs : Refs}

def Unchanged (refs : Refs) (out : Outcome) : Prop :=
  out.refs = refs ∧ ∀ slot ∈ out.looked, slot.filled = true

theorem length_freshSlots {n : Nat} : (freshSlots garbage n).length = n := by
  simp [freshSlots]

theorem mem_list_iff {o : Object} : .objIn o ∈ args.list ↔ o ∈ args.oi := by
  simp [Args.list]

theorem failed_outcome {out : Outcome}
    (hout : invokeOverTee calloc object op args garbage transport refs = out)
    (hfailed : out.exit = .marshallingFailure ∨ out.exit = .transportFailure) :
    out.refs = releaseQcomteeObjs (marshalledArgs calloc args garbage refs).2.1 .objrefInput
        (marshalledArgs calloc args garbage refs).2.2 ∧
      out.looked = (marshalledArgs calloc args garbage refs).2.1 := by
  subst hout
  revert hfailed
  unfold invokeOverTee
  split_ifs
  · rintro (h | h) <;> cases h
  · cases op with
    | retain | release | otherLocal => rintro (h | h) <;> cases h
    | method =>
      generalize marshalledArgs calloc args garbage refs = m
      obtain ⟨ok, slots, refs'⟩ := m
      cases ok
      · exact fun _ => ⟨rfl, rfl⟩
      · cases transport with
        | none => exact fun _ => ⟨rfl, rfl⟩
        | some result => rintro (h | h) <;> cases h

/-- A failed call leaves the references as they were exactly if no callback object was missing and
no object is remote. -/
theorem failed_invocation_iff {out : Outcome} (hfresh : FreshBlocks calloc 0 refs)
    (hout : invokeOverTee calloc object op args garbage transport refs = out)
    (hfailed : out.exit = .marshallingFailure ∨ out.exit = .transportFailure) :
    Unchanged refs out ↔ Wraps calloc 0 args.list ∧ ∀ q, .remote q ∉ args.oi := by
  obtain ⟨hrefs, hlooked⟩ := failed_outcome hout hfailed
  have hfill : Filled calloc 0 args.list refs (marshalledArgs calloc args garbage refs) :=
    (filled_marshal length_freshSlots)
  rw [Unchanged, hlooked, ← hfill.filled, ← hfill.ok]
  constructor
  · rintro ⟨hsame, hok⟩
    refine ⟨hok, fun q hq => ?_⟩
    obtain ⟨slot, hmem, hattr, hobject⟩ := hfill.passed hok q (mem_list_iff.mpr hq)
    have hlt : out.refs.remote q < (marshalledArgs calloc args garbage refs).2.2.remote q :=
      hrefs ▸ release_remote_lt hmem hattr hobject
    rw [hsame, hfill.remote] at hlt
    exact Int.lt_irrefl _ hlt
  · rintro ⟨hok, hremote⟩
    refine ⟨hrefs.trans ?_, hok⟩
    exact release_marshal hfresh length_freshSlots hok fun q hq => hremote q (mem_list_iff.mp hq)

def sampleRefs : Refs := ⟨fun _ => 1, fun _ => 1, fun _ => none⟩

def sampleGarbage : Nat → Attr × QObject := fun _ => (.other, .remote 9)

theorem failed_invocation_local : Unchanged sampleRefs (invokeOverTee (fun i => some (5 + i))
    (.remote 3) .method ⟨0, 0, [.callback 1, .callback 1], 0⟩ sampleGarbage none sampleRefs) := by
  refine (failed_invocation_iff ⟨fun j k c hj hk => ?_, fun _ _ _ _ => rfl⟩ rfl
    (by decide)).mpr ⟨fun _ _ _ => rfl, by simp⟩
  simp only [Option.some.injEq] at hj hk
  omega

/-- A remote object loses a reference when the transport fails; without memory for a callback
object a reference is dropped from whatever the slot held. -/
theorem failed_invocation_drops :
    let remote := invokeOverTee (fun _ => none) (.remote 3) .method ⟨0, 0, [.remote 4], 0⟩
      sampleGarbage none sampleRefs
    let unwrapped := invokeOverTee (fun _ => none) (.remote 3) .method ⟨0, 0, [.callback 1], 0⟩
      sampleGarbage none sampleRefs
    remote.exit = .transportFailure ∧ remote.refs.remote 4 = 0 ∧ ¬ Unchanged sampleRefs remote ∧
      unwrapped.exit = .marshallingFailure ∧ unwrapped.refs.remote 9 = 0 ∧
      ¬ Unchanged sampleRefs unwrapped := by
  refine ⟨by decide, by decide, fun h => ?_, by decide, by decide, fun h => ?_⟩
  · have hcount := congrArg (fun r => r.remote 4) h.1
    revert hcount
    decide
  · have hcount := congrArg (fun r => r.remote 9) h.1
    revert hcount
    decide

end Failures

end MinkIpc.Adaptor
