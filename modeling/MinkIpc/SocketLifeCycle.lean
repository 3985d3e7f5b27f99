import Mathlib.Data.List.Nodup
import Mathlib.Data.List.Perm.Basic
import MinkIpc.Run

/-! The life of one socket: who refers to it (its owners, the forwarders attached to it and, on a
server, the work items in its pool), and the step in which it is deleted. -/

namespace MinkIpc.SocketLifeCycle

open List Option

/-- A forwarder; `conn` is whether its connection is the socket or null. -/
structure MSForwarder where
  id : Nat
  refs : Int
  conn : Bool
  deriving DecidableEq

/-- The socket with the forwarders there are. `owners` are the references held by others than
forwarders and work items, `work` are the items that are queued or running, and `deleted` counts
the runs of `MinkSocket_delete`. -/
structure State where
  refs : Int
  msForwarderCount : Int
  qlMSForwarder : List Nat
  bDone : Bool
  sockAlive : Bool
  bServer : Bool
  firstShot : Int
  forwarders : List MSForwarder
  owners : Nat
  work : Nat
  deleted : Nat
  next : Nat

def State.init (bServer sockAlive : Bool) : State where
  refs := 1
  msForwarderCount := 0
  qlMSForwarder := []
  bDone := false
  sockAlive := sockAlive
  bServer := bServer
  firstShot := 1
  forwarders := []
  owners := 1
  work := 0
  deleted := 0
  next := 0

section Functions

variable (s : State)

def State.alive : Bool := !s.bDone && s.sockAlive

def State.forwarder? (i : Nat) : Option MSForwarder := s.forwarders.find? fun f => f.id = i

def State.setForwarder (f f' : MSForwarder) : State :=
  { s with forwarders := f' :: s.forwarders.erase f }

def delete : State := { s with deleted := s.deleted + 1 }

def close : State := if s.alive then { s with bDone := true, sockAlive := false } else s

def release : State :=
  let s := { s with refs := s.refs - 1 }
  if s.refs = 0 then delete (close s) else s

def attachForwarder (alloc : Bool) : State :=
  if alloc && s.alive then
    { s with
      msForwarderCount := s.msForwarderCount + 1
      refs := s.refs + 1
      qlMSForwarder := s.qlMSForwarder ++ [s.next]
      forwarders := ⟨s.next, 1, true⟩ :: s.forwarders
      next := s.next + 1 }
  else s

/-- The flag says that the last reference to the socket is gone. A node that is not queued is not
dequeued. -/
def detachForwarderLocked (f : MSForwarder) : Bool × State :=
  if f.conn then
    let s := { s.setForwarder f { f with conn := false } with
      qlMSForwarder := s.qlMSForwarder.erase f.id
      msForwarderCount := s.msForwarderCount - 1
      refs := s.refs - 1 }
    (s.refs = 0, s)
  else (false, s)

def deleteIf : Bool × State → State
  | (true, s) => delete s
  | (false, s) => s

def dropForwarder (f : MSForwarder) : State :=
  if f.conn then deleteIf (detachForwarderLocked s f) else s

def detachForwarder (f : MSForwarder) : State := dropForwarder s f

def preDeleteForwarder (f : MSForwarder) : State := dropForwarder s f

def detachLoop : Nat → State → Option (Bool × State)
  | 0, s => some (false, s)
  | n + 1, s =>
    match s.qlMSForwarder with
    | [] => some (false, s)
    | i :: rest =>
      (s.forwarder? i).bind fun f =>
        match detachForwarderLocked { s with qlMSForwarder := rest } f with
        | (true, s) => some (true, s)
        | (false, s) => detachLoop n s

def detachForwarderAll : Option (Bool × State) :=
  (detachLoop s.qlMSForwarder.length s).map fun r => (r.1, deleteIf r)

def deleteForwarder (f : MSForwarder) : State :=
  let s := preDeleteForwarder s f
  { s with forwarders := s.forwarders.erase { f with conn := false } }

def releaseForwarder (f : MSForwarder) : State :=
  let f' := { f with refs := f.refs - 1 }
  if f'.refs = 0 then deleteForwarder (s.setForwarder f f') f' else s.setForwarder f f'

def enqueue : State :=
  if s.alive then
    { s with refs := if s.bServer then s.refs + 1 else s.refs, work := s.work + 1 }
  else s

def dequeue : State :=
  let s := { s with work := s.work - 1 }
  if s.bServer then release s else s

inductive Status
  | ok
  | closedLast
  | defunct
  | other

def closeAndDetach : Option (Bool × State) := detachForwarderAll (close s)

/-- `MinkSocket_processMsg` from the status on. A socket that is gone is not touched any more. -/
def processMsg (status : Status) : Option State :=
  let early : Option (Bool × State) :=
    match status with
    | .ok | .other => some (false, s)
    | .closedLast => closeAndDetach s
    | .defunct =>
      let s := { s with firstShot := s.firstShot - 1 }
      if s.firstShot = 0 then closeAndDetach s else some (false, s)
  early.map fun r => if r.1 then r.2 else dequeue r.2

end Functions

inductive Action
  | attachForwarder (alloc : Bool)
  | retainForwarder (i : Nat)
  | releaseForwarder (i : Nat)
  | detachForwarder (i : Nat)
  | detachForwarderAll
  | enqueue
  | processMsg (status : Status)
  | close
  | retain
  | release

def step (s : State) : Action → Option State
  | .attachForwarder alloc => if s.refs = 0 then none else some (attachForwarder s alloc)
  | .retainForwarder i =>
    (s.forwarder? i).map fun f => s.setForwarder f { f with refs := f.refs + 1 }
  | .releaseForwarder i => (s.forwarder? i).map (releaseForwarder s)
  | .detachForwarder i => (s.forwarder? i).map (detachForwarder s)
  | .detachForwarderAll => if s.refs = 0 then none else (detachForwarderAll s).map Prod.snd
  | .enqueue => if s.refs = 0 then none else some (enqueue s)
  | .processMsg status => if s.refs = 0 ∨ s.work = 0 then none else processMsg s status
  | .close => if s.refs = 0 then none else some (close s)
  | .retain =>
    if s.refs = 0 then none else some { s with refs := s.refs + 1, owners := s.owners + 1 }
  | .release => if s.owners = 0 then none else some (release { s with owners := s.owners - 1 })

section Law

variable {s t : State} {f f' : MSForwarder}

def attached (s : State) : List MSForwarder := s.forwarders.filter MSForwarder.conn

def holders (s : State) : Nat := if s.bServer then s.work else 0

structure Counts (s : State) : Prop where
  ids : (s.forwarders.map MSForwarder.id).Nodup
  fresh : ∀ f ∈ s.forwarders, f.id < s.next
  count : s.msForwarderCount = (attached s).length
  refs : s.refs = s.owners + (attached s).length + holders s

structure LifeCycle (s : State) : Prop extends Counts s where
  listed : s.qlMSForwarder.Perm ((attached s).map MSForwarder.id)
  deleted : s.deleted = if s.refs = 0 then 1 else 0

theorem lifeCycle_init (bServer sockAlive : Bool) : LifeCycle (.init bServer sockAlive) where
  ids := nodup_nil
  fresh _ h := nomatch h
  count := rfl
  refs := by cases bServer <;> rfl
  listed := List.Perm.refl _
  deleted := rfl

theorem attached_ids (h : Counts s) : ((attached s).map MSForwarder.id).Nodup :=
  h.ids.sublist (filter_sublist.map _)

theorem attached_setForwarder (hf : f ∈ s.forwarders) (hconn : f'.conn = f.conn)
    (hid : f'.id = f.id) :
    ((attached (s.setForwarder f f')).map MSForwarder.id).Perm
      ((attached s).map MSForwarder.id) := by
  have hperm := ((perm_cons_erase hf).filter MSForwarder.conn).map MSForwarder.id
  refine List.Perm.trans (List.Perm.of_eq ?_) hperm.symm
  rw [attached, State.setForwarder, filter_cons, filter_cons, hconn]
  split_ifs
  · rw [map_cons, map_cons, hid]
  · rfl

theorem ids_setForwarder (h : (s.forwarders.map MSForwarder.id).Nodup) (hf : f ∈ s.forwarders)
    (hid : f'.id = f.id) : ((s.setForwarder f f').forwarders.map MSForwarder.id).Nodup := by
  have hperm := (perm_cons_erase hf).map MSForwarder.id
  rw [map_cons, ← hid] at hperm
  exact hperm.nodup_iff.mp h

theorem fresh_setForwarder (h : ∀ f ∈ s.forwarders, f.id < s.next) (hf : f ∈ s.forwarders)
    (hid : f'.id = f.id) : ∀ g ∈ (s.setForwarder f f').forwarders, g.id < s.next := by
  intro g hg
  rcases mem_cons.mp hg with rfl | hg
  · exact hid ▸ h f hf
  · exact h g (mem_of_mem_erase hg)

theorem LifeCycle.withForwarders {l : List MSForwarder} (h : LifeCycle s)
    (hids : (l.map MSForwarder.id).Nodup) (hfresh : ∀ f ∈ l, f.id < s.next)
    (hperm : ((l.filter MSForwarder.conn).map MSForwarder.id).Perm
      ((attached s).map MSForwarder.id)) : LifeCycle { s with forwarders := l } := by
  have hlen := hperm.length_eq
  rw [length_map, length_map] at hlen
  refine ⟨⟨hids, hfresh, ?_, ?_⟩, h.listed.trans hperm.symm, h.deleted⟩
  · rw [attached, hlen]
    exact h.count
  · rw [attached, hlen]
    exact h.refs

theorem LifeCycle.setForwarder (h : LifeCycle s) (hf : f ∈ s.forwarders) (hconn : f'.conn = f.conn)
    (hid : f'.id = f.id) : LifeCycle (s.setForwarder f f') :=
  h.withForwarders (ids_setForwarder h.ids hf hid) (fresh_setForwarder h.fresh hf hid)
    (attached_setForwarder hf hconn hid)

theorem LifeCycle.free (h : LifeCycle s) (hf : f ∈ s.forwarders) (hconn : f.conn = false) :
    LifeCycle { s with forwarders := s.forwarders.erase f } := by
  refine h.withForwarders ?_ ?_ ?_
  · exact h.ids.sublist (erase_sublist.map _)
  · intro g hg
    exact h.fresh g (mem_of_mem_erase hg)
  · have hperm := (perm_cons_erase hf).filter MSForwarder.conn
    rw [filter_cons_of_neg (by rw [hconn]; exact Bool.false_ne_true)] at hperm
    exact (hperm.map MSForwarder.id).symm

theorem Counts.detach (h : Counts s) (hf : f ∈ s.forwarders) (hconn : f.conn = true) :
    ∃ t, detachForwarderLocked s f = (decide (t.refs = 0), t) ∧ Counts t ∧
      t.qlMSForwarder = s.qlMSForwarder.erase f.id ∧ t.deleted = s.deleted ∧
      t.work = s.work ∧ t.forwarders = { f with conn := false } :: s.forwarders.erase f ∧
      (attached s).Perm (f :: attached t) := by
  have hperm : (attached s).Perm (f :: (s.forwarders.erase f).filter MSForwarder.conn) := by
    have hp := (perm_cons_erase hf).filter MSForwarder.conn
    rwa [filter_cons_of_pos hconn] at hp
  have hlen := hperm.length_eq
  rw [length_cons] at hlen
  have hcount := h.count
  have hrefs := h.refs
  unfold detachForwarderLocked
  rw [if_pos hconn]
  have hatt : ((s.setForwarder f { f with conn := false }).forwarders).filter MSForwarder.conn =
      (s.forwarders.erase f).filter MSForwarder.conn := filter_cons_of_neg Bool.false_ne_true
  refine ⟨_, rfl, ⟨ids_setForwarder h.ids hf rfl, fresh_setForwarder h.fresh hf rfl, ?_, ?_⟩, rfl, rfl,
    rfl, rfl, ?_⟩
  · rw [attached, hatt]
    dsimp only
    omega
  · rw [attached, hatt]
    change s.refs - 1 = s.owners + _ + holders s
    omega
  · exact hperm

theorem mem_of_forwarder? {i : Nat} (h : s.forwarder? i = some f) : f ∈ s.forwarders ∧ f.id = i :=
  ⟨mem_of_find?_eq_some h,
    of_decide_eq_true (find?_some (p := fun g : MSForwarder => decide (g.id = i)) h)⟩

theorem forwarder?_eq (h : Counts s) (hf : f ∈ s.forwarders) : s.forwarder? f.id = some f := by
  cases hfind : s.forwarder? f.id with
  | none =>
    have hne := find?_eq_none.mp hfind f hf
    simp at hne
  | some g =>
    obtain ⟨hg, hid⟩ := mem_of_forwarder? hfind
    exact congrArg some (inj_on_of_nodup_map h.ids hg hf hid)

theorem LifeCycle.pop {i : Nat} {rest : List Nat} (h : LifeCycle s)
    (hlist : s.qlMSForwarder = i :: rest) :
    ∃ f t, s.forwarder? i = some f ∧
      detachForwarderLocked { s with qlMSForwarder := rest } f = (decide (t.refs = 0), t) ∧
      Counts t ∧ t.qlMSForwarder = rest ∧ rest.Perm ((attached t).map MSForwarder.id) ∧
      t.deleted = s.deleted ∧ t.work = s.work := by
  have hlisted := h.listed
  rw [hlist] at hlisted
  obtain ⟨f, hf, rfl⟩ := mem_map.mp (hlisted.mem_iff.mp mem_cons_self)
  obtain ⟨hmem, hconn⟩ := mem_filter.mp hf
  have hpopped : Counts { s with qlMSForwarder := rest } := ⟨h.ids, h.fresh, h.count, h.refs⟩
  obtain ⟨t, hdetach, ht, hrest, hdeleted, hwork, -, hperm⟩ := hpopped.detach hmem hconn
  have hnot : f.id ∉ rest := (nodup_cons.mp (hlisted.nodup_iff.mpr (attached_ids h.toCounts))).1
  refine ⟨f, t, forwarder?_eq h.toCounts hmem, hdetach, ht, ?_, ?_, hdeleted, hwork⟩
  · rw [hrest]
    exact erase_of_not_mem hnot
  · exact List.Perm.cons_inv (hlisted.trans (hperm.map MSForwarder.id))

theorem detachLoop_spec (n : Nat) (h : LifeCycle s) (hrefs : s.refs ≠ 0)
    (hn : s.qlMSForwarder.length ≤ n) :
    ∃ t, detachLoop n s = some (decide (t.refs = 0), t) ∧ Counts t ∧
      t.qlMSForwarder.Perm ((attached t).map MSForwarder.id) ∧ t.deleted = 0 ∧
      t.work = s.work ∧ (t.refs ≠ 0 → attached t = []) := by
  have hdeleted := h.deleted
  rw [if_neg hrefs] at hdeleted
  have hend (hnil : s.qlMSForwarder = []) : attached s = [] := by
    have hp := h.listed
    rw [hnil] at hp
    exact map_eq_nil_iff.mp hp.nil_eq.symm
  -- on the fuel, which the length of the list bounds
  induction n generalizing s with
  | zero =>
    have hnil := eq_nil_of_length_eq_zero (Nat.le_zero.mp hn)
    refine ⟨s, ?_, h.toCounts, h.listed, hdeleted, rfl, fun _ => hend hnil⟩
    rw [detachLoop, decide_eq_false hrefs]
  | succ n ih =>
    cases hlist : s.qlMSForwarder with
    | nil =>
      refine ⟨s, ?_, h.toCounts, h.listed, hdeleted, rfl, fun _ => hend hlist⟩
      rw [detachLoop, hlist, decide_eq_false hrefs]
    | cons i rest =>
      obtain ⟨f, t, hfind, hdetach, ht, hrest, hperm, hsame, hwork⟩ := h.pop hlist
      rw [← hrest] at hperm
      have hunfold : detachLoop (n + 1) s =
          if t.refs = 0 then some (true, t) else detachLoop n t := by
        rw [detachLoop, hlist]
        dsimp only
        rw [hfind, bind_some, hdetach]
        by_cases hzero : t.refs = 0
        · rw [decide_eq_true hzero, if_pos hzero]
        · rw [decide_eq_false hzero, if_neg hzero]
      by_cases hzero : t.refs = 0
      · refine ⟨t, ?_, ht, hperm, hsame.trans hdeleted, hwork, absurd hzero⟩
        rw [hunfold, if_pos hzero, decide_eq_true hzero]
      rw [hunfold, if_neg hzero]
      have hlife : LifeCycle t := ⟨ht, hperm, by rw [if_neg hzero, hsame, hdeleted]⟩
      rw [hlist, length_cons] at hn
      rw [← hwork]
      refine ih hlife hzero (by rw [hrest]; omega) (hsame.trans hdeleted) ?_
      intro hnil
      rw [hnil] at hperm
      exact map_eq_nil_iff.mp hperm.nil_eq.symm

theorem lifeCycle_deleteIf (h : Counts t) (hlisted : t.qlMSForwarder.Perm ((attached t).map MSForwarder.id))
    (hdeleted : t.deleted = 0) : LifeCycle (deleteIf (decide (t.refs = 0), t)) := by
  by_cases hzero : t.refs = 0
  · rw [decide_eq_true hzero]
    refine ⟨⟨h.ids, h.fresh, h.count, h.refs⟩, hlisted, ?_⟩
    change t.deleted + 1 = if t.refs = 0 then 1 else 0
    rw [if_pos hzero, hdeleted]
  · rw [decide_eq_false hzero]
    exact ⟨h, hlisted, hdeleted.trans (if_neg hzero).symm⟩

theorem deleteIf_refs (b : Bool) (s : State) : (deleteIf (b, s)).refs = s.refs := by
  cases b <;> rfl

theorem deleteIf_forwarders (b : Bool) (s : State) :
    (deleteIf (b, s)).forwarders = s.forwarders := by
  cases b <;> rfl

theorem deleteIf_work (b : Bool) (s : State) : (deleteIf (b, s)).work = s.work := by
  cases b <;> rfl

section

variable (h : LifeCycle s)
include h

theorem LifeCycle.detachForwarderAll (hrefs : s.refs ≠ 0) :
    ∃ t, SocketLifeCycle.detachForwarderAll s = some (decide (t.refs = 0), t) ∧ LifeCycle t ∧
      t.work = s.work ∧ (t.refs ≠ 0 → attached t = []) := by
  obtain ⟨t, hloop, ht, hlisted, hdeleted, hwork, hend⟩ := detachLoop_spec _ h hrefs (Nat.le_refl _)
  have hlife := lifeCycle_deleteIf ht hlisted hdeleted
  refine ⟨deleteIf (decide (t.refs = 0), t), ?_, hlife, ?_, ?_⟩
  · rw [SocketLifeCycle.detachForwarderAll, hloop, map_some, deleteIf_refs]
  · rw [deleteIf_work, hwork]
  · rw [deleteIf_refs]
    intro hne
    rw [decide_eq_false hne]
    exact hend hne

theorem LifeCycle.dropForwarder (hf : f ∈ s.forwarders) :
    LifeCycle (SocketLifeCycle.dropForwarder s f) := by
  unfold SocketLifeCycle.dropForwarder
  by_cases hconn : f.conn
  · have hdeleted := h.deleted
    obtain ⟨t, hdetach, ht, hlist, hsame, -, -, hperm⟩ := h.toCounts.detach hf hconn
    have hpos : s.refs ≠ 0 := by
      have hlen := hperm.length_eq
      rw [length_cons] at hlen
      have hrefs := h.refs
      omega
    rw [if_neg hpos] at hdeleted
    rw [if_pos hconn, hdetach]
    refine lifeCycle_deleteIf ht ?_ (hsame.trans hdeleted)
    have herase := (h.listed.trans (hperm.map MSForwarder.id)).erase f.id
    rwa [map_cons, erase_cons_head, ← hlist] at herase
  · rw [if_neg hconn]
    exact h

theorem mem_dropForwarder (hf : f ∈ s.forwarders) :
    { f with conn := false } ∈ (SocketLifeCycle.dropForwarder s f).forwarders := by
  unfold SocketLifeCycle.dropForwarder
  by_cases hconn : f.conn
  · obtain ⟨t, hdetach, -, -, -, -, hforwarders, -⟩ := h.toCounts.detach hf hconn
    rw [if_pos hconn, hdetach, deleteIf_forwarders, hforwarders]
    exact mem_cons_self
  · rw [if_neg hconn]
    rw [Bool.not_eq_true] at hconn
    rw [← hconn]
    exact hf

theorem LifeCycle.releaseForwarder (hf : f ∈ s.forwarders) :
    LifeCycle (SocketLifeCycle.releaseForwarder s f) := by
  have hset : LifeCycle (s.setForwarder f { f with refs := f.refs - 1 }) :=
    h.setForwarder hf rfl rfl
  have hmem : { f with refs := f.refs - 1 } ∈
      (s.setForwarder f { f with refs := f.refs - 1 }).forwarders := mem_cons_self
  unfold SocketLifeCycle.releaseForwarder
  dsimp only
  split_ifs
  · exact (hset.dropForwarder hmem).free (mem_dropForwarder hset hmem) rfl
  · exact hset

theorem LifeCycle.attachForwarder (hrefs : s.refs ≠ 0) (alloc : Bool) :
    LifeCycle (SocketLifeCycle.attachForwarder s alloc) := by
  unfold SocketLifeCycle.attachForwarder
  split_ifs
  · have hcount := h.count
    have hsum := h.refs
    have hdeleted := h.deleted
    rw [if_neg hrefs] at hdeleted
    refine ⟨⟨?_, ?_, ?_, ?_⟩, ?_, ?_⟩
    · refine nodup_cons.mpr ⟨?_, h.ids⟩
      intro hm
      obtain ⟨f, hf, hid⟩ := mem_map.mp hm
      have := h.fresh f hf
      dsimp only at hid
      omega
    · intro f hf
      rcases mem_cons.mp hf with rfl | hf
      · exact Nat.lt_succ_self _
      · exact Nat.lt_succ_of_lt (h.fresh f hf)
    · change s.msForwarderCount + 1 = ((attached s).length + 1 : Nat)
      omega
    · change s.refs + 1 = s.owners + ((attached s).length + 1 : Nat) + holders s
      omega
    · exact (perm_append_singleton _ _).trans (h.listed.cons _)
    · change s.deleted = if s.refs + 1 = 0 then 1 else 0
      rw [if_neg (by omega), hdeleted]
  · exact h

theorem LifeCycle.close : LifeCycle (SocketLifeCycle.close s) := by
  unfold SocketLifeCycle.close
  split_ifs
  · exact ⟨⟨h.ids, h.fresh, h.count, h.refs⟩, h.listed, h.deleted⟩
  · exact h

theorem LifeCycle.release {o w : Nat}
    (hheld : (o : Int) + (if s.bServer then w else 0 : Nat) + 1 = s.owners + holders s) :
    LifeCycle (SocketLifeCycle.release { s with owners := o, work := w }) := by
  have hrefs := h.refs
  have hdeleted := h.deleted
  rw [if_neg (by omega)] at hdeleted
  have hcounts (b : Bool) (k : Bool) (d : Nat) : Counts
      { s with owners := o, work := w, refs := s.refs - 1, bDone := b, sockAlive := k, deleted := d } := by
    refine ⟨h.ids, h.fresh, h.count, ?_⟩
    change s.refs - 1 = o + (attached s).length + (if s.bServer then w else 0 : Nat)
    omega
  unfold SocketLifeCycle.release
  dsimp only
  split_ifs with hzero
  · rw [delete, SocketLifeCycle.close]
    split_ifs
    · exact ⟨hcounts .., h.listed, by rw [if_pos hzero, hdeleted]⟩
    · exact ⟨hcounts .., h.listed, by rw [if_pos hzero, hdeleted]⟩
  · exact ⟨hcounts .., h.listed, by rw [if_neg hzero, hdeleted]⟩

theorem LifeCycle.enqueue (hrefs : s.refs ≠ 0) : LifeCycle (SocketLifeCycle.enqueue s) := by
  have hcount := h.toCounts.refs
  have hdeleted := h.deleted
  rw [if_neg hrefs] at hdeleted
  unfold holders at hcount
  unfold SocketLifeCycle.enqueue
  by_cases halive : s.alive
  · rw [if_pos halive]
    by_cases hserver : s.bServer
    · rw [if_pos hserver] at hcount
      rw [if_pos hserver]
      refine ⟨⟨h.ids, h.fresh, h.count, ?_⟩, h.listed, ?_⟩
      · change s.refs + 1 = s.owners + (attached s).length + (if s.bServer then s.work + 1 else 0 : Nat)
        rw [if_pos hserver]
        omega
      · change s.deleted = if s.refs + 1 = 0 then 1 else 0
        rw [if_neg (by omega), hdeleted]
    · rw [if_neg hserver]
      refine ⟨⟨h.ids, h.fresh, h.count, ?_⟩, h.listed, h.deleted⟩
      change s.refs = s.owners + (attached s).length + (if s.bServer then s.work + 1 else 0 : Nat)
      rw [hcount, if_neg hserver, if_neg hserver]
  · rw [if_neg halive]
    exact h

theorem LifeCycle.dequeue (hwork : s.work ≠ 0) : LifeCycle (SocketLifeCycle.dequeue s) := by
  unfold SocketLifeCycle.dequeue
  dsimp only
  split_ifs with hserver
  · refine h.release (o := s.owners) (w := s.work - 1) ?_
    rw [holders, if_pos hserver, if_pos hserver]
    omega
  refine ⟨⟨h.ids, h.fresh, h.count, ?_⟩, h.listed, h.deleted⟩
  have hcount := h.refs
  rw [holders, if_neg hserver] at hcount
  rw [holders, if_neg hserver]
  exact hcount

theorem LifeCycle.closeAndDetach (hrefs : s.refs ≠ 0) :
    ∃ t, SocketLifeCycle.closeAndDetach s = some (decide (t.refs = 0), t) ∧ LifeCycle t ∧
      t.work = s.work := by
  have hframe : (SocketLifeCycle.close s).refs = s.refs ∧ (SocketLifeCycle.close s).work = s.work := by
    unfold SocketLifeCycle.close
    split_ifs
    · exact ⟨rfl, rfl⟩
    · exact ⟨rfl, rfl⟩
  obtain ⟨t, ht, hlife, hwork, -⟩ := h.close.detachForwarderAll (by rwa [hframe.1])
  exact ⟨t, ht, hlife, hwork.trans hframe.2⟩

end

theorem LifeCycle.leave (h : LifeCycle t) (hwork : t.work ≠ 0) (early : Bool) :
    LifeCycle (if early then t else SocketLifeCycle.dequeue t) := by
  cases early with
  | true => exact h
  | false => exact h.dequeue hwork

theorem LifeCycle.processMsg (h : LifeCycle s) (hrefs : s.refs ≠ 0) (hwork : s.work ≠ 0)
    (status : Status) : ∃ t, SocketLifeCycle.processMsg s status = some t ∧ LifeCycle t := by
  cases status with
  | ok | other => exact ⟨_, rfl, h.leave hwork false⟩
  | closedLast =>
    obtain ⟨t, ht, hlife, hsame⟩ := h.closeAndDetach hrefs
    refine ⟨_, ?_, hlife.leave (by rwa [hsame]) (decide (t.refs = 0))⟩
    rw [SocketLifeCycle.processMsg, ht, map_some]
  | defunct =>
    have hshot : LifeCycle { s with firstShot := s.firstShot - 1 } :=
      ⟨⟨h.ids, h.fresh, h.count, h.refs⟩, h.listed, h.deleted⟩
    unfold SocketLifeCycle.processMsg
    dsimp only
    split_ifs
    · obtain ⟨t, ht, hlife, hsame⟩ := hshot.closeAndDetach hrefs
      refine ⟨_, ?_, hlife.leave (hsame ▸ hwork) (decide (t.refs = 0))⟩
      rw [ht, map_some]
    · exact ⟨_, rfl, hshot.leave hwork false⟩

/-- What the step relation asks of the caller: the socket, the forwarder or the reference is there. -/
def Allowed (s : State) : Action → Prop
  | .attachForwarder _ | .detachForwarderAll | .enqueue | .close | .retain => s.refs ≠ 0
  | .retainForwarder i | .releaseForwarder i | .detachForwarder i => ∃ f ∈ s.forwarders, f.id = i
  | .processMsg _ => s.refs ≠ 0 ∧ s.work ≠ 0
  | .release => s.owners ≠ 0

theorem LifeCycle.step {a : Action} (h : LifeCycle s) (ha : Allowed s a) :
    ∃ t, SocketLifeCycle.step s a = some t ∧ LifeCycle t := by
  cases a with
  | attachForwarder alloc => exact ⟨_, if_neg ha, h.attachForwarder ha alloc⟩
  | retainForwarder i =>
    obtain ⟨f, hf, rfl⟩ := ha
    refine ⟨s.setForwarder f { f with refs := f.refs + 1 }, ?_, h.setForwarder hf rfl rfl⟩
    rw [SocketLifeCycle.step, forwarder?_eq h.toCounts hf, map_some]
  | releaseForwarder i =>
    obtain ⟨f, hf, rfl⟩ := ha
    refine ⟨_, ?_, h.releaseForwarder hf⟩
    rw [SocketLifeCycle.step, forwarder?_eq h.toCounts hf, map_some]
  | detachForwarder i =>
    obtain ⟨f, hf, rfl⟩ := ha
    refine ⟨_, ?_, h.dropForwarder hf⟩
    rw [SocketLifeCycle.step, forwarder?_eq h.toCounts hf, map_some, detachForwarder]
  | detachForwarderAll =>
    obtain ⟨t, ht, hlife, -⟩ := h.detachForwarderAll ha
    refine ⟨t, ?_, hlife⟩
    rw [SocketLifeCycle.step, if_neg ha, ht, map_some]
  | enqueue => exact ⟨_, if_neg ha, h.enqueue ha⟩
  | processMsg status =>
    obtain ⟨t, ht, hlife⟩ := h.processMsg ha.1 ha.2 status
    refine ⟨t, ?_, hlife⟩
    rw [SocketLifeCycle.step, if_neg (not_or.mpr ha), ht]
  | close => exact ⟨_, if_neg ha, h.close⟩
  | retain =>
    refine ⟨_, if_neg ha, ⟨h.ids, h.fresh, h.count, ?_⟩, h.listed, ?_⟩
    · have hsum := h.refs
      change s.refs + 1 = (s.owners + 1 : Nat) + (attached s).length + holders s
      omega
    · have hsum := h.refs
      have hdeleted := h.deleted
      rw [if_neg ha] at hdeleted
      change s.deleted = if s.refs + 1 = 0 then 1 else 0
      rw [if_neg (by omega), hdeleted]
  | release =>
    refine ⟨_, if_neg ha, h.release (o := s.owners - 1) (w := s.work) ?_⟩
    have howners : s.owners ≠ 0 := ha
    unfold holders
    omega

theorem LifeCycle.gone {a : Action} (h : LifeCycle s) (hrefs : s.refs = 0)
    (hstep : SocketLifeCycle.step s a = some t) : t.refs = 0 := by
  have hsum := h.toCounts.refs
  have hconn {g : MSForwarder} (hg : g ∈ s.forwarders) : ¬g.conn := by
    have hnil : attached s = [] := eq_nil_of_length_eq_zero (by omega)
    exact filter_eq_nil_iff.mp hnil g hg
  cases a with
  | attachForwarder alloc => exact absurd hstep (by simp [SocketLifeCycle.step, hrefs])
  | retainForwarder i =>
    obtain ⟨f, -, rfl⟩ := map_eq_some_iff.mp hstep
    exact hrefs
  | releaseForwarder i =>
    obtain ⟨f, hfind, rfl⟩ := map_eq_some_iff.mp hstep
    have hf := hconn (mem_of_find?_eq_some hfind)
    unfold SocketLifeCycle.releaseForwarder deleteForwarder preDeleteForwarder
      SocketLifeCycle.dropForwarder
    dsimp only
    split_ifs
    · exact hrefs
    · exact hrefs
  | detachForwarder i =>
    obtain ⟨f, hfind, rfl⟩ := map_eq_some_iff.mp hstep
    have hf := hconn (mem_of_find?_eq_some hfind)
    unfold detachForwarder SocketLifeCycle.dropForwarder
    rw [if_neg hf]
    exact hrefs
  | detachForwarderAll | enqueue
  | processMsg status | close | retain => exact absurd hstep (by simp [SocketLifeCycle.step, hrefs])
  | release =>
    have howners : s.owners = 0 := by omega
    exact absurd hstep (by simp [SocketLifeCycle.step, howners])

theorem allowed_of_step {a : Action} (h : step s a = some t) : Allowed s a := by
  cases a with
  | attachForwarder alloc => exact (ite_none_left_eq_some.mp h).1
  | retainForwarder i | releaseForwarder i | detachForwarder i =>
    obtain ⟨f, hfind, -⟩ := map_eq_some_iff.mp h
    exact ⟨f, mem_of_forwarder? hfind⟩
  | detachForwarderAll | enqueue => exact (ite_none_left_eq_some.mp h).1
  | processMsg status => exact not_or.mp (ite_none_left_eq_some.mp h).1
  | close | retain | release => exact (ite_none_left_eq_some.mp h).1

theorem LifeCycle.of_step {a : Action} (h : LifeCycle s) (hstep : SocketLifeCycle.step s a = some t) :
    LifeCycle t := by
  obtain ⟨u, hu, hlife⟩ := h.step (allowed_of_step hstep)
  cases hu.symm.trans hstep
  exact hlife

theorem lifeCycle_run {bServer sockAlive : Bool} {as : List Action}
    (h : Run.exec step (.init bServer sockAlive) as = some s) : LifeCycle s :=
  Run.exec_invariant LifeCycle (lifeCycle_init bServer sockAlive) (fun _ _ _ => LifeCycle.of_step) h

/-- In every run the counts are those of the references there are, and the socket is deleted once,
by the step that gives up the last reference. -/
theorem socket_lifeCycle (bServer sockAlive : Bool) (as : List Action)
    (h : Run.exec step (.init bServer sockAlive) as = some s) :
    s.refs = s.owners + (attached s).length + holders s ∧ s.msForwarderCount = (attached s).length ∧
      s.qlMSForwarder.Perm ((attached s).map MSForwarder.id) ∧
      s.deleted = (if s.refs = 0 then 1 else 0) ∧
      (∀ a, (∃ t, step s a = some t) ↔ Allowed s a) ∧
      ∀ a t, step s a = some t →
        t.deleted = s.deleted + if s.refs ≠ 0 ∧ t.refs = 0 then 1 else 0 := by
  have hs := lifeCycle_run h
  refine ⟨hs.refs, hs.count, hs.listed, hs.deleted, ?_, ?_⟩
  · intro a
    constructor
    · rintro ⟨t, ht⟩
      exact allowed_of_step ht
    · intro ha
      obtain ⟨t, ht, -⟩ := hs.step ha
      exact ⟨t, ht⟩
  · intro a t hstep
    have ht := hs.of_step hstep
    rw [ht.deleted, hs.deleted]
    by_cases hzero : s.refs = 0
    · rw [hs.gone hzero hstep, if_pos rfl, if_pos hzero, if_neg (by simp [hzero])]
    · rw [if_neg hzero, Nat.zero_add]
      simp only [ne_eq, hzero, not_false_eq_true, true_and]

/-- A server with two forwarders and a running work item, whose connection breaks. -/
theorem socket_lifeCycle_sample :
    ∃ s, Run.exec step (.init true true) [.attachForwarder true, .attachForwarder true, .enqueue,
        .releaseForwarder 0, .processMsg .defunct, .releaseForwarder 1, .release] = some s ∧
      s.refs = s.owners + (attached s).length + holders s ∧ s.refs = 0 ∧ s.deleted = 1 := by
  have hrun : ∃ s, Run.exec step (.init true true) [.attachForwarder true, .attachForwarder true,
      .enqueue, .releaseForwarder 0, .processMsg .defunct, .releaseForwarder 1, .release] = some s :=
    ⟨_, rfl⟩
  obtain ⟨s, hs⟩ := hrun
  refine ⟨s, hs, (socket_lifeCycle true true _ hs).1, ?_⟩
  cases hs
  exact ⟨rfl, rfl⟩

end Law

end MinkIpc.SocketLifeCycle
