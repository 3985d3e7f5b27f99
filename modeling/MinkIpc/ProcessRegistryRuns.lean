import Mathlib.Data.List.Nodup
import Mathlib.Data.Set.List
import MinkIpc.ProcessRegistry

/-! The list of processes over whole runs: what its nodes, the controllers and the clients hold, and
what a launch leaves in it. -/

namespace MinkIpc.ProcessRegistry

open Function List Option

def refCount (s : State) (p : Nat) : Nat :=
  s.held p + s.procs.countP (fun n => n.tProcObj = p) + s.ctrls.countP fun c => c.tprocObj = p

def didOf (s : State) (n : TProcessNode) : Option DistId :=
  (RefHeap.val? s.heap n.tProcObj).map TProcess.did

structure Consistent (s : State) : Prop where
  counted : RefHeap.Counted s.heap (refCount s)
  cnt : s.procCnt = s.procs.length
  dids : (s.procs.map (didOf s)).Nodup
  ctrl : ∀ c ∈ s.ctrls, 0 < c.refs
  lt : ∀ p, refCount s p ≠ 0 → p < s.next

theorem consistent_init : Consistent .init where
  counted _ := rfl
  cnt := rfl
  dids := nodup_nil
  ctrl _ h := nomatch h
  lt _ h := absurd rfl h

section Steps

variable {s t : State} {p : Nat} {n : TProcessNode}

theorem refCount_of_node (hn : n ∈ s.procs) : refCount s n.tProcObj ≠ 0 := by
  have hpos : 0 < s.procs.countP fun m => m.tProcObj = n.tProcObj :=
    countP_pos_iff.mpr ⟨n, hn, by simp⟩
  rw [refCount]
  omega

variable {c : TProcController}

theorem refCount_of_ctrl (hc : c ∈ s.ctrls) : refCount s c.tprocObj ≠ 0 := by
  have hpos : 0 < s.ctrls.countP fun d => d.tprocObj = c.tprocObj :=
    countP_pos_iff.mpr ⟨c, hc, by simp⟩
  rw [refCount]
  omega

theorem refCount_of_held (hp : s.held p ≠ 0) : refCount s p ≠ 0 := by
  rw [refCount]
  omega

theorem Consistent.alive (h : Consistent s) (hn : n ∈ s.procs) :
    ∃ proc, RefHeap.val? s.heap n.tProcObj = some proc :=
  h.counted.val_of_ne_zero (refCount_of_node hn)

theorem Consistent.objs (h : Consistent s) : (s.procs.map TProcessNode.tProcObj).Nodup := by
  have hd : (s.procs.map (didOf s)) = (s.procs.map TProcessNode.tProcObj).map
      fun p => (RefHeap.val? s.heap p).map TProcess.did := by
    rw [List.map_map]
    rfl
  have hn := h.dids
  rw [hd] at hn
  exact hn.of_map

theorem Consistent.of_count (h : Consistent s) {k : Nat} (hp : refCount s p ≠ 0)
    (hc : RefHeap.Counted t.heap (update (refCount s) p k))
    (hcount : ∀ q, refCount t q = if q = p then k else refCount s q)
    (hcnt : t.procCnt = t.procs.length) (hsub : t.procs.Sublist s.procs)
    (hdid : ∀ n ∈ t.procs, didOf t n = didOf s n) (hctrl : ∀ c ∈ t.ctrls, 0 < c.refs)
    (hnext : t.next = s.next) : Consistent t := by
  have hsame : update (refCount s) p k = refCount t := by
    funext q
    rw [hcount, update_apply]
  refine ⟨hsame ▸ hc, hcnt, ?_, hctrl, fun q hq => ?_⟩
  · rw [map_congr_left hdid]
    exact h.dids.sublist (hsub.map _)
  · rw [hcount] at hq
    rw [hnext]
    split_ifs at hq with hqp
    · exact hqp ▸ h.lt p hp
    · exact h.lt q hq

theorem refCount_held (s : State) (h' : RefHeap.Heap TProcess) (p k q : Nat) :
    refCount { s with heap := h', held := update s.held p k } q =
      if q = p then refCount s p - s.held p + k else refCount s q := by
  simp only [refCount, update_apply]
  split_ifs with hq
  · rw [hq]
    omega
  · rfl

section

variable (h : Consistent s)
include h

theorem Consistent.retainProc (hp : refCount s p ≠ 0) :
    ∃ t, retainProc s p = some t ∧ Consistent t ∧ t.held p = s.held p + 1 := by
  obtain ⟨h', hret, hc, hval⟩ := h.counted.retain hp
  refine ⟨{ s with heap := h', held := update s.held p (s.held p + 1) }, ?_, ?_, update_self ..⟩
  · rw [ProcessRegistry.retainProc, hret, map_some]
  · refine h.of_count hp hc (fun q => ?_) h.cnt (List.Sublist.refl _) (fun n _ => ?_) h.ctrl rfl
    · rw [refCount_held]
      have hle : s.held p ≤ refCount s p := by rw [refCount]; omega
      split_ifs <;> omega
    · rw [didOf, hval, didOf]

theorem Consistent.releaseProc (hp : s.held p ≠ 0) :
    ∃ t, releaseProc s p = some t ∧ Consistent t ∧ t.procs = s.procs ∧ t.procCnt = s.procCnt := by
  obtain ⟨h', hrel, hc, hval⟩ := h.counted.release (refCount_of_held hp)
  refine ⟨{ s with heap := h', held := update s.held p (s.held p - 1) }, ?_, ?_, rfl, rfl⟩
  · rw [ProcessRegistry.releaseProc, hrel, map_some]
  · refine h.of_count (refCount_of_held hp) hc (fun q => ?_) h.cnt (List.Sublist.refl _)
      (fun n hn => ?_) h.ctrl rfl
    · rw [refCount_held]
      have hle : s.held p ≤ refCount s p := by rw [refCount]; omega
      split_ifs <;> omega
    · -- A registered process has its node's reference besides the one given up.
      rw [didOf, hval n.tProcObj, didOf]
      rintro rfl
      have hpos : 0 < s.procs.countP fun m => m.tProcObj = n.tProcObj :=
        countP_pos_iff.mpr ⟨n, hn, by simp⟩
      rw [refCount]
      omega

theorem Consistent.deleteNode (hn : n ∈ s.procs) :
    ∃ t, deleteNode s n = some t ∧ Consistent t ∧ t.procs = s.procs.erase n ∧ t.held = s.held ∧
      t.ctrls = s.ctrls := by
  obtain ⟨h', hrel, hc, hval⟩ := h.counted.release (refCount_of_node hn)
  have hperm := perm_cons_erase hn
  refine ⟨{ s with heap := h', procs := s.procs.erase n, procCnt := s.procCnt - 1 }, ?_, ?_,
    rfl, rfl, rfl⟩
  · rw [ProcessRegistry.deleteNode, hrel, map_some]
  · refine h.of_count (refCount_of_node hn) hc (fun q => ?_) ?_ erase_sublist (fun m hm => ?_)
      h.ctrl rfl
    · have hcount := hperm.countP_eq fun m => decide (m.tProcObj = q)
      rw [countP_cons] at hcount
      simp only [refCount]
      split_ifs with hq
      · rw [← hq, hcount]
        simp only [hq, decide_true, if_true]
        omega
      · rw [hcount]
        simp [Ne.symm hq]
    · have hlen := hperm.length_eq
      have hcnt := h.cnt
      rw [length_cons] at hlen
      dsimp only
      omega
    · -- No other node has this process.
      have hnodup := (hperm.map TProcessNode.tProcObj).nodup_iff.mp h.objs
      have hne : m.tProcObj ≠ n.tProcObj := fun heq =>
        (nodup_cons.mp hnodup).1 (heq ▸ mem_map_of_mem hm)
      rw [didOf, hval m.tProcObj fun heq => absurd heq hne, didOf]

theorem Consistent.ppmRemove (p : Nat) :
    ∃ t, ppmRemove s p = some t ∧ Consistent t ∧ t.held = s.held ∧ t.ctrls = s.ctrls := by
  unfold ProcessRegistry.ppmRemove
  cases hfind : s.procs.find? fun n => n.tProcObj = p with
  | none => exact ⟨s, rfl, h, rfl, rfl⟩
  | some n =>
    obtain ⟨t, ht, hcons, -, hheld, hctrls⟩ := h.deleteNode (mem_of_find?_eq_some hfind)
    exact ⟨t, ht, hcons, hheld, hctrls⟩

theorem Consistent.forceClose (hp : refCount s p ≠ 0) :
    ∃ t, forceClose s p = some t ∧ Consistent t ∧ t.held = s.held ∧ t.ctrls = s.ctrls := by
  obtain ⟨proc, hproc⟩ := h.counted.val_of_ne_zero hp
  unfold ProcessRegistry.forceClose
  rw [hproc, Option.bind_some]
  cases proc.isZombie with
  | true => exact ⟨s, rfl, h, rfl, rfl⟩
  | false =>
    obtain ⟨c, hcell, -⟩ := h.counted.exists hp
    obtain ⟨h', hm⟩ : ∃ h', RefHeap.modify s.heap p (fun proc => { proc with isZombie := true }) =
        some h' := ⟨_, by rw [RefHeap.modify, hcell, Option.map_some]⟩
    have hdid : ∀ m, didOf { s with heap := h' } m = didOf s m := by
      intro m
      rw [didOf, RefHeap.val?_modify hm]
      split_ifs
      · rw [Option.map_map]
        rfl
      · rfl
    have hkeep : Consistent { s with heap := h' } :=
      ⟨h.counted.modify hm, h.cnt, by simpa only [funext hdid] using h.dids, h.ctrl, h.lt⟩
    rw [hm]
    exact hkeep.ppmRemove p

end

theorem findNode_eq {test : TProcess → Bool} {l : List TProcessNode}
    (halive : ∀ n ∈ l, ∃ proc, RefHeap.val? s.heap n.tProcObj = some proc) :
    findNode s test l = some (l.find? fun n => (RefHeap.val? s.heap n.tProcObj).any test) := by
  induction l with
  | nil => rfl
  | cons n l ih =>
    obtain ⟨proc, hproc⟩ := halive n mem_cons_self
    rw [findNode, hproc, bind_some, ih fun m hm => halive m (mem_cons_of_mem _ hm)]
    cases htest : test proc with
    | true => rw [if_pos rfl, find?_cons_of_pos (by simp [hproc, htest])]
    | false => rw [if_neg (by simp), find?_cons_of_neg (by simp [hproc, htest])]

section

variable (h : Consistent s)
include h

theorem Consistent.processDied (pPid : Nat) : ∃ t, processDied s pPid = some t ∧ Consistent t := by
  unfold ProcessRegistry.processDied
  rw [findNode_eq fun n hn => h.alive hn, bind_some]
  generalize hfind : s.procs.find? _ = found
  cases found with
  | none => exact ⟨s, rfl, h⟩
  | some n =>
    have hn := mem_of_find?_eq_some hfind
    obtain ⟨s₁, hs₁, h₁, hheld⟩ := h.retainProc (refCount_of_node hn)
    have hne : s₁.held n.tProcObj ≠ 0 := by omega
    obtain ⟨s₂, hs₂, h₂, hheld₂, -⟩ := h₁.forceClose (refCount_of_held hne)
    obtain ⟨s₃, hs₃, h₃, -⟩ := h₂.releaseProc (p := n.tProcObj) (by rw [hheld₂]; exact hne)
    dsimp only
    rw [hs₁, bind_some, hs₂]
    exact ⟨s₃, hs₃, h₃⟩

theorem Consistent.setCtrl {c' : TProcController} (hc : c ∈ s.ctrls)
    (hproc : c'.tprocObj = c.tprocObj) (hrefs : 0 < c'.refs) :
    Consistent { s with ctrls := c' :: s.ctrls.erase c } := by
  have hcount : refCount { s with ctrls := c' :: s.ctrls.erase c } = refCount s := by
    funext q
    have hperm := (perm_cons_erase hc).countP_eq fun d => decide (d.tprocObj = q)
    simp only [refCount]
    rw [hperm, countP_cons, countP_cons, hproc]
  refine ⟨hcount ▸ h.counted, h.cnt, h.dids, fun d hd => ?_, hcount ▸ h.lt⟩
  rcases mem_cons.mp hd with rfl | hd
  · exact hrefs
  · exact h.ctrl d (mem_of_mem_erase hd)

theorem Consistent.dropCtrl (hc : c ∈ s.ctrls) : ∃ h', RefHeap.release s.heap c.tprocObj = some h' ∧
      Consistent { s with heap := h', ctrls := s.ctrls.erase c } := by
  obtain ⟨h', hrel, hcounted, hval⟩ := h.counted.release (refCount_of_ctrl hc)
  have hperm := perm_cons_erase hc
  refine ⟨h', hrel, h.of_count (refCount_of_ctrl hc) hcounted (fun q => ?_) h.cnt
    (List.Sublist.refl _) (fun n hn => ?_) (fun d hd => h.ctrl d (mem_of_mem_erase hd)) rfl⟩
  · have hcount := hperm.countP_eq fun d => decide (d.tprocObj = q)
    rw [countP_cons] at hcount
    simp only [refCount]
    split_ifs with hq
    · rw [← hq, hcount]
      simp only [hq, decide_true, if_true]
      omega
    · rw [hcount]
      simp [Ne.symm hq]
  · rw [didOf, hval n.tProcObj, didOf]
    intro heq
    have hnode : 0 < s.procs.countP fun m => m.tProcObj = c.tprocObj :=
      countP_pos_iff.mpr ⟨n, hn, by simpa using heq⟩
    have hctrl : 0 < s.ctrls.countP fun d => d.tprocObj = c.tprocObj :=
      countP_pos_iff.mpr ⟨c, hc, by simp⟩
    rw [refCount]
    omega

theorem Consistent.controllerRelease (hc : c ∈ s.ctrls) :
    ∃ t, controllerRelease s c = some t ∧ Consistent t := by
  have hpos := h.ctrl c hc
  have hclose : ∃ s₁, (if c.refs = 1 ∧ c.neverUnload = false then
      ProcessRegistry.forceClose s c.tprocObj else some s) = some s₁ ∧ Consistent s₁ ∧
      c ∈ s₁.ctrls := by
    split_ifs
    · obtain ⟨s₁, hs₁, h₁, -, hctrls⟩ := h.forceClose (refCount_of_ctrl hc)
      exact ⟨s₁, hs₁, h₁, hctrls ▸ hc⟩
    · exact ⟨s, rfl, h, hc⟩
  obtain ⟨s₁, hs₁, h₁, hc₁⟩ := hclose
  unfold ProcessRegistry.controllerRelease
  rw [hs₁, bind_some]
  by_cases hlast : c.refs - 1 = 0
  · obtain ⟨h', hrel, hcons⟩ := h₁.dropCtrl hc₁
    rw [if_pos hlast, hrel]
    exact ⟨_, rfl, hcons⟩
  · rw [if_neg hlast]
    exact ⟨_, rfl, h₁.setCtrl hc₁ rfl (by dsimp only; omega)⟩

theorem Consistent.deleteLoop {l : List TProcessNode} (hl : s.procs = l) :
    ∃ t, Run.exec ProcessRegistry.deleteNode s l = some t ∧ Consistent t := by
  induction l generalizing s with
  | nil => exact ⟨s, rfl, h⟩
  | cons n l ih =>
    obtain ⟨t, ht, hcons, hprocs, -⟩ := h.deleteNode (by rw [hl]; exact mem_cons_self)
    rw [Run.exec, ht]
    refine ih hcons ?_
    rw [hprocs, hl, erase_cons_head]

theorem Consistent.shutdown (dlBase embeddedBase : Nat) (force : Bool) :
    ∃ t, shutdown s dlBase embeddedBase force = some t ∧ Consistent t := by
  unfold ProcessRegistry.shutdown
  split_ifs
  · exact ⟨s, rfl, h⟩
  · exact h.deleteLoop rfl

end

end Steps

section Launch

variable {s t : State} {call : LaunchCall}

def Unknown (s : State) (did : DistId) : Prop :=
  ∀ n ∈ s.procs, ∀ proc, RefHeap.val? s.heap n.tProcObj = some proc → proc.did ≠ did

def LaunchCall.Reaches (call : LaunchCall) : Prop :=
  call.programData ≠ none ∧ call.buffer = true ∧ call.launched ≠ none ∧ call.procAlloc = true

theorem Consistent.add (h : Consistent s) (pid pPid cid : Nat) {did : DistId}
    (hnew : Unknown s did) :
    ∃ t, add (processNew s pid pPid did) s.next cid true = some t ∧ Consistent t ∧
      t.procs = s.procs ++ [⟨cid, s.next⟩] ∧ t.held s.next ≠ 0 := by
  have hzero : refCount s s.next = 0 := by
    by_contra hne
    exact absurd (h.lt _ hne) (Nat.lt_irrefl _)
  have hold : ∀ n ∈ s.procs, n.tProcObj ≠ s.next := by
    intro n hn heq
    exact refCount_of_node hn (heq ▸ hzero)
  have halloc := h.counted.alloc (p := s.next) ⟨pPid, pid, did, false⟩
  obtain ⟨h', hret, hc, hval⟩ := halloc.retain (p := s.next) (by rw [update_self]; decide)
  rw [update_self, update_idem] at hc
  have hvals : ∀ q, RefHeap.val? h' q =
      if q = s.next then some ⟨pPid, pid, did, false⟩ else RefHeap.val? s.heap q := by
    intro q
    rw [hval, RefHeap.val?_alloc]
  refine ⟨{ processNew s pid pPid did with
    heap := h', procs := s.procs ++ [⟨cid, s.next⟩], procCnt := s.procCnt + 1 }, ?_, ?_, rfl, ?_⟩
  · rw [ProcessRegistry.add, if_pos rfl, processNew, hret, map_some]
  · have hcount : ∀ q, update (refCount s) s.next (1 + 1) q =
        refCount { processNew s pid pPid did with
          heap := h', procs := s.procs ++ [⟨cid, s.next⟩], procCnt := s.procCnt + 1 } q := by
      intro q
      simp only [refCount, processNew, update_apply, countP_append, countP_singleton]
      by_cases hq : q = s.next
      · rw [refCount] at hzero
        simp only [hq, if_true, decide_true]
        omega
      · simp only [if_neg hq, decide_eq_true_eq, if_neg (Ne.symm hq), Nat.add_zero]
    refine ⟨(funext hcount) ▸ hc, ?_, ?_, h.ctrl, fun q hq => ?_⟩
    · have hcnt := h.cnt
      simp only [length_append, length_singleton]
      omega
    · have hdid : ∀ n ∈ s.procs, didOf { processNew s pid pPid did with
          heap := h', procs := s.procs ++ [⟨cid, s.next⟩], procCnt := s.procCnt + 1 } n =
          didOf s n := by
        intro n hn
        rw [didOf, hvals, if_neg (hold n hn), didOf]
      rw [map_append, map_congr_left hdid]
      refine nodup_append.mpr ⟨h.dids, nodup_singleton _, ?_⟩
      intro d hd e he heq
      obtain ⟨n, hn, rfl⟩ := mem_map.mp hd
      obtain ⟨proc, hproc⟩ := h.alive hn
      rw [mem_singleton.mp he, didOf, didOf, hproc, hvals, if_pos rfl] at heq
      exact hnew n hn proc hproc (Option.some.inj heq)
    · rw [← hcount, update_apply] at hq
      change q < s.next + 1
      split_ifs at hq with hqn
      · omega
      · exact Nat.lt_succ_of_lt (h.lt q hq)
  · dsimp only [processNew]
    rw [update_self]
    exact Nat.one_ne_zero

theorem Consistent.controllerNew (h : Consistent s) {p : Nat} (hp : refCount s p ≠ 0)
    (neverUnload : Bool) : ∃ t, controllerNew s p neverUnload = some t ∧ Consistent t := by
  obtain ⟨h', hret, hc, hval⟩ := h.counted.retain hp
  refine ⟨_, by rw [ProcessRegistry.controllerNew, hret, map_some], ?_⟩
  refine h.of_count hp hc (fun q => ?_) h.cnt (List.Sublist.refl _) (fun n _ => ?_)
    (fun c hc => ?_) rfl
  · simp only [refCount, countP_cons]
    by_cases hq : q = p
    · simp only [hq, decide_true, if_true]
      omega
    · simp [hq, Ne.symm hq]
  · rw [didOf, didOf, hval]
  · rcases mem_cons.mp hc with rfl | hc
    · exact Int.one_pos
    · exact h.ctrl c hc

inductive Launched (s : State) (call : LaunchCall) : Option (Answer × State) → Prop
  | already {n : TProcessNode} {proc : TProcess} (hn : n ∈ s.procs)
    (hproc : RefHeap.val? s.heap n.tProcObj = some proc) (hdid : proc.did = call.did) :
    Launched s call (some (⟨some .procAlreadyLoaded, some 0, none, none⟩, s))
  | refused {err : LaunchError} (hnew : Unknown s call.did) (hr : ¬ call.Reaches)
    (herr : err ≠ .procAlreadyLoaded) :
    Launched s call (some (⟨some err, none, none, none⟩, s))
  | crashed (hnew : Unknown s call.did) (hr : call.Reaches) (hnode : call.nodeAlloc = false) :
    Launched s call none
  | stray {t : State} (hnew : Unknown s call.did) (hr : call.Reaches)
    (hctrl : call.ctrlAlloc = false) (ht : Consistent t)
    (hprocs : t.procs = s.procs ++ [⟨call.cid, s.next⟩]) :
    Launched s call (some (⟨some (.object .mem), none, none, none⟩, t))
  | running {t : State} {ans : Answer} (hnew : Unknown s call.did) (hnode : call.nodeAlloc = true)
    (hctrl : call.ctrlAlloc = true) (ht : Consistent t) (hans : ans.ret = none) :
    Launched s call (some (ans, t))

theorem Consistent.launch (h : Consistent s) (call : LaunchCall) :
    Launched s call (launch s call) := by
  unfold ProcessRegistry.launch
  rw [findNode_eq fun n hn => h.alive hn, bind_some]
  generalize hfind : s.procs.find? _ = found
  cases found with
  | some n =>
    have hn := mem_of_find?_eq_some hfind
    have htest := find?_some hfind
    obtain ⟨proc, hproc⟩ := h.alive hn
    rw [hproc] at htest
    exact .already hn hproc (by simpa using htest)
  | none =>
    have hnew : Unknown s call.did := by
      intro n hn proc hproc hdid
      have hnot := find?_eq_none.mp hfind n hn
      rw [hproc] at hnot
      exact hnot (by simp [hdid])
    cases hdata : call.programData with
    | none => exact .refused hnew (fun hr => hr.1 hdata) nofun
    | some neverUnload =>
      cases hbuf : call.buffer with
      | false => exact .refused hnew (fun hr => nomatch hbuf.symm.trans hr.2.1) nofun
      | true =>
        cases hlaunched : call.launched with
        | none => exact .refused hnew (fun hr => hr.2.2.1 hlaunched) nofun
        | some ids =>
          obtain ⟨pid, pPid⟩ := ids
          cases hproc : call.procAlloc with
          | false => exact .refused hnew (fun hr => nomatch hproc.symm.trans hr.2.2.2) nofun
          | true =>
            have hr : call.Reaches := by
              refine ⟨?_, hbuf, ?_, hproc⟩
              · rw [hdata]
                exact nofun
              · rw [hlaunched]
                exact nofun
            simp only [if_true]
            cases hnode : call.nodeAlloc with
            | false => exact .crashed hnew hr hnode
            | true =>
              obtain ⟨t, ht, hcons, hprocs, hheld⟩ := h.add pid pPid call.cid hnew
              rw [ht, bind_some]
              cases hctrl : call.ctrlAlloc with
              | false =>
                obtain ⟨u, hu, hcons', hprocs', -⟩ := hcons.releaseProc hheld
                rw [hu]
                exact .stray hnew hr hctrl hcons' (hprocs'.trans hprocs)
              | true =>
                obtain ⟨u, hu, hcons'⟩ := hcons.controllerNew (refCount_of_held hheld) neverUnload
                rw [hu]
                exact .running hnew hnode hctrl hcons' rfl

end Launch

section Runs

variable {s t : State} {call : LaunchCall}

theorem Consistent.step (h : Consistent s) {a : Action} (hs : step s a = some t) :
    Consistent t := by
  cases a with
  | launch call =>
    obtain ⟨⟨ans, u⟩, hlaunch, rfl⟩ := map_eq_some_iff.mp hs
    have hcase := h.launch call
    rw [hlaunch] at hcase
    cases hcase with
    | already | refused => exact h
    | stray _ _ _ ht | running _ _ _ ht => exact ht
  | processDied pPid =>
    obtain ⟨u, hu, hcons⟩ := h.processDied pPid
    cases hu.symm.trans hs
    exact hcons
  | retainProc p =>
    obtain ⟨hheld, hs⟩ := ite_none_left_eq_some.mp hs
    obtain ⟨u, hu, hcons, -⟩ := h.retainProc (refCount_of_held hheld)
    cases hu.symm.trans hs
    exact hcons
  | releaseProc p =>
    obtain ⟨hheld, hs⟩ := ite_none_left_eq_some.mp hs
    obtain ⟨u, hu, hcons, -⟩ := h.releaseProc hheld
    cases hu.symm.trans hs
    exact hcons
  | forceCloseProc p =>
    obtain ⟨hheld, hs⟩ := ite_none_left_eq_some.mp hs
    obtain ⟨u, hu, hcons, -⟩ := h.forceClose (refCount_of_held hheld)
    cases hu.symm.trans hs
    exact hcons
  | retainController c =>
    obtain ⟨hc, hs⟩ := ite_none_right_eq_some.mp hs
    cases hs
    have hpos := h.ctrl c hc
    exact h.setCtrl hc rfl (by dsimp only; omega)
  | releaseController c =>
    obtain ⟨hc, hs⟩ := ite_none_right_eq_some.mp hs
    obtain ⟨u, hu, hcons⟩ := h.controllerRelease hc
    cases hu.symm.trans hs
    exact hcons
  | forceCloseController c =>
    obtain ⟨hc, hs⟩ := ite_none_right_eq_some.mp hs
    obtain ⟨u, hu, hcons, -⟩ := h.forceClose (refCount_of_ctrl hc)
    cases hu.symm.trans hs
    exact hcons
  | shutdown dlBase embeddedBase force =>
    obtain ⟨u, hu, hcons⟩ := h.shutdown dlBase embeddedBase force
    cases hu.symm.trans hs
    exact hcons

structure Registry (s : State) : Prop where
  distinct : ∃ l : List TProcess,
    s.procs.map (fun n => RefHeap.val? s.heap n.tProcObj) = l.map some ∧ (l.map TProcess.did).Nodup
  count : s.procCnt = s.procs.length

/-- A launch returns. With an error it leaves the registry; if the process is already there, it
reports its id. -/
def LaunchSound (s : State) (call : LaunchCall) : Prop :=
  ∃ ans t, launch s call = some (ans, t) ∧
    (ans.ret ≠ none → t.procs = s.procs ∧ t.procCnt = s.procCnt) ∧
    (ans.ret = some .procAlreadyLoaded → ∃ n ∈ s.procs, ∃ proc,
      RefHeap.val? s.heap n.tProcObj = some proc ∧ proc.did = call.did ∧ ans.pid = some proc.pid)

/-- A process already there with the id of the launch has the process id 0, and a launch that gets
that far finds memory for the node and the controller. -/
def Fits (s : State) (call : LaunchCall) : Prop :=
  (∀ n ∈ s.procs, ∀ proc, RefHeap.val? s.heap n.tProcObj = some proc →
    proc.did = call.did → proc.pid = 0) ∧
  (Unknown s call.did → call.Reaches → call.nodeAlloc = true ∧ call.ctrlAlloc = true)

theorem Consistent.registry (h : Consistent s) : Registry s where
  distinct := by
    have hall : s.procs.map (fun n => RefHeap.val? s.heap n.tProcObj) ∈ Set.range (List.map some) := by
      rw [Set.range_list_map]
      intro v hv
      obtain ⟨n, hn, rfl⟩ := List.mem_map.mp hv
      obtain ⟨proc, hproc⟩ := h.alive hn
      exact ⟨proc, hproc.symm⟩
    obtain ⟨l, hl⟩ := hall
    refine ⟨l, hl.symm, ?_⟩
    have hdids := h.dids
    have heq : s.procs.map (didOf s) = (l.map TProcess.did).map some := by
      have hmap := congrArg (List.map (Option.map TProcess.did)) hl
      rw [List.map_map, List.map_map] at hmap
      rw [List.map_map]
      exact hmap.symm
    rw [heq] at hdids
    exact hdids.of_map
  count := h.cnt

theorem Consistent.did_inj (h : Consistent s) {n m : TProcessNode} {p q : TProcess}
    (hn : n ∈ s.procs) (hm : m ∈ s.procs) (hp : RefHeap.val? s.heap n.tProcObj = some p)
    (hq : RefHeap.val? s.heap m.tProcObj = some q) (heq : p.did = q.did) : p = q := by
  have hnm : n = m := by
    refine inj_on_of_nodup_map h.dids hn hm ?_
    rw [didOf, didOf, hp, hq, map_some, map_some, heq]
  subst hnm
  exact Option.some.inj (hp.symm.trans hq)

theorem Consistent.launchSound_iff (h : Consistent s) : LaunchSound s call ↔ Fits s call := by
  have hcase := h.launch call
  generalize hres : ProcessRegistry.launch s call = res at hcase
  unfold LaunchSound
  rw [hres]
  cases hcase with
  | @already n proc hn hproc hdid =>
    constructor
    · rintro ⟨ans, t, heq, -, hpid⟩
      cases heq
      obtain ⟨m, hm, q, hq, hdid', hzero⟩ := hpid rfl
      refine ⟨fun k hk r hr hrdid => ?_, fun hnew => absurd hdid (hnew n hn proc hproc)⟩
      rw [h.did_inj hk hm hr hq (hrdid.trans hdid'.symm)]
      exact (Option.some.inj hzero).symm
    · intro hfits
      refine ⟨_, s, rfl, fun _ => ⟨rfl, rfl⟩, fun _ => ⟨n, hn, proc, hproc, hdid, ?_⟩⟩
      rw [hfits.1 n hn proc hproc hdid]
  | refused hnew hr herr =>
    refine iff_of_true ⟨_, s, rfl, fun _ => ⟨rfl, rfl⟩, fun heq => absurd (Option.some.inj heq) herr⟩ ?_
    exact ⟨fun n hn proc hproc hdid => absurd hdid (hnew n hn proc hproc), fun _ hr' => absurd hr' hr⟩
  | crashed hnew hr hnode =>
    refine iff_of_false (fun ⟨_, _, heq, _⟩ => nomatch heq) fun hfits => ?_
    rw [(hfits.2 hnew hr).1] at hnode
    cases hnode
  | stray hnew hr hctrl _ hprocs =>
    refine iff_of_false ?_ fun hfits => ?_
    · rintro ⟨ans, t, heq, hsame, -⟩
      cases heq
      have hlen := congrArg length (hprocs.symm.trans (hsame nofun).1)
      simp at hlen
    · rw [(hfits.2 hnew hr).2] at hctrl
      cases hctrl
  | running hnew hnode hctrl _ hans =>
    refine iff_of_true ⟨_, _, rfl, absurd hans, fun heq => ?_⟩
      ⟨fun n hn proc hproc hdid => absurd hdid (hnew n hn proc hproc), fun _ _ => ⟨hnode, hctrl⟩⟩
    rw [hans] at heq
    cases heq

/-- The registry is right after every run, and a launch is sound exactly if it fits. -/
theorem registry_iff {as : List Action} (h : Run.exec ProcessRegistry.step .init as = some s) :
    Registry s ∧ ∀ call, LaunchSound s call ↔ Fits s call := by
  have hcons := Run.exec_invariant Consistent consistent_init (fun s a t hs ht => hs.step ht) h
  exact ⟨hcons.registry, fun call => hcons.launchSound_iff⟩

theorem consistent_of_run {as : List Action}
    (h : Run.exec ProcessRegistry.step .init as = some s) : Consistent s :=
  Run.exec_invariant Consistent consistent_init (fun _ _ _ hs ht => hs.step ht) h

def sampleLaunch (did : DistId) (pid : Nat) (ctrlAlloc : Bool) : LaunchCall where
  did := did
  cid := 40
  programData := some false
  buffer := true
  launched := some (pid, pid + 1)
  procAlloc := true
  nodeAlloc := true
  ctrlAlloc := ctrlAlloc

def sampleRun : List Action :=
  [.launch (sampleLaunch [1] 100 true), .launch (sampleLaunch [2] 200 true), .processDied 101,
    .releaseProc 1, .releaseController ⟨1, 1, 1, false⟩, .launch (sampleLaunch [3] 300 true)]

theorem consistent_sample :
    ∃ s, Run.exec ProcessRegistry.step .init sampleRun = some s ∧ Consistent s :=
  ⟨_, rfl, consistent_of_run (rfl : Run.exec ProcessRegistry.step .init sampleRun = _)⟩

theorem registry_sample :
    ∃ s, Run.exec ProcessRegistry.step .init sampleRun = some s ∧ s.procs = [⟨40, 2⟩] ∧
      s.procCnt = 1 ∧ Registry s ∧ LaunchSound s (sampleLaunch [2] 400 true) := by
  have hrun : ∃ s, Run.exec ProcessRegistry.step .init sampleRun = some s := ⟨_, rfl⟩
  obtain ⟨s, hs⟩ := hrun
  have hfinal : s.procs = [⟨40, 2⟩] ∧ s.procCnt = 1 ∧
      RefHeap.val? s.heap 2 = some ⟨301, 300, [3], false⟩ := by
    cases hs
    exact ⟨rfl, rfl, rfl⟩
  obtain ⟨hprocs, hcnt, hval⟩ := hfinal
  obtain ⟨hreg, hlaunch⟩ := registry_iff hs
  refine ⟨s, hs, hprocs, hcnt, hreg, (hlaunch _).mpr ⟨fun n hn proc hproc hdid => ?_, ?_⟩⟩
  · rw [hprocs, mem_singleton] at hn
    subst hn
    cases hval.symm.trans hproc
    cases hdid
  · exact fun _ _ => ⟨rfl, rfl⟩

/-- A launch of a running process reports 0; and one without memory for the controller is an error
that leaves its process registered. -/
theorem registry_misreports :
    (∃ s, Run.exec ProcessRegistry.step .init [.launch (sampleLaunch [1] 100 true)] = some s ∧
      ProcessRegistry.launch s (sampleLaunch [1] 200 true) =
        some (⟨some .procAlreadyLoaded, some 0, none, none⟩, s) ∧
      (s.procs.map fun n => (RefHeap.val? s.heap n.tProcObj).map TProcess.pid) = [some 100]) ∧
    ∃ s, ProcessRegistry.launch .init (sampleLaunch [1] 100 false) =
        some (⟨some (.object .mem), none, none, none⟩, s) ∧ s.procs = [⟨40, 0⟩] ∧ s.procCnt = 1 :=
  ⟨⟨_, rfl, rfl, rfl⟩, ⟨_, rfl, rfl, rfl⟩⟩

end Runs

end MinkIpc.ProcessRegistry
