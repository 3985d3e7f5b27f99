import Mathlib.Algebra.BigOperators.Group.List.Basic
import MinkIpc.MemoryPool

/-! The account of the memory service: bytes of the pools, heaps in use, and open descriptors. -/

namespace MinkIpc.MemoryPool

open Function List Option

section Accounting

variable {sizeMax : Nat} {s t : State} {p : Nat} {m : TMemPool} {b b' : MSMem} {own : Option Nat}

def used (s : State) (p : Nat) : Nat :=
  (s.mems.map fun b => if b.bufCallBack.pool = p then b.bufCallBack.bufSize else 0).sum

def owners (s : State) (p : Nat) : Nat :=
  (s.mems.map fun b => if b.bufCallBack.pool = p then 1 else 0).sum

/-- The account of the service. `own` is a pool to which a running function has one more reference.
-/
structure Balanced (sizeMax : Nat) (own : Option Nat) (s : State) : Prop where
  pool_lt : ∀ p m, s.pools p = some m → p < s.nextPool
  refs : ∀ p m, s.pools p = some m →
    m.refs = m.held + owners s p + (if own = some p then 1 else 0) ∧ 0 < m.refs
  bytes : ∀ p m, s.pools p = some m → m.remainInBytes + used s p = m.poolSizeinBytes ∧
    m.poolSizeinBytes ≤ sizeMax
  heap : ∀ p m, s.pools p = some m → ∃ h, s.heaps[m.heapListIdx]? = some h ∧ h.available = false
  apart : ∀ p q m m', s.pools p = some m → s.pools q = some m' →
    m.heapListIdx = m'.heapListIdx → p = q
  taken : ∀ i h, s.heaps[i]? = some h → h.available = false →
    ∃ p m, s.pools p = some m ∧ m.heapListIdx = i
  mem : ∀ b ∈ s.mems, 0 < b.refs ∧ b.refs = b.held ∧ b.bufCallBack.refs = 1 ∧
    ∃ m, s.pools b.bufCallBack.pool = some m
  fds : s.openFds.Perm (s.mems.map MSMem.dmaBufFd)

theorem balanced_init : Balanced sizeMax none .init where
  pool_lt _ _ h := nomatch h
  refs _ _ h := nomatch h
  bytes _ _ h := nomatch h
  heap _ _ h := nomatch h
  apart _ _ _ _ h := nomatch h
  taken i h hi hfree := by
    have hmem := mem_of_getElem? hi
    have hall : ∀ h ∈ gListOfHeaps, h.available = true := by simp [gListOfHeaps]
    rw [hall h hmem] at hfree
    cases hfree
  mem _ h := nomatch h
  fds := List.Perm.refl _

theorem used_cons (b : MSMem) (l : List MSMem) (q : Nat) :
    used { s with mems := b :: l } q = used { s with mems := l } q +
      if b.bufCallBack.pool = q then b.bufCallBack.bufSize else 0 := by
  simp [used, Nat.add_comm]

theorem owners_cons (b : MSMem) (l : List MSMem) (q : Nat) :
    owners { s with mems := b :: l } q = owners { s with mems := l } q +
      if b.bufCallBack.pool = q then 1 else 0 := by
  simp [owners, Nat.add_comm]

theorem used_erase (hb : b ∈ s.mems) (q : Nat) : used { s with mems := s.mems.erase b } q +
      (if b.bufCallBack.pool = q then b.bufCallBack.bufSize else 0) = used s q := by
  rw [Nat.add_comm]
  exact sum_map_erase (fun b => if b.bufCallBack.pool = q then b.bufCallBack.bufSize else 0) hb

theorem owners_erase (hb : b ∈ s.mems) (q : Nat) :
    owners { s with mems := s.mems.erase b } q + (if b.bufCallBack.pool = q then 1 else 0) =
      owners s q := by
  rw [Nat.add_comm]
  exact sum_map_erase (fun b => if b.bufCallBack.pool = q then 1 else 0) hb

theorem pool_ne_of_owners (h : owners s p = 0) (hb : b ∈ s.mems) : b.bufCallBack.pool ≠ p := by
  intro heq
  have hsum := owners_erase hb p
  rw [if_pos heq] at hsum
  omega

theorem setAvailable_heaps (s : State) (idx : Nat) (v : Bool) (i : Nat) :
    (s.setAvailable idx v).heaps[i]? =
      if idx = i then (s.heaps[i]?).map fun g => { g with available := v } else s.heaps[i]? := by
  rw [State.setAvailable, getElem?_modify]
  split_ifs <;> simp

theorem Balanced.of_update (h : Balanced sizeMax own s) (hp : s.pools p = some m) {m' : TMemPool}
    {own' : Option Nat} (hpools : t.pools = update s.pools p (some m'))
    (hheaps : t.heaps = s.heaps) (hnext : t.nextPool = s.nextPool)
    (hothers : ∀ q, q ≠ p → used t q = used s q ∧ owners t q = owners s q ∧
      (own' = some q ↔ own = some q))
    (hrefs : m'.refs = m'.held + owners t p + (if own' = some p then 1 else 0) ∧ 0 < m'.refs)
    (hbytes : m'.remainInBytes + used t p = m.remainInBytes + used s p)
    (hsize : m'.poolSizeinBytes = m.poolSizeinBytes) (hidx : m'.heapListIdx = m.heapListIdx)
    (hmem : ∀ b ∈ t.mems, b ∈ s.mems ∨
      0 < b.refs ∧ b.refs = b.held ∧ b.bufCallBack.refs = 1 ∧ b.bufCallBack.pool = p)
    (hfds : t.openFds.Perm (t.mems.map MSMem.dmaBufFd)) : Balanced sizeMax own' t := by
  -- Every pool of the new state is `p` with the written record or one of the old ones.
  have hcases : ∀ q n, t.pools q = some n → (q = p ∧ n = m') ∨ (q ≠ p ∧ s.pools q = some n) := by
    intro q n hq
    rw [hpools, update_apply] at hq
    split_ifs at hq with hqp
    · exact .inl ⟨hqp, (Option.some.inj hq).symm⟩
    · exact .inr ⟨hqp, hq⟩
  have hold : ∀ q n, t.pools q = some n →
      ∃ n', s.pools q = some n' ∧ n.heapListIdx = n'.heapListIdx := by
    intro q n hq
    rcases hcases q n hq with ⟨rfl, rfl⟩ | ⟨-, hq⟩
    · exact ⟨m, hp, hidx⟩
    · exact ⟨n, hq, rfl⟩
  have hnew : ∀ q n, s.pools q = some n →
      ∃ n', t.pools q = some n' ∧ n'.heapListIdx = n.heapListIdx := by
    intro q n hq
    rw [hpools]
    by_cases hqp : q = p
    · subst hqp
      cases hp.symm.trans hq
      exact ⟨m', update_self .., hidx⟩
    · exact ⟨n, (update_of_ne hqp ..).trans hq, rfl⟩
  refine ⟨fun q n hq => ?_, fun q n hq => ?_, fun q n hq => ?_, fun q n hq => ?_,
    fun q r n n' hq hr heq => ?_, fun i g hi hg => ?_, fun b hb => ?_, hfds⟩
  · obtain ⟨n', hn', -⟩ := hold q n hq
    rw [hnext]
    exact h.pool_lt q n' hn'
  · rcases hcases q n hq with ⟨rfl, rfl⟩ | ⟨hne, hq⟩
    · exact hrefs
    · obtain ⟨-, howners, hown⟩ := hothers q hne
      simp only [howners, hown]
      exact h.refs q n hq
  · rcases hcases q n hq with ⟨rfl, rfl⟩ | ⟨hne, hq⟩
    · rw [hbytes, hsize]
      exact h.bytes q m hp
    · rw [(hothers q hne).1]
      exact h.bytes q n hq
  · obtain ⟨n', hn', hi⟩ := hold q n hq
    rw [hi, hheaps]
    exact h.heap q n' hn'
  · obtain ⟨n₁, hn₁, hi₁⟩ := hold q n hq
    obtain ⟨n₂, hn₂, hi₂⟩ := hold r n' hr
    exact h.apart q r n₁ n₂ hn₁ hn₂ (hi₁.symm.trans (heq.trans hi₂))
  · rw [hheaps] at hi
    obtain ⟨q, n, hq, hn⟩ := h.taken i g hi hg
    obtain ⟨n', hn', hidx'⟩ := hnew q n hq
    exact ⟨q, n', hn', hidx'.trans hn⟩
  · rcases hmem b hb with hb | ⟨h₁, h₂, h₃, hpool⟩
    · obtain ⟨h₁, h₂, h₃, n, hn⟩ := h.mem b hb
      obtain ⟨n', hn', -⟩ := hnew _ n hn
      exact ⟨h₁, h₂, h₃, n', hn'⟩
    · obtain ⟨n', hn', -⟩ := hnew p m hp
      exact ⟨h₁, h₂, h₃, n', hpool ▸ hn'⟩

theorem Balanced.setPool (h : Balanced sizeMax own s) (hp : s.pools p = some m) {m' : TMemPool}
    {own' : Option Nat} (hsame : ∀ q, q ≠ p → (own' = some q ↔ own = some q))
    (hrefs : m'.refs = m'.held + owners s p + (if own' = some p then 1 else 0) ∧ 0 < m'.refs)
    (hbytes : m'.remainInBytes = m.remainInBytes) (hsize : m'.poolSizeinBytes = m.poolSizeinBytes)
    (hidx : m'.heapListIdx = m.heapListIdx) : Balanced sizeMax own' (s.setPool p m') :=
  h.of_update hp rfl rfl rfl (fun q hq => ⟨rfl, rfl, hsame q hq⟩) hrefs
    (congrArg (· + used s p) hbytes) hsize hidx (fun _ hb => .inl hb) h.fds

theorem Balanced.memPoolRelease (h : Balanced sizeMax (some p) s) (hp : s.pools p = some m) :
    ∃ t, memPoolRelease s p = some t ∧ Balanced sizeMax none t := by
  obtain ⟨hrefs, hpos⟩ := h.refs p m hp
  rw [if_pos rfl] at hrefs
  unfold MemoryPool.memPoolRelease
  rw [hp, map_some]
  refine ⟨_, rfl, ?_⟩
  split_ifs with hlast
  · have hzero : owners s p = 0 := by omega
    have hold : ∀ q n, update s.pools p none q = some n → q ≠ p ∧ s.pools q = some n := by
      intro q n hq
      rw [update_apply] at hq
      split_ifs at hq with hqp
      exact ⟨hqp, hq⟩
    refine ⟨fun q n hq => h.pool_lt q n (hold q n hq).2, fun q n hq => ?_,
      fun q n hq => h.bytes q n (hold q n hq).2, fun q n hq => ?_, fun q r n n' hq hr =>
        h.apart q r n n' (hold q n hq).2 (hold r n' hr).2, fun i g hi hg => ?_, fun b hb => ?_, h.fds⟩
    · obtain ⟨hne, hq⟩ := hold q n hq
      have hr := h.refs q n hq
      rw [if_neg fun heq => hne (Option.some.inj heq).symm] at hr
      exact hr
    · obtain ⟨hne, hq⟩ := hold q n hq
      have hidx : m.heapListIdx ≠ n.heapListIdx := fun heq => hne (h.apart q p n m hq hp heq.symm)
      dsimp only
      rw [setAvailable_heaps, if_neg hidx]
      exact h.heap q n hq
    · rw [setAvailable_heaps] at hi
      split_ifs at hi with hidx
      · obtain ⟨g', -, rfl⟩ := map_eq_some_iff.mp hi
        cases hg
      obtain ⟨q, n, hq, hn⟩ := h.taken i g hi hg
      have hne : q ≠ p := by
        rintro rfl
        cases hp.symm.trans hq
        exact hidx hn
      exact ⟨q, n, (update_of_ne hne ..).trans hq, hn⟩
    · obtain ⟨h₁, h₂, h₃, n, hn⟩ := h.mem b hb
      exact ⟨h₁, h₂, h₃, n, (update_of_ne (pool_ne_of_owners hzero hb) ..).trans hn⟩
  · refine h.setPool hp (fun q hq => ?_) ?_ rfl rfl rfl
    · exact iff_of_false nofun fun heq => hq (Option.some.inj heq).symm
    · rw [if_neg nofun]
      dsimp only
      omega

theorem Balanced.setMem (h : Balanced sizeMax own s) (hb : b ∈ s.mems)
    (hcb : b'.bufCallBack = b.bufCallBack) (hfd : b'.dmaBufFd = b.dmaBufFd)
    (hrefs : 0 < b'.refs ∧ b'.refs = b'.held) : Balanced sizeMax own (s.setMem b b') := by
  obtain ⟨-, -, hone, m, hm⟩ := h.mem b hb
  have hused : ∀ q, used (s.setMem b b') q = used s q := fun q => by
    rw [State.setMem, used_cons, hcb, used_erase hb]
  have howners : ∀ q, owners (s.setMem b b') q = owners s q := fun q => by
    rw [State.setMem, owners_cons, hcb, owners_erase hb]
  refine h.of_update hm (update_eq_self_iff.mpr hm.symm).symm rfl rfl
    (fun q _ => ⟨hused q, howners q, Iff.rfl⟩) ?_ (by rw [hused]) rfl rfl (fun x hx => ?_) ?_
  · rw [howners]
    exact h.refs _ m hm
  · rcases mem_cons.mp hx with rfl | hx
    · exact .inr ⟨hrefs.1, hrefs.2, hcb ▸ hone, by rw [hcb]⟩
    · exact .inl (mem_of_mem_erase hx)
  · refine h.fds.trans ?_
    have hperm := (perm_cons_erase hb).map MSMem.dmaBufFd
    rw [map_cons, ← hfd] at hperm
    exact hperm

theorem Balanced.msMemRelease (h : Balanced sizeMax none s) (hb : b ∈ s.mems) :
    ∃ t, msMemRelease sizeMax s b = some t ∧ Balanced sizeMax none t := by
  obtain ⟨hpos, hrefs, hone, m, hm⟩ := h.mem b hb
  unfold MemoryPool.msMemRelease
  split_ifs with hlast
  · set p := b.bufCallBack.pool with hp
    have hused := used_erase hb
    have howners := owners_erase hb
    obtain ⟨hmrefs, hmpos⟩ := h.refs p m hm
    obtain ⟨hbytes, hmax⟩ := h.bytes p m hm
    have husedp := hused p
    have hownersp := howners p
    rw [if_pos hp.symm] at husedp hownersp
    have hmod : (m.remainInBytes + b.bufCallBack.bufSize) % (sizeMax + 1) =
        m.remainInBytes + b.bufCallBack.bufSize := Nat.mod_eq_of_lt (by omega)
    have hown : Balanced sizeMax (some p)
        ({ s with openFds := s.openFds.erase b.dmaBufFd, mems := s.mems.erase b }.setPool p
          { m with remainInBytes := m.remainInBytes + b.bufCallBack.bufSize }) := by
      refine h.of_update hm rfl rfl rfl (fun q hq => ?_) ?_ ?_ rfl rfl
        (fun x hx => .inl (mem_of_mem_erase hx)) ?_
      · have hu := hused q
        have ho := howners q
        rw [if_neg (hp ▸ Ne.symm hq)] at hu ho
        exact ⟨hu, ho, iff_of_false (fun heq => hq (Option.some.inj heq).symm) nofun⟩
      · rw [if_neg nofun] at hmrefs
        rw [if_pos rfl]
        change m.refs = m.held + (owners { s with mems := s.mems.erase b } p : Int) + 1 ∧ 0 < m.refs
        omega
      · change m.remainInBytes + b.bufCallBack.bufSize +
          used { s with mems := s.mems.erase b } p = _
        omega
      · have hperm := h.fds.trans ((perm_cons_erase hb).map MSMem.dmaBufFd)
        have herase := hperm.erase b.dmaBufFd
        rw [map_cons, erase_cons_head] at herase
        exact herase
    obtain ⟨t, ht, hbal⟩ := hown.memPoolRelease (update_self ..)
    refine ⟨t, ?_, hbal⟩
    dsimp only
    rw [bufCallBackRelease, if_pos (by rw [hone]; rfl)]
    dsimp only
    rw [hm, bind_some, hmod, ht]
    rfl
  · refine ⟨_, rfl, h.setMem hb rfl rfl ?_⟩
    dsimp only
    omega

theorem createPool_cases (sizeMax : Nat) (s : State) (call : PoolCall) :
    (∃ err, createPool sizeMax s call = (.error err, s)) ∨
    ∃ idx g size, s.heaps[idx]? = some g ∧ g.available = true ∧ size ≤ sizeMax ∧
      createPool sizeMax s call = (.ok s.nextPool,
        { (s.setAvailable idx false).setPool s.nextPool ⟨1, 1, size, size, idx, g.heapName⟩ with
          nextPool := s.nextPool + 1 }) := by
  unfold createPool
  by_cases hsize : sizeMax < call.size
  · rw [if_pos hsize]
    exact .inl ⟨_, rfl⟩
  rw [if_neg hsize]
  cases call.powerService with
  | some err => exact .inl ⟨_, rfl⟩
  | none =>
    cases call.wakeLock with
    | some err => exact .inl ⟨_, rfl⟩
    | none =>
      split_ifs with hrules
      · rw [memPoolNew]
        cases call.poolAlloc with
        | false => exact .inl ⟨_, rfl⟩
        | true =>
          cases hidx : s.heaps.findIdx? DmaBufHeap.available with
          | none => exact .inl ⟨.noAvailableHeap, by simp [getAvailableHeap, hidx]⟩
          | some idx =>
            obtain ⟨hlt, havail, -⟩ := findIdx?_eq_some_iff_getElem.mp hidx
            have hget : s.heaps[idx]? = some s.heaps[idx] := getElem?_eq_getElem hlt
            have hfirst : getAvailableHeap s = some (idx, s.heaps[idx].heapName) := by
              rw [getAvailableHeap, hidx, bind_some, hget, map_some]
            rw [hfirst]
            cases populateHeap call with
            | some err => exact .inl ⟨_, rfl⟩
            | none =>
              refine .inr ⟨idx, s.heaps[idx], _, hget, havail, ?_, rfl⟩
              exact Nat.le_of_lt_succ (Nat.mod_lt _ (Nat.succ_pos _))
      · exact .inl ⟨_, rfl⟩

variable {size : Nat} {call : BufferCall}

theorem Balanced.newPool (h : Balanced sizeMax none s) {idx : Nat} {g : DmaBufHeap}
    (hget : s.heaps[idx]? = some g) (hfree : g.available = true) (hmax : size ≤ sizeMax) :
    Balanced sizeMax none
      { (s.setAvailable idx false).setPool s.nextPool ⟨1, 1, size, size, idx, g.heapName⟩ with
        nextPool := s.nextPool + 1 } := by
  have hnone : s.pools s.nextPool = none := by
    cases hp : s.pools s.nextPool with
    | none => rfl
    | some m => exact absurd (h.pool_lt _ m hp) (Nat.lt_irrefl _)
  -- No buffer belongs to the new pool, and no pool has its heap.
  have hmems : ∀ b ∈ s.mems, b.bufCallBack.pool ≠ s.nextPool := by
    intro b hb heq
    obtain ⟨-, -, -, m, hm⟩ := h.mem b hb
    rw [heq, hnone] at hm
    cases hm
  have hused : used s s.nextPool = 0 :=
    sum_eq_zero fun x hx => by
      obtain ⟨b, hb, rfl⟩ := mem_map.mp hx
      exact if_neg (hmems b hb)
  have howners : owners s s.nextPool = 0 :=
    sum_eq_zero fun x hx => by
      obtain ⟨b, hb, rfl⟩ := mem_map.mp hx
      exact if_neg (hmems b hb)
  have hidx : ∀ q m, s.pools q = some m → idx ≠ m.heapListIdx := by
    intro q m hq heq
    obtain ⟨g', hg', hbusy⟩ := h.heap q m hq
    rw [← heq, hget] at hg'
    cases hg'
    rw [hfree] at hbusy
    cases hbusy
  have hcases : ∀ q n, update s.pools s.nextPool
      (some ⟨1, 1, size, size, idx, g.heapName⟩) q = some n →
      (q = s.nextPool ∧ n = ⟨1, 1, size, size, idx, g.heapName⟩) ∨
      (q ≠ s.nextPool ∧ s.pools q = some n) := by
    intro q n hq
    rw [update_apply] at hq
    split_ifs at hq with hqp
    · exact .inl ⟨hqp, (Option.some.inj hq).symm⟩
    · exact .inr ⟨hqp, hq⟩
  refine ⟨fun q n hq => ?_, fun q n hq => ?_, fun q n hq => ?_, fun q n hq => ?_,
    fun q r n n' hq hr heq => ?_, fun i g' hi hbusy => ?_, fun b hb => ?_, h.fds⟩
  · rcases hcases q n hq with ⟨rfl, -⟩ | ⟨-, hq⟩
    · exact Nat.lt_succ_self _
    · exact Nat.lt_succ_of_lt (h.pool_lt q n hq)
  · rcases hcases q n hq with ⟨rfl, rfl⟩ | ⟨-, hq⟩
    · change (1 : Int) = ((1 : Nat) : Int) + (owners s s.nextPool : Int) + _ ∧ _
      rw [howners]
      exact ⟨rfl, Int.one_pos⟩
    · exact h.refs q n hq
  · rcases hcases q n hq with ⟨rfl, rfl⟩ | ⟨-, hq⟩
    · exact ⟨congrArg (size + ·) hused, hmax⟩
    · exact h.bytes q n hq
  · dsimp only [State.setPool]
    rw [setAvailable_heaps]
    rcases hcases q n hq with ⟨rfl, rfl⟩ | ⟨-, hq⟩
    · rw [if_pos rfl, hget]
      exact ⟨_, rfl, rfl⟩
    · rw [if_neg (hidx q n hq)]
      exact h.heap q n hq
  · rcases hcases q n hq with ⟨rfl, rfl⟩ | ⟨-, hq⟩ <;>
      rcases hcases r n' hr with ⟨rfl, rfl⟩ | ⟨-, hr⟩
    · rfl
    · exact absurd heq (hidx r n' hr)
    · exact absurd heq.symm (hidx q n hq)
    · exact h.apart q r n n' hq hr heq
  · dsimp only [State.setPool] at hi
    rw [setAvailable_heaps] at hi
    split_ifs at hi with heq
    · exact ⟨s.nextPool, _, update_self .., heq⟩
    · obtain ⟨q, n, hq, hn⟩ := h.taken i g' hi hbusy
      have hne : q ≠ s.nextPool := Nat.ne_of_lt (h.pool_lt q n hq)
      exact ⟨q, n, (update_of_ne hne ..).trans hq, hn⟩
  · obtain ⟨h₁, h₂, h₃, n, hn⟩ := h.mem b hb
    exact ⟨h₁, h₂, h₃, n, (update_of_ne (hmems b hb) ..).trans hn⟩

def Reaches (sizeMax : Nat) (m : TMemPool) (call : BufferCall) : Prop :=
  call.size ≤ sizeMax ∧ call.powerService = none ∧ call.wakeLock = none ∧ call.allocator = true ∧
    sizeAlign call.size alignBlock4KB ≤ m.remainInBytes ∧ call.heapAlloc = true

theorem allocateBuffer_cases (hp : s.pools p = some m) (call : BufferCall) :
    (¬ Reaches sizeMax m call ∧ ∃ err, allocateBuffer sizeMax s p call = some (.error err, s)) ∨
    (Reaches sizeMax m call ∧ allocateBuffer sizeMax s p call =
      wrapBuffer sizeMax s call p m (sizeAlign call.size alignBlock4KB)) := by
  unfold allocateBuffer
  rw [hp, bind_some]
  by_cases hsize : sizeMax < call.size
  · rw [if_pos hsize]
    exact .inl ⟨fun h => absurd hsize (Nat.not_lt.mpr h.1), _, rfl⟩
  rw [if_neg hsize]
  cases hpower : call.powerService with
  | some err => exact .inl ⟨fun h => (nomatch hpower.symm.trans h.2.1), _, rfl⟩
  | none =>
    cases hwake : call.wakeLock with
    | some err => exact .inl ⟨fun h => (nomatch hwake.symm.trans h.2.2.1), _, rfl⟩
    | none =>
      dsimp only
      cases halloc : call.allocator with
      | false => exact .inl ⟨fun h => (nomatch halloc.symm.trans h.2.2.2.1), _, rfl⟩
      | true =>
        by_cases hfit : m.remainInBytes < sizeAlign call.size alignBlock4KB
        · rw [if_pos hfit]
          exact .inl ⟨fun h => absurd hfit (Nat.not_lt.mpr h.2.2.2.2.1), _, rfl⟩
        rw [if_neg hfit]
        cases hheap : call.heapAlloc with
        | false => exact .inl ⟨fun h => (nomatch hheap.symm.trans h.2.2.2.2.2), _, rfl⟩
        | true =>
          exact .inr ⟨⟨Nat.le_of_not_lt hsize, hpower, hwake, halloc, Nat.le_of_not_lt hfit, hheap⟩,
            rfl⟩

def State.handed (s : State) (p : Nat) (m : TMemPool) (bufSize : Nat) : State :=
  { s with
    pools := update s.pools p
      (some { m with remainInBytes := m.remainInBytes - bufSize, refs := m.refs + 1 })
    mems := ⟨s.nextMem, 1, 1, s.nextFd, ⟨1, p, bufSize⟩⟩ :: s.mems
    openFds := s.nextFd :: s.openFds
    nextMem := s.nextMem + 1
    nextFd := s.nextFd + 1 }

theorem wrapBuffer_ok (hcb : call.callBackAlloc = true) (hmem : call.memAlloc = true)
    (hsize : size ≤ sizeMax) :
    wrapBuffer sizeMax s call p m size = some (.ok s.nextMem, s.handed p m size) := by
  unfold wrapBuffer
  dsimp only
  rw [if_pos hcb, if_pos hmem, bufCallBackNew, bufCallBackRelease]
  dsimp only
  rw [if_neg (by decide), Nat.mod_eq_of_lt (Nat.lt_succ_of_le hsize)]
  simp only [bind_some, map_some, State.setPool, update_idem, State.handed, add_sub_cancel_right]

theorem Balanced.handed (h : Balanced sizeMax none s) (hp : s.pools p = some m)
    (hsize : size ≤ m.remainInBytes) : Balanced sizeMax none (s.handed p m size) := by
  obtain ⟨hrefs, hpos⟩ := h.refs p m hp
  have hused : ∀ q, used (s.handed p m size) q = used s q + if p = q then size else 0 :=
    used_cons _ _
  have howners : ∀ q, owners (s.handed p m size) q = owners s q + if p = q then 1 else 0 :=
    owners_cons _ _
  refine h.of_update hp rfl rfl rfl (fun q hq => ?_) ?_ ?_ rfl rfl (fun b hb => ?_) (h.fds.cons _)
  · rw [hused, howners, if_neg (Ne.symm hq), if_neg (Ne.symm hq)]
    exact ⟨rfl, rfl, Iff.rfl⟩
  · rw [if_neg nofun] at hrefs
    rw [howners, if_pos rfl, if_neg nofun]
    dsimp only
    omega
  · rw [hused, if_pos rfl]
    dsimp only
    omega
  · rcases mem_cons.mp hb with rfl | hb
    · exact .inr ⟨Int.one_pos, rfl, rfl, rfl⟩
    · exact .inl hb

theorem bufCallBackRelease_openFds {cb : TBufCallBack} {c : Option TBufCallBack}
    (h : bufCallBackRelease sizeMax s cb = some (c, t)) : t.openFds = s.openFds := by
  unfold bufCallBackRelease at h
  split_ifs at h
  · obtain ⟨m, -, h⟩ := bind_eq_some_iff.mp h
    obtain ⟨u, hu, heq⟩ := map_eq_some_iff.mp h
    cases heq
    obtain ⟨n, -, rfl⟩ := map_eq_some_iff.mp hu
    split_ifs <;> rfl
  · cases h
    rfl

theorem wrapBuffer_leak (hfail : ¬ (call.callBackAlloc = true ∧ call.memAlloc = true))
    {ans : Except MemError Nat} (h : wrapBuffer sizeMax s call p m size = some (ans, t)) :
    ans = .error (.object .mem) ∧ t.openFds = s.nextFd :: s.openFds := by
  unfold wrapBuffer at h
  dsimp only at h
  by_cases hcb : call.callBackAlloc = true
  · rw [if_pos hcb, if_neg fun hmem => hfail ⟨hcb, hmem⟩] at h
    obtain ⟨⟨c, u⟩, hu, heq⟩ := map_eq_some_iff.mp h
    cases heq
    exact ⟨rfl, bufCallBackRelease_openFds hu⟩
  · rw [if_neg hcb] at h
    cases h
    exact ⟨rfl, rfl⟩

/-- A request that gets a buffer from the heap finds memory for the two objects around it. -/
def Fits (sizeMax : Nat) (s : State) (p : Nat) (call : BufferCall) : Prop :=
  ∀ m, s.pools p = some m → Reaches sizeMax m call →
    call.callBackAlloc = true ∧ call.memAlloc = true

def Backed (sizeMax : Nat) (s : State) : Action → Prop
  | .allocateBuffer p call => Fits sizeMax s p call
  | _ => True

theorem Balanced.reaches_le (h : Balanced sizeMax none s) (hp : s.pools p = some m)
    (hr : Reaches sizeMax m call) :
    sizeAlign call.size alignBlock4KB ≤ m.remainInBytes ∧
      sizeAlign call.size alignBlock4KB ≤ sizeMax := by
  have hle := hr.2.2.2.2.1
  obtain ⟨hbytes, hmax⟩ := h.bytes p m hp
  omega

theorem Balanced.step (h : Balanced sizeMax none s) {a : Action} (hok : Backed sizeMax s a)
    (hs : step sizeMax s a = some t) : Balanced sizeMax none t := by
  cases a with
  | createPool call =>
    cases hs
    rcases createPool_cases sizeMax s call with ⟨err, heq⟩ | ⟨idx, g, size, hget, hfree, hmax, heq⟩
    · rw [heq]
      exact h
    · rw [heq]
      exact h.newPool hget hfree hmax
  | allocateBuffer p call =>
    obtain ⟨m, hp, hs⟩ := bind_eq_some_iff.mp hs
    obtain ⟨-, hs⟩ := ite_none_left_eq_some.mp hs
    obtain ⟨⟨ans, u⟩, hu, rfl⟩ := map_eq_some_iff.mp hs
    rcases allocateBuffer_cases hp call with ⟨-, err, heq⟩ | ⟨hr, heq⟩
    · cases hu.symm.trans heq
      exact h
    obtain ⟨hcb, hmem⟩ := hok m hp hr
    obtain ⟨hle, hmax⟩ := h.reaches_le hp hr
    rw [heq, wrapBuffer_ok hcb hmem hmax] at hu
    cases hu
    exact h.handed hp hle
  | retainBuffer i =>
    obtain ⟨b, hb, hs⟩ := bind_eq_some_iff.mp hs
    obtain ⟨-, hs⟩ := ite_none_left_eq_some.mp hs
    cases hs
    have hmem := mem_of_find?_eq_some hb
    obtain ⟨hpos, hrefs, -⟩ := h.mem b hmem
    refine h.setMem hmem rfl rfl ?_
    dsimp only
    omega
  | releaseBuffer i =>
    obtain ⟨b, hb, hs⟩ := bind_eq_some_iff.mp hs
    obtain ⟨-, hs⟩ := ite_none_left_eq_some.mp hs
    obtain ⟨u, hu, hbal⟩ := h.msMemRelease (mem_of_find?_eq_some hb)
    cases hu.symm.trans hs
    exact hbal
  | retainPool p =>
    obtain ⟨m, hp, hs⟩ := bind_eq_some_iff.mp hs
    obtain ⟨-, hs⟩ := ite_none_left_eq_some.mp hs
    cases hs
    have hrefs := h.refs p m hp
    refine h.setPool hp (fun _ _ => Iff.rfl) ?_ rfl rfl rfl
    dsimp only
    omega
  | releasePool p =>
    obtain ⟨m, hp, hs⟩ := bind_eq_some_iff.mp hs
    obtain ⟨hheld, hs⟩ := ite_none_left_eq_some.mp hs
    have hrefs := h.refs p m hp
    -- The client's reference becomes the function's own, which the release then drops.
    have hown : Balanced sizeMax (some p) (s.setPool p { m with held := m.held - 1 }) := by
      refine h.setPool hp (fun q hq => ?_) ?_ rfl rfl rfl
      · exact iff_of_false (fun heq => hq (Option.some.inj heq).symm) nofun
      · rw [if_neg nofun] at hrefs
        rw [if_pos rfl]
        dsimp only
        omega
    obtain ⟨u, hu, hbal⟩ := hown.memPoolRelease (update_self ..)
    cases hu.symm.trans hs
    exact hbal

structure Accounts (s : State) : Prop where
  bytes : ∀ p m, s.pools p = some m → m.remainInBytes + used s p = m.poolSizeinBytes
  heaps : ∀ i h, s.heaps[i]? = some h →
    (h.available = true ↔ ¬ ∃ p m, s.pools p = some m ∧ m.heapListIdx = i)
  fds : s.openFds.Perm (s.mems.map MSMem.dmaBufFd)

/-- A request that succeeds takes the aligned size; one that fails leaves the bytes of the pool and
the open descriptors as they were. -/
def AllocSound (sizeMax : Nat) (s : State) (p : Nat) (call : BufferCall) : Prop :=
  ∃ ans t, allocateBuffer sizeMax s p call = some (ans, t) ∧
    (∀ i, ans = .ok i → ∃ b, t.mem? i = some b ∧
      b.bufCallBack = ⟨1, p, sizeAlign call.size alignBlock4KB⟩) ∧
    ∀ err, ans = .error err → t.openFds = s.openFds ∧
      (t.pools p).map TMemPool.remainInBytes = (s.pools p).map TMemPool.remainInBytes

theorem Balanced.accounts (h : Balanced sizeMax none s) : Accounts s where
  bytes p m hp := (h.bytes p m hp).1
  heaps i g hi := by
    constructor
    · rintro hfree ⟨p, m, hp, rfl⟩
      obtain ⟨g', hg', hbusy⟩ := h.heap p m hp
      cases hi.symm.trans hg'
      rw [hfree] at hbusy
      cases hbusy
    · intro hnone
      by_contra hbusy
      exact hnone (h.taken i g hi (Bool.eq_false_iff.mpr hbusy))
  fds := h.fds

theorem Balanced.allocSound_iff (h : Balanced sizeMax none s) (hp : s.pools p = some m)
    (call : BufferCall) : AllocSound sizeMax s p call ↔ Fits sizeMax s p call := by
  rcases allocateBuffer_cases hp call with ⟨hnot, err, heq⟩ | ⟨hr, heq⟩
  · refine iff_of_true ⟨_, s, heq, nofun, fun _ _ => ⟨rfl, rfl⟩⟩ fun m' hp' hr => ?_
    cases hp.symm.trans hp'
    exact absurd hr hnot
  obtain ⟨hle, hmax⟩ := h.reaches_le hp hr
  constructor
  · rintro ⟨ans, t, hall, -, herr⟩ m' hp' -
    by_contra hfail
    rw [heq] at hall
    obtain ⟨rfl, hfds⟩ := wrapBuffer_leak hfail hall
    have hlen := congrArg length (hfds.symm.trans (herr _ rfl).1)
    simp at hlen
  · intro hfits
    obtain ⟨hcb, hmem⟩ := hfits m hp hr
    refine ⟨_, _, heq.trans (wrapBuffer_ok hcb hmem hmax), fun i hi => ?_, nofun⟩
    cases hi
    exact ⟨_, find?_cons_of_pos (by simp), rfl⟩

/-- In a backed run the books of every pool are right, and an allocation is sound exactly if it
fits. -/
theorem pool_accounts_of_backed {as : List Action}
    (h : Run.Guarded (MemoryPool.step sizeMax) (Backed sizeMax) .init as s) :
    Accounts s ∧ ∀ p m call, s.pools p = some m →
      (AllocSound sizeMax s p call ↔ Fits sizeMax s p call) := by
  have hbal := h.invariant (Balanced sizeMax none) balanced_init fun s a t hs hok ht => hs.step hok ht
  exact ⟨hbal.accounts, fun p m call hp => hbal.allocSound_iff hp call⟩

instance (sizeMax : Nat) (m : TMemPool) (call : BufferCall) : Decidable (Reaches sizeMax m call) :=
  inferInstanceAs (Decidable (_ ∧ _))

instance (sizeMax : Nat) (s : State) (p : Nat) (call : BufferCall) :
    Decidable (Fits sizeMax s p call) :=
  decidable_of_iff ((s.pools p).all fun m => decide (Reaches sizeMax m call →
      call.callBackAlloc = true ∧ call.memAlloc = true)) (by simp [Fits, Option.all_eq_true, imp_iff_not_or])

instance (sizeMax : Nat) (s : State) (a : Action) : Decidable (Backed sizeMax s a) :=
  match a with
  | .allocateBuffer _ _ => inferInstanceAs (Decidable (Fits _ _ _ _))
  | .createPool _ | .retainBuffer _ | .releaseBuffer _ | .retainPool _ | .releasePool _ =>
    inferInstanceAs (Decidable True)

def samplePool : PoolCall := ⟨5000000, none, none, none, true, true, true, [false, true]⟩

def sampleBuffer (callBackAlloc memAlloc : Bool) : BufferCall :=
  ⟨5000, none, none, true, true, callBackAlloc, memAlloc⟩

def sampleRun : List Action :=
  [.createPool samplePool, .allocateBuffer 0 (sampleBuffer true true),
    .allocateBuffer 0 (sampleBuffer true true), .releaseBuffer 0, .releasePool 0]

theorem pool_accounts_sample :
    ∃ s, Run.execIf (MemoryPool.step uint64Max) (Backed uint64Max) .init sampleRun = some s ∧
      (s.pools 0).map TMemPool.remainInBytes = some 6283264 ∧ s.openFds = [1] ∧ Accounts s ∧
      ∀ p m call, s.pools p = some m →
        (AllocSound uint64Max s p call ↔ Fits uint64Max s p call) := by
  obtain ⟨s, hs, hrun⟩ :=
    Run.exists_guarded (MemoryPool.step uint64Max) (Backed uint64Max) .init sampleRun (by decide)
  have hfinal : (Run.execIf (MemoryPool.step uint64Max) (Backed uint64Max) .init sampleRun).map
      (fun s => ((s.pools 0).map TMemPool.remainInBytes, s.openFds)) = some (some 6283264, [1]) := by
    decide
  rw [hs, map_some, Option.some.injEq, Prod.mk.injEq] at hfinal
  exact ⟨s, hs, hfinal.1, hfinal.2, pool_accounts_of_backed hrun⟩

/-- Without memory for the call-back object the bytes are lost as well as the descriptor; without
memory for the memory object the descriptor stays open. -/
theorem pool_leaks : (∃ s, Run.exec (MemoryPool.step uint64Max) .init
        [.createPool samplePool, .allocateBuffer 0 (sampleBuffer false true)] = some s ∧
      (s.pools 0).map TMemPool.remainInBytes = some 6283264 ∧ s.mems = [] ∧ ¬ Accounts s) ∧
    ∃ s, Run.exec (MemoryPool.step uint64Max) .init
        [.createPool samplePool, .allocateBuffer 0 (sampleBuffer true false)] = some s ∧
      (s.pools 0).map TMemPool.remainInBytes = some 6291456 ∧ s.mems = [] ∧ ¬ Accounts s :=
  ⟨⟨_, rfl, rfl, rfl, fun h => absurd h.fds.length_eq (by decide)⟩,
    ⟨_, rfl, rfl, rfl, fun h => absurd h.fds.length_eq (by decide)⟩⟩

end Accounting

end MinkIpc.MemoryPool
