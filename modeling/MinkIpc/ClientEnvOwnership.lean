import MinkIpc.ClientEnv

/-! Who owns the sessions and environments of the clients of the daemon, over whole runs of calls
and of what clients do with the environments they got. -/

namespace MinkIpc.ClientEnv

open Function List Option

open ObjectQuota (Ref)

/-- What holds in every run. The map and the clients together hold the references to a wrapper;
each wrapper in use has an environment to itself, with a session of its own that still exists. -/
structure Owned (s : State) : Prop where
  wf : ObjectQuota.WellFormed s.wrappers
  keys : (s.credMap.map Prod.fst).Nodup
  envs : (s.credMap.map Prod.snd).Nodup
  cached : ∀ x ∈ s.credMap, 0 < s.wrappers.held (.env x.2)
  custom : ∀ p, 0 < s.wrappers.held (.env p) → ∃ k, s.customs (s.wraps p) = some k ∧
    k.refs = 1 ∧ k.session < s.sessions ∧ s.destroyed k.session = 0
  apart : ∀ p q k k', 0 < s.wrappers.held (.env p) → 0 < s.wrappers.held (.env q) →
    s.customs (s.wraps p) = some k → s.customs (s.wraps q) = some k' →
    k.session = k'.session → p = q
  once : ∀ n, s.destroyed n ≤ 1
  fresh : ∀ n, s.sessions ≤ n → s.destroyed n = 0
  customs_lt : ∀ c k, s.customs c = some k → c < s.nextCustom

theorem owned_init : Owned .init where
  wf := ObjectQuota.wellFormed_init
  keys := nodup_nil
  envs := nodup_nil
  cached _ h := nomatch h
  custom _ h := absurd h (Nat.lt_irrefl 0)
  apart _ _ _ _ h := absurd h (Nat.lt_irrefl 0)
  once _ := Nat.zero_le 1
  fresh _ _ := rfl
  customs_lt _ _ h := nomatch h

section Ownership

variable {s t : State} {p : Nat} {w : ObjectQuota.State}

theorem Owned.setWrappers (h : Owned s) (hwf : ObjectQuota.WellFormed w)
    (hheld : ∀ q, 0 < w.held (.env q) ↔ 0 < s.wrappers.held (.env q)) :
    Owned (s.setWrappers w) where
  wf := hwf
  keys := h.keys
  envs := h.envs
  cached x hx := (hheld x.2).mpr (h.cached x hx)
  custom q hq := h.custom q ((hheld q).mp hq)
  apart q r k k' hq hr := h.apart q r k k' ((hheld q).mp hq) ((hheld r).mp hr)
  once := h.once
  fresh := h.fresh
  customs_lt := h.customs_lt

theorem held_pos_iff {q : Nat} : 0 < w.held (.env q) ↔ ∃ e, w.envs q = some e ∧ 0 < e.held := by
  cases he : w.envs q with
  | none | some e => simp [ObjectQuota.State.held, he]

theorem retainEnv_isSome (hp : 0 < s.wrappers.held (.env p)) :
    ∃ w, ObjectQuota.retain s.wrappers (.env p) = some w ∧
      retainEnv s p = some (s.setWrappers w) := by
  obtain ⟨e, he, -⟩ := held_pos_iff.mp hp
  have hw : ∃ w, ObjectQuota.retain s.wrappers (.env p) = some w :=
    ⟨_, by rw [ObjectQuota.retain, he, map_some]⟩
  obtain ⟨w, hw⟩ := hw
  exact ⟨w, hw, by rw [retainEnv, hw, map_some]⟩

theorem Owned.retainEnv (h : Owned s) (hp : 0 < s.wrappers.held (.env p))
    (hw : ObjectQuota.retain s.wrappers (.env p) = some w) : Owned (s.setWrappers w) := by
  refine h.setWrappers (h.wf.retain (Nat.ne_of_gt hp) hw) fun q => ?_
  rw [ObjectQuota.held_env_retain hw q]
  split_ifs with hq
  · subst hq
    exact iff_of_true (Nat.succ_pos _) hp
  · rfl

theorem Owned.last (h : Owned s) {k : Custom} {cm : List (ClientId × Nat)}
    (hp : 0 < s.wrappers.held (.env p)) (hk : s.customs (s.wraps p) = some k)
    (hwf : ObjectQuota.WellFormed w)
    (hheld : ∀ q, w.held (.env q) = if q = p then 0 else s.wrappers.held (.env q))
    (hsub : cm.Sublist s.credMap) (hnot : p ∉ cm.map Prod.snd) :
    Owned { (destroySession (s.setWrappers w) k.session).setCustom (s.wraps p) none with
      credMap := cm } := by
  have hother : ∀ q, 0 < w.held (.env q) → q ≠ p ∧ 0 < s.wrappers.held (.env q) := by
    intro q hq
    rw [hheld] at hq
    split_ifs at hq with hqp
    · exact absurd hq (Nat.lt_irrefl 0)
    · exact ⟨hqp, hq⟩
  -- The environment of another wrapper in use is a different one, with a different session.
  have hkeep : ∀ q, 0 < w.held (.env q) → ∃ k', s.customs (s.wraps q) = some k' ∧
      k'.refs = 1 ∧ k'.session < s.sessions ∧ s.destroyed k'.session = 0 ∧
      s.wraps q ≠ s.wraps p ∧ k'.session ≠ k.session := by
    intro q hq
    obtain ⟨hne, hq⟩ := hother q hq
    obtain ⟨k', hk', hrefs, hlt, hd⟩ := h.custom q hq
    have hsession : k'.session ≠ k.session := fun heq => hne (h.apart q p k' k hq hp hk' hk heq)
    refine ⟨k', hk', hrefs, hlt, hd, fun heq => hsession ?_, hsession⟩
    rw [heq, hk] at hk'
    rw [Option.some.inj hk']
  obtain ⟨k₀, hk₀, -, hlt, hd⟩ := h.custom p hp
  cases hk.symm.trans hk₀
  refine ⟨hwf, h.keys.sublist (hsub.map _), h.envs.sublist (hsub.map _), fun x hx => ?_,
    fun q hq => ?_, fun q r k₁ k₂ hq hr hk₁ hk₂ => ?_, fun n => ?_, fun n hn => ?_, fun c k₁ hc => ?_⟩
  · change 0 < w.held (.env x.2)
    have hne : x.2 ≠ p := fun heq => hnot (heq ▸ mem_map_of_mem hx)
    rw [hheld, if_neg hne]
    exact h.cached x (hsub.subset hx)
  · obtain ⟨k', hk', hrefs, hlt', hd', hne, hses⟩ := hkeep q hq
    refine ⟨k', (update_of_ne hne ..).trans hk', hrefs, hlt', ?_⟩
    exact (update_of_ne hses ..).trans hd'
  · obtain ⟨-, -, -, -, -, hne, -⟩ := hkeep q hq
    obtain ⟨-, -, -, -, -, hne', -⟩ := hkeep r hr
    exact h.apart q r k₁ k₂ (hother q hq).2 (hother r hr).2 ((update_of_ne hne ..).symm.trans hk₁)
      ((update_of_ne hne' ..).symm.trans hk₂)
  · change update s.destroyed k.session (s.destroyed k.session + 1) n ≤ 1
    rw [update_apply]
    split_ifs
    · omega
    · exact h.once n
  · have hne : n ≠ k.session := fun heq => absurd hlt (Nat.not_lt.mpr (heq ▸ hn))
    exact (update_of_ne hne ..).trans (h.fresh n hn)
  · change update s.customs (s.wraps p) none c = some k₁ at hc
    rw [update_apply] at hc
    split_ifs at hc
    exact h.customs_lt c k₁ hc

theorem Owned.releaseEnv (h : Owned s) (hp : 0 < s.wrappers.held (.env p))
    {cm : List (ClientId × Nat)} (hsub : cm.Sublist s.credMap)
    (hnot : s.wrappers.held (.env p) = 1 → p ∉ cm.map Prod.snd) :
    ∃ t, releaseEnv s p = some t ∧ Owned { t with credMap := cm } ∧ t.credMap = s.credMap ∧
      t.sessions = s.sessions ∧ ∀ q, q ≠ p → t.wrappers.envs q = s.wrappers.envs q := by
  obtain ⟨e, he, hpos⟩ := held_pos_iff.mp hp
  have hrefs := h.wf.env_refs p e he
  have hw : ∃ w, ObjectQuota.release s.wrappers (.env p) = some w :=
    ⟨_, by rw [ObjectQuota.release, he, map_some]⟩
  obtain ⟨w, hw⟩ := hw
  have hwf := h.wf.release (Nat.ne_of_gt hp) hw
  have hheld := h.wf.held_env_release hw
  have hsame := fun q hq => ObjectQuota.release_envs_of_ne (q := q) hw hq
  rw [ObjectQuota.held_env he] at hheld hnot
  unfold ClientEnv.releaseEnv
  rw [he, bind_some, hw, bind_some]
  by_cases hlast : e.refs - 1 = 0
  · obtain ⟨k, hk, hone, -, -⟩ := h.custom p hp
    have hzero : e.held - 1 = 0 := by omega
    have hrel : customRelease (s.setWrappers w) (s.wraps p) =
        some ((destroySession (s.setWrappers w) k.session).setCustom (s.wraps p) none) := by
      have hk' : (s.setWrappers w).customs (s.wraps p) = some k := hk
      rw [customRelease, hk', map_some, if_pos (by omega)]
    rw [if_pos hlast, hrel]
    rw [hzero] at hheld
    refine ⟨_, rfl, ?_, rfl, rfl, hsame⟩
    exact h.last hp hk hwf hheld hsub (hnot (by omega))
  · rw [if_neg hlast]
    refine ⟨_, rfl, ?_, rfl, rfl, hsame⟩
    have hkept : Owned (s.setWrappers w) := by
      refine h.setWrappers hwf fun q => ?_
      rw [hheld]
      split_ifs with hq
      · subst hq
        omega
      · rfl
    exact { hkept with
      keys := hkept.keys.sublist (hsub.map _)
      envs := hkept.envs.sublist (hsub.map _)
      cached := fun x hx => hkept.cached x (hsub.subset hx) }

def cleanable (s : State) (x : ClientId × Nat) : Bool := (s.wrappers.envs x.2).any unused

theorem Owned.cleanEntry (h : Owned s) {x : ClientId × Nat} (hx : x ∈ s.credMap) :
    ∃ t, cleanEntry s x = some t ∧ Owned t ∧ t.sessions = s.sessions ∧
      t.credMap = (if cleanable s x then s.credMap.erase x else s.credMap) ∧
      ∀ q, (x.2 = q → cleanable s x = false) → t.wrappers.envs q = s.wrappers.envs q := by
  have hp := h.cached x hx
  obtain ⟨e, he, hpos⟩ := held_pos_iff.mp hp
  have hcl : cleanable s x = unused e := by rw [cleanable, he, any_some]
  rw [ClientEnv.cleanEntry, he, bind_some, hcl]
  by_cases hun : unused e = true
  · rw [if_pos hun, if_pos hun]
    have hnot : x.2 ∉ (s.credMap.erase x).map Prod.snd := by
      have hperm := ((perm_cons_erase hx).map Prod.snd).nodup_iff.mp h.envs
      exact (nodup_cons.mp hperm).1
    obtain ⟨t, ht, hown, hcm, hses, hsame⟩ := h.releaseEnv hp erase_sublist fun _ => hnot
    rw [ht, map_some, hcm]
    refine ⟨_, rfl, hown, hses, rfl, fun q hq => hsame q fun heq => ?_⟩
    rw [hq heq.symm] at hun
    cases hun
  · rw [if_neg hun, if_neg hun]
    exact ⟨s, rfl, h, rfl, rfl, fun _ _ => rfl⟩

theorem Owned.cleanLoop (kept : List (ClientId × Nat)) {l : List (ClientId × Nat)} (h : Owned s)
    (hmap : s.credMap = kept ++ l) :
    ∃ t, Run.exec ClientEnv.cleanEntry s l = some t ∧ Owned t ∧ t.sessions = s.sessions ∧
      t.credMap = kept ++ l.filter (fun x => !cleanable s x) ∧
      ∀ q, (∀ x ∈ l, x.2 = q → cleanable s x = false) → t.wrappers.envs q = s.wrappers.envs q := by
  induction l generalizing s kept with
  | nil => exact ⟨s, rfl, h, rfl, hmap, fun _ _ => rfl⟩
  | cons x l ih =>
    have hx : x ∈ s.credMap := by rw [hmap]; exact mem_append_right _ mem_cons_self
    obtain ⟨t, ht, hown, hses, hcm, hsame⟩ := h.cleanEntry hx
    have hnodup := h.envs
    rw [hmap, map_append] at hnodup
    have hnot : x.2 ∉ l.map Prod.snd := (nodup_cons.mp (nodup_append.mp hnodup).2.1).1
    have hkept : x ∉ kept := fun hk => (nodup_append.mp hnodup).2.2 x.2
      (mem_map_of_mem hk) x.2 mem_cons_self rfl
    have hcl' : ∀ y ∈ l, cleanable t y = cleanable s y := by
      intro y hy
      have hne : x.2 ≠ y.2 := fun heq => hnot (heq ▸ mem_map_of_mem hy)
      rw [cleanable, cleanable, hsame y.2 fun heq => absurd heq hne]
    have hfilter : l.filter (fun y => !cleanable t y) = l.filter fun y => !cleanable s y :=
      filter_congr fun y hy => by rw [hcl' y hy]
    have henvs : ∀ u : State, (∀ q, (∀ y ∈ l, y.2 = q → cleanable t y = false) →
          u.wrappers.envs q = t.wrappers.envs q) →
        ∀ q, (∀ y ∈ x :: l, y.2 = q → cleanable s y = false) →
          u.wrappers.envs q = s.wrappers.envs q := by
      intro u hu q hq
      rw [forall_mem_cons] at hq
      refine (hu q fun y hy => ?_).trans (hsame q hq.1)
      rw [hcl' y hy]
      exact hq.2 y hy
    rw [Run.exec, ht, ← hses]
    split_ifs at hcm with hcl
    · rw [hmap, erase_append_right _ hkept, erase_cons_head] at hcm
      obtain ⟨u, hu, hown', hses', hcm', hsame'⟩ := ih _ hown hcm
      refine ⟨u, hu, hown', hses', ?_, henvs u hsame'⟩
      rw [hcm', hfilter, filter_cons_of_neg (by simp [hcl])]
    · rw [hmap, append_cons] at hcm
      obtain ⟨u, hu, hown', hses', hcm', hsame'⟩ := ih _ hown hcm
      refine ⟨u, hu, hown', hses', ?_, henvs u hsame'⟩
      rw [hcm', hfilter, filter_cons_of_pos (by simp [hcl]), ← append_cons]

theorem Owned.cleanEnvs (h : Owned s) :
    ∃ t, cleanEnvs s = some t ∧ Owned t ∧ t.sessions = s.sessions ∧
      t.credMap = s.credMap.filter (fun x => !cleanable s x) ∧
      ∀ q, (∀ x ∈ s.credMap, x.2 = q → cleanable s x = false) →
        t.wrappers.envs q = s.wrappers.envs q :=
  h.cleanLoop [] rfl

variable {cfg : Config} {call : Call}

def Call.EnvMade (call : Call) : Prop :=
  call.customAlloc = true ∧ call.whitelistBuf.getD [] ≠ [] ∧
    ∀ u ∈ call.whitelistBuf.getD [], u.alloc = true

def Call.Made (call : Call) : Prop :=
  call.newLASystem = none ∧ call.createSession = none ∧ call.EnvMade

def Call.Storable (call : Call) : Prop := call.clientId ≠ [] ∧ call.wrapperAlloc = true

theorem setServices_isSome (us : List Uid) (cs : List IDSet.Chunk) :
    (∃ services, setServices us cs = some services) ↔ ∀ u ∈ us, u.alloc = true := by
  induction us generalizing cs with
  | nil => simp [setServices]
  | cons u us ih =>
    rw [setServices, forall_mem_cons]
    cases u.alloc with
    | false => simp
    | true => simpa using ih _

theorem customNewClient_cases (s : State) (session : Nat) (call : Call) :
    (¬ call.EnvMade ∧ ∃ err t, customNewClient s session call = (.error err, t) ∧
      (t = s ∨ t = s.newCustom ⟨1, session, [.empty]⟩)) ∨
    (call.EnvMade ∧ ∃ services, customNewClient s session call =
      (.ok s.nextCustom, s.newCustom ⟨1, session, services⟩)) := by
  unfold customNewClient Call.EnvMade
  cases call.customAlloc with
  | false => exact .inl ⟨fun h => absurd h.1 Bool.false_ne_true, .mem, s, rfl, .inl rfl⟩
  | true =>
    cases call.whitelistBuf.getD [] with
    | nil => exact .inl ⟨fun h => h.2.1 rfl, .error, _, rfl, .inr rfl⟩
    | cons u us =>
      have hset := setServices_isSome (u :: us) [.empty]
      simp only [if_true]
      cases hs : setServices (u :: us) [.empty] with
      | none =>
        refine .inl ⟨fun h => ?_, .mem, _, rfl, .inr rfl⟩
        obtain ⟨services, hsome⟩ := hset.mpr h.2.2
        rw [hs] at hsome
        cases hsome
      | some services =>
        exact .inr ⟨⟨trivial, cons_ne_nil u us, hset.mp ⟨services, hs⟩⟩, services, rfl⟩

structure Wasted (s t : State) : Prop where
  wrappers : t.wrappers = s.wrappers
  credMap : t.credMap = s.credMap
  wraps : t.wraps = s.wraps
  sessions : t.sessions = s.sessions + 1
  destroyed : t.destroyed = update s.destroyed s.sessions (s.destroyed s.sessions + 1)
  customs : ∀ c, c < s.nextCustom → t.customs c = s.customs c
  customs_lt : ∀ c k, t.customs c = some k → c < t.nextCustom

theorem Owned.of_wasted (h : Owned s) (hw : Wasted s t) : Owned t := by
  have hcustom : ∀ p, 0 < s.wrappers.held (.env p) →
      t.customs (s.wraps p) = s.customs (s.wraps p) := by
    intro p hp
    obtain ⟨k, hk, -⟩ := h.custom p hp
    exact hw.customs _ (h.customs_lt _ k hk)
  have hfresh := h.fresh s.sessions (Nat.le_refl _)
  refine ⟨hw.wrappers ▸ h.wf, hw.credMap ▸ h.keys, hw.credMap ▸ h.envs, ?_, fun p hp => ?_,
    fun p q k k' hp hq hk hk' => ?_, fun n => ?_, fun n hn => ?_, hw.customs_lt⟩
  · rw [hw.wrappers, hw.credMap]
    exact h.cached
  · rw [hw.wrappers] at hp
    obtain ⟨k, hk, hrefs, hlt, hd⟩ := h.custom p hp
    rw [hw.wraps, hcustom p hp, hw.sessions, hw.destroyed]
    refine ⟨k, hk, hrefs, Nat.lt_succ_of_lt hlt, ?_⟩
    rw [update_of_ne (Nat.ne_of_lt hlt), hd]
  · rw [hw.wrappers] at hp hq
    rw [hw.wraps, hcustom p hp] at hk
    rw [hw.wraps, hcustom q hq] at hk'
    exact h.apart p q k k' hp hq hk hk'
  · rw [hw.destroyed, update_apply, hfresh]
    split_ifs
    · exact Nat.le_refl 1
    · exact h.once n
  · rw [hw.sessions] at hn
    rw [hw.destroyed, update_of_ne (by omega)]
    exact h.fresh n (by omega)

theorem newCustom_customs_of_lt {k : Custom} {c : Nat} (hc : c < s.nextCustom) :
    (s.newCustom k).customs c = s.customs c :=
  update_of_ne (Nat.ne_of_lt hc) ..

theorem Owned.newCustom_lt (h : Owned s) {k : Custom} (c : Nat) (k' : Custom)
    (hc : (s.newCustom k).customs c = some k') : c < s.nextCustom + 1 := by
  change update s.customs s.nextCustom (some k) c = some k' at hc
  rw [update_apply] at hc
  split_ifs at hc with heq
  · exact heq ▸ Nat.lt_succ_self _
  · exact Nat.lt_succ_of_lt (h.customs_lt c k' hc)

def State.stored (s : State) (clientId : ClientId) (services : List IDSet.Chunk)
    (w : ObjectQuota.State) : State where
  wrappers := w
  credMap := (clientId, s.wrappers.next) :: s.credMap
  customs := update s.customs s.nextCustom (some ⟨1, s.sessions, services⟩)
  nextCustom := s.nextCustom + 1
  wraps := update s.wraps s.wrappers.next s.nextCustom
  sessions := s.sessions + 1
  destroyed := s.destroyed

variable {clientId : ClientId}

theorem Owned.stored (h : Owned s) (hfind : s.find clientId = none) (services : List IDSet.Chunk)
    (hwf : ObjectQuota.WellFormed w)
    (hheld : ∀ q, w.held (.env q) = if q = s.wrappers.next then 2 else s.wrappers.held (.env q)) :
    Owned (s.stored clientId services w) := by
  have hnew : ∀ q, 0 < s.wrappers.held (.env q) → q ≠ s.wrappers.next := by
    intro q hq
    obtain ⟨e, he, -⟩ := held_pos_iff.mp hq
    exact Nat.ne_of_lt (h.wf.env_lt q e he)
  -- A wrapper in use is the new one or one that was in use before, with its environment.
  have hcases : ∀ q, 0 < w.held (.env q) →
      (q = s.wrappers.next ∧ (s.stored clientId services w).customs
        ((s.stored clientId services w).wraps q) = some ⟨1, s.sessions, services⟩) ∨
      (0 < s.wrappers.held (.env q) ∧ (s.stored clientId services w).customs
        ((s.stored clientId services w).wraps q) = s.customs (s.wraps q)) := by
    intro q hq
    rw [hheld] at hq
    by_cases hqp : q = s.wrappers.next
    · refine .inl ⟨hqp, ?_⟩
      simp [State.stored, hqp]
    rw [if_neg hqp] at hq
    obtain ⟨k, hk, -⟩ := h.custom q hq
    refine .inr ⟨hq, ?_⟩
    simp only [State.stored]
    rw [update_of_ne hqp, update_of_ne (Nat.ne_of_lt (h.customs_lt _ k hk))]
  have hkey : clientId ∉ s.credMap.map Prod.fst := by
    intro hmem
    obtain ⟨x, hx, rfl⟩ := mem_map.mp hmem
    exact absurd (lookup_eq_none_iff.mp hfind x hx) (by simp)
  refine ⟨hwf, nodup_cons.mpr ⟨hkey, h.keys⟩, nodup_cons.mpr ⟨?_, h.envs⟩, fun x hx => ?_,
    fun q hq => ?_, fun q r k k' hq hr hk hk' heq => ?_, h.once, fun n hn => ?_,
    h.newCustom_lt (k := ⟨1, s.sessions, services⟩)⟩
  · intro hmem
    obtain ⟨x, hx, hxp⟩ := mem_map.mp hmem
    exact hnew x.2 (h.cached x hx) hxp
  · change 0 < w.held (.env x.2)
    rw [hheld]
    rcases mem_cons.mp hx with rfl | hx
    · rw [if_pos rfl]
      exact Nat.two_pos
    · rw [if_neg (hnew x.2 (h.cached x hx))]
      exact h.cached x hx
  · rcases hcases q hq with ⟨-, hk⟩ | ⟨hq, hk⟩
    · exact ⟨_, hk, rfl, Nat.lt_succ_self _, h.fresh _ (Nat.le_refl _)⟩
    · obtain ⟨k, hk', hrefs, hlt, hd⟩ := h.custom q hq
      exact ⟨k, hk.trans hk', hrefs, Nat.lt_succ_of_lt hlt, hd⟩
  · -- The new session is not one of the older ones.
    have hold : ∀ q k, 0 < s.wrappers.held (.env q) → s.customs (s.wraps q) = some k →
        k.session < s.sessions := by
      intro q k hq hk
      obtain ⟨k', hk', -, hlt, -⟩ := h.custom q hq
      cases hk.symm.trans hk'
      exact hlt
    rcases hcases q hq with ⟨rfl, hkq⟩ | ⟨hq, hkq⟩ <;> rcases hcases r hr with ⟨rfl, hkr⟩ | ⟨hr, hkr⟩
    · rfl
    · cases hkq.symm.trans hk
      exact absurd (hold r k' hr (hkr.symm.trans hk')) (Nat.not_lt.mpr (Nat.le_of_eq heq))
    · cases hkr.symm.trans hk'
      exact absurd (hold q k hq (hkq.symm.trans hk)) (Nat.not_lt.mpr (Nat.le_of_eq heq.symm))
    · exact h.apart q r k k' hq hr (hkq.symm.trans hk) (hkr.symm.trans hk') heq
  · exact h.fresh n (Nat.le_of_succ_le hn)

inductive NewClient (call : Call) (s t : State) : Answer → Prop
  | refused {err : ObjectError} (hmade : ¬ call.Made) (hs : t = s) :
    NewClient call s t ⟨some err, none⟩
  | failed {err : ObjectError} (hmade : ¬ call.Made) (hw : Wasted s t) :
    NewClient call s t ⟨some err, none⟩
  | lost (hmade : call.Made) (hbad : ¬ call.Storable) (hw : Wasted s t) :
    NewClient call s t ⟨none, none⟩
  | stored (hmade : call.Made) (hgood : call.Storable) (services : List IDSet.Chunk)
    (w : ObjectQuota.State) (ht : t = s.stored call.clientId services w)
    (hwf : ObjectQuota.WellFormed w)
    (hheld : ∀ q, w.held (.env q) = if q = s.wrappers.next then 2 else s.wrappers.held (.env q)) :
    NewClient call s t ⟨none, some s.wrappers.next⟩

theorem add_of_not_storable {custom : Nat} (h : ¬ call.Storable) :
    add cfg s call custom = some (none, s) := by
  unfold add
  by_cases hid : call.clientId = []
  · rw [if_pos (by rw [hid]; rfl)]
  · rw [if_neg (by simpa using hid), if_neg fun halloc => h ⟨hid, halloc⟩]

theorem add_of_storable (cfg : Config) {custom : Nat} {k : Custom} (h : call.Storable)
    (hwf : ObjectQuota.WellFormed s.wrappers) (hfind : s.find call.clientId = none)
    (hk : s.customs custom = some k) :
    ∃ w, ObjectQuota.WellFormed w ∧
      (∀ q, w.held (.env q) = if q = s.wrappers.next then 2 else s.wrappers.held (.env q)) ∧
      add cfg s call custom = some (some s.wrappers.next, { s with
          wrappers := w
          credMap := (call.clientId, s.wrappers.next) :: s.credMap
          customs := update s.customs custom (some { k with refs := k.refs + 1 })
          wraps := update s.wraps s.wrappers.next custom }) := by
  set w₀ := ObjectQuota.envWrapperOpen s.wrappers call.root cfg.customInvoke
    cfg.maxQTEEObjectsPerClient cfg.qteeObjectQuota with hw₀
  have hself : w₀.envs s.wrappers.next = some ⟨1, 1, cfg.customInvoke, 1, cfg.qteeObjectQuota,
      cfg.maxQTEEObjectsPerClient⟩ := update_self ..
  have hheld₀ : ∀ q, w₀.held (.env q) =
      if q = s.wrappers.next then 1 else s.wrappers.held (.env q) :=
    ObjectQuota.held_env_update (e := ⟨1, 1, cfg.customInvoke, 1, cfg.qteeObjectQuota,
      cfg.maxQTEEObjectsPerClient⟩) rfl
  obtain ⟨w, hw⟩ : ∃ w, ObjectQuota.retain w₀ (.env s.wrappers.next) = some w :=
    ⟨_, by rw [ObjectQuota.retain, hself, map_some]⟩
  refine ⟨w, (hwf.envWrapperOpen ..).retain ?_ hw, fun q => ?_, ?_⟩
  · rw [hheld₀, if_pos rfl]
    exact Nat.one_ne_zero
  · rw [ObjectQuota.held_env_retain hw, hheld₀, hheld₀, if_pos rfl]
    split_ifs <;> rfl
  · unfold add
    rw [if_neg (by simpa using h.1), if_pos h.2]
    rw [State.find] at hfind
    simp only [envWrapperOpen, customRetain, hk, map_some, bind_some, ← hw₀,
      State.setCustom, State.find, hfind, retainEnv, hw, State.setWrappers]

theorem newClientEnv_cases (cfg : Config) (h : Owned s) (hfind : s.find call.clientId = none) :
    ∃ ans t, newClientEnv cfg s call = some (ans, t) ∧ NewClient call s t ans := by
  unfold newClientEnv
  cases hcred : call.newLASystem with
  | some err => exact ⟨_, _, rfl, .refused (fun hm => by simp [Call.Made, hcred] at hm) rfl⟩
  | none =>
    cases hses : call.createSession with
    | some err => exact ⟨_, _, rfl, .refused (fun hm => by simp [Call.Made, hses] at hm) rfl⟩
    | none =>
      dsimp only
      rcases customNewClient_cases { s with sessions := s.sessions + 1 } s.sessions call with
        ⟨hnot, err, t, heq, ht⟩ | ⟨hmade, services, heq⟩
      · rw [heq]
        refine ⟨_, _, rfl, .failed (fun hm => hnot hm.2.2) ?_⟩
        rcases ht with rfl | rfl
        · exact ⟨rfl, rfl, rfl, rfl, rfl, fun _ _ => rfl, h.customs_lt⟩
        · exact ⟨rfl, rfl, rfl, rfl, rfl, fun c hc => newCustom_customs_of_lt hc, h.newCustom_lt⟩
      · rw [heq]
        dsimp only
        set s₁ := ({ s with sessions := s.sessions + 1 } : State).newCustom
          ⟨1, s.sessions, services⟩ with hs₁
        have hk : s₁.customs s.nextCustom = some ⟨1, s.sessions, services⟩ := update_self ..
        by_cases hstore : call.Storable
        · obtain ⟨w, hwf, hheld, hadd⟩ := add_of_storable cfg (s := s₁) hstore h.wf hfind hk
          rw [hadd, bind_some]
          rw [customRelease]
          dsimp only
          rw [update_self]
          refine ⟨_, _, rfl, .stored ⟨hcred, hses, hmade⟩ hstore services w ?_ hwf hheld⟩
          simp only [State.setCustom, hs₁, State.newCustom, update_idem]
          rfl
        · rw [add_of_not_storable hstore, bind_some]
          dsimp only
          rw [customRelease, hk]
          refine ⟨_, _, rfl, .lost ⟨hcred, hses, hmade⟩ hstore ⟨rfl, rfl, rfl, rfl, rfl, ?_, ?_⟩⟩
          · intro c hc
            have hne : c ≠ s.nextCustom := Nat.ne_of_lt hc
            exact (update_of_ne hne ..).trans (newCustom_customs_of_lt hc)
          · intro c k hc
            change update s₁.customs s.nextCustom none c = some k at hc
            rw [update_apply] at hc
            split_ifs at hc
            exact h.newCustom_lt c k hc

theorem Owned.of_newClient (h : Owned s) (hfind : s.find call.clientId = none) {ans : Answer}
    (hnew : NewClient call s t ans) : Owned t := by
  cases hnew with
  | refused _ hs => exact hs ▸ h
  | failed _ hw | lost _ _ hw => exact h.of_wasted hw
  | stored _ _ services w ht hwf hheld =>
    rw [ht]
    exact h.stored hfind services hwf hheld

theorem mem_of_find (hfind : s.find clientId = some p) : (clientId, p) ∈ s.credMap := by
  obtain ⟨l₁, l₂, hl, -⟩ := lookup_eq_some_iff.mp hfind
  rw [hl]
  exact mem_append_right _ mem_cons_self

theorem find_of_mem (hkeys : (s.credMap.map Prod.fst).Nodup) (hx : (clientId, p) ∈ s.credMap) :
    s.find clientId = some p := by
  rw [State.find]
  generalize s.credMap = l at hkeys hx ⊢
  induction l with
  | nil => cases hx
  | cons y l ih =>
    rw [map_cons, nodup_cons] at hkeys
    rcases mem_cons.mp hx with rfl | hx
    · rw [lookup_cons, beq_self_eq_true]
    · have hne : clientId ≠ y.1 := fun heq => hkeys.1 (heq ▸ mem_map_of_mem hx)
      rw [lookup_cons, beq_false_of_ne hne]
      exact ih hkeys.2 hx

theorem find_none_of_sublist (hsub : t.credMap.Sublist s.credMap) (hfind : s.find clientId = none) :
    t.find clientId = none :=
  lookup_eq_none_iff.mpr fun x hx => lookup_eq_none_iff.mp hfind x (hsub.subset hx)

structure Found (s t : State) (found : Option Nat) : Prop where
  owned : Owned t
  credMap : t.credMap = s.credMap
  sessions : t.sessions = s.sessions
  objs : t.wrappers.objs = s.wrappers.objs
  held : ∀ q, t.wrappers.held (.env q) = s.wrappers.held (.env q) + if found = some q then 1 else 0
  same : found = none → t = s

theorem Owned.lookUp (h : Owned s) (clientId : ClientId) :
    ∃ t, lookUp s clientId = some (s.find clientId, t) ∧ Found s t (s.find clientId) := by
  unfold ClientEnv.lookUp
  cases hfind : s.find clientId with
  | none => exact ⟨s, rfl, h, rfl, rfl, rfl, fun _ => rfl, fun _ => rfl⟩
  | some p =>
    have hp : 0 < s.wrappers.held (.env p) := h.cached _ (mem_of_find hfind)
    obtain ⟨w, hw, hret⟩ := retainEnv_isSome hp
    dsimp only
    rw [hret]
    refine ⟨_, rfl, h.retainEnv hp hw, rfl, rfl, ?_, fun q => ?_, nofun⟩
    · obtain ⟨e, -, rfl⟩ := map_eq_some_iff.mp hw
      rfl
    · change w.held (.env q) = _
      rw [ObjectQuota.held_env_retain hw]
      by_cases hq : q = p
      · rw [if_pos hq, if_pos (by rw [hq]), hq]
      · rw [if_neg hq, if_neg fun heq => hq (Option.some.inj heq).symm, Nat.add_zero]

theorem Owned.of_cleanable (h : Owned s) {x : ClientId × Nat} (hx : x ∈ s.credMap)
    (hcl : cleanable s x = true) :
    s.wrappers.held (.env x.2) = 1 ∧ ∀ o ∈ s.wrappers.objs, o.parentWrapper ≠ x.2 := by
  obtain ⟨e, he, hpos⟩ := held_pos_iff.mp (h.cached x hx)
  have hun : e.refs ≤ 1 ∧ e.qteeObjectCount ≤ 1 := by
    simpa [cleanable, he, unused] using hcl
  have hrefs := h.wf.env_refs _ e he
  have hcount := h.wf.count _ e he
  refine ⟨by rw [ObjectQuota.held_env he]; omega, ?_⟩
  have hzero : ObjectQuota.liveObjs s.wrappers x.2 = 0 := by omega
  rw [ObjectQuota.liveObjs, countP_eq_zero] at hzero
  intro o ho
  simpa using hzero o ho

def Cleaned (s : State) (clientId : ClientId) (x : ClientId × Nat) : Prop :=
  ∃ found s₁ s₂, lookUp s clientId = some (found, s₁) ∧ cleanEnvs s₁ = some s₂ ∧
    x ∈ s₁.credMap ∧ x ∉ s₂.credMap

inductive Handed (cfg : Config) (call : Call) (s t : State) : Answer → Prop
  | noCredentials (hcred : call.noCredentials = true) (ht : t = s) :
    Handed cfg call s t ⟨some .error, none⟩
  | cached {p : Nat} (hcred : call.noCredentials = false) (hfind : s.find call.clientId = some p)
    (hmem : (call.clientId, p) ∈ t.credMap) (hlen : t.credMap.length ≤ s.credMap.length)
    (hheld : 2 ≤ t.wrappers.held (.env p))
    (hclean : ∀ x ∈ s.credMap, x ∉ t.credMap → Cleaned s call.clientId x) :
    Handed cfg call s t ⟨none, some p⟩
  | full (hcred : call.noCredentials = false) (hfind : s.find call.clientId = none)
    (hmap : t.credMap = s.credMap.filter fun x => !cleanable s x)
    (hlen : cfg.maxSystemClients ≤ t.credMap.length) (hses : t.sessions = s.sessions)
    (hclean : ∀ x ∈ s.credMap, x ∉ t.credMap → Cleaned s call.clientId x) :
    Handed cfg call s t ⟨some .noSlots, none⟩
  | made {u : State} {ans : Answer} (hcred : call.noCredentials = false)
    (hfind : s.find call.clientId = none) (hu : Owned u)
    (hmap : u.credMap = s.credMap.filter fun x => !cleanable s x)
    (hlen : u.credMap.length < cfg.maxSystemClients) (hses : u.sessions = s.sessions)
    (hclean : ∀ x ∈ s.credMap, x ∉ u.credMap → Cleaned s call.clientId x)
    (hnew : NewClient call u t ans) : Handed cfg call s t ans

theorem getClientEnv_cases (cfg : Config) (call : Call) (h : Owned s) :
    ∃ ans t, getClientEnv cfg s call = some (ans, t) ∧ Owned t ∧ Handed cfg call s t ans := by
  unfold getClientEnv
  cases hcred : call.noCredentials with
  | true => exact ⟨_, s, rfl, h, .noCredentials hcred rfl⟩
  | false =>
    obtain ⟨s₁, hlook, hfound⟩ := h.lookUp call.clientId
    obtain ⟨u, hclean, hu, hses, hmap, hsame⟩ := hfound.owned.cleanEnvs
    have hcleaned : ∀ x ∈ s.credMap, x ∉ u.credMap → Cleaned s call.clientId x :=
      fun x hx hnot => ⟨_, s₁, u, hlook, hclean, hfound.credMap ▸ hx, hnot⟩
    rw [if_neg Bool.false_ne_true, get, hlook, bind_some]
    dsimp only
    rw [hclean, map_some, bind_some]
    dsimp only
    cases hfind : s.find call.clientId with
    | some p =>
      have hmem : (call.clientId, p) ∈ s₁.credMap := hfound.credMap ▸ mem_of_find hfind
      have hheld : 2 ≤ s₁.wrappers.held (.env p) := by
        have hone := h.cached _ (mem_of_find hfind)
        rw [hfound.held, if_pos hfind]
        exact Nat.succ_le_succ hone
      have hkeep : ∀ x ∈ s₁.credMap, x.2 = p → cleanable s₁ x = false := by
        intro x hx hxp
        rw [← Bool.not_eq_true]
        intro hcl
        have hone := (hfound.owned.of_cleanable hx hcl).1
        rw [hxp] at hone
        omega
      refine ⟨_, u, rfl, hu, .cached hcred hfind ?_ ?_ ?_ hcleaned⟩
      · rw [hmap]
        exact mem_filter.mpr ⟨hmem, by rw [hkeep _ hmem rfl]; rfl⟩
      · rw [hmap, ← hfound.credMap]
        exact length_filter_le ..
      · rw [ObjectQuota.State.held, hsame p hkeep]
        exact hheld
    | none =>
      obtain rfl := hfound.same hfind
      have hfind' : u.find call.clientId = none :=
        find_none_of_sublist (hmap ▸ filter_sublist) hfind
      split_ifs with hlen
      · obtain ⟨ans, t, ht, hnew⟩ := newClientEnv_cases cfg hu hfind'
        exact ⟨ans, t, ht, hu.of_newClient hfind' hnew, .made hcred hfind hu hmap hlen hses
          hcleaned hnew⟩
      · exact ⟨_, u, rfl, hu, .full hcred hfind hmap (Nat.le_of_not_lt hlen) hses hcleaned⟩

theorem NewClient.credMap {ans : Answer} (h : NewClient call s t ans) :
    t.credMap = s.credMap ∨ ∃ p, ans.clientEnvObj = some p ∧
      t.credMap = (call.clientId, p) :: s.credMap := by
  cases h with
  | refused _ hs => exact .inl (by rw [hs])
  | failed _ hw | lost _ _ hw => exact .inl hw.credMap
  | stored _ _ _ _ ht => exact .inr ⟨_, rfl, by rw [ht]; rfl⟩

theorem Owned.clientStep (h : Owned s) {a : Action} (ha : ∀ call, a ≠ .getClientEnv call)
    (hs : step cfg s a = some t) : Owned t ∧ t.credMap = s.credMap := by
  cases a with
  | getClientEnv call => exact absurd rfl (ha call)
  | invoke w inv =>
    obtain ⟨-, hs⟩ := ite_none_left_eq_some.mp hs
    obtain ⟨w', hw, rfl⟩ := map_eq_some_iff.mp hs
    refine ⟨h.setWrappers (h.wf.step hw) fun q => ?_, rfl⟩
    rw [ObjectQuota.held_env_invoke hw]
  | retain w =>
    obtain ⟨-, hs⟩ := ite_none_left_eq_some.mp hs
    obtain ⟨w', hw, rfl⟩ := map_eq_some_iff.mp hs
    have hwf := h.wf.step hw
    obtain ⟨hheld, hw⟩ := ite_none_left_eq_some.mp hw
    cases w with
    | env p => exact ⟨h.retainEnv (Nat.pos_of_ne_zero hheld) hw, rfl⟩
    | obj i =>
      refine ⟨h.setWrappers hwf fun q => ?_, rfl⟩
      rw [ObjectQuota.held_env_retain_obj hw]
  | release w =>
    obtain ⟨hheld, hs⟩ := ite_none_left_eq_some.mp hs
    cases w with
    | env p =>
      rw [clientHeld] at hheld
      have hnot : s.wrappers.held (.env p) = 1 → p ∉ s.credMap.map Prod.snd := by
        intro hone hmem
        rw [if_pos hmem, hone] at hheld
        exact hheld rfl
      obtain ⟨u, hu, hown, hmap, -⟩ := h.releaseEnv (by omega) (List.Sublist.refl _) hnot
      cases hu.symm.trans hs
      rw [← hmap] at hown
      exact ⟨hown, hmap⟩
    | obj i =>
      obtain ⟨w', hw, rfl⟩ := map_eq_some_iff.mp hs
      have hwf := h.wf.step hw
      obtain ⟨-, hw⟩ := ite_none_left_eq_some.mp hw
      refine ⟨h.setWrappers hwf fun q => ?_, rfl⟩
      rw [ObjectQuota.held_env_release_obj hw]

theorem Owned.call_eq (h : Owned s) {ans : Answer} (hs : getClientEnv cfg s call = some (ans, t)) :
    Owned t ∧ Handed cfg call s t ans := by
  obtain ⟨ans', t', heq, hown, hcase⟩ := getClientEnv_cases cfg call h
  cases heq.symm.trans hs
  exact ⟨hown, hcase⟩

end Ownership

section Runs

variable {cfg : Config} {s t : State} {call : Call}

theorem Owned.step (h : Owned s) {a : Action} (hs : step cfg s a = some t) : Owned t := by
  cases a with
  | getClientEnv call =>
    obtain ⟨⟨ans, u⟩, hcall, rfl⟩ := map_eq_some_iff.mp hs
    exact (h.call_eq hcall).1
  | invoke | retain | release => exact (h.clientStep (by intro _ ha; cases ha) hs).1

theorem bound_step (h : Owned s) (hlen : s.credMap.length ≤ cfg.maxSystemClients) {a : Action}
    (hs : step cfg s a = some t) : t.credMap.length ≤ cfg.maxSystemClients := by
  cases a with
  | getClientEnv call =>
    obtain ⟨⟨ans, u⟩, hcall, rfl⟩ := map_eq_some_iff.mp hs
    have hclean : (s.credMap.filter fun x => !cleanable s x).length ≤ s.credMap.length :=
      length_filter_le ..
    cases (h.call_eq hcall).2 with
    | noCredentials _ ht => exact ht ▸ hlen
    | cached _ _ _ hle => exact Nat.le_trans hle hlen
    | full _ _ hmap => exact hmap ▸ Nat.le_trans hclean hlen
    | made _ _ _ _ hlt _ _ hnew =>
      rcases hnew.credMap with heq | ⟨p, -, heq⟩
      · exact heq ▸ Nat.le_of_lt hlt
      · rw [heq]
        exact hlt
  | invoke | retain | release => exact (h.clientStep (by intro _ ha; cases ha) hs).2 ▸ hlen

def Cleans (s : State) (a : Action) (x : ClientId × Nat) : Prop :=
  ∃ call, a = .getClientEnv call ∧ call.noCredentials = false ∧ Cleaned s call.clientId x

def Holds (s : State) (p : Nat) : Prop :=
  0 < clientHeld s (.env p) ∨ ∃ o ∈ s.wrappers.objs, o.parentWrapper = p ∧ 0 < o.held

theorem mem_of_not_cleans (h : Owned s) {a : Action} {x : ClientId × Nat} (hx : x ∈ s.credMap)
    (hn : ¬ Cleans s a x) (hs : step cfg s a = some t) : x ∈ t.credMap := by
  cases a with
  | getClientEnv call =>
    obtain ⟨⟨ans, u⟩, hcall, rfl⟩ := map_eq_some_iff.mp hs
    cases (h.call_eq hcall).2 with
    | noCredentials _ ht => exact ht ▸ hx
    | cached hcred _ _ _ _ hclean | full hcred _ _ _ _ hclean =>
      by_contra hnot
      exact hn ⟨call, rfl, hcred, hclean x hx hnot⟩
    | @made u _ hcred _ _ _ _ _ hclean hnew =>
      have hu : x ∈ u.credMap := by
        by_contra hnot
        exact hn ⟨call, rfl, hcred, hclean x hx hnot⟩
      rcases hnew.credMap with heq | ⟨p, -, heq⟩
      · exact heq ▸ hu
      · rw [heq]
        exact mem_cons_of_mem _ hu
  | invoke | retain | release => exact (h.clientStep (by intro _ ha; cases ha) hs).2 ▸ hx

theorem not_holds_of_cleans (h : Owned s) {a : Action} {x : ClientId × Nat} (hc : Cleans s a x) :
    ¬ Holds s x.2 := by
  obtain ⟨call, -, -, found, s₁, s₂, hlook, hclean, hx, hnot⟩ := hc
  obtain ⟨s₁', hlook', hfound⟩ := h.lookUp call.clientId
  cases hlook'.symm.trans hlook
  obtain ⟨u, hu, -, -, hmap, -⟩ := hfound.owned.cleanEnvs
  cases hu.symm.trans hclean
  have hcl : cleanable s₁ x = true := by
    by_contra hcl
    rw [hmap] at hnot
    exact hnot (mem_filter.mpr ⟨hx, by simp [hcl]⟩)
  obtain ⟨hone, hobjs⟩ := hfound.owned.of_cleanable hx hcl
  rw [hfound.credMap] at hx
  rw [hfound.held] at hone
  rintro (hheld | ⟨o, ho, hpar, -⟩)
  · have hmem : x.2 ∈ s.credMap.map Prod.snd := mem_map_of_mem hx
    rw [clientHeld, if_pos hmem] at hheld
    omega
  · exact hobjs o (hfound.objs ▸ ho) hpar

theorem mem_of_answered (h : Owned s) {p : Nat} {ret : Option ObjectError}
    (hs : getClientEnv cfg s call = some (⟨ret, some p⟩, t)) :
    (call.clientId, p) ∈ t.credMap ∧ ∀ q, s.find call.clientId = some q → p = q := by
  generalize hans : (⟨ret, some p⟩ : Answer) = ans at hs
  cases (h.call_eq hs).2 with
  | noCredentials => cases hans
  | cached _ hfind hmem =>
    cases hans
    exact ⟨hmem, fun q hq => Option.some.inj (hfind.symm.trans hq)⟩
  | full => cases hans
  | made _ hfind _ _ _ _ _ hnew =>
    refine ⟨?_, fun q hq => by rw [hfind] at hq; cases hq⟩
    cases hnew with
    | refused | failed | lost => cases hans
    | stored _ _ _ _ ht =>
      cases hans
      rw [ht]
      exact mem_cons_self

structure HandOut (cfg : Config) (s : State) : Prop where
  bound : s.credMap.length ≤ cfg.maxSystemClients
  same : ∀ call₁ call₂ s₁ s₂ s₃ p q as, getClientEnv cfg s call₁ = some (⟨none, some p⟩, s₁) →
    Run.Guarded (ClientEnv.step cfg) (fun u a => ¬ Cleans u a (call₁.clientId, p)) s₁ as s₂ →
    call₂.clientId = call₁.clientId →
    getClientEnv cfg s₂ call₂ = some (⟨none, some q⟩, s₃) → q = p
  kept : ∀ a x, Cleans s a x → ¬ Holds s x.2
  once : ∀ n, s.destroyed n ≤ 1

theorem Owned.handOut (h : Owned s) (hlen : s.credMap.length ≤ cfg.maxSystemClients) :
    HandOut cfg s where
  bound := hlen
  same call₁ call₂ s₁ s₂ s₃ p q as h₁ hrun hid h₂ := by
    have hown₁ := (h.call_eq h₁).1
    have hinv := hrun.invariant (fun u => Owned u ∧ (call₁.clientId, p) ∈ u.credMap)
      ⟨hown₁, (mem_of_answered h h₁).1⟩
      fun u a v hu hok hv => ⟨hu.1.step hv, mem_of_not_cleans hu.1 hu.2 hok hv⟩
    refine (mem_of_answered hinv.1 h₂).2 p ?_
    rw [hid]
    exact find_of_mem hinv.1.keys hinv.2
  kept _ _ hc := not_holds_of_cleans h hc
  once := h.once

/-- A call that answers OK stores an environment the caller then holds; one with an error stores
none and has destroyed the session it made, if any. -/
def CallSound (cfg : Config) (s : State) (call : Call) : Prop :=
  ∃ ans t, getClientEnv cfg s call = some (ans, t) ∧
    (ans.ret = none → ∃ p, ans.clientEnvObj = some p ∧ 0 < clientHeld t (.env p)) ∧
    (ans.ret ≠ none → ans.clientEnvObj = none ∧
      ∀ n, s.sessions ≤ n → n < t.sessions → t.destroyed n = 1)

/-- A client to be entered into the map has an id, and memory for its wrapper is found. -/
def Fits (cfg : Config) (s : State) (call : Call) : Prop :=
  call.noCredentials = false → s.find call.clientId = none →
    (s.credMap.filter fun x => !cleanable s x).length < cfg.maxSystemClients →
    call.Made → call.Storable

theorem Wasted.destroyed_new (hw : Wasted s t) (h : Owned s) {n : Nat} (hle : s.sessions ≤ n)
    (hlt : n < t.sessions) : t.destroyed n = 1 := by
  rw [hw.sessions] at hlt
  obtain rfl : n = s.sessions := by omega
  rw [hw.destroyed, update_self, h.fresh _ (Nat.le_refl _)]

theorem clientHeld_pos {p : Nat} (h : 2 ≤ s.wrappers.held (.env p)) :
    0 < clientHeld s (.env p) := by
  rw [clientHeld]
  split_ifs <;> omega

theorem Owned.callSound_iff (h : Owned s) : CallSound cfg s call ↔ Fits cfg s call := by
  obtain ⟨ans, t, hcall, -, hcase⟩ := getClientEnv_cases cfg call h
  have hans : CallSound cfg s call ↔
      (ans.ret = none → ∃ p, ans.clientEnvObj = some p ∧ 0 < clientHeld t (.env p)) ∧
      (ans.ret ≠ none → ans.clientEnvObj = none ∧
        ∀ n, s.sessions ≤ n → n < t.sessions → t.destroyed n = 1) := by
    constructor
    · rintro ⟨ans', t', heq, hsound⟩
      cases hcall.symm.trans heq
      exact hsound
    · exact fun hsound => ⟨ans, t, hcall, hsound⟩
  rw [hans]
  cases hcase with
  | noCredentials hcred ht =>
    subst ht
    refine iff_of_true ⟨nofun, fun _ => ⟨rfl, fun n hle hlt => absurd hlt (Nat.not_lt.mpr hle)⟩⟩ ?_
    intro hcred'
    rw [hcred] at hcred'
    cases hcred'
  | cached _ hfind _ _ hheld =>
    refine iff_of_true ⟨fun _ => ⟨_, rfl, clientHeld_pos hheld⟩, absurd rfl⟩ ?_
    intro _ hnone
    rw [hfind] at hnone
    cases hnone
  | full _ _ hmap hlen hses =>
    refine iff_of_true ⟨nofun, fun _ => ⟨rfl, fun n hle hlt => ?_⟩⟩ ?_
    · rw [hses] at hlt
      exact absurd hlt (Nat.not_lt.mpr hle)
    · intro _ _ hlt
      rw [hmap] at hlen
      exact absurd hlt (Nat.not_lt.mpr hlen)
  | made hcred hfind hu hmap hlt hses _ hnew =>
    rw [← hses]
    rw [hmap] at hlt
    cases hnew with
    | refused hmade hs =>
      subst hs
      exact iff_of_true ⟨nofun, fun _ => ⟨rfl, fun n hle hlt => absurd hlt (Nat.not_lt.mpr hle)⟩⟩
        fun _ _ _ hm => absurd hm hmade
    | failed hmade hw =>
      exact iff_of_true ⟨nofun, fun _ => ⟨rfl, fun n hle hlt => hw.destroyed_new hu hle hlt⟩⟩
        fun _ _ _ hm => absurd hm hmade
    | lost hmade hbad hw =>
      refine iff_of_false (fun hsound => ?_) fun hfits => hbad (hfits hcred hfind hlt hmade)
      obtain ⟨p, hp, -⟩ := hsound.1 rfl
      cases hp
    | stored hmade hgood _ _ ht _ hheld =>
      refine iff_of_true ⟨fun _ => ⟨_, rfl, clientHeld_pos ?_⟩, absurd rfl⟩ fun _ _ _ _ => hgood
      rw [ht, State.stored, hheld, if_pos rfl]

/-- What clients hold is alive, and a call hands out soundly exactly if it fits. -/
theorem clientEnv_handOut_iff {as : List Action} (h : Run.exec (step cfg) .init as = some s) :
    HandOut cfg s ∧ ∀ call, CallSound cfg s call ↔ Fits cfg s call := by
  have hinv := Run.exec_invariant (fun u => Owned u ∧ u.credMap.length ≤ cfg.maxSystemClients)
    ⟨owned_init, Nat.zero_le _⟩
    (fun u a v hu hv => ⟨hu.1.step hv, bound_step hu.1 hu.2 hv⟩) h
  exact ⟨hinv.1.handOut hinv.2, fun call => hinv.1.callSound_iff⟩

theorem owned_of_run {as : List Action} (h : Run.exec (step cfg) .init as = some s) : Owned s :=
  Run.exec_invariant Owned owned_init (fun _ _ _ hs ht => hs.step ht) h

def sampleConfig : Config where
  maxSystemClients := 12
  maxQTEEObjectsPerClient := 20
  qteeObjectQuota := 100
  customInvoke := 5

def sampleCall (clientId : ClientId) : Call where
  clientId := clientId
  credentialBuf := some [1]
  whitelistBuf := some [⟨7, true⟩]
  newLASystem := none
  createSession := none
  customAlloc := true
  wrapperAlloc := true
  root := some 9

def sampleRun : List Action :=
  [.getClientEnv (sampleCall [65]), .getClientEnv (sampleCall [65]), .release (.env 0),
    .release (.env 0), .getClientEnv (sampleCall [66])]

theorem owned_sample : ∃ s, Run.exec (step sampleConfig) .init sampleRun = some s ∧ Owned s :=
  ⟨_, rfl, owned_of_run (rfl : Run.exec (step sampleConfig) .init sampleRun = _)⟩

theorem clientEnv_handOut_sample :
    ∃ s, Run.exec (step sampleConfig) .init sampleRun = some s ∧ s.credMap = [([66], 1)] ∧
      s.destroyed 0 = 1 ∧ s.destroyed 1 = 0 ∧ HandOut sampleConfig s ∧
      CallSound sampleConfig s (sampleCall [67]) := by
  have hrun : ∃ s, Run.exec (step sampleConfig) .init sampleRun = some s := ⟨_, rfl⟩
  obtain ⟨s, hs⟩ := hrun
  have hfinal : s.credMap = [([66], 1)] ∧ s.destroyed 0 = 1 ∧ s.destroyed 1 = 0 := by
    cases hs
    exact ⟨rfl, rfl, rfl⟩
  obtain ⟨hout, hcall⟩ := clientEnv_handOut_iff hs
  refine ⟨s, hs, hfinal.1, hfinal.2.1, hfinal.2.2, hout, (hcall _).mpr fun _ _ _ _ => ?_⟩
  exact ⟨cons_ne_nil _ _, rfl⟩

/-- A client with an empty id is told OK and gets no environment. -/
theorem clientEnv_lost :
    ∃ t, getClientEnv sampleConfig .init (sampleCall []) = some (⟨none, none⟩, t) ∧
      ¬ CallSound sampleConfig .init (sampleCall []) := by
  refine ⟨_, rfl, ?_⟩
  rintro ⟨ans, t, heq, hsound, -⟩
  cases heq
  obtain ⟨p, hp, -⟩ := hsound rfl
  cases hp

end Runs

end MinkIpc.ClientEnv
