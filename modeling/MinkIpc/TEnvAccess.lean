import MinkIpc.TEnv
import Mathlib.Data.List.Nodup

/-! Every service that an env hands out was open to its caller. A call keeps a reference to the
module it was checked against. -/

namespace MinkIpc.TEnv

open List Option

variable {c : Config} {s s' : State}

section Ids

variable {id : UInt32}

theorem test_foldl_set {ids : List UInt32} {cs : List IDSet.Chunk} (h : IDSet.Ordered cs) :
    IDSet.test id (ids.foldl (fun cs id => IDSet.set id cs) cs) = true ↔
      id ∈ ids ∨ IDSet.test id cs = true := by
  induction ids generalizing cs with
  | nil => simp
  | cons first rest ih =>
    rw [foldl_cons, ih (h.set first), IDSet.test_set h, mem_cons]
    tauto

theorem IdRecord.test_iff (r : IdRecord) : IDSet.test id r.set = true ↔ id ∈ r.ids := by
  rw [r.filled, test_foldl_set IDSet.Built.empty.ordered, IDSet.test_empty]
  simp

end Ids

section Modules

variable {l l' : List TModule} {h : Holder}

def Stable (q : TModule → Bool) : Prop := ∀ m m' : TModule, m.key = m'.key → m.id = m'.id → q m = q m'

theorem stable_key (key : UInt32) : Stable fun m => m.key == key := by
  intro m m' hkey _
  simp [hkey]

theorem stable_id (id : Nat) : Stable fun m => m.id == id := by
  intro m m' _ hid
  simp [hid]

def Keeps (h : Holder) (l l' : List TModule) : Prop :=
  ∀ q, Stable q → ∀ m, l.find? q = some m → h ∈ m.refs → ∃ m', l'.find? q = some m' ∧
    m'.id = m.id ∧ m'.privileges = m.privileges ∧ h ∈ m'.refs

theorem Keeps.refl : Keeps h l l := fun _ _ m hm hh => ⟨m, hm, rfl, rfl, hh⟩

theorem keeps_append (new : List TModule) : Keeps h l (l ++ new) := by
  intro q _ m hm hh
  refine ⟨m, ?_, rfl, rfl, hh⟩
  rw [find?_append, hm]
  rfl

theorem keeps_filter {i : Nat} (hi : ∀ m ∈ l, m.id = i → h ∉ m.refs) :
    Keeps h l (l.filter fun m => m.id != i) := by
  intro q _ m hm hh
  refine ⟨m, ?_, rfl, rfl, hh⟩
  have hne : m.id ≠ i := fun heq => hi m (mem_of_find?_eq_some hm) heq hh
  obtain ⟨hqm, before, after, hl, hbefore⟩ := find?_eq_some_iff_append.mp hm
  rw [find?_filter, find?_eq_some_iff_append]
  refine ⟨by simp [hne, hqm], before, after, hl, fun a ha => ?_⟩
  have := hbefore a ha
  simp [this]

structure Edit (f : TModule → TModule) : Prop where
  id : ∀ m, (f m).id = m.id
  key : ∀ m, (f m).key = m.key
  privileges : ∀ m, (f m).privileges = m.privileges

variable {f : TModule → TModule}

theorem Stable.find_map {q : TModule → Bool} (hq : Stable q) (hf : Edit f) (i : Nat) {m : TModule}
    (hm : l.find? q = some m) :
    (l.map fun m => if m.id = i then f m else m).find? q = some (if m.id = i then f m else m) := by
  have hcomp : (q ∘ fun m => if m.id = i then f m else m) = q := by
    funext m
    rw [Function.comp_apply]
    split_ifs
    · exact hq _ _ (hf.key m) (hf.id m)
    · rfl
  rw [find?_map, hcomp, hm, map_some]

theorem keeps_map (hf : Edit f) (hrefs : ∀ m, h ∈ m.refs → h ∈ (f m).refs) (i : Nat) :
    Keeps h l (l.map fun m => if m.id = i then f m else m) := by
  intro q hq m hm hh
  refine ⟨if m.id = i then f m else m, hq.find_map hf i hm, ?_⟩
  split_ifs
  · exact ⟨hf.id m, hf.privileges m, hrefs m hh⟩
  · exact ⟨rfl, rfl, hh⟩

structure Distinct (s : State) : Prop where
  nodup : (s.tModList.map TModule.id).Nodup
  fresh : ∀ m ∈ s.tModList, m.id < s.nextId

/-- What an operation on a registered module leaves: everything but the references of `gone`. -/
structure Preserved (gone : Option Holder) (s s' : State) : Prop where
  distinct : Distinct s'
  keeps : ∀ h, gone ≠ some h → Keeps h s.tModList s'.tModList
  modules : ∀ m' ∈ s'.tModList, ∃ m ∈ s.tModList, m'.key = m.key ∧ m'.privileges = m.privileges
  sessions : ∀ session ∈ s'.sessionList, session ∈ s.sessionList
  calls : s'.calls = s.calls

theorem Preserved.destroySession {gone : Option Holder} (hp : Preserved gone s s')
    (session : Option Nat) : Preserved gone s (s'.destroySession session) := by
  cases session with
  | none => exact hp
  | some id =>
    exact ⟨⟨hp.distinct.nodup, hp.distinct.fresh⟩, hp.keeps, hp.modules,
      fun x hx => hp.sessions x (mem_of_mem_filter hx), hp.calls⟩

theorem preserved_modify {gone : Option Holder} (hs : Distinct s) (hf : Edit f)
    (hrefs : ∀ h, gone ≠ some h → ∀ m, h ∈ m.refs → h ∈ (f m).refs) (i : Nat) :
    Preserved gone s (s.modify i f) := by
  have hid : ∀ m : TModule, (if m.id = i then f m else m).id = m.id := by
    intro m
    split_ifs
    · exact hf.id m
    · rfl
  constructor
  · constructor
    · have hids : (s.modify i f).tModList.map TModule.id = s.tModList.map TModule.id := by
        simp [State.modify, hid]
      rw [hids]
      exact hs.nodup
    · intro m' hm'
      obtain ⟨m, hm, rfl⟩ := mem_map.mp hm'
      rw [hid]
      exact hs.fresh m hm
  · exact fun h hne => keeps_map hf (hrefs h hne) i
  · intro m' hm'
    obtain ⟨m, hm, rfl⟩ := mem_map.mp hm'
    refine ⟨m, hm, ?_⟩
    split_ifs
    · exact ⟨hf.key m, hf.privileges m⟩
    · exact ⟨rfl, rfl⟩
  · exact fun _ hx => hx
  · rfl

theorem edit_refs (f : List Holder → List Holder) : Edit fun m => { m with refs := f m.refs } :=
  ⟨fun _ => rfl, fun _ => rfl, fun _ => rfl⟩

theorem preserved_retain (hs : Distinct s) (m : TModule) (h : Holder) :
    Preserved none s (retain s m h) := by
  refine preserved_modify hs (edit_refs (h :: ·)) ?_ m.id
  exact fun _ _ _ hmem => mem_cons_of_mem h hmem

theorem preserved_shutdown (hs : Distinct s) (m : TModule) : Preserved none s (shutdown s m) := by
  refine Preserved.destroySession ?_ m.session
  refine preserved_modify hs ?_ ?_ m.id
  · exact ⟨fun _ => rfl, fun _ => rfl, fun _ => rfl⟩
  · exact fun _ _ _ hmem => hmem

theorem preserved_release (hs : Distinct s) {m : TModule} (hm : m ∈ s.tModList) (h : Holder) :
    Preserved (some h) s (release s m h) := by
  unfold release
  split_ifs with hlast
  · refine Preserved.destroySession ?_ m.session
    constructor
    · exact ⟨hs.nodup.sublist (filter_sublist.map _),
        fun m' hm' => hs.fresh m' (mem_of_mem_filter hm')⟩
    · intro h' hne
      refine keeps_filter fun m' hm' hid hh' => ?_
      have heq : m' = m := inj_on_of_nodup_map hs.nodup hm' hm hid
      have hother : h' ≠ h := fun heq => hne (by rw [heq])
      have hleft : h' ∈ m.refs.erase h := (mem_erase_of_ne hother).mpr (heq ▸ hh')
      rw [hlast] at hleft
      exact absurd hleft not_mem_nil
    · exact fun m' hm' => ⟨m', mem_of_mem_filter hm', rfl, rfl⟩
    · exact fun _ hx => hx
    · rfl
  · refine preserved_modify hs (edit_refs (·.erase h)) ?_ m.id
    intro h' hne m' hmem
    have hother : h' ≠ h := fun heq => hne (by rw [heq])
    exact (mem_erase_of_ne hother).mpr hmem

end Modules

section Calls

variable {t : Nat} {p p' : Pending} {l l' : List TModule}

structure Allowed (c : Config) (l : List TModule) (t : Nat) (p : Pending) : Prop where
  localCaller : p.call.callerType = .local → p.call.uid = c.ctRegisterModule ∨
    ∃ lpid m, p.call.lpid = .ok lpid ∧ l.find? (fun m => m.key == lpid) = some m ∧
      Holder.call t ∈ m.refs ∧ (isUIDSupported c p.call.uid = true ∨ p.call.uid ∈ m.privileges.ids)
  remoteCaller : p.call.callerType = .remote → isRemoteAllowed c p.call.uid = true
  held : ∀ id, p.tMod = some id → ∃ m, l.find? (fun m => m.id == id) = some m ∧ Holder.call t ∈ m.refs

theorem Allowed.mono (h : Allowed c l t p) (hkeeps : Keeps (.call t) l l') (hcall : p'.call = p.call)
    (htMod : p'.tMod = p.tMod) : Allowed c l' t p' := by
  constructor
  · intro hlocal
    rw [hcall] at hlocal ⊢
    rcases h.localCaller hlocal with huid | ⟨lpid, m, hlpid, hm, hheld, hok⟩
    · exact Or.inl huid
    · obtain ⟨m', hm', -, hpriv, hheld'⟩ := hkeeps _ (stable_key lpid) m hm hheld
      exact Or.inr ⟨lpid, m', hlpid, hm', hheld', hpriv ▸ hok⟩
  · intro hremote
    rw [hcall] at hremote ⊢
    exact h.remoteCaller hremote
  · intro id hid
    obtain ⟨m, hm, hheld⟩ := h.held id (htMod ▸ hid)
    obtain ⟨m', hm', -, -, hheld'⟩ := hkeeps _ (stable_id id) m hm hheld
    exact ⟨m', hm', hheld'⟩

structure Invariant (c : Config) (s : State) : Prop where
  distinct : Distinct s
  allowed : ∀ t p, s.calls t = some p → Allowed c s.tModList t p

theorem invariant_init : Invariant c init :=
  ⟨⟨nodup_nil, fun _ hm => absurd hm not_mem_nil⟩, fun _ _ h => nomatch h⟩

theorem Invariant.preserved (hs : Invariant c s) {gone : Option Holder}
    (hp : Preserved gone s s') (hgone : ∀ t p, s.calls t = some p → gone ≠ some (.call t)) :
    Invariant c s' := by
  refine ⟨hp.distinct, fun t p ht => ?_⟩
  rw [hp.calls] at ht
  exact (hs.allowed t p ht).mono (hp.keeps _ (hgone t p ht)) rfl rfl

theorem Invariant.putCall {p : Pending} (hs : Invariant c s) (hnew : Allowed c s.tModList t p) :
    Invariant c { s with calls := Function.update s.calls t (some p) } := by
  refine ⟨⟨hs.distinct.nodup, hs.distinct.fresh⟩, fun u q hu => ?_⟩
  by_cases hut : u = t
  · subst hut
    obtain rfl : p = q := by simpa using hu
    exact hnew
  · exact hs.allowed u q (by simpa [hut] using hu)

theorem Invariant.setCall (hs : Invariant c s) (ht : s.calls t = some p) (hcall : p'.call = p.call)
    (htMod : p'.tMod = p.tMod) : Invariant c (s.setCall t p') :=
  hs.putCall ((hs.allowed t p ht).mono Keeps.refl hcall htMod)

theorem Invariant.finish (hs : Invariant c s) (p : Pending) : Invariant c (finish s t p) := by
  have hdone : Invariant c { s with calls := Function.update s.calls t none } := by
    refine ⟨⟨hs.distinct.nodup, hs.distinct.fresh⟩, fun u q hu => ?_⟩
    by_cases hut : u = t
    · simp [hut] at hu
    · exact hs.allowed u q (by simpa [hut] using hu)
  unfold TEnv.finish
  rcases hm : p.tMod.bind s.findId with _ | m
  · exact hdone
  obtain ⟨id, -, hfind⟩ := bind_eq_some_iff.mp hm
  -- the reference that goes is that of the call that has just ended
  refine hdone.preserved (preserved_release hdone.distinct (mem_of_find?_eq_some hfind) _) ?_
  intro u q hu heq
  obtain rfl : t = u := by simpa using heq
  simp at hu

theorem registerTModule_cases (s : State) (r : Registration) :
    (registerTModule s r).2 = s ∨ (∃ m, (registerTModule s r).2 = retain s m .other) ∨
    ∃ m session, m.id = s.nextId ∧ m.key = r.key ∧ m.privileges.ids = r.privilegeIds ∧
      session.services.ids = r.serviceIds ∧ (registerTModule s r).2 = { s with
        tModList := s.tModList ++ [m]
        sessionList := s.sessionList ++ [session]
        nextId := s.nextId + 1 } := by
  unfold registerTModule
  split
  · exact Or.inr (Or.inl ⟨_, rfl⟩)
  split_ifs
  · exact Or.inl rfl
  · exact Or.inl rfl
  · exact Or.inl rfl
  · exact Or.inl rfl
  · exact Or.inl rfl
  · exact Or.inr (Or.inr ⟨_, _, rfl, rfl, rfl, rfl, rfl⟩)

theorem Invariant.register (hs : Invariant c s) (r : Registration) :
    Invariant c (registerTModule s r).2 := by
  rcases registerTModule_cases s r with heq | ⟨m, heq⟩ | ⟨m, session, hid, -, -, -, heq⟩
  · rw [heq]
    exact hs
  · rw [heq]
    exact hs.preserved (preserved_retain hs.distinct m _) fun _ _ _ => nofun
  · rw [heq]
    refine ⟨⟨?_, ?_⟩, fun t p ht => (hs.allowed t p ht).mono (keeps_append _) rfl rfl⟩
    · rw [map_append, nodup_append]
      refine ⟨hs.distinct.nodup, by simp, ?_⟩
      intro i hi i' hi' heq
      obtain ⟨m', hm', rfl⟩ := mem_map.mp hi
      have hfresh := hs.distinct.fresh m' hm'
      have hnew : i' = m.id := by simpa using hi'
      omega
    · exact forall_mem_append.mpr ⟨fun m' hm' => Nat.lt_succ_of_lt (hs.distinct.fresh m' hm'),
        forall_mem_singleton.mpr (hid ▸ Nat.lt_succ_self _)⟩

theorem findId_of_mem (hs : Distinct s) {m : TModule} (hm : m ∈ s.tModList) :
    s.tModList.find? (fun m' => m'.id == m.id) = some m := by
  rcases hfind : s.tModList.find? (fun m' => m'.id == m.id) with _ | m'
  · have hne := find?_eq_none.mp hfind m hm
    simp at hne
  · have hid : m'.id = m.id := by simpa using find?_some hfind
    have heq : m' = m := inj_on_of_nodup_map hs.nodup (mem_of_find?_eq_some hfind) hm hid
    exact hfind.trans (congrArg some heq)

theorem find_retain {q : TModule → Bool} (hq : Stable q) {m : TModule} {h : Holder}
    (hm : s.tModList.find? q = some m) :
    (retain s m h).tModList.find? q = some { m with refs := h :: m.refs } := by
  have hfind := hq.find_map (edit_refs (h :: ·)) m.id hm
  rwa [if_pos rfl] at hfind

variable {tMod : Option TModule} {call : Call}

theorem checkPrivilege_eq_ok {uid : UInt32} {m : TModule} (h : checkPrivilege c uid m = .ok tMod) :
    tMod = some m ∧ (isUIDSupported c uid = true ∨ uid ∈ m.privileges.ids) := by
  unfold checkPrivilege at h
  split_ifs at h with hsupported htest
  · exact ⟨(Except.ok.inj h).symm, Or.inl hsupported⟩
  · exact ⟨(Except.ok.inj h).symm, Or.inr (m.privileges.test_iff.mp htest)⟩

theorem checkLocal_eq_ok (h : checkLocal c s call = .ok tMod) :
    call.uid = c.ctRegisterModule ∧ tMod = none ∨ ∃ lpid m, call.lpid = .ok lpid ∧
      s.findTModule lpid = some m ∧ tMod = some m ∧
        (isUIDSupported c call.uid = true ∨ call.uid ∈ m.privileges.ids) := by
  unfold checkLocal at h
  split_ifs at h with huid
  · exact Or.inl ⟨huid, (Except.ok.inj h).symm⟩
  rcases hlpid : call.lpid with e | key
  · rw [hlpid] at h
    cases h
  rw [hlpid] at h
  change checkKey c s call.uid key = .ok tMod at h
  rcases hm : s.findTModule key with _ | m
  · rw [checkKey, hm] at h
    cases h
  · rw [checkKey, hm] at h
    obtain ⟨htMod, hok⟩ := checkPrivilege_eq_ok h
    exact Or.inr ⟨key, m, rfl, hm, htMod, hok⟩

theorem checkRemote_eq_ok {wrap : Except OpenError Unit} (h : checkRemote c call wrap = .ok tMod) :
    isRemoteAllowed c call.uid = true ∧ tMod = none := by
  unfold checkRemote at h
  split_ifs at h with hallowed
  rcases wrap with e | u
  · cases h
  · cases h
    exact ⟨by simpa using hallowed, rfl⟩

theorem Invariant.startLocal (hs : Invariant c s) (hlocal : call.callerType = .local)
    (h : checkLocal c s call = .ok tMod) :
    Invariant c (start c s t call tMod) := by
  rcases checkLocal_eq_ok h with ⟨huid, rfl⟩ | ⟨lpid, m, hlpid, hm, rfl, hok⟩
  · refine hs.putCall ⟨fun _ => Or.inl huid, fun hremote => ?_, fun _ hid => nomatch hid⟩
    exact absurd (hlocal.symm.trans hremote) (by decide)
  have hs' : Invariant c (retain s m (.call t)) :=
    hs.preserved (preserved_retain hs.distinct m _) fun _ _ _ => nofun
  refine hs'.putCall ⟨fun _ => Or.inr ?_, fun hremote => ?_, fun id hid => ?_⟩
  · exact ⟨lpid, _, hlpid, find_retain (stable_key lpid) hm, mem_cons_self, hok⟩
  · exact absurd (hlocal.symm.trans hremote) (by decide)
  · obtain rfl : m.id = id := Option.some.inj hid
    have hfind := findId_of_mem hs.distinct (mem_of_find?_eq_some hm)
    exact ⟨_, find_retain (stable_id m.id) hfind, mem_cons_self⟩

theorem Invariant.start (hs : Invariant c s) {call : Call} {wake wrap : Except OpenError Unit}
    {tMod : Option TModule} (h : enter c s call wake wrap = .ok tMod) :
    Invariant c (start c s t call tMod) := by
  unfold enter at h
  rcases wake with e | u
  · cases h
  rcases hcaller : call.callerType with _ | _
  · rw [hcaller] at h
    exact hs.startLocal hcaller h
  · rw [hcaller] at h
    obtain ⟨hallowed, rfl⟩ := checkRemote_eq_ok h
    refine hs.putCall ⟨fun hlocal => ?_, fun _ => hallowed, fun _ hid => nomatch hid⟩
    exact absurd (hcaller.symm.trans hlocal) (by decide)

end Calls

section Opening

variable {object : Nat}

theorem openSession_eq_ok {uid : UInt32} {answer : Except OpenError Nat} {id : Nat}
    (h : openSession s uid answer = .ok (.ofSession id object)) :
    ∃ session ∈ s.sessionList, session.id = id ∧ uid ∈ session.services.ids := by
  unfold openSession at h
  rcases hfind : s.sessionList.find? fun session => IDSet.test uid session.services.set with _ | session
  · rw [hfind] at h
    cases h
  rw [hfind] at h
  have htest : IDSet.test uid session.services.set = true := by simpa using find?_some hfind
  refine ⟨session, mem_of_find?_eq_some hfind, ?_, session.services.test_iff.mp htest⟩
  cases answer with
  | error e => cases h
  | ok object' =>
    cases h
    rfl

theorem minkHubLocalOpen_eq_ok {isLocal hasCred : Bool} {wrap : Except OpenError Unit}
    {uid : UInt32} {answer : Except OpenError Nat} {id : Nat}
    (h : minkHubLocalOpen s isLocal hasCred wrap uid answer = .ok (.ofSession id object)) :
    ∃ session ∈ s.sessionList, session.id = id ∧ uid ∈ session.services.ids := by
  unfold minkHubLocalOpen at h
  split_ifs at h
  · cases wrap with
    | error e => cases h
    | ok u => exact openSession_eq_ok h
  · exact openSession_eq_ok h

theorem tModuleRemoteOpen_ne_ofSession {m : TModule} {busy : Bool} {wrap : Except OpenError Unit}
    {answers : List (Except OpenError Nat)} {id : Nat} :
    tModuleRemoteOpen s m busy wrap answers ≠ .ok (.ofSession id object) := by
  unfold tModuleRemoteOpen minkHubRemoteOpen
  split_ifs
  · nofun
  · nofun
  · nofun
  · cases wrap with
    | error e => nofun
    | ok u =>
      cases askServers answers with
      | error e | ok object' => nofun

end Opening

section Steps

variable {a : Action} {answer : Option Reply}

inductive Effect (c : Config) (s : State) : Action → State → Option Reply → Prop
  | register (r : Registration) : Effect c s (.register r) (registerTModule s r).2 none
  | retain {id : Nat} {m : TModule} : Effect c s (.retain id) (retain s m .other) none
  | release {id : Nat} {m : TModule} (hm : m ∈ s.tModList) :
      Effect c s (.release id) (release s m .other) none
  | shutdown {id : Nat} {m : TModule} : Effect c s (.shutdown id) (shutdown s m) none
  | destroyHub : Effect c s .destroyHub { s with isValid := false } none
  | refused {a : Action} (call : Call) (e : OpenError) : Effect c s a s (some ⟨call, .error e⟩)
  | start {t : Nat} {call : Call} {wake wrap : Except OpenError Unit} {tMod : Option TModule}
      (h : enter c s call wake wrap = .ok tMod) :
      Effect c s (.open t call wake wrap) (start c s t call tMod) none
  | goOn {a : Action} {t : Nat} {p p' : Pending} (ht : s.calls t = some p) (hcall : p'.call = p.call)
      (htMod : p'.tMod = p.tMod) : Effect c s a (s.setCall t p') none
  | finish {a : Action} {t : Nat} {p : Pending} (ht : s.calls t = some p)
      {result : Except OpenError Service}
      (hresult : ∀ id object, result = .ok (.ofSession id object) →
        ∃ session ∈ s.sessionList, session.id = id ∧ p.call.uid ∈ session.services.ids) :
      Effect c s a (finish s t p) (some ⟨p.call, result⟩)

theorem effect_afterAttempt {t : Nat} {p : Pending} (ht : s.calls t = some p) :
    Effect c s a (afterAttempt c s t p).1 (afterAttempt c s t p).2 := by
  unfold afterAttempt
  split_ifs
  · exact .finish ht nofun
  · split
    · exact .goOn ht rfl rfl
    · exact .finish ht nofun
  · exact .goOn ht rfl rfl
  · exact .goOn ht rfl rfl

theorem effect_of_perform (h : perform c s a = some (s', answer)) : Effect c s a s' answer := by
  cases a with
  | register r =>
    cases h
    exact .register r
  | retain id =>
    simp only [perform, bind_eq_bind, bind_eq_some_iff] at h
    obtain ⟨m, hm, u, -, h⟩ := h
    cases h
    exact .retain
  | release id =>
    simp only [perform, bind_eq_bind, bind_eq_some_iff] at h
    obtain ⟨m, hm, u, -, h⟩ := h
    cases h
    exact .release (mem_of_find?_eq_some hm)
  | shutdown id =>
    simp only [perform, bind_eq_bind, bind_eq_some_iff] at h
    obtain ⟨m, hm, u, -, h⟩ := h
    cases h
    exact .shutdown
  | destroyHub =>
    cases h
    exact .destroyHub
  | «open» t call wake wrap =>
    simp only [perform, bind_eq_bind, bind_eq_some_iff] at h
    obtain ⟨u, -, h⟩ := h
    rcases henter : enter c s call wake wrap with e | tMod
    · rw [henter] at h
      cases h
      exact .refused call e
    · rw [henter] at h
      cases h
      exact .start henter
  | localOpen t wrap result =>
    simp only [perform, bind_eq_bind, bind_eq_some_iff] at h
    obtain ⟨p, hp, u, -, m, -, h⟩ := h
    rcases hopen : tModuleLocalOpen s m p.call wrap result with e | service
    · rw [hopen] at h
      have hnext : afterAttempt c s t p = (s', answer) := Option.some.inj h
      have heffect : Effect c s (.localOpen t wrap result) _ _ := effect_afterAttempt hp
      rwa [hnext] at heffect
    · rw [hopen] at h
      cases h
      refine .finish hp fun id object hservice => ?_
      exact minkHubLocalOpen_eq_ok (hopen.trans hservice)
  | load t result =>
    simp only [perform, bind_eq_bind, bind_eq_some_iff] at h
    obtain ⟨p, hp, u, -, h⟩ := h
    rcases hload : itProcessLoaderToITEnvError result with e | ⟨⟩
    · rw [hload] at h
      cases h
      exact .finish hp nofun
    · rw [hload] at h
      cases h
      exact .goOn hp rfl rfl
  | remoteOpen t busy wrap answers =>
    simp only [perform, bind_eq_bind, bind_eq_some_iff] at h
    obtain ⟨p, hp, u, -, m, -, h⟩ := h
    cases h
    refine .finish hp fun id object hservice => ?_
    exact absurd hservice tModuleRemoteOpen_ne_ofSession

theorem effect_of_step (h : step c s a = some s') : ∃ answer, Effect c s a s' answer := by
  obtain ⟨⟨s'', answer⟩, hperform, rfl⟩ := map_eq_some_iff.mp h
  exact ⟨answer, effect_of_perform hperform⟩

theorem Invariant.step (hs : Invariant c s) (h : Effect c s a s' answer) : Invariant c s' := by
  cases h with
  | register r => exact hs.register r
  | retain => exact hs.preserved (preserved_retain hs.distinct _ _) fun _ _ _ => nofun
  | release hm => exact hs.preserved (preserved_release hs.distinct hm _) fun _ _ _ => nofun
  | shutdown => exact hs.preserved (preserved_shutdown hs.distinct _) fun _ _ _ => nofun
  | destroyHub => exact ⟨⟨hs.distinct.nodup, hs.distinct.fresh⟩, hs.allowed⟩
  | refused _ _ => exact hs
  | start henter => exact hs.start henter
  | goOn ht hcall htMod => exact hs.setCall ht hcall htMod
  | finish _ _ => exact hs.finish _

theorem invariant_of_run {as : List Action} (h : Run.exec (step c) init as = some s) :
    Invariant c s :=
  Run.exec_invariant (Invariant c) invariant_init
    (fun _ _ _ hs hstep => hs.step (effect_of_step hstep).choose_spec) h

end Steps

section History

variable {a : Action} {as : List Action} {answer : Option Reply}

structure Recorded (as : List Action) (s : State) : Prop where
  modules : ∀ m ∈ s.tModList, ∃ r, Action.register r ∈ as ∧ r.key = m.key ∧
    r.privilegeIds = m.privileges.ids
  sessions : ∀ session ∈ s.sessionList, ∃ r, Action.register r ∈ as ∧
    r.serviceIds = session.services.ids

section

variable (h : Recorded as s)
include h

theorem Recorded.preserved {gone : Option Holder} (hp : Preserved gone s s') : Recorded as s' := by
  refine ⟨fun m' hm' => ?_, fun x hx => h.sessions x (hp.sessions x hx)⟩
  obtain ⟨m, hm, hkey, hpriv⟩ := hp.modules m' hm'
  rw [hkey, hpriv]
  exact h.modules m hm

theorem Recorded.snoc (a : Action) : Recorded (as ++ [a]) s := by
  constructor
  · intro m hm
    obtain ⟨r, hr, hrest⟩ := h.modules m hm
    exact ⟨r, mem_append_left _ hr, hrest⟩
  · intro x hx
    obtain ⟨r, hr, hrest⟩ := h.sessions x hx
    exact ⟨r, mem_append_left _ hr, hrest⟩

theorem Recorded.register (hs : Invariant c s) {r : Registration}
    (hr : Action.register r ∈ as) : Recorded as (registerTModule s r).2 := by
  rcases registerTModule_cases s r with heq | ⟨m, heq⟩ | ⟨m, session, -, hkey, hpriv, hservices, heq⟩
  · rw [heq]
    exact h
  · rw [heq]
    exact h.preserved (preserved_retain hs.distinct m _)
  · rw [heq]
    constructor
    · exact forall_mem_append.mpr
        ⟨h.modules, forall_mem_singleton.mpr ⟨r, hr, hkey.symm, hpriv.symm⟩⟩
    · exact forall_mem_append.mpr ⟨h.sessions, forall_mem_singleton.mpr ⟨r, hr, hservices.symm⟩⟩

theorem Recorded.finish (hs : Invariant c s) (t : Nat) (p : Pending) :
    Recorded as (finish s t p) := by
  unfold TEnv.finish
  rcases hm : p.tMod.bind s.findId with _ | m
  · exact ⟨h.modules, h.sessions⟩
  obtain ⟨id, -, hfind⟩ := bind_eq_some_iff.mp hm
  have hdone : Distinct { s with calls := Function.update s.calls t none } :=
    ⟨hs.distinct.nodup, hs.distinct.fresh⟩
  have hstart : Recorded as { s with calls := Function.update s.calls t none } :=
    ⟨h.modules, h.sessions⟩
  exact hstart.preserved (preserved_release hdone (mem_of_find?_eq_some hfind) _)

theorem Recorded.step (hs : Invariant c s) (heffect : Effect c s a s' answer) :
    Recorded (as ++ [a]) s' := by
  have h := h.snoc a
  cases heffect with
  | register r => exact h.register hs (by simp)
  | retain => exact h.preserved (preserved_retain hs.distinct _ _)
  | release hm => exact h.preserved (preserved_release hs.distinct hm _)
  | shutdown => exact h.preserved (preserved_shutdown hs.distinct _)
  | destroyHub => exact ⟨h.modules, h.sessions⟩
  | refused _ _ => exact h
  | @start t _ _ _ tMod _ =>
    cases tMod with
    | none => exact ⟨h.modules, h.sessions⟩
    | some m =>
      have h' := h.preserved (preserved_retain hs.distinct m (.call t))
      exact ⟨h'.modules, h'.sessions⟩
  | goOn _ _ _ => exact ⟨h.modules, h.sessions⟩
  | finish _ _ => exact h.finish hs _ _

end

theorem recorded_of_run (h : Run.exec (step c) init as = some s) : Recorded as s := by
  have hrun := Run.Guarded.of_exec h
  clear h
  induction hrun with
  | nil => exact ⟨fun _ hm => absurd hm not_mem_nil, fun _ hx => absurd hx not_mem_nil⟩
  | snoc hrun _ hstep ih =>
    exact ih.step (invariant_of_run hrun.exec) (effect_of_step hstep).choose_spec

end History

section Access

variable {a : Action} {as : List Action}

structure Permitted (c : Config) (as : List Action) (s : State) (call : Call) (service : Service) :
    Prop where
  localCaller : call.callerType = .local → call.uid = c.ctRegisterModule ∨
    ∃ lpid m r, call.lpid = .ok lpid ∧ s.findTModule lpid = some m ∧ Action.register r ∈ as ∧
      r.key = lpid ∧ r.privilegeIds = m.privileges.ids ∧
        (isUIDSupported c call.uid = true ∨ call.uid ∈ r.privilegeIds)
  remoteCaller : call.callerType = .remote → isRemoteAllowed c call.uid = true
  session : ∀ id object, service = .ofSession id object → ∃ session ∈ s.sessionList,
    session.id = id ∧ call.uid ∈ session.services.ids ∧
      ∃ r, Action.register r ∈ as ∧ r.serviceIds = session.services.ids

/-- Whoever is given a service was registered with the right to it. -/
theorem service_permitted {r : Reply} {service : Service}
    (hrun : Run.exec (step c) init as = some s) (hreply : reply c s a = some r)
    (hok : r.result = .ok service) : Permitted c as s r.call service := by
  have hrecorded := recorded_of_run hrun
  obtain ⟨⟨s', answer⟩, hperform, hanswer⟩ := bind_eq_some_iff.mp hreply
  have heffect := effect_of_perform hperform
  obtain rfl : answer = some r := hanswer
  cases heffect with
  | refused _ _ => cases hok
  | finish ht hresult =>
    have hallowed := (invariant_of_run hrun).allowed _ _ ht
    refine ⟨fun hlocal => ?_, hallowed.remoteCaller, fun id object hservice => ?_⟩
    · rcases hallowed.localCaller hlocal with huid | ⟨lpid, m, hlpid, hm, -, hprivileged⟩
      · exact Or.inl huid
      · obtain ⟨r, hr, hkey, hpriv⟩ := hrecorded.modules m (mem_of_find?_eq_some hm)
        have hmkey : m.key = lpid := by simpa using find?_some hm
        exact Or.inr ⟨lpid, m, r, hlpid, hm, hr, hkey.trans hmkey, hpriv, hpriv ▸ hprivileged⟩
    · obtain ⟨session, hmem, hid, huid⟩ := hresult id object (hok.trans (congrArg _ hservice))
      exact ⟨session, hmem, hid, huid, hrecorded.sessions session hmem⟩

def exampleConfig : Config := ⟨1, 2, 3, 4, 5, 6, 7, 8, false, [200]⟩

def exampleRegistration (key : UInt32) (serviceIds privilegeIds : List UInt32) : Action :=
  .register ⟨key, serviceIds, privilegeIds, true, true, true, true, true, true⟩

def exampleCall : Call := ⟨.local, 200, .ok 31, true⟩

def exampleRun : List Action :=
  [exampleRegistration 31 [100] [200], .open 0 exampleCall (.ok ()) (.ok ()),
    .localOpen 0 (.ok ()) (.ok 0), exampleRegistration 32 [200, 201] [], .release 0,
    .load 0 .ok]

theorem embedded_service_permitted : ∃ s, Run.exec (step exampleConfig) init exampleRun = some s ∧
    Permitted exampleConfig exampleRun s exampleCall (.ofSession 1 77) :=
  ⟨_, rfl, service_permitted (a := .localOpen 0 (.ok ()) (.ok 77))
    (r := ⟨exampleCall, .ok (.ofSession 1 77)⟩) rfl rfl rfl⟩

end Access

end MinkIpc.TEnv
