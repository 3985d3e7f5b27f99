import MinkIpc.BufferLayout
import MinkIpc.ObjectEncode

/-! Marshalling out that fails. The objects that were entered into the table before the failure stay
there, although the peer is never told their handles. -/

namespace MinkIpc

open Bytes Option

structure Footprint where
  words : Nat
  fds : Nat
  entered : Bool
  deriving DecidableEq, Repr

def MinkSocket.ownsDependency (sock : MinkSocket) (dependency : Option MSForwarder) : Bool :=
  dependency.any fun f => f.conn = sock.id

def MinkSocket.rulesWords (sock : MinkSocket) : Nat :=
  if verIndirectMem ≤ sock.version then numExtraArgsSpecialRules else 0

def memparcelWords : Nat := 1 + numExtraArgsPerMemparcel + numExtraArgsSpecialRules

def msMemFootprint (sock : MinkSocket) (m : MSMem) : Footprint :=
  if sock.isRemote then ⟨memparcelWords, 0, !sock.ownsDependency m.dependency⟩
  else ⟨1 + sock.rulesWords, 1, true⟩

def plainFootprint (sock : MinkSocket) : Object → Footprint
  | .null => ⟨1, 0, false⟩
  | .forwarder f => ⟨1, 0, f.conn ≠ sock.id⟩
  | _ => ⟨1, 0, true⟩

def callerFootprint (sock : MinkSocket) : Object → Footprint
  | .mem (.msMem m) => msMemFootprint sock m
  | .mem (.fdWrapper w) =>
    if sock.isRemote then ⟨memparcelWords, 0, true⟩
    else ⟨1 + sock.rulesWords, if sock.ownsDependency w.dependency then 0 else 1, false⟩
  | obj => plainFootprint sock obj

def calleeFootprint (sock : MinkSocket) : Object → Footprint
  | .mem (.msMem m) => msMemFootprint sock m
  | .mem (.fdWrapper w) =>
    if sock.isRemote then ⟨memparcelWords, 0, !sock.ownsDependency w.dependency⟩
    else ⟨1 + sock.rulesWords, 1, sock.ownsDependency w.dependency⟩
  | obj => plainFootprint sock obj

def ObjectTable.Full (hd : Handles) (t : Table) : Prop :=
  ∀ n, hd.generic ≤ n → n < hd.primordial → (t.objects n).isSome

def CannotShare (env : Env) (t : Table) (pos : Nat) : Object → Prop
  | .mem (.fdWrapper w) => w.confinement = .foreign ∨
      w.confinement = .none ∧ env.attachConfinement pos = false ∨
      retrieveMemObj t (.mem (.fdWrapper w)) = none ∧ env.wrappedMemparcelNew pos = none
  | .mem (.msMem _) => env.wrappedMemparcelNew pos = none
  | _ => False

def Object.isMem : Object → Bool
  | .mem _ => true
  | _ => false

def Refused (hd : Handles) (sock : MinkSocket) (env : Env) (t : Table) (foot : Footprint)
    (pos fds : Nat) (obj : Object) : Prop :=
  lxcomMaxArgs ≤ pos ∨ isPrimordialOrPrimordialFwd hd obj ∨
    obj.isMem ∧ sock.isRemote = false ∧ maxFds ≤ fds ∨
    foot.entered ∧ (t.Full hd ∨ sock.isRemote ∧ CannotShare env t pos obj)

structure Passed (hd : Handles) (foot : Footprint) (st st' : OutState) : Prop where
  pos : st'.pos = st.pos + foot.words
  fds : st'.fds.length = st.fds.length + foot.fds
  kept : foot.entered = false → st'.table = st.table
  entered : foot.entered = true → ∃ n obj, st.table.addObject hd obj = some (n, st'.table)

section Passed

variable {hd : Handles} {words fds : Nat} {st st' : OutState}

theorem Passed.of_kept (hpos : st'.pos = st.pos + words)
    (hfds : st'.fds.length = st.fds.length + fds) (htable : st'.table = st.table) :
    Passed hd ⟨words, fds, false⟩ st st' where
  pos := hpos
  fds := hfds
  kept _ := htable
  entered h := absurd h Bool.false_ne_true

theorem Passed.of_entered {n : Nat} {obj : Object} {t : Table}
    (hadd : st.table.addObject hd obj = some (n, t)) (hpos : st'.pos = st.pos + words)
    (hfds : st'.fds.length = st.fds.length + fds) (htable : st'.table = t) :
    Passed hd ⟨words, fds, true⟩ st st' where
  pos := hpos
  fds := hfds
  kept h := absurd h.symm Bool.false_ne_true
  entered _ := ⟨n, obj, htable ▸ hadd⟩

end Passed

structure Treats (hd : Handles) (refused : Prop) (foot : Footprint) (st : OutState)
    (r : Outcome ObjectError OutState) : Prop where
  error : refused → ∃ e st', r = .error e st' ∧ st'.table = st.table
  ok : ¬ refused → ∃ st', r = .ok st' ∧ Passed hd foot st st'

section Treats

variable {hd : Handles} {refused refused' : Prop} {foot : Footprint} {st st' : OutState}
  {r : Outcome ObjectError OutState} {e : ObjectError}

theorem Treats.congr (h : Treats hd refused foot st r) (hiff : refused ↔ refused') :
    Treats hd refused' foot st r :=
  ⟨fun href => h.error (hiff.mpr href), fun href => h.ok fun h' => href (hiff.mp h')⟩

theorem Treats.refuse (href : refused) : Treats hd refused foot st (.error e st) :=
  ⟨fun _ => ⟨e, st, rfl, rfl⟩, absurd href⟩

theorem Treats.accept (href : ¬ refused) (hp : Passed hd foot st st') :
    Treats hd refused foot st (.ok st') :=
  ⟨fun h => absurd h href, fun _ => ⟨st', rfl, hp⟩⟩

end Treats

section Scenarios

variable {hd : Handles} {sock : MinkSocket} {env : Env} {base numFds objFlag : Nat} {obj : Object}
  {st : OutState}

theorem full_iff {t : Table} : t.addObject hd obj = none ↔ t.Full hd :=
  ObjectTable.addObject_eq_none_iff

theorem exists_addObject {t : Table} (h : ¬ t.Full hd) (obj : Object) :
    ∃ n t', t.addObject hd obj = some (n, t') := by
  cases hadd : t.addObject hd obj with
  | none => exact absurd (full_iff.mp hadd) h
  | some r => exact ⟨r.1, r.2, rfl⟩

theorem treats_genericObject : ∃ r, marshalOutGenericObject hd base objFlag obj st = some r ∧
      Treats hd (st.table.Full hd) ⟨1, 0, true⟩ st r := by
  unfold marshalOutGenericObject
  by_cases hfull : st.table.Full hd
  · rw [full_iff.mpr hfull]
    exact ⟨_, rfl, .refuse hfull⟩
  · obtain ⟨n, t', hadd⟩ := exists_addObject hfull obj
    rw [hadd]
    exact ⟨_, rfl, .accept hfull (.of_entered hadd rfl rfl rfl)⟩

def dependencyWords (sock : MinkSocket) (flags : Nat) : Nat :=
  (if hasFlag flags memparcelObject then
    numExtraArgsPerMemparcel + numExtraArgsSpecialRules else 0) +
  (if verIndirectMem ≤ sock.version && hasFlag flags descriptorObject then
    numExtraArgsSpecialRules else 0)

theorem forwardMemDep_of_owns (base : Nat) (st : OutState) (flags : Nat)
    {dependency : Option MSForwarder} (h : sock.ownsDependency dependency = true) :
    ∃ st', marshalOutForwardMemDep sock base st dependency flags = some st' ∧
      Passed hd ⟨1 + dependencyWords sock flags, 0, false⟩ st st' := by
  cases dependency with
  | none => simp [MinkSocket.ownsDependency] at h
  | some f =>
    have hf : f.conn = sock.id := by simpa [MinkSocket.ownsDependency] using h
    unfold marshalOutForwardMemDep dependencyWords
    rw [bind_some]
    split_ifs <;> refine ⟨_, rfl, .of_kept ?_ rfl rfl⟩ <;>
      simp only [OutState.skip, OutState.word] <;> omega

theorem forwardMemDep_of_not_owns (base : Nat) (st : OutState) (flags : Nat)
    {dependency : Option MSForwarder} (h : sock.ownsDependency dependency = false) :
    marshalOutForwardMemDep sock base st dependency flags = none := by
  cases dependency with
  | none => rfl
  | some f =>
    have hf : f.conn ≠ sock.id := by simpa [MinkSocket.ownsDependency] using h
    rw [marshalOutForwardMemDep, bind_some, if_neg hf]

theorem dependencyWords_memparcel (sock : MinkSocket) (flag : Nat)
    (h : flag = callerObject ∨ flag = calleeObject) :
    1 + dependencyWords sock (flag ||| memparcelObject) = memparcelWords := by
  have hmem : hasFlag (flag ||| memparcelObject) memparcelObject = true := by
    rcases h with rfl | rfl <;> decide
  have hdesc : hasFlag (flag ||| memparcelObject) descriptorObject = false := by
    rcases h with rfl | rfl <;> decide
  simp [dependencyWords, hmem, hdesc, memparcelWords, Nat.add_assoc]

theorem dependencyWords_descriptor (sock : MinkSocket) :
    dependencyWords sock (if verIndirectMem ≤ sock.version then calleeObject ||| descriptorObject
      else calleeObject) = sock.rulesWords := by
  unfold dependencyWords MinkSocket.rulesWords
  by_cases hver : verIndirectMem ≤ sock.version
  · have hmem : hasFlag (calleeObject ||| descriptorObject) memparcelObject = false := by decide
    have hdesc : hasFlag (calleeObject ||| descriptorObject) descriptorObject = true := by decide
    simp [hver, hmem, hdesc]
  · have hmem : hasFlag calleeObject memparcelObject = false := by decide
    simp [hver, hmem]

theorem OutState.chunks_table (base flag n v : Nat) (st : OutState) :
    (OutState.chunks base flag n v st).table = st.table := by
  induction n generalizing v st with
  | zero => rfl
  | succ n ih => exact ih _ _

theorem localGenericMem_passed (sock : MinkSocket) (base : Nat) (st : OutState) (w : FdWrapper) :
    Passed hd ⟨1 + sock.rulesWords, 1, false⟩ st (marshalOutLocalGenericMem sock base st w) := by
  unfold marshalOutLocalGenericMem MinkSocket.rulesWords
  split_ifs
  · refine .of_kept ?_ ?_ (OutState.chunks_table _ _ _ _ _)
    · rw [OutState.chunks_pos]
      simp only [OutState.word]
      omega
    · simp [OutState.chunks_fds, OutState.word]
  · exact .of_kept rfl (by simp [OutState.word]) rfl

theorem treats_callerLocalGenericMem (hlocal : sock.isRemote = false) (w : FdWrapper) :
    ∃ r, marshalOutCallerLocalGenericMem sock base numFds (.mem (.fdWrapper w)) st = some r ∧
      Treats hd (numFds ≤ st.fds.length) (callerFootprint sock (.mem (.fdWrapper w))) st r := by
  have hfoot : callerFootprint sock (.mem (.fdWrapper w)) =
      ⟨1 + sock.rulesWords, if sock.ownsDependency w.dependency then 0 else 1, false⟩ := by
    simp [callerFootprint, hlocal]
  rw [hfoot]
  unfold marshalOutCallerLocalGenericMem
  rw [FdWrapperFromObject, bind_some, hlocal]
  by_cases hfds : numFds ≤ st.fds.length
  · rw [if_pos hfds]
    exact ⟨_, rfl, .refuse hfds⟩
  rw [if_neg hfds]
  dsimp only
  cases hown : sock.ownsDependency w.dependency with
  | true =>
    obtain ⟨st', hst', hpassed⟩ := forwardMemDep_of_owns base st
      (if verIndirectMem ≤ sock.version then calleeObject ||| descriptorObject
        else calleeObject) hown
    rw [dependencyWords_descriptor] at hpassed
    rw [hst']
    exact ⟨_, rfl, .accept hfds hpassed⟩
  | false =>
    rw [forwardMemDep_of_not_owns base st _ hown]
    exact ⟨_, rfl, .accept hfds (localGenericMem_passed sock base st w)⟩

theorem treats_retainLocalGenericMemDep (w : FdWrapper) :
    Treats hd (sock.ownsDependency w.dependency = true ∧ st.table.Full hd)
      ⟨0, 0, sock.ownsDependency w.dependency⟩ st
      (marshalOutRetainLocalGenericMemDep hd sock base st w) := by
  unfold marshalOutRetainLocalGenericMemDep MinkSocket.ownsDependency
  cases w.dependency with
  | none => exact ⟨fun h => by simp at h, fun _ => ⟨_, rfl, .of_kept rfl rfl rfl⟩⟩
  | some f =>
    dsimp only [any_some]
    by_cases hf : f.conn = sock.id
    · rw [if_pos hf, decide_eq_true hf]
      by_cases hfull : st.table.Full hd
      · rw [full_iff.mpr hfull]
        exact .refuse ⟨rfl, hfull⟩
      · obtain ⟨n, t', hadd⟩ := exists_addObject hfull (.forwarder f)
        rw [hadd]
        exact ⟨fun h => absurd h.2 hfull, fun _ => ⟨_, rfl, .of_entered hadd rfl rfl rfl⟩⟩
    · rw [if_neg hf, decide_eq_false hf]
      exact ⟨fun h => absurd h.1 Bool.false_ne_true, fun _ => ⟨_, rfl, .of_kept rfl rfl rfl⟩⟩

theorem Treats.after {refused : Prop} {words fds : Nat} {entered : Bool} {st₁ : OutState}
    {r : Outcome ObjectError OutState} (hpassed : Passed hd ⟨words, fds, false⟩ st st₁)
    (h : Treats hd refused ⟨0, 0, entered⟩ st₁ r) :
    Treats hd refused ⟨words, fds, entered⟩ st r := by
  have htable := hpassed.kept rfl
  refine ⟨fun href => ?_, fun href => ?_⟩
  · obtain ⟨e, st', hr, hst'⟩ := h.error href
    exact ⟨e, st', hr, hst'.trans htable⟩
  · obtain ⟨st', hr, hp⟩ := h.ok href
    exact ⟨st', hr, hp.pos.trans hpassed.pos, hp.fds.trans hpassed.fds,
      fun he => (hp.kept he).trans htable, fun he => htable ▸ hp.entered he⟩

theorem treats_calleeLocalGenericMem (hlocal : sock.isRemote = false) (w : FdWrapper) :
    ∃ r, marshalOutCalleeLocalGenericMem hd sock base numFds (.mem (.fdWrapper w)) st = some r ∧
      Treats hd (numFds ≤ st.fds.length ∨
          sock.ownsDependency w.dependency = true ∧ st.table.Full hd)
        (calleeFootprint sock (.mem (.fdWrapper w))) st r := by
  have hfoot : calleeFootprint sock (.mem (.fdWrapper w)) =
      ⟨1 + sock.rulesWords, 1, sock.ownsDependency w.dependency⟩ := by
    simp [calleeFootprint, hlocal]
  rw [hfoot]
  unfold marshalOutCalleeLocalGenericMem
  rw [FdWrapperFromObject, bind_some, hlocal, if_neg Bool.false_ne_true]
  split_ifs with hfds
  · exact ⟨_, rfl, .refuse (.inl hfds)⟩
  · have hpassed : Passed hd _ st _ := localGenericMem_passed sock base st w
    refine ⟨_, rfl, (Treats.after hpassed (treats_retainLocalGenericMemDep w)).congr ?_⟩
    rw [hpassed.kept rfl, or_iff_right hfds]

theorem treats_localMSMem (hlocal : sock.isRemote = false) (m : MSMem) :
    ∃ r, marshalOutLocalMSMem hd sock base numFds (.mem (.msMem m)) st = some r ∧
      Treats hd (numFds ≤ st.fds.length ∨ st.table.Full hd) (msMemFootprint sock m) st r := by
  have hfoot : msMemFootprint sock m = ⟨1 + sock.rulesWords, 1, true⟩ := by
    simp [msMemFootprint, hlocal]
  rw [hfoot]
  unfold marshalOutLocalMSMem
  rw [MSMemFromObject, bind_some, hlocal, if_neg Bool.false_ne_true]
  by_cases hfds : numFds ≤ st.fds.length
  · rw [if_pos hfds]
    exact ⟨_, rfl, .refuse (.inl hfds)⟩
  rw [if_neg hfds]
  by_cases hfull : st.table.Full hd
  · rw [full_iff.mpr hfull]
    exact ⟨_, rfl, .refuse (.inr hfull)⟩
  obtain ⟨n, t', hadd⟩ := exists_addObject hfull (.mem (.msMem m))
  rw [hadd]
  unfold MinkSocket.rulesWords
  split_ifs
  · refine ⟨_, rfl, .accept (not_or.mpr ⟨hfds, hfull⟩) (.of_entered hadd ?_ ?_ ?_)⟩
    · rw [OutState.chunks_pos]
      simp only [OutState.word]
      omega
    · simp [OutState.chunks_fds, OutState.word]
    · rfl
  · exact ⟨_, rfl, .accept (not_or.mpr ⟨hfds, hfull⟩)
      (.of_entered hadd rfl (by simp [OutState.word]) rfl)⟩

theorem retrieveMemObj_isMemparcel {t : Table} {o : Object} (h : retrieveMemObj t obj = some o) :
    ∃ attached mp, o = .wrappedMemparcel attached mp := by
  obtain ⟨fd, -, hfind⟩ := bind_eq_some_iff.mp h
  obtain ⟨n, -, hat⟩ := List.exists_of_findSome?_eq_some hfind
  split at hat
  · split_ifs at hat
    cases hat
    exact ⟨_, _, rfl⟩
  · cases hat

theorem populate_of_memparcel {rules mp : Nat} {attached a : MemObj}
    (h : retrieveMemObj st.table obj = some (.wrappedMemparcel a mp) ∨
      retrieveMemObj st.table obj = none ∧ env.wrappedMemparcelNew st.pos = some mp ∧
        a = attached) :
    Treats hd (st.table.Full hd) ⟨memparcelWords, 0, true⟩ st
      (marshalOutPopulateWrappedMemparcel hd env base objFlag obj st rules attached) := by
  have hpopulate : marshalOutPopulateWrappedMemparcel hd env base objFlag obj st rules attached =
      (st.table.addObject hd (.wrappedMemparcel a mp)).elim (.error .kmem st) fun r =>
        .ok ((({ st with table := r.2 }.word base (objFlag ||| memparcelObject) r.1).chunks base
          memparcelInfo numExtraArgsPerMemparcel mp).chunks base memparcelSpecialRules
          numExtraArgsSpecialRules rules) := by
    rcases h with h | ⟨h, hnew, rfl⟩
    · simp only [marshalOutPopulateWrappedMemparcel, h]
      cases st.table.addObject hd (.wrappedMemparcel a mp) <;> rfl
    · simp only [marshalOutPopulateWrappedMemparcel, h, hnew, map_some]
      cases st.table.addObject hd (.wrappedMemparcel a mp) <;> rfl
  rw [hpopulate]
  by_cases hfull : st.table.Full hd
  · rw [full_iff.mpr hfull]
    exact .refuse hfull
  obtain ⟨n, t', hadd⟩ := exists_addObject hfull (.wrappedMemparcel a mp)
  rw [hadd]
  refine .accept hfull (.of_entered hadd ?_ ?_ ?_)
  · simp only [OutState.chunks_pos, OutState.word, memparcelWords]
    omega
  · simp [OutState.chunks_fds, OutState.word]
  · simp [OutState.chunks_table, OutState.word]

theorem treats_populateWrappedMemparcel (rules : Nat) (attached : MemObj) :
    Treats hd (st.table.Full hd ∨
        retrieveMemObj st.table obj = none ∧ env.wrappedMemparcelNew st.pos = none)
      ⟨memparcelWords, 0, true⟩ st
      (marshalOutPopulateWrappedMemparcel hd env base objFlag obj st rules attached) := by
  cases hret : retrieveMemObj st.table obj with
  | some o =>
    obtain ⟨a, mp, rfl⟩ := retrieveMemObj_isMemparcel hret
    exact (populate_of_memparcel (.inl hret)).congr (by simp)
  | none =>
    cases hnew : env.wrappedMemparcelNew st.pos with
    | some mp => exact (populate_of_memparcel (.inr ⟨hret, hnew, rfl⟩)).congr (by simp)
    | none =>
      simp only [marshalOutPopulateWrappedMemparcel, hret, hnew]
      exact .refuse (.inr (by simp))

theorem Treats.mapError {refused : Prop} {foot : Footprint} {r : Outcome ObjectError OutState}
    (h : Treats hd refused foot st r) (f : ObjectError → ObjectError) :
    Treats hd refused foot st (r.mapError f) := by
  refine ⟨fun href => ?_, fun href => ?_⟩
  · obtain ⟨e, st', rfl, hst'⟩ := h.error href
    exact ⟨_, st', rfl, hst'⟩
  · obtain ⟨st', rfl, hp⟩ := h.ok href
    exact ⟨st', rfl, hp⟩

theorem treats_remoteMSMem (hremote : sock.isRemote = true) (m : MSMem) {flagDep : Nat}
    (hflag : flagDep = callerObject ∨ flagDep = calleeObject) :
    ∃ r, marshalOutRemoteMSMem hd sock env base objFlag (.mem (.msMem m)) st flagDep = some r ∧
      Treats hd ((msMemFootprint sock m).entered = true ∧
          (st.table.Full hd ∨ CannotShare env st.table st.pos (.mem (.msMem m))))
        (msMemFootprint sock m) st r := by
  have hfoot : msMemFootprint sock m = ⟨memparcelWords, 0, !sock.ownsDependency m.dependency⟩ := by
    simp [msMemFootprint, hremote]
  rw [hfoot]
  unfold marshalOutRemoteMSMem
  rw [MSMemFromObject, bind_some, hremote]
  cases hown : sock.ownsDependency m.dependency with
  | true =>
    obtain ⟨st', hst', hpassed⟩ := forwardMemDep_of_owns base st (flagDep ||| memparcelObject) hown
    rw [dependencyWords_memparcel sock flagDep hflag] at hpassed
    rw [hst']
    exact ⟨_, rfl, fun h => absurd h.1 (by simp), fun _ => ⟨_, rfl, hpassed⟩⟩
  | false =>
    rw [forwardMemDep_of_not_owns base st _ hown]
    refine ⟨_, rfl, ((treats_populateWrappedMemparcel _ _).mapError _).congr ?_⟩
    simp [CannotShare, retrieveMemObj, isWrappedFd, FdWrapperFromObject]

theorem treats_remoteGenericMem (hremote : sock.isRemote = true) (w : FdWrapper) {entered : Bool}
    (hentered : entered = !(decide (objFlag = calleeObject) && sock.ownsDependency w.dependency)) :
    ∃ r, marshalOutRemoteGenericMem hd sock env base objFlag (.mem (.fdWrapper w)) st = some r ∧
      Treats hd (entered = true ∧
          (st.table.Full hd ∨ CannotShare env st.table st.pos (.mem (.fdWrapper w))))
        ⟨memparcelWords, 0, entered⟩ st r := by
  unfold marshalOutRemoteGenericMem
  rw [FdWrapperFromObject, bind_some, hremote, Bool.not_true, if_neg Bool.false_ne_true]
  cases entered with
  | false =>
    obtain ⟨hflag, hown⟩ : objFlag = calleeObject ∧ sock.ownsDependency w.dependency = true := by
      simpa using hentered
    obtain ⟨st', hst', hpassed⟩ :=
      forwardMemDep_of_owns base st (callerObject ||| memparcelObject) hown
    rw [dependencyWords_memparcel sock callerObject (.inl rfl)] at hpassed
    simp only [if_pos hflag, hst']
    exact ⟨_, rfl, fun h => absurd h.1 Bool.false_ne_true, fun _ => ⟨_, rfl, hpassed⟩⟩
  | true =>
    have hforward : (if objFlag = calleeObject then
        marshalOutForwardMemDep sock base st w.dependency (callerObject ||| memparcelObject)
        else none) = none := by
      split_ifs with hflag
      · exact forwardMemDep_of_not_owns base st _ (by simpa [hflag] using hentered)
      · rfl
    simp only [hforward]
    cases hconf : w.confinement with
    | foreign =>
      exact ⟨_, rfl, .refuse ⟨trivial, .inr (.inl hconf)⟩⟩
    | rules n =>
      refine ⟨_, rfl, ((treats_populateWrappedMemparcel _ _).mapError _).congr ?_⟩
      simp [CannotShare, hconf]
    | none =>
      split_ifs with hattach
      · refine ⟨_, rfl, ((treats_populateWrappedMemparcel _ _).mapError _).congr ?_⟩
        simp [CannotShare, hconf, hattach]
      · exact ⟨_, rfl, fun _ => ⟨_, _, rfl, rfl⟩, fun h => absurd
          ⟨trivial, .inr (.inr (.inl ⟨hconf, by simpa using hattach⟩))⟩ h⟩

end Scenarios

section Objects

variable {hd : Handles} {sock : MinkSocket} {env : Env} {base : Nat} {obj : Object} {st : OutState}

theorem treats_checked {foot : Footprint} {r : Outcome ObjectError OutState}
    (h : Treats hd (obj.isMem = true ∧ sock.isRemote = false ∧ maxFds ≤ st.fds.length ∨
        foot.entered = true ∧ (st.table.Full hd ∨
          sock.isRemote = true ∧ CannotShare env st.table st.pos obj)) foot st r) :
    Treats hd (Refused hd sock env st.table foot st.pos st.fds.length obj) foot st
      (if st.pos ≥ lxcomMaxArgs then .error .maxArgs st
        else if isPrimordialOrPrimordialFwd hd obj then .error .error st else r) := by
  by_cases hpos : st.pos ≥ lxcomMaxArgs
  · rw [if_pos hpos]
    exact .refuse (.inl hpos)
  split_ifs with hprim
  · exact .refuse (.inr (.inl hprim))
  refine h.congr ?_
  unfold Refused
  rw [or_iff_right hpos, or_iff_right hprim]

theorem treats_attempts {ownFlag flag flagDep : Nat} {attempt : Attempt OutState}
    (hobj : FdWrapperFromObject obj = none) (hattempt : attempt = none)
    (hflag : flagDep = callerObject ∨ flagDep = calleeObject) {foot : Footprint}
    (hfoot : foot = callerFootprint sock obj) :
    Treats hd (obj.isMem = true ∧ sock.isRemote = false ∧ maxFds ≤ st.fds.length ∨
        foot.entered = true ∧ (st.table.Full hd ∨
          sock.isRemote = true ∧ CannotShare env st.table st.pos obj)) foot st
      ((marshalOutNullObject base obj st <|>
        marshalOutMsforwarder sock base ownFlag obj st <|> attempt <|>
        marshalOutLocalMSMem hd sock base maxFds obj st <|>
        marshalOutRemoteGenericMem hd sock env base flag obj st <|>
        marshalOutRemoteMSMem hd sock env base flag obj st flagDep <|>
        marshalOutGenericObject hd base flag obj st).getD (.error .error st)) := by
  subst hfoot
  obtain ⟨r, hr, htreats⟩ := @treats_genericObject hd base flag obj st
  have hremote : marshalOutRemoteGenericMem hd sock env base flag obj st = none := by
    rw [marshalOutRemoteGenericMem, hobj, bind_none]
  rw [hattempt, hremote]
  cases obj with
  | null =>
    refine ⟨fun h => ?_, fun _ => ⟨_, rfl, .of_kept rfl rfl rfl⟩⟩
    simp [Object.isMem, callerFootprint, plainFootprint] at h
  | forwarder f =>
    by_cases hf : f.conn = sock.id
    · simp only [marshalOutNullObject, marshalOutMsforwarder, MSForwarderFromObject,
        bind_some, hf, if_true, orElse_eq_orElse, orElse_none,
        orElse_some, getD_some]
      have hfoot : callerFootprint sock (.forwarder f) = ⟨1, 0, false⟩ := by
        simp [callerFootprint, plainFootprint, hf]
      rw [hfoot]
      refine ⟨fun h => ?_, fun _ => ⟨_, rfl, .of_kept rfl rfl rfl⟩⟩
      simp [Object.isMem] at h
    · simp only [marshalOutNullObject, marshalOutMsforwarder, MSForwarderFromObject, bind_some, hf,
        if_false, orElse_eq_orElse, hr]
      have hfoot : callerFootprint sock (.forwarder f) = ⟨1, 0, true⟩ := by
        simp [callerFootprint, plainFootprint, hf]
      rw [hfoot]
      exact htreats.congr (by simp [Object.isMem, CannotShare])
  | mem o =>
    cases o with
    | fdWrapper w => cases hobj
    | msMem m =>
      simp only [marshalOutNullObject, marshalOutMsforwarder, MSForwarderFromObject,
        bind_none, orElse_eq_orElse, orElse_none]
      cases hside : sock.isRemote with
      | false =>
        obtain ⟨r, hr, htreats⟩ := @treats_localMSMem hd sock base maxFds st hside m
        rw [hr, orElse_some, getD_some]
        refine htreats.congr ?_
        simp [Object.isMem, callerFootprint, msMemFootprint, hside]
      | true =>
        have hlocal : marshalOutLocalMSMem hd sock base maxFds (.mem (.msMem m)) st = none := by
          rw [marshalOutLocalMSMem, MSMemFromObject, bind_some, if_pos hside]
        obtain ⟨r, hr, htreats⟩ :=
          @treats_remoteMSMem hd sock env base flag st hside m flagDep hflag
        rw [hlocal, hr, orElse_none, orElse_some, getD_some]
        refine htreats.congr ?_
        simp [Object.isMem, callerFootprint]
  | _ =>
    simp only [marshalOutNullObject, marshalOutLocalMSMem, MSMemFromObject, bind_none, hr]
    exact htreats.congr (by simp [Object.isMem, callerFootprint, plainFootprint, CannotShare])

theorem attempts_fdWrapper {ownFlag : Nat} {w : FdWrapper} {attempt rest : Attempt OutState} :
    ((marshalOutNullObject base (.mem (.fdWrapper w)) st <|>
      marshalOutMsforwarder sock base ownFlag (.mem (.fdWrapper w)) st <|> attempt <|>
      marshalOutLocalMSMem hd sock base maxFds (.mem (.fdWrapper w)) st <|> rest)) =
        (attempt <|> rest) := by
  simp only [marshalOutNullObject, marshalOutMsforwarder, marshalOutLocalMSMem,
    MSForwarderFromObject, MSMemFromObject, bind_none, orElse_eq_orElse,
    orElse_none]

theorem FdWrapperFromObject_eq_some {w : FdWrapper} (h : FdWrapperFromObject obj = some w) :
    obj = .mem (.fdWrapper w) := by
  unfold FdWrapperFromObject at h
  split at h <;> cases h
  rfl

theorem treats_callerObject (hd : Handles) (sock : MinkSocket) (env : Env) (base : Nat)
    (obj : Object) (st : OutState) :
    Treats hd (Refused hd sock env st.table (callerFootprint sock obj) st.pos st.fds.length obj)
      (callerFootprint sock obj) st
      (marshalOutCallerObject hd sock env base maxFds obj st) := by
  refine treats_checked ?_
  cases hobj : FdWrapperFromObject obj with
  | none =>
    exact treats_attempts hobj (by rw [marshalOutCallerLocalGenericMem, hobj, bind_none])
      (.inr rfl) rfl
  | some w =>
    obtain rfl := FdWrapperFromObject_eq_some hobj
    rw [attempts_fdWrapper]
    cases hside : sock.isRemote with
    | false =>
      obtain ⟨r, hr, htreats⟩ := @treats_callerLocalGenericMem hd sock base maxFds st hside w
      rw [hr, orElse_eq_orElse, orElse_some]
      refine htreats.congr ?_
      simp [Object.isMem, callerFootprint, hside]
    | true =>
      have hlocal : marshalOutCallerLocalGenericMem sock base maxFds (.mem (.fdWrapper w)) st =
          none := by
        rw [marshalOutCallerLocalGenericMem, FdWrapperFromObject, bind_some, if_pos hside]
      have hfoot : callerFootprint sock (.mem (.fdWrapper w)) = ⟨memparcelWords, 0, true⟩ := by
        simp [callerFootprint, hside]
      obtain ⟨r, hr, htreats⟩ :=
        @treats_remoteGenericMem hd sock env base callerObject st hside w true rfl
      rw [hlocal, hr, hfoot]
      refine htreats.congr ?_
      simp

theorem calleeFootprint_eq (h : FdWrapperFromObject obj = none) :
    calleeFootprint sock obj = callerFootprint sock obj := by
  cases obj with
  | mem o =>
    cases o with
    | fdWrapper w => cases h
    | msMem m => rfl
  | _ => rfl

theorem treats_calleeObject (hd : Handles) (sock : MinkSocket) (env : Env) (base : Nat)
    (obj : Object) (st : OutState) :
    Treats hd (Refused hd sock env st.table (calleeFootprint sock obj) st.pos st.fds.length obj)
      (calleeFootprint sock obj) st
      (marshalOutCalleeObject hd sock env base maxFds obj st) := by
  refine treats_checked ?_
  cases hobj : FdWrapperFromObject obj with
  | none =>
    exact treats_attempts hobj (by rw [marshalOutCalleeLocalGenericMem, hobj, bind_none])
      (.inl rfl) (calleeFootprint_eq hobj)
  | some w =>
    obtain rfl := FdWrapperFromObject_eq_some hobj
    rw [attempts_fdWrapper]
    cases hside : sock.isRemote with
    | false =>
      obtain ⟨r, hr, htreats⟩ := @treats_calleeLocalGenericMem hd sock base maxFds st hside w
      rw [hr, orElse_eq_orElse, orElse_some]
      refine htreats.congr ?_
      simp [Object.isMem, calleeFootprint, hside]
    | true =>
      have hlocal : marshalOutCalleeLocalGenericMem hd sock base maxFds (.mem (.fdWrapper w)) st =
          none := by
        rw [marshalOutCalleeLocalGenericMem, FdWrapperFromObject, bind_some, if_pos hside]
      have hfoot : calleeFootprint sock (.mem (.fdWrapper w)) =
          ⟨memparcelWords, 0, !sock.ownsDependency w.dependency⟩ := by
        simp [calleeFootprint, hside]
      obtain ⟨r, hr, htreats⟩ := @treats_remoteGenericMem hd sock env base calleeObject st hside w
        (!sock.ownsDependency w.dependency) rfl
      rw [hlocal, hr, hfoot]
      refine htreats.congr ?_
      simp

end Objects

def RefusedFirst (hd : Handles) (sock : MinkSocket) (env : Env) (t : Table)
    (foot : Object → Footprint) : List Object → Nat → Nat → Prop
  | [], _, _ => True
  | obj :: objs, pos, fds =>
    Refused hd sock env t (foot obj) pos fds obj ∨ (foot obj).entered = false ∧
        RefusedFirst hd sock env t foot objs (pos + (foot obj).words) (fds + (foot obj).fds)

section Loop

variable {hd : Handles} {sock : MinkSocket} {env : Env} {foot : Object → Footprint}
  {f : OutState → Object → Outcome ObjectError OutState} {objs : List Object} {st st' : OutState}
  {e : ObjectError}

theorem Passed.objectsCount {fp : Footprint} (h : Passed hd fp st st') :
    st'.table.objectsCount = st.table.objectsCount + if fp.entered then 1 else 0 := by
  cases hentered : fp.entered with
  | false => rw [h.kept hentered, if_neg Bool.false_ne_true, Nat.add_zero]
  | true =>
    obtain ⟨n, obj, hadd⟩ := h.entered hentered
    obtain ⟨-, -, hslot⟩ := ObjectTable.add_of_addObject hadd
    rw [if_pos rfl, (ObjectTable.add_eq_some hslot).2.2.2]

theorem Treats.objectsCount_le {refused : Prop} {fp : Footprint}
    {r : Outcome ObjectError OutState} (h : Treats hd refused fp st r) :
    st.table.objectsCount ≤ r.state.table.objectsCount := by
  by_cases href : refused
  · obtain ⟨e, st', rfl, htable⟩ := h.error href
    rw [Outcome.state, htable]
  · obtain ⟨st', rfl, hpassed⟩ := h.ok href
    rw [Outcome.state, hpassed.objectsCount]
    exact Nat.le_add_right _ _

theorem forEach_keeps_table_iff (hf : ∀ st obj, Treats hd
      (Refused hd sock env st.table (foot obj) st.pos st.fds.length obj) (foot obj) st (f st obj))
    (h : Outcome.forEach f objs st = .error e st') :
    st'.table = st.table ↔ RefusedFirst hd sock env st.table foot objs st.pos st.fds.length := by
  induction objs generalizing st with
  | nil => cases h
  | cons obj objs ih =>
    unfold RefusedFirst
    rw [Outcome.forEach] at h
    by_cases href : Refused hd sock env st.table (foot obj) st.pos st.fds.length obj
    · obtain ⟨e', st₁, hr, htable⟩ := (hf st obj).error href
      rw [hr] at h
      cases h
      exact ⟨fun _ => .inl href, fun _ => htable⟩
    · obtain ⟨st₁, hr, hpassed⟩ := (hf st obj).ok href
      rw [hr, Outcome.ok_bind] at h
      rw [or_iff_right href]
      cases hentered : (foot obj).entered with
      | false =>
        have hkept := hpassed.kept hentered
        rw [and_iff_right rfl, ← hpassed.pos, ← hpassed.fds, ← hkept]
        exact ih h
      | true =>
        have hcount := hpassed.objectsCount
        rw [hentered, if_pos rfl] at hcount
        have hmono := Outcome.forEach_invariant
          (fun s : OutState => st₁.table.objectsCount ≤ s.table.objectsCount)
          (fun s a hs => hs.trans (hf s a).objectsCount_le) objs (Nat.le_refl _)
        rw [h, Outcome.state] at hmono
        refine ⟨fun heq => ?_, fun hfalse => absurd hfalse.1 (by simp)⟩
        rw [heq] at hmono
        omega

end Loop

/-- The buffers go into the message from `size` on: into the preallocated one, or one allocated for
those that do not. -/
def BuffersPass (env : Env) : Nat → List (List UInt8) → Prop
  | _, [] => True
  | size, b :: bs =>
    if padded size + b.length ≤ msgBufferPrealloc then BuffersPass env (padded size + b.length) bs
    else sizeofData (b :: bs) size ≤ msgBufferMax ∧ env.extend (sizeofData (b :: bs) size) = true

section Buffers

variable {env : Env} {note : Nat → List UInt8 → Mem → Mem} {bs : List (List UInt8)} {b : List UInt8}
  {st : OutState}

structure SameObjects (st st' : OutState) : Prop where
  pos : st'.pos = st.pos
  fds : st'.fds = st.fds
  table : st'.table = st.table

theorem SameObjects.trans {st' st'' : OutState} (h : SameObjects st st')
    (h' : SameObjects st' st'') : SameObjects st st'' :=
  ⟨h'.pos.trans h.pos, h'.fds.trans h.fds, h'.table.trans h.table⟩

theorem marshalOutBuffer_of_fits (h : padded st.sizeOnWire + b.length ≤ st.sizeLimit) :
    ∃ st', marshalOutBuffer b st = some st' ∧ st'.sizeOnWire = padded st.sizeOnWire + b.length ∧
      st'.sizeLimit = st.sizeLimit ∧ SameObjects st st' := by
  have hp := le_padded st.sizeOnWire
  have hfit : ¬ st.sizeOnWire + (padded st.sizeOnWire - st.sizeOnWire) + b.length >
      st.sizeLimit := by
    omega
  have hsome : ∃ st', marshalOutBuffer b st = some st' := by
    unfold marshalOutBuffer
    rw [if_neg hfit]
    exact ⟨_, rfl⟩
  obtain ⟨st', hst'⟩ := hsome
  obtain ⟨-, hsize, hlimit, -, -, hpos, hfds, htable⟩ := marshalOutBuffer_eq_some hst'
  exact ⟨st', hst', hsize, hlimit, hpos, hfds, htable⟩

theorem marshalOutBuffer_eq_none (h : ¬ padded st.sizeOnWire + b.length ≤ st.sizeLimit) :
    marshalOutBuffer b st = none := by
  cases hst' : marshalOutBuffer b st with
  | none => rfl
  | some st' => exact absurd (marshalOutBuffer_eq_some hst').1 h

theorem sizeofData_cons (b : List UInt8) (bs : List (List UInt8)) (size : Nat) :
    sizeofData bs (padded size + b.length) = sizeofData (b :: bs) size := by
  simp only [sizeofData, padded_add_padded, List.map_cons, List.sum_cons]
  omega

theorem fits_of_sizeofData {size limit : Nat} (h : sizeofData (b :: bs) size ≤ limit) :
    padded size + b.length ≤ limit := by
  have hb := le_padded b.length
  simp only [sizeofData, List.map_cons, List.sum_cons] at h
  omega

theorem marshalOutBuffers_of_room {j : Nat} (h : sizeofData bs st.sizeOnWire ≤ st.sizeLimit) :
    ∃ st', marshalOutBuffers env note bs j st = .ok st' ∧ SameObjects st st' := by
  induction bs generalizing j st with
  | nil => exact ⟨st, rfl, rfl, rfl, rfl⟩
  | cons b bs ih =>
    obtain ⟨st₁, hst₁, hsize, hlimit, hsame⟩ := @marshalOutBuffer_of_fits b
      { st with buf := note j b st.buf } (fits_of_sizeofData h)
    have hroom : sizeofData bs st₁.sizeOnWire ≤ st₁.sizeLimit := by
      rw [hsize, hlimit, sizeofData_cons]
      exact h
    obtain ⟨st', hst', hsame'⟩ := ih hroom
    refine ⟨st', ?_, SameObjects.trans ⟨hsame.pos, hsame.fds, hsame.table⟩ hsame'⟩
    rw [marshalOutBuffers]
    rw [hst₁]
    exact hst'

theorem marshalOutBuffers_pass {j : Nat} (hlimit : st.sizeLimit = msgBufferPrealloc) :
    (BuffersPass env st.sizeOnWire bs →
      ∃ st', marshalOutBuffers env note bs j st = .ok st' ∧ SameObjects st st') ∧
    (¬ BuffersPass env st.sizeOnWire bs →
      ∃ e st', marshalOutBuffers env note bs j st = .error e st' ∧ SameObjects st st') := by
  induction bs generalizing j st with
  | nil => exact ⟨fun _ => ⟨st, rfl, rfl, rfl, rfl⟩, absurd trivial⟩
  | cons b bs ih =>
    unfold BuffersPass
    rw [marshalOutBuffers]
    by_cases hfits : padded st.sizeOnWire + b.length ≤ msgBufferPrealloc
    · obtain ⟨st₁, hst₁, hsize, hlimit', hsame⟩ := @marshalOutBuffer_of_fits b
        { st with buf := note j b st.buf } (by dsimp only; omega)
      have hsame : SameObjects st st₁ := ⟨hsame.pos, hsame.fds, hsame.table⟩
      rw [if_pos hfits, hst₁, ← hsize]
      obtain ⟨hpass, hfail⟩ := ih (hlimit'.trans hlimit)
      refine ⟨fun h => ?_, fun h => ?_⟩
      · obtain ⟨st', hst', hsame'⟩ := hpass h
        exact ⟨st', hst', hsame.trans hsame'⟩
      · obtain ⟨e, st', hst', hsame'⟩ := hfail h
        exact ⟨e, st', hst', hsame.trans hsame'⟩
    · have hnone : marshalOutBuffer b { st with buf := note j b st.buf } = none :=
        marshalOutBuffer_eq_none (by dsimp only; omega)
      have hne : sizeofData (b :: bs) st.sizeOnWire ≠ 0 := fun h0 => by
        have hle := fits_of_sizeofData (Nat.le_of_eq h0)
        omega
      rw [if_neg hfits, hnone]
      unfold flatdataExtendAndCopy
      rw [if_neg hne]
      by_cases hmax : sizeofData (b :: bs) st.sizeOnWire > msgBufferMax
      · rw [if_pos hmax]
        exact ⟨fun h => absurd h.1 (by omega), fun _ => ⟨_, _, rfl, rfl, rfl, rfl⟩⟩
      rw [if_neg hmax]
      cases hextend : env.extend (sizeofData (b :: bs) st.sizeOnWire) with
      | false =>
        exact ⟨fun h => absurd h.2 Bool.false_ne_true, fun _ => ⟨_, _, rfl, rfl, rfl, rfl⟩⟩
      | true =>
        refine ⟨fun _ => ?_, fun h => absurd ⟨by omega, rfl⟩ h⟩
        rw [Bool.not_true, if_neg Bool.false_ne_true, Outcome.ok_bind]
        obtain ⟨st₁, hst₁, hsize, hlimit', hsame⟩ := @marshalOutBuffer_of_fits b { st with
            buf := note j b fun i => if i < st.sizeOnWire then note j b st.buf i else 0
            sizeLimit := sizeofData (b :: bs) st.sizeOnWire }
          (fits_of_sizeofData (Nat.le_refl _))
        have hroom : sizeofData bs st₁.sizeOnWire ≤ st₁.sizeLimit := by
          rw [hsize, hlimit', sizeofData_cons]
        obtain ⟨st', hst', hsame'⟩ := marshalOutBuffers_of_room hroom
        rw [hst₁]
        exact ⟨st', hst', SameObjects.trans ⟨hsame.pos, hsame.fds, hsame.table⟩ hsame'⟩

end Buffers

def Request.PassesChecks (sock : MinkSocket) (env : Env) (req : Request) : Prop :=
  numIn req.k + countNumExtraArgsOutbound sock req.oi ≤ lxcomMaxArgs ∧
    BuffersPass env (sizeofInvReq req.k (countNumExtraArgsOutbound sock req.oi)) req.bi ∧
    ∀ b ∈ req.bo, b.null = true → b.size = 0

def Response.PassesChecks (sock : MinkSocket) (env : Env) (resp : Response) : Prop :=
  numOut resp.k + countNumExtraArgsOutbound sock resp.oo ≤ lxcomMaxArgs ∧
    BuffersPass env (sizeofInvSucc resp.k (countNumExtraArgsOutbound sock resp.oo)) resp.bo

section Failure

variable {hd : Handles} {sock : MinkSocket} {env : Env} {table : Table} {e : ObjectError}
  {st : OutState}

theorem objects_keep_table_iff {size pos : Nat} {st₁ : OutState} {m : Mem} {objs : List Object}
    {foot : Object → Footprint} {f : OutState → Object → Outcome ObjectError OutState}
    (hsame : SameObjects (OutState.new size pos table) st₁)
    (hf : ∀ st obj, Treats hd
      (Refused hd sock env st.table (foot obj) st.pos st.fds.length obj) (foot obj) st (f st obj))
    (h : Outcome.forEach f objs { st₁ with buf := m } = .error e st) :
    st.table = table ↔ RefusedFirst hd sock env table foot objs pos 0 := by
  have hiff := forEach_keeps_table_iff hf h
  rw [hsame.table, hsame.pos, hsame.fds] at hiff
  exact hiff

theorem any_null_iff {bo : List BufferOut} :
    (bo.any fun b => b.null && b.size != 0) = false ↔ ∀ b ∈ bo, b.null = true → b.size = 0 := by
  simp only [List.any_eq_false, Bool.and_eq_true, bne_iff_ne, not_and, not_not]

theorem marshalOutCaller_keeps_table_iff {req : Request}
    (h : marshalOutCaller hd sock env table req = .error e st) :
    st.table = table ↔ (req.PassesChecks sock env →
      RefusedFirst hd sock env table (callerFootprint sock) req.oi (indexOI req.k) 0) := by
  unfold marshalOutCaller at h
  by_cases hmax : numIn req.k + countNumExtraArgsOutbound sock req.oi > lxcomMaxArgs
  · rw [if_pos hmax] at h
    cases h
    exact ⟨fun _ hpass => absurd hpass.1 (by omega), fun _ => rfl⟩
  rw [if_neg hmax] at h
  obtain ⟨hpass, hfail⟩ := @marshalOutBuffers_pass env (fun _ _ m => m) req.bi
    (OutState.new (sizeofInvReq req.k (countNumExtraArgsOutbound sock req.oi)) (indexOI req.k)
      table) 0 rfl
  by_cases hbufs : BuffersPass env
      (sizeofInvReq req.k (countNumExtraArgsOutbound sock req.oi)) req.bi
  · obtain ⟨st₁, hst₁, hsame⟩ := hpass hbufs
    rw [hst₁, Outcome.ok_bind] at h
    cases hnull : req.bo.any fun b => b.null && b.size != 0 with
    | true =>
      rw [if_pos hnull] at h
      cases h
      refine ⟨fun _ hchecks => ?_, fun _ => hsame.table⟩
      rw [any_null_iff.mpr hchecks.2.2] at hnull
      cases hnull
    | false =>
      rw [if_neg (by rw [hnull]; exact Bool.false_ne_true)] at h
      have hiff := objects_keep_table_iff hsame
        (fun st obj => treats_callerObject hd sock env reqArgs obj st) h
      rw [hiff]
      exact ⟨fun hfirst _ => hfirst, fun hfirst => hfirst ⟨by omega, hbufs, any_null_iff.mp hnull⟩⟩
  · obtain ⟨e', st₁, hst₁, hsame⟩ := hfail hbufs
    rw [hst₁] at h
    cases h
    exact ⟨fun _ hchecks => absurd hchecks.2.1 hbufs, fun _ => hsame.table⟩

theorem marshalOutCallee_keeps_table_iff {resp : Response}
    (h : marshalOutCallee hd sock env table resp = .error e st) :
    st.table = table ↔ (resp.PassesChecks sock env →
      RefusedFirst hd sock env table (calleeFootprint sock) resp.oo (numBO resp.k) 0) := by
  unfold marshalOutCallee at h
  dsimp only at h
  split_ifs at h with hmax
  · cases h
    exact ⟨fun _ hpass => absurd hpass.1 (by omega), fun _ => rfl⟩
  obtain ⟨hpass, hfail⟩ := @marshalOutBuffers_pass env
    (fun j b m => putArgSize m succArgs j b.length) resp.bo
    (OutState.new (sizeofInvSucc resp.k (countNumExtraArgsOutbound sock resp.oo)) (numBO resp.k)
      table) 0 rfl
  by_cases hbufs : BuffersPass env
      (sizeofInvSucc resp.k (countNumExtraArgsOutbound sock resp.oo)) resp.bo
  · obtain ⟨st₁, hst₁, hsame⟩ := hpass hbufs
    rw [hst₁] at h
    have hiff := objects_keep_table_iff hsame
      (fun st obj => treats_calleeObject hd sock env succArgs obj st) h
    rw [hiff]
    exact ⟨fun hfirst _ => hfirst, fun hfirst => hfirst ⟨by omega, hbufs⟩⟩
  · obtain ⟨e', st₁, hst₁, hsame⟩ := hfail hbufs
    rw [hst₁] at h
    cases h
    exact ⟨fun _ hchecks => absurd hchecks.2 hbufs, fun _ => hsame.table⟩

end Failure

/-- A failed marshalling leaves the table as it was exactly if one of its checks fails, or if no
object before the refused one is entered into the table. -/
theorem marshalOut_failure_keeps_table_iff (hd : Handles) (sock : MinkSocket) (env : Env)
    (table : Table) (e : ObjectError) (st : OutState) :
    (∀ req, marshalOutCaller hd sock env table req = .error e st →
      (st.table = table ↔ (req.PassesChecks sock env →
        RefusedFirst hd sock env table (callerFootprint sock) req.oi (indexOI req.k) 0))) ∧
    (∀ resp, marshalOutCallee hd sock env table resp = .error e st →
      (st.table = table ↔ (resp.PassesChecks sock env →
        RefusedFirst hd sock env table (calleeFootprint sock) resp.oo (numBO resp.k) 0))) :=
  ⟨fun _ h => marshalOutCaller_keeps_table_iff h, fun _ h => marshalOutCallee_keeps_table_iff h⟩

def refusedRequest (first : Object) : Request where
  handle := 3
  op := 5
  k := 0x200
  bi := []
  bo := []
  oi := [first, .primordial]
  k_lt := by decide
  bi_length := by decide
  bo_length := by decide
  oi_length := rfl

theorem marshalOut_failure_keeps_table_null :
    ∃ st, marshalOutCaller sampleHandles localSock healthyEnv sampleTable (refusedRequest .null) =
      .error .error st ∧ st.table = sampleTable := by
  refine ⟨_, rfl, ((marshalOut_failure_keeps_table_iff sampleHandles localSock healthyEnv
    sampleTable .error _).1 (refusedRequest .null) rfl).mpr fun _ => ?_⟩
  exact .inr ⟨rfl, .inl (.inr (.inl rfl))⟩

/-- A local object before the refused one stays in the table under a handle that is never sent. -/
theorem marshalOut_failure_leaves_handle :
    ∃ st, marshalOutCaller sampleHandles localSock healthyEnv sampleTable
        (refusedRequest (.plain 5)) = .error .error st ∧
      sampleTable.objects 1 = none ∧ st.table.objects 1 = some (.plain 5) ∧
      st.table ≠ sampleTable := by
  refine ⟨_, rfl, rfl, rfl, fun h => ?_⟩
  have hone := congrArg (fun t : Table => t.objects 1) h
  exact absurd hone (by decide)

end MinkIpc
