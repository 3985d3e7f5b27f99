import MinkIpc.MarshalOut

/-! The words that stand for object arguments in an argument vector on a local
connection. The encoders produce such words and the decoders read them back; the
two meet at `VectorWords`. -/

namespace MinkIpc

open Bytes List

/-- The flags of one direction: `own` marks an object of the receiver, `other` one of
the sender. Only a request passes a memory object by its dependency. -/
structure Direction where
  own : Nat
  other : Nat
  byDependency : Bool

def Direction.request : Direction := ⟨calleeObject, callerObject, true⟩
def Direction.response : Direction := ⟨callerObject, calleeObject, false⟩

def Direction.dependency (d : Direction) (conn : Nat) (w : FdWrapper) : Option MSForwarder :=
  if d.byDependency then w.dependency.filter fun f => f.conn = conn else none

def extraWords (indirect : Bool) : Nat := if indirect then numExtraArgsSpecialRules else 0

def withDescriptor (indirect : Bool) (flag : Nat) : Nat :=
  if indirect then flag ||| descriptorObject else flag

/-- The words of `a` from one position to another stand for an object; the list holds the
descriptors sent along. `slot h obj` says that the sender gave `obj` the handle `h`. -/
inductive ObjectWords (d : Direction) (conn : Nat) (indirect : Bool) (slot : Nat → Object → Prop)
    (a : Nat → Arg) (p : Nat) : Object → List Int → Nat → Prop
  | null (h : (a p).flags = nullObjectFlag) : ObjectWords d conn indirect slot a p .null [] (p + 1)
  | own {f : MSForwarder} (hf : f.conn = conn) (h : a p = ⟨d.own, f.handle % 65536⟩) :
      ObjectWords d conn indirect slot a p (.forwarder f) [] (p + 1)
  | ownMem {w : FdWrapper} {f : MSForwarder} (hf : d.dependency conn w = some f)
      (h : a p = ⟨withDescriptor indirect d.own, f.handle % 65536⟩) :
      ObjectWords d conn indirect slot a p (.mem (.fdWrapper w)) [] (p + 1 + extraWords indirect)
  | fresh {id n : Nat} (hn : slot n (.plain id)) (h : a p = ⟨d.other, n⟩) :
      ObjectWords d conn indirect slot a p (.plain id) [] (p + 1)
  | fd {w : FdWrapper} (hf : d.dependency conn w = none) (hflags : (a p).flags = descriptorObject)
      (hrules : indirect = true → readChunks a memparcelSpecialRules numExtraArgsSpecialRules (p + 1) =
        some (w.confinement.specialRules % 65536 ^ 4)) :
      ObjectWords d conn indirect slot a p (.mem (.fdWrapper w)) [w.descriptor]
        (p + 1 + extraWords indirect)

inductive VectorWords (d : Direction) (conn : Nat) (indirect : Bool) (slot : Nat → Object → Prop)
    (a : Nat → Arg) : Nat → List Object → List Int → Nat → Prop
  | nil (p : Nat) : VectorWords d conn indirect slot a p [] [] p
  | cons {p q r : Nat} {obj : Object} {objs : List Object} {fs gs : List Int}
      (h : ObjectWords d conn indirect slot a p obj fs q)
      (ht : VectorWords d conn indirect slot a q objs gs r) :
      VectorWords d conn indirect slot a p (obj :: objs) (fs ++ gs) r

section Words

variable {d : Direction} {conn : Nat} {indirect : Bool} {slot slot' : Nat → Object → Prop}
  {a a' : Nat → Arg} {p q : Nat} {obj : Object} {fs : List Int}

theorem ObjectWords.lt (h : ObjectWords d conn indirect slot a p obj fs q) : p < q := by
  cases h <;> omega

theorem readChunks_congr {flag n : Nat} (h : ∀ i, p ≤ i → i < p + n → a i = a' i) :
    readChunks a flag n p = readChunks a' flag n p := by
  induction n generalizing p with
  | zero => rfl
  | succ n ih =>
    simp only [readChunks]
    rw [h p (by omega) (by omega), ih fun i hi hlt => h i (by omega) (by omega)]

theorem ObjectWords.congr (h : ObjectWords d conn indirect slot a p obj fs q)
    (heq : ∀ i, p ≤ i → i < q → a i = a' i) (hslot : ∀ n o, slot n o → slot' n o) :
    ObjectWords d conn indirect slot' a' p obj fs q := by
  have hp := heq p (Nat.le_refl _) h.lt
  cases h with
  | null h => exact .null (hp ▸ h)
  | own hf h => exact .own hf (hp ▸ h)
  | ownMem hf h => exact .ownMem hf (hp ▸ h)
  | fresh hn h => exact .fresh (hslot _ _ hn) (hp ▸ h)
  | fd hf hflags hrules =>
    refine .fd hf (hp ▸ hflags) fun hi => ?_
    rw [← hrules hi]
    refine (readChunks_congr fun i hle hlt => heq i (by omega) ?_).symm
    simp only [extraWords, hi, if_true]
    omega

theorem VectorWords.le {objs : List Object} (h : VectorWords d conn indirect slot a p objs fs q) :
    p ≤ q := by
  induction h with
  | nil => exact Nat.le_refl _
  | cons h _ ih =>
    have hlt := h.lt
    omega

theorem VectorWords.congr {objs : List Object} (h : VectorWords d conn indirect slot a p objs fs q)
    (heq : ∀ i, p ≤ i → a i = a' i) (hslot : ∀ n o, slot n o → slot' n o) :
    VectorWords d conn indirect slot' a' p objs fs q := by
  induction h with
  | nil => exact .nil _
  | cons h _ ih =>
    have hlt := h.lt
    exact .cons (h.congr (fun i hi _ => heq i hi) hslot) (ih fun i hi => heq i (by omega))

end Words

/-- What an object of the sender is to the receiver; the pairs are the descriptors sent along and
what they become there. -/
inductive Received (d : Direction) (conn : Nat) (slot : Nat → Object → Prop) (sock : MinkSocket)
    (table : Table) : Object → List (Int × Int) → Object → Prop
  | null : Received d conn slot sock table .null [] .null
  | own {f : MSForwarder} {o : Object} (h : table.recoverObject f.handle = some o) :
      Received d conn slot sock table (.forwarder f) [] o
  | ownMem {w : FdWrapper} {f : MSForwarder} {o : Object} (hf : d.dependency conn w = some f)
      (h : table.recoverObject f.handle = some o) :
      Received d conn slot sock table (.mem (.fdWrapper w)) [] o
  | fresh {id n : Nat} (hn : slot n (.plain id)) :
      Received d conn slot sock table (.plain id) [] (.forwarder ⟨sock.id, n⟩)
  | fd {w w' : FdWrapper} (hf : d.dependency conn w = none) :
      Received d conn slot sock table (.mem (.fdWrapper w)) [(w.descriptor, w'.descriptor)]
        (.mem (.fdWrapper w'))

inductive ReceivedAll (d : Direction) (conn : Nat) (slot : Nat → Object → Prop) (sock : MinkSocket)
    (table : Table) : List Object → List (Int × Int) → List Object → Prop
  | nil : ReceivedAll d conn slot sock table [] [] []
  | cons {obj o : Object} {objs os : List Object} {ps qs : List (Int × Int)}
      (h : Received d conn slot sock table obj ps o)
      (ht : ReceivedAll d conn slot sock table objs qs os) :
      ReceivedAll d conn slot sock table (obj :: objs) (ps ++ qs) (o :: os)

def Known (d : Direction) (conn : Nat) (table : Table) : Object → Prop
  | .forwarder f => (table.recoverObject f.handle).isSome
  | .mem (.fdWrapper w) => ∀ f, d.dependency conn w = some f → (table.recoverObject f.handle).isSome
  | _ => True

structure Env.Healthy (env : Env) : Prop where
  fdWrapperNew : ∀ p, env.fdWrapperNew p = true
  msForwarderNew : ∀ p, env.msForwarderNew p = true
  attachConfinement : ∀ p, env.attachConfinement p = true

theorem healthyEnv_healthy : healthyEnv.Healthy := ⟨fun _ => rfl, fun _ => rfl, fun _ => rfl⟩

/-- The attempts of both decoders; `last` is the flag of the second memparcel attempt. -/
def attempts (d : Direction) (sock : MinkSocket) (table : Table) (env : Env) (a : Nat → Arg)
    (last : Nat) (st : InState) : Attempt InState :=
  marshalInNullObject a st <|> marshalInMsforwarder sock table a d.own st <|>
    marshalInLocalGenericMem sock env a st <|>
    marshalInLocalGenericMem sock env a st <|>
    marshalInRemoteGenericMem sock env a d.other st <|>
    marshalInRemoteGenericMem sock env a last st <|>
    marshalInGenericObject sock env a d.other st

section Decode

variable {d : Direction} {conn last : Nat} {slot : Nat → Object → Prop} {sock : MinkSocket}
  {table : Table} {env : Env} {a : Nat → Arg} {st : InState}

theorem recoverObject_mod {f : MSForwarder} {o : Object} (hlen : table.objectsLen ≤ 65536)
    (h : table.recoverObject f.handle = some o) :
    table.recoverObject ((f.handle % 65536 : Nat) : Int) = some o := by
  have hlt : f.handle < table.objectsLen := by
    unfold ObjectTable.recoverObject at h
    split_ifs at h
    omega
  rwa [Nat.mod_eq_of_lt (by omega)]

theorem marshalInMsforwarder_own (sock : MinkSocket) {flags handle : Nat} {own : Nat} {o : Object}
    (ha : a st.pos = ⟨flags, handle⟩) (hown : hasFlag flags own = true)
    (hmem : hasFlag flags memparcelObject = false)
    (h : table.recoverObject handle = some o) :
    marshalInMsforwarder sock table a own st = some (.ok (st.take o (st.pos +
      if verIndirectMem ≤ sock.version ∧ hasFlag flags descriptorObject then
        numExtraArgsSpecialRules else 0))) := by
  simp only [marshalInMsforwarder, ha, hown, hmem, h]
  by_cases hv : verIndirectMem ≤ sock.version <;> by_cases hf : hasFlag flags descriptorObject <;>
    simp [hv, hf]

theorem marshalInLocalGenericMem_fd (sock : MinkSocket) {fd : Int} {handle rules : Nat}
    (hh : env.Healthy)
    (ha : a st.pos = ⟨descriptorObject, handle⟩) (hfd : st.fds[st.fdIdx]? = some fd)
    (hrules : verIndirectMem ≤ sock.version →
      readChunks a memparcelSpecialRules numExtraArgsSpecialRules (st.pos + 1) = some rules) :
    ∃ w : FdWrapper, w.descriptor = fd ∧ marshalInLocalGenericMem sock env a st =
      some (.ok ({ st with fdIdx := st.fdIdx + 1, fds := st.fds.set st.fdIdx (-1) }.take
        (.mem (.fdWrapper w)) (st.pos + extraWords (decide (verIndirectMem ≤ sock.version))))) := by
  have hflag : hasFlag descriptorObject descriptorObject = true := by decide
  by_cases hv : verIndirectMem ≤ sock.version
  · refine ⟨⟨fd, if (handle != invalidObjectHandle && handle != nullObjectHandle) then
      some ⟨sock.id, handle⟩ else none, .rules rules⟩, rfl, ?_⟩
    simp [marshalInLocalGenericMem, ha, hflag, hfd, hh.fdWrapperNew, hh.msForwarderNew,
      hh.attachConfinement, hv, hrules hv, extraWords]
  · refine ⟨⟨fd, if (handle != invalidObjectHandle && handle != nullObjectHandle) then
      some ⟨sock.id, handle⟩ else none, .none⟩, rfl, ?_⟩
    simp [marshalInLocalGenericMem, ha, hflag, hfd, hh.fdWrapperNew, hh.msForwarderNew,
      hv, extraWords]

theorem marshalInNullObject_eq_none (h : (a st.pos).flags ≠ nullObjectFlag) :
    marshalInNullObject a st = none := by
  simp [marshalInNullObject, h]

theorem marshalInMsforwarder_eq_none {own : Nat} (h : hasFlag (a st.pos).flags own = false) :
    marshalInMsforwarder sock table a own st = none := by
  simp [marshalInMsforwarder, h]

theorem marshalInLocalGenericMem_eq_none (h : hasFlag (a st.pos).flags descriptorObject = false) :
    marshalInLocalGenericMem sock env a st = none := by
  simp [marshalInLocalGenericMem, h]

theorem marshalInRemoteGenericMem_eq_none {flag : Nat}
    (h : hasFlag (a st.pos).flags memparcelObject = false) :
    marshalInRemoteGenericMem sock env a flag st = none := by
  simp [marshalInRemoteGenericMem, h]

theorem attempts_null (h : (a st.pos).flags = nullObjectFlag) :
    attempts d sock table env a last st = some (.ok (st.take .null st.pos)) := by
  simp [attempts, marshalInNullObject, h]

theorem attempts_own {st' : InState} (h₀ : (a st.pos).flags ≠ nullObjectFlag)
    (h : marshalInMsforwarder sock table a d.own st = some (.ok st')) :
    attempts d sock table env a last st = some (.ok st') := by
  simp [attempts, marshalInNullObject_eq_none h₀, h]

theorem attempts_fd {st' : InState} (h₀ : (a st.pos).flags ≠ nullObjectFlag)
    (h₁ : hasFlag (a st.pos).flags d.own = false)
    (h : marshalInLocalGenericMem sock env a st = some (.ok st')) :
    attempts d sock table env a last st = some (.ok st') := by
  simp [attempts, marshalInNullObject_eq_none h₀, marshalInMsforwarder_eq_none h₁, h]

theorem attempts_fresh {handle : Nat} (hh : env.Healthy) (ha : a st.pos = ⟨d.other, handle⟩)
    (h₀ : d.other ≠ nullObjectFlag) (h₁ : hasFlag d.other d.own = false)
    (h₂ : hasFlag d.other descriptorObject = false) (h₃ : hasFlag d.other memparcelObject = false)
    (h₄ : hasFlag d.other d.other = true) :
    attempts d sock table env a last st =
      some (.ok (st.take (.forwarder ⟨sock.id, handle⟩) st.pos)) := by
  have hflags : (a st.pos).flags = d.other := by rw [ha]
  have h₀' : (a st.pos).flags ≠ nullObjectFlag := by rwa [hflags]
  have h₁' : hasFlag (a st.pos).flags d.own = false := by rwa [hflags]
  have h₂' : hasFlag (a st.pos).flags descriptorObject = false := by rwa [hflags]
  have h₃' : hasFlag (a st.pos).flags memparcelObject = false := by rwa [hflags]
  simp [attempts, marshalInNullObject_eq_none h₀', marshalInMsforwarder_eq_none h₁',
    marshalInLocalGenericMem_eq_none h₂', marshalInRemoteGenericMem_eq_none h₃',
    marshalInGenericObject, ha, h₃, h₄, hh.msForwarderNew]

theorem attempts_received (last : Nat) {obj : Object} {fs rs rest : List Int} {q : Nat}
    (hdir : d = .request ∨ d = .response) (hh : env.Healthy) (hlen : table.objectsLen ≤ 65536)
    (hk : Known d conn table obj)
    (hw : ObjectWords d conn (decide (verIndirectMem ≤ sock.version)) slot a st.pos obj fs q)
    (hfds : st.fds.drop st.fdIdx = rs ++ rest) (hrs : rs.length = fs.length) :
    ∃ o st', attempts d sock table env a last st = some (.ok st') ∧ st'.pos = q ∧
      st'.objs = st.objs ++ [o] ∧ st'.fds.drop st'.fdIdx = rest ∧
      Received d conn slot sock table obj (fs.zip rs) o := by
  have hown : d.own ≠ nullObjectFlag ∧ hasFlag d.own d.own = true ∧
      hasFlag d.own memparcelObject = false ∧ hasFlag d.own descriptorObject = false := by
    rcases hdir with rfl | rfl <;> decide
  cases hw with
  | null h =>
    obtain rfl : rs = [] := length_eq_zero_iff.mp hrs
    exact ⟨_, _, attempts_null h, rfl, rfl, hfds, .null⟩
  | @own f hf h =>
    obtain rfl : rs = [] := length_eq_zero_iff.mp hrs
    obtain ⟨o, ho⟩ := Option.isSome_iff_exists.mp hk
    have hms := marshalInMsforwarder_own sock h hown.2.1 hown.2.2.1 (recoverObject_mod hlen ho)
    refine ⟨o, _, attempts_own (by rw [h]; exact hown.1) hms, ?_, rfl, hfds, .own ho⟩
    simp [InState.take, hown.2.2.2]
  | @ownMem w f hf h =>
    obtain rfl : rs = [] := length_eq_zero_iff.mp hrs
    obtain ⟨o, ho⟩ := Option.isSome_iff_exists.mp (hk f hf)
    have hflags : ∀ b, withDescriptor b d.own ≠ nullObjectFlag ∧
        hasFlag (withDescriptor b d.own) d.own = true ∧
        hasFlag (withDescriptor b d.own) memparcelObject = false ∧
        hasFlag (withDescriptor b d.own) descriptorObject = b := by
      rcases hdir with rfl | rfl <;> decide
    obtain ⟨h0, h1, h2, h3⟩ := hflags (decide (verIndirectMem ≤ sock.version))
    have hms := marshalInMsforwarder_own sock h h1 h2 (recoverObject_mod hlen ho)
    refine ⟨o, _, attempts_own (by rw [h]; exact h0) hms, ?_, rfl, hfds, .ownMem hf ho⟩
    simp only [InState.take, h3]
    by_cases hv : verIndirectMem ≤ sock.version
    · simp only [hv, decide_true, and_self, extraWords]
      omega
    · simp [hv, extraWords]
  | @fresh id n hn h =>
    obtain rfl : rs = [] := length_eq_zero_iff.mp hrs
    have hflags : d.other ≠ nullObjectFlag ∧ hasFlag d.other d.own = false ∧
        hasFlag d.other descriptorObject = false ∧ hasFlag d.other memparcelObject = false ∧
        hasFlag d.other d.other = true := by
      rcases hdir with rfl | rfl <;> decide
    obtain ⟨h0, h1, h2, h3, h4⟩ := hflags
    exact ⟨_, _, attempts_fresh hh h h0 h1 h2 h3 h4, rfl, rfl, hfds, .fresh hn⟩
  | @fd w hf hflags hrules =>
    obtain ⟨fd, rfl⟩ := length_eq_one_iff.mp hrs
    have hfd : st.fds[st.fdIdx]? = some fd := by
      have h0 := congrArg (fun l => l[0]?) hfds
      simpa using h0
    have hap : a st.pos = ⟨descriptorObject, (a st.pos).handle⟩ := by rw [← hflags]
    obtain ⟨w', rfl, hlgm⟩ := marshalInLocalGenericMem_fd sock hh hap hfd
      fun hv => hrules (by simpa using hv)
    have hne : descriptorObject ≠ nullObjectFlag ∧ hasFlag descriptorObject d.own = false := by
      rcases hdir with rfl | rfl <;> decide
    refine ⟨_, _, attempts_fd (hflags ▸ hne.1) (hflags ▸ hne.2) hlgm, ?_, rfl, ?_, .fd hf⟩
    · simp only [InState.take]
      omega
    · have hdrop := congrArg (fun l => l.drop 1) hfds
      simp only [drop_drop, singleton_append, drop_succ_cons, drop_zero] at hdrop
      simp only [InState.take]
      rw [drop_set_of_lt (by omega), hdrop]

theorem forEach_received {f : InState → Outcome ObjectError InState} {objs : List Object}
    {fs rs rest : List Int} {p q : Nat} (hdir : d = .request ∨ d = .response) (hh : env.Healthy)
    (hlen : table.objectsLen ≤ 65536) (hk : ∀ obj ∈ objs, Known d conn table obj)
    (hf : ∀ st st', st.pos < lxcomMaxArgs → attempts d sock table env a last st = some (.ok st') →
      f st = .ok st')
    (hw : VectorWords d conn (decide (verIndirectMem ≤ sock.version)) slot a p objs fs q)
    (hp : st.pos = p) (hq : q ≤ lxcomMaxArgs) (hfds : st.fds.drop st.fdIdx = rs ++ rest)
    (hrs : rs.length = fs.length) :
    ∃ os st', Outcome.forEach (fun st (_ : Unit) => f st) (replicate objs.length ()) st =
        .ok st' ∧ st'.objs = st.objs ++ os ∧
      ReceivedAll d conn slot sock table objs (fs.zip rs) os := by
  induction hw generalizing st rs with
  | nil p => exact ⟨[], st, rfl, by simp, ReceivedAll.nil⟩
  | @cons p q r obj objs fs gs hobj htail ih =>
    subst hp
    have hlt := hobj.lt
    have hle := htail.le
    rw [length_append] at hrs
    have hsplit : rs = rs.take fs.length ++ rs.drop fs.length := (take_append_drop _ _).symm
    have hone : (rs.take fs.length).length = fs.length := by
      rw [length_take]
      omega
    rw [hsplit, append_assoc] at hfds
    obtain ⟨o, st₁, hatt, hpos, hobjs, hrest, hrec⟩ := attempts_received last hdir hh hlen
      (hk obj mem_cons_self) hobj hfds hone
    obtain ⟨os, st', hloop, hobjs', hrecs⟩ := ih (fun o ho => hk o (mem_cons_of_mem _ ho)) hpos
      hq hrest (by rw [length_drop]; omega)
    refine ⟨o :: os, st', ?_, by rw [hobjs', hobjs]; simp, ?_⟩
    · exact Outcome.forEach_cons_eq_ok.mpr ⟨st₁, hf st st₁ (by omega) hatt, hloop⟩
    · have hzip : (fs ++ gs).zip rs = fs.zip (rs.take fs.length) ++ gs.zip (rs.drop fs.length) := by
        conv_lhs => rw [hsplit]
        exact zip_append hone.symm
      rw [hzip]
      exact .cons hrec hrecs

theorem VectorWords.count {objs : List Object} {fs : List Int} {p q : Nat}
    (hdir : d = .request ∨ d = .response)
    (h : VectorWords d conn (decide (verIndirectMem ≤ sock.version)) slot a p objs fs q) :
    p + objs.length + countNumExtraArgsInbound sock a objs.length p = q := by
  induction h with
  | nil p => simp [countNumExtraArgsInbound]
  | @cons p q r obj objs fs gs hobj _ ih =>
    have hstep : countNumExtraArgsInbound sock a (objs.length + 1) p =
        (q - (p + 1)) + countNumExtraArgsInbound sock a objs.length q := by
      cases hobj with
      | null h => simp [countNumExtraArgsInbound, h, hasFlag, nullObjectFlag]
      | own hf h =>
        rcases hdir with rfl | rfl <;>
          simp [countNumExtraArgsInbound, h, hasFlag, Direction.request, Direction.response,
            calleeObject, callerObject, memparcelObject, descriptorObject]
      | ownMem hf h =>
        by_cases hv : verIndirectMem ≤ sock.version <;> rcases hdir with rfl | rfl <;>
          simp [countNumExtraArgsInbound, h, hv, hasFlag, Direction.request, Direction.response,
            calleeObject, callerObject, memparcelObject, descriptorObject, withDescriptor,
            extraWords, numExtraArgsSpecialRules]
      | fresh hn h =>
        rcases hdir with rfl | rfl <;>
          simp [countNumExtraArgsInbound, h, hasFlag, Direction.request, Direction.response,
            calleeObject, callerObject, memparcelObject, descriptorObject]
      | fd hf hflags hrules =>
        by_cases hv : verIndirectMem ≤ sock.version <;>
          simp [countNumExtraArgsInbound, hflags, hv, hasFlag, memparcelObject, descriptorObject,
            extraWords, numExtraArgsSpecialRules]
    have hlt := hobj.lt
    rw [length_cons]
    omega

end Decode

end MinkIpc
