import MinkIpc.UnmarshalCustody

/-! The exit by which each object of an argument vector is left, read off its words. -/

namespace MinkIpc.Unmarshal

open Bytes Ledger

/-- An argument vector and what decides about its objects. `own` flags the objects of the
receiving side, `other` those of the sender. -/
structure ArgVector where
  own : Nat
  other : Nat
  sock : MinkSocket
  table : Table
  env : Env
  a : Nat → Arg
  numFds : Nat

namespace ArgVector

variable (v : ArgVector)

def exit (pos fdIdx : Nat) : Exit :=
  let flags := (v.a pos).flags
  if pos ≥ lxcomMaxArgs then .position
  else if flags = nullObjectFlag then .null
  else if hasFlag flags v.own then msforwarderExit v.table (v.a pos)
  else if hasFlag flags descriptorObject then
    localGenericMemExit v.sock v.env v.a v.numFds pos fdIdx
  else if hasFlag flags v.other then
    if hasFlag flags memparcelObject then remoteGenericMemExit v.env v.a pos
    else genericObjectExit v.env pos
  else .unmatched

def rulesWords (pos : Nat) : Nat :=
  if verIndirectMem ≤ v.sock.version && hasFlag (v.a pos).flags descriptorObject then
    numExtraArgsSpecialRules else 0

def words (pos : Nat) : Exit → Nat
  | .recovered | .wrapped => 1 + v.rulesWords pos
  | .attached => 1 + numExtraArgsPerMemparcel + numExtraArgsSpecialRules + v.rulesWords pos
  | .mapped => 1 + numExtraArgsPerMemparcel + numExtraArgsSpecialRules
  | _ => 1

end ArgVector

def Exit.taken : Exit → Nat
  | .wrapped => 1
  | _ => 0

def Exit.tried : Exit → Bool
  | .position | .unmatched => false
  | _ => true

theorem msforwarderExit_tried (table : Table) (arg : Arg) :
    (msforwarderExit table arg).tried = true := by
  unfold msforwarderExit
  split
  · rfl
  · split_ifs
    · split <;> rfl
    · rfl

theorem localGenericMemExit_tried (sock : MinkSocket) (env : Env) (a : Nat → Arg)
    (numFds pos fdIdx : Nat) : (localGenericMemExit sock env a numFds pos fdIdx).tried = true := by
  unfold localGenericMemExit
  cases readChunks a memparcelSpecialRules numExtraArgsSpecialRules (pos + 1) with
  | none | some rules =>
    dsimp only
    split_ifs <;> rfl

theorem remoteGenericMemExit_tried (env : Env) (a : Nat → Arg) (pos : Nat) :
    (remoteGenericMemExit env a pos).tried = true := by
  unfold remoteGenericMemExit
  split
  · split
    · rfl
    · split_ifs <;> rfl
  · rfl

theorem genericObjectExit_tried (env : Env) (pos : Nat) :
    (genericObjectExit env pos).tried = true := by
  unfold genericObjectExit
  split_ifs <;> rfl

structure Advanced (exit : Exit) (words : Nat) (st st' : InState) : Prop where
  pos : st'.pos = st.pos + words
  fdIdx : st'.fdIdx = st.fdIdx + exit.taken
  fds : st'.fds = if exit = .wrapped then st.fds.set st.fdIdx (-1) else st.fds
  objs : st'.objs.length = st.objs.length + 1

structure Leaves (exit : Exit) (words : Nat) (st : InState) (r : Outcome ObjectError InState) :
    Prop where
  ok : exit.accepted = true → ∃ st', r = .ok st' ∧ Advanced exit words st st'
  error : exit.accepted = false → ∃ e st', r = .error e st' ∧ st'.fds = st.fds

section Scenarios

variable {v : ArgVector} {st : InState}

variable {exit : Exit} {words objFlag : Nat}

theorem Leaves.of_ok {st st' : InState} (hexit : exit.accepted = true)
    (h : Advanced exit words st st') :
    Leaves exit words st (.ok st') :=
  ⟨fun _ => ⟨st', rfl, h⟩, fun hne => absurd (hexit.symm.trans hne) (by decide)⟩

theorem Leaves.of_error {e : ObjectError} {st st' : InState} (hexit : exit.accepted = false)
    (h : st'.fds = st.fds) :
    Leaves exit words st (.error e st') :=
  ⟨fun hne => absurd (hexit.symm.trans hne) (by decide), fun _ => ⟨e, st', rfl, h⟩⟩

theorem advanced_take {last : Nat} (obj : Object) (hexit : exit ≠ .wrapped)
    (hlast : last + 1 = st.pos + words) :
    Advanced exit words st (st.take obj last) := by
  have htaken : exit.taken = 0 := by
    cases exit <;> first | rfl | exact absurd rfl hexit
  refine ⟨hlast, by rw [htaken]; rfl, by rw [if_neg hexit]; rfl, ?_⟩
  simp [InState.take]

theorem leaves_rules {pos : Nat} (obj : Object) (hexit : exit.accepted = true)
    (hne : exit ≠ .wrapped) (hwords : pos + 1 + v.rulesWords st.pos = st.pos + words) :
    Leaves exit words st
      (if verIndirectMem ≤ v.sock.version && hasFlag (v.a st.pos).flags descriptorObject then
        .ok (st.take obj (pos + numExtraArgsSpecialRules)) else .ok (st.take obj pos)) := by
  unfold ArgVector.rulesWords at hwords
  split_ifs at hwords ⊢
  · exact .of_ok hexit (advanced_take obj hne (by omega))
  · exact .of_ok hexit (advanced_take obj hne (by omega))

theorem leaves_msforwarder (h : hasFlag (v.a st.pos).flags objFlag = true) :
    ∃ r, marshalInMsforwarder v.sock v.table v.a objFlag st = some r ∧
      Leaves (msforwarderExit v.table (v.a st.pos))
        (v.words st.pos (msforwarderExit v.table (v.a st.pos))) st r := by
  unfold marshalInMsforwarder msforwarderExit
  dsimp only
  rw [h]
  refine ⟨_, rfl, ?_⟩
  cases v.table.recoverObject (v.a st.pos).handle with
  | none => exact .of_error rfl rfl
  | some obj =>
    dsimp only
    by_cases hmem : hasFlag (v.a st.pos).flags memparcelObject = true
    · rw [if_pos hmem, if_pos hmem]
      cases obj with
      | wrappedMemparcel attached mp =>
        dsimp only
        refine leaves_rules _ rfl (by decide) ?_
        simp only [ArgVector.words]
        omega
      | _ => exact .of_error rfl rfl
    · rw [if_neg hmem, if_neg hmem]
      refine leaves_rules _ rfl (by decide) ?_
      simp only [ArgVector.words]
      omega

theorem leaves_localGenericMem (hfds : st.fds.length = v.numFds)
    (h : hasFlag (v.a st.pos).flags descriptorObject = true) :
    ∃ r, marshalInLocalGenericMem v.sock v.env v.a st = some r ∧
      Leaves (localGenericMemExit v.sock v.env v.a v.numFds st.pos st.fdIdx)
        (v.words st.pos (localGenericMemExit v.sock v.env v.a v.numFds st.pos st.fdIdx)) st r := by
  unfold marshalInLocalGenericMem localGenericMemExit
  dsimp only
  rw [h]
  refine ⟨_, rfl, ?_⟩
  by_cases hidx : st.fdIdx ≥ v.numFds
  · rw [if_pos hidx, List.getElem?_eq_none (by omega)]
    exact .of_error rfl rfl
  rw [if_neg hidx, List.getElem?_eq_getElem (by omega)]
  dsimp only
  have hrules : v.rulesWords st.pos = if verIndirectMem ≤ v.sock.version then
      numExtraArgsSpecialRules else 0 := by
    simp [ArgVector.rulesWords, h]
  by_cases hnew : (!v.env.fdWrapperNew st.pos) = true
  · rw [if_pos hnew, if_pos hnew]
    exact .of_error rfl rfl
  rw [if_neg hnew, if_neg hnew]
  by_cases hdep : ((v.a st.pos).handle != invalidObjectHandle &&
      (v.a st.pos).handle != nullObjectHandle && !v.env.msForwarderNew st.pos) = true
  · rw [if_pos hdep, if_pos hdep]
    exact .of_error rfl rfl
  rw [if_neg hdep, if_neg hdep]
  by_cases hver : verIndirectMem ≤ v.sock.version
  · rw [if_pos hver, if_pos hver]
    rw [if_pos hver] at hrules
    cases readChunks v.a memparcelSpecialRules numExtraArgsSpecialRules (st.pos + 1) with
    | none => exact .of_error rfl rfl
    | some rules =>
      dsimp only
      by_cases hattach : (!v.env.attachConfinement st.pos) = true
      · rw [if_pos hattach, if_pos hattach]
        exact .of_error rfl rfl
      rw [if_neg hattach, if_neg hattach]
      refine .of_ok rfl ⟨?_, rfl, rfl, ?_⟩
      · simp only [InState.take, ArgVector.words]
        omega
      · simp [InState.take]
  · rw [if_neg hver, if_neg hver]
    rw [if_neg hver] at hrules
    refine .of_ok rfl ⟨?_, rfl, rfl, ?_⟩
    · simp only [InState.take, ArgVector.words, hrules]
    · simp [InState.take]

theorem leaves_remoteGenericMem (h : hasFlag (v.a st.pos).flags objFlag = true)
    (hmem : hasFlag (v.a st.pos).flags memparcelObject = true) :
    ∃ r, marshalInRemoteGenericMem v.sock v.env v.a objFlag st = some r ∧
      Leaves (remoteGenericMemExit v.env v.a st.pos)
        (v.words st.pos (remoteGenericMemExit v.env v.a st.pos)) st r := by
  unfold marshalInRemoteGenericMem remoteGenericMemExit
  dsimp only
  rw [h, hmem]
  refine ⟨_, rfl, ?_⟩
  cases readChunks v.a memparcelInfo numExtraArgsPerMemparcel (st.pos + 1) with
  | none => exact .of_error rfl rfl
  | some mp =>
    cases readChunks v.a memparcelSpecialRules numExtraArgsSpecialRules
        (st.pos + 1 + numExtraArgsPerMemparcel) with
    | none => exact .of_error rfl rfl
    | some rules =>
      dsimp only
      cases v.env.getMSMem st.pos mp with
      | none => exact .of_error rfl rfl
      | some dmaFd =>
        dsimp only
        split_ifs
        · exact .of_error rfl rfl
        · refine .of_ok rfl (advanced_take _ (by decide) ?_)
          simp only [ArgVector.words]
          omega

theorem leaves_genericObject (h : hasFlag (v.a st.pos).flags objFlag = true)
    (hmem : hasFlag (v.a st.pos).flags memparcelObject = false) :
    ∃ r, marshalInGenericObject v.sock v.env v.a objFlag st = some r ∧
      Leaves (genericObjectExit v.env st.pos)
        (v.words st.pos (genericObjectExit v.env st.pos)) st r := by
  unfold marshalInGenericObject genericObjectExit
  dsimp only
  rw [h, hmem, Bool.not_true, Bool.or_self, if_neg Bool.false_ne_true]
  split_ifs
  · exact ⟨_, rfl, .of_ok rfl (advanced_take _ (by decide) rfl)⟩
  · exact ⟨_, rfl, .of_error rfl rfl⟩

theorem leaves_nullObject (h : (v.a st.pos).flags = nullObjectFlag) :
    ∃ r, marshalInNullObject v.a st = some r ∧ Leaves .null (v.words st.pos .null) st r := by
  unfold marshalInNullObject
  rw [if_pos h]
  exact ⟨_, rfl, .of_ok rfl (advanced_take _ (by decide) rfl)⟩

end Scenarios

section Chain

variable {v : ArgVector} {c : Custody} {flag : Nat}

theorem attempt_eq_none {exit : Exit} {r : Attempt InState} (h : r = none) :
    c.attempt exit r = none := by
  rw [h]
  rfl

theorem nullObject_eq_none (h : (v.a c.st.pos).flags ≠ nullObjectFlag) :
    marshalInNullObject v.a c.st = none :=
  if_neg h

theorem msforwarder_eq_none (h : hasFlag (v.a c.st.pos).flags flag = false) :
    marshalInMsforwarder v.sock v.table v.a flag c.st = none := by
  unfold marshalInMsforwarder
  simp [h]

theorem localGenericMem_eq_none (h : hasFlag (v.a c.st.pos).flags descriptorObject = false) :
    marshalInLocalGenericMem v.sock v.env v.a c.st = none := by
  unfold marshalInLocalGenericMem
  simp [h]

theorem remoteGenericMem_eq_none (h : hasFlag (v.a c.st.pos).flags flag = false ∨
      hasFlag (v.a c.st.pos).flags memparcelObject = false) :
    marshalInRemoteGenericMem v.sock v.env v.a flag c.st = none := by
  unfold marshalInRemoteGenericMem
  rcases h with h | h <;> simp [h]

theorem genericObject_eq_none (h : hasFlag (v.a c.st.pos).flags flag = false) :
    marshalInGenericObject v.sock v.env v.a flag c.st = none := by
  unfold marshalInGenericObject
  simp [h]

/-- The attempts of an object in their order, where the second one at a memparcel looks for
`flag`. -/
def attempts (v : ArgVector) (flag : Nat) (c : Custody) : Attempt Custody :=
  let pos := c.st.pos
  let localExit := localGenericMemExit v.sock v.env v.a c.st.fds.length pos c.st.fdIdx
  c.attempt .null (marshalInNullObject v.a c.st) <|> c.attempt (msforwarderExit v.table (v.a pos))
      (marshalInMsforwarder v.sock v.table v.a v.own c.st) <|>
    c.attempt localExit (marshalInLocalGenericMem v.sock v.env v.a c.st) <|>
    c.attempt localExit (marshalInLocalGenericMem v.sock v.env v.a c.st) <|>
    c.attempt (remoteGenericMemExit v.env v.a pos)
      (marshalInRemoteGenericMem v.sock v.env v.a v.other c.st) <|>
    c.attempt (remoteGenericMemExit v.env v.a pos)
      (marshalInRemoteGenericMem v.sock v.env v.a flag c.st) <|>
    c.attempt (genericObjectExit v.env pos) (marshalInGenericObject v.sock v.env v.a v.other c.st)

theorem attempts_spec (hfds : c.st.fds.length = v.numFds) (hpos : c.st.pos < lxcomMaxArgs)
    (hflag : flag = v.own ∨ flag = v.other) :
    (v.exit c.st.pos c.st.fdIdx = .unmatched ∧ attempts v flag c = none) ∨
    ((v.exit c.st.pos c.st.fdIdx).tried = true ∧
      ∃ r, attempts v flag c = some (r.map (c.leave (v.exit c.st.pos c.st.fdIdx))) ∧
        Leaves (v.exit c.st.pos c.st.fdIdx)
          (v.words c.st.pos (v.exit c.st.pos c.st.fdIdx)) c.st r) := by
  unfold attempts ArgVector.exit
  dsimp only
  rw [if_neg (Nat.not_le.mpr hpos), hfds]
  by_cases hnull : (v.a c.st.pos).flags = nullObjectFlag
  · rw [if_pos hnull]
    obtain ⟨r, hr, hleaves⟩ := leaves_nullObject hnull
    rw [hr]
    exact .inr ⟨rfl, r, rfl, hleaves⟩
  rw [if_neg hnull, attempt_eq_none (nullObject_eq_none hnull)]
  by_cases hown : hasFlag (v.a c.st.pos).flags v.own = true
  · rw [if_pos hown]
    obtain ⟨r, hr, hleaves⟩ := leaves_msforwarder hown
    rw [hr]
    exact .inr ⟨msforwarderExit_tried _ _, r, rfl, hleaves⟩
  have hown' := Bool.eq_false_iff.mpr hown
  rw [if_neg hown, attempt_eq_none (msforwarder_eq_none hown')]
  by_cases hdesc : hasFlag (v.a c.st.pos).flags descriptorObject = true
  · rw [if_pos hdesc]
    obtain ⟨r, hr, hleaves⟩ := leaves_localGenericMem hfds hdesc
    rw [hr]
    exact .inr ⟨localGenericMemExit_tried _ _ _ _ _ _, r, rfl, hleaves⟩
  have hdesc' := Bool.eq_false_iff.mpr hdesc
  rw [if_neg hdesc, attempt_eq_none (localGenericMem_eq_none hdesc')]
  by_cases hother : hasFlag (v.a c.st.pos).flags v.other = true
  · rw [if_pos hother]
    by_cases hmem : hasFlag (v.a c.st.pos).flags memparcelObject = true
    · rw [if_pos hmem]
      obtain ⟨r, hr, hleaves⟩ := leaves_remoteGenericMem hother hmem
      rw [hr]
      exact .inr ⟨remoteGenericMemExit_tried _ _ _, r, rfl, hleaves⟩
    · have hmem' := Bool.eq_false_iff.mpr hmem
      rw [if_neg hmem, attempt_eq_none (remoteGenericMem_eq_none (.inr hmem')),
        attempt_eq_none (remoteGenericMem_eq_none (.inr hmem'))]
      obtain ⟨r, hr, hleaves⟩ := leaves_genericObject hother hmem'
      rw [hr]
      exact .inr ⟨genericObjectExit_tried _ _, r, rfl, hleaves⟩
  · have hother' := Bool.eq_false_iff.mpr hother
    have hflag' : hasFlag (v.a c.st.pos).flags flag = false := by
      rcases hflag with rfl | rfl
      · exact hown'
      · exact hother'
    rw [if_neg hother, attempt_eq_none (remoteGenericMem_eq_none (.inl hother')),
      attempt_eq_none (remoteGenericMem_eq_none (.inl hflag')),
      attempt_eq_none (genericObject_eq_none hother')]
    exact .inl ⟨rfl, rfl⟩

theorem Custody.leave_untried (c : Custody) {exit : Exit} (h : exit.tried = false) :
    c.leave exit c.st = c := by
  cases exit with
  | position | unmatched => simp [Custody.leave, Exit.slot, Exit.entries]
  | _ => cases h

end Chain

section Objects

variable (sock : MinkSocket) (table : Table) (env : Env) (a : Nat → Arg) (numFds : Nat)

def calleeVector : ArgVector := ⟨calleeObject, callerObject, sock, table, env, a, numFds⟩

def callerVector : ArgVector := ⟨callerObject, calleeObject, sock, table, env, a, numFds⟩

variable {sock table env a numFds} {c : Custody}

theorem exit_position {v : ArgVector} {pos fdIdx : Nat} (h : pos ≥ lxcomMaxArgs) :
    v.exit pos fdIdx = .position := by
  exact if_pos h

theorem exit_wrapped_lt {v : ArgVector} {pos fdIdx : Nat} (h : v.exit pos fdIdx = .wrapped) :
    fdIdx < v.numFds := by
  by_contra hge
  unfold ArgVector.exit at h
  dsimp only at h
  split_ifs at h
  · unfold msforwarderExit at h
    split at h
    · cases h
    · split_ifs at h
      split at h <;> cases h
  · unfold localGenericMemExit at h
    rw [if_pos (Nat.not_lt.mp hge)] at h
    cases h
  · unfold remoteGenericMemExit at h
    split at h
    · split at h
      · cases h
      · split_ifs at h
    · cases h
  · unfold genericObjectExit at h
    split_ifs at h

theorem trackCalleeObject_spec (hfds : c.st.fds.length = numFds) {exit : Exit}
    (hexit : exit = (calleeVector sock table env a numFds).exit c.st.pos c.st.fdIdx) :
    (exit.accepted = true → ∃ st', trackCalleeObject sock table env a c = .ok (c.leave exit st') ∧
      Advanced exit ((calleeVector sock table env a numFds).words c.st.pos exit) c.st st') ∧
    (exit.accepted = false → ∃ e st', trackCalleeObject sock table env a c =
      .error e (c.leave exit st') ∧ st'.fds = c.st.fds) := by
  have hdef : trackCalleeObject sock table env a c = if c.st.pos ≥ lxcomMaxArgs then
      .error .maxArgs c else (attempts (calleeVector sock table env a numFds) callerObject c).getD
        (.error .error c) := rfl
  rw [hdef]
  by_cases hpos : c.st.pos ≥ lxcomMaxArgs
  · rw [exit_position hpos] at hexit
    rw [if_pos hpos, hexit]
    exact ⟨fun hacc => absurd hacc Bool.false_ne_true,
      fun _ => ⟨_, c.st, by rw [c.leave_untried rfl], rfl⟩⟩
  rw [if_neg hpos]
  rcases @attempts_spec (calleeVector sock table env a numFds) c callerObject hfds
      (Nat.not_le.mp hpos) (.inr rfl) with ⟨hun, hnone⟩ | ⟨-, r, hr, hleaves⟩
  · rw [hnone, hexit, hun]
    exact ⟨fun hacc => absurd hacc Bool.false_ne_true,
      fun _ => ⟨_, c.st, by rw [c.leave_untried rfl]; rfl, rfl⟩⟩
  rw [hr]
  rw [← hexit] at hleaves ⊢
  refine ⟨fun hacc => ?_, fun hrej => ?_⟩
  · obtain ⟨st', rfl, hadv⟩ := hleaves.ok hacc
    exact ⟨st', rfl, hadv⟩
  · obtain ⟨e, st', rfl, hkept⟩ := hleaves.error hrej
    exact ⟨e, st', rfl, hkept⟩

def afterAttempts (n : Nat) (c : Custody) : Attempt Custody → Outcome ObjectError Custody
  | none => .error .error c
  | some (.ok c') => .ok c'
  | some (.error e c') => .error e (c'.cleanup n)

theorem trackCallerObject_spec (hfds : c.st.fds.length = numFds) (n : Nat) {exit : Exit}
    (hexit : exit = (callerVector sock table env a numFds).exit c.st.pos c.st.fdIdx) :
    (exit.accepted = true → ∃ st', trackCallerObject sock table env a n c = .ok (c.leave exit st') ∧
      Advanced exit ((callerVector sock table env a numFds).words c.st.pos exit) c.st st') ∧
    (exit.accepted = false → ∃ e st', trackCallerObject sock table env a n c =
      .error e (if exit.tried then (c.leave exit st').cleanup n else c) ∧ st'.fds = c.st.fds) := by
  have hdef : trackCallerObject sock table env a n c =
      if c.st.pos ≥ lxcomMaxArgs then .error .maxArgs c
      else afterAttempts n c (attempts (callerVector sock table env a numFds) callerObject c) :=
    rfl
  rw [hdef]
  by_cases hpos : c.st.pos ≥ lxcomMaxArgs
  · rw [exit_position hpos] at hexit
    rw [if_pos hpos, hexit]
    exact ⟨fun hacc => absurd hacc Bool.false_ne_true, fun _ => ⟨_, c.st, rfl, rfl⟩⟩
  rw [if_neg hpos]
  rcases @attempts_spec (callerVector sock table env a numFds) c callerObject hfds
      (Nat.not_le.mp hpos) (.inl rfl) with ⟨hun, hnone⟩ | ⟨htried, r, hr, hleaves⟩
  · rw [hnone, hexit, hun]
    exact ⟨fun hacc => absurd hacc Bool.false_ne_true, fun _ => ⟨_, c.st, rfl, rfl⟩⟩
  rw [hr]
  rw [← hexit] at hleaves htried ⊢
  refine ⟨fun hacc => ?_, fun hrej => ?_⟩
  · obtain ⟨st', rfl, hadv⟩ := hleaves.ok hacc
    exact ⟨st', rfl, hadv⟩
  · obtain ⟨e, st', rfl, hkept⟩ := hleaves.error hrej
    refine ⟨e, st', ?_, hkept⟩
    rw [if_pos htried]
    rfl

end Objects

end MinkIpc.Unmarshal
