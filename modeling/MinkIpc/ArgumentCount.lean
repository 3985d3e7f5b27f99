import MinkIpc.MarshalOutFailure
import MinkIpc.RequestRoundTrip
import MinkIpc.ResponseRoundTrip
import MinkIpc.UnmarshalExits

/-! The number of extra words in the argument vector is computed before the objects are
marshalled, from tests of its own. Here it is compared with the words the objects take. -/

namespace MinkIpc

open Bytes

def memoryWords (sock : MinkSocket) : Nat :=
  if sock.isRemote then numExtraArgsPerMemparcel + numExtraArgsSpecialRules
  else if verIndirectMem ≤ sock.version then numExtraArgsSpecialRules
  else 0

def MemObj.fd : MemObj → Int
  | .fdWrapper w => w.descriptor
  | .msMem m => m.dmaBufFd

-- The words an object takes behind its own, whatever its descriptor.
def extraTaken (sock : MinkSocket) : Object → Nat
  | .mem _ => memoryWords sock
  | _ => 0

/-- The tests of the count see the object as the marshalling does. -/
def Counted (sock : MinkSocket) : Object → Prop
  | .mem o => 0 < o.fd ∨ memoryWords sock = 0
  | _ => True

theorem numExtraArgsOutbound_mem (sock : MinkSocket) (o : MemObj) :
    numExtraArgsOutbound sock (.mem o) = if 0 < o.fd then memoryWords sock else 0 := by
  have hseen : ((isWrappedFd (.mem o)).isSome || (isMSMem (.mem o)).isSome) = decide (0 < o.fd) := by
    cases o with
    | fdWrapper w =>
      by_cases h : 0 < w.descriptor <;>
        simp [isWrappedFd, isMSMem, FdWrapperFromObject, MSMemFromObject, MemObj.fd, h]
    | msMem m =>
      by_cases h : 0 < m.dmaBufFd <;>
        simp [isWrappedFd, isMSMem, FdWrapperFromObject, MSMemFromObject, MemObj.fd, h]
  simp only [numExtraArgsOutbound, hseen, decide_eq_true_iff]
  rfl

theorem numExtraArgsOutbound_le (sock : MinkSocket) (obj : Object) :
    numExtraArgsOutbound sock obj ≤ extraTaken sock obj := by
  cases obj with
  | mem o =>
    rw [numExtraArgsOutbound_mem]
    split_ifs
    · exact Nat.le_refl _
    · exact Nat.zero_le _
  | _ => exact Nat.zero_le _

theorem counted_iff (sock : MinkSocket) (obj : Object) :
    Counted sock obj ↔ extraTaken sock obj = numExtraArgsOutbound sock obj := by
  cases obj with
  | mem o =>
    rw [numExtraArgsOutbound_mem, extraTaken, Counted]
    split_ifs with h <;> simp [h]
  | _ => exact ⟨fun _ => rfl, fun _ => trivial⟩

theorem countNumExtraArgsOutbound_le (sock : MinkSocket) (objs : List Object) :
    countNumExtraArgsOutbound sock objs ≤ (objs.map (extraTaken sock)).sum := by
  induction objs with
  | nil => exact Nat.le_refl _
  | cons obj objs ih =>
    have hobj := numExtraArgsOutbound_le sock obj
    simp only [countNumExtraArgsOutbound, List.map_cons, List.sum_cons] at ih ⊢
    omega

theorem sum_extraTaken_iff (sock : MinkSocket) (objs : List Object) :
    (objs.map (extraTaken sock)).sum = countNumExtraArgsOutbound sock objs ↔
      ∀ obj ∈ objs, Counted sock obj := by
  induction objs with
  | nil => simp [countNumExtraArgsOutbound]
  | cons obj objs ih =>
    have hobj := numExtraArgsOutbound_le sock obj
    have hobjs := countNumExtraArgsOutbound_le sock objs
    rw [List.forall_mem_cons, ← ih, counted_iff]
    simp only [countNumExtraArgsOutbound, List.map_cons, List.sum_cons] at hobjs ⊢
    omega

section Outbound

variable {hd : Handles} {sock : MinkSocket} {env : Env} {base : Nat} {obj : Object}
  {st st' : OutState}

theorem callerFootprint_words (sock : MinkSocket) (obj : Object) :
    (callerFootprint sock obj).words = 1 + extraTaken sock obj := by
  cases obj with
  | mem o =>
    cases o <;> cases hside : sock.isRemote <;>
      simp [callerFootprint, msMemFootprint, extraTaken, memoryWords, MinkSocket.rulesWords,
        memparcelWords, hside, Nat.add_assoc]
  | _ => rfl

theorem calleeFootprint_words (sock : MinkSocket) (obj : Object) :
    (calleeFootprint sock obj).words = 1 + extraTaken sock obj := by
  rw [← callerFootprint_words]
  cases obj with
  | mem o =>
    cases o <;> cases hside : sock.isRemote <;>
      simp [callerFootprint, calleeFootprint, hside]
  | _ => rfl

theorem Treats.pos {refused : Prop} {foot : Footprint}
    (h : Treats hd refused foot st (.ok st')) : st'.pos = st.pos + foot.words := by
  by_cases hr : refused
  · obtain ⟨e, st₁, he, -⟩ := h.error hr
    cases he
  · obtain ⟨st₁, hok, hpassed⟩ := h.ok hr
    cases hok
    exact hpassed.pos

theorem marshalOutCallerObject_pos
    (h : marshalOutCallerObject hd sock env base maxFds obj st = .ok st') :
    st'.pos = st.pos + (1 + extraTaken sock obj) := by
  have htreats := treats_callerObject hd sock env base obj st
  rw [h] at htreats
  rw [htreats.pos, callerFootprint_words]

theorem marshalOutCalleeObject_pos
    (h : marshalOutCalleeObject hd sock env base maxFds obj st = .ok st') :
    st'.pos = st.pos + (1 + extraTaken sock obj) := by
  have htreats := treats_calleeObject hd sock env base obj st
  rw [h] at htreats
  rw [htreats.pos, calleeFootprint_words]

theorem forEach_pos {f : OutState → Object → Outcome ObjectError OutState}
    (hf : ∀ st obj st', f st obj = .ok st' → st'.pos = st.pos + (1 + extraTaken sock obj))
    {objs : List Object} (h : Outcome.forEach f objs st = .ok st') :
    st'.pos = st.pos + (objs.length + (objs.map (extraTaken sock)).sum) := by
  induction objs generalizing st with
  | nil =>
    cases h
    rfl
  | cons obj objs ih =>
    obtain ⟨st₁, h₁, h₂⟩ := Outcome.forEach_cons_eq_ok.mp h
    rw [ih h₂, hf st obj st₁ h₁, List.length_cons, List.map_cons, List.sum_cons]
    omega

end Outbound

section Inbound

variable {d : Direction} {sock : MinkSocket} {table : Table} {env : Env} {a : Nat → Arg}
  {st st' : InState}

def countedWords (sock : MinkSocket) (flags : Nat) : Nat :=
  if hasFlag flags memparcelObject then numExtraArgsPerMemparcel + numExtraArgsSpecialRules
  else if hasFlag flags descriptorObject && verIndirectMem ≤ sock.version then
    numExtraArgsSpecialRules
  else 0

-- The words read behind a word with these flags; `own` marks an object of the receiver.
def takenWords (own : Nat) (sock : MinkSocket) (flags : Nat) : Nat :=
  if hasFlag flags own then
    (if hasFlag flags memparcelObject then
      numExtraArgsPerMemparcel + numExtraArgsSpecialRules else 0) +
    (if verIndirectMem ≤ sock.version && hasFlag flags descriptorObject then
      numExtraArgsSpecialRules else 0)
  else if hasFlag flags descriptorObject then
    if verIndirectMem ≤ sock.version then numExtraArgsSpecialRules else 0
  else if hasFlag flags memparcelObject then numExtraArgsPerMemparcel + numExtraArgsSpecialRules
  else 0

/-- A word that claims to be a memparcel and a descriptor at once. The count believes the first
flag; the loop believes the second, or both for an object of its own. -/
def Clash (own : Nat) (sock : MinkSocket) (flags : Nat) : Prop :=
  hasFlag flags memparcelObject = true ∧ hasFlag flags descriptorObject = true ∧
    (hasFlag flags own = true → verIndirectMem ≤ sock.version)

instance (own : Nat) (sock : MinkSocket) (flags : Nat) : Decidable (Clash own sock flags) :=
  inferInstanceAs (Decidable (_ ∧ _ ∧ _))

theorem takenWords_eq_iff (own : Nat) (sock : MinkSocket) (flags : Nat) :
    takenWords own sock flags = countedWords sock flags ↔ ¬ Clash own sock flags := by
  unfold takenWords countedWords Clash
  cases hasFlag flags own <;> cases hasFlag flags memparcelObject <;>
    cases hasFlag flags descriptorObject <;> by_cases hv : verIndirectMem ≤ sock.version <;>
    simp [hv, numExtraArgsPerMemparcel, numExtraArgsSpecialRules]

theorem countNumExtraArgsInbound_succ (sock : MinkSocket) (a : Nat → Arg) (n ii : Nat) :
    countNumExtraArgsInbound sock a (n + 1) ii = countedWords sock (a ii).flags +
      countNumExtraArgsInbound sock a n (ii + 1 + countedWords sock (a ii).flags) := by
  rw [countNumExtraArgsInbound, countedWords]
  split_ifs
  · rw [show ii + numExtraArgsPerMemparcel + numExtraArgsSpecialRules + 1 =
      ii + 1 + (numExtraArgsPerMemparcel + numExtraArgsSpecialRules) by omega]
  · rw [show ii + numExtraArgsSpecialRules + 1 = ii + 1 + numExtraArgsSpecialRules by omega]
  · rw [Nat.zero_add]

theorem countNumExtraArgsInbound_snoc (sock : MinkSocket) (a : Nat → Arg) (n ii : Nat) :
    countNumExtraArgsInbound sock a (n + 1) ii = countNumExtraArgsInbound sock a n ii +
      countedWords sock (a (ii + (n + countNumExtraArgsInbound sock a n ii))).flags := by
  induction n generalizing ii with
  | zero =>
    rw [countNumExtraArgsInbound_succ]
    simp [countNumExtraArgsInbound]
  | succ n ih =>
    rw [countNumExtraArgsInbound_succ, ih, countNumExtraArgsInbound_succ sock a n ii]
    rw [show ii + (n + 1 + (countedWords sock (a ii).flags +
        countNumExtraArgsInbound sock a n (ii + 1 + countedWords sock (a ii).flags))) =
      ii + 1 + countedWords sock (a ii).flags +
        (n + countNumExtraArgsInbound sock a n (ii + 1 + countedWords sock (a ii).flags)) by omega]
    omega

section Exits

open Unmarshal

theorem msforwarderExit_accepted {arg : Arg} (h : (msforwarderExit table arg).accepted = true) :
    msforwarderExit table arg =
      if hasFlag arg.flags memparcelObject then .attached else .recovered := by
  unfold msforwarderExit at h ⊢
  cases hrec : table.recoverObject arg.handle with
  | none => simp [hrec, Exit.accepted] at h
  | some obj =>
    cases hmp : hasFlag arg.flags memparcelObject with
    | false => rfl
    | true =>
      cases obj with
      | wrappedMemparcel attached mp => rfl
      | _ => simp [hrec, hmp, Exit.accepted] at h

theorem localGenericMemExit_accepted {numFds pos fdIdx : Nat}
    (h : (localGenericMemExit sock env a numFds pos fdIdx).accepted = true) :
    localGenericMemExit sock env a numFds pos fdIdx = .wrapped := by
  unfold localGenericMemExit at h ⊢
  cases hrules : readChunks a memparcelSpecialRules numExtraArgsSpecialRules (pos + 1) <;>
    · simp only [hrules] at h ⊢
      split_ifs at h ⊢ <;> first | rfl | cases h

theorem remoteGenericMemExit_accepted {pos : Nat}
    (h : (remoteGenericMemExit env a pos).accepted = true) :
    remoteGenericMemExit env a pos = .mapped := by
  unfold remoteGenericMemExit at h ⊢
  split at h
  · split at h
    · cases h
    · split_ifs at h ⊢
      · cases h
      · rfl
  · cases h

-- an accepted object has been read as its flags say
theorem words_exit (v : ArgVector) {pos fdIdx : Nat} (h : (v.exit pos fdIdx).accepted = true) :
    v.words pos (v.exit pos fdIdx) = 1 + takenWords v.own v.sock (v.a pos).flags := by
  unfold ArgVector.exit at h ⊢
  unfold takenWords
  by_cases hpos : pos ≥ lxcomMaxArgs
  · rw [if_pos hpos] at h
    cases h
  simp only [if_neg hpos] at h ⊢
  by_cases hnull : (v.a pos).flags = nullObjectFlag
  · simp [hnull, ArgVector.words, hasFlag, nullObjectFlag]
  simp only [if_neg hnull] at h ⊢
  by_cases hown : hasFlag (v.a pos).flags v.own = true
  · simp only [if_pos hown] at h ⊢
    rw [msforwarderExit_accepted h]
    split_ifs <;> simp_all [ArgVector.words, ArgVector.rulesWords, Nat.add_assoc]
  simp only [if_neg hown] at h ⊢
  by_cases hdesc : hasFlag (v.a pos).flags descriptorObject = true
  · simp only [if_pos hdesc] at h ⊢
    rw [localGenericMemExit_accepted h]
    simp [ArgVector.words, ArgVector.rulesWords, hdesc]
  simp only [if_neg hdesc] at h ⊢
  by_cases hother : hasFlag (v.a pos).flags v.other = true
  · simp only [if_pos hother] at h ⊢
    by_cases hmem : hasFlag (v.a pos).flags memparcelObject = true
    · simp only [if_pos hmem] at h ⊢
      rw [remoteGenericMemExit_accepted h, ArgVector.words, Nat.add_assoc]
    · unfold genericObjectExit at h ⊢
      split_ifs at h ⊢
      · rfl
      · cases h
  · rw [if_neg hother] at h
    cases h

theorem pos_of_accepted {v : ArgVector} {c : Custody} {r : Outcome ObjectError Custody} {exit : Exit}
    (hexit : exit = v.exit c.st.pos c.st.fdIdx)
    (hok : exit.accepted = true → ∃ st₁, r = .ok (c.leave exit st₁) ∧
      Advanced exit (v.words c.st.pos exit) c.st st₁)
    (herror : exit.accepted = false → ∃ e c₁, r = .error e c₁)
    (h : r.map Custody.st = .ok st') :
    st'.pos = c.st.pos + (1 + takenWords v.own v.sock (v.a c.st.pos).flags) := by
  cases hacc : exit.accepted with
  | true =>
    obtain ⟨st₁, rfl, hadv⟩ := hok hacc
    cases h
    subst hexit
    rw [← words_exit v hacc]
    exact hadv.pos
  | false =>
    obtain ⟨e, c₁, rfl⟩ := herror hacc
    cases h

theorem marshalInCalleeObject_pos (h : marshalInCalleeObject sock table env a st = .ok st') :
    st'.pos = st.pos + (1 + takenWords calleeObject sock (a st.pos).flags) := by
  have hst := trackCalleeObject_st sock table env a ⟨st, fun _ => none, []⟩
  obtain ⟨hok, herror⟩ :=
    @trackCalleeObject_spec sock table env a _ ⟨st, fun _ => none, []⟩ rfl _ rfl
  refine pos_of_accepted rfl hok (fun hrej => ?_) (hst.trans h)
  obtain ⟨e, st₁, he, -⟩ := herror hrej
  exact ⟨e, _, he⟩

theorem marshalInCallerObject_pos (h : marshalInCallerObject sock table env a st = .ok st') :
    st'.pos = st.pos + (1 + takenWords callerObject sock (a st.pos).flags) := by
  have hst := trackCallerObject_st sock table env a 0 ⟨st, fun _ => none, []⟩
  obtain ⟨hok, herror⟩ :=
    @trackCallerObject_spec sock table env a _ ⟨st, fun _ => none, []⟩ rfl 0 _ rfl
  refine pos_of_accepted rfl hok (fun hrej => ?_) (hst.trans h)
  obtain ⟨e, st₁, he, -⟩ := herror hrej
  exact ⟨e, _, he⟩

end Exits

def InStep (objects : Nat → Outcome ObjectError InState) (sock : MinkSocket) (a : Nat → Arg)
    (start n : Nat) : Prop :=
  ∀ i ≤ n, ∀ st, objects i = .ok st → st.pos = start + (i + countNumExtraArgsInbound sock a i start)

theorem forEach_replicate_snoc {f : InState → Unit → Outcome ObjectError InState} {n : Nat} :
    Outcome.forEach f (List.replicate (n + 1) ()) st = .ok st' ↔
      ∃ st₁, Outcome.forEach f (List.replicate n ()) st = .ok st₁ ∧ f st₁ () = .ok st' := by
  induction n generalizing st with
  | zero =>
    rw [List.replicate_succ, Outcome.forEach_cons_eq_ok]
    constructor
    · rintro ⟨u, hu, hst⟩
      cases hst
      exact ⟨st, rfl, hu⟩
    · rintro ⟨u, hu, hst⟩
      cases hu
      exact ⟨st', hst, rfl⟩
  | succ n ih =>
    rw [List.replicate_succ, Outcome.forEach_cons_eq_ok]
    simp only [ih]
    constructor
    · rintro ⟨u, hu, v, hv, hst⟩
      exact ⟨v, Outcome.forEach_cons_eq_ok.mpr ⟨u, hu, hv⟩, hst⟩
    · rintro ⟨v, hv, hst⟩
      obtain ⟨u, hu, hv⟩ := Outcome.forEach_cons_eq_ok.mp hv
      exact ⟨u, hu, v, hv, hst⟩

theorem inStep_iff {f : InState → Outcome ObjectError InState} {own n : Nat}
    (hf : ∀ st st', f st = .ok st' → st'.pos = st.pos + (1 + takenWords own sock (a st.pos).flags))
    (h : Outcome.forEach (fun st (_ : Unit) => f st) (List.replicate n ()) st = .ok st') :
    InStep (fun i => Outcome.forEach (fun st (_ : Unit) => f st) (List.replicate i ()) st) sock a
        st.pos n ↔
      ∀ i < n, ¬ Clash own sock
        (a (st.pos + (i + countNumExtraArgsInbound sock a i st.pos))).flags := by
  have hrun : ∀ i ≤ n, ∃ u,
      Outcome.forEach (fun st (_ : Unit) => f st) (List.replicate i ()) st = .ok u := by
    intro i hi
    induction n generalizing st' with
    | zero =>
      obtain rfl : i = 0 := by omega
      exact ⟨_, h⟩
    | succ n ih =>
      rcases Nat.lt_or_ge i (n + 1) with hlt | hge
      · obtain ⟨u, hu, -⟩ := forEach_replicate_snoc.mp h
        exact ih hu (by omega)
      · obtain rfl : i = n + 1 := by omega
        exact ⟨_, h⟩
  constructor
  · intro hstep i hi
    obtain ⟨u, hu⟩ := hrun (i + 1) (by omega)
    obtain ⟨v, hv, hvu⟩ := forEach_replicate_snoc.mp hu
    have hpos := hstep i (by omega) v hv
    have hnext := hstep (i + 1) (by omega) u hu
    have htaken := hf v u hvu
    rw [hpos] at htaken
    rw [countNumExtraArgsInbound_snoc] at hnext
    rw [← takenWords_eq_iff]
    omega
  · intro hclash i
    induction i with
    | zero =>
      intro _ u hu
      cases hu
      rfl
    | succ i ih =>
      intro hi u hu
      obtain ⟨v, hv, hvu⟩ := forEach_replicate_snoc.mp hu
      have hpos := ih (by omega) v hv
      have htaken := hf v u hvu
      rw [hpos, (takenWords_eq_iff ..).mpr (hclash i (by omega))] at htaken
      rw [countNumExtraArgsInbound_snoc]
      omega

end Inbound

/-- The vector of `n` objects behind `start` words ends where it was counted to end, in front of
the first buffer. -/
structure VectorEnds (base start n numExtra pos : Nat) : Prop where
  taken : pos = start + (n + numExtra)
  clear : base + 4 * pos ≤ padded (base + (start + n + numExtra) * 4)

theorem vectorEnds_iff {base start n numExtra pos : Nat} :
    VectorEnds base start n numExtra pos ↔ pos = start + (n + numExtra) := by
  refine ⟨VectorEnds.taken, fun h => ⟨h, ?_⟩⟩
  have hp := le_padded (base + (start + n + numExtra) * 4)
  omega

variable {sock : MinkSocket}

theorem InStep.vectorEnds {objects : Nat → Outcome ObjectError InState} {a : Nat → Arg}
    {start n : Nat} {st : InState} (h : InStep objects sock a start n) (hst : objects n = .ok st)
    (base : Nat) :
    VectorEnds base start n (countNumExtraArgsInbound sock a n start) st.pos :=
  vectorEnds_iff.mpr (h n (Nat.le_refl n) st hst)

theorem marshalOutCaller_pos {hd : Handles} {env : Env} {table : Table} {req : Request}
    {st : OutState} (h : marshalOutCaller hd sock env table req = .ok st) :
    st.pos = indexOI req.k + (numOI req.k + (req.oi.map (extraTaken sock)).sum) := by
  obtain ⟨-, st₁, hbuf, hobj⟩ := marshalOutCaller_eq_ok h
  have hbi := req.bi_length
  have hcopied : Copied reqArgs 0 req.bi _ st₁ :=
    marshalOutBuffers_copied (fun _ _ _ _ _ => rfl)
      (by simp only [OutState.new, sizeofInvReq, numIn]; omega) hbuf
  have hpos₁ : st₁.pos = indexOI req.k := hcopied.pos
  have hstep : ∀ st obj st', marshalOutCallerObject hd sock env reqArgs maxFds obj st = .ok st' →
      st'.pos = st.pos + (1 + extraTaken sock obj) := fun _ _ _ => marshalOutCallerObject_pos
  rw [forEach_pos hstep hobj, req.oi_length]
  exact congrArg (· + _) hpos₁

theorem marshalOutCallee_pos {hd : Handles} {env : Env} {table : Table} {resp : Response}
    {st : OutState} (h : marshalOutCallee hd sock env table resp = .ok st) :
    st.pos = numBO resp.k + (numOO resp.k + (resp.oo.map (extraTaken sock)).sum) := by
  obtain ⟨-, st₁, hbuf, hobj⟩ := marshalOutCallee_eq_ok h
  have hbo := resp.bo_length
  have hcopied : Copied succArgs 0 resp.bo _ st₁ :=
    marshalOutBuffers_copied (putArgSize_of_outside succArgs)
      (by simp only [OutState.new, sizeofInvSucc, numOut]; omega) hbuf
  have hpos₁ : st₁.pos = numBO resp.k := hcopied.pos
  have hstep : ∀ st obj st', marshalOutCalleeObject hd sock env succArgs maxFds obj st = .ok st' →
      st'.pos = st.pos + (1 + extraTaken sock obj) := fun _ _ _ => marshalOutCalleeObject_pos
  rw [forEach_pos hstep hobj, resp.oo_length]
  exact congrArg (· + _) hpos₁

/-- On each of the four paths the extra words that are counted are those that are used, exactly under
the condition of the path. -/
theorem extraArgs_agree_iff (hd : Handles) (sock : MinkSocket) (env : Env) (table : Table) :
    (∀ req st, marshalOutCaller hd sock env table req = .ok st →
      (VectorEnds reqArgs (indexOI req.k) (numOI req.k) (countNumExtraArgsOutbound sock req.oi)
        st.pos ↔ ∀ obj ∈ req.oi, Counted sock obj)) ∧
    (∀ resp st, marshalOutCallee hd sock env table resp = .ok st →
      (VectorEnds succArgs (numBO resp.k) (numOO resp.k) (countNumExtraArgsOutbound sock resp.oo)
        st.pos ↔ ∀ obj ∈ resp.oo, Counted sock obj)) ∧
    (∀ data fds bufResv sizeResv args,
      marshalInCallee sock table env data fds bufResv sizeResv = .ok args →
      (InStep (fun i => marshalInCalleeObjects sock table env (argObj data reqArgs) i
          ⟨indexOI (reqK data), 0, fds, []⟩) sock (argObj data reqArgs) (indexOI (reqK data))
          (numOI (reqK data)) ∧
        VectorEnds reqArgs (indexOI (reqK data)) (numOI (reqK data)) (reqExtra sock data)
          args.oi.pos ↔
        ∀ i < numOI (reqK data), ¬ Clash calleeObject sock (argObj data reqArgs (indexOI (reqK data) +
          (i + countNumExtraArgsInbound sock (argObj data reqArgs) i (indexOI (reqK data))))).flags)) ∧
    (∀ data fds k bo args, marshalInCaller sock table env data fds k bo = .ok args →
      (InStep (fun i => marshalInCallerObjects sock table env (argObj data succArgs) i
          ⟨numBO k, 0, fds, []⟩) sock (argObj data succArgs) (numBO k) (numOO k) ∧
        VectorEnds succArgs (numBO k) (numOO k) (succExtra sock data k) args.oo.pos ↔
        ∀ i < numOO k, ¬ Clash callerObject sock (argObj data succArgs (numBO k +
          (i + countNumExtraArgsInbound sock (argObj data succArgs) i (numBO k)))).flags)) := by
  refine ⟨fun req st h => ?_, fun resp st h => ?_, fun data fds bufResv sizeResv args h => ?_,
    fun data fds k bo args h => ?_⟩
  · rw [vectorEnds_iff, ← sum_extraTaken_iff, marshalOutCaller_pos h]
    omega
  · rw [vectorEnds_iff, ← sum_extraTaken_iff, marshalOutCallee_pos h]
    omega
  · obtain ⟨-, -, -, -, hobj⟩ := marshalInCallee_eq_ok.mp h
    have hstep : ∀ st st', marshalInCalleeObject sock table env (argObj data reqArgs) st = .ok st' →
        st'.pos = st.pos + (1 + takenWords calleeObject sock (argObj data reqArgs st.pos).flags) :=
      fun _ _ => marshalInCalleeObject_pos
    have hiff := inStep_iff hstep hobj
    exact ⟨fun hs => hiff.mp hs.1, fun hc => ⟨hiff.mpr hc, (hiff.mpr hc).vectorEnds hobj _⟩⟩
  · obtain ⟨-, -, hobj⟩ := marshalInCaller_eq_ok.mp h
    have hstep : ∀ st st', marshalInCallerObject sock table env (argObj data succArgs) st = .ok st' →
        st'.pos = st.pos + (1 + takenWords callerObject sock (argObj data succArgs st.pos).flags) :=
      fun _ _ => marshalInCallerObject_pos
    have hiff := inStep_iff hstep hobj
    exact ⟨fun hs => hiff.mp hs.1, fun hc => ⟨hiff.mpr hc, (hiff.mpr hc).vectorEnds hobj _⟩⟩

theorem extraArgs_agree_sample :
    marshalOutCaller sampleHandles localSock healthyEnv (ObjectTable.construct 1024)
        (sampleRequest 16) = .ok (sampleRequestOut 16) ∧
      VectorEnds reqArgs 2 4 4 (sampleRequestOut 16).pos := by
  have hout : marshalOutCaller sampleHandles localSock healthyEnv (ObjectTable.construct 1024)
      (sampleRequest 16) = .ok (sampleRequestOut 16) := rfl
  refine ⟨hout, ((extraArgs_agree_iff _ _ _ _).1 _ _ hout).mpr ?_⟩
  simp [sampleRequest, Counted, MemObj.fd]

def stdinRequest : Request where
  handle := 3
  op := 5
  k := 0x101
  bi := [[9, 8]]
  bo := []
  oi := [.mem (.fdWrapper ⟨0, none, .rules 7⟩)]
  k_lt := by decide
  bi_length := rfl
  bo_length := rfl
  oi_length := rfl

def clashRequest : Mem :=
  write (fun _ => 0) 0 (le 4 60 ++ le 4 1 ++ le 4 7 ++ le 4 1 ++ le 4 0 ++ le 4 0x100 ++
    le 2 (calleeObject ||| descriptorObject ||| memparcelObject) ++ le 2 3)

def memparcelTable : Table where
  objects n := if n = 3 then some (.wrappedMemparcel (.fdWrapper ⟨7, none, .none⟩) 5) else none
  objectsLen := 1024
  objectsCount := 1

/-- Descriptor 0 is not counted. A word that is a memparcel and a descriptor is counted as one and
read as both. -/
theorem extraArgs_miscounted :
    (∃ st, marshalOutCaller sampleHandles localSock healthyEnv (ObjectTable.construct 1024)
        stdinRequest = .ok st ∧ countNumExtraArgsOutbound localSock stdinRequest.oi = 0 ∧
      st.pos = 1 + (1 + 4) ∧ read st.buf 32 3 = [32, 0, 7]) ∧
    marshalInCallee localSock memparcelTable healthyEnv clashRequest [] 0 1024 =
      .ok ⟨[], [], ⟨1 + 12, 0, [], [.mem (.fdWrapper ⟨7, none, .none⟩)]⟩⟩ ∧
    reqExtra localSock clashRequest = 8 :=
  ⟨⟨_, rfl, rfl, rfl, rfl⟩, by decide, by decide⟩

end MinkIpc
