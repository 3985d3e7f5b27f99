import MinkIpc.ObjectWords

/-! What the encoders write for the objects of a local connection: the words of
`VectorWords`, and nothing outside them. -/

namespace MinkIpc

open Bytes Option

/-- From `st` to `st'` only the words between the two positions were written, and the
table only gained objects. -/
structure Written (base : Nat) (st st' : OutState) : Prop where
  frame : ∀ a, a < base + 4 * st.pos ∨ base + 4 * st'.pos ≤ a → st'.buf a = st.buf a
  le : st.pos ≤ st'.pos
  grows : ∀ h o, st.table.objects h = some o → st'.table.objects h = some o
  wire : st'.sizeOnWire = st.sizeOnWire

def NewSlot (st st' : OutState) (n : Nat) (obj : Object) : Prop :=
  st.table.objects n = none ∧ st'.table.objects n = some obj

theorem Written.refl (base : Nat) (st : OutState) : Written base st st :=
  ⟨fun _ _ => rfl, Nat.le_refl _, fun _ _ h => h, rfl⟩

theorem Written.trans {base : Nat} {st st' st'' : OutState} (h : Written base st st')
    (h' : Written base st' st'') : Written base st st'' := by
  have hle := h.le
  have hle' := h'.le
  refine ⟨fun a ha => ?_, by omega, fun n o hn => h'.grows n o (h.grows n o hn),
    h'.wire.trans h.wire⟩
  rw [h'.frame a (by omega), h.frame a (by omega)]

theorem Written.argObj {base : Nat} {st st' : OutState} (h : Written base st st') {i : Nat}
    (hi : i < st.pos) : argObj st'.buf base i = argObj st.buf base i := by
  unfold MinkIpc.argObj
  rw [word_congr fun a ha hlt => h.frame a (by omega), word_congr fun a ha hlt => h.frame a (by omega)]

theorem OutState.word_written (base : Nat) (st : OutState) (flags handle : Nat) :
    Written base st (st.word base flags handle) := by
  refine ⟨fun a ha => ?_, Nat.le_succ _, fun _ _ h => h, rfl⟩
  rcases ha with ha | ha
  · exact putArgObj_of_lt ha
  · exact putArgObj_of_ge ha

theorem OutState.skip_written (base : Nat) (st : OutState) (n : Nat) :
    Written base st (st.skip n) :=
  ⟨fun _ _ => rfl, Nat.le_add_right _ _, fun _ _ h => h, rfl⟩

theorem OutState.argObj_word (base : Nat) (st : OutState) (flags handle : Nat) :
    argObj (st.word base flags handle).buf base st.pos = ⟨flags % 65536, handle % 65536⟩ :=
  argObj_putArgObj_self _ _ _ _ _

theorem OutState.chunks_pos (base flag n v : Nat) (st : OutState) :
    (OutState.chunks base flag n v st).pos = st.pos + n := by
  induction n generalizing v st with
  | zero => rfl
  | succ n ih =>
    rw [OutState.chunks, ih]
    simp only [OutState.word]
    omega

theorem OutState.chunks_written (base flag n v : Nat) (st : OutState) :
    Written base st (OutState.chunks base flag n v st) := by
  induction n generalizing v st with
  | zero => exact .refl base st
  | succ n ih => exact (OutState.word_written base st _ _).trans (ih _ _)

theorem OutState.chunks_fds (base flag n v : Nat) (st : OutState) :
    (OutState.chunks base flag n v st).fds = st.fds := by
  induction n generalizing v st with
  | zero => rfl
  | succ n ih => exact ih _ _

theorem OutState.readChunks_chunks {base flag : Nat} (hflag : hasFlag (flag % 65536) flag = true)
    (n v : Nat) (st : OutState) :
    readChunks (argObj (OutState.chunks base flag n v st).buf base) flag n st.pos =
      some (v % 65536 ^ n) := by
  induction n generalizing v st with
  | zero => simp [readChunks, Nat.mod_one]
  | succ n ih =>
    have hih := ih (v / 65536) (st.word base flag (v % 65536))
    have hhead : argObj (OutState.chunks base flag (n + 1) v st).buf base st.pos =
        ⟨flag % 65536, v % 65536⟩ := by
      rw [OutState.chunks, (OutState.chunks_written base flag n _ _).argObj (by simp [OutState.word]),
        OutState.argObj_word, Nat.mod_mod]
    have hmod : v % 65536 ^ (n + 1) = v % 65536 + 65536 * (v / 65536 % 65536 ^ n) := by
      rw [pow_succ', Nat.mod_mul]
    simp only [readChunks, hhead, hflag]
    rw [show st.pos + 1 = (st.word base flag (v % 65536)).pos from rfl, OutState.chunks, hih, hmod]
    rfl

def Supported (sock : MinkSocket) : Object → Prop
  | .null => True
  | .plain _ => True
  | .forwarder f => f.conn = sock.id
  | .mem (.fdWrapper w) => sock.isRemote = false ∧ 0 < w.descriptor
  | _ => False

abbrev MinkSocket.indirect (sock : MinkSocket) : Bool := decide (verIndirectMem ≤ sock.version)

structure Encoded (d : Direction) (sock : MinkSocket) (base : Nat) (obj : Object)
    (st st' : OutState) (fs : List Int) : Prop where
  words : ObjectWords d sock.id sock.indirect (NewSlot st st') (argObj st'.buf base) st.pos obj fs
    st'.pos
  written : Written base st st'
  fds : st'.fds = st.fds ++ fs
  pos : st'.pos = st.pos + 1 + numExtraArgsOutbound sock obj

section Encode

variable {hd : Handles} {sock : MinkSocket} {env : Env} {base numFds : Nat} {d : Direction}
  {st st' : OutState}

theorem Encoded.null : Encoded d sock base .null st
    (st.word base nullObjectFlag nullObjectHandle) [] where
  words := .null (by rw [OutState.argObj_word]; rfl)
  written := OutState.word_written base st _ _
  fds := (List.append_nil _).symm
  pos := rfl

theorem Encoded.own (hdir : d = .request ∨ d = .response) {f : MSForwarder}
    (hf : f.conn = sock.id) :
    Encoded d sock base (.forwarder f) st (st.word base d.own f.handle) [] where
  words := .own hf (by
    rw [OutState.argObj_word]
    rcases hdir with rfl | rfl <;> rfl)
  written := OutState.word_written base st _ _
  fds := (List.append_nil _).symm
  pos := rfl

theorem Encoded.fresh (hdir : d = .request ∨ d = .response) {id : Nat}
    (h : marshalOutGenericObject hd base d.other (.plain id) st = some (.ok st')) :
    Encoded d sock base (.plain id) st st' [] := by
  unfold marshalOutGenericObject at h
  cases hadd : st.table.addObject hd (.plain id) with
  | none => simp [hadd] at h
  | some r =>
    obtain ⟨n, table⟩ := r
    rw [hadd] at h
    cases h
    obtain ⟨-, hn, hfree, hobjects, -⟩ := ObjectTable.addObject_eq_some hadd
    have hlt := hd.primordial_lt
    have hwritten := OutState.word_written base { st with table := table } d.other n
    refine ⟨.fresh ⟨hfree, ?_⟩ ?_, ⟨hwritten.frame, hwritten.le, ?_, rfl⟩,
      (List.append_nil _).symm, rfl⟩
    · show table.objects n = _
      rw [hobjects, Function.update_self]
    · refine (OutState.argObj_word base { st with table := table } _ _).trans ?_
      rw [Nat.mod_eq_of_lt (by omega : n < 65536)]
      rcases hdir with rfl | rfl <;> rfl
    · intro h o ho
      show table.objects h = _
      rw [hobjects, Function.update_of_ne (by rintro rfl; rw [hfree] at ho; cases ho), ho]

theorem numExtraArgsOutbound_fdWrapper {w : FdWrapper} (hlocal : sock.isRemote = false)
    (hw : 0 < w.descriptor) :
    numExtraArgsOutbound sock (.mem (.fdWrapper w)) = extraWords sock.indirect := by
  by_cases hv : verIndirectMem ≤ sock.version <;>
    simp [numExtraArgsOutbound, isWrappedFd, FdWrapperFromObject, hw, hlocal, extraWords]

theorem Encoded.fd {w : FdWrapper} (hlocal : sock.isRemote = false) (hw : 0 < w.descriptor)
    (hdep : d.dependency sock.id w = none) :
    Encoded d sock base (.mem (.fdWrapper w)) st (marshalOutLocalGenericMem sock base st w)
      [w.descriptor] := by
  have hpos := numExtraArgsOutbound_fdWrapper hlocal hw
  -- the word of the descriptor, before the special rules
  obtain ⟨mid, hmid⟩ : ∃ mid, mid = { st.word base descriptorObject invalidObjectHandle with
      fds := st.fds ++ [w.descriptor] } := ⟨_, rfl⟩
  have hword := OutState.word_written base st descriptorObject invalidObjectHandle
  have hwritten : Written base st mid := hmid ▸ ⟨hword.frame, hword.le, hword.grows, hword.wire⟩
  have hnext : mid.pos = st.pos + 1 := hmid ▸ rfl
  have hflags : (argObj mid.buf base st.pos).flags = descriptorObject :=
    hmid ▸ congrArg Arg.flags (OutState.argObj_word base st _ _)
  by_cases hv : verIndirectMem ≤ sock.version
  · have heq : marshalOutLocalGenericMem sock base st w = mid.chunks base memparcelSpecialRules
        numExtraArgsSpecialRules w.confinement.specialRules := by
      simp [marshalOutLocalGenericMem, hv, OutState.word, hmid]
    have hchunks := OutState.chunks_written base memparcelSpecialRules numExtraArgsSpecialRules
      w.confinement.specialRules mid
    have hend : (mid.chunks base memparcelSpecialRules numExtraArgsSpecialRules
        w.confinement.specialRules).pos = st.pos + 1 + extraWords sock.indirect := by
      rw [OutState.chunks_pos, hnext]
      simp [extraWords, hv]
    rw [heq]
    refine ⟨?_, hwritten.trans hchunks, by rw [OutState.chunks_fds, hmid], by rw [hend, hpos]⟩
    rw [hend]
    refine .fd hdep ?_ fun _ => ?_
    · rw [hchunks.argObj (by omega), hflags]
    · rw [← hnext]
      exact OutState.readChunks_chunks (by decide) _ _ _
  · have heq : marshalOutLocalGenericMem sock base st w = mid := by
      simp [marshalOutLocalGenericMem, hv, OutState.word, hmid]
    have hend : mid.pos = st.pos + 1 + extraWords sock.indirect := by
      simp [hnext, extraWords, hv]
    rw [heq]
    refine ⟨?_, hwritten, by rw [hmid], by rw [hend, hpos]⟩
    rw [hend]
    exact .fd hdep hflags fun hi => absurd (of_decide_eq_true hi) hv

theorem Encoded.ownMem {w : FdWrapper} {f : MSForwarder} (hlocal : sock.isRemote = false)
    (hw : 0 < w.descriptor) (hdep : Direction.request.dependency sock.id w = some f)
    (h : marshalOutForwardMemDep sock base st w.dependency
      (withDescriptor sock.indirect calleeObject) = some st') :
    Encoded .request sock base (.mem (.fdWrapper w)) st st' [] := by
  have hpos := numExtraArgsOutbound_fdWrapper hlocal hw
  obtain ⟨hsome, hconn⟩ : w.dependency = some f ∧ f.conn = sock.id := by
    simpa [Direction.dependency, Direction.request] using hdep
  have hst' : st' = (st.word base (withDescriptor sock.indirect calleeObject) f.handle).skip
      (extraWords sock.indirect) := by
    by_cases hv : verIndirectMem ≤ sock.version <;>
      simp [marshalOutForwardMemDep, hsome, hconn, hv, withDescriptor, hasFlag, calleeObject,
        descriptorObject, extraWords] at h ⊢ <;>
      exact h.symm
  subst hst'
  have hword := OutState.word_written base st (withDescriptor sock.indirect calleeObject) f.handle
  refine ⟨.ownMem hdep ?_, hword.trans (OutState.skip_written base _ _), (List.append_nil _).symm,
    by rw [hpos]; rfl⟩
  refine (OutState.argObj_word base st _ _).trans ?_
  have hflags : ∀ b, withDescriptor b calleeObject % 65536 = withDescriptor b calleeObject := by decide
  rw [hflags]
  rfl

theorem marshalOutForwardMemDep_eq_none_iff {dep : Option MSForwarder} {flags : Nat} :
    marshalOutForwardMemDep sock base st dep flags = none ↔
      (dep.filter fun f => f.conn = sock.id) = none := by
  cases dep with
  | none => simp [marshalOutForwardMemDep]
  | some f =>
    by_cases hf : f.conn = sock.id
    · simp only [marshalOutForwardMemDep]
      split <;> simp
    · simp [marshalOutForwardMemDep, hf]

theorem ordinary_encoded (hdir : d = .request ∨ d = .response) {obj : Object}
    (hs : Supported sock obj) (hobj : ∀ o, obj ≠ .mem o) {rest : Attempt OutState}
    (hrest : rest = marshalOutGenericObject hd base d.other obj st)
    (h : (marshalOutNullObject base obj st <|> marshalOutMsforwarder sock base d.own obj st <|>
      rest).getD (.error .error st) = .ok st') :
    ∃ fs, Encoded d sock base obj st st' fs := by
  cases obj with
  | null =>
    cases h
    exact ⟨[], .null⟩
  | plain id =>
    simp only [marshalOutNullObject, marshalOutMsforwarder, MSForwarderFromObject, bind_none, hrest] at h
    cases hg : marshalOutGenericObject hd base d.other (.plain id) st with
    | none => simp [hg] at h
    | some r =>
      rw [hg] at h
      obtain rfl : r = .ok st' := h
      exact ⟨[], .fresh hdir hg⟩
  | forwarder f =>
    have hf : f.conn = sock.id := hs
    simp only [marshalOutMsforwarder, MSForwarderFromObject, bind_some,
      hf, if_true] at h
    cases h
    exact ⟨[], .own hdir hf⟩
  | mem o => exact absurd rfl (hobj o)
  | primordial | wrappedMemparcel _ _ => exact hs.elim

theorem marshalOutCallerObject_encoded {obj : Object} (hs : Supported sock obj)
    (h : marshalOutCallerObject hd sock env base numFds obj st = .ok st') :
    ∃ fs, Encoded .request sock base obj st st' fs := by
  unfold marshalOutCallerObject at h
  split_ifs at h
  cases obj with
  | null | plain id
  | forwarder f => exact ordinary_encoded (d := .request) (.inl rfl) hs nofun rfl h
  | mem o =>
    cases o with
    | msMem m => exact hs.elim
    | fdWrapper w =>
      obtain ⟨hlocal, hw⟩ := hs
      have hflags : (if verIndirectMem ≤ sock.version then calleeObject ||| descriptorObject
          else calleeObject) = withDescriptor sock.indirect calleeObject := by
        simp [withDescriptor]
      simp only [marshalOutNullObject, marshalOutMsforwarder, marshalOutCallerLocalGenericMem,
        MSForwarderFromObject, FdWrapperFromObject, bind_some, hlocal, Bool.false_eq_true, if_false,
        hflags] at h
      split_ifs at h
      · simp at h
      cases hdep : marshalOutForwardMemDep sock base st w.dependency
          (withDescriptor sock.indirect calleeObject) with
      | none =>
        simp only [hdep] at h
        cases h
        have hnone : Direction.request.dependency sock.id w = none :=
          marshalOutForwardMemDep_eq_none_iff.mp hdep
        exact ⟨_, .fd hlocal hw hnone⟩
      | some st₁ =>
        simp only [hdep] at h
        cases h
        obtain ⟨f, hf⟩ : ∃ f, Direction.request.dependency sock.id w = some f := by
          refine ne_none_iff_exists'.mp fun hnone => ?_
          rw [marshalOutForwardMemDep_eq_none_iff.mpr hnone] at hdep
          cases hdep
        exact ⟨_, .ownMem hlocal hw hf hdep⟩
  | primordial | wrappedMemparcel _ _ => exact hs.elim

theorem Encoded.retain {mid : OutState} {w : FdWrapper} (hlocal : sock.isRemote = false)
    (hw : 0 < w.descriptor)
    (henc : Encoded .response sock base (.mem (.fdWrapper w)) st mid [w.descriptor])
    (h : marshalOutRetainLocalGenericMemDep hd sock base mid w = .ok st') :
    Encoded .response sock base (.mem (.fdWrapper w)) st st' [w.descriptor] := by
  unfold marshalOutRetainLocalGenericMemDep at h
  cases hd' : w.dependency with
  | none =>
    simp only [hd'] at h
    cases h
    exact henc
  | some f =>
    simp only [hd'] at h
    by_cases hf : f.conn = sock.id
    · rw [if_pos hf] at h
      cases hadd : mid.table.addObject hd (.forwarder f) with
      | none => simp [hadd] at h
      | some r =>
        obtain ⟨n, table⟩ := r
        have hfirst : (if verIndirectMem ≤ sock.version then mid.pos - 1 - numExtraArgsSpecialRules
            else mid.pos - 1) = st.pos := by
          rw [henc.pos, numExtraArgsOutbound_fdWrapper hlocal hw]
          by_cases hv : verIndirectMem ≤ sock.version <;> simp [hv, extraWords]
        rw [hadd] at h
        rw [hfirst] at h
        cases h
        obtain ⟨-, -, hfree, hobjects, -⟩ := ObjectTable.addObject_eq_some hadd
        have hle := henc.words.lt
        have hgrow : ∀ h o, mid.table.objects h = some o → table.objects h = some o := by
          intro h o ho
          rw [hobjects, Function.update_of_ne (by rintro rfl; rw [hfree] at ho; cases ho), ho]
        have hother : ∀ i, st.pos < i →
            argObj (putWord mid.buf (base + 4 * st.pos + 2) 2 n) base i = argObj mid.buf base i := by
          intro i hi
          unfold argObj
          rw [word_putWord_of_disjoint (by omega), word_putWord_of_disjoint (by omega)]
        refine ⟨?_, ⟨fun a ha => ?_, henc.written.le, fun h o ho => ?_, henc.written.wire⟩, henc.fds,
          henc.pos⟩
        · have hwords := henc.words
          generalize mid.pos = q at hwords
          cases hwords with
          | fd hf' hflags hrules =>
            refine .fd hf' ?_ fun hi => ?_
            · rw [← hflags]
              exact word_putWord_of_disjoint (by omega)
            · rw [← hrules hi]
              exact readChunks_congr fun i hi _ => hother i (by omega)
        · dsimp only at ha ⊢
          rw [putWord]
          rcases ha with ha | ha
          · rw [write_of_lt (by omega), henc.written.frame a (.inl ha)]
          · rw [write_of_ge (by simp; omega), henc.written.frame a (.inr ha)]
        · exact hgrow h o (henc.written.grows h o ho)
    · rw [if_neg hf] at h
      cases h
      exact henc

theorem marshalOutCalleeObject_encoded {obj : Object} (hs : Supported sock obj)
    (h : marshalOutCalleeObject hd sock env base numFds obj st = .ok st') :
    ∃ fs, Encoded .response sock base obj st st' fs := by
  unfold marshalOutCalleeObject at h
  split_ifs at h
  cases obj with
  | null | plain id
  | forwarder f => exact ordinary_encoded (d := .response) (.inr rfl) hs nofun rfl h
  | mem o =>
    cases o with
    | msMem m => exact hs.elim
    | fdWrapper w =>
      obtain ⟨hlocal, hw⟩ := hs
      simp only [marshalOutNullObject, marshalOutMsforwarder, marshalOutCalleeLocalGenericMem,
        MSForwarderFromObject, FdWrapperFromObject, hlocal, Bool.false_eq_true, if_false] at h
      split_ifs at h
      · simp at h
      · exact ⟨_, .retain hlocal hw (.fd hlocal hw rfl) h⟩
  | primordial | wrappedMemparcel _ _ => exact hs.elim

theorem forEach_encoded {f : OutState → Object → Outcome ObjectError OutState} {objs : List Object}
    (hf : ∀ st obj st', Supported sock obj → f st obj = .ok st' →
      ∃ fs, Encoded d sock base obj st st' fs)
    (hs : ∀ obj ∈ objs, Supported sock obj) (h : Outcome.forEach f objs st = .ok st') :
    ∃ fs, VectorWords d sock.id sock.indirect (NewSlot st st') (argObj st'.buf base) st.pos objs fs
        st'.pos ∧ Written base st st' ∧ st'.fds = st.fds ++ fs ∧
      st'.pos = st.pos + objs.length + countNumExtraArgsOutbound sock objs := by
  induction objs generalizing st with
  | nil =>
    cases h
    exact ⟨[], .nil _, .refl base _, (List.append_nil _).symm, rfl⟩
  | cons obj objs ih =>
    obtain ⟨st₁, hobj, hrest⟩ := Outcome.forEach_cons_eq_ok.mp h
    obtain ⟨fs, henc⟩ := hf st obj st₁ (hs obj List.mem_cons_self) hobj
    obtain ⟨gs, hwords, hwritten, hfds, hpos⟩ :=
      ih (fun o ho => hs o (List.mem_cons_of_mem _ ho)) hrest
    have hhead : ObjectWords d sock.id sock.indirect (NewSlot st st') (argObj st'.buf base) st.pos obj
        fs st₁.pos :=
      henc.words.congr (fun i _ hi => (hwritten.argObj hi).symm)
        fun n o hn => ⟨hn.1, hwritten.grows n o hn.2⟩
    have htail : VectorWords d sock.id sock.indirect (NewSlot st st') (argObj st'.buf base) st₁.pos
        objs gs st'.pos := by
      refine hwords.congr (fun _ _ => rfl) fun n o hn => ⟨?_, hn.2⟩
      cases hfree : st.table.objects n with
      | none => rfl
      | some o' =>
        have hused := henc.written.grows n o' hfree
        rw [hn.1] at hused
        cases hused
    refine ⟨fs ++ gs, .cons hhead htail, henc.written.trans hwritten, ?_, ?_⟩
    · rw [hfds, henc.fds, List.append_assoc]
    · rw [hpos, henc.pos]
      simp only [countNumExtraArgsOutbound, List.length_cons, List.map_cons, List.sum_cons]
      omega

end Encode

end MinkIpc
