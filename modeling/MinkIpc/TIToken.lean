import MinkIpc.TISession

/-! The right to author a packet is a token: a free counter mutex of either endpoint, or a
transaction between a lock and the unlock that answers it. There is one token. -/

namespace MinkIpc.TunnelInvoke

open TwoParty Function

inductive Moved (counter : Role → UInt64) (locked : Role → Bool) (caller : Role) :
    Phase → (Role → UInt64) → (Role → Bool) → Option Phase → Prop
  | lock (leg : Leg) (h : locked (caller.author leg) = false) :
      Moved counter locked caller (.locking leg) counter
        (update locked (caller.author leg) true) (some (.encrypting leg))
  | abort (h : locked caller.peer = false) :
      Moved counter locked caller .aborting counter (update locked caller.peer true) (some .failed)
  | read (leg : Leg) (message : List UInt8) :
      Moved counter locked caller (.encrypting leg) counter locked
        (some (.counted leg (counter (caller.author leg)) message))
  | readFailed (leg : Leg) :
      Moved counter locked caller (.encrypting leg) counter locked (some .failed)
  | write (leg : Leg) (c : UInt64) (message : List UInt8) (packet : TIPacket)
      (h : packet.header.counter = c + 1) :
      Moved counter locked caller (.counted leg c message)
        (update counter (caller.author leg) (c + 1)) locked (some (.sent leg packet))
  | writeFailed (leg : Leg) (c : UInt64) (message : List UInt8) :
      Moved counter locked caller (.counted leg c message)
        (update counter (caller.author leg) (c + 1)) locked (some .failed)
  | check (leg : Leg) (packet : TIPacket) :
      Moved counter locked caller (.sent leg packet) counter locked (some (.checked leg packet))
  | refuse (leg : Leg) (packet : TIPacket) :
      Moved counter locked caller (.sent leg packet) counter locked (some .failed)
  | store (leg : Leg) (packet : TIPacket) : Moved counter locked caller (.checked leg packet)
        (update counter (caller.author leg).peer packet.header.counter) locked
        (some (.accepted leg))
  | run : Moved counter locked caller (.accepted .request) counter
        (update locked caller.peer false) (some .running)
  | done : Moved counter locked caller (.accepted .reply) counter (update locked caller false) none
  | giveUp : Moved counter locked caller .failed counter (update locked caller false) none
  | finish (ok : Bool) : Moved counter locked caller .running counter locked
        (some (if ok then .locking .reply else .aborting))

def replaced (ts : List Transaction) (i : Nat) (caller : Role) : Option Phase → List Transaction
  | none => ts.eraseIdx i
  | some phase => ts.set i ⟨caller, phase⟩

section Steps

variable {gcm : Gcm} {key : List UInt8} {s s' : Tunnel} {i : Nat} {caller : Role}

theorem Tunnel.access_eq_some {a : Action} {next : Phase}
    (h : s.access gcm key i caller a next = some s') :
    ∃ session, s.session.step gcm key a = some session ∧ s'.session = session ∧
      s'.locked = s.locked ∧ s'.transactions = s.transactions.set i ⟨caller, next⟩ := by
  obtain ⟨session, hs, rfl⟩ := Option.map_eq_some_iff.mp h
  exact ⟨session, hs, rfl, rfl, rfl⟩

theorem Session.step_counter_of_read {s t : Session} {a : Action} (h : s.step gcm key a = some t)
    (ha : (∃ r m l u b, a = .encryptRead r m l u b) ∨ ∃ r p u m b g, a = .newMessageCheck r p u m b g) :
    t.counter = s.counter := by
  rcases Session.step_cases h with rfl | ⟨r, message, rfl⟩ | ⟨r, c, message, gcmOk, rfl, rfl⟩ |
    ⟨r, packet, u, m, b, g, rfl, -, -, rfl⟩ | ⟨r, packet, rfl, -, rfl⟩
  · rfl
  · rfl
  · simp at ha
  · rfl
  · simp at ha

theorem Session.step_encryptWrite {s t : Session} {r : Role} {c : UInt64} {message : List UInt8}
    {gcmOk : Bool} (h : s.step gcm key (.encryptWrite r c message gcmOk) = some t) :
    t.counter = update s.counter r (c + 1) := by
  simp only [Session.step] at h
  split_ifs at h
  cases h
  rw [Session.produce_counter, Session.close_counter]

theorem Session.step_newMessageStore {s t : Session} {r : Role} {packet : TIPacket}
    (h : s.step gcm key (.newMessageStore r packet) = some t) :
    t.counter = update s.counter r packet.header.counter := by
  simp only [Session.step] at h
  split_ifs at h
  cases h
  rfl

theorem Tunnel.advance_moved {phase : Phase} {m : Move}
    (h : s.advance gcm key i caller phase m = some s') :
    ∃ next, Moved s.session.counter s.locked caller phase s'.session.counter s'.locked next ∧
      s'.transactions = replaced s.transactions i caller next := by
  unfold Tunnel.advance at h
  split at h
  · split_ifs at h with hlocked
    cases h
    exact ⟨_, .lock _ (by simpa using hlocked), rfl⟩
  · split_ifs at h with hlocked
    cases h
    exact ⟨_, .abort (by simpa using hlocked), rfl⟩
  · rename_i leg message packetLen u b
    obtain ⟨session, hs, rfl, hl, ht⟩ := Tunnel.access_eq_some h
    rw [hl, Session.step_counter_of_read hs (.inl ⟨_, _, _, _, _, rfl⟩)]
    cases hready : encryptReady message.length packetLen u b with
    | error e => exact ⟨_, .readFailed leg, by rw [ht, hready]; rfl⟩
    | ok => exact ⟨_, .read leg message, by rw [ht, hready]; rfl⟩
  · rename_i leg counter message gcmOk
    obtain ⟨session, hs, rfl, hl, ht⟩ := Tunnel.access_eq_some h
    rw [hl, Session.step_encryptWrite hs]
    cases hseal : sealPacket gcm key (caller.author leg).isHost (counter + 1) message gcmOk with
    | error e => exact ⟨_, .writeFailed leg counter message, by rw [ht, hseal]; rfl⟩
    | ok packet => exact ⟨_, .write leg counter message packet (sealPacket_eq_ok hseal).1, by rw [ht, hseal]; rfl⟩
  · rename_i leg packet u m b g
    obtain ⟨session, hs, rfl, hl, ht⟩ := Tunnel.access_eq_some h
    rw [hl, Session.step_counter_of_read hs (.inr ⟨_, _, _, _, _, _, rfl⟩)]
    cases hopen : openPacket gcm key (s.session.counter (caller.author leg).peer) packet u m b g with
    | error e => exact ⟨_, .refuse leg packet, by rw [ht, hopen]; rfl⟩
    | ok message => exact ⟨_, .check leg packet, by rw [ht, hopen]; rfl⟩
  · rename_i leg packet
    cases h
    exact ⟨_, .refuse leg packet, rfl⟩
  · rename_i leg packet
    obtain ⟨session, hs, rfl, hl, ht⟩ := Tunnel.access_eq_some h
    rw [hl, Session.step_newMessageStore hs]
    exact ⟨_, .store leg packet, ht⟩
  · cases h
    exact ⟨_, .run, rfl⟩
  · cases h
    exact ⟨_, .done, rfl⟩
  · cases h
    exact ⟨_, .giveUp, rfl⟩
  · rename_i ok
    cases h
    exact ⟨_, .finish ok, rfl⟩
  · cases h

end Steps

def Phase.tokens : Phase → Nat
  | .locking _ | .running | .aborting => 0
  | _ => 1

def freeTokens (locked : Role → Bool) : Nat :=
  (if locked .client then 0 else 1) + (if locked .host then 0 else 1)

def Tunnel.heldTokens (s : Tunnel) : Nat := (s.transactions.map fun t => t.phase.tokens).sum

/-- How the counters stand while a transaction has the token. Nothing is said of a
transaction that has failed, or of one without the token. -/
def InOrder (counter : Role → UInt64) (caller : Role) : Phase → Prop
  | .encrypting leg => counter (caller.author leg).peer ≤ counter (caller.author leg)
  | .counted leg c _ => c = counter (caller.author leg) ∧ counter (caller.author leg).peer ≤ c
  | .sent leg packet | .checked leg packet =>
    packet.header.counter = counter (caller.author leg) ∧
      counter (caller.author leg).peer < packet.header.counter
  | .accepted leg => counter (caller.author leg) ≤ counter (caller.author leg).peer
  | _ => True

theorem InOrder.of_tokens_eq_zero {counter : Role → UInt64} {caller : Role} {phase : Phase}
    (h : phase.tokens = 0) : InOrder counter caller phase := by
  cases phase <;> trivial

@[simp] theorem Role.peer_ne (r : Role) : r.peer ≠ r := by cases r <;> decide

@[simp] theorem Role.peer_peer (r : Role) : r.peer.peer = r := by cases r <;> rfl

variable {locked : Role → Bool}

theorem locked_of_freeTokens_eq_zero (h : freeTokens locked = 0) (r : Role) : locked r = true := by
  unfold freeTokens at h
  cases r with
  | client | host => by_contra hr; simp [hr] at h

theorem locked_of_holder {phase : Phase} (hone : freeTokens locked + phase.tokens ≤ 1)
    (ht : phase.tokens = 1) (r : Role) :
    locked r = true :=
  locked_of_freeTokens_eq_zero (by omega) r

theorem freeTokens_lock {r : Role} (h : locked r = false) :
    freeTokens locked = freeTokens (update locked r true) + 1 := by
  cases r with
  | client => simp [freeTokens, h]; omega
  | host => simp [freeTokens, h]

theorem freeTokens_unlock {r : Role} (h : locked r = true) :
    freeTokens (update locked r false) = freeTokens locked + 1 := by
  cases r with
  | client => simp [freeTokens, h]; omega
  | host => simp [freeTokens, h]

section Moved

variable {counter counter' : Role → UInt64} {locked locked' : Role → Bool} {caller : Role}
  {phase : Phase} {next : Option Phase}

section

variable (h : Moved counter locked caller phase counter' locked' next)
include h

theorem Moved.tokens (hone : freeTokens locked + phase.tokens ≤ 1) :
    freeTokens locked' + (next.map Phase.tokens).getD 0 = freeTokens locked + phase.tokens := by
  have hlocked := locked_of_holder hone
  cases h with
  | lock leg hl | abort hl => simp [freeTokens_lock hl, Phase.tokens]
  | run => simp [freeTokens_unlock (hlocked rfl caller.peer), Phase.tokens]
  | done | giveUp => simp [freeTokens_unlock (hlocked rfl caller), Phase.tokens]
  | finish ok => cases ok <;> rfl
  | _ => rfl

theorem Moved.counter_eq (ht : phase.tokens = 0) : counter' = counter := by
  cases h <;> first | rfl | exact absurd ht Nat.one_ne_zero

theorem Moved.inOrder (hfree : ∀ r, locked r = false → counter r.peer ≤ counter r)
    (hin : InOrder counter caller phase)
    (hspace : ∀ leg c message, phase = .counted leg c message → c + 1 ≠ 0) :
    ∀ phase' ∈ next, InOrder counter' caller phase' := by
  rintro phase' hnext
  cases h with
  | lock leg hl =>
    cases hnext
    exact hfree _ hl
  | read leg message =>
    cases hnext
    exact ⟨rfl, hin⟩
  | write leg c message packet hp =>
    cases hnext
    have hlt : c < c + 1 := lt_add_one_of_ne_zero (hspace leg c message rfl)
    simp only [InOrder, update_self, update_of_ne (Role.peer_ne _), hp]
    exact ⟨trivial, UInt64.lt_of_le_of_lt hin.2 hlt⟩
  | check leg packet =>
    cases hnext
    exact hin
  | store leg packet =>
    cases hnext
    simp only [InOrder, update_self, update_of_ne (Role.peer_ne _).symm, hin.1]
    exact UInt64.le_refl _
  | finish ok => cases ok <;> cases hnext <;> trivial
  | done | giveUp => cases hnext
  | _ => cases hnext; trivial

theorem Moved.not_behind (hfree : ∀ r, locked r = false → counter r.peer ≤ counter r)
    (hone : freeTokens locked + phase.tokens ≤ 1) (hin : InOrder counter caller phase)
    (hgiveUp : phase = .failed → counter caller.peer ≤ counter caller) :
    ∀ r, locked' r = false → counter' r.peer ≤ counter' r := by
  have hlocked := locked_of_holder hone
  -- the mutex of `q` is released and that of its peer stays locked
  have hrelease : ∀ q, phase.tokens = 1 → counter q.peer ≤ counter q →
      ∀ r, update locked q false r = false → counter r.peer ≤ counter r := by
    intro q ht hq r hr
    by_cases hrq : r = q
    · exact hrq ▸ hq
    · rw [update_of_ne hrq, hlocked ht r] at hr
      cases hr
  have hacquire : ∀ q r, update locked q true r = false → counter r.peer ≤ counter r := by
    intro q r hr
    by_cases hrq : r = q
    · rw [hrq, update_self] at hr
      cases hr
    · rw [update_of_ne hrq] at hr
      exact hfree r hr
  cases h with
  | lock leg _ | abort _ => exact hacquire _
  | write | writeFailed | store =>
    intro r hr
    rw [hlocked rfl r] at hr
    cases hr
  | run => exact hrelease caller.peer rfl (by simpa [InOrder, Role.author] using hin)
  | done => exact hrelease caller rfl (by simpa [InOrder, Role.author] using hin)
  | giveUp => exact hrelease caller rfl (hgiveUp rfl)
  | _ => exact hfree

end

end Moved

/-- There is one token, its holder's counters are in order and an endpoint whose mutex is
free is not behind. -/
structure Tunnel.Synced (s : Tunnel) : Prop where
  token : freeTokens s.locked + s.heldTokens = 1
  free : ∀ r, s.locked r = false → s.session.counter r.peer ≤ s.session.counter r
  inOrder : ∀ t ∈ s.transactions, InOrder s.session.counter t.caller t.phase

section Runs

variable {gcm : Gcm} {key : List UInt8} {s s' : Tunnel} {a : TunnelAction}

theorem Tunnel.new_token : freeTokens Tunnel.new.locked + Tunnel.new.heldTokens = 1 := rfl

theorem Tunnel.Synced.new : Tunnel.new.Synced where
  token := Tunnel.new_token
  free _ _ := UInt64.le_refl _
  inOrder _ ht := by cases ht

theorem Tunnel.step_cases (h : s.step gcm key a = some s') :
    (∃ r, s' = { s with transactions := s.transactions ++ [⟨r, .locking .request⟩] }) ∨
    ∃ i m t, a = .move i m ∧ s.transactions[i]? = some t ∧
      s.advance gcm key i t.caller t.phase m = some s' := by
  cases a with
  | call r => exact .inl ⟨r, (Option.some.inj h).symm⟩
  | move i m =>
    obtain ⟨t, ht, hs⟩ := Option.bind_eq_some_iff.mp h
    exact .inr ⟨i, m, t, rfl, ht, hs⟩

variable {t : Transaction}

theorem Tunnel.heldTokens_eq {i : Nat} (h : s.transactions[i]? = some t) : s.heldTokens =
      t.phase.tokens + ((s.transactions.eraseIdx i).map fun t => t.phase.tokens).sum :=
  sum_map_eraseIdx (fun t : Transaction => t.phase.tokens) h

theorem sum_tokens_replaced {ts : List Transaction} {i : Nat} (h : ts[i]? = some t) (caller : Role)
    (next : Option Phase) :
    ((replaced ts i caller next).map fun t => t.phase.tokens).sum =
      (next.map Phase.tokens).getD 0 + ((ts.eraseIdx i).map fun t => t.phase.tokens).sum := by
  cases next with
  | none => simp [replaced]
  | some phase => exact sum_map_set (fun t => t.phase.tokens) h ⟨caller, phase⟩

theorem mem_replaced {ts : List Transaction} {i : Nat} {u : Transaction} {caller : Role}
    {next : Option Phase} (h : ts[i]? = some t) (hu : u ∈ replaced ts i caller next) :
    (∃ phase ∈ next, u = ⟨caller, phase⟩) ∨ u ∈ ts.eraseIdx i := by
  cases next with
  | none => exact .inr hu
  | some phase =>
    have hmem : u ∈ (⟨caller, phase⟩ ::ₘ (ts.eraseIdx i : Multiset Transaction)) :=
      coe_set h ⟨caller, phase⟩ ▸ hu
    rcases Multiset.mem_cons.mp hmem with rfl | hu
    · exact .inl ⟨phase, rfl, rfl⟩
    · exact .inr hu

theorem Tunnel.step_token (hs : s.step gcm key a = some s')
    (h : freeTokens s.locked + s.heldTokens = 1) : freeTokens s'.locked + s'.heldTokens = 1 := by
  rcases Tunnel.step_cases hs with ⟨r, rfl⟩ | ⟨i, m, t, rfl, ht, hadv⟩
  · simpa [Tunnel.heldTokens, Phase.tokens] using h
  obtain ⟨next, hm, htr⟩ := Tunnel.advance_moved hadv
  have hheld := Tunnel.heldTokens_eq ht
  have hheld' := sum_tokens_replaced ht t.caller next
  have htokens := hm.tokens (by omega)
  rw [← htr] at hheld'
  unfold Tunnel.heldTokens at *
  omega

theorem Tunnel.Synced.inOrder_rest (h : s.Synced) {i : Nat} {u : Transaction}
    {counter : Role → UInt64} {locked : Role → Bool} {next : Option Phase}
    (ht : s.transactions[i]? = some t)
    (hm : Moved s.session.counter s.locked t.caller t.phase counter locked next)
    (hu : u ∈ s.transactions.eraseIdx i) : InOrder counter u.caller u.phase := by
  by_cases hzero : t.phase.tokens = 0
  · rw [hm.counter_eq hzero]
    exact h.inOrder u (List.mem_of_mem_eraseIdx hu)
  have hheld := Tunnel.heldTokens_eq ht
  obtain ⟨j, hj⟩ := List.mem_iff_getElem?.mp hu
  have hrest := sum_map_eraseIdx (fun t : Transaction => t.phase.tokens) hj
  have htoken := h.token
  exact .of_tokens_eq_zero (by omega)

theorem Tunnel.Synced.step (h : s.Synced) (hok : s.InStep a) (hs : s.step gcm key a = some s') :
    s'.Synced := by
  have htoken := Tunnel.step_token hs h.token
  rcases Tunnel.step_cases hs with ⟨r, rfl⟩ | ⟨i, m, t, rfl, ht, hadv⟩
  · exact ⟨htoken, h.free,
      List.forall_mem_append.mpr ⟨h.inOrder, List.forall_mem_singleton.mpr trivial⟩⟩
  · obtain ⟨next, hm, htr⟩ := Tunnel.advance_moved hadv
    have hin := h.inOrder t (List.mem_of_getElem? ht)
    have hone : freeTokens s.locked + t.phase.tokens ≤ 1 := by
      have hheld := Tunnel.heldTokens_eq ht
      have hsum := h.token
      omega
    have hspace : ∀ leg c message, t.phase = .counted leg c message → c + 1 ≠ 0 := by
      intro leg c message hphase
      cases m with
      | write gcmOk =>
        have hnew := hok t ht
        rw [hphase] at hnew
        exact fun h => hnew (congrArg some h)
      | _ => rw [hphase] at hadv; cases hadv
    have hgiveUp : t.phase = .failed → s.session.counter t.caller.peer ≤ s.session.counter t.caller := by
      intro hphase
      cases m with
      | unlock => exact hok t ht hphase
      | _ => rw [hphase] at hadv; cases hadv
    refine ⟨htoken, hm.not_behind h.free hone hin hgiveUp, fun u hu => ?_⟩
    rw [htr] at hu
    rcases mem_replaced ht hu with ⟨phase, hphase, rfl⟩ | hu
    · exact hm.inOrder h.free hin hspace phase hphase
    · exact h.inOrder_rest ht hm hu

theorem Tunnel.Synced.session_step (h : s.Synced) (hok : s.InStep a)
    (hs : s.step gcm key a = some s') : s'.session = s.session ∨
      ∃ b, s.session.Undisturbed b ∧ s.session.step gcm key b = some s'.session := by
  rcases Tunnel.step_cases hs with ⟨r, rfl⟩ | ⟨i, m, ⟨caller, phase⟩, rfl, ht, hadv⟩
  · exact .inl rfl
  have hin := h.inOrder _ (List.mem_of_getElem? ht)
  -- the accesses are the phases that `advance` hands to the session
  have haccess : ∀ b next, s.access gcm key i caller b next = some s' → s.session.Undisturbed b →
      ∃ b, s.session.Undisturbed b ∧ s.session.step gcm key b = some s'.session := by
    intro b next hacc hb
    obtain ⟨session, hsession, rfl, -⟩ := Tunnel.access_eq_some hacc
    exact ⟨b, hb, hsession⟩
  dsimp only at hadv hin
  unfold Tunnel.advance at hadv
  split at hadv
  case h_1 | h_2 =>
    split_ifs at hadv
    cases hadv
    exact .inl rfl
  case h_3 => exact .inr (haccess _ _ hadv trivial)
  case h_4 leg c message gcmOk =>
    exact .inr (haccess _ _ hadv ⟨hin.1, fun h => hok _ ht (congrArg some h)⟩)
  case h_5 => exact .inr (haccess _ _ hadv trivial)
  case h_7 leg packet => exact .inr (haccess _ _ hadv hin.2)
  case h_12 => cases hadv
  all_goals
    cases hadv
    exact .inl rfl

/-- However the transactions overlap, what they do to the session is a run of the session. -/
theorem Tunnel.session_fresh {as : List TunnelAction}
    (h : Run.Guarded (Tunnel.step gcm key) Tunnel.InStep Tunnel.new as s) :
    (∃ bs, Run.Guarded (Session.step gcm key) Session.Undisturbed Session.new bs s.session) ∧
      s.session.Fresh := by
  have hboth := h.invariant (fun s => s.Synced ∧
      ∃ bs, Run.Guarded (Session.step gcm key) Session.Undisturbed Session.new bs s.session)
    ⟨.new, [], .nil⟩ ?_
  · obtain ⟨-, bs, hrun⟩ := hboth
    exact ⟨⟨bs, hrun⟩, hrun.invariant Session.Fresh .new fun _ _ _ hi hok hs => hi.step hok hs⟩
  · rintro s a t ⟨hsynced, bs, hrun⟩ hok hs
    refine ⟨hsynced.step hok hs, ?_⟩
    rcases hsynced.session_step hok hs with heq | ⟨b, hb, hsession⟩
    · exact ⟨bs, heq ▸ hrun⟩
    · exact ⟨bs ++ [b], hrun.snoc hb hsession⟩

def Phase.authoring : Phase → Bool
  | .encrypting _ | .counted .. => true
  | _ => false

theorem countP_authoring_le (ts : List Transaction) :
    ts.countP (·.phase.authoring) ≤ (ts.map fun t => t.phase.tokens).sum := by
  induction ts with
  | nil => rfl
  | cons t ts ih =>
    rw [List.countP_cons, List.map_cons, List.sum_cons]
    have ht : (if t.phase.authoring then 1 else 0) ≤ t.phase.tokens := by
      cases t.phase <;> simp [Phase.authoring, Phase.tokens]
    omega

/-- At most one packet is being authored at a time and, as long as the counters stay in step,
every packet on its way is ahead of its receiver. -/
theorem one_author_and_packets_pass {as : List TunnelAction}
    (h : Run.exec (Tunnel.step gcm key) Tunnel.new as = some s) :
    s.transactions.countP (·.phase.authoring) ≤ 1 ∧
    (Run.Guarded (Tunnel.step gcm key) Tunnel.InStep Tunnel.new as s →
      ∀ caller leg packet, ⟨caller, .sent leg packet⟩ ∈ s.transactions →
        s.session.counter (caller.author leg).peer < packet.header.counter) := by
  constructor
  · have htoken := Run.exec_invariant (fun s : Tunnel => freeTokens s.locked + s.heldTokens = 1)
      Tunnel.new_token (fun _ _ _ hi hs => Tunnel.step_token hs hi) h
    have hle := countP_authoring_le s.transactions
    unfold Tunnel.heldTokens at htoken
    omega
  · intro hguarded caller leg packet ht
    have hsynced := hguarded.invariant Tunnel.Synced .new fun _ _ _ hi hok hs => hi.step hok hs
    exact (hsynced.inOrder _ ht).2

def requestMoves : List TunnelAction :=
  [.call .client, .move 0 .lock, .move 0 (.read (List.replicate 16 0) 56 false true),
    .move 0 (.write true), .move 0 (.deliver true true true true), .move 0 .store, .move 0 .unlock,
    .move 0 (.finish true), .move 0 .lock, .move 0 (.read (List.replicate 16 7) 56 true true),
    .move 0 (.write true)]

theorem one_author_and_packets_pass_reply :
    ∃ s, Run.exec (Tunnel.step clearGcm []) Tunnel.new requestMoves = some s ∧
      ⟨.client, .sent .reply (packetAt .host 2 (List.replicate 16 7))⟩ ∈ s.transactions ∧
      s.session.counter .client < 2 := by
  obtain ⟨s, hs, h⟩ := Run.exists_guarded (Tunnel.step clearGcm []) Tunnel.InStep Tunnel.new
    requestMoves (by decide)
  have hmem : ⟨.client, .sent .reply (packetAt .host 2 (List.replicate 16 7))⟩ ∈ s.transactions := by
    have hall : ∀ s ∈ Run.execIf (Tunnel.step clearGcm []) Tunnel.InStep Tunnel.new requestMoves,
        ⟨.client, .sent .reply (packetAt .host 2 (List.replicate 16 7))⟩ ∈ s.transactions := by
      decide
    exact hall s hs
  exact ⟨s, h.exec, hmem, (one_author_and_packets_pass h.exec).2 h .client .reply _ hmem⟩

theorem session_fresh_reply : ∃ s, Run.exec (Tunnel.step clearGcm []) Tunnel.new requestMoves =
    some s ∧ s.session.Fresh := by
  obtain ⟨s, -, h⟩ := Run.exists_guarded (Tunnel.step clearGcm []) Tunnel.InStep Tunnel.new
    requestMoves (by decide)
  exact ⟨s, h.exec, (Tunnel.session_fresh h).2⟩

/-- The carrier loses the reply. The caller gives up with its counter behind, and its next
packet is refused as a replay. -/
theorem lost_reply_refuses_next :
    ∃ s ∈ Run.exec (Tunnel.step clearGcm []) Tunnel.new (requestMoves ++ [.move 0 .lose,
        .move 0 .unlock, .call .client, .move 0 .lock,
        .move 0 (.read (List.replicate 16 0) 56 false true), .move 0 (.write true)]),
      s.transactions = [⟨.client, .sent .request (packetAt .client 2 (List.replicate 16 0))⟩] ∧
      s.session.counter .host = 2 ∧
      openPacket clearGcm [] (s.session.counter .host)
        (packetAt .client 2 (List.replicate 16 0)) true true true true = .error .replay := by
  decide

end Runs

end MinkIpc.TunnelInvoke
