import MinkIpc.TICrypto

/-! A session of two endpoints under one key, in which calls may overlap and the carrier may present
any packet to either endpoint. No initialisation vector is used twice as long as the counter is not
stale. -/

namespace MinkIpc.TunnelInvoke

open Function List

inductive Call
  | encrypt (counter : UInt64) (message : List UInt8)
  | newMessage (packet : TIPacket)
  deriving DecidableEq, Repr

/-- `produced` and `accepted` record, in order, every packet an endpoint has
encrypted and every packet it has accepted. -/
structure Session where
  counter : Role → UInt64
  calls : Role → List Call
  produced : List (Role × TIPacket)
  accepted : Role → List TIPacket

def Session.new : Session where
  counter _ := 0
  calls _ := []
  produced := []
  accepted _ := []

inductive Action
  | encryptRead (r : Role) (message : List UInt8) (packetLen : Nat)
      (untrustedPacket bounceBuf : Bool)
  | encryptWrite (r : Role) (counter : UInt64) (message : List UInt8) (gcmOk : Bool)
  | newMessageCheck (r : Role) (packet : TIPacket)
      (untrustedPacket messageBuf bounceBuf gcmOk : Bool)
  | newMessageStore (r : Role) (packet : TIPacket)
  deriving DecidableEq, Repr

def Session.open (s : Session) (r : Role) (c : Call) : Session :=
  { s with calls := update s.calls r (c :: s.calls r) }

def Session.close (s : Session) (r : Role) (c : Call) (counter : UInt64) : Session :=
  { s with
    calls := update s.calls r ((s.calls r).erase c)
    counter := update s.counter r counter }

def Session.produce (s : Session) (r : Role) : Except ObjectError TIPacket → Session
  | .error _ => s
  | .ok p => { s with produced := s.produced ++ [(r, p)] }

def Session.accept (s : Session) (r : Role) (p : TIPacket) : Session :=
  { s with accepted := update s.accepted r (s.accepted r ++ [p]) }

def Session.step (gcm : Gcm) (key : List UInt8) (s : Session) : Action → Option Session
  | .encryptRead r message packetLen untrustedPacket bounceBuf =>
    match encryptReady message.length packetLen untrustedPacket bounceBuf with
    | .error _ => some s
    | .ok () => some (s.open r (.encrypt (s.counter r) message))
  | .encryptWrite r counter message gcmOk =>
    if .encrypt counter message ∈ s.calls r then
      some ((s.close r (.encrypt counter message) (counter + 1)).produce r
        (sealPacket gcm key r.isHost (counter + 1) message gcmOk))
    else none
  | .newMessageCheck r packet untrustedPacket messageBuf bounceBuf gcmOk =>
    match openPacket gcm key (s.counter r) packet untrustedPacket messageBuf bounceBuf gcmOk with
    | .error _ => some s
    | .ok _ => some (s.open r (.newMessage packet))
  | .newMessageStore r packet =>
    if .newMessage packet ∈ s.calls r then
      some ((s.close r (.newMessage packet) packet.header.counter).accept r packet)
    else none

/-- No encryption increments the last counter value, and a counter is written
only while what its call has read still stands: an encryption writes over the
value it has read, an acceptance over one its packet still exceeds. -/
def Session.Undisturbed (s : Session) : Action → Prop
  | .encryptWrite r counter _ _ => counter = s.counter r ∧ counter + 1 ≠ 0
  | .newMessageStore r packet => s.counter r < packet.header.counter
  | _ => True

def Call.isNewMessage : Call → Bool
  | .newMessage _ => true
  | .encrypt .. => false

/-- No encryption increments the last counter value or writes over another value than it has read,
and no counter is written while another call is between its check and its store. -/
def Session.Serial (s : Session) : Action → Prop
  | .encryptWrite r counter _ _ => (counter = s.counter r ∧ counter + 1 ≠ 0) ∧
      ∀ c ∈ s.calls r, c.isNewMessage = false
  | .newMessageStore r packet =>
    ∀ c ∈ (s.calls r).erase (.newMessage packet), c.isNewMessage = false
  | _ => True

/-- What is assumed of the cipher: it accepts, at an endpoint, only what one of the
two endpoints has produced under the session key. -/
def Session.Authentic (gcm : Gcm) (key : List UInt8) (s : Session) : Action → Prop
  | .newMessageCheck _ packet _ _ _ _ =>
    gcm.decrypt key packet.header.iv packet.tag packet.header.bytes packet.message ≠ none →
      packet ∈ s.produced.map Prod.snd
  | _ => True

instance (s : Session) (a : Action) : Decidable (s.Undisturbed a) :=
  match a with
  | .encryptWrite r counter _ _ =>
    inferInstanceAs (Decidable (counter = s.counter r ∧ counter + 1 ≠ 0))
  | .newMessageStore r packet => inferInstanceAs (Decidable (s.counter r < packet.header.counter))
  | .encryptRead .. | .newMessageCheck .. => inferInstanceAs (Decidable True)

instance (s : Session) (a : Action) : Decidable (s.Serial a) :=
  match a with
  | .encryptWrite .. => instDecidableAnd
  | .newMessageStore .. => List.decidableBAll _ _
  | .encryptRead .. | .newMessageCheck .. => inferInstanceAs (Decidable True)

instance (gcm : Gcm) (key : List UInt8) (s : Session) (a : Action) :
    Decidable (s.Authentic gcm key a) :=
  match a with
  | .newMessageCheck _ packet _ _ _ _ =>
    inferInstanceAs (Decidable (gcm.decrypt key packet.header.iv packet.tag packet.header.bytes
      packet.message ≠ none → packet ∈ s.produced.map Prod.snd))
  | .encryptRead .. | .encryptWrite .. | .newMessageStore .. => inferInstanceAs (Decidable True)

theorem constructIV_eq_ok (counter : UInt64) (isHost : Bool) :
    constructIV counter isHost ivLenBytes =
      .ok (Bytes.le 8 counter.toNat ++ Bytes.le 4 (if isHost then 1 else 0)) := by
  simp [constructIV, ivLenBytes]

theorem constructIV_inj {c d : UInt64} {r q : Role} {iv : List UInt8}
    (hc : constructIV c r.isHost ivLenBytes = .ok iv)
    (hd : constructIV d q.isHost ivLenBytes = .ok iv) : c = d ∧ r = q := by
  have happ := (Except.ok.inj hc).trans (Except.ok.inj hd).symm
  obtain ⟨hcounter, hid⟩ := append_inj happ (by simp)
  refine ⟨UInt64.toNat_inj.mp (Bytes.le_inj ?_ ?_ hcounter), ?_⟩
  · exact c.toNat_lt
  · exact d.toNat_lt
  · cases r <;> cases q <;> first | rfl | exact absurd hid (by decide)

theorem lt_add_one_of_ne_zero {c : UInt64} (h : c + 1 ≠ 0) : c < c + 1 := by
  have hc := c.toNat_lt
  have hne : (c + 1).toNat ≠ 0 := fun h0 => h (UInt64.toNat_inj.mp h0)
  rw [UInt64.toNat_add] at hne
  rw [UInt64.lt_iff_toNat_lt, UInt64.toNat_add]
  simp only [UInt64.toNat_one] at hne ⊢
  omega

@[simp]
theorem Session.open_counter (s : Session) (r : Role) (c : Call) :
    (s.open r c).counter = s.counter := rfl

@[simp]
theorem Session.open_produced (s : Session) (r : Role) (c : Call) :
    (s.open r c).produced = s.produced := rfl

@[simp]
theorem Session.open_accepted (s : Session) (r : Role) (c : Call) :
    (s.open r c).accepted = s.accepted := rfl

@[simp]
theorem Session.close_counter (s : Session) (r : Role) (c : Call) (n : UInt64) :
    (s.close r c n).counter = update s.counter r n := rfl

@[simp]
theorem Session.close_produced (s : Session) (r : Role) (c : Call) (n : UInt64) :
    (s.close r c n).produced = s.produced := rfl

@[simp]
theorem Session.close_accepted (s : Session) (r : Role) (c : Call) (n : UInt64) :
    (s.close r c n).accepted = s.accepted := rfl

@[simp]
theorem Session.produce_counter (s : Session) (r : Role) (x : Except ObjectError TIPacket) :
    (s.produce r x).counter = s.counter := by
  cases x <;> rfl

@[simp]
theorem Session.produce_calls (s : Session) (r : Role) (x : Except ObjectError TIPacket) :
    (s.produce r x).calls = s.calls := by
  cases x <;> rfl

@[simp]
theorem Session.produce_accepted (s : Session) (r : Role) (x : Except ObjectError TIPacket) :
    (s.produce r x).accepted = s.accepted := by
  cases x <;> rfl

@[simp]
theorem Session.accept_calls (s : Session) (r : Role) (p : TIPacket) :
    (s.accept r p).calls = s.calls := rfl

theorem Session.mem_open_calls {s : Session} {r q : Role} {c d : Call}
    (h : d ∈ (s.open r c).calls q) : (q = r ∧ d = c) ∨ d ∈ s.calls q := by
  by_cases hq : q = r
  · subst hq
    simp only [Session.open, update_self, mem_cons] at h
    exact h.imp (fun hd => ⟨rfl, hd⟩) id
  · simp only [Session.open, update_of_ne hq] at h
    exact .inr h

theorem Session.mem_close_calls {s : Session} {r q : Role} {c d : Call} {n : UInt64}
    (h : d ∈ (s.close r c n).calls q) : d ∈ s.calls q := by
  by_cases hq : q = r
  · subst hq
    simp only [Session.close, update_self] at h
    exact mem_of_mem_erase h
  · simpa only [Session.close, update_of_ne hq] using h

section Steps

variable {gcm : Gcm} {key : List UInt8} {s t : Session} {a : Action}

theorem openPacket_eq_ok {counter : UInt64} {packet : TIPacket} {message : List UInt8}
    {untrustedPacket messageBuf bounceBuf gcmOk : Bool}
    (h : openPacket gcm key counter packet untrustedPacket messageBuf bounceBuf gcmOk =
      .ok message) :
    gcm.decrypt key packet.header.iv packet.tag packet.header.bytes packet.message =
      some message ∧ counter < packet.header.counter := by
  unfold openPacket at h
  cases hm : gcm.decrypt key packet.header.iv packet.tag packet.header.bytes packet.message with
  | none =>
    rw [hm] at h
    split_ifs at h
  | some m =>
    rw [hm] at h
    split_ifs at h with _ _ _ _ hc
    cases h
    exact ⟨rfl, hc⟩

theorem sealPacket_eq_ok {isHost gcmOk : Bool} {counterNew : UInt64} {message : List UInt8}
    {p : TIPacket} (h : sealPacket gcm key isHost counterNew message gcmOk = .ok p) :
    p.header.counter = counterNew ∧ constructIV counterNew isHost ivLenBytes = .ok p.header.iv := by
  unfold sealPacket at h
  rw [constructIV_eq_ok] at h ⊢
  by_cases h0 : counterNew = 0
  · simp [h0, bind, Except.bind] at h
  cases gcmOk
  · simp [h0, bind, Except.bind] at h
  · simp only [h0, bind, Except.bind, pure, Except.pure, if_false, Bool.not_true,
      Bool.false_eq_true, Except.ok.injEq] at h
    subst h
    exact ⟨rfl, rfl⟩

theorem Session.step_cases (h : s.step gcm key a = some t) :
    t = s ∨ (∃ r message, t = s.open r (.encrypt (s.counter r) message)) ∨
    (∃ r counter message gcmOk, a = .encryptWrite r counter message gcmOk ∧
      t = (s.close r (.encrypt counter message) (counter + 1)).produce r
        (sealPacket gcm key r.isHost (counter + 1) message gcmOk)) ∨
    (∃ r packet u m b g, a = .newMessageCheck r packet u m b g ∧
      gcm.decrypt key packet.header.iv packet.tag packet.header.bytes packet.message ≠ none ∧
      s.counter r < packet.header.counter ∧ t = s.open r (.newMessage packet)) ∨
    (∃ r packet, a = .newMessageStore r packet ∧ .newMessage packet ∈ s.calls r ∧
      t = (s.close r (.newMessage packet) packet.header.counter).accept r packet) := by
  cases a with
  | encryptRead r message packetLen u b =>
    simp only [Session.step] at h
    split at h
    · exact .inl (Option.some.inj h).symm
    · exact .inr (.inl ⟨r, message, (Option.some.inj h).symm⟩)
  | encryptWrite r counter message gcmOk =>
    simp only [Session.step] at h
    split_ifs at h
    exact .inr (.inr (.inl ⟨r, counter, message, gcmOk, rfl, (Option.some.inj h).symm⟩))
  | newMessageCheck r packet u m b g =>
    simp only [Session.step] at h
    split at h
    · exact .inl (Option.some.inj h).symm
    rename_i message hok
    obtain ⟨hd, hc⟩ := openPacket_eq_ok hok
    exact .inr (.inr (.inr (.inl ⟨r, packet, u, m, b, g, rfl, hd ▸ Option.some_ne_none _, hc,
      (Option.some.inj h).symm⟩)))
  | newMessageStore r packet =>
    simp only [Session.step] at h
    split_ifs at h with hmem
    exact .inr (.inr (.inr (.inr ⟨r, packet, rfl, hmem, (Option.some.inj h).symm⟩)))

end Steps

/-- Every produced packet carries the vector of its own counter and author, its
counter is behind its author's, and no vector occurs twice. -/
structure Session.Fresh (s : Session) : Prop where
  vector : ∀ r p, (r, p) ∈ s.produced →
    constructIV p.header.counter r.isHost ivLenBytes = .ok p.header.iv
  bound : ∀ r p, (r, p) ∈ s.produced → p.header.counter ≤ s.counter r
  nodup : (s.produced.map fun e => e.2.header.iv).Nodup

/-- Every accepted packet is the peer's, its counter is behind the acceptor's, and the
counters were accepted in increasing order. -/
structure Session.Ordered (s : Session) : Prop where
  pending : ∀ r p, .newMessage p ∈ s.calls r → ∃ author, (author, p) ∈ s.produced
  author : ∀ r, ∀ p ∈ s.accepted r, (r.peer, p) ∈ s.produced
  bound : ∀ r, ∀ p ∈ s.accepted r, p.header.counter ≤ s.counter r
  increasing : ∀ r, (s.accepted r).Pairwise fun p q => p.header.counter < q.header.counter

theorem Session.Fresh.new : Session.new.Fresh where
  vector := by simp [Session.new]
  bound := by simp [Session.new]
  nodup := by simp [Session.new]

theorem Session.Ordered.new : Session.new.Ordered where
  pending := by simp [Session.new]
  author := by simp [Session.new]
  bound := by simp [Session.new]
  increasing := by simp [Session.new]

theorem le_update {f : Role → UInt64} {r : Role} {n : UInt64} (h : f r ≤ n) (q : Role) :
    f q ≤ update f r n q := by
  by_cases hq : q = r
  · subst hq
    simpa using h
  · simp [update_of_ne hq]

def clearGcm : Gcm where
  encrypt _ _ _ plain := (plain, [])
  decrypt _ _ _ _ cipher := some cipher

def packetAt (r : Role) (counter : UInt64) (message : List UInt8) : TIPacket :=
  ⟨⟨counter, Bytes.le 8 counter.toNat ++ Bytes.le 4 (if r.isHost then 1 else 0), [0, 0, 0, 0]⟩,
    [], message⟩

def exchange : List Action :=
  [.encryptRead .client (replicate 16 0) 56 false true,
    .encryptWrite .client 0 (replicate 16 0) true,
    .newMessageCheck .host (packetAt .client 1 (replicate 16 0)) true true true true,
    .newMessageStore .host (packetAt .client 1 (replicate 16 0)),
    .encryptRead .host (replicate 16 7) 56 true true,
    .encryptWrite .host 1 (replicate 16 7) true]

section Invariants

variable {gcm : Gcm} {key : List UInt8} {s t : Session} {a : Action}

theorem Session.Fresh.of_le (h : s.Fresh) (hp : t.produced = s.produced)
    (hc : ∀ r, s.counter r ≤ t.counter r) : t.Fresh where
  vector r p hm := h.vector r p (hp ▸ hm)
  bound r p hm := UInt64.le_trans (h.bound r p (hp ▸ hm)) (hc r)
  nodup := hp ▸ h.nodup

theorem Session.Fresh.iv_notMem (h : s.Fresh) {r : Role} {p : TIPacket}
    (hiv : constructIV p.header.counter r.isHost ivLenBytes = .ok p.header.iv)
    (hc : s.counter r < p.header.counter) :
    p.header.iv ∉ s.produced.map fun e => e.2.header.iv := by
  intro hm
  obtain ⟨⟨q, p'⟩, hm, heq⟩ := mem_map.mp hm
  have hv := h.vector q p' hm
  rw [heq] at hv
  obtain ⟨hcount, rfl⟩ := constructIV_inj hv hiv
  have hb := h.bound q p' hm
  rw [hcount] at hb
  exact absurd hc (UInt64.not_lt.mpr hb)

theorem Session.Fresh.write (h : s.Fresh) {r : Role} {c : UInt64} {message : List UInt8}
    {gcmOk : Bool} (hc : c = s.counter r) (h0 : c + 1 ≠ 0) :
    ((s.close r (.encrypt c message) (c + 1)).produce r
      (sealPacket gcm key r.isHost (c + 1) message gcmOk)).Fresh := by
  have hlt : s.counter r < c + 1 := hc ▸ lt_add_one_of_ne_zero h0
  have hclose : (s.close r (.encrypt c message) (c + 1)).Fresh :=
    h.of_le rfl (le_update (UInt64.le_of_lt hlt))
  cases hp : sealPacket gcm key r.isHost (c + 1) message gcmOk with
  | error e => exact hclose
  | ok p =>
    obtain ⟨hcount, hiv⟩ := sealPacket_eq_ok hp
    rw [← hcount] at hiv hlt
    have hnew := h.iv_notMem hiv hlt
    refine ⟨?_, ?_, ?_⟩
    · intro q p' hm
      rcases mem_append.mp hm with hm | hm
      · exact h.vector q p' hm
      · cases mem_singleton.mp hm
        exact hiv
    · intro q p' hm
      rcases mem_append.mp hm with hm | hm
      · exact hclose.bound q p' hm
      · cases mem_singleton.mp hm
        simp [hcount]
    · simp only [Session.produce, map_append, map_cons]
      refine nodup_append.mpr ⟨h.nodup, by simp, ?_⟩
      intro old hold iv hiv heq
      cases mem_singleton.mp hiv
      exact hnew (heq ▸ hold)

theorem Session.Fresh.step (h : s.Fresh) (hok : s.Undisturbed a)
    (hs : s.step gcm key a = some t) : t.Fresh := by
  rcases Session.step_cases hs with rfl | ⟨r, message, rfl⟩ |
    ⟨r, c, message, gcmOk, rfl, rfl⟩ | ⟨r, packet, u, m, b, g, rfl, -, -, rfl⟩ |
    ⟨r, packet, rfl, -, rfl⟩
  · exact h
  · exact h.of_le rfl fun _ => UInt64.le_refl _
  · exact h.write hok.1 hok.2
  · exact h.of_le rfl fun _ => UInt64.le_refl _
  · exact h.of_le rfl fun q => le_update (UInt64.le_of_lt hok) q

theorem Session.mem_produce {r q : Role} {p : TIPacket} {x : Except ObjectError TIPacket}
    (h : (q, p) ∈ s.produced) : (q, p) ∈ (s.produce r x).produced := by
  cases x with
  | error e => exact h
  | ok p' => exact mem_append_left _ h

theorem Session.Ordered.of_le (h : s.Ordered)
    (hcalls : ∀ r p, .newMessage p ∈ t.calls r → .newMessage p ∈ s.calls r)
    (ha : t.accepted = s.accepted) (hp : ∀ r p, (r, p) ∈ s.produced → (r, p) ∈ t.produced)
    (hc : ∀ r, s.counter r ≤ t.counter r) : t.Ordered where
  pending r p hm := (h.pending r p (hcalls r p hm)).imp fun q => hp q p
  author r p hm := hp _ _ (h.author r p (ha ▸ hm))
  bound r p hm := UInt64.le_trans (h.bound r p (ha ▸ hm)) (hc r)
  increasing r := ha ▸ h.increasing r

theorem Session.Ordered.check (h : s.Ordered) {r : Role} {packet : TIPacket}
    (hauth : packet ∈ s.produced.map Prod.snd) :
    (s.open r (.newMessage packet)).Ordered where
  pending q p hm := by
    rcases Session.mem_open_calls hm with ⟨-, hd⟩ | hm
    · cases hd
      obtain ⟨⟨author, p⟩, hmem, rfl⟩ := mem_map.mp hauth
      exact ⟨author, hmem⟩
    · exact h.pending q p hm
  author := h.author
  bound := h.bound
  increasing := h.increasing

theorem Session.Ordered.store (h : s.Ordered) (hf : s.Fresh) {r : Role} {packet : TIPacket}
    (hmem : .newMessage packet ∈ s.calls r) (hc : s.counter r < packet.header.counter) :
    ((s.close r (.newMessage packet) packet.header.counter).accept r packet).Ordered := by
  have hauth : (r.peer, packet) ∈ s.produced := by
    obtain ⟨q, hq⟩ := h.pending r packet hmem
    have hne : q ≠ r := by
      rintro rfl
      exact absurd hc (UInt64.not_lt.mpr (hf.bound q packet hq))
    have hpeer : q = r.peer := by
      cases q <;> cases r <;> first | rfl | exact absurd rfl hne
    exact hpeer ▸ hq
  refine ⟨?_, ?_, ?_, ?_⟩ <;> intro q
  · intro p hm
    rw [Session.accept_calls] at hm
    exact h.pending q p (Session.mem_close_calls hm)
  all_goals by_cases hq : q = r
  · subst hq
    simp only [Session.accept, update_self, mem_append, mem_singleton]
    rintro p (hm | rfl)
    · exact h.author q p hm
    · exact hauth
  · simpa [Session.accept, update_of_ne hq] using h.author q
  · subst hq
    simp only [Session.accept, update_self, mem_append, mem_singleton, Session.close_counter]
    rintro p (hm | rfl)
    · exact UInt64.le_trans (h.bound q p hm) (UInt64.le_of_lt hc)
    · exact UInt64.le_refl _
  · simpa [Session.accept, update_of_ne hq] using h.bound q
  · subst hq
    simp only [Session.accept, update_self]
    refine pairwise_append.mpr ⟨h.increasing q, pairwise_singleton _ _, ?_⟩
    intro p hp p' hp'
    cases mem_singleton.mp hp'
    exact UInt64.lt_of_le_of_lt (h.bound q p hp) hc
  · simpa [Session.accept, update_of_ne hq] using h.increasing q

theorem Session.Ordered.step (h : s.Ordered) (hf : s.Fresh) (hok : s.Undisturbed a)
    (hauth : s.Authentic gcm key a) (hs : s.step gcm key a = some t) : t.Ordered := by
  rcases Session.step_cases hs with rfl | ⟨r, message, rfl⟩ |
    ⟨r, c, message, gcmOk, rfl, rfl⟩ | ⟨r, packet, u, m, b, g, rfl, hd, -, rfl⟩ |
    ⟨r, packet, rfl, hmem, rfl⟩
  · exact h
  · refine h.of_le (fun q p hm => ?_) rfl (fun _ _ => id) fun _ => UInt64.le_refl _
    rcases Session.mem_open_calls hm with ⟨-, hd⟩ | hm
    · cases hd
    · exact hm
  · refine h.of_le (fun q p hm => Session.mem_close_calls (by simpa using hm)) (by simp)
      (fun _ _ hm => Session.mem_produce hm) fun q => ?_
    rw [Session.produce_counter]
    exact le_update (hok.1 ▸ UInt64.le_of_lt (lt_add_one_of_ne_zero hok.2)) q
  · exact h.check (hauth hd)
  · exact h.store hf hmem hok

/-- A packet that has been checked and not yet stored is still ahead of the counter. -/
def Session.Pending (s : Session) : Prop :=
  ∀ r p, .newMessage p ∈ s.calls r → s.counter r < p.header.counter

theorem Session.Pending.write (h : s.Pending) {r : Role} (hcounter : ∀ q ≠ r, t.counter q = s.counter q)
    (hcalls : ∀ q ≠ r, t.calls q = s.calls q) (hr : ∀ c ∈ t.calls r, c.isNewMessage = false) :
    t.Pending := by
  intro q p hm
  by_cases hq : q = r
  · cases hr _ (hq ▸ hm)
  · rw [hcounter q hq]
    exact h q p (hcalls q hq ▸ hm)

theorem Session.Pending.step (h : s.Pending) (hok : s.Serial a) (hs : s.step gcm key a = some t) :
    t.Pending := by
  rcases Session.step_cases hs with rfl | ⟨r, message, rfl⟩ |
    ⟨r, c, message, gcmOk, rfl, rfl⟩ | ⟨r, packet, u, m, b, g, rfl, -, hc, rfl⟩ |
    ⟨r, packet, rfl, -, rfl⟩
  · exact h
  · intro q p hm
    rcases Session.mem_open_calls hm with ⟨-, hd⟩ | hm
    · cases hd
    · exact h q p hm
  · refine h.write (r := r) (fun q hq => ?_) (fun q hq => ?_) fun d hd => ?_
    · simp [update_of_ne hq]
    · simp [Session.close, update_of_ne hq]
    · rw [Session.produce_calls] at hd
      exact hok.2 d (Session.mem_close_calls hd)
  · intro q p hm
    rcases Session.mem_open_calls hm with ⟨rfl, hd⟩ | hm
    · cases hd
      exact hc
    · exact h q p hm
  · refine h.write (r := r) (fun q hq => ?_) (fun q hq => ?_) fun d hd => ?_
    · exact update_of_ne hq _ _
    · exact update_of_ne hq _ _
    · simp only [Session.accept_calls, Session.close, update_self] at hd
      exact hok d hd

theorem Session.Pending.undisturbed (h : s.Pending) (hok : s.Serial a)
    (hs : s.step gcm key a = some t) : s.Undisturbed a := by
  cases a with
  | encryptRead => trivial
  | encryptWrite => exact hok.1
  | newMessageCheck => trivial
  | newMessageStore r packet =>
    obtain ⟨hmem, -⟩ := Option.ite_none_right_eq_some.mp hs
    exact h r packet hmem

/-- No two packets of a session are encrypted under one vector. -/
theorem produced_iv_nodup {as : List Action}
    (h : Run.Guarded (Session.step gcm key) Session.Undisturbed Session.new as s) :
    (s.produced.map fun e => e.2.header.iv).Nodup :=
  (h.invariant Session.Fresh Session.Fresh.new fun _ _ _ hi hok hs => hi.step hok hs).nodup

theorem produced_iv_nodup_exchange :
    ∃ s, Run.Guarded (Session.step clearGcm []) Session.Undisturbed Session.new exchange s ∧
      (s.produced.map fun e => e.2.header.iv).Nodup := by
  obtain ⟨s, -, h⟩ := Run.exists_guarded (Session.step clearGcm []) Session.Undisturbed
    Session.new exchange (by decide)
  exact ⟨s, h, produced_iv_nodup h⟩

/-- An endpoint accepts packets of its peer only, each at most once and in the order
of their counters, and a packet it refuses leaves its counter alone. -/
theorem accepted_increasing_nodup {as : List Action} (h : Run.Guarded (Session.step gcm key)
      (fun s a => s.Serial a ∧ s.Authentic gcm key a) Session.new as s) (r : Role) :
    ((s.accepted r).Pairwise fun p q => p.header.counter < q.header.counter) ∧
    (s.accepted r).Nodup ∧
    (∀ p ∈ s.accepted r, (r.peer, p) ∈ s.produced ∧ (r, p) ∉ s.produced) ∧
    ∀ packet u m b g e, (newMessage gcm key (s.counter r) packet u m b g).2 = .error e →
      (newMessage gcm key (s.counter r) packet u m b g).1 = s.counter r := by
  have hinv : s.Pending ∧ s.Fresh ∧ s.Ordered := by
    refine h.invariant (fun s => s.Pending ∧ s.Fresh ∧ s.Ordered)
      ⟨by simp [Session.Pending, Session.new], Session.Fresh.new, Session.Ordered.new⟩ ?_
    rintro s a t ⟨hp, hf, ho⟩ ⟨hserial, hauth⟩ hs
    have hok := hp.undisturbed hserial hs
    exact ⟨hp.step hserial hs, hf.step hok hs, ho.step hf hok hauth hs⟩
  obtain ⟨-, hf, ho⟩ := hinv
  refine ⟨ho.increasing r, ?_, ?_, ?_⟩
  · refine (ho.increasing r).imp ?_
    rintro p q hlt rfl
    exact UInt64.lt_irrefl _ hlt
  · intro p hp
    refine ⟨ho.author r p hp, fun hown => ?_⟩
    have hpeer := hf.vector r.peer p (ho.author r p hp)
    have heq := (constructIV_inj hpeer (hf.vector r p hown)).2
    cases r <;> cases heq
  · intro packet u m b g e he
    unfold newMessage at he ⊢
    split at he
    · rfl
    · cases he

theorem accepted_increasing_nodup_exchange : ∃ s, Run.Guarded (Session.step clearGcm [])
        (fun s a => s.Serial a ∧ s.Authentic clearGcm [] a) Session.new exchange s ∧
      (s.accepted .host).Nodup := by
  obtain ⟨s, -, h⟩ := Run.exists_guarded (Session.step clearGcm [])
    (fun s a => s.Serial a ∧ s.Authentic clearGcm [] a) Session.new exchange (by decide)
  exact ⟨s, h, (accepted_increasing_nodup h .host).2.1⟩

end Invariants

section Exhaustion

variable {gcm : Gcm} {key : List UInt8}

def encryptActions (s : Session) (r : Role) (message : List UInt8) : List Action :=
  [.encryptRead r message (getPacketLen message.length) false true,
    .encryptWrite r (s.counter r) message true]

def Session.encrypted (gcm : Gcm) (key : List UInt8) (s : Session) (r : Role)
    (message : List UInt8) : Session :=
  ((s.open r (.encrypt (s.counter r) message)).close r (.encrypt (s.counter r) message)
    (s.counter r + 1)).produce r (sealPacket gcm key r.isHost (s.counter r + 1) message true)

theorem guarded_encryptActions (s : Session) (r : Role) (message : List UInt8) :
    Run.Guarded (Session.step gcm key) (Session.Authentic gcm key) s (encryptActions s r message)
      (s.encrypted gcm key r message) := by
  have hread : s.step gcm key (.encryptRead r message (getPacketLen message.length) false true) =
      some (s.open r (.encrypt (s.counter r) message)) := by
    simp [Session.step, encryptReady]
  have hwrite : (s.open r (.encrypt (s.counter r) message)).step gcm key
      (.encryptWrite r (s.counter r) message true) = some (s.encrypted gcm key r message) := by
    simp [Session.step, Session.open, Session.encrypted]
  exact (Run.Guarded.single trivial hread).trans (Run.Guarded.single trivial hwrite)

theorem encrypted_counter (s : Session) (r : Role) (message : List UInt8) :
    (s.encrypted gcm key r message).counter = update s.counter r (s.counter r + 1) := by
  simp [Session.encrypted]

theorem encrypted_accepted (s : Session) (r : Role) (message : List UInt8) :
    (s.encrypted gcm key r message).accepted = s.accepted := by
  simp [Session.encrypted]

theorem subset_encrypted_produced (s : Session) (r : Role) (message : List UInt8) :
    s.produced ⊆ (s.encrypted gcm key r message).produced :=
  fun _ hm => Session.mem_produce hm

theorem exists_encrypts (gcm : Gcm) (key : List UInt8) (s : Session) (r : Role)
    (message : List UInt8) (n : Nat) :
    ∃ as t, Run.Guarded (Session.step gcm key) (Session.Authentic gcm key) s as t ∧
      t.counter r = s.counter r + UInt64.ofNat n ∧ s.produced ⊆ t.produced ∧
      t.accepted = s.accepted := by
  induction n with
  | zero => exact ⟨[], s, .nil, by simp, fun _ hm => hm, rfl⟩
  | succ n ih =>
    obtain ⟨as, t, hrun, hc, hp, ha⟩ := ih
    refine ⟨_, _, hrun.trans (guarded_encryptActions t r message), ?_, ?_, ?_⟩
    · rw [encrypted_counter, update_self, hc, UInt64.ofNat_add, UInt64.add_assoc]
      rfl
    · exact fun _ hm => subset_encrypted_produced t r message (hp hm)
    · rw [encrypted_accepted, ha]

theorem encrypted_produced {s : Session} {r : Role} (message : List UInt8)
    (h : s.counter r + 1 ≠ 0) :
    (s.encrypted clearGcm [] r message).produced =
      s.produced ++ [(r, packetAt r (s.counter r + 1) message)] := by
  have hseal : sealPacket clearGcm [] r.isHost (s.counter r + 1) message true =
      .ok (packetAt r (s.counter r + 1) message) := by
    simp [sealPacket, constructIV_eq_ok, h, bind, Except.bind, pure, Except.pure, clearGcm,
      packetAt]
  simp [Session.encrypted, hseal, Session.produce]

/-- The encryption that finds the counter exhausted fails and leaves it at zero, so
the next one uses the first vector again. -/
theorem iv_reused_after_wrap : ∃ as s, Run.exec (Session.step clearGcm []) Session.new as = some s ∧
      ¬ (s.produced.map fun e => e.2.header.iv).Nodup := by
  let s₁ := Session.new.encrypted clearGcm [] .client []
  have hs₁ : s₁.counter .client = 1 := by simp [s₁, encrypted_counter, Session.new]
  obtain ⟨as, t, hrun, hc, hp, -⟩ := exists_encrypts clearGcm [] s₁ .client [] (2 ^ 64 - 1)
  have ht : t.counter .client = 0 := by
    rw [hc]
    decide
  have hfirst : (Role.client, packetAt .client 1 []) ∈ t.produced := by
    refine hp ?_
    rw [show s₁.produced = _ from encrypted_produced [] (by decide)]
    simp [Session.new]
  have hlast := encrypted_produced (s := t) (r := .client) [] (by simp [ht])
  refine ⟨_, _, ((guarded_encryptActions Session.new .client []).trans
    (hrun.trans (guarded_encryptActions t .client []))).exec, fun hnodup => ?_⟩
  rw [hlast, ht, map_append] at hnodup
  refine (nodup_append.mp hnodup).2.2 _ (mem_map.mpr ⟨_, hfirst, rfl⟩) _ (mem_singleton.mpr rfl) rfl

def Session.acceptedOnce (s : Session) (r : Role) (p : TIPacket) : Session :=
  ((s.open r (.newMessage p)).close r (.newMessage p) p.header.counter).accept r p

theorem guarded_acceptActions {s : Session} {r : Role} {p : TIPacket}
    (hlen : ¬ p.len < sizeofTIPacket) (hc : s.counter r < p.header.counter)
    (hp : p ∈ s.produced.map Prod.snd) :
    Run.Guarded (Session.step clearGcm []) (Session.Authentic clearGcm []) s
      [.newMessageCheck r p true true true true, .newMessageStore r p] (s.acceptedOnce r p) := by
  have hcheck : s.step clearGcm [] (.newMessageCheck r p true true true true) =
      some (s.open r (.newMessage p)) := by
    simp [Session.step, openPacket, hlen, clearGcm, hc]
  have hstore : (s.open r (.newMessage p)).step clearGcm [] (.newMessageStore r p) =
      some (s.acceptedOnce r p) := by
    simp [Session.step, Session.open, Session.acceptedOnce]
  exact (Run.Guarded.single (fun _ => hp) hcheck).trans (Run.Guarded.single trivial hstore)

/-- A packet is accepted again once the acceptor's own encryptions have run the counter through
zero, and when two threads check it before either stores its counter. -/
theorem packet_accepted_twice :
    (∃ as s p, Run.Guarded (Session.step clearGcm []) (Session.Authentic clearGcm [])
      Session.new as s ∧ s.accepted .host = [p, p]) ∧
    (Run.execIf (Session.step clearGcm []) (Session.Authentic clearGcm []) Session.new
      (encryptActions Session.new .client (List.replicate 16 0) ++
        [.newMessageCheck .host (packetAt .client 1 (List.replicate 16 0)) true true true true,
          .newMessageCheck .host (packetAt .client 1 (List.replicate 16 0)) true true true true,
          .newMessageStore .host (packetAt .client 1 (List.replicate 16 0)),
          .newMessageStore .host (packetAt .client 1 (List.replicate 16 0))])).map
        (fun s => s.accepted .host) =
      some [packetAt .client 1 (List.replicate 16 0), packetAt .client 1 (List.replicate 16 0)] := by
  refine ⟨?_, by decide⟩
  let p := packetAt .client 1 (replicate 16 0)
  let s₁ := Session.new.encrypted clearGcm [] .client (replicate 16 0)
  have hp₁ : p ∈ s₁.produced.map Prod.snd := by
    rw [show s₁.produced = _ from encrypted_produced _ (by decide)]
    simp [Session.new, p]
  let s₂ := s₁.acceptedOnce .host p
  have hrun₂ : Run.Guarded (Session.step clearGcm []) (Session.Authentic clearGcm []) s₁ _ s₂ :=
    guarded_acceptActions (by decide) (by decide) hp₁
  have hc₂ : s₂.counter .host = 1 := rfl
  have ha₂ : s₂.accepted .host = [p] := rfl
  obtain ⟨as, t, hrun, hc, hsub, ha⟩ := exists_encrypts clearGcm [] s₂ .host [] (2 ^ 64 - 1)
  have ht : t.counter .host = 0 := by
    rw [hc]
    decide
  have hpt : p ∈ t.produced.map Prod.snd := by
    obtain ⟨e, he, hep⟩ := mem_map.mp hp₁
    exact mem_map.mpr ⟨e, hsub he, hep⟩
  have hlast : Run.Guarded (Session.step clearGcm []) (Session.Authentic clearGcm []) t _
      (t.acceptedOnce .host p) :=
    guarded_acceptActions (by decide) (by rw [ht]; decide) hpt
  refine ⟨_, _, p, (guarded_encryptActions Session.new .client (replicate 16 0)).trans
    (hrun₂.trans (hrun.trans hlast)), ?_⟩
  simp [Session.acceptedOnce, Session.accept, ha, ha₂]

end Exhaustion

end MinkIpc.TunnelInvoke
