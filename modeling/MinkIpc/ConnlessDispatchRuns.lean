import Mathlib.Data.List.Nodup
import MinkIpc.ConnlessDispatch

/-! Which session a datagram is handed to. The table of sessions has no two that match one another;
that the one found is alive and of the right node rests on when sessions die. -/

namespace MinkIpc.ConnlessDispatch

open List

variable {s t : State} {l : List Session} {x y : Session} {a b : SockAgnostic} {ty : IpcType}
  {next : Nat}

section Table

def Connless (ty : IpcType) : Prop := ty = .qipcrtr ∨ ty = .vsock

theorem fullMatched_iff (h : Connless a.sockType) : a.fullMatched b = true ↔
    a.sockType = b.sockType ∧ a.port = b.port ∧ (a.sockType = .qipcrtr → a.node = b.node) := by
  unfold SockAgnostic.fullMatched
  rcases h with h | h
  · rw [h]
    simp only [ite_not, Bool.if_false_right, Bool.and_eq_true, decide_eq_true_eq]
    tauto
  · rw [h]
    simp

def Session.face (x : Session) : Nat × IpcType × UInt32 × UInt32 :=
  (x.id, x.sockAgnostic.sockType, x.sockAgnostic.node, x.sockAgnostic.port)

theorem face_close (x : Session) : x.close.face = x.face := by
  unfold Session.close
  split_ifs <;> rfl

theorem fullMatched_congr {x' : Session} {peer : SockAgnostic} (h : Connless x.sockAgnostic.sockType)
    (hface : x'.face = x.face) :
    x'.sockAgnostic.fullMatched peer = true ↔ x.sockAgnostic.fullMatched peer = true := by
  simp only [Session.face, Prod.mk.injEq] at hface
  obtain ⟨-, htype, hnode, hport⟩ := hface
  rw [fullMatched_iff h, fullMatched_iff (htype ▸ h), htype, hnode, hport]

/-- The sessions of the list: they have the type of the listener, and none matches another. -/
structure Table (ty : IpcType) (l : List Session) (next : Nat) : Prop where
  types : ∀ x ∈ l, x.sockAgnostic.sockType = ty
  ids : (l.map Session.id).Nodup
  fresh : ∀ x ∈ l, x.id < next
  distinct : l.Pairwise fun x y => ¬x.sockAgnostic.fullMatched y.sockAgnostic

section

variable (h : Table ty l next)
include h

theorem Table.connless (hty : Connless ty) (hx : x ∈ l) : Connless x.sockAgnostic.sockType := by
  rw [h.types x hx]
  exact hty

theorem Table.sublist {l' : List Session} (hsub : l'.Sublist l) : Table ty l' next where
  types x hx := h.types x (hsub.subset hx)
  ids := h.ids.sublist (hsub.map _)
  fresh x hx := h.fresh x (hsub.subset hx)
  distinct := h.distinct.sublist hsub

theorem Table.map {g : Session → Session} (hty : Connless ty)
    (hg : ∀ x, (g x).face = x.face) : Table ty (l.map g) next := by
  have hface (x : Session) := hg x
  simp only [Session.face, Prod.mk.injEq] at hface
  refine ⟨?_, ?_, ?_, ?_⟩
  · exact forall_mem_map.mpr fun x hx => (hface x).2.1.trans (h.types x hx)
  · have hid : Session.id ∘ g = Session.id := funext fun x => (hface x).1
    rw [map_map, hid]
    exact h.ids
  · exact forall_mem_map.mpr fun x hx => lt_of_eq_of_lt (hface x).1 (h.fresh x hx)
  · rw [pairwise_map]
    refine h.distinct.imp_of_mem ?_
    intro x y hx hy hne
    have hx' := h.types x hx
    rw [fullMatched_iff (by rw [(hface x).2.1, hx']; exact hty), (hface x).2.1, (hface x).2.2.1,
      (hface x).2.2.2, (hface y).2.1, (hface y).2.2.1, (hface y).2.2.2,
      ← fullMatched_iff (by rw [hx']; exact hty)]
    exact hne

theorem Table.append (hx : x.sockAgnostic.sockType = ty) (hid : x.id = next)
    (hnone : ∀ y ∈ l, ¬y.sockAgnostic.fullMatched x.sockAgnostic) :
    Table ty (l ++ [x]) (next + 1) := by
  refine ⟨?_, ?_, ?_, ?_⟩
  · exact forall_mem_append.mpr ⟨h.types, forall_mem_singleton.mpr hx⟩
  · rw [map_append]
    refine nodup_append.mpr ⟨h.ids, nodup_singleton _, ?_⟩
    intro i hi j hj heq
    obtain ⟨y, hy, rfl⟩ := mem_map.mp hi
    have hlt := h.fresh y hy
    rw [heq, mem_singleton.mp hj] at hlt
    omega
  · exact forall_mem_append.mpr ⟨fun y hy => Nat.lt_succ_of_lt (h.fresh y hy),
      forall_mem_singleton.mpr (hid ▸ Nat.lt_succ_self _)⟩
  · refine pairwise_append.mpr ⟨h.distinct, pairwise_singleton _ _, ?_⟩
    intro y hy z hz
    rw [mem_singleton.mp hz]
    exact hnone y hy

end

def SockAgnostic.addr (a : SockAgnostic) : UInt32 × UInt32 := (a.node, a.port)

def Session.addr (x : Session) : UInt32 × UInt32 := x.sockAgnostic.addr

theorem Table.addrs (h : Table ty l next) (hty : Connless ty) : (l.map Session.addr).Nodup := by
  refine pairwise_map.mpr (h.distinct.imp_of_mem ?_)
  intro x y hx hy hne heq
  simp only [Session.addr, SockAgnostic.addr, Prod.mk.injEq] at heq
  apply hne
  rw [fullMatched_iff (h.connless hty hx), h.types x hx, h.types y hy]
  exact ⟨rfl, heq.2, fun _ => heq.1⟩

theorem Table.unique (h : Table ty l next) (hty : Connless ty) (hx : x ∈ l) (hy : y ∈ l)
    (haddr : x.addr = y.addr) : x = y :=
  inj_on_of_nodup_map (h.addrs hty) hx hy haddr

end Table

section Invariant

def Serves (x : Session) (peer : SockAgnostic) : Prop :=
  x.isAlive ∧ x.sockAgnostic.node = peer.node ∧ x.sockAgnostic.port = peer.port

def Ready (l : List Session) (peer : SockAgnostic) : Prop :=
  ∀ x ∈ l, x.sockAgnostic.fullMatched peer → x.isAlive ∧ x.sockAgnostic.node = peer.node

def Entry.peer : Entry → SockAgnostic
  | .handed peer _ _ => peer
  | .abandoned peer _ => peer

def Entry.Sound (s : State) : Entry → Prop
  | .handed peer x _ => Serves x peer
  | .abandoned _ c => c.succeeds s = false

def Pc.carried : Pc → List SockAgnostic
  | .lookup peer => [peer]
  | .handle peer _ => [peer]
  | _ => []

/-- The addresses seen so far: those of the datagrams and, at a client, that of its server. -/
def State.known (s : State) : List (UInt32 × UInt32) :=
  (if s.bServer then [] else [s.sockAgnostic.addr]) ++ s.through.map SockAgnostic.addr

def Pc.Sound (s : State) : Pc → Prop
  | .receive => ∀ x ∈ s.sessions, x.isAlive ∨ x.id ∈ s.closed
  | .lookup peer => peer.sockType = s.sockAgnostic.sockType ∧ Ready s.sessions peer
  | .handle peer i => ∃ x ∈ s.sessions, x.id = i ∧ Serves x peer
  | _ => True

structure Base (s : State) : Prop where
  connless : Connless s.sockAgnostic.sockType
  table : Table s.sockAgnostic.sockType s.sessions s.next
  addrs : ∀ x ∈ s.sessions, x.addr ∈ s.known
  logged : ∀ e ∈ s.log, e.Sound s

structure Idle (s : State) : Prop extends Base s where
  account : s.through = s.log.map Entry.peer

structure Dispatch (s : State) : Prop extends Base s where
  carried : s.pc.Sound s
  account : s.through = s.log.map Entry.peer ++ s.pc.carried

section Close

theorem face_closeSession (i : Nat) (x : Session) :
    (if x.id = i then x.close else x).face = x.face := by
  split_ifs
  · exact face_close x
  · rfl

def Closing (l l' : List Session) : Prop :=
  ∃ g : Session → Session, (∀ x, (g x).face = x.face) ∧ l' = l.map g

theorem Closing.refl (l : List Session) : Closing l l := ⟨fun x => x, fun _ => rfl, by simp⟩

theorem closing_closeSession (l : List Session) (i : Nat) : Closing l (closeSession l i) :=
  ⟨_, face_closeSession i, rfl⟩

theorem closing_closeSessionOfNode (l : List Session) (peer : SockAgnostic) :
    Closing l (closeSessionOfNode l peer) := by
  refine ⟨_, ?_, rfl⟩
  intro x
  split_ifs
  · exact face_close x
  · rfl

theorem closing_closeAllSessions (l : List Session) : Closing l (closeAllSessions l) :=
  ⟨_, face_close, rfl⟩

end Close

theorem Base.closing {l : List Session} (h : Base s) (hl : Closing s.sessions l) :
    Base { s with sessions := l } := by
  obtain ⟨g, hg, rfl⟩ := hl
  refine ⟨h.connless, h.table.map h.connless hg, fun y hy => ?_, h.logged⟩
  obtain ⟨x, hx, rfl⟩ := mem_map.mp hy
  have haddr : (g x).addr = x.addr := congrArg (fun f => f.2.2) (hg x)
  rw [haddr]
  exact h.addrs x hx

theorem Idle.closing {l : List Session} (h : Idle s) (hl : Closing s.sessions l) :
    Idle { s with sessions := l } :=
  ⟨h.toBase.closing hl, h.account⟩

theorem Dispatch.idle (h : Dispatch s) (hpc : s.pc.carried = []) : Idle s := by
  refine ⟨h.toBase, ?_⟩
  have haccount := h.account
  rwa [hpc, append_nil] at haccount

theorem Idle.dispatch {pc : Pc} (h : Idle s) (hpc : pc = .cleanup ∨ pc = .done) :
    Dispatch { s with pc := pc } := by
  have hcarried : pc.carried = [] := by rcases hpc with rfl | rfl <;> rfl
  refine ⟨⟨h.connless, h.table, h.addrs, h.logged⟩, ?_, ?_⟩
  · rcases hpc with rfl | rfl <;> trivial
  · rw [hcarried, append_nil]
    exact h.account

theorem Idle.serverDone (h : Idle s) : Dispatch (serverDone s) :=
  (h.closing (closing_closeAllSessions s.sessions)).dispatch (.inr rfl)

theorem Idle.continueLoop (h : Idle s) : Dispatch (continueLoop s) := by
  unfold ConnlessDispatch.continueLoop
  split_ifs
  · exact h.serverDone
  · exact h.dispatch (.inl rfl)

end Invariant

section Steps

def peerOf (s : State) (pkt : Datagram) : SockAgnostic := (s.sockAgnostic.preProcess pkt).2

def IsMessage (s : State) (pkt : Datagram) : Prop :=
  s.sockAgnostic.sockType = .qipcrtr → pkt.type = .data

variable {pkt : Datagram} {peer : SockAgnostic}

theorem sockQRTRPreProcess_of_data (h : pkt.type = .data) : sockQRTRPreProcess pkt = objectOk := by
  simp [sockQRTRPreProcess, h, objectOk]

theorem sockQRTRPreProcess_of_ne (h : pkt.type ≠ .data) :
    sockQRTRPreProcess pkt = discard ∨ sockQRTRPreProcess pkt = clientDown ∨
      sockQRTRPreProcess pkt = serverDown ∨ sockQRTRPreProcess pkt = subsysDown := by
  unfold sockQRTRPreProcess
  cases htype : pkt.type with
  | data => exact absurd htype h
  | newServer | delServer | delClient => simp
  | bye => by_cases hnode : pkt.node = 0 <;> simp [hnode]
  | other => simp

theorem receive_of_notification (hty : s.sockAgnostic.sockType = .qipcrtr) (h : pkt.type ≠ .data) :
    ∃ l, Closing s.sessions l ∧ (receive s pkt = continueLoop { s with sessions := l } ∨
        receive s pkt = serverDone { s with sessions := l }) := by
  unfold receive preProcess SockAgnostic.preProcess
  rw [hty]
  dsimp only
  generalize (⟨.qipcrtr, s.sockAgnostic.sockFd, pkt.node, pkt.port, s.sockAgnostic.bServer⟩ :
    SockAgnostic) = peer
  rcases sockQRTRPreProcess_of_ne h with hret | hret | hret | hret
  · rw [hret]
    exact ⟨_, Closing.refl _, .inl rfl⟩
  · rw [hret]
    cases retrieveSession s.sessions peer with
    | none => exact ⟨_, Closing.refl _, .inl rfl⟩
    | some x => exact ⟨_, closing_closeSession _ x.id, .inl rfl⟩
  · rw [hret]
    -- `Object_ERROR` is `DISCARD`: the notification of another server is skipped
    cases s.sockAgnostic.fullMatched peer with
    | false => exact ⟨_, Closing.refl _, .inl rfl⟩
    | true =>
      cases retrieveSession s.sessions peer with
      | none => exact ⟨_, Closing.refl _, .inr rfl⟩
      | some x => exact ⟨_, closing_closeSession _ x.id, .inr rfl⟩
  · rw [hret]
    exact ⟨_, closing_closeSessionOfNode _ _, .inl rfl⟩

theorem receive_of_data (hty : s.sockAgnostic.sockType = .qipcrtr) (h : pkt.type = .data) :
    receive s pkt =
      { s with pc := .lookup (peerOf s pkt), through := s.through ++ [peerOf s pkt] } := by
  unfold receive preProcess peerOf SockAgnostic.preProcess
  rw [hty]
  rw [sockQRTRPreProcess_of_data h]
  rfl

theorem receive_of_vsock (hty : s.sockAgnostic.sockType = .vsock) : receive s pkt = { s with
        sessions :=
          if (retrieveSession s.sessions (peerOf s pkt)).isSome then s.sessions
          else closeAllSessions s.sessions
        pc := .lookup (peerOf s pkt)
        through := s.through ++ [peerOf s pkt] } := by
  unfold receive preProcess peerOf SockAgnostic.preProcess
  rw [hty]
  dsimp only
  generalize (⟨.vsock, s.sockAgnostic.sockFd, pkt.node, pkt.port, s.sockAgnostic.bServer⟩ :
    SockAgnostic) = peer
  cases retrieveSession s.sessions peer <;> rfl

theorem peerOf_sockType (s : State) (pkt : Datagram) :
    (peerOf s pkt).sockType = s.sockAgnostic.sockType := by
  unfold peerOf SockAgnostic.preProcess
  cases s.sockAgnostic.sockType <;> rfl

theorem Idle.lookup {l : List Session} (h : Idle s) (hl : Closing s.sessions l)
    (hty : peer.sockType = s.sockAgnostic.sockType) (hready : Ready l peer) :
    Dispatch { s with sessions := l, pc := .lookup peer, through := s.through ++ [peer] } := by
  have hbase := h.toBase.closing hl
  refine ⟨⟨hbase.connless, hbase.table, fun x hx => ?_, hbase.logged⟩, ⟨hty, hready⟩, ?_⟩
  · have haddr := hbase.addrs x hx
    simp only [State.known, map_append, ← append_assoc] at haddr ⊢
    exact mem_append_left _ haddr
  · exact congrArg (· ++ [peer]) h.account

/-- No session of the peer has been closed by a worker since the last clean-up and, on VSOCK, no
datagram before came from its port on another node. -/
def Reaches (s : State) (peer : SockAgnostic) : Prop :=
  (∀ x ∈ s.sessions, x.id ∈ s.closed → ¬x.sockAgnostic.fullMatched peer) ∧
    (s.sockAgnostic.sockType = .vsock → ∀ q ∈ s.known, q.2 = peer.port → q.1 = peer.node)

theorem Dispatch.ready (h : Dispatch s) (hpc : s.pc = .receive) (hreach : Reaches s peer) :
    Ready s.sessions peer := by
  intro x hx hmatch
  have hcarried := h.carried
  rw [hpc] at hcarried
  obtain ⟨-, hport, hnode⟩ := (fullMatched_iff (h.table.connless h.connless hx)).mp hmatch
  rw [h.table.types x hx] at hnode
  refine ⟨(hcarried x hx).resolve_right fun hclosed => hreach.1 x hx hclosed hmatch, ?_⟩
  rcases h.connless with hty | hty
  · exact hnode hty
  · exact hreach.2 hty _ (h.addrs x hx) hport

theorem Dispatch.recvfrom (h : Dispatch s) (hpc : s.pc = .receive)
    (hreach : IsMessage s pkt → Reaches s (peerOf s pkt)) : Dispatch (receive s pkt) := by
  have hready := fun hmessage => h.ready hpc (hreach hmessage)
  have hidle : Idle s := h.idle (by rw [hpc]; rfl)
  have hpeer := peerOf_sockType s pkt
  rcases h.connless with hty | hty
  · by_cases hdata : pkt.type = .data
    · rw [receive_of_data hty hdata]
      exact hidle.lookup (Closing.refl _) hpeer (hready fun _ => hdata)
    · obtain ⟨l, hl, hreceive | hreceive⟩ := receive_of_notification hty hdata
      · rw [hreceive]
        exact (hidle.closing hl).continueLoop
      · rw [hreceive]
        exact (hidle.closing hl).serverDone
  · have hmessage : IsMessage s pkt := fun hq => absurd (hq.symm.trans hty) (by decide)
    rw [receive_of_vsock hty]
    split_ifs with hfound
    · exact hidle.lookup (Closing.refl _) hpeer (hready hmessage)
    refine hidle.lookup (closing_closeAllSessions _) hpeer ?_
    -- no session matches, closed or not
    intro y hy hmatch
    obtain ⟨x, hx, rfl⟩ := mem_map.mp hy
    rw [fullMatched_congr (h.table.connless h.connless hx) (face_close x)] at hmatch
    rw [Option.not_isSome_iff_eq_none] at hfound
    exact absurd hmatch (find?_eq_none.mp hfound x hx)

theorem adaptAndCopy_of_connless (dst : SockAgnostic) {dup : Int} (hty : Connless peer.sockType)
    (hdup : 0 ≤ dup) : (dst.adaptAndCopy peer dup).2 =
      ⟨peer.sockType, dup, peer.node, peer.port, peer.bServer⟩ := by
  unfold SockAgnostic.adaptAndCopy
  rcases hty with hty | hty
  · rw [hty]
    dsimp only
    rw [if_neg (by omega)]
  · rw [hty]
    dsimp only
    rw [if_neg (by omega)]

theorem newSession_serves {c : Creation} (hty : Connless peer.sockType) (hdup : 0 ≤ c.dup)
    (h : newSession s peer c = some x) :
    x.id = s.next ∧ x.sockAgnostic.sockType = peer.sockType ∧ Serves x peer := by
  obtain ⟨-, hx⟩ := Option.ite_none_right_eq_some.mp h
  rw [adaptAndCopy_of_connless _ hty hdup] at hx
  cases hx
  refine ⟨rfl, rfl, ?_, rfl, rfl⟩
  have hfd : c.dup ≠ -1 := by omega
  simp [Session.isAlive, SockAgnostic.isAlive, hfd]

theorem Dispatch.settle {e : Entry} (h : Dispatch s) (hpc : s.pc.carried = [e.peer])
    (he : e.Sound s) : Idle { s with log := s.log ++ [e] } := by
  refine ⟨⟨h.connless, h.table, h.addrs, ?_⟩, ?_⟩
  · exact forall_mem_append.mpr ⟨h.logged, forall_mem_singleton.mpr he⟩
  · have haccount := h.account
    rw [hpc] at haccount
    rw [map_append]
    exact haccount

inductive Lookup (s : State) (peer : SockAgnostic) (c : Creation) : State → Prop
  | found (x : Session) (hx : x ∈ s.sessions) (hserves : Serves x peer) :
      Lookup s peer c { s with pc := .handle peer x.id }
  | created (x : Session) (hnone : ∀ y ∈ s.sessions, ¬y.sockAgnostic.fullMatched peer)
      (hid : x.id = s.next) (hty : x.sockAgnostic.sockType = peer.sockType)
      (hserves : Serves x peer) :
      Lookup s peer c
        { s with sessions := s.sessions ++ [x], next := s.next + 1, pc := .handle peer x.id }
  | abandoned (hc : c.succeeds s = false) :
      Lookup s peer c (continueLoop { s with log := s.log ++ [.abandoned peer c] })

theorem Dispatch.lookup {c : Creation} (h : Dispatch s) (hpc : s.pc = .lookup peer)
    (hdup : 0 ≤ c.dup) :
    Lookup s peer c (retrieveOrNewSession s peer c) := by
  have hcarried := h.carried
  rw [hpc] at hcarried
  obtain ⟨hty, hready⟩ := hcarried
  unfold retrieveOrNewSession
  cases hfound : retrieveSession s.sessions peer with
  | some x =>
    have hx : x ∈ s.sessions := mem_of_find?_eq_some hfound
    have hmatch : x.sockAgnostic.fullMatched peer = true := find?_some
      (p := fun x : Session => x.sockAgnostic.fullMatched peer) hfound
    obtain ⟨halive, hnode⟩ := hready x hx hmatch
    have hport := ((fullMatched_iff (h.table.connless h.connless hx)).mp hmatch).2.1
    exact .found x hx ⟨halive, hnode, hport⟩
  | none =>
    cases hnew : newSession s peer c with
    | none => exact .abandoned (Bool.eq_false_iff.mpr fun hc => by simp [newSession, hc] at hnew)
    | some x =>
      obtain ⟨hid, htype, hserves⟩ := newSession_serves (hty ▸ h.connless) hdup hnew
      exact .created x (find?_eq_none.mp hfound) hid htype hserves

theorem Dispatch.of_lookup {c : Creation} (h : Dispatch s) (hpc : s.pc = .lookup peer)
    (ht : Lookup s peer c t) : Dispatch t := by
  have hcarried := h.carried
  have haccount := h.account
  rw [hpc] at hcarried haccount
  cases ht with
  | found x hx hserves =>
    exact ⟨⟨h.connless, h.table, h.addrs, h.logged⟩, ⟨x, hx, rfl, hserves⟩, haccount⟩
  | created x hnone hid hty hserves =>
    have hmatch : ∀ y ∈ s.sessions, ¬y.sockAgnostic.fullMatched x.sockAgnostic := by
      intro y hy hyx
      have hconnless := h.table.connless h.connless hy
      rw [fullMatched_iff hconnless, hty, hserves.2.1, hserves.2.2, ← fullMatched_iff hconnless] at hyx
      exact hnone y hy hyx
    have htable := h.table.append (hty.trans hcarried.1) hid hmatch
    have hx : x ∈ s.sessions ++ [x] := mem_append_right _ (mem_singleton_self x)
    have haddrs : ∀ y ∈ s.sessions ++ [x], y.addr ∈ s.known := by
      intro y hy
      rcases mem_append.mp hy with hy | hy
      · exact h.addrs y hy
      · have hpeer : peer ∈ s.through := by simp [haccount, Pc.carried]
        have haddr : y.addr = peer.addr := by
          rw [mem_singleton.mp hy]
          exact Prod.ext hserves.2.1 hserves.2.2
        exact mem_append_right _ (haddr ▸ mem_map_of_mem hpeer)
    exact ⟨⟨h.connless, htable, haddrs, h.logged⟩, ⟨x, hx, rfl, hserves⟩, haccount⟩
  | abandoned hc => exact (h.settle (e := .abandoned peer c) (by rw [hpc]; rfl) hc).continueLoop

theorem Dispatch.handle {i : Nat} (h : Dispatch s) (hpc : s.pc = .handle peer i) :
    ∃ x, (s.sessions.find? fun x => x.id = i) = some x ∧ Serves x peer ∧
      ∀ queued, Dispatch (continueLoop { s with log := s.log ++ [.handed peer x queued] }) := by
  have hcarried := h.carried
  rw [hpc] at hcarried
  obtain ⟨x, hx, rfl, hserves⟩ := hcarried
  refine ⟨x, ?_, hserves, ?_⟩
  · cases hfind : s.sessions.find? fun y => y.id = x.id with
    | none =>
      have hne := find?_eq_none.mp hfind x hx
      simp at hne
    | some y =>
      have hid := find?_some hfind
      simp only [decide_eq_true_eq] at hid
      rw [inj_on_of_nodup_map h.table.ids (mem_of_find?_eq_some hfind) hx hid]
  · intro queued
    exact (h.settle (e := .handed peer x queued) (by rw [hpc]; rfl) hserves).continueLoop

def Pc.Spares (l : List Session) (i : Nat) : Pc → Prop
  | .lookup peer => ∀ x ∈ l, x.id = i → ¬x.sockAgnostic.fullMatched peer
  | .handle _ j => i ≠ j
  | _ => True

theorem Dispatch.close {i : Nat} (h : Dispatch s) (hspares : s.pc.Spares s.sessions i) :
    Dispatch { s with sessions := closeSession s.sessions i, closed := i :: s.closed } := by
  have hbase := h.toBase.closing (closing_closeSession s.sessions i)
  refine ⟨⟨hbase.connless, hbase.table, hbase.addrs, hbase.logged⟩, ?_, h.account⟩
  have hcarried := h.carried
  cases hpc : s.pc with
  | lookup peer =>
    rw [hpc] at hcarried hspares
    refine ⟨hcarried.1, ?_⟩
    intro y hy hmatch
    obtain ⟨x, hx, rfl⟩ := mem_map.mp hy
    rw [fullMatched_congr (h.table.connless h.connless hx) (face_closeSession i x)] at hmatch
    have hid : x.id ≠ i := fun hid => hspares x hx hid hmatch
    rw [if_neg hid]
    exact hcarried.2 x hx hmatch
  | handle peer j =>
    rw [hpc] at hcarried hspares
    obtain ⟨x, hx, hid, hserves⟩ := hcarried
    have hne : x.id ≠ i := fun hi => hspares (hi.symm.trans hid)
    exact ⟨x, mem_map.mpr ⟨x, hx, if_neg hne⟩, hid, hserves⟩
  | cleanup => trivial
  | receive =>
    rw [hpc] at hcarried
    intro y hy
    obtain ⟨x, hx, rfl⟩ := mem_map.mp hy
    split_ifs with hid
    · have hface : x.close.id = x.id := congrArg Prod.fst (face_close x)
      exact .inr (hface ▸ hid ▸ mem_cons_self)
    · exact (hcarried x hx).imp_right (mem_cons_of_mem i)
  | done => trivial

theorem Dispatch.stop (h : Dispatch s) : Dispatch
    { s with bDone := true, sockAgnostic := { s.sockAgnostic with sockFd := -1 } } := by
  refine ⟨⟨h.connless, h.table, h.addrs, h.logged⟩, ?_, h.account⟩
  have hcarried := h.carried
  cases hpc : s.pc with
  | lookup peer | handle peer j => rwa [hpc] at hcarried
  | cleanup => trivial
  | receive => rwa [hpc] at hcarried
  | done => trivial

/-- When sessions may die and what must not fail: no worker closes a session of the next message's
peer between the clean-up and the end of its dispatch, no two peers on VSOCK have one port, and
the descriptor of a new session is duplicated. -/
def Fair (s : State) : Action → Prop
  | .recvfrom (some pkt) => IsMessage s pkt → Reaches s (peerOf s pkt)
  | .lookup c => 0 ≤ c.dup
  | .close i => s.pc.Spares s.sessions i
  | _ => True

instance (s : State) (peer : SockAgnostic) : Decidable (Reaches s peer) :=
  @instDecidableAnd _ _ _ (@forall_prop_decidable _ _ _ fun _ => List.decidableBAll _ _)

instance (l : List Session) (i : Nat) : ∀ pc : Pc, Decidable (pc.Spares l i)
  | .lookup peer =>
    inferInstanceAs (Decidable (∀ x ∈ l, x.id = i → ¬x.sockAgnostic.fullMatched peer = true))
  | .handle _ j => inferInstanceAs (Decidable (i ≠ j))
  | .cleanup | .receive | .done => isTrue trivial

instance (s : State) : ∀ act : Action, Decidable (Fair s act)
  | .recvfrom (some pkt) =>
    inferInstanceAs (Decidable ((s.sockAgnostic.sockType = .qipcrtr → pkt.type = .data) →
      Reaches s (peerOf s pkt)))
  | .lookup c => inferInstanceAs (Decidable (0 ≤ c.dup))
  | .close i => inferInstanceAs (Decidable (s.pc.Spares s.sessions i))
  | .cleanup | .recvfrom none | .handle _ _ _ | .stop => isTrue trivial

theorem Dispatch.step {act : Action} (h : Dispatch s) (hfair : Fair s act)
    (hstep : ConnlessDispatch.step s act = some t) : Dispatch t := by
  cases act with
  | cleanup =>
    cases hpc : s.pc <;> simp only [ConnlessDispatch.step, hpc, reduceCtorEq, Option.some.injEq] at hstep
    subst hstep
    have hidle : Idle s := h.idle (by rw [hpc]; rfl)
    have hsub : (cleanupDeadSessions s.sessions).Sublist s.sessions := filter_sublist
    refine ⟨⟨h.connless, h.table.sublist hsub, fun x hx => h.addrs x (hsub.subset hx), h.logged⟩,
      fun x hx => .inl (mem_filter.mp hx).2, ?_⟩
    exact hidle.account.trans (append_nil _).symm
  | recvfrom pkt =>
    cases hpc : s.pc <;> cases pkt <;>
      simp only [ConnlessDispatch.step, hpc, reduceCtorEq, Option.some.injEq] at hstep
    · subst hstep
      exact (h.idle (by rw [hpc]; rfl)).serverDone
    · subst hstep
      exact h.recvfrom hpc hfair
  | lookup c =>
    cases hpc : s.pc <;> simp only [ConnlessDispatch.step, hpc, reduceCtorEq, Option.some.injEq] at hstep
    subst hstep
    exact h.of_lookup hpc (h.lookup hpc hfair)
  | handle ctx data work =>
    cases hpc : s.pc <;> simp only [ConnlessDispatch.step, hpc, reduceCtorEq] at hstep
    obtain ⟨x, hfind, -, hdispatch⟩ := h.handle hpc
    rw [hfind] at hstep
    cases hstep
    exact hdispatch _
  | close i =>
    cases hstep
    exact h.close hfair
  | stop =>
    cases hstep
    exact h.stop

end Steps

section Runs

theorem dispatch_init {listener : SockAgnostic} (hty : Connless listener.sockType) (bModule : Bool)
    (dup : Nat) : Dispatch (.init listener bModule dup) := by
  have hempty (next : Nat) : Table listener.sockType [] next :=
    ⟨by simp, nodup_nil, by simp, List.Pairwise.nil⟩
  have hcopy := adaptAndCopy_of_connless .zero hty (Int.natCast_nonneg dup)
  refine ⟨⟨hty, ?_, ?_, by simp [State.init]⟩, trivial, rfl⟩
  · unfold State.init
    split_ifs
    · exact hempty 1
    · exact (hempty 0).append (by rw [hcopy]) rfl (by simp)
  · simp only [State.init, State.known]
    split_ifs with hserver
    · simp
    · simp [hcopy, Session.addr, SockAgnostic.addr, hserver]

/-- In every state of a fair run each datagram that was let through has been handed to a live
session of its address, or is still carried, or was abandoned for want of a session; sessions are
created just where none is alive, and no two live ones have one address. -/
theorem connless_dispatch_of_fair {listener : SockAgnostic} (hty : Connless listener.sockType)
    {bModule : Bool} {dup : Nat} {as : List Action}
    (h : Run.Guarded step Fair (.init listener bModule dup) as s) :
    s.through = s.log.map Entry.peer ++ s.pc.carried ∧
      (∀ peer x queued, .handed peer x queued ∈ s.log → Serves x peer) ∧
      (∀ peer c, .abandoned peer c ∈ s.log → c.succeeds s = false) ∧
      (∀ x ∈ s.sessions, ∀ y ∈ s.sessions, x.isAlive → y.isAlive → x.addr = y.addr → x = y) ∧
      ∀ peer c, s.pc = .lookup peer → 0 ≤ c.dup → c.succeeds s → ∃ x, Serves x peer ∧
        (x ∈ s.sessions ∧ step s (.lookup c) = some { s with pc := .handle peer x.id } ∨
          (∀ y ∈ s.sessions, ¬Serves y peer) ∧ step s (.lookup c) = some { s with
              sessions := s.sessions ++ [x]
              next := s.next + 1
              pc := .handle peer x.id }) := by
  have hs : Dispatch s :=
    h.invariant Dispatch (dispatch_init hty bModule dup) fun _ _ _ hs hfair hstep => hs.step hfair hstep
  refine ⟨hs.account, ?_, ?_, ?_, ?_⟩
  · intro peer x queued he
    exact hs.logged _ he
  · intro peer c he
    exact hs.logged _ he
  · intro x hx y hy _ _ haddr
    exact hs.table.unique hs.connless hx hy haddr
  · intro peer c hpc hdup hc
    have hcarried := hs.carried
    rw [hpc] at hcarried
    have hstep : step s (.lookup c) = some (retrieveOrNewSession s peer c) := by
      rw [step, hpc]
    rw [hstep]
    have hlookup := hs.lookup hpc hdup
    generalize retrieveOrNewSession s peer c = t at hlookup
    cases hlookup with
    | found x hx hserves => exact ⟨x, hserves, .inl ⟨hx, rfl⟩⟩
    | created x hnone _ _ hserves =>
      refine ⟨x, hserves, .inr ⟨?_, rfl⟩⟩
      intro y hy hy'
      apply hnone y hy
      rw [fullMatched_iff (hs.table.connless hs.connless hy), hs.table.types y hy]
      exact ⟨hcarried.1.symm, hy'.2.2, fun _ => hy'.2.1⟩
    | abandoned hfail => rw [hfail] at hc; cases hc

def qrtrServer : SockAgnostic := ⟨.qipcrtr, 3, 9, 100, true⟩

def vsockServer : SockAgnostic := ⟨.vsock, 3, 9, 100, true⟩

def plainCreation (dup : Int) : Creation := ⟨true, true, dup, true, true, true⟩

def serve (node port : UInt32) (dup : Int) : List Action :=
  [.recvfrom (some ⟨.data, node, port⟩), .lookup (plainCreation dup), .handle true true true, .cleanup]

def sampleRun : List Action :=
  .cleanup :: serve 1 5 4 ++ serve 1 5 4 ++ [.recvfrom (some ⟨.delClient, 1, 5⟩), .cleanup] ++ serve 1 5 6

theorem connless_dispatch_sample :
    ∃ s, Run.execIf step Fair (.init qrtrServer false 0) sampleRun = some s ∧
      s.sessions.map Session.id = [2] ∧ s.log.length = 3 ∧
      ∀ peer x queued, .handed peer x queued ∈ s.log → Serves x peer := by
  obtain ⟨s, hs, hrun⟩ :=
    Run.exists_guarded step Fair (.init qrtrServer false 0) sampleRun (by decide)
  have hfinal : (Run.execIf step Fair (.init qrtrServer false 0) sampleRun).map
      (fun s => (s.sessions.map Session.id, s.log.length)) = some ([2], 3) := by decide
  rw [hs, Option.map_some, Option.some.injEq, Prod.mk.injEq] at hfinal
  exact ⟨s, hs, hfinal.1, hfinal.2, (connless_dispatch_of_fair (.inl rfl) hrun).2.1⟩

/-- A session that a worker closes while the loop waits is found for the next datagram; on VSOCK a
datagram goes to the session of another node. -/
theorem connless_misdispatches : (∃ s peer x, Run.exec step (.init qrtrServer false 0)
        (.cleanup :: serve 1 5 4 ++ [.close 1] ++ serve 1 5 4) = some s ∧
      s.log.getLast? = some (.handed peer x false) ∧ x.isAlive = false) ∧
    (∃ s peer x, Run.exec step (.init vsockServer false 0)
        (.cleanup :: serve 1 5 4 ++ serve 2 5 4) = some s ∧
      s.log.getLast? = some (.handed peer x true) ∧ x.sockAgnostic.node ≠ peer.node) ∧
    ∃ s peer x, Run.exec step (.init qrtrServer false 0)
        (.cleanup :: serve 1 5 (-1) ++ serve 1 5 (-1)) = some s ∧
      s.log.getLast? = some (.handed peer x true) ∧ x.addr ≠ (peer.node, peer.port) ∧
      (s.sessions.filter Session.isAlive).map Session.addr = [(0, 0), (0, 0)] :=
  ⟨⟨_, _, _, rfl, rfl, rfl⟩, ⟨_, _, _, rfl, rfl, by decide⟩, ⟨_, _, _, rfl, rfl, by decide, rfl⟩⟩

end Runs

end MinkIpc.ConnlessDispatch
