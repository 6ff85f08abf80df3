import Tund.Server.Handlers

/-!
# What the server's steps do to the table

`PacketStep` lists the ways in which the locked sections of one packet can move the
table: not at all, by refreshing the sender's entry, by a new entry, or by removing the
sender's.  `serverDispatchLocked_step` and `serverAccept_step` say that there are no
others; every invariant of the table is proved against this list.
-/

namespace Tund

/-! ### Entries that stay -/

/-- An active entry that stays: the same peer at the same endpoint, its window as it was or after
one more number was accepted. -/
structure Peer.Refreshes (p p' : Peer) : Prop where
  active : p'.active = p.active
  virtIp : p'.virtIp = p.virtIp
  name : p'.name = p.name
  realAddr : p'.realAddr = p.realAddr
  replay : p'.replay = p.replay ∨ ∃ s, protoReplayAccept p.replay s = (true, p'.replay)

theorem Peer.Refreshes.isAt {p p' : Peer} (h : p.Refreshes p') (addr : SockAddr) :
    p'.isAt addr = p.isAt addr := by
  rw [Peer.isAt, Peer.isAt, h.active, h.realAddr]

/-- The entry after its window was shown a number. -/
def Peer.shown (p : Peer) (seq : UInt64) : Peer :=
  { p with replay := (protoReplayAccept p.replay seq).2 }

/-- The entry of a peer heard from at time `t`. -/
def Peer.heard (p : Peer) (t : ℤ) : Peer := { p with lastSeen := t }

theorem Peer.refreshes_shown {p : Peer} {seq : UInt64}
    (h : (protoReplayAccept p.replay seq).1 = true) : p.Refreshes (p.shown seq) :=
  ⟨rfl, rfl, rfl, rfl, .inr ⟨seq, Prod.ext h rfl⟩⟩

theorem Peer.refreshes_heard {p p' : Peer} (h : p.Refreshes p') (t : ℤ) : p.Refreshes (p'.heard t) :=
  ⟨h.active, h.virtIp, h.name, h.realAddr, h.replay⟩

/-- The table moves of one packet from `src` with sequence number `seq`. -/
inductive PacketStep (env : Env) (src : SockAddr) (seq : UInt64) (srv : Server) : Server → Prop
  | same : PacketStep env src seq srv srv
  | refresh (i : Slot) (p : Peer) (hi : serverFindPeerByAddr srv src = some i)
      (hp : (srv.peers i).Refreshes p) : PacketStep env src seq srv (srv.setPeer i p)
  | join (i : Slot) (payload : Bytes) (hnew : serverFindPeerByAddr srv src = none)
      (hi : serverFindFreeSlot srv = some i) (hvip : serverAllocIp srv ≠ 0) :
      PacketStep env src seq srv
        (srv.join i (registeredPeer env i (serverAllocIp srv) payload src seq))
  | leave (i : Slot) (hi : serverFindPeerByAddr srv src = some i) :
      PacketStep env src seq srv (srv.leave i)

/-- Writing an entry back as it was changes nothing. -/
theorem Server.setPeer_eq_self (srv : Server) (i : Slot) : srv.setPeer i (srv.peers i) = srv := by
  simp [Server.setPeer]

/-! ### The locked sections, case by case -/

theorem serverRegisterLocked_cases (env : Env) (srv : Server) (payload : Bytes) (src : SockAddr)
    (seq : UInt64) :
    (∃ i, serverFindPeerByAddr srv src = some i ∧
      (protoReplayAccept (srv.peers i).replay seq).1 = false ∧
      serverRegisterLocked env srv payload src seq = (srv, [])) ∨
    (∃ i, serverFindPeerByAddr srv src = some i ∧
      (protoReplayAccept (srv.peers i).replay seq).1 = true ∧
      serverRegisterLocked env srv payload src seq =
        (srv.setPeer i (((srv.peers i).shown seq).heard env.time), assignActs (srv.peers i))) ∨
    (serverFindPeerByAddr srv src = none ∧
      (serverFindFreeSlot srv = none ∨ serverAllocIp srv = 0) ∧
      serverRegisterLocked env srv payload src seq = (srv, [])) ∨
    (∃ i, serverFindPeerByAddr srv src = none ∧ serverFindFreeSlot srv = some i ∧
      serverAllocIp srv ≠ 0 ∧
      serverRegisterLocked env srv payload src seq =
        let p := registeredPeer env i (serverAllocIp srv) payload src seq
        (srv.join i p, joinActs p (serverSnapshotBroadcastLocked (srv.join i p) (some i)))) := by
  cases hfind : serverFindPeerByAddr srv src with
  | some i =>
    rcases hacc : protoReplayAccept (srv.peers i).replay seq with ⟨_ | _, w⟩
    · have hw : w = (srv.peers i).replay := by
        have h := protoReplayAccept_of_false (w := (srv.peers i).replay) (s := seq) (by rw [hacc])
        rw [hacc] at h
        exact (Prod.mk.inj h).2
      refine .inl ⟨i, rfl, by rw [hacc], ?_⟩
      simp only [serverRegisterLocked, hfind, hacc]
      rw [hw, srv.setPeer_eq_self]
    · refine .inr (.inl ⟨i, rfl, by rw [hacc], ?_⟩)
      simp only [serverRegisterLocked, hfind, hacc, Peer.shown, Peer.heard]
  | none =>
    cases hfree : serverFindFreeSlot srv with
    | none =>
      refine .inr (.inr (.inl ⟨rfl, .inl rfl, ?_⟩))
      simp only [serverRegisterLocked, hfind, hfree]
    | some i =>
      by_cases hvip : serverAllocIp srv = 0
      · refine .inr (.inr (.inl ⟨rfl, .inr hvip, ?_⟩))
        simp only [serverRegisterLocked, hfind, hfree, if_pos hvip]
      · refine .inr (.inr (.inr ⟨i, rfl, rfl, hvip, ?_⟩))
        simp only [serverRegisterLocked, hfind, hfree, if_neg hvip]

/-- The checks of `server_handle_data` that let a packet of the peer in slot `i` pass. -/
structure DataAccepted (srv : Server) (payload : Bytes) (src : SockAddr) (i : Slot) : Prop where
  valid : protoValidateIpv4Packet payload = none
  sender : serverFindPeerByAddr srv src = some i
  srcIp : protoGetSrcIp payload = (srv.peers i).virtIp

/-- The table after `server_handle_data` counted a packet in. -/
def Server.countIn (srv : Server) (i : Slot) (n : ℕ) : Server :=
  srv.setPeer i { srv.peers i with bytesIn := (srv.peers i).bytesIn + UInt64.ofNat n }

/-- Where an accepted packet goes. -/
def dataActs (srv : Server) (payload : Bytes) (i : Slot) : List Act :=
  if protoGetDstIp payload = htonl tundServerIp then [.tunWrite payload]
  else if protoGetDstIp payload = htonl tundBroadcast then
    relayActs payload (serverSnapshotBroadcastLocked srv (some i)) ++ [.tunWrite payload]
  else
    match serverSnapshotPeerByVipLocked srv (protoGetDstIp payload) with
    | none => []
    | some dstPeer => relayActs payload [dstPeer]

theorem serverDataLocked_cases (srv : Server) (payload : Bytes) (src : SockAddr) :
    ((¬ ∃ i, DataAccepted srv payload src i) ∧ serverDataLocked srv payload src = (srv, [])) ∨
    ∃ i, DataAccepted srv payload src i ∧
      serverDataLocked srv payload src =
        (srv.countIn i payload.length, dataActs (srv.countIn i payload.length) payload i) := by
  cases hval : protoValidateIpv4Packet payload with
  | some e =>
    refine .inl ⟨fun ⟨i, h⟩ => ?_, by simp only [serverDataLocked, hval]⟩
    rw [h.valid] at hval
    cases hval
  | none =>
    cases hfind : serverFindPeerByAddr srv src with
    | none =>
      refine .inl ⟨fun ⟨i, h⟩ => ?_, by simp only [serverDataLocked, hval, hfind]⟩
      rw [h.sender] at hfind
      cases hfind
    | some i =>
      by_cases hsrc : protoGetSrcIp payload = (srv.peers i).virtIp
      · refine .inr ⟨i, ⟨hval, hfind, hsrc⟩, ?_⟩
        simp only [serverDataLocked, hval, hfind, hsrc, ne_eq, not_true_eq_false, if_false,
          dataActs]
        by_cases hhub : protoGetDstIp payload = htonl tundServerIp
        · simp only [if_pos hhub]; rfl
        by_cases hall : protoGetDstIp payload = htonl tundBroadcast
        · simp only [if_neg hhub, if_pos hall]; rfl
        simp only [if_neg hhub, if_neg hall]
        cases hdst : serverSnapshotPeerByVipLocked (srv.countIn i payload.length)
          (protoGetDstIp payload) with
        | none => rw [Server.countIn] at hdst; simp only [hdst]; rfl
        | some d => rw [Server.countIn] at hdst; simp only [hdst]; rfl
      · refine .inl ⟨fun ⟨j, h⟩ => ?_, ?_⟩
        · have hij : i = j := by
            have := h.sender
            rw [hfind] at this
            exact Option.some.inj this
          exact hsrc (hij ▸ h.srcIp)
        · simp only [serverDataLocked, hval, hfind, ne_eq, hsrc, not_false_eq_true, if_true]

theorem serverDisconnectLocked_cases (srv : Server) (src : SockAddr) :
    (serverFindPeerByAddr srv src = none ∧ serverDisconnectLocked srv src = (srv, [])) ∨
    ∃ i, serverFindPeerByAddr srv src = some i ∧
      serverDisconnectLocked srv src =
        (srv.leave i, leaveActs (srv.peers i).virtIp
          (serverSnapshotBroadcastLocked (srv.leave i) none) ++
          [.event (.peerLeave (srv.peers i).virtIp .disconnect)]) := by
  cases hfind : serverFindPeerByAddr srv src with
  | none => exact .inl ⟨rfl, by simp only [serverDisconnectLocked, hfind]⟩
  | some i => exact .inr ⟨i, rfl, by simp only [serverDisconnectLocked, hfind]⟩

theorem serverKeepaliveLocked_cases (env : Env) (srv : Server) (payload : Bytes)
    (src : SockAddr) :
    serverKeepaliveLocked env srv payload src = (srv, []) ∨
    ∃ i sentAt, serverFindPeerByAddr srv src = some i ∧
      serverKeepaliveLocked env srv payload src =
        (srv.setPeer i ((srv.peers i).heard env.time),
          [.build (.keepaliveAck sentAt), .send src]) := by
  cases hread : protoReadKeepaliveTimestamp payload with
  | none => exact .inl (by simp only [serverKeepaliveLocked, hread])
  | some sentAt =>
    cases hfind : serverFindPeerByAddr srv src with
    | none => exact .inl (by simp only [serverKeepaliveLocked, hread, hfind])
    | some i => exact .inr ⟨i, sentAt, rfl, by
      simp only [serverKeepaliveLocked, hread, hfind, Peer.heard]⟩

theorem serverKeepaliveAckLocked_cases (env : Env) (srv : Server) (payload : Bytes)
    (src : SockAddr) :
    serverKeepaliveAckLocked env srv payload src = (srv, []) ∨
    ∃ i rtt, serverFindPeerByAddr srv src = some i ∧
      serverKeepaliveAckLocked env srv payload src =
        (srv.setPeer i { srv.peers i with lastSeen := env.time, rttMs := rtt, hasRtt := true },
          []) := by
  cases hread : protoReadKeepaliveTimestamp payload with
  | none => exact .inl (by simp only [serverKeepaliveAckLocked, hread])
  | some sentAt =>
    by_cases hlt : env.nowMs < sentAt
    · exact .inl (by simp only [serverKeepaliveAckLocked, hread, if_pos hlt])
    cases hfind : serverFindPeerByAddr srv src with
    | none => exact .inl (by simp only [serverKeepaliveAckLocked, hread, if_neg hlt, hfind])
    | some i =>
      exact .inr ⟨i, smoothRttMs (srv.peers i).rttMs (env.nowMs - sentAt) (srv.peers i).hasRtt, rfl,
        by simp only [serverKeepaliveAckLocked, hread, if_neg hlt, hfind]⟩

/-! ### The table moves of one packet -/

theorem serverDispatchLocked_step (env : Env) (srv : Server) (f : Frame) (src : SockAddr) :
    PacketStep env src f.sequence srv (serverDispatchLocked env srv f src).1 := by
  unfold serverDispatchLocked
  split
  · rcases serverRegisterLocked_cases env srv f.payload src f.sequence with
      ⟨i, -, -, h⟩ | ⟨i, hi, hacc, h⟩ | ⟨-, -, h⟩ | ⟨i, hnew, hi, hvip, h⟩ <;> rw [h]
    · exact .same
    · exact .refresh i _ hi (Peer.refreshes_heard (Peer.refreshes_shown hacc) env.time)
    · exact .same
    · exact .join i _ hnew hi hvip
  · rcases serverDataLocked_cases srv f.payload src with ⟨-, h⟩ | ⟨i, hi, h⟩ <;> rw [h]
    · exact .same
    · exact .refresh i _ hi.sender ⟨rfl, rfl, rfl, rfl, .inl rfl⟩
  · rcases serverKeepaliveLocked_cases env srv f.payload src with h | ⟨i, _, hi, h⟩ <;> rw [h]
    · exact .same
    · exact .refresh i _ hi ⟨rfl, rfl, rfl, rfl, .inl rfl⟩
  · rcases serverKeepaliveAckLocked_cases env srv f.payload src with h | ⟨i, _, hi, h⟩ <;> rw [h]
    · exact .same
    · exact .refresh i _ hi ⟨rfl, rfl, rfl, rfl, .inl rfl⟩
  · rcases serverDisconnectLocked_cases srv src with ⟨-, h⟩ | ⟨i, hi, h⟩ <;> rw [h]
    · exact .same
    · exact .leave i hi
  · exact .same

theorem serverAccept_cases (srv : Server) (src : SockAddr) (seq : UInt64) :
    (serverFindPeerByAddr srv src = none ∧
      serverAcceptRegisteredSequence srv src seq = (true, srv)) ∨
    (∃ i, serverFindPeerByAddr srv src = some i ∧
      (protoReplayAccept (srv.peers i).replay seq).1 = false ∧
      serverAcceptRegisteredSequence srv src seq = (false, srv)) ∨
    ∃ i, serverFindPeerByAddr srv src = some i ∧
      (protoReplayAccept (srv.peers i).replay seq).1 = true ∧
      serverAcceptRegisteredSequence srv src seq =
        (true, srv.setPeer i ((srv.peers i).shown seq)) := by
  cases hfind : serverFindPeerByAddr srv src with
  | none => exact .inl ⟨rfl, by simp only [serverAcceptRegisteredSequence, hfind]⟩
  | some i =>
    rcases hacc : (protoReplayAccept (srv.peers i).replay seq).1 with _ | _
    · refine .inr (.inl ⟨i, rfl, hacc, ?_⟩)
      have h := protoReplayAccept_of_false hacc
      simp only [serverAcceptRegisteredSequence, hfind, h]
      rw [srv.setPeer_eq_self]
    · refine .inr (.inr ⟨i, rfl, hacc, ?_⟩)
      simp only [serverAcceptRegisteredSequence, hfind, hacc, Peer.shown]

theorem serverAccept_step (env : Env) (srv : Server) (src : SockAddr) (seq : UInt64) :
    PacketStep env src seq srv (serverAcceptRegisteredSequence srv src seq).2 := by
  rcases serverAccept_cases srv src seq with ⟨-, h⟩ | ⟨i, -, -, h⟩ | ⟨i, hi, hacc, h⟩ <;> rw [h]
  · exact .same
  · exact .same
  · exact .refresh i _ hi (Peer.refreshes_shown hacc)

end Tund
