import Tund.Lib.Trace
import Tund.Server.Acts
import Tund.Server.Effects

/-!
# The invariant of the peer table

`Server.WellFormed` is what holds of the table between any two locked sections: the
count is right, virtual IPs and endpoints are not shared, names end, and every window
stands for the numbers accepted since its entry was made.  Each move of `PacketStep`,
each removal of the sweep and each `bytes_out` keeps it, so it holds in every state a
run of the server reaches.
-/

namespace Tund

/-- What holds of the peer table between any two locked sections. -/
structure Server.WellFormed (srv : Server) : Prop where
  count : srv.peerCount = SlotTable.count fun i => (srv.peers i).active
  pool : ∀ i, (srv.peers i).active = true → InPool (srv.peers i).virtIp
  virtIp_inj : ∀ i j, (srv.peers i).active = true → (srv.peers j).active = true →
    (srv.peers i).virtIp = (srv.peers j).virtIp → i = j
  endpoint_inj : ∀ i j, (srv.peers i).active = true → (srv.peers j).active = true →
    (srv.peers i).realAddr.sinAddr = (srv.peers j).realAddr.sinAddr →
    (srv.peers i).realAddr.sinPort = (srv.peers j).realAddr.sinPort → i = j
  name_nul : ∀ i, (srv.peers i).active = true → 0 ∈ (srv.peers i).name.1
  window : ∀ i, (srv.peers i).active = true →
    (srv.peers i).replay.Started ∧ ∃ log, (srv.peers i).replay.Tracks log

theorem wellFormed_init : serverInit.WellFormed where
  count := by
    rw [SlotTable.count_eq_zero (p := fun i => (serverInit.peers i).active) fun _ => rfl]
    rfl
  pool i h := by cases h
  virtIp_inj i j h := by cases h
  endpoint_inj i j h := by cases h
  name_nul i h := by cases h
  window i h := by cases h

/-! ### Entries that stay -/

theorem Peer.Refreshes.refl (p : Peer) : p.Refreshes p := ⟨rfl, rfl, rfl, rfl, .inl rfl⟩

theorem Peer.Refreshes.started {p p' : Peer} (h : p.Refreshes p') (hs : p.replay.Started) :
    p'.replay.Started := by
  rcases h.replay with heq | ⟨s, hacc⟩
  · rw [heq]; exact hs
  · have := hs.accept s
    rwa [hacc] at this

theorem Peer.Refreshes.tracks {p p' : Peer} (h : p.Refreshes p') {log : List UInt64}
    (ht : p.replay.Tracks log) : ∃ log', p'.replay.Tracks log' ∧ ∀ s ∈ log, s ∈ log' := by
  rcases h.replay with heq | ⟨s, hacc⟩
  · exact ⟨log, heq ▸ ht, fun _ hs => hs⟩
  · have hof := ht.of_accept (s := s) (by rw [hacc])
    rw [hacc] at hof
    exact ⟨log ++ [s], hof, fun _ hx => List.mem_append_left _ hx⟩

section Moves

variable {srv srv' : Server}

theorem Server.WellFormed.of_refreshes (h : srv.WellFormed) (hc : srv'.peerCount = srv.peerCount)
    (hr : ∀ i, (srv.peers i).Refreshes (srv'.peers i)) : srv'.WellFormed where
  count := by
    rw [hc, h.count]
    exact congrArg _ (SlotTable.count_congr fun i => (hr i).active.symm)
  pool i hi := by rw [(hr i).virtIp]; exact h.pool i ((hr i).active ▸ hi)
  virtIp_inj i j hi hj := by
    rw [(hr i).virtIp, (hr j).virtIp]
    exact h.virtIp_inj i j ((hr i).active ▸ hi) ((hr j).active ▸ hj)
  endpoint_inj i j hi hj := by
    rw [(hr i).realAddr, (hr j).realAddr]
    exact h.endpoint_inj i j ((hr i).active ▸ hi) ((hr j).active ▸ hj)
  name_nul i hi := by rw [(hr i).name]; exact h.name_nul i ((hr i).active ▸ hi)
  window i hi := by
    obtain ⟨hs, log, ht⟩ := h.window i ((hr i).active ▸ hi)
    obtain ⟨log', ht', -⟩ := (hr i).tracks ht
    exact ⟨(hr i).started hs, log', ht'⟩

theorem setPeer_refreshes {i : Slot} {p : Peer} (hp : (srv.peers i).Refreshes p) (j : Slot) :
    (srv.peers j).Refreshes ((srv.setPeer i p).peers j) := by
  rw [srv.setPeer_peers]
  split_ifs with hj
  · rw [hj]; exact hp
  · exact .refl _

theorem Server.SameButBytesOut.refreshes (h : srv.SameButBytesOut srv') (i : Slot) :
    (srv.peers i).Refreshes (srv'.peers i) :=
  ⟨h.active i, h.virtIp i, h.name i, h.realAddr i, .inl (h.replay i)⟩

theorem Server.WellFormed.sameButBytesOut (h : srv.WellFormed) (hs : srv.SameButBytesOut srv') :
    srv'.WellFormed := h.of_refreshes hs.1 hs.refreshes

/-! ### Removing an entry -/

theorem leave_active (srv : Server) (i j : Slot) :
    ((srv.leave i).peers j).active = ((srv.peers j).active && decide (j ≠ i)) := by
  simp only [Server.leave, srv.setPeer_peers]
  split_ifs with hj <;> simp [hj]

theorem leave_peers_of_ne (srv : Server) {i j : Slot} (h : j ≠ i) :
    (srv.leave i).peers j = srv.peers j := by
  simp only [Server.leave, srv.setPeer_peers, if_neg h]

/-- What is active after a removal was active before, and is unchanged. -/
theorem of_leave_active {i j : Slot} (h : ((srv.leave i).peers j).active = true) :
    (srv.peers j).active = true ∧ j ≠ i ∧ (srv.leave i).peers j = srv.peers j := by
  rw [leave_active, Bool.and_eq_true, decide_eq_true_iff] at h
  exact ⟨h.1, h.2, leave_peers_of_ne srv h.2⟩

theorem Server.WellFormed.leave (h : srv.WellFormed) {i : Slot} (hi : (srv.peers i).active = true) :
    (srv.leave i).WellFormed where
  count := by
    have hrel := SlotTable.count_release (p := fun j => (srv.peers j).active)
      (q := fun j => ((srv.leave i).peers j).active) (i := i) hi (by simp [leave_active])
      (fun j hj => by simp [leave_active, hj])
    have hcount := h.count
    simp only [Server.leave] at hrel ⊢
    omega
  pool j hj := by
    obtain ⟨ha, -, heq⟩ := of_leave_active hj
    rw [heq]; exact h.pool j ha
  virtIp_inj j k hj hk := by
    obtain ⟨ha, -, heq⟩ := of_leave_active hj
    obtain ⟨hb, -, heq'⟩ := of_leave_active hk
    rw [heq, heq']; exact h.virtIp_inj j k ha hb
  endpoint_inj j k hj hk := by
    obtain ⟨ha, -, heq⟩ := of_leave_active hj
    obtain ⟨hb, -, heq'⟩ := of_leave_active hk
    rw [heq, heq']; exact h.endpoint_inj j k ha hb
  name_nul j hj := by
    obtain ⟨ha, -, heq⟩ := of_leave_active hj
    rw [heq]; exact h.name_nul j ha
  window j hj := by
    obtain ⟨ha, -, heq⟩ := of_leave_active hj
    rw [heq]; exact h.window j ha

/-! ### A new entry -/

theorem join_peers (srv : Server) (i j : Slot) (p : Peer) :
    (srv.join i p).peers j = if j = i then p else srv.peers j := srv.setPeer_peers i j p

/-- A REGISTER that makes slot `i` active makes a new entry in it. -/
theorem serverRegisterLocked_made {env : Env} {srv : Server} {payload : Bytes} {src : SockAddr}
    {seq : UInt64} {i : Slot} (hoff : (srv.peers i).active = false)
    (hon : ((serverRegisterLocked env srv payload src seq).1.peers i).active = true) :
    let p := registeredPeer env i (serverAllocIp srv) payload src seq
    serverRegisterLocked env srv payload src seq =
      (srv.join i p, joinActs p (serverSnapshotBroadcastLocked (srv.join i p) (some i))) := by
  rcases serverRegisterLocked_cases env srv payload src seq with
    ⟨j, -, -, hl⟩ | ⟨j, -, hacc, hl⟩ | ⟨-, -, hl⟩ | ⟨j, -, -, -, hl⟩ <;> rw [hl] at hon ⊢
  · rw [hoff] at hon
    cases hon
  · -- a known endpoint gets no new entry
    have hr := setPeer_refreshes (Peer.refreshes_heard (Peer.refreshes_shown hacc) env.time) i
    rw [hr.active, hoff] at hon
    cases hon
  · rw [hoff] at hon
    cases hon
  · by_cases hij : i = j
    · rw [hij]
    · simp only [join_peers, if_neg hij, hoff] at hon
      cases hon

theorem zero_mem_registeredName (payload : Bytes) (idx : ℕ) :
    0 ∈ (registeredName payload idx).1 := by
  rw [registeredName]
  split_ifs <;> exact zero_mem_ofBytes _

theorem tracks_registered {s : UInt64} (hs : s ≠ 0) :
    (protoReplayAccept protoReplayReset s).2.Tracks [s] :=
  tracks_reset.of_accept (by simp [protoReplayAccept, protoReplayReset, hs])

theorem Server.WellFormed.join (h : srv.WellFormed) {env : Env} {i : Slot} {payload : Bytes}
    {src : SockAddr} {seq : UInt64} (hseq : seq ≠ 0)
    (hnew : serverFindPeerByAddr srv src = none) (hi : serverFindFreeSlot srv = some i)
    (hvip : serverAllocIp srv ≠ 0) :
    (srv.join i (registeredPeer env i (serverAllocIp srv) payload src seq)).WellFormed := by
  obtain ⟨hpool, hfree⟩ : InPool (serverAllocIp srv) ∧
      ∀ j, (srv.peers j).holds (serverAllocIp srv) = false := by
    rcases serverAllocIp_cases srv with ⟨h0, -⟩ | h'
    · exact absurd h0 hvip
    · exact h'
  have hinact := not_active_of_free hi
  -- an old entry shares neither virtual IP nor endpoint with the new one
  have hother : ∀ j, (srv.peers j).active = true →
      (srv.peers j).virtIp ≠ serverAllocIp srv ∧
      ¬ ((srv.peers j).realAddr.sinAddr = src.sinAddr ∧
        (srv.peers j).realAddr.sinPort = src.sinPort) := by
    intro j hj
    constructor
    · intro heq
      have := hfree j
      rw [Peer.holds_iff.2 ⟨hj, heq⟩] at this
      cases this
    · rintro ⟨ha, hp⟩
      have := find_eq_none_iff.1 hnew j
      rw [Peer.isAt_iff.2 ⟨hj, ha, hp⟩] at this
      cases this
  set p := registeredPeer env i (serverAllocIp srv) payload src seq with hp
  refine ⟨?_, ?_, ?_, ?_, ?_, ?_⟩
  · have hocc := SlotTable.count_occupy (p := fun j => (srv.peers j).active)
      (q := fun j => ((srv.join i p).peers j).active) (i := i) hinact
      (by simp [join_peers, hp, registeredPeer])
      (fun j hj => by simp [join_peers, hj])
    have hcount := h.count
    simp only [Server.join] at hocc ⊢
    omega
  · intro j hj
    rw [join_peers] at hj ⊢
    split_ifs at hj ⊢ with hji
    · exact hpool
    · exact h.pool j hj
  · intro j k hj hk heq
    rw [join_peers] at hj hk
    rw [join_peers, join_peers] at heq
    split_ifs at hj hk heq with hji hki hki
    · rw [hji, hki]
    · exact absurd heq.symm (hother k hk).1
    · exact absurd heq (hother j hj).1
    · exact h.virtIp_inj j k hj hk heq
  · intro j k hj hk ha hport
    rw [join_peers] at hj hk
    rw [join_peers, join_peers] at ha hport
    split_ifs at hj hk ha hport with hji hki hki
    · rw [hji, hki]
    · exact absurd ⟨ha.symm, hport.symm⟩ (hother k hk).2
    · exact absurd ⟨ha, hport⟩ (hother j hj).2
    · exact h.endpoint_inj j k hj hk ha hport
  · intro j hj
    rw [join_peers] at hj ⊢
    split_ifs at hj ⊢ with hji
    · exact zero_mem_registeredName payload i
    · exact h.name_nul j hj
  · intro j hj
    rw [join_peers] at hj ⊢
    split_ifs at hj ⊢ with hji
    · exact ⟨started_accept_reset hseq, _, tracks_registered hseq⟩
    · exact h.window j hj

/-- **One packet.**  Every table move of a packet keeps the invariant. -/
theorem Server.WellFormed.packetStep (h : srv.WellFormed) {env : Env} {src : SockAddr}
    {seq : UInt64} (hseq : seq ≠ 0) (hstep : PacketStep env src seq srv srv') :
    srv'.WellFormed := by
  cases hstep with
  | same => exact h
  | refresh i p hi hp => exact h.of_refreshes rfl (setPeer_refreshes hp)
  | join i payload hnew hi hvip => exact h.join hseq hnew hi hvip
  | leave i hi => exact h.leave (active_of_find hi)

end Moves

/-! ### The sweep -/

/-- The loop of the sweep removes entries one by one. -/
theorem sweep_induction {P : Server → Prop} {now : ℤ}
    (hleave : ∀ srv i, (srv.peers i).timedOut now = true → P srv → P (srv.leave i))
    (slots : List Slot) {acc : Server × List ServerPeerSnapshot × List ServerPeerSnapshot}
    (h : P acc.1) : P (slots.foldl (sweepSlot now) acc).1 := by
  induction slots generalizing acc with
  | nil => exact h
  | cons i slots ih =>
    apply ih
    obtain ⟨srv, timedOut, keepalive⟩ := acc
    simp only [sweepSlot]
    split_ifs with ht hact
    · exact hleave srv i ht h
    · exact h
    · exact h

theorem active_of_timedOut {p : Peer} {now : ℤ} (h : p.timedOut now = true) : p.active = true := by
  rw [Peer.timedOut, Bool.and_eq_true] at h
  exact h.1

theorem serverSweepLocked_fst (env : Env) (srv : Server) (keepalive : Outbox) :
    (serverSweepLocked env srv keepalive).1 =
      ((List.finRange tundMaxPeers).foldl (sweepSlot env.time) (srv, [], [])).1 := by
  rw [serverSweepLocked]

theorem Server.WellFormed.sweep {srv : Server} (h : srv.WellFormed) (env : Env) (box : Outbox) :
    (serverSweepLocked env srv box).1.WellFormed := by
  rw [serverSweepLocked_fst]
  exact sweep_induction (fun srv i ht h => h.leave (active_of_timedOut ht)) _ h

/-! ### Runs of the server -/

/-- The server and its process. -/
structure ServerState where
  srv : Server
  io : Proc

/-- What can happen to the server: a decrypted packet, a pass of the timeout thread, a packet read
from the TUN device, the farewell at the end.  Each brings its own clock, random bytes and send
results. -/
inductive ServerEvent
  | packet (env : Env) (buf : Bytes) (src : SockAddr)
  | sweep (env : Env)
  | tun (env : Env) (pkt : Bytes)
  | shutdown (env : Env)

/-- The state after an event. -/
def serverStep (s : ServerState) : ServerEvent → ServerState
  | .packet env buf src =>
    let r := serverHandlePacket env s.srv s.io buf src
    ⟨r.1, r.2⟩
  | .sweep env =>
    let r := serverSweep env s.srv s.io
    ⟨r.1, r.2⟩
  | .tun env pkt =>
    let r := serverTunPacket env s.srv s.io pkt
    ⟨r.1, r.2⟩
  | .shutdown env =>
    let r := serverShutdown env s.srv s.io
    ⟨r.1, r.2⟩

/-- Buffers are as long as a header, and TUN packets fit their buffer. -/
def serverOk (_ : ServerState) : ServerEvent → Prop
  | .packet _ buf _ => tundHdrSize ≤ buf.length
  | .sweep _ => True
  | .tun _ pkt => pkt.length ≤ tundMaxPlaintext
  | .shutdown _ => True

/-- The states of the runs from the zeroed table of `server_init`. -/
def ServerReachable : ServerState → Prop :=
  Trace.Reachable serverStep serverOk fun s => s.srv = serverInit

/-- A whole run of the server. -/
abbrev ServerRun := Trace.Run serverStep serverOk fun s => s.srv = serverInit

/-- The ways through `server_handle_packet`: the packet is dropped and nothing happens, or the
number is accepted and the handler runs. -/
theorem serverHandlePacket_cases (env : Env) (srv : Server) (io : Proc) (buf : Bytes)
    (src : SockAddr) :
    ((∀ f, readFrame buf = some f → f.type ≠ MsgType.register.code ∧
        (serverAcceptRegisteredSequence srv src f.sequence).1 = false) ∧
      serverHandlePacket env srv io buf src = (srv, io)) ∨
    ∃ f srv₁, readFrame buf = some f ∧
      (f.type = MsgType.register.code ∧ srv₁ = srv ∨
        f.type ≠ MsgType.register.code ∧
          serverAcceptRegisteredSequence srv src f.sequence = (true, srv₁)) ∧
      serverHandlePacket env srv io buf src =
        finish env io (serverDispatchLocked env srv₁ f src) := by
  cases hread : readFrame buf with
  | none => exact .inl ⟨by simp, by simp only [serverHandlePacket, hread]⟩
  | some f =>
    by_cases hreg : f.type = MsgType.register.code
    · exact .inr ⟨f, srv, rfl, .inl ⟨hreg, rfl⟩, by simp [serverHandlePacket, hread, hreg]⟩
    · rcases serverAccept_cases srv src f.sequence with ⟨-, h⟩ | ⟨i, -, -, h⟩ | ⟨i, -, -, h⟩
      · exact .inr ⟨f, srv, rfl, .inr ⟨hreg, h⟩, by simp [serverHandlePacket, hread, hreg, h]⟩
      · exact .inl ⟨by simp [hreg, h], by simp [serverHandlePacket, hread, hreg, h]⟩
      · exact .inr ⟨f, _, rfl, .inr ⟨hreg, h⟩, by simp [serverHandlePacket, hread, hreg, h]⟩

theorem Server.WellFormed.packet {srv : Server} (h : srv.WellFormed) (env : Env) (io : Proc)
    (buf : Bytes) (src : SockAddr) : (serverHandlePacket env srv io buf src).1.WellFormed := by
  rcases serverHandlePacket_cases env srv io buf src with ⟨-, heq⟩ | ⟨f, srv₁, hread, hacc, heq⟩ <;>
    rw [heq]
  · exact h
  · have hseq := readFrame_sequence hread
    have h₁ : srv₁.WellFormed := by
      rcases hacc with ⟨-, rfl⟩ | ⟨-, hacc⟩
      · exact h
      · have hstep := serverAccept_step env srv src f.sequence
        rw [hacc] at hstep
        exact h.packetStep hseq hstep
    exact (h₁.packetStep hseq (serverDispatchLocked_step env srv₁ f src)).sameButBytesOut
      (finish_same env io _)

theorem serverSweep_eq (env : Env) (srv : Server) (io : Proc) :
    serverSweep env srv io = finish env (Outbox.build env io (.keepalive env.nowMs)).2
      (serverSweepLocked env srv (Outbox.build env io (.keepalive env.nowMs)).1) := by
  rw [serverSweep]

theorem serverTunPacket_same (env : Env) (srv : Server) (io : Proc) (pkt : Bytes) :
    srv.SameButBytesOut (serverTunPacket env srv io pkt).1 := by
  unfold serverTunPacket
  split
  · exact .refl srv
  · exact finish_same env io _

theorem Server.WellFormed.serverStep {s : ServerState} (h : s.srv.WellFormed) (e : ServerEvent) :
    (serverStep s e).srv.WellFormed := by
  cases e with
  | packet env buf src => exact h.packet env s.io buf src
  | sweep env =>
    simp only [Tund.serverStep, serverSweep_eq]
    exact (h.sweep env _).sameButBytesOut (finish_same env _ _)
  | tun env pkt => exact h.sameButBytesOut (serverTunPacket_same env s.srv s.io pkt)
  | shutdown env => exact h.sameButBytesOut (finish_same env s.io _)

/-- Every state that a run reaches is well formed. -/
theorem ServerReachable.wellFormed {s : ServerState} (h : ServerReachable s) :
    s.srv.WellFormed :=
  h.invariant (fun _ hs => hs ▸ wellFormed_init) fun _ e _ hs => hs.serverStep e

/-- The hub, the network and the broadcast address are not in the pool. -/
theorem InPool.ne_reserved {virtIp : UInt32} (h : InPool virtIp) :
    virtIp ≠ htonl tundServerIp ∧ virtIp ≠ htonl tundSubnet ∧ virtIp ≠ htonl tundBroadcast := by
  obtain ⟨ipH, hlo, hhi, rfl⟩ := h
  rw [UInt32.le_iff_toNat_le] at hlo hhi
  refine ⟨?_, ?_, ?_⟩ <;> intro heq <;> rw [htonl_injective heq] at hlo hhi
  · exact absurd hlo (by decide)
  · exact absurd hlo (by decide)
  · exact absurd hhi (by decide)

/-- **The peer table.**  In every state that a run of packets, sweeps and TUN traffic reaches from
the zeroed table, the count is the number of active entries, active entries share neither virtual
IP nor endpoint, their virtual IPs lie in `10.9.0.2` to `10.9.0.254`, their names end, and their
windows have started. -/
theorem peer_table_invariant (s : ServerState) (h : ServerReachable s) :
    s.srv.peerCount = SlotTable.count (fun i => (s.srv.peers i).active) ∧
    0 ≤ s.srv.peerCount ∧ s.srv.peerCount ≤ tundMaxPeers ∧
    (∀ i j, i ≠ j → (s.srv.peers i).active = true → (s.srv.peers j).active = true →
      (s.srv.peers i).virtIp ≠ (s.srv.peers j).virtIp ∧
      ((s.srv.peers i).realAddr.sinAddr, (s.srv.peers i).realAddr.sinPort) ≠
        ((s.srv.peers j).realAddr.sinAddr, (s.srv.peers j).realAddr.sinPort)) ∧
    ∀ i, (s.srv.peers i).active = true →
      (∃ ipH, tundIpStart ≤ ipH ∧ ipH ≤ tundIpEnd ∧ (s.srv.peers i).virtIp = htonl ipH) ∧
      (s.srv.peers i).virtIp ≠ htonl tundServerIp ∧ (s.srv.peers i).virtIp ≠ htonl tundSubnet ∧
      (s.srv.peers i).virtIp ≠ htonl tundBroadcast ∧
      0 ∈ (s.srv.peers i).name.1 ∧
      (s.srv.peers i).replay.highest ≠ 0 ∧ (s.srv.peers i).replay.bit 0 = true := by
  have hwf := h.wellFormed
  have hle := SlotTable.count_le fun i => (s.srv.peers i).active
  have hcount := hwf.count
  refine ⟨hcount, by omega, by omega, ?_, ?_⟩
  · intro i j hij hi hj
    refine ⟨fun heq => hij (hwf.virtIp_inj i j hi hj heq), fun heq => ?_⟩
    obtain ⟨ha, hp⟩ := Prod.mk.inj heq
    exact hij (hwf.endpoint_inj i j hi hj ha hp)
  · intro i hi
    obtain ⟨h1, h2, h3⟩ := (hwf.pool i hi).ne_reserved
    obtain ⟨⟨hhigh, hbit⟩, -⟩ := hwf.window i hi
    exact ⟨hwf.pool i hi, h1, h2, h3, hwf.name_nul i hi, hhigh, hbit⟩

/-- Three peers register, and the second one leaves. -/
def gapEvents : List ServerEvent :=
  let packet (type : MsgType) (seq : UInt64) (port : UInt16) : ServerEvent :=
    .packet (Env.plain 100 5)
      (frameBytes type.code seq (List.replicate tundNonceSize 0) [97]) ⟨2, 1, port⟩
  [packet .register 7 1, packet .register 7 2, packet .register 7 3, packet .disconnect 8 2]

/-- A table with a gap in slot 1. -/
def gapState : ServerState := gapEvents.foldl serverStep ⟨serverInit, Proc.start⟩

theorem gapState_reachable : ServerReachable gapState := by
  have hstart : ServerReachable ⟨serverInit, Proc.start⟩ := .start rfl
  refine Trace.Reachable.foldl hstart gapEvents ⟨?_, ?_, ?_, ?_, trivial⟩ <;>
    exact Nat.le_of_ble_eq_true rfl

/-- The table with the gap counts two peers, with different addresses. -/
theorem peer_table_invariant_gap :
    (gapState.srv.peers 0).active = true ∧ (gapState.srv.peers 1).active = false ∧
      (gapState.srv.peers 2).active = true ∧
      SlotTable.count (fun i => (gapState.srv.peers i).active) = 2 ∧
      (gapState.srv.peers 0).virtIp ≠ (gapState.srv.peers 2).virtIp := by
  have h0 : (gapState.srv.peers 0).active = true := by decide +kernel
  have h1 : (gapState.srv.peers 1).active = false := by decide +kernel
  have h2 : (gapState.srv.peers 2).active = true := by decide +kernel
  have hcount : gapState.srv.peerCount = 2 := by decide +kernel
  obtain ⟨hpeers, -, -, hdistinct, -⟩ := peer_table_invariant gapState gapState_reachable
  rw [hcount] at hpeers
  exact ⟨h0, h1, h2, by exact_mod_cast hpeers.symm, (hdistinct 0 2 (by decide) h0 h2).1⟩

end Tund
