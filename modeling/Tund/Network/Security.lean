import Tund.Network.Sound
import Tund.RoundTrip

/-!
# What the attacker can and cannot do

An entry of the server is only made by a REGISTER that some client sent
(`register_origin`), and a client only writes packets that some key holder sent as DATA
(`injection_origin`).  Neither knows from where or to whom: the source address of a
datagram is not authenticated, both directions share one key, and an endpoint without
an entry has no window.  The counterexamples deliver a datagram where it was not meant
to go.
-/

namespace Tund

variable {ι : Type} {aead : Aead} {key : Bytes}

section Runs

variable [DecidableEq ι]

/-! ### The server's side of a run -/

/-- What an event of the world is to the server; a packet that is no message stands for nothing. -/
def hubEvent : Env × NetEvent ι → ServerEvent
  | (env, .receive wire src) =>
    match netRecv env.aead env.key wire with
    | none => .packet env (List.replicate tundHdrSize 0) src
    | some buf => .packet env buf src
  | (env, .sweep) => .sweep env
  | (env, .hubTun pkt) => .tun env pkt
  | (env, .hubShutdown) => .shutdown env
  | (env, _) => .packet env (List.replicate tundHdrSize 0) ⟨0, 0, 0⟩

theorem serverStep_noise (s : ServerState) (env : Env) (src : SockAddr) :
    serverStep s (.packet env (List.replicate tundHdrSize 0) src) = s := by
  have hread : readFrame (List.replicate tundHdrSize 0) = none := by decide
  simp only [serverStep, serverHandlePacket, hread]

theorem netStep_server (w : World ι) (e : Env × NetEvent ι) :
    (netStep w e).server = serverStep w.server (hubEvent e) := by
  obtain ⟨env, e⟩ := e
  cases e with
  | receive wire src =>
    simp only [Tund.netStep, serverReceive, hubEvent]
    cases netRecv env.aead env.key wire with
    | none => exact (serverStep_noise _ _ _).symm
    | some buf => rfl
  | sweep => rfl
  | hubTun pkt => rfl
  | hubShutdown => rfl
  | _ => exact (serverStep_noise _ _ _).symm

omit [DecidableEq ι] in
theorem serverOk_hubEvent {w : World ι} (h : w.Sound aead key) {e : Env × NetEvent ι}
    (hok : netOk aead key w e) : serverOk w.server (hubEvent e) := by
  have hnoise : tundHdrSize ≤ (List.replicate tundHdrSize (0 : UInt8)).length := by
    rw [List.length_replicate]
  obtain ⟨env, e⟩ := e
  obtain ⟨ha, hk, hok⟩ := hok
  cases e with
  | receive wire src =>
    simp only [hubEvent]
    cases hrecv : netRecv env.aead env.key wire with
    | none => exact hnoise
    | some buf =>
      simp only at ha hk
      rw [ha, hk] at hrecv
      exact (h.origin hok hrecv).1
  | sweep => trivial
  | hubTun pkt => exact hok
  | hubShutdown => trivial
  | _ => exact hnoise

/-- The server's side of a run of the world. -/
def NetRun.hub (r : NetRun ι aead key) : ServerRun where
  state k := (r.state k).server
  event k := hubEvent (r.event k)
  start := by rw [r.start.1]
  allowed k := serverOk_hubEvent (NetReachable.sound (r.reachable k)) (r.allowed k)
  next k := by rw [r.next, netStep_server]

end Runs

/-! ### The handshake -/

theorem NextNumber.add_ne_zero {env : Env} {seq : UInt64} (h : NextNumber env Proc.start seq)
    {n : UInt64} (hn : n.toNat < 2 ^ 63) : seq + n ≠ 0 := by
  intro h0
  have hadd := h.toNat_add rfl hn
  have hpos : seq.toNat ≠ 0 := fun hz => h.ne_zero (UInt64.toNat_inj.1 hz)
  rw [h0] at hadd
  simp at hadd
  omega

/-- A process sends its first REGISTER. -/
theorem ClientNode.start_register {env : Env} (hr : env.RandomWorks) (hs : env.SendWorks)
    (addr serverAddr : SockAddr) (name : Bytes) :
    ∃ seq nonce d io, NextNumber env Proc.start seq ∧ nonce.length = tundNonceSize ∧
      (ClientNode.start addr serverAddr name).register env =
        ⟨addr, clientInit serverAddr name, io, .await 2⟩ ∧
      io.out = [.datagram d] ∧ io.running = true ∧ io.nextSequence = seq + 1 + 1 ∧ d.sent = true ∧
      d.wire = wireBytes env.aead env.key MsgType.register.code (seq + 1) nonce
        (Msg.register (clientInit serverAddr name).name.1).payload := by
  have hlen : (Msg.register (clientInit serverAddr name).name.1).payload.length ≤ tundMaxPlaintext :=
    Msg.length_payload_le (by simp [Msg.type])
  obtain ⟨seq, nonce, d, io, hseq, hn, hsend, hout, hrun, -, hsent, hwire⟩ :=
    sendMsg_numbered hr hs Proc.start hlen serverAddr
  obtain ⟨hnext, hw⟩ := hwire (hseq.add_ne_zero (by decide))
  have hstart : ClientNode.start addr serverAddr name =
      ⟨addr, clientInit serverAddr name, Proc.start, .attempt (2 + 1)⟩ := rfl
  have hsend' : sendMsg env Proc.start (.register (clientInit serverAddr name).name.1)
      (clientInit serverAddr name).serverAddr = (true, io) := hsend
  refine ⟨seq, nonce, d, io, hseq, hn, ?_, hout, hrun, hnext, hsent, hw⟩
  simp only [hstart, ClientNode.register, hsend']

/-! ### One client and its server -/

/-- A client that has just started, and its server. -/
def loneWorld : World Unit :=
  ⟨⟨serverInit, Proc.start⟩, fun _ => .start ⟨2, 1, 1⟩ ⟨2, 5, 5⟩ [97]⟩

theorem loneWorld_init : NetInit loneWorld := ⟨rfl, fun _ => ⟨_, _, _, rfl⟩⟩

/-- The host of every event below. -/
def loneHost : Env := Env.plain 100 5

/-- The client has sent its REGISTER. -/
structure Registering (seq : UInt64) (d : Datagram) (w : World Unit) : Prop where
  reachable : NetReachable monocypher plainKey w
  number : NextNumber loneHost Proc.start seq
  server : w.server = ⟨serverInit, Proc.start⟩
  client : ∃ io, w.clients () = ⟨⟨2, 1, 1⟩, clientInit ⟨2, 5, 5⟩ [97], io, .await 2⟩ ∧
    io.out = [.datagram d] ∧ io.running = true ∧ io.nextSequence = seq + 1 + 1
  sent : d.sent = true
  wire : ∃ nonce, nonce.length = tundNonceSize ∧ d.wire = wireBytes monocypher plainKey
    MsgType.register.code (seq + 1) nonce (Msg.register (clientInit ⟨2, 5, 5⟩ [97]).name.1).payload

theorem length_loneName :
    (Msg.register (clientInit ⟨2, 5, 5⟩ [97]).name.1).payload.length ≤ tundMaxPlaintext := by
  decide +kernel

theorem exists_registering :
    ∃ seq d, Registering seq d (netStep loneWorld (loneHost, .register ())) := by
  obtain ⟨seq, nonce, d, io, hseq, hn, hreg, hout, hrun, hnext, hsent, hw⟩ :=
    ClientNode.start_register (Env.plain_randomWorks 100 5) (Env.plain_sendWorks 100 5)
      ⟨2, 1, 1⟩ ⟨2, 5, 5⟩ [97]
  have hreach : NetReachable monocypher plainKey (netStep loneWorld (loneHost, .register ())) :=
    .next _ (.start loneWorld_init) ⟨rfl, rfl, trivial⟩
  have hclient : (netStep loneWorld (loneHost, .register ())).clients () =
      ⟨⟨2, 1, 1⟩, clientInit ⟨2, 5, 5⟩ [97], io, .await 2⟩ := hreg
  exact ⟨seq, d, hreach, hseq, rfl, ⟨io, hclient, hout, hrun, hnext⟩, hsent, nonce, hn, hw⟩

theorem netStep_receive (w : World Unit) (env : Env) (wire : Bytes) (src : SockAddr) :
    (netStep w (env, .receive wire src)).server = serverReceive env w.server wire src := rfl

theorem netStep_arrive (w : World Unit) (env : Env) (arrival : Arrival) :
    (netStep w (env, .arrive () arrival)).clients () = (w.clients ()).arrive env arrival := rfl

section Lone

variable {seq : UInt64} {d : Datagram} {w : World Unit}

theorem Registering.deliverable (h : Registering seq d w) :
    w.Deliverable monocypher plainKey d.wire := by
  obtain ⟨io, hc, hout, -⟩ := h.client
  refine h.reachable.sound.deliverable (p := .client ()) ⟨?_, h.sent⟩
  simp only [World.out, hc, hout, List.mem_singleton]

/-- The REGISTER gets the first slot, from wherever it comes. -/
theorem Registering.receive (h : Registering seq d w) (src : SockAddr) :
    ∃ (p : Peer) (others : List ServerPeerSnapshot), p.active = true ∧ p.realAddr = src ∧
      serverReceive loneHost w.server d.wire src =
        ⟨(finish loneHost Proc.start (serverInit.join 0 p, joinActs p others)).1,
          (finish loneHost Proc.start (serverInit.join 0 p, joinActs p others)).2⟩ := by
  obtain ⟨nonce, hn, hw⟩ := h.wire
  set payload := (Msg.register (clientInit ⟨2, 5, 5⟩ [97]).name.1).payload with hpay
  have hlen : payload.length ≤ tundMaxPlaintext := length_loneName
  have hne : seq + 1 ≠ 0 := h.number.add_ne_zero (by decide)
  have hrecv : netRecv loneHost.aead loneHost.key d.wire =
      some (frameBytes MsgType.register.code (seq + 1) nonce payload) := by
    rw [hw]
    exact netRecv_wireBytes hn hlen
  have hread : readFrame (frameBytes MsgType.register.code (seq + 1) nonce payload) =
      some ⟨MsgType.register.code, payload, seq + 1⟩ := readFrame_frameBytes hne hn hlen
  have hfind : serverFindPeerByAddr serverInit src = none := find_eq_none_iff.2 fun _ => rfl
  have hfree : serverFindFreeSlot serverInit = some 0 := by decide +kernel
  have hvip : ¬ serverAllocIp serverInit = 0 := by decide +kernel
  set p := registeredPeer loneHost 0 (serverAllocIp serverInit) payload src (seq + 1) with hp
  refine ⟨p, serverSnapshotBroadcastLocked (serverInit.join 0 p) (some 0), rfl, rfl, ?_⟩
  simp only [serverReceive, h.server, hrecv, serverStep, serverHandlePacket, hread, ne_eq,
    not_true_eq_false, if_false, serverDispatchLocked, MsgType.ofCode_code, serverRegisterLocked,
    hfind, hfree, if_neg hvip, ← hp]

end Lone

theorem serverStep_packet_congr {env : Env} (s : ServerState) {buf buf' : Bytes} (src : SockAddr)
    (h : readFrame buf = readFrame buf') :
    serverStep s (.packet env buf src) = serverStep s (.packet env buf' src) := by
  simp only [serverStep, serverHandlePacket, h]

/-- What reaches the server is the packet in the clear; its nonce does not matter. -/
theorem serverReceive_wireBytes {env : Env} (s : ServerState) {type : UInt8} {seq : UInt64}
    {nonce payload : Bytes} (hs : seq ≠ 0) (hn : nonce.length = tundNonceSize)
    (hp : payload.length ≤ tundMaxPlaintext) (src : SockAddr) :
    serverReceive env s (wireBytes env.aead env.key type seq nonce payload) src =
      serverStep s (.packet env (frameBytes type seq (List.replicate tundNonceSize 0) payload) src) := by
  rw [serverReceive, netRecv_wireBytes hn hp]
  refine serverStep_packet_congr s src ?_
  rw [readFrame_frameBytes hs hn hp, readFrame_frameBytes hs (by simp) hp]

/-! ### Registration -/

/-- A packet that makes an entry is acted on. -/
theorem actsOn_of_made {env : Env} {srv : Server} {io : Proc} {buf : Bytes} {src : SockAddr}
    {f : Frame} {i : Slot} (hread : readFrame buf = some f) (hoff : (srv.peers i).active = false)
    (hon : ((serverHandlePacket env srv io buf src).1.peers i).active = true) :
    ServerActsOn srv f src := by
  by_contra hno
  have hsame : serverHandlePacket env srv io buf src = (srv, io) :=
    serverHandlePacket_of_not_acts fun f' hf' => Option.some.inj (hread.symm.trans hf') ▸ hno
  rw [hsame, hoff] at hon
  cases hon

/-- The name of an entry comes from the REGISTER that made it. -/
theorem name_of_registered {env : Env} {srv : Server} {io : Proc} {buf : Bytes} {src : SockAddr}
    {f : Frame} {i : Slot} (hread : readFrame buf = some f) (hreg : f.type = MsgType.register.code)
    (hoff : (srv.peers i).active = false)
    (hon : ((serverHandlePacket env srv io buf src).1.peers i).active = true) :
    ((serverHandlePacket env srv io buf src).1.peers i).name = registeredName f.payload i := by
  rcases serverHandlePacket_cases env srv io buf src with ⟨-, h⟩ | ⟨f', srv₁, hread', hacc, h⟩
  · rw [h, hoff] at hon
    cases hon
  obtain rfl : f' = f := Option.some.inj (hread'.symm.trans hread)
  rcases hacc with ⟨-, rfl⟩ | ⟨hno, -⟩
  swap
  · exact absurd hreg hno
  rw [h, serverDispatchLocked_register hreg] at hon ⊢
  have hsame := finish_same env io (serverRegisterLocked env srv₁ f'.payload src f'.sequence)
  rw [(hsame.refreshes i).active] at hon
  rw [(hsame.refreshes i).name, serverRegisterLocked_made hoff hon]
  simp only [join_peers, if_pos]
  rfl

/-- **Registration.**  Whenever the server makes an entry, some client sent the REGISTER that it is
handling, with its own name and to its server; the entry gets the first 31 bytes of that name, or
`peer-` and the number of its slot if the name is empty; and as long as the endpoint stays
registered, the server does not act on that datagram from it again. -/
theorem register_origin [DecidableEq ι] (r : NetRun ι aead key) (k : ℕ) (env : Env) (wire : Bytes)
    (src : SockAddr) (i : Slot) (hev : r.event k = (env, .receive wire src))
    (hoff : ((r.state k).server.srv.peers i).active = false)
    (hon : ((r.state (k + 1)).server.srv.peers i).active = true) :
    ((r.state (k + 1)).server.srv.peers i).realAddr = src ∧
    (∃ c d, (r.state k).Sent (.client c) d ∧ d.wire = wire.take tundMaxPkt ∧
      d.dest = ((r.state k).clients c).cli.serverAddr ∧
      d.Carries aead key MsgType.register.code
        (Msg.register ((r.state k).clients c).cli.name.1).payload ∧
      let name := ((r.state k).clients c).cli.name.1
      Bytes.cstr ((r.state (k + 1)).server.srv.peers i).name.1 =
        if Bytes.cstr name = [] then defaultName i else shortName name) ∧
    ∀ m env' wire' src', k < m → r.event m = (env', .receive wire' src') →
      wire'.take tundMaxPkt = wire.take tundMaxPkt →
      src'.sinAddr = src.sinAddr → src'.sinPort = src.sinPort →
      (∀ n, k < n → n ≤ m → ∃ j, ((r.state n).server.srv.peers j).isAt src = true) →
      (r.state (m + 1)).server = (r.state m).server := by
  have hsound := NetReachable.sound (r.reachable k)
  have hhub : r.hub.event k = hubEvent (env, (.receive wire src : NetEvent ι)) := by
    rw [← hev]; rfl
  obtain ⟨ha, hk, hdel⟩ := hev ▸ r.allowed k
  rw [r.next, netStep_server, hev] at hon ⊢
  rcases serverStep_origin hon with ⟨hact, -⟩ | ⟨-, env₁, buf, src₁, f, heq, hread, htype, -, haddr, -⟩
  · rw [hoff] at hact; cases hact
  -- a datagram that does not unlock makes no entry
  cases hrecv : netRecv env.aead env.key wire with
  | none =>
    simp only [hubEvent, hrecv] at heq
    cases heq
    have hnone : readFrame (List.replicate tundHdrSize 0) = none := by decide
    rw [hnone] at hread
    cases hread
  | some buf' =>
    simp only [hubEvent, hrecv] at heq hhub
    obtain ⟨rfl, rfl, rfl⟩ : env = env₁ ∧ buf' = buf ∧ src = src₁ := by
      simpa using heq
    have hrecv' : netRecv aead key wire = some buf' := by rw [← hrecv, ha, hk]
    refine ⟨haddr, ?_, ?_⟩
    · obtain ⟨p, d, m, hsent, hwire, hmay, hcar, hcode, hpay⟩ :=
        (hsound.origin hdel hrecv').2 f hread
      have hm : m.type = .register := by
        have h := MsgType.ofCode_code m.type
        rw [← hcode, htype, MsgType.ofCode_code] at h
        exact (Option.some.inj h).symm
      cases p with
      | server => exact absurd hm hmay
      | client c =>
        obtain ⟨hdest, hname⟩ := hmay
        obtain rfl := hname hm
        refine ⟨c, d, hsent, hwire, hdest, hcar, ?_⟩
        simp only [hubEvent, hrecv, serverStep] at hon ⊢
        rw [name_of_registered hread htype hoff hon, hpay]
        exact cstr_registeredName_register _ i
    · intro m env' wire' src' hkm hev' hwire ha' hp' hat
      have hacts : ServerActsOn (r.state k).server.srv f src := by
        simp only [hubEvent, hrecv, serverStep] at hon
        exact actsOn_of_made hread hoff hon
      obtain ⟨j, log, hj, ht, hmem⟩ := tracks_of_acts r.hub hhub hread hacts hkm hat
      obtain ⟨ha₂, hk₂, -⟩ := hev' ▸ r.allowed m
      have hrecv₂ : netRecv env'.aead env'.key wire' = some buf' := by
        rw [ha₂, hk₂, ← netRecv_take, hwire, netRecv_take, hrecv']
      have hwf := ServerReachable.wellFormed (r.hub.reachable m)
      rw [r.next, netStep_server, hev']
      simp only [hubEvent, hrecv₂, serverStep]
      rw [serverHandlePacket_of_not_acts]
      intro f' hf' hacts'
      obtain rfl : f = f' := Option.some.inj (hread.symm.trans hf')
      rw [← Peer.isAt_congr ha' hp'] at hj
      have hfind : serverFindPeerByAddr (r.state m).server.srv src' = some j := hwf.find_of_isAt hj
      simp only [ServerActsOn, hfind] at hacts'
      exact ht.not_mem_of_accept hacts' hmem

/-- A REGISTER that the attacker delivers from an address of its own registers that address. -/
theorem register_from_anywhere :
    ¬ ∀ (w : World Unit) (env : Env) (wire : Bytes) (src : SockAddr) (i : Slot),
      NetReachable monocypher plainKey w →
      netOk monocypher plainKey w (env, .receive wire src) →
      (w.server.srv.peers i).active = false →
      ((netStep w (env, .receive wire src)).server.srv.peers i).active = true →
      ∃ c d, w.Sent (.client c) d ∧ d.wire = wire.take tundMaxPkt ∧ (w.clients c).addr = src := by
  intro hclaim
  obtain ⟨seq, d, h⟩ := exists_registering
  obtain ⟨p, others, hact, -, hrecv⟩ := h.receive ⟨2, 9, 9⟩
  have hoff : ((netStep loneWorld (loneHost, .register ())).server.srv.peers 0).active = false := by
    rw [h.server]
    rfl
  have hon : ((netStep (netStep loneWorld (loneHost, .register ()))
      (loneHost, .receive d.wire ⟨2, 9, 9⟩)).server.srv.peers 0).active = true := by
    simp only [netStep_receive, hrecv, (finish_same _ _ _).active, join_peers, if_true, hact]
  obtain ⟨c, -, -, -, haddr⟩ := hclaim _ loneHost d.wire ⟨2, 9, 9⟩ 0 h.reachable
    ⟨rfl, rfl, h.deliverable⟩ hoff hon
  obtain ⟨io, hc, -⟩ := h.client
  rw [hc] at haddr
  have hne : (⟨2, 1, 1⟩ : SockAddr) ≠ ⟨2, 9, 9⟩ := by decide
  exact hne haddr

/-- The run in which the client's own REGISTER reaches the server: the entry has the client's
name. -/
theorem register_origin_lone :
    ∃ (r : NetRun Unit monocypher plainKey) (wire : Bytes),
      r.event 1 = (loneHost, .receive wire ⟨2, 1, 1⟩) ∧
      ((r.state 1).server.srv.peers 0).active = false ∧
      ((r.state 2).server.srv.peers 0).active = true ∧
      ((r.state 2).server.srv.peers 0).realAddr = ⟨2, 1, 1⟩ ∧
      Bytes.cstr ((r.state 2).server.srv.peers 0).name.1 = [97] ∧
      ∃ c d, (r.state 1).Sent (.client c) d ∧ d.wire = wire.take tundMaxPkt := by
  obtain ⟨seq, d, h⟩ := exists_registering
  obtain ⟨p, others, hact, -, hrecv⟩ := h.receive ⟨2, 1, 1⟩
  -- the two events, and then nothing but sweeps
  let event : ℕ → Env × NetEvent Unit
    | 0 => (loneHost, .register ())
    | 1 => (loneHost, .receive d.wire ⟨2, 1, 1⟩)
    | _ + 2 => (loneHost, .sweep)
  have hok : ∀ k, netOk monocypher plainKey (Trace.stateAt netStep loneWorld event k) (event k)
    | 0 => ⟨rfl, rfl, trivial⟩
    | 1 => ⟨rfl, rfl, h.deliverable⟩
    | _ + 2 => ⟨rfl, rfl, trivial⟩
  let r : NetRun Unit monocypher plainKey := .ofEvents loneWorld event loneWorld_init hok
  have hoff : ((r.state 1).server.srv.peers 0).active = false := by
    show ((netStep loneWorld (loneHost, .register ())).server.srv.peers 0).active = false
    rw [h.server]
    rfl
  have hon : ((r.state 2).server.srv.peers 0).active = true := by
    show ((netStep (netStep loneWorld (loneHost, .register ()))
      (loneHost, .receive d.wire ⟨2, 1, 1⟩)).server.srv.peers 0).active = true
    simp only [netStep_receive, hrecv, (finish_same _ _ _).active, join_peers, if_true, hact]
  obtain ⟨haddr, ⟨c, d', hsent, hwire, -, -, hname⟩, -⟩ :=
    register_origin r 1 loneHost d.wire ⟨2, 1, 1⟩ 0 rfl hoff hon
  obtain ⟨io, hc, -⟩ := h.client
  have hcli : ((r.state 1).clients c).cli = clientInit ⟨2, 5, 5⟩ [97] :=
    congrArg ClientNode.cli hc
  rw [hcli] at hname
  exact ⟨r, d.wire, rfl, hoff, hon, haddr, hname.trans (by decide), c, d', hsent, hwire⟩

/-! ### Injection -/

theorem joinActs_eq (p : Peer) (others : List ServerPeerSnapshot) :
    ∃ rest, joinActs p others = assignActs p ++ rest := ⟨_, List.append_assoc _ _ _⟩

/-- After a new registration the first datagram is ASSIGN. -/
theorem finish_joinActs {env : Env} (hr : env.RandomWorks) (hs : env.SendWorks) (io : Proc)
    (srv : Server) (p : Peer) (others : List ServerPeerSnapshot) :
    ∃ seq nonce d outs, NextNumber env io seq ∧ nonce.length = tundNonceSize ∧
      (finish env io (srv, joinActs p others)).2.out = io.out ++ .datagram d :: outs ∧
      d.sent = true ∧ (seq + 1 ≠ 0 → d.wire = wireBytes env.aead env.key MsgType.assign.code (seq + 1)
        nonce (Msg.assign p.virtIp (htonl tundNetmask) tundTunMtu).payload) := by
  have hlen : (Msg.assign p.virtIp (htonl tundNetmask) tundTunMtu).payload.length ≤
      tundMaxPlaintext := by simp [Msg.payload, tundMaxPlaintext]
  obtain ⟨seq, nonce, d, io', hseq, hn, hsend, hout, -, -, hsent, hwire⟩ :=
    sendMsg_numbered hr hs io hlen p.realAddr
  obtain ⟨rest, hrest⟩ := joinActs_eq p others
  have hall : ∀ a ∈ assignActs p ++ rest, a.Within fun _ => True :=
    hrest ▸ within_joinActs trivial trivial trivial
  obtain ⟨hbox, -⟩ := runActs_out env (w := ⟨srv, io, .fresh⟩)
    (fun a ha => hall a (List.mem_append_left _ ha)) Outbox.within_fresh
  obtain ⟨-, outs, ho, -⟩ := runActs_out env (fun a ha => hall a (List.mem_append_right _ ha)) hbox
  have hassign : (runActs env ⟨srv, io, .fresh⟩ (assignActs p)).io.out = io.out ++ [.datagram d] := by
    rw [← hout, show io' = (sendMsg env io (.assign p.virtIp (htonl tundNetmask) tundTunMtu)
      p.realAddr).2 by rw [hsend]]
    rfl
  refine ⟨seq, nonce, d, outs, hseq, hn, ?_, hsent, fun h => (hwire h).2⟩
  simp only [finish, hrest, runActs_append, ho, hassign, List.append_assoc, List.singleton_append]

section Node

variable (env : Env) {c : ClientNode} {seq : UInt64} {nonce : Bytes}

/-- ASSIGN ends the handshake of a client that has heard nothing before. -/
theorem ClientNode.arrive_assign {left : ℕ} (hphase : c.phase = .await left)
    (hfresh : c.cli.serverReplay = protoReplayReset) (hs : seq ≠ 0)
    (hn : nonce.length = tundNonceSize) (vip netmask : UInt32) (mtu : UInt16) :
    c.arrive env (.datagram (wireBytes env.aead env.key MsgType.assign.code seq nonce
        (Msg.assign vip netmask mtu).payload) c.cli.serverAddr) =
      { c with
        cli := clientMarkServerSeen env
          { c.cli with serverReplay := ⟨seq, 1⟩, virtIp := vip, netmask := netmask }
        phase := .running } := by
  have hlen : (Msg.assign vip netmask mtu).payload.length ≤ tundMaxPlaintext := by
    simp [Msg.payload, tundMaxPlaintext]
  have hreset : protoReplayReset.highest = 0 := rfl
  have hacc : protoReplayAccept c.cli.serverReplay seq = (true, ⟨seq, 1⟩) := by
    rw [hfresh, protoReplayAccept, if_neg hs, if_pos hreset]
  have haddr : netAddrEqual c.cli.serverAddr c.cli.serverAddr = true := netAddrEqual_iff.2 rfl
  simp only [ClientNode.arrive, hphase, clientAwait, netRecv_wireBytes hn hlen, haddr, if_true,
    clientRegisterReply, readFrame_frameBytes hs hn hlen, hacc, handleAssign_payload]

/-- ASSIGN lets a process run that has heard nothing before. -/
theorem ClientNode.await_assign (addr serverAddr : SockAddr) (name : Bytes) (io : Proc)
    (left : ℕ) {d : Datagram} {vip netmask : UInt32} {mtu : UInt16}
    (hd : d.Carries env.aead env.key MsgType.assign.code (Msg.assign vip netmask mtu).payload) :
    ∃ cli : Client, cli.serverAddr = serverAddr ∧
      ClientNode.arrive env ⟨addr, clientInit serverAddr name, io, .await left⟩
        (.datagram d.wire serverAddr) = ⟨addr, cli, io, .running⟩ := by
  obtain ⟨-, seq, nonce, hs, hn, hw⟩ := hd
  have h : ClientNode.arrive env ⟨addr, clientInit serverAddr name, io, .await left⟩
      (.datagram (wireBytes env.aead env.key MsgType.assign.code seq nonce
        (Msg.assign vip netmask mtu).payload) serverAddr) = _ :=
    ClientNode.arrive_assign env rfl rfl hs hn vip netmask mtu
  rw [hw, h]
  exact ⟨_, (clientMarkServerSeen_keeps env _).serverAddr, rfl⟩

/-- A running client writes the packet of a DATA message with a new number. -/
theorem ClientNode.arrive_data (hphase : c.phase = .running) (hrun : c.io.running = true)
    (hnew : c.cli.serverReplay.highest < seq) (hn : nonce.length = tundNonceSize) {pkt : Bytes}
    (hp : pkt.length ≤ tundMaxPlaintext) (hvalid : protoValidateIpv4Packet pkt = none) :
    Out.tunWrite pkt ∈ (c.arrive env (.datagram
      (wireBytes env.aead env.key MsgType.data.code seq nonce pkt) c.cli.serverAddr)).io.out := by
  have hs : seq ≠ 0 := fun h0 => by simp [h0] at hnew
  obtain ⟨hacc, -⟩ := protoReplayAccept_newer hnew
  rcases hr : protoReplayAccept c.cli.serverReplay seq with ⟨_ | _, replay⟩ <;> rw [hr] at hacc
  · cases hacc
  have haddr : netAddrEqual c.cli.serverAddr c.cli.serverAddr = true := netAddrEqual_iff.2 rfl
  simp only [ClientNode.arrive, hphase, hrun, if_true, clientReceive, netRecv_wireBytes hn hp, haddr,
    clientHandleServerPacket, readFrame_frameBytes hs hn hp, hr, clientDispatch,
    MsgType.ofCode_code, clientHandleData, hvalid, tunWrite, List.mem_append, List.mem_singleton,
    or_true]

/-- A running client sends what it reads from its TUN device. -/
theorem ClientNode.tun_sends {env : Env} (hr : env.RandomWorks) (hs : env.SendWorks)
    (hphase : c.phase = .running) {pkt : Bytes} (hp : pkt.length ≤ tundMaxPlaintext)
    (hvalid : protoValidateIpv4Packet pkt = none) :
    (c.tun env pkt).phase = .running ∧ (c.tun env pkt).io.running = c.io.running ∧
    c.cli.Keeps (c.tun env pkt).cli ∧
    ∃ seq nonce d, NextNumber env c.io seq ∧ nonce.length = tundNonceSize ∧
      (c.tun env pkt).io.out = c.io.out ++ [.datagram d] ∧ d.sent = true ∧
      (seq + 1 ≠ 0 →
        d.wire = wireBytes env.aead env.key MsgType.data.code (seq + 1) nonce pkt) := by
  have hpay : (Msg.data pkt).payload = pkt := dataPayload_of_le hp
  obtain ⟨seq, nonce, d, io', hseq, hn, hsend, hout, hrun, -, hsent, hwire⟩ :=
    sendMsg_numbered hr hs c.io (m := .data pkt) (by rw [hpay]; exact hp) c.cli.serverAddr
  rw [hpay] at hwire
  have htun : c.tun env pkt = { c with
      cli := if protoGetDstIp pkt = htonl tundBroadcast then
          clientAddBroadcastTraffic c.cli (UInt64.ofNat pkt.length)
        else clientAddPeerTraffic c.cli (protoGetDstIp pkt) 0 (UInt64.ofNat pkt.length)
      io := io' } := by
    simp only [ClientNode.tun, hphase, clientTunPacket, hvalid, hsend]
    split_ifs <;> rfl
  rw [htun]
  refine ⟨hphase, hrun, ?_, seq, nonce, d, hseq, hn, hout, hsent, fun h => (hwire h).2⟩
  dsimp only
  split_ifs
  · exact ⟨rfl, rfl, rfl, rfl, rfl⟩
  · exact clientAddPeerTraffic_keeps _ _ _ _

end Node

/-- A packet from the client to the hub. -/
def lonePkt : Bytes := [0x45, 0, 0, 20, 0, 0, 0, 0, 64, 17, 0, 0, 10, 9, 0, 2, 10, 9, 0, 1]

/-- The client runs, and the server has sent no DATA. -/
structure LoneRunning (seq : UInt64) (w : World Unit) : Prop where
  reachable : NetReachable monocypher plainKey w
  number : NextNumber loneHost Proc.start seq
  phase : (w.clients ()).phase = .running
  running : (w.clients ()).io.running = true
  counter : (w.clients ()).io.nextSequence = seq + 2
  serverAddr : (w.clients ()).cli.serverAddr = ⟨2, 5, 5⟩
  window : (w.clients ()).cli.serverReplay.highest = seq + 1
  noData : ∀ d, Out.datagram d ∈ w.server.io.out →
    ∃ m : Msg, m.type ≠ .data ∧ d.Carries monocypher plainKey m.type.code m.payload

theorem exists_loneRunning : ∃ seq w, LoneRunning seq w := by
  have hr : loneHost.RandomWorks := Env.plain_randomWorks 100 5
  have hs : loneHost.SendWorks := Env.plain_sendWorks 100 5
  obtain ⟨seq, d₁, h₁⟩ := exists_registering
  obtain ⟨io, hc, -, hrun, hnext⟩ := h₁.client
  obtain ⟨p, others, -, -, hrecv⟩ := h₁.receive ⟨2, 1, 1⟩
  obtain ⟨seqA, nonceA, dA, outs, hseqA, hnA, houtA, hsentA, hwA⟩ :=
    finish_joinActs hr hs Proc.start (serverInit.join 0 p) p others
  -- both processes draw the same first number
  obtain rfl : seq = seqA := Option.some.inj (h₁.number.draw.symm.trans hseqA.draw)
  have hne : seq + 1 ≠ 0 := h₁.number.add_ne_zero (by decide)
  set w₁ := netStep loneWorld (loneHost, .register ())
  set w₂ := netStep w₁ (loneHost, .receive d₁.wire ⟨2, 1, 1⟩) with hw₂
  have hreach₂ : NetReachable monocypher plainKey w₂ :=
    h₁.reachable.next _ ⟨rfl, rfl, h₁.deliverable⟩
  have hsent₂ : w₂.Sent .server dA := by
    refine ⟨?_, hsentA⟩
    simp only [World.out, hw₂, netStep_receive, hrecv, houtA]
    simp
  have hc₂ : w₂.clients () = ⟨⟨2, 1, 1⟩, clientInit ⟨2, 5, 5⟩ [97], io, .await 2⟩ := hc
  -- ASSIGN makes the client run
  have harrive := ClientNode.arrive_assign loneHost (c := w₂.clients ()) (by rw [hc₂])
    (by rw [hc₂]; rfl) hne hnA p.virtIp (htonl tundNetmask) tundTunMtu
  rw [hc₂] at harrive
  have hkeeps := clientMarkServerSeen_keeps loneHost { clientInit ⟨2, 5, 5⟩ [97] with
    serverReplay := ⟨seq + 1, 1⟩, virtIp := p.virtIp, netmask := htonl tundNetmask }
  have hc₃ : (netStep w₂ (loneHost, .arrive () (.datagram dA.wire ⟨2, 5, 5⟩))).clients () =
      (w₂.clients ()).arrive loneHost (.datagram dA.wire ⟨2, 5, 5⟩) := rfl
  rw [hc₂, hwA hne] at hc₃
  replace hc₃ := hc₃.trans harrive
  refine ⟨seq, _, hreach₂.next (loneHost, .arrive () (.datagram dA.wire ⟨2, 5, 5⟩))
    ⟨rfl, rfl, hreach₂.sound.deliverable hsent₂⟩, h₁.number, ?_, ?_, ?_, ?_, ?_, ?_⟩
  · rw [hwA hne, hc₃]
  · rw [hwA hne, hc₃]; exact hrun
  · rw [hwA hne, hc₃]
    exact hnext.trans (by rw [UInt64.add_assoc]; rfl)
  · rw [hwA hne, hc₃]; exact hkeeps.serverAddr
  · rw [hwA hne, hc₃]; exact congrArg ReplayWindow.highest hkeeps.serverReplay
  · intro d hd
    have hwithin : ∀ a ∈ (serverInit.join 0 p, joinActs p others).2, a.Within fun m => m.type ≠ .data :=
      within_joinActs (fun h => by cases h) (fun h => by cases h) fun h => by cases h
    obtain ⟨outs', hout', -, hby⟩ := finish_out loneHost Proc.start hwithin
    have hserver : w₂.server.io.out = Proc.start.out ++ outs' := by
      rw [hw₂, netStep_receive, hrecv, hout']
    exact hby _ (hserver ▸ hd)

/-- The attacker sends the client its own DATA back, in the name of the server. -/
theorem exists_reflected :
    ∃ w : World Unit, NetReachable monocypher plainKey w ∧
      Out.tunWrite lonePkt ∈ (w.clients ()).io.out ∧
      ∀ d, w.Sent .server d → ¬ d.Carries monocypher plainKey MsgType.data.code lonePkt := by
  have hr : loneHost.RandomWorks := Env.plain_randomWorks 100 5
  have hs : loneHost.SendWorks := Env.plain_sendWorks 100 5
  have hp : lonePkt.length ≤ tundMaxPlaintext := by decide
  have hvalid : protoValidateIpv4Packet lonePkt = none := by decide +kernel
  obtain ⟨seq, w, h⟩ := exists_loneRunning
  obtain ⟨hphase, hrun, hkeeps, seqD, nonce, d, hseqD, hn, hout, hsent, hw⟩ :=
    ClientNode.tun_sends hr hs h.phase hp hvalid
  obtain rfl : seqD = seq + 2 := by
    rw [hseqD.of_ne_zero (by rw [h.counter]; exact h.number.add_ne_zero (by decide)), h.counter]
  have hthree : seq + 2 + 1 = seq + 3 := by rw [UInt64.add_assoc]; rfl
  rw [hthree] at hw
  replace hw := hw (h.number.add_ne_zero (by decide))
  set w' := netStep w (loneHost, .tun () lonePkt)
  have hreach' : NetReachable monocypher plainKey w' := h.reachable.next _ ⟨rfl, rfl, trivial⟩
  have hsent' : w'.Sent (.client ()) d := by
    refine ⟨?_, hsent⟩
    show Out.datagram d ∈ ((w.clients ()).tun loneHost lonePkt).io.out
    rw [hout]
    simp
  have hnew : (w'.clients ()).cli.serverReplay.highest < seq + 3 := by
    have hhigh : (w'.clients ()).cli.serverReplay.highest = seq + 1 :=
      (congrArg ReplayWindow.highest hkeeps.serverReplay).trans h.window
    rw [hhigh, UInt64.lt_iff_toNat_lt, h.number.toNat_add rfl (by decide),
      h.number.toNat_add rfl (by decide)]
    exact Nat.add_lt_add_left (by decide) _
  have haddr : (w'.clients ()).cli.serverAddr = ⟨2, 5, 5⟩ := hkeeps.serverAddr.trans h.serverAddr
  have hwrite := ClientNode.arrive_data loneHost (c := w'.clients ()) hphase (hrun.trans h.running)
    hnew hn hp hvalid
  refine ⟨_, hreach'.next (loneHost, .arrive () (.datagram d.wire ⟨2, 5, 5⟩))
    ⟨rfl, rfl, hreach'.sound.deliverable hsent'⟩, ?_, ?_⟩
  · rw [netStep_arrive, hw]
    rw [haddr] at hwrite
    exact hwrite
  · intro d' hd' hcar
    obtain ⟨m, hm, hcar'⟩ := h.noData d' hd'.1
    obtain ⟨buf, n, hrecv, hread⟩ := hcar.read
    have hcode := MsgType.ofCode_code m.type
    rw [← (hcar'.unique hrecv hread).1, MsgType.ofCode_code] at hcode
    exact hm (Option.some.inj hcode).symm

/-- **Injection.**  Every packet that a client wrote to its TUN device was sent by a key holder as
DATA, and a datagram stops a client only if a key holder sent it as DISCONNECT. -/
theorem injection_origin [DecidableEq ι] (w : World ι) (h : NetReachable aead key w) :
    (∀ i pkt, Out.tunWrite pkt ∈ (w.clients i).io.out →
      ∃ p d, w.Sent p d ∧ d.Carries aead key MsgType.data.code pkt) ∧
    ∀ env i arrival, netOk aead key w (env, .arrive i arrival) →
      (w.clients i).io.running = true →
      ((netStep w (env, .arrive i arrival)).clients i).io.running = false →
      ∃ p d wire src payload, w.Sent p d ∧ arrival = .datagram wire src ∧
        d.wire = wire.take tundMaxPkt ∧ d.Carries aead key MsgType.disconnect.code payload := by
  refine ⟨h.sound.tun, ?_⟩
  intro env i arrival ⟨ha, hk, hok⟩ hrun hstop
  have hmove : (netStep w (env, .arrive i arrival)).clients i =
      (w.clients i).arrive env arrival := by simp [Tund.netStep, World.move]
  rw [hmove] at hstop
  have hdel : ∀ wire src, arrival = .datagram wire src → w.Deliverable aead key wire := by
    rintro wire src rfl
    exact hok
  rcases (ClientNode.arrive_goes ha hk (w.clients i) arrival).2 with hsame | ⟨payload, hreads⟩
  · rw [hsame, hrun] at hstop
    cases hstop
  · obtain ⟨p, d, wire, src, hsent, harr, hwire, hcar⟩ := h.sound.reads hdel hreads
    exact ⟨p, d, wire, src, payload, hsent, harr, hwire, hcar⟩

/-- The packet that a client wrote need not have come from the server. -/
theorem injection_reflected :
    ¬ ∀ w : World Unit, NetReachable monocypher plainKey w →
      ∀ i pkt, Out.tunWrite pkt ∈ (w.clients i).io.out →
        ∃ d, w.Sent .server d ∧ d.dest = (w.clients i).addr ∧
          d.Carries monocypher plainKey MsgType.data.code pkt := by
  intro hclaim
  obtain ⟨w, hw, hmem, hno⟩ := exists_reflected
  obtain ⟨d, hsent, -, hcar⟩ := hclaim w hw () lonePkt hmem
  exact hno d hsent hcar

/-- The same world: the packet was sent by the client itself. -/
theorem injection_origin_lone :
    ∃ w : World Unit, NetReachable monocypher plainKey w ∧
      Out.tunWrite lonePkt ∈ (w.clients ()).io.out ∧
      ∃ p d, w.Sent p d ∧ d.Carries monocypher plainKey MsgType.data.code lonePkt := by
  obtain ⟨w, hw, hmem, -⟩ := exists_reflected
  exact ⟨w, hw, hmem, (injection_origin w hw).1 () lonePkt hmem⟩

end Tund
