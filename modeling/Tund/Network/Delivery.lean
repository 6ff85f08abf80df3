import Tund.Network.Integrity
import Tund.Reordering
import Tund.Server.Relay
import Tund.Server.Window

/-!
# Packets that get through

The way of a packet from the TUN device of one host to those of others, over the server.
`packet_gets_through` needs of the network only that it delivers the datagrams of the
packet, and of a datagram that it is not late: its number is new to its receiver and no
number 64 or more above it has come before (`Timely`).  In between anything may happen.

* `NetRun.HeardFrom`, `NetRun.HeardBy`: the numbers that have reached the server from an
  endpoint, and a client from its server;
* `NetRun.Reaches`, `NetRun.Arrives`: a datagram reaches the server, or a client;
* `PairRun`: a run in which a packet goes from one client to another.
-/

namespace Tund

variable {ι : Type} {aead : Aead} {key : Bytes}

/-! ### What has been heard -/

/-- The message in a datagram. -/
def wireFrame (aead : Aead) (key wire : Bytes) : Option Frame :=
  (netRecv aead key wire).bind readFrame

theorem wireFrame_wireBytes {aead : Aead} {key : Bytes} {type : UInt8} {seq : UInt64}
    {nonce payload : Bytes} (hs : seq ≠ 0) (hn : nonce.length = tundNonceSize)
    (hp : payload.length ≤ tundMaxPlaintext) :
    wireFrame aead key (wireBytes aead key type seq nonce payload) = some ⟨type, payload, seq⟩ := by
  rw [wireFrame, netRecv_wireBytes hn hp]
  exact readFrame_frameBytes hs hn hp

theorem Datagram.Carries.wireFrame {d : Datagram} {type : UInt8} {payload : Bytes}
    (h : d.Carries aead key type payload) :
    ∃ buf seq, netRecv aead key d.wire = some buf ∧ readFrame buf = some ⟨type, payload, seq⟩ ∧
      Tund.wireFrame aead key d.wire = some ⟨type, payload, seq⟩ := by
  obtain ⟨buf, seq, hrecv, hread⟩ := h.read
  exact ⟨buf, seq, hrecv, hread, by rw [Tund.wireFrame, hrecv]; exact hread⟩

/-- A message that unlocks has the number that its datagram shows. -/
theorem Datagram.Carries.wireFrame_of_shows {aead : Aead} {key : Bytes} {d : Datagram} {type : UInt8}
    {payload : Bytes} (h : d.Carries aead key type payload) {n : UInt64}
    (hn : protoReadSequence d.wire = some n) :
    Tund.wireFrame aead key d.wire = some ⟨type, payload, n⟩ := by
  obtain ⟨buf, seq, hrecv, hread, hframe⟩ := h.wireFrame
  obtain ⟨f, hf, hshows⟩ := h.authentic
  obtain rfl : ⟨type, payload, seq⟩ = f := Option.some.inj (hframe.symm.trans hf)
  obtain rfl : n = seq := Option.some.inj (hn.symm.trans hshows)
  exact hframe

/-- A datagram that is not late: its number is new, and no number that was heard is 64 or more above
it. -/
def Timely (aead : Aead) (key : Bytes) (heard : UInt64 → Prop) (wire : Bytes) : Prop :=
  ∀ f, wireFrame aead key wire = some f →
    ∀ n, heard n → n ≠ f.sequence ∧ n.toNat < f.sequence.toNat + 64

section Runs

variable [DecidableEq ι]

namespace NetRun

variable (r : NetRun ι aead key)

/-- A message with number `n` has reached the server from an endpoint before the `k`-th event. -/
def HeardFrom (k : ℕ) (addr : SockAddr) (n : UInt64) : Prop :=
  ∃ m < k, ∃ env wire src f, r.event m = (env, .receive wire src) ∧ addr.sinAddr = src.sinAddr ∧
    addr.sinPort = src.sinPort ∧ wireFrame aead key wire = some f ∧ f.sequence = n

/-- A message with number `n` has reached a client from its server before the `k`-th event. -/
def HeardBy (k : ℕ) (i : ι) (n : UInt64) : Prop :=
  ∃ m < k, ∃ env arrival wire f, r.event m = (env, .arrive i arrival) ∧
    wire ∈ ((r.state m).clients i).reads (.arrive arrival) ∧ wireFrame aead key wire = some f ∧
    f.sequence = n

end NetRun

omit [DecidableEq ι] in
theorem hubEvent_shows {e : Env × NetEvent ι} {src : SockAddr} {n : UInt64}
    (h : (hubEvent e).Shows src n) :
    ∃ env wire f, e = (env, .receive wire src) ∧ wireFrame env.aead env.key wire = some f ∧
      f.sequence = n := by
  have hnone : readFrame (List.replicate tundHdrSize 0) = none := by decide
  obtain ⟨env₀, buf₀, f, heq, hread, hn⟩ := h
  obtain ⟨env, e⟩ := e
  cases e with
  | receive wire src' =>
    simp only [hubEvent] at heq
    cases hrecv : netRecv env.aead env.key wire with
    | none =>
      simp only [hrecv, ServerEvent.packet.injEq] at heq
      rw [← heq.2.1, hnone] at hread
      cases hread
    | some buf =>
      simp only [hrecv, ServerEvent.packet.injEq] at heq
      obtain ⟨-, rfl, rfl⟩ := heq
      exact ⟨env, wire, f, rfl, by rw [wireFrame, hrecv]; exact hread, hn⟩
  | sweep => cases heq
  | hubTun pkt => cases heq
  | hubShutdown => cases heq
  | _ =>
    simp only [hubEvent, ServerEvent.packet.injEq] at heq
    rw [← heq.2.1, hnone] at hread
    cases hread

/-- The server's windows stand for what was heard from the endpoints. -/
theorem NetRun.listens (r : NetRun ι aead key) (k : ℕ) :
    (r.state k).server.srv.Listens (NetRun.HeardFrom r k) := by
  induction k with
  | zero => rw [r.start.1]; exact listens_init
  | succ k ih =>
    have hmono : ∀ addr n, NetRun.HeardFrom r k addr n → NetRun.HeardFrom r (k + 1) addr n := by
      rintro addr n ⟨m, hm, h⟩
      exact ⟨m, by omega, h⟩
    rw [r.next, netStep_server]
    refine Server.Listens.serverStep (ih.mono hmono) _ fun src n hshows addr ha hp => ?_
    obtain ⟨env, wire, f, heq, hf, hn⟩ := hubEvent_shows hshows
    obtain ⟨haead, hkey, -⟩ := r.allowed k
    rw [heq] at haead hkey
    simp only at haead hkey
    rw [haead, hkey] at hf
    exact ⟨k, by omega, env, wire, src, f, heq, ha, hp, hf, hn⟩

/-- What an event is to a client. -/
def NetEvent.node : NetEvent ι → Option (ι × NodeEvent)
  | .register i => some (i, .register)
  | .arrive i arrival => some (i, .arrive arrival)
  | .keepalive i => some (i, .keepalive)
  | .tun i pkt => some (i, .tun pkt)
  | .shutdown i => some (i, .shutdown)
  | _ => none

theorem netStep_clients (w : World ι) (e : Env × NetEvent ι) (i : ι) :
    (netStep w e).clients i = w.clients i ∨
      ∃ ev, e.2.node = some (i, ev) ∧ (netStep w e).clients i = (w.clients i).step (e.1, ev) := by
  obtain ⟨env, e⟩ := e
  have hmove : ∀ (j : ι) (f : ClientNode → ClientNode) (ev : NodeEvent),
      f (w.clients j) = (w.clients j).step (env, ev) → e.node = some (j, ev) →
      (w.move j f).clients i = w.clients i ∨
        ∃ ev, e.node = some (i, ev) ∧ (w.move j f).clients i = (w.clients i).step (env, ev) := by
    intro j f ev hf hnode
    by_cases hj : i = j
    · subst hj
      exact .inr ⟨ev, hnode, by simp [World.move, hf]⟩
    · exact .inl (by simp [World.move, hj])
  cases e with
  | register j => exact hmove j _ .register rfl rfl
  | arrive j arrival => exact hmove j (fun c => c.arrive env arrival) (.arrive arrival) rfl rfl
  | keepalive j => exact hmove j _ .keepalive rfl rfl
  | tun j pkt => exact hmove j (fun c => c.tun env pkt) (.tun pkt) rfl rfl
  | shutdown j => exact hmove j _ .shutdown rfl rfl
  | _ => exact .inl rfl

theorem windowAfter_seenOnly {w : ReplayWindow} {H : UInt64 → Prop} (h : w.SeenOnly H) {wire : Bytes}
    (hH : ∀ f, wireFrame aead key wire = some f → H f.sequence) :
    (windowAfter aead key w wire).SeenOnly H := by
  rw [windowAfter]
  cases hf : (netRecv aead key wire).bind readFrame with
  | none => exact h
  | some f => exact h.shown (hH f hf)

/-- The window of a client stands for what it has heard from its server. -/
theorem NetRun.seenOnly (r : NetRun ι aead key) (k : ℕ) (i : ι) :
    ((r.state k).clients i).cli.serverReplay.SeenOnly (NetRun.HeardBy r k i) := by
  induction k with
  | zero =>
    obtain ⟨addr, serverAddr, name, hi⟩ := r.start.2 i
    rw [hi]
    exact ReplayWindow.seenOnly_reset
  | succ k ih =>
    have hmono : ∀ n, NetRun.HeardBy r k i n → NetRun.HeardBy r (k + 1) i n := by
      rintro n ⟨m, hm, h⟩
      exact ⟨m, by omega, h⟩
    obtain ⟨ha, hk, -⟩ := r.allowed k
    rw [r.next]
    rcases netStep_clients (r.state k) (r.event k) i with heq | ⟨ev, hnode, heq⟩ <;> rw [heq]
    · exact ih.mono hmono
    · rw [ClientNode.step_window ha hk]
      -- an event reads one datagram at most
      rcases ((r.state k).clients i).reads_cases ev with hnil | ⟨wire, hone⟩
      · rw [hnil]
        exact ih.mono hmono
      · rw [hone]
        refine windowAfter_seenOnly (ih.mono hmono) fun f hf => ?_
        have hmem : wire ∈ ((r.state k).clients i).reads ev := by rw [hone]; simp
        cases ev with
        | arrive arrival =>
          have hev : (r.event k).2 = .arrive i arrival := by
            cases he : (r.event k).2 with
            | _ => rw [he] at hnode; cases hnode <;> rfl
          exact ⟨k, by omega, (r.event k).1, arrival, wire, f, Prod.ext rfl hev, hmem, hf, rfl⟩
        | _ => cases hmem

end Runs

/-! ### From the TUN device of a client to the server -/

/-- A running client on a host where everything works sends what it reads from its TUN device, as
DATA and as one datagram. -/
theorem ClientNode.tun_out {env : Env} (hr : env.RandomWorks) (hs : env.SendWorks) {c : ClientNode}
    (hphase : c.phase = .running) {pkt : Bytes} (hp : pkt.length ≤ tundMaxPlaintext)
    (hvalid : protoValidateIpv4Packet pkt = none) :
    ∃ d : Datagram, (c.tun env pkt).io.out = c.io.out ++ [.datagram d] ∧ d.sent = true ∧
      d.dest = c.cli.serverAddr ∧ d.Carries env.aead env.key MsgType.data.code pkt := by
  have hpay : (Msg.data pkt).payload = pkt := dataPayload_of_le hp
  have hle : (Msg.data pkt).payload.length ≤ tundMaxPlaintext := by rw [hpay]; exact hp
  obtain ⟨d, hsent, hdest, hcar, hout⟩ := sendMsg_of_works hr c.io hle c.cli.serverAddr
  obtain ⟨-, -, -, io', -, -, hsend, -⟩ := sendMsg_numbered hr hs c.io hle c.cli.serverAddr
  rw [hsend] at hsent hout
  rw [hpay] at hcar
  refine ⟨d, ?_, hsent.symm, hdest, hcar⟩
  simp only [ClientNode.tun, hphase, clientTunPacket, hvalid, hsend]
  split_ifs <;> exact hout

/-! ### From the server to the others -/

/-- More has been put out, and `sendto` took every datagram of it. -/
def Proc.Sends (io io' : Proc) : Prop :=
  ∃ outs, io'.out = io.out ++ outs ∧ ∀ d, Out.datagram d ∈ outs → d.sent = true

theorem Proc.Sends.of_out_eq {io io' : Proc} (h : io'.out = io.out) : io.Sends io' :=
  ⟨[], by simpa using h, by simp⟩

theorem netSend_sends {env : Env} (hs : env.SendWorks) (io : Proc) (box : Outbox) (dest : SockAddr) :
    io.Sends (netSend env io box.buf box.len dest).2 := by
  unfold netSend
  cases box.len with
  | none => exact .of_out_eq rfl
  | some len =>
    dsimp only
    split_ifs
    · exact .of_out_eq rfl
    · exact .of_out_eq rfl
    · have hquiet := (protoEncrypt_out env io (box.buf.take len) len).1
      rcases he : protoEncrypt env io (box.buf.take len) len with ⟨_ | n, b, io₁⟩ <;>
        rw [he] at hquiet
      · exact .of_out_eq hquiet
      · refine ⟨[.datagram ⟨dest, box.buf.take len, b.take n, env.sendto io₁.calls⟩], ?_, ?_⟩
        · exact congrArg (· ++ _) hquiet
        · simp [hs io₁.calls]

theorem Act.exec_leaves {env : Env} (hs : env.SendWorks) (w : Work) (a : Act) :
    w.io.Sends (a.exec env w).io := by
  cases a with
  | build m => exact .of_out_eq (m.build_out env w.io w.box.buf).1
  | send dest => exact netSend_sends hs w.io w.box dest
  | probe box dest => exact netSend_sends hs w.io box dest
  | forward peer n =>
    have h := netSend_sends hs w.io w.box peer.realAddr
    simp only [Act.exec]
    rcases hsend : netSend env w.io w.box.buf w.box.len peer.realAddr with ⟨_ | _, io⟩ <;>
      rw [hsend] at h <;> exact h
  | tunWrite pkt => exact ⟨[.tunWrite pkt], rfl, by simp⟩
  | event e =>
    simp only [Act.exec, appEvent]
    split_ifs
    · exact ⟨[.event e], rfl, by simp⟩
    · exact .of_out_eq rfl

theorem runActs_leaves {env : Env} (hs : env.SendWorks) (acts : List Act) (w : Work) :
    w.io.Sends (runActs env w acts).io := by
  induction acts generalizing w with
  | nil => exact .of_out_eq rfl
  | cons a acts ih =>
    obtain ⟨outs₁, ho₁, h₁⟩ := a.exec_leaves hs w
    obtain ⟨outs₂, ho₂, h₂⟩ := ih (a.exec env w)
    refine ⟨outs₁ ++ outs₂, by rw [runActs_cons, ho₂, ho₁, List.append_assoc], fun d hd => ?_⟩
    exact (List.mem_append.1 hd).elim (h₁ d) (h₂ d)

/-- The server acts on DATA with a number that the window of the sender takes. -/
theorem serverHandlePacket_data {srv : Server} (hwf : srv.WellFormed) (env : Env) (io : Proc)
    {buf pkt : Bytes} {seq : UInt64} {src : SockAddr} {a : Slot}
    (hread : readFrame buf = some ⟨MsgType.data.code, pkt, seq⟩)
    (hat : (srv.peers a).isAt src = true)
    (hacc : (protoReplayAccept (srv.peers a).replay seq).1 = true)
    (hvalid : protoValidateIpv4Packet pkt = none)
    (hsrc : protoGetSrcIp pkt = (srv.peers a).virtIp) :
    ∃ srv', (∀ b, (srv.peers b).Refreshes (srv'.peers b)) ∧ srv'.WellFormed ∧
      serverHandlePacket env srv io buf src = finish env io (srv', dataActs srv' pkt a) := by
  have hfind := hwf.find_of_isAt hat
  set srv₁ := srv.setPeer a ((srv.peers a).shown seq) with hsrv₁
  have hshown : (srv.peers a).Refreshes ((srv.peers a).shown seq) := Peer.refreshes_shown hacc
  have hr₁ : ∀ b, (srv.peers b).Refreshes (srv₁.peers b) := setPeer_refreshes hshown
  have hwf₁ : srv₁.WellFormed := hwf.of_refreshes rfl hr₁
  have haccept : serverAcceptRegisteredSequence srv src seq = (true, srv₁) := by
    simp only [serverAcceptRegisteredSequence, hfind, hacc, hsrv₁, Peer.shown]
  have hdata : DataAccepted srv₁ pkt src a :=
    ⟨hvalid, hwf₁.find_of_isAt (((hr₁ a).isAt src).trans hat), hsrc.trans (hr₁ a).virtIp.symm⟩
  have hne : ¬ MsgType.data.code = MsgType.register.code := by decide
  refine ⟨srv₁.countIn a pkt.length, fun b => ?_, hwf₁.of_refreshes rfl (countIn_refreshes srv₁ a _), ?_⟩
  · have hb := countIn_peers srv₁ a b pkt.length
    rw [hb]
    exact ⟨(hr₁ b).active, (hr₁ b).virtIp, (hr₁ b).name, (hr₁ b).realAddr, (hr₁ b).replay⟩
  · simp only [serverHandlePacket, hread, ne_eq, hne, not_false_eq_true, if_true, haccept,
      serverDispatchLocked, MsgType.ofCode_code]
    rcases serverDataLocked_cases srv₁ pkt src with ⟨hno, -⟩ | ⟨b, hb, h⟩
    · exact absurd ⟨a, hdata⟩ hno
    · obtain rfl : b = a := Option.some.inj (hb.sender.symm.trans hdata.sender)
      rw [h]

/-- The entries that a packet is for, when the peer in slot `a` sends it. -/
def Server.IsTarget (srv : Server) (a : Slot) (pkt : Bytes) (b : Slot) : Prop :=
  (srv.peers b).active = true ∧
    (protoGetDstIp pkt = htonl tundBroadcast ∧ b ≠ a ∨ (srv.peers b).virtIp = protoGetDstIp pkt)

instance (srv : Server) (a : Slot) (pkt : Bytes) (b : Slot) : Decidable (srv.IsTarget a pkt b) :=
  inferInstanceAs (Decidable (_ ∧ _))

/-- The packet is for the host of the server: to it alone, or to all. -/
def ForHub (pkt : Bytes) : Prop :=
  protoGetDstIp pkt = htonl tundServerIp ∨ protoGetDstIp pkt = htonl tundBroadcast

instance (pkt : Bytes) : Decidable (ForHub pkt) :=
  inferInstanceAs (Decidable (_ ∨ _))

/-- Where the packet goes: to each target once, and to the TUN device if it is for the hub. -/
theorem dataActs_eq {srv : Server} (hwf : srv.WellFormed) (pkt : Bytes) (a : Slot) :
    ∃ targets : List Slot, targets.Nodup ∧ (∀ b, b ∈ targets ↔ srv.IsTarget a pkt b) ∧
      (dataActs srv pkt a = relayActs pkt (targets.map (serverSnapshotPeerLocked srv)) ++
          (if ForHub pkt then [.tunWrite pkt] else []) ∨
        targets = [] ∧ dataActs srv pkt a = if ForHub pkt then [.tunWrite pkt] else []) := by
  have hpool : ∀ b, (srv.peers b).active = true → (srv.peers b).virtIp ≠ htonl tundServerIp ∧
      (srv.peers b).virtIp ≠ htonl tundBroadcast := fun b hb =>
    ⟨(hwf.pool b hb).ne_reserved.1, (hwf.pool b hb).ne_reserved.2.2⟩
  have hne : htonl tundServerIp ≠ htonl tundBroadcast := fun h => absurd (htonl_injective h) (by decide)
  by_cases hhub : protoGetDstIp pkt = htonl tundServerIp
  · refine ⟨[], List.nodup_nil, fun b => ?_, .inr ⟨rfl, ?_⟩⟩
    · simp only [List.not_mem_nil, false_iff]
      rintro ⟨hb, ⟨hbc, -⟩ | hv⟩
      · exact hne (hhub.symm.trans hbc)
      · exact (hpool b hb).1 (hv.trans hhub)
    · rw [dataActs, if_pos hhub, if_pos (show ForHub pkt from .inl hhub)]
  by_cases hbc : protoGetDstIp pkt = htonl tundBroadcast
  · refine ⟨srv.activeExcept (some a), nodup_activeExcept _ _, fun b => ?_, .inl ?_⟩
    · rw [mem_activeExcept, ne_eq, Option.some_inj]
      constructor
      · rintro ⟨hb, hab⟩
        exact ⟨hb, .inl ⟨hbc, fun h => hab h.symm⟩⟩
      · rintro ⟨hb, ⟨-, hab⟩ | hv⟩
        · exact ⟨hb, fun h => hab h.symm⟩
        · exact absurd (hv.trans hbc) (hpool b hb).2
    · rw [dataActs, if_neg hhub, if_pos hbc, if_pos (show ForHub pkt from .inr hbc)]
      rfl
  · have hno : ¬ ForHub pkt := fun h => h.elim hhub hbc
    simp only [dataActs, if_neg hhub, if_neg hbc, if_neg hno, List.append_nil]
    cases hfind : serverFindPeerByVip srv (protoGetDstIp pkt) with
    | none =>
      refine ⟨[], List.nodup_nil, fun b => ?_, .inr ⟨rfl, ?_⟩⟩
      · simp only [List.not_mem_nil, false_iff]
        rintro ⟨hb, ⟨h, -⟩ | hv⟩
        · exact hbc h
        · rw [hwf.findVip_of_holds (Peer.holds_iff.2 ⟨hb, hv⟩)] at hfind
          cases hfind
      · rw [serverSnapshotPeerByVipLocked, hfind]
        rfl
    | some b =>
      have hb := Peer.holds_iff.1 (SlotTable.of_first_eq_some
        (p := fun j => (srv.peers j).holds (protoGetDstIp pkt)) hfind)
      refine ⟨[b], List.nodup_singleton b, fun b' => ?_, .inl ?_⟩
      · rw [List.mem_singleton]
        constructor
        · rintro rfl
          exact ⟨hb.1, .inr hb.2⟩
        · rintro ⟨hb', ⟨h, -⟩ | hv⟩
          · exact absurd h hbc
          · exact hwf.virtIp_inj b' b hb' hb.1 (hv.trans hb.2.symm)
      · rw [serverSnapshotPeerByVipLocked, hfind]
        rfl

/-- The server's part on a host where everything works: one DATA datagram for each target, in
order, and the TUN write if the packet is for the hub. -/
theorem serverHandlePacket_relays {srv : Server} (hwf : srv.WellFormed) {env : Env}
    (hr : env.RandomWorks) (hs : env.SendWorks) (io : Proc) {buf pkt : Bytes} {seq : UInt64}
    {src : SockAddr} {a : Slot} (hread : readFrame buf = some ⟨MsgType.data.code, pkt, seq⟩)
    (hat : (srv.peers a).isAt src = true)
    (hacc : (protoReplayAccept (srv.peers a).replay seq).1 = true)
    (hvalid : protoValidateIpv4Packet pkt = none) (hp : pkt.length ≤ tundMaxPlaintext)
    (hsrc : protoGetSrcIp pkt = (srv.peers a).virtIp) :
    ∃ (targets : List Slot) (got : Slot → Datagram), targets.Nodup ∧
      (∀ b, b ∈ targets ↔ srv.IsTarget a pkt b) ∧
      (serverHandlePacket env srv io buf src).2.out = io.out ++
        (targets.map fun b => .datagram (got b)) ++ (if ForHub pkt then [.tunWrite pkt] else []) ∧
      ∀ b ∈ targets, (got b).dest = (srv.peers b).realAddr ∧
        (got b).Carries env.aead env.key MsgType.data.code pkt ∧ (got b).sent = true := by
  obtain ⟨srv', href, hwf', heq⟩ :=
    serverHandlePacket_data hwf env io hread hat hacc hvalid hsrc
  obtain ⟨targets, hnodup, hmem, hacts⟩ := dataActs_eq hwf' pkt a
  have htargets : ∀ b, b ∈ targets ↔ srv.IsTarget a pkt b := by
    intro b
    rw [hmem, Server.IsTarget, Server.IsTarget, (href b).active, (href b).virtIp]
  rw [heq]
  rcases hacts with hacts | ⟨rfl, hacts⟩
  · have hactive : ∀ b ∈ targets, (srv'.peers b).active = true := fun b hb => ((hmem b).1 hb).1
    have hin : ∀ j, srv'.peers j = { srv'.peers j with
        bytesIn := if none = some j then (srv'.peers j).bytesIn + UInt64.ofNat pkt.length
          else (srv'.peers j).bytesIn } := fun j => by simp
    obtain ⟨got, hgot, hout, -⟩ :=
      relayed_finish io rfl hin hr hp hnodup hactive (decide (ForHub pkt))
    simp only [decide_eq_true_eq] at hout
    rw [← hacts] at hout
    obtain ⟨outs, houts, hsent⟩ := runActs_leaves hs (dataActs srv' pkt a) ⟨srv', io, .fresh⟩
    replace houts : (finish env io (srv', dataActs srv' pkt a)).2.out = io.out ++ outs := houts
    have heq : outs = (targets.map fun b => .datagram (got b)) ++
        (if ForHub pkt then [.tunWrite pkt] else []) := by
      rw [hout, List.append_assoc] at houts
      exact (List.append_cancel_left houts).symm
    refine ⟨targets, got, hnodup, htargets, hout, fun b hb => ?_⟩
    obtain ⟨hdest, hcar⟩ := hgot b hb
    refine ⟨hdest.trans (href b).realAddr, hcar, hsent _ ?_⟩
    rw [heq]
    exact List.mem_append_left _ (List.mem_map_of_mem hb)
  · refine ⟨[], fun _ => ⟨⟨0, 0, 0⟩, [], [], false⟩, List.nodup_nil, htargets, ?_, by simp⟩
    rw [hacts]
    by_cases hfor : ForHub pkt
    · simp [hfor, finish, Act.exec, Tund.tunWrite]
    · simp [hfor, finish]

/-! ### The three hops in a run -/

section Runs

variable [DecidableEq ι]

namespace NetRun

/-- With the `k`-th event a running client on a host where everything works reads a packet from its
TUN device. -/
structure ReadsTun (r : NetRun ι aead key) (k : ℕ) (i : ι) (pkt : Bytes) : Prop where
  event : ∃ env, r.event k = (env, .tun i pkt) ∧ env.RandomWorks ∧ env.SendWorks
  running : ((r.state k).clients i).phase = .running

/-- With the `k`-th event a datagram reaches the server from the endpoint of the entry in slot `a`,
and is not late. -/
structure Reaches (r : NetRun ι aead key) (k : ℕ) (wire : Bytes) (src : SockAddr) (a : Slot) :
    Prop where
  event : ∃ env, r.event k = (env, .receive wire src) ∧ env.RandomWorks ∧ env.SendWorks
  entry : ((r.state k).server.srv.peers a).isAt src = true
  timely : Timely aead key (NetRun.HeardFrom r k src) wire

/-- With the `k`-th event a datagram reaches a running client from the address of its server, and is
not late. -/
structure Arrives (r : NetRun ι aead key) (k : ℕ) (wire : Bytes) (j : ι) : Prop where
  event : ∃ env, r.event k = (env, .arrive j (.datagram wire ((r.state k).clients j).cli.serverAddr))
  phase : ((r.state k).clients j).phase = .running
  running : ((r.state k).clients j).io.running = true
  timely : Timely aead key (NetRun.HeardBy r k j) wire

variable {r : NetRun ι aead key} {k : ℕ} {d : Datagram} {pkt : Bytes}

theorem ReadsTun.sends {i : ι} (h : NetRun.ReadsTun r k i pkt)
    (hvalid : protoValidateIpv4Packet pkt = none) (hp : pkt.length ≤ tundMaxPlaintext) :
    ∃ d, (r.state (k + 1)).out (.client i) = (r.state k).out (.client i) ++ [.datagram d] ∧
      d.sent = true ∧ d.dest = ((r.state k).clients i).cli.serverAddr ∧
      d.Carries aead key MsgType.data.code pkt := by
  obtain ⟨env, hev, hr, hs⟩ := h.event
  obtain ⟨ha, hk, -⟩ := hev ▸ r.allowed k
  obtain ⟨d, hout, hsent, hdest, hcar⟩ := ClientNode.tun_out hr hs h.running hp hvalid
  rw [ha, hk] at hcar
  refine ⟨d, ?_, hsent, hdest, hcar⟩
  rw [r.next, hev]
  simpa [Tund.netStep, World.move, World.out] using hout

/-- The server handles what reaches it. -/
theorem Reaches.handled {src : SockAddr} {a : Slot} {type : UInt8} {payload : Bytes}
    (h : NetRun.Reaches r k d.wire src a) (hcar : d.Carries aead key type payload) :
    ∃ env buf seq, env.aead = aead ∧ env.key = key ∧ env.RandomWorks ∧ env.SendWorks ∧
      readFrame buf = some ⟨type, payload, seq⟩ ∧
      (protoReplayAccept ((r.state k).server.srv.peers a).replay seq).1 = true ∧
      (r.state (k + 1)).server.srv =
        (serverHandlePacket env (r.state k).server.srv (r.state k).server.io buf src).1 ∧
      (r.state (k + 1)).server.io =
        (serverHandlePacket env (r.state k).server.srv (r.state k).server.io buf src).2 := by
  obtain ⟨env, hev, hr, hs⟩ := h.event
  obtain ⟨ha, hk, -⟩ := hev ▸ r.allowed k
  simp only at ha hk
  obtain ⟨buf, seq, hrecv, hread, hframe⟩ := hcar.wireFrame
  -- the window stands for what was heard from the endpoint, so it takes the number
  obtain ⟨hact, haddr, hport⟩ := Peer.isAt_iff.1 h.entry
  have hseen : ((r.state k).server.srv.peers a).replay.SeenOnly (NetRun.HeardFrom r k src) := by
    refine (NetRun.listens r k a hact).mono fun n ⟨m, hm, e, wire, src', f, he, ha', hp', hf⟩ => ?_
    exact ⟨m, hm, e, wire, src', f, he, haddr ▸ ha', hport ▸ hp', hf⟩
  have hacc := hseen.accepts (readFrame_sequence hread) fun n hn => h.timely _ hframe n hn
  have hstep : (r.state (k + 1)).server = serverReceive env (r.state k).server d.wire src := by
    rw [r.next, hev]
    rfl
  simp only [serverReceive, ha, hk, hrecv] at hstep
  exact ⟨env, buf, seq, ha, hk, hr, hs, hread, hacc, congrArg ServerState.srv hstep,
    congrArg ServerState.io hstep⟩

theorem Reaches.relays {src : SockAddr} {a : Slot} (h : NetRun.Reaches r k d.wire src a)
    (hcar : d.Carries aead key MsgType.data.code pkt) (hvalid : protoValidateIpv4Packet pkt = none)
    (hp : pkt.length ≤ tundMaxPlaintext)
    (hsrc : protoGetSrcIp pkt = ((r.state k).server.srv.peers a).virtIp) :
    ∃ (targets : List Slot) (got : Slot → Datagram), targets.Nodup ∧
      (∀ b, b ∈ targets ↔ (r.state k).server.srv.IsTarget a pkt b) ∧
      (r.state (k + 1)).out .server = (r.state k).out .server ++
        (targets.map fun b => .datagram (got b)) ++ (if ForHub pkt then [.tunWrite pkt] else []) ∧
      ∀ b ∈ targets, (got b).dest = ((r.state k).server.srv.peers b).realAddr ∧
        (got b).Carries aead key MsgType.data.code pkt ∧ (got b).sent = true := by
  obtain ⟨env, buf, seq, ha, hk, hr, hs, hread, hacc, -, hio⟩ := h.handled hcar
  have hwf : (r.state k).server.srv.WellFormed :=
    ServerReachable.wellFormed ((NetRun.hub r).reachable k)
  obtain ⟨targets, got, hnodup, hmem, hout, hgot⟩ := serverHandlePacket_relays hwf hr hs
    (r.state k).server.io hread h.entry hacc hvalid hp hsrc
  rw [ha, hk] at hgot
  refine ⟨targets, got, hnodup, hmem, ?_, hgot⟩
  simp only [World.out, hio, hout]

/-- A client acts on what arrives. -/
theorem Arrives.handled {j : ι} {type : UInt8} {payload : Bytes} (h : NetRun.Arrives r k d.wire j)
    (hcar : d.Carries aead key type payload) :
    ∃ env seq replay,
      protoReplayAccept ((r.state k).clients j).cli.serverReplay seq = (true, replay) ∧
      (r.state (k + 1)).clients j =
        let c := (r.state k).clients j
        let r := clientDispatch env
          (clientMarkServerSeen env { c.cli with serverReplay := replay }) c.io ⟨type, payload, seq⟩
        { c with cli := r.1, io := r.2 } := by
  obtain ⟨env, hev⟩ := h.event
  obtain ⟨ha, hk, -⟩ := hev ▸ r.allowed k
  simp only at ha hk
  obtain ⟨buf, seq, hrecv, hread, hframe⟩ := hcar.wireFrame
  have hacc := (NetRun.seenOnly r k j).accepts (readFrame_sequence hread)
    fun n hn => h.timely _ hframe n hn
  obtain ⟨replay, hreplay⟩ : ∃ replay,
      protoReplayAccept ((r.state k).clients j).cli.serverReplay seq = (true, replay) :=
    ⟨_, Prod.ext hacc rfl⟩
  have haddr : netAddrEqual ((r.state k).clients j).cli.serverAddr
      ((r.state k).clients j).cli.serverAddr = true := netAddrEqual_iff.2 rfl
  refine ⟨env, seq, replay, hreplay, ?_⟩
  rw [r.next, hev]
  simp only [Tund.netStep, World.move, Function.update_self, ClientNode.arrive, h.phase, h.running,
    if_true, clientReceive, ha, hk, hrecv, haddr, clientHandleServerPacket, hread, hreplay]

theorem Arrives.writes {j : ι} (h : NetRun.Arrives r k d.wire j)
    (hcar : d.Carries aead key MsgType.data.code pkt) (hvalid : protoValidateIpv4Packet pkt = none) :
    (r.state (k + 1)).out (.client j) = (r.state k).out (.client j) ++ [.tunWrite pkt] := by
  obtain ⟨env, seq, replay, -, hnext⟩ := h.handled hcar
  simp only [World.out, hnext, clientDispatch, MsgType.ofCode_code, clientHandleData, hvalid,
    tunWrite]

end NetRun

/-- **A packet gets through.**  When a running client reads a valid packet from its TUN device, it
sends one datagram to its server.  When that datagram reaches the server in time from an endpoint
whose entry holds the source address of the packet, the server sends one datagram to the holder of
the destination, to everyone else for a broadcast and to nobody but these, and writes the packet to
its own TUN device if it is for the hub.  When such a datagram reaches a running client in time, the
client writes this packet to its TUN device, and nothing else. -/
theorem packet_gets_through (r : NetRun ι aead key) (k₁ : ℕ) (i : ι) (pkt : Bytes)
    (hread : NetRun.ReadsTun r k₁ i pkt) (hvalid : protoValidateIpv4Packet pkt = none)
    (hp : pkt.length ≤ tundMaxPlaintext) :
    ∃ d, (r.state (k₁ + 1)).out (.client i) = (r.state k₁).out (.client i) ++ [.datagram d] ∧
      d.sent = true ∧ d.dest = ((r.state k₁).clients i).cli.serverAddr ∧
      ∀ k₂ src a, NetRun.Reaches r k₂ d.wire src a →
        protoGetSrcIp pkt = ((r.state k₂).server.srv.peers a).virtIp →
        ∃ (targets : List Slot) (got : Slot → Datagram), targets.Nodup ∧
          (∀ b, b ∈ targets ↔ (r.state k₂).server.srv.IsTarget a pkt b) ∧
          (r.state (k₂ + 1)).out .server = (r.state k₂).out .server ++
            (targets.map fun b => .datagram (got b)) ++
              (if ForHub pkt then [.tunWrite pkt] else []) ∧
          ∀ b ∈ targets, (got b).sent = true ∧
            (got b).dest = ((r.state k₂).server.srv.peers b).realAddr ∧
            ∀ k₃ j, NetRun.Arrives r k₃ (got b).wire j →
              (r.state (k₃ + 1)).out (.client j) = (r.state k₃).out (.client j) ++
                [.tunWrite pkt] := by
  obtain ⟨d, hout, hsent, hdest, hcar⟩ := hread.sends hvalid hp
  refine ⟨d, hout, hsent, hdest, fun k₂ src a hreach hsrc => ?_⟩
  obtain ⟨targets, got, hnodup, hmem, hrelay, hgot⟩ := hreach.relays hcar hvalid hp hsrc
  refine ⟨targets, got, hnodup, hmem, hrelay, fun b hb => ?_⟩
  obtain ⟨hdest', hcar', hsent'⟩ := hgot b hb
  exact ⟨hsent', hdest', fun k₃ j harr => harr.writes hcar' hvalid⟩

end Runs

/-! ### A packet from one client to another -/

/-- The address of a client's socket. -/
def pairAddr : Bool → SockAddr
  | false => busyPeer
  | true => busyOther

def pairName : Bool → Bytes
  | false => [97]
  | true => [98]

/-- Two clients that have just started, and their server. -/
def pairWorld : World Bool :=
  ⟨⟨serverInit, Proc.start⟩, fun i => .start (pairAddr i) busyServer (pairName i)⟩

theorem pairWorld_init : NetInit pairWorld := ⟨rfl, fun _ => ⟨_, _, _, rfl⟩⟩

/-- A packet from the first client to the second one. -/
def pairPkt : Bytes := [0x45, 0, 0, 20, 0, 0, 0, 0, 64, 17, 0, 0, 10, 9, 0, 2, 10, 9, 0, 3]

/-- The first number that each of the processes draws. -/
def pairSeq : UInt64 := 506097522914230528

theorem eq_pairSeq {seq : UInt64} (h : NextNumber busyHost Proc.start seq) : seq = pairSeq :=
  Option.some.inj (h.draw.symm.trans (by decide +kernel))

/-- The REGISTER of each client, and the DATA of the first one. -/
def pairPackets : List ServerEvent :=
  let frame (type : MsgType) (n : UInt64) (payload : Bytes) : Bytes :=
    frameBytes type.code (pairSeq + n) (List.replicate tundNonceSize 0) payload
  let register (i : Bool) : ServerEvent :=
    .packet busyHost
      (frame .register 1 (Msg.register (clientInit busyServer (pairName i)).name.1).payload)
      (pairAddr i)
  [register false, register true, .packet busyHost (frame .data 3 pairPkt) busyPeer]

def pairHub (n : ℕ) : ServerState := (pairPackets.take n).foldl serverStep ⟨serverInit, Proc.start⟩

theorem pairHub_reachable (n : ℕ) : HubReachable monocypher plainKey (pairHub n) := by
  have hall : ∀ e ∈ pairPackets, ∀ s,
      serverOk s e ∧ e.env.aead = monocypher ∧ e.env.key = plainKey := by
    intro e he s
    simp only [pairPackets, List.mem_cons, List.not_mem_nil, or_false] at he
    rcases he with rfl | rfl | rfl <;> exact ⟨by simp only [serverOk]; decide, rfl, rfl⟩
  have hstart : HubReachable monocypher plainKey ⟨serverInit, Proc.start⟩ := .start rfl
  exact Trace.Reachable.foldl hstart _
    (.of_forall (fun e he => hall e (List.mem_of_mem_take he)) _)

/-- The first datagrams of the server: where they go, their type bytes and their numbers. -/
theorem pairHub_datagrams :
    (datagramsOf (pairHub 2).io.out).map
        (fun d => (d.dest, d.sent, d.wire.getD 2 0, protoReadSequence d.wire)) =
      [(busyPeer, true, MsgType.assign.code, some (pairSeq + 1)),
        (busyPeer, true, MsgType.peerList.code, some (pairSeq + 3)),
        (busyOther, true, MsgType.assign.code, some (pairSeq + 6)),
        (busyOther, true, MsgType.peerList.code, some (pairSeq + 8)),
        (busyPeer, true, MsgType.peerJoin.code, some (pairSeq + 10))] := by
  decide +kernel

theorem pairHub_relayed :
    (datagramsOf (pairHub 3).io.out).getLast?.map (fun d => protoReadSequence d.wire) =
      some (some (pairSeq + 12)) := by
  decide +kernel

/-- The entries of the two clients. -/
theorem pairHub_entries : ((pairHub 2).srv.peers 0).isAt busyPeer = true ∧
    ((pairHub 2).srv.peers 0).virtIp = protoGetSrcIp pairPkt ∧
    (protoReplayAccept ((pairHub 2).srv.peers 0).replay (pairSeq + 3)).1 = true ∧
    ∀ b, (pairHub 2).srv.IsTarget 0 pairPkt b ↔ b = 1 := by
  decide +kernel

/-- ASSIGN for each of the clients. -/
theorem pairHub_assigns : ∃ assign : Bool → Datagram, ∀ i,
    Out.datagram (assign i) ∈ (pairHub 2).io.out ∧ (assign i).sent = true ∧
      protoReadSequence (assign i).wire = some (pairSeq + if i then 6 else 1) ∧
      ∃ vip netmask mtu, (assign i).Carries monocypher plainKey MsgType.assign.code
        (Msg.assign vip netmask mtu).payload := by
  have hds := pairHub_datagrams
  have hcar : ∀ d ∈ datagramsOf (pairHub 2).io.out, ∀ t : MsgType, d.wire.getD 2 0 = t.code →
      ∃ m : Msg, m.type = t ∧ d.Carries monocypher plainKey m.type.code m.payload :=
    fun d hd t => (pairHub_reachable 2).carries_of_type hd
  have hmem : ∀ d ∈ datagramsOf (pairHub 2).io.out, Out.datagram d ∈ (pairHub 2).io.out :=
    fun d => mem_datagramsOf.1
  generalize datagramsOf (pairHub 2).io.out = ds at hds hcar hmem
  obtain ⟨d0, t0, rfl, h0, ht0⟩ := List.map_eq_cons_iff.1 hds
  obtain ⟨d1, t1, rfl, -, ht1⟩ := List.map_eq_cons_iff.1 ht0
  obtain ⟨d2, t2, rfl, h2, -⟩ := List.map_eq_cons_iff.1 ht1
  simp only [Prod.mk.injEq] at h0 h2
  have hassign : ∀ d ∈ d0 :: d1 :: d2 :: t2, d.wire.getD 2 0 = MsgType.assign.code →
      ∃ vip netmask mtu, d.Carries monocypher plainKey MsgType.assign.code
        (Msg.assign vip netmask mtu).payload := by
    intro d hd ht
    obtain ⟨m, hm, hc⟩ := hcar d hd .assign ht
    cases m <;> cases hm
    exact ⟨_, _, _, hc⟩
  refine ⟨fun i => if i then d2 else d0, fun i => ?_⟩
  cases i
  · exact ⟨hmem d0 (by simp), h0.2.1, h0.2.2.2, hassign d0 (by simp) h0.2.2.1⟩
  · exact ⟨hmem d2 (by simp), h2.2.1, h2.2.2.2, hassign d2 (by simp) h2.2.2.1⟩

/-- A run from the two clients' start. -/
def PairLeads (events : List (Env × NetEvent Bool)) (w : World Bool) : Prop :=
  Trace.Leads netStep (netOk monocypher plainKey) pairWorld events w

theorem PairLeads.concat {events : List (Env × NetEvent Bool)} {w : World Bool}
    (h : PairLeads events w) (e : NetEvent Bool) {v : World Bool}
    (he : netOk monocypher plainKey w (busyHost, e)) (hw : netStep w (busyHost, e) = v) :
    PairLeads (events ++ [(busyHost, e)]) v :=
  Trace.Leads.concat h he hw

theorem PairLeads.deliverable {events : List (Env × NetEvent Bool)} {w : World Bool}
    (h : PairLeads events w) {p : Party Bool} {d : Datagram} (hsent : w.Sent p d) :
    w.Deliverable monocypher plainKey d.wire :=
  (NetReachable.sound (Trace.Leads.reachable h pairWorld_init)).deliverable hsent

theorem World.move_both {hub : ServerState} {c c' : Bool → ClientNode} {f g : ClientNode → ClientNode}
    (hf : f (c false) = c' false) (hg : g (c true) = c' true) :
    ((⟨hub, c⟩ : World Bool).move false f).move true g = ⟨hub, c'⟩ := by
  refine congrArg (World.mk hub) (funext fun i => ?_)
  cases i <;> simp [World.move, hf, hg]

/-- Both clients wait for an answer, and the server has an entry for each. -/
def pairWaiting (io : Bool → Proc) : World Bool :=
  ⟨pairHub 2, fun i => ⟨pairAddr i, clientInit busyServer (pairName i), io i, .await 2⟩⟩

/-- The REGISTER of each client has left and has reached the server. -/
structure PairRegistered (d : Bool → Datagram) (io : Bool → Proc) : Prop where
  leads : PairLeads [(busyHost, .register false), (busyHost, .register true),
    (busyHost, .receive (d false).wire busyPeer), (busyHost, .receive (d true).wire busyOther)]
    (pairWaiting io)
  running : ∀ i, (io i).running = true
  counter : ∀ i, (io i).nextSequence = pairSeq + 2
  number : ∀ i f, wireFrame monocypher plainKey (d i).wire = some f → f.sequence = pairSeq + 1

theorem exists_pairRegistered : ∃ d io, PairRegistered d io := by
  have hr : busyHost.RandomWorks := Env.plain_randomWorks 100 5
  have hs : busyHost.SendWorks := Env.plain_sendWorks 100 5
  have hstart := fun i => ClientNode.start_register hr hs (pairAddr i) busyServer (pairName i)
  choose seq nonce d io hseq hn hreg hout hrun hnext hsent hwire using hstart
  have hlen : ∀ i, (Msg.register (clientInit busyServer (pairName i)).name.1).payload.length ≤
      tundMaxPlaintext := fun i => Msg.length_payload_le (by simp [Msg.type])
  have hone : pairSeq + 1 ≠ 0 := by decide
  -- both leave
  have h₁ : PairLeads [(busyHost, .register false)]
      (pairWorld.move false (ClientNode.register busyHost)) :=
    PairLeads.concat (.nil _) (.register false) ⟨rfl, rfl, trivial⟩ rfl
  have h₂ := h₁.concat (.register true)
    (v := ⟨⟨serverInit, Proc.start⟩, (pairWaiting io).clients⟩) ⟨rfl, rfl, trivial⟩
    (World.move_both (hreg false) (hreg true))
  have hout₂ : ∀ i hub, World.Sent (⟨hub, (pairWaiting io).clients⟩ : World Bool) (.client i) (d i) :=
    fun i hub => ⟨by simp [World.out, pairWaiting, hout i], hsent i⟩
  -- the server gets both
  have hreceive : ∀ i s, serverReceive busyHost s (d i).wire (pairAddr i) = serverStep s
      (.packet busyHost (frameBytes MsgType.register.code (pairSeq + 1)
        (List.replicate tundNonceSize 0)
        (Msg.register (clientInit busyServer (pairName i)).name.1).payload) (pairAddr i)) := by
    intro i s
    rw [hwire i, eq_pairSeq (hseq i)]
    exact serverReceive_wireBytes s hone (hn i) (hlen i) (pairAddr i)
  have h₃ := h₂.concat (.receive (d false).wire busyPeer)
    (v := ⟨pairHub 1, (pairWaiting io).clients⟩) ⟨rfl, rfl, h₂.deliverable (hout₂ false _)⟩
    (congrArg (World.mk · _) (hreceive false _))
  have h₄ := h₃.concat (.receive (d true).wire busyOther) (v := pairWaiting io)
    ⟨rfl, rfl, h₃.deliverable (hout₂ true _)⟩ (congrArg (World.mk · _) (hreceive true _))
  refine ⟨d, io, h₄, hrun, fun i => ?_, fun i f hf => ?_⟩
  · rw [hnext, eq_pairSeq (hseq i), UInt64.add_assoc]
    rfl
  · rw [hwire i, eq_pairSeq (hseq i)] at hf
    rw [← Option.some.inj ((wireFrame_wireBytes hone (hn i) (hlen i)).symm.trans hf)]

/-- Both clients run, and the server has an entry for each. -/
structure PairRunning (events : List (Env × NetEvent Bool)) (w : World Bool) : Prop where
  leads : PairLeads events w
  length : events.length = 6
  server : w.server = pairHub 2
  phase : ∀ i, (w.clients i).phase = .running
  running : ∀ i, (w.clients i).io.running = true
  serverAddr : ∀ i, (w.clients i).cli.serverAddr = busyServer
  counter : (w.clients false).io.nextSequence = pairSeq + 2
  fromFirst : ∀ env wire src f, (env, .receive wire src) ∈ events →
    busyPeer.sinAddr = src.sinAddr → busyPeer.sinPort = src.sinPort →
    wireFrame monocypher plainKey wire = some f → f.sequence = pairSeq + 1
  toSecond : ∀ env wire src f, (env, .arrive true (.datagram wire src)) ∈ events →
    wireFrame monocypher plainKey wire = some f → f.sequence = pairSeq + 6

/-- ASSIGN gets to both clients. -/
theorem PairRegistered.runs {d : Bool → Datagram} {io : Bool → Proc} (h : PairRegistered d io) :
    ∃ events w, PairRunning events w := by
  obtain ⟨assign, hassign⟩ := pairHub_assigns
  have harrive : ∀ i, ∃ cli : Client, cli.serverAddr = busyServer ∧
      ((pairWaiting io).clients i).arrive busyHost (.datagram (assign i).wire busyServer) =
        ⟨pairAddr i, cli, io i, .running⟩ := by
    intro i
    obtain ⟨-, -, -, vip, netmask, mtu, hcar⟩ := hassign i
    exact ClientNode.await_assign busyHost _ _ _ _ _ hcar
  choose cli haddr harrive using harrive
  have hsent : ∀ i clients, World.Sent (⟨pairHub 2, clients⟩ : World Bool) .server (assign i) :=
    fun i clients => ⟨(hassign i).1, (hassign i).2.1⟩
  have h₅ := h.leads.concat (.arrive false (.datagram (assign false).wire busyServer))
    ⟨rfl, rfl, h.leads.deliverable (hsent false _)⟩ rfl
  have h₆ := h₅.concat (.arrive true (.datagram (assign true).wire busyServer))
    (v := ⟨pairHub 2, fun i => ⟨pairAddr i, cli i, io i, .running⟩⟩)
    ⟨rfl, rfl, h₅.deliverable (hsent true _)⟩
    (World.move_both (f := fun c => c.arrive _ _) (g := fun c => c.arrive _ _) (harrive false)
      (harrive true))
  have hother : ¬ busyPeer.sinPort = busyOther.sinPort := by decide
  refine ⟨_, _, h₆, rfl, rfl, fun _ => rfl, h.running, haddr, h.counter false, ?_, ?_⟩
  · intro env wire src f hmem ha hp hf
    simp only [List.cons_append, List.nil_append, List.mem_cons, Prod.mk.injEq, reduceCtorEq,
      and_false, NetEvent.receive.injEq, List.not_mem_nil, or_self, or_false, false_or] at hmem
    rcases hmem with ⟨-, rfl, rfl⟩ | ⟨-, rfl, rfl⟩
    · exact h.number false f hf
    · exact absurd hp hother
  · intro env wire src f hmem hf
    simp only [List.cons_append, List.nil_append, List.mem_cons, Prod.mk.injEq, reduceCtorEq,
      and_false, NetEvent.arrive.injEq, Bool.true_eq_false, Arrival.datagram.injEq, false_and,
      true_and, List.not_mem_nil, or_false, false_or] at hmem
    obtain ⟨-, rfl, rfl⟩ := hmem
    obtain ⟨-, -, hshows, vip, netmask, mtu, hcar⟩ := hassign true
    rw [hcar.wireFrame_of_shows hshows] at hf
    rw [← Option.some.inj hf]
    rfl

/-- The server relays the DATA to the second client. -/
theorem pairHub_relays : ∃ g : Datagram,
    (pairHub 3).io.out = (pairHub 2).io.out ++ [.datagram g] ∧ g.sent = true ∧
      g.Carries monocypher plainKey MsgType.data.code pairPkt ∧
      protoReadSequence g.wire = some (pairSeq + 12) := by
  have hr : busyHost.RandomWorks := Env.plain_randomWorks 100 5
  have hs : busyHost.SendWorks := Env.plain_sendWorks 100 5
  have hthree : pairSeq + 3 ≠ 0 := by decide
  have hp : pairPkt.length ≤ tundMaxPlaintext := by decide
  have hread : readFrame (frameBytes MsgType.data.code (pairSeq + 3)
      (List.replicate tundNonceSize 0) pairPkt) = some ⟨MsgType.data.code, pairPkt, pairSeq + 3⟩ :=
    readFrame_frameBytes hthree (by simp) hp
  have hwf : (pairHub 2).srv.WellFormed :=
    ServerReachable.wellFormed (pairHub_reachable 2).serverReachable
  obtain ⟨hat, hvip, hacc, htarget⟩ := pairHub_entries
  obtain ⟨targets, got, hnodup, hmem, hout, hgot⟩ := serverHandlePacket_relays hwf hr hs
    (pairHub 2).io hread hat hacc (by decide +kernel) hp hvip.symm
  have hone : targets = [1] := by
    refine List.perm_singleton.1 ((List.perm_ext_iff_of_nodup hnodup (List.nodup_singleton 1)).2 ?_)
    intro b
    rw [hmem, List.mem_singleton]
    exact htarget b
  subst hone
  obtain ⟨-, hcar, hsent⟩ := hgot 1 (by simp)
  have hfor : ¬ ForHub pairPkt := by decide +kernel
  have hout₃ : (pairHub 3).io.out = (pairHub 2).io.out ++ [.datagram (got 1)] := by
    rw [if_neg hfor, List.append_nil] at hout
    exact hout
  have hlast := pairHub_relayed
  rw [hout₃, datagramsOf_append] at hlast
  refine ⟨got 1, hout₃, hsent, hcar, ?_⟩
  simpa [datagramsOf] using hlast

/-- The packet goes out, to the server and to the second client. -/
structure PairPassed (events : List (Env × NetEvent Bool)) (w w₇ : World Bool) (d g : Datagram) :
    Prop where
  server : w₇.server = w.server
  second : w₇.clients true = w.clients true
  out : w₇.out (.client false) = w.out (.client false) ++ [.datagram d]
  relayed : (pairHub 3).io.out = (pairHub 2).io.out ++ [.datagram g]
  frame : wireFrame monocypher plainKey d.wire =
    some ⟨MsgType.data.code, pairPkt, pairSeq + 3⟩
  relayedFrame : wireFrame monocypher plainKey g.wire =
    some ⟨MsgType.data.code, pairPkt, pairSeq + 12⟩
  sends : PairLeads (events ++ [(busyHost, .tun false pairPkt)]) w₇
  relays : PairLeads (events ++ [(busyHost, .tun false pairPkt)] ++
    [(busyHost, .receive d.wire busyPeer)]) ⟨pairHub 3, w₇.clients⟩
  writes : PairLeads (events ++ [(busyHost, .tun false pairPkt)] ++
    [(busyHost, .receive d.wire busyPeer)] ++
    [(busyHost, .arrive true (.datagram g.wire busyServer))])
    (netStep ⟨pairHub 3, w₇.clients⟩ (busyHost, .arrive true (.datagram g.wire busyServer)))

theorem PairRunning.passes {events : List (Env × NetEvent Bool)} {w : World Bool}
    (h : PairRunning events w) : ∃ w₇ d g, PairPassed events w w₇ d g := by
  have hr : busyHost.RandomWorks := Env.plain_randomWorks 100 5
  have hs : busyHost.SendWorks := Env.plain_sendWorks 100 5
  have hp : pairPkt.length ≤ tundMaxPlaintext := by decide
  have hthree : pairSeq + 3 ≠ 0 := by decide
  -- the packet leaves the first client
  obtain ⟨-, -, -, seq, nonce, d, hseq, hn, hout, hsent, hw⟩ :=
    ClientNode.tun_sends hr hs (h.phase false) hp (by decide +kernel)
  obtain rfl : seq = pairSeq + 2 := by
    rw [hseq.of_ne_zero (by rw [h.counter]; decide), h.counter]
  replace hw := hw hthree
  set w₇ := w.move false fun c => c.tun busyHost pairPkt with hw₇
  have hserver : w₇.server = w.server := rfl
  have hout₇ : w₇.out (.client false) = w.out (.client false) ++ [.datagram d] := by
    simpa [hw₇, World.move, World.out] using hout
  have h₇ := h.leads.concat (.tun false pairPkt) (v := w₇) ⟨rfl, rfl, trivial⟩ rfl
  have hsent₇ : w₇.Sent (.client false) d := ⟨by simp [hout₇], hsent⟩
  -- the server relays it
  obtain ⟨g, hrelay, hgsent, hgcar, hgshows⟩ := pairHub_relays
  have hreceive : serverReceive busyHost w₇.server d.wire busyPeer = pairHub 3 := by
    rw [hserver, h.server, hw]
    exact serverReceive_wireBytes _ hthree hn hp _
  have h₈ := h₇.concat (.receive d.wire busyPeer) (v := ⟨pairHub 3, w₇.clients⟩)
    ⟨rfl, rfl, h₇.deliverable hsent₇⟩ (congrArg (World.mk · _) hreceive)
  have hsent₈ : World.Sent (⟨pairHub 3, w₇.clients⟩ : World Bool) .server g :=
    ⟨by simp [World.out, hrelay], hgsent⟩
  have h₉ := h₈.concat (.arrive true (.datagram g.wire busyServer))
    ⟨rfl, rfl, h₈.deliverable hsent₈⟩ rfl
  refine ⟨w₇, d, g, hserver, by simp [hw₇, World.move], hout₇, hrelay, ?_,
    hgcar.wireFrame_of_shows hgshows, h₇, h₈, h₉⟩
  rw [hw]
  exact wireFrame_wireBytes hthree hn hp

/-- A run in which the packet goes from the first client over the server to the second one. -/
structure PairRun (r : NetRun Bool monocypher plainKey) (d g : Datagram) : Prop where
  reads : NetRun.ReadsTun r 6 false pairPkt
  reaches : NetRun.Reaches r 7 d.wire busyPeer 0
  source : protoGetSrcIp pairPkt = ((r.state 7).server.srv.peers 0).virtIp
  arrives : NetRun.Arrives r 8 g.wire true
  sent : (r.state 7).out (.client false) = (r.state 6).out (.client false) ++ [.datagram d]
  relayed : (r.state 8).out .server = (r.state 7).out .server ++ [.datagram g]

theorem exists_pairRun : ∃ r d g, PairRun r d g := by
  have hr : busyHost.RandomWorks := Env.plain_randomWorks 100 5
  have hs : busyHost.SendWorks := Env.plain_sendWorks 100 5
  obtain ⟨_, _, hreg⟩ := exists_pairRegistered
  obtain ⟨events, w, h⟩ := hreg.runs
  obtain ⟨w₇, d, g, hpass⟩ := h.passes
  have hidle : ∀ w : World Bool, netOk monocypher plainKey w (busyHost, .sweep) :=
    fun _ => ⟨rfl, rfl, trivial⟩
  obtain ⟨r, hbegins⟩ := Trace.Run.exists_begins pairWorld_init hpass.writes.allowed hidle
  have h₆ := hbegins events _ (by rw [List.append_assoc, List.append_assoc])
  have h₇ := hbegins _ _ (List.append_assoc _ _ _)
  have h₈ := hbegins _ _ rfl
  have h₉ := hbegins _ [] (List.append_nil _).symm
  rw [h.leads.state] at h₆
  rw [hpass.sends.state] at h₇
  rw [hpass.relays.state] at h₈
  have hlen := h.length
  have hs₆ : r.state 6 = w := by simpa [hlen] using h₆.state
  have hs₇ : r.state 7 = w₇ := by simpa [hlen] using h₇.state
  have hs₈ : r.state 8 = ⟨pairHub 3, w₇.clients⟩ := by simpa [hlen] using h₈.state
  have hread : NetRun.ReadsTun r 6 false pairPkt :=
    ⟨⟨busyHost, h₇.event 6 _ (by simp [hlen]), hr, hs⟩, by rw [hs₆]; exact h.phase false⟩
  have hreach : NetRun.Reaches r 7 d.wire busyPeer 0 := by
    refine ⟨⟨busyHost, h₈.event 7 _ (by simp [hlen]), hr, hs⟩, ?_, ?_⟩
    · rw [hs₇, hpass.server, h.server]
      exact pairHub_entries.1
    · rintro f hf n ⟨m, hm, env, wire, src, f', he, ha, hp, hf', rfl⟩
      have hmem := h₇.mem (m := m) (by simp [hlen, hm])
      rw [he] at hmem
      have hn : f'.sequence = pairSeq + 1 := by
        refine h.fromFirst env wire src f' ?_ ha hp hf'
        simpa using hmem
      rw [hn, ← Option.some.inj (hpass.frame.symm.trans hf)]
      decide
  have harrive : NetRun.Arrives r 8 g.wire true := by
    refine ⟨⟨busyHost, ?_⟩, ?_, ?_, ?_⟩
    · rw [hs₈, hpass.second, h.serverAddr]
      exact h₉.event 8 _ (by simp [hlen])
    · rw [hs₈]; exact hpass.second ▸ h.phase true
    · rw [hs₈]; exact hpass.second ▸ h.running true
    · rintro f hf n ⟨m, hm, env, arrival, wire, f', he, hreads, hf', rfl⟩
      have hmem := h₈.mem (m := m) (by simp [hlen, hm])
      rw [he] at hmem
      obtain ⟨src, rfl⟩ := ClientNode.eq_datagram_of_reads hreads
      have hn : f'.sequence = pairSeq + 6 := by
        refine h.toSecond env wire src f' ?_ hf'
        simpa using hmem
      rw [hn, ← Option.some.inj (hpass.relayedFrame.symm.trans hf)]
      decide
  refine ⟨r, d, g, hread, hreach, ?_, harrive, ?_, ?_⟩
  · rw [hs₇, hpass.server, h.server]
    exact pairHub_entries.2.1.symm
  · rw [hs₆, hs₇]
    exact hpass.out
  · rw [hs₇, hs₈, World.out, World.out, hpass.server, h.server]
    exact hpass.relayed

/-- The second client writes the packet that the first one has read. -/
theorem packet_gets_through_pair :
    ∃ (r : NetRun Bool monocypher plainKey) (d g : Datagram), PairRun r d g ∧
      (r.state 9).out (.client true) = (r.state 8).out (.client true) ++ [.tunWrite pairPkt] := by
  obtain ⟨r, d, g, h⟩ := exists_pairRun
  obtain ⟨d', hout, -, -, hrest⟩ :=
    packet_gets_through r 6 false pairPkt h.reads (by decide +kernel) (by decide)
  -- the datagrams of the theorem are those of the run
  obtain rfl : d' = d := by simpa using hout.symm.trans h.sent
  obtain ⟨targets, got, -, -, hrelay, hgot⟩ := hrest 7 busyPeer 0 h.reaches h.source
  have hfor : ¬ ForHub pairPkt := by decide +kernel
  have hone : (targets.map fun b => Out.datagram (got b)) = [.datagram g] := by
    rw [if_neg hfor, List.append_nil] at hrelay
    exact List.append_cancel_left (hrelay.symm.trans h.relayed)
  obtain ⟨b, rfl, hb⟩ := List.map_eq_singleton_iff.1 hone
  obtain rfl : got b = g := by simpa using hb
  exact ⟨r, d', got b, h, (hgot b (by simp)).2.2 8 true h.arrives⟩

end Tund
