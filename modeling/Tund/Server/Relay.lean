import Tund.Server.Invariant

/-!
# Relaying DATA

`server_handle_data` and the TUN thread relay packets through the same two steps: build
the DATA datagram once, then send it to a list of peers and count what went out.
`finish_relay` describes these steps for any behaviour of the random source and of
`sendto`; from it follow what exactly is relayed when the random source works
(`relay_exact`, `tun_relay_exact`) and, in `Isolation`, what a failing one cannot do.
-/

namespace Tund

/-! ### The relay steps -/

theorem map_forward (srv : Server) (slots : List Slot) (n : UInt64) :
    ((slots.map (serverSnapshotPeerLocked srv)).map fun s => Act.forward s n) =
      slots.map fun i => .forward (serverSnapshotPeerLocked srv i) n := by
  simp

/-- The acts of a relayed packet: at most one datagram to each slot, `bytes_out` for exactly those
that `sendto` took, and then the TUN writes. -/
theorem finish_relay (env : Env) (srv : Server) (io : Proc) (payload : Bytes) {slots : List Slot}
    (hnodup : slots.Nodup) (hact : ∀ i ∈ slots, (srv.peers i).active = true) (tun : Bool) :
    ∃ got : Slot → Option Datagram, ∃ io' : Proc,
      finish env io (srv, relayActs payload (slots.map (serverSnapshotPeerLocked srv)) ++
          (if tun then [.tunWrite payload] else [])) =
        (srv.countOut (UInt64.ofNat payload.length) (wasSent got), io') ∧
      io'.out = io.out ++ datagrams slots got ++ (if tun then [.tunWrite payload] else []) ∧
      io'.running = io.running ∧
      (∀ i d, got i = some d → i ∈ slots ∧ d.dest = (srv.peers i).realAddr ∧
        d.Carries env.aead env.key MsgType.data.code (dataPayload payload)) ∧
      (env.RandomWorks → payload.length ≤ tundMaxPlaintext → ∀ i ∈ slots, (got i).isSome) := by
  have hready := build_ready env io Outbox.length_fresh (.data payload)
  have hout := (Msg.data payload).build_out env io Outbox.fresh.buf
  have hcases := (Msg.data payload).build_cases env io Outbox.length_fresh
  set built := (Msg.data payload).build env io Outbox.fresh.buf with hbuilt
  obtain ⟨got, io', hrun, ho, hr, hcar, hworks⟩ := runActs_forward env srv
    (UInt64.ofNat payload.length) hnodup hact built.2.2 ⟨built.1, built.2.1⟩ hready
    (fun _ => false) (fun _ _ => rfl)
  rw [srv.countOut_none] at hrun
  have hrelay : runActs env ⟨srv, io, .fresh⟩
      (relayActs payload (slots.map (serverSnapshotPeerLocked srv))) =
      ⟨srv.countOut (UInt64.ofNat payload.length) (wasSent got), io', ⟨built.1, built.2.1⟩⟩ := by
    have hexec : (Act.build (.data payload)).exec env ⟨srv, io, .fresh⟩ =
        ⟨srv, built.2.2, ⟨built.1, built.2.1⟩⟩ := rfl
    rw [relayActs, map_forward, runActs_cons, hexec]
    simpa using hrun
  have hsome : env.RandomWorks → payload.length ≤ tundMaxPlaintext → built.1 ≠ none := by
    intro hrand hle hnone
    rcases hcases.2 with ⟨-, hno⟩ | ⟨h, -⟩
    · exact hno ⟨hrand, le_of_eq_of_le (congrArg _ (dataPayload_of_le hle)) hle⟩
    · rw [hnone] at h
      cases h
  cases tun with
  | false =>
    refine ⟨got, io', ?_, ?_, hr.trans hout.2, hcar, fun hrand hle => hworks hrand (hsome hrand hle)⟩
    · simp only [Bool.false_eq_true, if_false, List.append_nil, finish, hrelay]
    · simpa [hout.1] using ho
  | true =>
    refine ⟨got, tunWrite io' payload, ?_, ?_, hr.trans hout.2, hcar,
      fun hrand hle => hworks hrand (hsome hrand hle)⟩
    · simp only [if_true, finish, runActs_append, hrelay]
      rfl
    · simp [tunWrite, ho, hout.1]

/-! ### The sender's lookup -/

section Lookup

variable {srv : Server}

/-- In a well-formed table an endpoint is found where it is active. -/
theorem Server.WellFormed.find_of_isAt (h : srv.WellFormed) {src : SockAddr} {i : Slot}
    (hi : (srv.peers i).isAt src = true) : serverFindPeerByAddr srv src = some i := by
  refine SlotTable.first_eq_of_unique (p := fun j => (srv.peers j).isAt src) hi fun j hj => ?_
  obtain ⟨hai, hsi, hpi⟩ := Peer.isAt_iff.1 hi
  obtain ⟨haj, hsj, hpj⟩ := Peer.isAt_iff.1 hj
  exact h.endpoint_inj j i haj hai (hsj.trans hsi.symm) (hpj.trans hpi.symm)

/-- In a well-formed table a virtual IP is found where it is held. -/
theorem Server.WellFormed.findVip_of_holds (h : srv.WellFormed) {vip : UInt32} {i : Slot}
    (hi : (srv.peers i).holds vip = true) : serverFindPeerByVip srv vip = some i := by
  refine SlotTable.first_eq_of_unique (p := fun j => (srv.peers j).holds vip) hi fun j hj => ?_
  obtain ⟨hai, hvi⟩ := Peer.holds_iff.1 hi
  obtain ⟨haj, hvj⟩ := Peer.holds_iff.1 hj
  exact h.virtIp_inj j i haj hai (hvj.trans hvi.symm)

theorem findVip_eq_none {vip : UInt32} (h : ∀ i, (srv.peers i).holds vip = false) :
    serverFindPeerByVip srv vip = none := SlotTable.first_eq_none_iff.2 h

theorem countIn_peers (srv : Server) (i j : Slot) (n : ℕ) :
    (srv.countIn i n).peers j =
      { srv.peers j with
        bytesIn := if j = i then (srv.peers j).bytesIn + UInt64.ofNat n else (srv.peers j).bytesIn } := by
  rw [Server.countIn, srv.setPeer_peers]
  split_ifs with hj
  · rw [hj]
  · rfl

theorem countIn_refreshes (srv : Server) (i : Slot) (n : ℕ) (j : Slot) :
    (srv.peers j).Refreshes ((srv.countIn i n).peers j) := by
  rw [countIn_peers]
  exact ⟨rfl, rfl, rfl, rfl, .inl rfl⟩

theorem countIn_activeExcept (srv : Server) (i : Slot) (n : ℕ) (excludeIdx : Option Slot) :
    (srv.countIn i n).activeExcept excludeIdx = srv.activeExcept excludeIdx := by
  simp [Server.activeExcept, countIn_peers]

end Lookup

/-! ### What is relayed -/

/-- The outcome of relaying `payload` to `targets`: one DATA datagram with these bytes to each
target in order, then the TUN write if there is one; `bytes_out` grows for exactly the targets
whose `net_send` succeeded and `bytes_in` for the sender. -/
def Relayed (env : Env) (srv : Server) (io : Proc) (payload : Bytes) (sender : Option Slot)
    (targets : List Slot) (tun : Bool) (r : Server × Proc) : Prop :=
  ∃ got : Slot → Datagram,
    (∀ j ∈ targets, (got j).dest = (srv.peers j).realAddr ∧
      (got j).Carries env.aead env.key MsgType.data.code payload) ∧
    r.2.out = io.out ++ (targets.map fun j => .datagram (got j)) ++
      (if tun then [.tunWrite payload] else []) ∧
    r.2.running = io.running ∧
    r.1.peerCount = srv.peerCount ∧
    ∀ j, r.1.peers j = { srv.peers j with
      bytesIn := if sender = some j then (srv.peers j).bytesIn + UInt64.ofNat payload.length
        else (srv.peers j).bytesIn
      bytesOut := if j ∈ targets ∧ (got j).sent = true then
          (srv.peers j).bytesOut + UInt64.ofNat payload.length
        else (srv.peers j).bytesOut }

/-- When every target got a datagram, the partial outcome is a full one. -/
theorem relayed_of_got {env : Env} {srv srv₁ : Server} {io io' : Proc} {payload : Bytes}
    {sender : Option Slot} {targets : List Slot} {tun : Bool} {got : Slot → Option Datagram}
    (hcount : srv₁.peerCount = srv.peerCount)
    (hin : ∀ j, srv₁.peers j = { srv.peers j with
      bytesIn := if sender = some j then (srv.peers j).bytesIn + UInt64.ofNat payload.length
        else (srv.peers j).bytesIn })
    (hp : payload.length ≤ tundMaxPlaintext)
    (hout : io'.out = io.out ++ datagrams targets got ++ (if tun then [.tunWrite payload] else []))
    (hrun : io'.running = io.running)
    (hcar : ∀ i d, got i = some d → i ∈ targets ∧ d.dest = (srv₁.peers i).realAddr ∧
      d.Carries env.aead env.key MsgType.data.code (dataPayload payload))
    (hall : ∀ i ∈ targets, (got i).isSome) :
    Relayed env srv io payload sender targets tun
      (srv₁.countOut (UInt64.ofNat payload.length) (wasSent got), io') := by
  rw [dataPayload_of_le hp] at hcar
  have hget : ∀ i ∈ targets, got i = some ((got i).getD ⟨⟨0, 0, 0⟩, [], [], false⟩) := by
    intro i hi
    obtain ⟨d, hd⟩ := Option.isSome_iff_exists.1 (hall i hi)
    rw [hd, Option.getD_some]
  refine ⟨fun j => (got j).getD ⟨⟨0, 0, 0⟩, [], [], false⟩, ?_, ?_, hrun, hcount, ?_⟩
  · intro j hj
    obtain ⟨-, hd, hc⟩ := hcar j _ (hget j hj)
    rw [hin] at hd
    exact ⟨hd, hc⟩
  · rw [hout]
    congr 2
    rw [datagrams]
    clear hout hcar
    induction targets with
    | nil => rfl
    | cons i targets ih =>
      rw [List.filterMap_cons, List.map_cons,
        ← ih (fun j hj => hall j (by simp [hj])) (fun j hj => hget j (by simp [hj]))]
      conv_lhs => rw [hget i (by simp)]
      rfl
  · intro j
    have hsent : wasSent got j = true ↔
        j ∈ targets ∧ ((got j).getD ⟨⟨0, 0, 0⟩, [], [], false⟩).sent = true := by
      cases hg : got j with
      | none =>
        simp only [wasSent, hg, Option.any_none, Option.getD_none, Bool.false_eq_true, and_false]
      | some d => simp [wasSent, hg, (hcar j d hg).1]
    simp only [Server.countOut, hin]
    by_cases hw : wasSent got j = true
    · rw [if_pos hw, if_pos (hsent.1 hw)]
    · rw [if_neg hw, if_neg (fun h => hw (hsent.2 h))]

section Outcome

variable {env : Env} {srv srv₁ : Server} (io : Proc) {payload : Bytes} {sender : Option Slot}
  (hcount : srv₁.peerCount = srv.peerCount)
  (hin : ∀ j, srv₁.peers j = { srv.peers j with
    bytesIn := if sender = some j then (srv.peers j).bytesIn + UInt64.ofNat payload.length
      else (srv.peers j).bytesIn })
include hcount hin

/-- The relay steps, and a TUN write if there is one. -/
theorem relayed_finish (hr : env.RandomWorks) (hp : payload.length ≤ tundMaxPlaintext)
    {targets : List Slot} (hnodup : targets.Nodup)
    (hact : ∀ j ∈ targets, (srv₁.peers j).active = true) (tun : Bool) :
    Relayed env srv io payload sender targets tun
      (finish env io (srv₁, relayActs payload (targets.map (serverSnapshotPeerLocked srv₁)) ++
        (if tun then [.tunWrite payload] else []))) := by
  obtain ⟨got, io', hrun, hout, hrunning, hcar, hall⟩ :=
    finish_relay env srv₁ io payload hnodup hact tun
  rw [hrun]
  exact relayed_of_got hcount hin hp hout hrunning hcar (hall hr hp)

/-- No relay steps. -/
theorem relayed_nobody (tun : Bool) :
    Relayed env srv io payload sender [] tun
      (finish env io (srv₁, if tun then [.tunWrite payload] else [])) := by
  have hfin : finish env io (srv₁, if tun then [.tunWrite payload] else []) =
      (srv₁, if tun then tunWrite io payload else io) := by
    cases tun <;> rfl
  rw [hfin]
  refine ⟨fun _ => ⟨⟨0, 0, 0⟩, [], [], false⟩, by simp, ?_, ?_, hcount, fun j => ?_⟩
  · cases tun <;> simp [tunWrite]
  · cases tun <;> rfl
  · simp only [List.not_mem_nil, false_and, if_false]
    exact hin j

end Outcome

/-! ### DATA -/

section Data

variable (env : Env) (io : Proc) {srv : Server} {payload : Bytes} {src : SockAddr} {i : Slot}

theorem serverHandleData_of_accepted (h : DataAccepted srv payload src i) :
    serverHandleData env srv io payload src =
      finish env io (srv.countIn i payload.length,
        dataActs (srv.countIn i payload.length) payload i) := by
  rcases serverDataLocked_cases srv payload src with ⟨hno, -⟩ | ⟨j, hj, heq⟩
  · exact absurd ⟨i, h⟩ hno
  · obtain rfl : j = i := Option.some.inj (hj.sender.symm.trans h.sender)
    rw [serverHandleData, heq]

theorem serverHandleData_of_not (h : ∀ i, ¬ DataAccepted srv payload src i) :
    serverHandleData env srv io payload src = (srv, io) := by
  rcases serverDataLocked_cases srv payload src with ⟨-, heq⟩ | ⟨j, hj, -⟩
  · rw [serverHandleData, heq]
    rfl
  · exact absurd hj (h j)

/-- The packet is dropped if one of the checks fails. -/
theorem not_accepted_of_drop (hwf : srv.WellFormed)
    (h : protoValidateIpv4Packet payload ≠ none ∨ (∀ i, (srv.peers i).isAt src = false) ∨
      ∃ i, (srv.peers i).isAt src = true ∧ protoGetSrcIp payload ≠ (srv.peers i).virtIp)
    (i : Slot) : ¬ DataAccepted srv payload src i := by
  intro hacc
  rcases h with hv | hn | ⟨j, hj, hne⟩
  · exact hv hacc.valid
  · have hat := isAt_of_find hacc.sender
    rw [hn i] at hat
    cases hat
  · obtain rfl : i = j := Option.some.inj (hacc.sender.symm.trans (hwf.find_of_isAt hj))
    exact hne hacc.srcIp

end Data

/-- **Relay exactness.**  In every reachable state, with a working random source, a DATA payload of
at most 1600 bytes is dropped without any effect if it is not a valid packet, or does not come from
an active peer, or names another source; otherwise it goes to the TUN device if it is for the hub,
to every other active peer and the TUN device if it is a broadcast, to the one peer that holds its
destination if there is one, and nowhere else. -/
theorem relay_exact (s : ServerState) (hs : ServerReachable s) (env : Env) (hr : env.RandomWorks)
    (payload : Bytes) (hp : payload.length ≤ tundMaxPlaintext) (src : SockAddr) :
    let srv := s.srv
    let dst := protoGetDstIp payload
    let r := serverHandleData env srv s.io payload src
    ((protoValidateIpv4Packet payload ≠ none ∨ (∀ i, (srv.peers i).isAt src = false) ∨
        ∃ i, (srv.peers i).isAt src = true ∧ protoGetSrcIp payload ≠ (srv.peers i).virtIp) →
      r = (srv, s.io)) ∧
    ∀ i, protoValidateIpv4Packet payload = none → (srv.peers i).isAt src = true →
      protoGetSrcIp payload = (srv.peers i).virtIp →
      (dst = htonl tundServerIp → Relayed env srv s.io payload (some i) [] true r) ∧
      (dst = htonl tundBroadcast → ∃ targets : List Slot, targets.Nodup ∧
        (∀ j, j ∈ targets ↔ (srv.peers j).active = true ∧ j ≠ i) ∧
        Relayed env srv s.io payload (some i) targets true r) ∧
      (∀ j, (srv.peers j).active = true → (srv.peers j).virtIp = dst →
        Relayed env srv s.io payload (some i) [j] false r) ∧
      (dst ≠ htonl tundServerIp → dst ≠ htonl tundBroadcast →
        (∀ j, (srv.peers j).active = true → (srv.peers j).virtIp ≠ dst) →
        Relayed env srv s.io payload (some i) [] false r) := by
  have hwf := hs.wellFormed
  intro srv dst r
  refine ⟨fun hdrop => serverHandleData_of_not env s.io (not_accepted_of_drop hwf hdrop), ?_⟩
  intro i hvalid hat hsrc
  set srv₁ := srv.countIn i payload.length with hsrv₁
  have hwf₁ : srv₁.WellFormed := hwf.of_refreshes rfl (countIn_refreshes srv i payload.length)
  have hr' : r = finish env s.io (srv₁, dataActs srv₁ payload i) :=
    serverHandleData_of_accepted env s.io ⟨hvalid, hwf.find_of_isAt hat, hsrc⟩
  have hcount : srv₁.peerCount = srv.peerCount := rfl
  have hin : ∀ j, srv₁.peers j = { srv.peers j with
      bytesIn := if some i = some j then (srv.peers j).bytesIn + UInt64.ofNat payload.length
        else (srv.peers j).bytesIn } := by
    intro j
    rw [hsrv₁, countIn_peers]
    simp [eq_comm]
  rw [hr']
  refine ⟨fun hdst => ?_, fun hdst => ?_, fun j hj hvip => ?_, fun hhub hall hnone => ?_⟩
  · rw [dataActs, if_pos hdst]
    exact relayed_nobody s.io hcount hin true
  · have hhub : ¬ protoGetDstIp payload = htonl tundServerIp := by
      change ¬ dst = _
      rw [hdst]
      intro h
      exact absurd (htonl_injective h) (by decide)
    refine ⟨srv₁.activeExcept (some i), nodup_activeExcept _ _, fun j => ?_, ?_⟩
    · rw [hsrv₁, countIn_activeExcept, mem_activeExcept, ne_eq, Option.some_inj, ne_comm, ne_eq]
    · rw [dataActs, if_neg hhub, if_pos hdst]
      exact relayed_finish s.io hcount hin hr hp (nodup_activeExcept _ _)
        (fun j hj => (mem_activeExcept.1 hj).1) true
  · have hpool := (hwf.pool j hj).ne_reserved
    rw [hvip] at hpool
    have hj₁ : (srv₁.peers j).active = true := by rw [hin]; exact hj
    have hfind : serverFindPeerByVip srv₁ (protoGetDstIp payload) = some j := by
      apply hwf₁.findVip_of_holds
      rw [Peer.holds_iff]
      exact ⟨hj₁, by rw [hin]; exact hvip⟩
    have hacts : dataActs srv₁ payload i =
        relayActs payload ([j].map (serverSnapshotPeerLocked srv₁)) ++ [] := by
      rw [dataActs, if_neg hpool.1, if_neg hpool.2.2, serverSnapshotPeerByVipLocked, hfind]
      simp
    rw [hacts]
    exact relayed_finish s.io hcount hin hr hp (List.nodup_singleton j) (by simpa using hj₁) false
  · have hfind : serverFindPeerByVip srv₁ (protoGetDstIp payload) = none := by
      apply findVip_eq_none
      intro j
      rw [Bool.eq_false_iff, ne_eq, Peer.holds_iff, hin]
      rintro ⟨ha, hv⟩
      exact hnone j ha hv
    rw [dataActs, if_neg hhub, if_neg hall, serverSnapshotPeerByVipLocked, hfind]
    exact relayed_nobody s.io hcount hin false

/-- Two peers, and a packet from the first to the second. -/
theorem relay_exact_unicast :
    let register (src : SockAddr) : ServerEvent :=
      .packet (Env.plain 100 5) (frameBytes MsgType.register.code 7 (List.replicate 24 0) [97]) src
    let s := serverStep (serverStep ⟨serverInit, Proc.start⟩ (register ⟨2, 1, 1⟩)) (register ⟨2, 1, 2⟩)
    let pkt : Bytes := [0x45, 0, 0, 20, 0, 0, 0, 0, 64, 17, 0, 0, 10, 9, 0, 2, 10, 9, 0, 3]
    ServerReachable s ∧ (Env.plain 101 6).RandomWorks ∧ pkt.length ≤ tundMaxPlaintext ∧
      Relayed (Env.plain 101 6) s.srv s.io pkt (some 0) [1] false
        (serverHandleData (Env.plain 101 6) s.srv s.io pkt ⟨2, 1, 1⟩) := by
  intro register s pkt
  have hs : ServerReachable s := by
    refine .next _ (.next _ (.start rfl) ?_) ?_ <;>
      exact (by decide :
        tundHdrSize ≤ (frameBytes MsgType.register.code 7 (List.replicate 24 0) [97]).length)
  have hr := Env.plain_randomWorks 101 6
  have hp : pkt.length ≤ tundMaxPlaintext := by decide
  have hvalid : protoValidateIpv4Packet pkt = none := by decide +kernel
  have hat : (s.srv.peers 0).isAt ⟨2, 1, 1⟩ = true := by decide +kernel
  have hsrc : protoGetSrcIp pkt = (s.srv.peers 0).virtIp := by decide +kernel
  have hact : (s.srv.peers 1).active = true := by decide +kernel
  have hdst : (s.srv.peers 1).virtIp = protoGetDstIp pkt := by decide +kernel
  obtain ⟨-, -, huni, -⟩ := (relay_exact s hs (Env.plain 101 6) hr pkt hp ⟨2, 1, 1⟩).2 0 hvalid hat hsrc
  exact ⟨hs, hr, hp, huni 1 hact hdst⟩

/-- **The TUN path.**  A packet read from the TUN device is relayed by the same rules, with no
sender to count in and no TUN write. -/
theorem tun_relay_exact (s : ServerState) (hs : ServerReachable s) (env : Env)
    (hr : env.RandomWorks) (pkt : Bytes) (hp : pkt.length ≤ tundMaxPlaintext) :
    let srv := s.srv
    let dst := protoGetDstIp pkt
    let r := serverTunPacket env srv s.io pkt
    (protoValidateIpv4Packet pkt ≠ none → r = (srv, s.io)) ∧
    (protoValidateIpv4Packet pkt = none →
      (dst = htonl tundBroadcast → ∃ targets : List Slot, targets.Nodup ∧
        (∀ j, j ∈ targets ↔ (srv.peers j).active = true) ∧
        Relayed env srv s.io pkt none targets false r) ∧
      (∀ j, (srv.peers j).active = true → (srv.peers j).virtIp = dst →
        Relayed env srv s.io pkt none [j] false r) ∧
      (dst ≠ htonl tundBroadcast →
        (∀ j, (srv.peers j).active = true → (srv.peers j).virtIp ≠ dst) →
        Relayed env srv s.io pkt none [] false r)) := by
  have hwf := hs.wellFormed
  intro srv dst r
  refine ⟨fun hbad => ?_, fun hvalid => ?_⟩
  · cases hv : protoValidateIpv4Packet pkt with
    | none => exact absurd hv hbad
    | some e => simp only [r, serverTunPacket, hv]
  have hin : ∀ j, srv.peers j = { srv.peers j with
      bytesIn := if none = some j then (srv.peers j).bytesIn + UInt64.ofNat pkt.length
        else (srv.peers j).bytesIn } := fun j => by simp
  have relay : ∀ targets : List Slot, targets.Nodup →
      (∀ j ∈ targets, (srv.peers j).active = true) →
      r = finish env s.io (srv, relayActs pkt (targets.map (serverSnapshotPeerLocked srv))) →
      Relayed env srv s.io pkt none targets false r := by
    intro targets hnodup hact heq
    have h := relayed_finish s.io rfl hin hr hp hnodup hact false
    simp only [Bool.false_eq_true, if_false, List.append_nil] at h
    rw [heq]
    exact h
  have hr' : r = finish env s.io (srv, relayActs pkt
      (if dst = htonl tundBroadcast then serverSnapshotBroadcastLocked srv none
        else (serverSnapshotPeerByVipLocked srv dst).toList)) := by
    simp only [r, serverTunPacket, hvalid]
    rfl
  refine ⟨fun hdst => ?_, fun j hj hvip => ?_, fun hdst hnone => ?_⟩
  · refine ⟨srv.activeExcept none, nodup_activeExcept _ _, fun j => ?_, ?_⟩
    · simp [mem_activeExcept]
    · apply relay _ (nodup_activeExcept _ _) fun j hj => (mem_activeExcept.1 hj).1
      rw [hr', if_pos hdst, serverSnapshotBroadcastLocked]
  · have hbc : dst ≠ htonl tundBroadcast := hvip ▸ (hwf.pool j hj).ne_reserved.2.2
    apply relay [j] (List.nodup_singleton j) (by simpa using hj)
    rw [hr', if_neg hbc, serverSnapshotPeerByVipLocked,
      hwf.findVip_of_holds (Peer.holds_iff.2 ⟨hj, hvip⟩)]
    rfl
  · have hfind : serverFindPeerByVip srv dst = none := by
      apply findVip_eq_none
      intro j
      rw [Bool.eq_false_iff, ne_eq, Peer.holds_iff]
      exact fun ⟨ha, hv⟩ => hnone j ha hv
    apply relay [] List.nodup_nil (by simp)
    rw [hr', if_neg hdst, serverSnapshotPeerByVipLocked, hfind]
    rfl

end Tund
