import Tund.Network.Security

/-!
# Packets across the tunnel

What leaves the tunnel on one host has entered it on one: every packet that a party
writes to its TUN device, and the payload of every DATA datagram, was read before from
the TUN device of some party and has not changed on the way (`tun_integrity`).  The
attacker delays, drops, duplicates and redirects packets, but makes none.

* `Proc.Adds`: a process has put out DATA and TUN writes for certain packets only;
* `World.MadeOf`: all DATA and TUN writes of the world are for certain packets.
-/

namespace Tund

variable {ι : Type} {aead : Aead} {key : Bytes} {R : Bytes → Prop}

/-! ### DATA -/

/-- A packet that passes the gate is as long as a field of two bytes says, so that DATA has all of
it. -/
theorem dataPayload_of_valid {pkt : Bytes} (h : protoValidateIpv4Packet pkt = none) :
    dataPayload pkt = pkt := by
  have htotal := ((validate_eq_none_iff pkt).1 h).total
  have hlt := Bytes.ofBe_lt (Bytes.slice pkt 2 2)
  have hlen : pkt.length < 2 ^ 16 := by
    rw [← htotal, ipTotalLength]
    calc Bytes.ofBe (Bytes.slice pkt 2 2) < 256 ^ (Bytes.slice pkt 2 2).length := hlt
      _ ≤ 256 ^ 2 := Nat.pow_le_pow_right (by decide : 0 < 256) (by simp [Bytes.slice])
  rw [dataPayload, UInt16.toNat_ofNat', Nat.mod_eq_of_lt hlen, List.take_length]

/-- A datagram carries one message. -/
theorem Datagram.Carries.eq {d : Datagram} {type type' : UInt8} {payload payload' : Bytes}
    (h : d.Carries aead key type payload) (h' : d.Carries aead key type' payload') :
    type = type' ∧ payload = payload' := by
  obtain ⟨buf, seq, hrecv, hread⟩ := h.read
  exact h'.unique hrecv hread

/-- The message is not DATA, or it is with a packet that satisfies `R`. -/
def Msg.DataOf (R : Bytes → Prop) : Msg → Prop
  | .data pkt => R pkt ∧ protoValidateIpv4Packet pkt = none
  | _ => True

theorem Msg.DataOf.payload {m : Msg} (hm : m.DataOf R) {d : Datagram} {pkt : Bytes}
    (hcar : d.Carries aead key m.type.code m.payload)
    (hdata : d.Carries aead key MsgType.data.code pkt) : R pkt := by
  obtain ⟨htype, hpay⟩ := hcar.eq hdata
  have hcode := MsgType.ofCode_code m.type
  rw [htype, MsgType.ofCode_code] at hcode
  cases m with
  | data pkt' =>
    obtain ⟨hR, hvalid⟩ := hm
    rw [Msg.payload, dataPayload_of_valid hvalid] at hpay
    exact hpay ▸ hR
  | _ => cases hcode

/-! ### A process -/

/-- The process has put out more, of which all DATA and all TUN writes have packets that satisfy
`R`. -/
def Proc.Adds (aead : Aead) (key : Bytes) (R : Bytes → Prop) (io io' : Proc) : Prop :=
  ∃ outs, io'.out = io.out ++ outs ∧
    (∀ d pkt, Out.datagram d ∈ outs → d.Carries aead key MsgType.data.code pkt → R pkt) ∧
    ∀ pkt, Out.tunWrite pkt ∈ outs → R pkt

theorem Proc.Adds.of_out_eq {io io' : Proc} (h : io'.out = io.out) : io.Adds aead key R io' :=
  ⟨[], by simpa using h, by simp, by simp⟩

theorem Proc.Adds.refl (io : Proc) : io.Adds aead key R io := .of_out_eq rfl

theorem sendMsg_adds {env : Env} (ha : env.aead = aead) (hk : env.key = key) (io : Proc) {m : Msg}
    (hm : m.DataOf R) (dest : SockAddr) : io.Adds aead key R (sendMsg env io m dest).2 := by
  obtain ⟨-, ⟨-, hout⟩ | ⟨d, -, -, hcar, hout⟩⟩ := sendMsg_cases env io m dest
  · exact .of_out_eq hout
  · refine ⟨[.datagram d], hout, fun d' pkt hd' hdata => ?_, by simp⟩
    obtain rfl : d' = d := by simpa using hd'
    rw [ha, hk] at hcar
    exact hm.payload hcar hdata

/-! ### Clients -/

section Client

variable {env : Env} (ha : env.aead = aead) (hk : env.key = key) (c : ClientNode)
include ha hk

theorem ClientNode.register_adds : c.io.Adds aead key R (c.register env).io := by
  unfold ClientNode.register
  split
  · have h := sendMsg_adds (R := R) ha hk c.io (m := .register c.cli.name.1) trivial
      c.cli.serverAddr
    rcases hs : sendMsg env c.io (.register c.cli.name.1) c.cli.serverAddr with ⟨_ | _, io⟩ <;>
      rw [hs] at h <;> exact h
  · exact .refl _

theorem ClientNode.keepalive_adds : c.io.Adds aead key R (c.keepalive env).io := by
  unfold ClientNode.keepalive clientKeepalivePass
  split
  · split_ifs
    · exact .of_out_eq rfl
    · exact sendMsg_adds ha hk c.io (m := .keepalive env.nowMs) trivial _
  · exact .refl _

theorem ClientNode.shutdown_adds : c.io.Adds aead key R (c.shutdown env).io := by
  unfold ClientNode.shutdown
  split
  · exact sendMsg_adds ha hk c.io (m := .disconnect) trivial _
  · exact .refl _

/-- The TUN thread sends the packet that it has read, if the gate lets it through. -/
theorem ClientNode.tun_adds (pkt : Bytes) :
    c.io.Adds aead key (fun p => p = pkt ∧ protoValidateIpv4Packet pkt = none)
      (c.tun env pkt).io := by
  unfold ClientNode.tun clientTunPacket
  split
  · cases hvalid : protoValidateIpv4Packet pkt with
    | some e => exact .refl _
    | none =>
      have h := sendMsg_adds (R := fun p => p = pkt ∧ protoValidateIpv4Packet pkt = none) ha hk c.io
        (m := .data pkt) ⟨⟨rfl, hvalid⟩, hvalid⟩ c.cli.serverAddr
      rw [hvalid] at h
      rcases hs : sendMsg env c.io (.data pkt) c.cli.serverAddr with ⟨_ | _, io⟩ <;> rw [hs] at h
      · exact h
      · dsimp only
        split_ifs <;> exact h
  · exact .refl _

omit ha hk in
theorem clientHandleData_adds (aead : Aead) (key : Bytes) (cli : Client) (io : Proc)
    (payload : Bytes) : io.Adds aead key (fun p => p = payload ∧ protoValidateIpv4Packet payload = none)
      (clientHandleData cli io payload).2 := by
  unfold clientHandleData
  cases hvalid : protoValidateIpv4Packet payload with
  | some e => exact .refl _
  | none =>
    exact ⟨[.tunWrite payload], rfl, by simp, fun p hp => ⟨by simpa using hp, rfl⟩⟩

/-- What a packet from the server makes a process put out. -/
theorem clientDispatch_adds (cli : Client) (io : Proc) (f : Frame) :
    io.Adds aead key (fun p => f.type = MsgType.data.code ∧ p = f.payload ∧
      protoValidateIpv4Packet p = none) (clientDispatch env cli io f).2 := by
  unfold clientDispatch
  split
  · rename_i htype
    obtain ⟨outs, hout, hdata, htun⟩ := clientHandleData_adds aead key cli io f.payload
    have hcode := MsgType.ofCode_eq_some_iff.1 htype
    have hok : ∀ p, (p = f.payload ∧ protoValidateIpv4Packet f.payload = none) →
        f.type = MsgType.data.code ∧ p = f.payload ∧ protoValidateIpv4Packet p = none := by
      rintro p ⟨rfl, hvalid⟩
      exact ⟨hcode, rfl, hvalid⟩
    exact ⟨outs, hout, fun d p hd hcar => hok p (hdata d p hd hcar), fun p hp => hok p (htun p hp)⟩
  · exact .refl _
  · exact .refl _
  · exact .refl _
  · dsimp only
    unfold clientHandleKeepalive
    split
    · exact .refl _
    · rename_i sentAt _
      exact sendMsg_adds ha hk io (m := .keepaliveAck sentAt) trivial _
  · exact .refl _
  · exact .of_out_eq rfl
  · exact .refl _

theorem ClientNode.arrive_adds (arrival : Arrival) :
    c.io.Adds aead key (fun p => arrival.Reads aead key MsgType.data.code p ∧
      protoValidateIpv4Packet p = none) (c.arrive env arrival).io := by
  unfold ClientNode.arrive
  split
  · rcases clientAwait env c.cli arrival with ⟨_ | _ | _, cli⟩ <;> exact .refl _
  · split_ifs
    · cases arrival with
      | datagram wire src =>
        simp only [clientReceive]
        cases hrecv : netRecv env.aead env.key wire with
        | none => exact .refl _
        | some buf =>
          rw [ha, hk] at hrecv
          dsimp only
          split_ifs
          · rcases clientHandleServerPacket_cases env c.cli c.io buf with ⟨-, h⟩ | ⟨f, hf, -, -, h⟩ <;>
              rw [h]
            · exact .refl _
            · obtain ⟨outs, hout, hdata, htun⟩ := clientDispatch_adds ha hk (clientMarkServerSeen env
                { c.cli with serverReplay := (protoReplayAccept c.cli.serverReplay f.sequence).2 })
                c.io f
              have hok : ∀ p, (f.type = MsgType.data.code ∧ p = f.payload ∧
                  protoValidateIpv4Packet p = none) →
                  (Arrival.datagram wire src).Reads aead key MsgType.data.code p ∧
                    protoValidateIpv4Packet p = none := by
                rintro p ⟨htype, rfl, hvalid⟩
                exact ⟨⟨wire, src, buf, f.sequence, rfl, hrecv, by rw [hf, ← htype]⟩, hvalid⟩
              exact ⟨outs, hout, fun d p hd hcar => hok p (hdata d p hd hcar),
                fun p hp => hok p (htun p hp)⟩
          · exact .refl _
      | _ => exact .refl _
    · exact .refl _
  · exact .refl _

end Client

/-! ### The server -/

theorem finish_adds {env : Env} (ha : env.aead = aead) (hk : env.key = key) (io : Proc)
    {locked : Server × List Act} (hbuild : ∀ a ∈ locked.2, a.Within (Msg.DataOf R))
    (htun : ∀ pkt, Act.tunWrite pkt ∈ locked.2 → R pkt) :
    io.Adds aead key R (finish env io locked).2 := by
  obtain ⟨outs, hout, -, hby⟩ := finish_out env io hbuild
  refine ⟨outs, hout, fun d pkt hd hdata => ?_, fun pkt hpkt => htun pkt (hby _ hpkt)⟩
  obtain ⟨m, hm, hcar⟩ := hby _ hd
  rw [ha, hk] at hcar
  exact hm.payload hcar hdata

theorem tunWrite_mem_dataActs {srv : Server} {payload pkt : Bytes} {i : Slot}
    (h : Act.tunWrite pkt ∈ dataActs srv payload i) : pkt = payload := by
  unfold dataActs at h
  split_ifs at h
  · simpa using h
  · simpa [relayActs] using h
  · split at h
    · simp at h
    · simp [relayActs] at h

/-- The dispatcher of the server writes to the TUN device and relays only the packet of a DATA
message. -/
theorem serverDispatchLocked_data (env : Env) (srv : Server) (f : Frame) (src : SockAddr)
    (hR : f.type = MsgType.data.code → protoValidateIpv4Packet f.payload = none → R f.payload) :
    (∀ a ∈ (serverDispatchLocked env srv f src).2, a.Within (Msg.DataOf R)) ∧
      ∀ pkt, Act.tunWrite pkt ∈ (serverDispatchLocked env srv f src).2 → R pkt := by
  unfold serverDispatchLocked
  split
  · rcases serverRegisterLocked_cases env srv f.payload src f.sequence with
      ⟨i, -, -, h⟩ | ⟨i, -, -, h⟩ | ⟨-, -, h⟩ | ⟨i, -, -, -, h⟩ <;> rw [h]
    · simp
    · simp [assignActs, Msg.DataOf]
    · simp
    · exact ⟨within_joinActs trivial trivial
        trivial,
        by simp [joinActs, assignActs]⟩
  · rename_i htype
    rcases serverDataLocked_cases srv f.payload src with ⟨-, h⟩ | ⟨i, hi, h⟩ <;> rw [h]
    · simp
    · have hpay := hR (MsgType.ofCode_eq_some_iff.1 htype) hi.valid
      refine ⟨within_dataActs ⟨hpay, hi.valid⟩ _ _, fun pkt hpkt => ?_⟩
      rw [tunWrite_mem_dataActs hpkt]
      exact hpay
  · rcases serverKeepaliveLocked_cases env srv f.payload src with h | ⟨i, _, -, h⟩ <;> rw [h] <;>
      simp [Msg.DataOf]
  · rcases serverKeepaliveAckLocked_cases env srv f.payload src with h | ⟨i, _, -, h⟩ <;> rw [h] <;>
      simp
  · rcases serverDisconnectLocked_cases srv src with ⟨-, h⟩ | ⟨i, -, h⟩ <;> rw [h]
    · simp
    · refine ⟨fun a ha => ?_, by simp [leaveActs]⟩
      rcases List.mem_append.1 ha with ha | ha
      · exact within_leaveActs trivial _ a ha
      · rw [List.mem_singleton.1 ha]; simp
  · simp

theorem serverSweepLocked_data (env : Env) (srv : Server) {box : Outbox}
    (hbox : box.Within (Msg.DataOf R)) :
    (∀ a ∈ (serverSweepLocked env srv box).2, a.Within (Msg.DataOf R)) ∧
      ∀ pkt, Act.tunWrite pkt ∈ (serverSweepLocked env srv box).2 → R pkt := by
  unfold serverSweepLocked
  rcases (List.finRange tundMaxPeers).foldl (sweepSlot env.time) (srv, [], []) with
    ⟨srv', timedOut, keepalive⟩
  refine ⟨fun a ha => ?_, fun pkt => by simp [leaveActs]⟩
  rcases List.mem_append.1 ha with ha | ha
  · obtain ⟨t, -, ha⟩ := List.mem_flatMap.1 ha
    rcases List.mem_cons.1 ha with rfl | ha
    · simp
    · exact within_leaveActs trivial _ a ha
  · obtain ⟨t, -, rfl⟩ := List.mem_map.1 ha
    simpa using hbox

/-- The packet that an event brings to the server: the one in a DATA message, or one from its TUN
device. -/
def ServerEvent.Brings : ServerEvent → Bytes → Prop
  | .packet _ buf _, pkt => ∃ seq, readFrame buf = some ⟨MsgType.data.code, pkt, seq⟩
  | .tun _ pkt', pkt => pkt = pkt'
  | _, _ => False

theorem serverStep_adds (s : ServerState) (e : ServerEvent) (ha : e.env.aead = aead)
    (hk : e.env.key = key) :
    s.io.Adds aead key (fun p => e.Brings p ∧ protoValidateIpv4Packet p = none)
      (serverStep s e).io := by
  cases e with
  | packet env buf src =>
    simp only [serverStep]
    rcases serverHandlePacket_cases env s.srv s.io buf src with ⟨-, h⟩ | ⟨f, srv₁, hf, -, h⟩ <;> rw [h]
    · exact .refl _
    · obtain ⟨hbuild, htun⟩ := serverDispatchLocked_data env srv₁ f src (R := fun p =>
        (ServerEvent.packet env buf src).Brings p ∧ protoValidateIpv4Packet p = none)
        fun htype hvalid => ⟨⟨f.sequence, by rw [hf, ← htype]⟩, hvalid⟩
      exact finish_adds ha hk s.io hbuild htun
  | sweep env =>
    replace ha : env.aead = aead := ha
    simp only [serverStep, serverSweep_eq]
    have hbox : (Outbox.build env s.io (.keepalive env.nowMs)).1.Within (Msg.DataOf fun p =>
        (ServerEvent.sweep env).Brings p ∧ protoValidateIpv4Packet p = none) :=
      Outbox.build_within env s.io (m := .keepalive env.nowMs) trivial
    obtain ⟨hbuild, htun⟩ := serverSweepLocked_data env s.srv hbox
    have hio : (Outbox.build env s.io (.keepalive env.nowMs)).2.out = s.io.out :=
      (Outbox.build_out env s.io (.keepalive env.nowMs)).1
    obtain ⟨outs, hout, hadds⟩ := finish_adds ha hk
      (Outbox.build env s.io (.keepalive env.nowMs)).2 hbuild htun
    rw [hio] at hout
    exact ⟨outs, hout, hadds⟩
  | tun env pkt =>
    simp only [serverStep, serverTunPacket]
    cases hvalid : protoValidateIpv4Packet pkt with
    | some e => exact .refl _
    | none =>
      exact finish_adds ha hk s.io (within_relayActs ⟨⟨rfl, hvalid⟩, hvalid⟩ _) (by simp [relayActs])
  | shutdown env =>
    refine finish_adds ha hk s.io (fun a ha => ?_) (by simp)
    rcases List.mem_cons.1 ha with rfl | ha
    · simp [Msg.DataOf]
    · obtain ⟨t, -, rfl⟩ := List.mem_map.1 ha
      simp

/-! ### The world -/

/-- All DATA and all TUN writes of the world have packets that satisfy `R`. -/
structure World.MadeOf (aead : Aead) (key : Bytes) (R : Bytes → Prop) (w : World ι) : Prop where
  data : ∀ p d pkt, Out.datagram d ∈ w.out p → d.Carries aead key MsgType.data.code pkt → R pkt
  tun : ∀ p pkt, Out.tunWrite pkt ∈ w.out p → R pkt

theorem World.MadeOf.mono {w : World ι} (h : w.MadeOf aead key R) {R' : Bytes → Prop}
    (hR : ∀ pkt, R pkt → R' pkt) : w.MadeOf aead key R' :=
  ⟨fun p d pkt hd hcar => hR _ (h.data p d pkt hd hcar), fun p pkt hpkt => hR _ (h.tun p pkt hpkt)⟩

/-- The DATA messages that a socket can get are made of the same packets. -/
theorem World.MadeOf.of_deliverable {w : World ι} (h : w.MadeOf aead key R) (hs : w.Sound aead key)
    {wire buf pkt : Bytes} {seq : UInt64} (hdel : w.Deliverable aead key wire)
    (hrecv : netRecv aead key wire = some buf)
    (hread : readFrame buf = some ⟨MsgType.data.code, pkt, seq⟩) : R pkt := by
  obtain ⟨p, d, m, hsent, -, -, hcar, htype, hpay⟩ := (hs.origin hdel hrecv).2 _ hread
  rw [← htype, ← hpay] at hcar
  exact h.data p d pkt hsent.1 hcar

/-- One party puts out more. -/
theorem World.MadeOf.adds {w w' : World ι} (h : w.MadeOf aead key R) {R' : Bytes → Prop}
    (hR : ∀ pkt, R' pkt → R pkt)
    (hout : ∀ p, ∃ io io' : Proc, w.out p = io.out ∧ w'.out p = io'.out ∧ io.Adds aead key R' io') :
    w'.MadeOf aead key R := by
  constructor
  · intro p d pkt hd hcar
    obtain ⟨io, io', hw, hw', outs, hio, hdata, -⟩ := hout p
    rw [hw', hio, ← hw] at hd
    rcases List.mem_append.1 hd with hd | hd
    · exact h.data p d pkt hd hcar
    · exact hR pkt (hdata d pkt hd hcar)
  · intro p pkt hpkt
    obtain ⟨io, io', hw, hw', outs, hio, -, htun⟩ := hout p
    rw [hw', hio, ← hw] at hpkt
    rcases List.mem_append.1 hpkt with hpkt | hpkt
    · exact h.tun p pkt hpkt
    · exact hR pkt (htun pkt hpkt)

theorem World.MadeOf.serverStep {w : World ι} (h : w.MadeOf aead key R) (e : ServerEvent)
    (ha : e.env.aead = aead) (hk : e.env.key = key)
    (hR : ∀ pkt, e.Brings pkt ∧ protoValidateIpv4Packet pkt = none → R pkt) :
    World.MadeOf aead key R { w with server := serverStep w.server e } := by
  refine h.adds hR fun p => ?_
  cases p with
  | server => exact ⟨_, _, rfl, rfl, serverStep_adds w.server e ha hk⟩
  | client i => exact ⟨_, _, rfl, rfl, .refl (w.clients i).io⟩

theorem World.MadeOf.move [DecidableEq ι] {w : World ι} (h : w.MadeOf aead key R) {i : ι}
    {f : ClientNode → ClientNode} {R' : Bytes → Prop} (hR : ∀ pkt, R' pkt → R pkt)
    (hadds : (w.clients i).io.Adds aead key R' (f (w.clients i)).io) :
    (w.move i f).MadeOf aead key R := by
  refine h.adds hR fun p => ?_
  cases p with
  | server => exact ⟨_, _, rfl, rfl, .refl w.server.io⟩
  | client j =>
    refine ⟨_, _, rfl, rfl, ?_⟩
    by_cases hj : j = i
    · subst hj
      simpa [World.move] using hadds
    · simpa [World.move, hj] using Proc.Adds.refl (w.clients j).io

/-- The packet that the event takes from a TUN device. -/
def NetEvent.ReadsTun : NetEvent ι → Bytes → Prop
  | .hubTun pkt', pkt => pkt = pkt'
  | .tun _ pkt', pkt => pkt = pkt'
  | _, _ => False

/-- One event. -/
theorem World.MadeOf.netStep [DecidableEq ι] {w : World ι} (h : w.MadeOf aead key R)
    (hs : w.Sound aead key) {e : Env × NetEvent ι} (hok : netOk aead key w e)
    (hR : ∀ pkt, e.2.ReadsTun pkt → protoValidateIpv4Packet pkt = none → R pkt) :
    (netStep w e).MadeOf aead key R := by
  obtain ⟨env, e⟩ := e
  obtain ⟨ha, hk, hok⟩ := hok
  have hno : ∀ pkt : Bytes, False → R pkt := fun _ => False.elim
  cases e with
  | receive wire src =>
    simp only [Tund.netStep, serverReceive]
    cases hrecv : netRecv env.aead env.key wire with
    | none => exact h
    | some buf =>
      rw [ha, hk] at hrecv
      refine h.serverStep (.packet env buf src) ha hk fun pkt hpkt => ?_
      obtain ⟨seq, hread⟩ := hpkt.1
      exact h.of_deliverable hs hok hrecv hread
  | sweep => exact h.serverStep (.sweep env) ha hk fun pkt hpkt => hpkt.1.elim
  | hubTun pkt' => exact h.serverStep (.tun env pkt') ha hk fun pkt hpkt => hR pkt hpkt.1 hpkt.2
  | hubShutdown => exact h.serverStep (.shutdown env) ha hk fun pkt hpkt => hpkt.1.elim
  | register i => exact h.move hno (ClientNode.register_adds ha hk _)
  | keepalive i => exact h.move hno (ClientNode.keepalive_adds ha hk _)
  | shutdown i => exact h.move hno (ClientNode.shutdown_adds ha hk _)
  | tun i pkt' =>
    refine h.move (f := fun c => c.tun env pkt') ?_ (ClientNode.tun_adds ha hk _ pkt')
    rintro pkt ⟨rfl, hvalid⟩
    exact hR pkt rfl hvalid
  | arrive i arrival =>
    refine h.move (f := fun c => c.arrive env arrival) ?_ (ClientNode.arrive_adds ha hk _ arrival)
    rintro pkt ⟨⟨wire, src, buf, seq, rfl, hrecv, hread⟩, -⟩
    exact h.of_deliverable hs hok hrecv hread

/-- The packet was read from a TUN device before the `k`-th event, and the gate lets it through. -/
def NetRun.HasRead [DecidableEq ι] (r : NetRun ι aead key) (k : ℕ) (pkt : Bytes) : Prop :=
  protoValidateIpv4Packet pkt = none ∧ ∃ m < k, (r.event m).2.ReadsTun pkt

theorem NetRun.madeOf [DecidableEq ι] (r : NetRun ι aead key) (k : ℕ) :
    (r.state k).MadeOf aead key (NetRun.HasRead r k) := by
  induction k with
  | zero =>
    obtain ⟨hserver, hclients⟩ := r.start
    have hout : ∀ p, (r.state 0).out p = [] := by
      intro p
      cases p with
      | server => rw [World.out, hserver]; rfl
      | client i =>
        obtain ⟨addr, serverAddr, name, hi⟩ := hclients i
        rw [World.out, hi]
        rfl
    exact ⟨fun p d pkt hd => by simp [hout p] at hd, fun p pkt hpkt => by simp [hout p] at hpkt⟩
  | succ k ih =>
    rw [r.next]
    have hmono : ∀ pkt, NetRun.HasRead r k pkt → NetRun.HasRead r (k + 1) pkt := by
      rintro pkt ⟨hvalid, m, hm, hread⟩
      exact ⟨hvalid, m, by omega, hread⟩
    exact (ih.mono hmono).netStep (NetReachable.sound (r.reachable k)) (r.allowed k)
      fun pkt hread hvalid => ⟨hvalid, k, by omega, hread⟩

/-- **Integrity.**  In every run and at every moment of it, a packet that any party has written to
its TUN device, and the payload of every DATA datagram that any party has sent, was read earlier from
the TUN device of the server or of a client, byte for byte, and passes the gate. -/
theorem tun_integrity [DecidableEq ι] (r : NetRun ι aead key) (k : ℕ) (p : Party ι) :
    (∀ pkt, Out.tunWrite pkt ∈ (r.state k).out p → NetRun.HasRead r k pkt) ∧
      ∀ d pkt, (r.state k).Sent p d → d.Carries aead key MsgType.data.code pkt →
        NetRun.HasRead r k pkt :=
  ⟨(NetRun.madeOf r k).tun p, fun d pkt hd => (NetRun.madeOf r k).data p d pkt hd.1⟩

/-- A client writes a packet that the attacker has brought back to it, and DATA with this packet is
on the network: the packet was read before. -/
theorem tun_integrity_reflected :
    ∃ (r : NetRun Unit monocypher plainKey) (k : ℕ) (p : Party Unit) (d : Datagram),
      Out.tunWrite lonePkt ∈ (r.state k).out (.client ()) ∧ NetRun.HasRead r k lonePkt ∧
      (r.state k).Sent p d ∧ d.Carries monocypher plainKey MsgType.data.code lonePkt ∧
      ∀ pkt, d.Carries monocypher plainKey MsgType.data.code pkt → NetRun.HasRead r k pkt := by
  obtain ⟨w, hw, hmem, -⟩ := exists_reflected
  have hidle : ∀ w : World Unit, netOk monocypher plainKey w (loneHost, .sweep) :=
    fun _ => ⟨rfl, rfl, trivial⟩
  obtain ⟨r, k, rfl, -⟩ := hw.exists_run hidle (hidle w)
  obtain ⟨p, d, hsent, hcar⟩ := (NetReachable.sound (r.reachable k)).tun () lonePkt hmem
  exact ⟨r, k, p, d, hmem, (tun_integrity r k (.client ())).1 lonePkt hmem, hsent, hcar,
    fun pkt => (tun_integrity r k p).2 d pkt hsent⟩

end Tund
