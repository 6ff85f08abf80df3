import Tund.Network.World
import Tund.Server.Numbers

/-!
# What is handed to `net_send`

`serverCalls` and `ClientNode.calls` list the buffers that an event hands to `net_send`,
in order and before `net_send` looks at them.  They are the calls of the handlers: the
process gets from its state before the event to the one after it by `net_send` of just
these buffers (`serverStep_hands`, `ClientNode.step_hands`).

A buffer is handed on only after a builder filled it (`Built`), and no builder is given
more than 1600 bytes: the builders make all other messages shorter, and DATA is bounded by
what `proto_decrypt` and the TUN buffer let in.  So every buffer is one that `net_send`
takes (`Outbox.Proper`), unless its builder returned `-1`, which happens only when the
random source fails; and when it works, the datagrams that an event puts out are the
buffers, one for one (`Hands.puts`).
-/

namespace Tund

/-! ### The calls -/

/-- The buffer that an act hands to `net_send`. -/
def Act.calls (box : Outbox) : Act → List Outbox
  | .send _ => [box]
  | .forward _ _ => [box]
  | .probe filled _ => [filled]
  | _ => []

/-- The buffers that a list of acts hands to `net_send`. -/
def sendCalls (env : Env) : Work → List Act → List Outbox
  | _, [] => []
  | w, a :: acts => a.calls w.box ++ sendCalls env (a.exec env w) acts

/-- The calls of `finish`. -/
def finishCalls (env : Env) (io : Proc) (locked : Server × List Act) : List Outbox :=
  sendCalls env ⟨locked.1, io, .fresh⟩ locked.2

/-- The calls of `server_handle_packet`, of a pass of the timeout thread and of the TUN thread, and
of `server_shutdown`. -/
def serverCalls (s : ServerState) : ServerEvent → List Outbox
  | .packet env buf src =>
    match readFrame buf with
    | none => []
    | some f =>
      if f.type ≠ MsgType.register.code then
        match serverAcceptRegisteredSequence s.srv src f.sequence with
        | (false, _) => []
        | (true, srv) => finishCalls env s.io (serverDispatchLocked env srv f src)
      else finishCalls env s.io (serverDispatchLocked env s.srv f src)
  | .sweep env =>
    match Outbox.build env s.io (.keepalive env.nowMs) with
    | (keepalive, io) => finishCalls env io (serverSweepLocked env s.srv keepalive)
  | .tun env pkt =>
    match protoValidateIpv4Packet pkt with
    | some _ => []
    | none =>
      let dstIp := protoGetDstIp pkt
      let peers :=
        if dstIp = htonl tundBroadcast then serverSnapshotBroadcastLocked s.srv none
        else (serverSnapshotPeerByVipLocked s.srv dstIp).toList
      finishCalls env s.io (s.srv, relayActs pkt peers)
  | .shutdown env =>
    finishCalls env s.io (s.srv, .build .disconnect ::
      (serverSnapshotBroadcastLocked s.srv none).map fun p => .forward p 0)

/-- What can happen to a client process. -/
inductive NodeEvent
  | register
  | arrive (arrival : Arrival)
  | keepalive
  | tun (pkt : Bytes)
  | shutdown

/-- One event of a client process. -/
def ClientNode.step (c : ClientNode) : Env × NodeEvent → ClientNode
  | (env, .register) => c.register env
  | (env, .arrive arrival) => c.arrive env arrival
  | (env, .keepalive) => c.keepalive env
  | (env, .tun pkt) => c.tun env pkt
  | (env, .shutdown) => c.shutdown env

/-- The calls of `client_handle_server_packet`: only a keepalive is answered. -/
def clientCalls (env : Env) (cli : Client) (io : Proc) (buf : Bytes) : List Outbox :=
  match readFrame buf with
  | none => []
  | some f =>
    if (protoReplayAccept cli.serverReplay f.sequence).1 then
      match MsgType.ofCode f.type, protoReadKeepaliveTimestamp f.payload with
      | some .keepalive, some sentAt => [(Outbox.build env io (.keepaliveAck sentAt)).1]
      | _, _ => []
    else []

/-- The calls of a client process. -/
def ClientNode.calls (env : Env) (c : ClientNode) : NodeEvent → List Outbox
  | .register =>
    match c.phase with
    | .attempt (_ + 1) => [(Outbox.build env c.io (.register c.cli.name.1)).1]
    | _ => []
  | .arrive (.datagram wire src) =>
    match c.phase, netRecv env.aead env.key wire with
    | .running, some buf =>
      if c.io.running && netAddrEqual src c.cli.serverAddr then clientCalls env c.cli c.io buf else []
    | _, _ => []
  | .arrive _ => []
  | .keepalive =>
    match c.phase with
    | .running =>
      if clientServerTimedOut c.cli env.time then []
      else [(Outbox.build env c.io (.keepalive env.nowMs)).1]
    | _ => []
  | .tun pkt =>
    match c.phase, protoValidateIpv4Packet pkt with
    | .running, none => [(Outbox.build env c.io (.data pkt)).1]
    | _, _ => []
  | .shutdown =>
    match c.phase with
    | .running => [(Outbox.build env c.io .disconnect).1]
    | _ => []

/-! ### Buffers that `net_send` takes -/

/-- The buffer and its length pass the checks of `net_send` and `proto_encrypt`. -/
def Outbox.Proper (box : Outbox) : Prop :=
  ∃ len, box.len = some len ∧ tundHdrSize ≤ len ∧ len - tundHdrSize ≤ tundMaxPlaintext ∧
    box.buf.getD 0 0 = tundMagic ∧ box.buf.getD 1 0 = tundProtocolVersion ∧
    lengthField box.buf = len - tundHdrSize

/-- A builder was run on the buffer with a message that fits. -/
structure Outbox.Filled (env : Env) (box : Outbox) : Prop where
  ready : ∃ m, box.Ready m
  works : box.len = none → ¬ env.RandomWorks

section Filled

variable {env : Env} {box : Outbox} {m : Msg}

theorem Outbox.Ready.proper (h : box.Ready m) (hlen : box.len ≠ none) : box.Proper := by
  rcases h.holds with hnone | ⟨hsome, hholds⟩
  · exact absurd hnone hlen
  · obtain ⟨h0, h1, -, hfield⟩ := protoReadHdr_eq_ok hholds.read
    rw [toNat_ofNat_payload hholds.short] at hfield
    have hshort := hholds.short
    exact ⟨_, hsome, by omega, by omega, h0, h1, by omega⟩

/-- With a working random source such a buffer is encrypted, and the datagram fits the receiver's
buffer. -/
theorem Outbox.Ready.encrypts (h : box.Ready m) (hr : env.RandomWorks) {len : ℕ}
    (hlen : box.len = some len) (io : Proc) :
    ∃ n wire io', protoEncrypt env io (box.buf.take len) len = (some n, wire, io') ∧
      n ≤ tundMaxPkt := by
  rcases h.holds with hnone | ⟨hsome, hholds⟩
  · rw [hlen] at hnone
    cases hnone
  · obtain rfl : len = tundHdrSize + m.payload.length := Option.some.inj (hlen.symm.trans hsome)
    have hcut : Holds (box.buf.take (tundHdrSize + m.payload.length)) m.type.code m.payload := by
      obtain ⟨hp, hread, pre, rest, hpre, hbuf⟩ := hholds
      refine ⟨hp, ?_, pre, [], hpre, ?_⟩
      · rw [protoReadHdr_take (by simp only [tundHdrSize]; omega), hread]
      · rw [hbuf, List.take_left' (by rw [List.length_append, hpre]), List.append_nil]
    obtain ⟨n, wire, io', he⟩ := protoEncrypt_of_works hr io hcut
    refine ⟨n, wire, io', he, ?_⟩
    obtain ⟨rfl, -⟩ := protoEncrypt_some hcut he
    have hshort := hholds.short
    rw [tundMaxPkt, tundMaxPayload]
    omega

theorem filled_of_build (env : Env) (io : Proc) {buf : Bytes} (hbuf : buf.length = tundMaxPkt)
    (hm : m.payload.length ≤ tundMaxPlaintext) :
    (Outbox.mk (m.build env io buf).1 (m.build env io buf).2.1).Filled env where
  ready := ⟨m, build_ready env io hbuf m⟩
  works hnone hr := by
    rcases (m.build_cases env io hbuf).2 with ⟨-, hno⟩ | ⟨hsome, -⟩
    · exact hno ⟨hr, hm⟩
    · exact absurd (hsome.symm.trans hnone) (by simp)

theorem Outbox.filled_build (env : Env) (io : Proc) (hm : m.payload.length ≤ tundMaxPlaintext) :
    (Outbox.build env io m).1.Filled env := filled_of_build env io Outbox.length_fresh hm

end Filled

/-! ### Acts -/

/-- Every send of the list is of a buffer that a builder has filled; `has` says whether the list
starts with one. -/
inductive Built (env : Env) : Prop → List Act → Prop
  | nil {has : Prop} : Built env has []
  | build {has : Prop} {m : Msg} {acts : List Act} (hm : m.payload.length ≤ tundMaxPlaintext)
      (h : Built env True acts) : Built env has (.build m :: acts)
  | send {has : Prop} {dest : SockAddr} {acts : List Act} (hs : has) (h : Built env has acts) :
      Built env has (.send dest :: acts)
  | forward {has : Prop} {peer : ServerPeerSnapshot} {n : UInt64} {acts : List Act} (hs : has)
      (h : Built env has acts) : Built env has (.forward peer n :: acts)
  | probe {has : Prop} {box : Outbox} {dest : SockAddr} {acts : List Act} (hbox : box.Filled env)
      (h : Built env has acts) : Built env has (.probe box dest :: acts)
  | tunWrite {has : Prop} {pkt : Bytes} {acts : List Act} (h : Built env has acts) :
      Built env has (.tunWrite pkt :: acts)
  | event {has : Prop} {e : Event} {acts : List Act} (h : Built env has acts) :
      Built env has (.event e :: acts)

section Built

variable {env : Env}

theorem Built.mono {p q : Prop} (hpq : p → q) {acts : List Act} (h : Built env p acts) :
    Built env q acts := by
  induction h with
  | nil => exact .nil
  | build hm h _ => exact .build hm h
  | send hs _ ih => exact .send (hpq hs) (ih hpq)
  | forward hs _ ih => exact .forward (hpq hs) (ih hpq)
  | probe hbox _ ih => exact .probe hbox (ih hpq)
  | tunWrite _ ih => exact .tunWrite (ih hpq)
  | event _ ih => exact .event (ih hpq)

theorem Built.append {p : Prop} {as bs : List Act} (ha : Built env p as) (hb : Built env p bs) :
    Built env p (as ++ bs) := by
  induction ha with
  | nil => exact hb
  | build hm _ ih => exact .build hm (ih (hb.mono fun _ => trivial))
  | send hs _ ih => exact .send hs (ih hb)
  | forward hs _ ih => exact .forward hs (ih hb)
  | probe hbox _ ih => exact .probe hbox (ih hb)
  | tunWrite _ ih => exact .tunWrite (ih hb)
  | event _ ih => exact .event (ih hb)

/-- **Acts.**  A list that sends only filled buffers hands only filled ones to `net_send`. -/
theorem Built.filled {has : Prop} {w : Work} {acts : List Act} (h : Built env has acts)
    (hsize : w.box.buf.length = tundMaxPkt) (hbox : has → w.box.Filled env) :
    ∀ box ∈ sendCalls env w acts, box.Filled env := by
  -- in each case the first buffer is the one that the act sends
  induction h generalizing w with
  | nil => simp [sendCalls]
  | @build has m acts hm _ ih =>
    have hfilled := filled_of_build env w.io hsize hm
    exact ih (w := (Act.build m).exec env w) (build_ready env w.io hsize m).size fun _ => hfilled
  | @send has dest acts hs _ ih =>
    intro box hmem
    rcases List.mem_cons.1 hmem with rfl | hmem
    · exact hbox hs
    · exact ih (w := (Act.send dest).exec env w) hsize hbox box hmem
  | @forward has peer n acts hs _ ih =>
    have hsame : ((Act.forward peer n).exec env w).box = w.box := by
      simp only [Act.exec]
      split <;> rfl
    intro box hmem
    rcases List.mem_cons.1 hmem with rfl | hmem
    · exact hbox hs
    · refine ih ?_ ?_ box hmem <;> rw [hsame]
      · exact hsize
      · exact hbox
  | @probe has filled dest acts hfilled _ ih =>
    intro box hmem
    rcases List.mem_cons.1 hmem with rfl | hmem
    · exact hfilled
    · exact ih (w := (Act.probe filled dest).exec env w) hsize hbox box hmem
  | @tunWrite has pkt acts _ ih => exact ih (w := (Act.tunWrite pkt).exec env w) hsize hbox
  | @event has e acts _ ih => exact ih (w := (Act.event e).exec env w) hsize hbox

theorem Built.finish (io : Proc) (locked : Server × List Act) (h : Built env False locked.2) :
    ∀ box ∈ finishCalls env io locked, box.Filled env :=
  h.filled Outbox.length_fresh False.elim

theorem built_map_send (ds : List SockAddr) : Built env True (ds.map .send) := by
  induction ds with
  | nil => exact .nil
  | cons d ds ih => exact .send trivial ih

theorem built_map_forward (ps : List ServerPeerSnapshot) (n : UInt64) :
    Built env True (ps.map fun p => .forward p n) := by
  induction ps with
  | nil => exact .nil
  | cons p ps ih => exact .forward trivial ih

theorem built_assignActs (p : Peer) : Built env False (assignActs p) :=
  .build (Msg.length_payload_le nofun) (.send trivial .nil)

theorem built_joinActs (p : Peer) (others : List ServerPeerSnapshot) :
    Built env False (joinActs p others) := by
  have hsends : Built env True ((others.map ServerPeerSnapshot.realAddr).map .send) :=
    built_map_send _
  rw [List.map_map] at hsends
  exact .build (Msg.length_payload_le nofun) (.send trivial (.event
    (.build (Msg.length_payload_le nofun) (.send trivial
      (.build (Msg.length_payload_le nofun) hsends)))))

theorem built_leaveActs (vip : UInt32) (ps : List ServerPeerSnapshot) :
    Built env False (leaveActs vip ps) :=
  .build (Msg.length_payload_le nofun) (built_map_forward ps 0)

theorem built_relayActs {payload : Bytes} (hp : payload.length ≤ tundMaxPlaintext)
    (ps : List ServerPeerSnapshot) : Built env False (relayActs payload ps) := by
  refine .build ?_ (built_map_forward ps _)
  rw [Msg.payload, dataPayload_of_le hp]
  exact hp

theorem built_dataActs {payload : Bytes} (hp : payload.length ≤ tundMaxPlaintext) (srv : Server)
    (i : Slot) : Built env False (dataActs srv payload i) := by
  unfold dataActs
  split_ifs
  · exact .tunWrite .nil
  · exact (built_relayActs hp _).append (.tunWrite .nil)
  · split
    · exact .nil
    · exact built_relayActs hp _

theorem built_serverDispatchLocked (srv : Server) {f : Frame} (src : SockAddr)
    (hf : f.payload.length ≤ tundMaxPlaintext) :
    Built env False (serverDispatchLocked env srv f src).2 := by
  unfold serverDispatchLocked
  split
  · rcases serverRegisterLocked_cases env srv f.payload src f.sequence with
      ⟨i, -, -, h⟩ | ⟨i, -, -, h⟩ | ⟨-, -, h⟩ | ⟨i, -, -, -, h⟩ <;> rw [h]
    · exact .nil
    · exact built_assignActs _
    · exact .nil
    · exact built_joinActs _ _
  · rcases serverDataLocked_cases srv f.payload src with ⟨-, h⟩ | ⟨i, -, h⟩ <;> rw [h]
    · exact .nil
    · exact built_dataActs hf _ _
  · rcases serverKeepaliveLocked_cases env srv f.payload src with h | ⟨i, _, -, h⟩ <;> rw [h]
    · exact .nil
    · exact .build (Msg.length_payload_le nofun) (.send trivial .nil)
  · rcases serverKeepaliveAckLocked_cases env srv f.payload src with h | ⟨i, _, -, h⟩ <;> rw [h] <;>
      exact .nil
  · rcases serverDisconnectLocked_cases srv src with ⟨-, h⟩ | ⟨i, -, h⟩ <;> rw [h]
    · exact .nil
    · exact (built_leaveActs _ _).append (.event .nil)
  · exact .nil

theorem built_serverSweepLocked (srv : Server) {box : Outbox} (hbox : box.Filled env) :
    Built env False (serverSweepLocked env srv box).2 := by
  unfold serverSweepLocked
  rcases (List.finRange tundMaxPeers).foldl (sweepSlot env.time) (srv, [], []) with
    ⟨srv', timedOut, keepalive⟩
  refine Built.append ?_ ?_
  · -- one PEER_LEAVE after the other
    generalize (if timedOut = [] then [] else serverSnapshotBroadcastLocked srv' none) = peers
    induction timedOut with
    | nil => exact .nil
    | cons t ts ih => exact Built.append (.event (built_leaveActs _ _)) ih
  · induction keepalive with
    | nil => exact .nil
    | cons p ps ih => exact .probe hbox ih

end Built

/-! ### Whole events -/

/-- What the program reads is authentic: a packet was decrypted, and a TUN packet fits its
buffer. -/
def ServerEvent.Authentic : ServerEvent → Prop
  | .packet env buf _ => ∃ wire, netRecv env.aead env.key wire = some buf
  | .tun _ pkt => pkt.length ≤ tundMaxPlaintext
  | _ => True

theorem length_netRecv_le {aead : Aead} {key wire buf : Bytes}
    (h : netRecv aead key wire = some buf) : buf.length ≤ tundHdrSize + tundMaxPlaintext := by
  simp only [netRecv] at h
  set b := wire.take tundMaxPkt with hb
  rcases hd : protoDecrypt aead key b b.length with ⟨_ | n, b'⟩
  · rw [hd] at h
    cases h
  · rw [hd] at h
    obtain rfl := Option.some.inj h
    rcases protoDecrypt_cases aead key b b.length with ⟨-, hfail⟩ | ⟨⟨-, -, -, hge, hlen, hle, -⟩, hok⟩
    · rw [hd] at hfail
      cases hfail
    · rw [hd] at hok
      have hn : n = b.length - tundAuthTagSize := Option.some.inj hok
      have htake : (b'.take n).length ≤ n := List.length_take_le _ _
      rw [tundMaxPayload] at hle
      omega

theorem length_payload_readFrame {buf : Bytes} {f : Frame} (h : readFrame buf = some f) :
    f.payload.length ≤ buf.length - tundHdrSize := by
  unfold readFrame at h
  split at h
  · cases h
  · split_ifs at h with hlen
    obtain ⟨seq, -, rfl⟩ := Option.map_eq_some_iff.1 h
    simp only [Bytes.slice, List.length_take, List.length_drop]
    omega

theorem length_payload_authentic {env : Env} {wire buf : Bytes} {f : Frame}
    (hrecv : netRecv env.aead env.key wire = some buf) (h : readFrame buf = some f) :
    f.payload.length ≤ tundMaxPlaintext := by
  have h1 := length_netRecv_le hrecv
  have h2 := length_payload_readFrame h
  omega

theorem serverCalls_filled (s : ServerState) {e : ServerEvent} (he : e.Authentic) :
    ∀ box ∈ serverCalls s e, box.Filled e.env := by
  cases e with
  | packet env buf src =>
    obtain ⟨wire, hrecv⟩ := he
    intro box hbox
    simp only [serverCalls] at hbox
    cases hread : readFrame buf with
    | none => simp [hread] at hbox
    | some f =>
      have hf := length_payload_authentic hrecv hread
      simp only [hread] at hbox
      split_ifs at hbox
      · rcases hacc : serverAcceptRegisteredSequence s.srv src f.sequence with ⟨_ | _, srv⟩ <;>
          rw [hacc] at hbox
        · cases hbox
        · exact Built.finish s.io _ (built_serverDispatchLocked srv src hf) box hbox
      · exact Built.finish s.io _ (built_serverDispatchLocked s.srv src hf) box hbox
  | sweep env =>
    rcases hkeep : Outbox.build env s.io (.keepalive env.nowMs) with ⟨keepalive, io⟩
    have hkeepalive : keepalive.Filled env := by
      have hbuilt := Outbox.filled_build (m := .keepalive env.nowMs) env s.io
        (Msg.length_payload_le nofun)
      rwa [hkeep] at hbuilt
    have hcalls : serverCalls s (.sweep env) =
        finishCalls env io (serverSweepLocked env s.srv keepalive) := by
      simp only [serverCalls, hkeep]
    have hbuilt := built_serverSweepLocked s.srv hkeepalive
    rw [hcalls]
    generalize serverSweepLocked env s.srv keepalive = locked at hbuilt
    exact Built.finish io locked hbuilt
  | tun env pkt =>
    intro box hbox
    simp only [serverCalls] at hbox
    cases hval : protoValidateIpv4Packet pkt with
    | some e => simp [hval] at hbox
    | none =>
      simp only [hval] at hbox
      have hbuilt : ∀ peers, Built env False (relayActs pkt peers) := built_relayActs he
      exact Built.filled (hbuilt _) Outbox.length_fresh False.elim box hbox
  | shutdown env =>
    have hbuilt : Built env False (.build .disconnect ::
        (serverSnapshotBroadcastLocked s.srv none).map fun p => .forward p 0) :=
      .build (Msg.length_payload_le nofun) (built_map_forward _ 0)
    exact hbuilt.filled Outbox.length_fresh False.elim

theorem ClientNode.calls_filled (env : Env) (c : ClientNode) {e : NodeEvent}
    (he : ∀ pkt, e = .tun pkt → pkt.length ≤ tundMaxPlaintext) :
    ∀ box ∈ c.calls env e, box.Filled env := by
  have hone : ∀ {m : Msg}, m.payload.length ≤ tundMaxPlaintext →
      ∀ box ∈ [(Outbox.build env c.io m).1], box.Filled env := by
    intro m hm box hbox
    rw [List.mem_singleton.1 hbox]
    exact Outbox.filled_build env c.io hm
  unfold ClientNode.calls
  cases e with
  | register =>
    dsimp only
    split
    · exact hone (Msg.length_payload_le (fun h => by cases h))
    · simp
  | arrive arrival =>
    cases arrival with
    | datagram wire src =>
      dsimp only
      split
      · split_ifs
        · unfold clientCalls
          split
          · simp
          · split_ifs
            · split
              · exact hone (Msg.length_payload_le (fun h => by cases h))
              · simp
            · simp
        · simp
      · simp
    | _ => simp
  | keepalive =>
    dsimp only
    split
    · split_ifs
      · simp
      · exact hone (Msg.length_payload_le (fun h => by cases h))
    · simp
  | tun pkt =>
    dsimp only
    split
    · have hpkt := he pkt rfl
      refine hone ?_
      rw [Msg.payload, dataPayload_of_le hpkt]
      exact hpkt
    · simp
  | shutdown =>
    dsimp only
    split
    · exact hone (Msg.length_payload_le (fun h => by cases h))
    · simp

/-- `net_send` takes the buffer when the random source works, and it is proper unless its builder
failed. -/
def Outbox.Taken (env : Env) (box : Outbox) : Prop :=
  (box.len = none → ¬ env.RandomWorks) ∧
  (box.len ≠ none → box.Proper) ∧
  (env.RandomWorks → ∃ len, box.len = some len ∧ ∀ io, ∃ n wire io',
    protoEncrypt env io (box.buf.take len) len = (some n, wire, io') ∧ n ≤ tundMaxPkt)

theorem Outbox.Filled.taken {env : Env} {box : Outbox} (h : box.Filled env) : box.Taken env := by
  obtain ⟨m, hready⟩ := h.ready
  refine ⟨h.works, hready.proper, fun hr => ?_⟩
  obtain ⟨len, hlen⟩ := Option.ne_none_iff_exists'.1 fun hnone => h.works hnone hr
  exact ⟨len, hlen, hready.encrypts hr hlen⟩

/-! ### The calls are those of the handlers -/

/-- The process gets from `io` to `io'` by `net_send` of these buffers, in this order; what it does
before, between and after them puts out no datagram. -/
inductive Hands (env : Env) : Proc → List Outbox → Proc → Prop
  | quiet {io io' : Proc} (h : datagramsOf io'.out = datagramsOf io.out) : Hands env io [] io'
  | send (io : Proc) (box : Outbox) (dest : SockAddr) :
      Hands env io [box] (netSend env io box.buf box.len dest).2
  | trans {io io' io'' : Proc} {bs cs : List Outbox} (h : Hands env io bs io')
      (h' : Hands env io' cs io'') : Hands env io (bs ++ cs) io''

section Hands

variable {env : Env}

theorem Act.exec_hands (w : Work) (a : Act) :
    Hands env w.io (a.calls w.box) (a.exec env w).io := by
  cases a with
  | build m =>
    refine .quiet ?_
    rw [show ((Act.build m).exec env w).io = (m.build env w.io w.box.buf).2.2 from rfl,
      (m.build_out env w.io w.box.buf).1]
  | send dest => exact .send w.io w.box dest
  | probe box dest => exact .send w.io box dest
  | forward peer n =>
    have hsend : Hands env w.io [w.box] (netSend env w.io w.box.buf w.box.len peer.realAddr).2 :=
      .send w.io w.box peer.realAddr
    simp only [Act.exec, Act.calls]
    rcases h : netSend env w.io w.box.buf w.box.len peer.realAddr with ⟨_ | _, io⟩ <;>
      rw [h] at hsend <;> exact hsend
  | tunWrite pkt => exact .quiet (by simp [Act.exec, Tund.tunWrite, datagramsOf])
  | event e =>
    refine .quiet ?_
    simp only [Act.exec, appEvent]
    split_ifs <;> simp [datagramsOf]

/-- **Acts.**  A list of acts hands its calls to `net_send`. -/
theorem runActs_hands (w : Work) (acts : List Act) :
    Hands env w.io (sendCalls env w acts) (runActs env w acts).io := by
  induction acts generalizing w with
  | nil => exact .quiet rfl
  | cons a acts ih => exact (Act.exec_hands w a).trans (ih (a.exec env w))

theorem finish_hands (io : Proc) (locked : Server × List Act) :
    Hands env io (finishCalls env io locked) (finish env io locked).2 :=
  runActs_hands ⟨locked.1, io, .fresh⟩ locked.2

theorem sendMsg_hands (io : Proc) (m : Msg) (dest : SockAddr) :
    Hands env io [(Outbox.build env io m).1] (sendMsg env io m dest).2 := by
  have hbuild : Hands env io [] (Outbox.build env io m).2 :=
    .quiet (by rw [(Outbox.build_out env io m).1])
  exact hbuild.trans (.send _ _ dest)

/-- **The server.** -/
theorem serverStep_hands (s : ServerState) (e : ServerEvent) :
    Hands e.env s.io (serverCalls s e) (serverStep s e).io := by
  cases e with
  | packet env buf src =>
    simp only [serverStep, serverCalls, serverHandlePacket]
    cases readFrame buf with
    | none => exact .quiet rfl
    | some f =>
      dsimp only
      split_ifs
      · rcases serverAcceptRegisteredSequence s.srv src f.sequence with ⟨_ | _, srv⟩
        · exact .quiet rfl
        · exact finish_hands s.io _
      · exact finish_hands s.io _
  | sweep env =>
    rcases hkeep : Outbox.build env s.io (.keepalive env.nowMs) with ⟨keepalive, io⟩
    have hbuild : Hands env s.io [] io := by
      have hout := (Outbox.build_out env s.io (.keepalive env.nowMs)).1
      rw [hkeep] at hout
      exact .quiet (by rw [hout])
    simp only [serverStep, serverCalls, serverSweep, hkeep, ServerEvent.env]
    generalize serverSweepLocked env s.srv keepalive = locked
    exact hbuild.trans (finish_hands io locked)
  | tun env pkt =>
    simp only [serverStep, serverCalls, serverTunPacket]
    cases protoValidateIpv4Packet pkt with
    | some e => exact .quiet rfl
    | none => exact finish_hands s.io _
  | shutdown env => exact finish_hands s.io _

theorem clientHandleServerPacket_hands (cli : Client) (io : Proc) (buf : Bytes) :
    Hands env io (clientCalls env cli io buf) (clientHandleServerPacket env cli io buf).2 := by
  unfold clientCalls clientHandleServerPacket
  cases readFrame buf with
  | none => exact .quiet rfl
  | some f =>
    dsimp only
    rcases protoReplayAccept cli.serverReplay f.sequence with ⟨_ | _, replay⟩
    · exact .quiet rfl
    · simp only [if_true, clientDispatch]
      cases MsgType.ofCode f.type with
      | none => exact .quiet rfl
      | some type =>
        cases type with
        | keepalive =>
          dsimp only
          rw [clientHandleKeepalive]
          cases protoReadKeepaliveTimestamp f.payload with
          | none => exact .quiet rfl
          | some sentAt => exact sendMsg_hands io _ _
        | data =>
          refine .quiet ?_
          simp only [clientHandleData]
          split
          · rfl
          · simp [Tund.tunWrite, datagramsOf]
        | _ => exact .quiet rfl

theorem ClientNode.arrive_hands (c : ClientNode) (arrival : Arrival) :
    Hands env c.io (c.calls env (.arrive arrival)) (c.arrive env arrival).io := by
  simp only [ClientNode.arrive]
  cases hphase : c.phase with
  | running =>
    cases arrival with
    | datagram wire src =>
      simp only [ClientNode.calls, hphase, clientReceive]
      cases hrecv : netRecv env.aead env.key wire with
      | none =>
        refine .quiet ?_
        split_ifs <;> rfl
      | some buf =>
        dsimp only
        cases c.io.running with
        | false => exact .quiet rfl
        | true =>
          simp only [if_true, Bool.true_and]
          split_ifs
          · exact clientHandleServerPacket_hands c.cli c.io buf
          · exact .quiet rfl
    | _ =>
      refine .quiet ?_
      split_ifs <;> rfl
  | await left =>
    have hcalls : c.calls env (.arrive arrival) = [] := by
      cases arrival <;> simp [ClientNode.calls, hphase]
    rw [hcalls]
    dsimp only
    rcases clientAwait env c.cli arrival with ⟨_ | _ | _, cli⟩ <;> exact .quiet rfl
  | _ =>
    have hcalls : c.calls env (.arrive arrival) = [] := by
      cases arrival <;> simp [ClientNode.calls, hphase]
    rw [hcalls]
    exact .quiet rfl

/-- **A client.** -/
theorem ClientNode.step_hands (c : ClientNode) (e : NodeEvent) :
    Hands env c.io (c.calls env e) (c.step (env, e)).io := by
  cases e with
  | register =>
    simp only [ClientNode.step, ClientNode.register, ClientNode.calls]
    rcases c.phase with (_ | left) | left | _ | _
    · exact .quiet rfl
    · have hsend : Hands env c.io [(Outbox.build env c.io (.register c.cli.name.1)).1]
          (sendMsg env c.io (.register c.cli.name.1) c.cli.serverAddr).2 := sendMsg_hands _ _ _
      dsimp only
      rcases h : sendMsg env c.io (.register c.cli.name.1) c.cli.serverAddr with ⟨_ | _, io⟩ <;>
        rw [h] at hsend <;> exact hsend
    all_goals exact .quiet rfl
  | arrive arrival => exact c.arrive_hands arrival
  | keepalive =>
    simp only [ClientNode.step, ClientNode.keepalive, ClientNode.calls]
    cases c.phase with
    | running =>
      simp only [clientKeepalivePass]
      split_ifs
      · exact .quiet rfl
      · exact sendMsg_hands c.io _ _
    | _ => exact .quiet rfl
  | tun pkt =>
    simp only [ClientNode.step, ClientNode.tun, ClientNode.calls]
    cases c.phase with
    | running =>
      simp only [clientTunPacket]
      cases protoValidateIpv4Packet pkt with
      | some e => exact .quiet rfl
      | none =>
        have hsend : Hands env c.io [(Outbox.build env c.io (.data pkt)).1]
            (sendMsg env c.io (.data pkt) c.cli.serverAddr).2 := sendMsg_hands _ _ _
        dsimp only
        rcases h : sendMsg env c.io (.data pkt) c.cli.serverAddr with ⟨_ | _, io⟩ <;>
          rw [h] at hsend
        · exact hsend
        · dsimp only
          split_ifs <;> exact hsend
    | _ => exact .quiet rfl
  | shutdown =>
    simp only [ClientNode.step, ClientNode.shutdown, ClientNode.calls]
    cases c.phase with
    | running => exact sendMsg_hands c.io _ _
    | _ => exact .quiet rfl

end Hands

/-! ### What is put out -/

/-- Of the things `xs` the process has put out some, in order, each as a datagram that `rel` relates
to it; and all of them if the random source works. -/
def Proc.Puts {α : Type} (env : Env) (rel : Datagram → α → Prop) (io io' : Proc) (xs : List α) : Prop :=
  ∃ ds ys, datagramsOf io'.out = datagramsOf io.out ++ ds ∧ ys.Sublist xs ∧
    (env.RandomWorks → ys = xs) ∧ List.Forall₂ rel ds ys

/-- The datagram is what `net_send` makes of the buffer: encrypted, 16 bytes longer, and within the
receiver's buffer. -/
def Datagram.MadeFrom (d : Datagram) (box : Outbox) : Prop :=
  ∃ len, box.len = some len ∧ d.buf = box.buf.take len ∧
    d.wire.length = len + tundAuthTagSize ∧ d.wire.length ≤ tundMaxPkt

section Puts

variable {α : Type} {env : Env} {rel : Datagram → α → Prop} {io io' io'' : Proc} {xs ys : List α}

theorem Proc.Puts.nil (h : datagramsOf io'.out = datagramsOf io.out) : io.Puts env rel io' [] :=
  ⟨[], [], by rw [h, List.append_nil], List.Sublist.refl _, fun _ => rfl, .nil⟩

theorem Proc.Puts.append (h : io.Puts env rel io' xs) (h' : io'.Puts env rel io'' ys) :
    io.Puts env rel io'' (xs ++ ys) := by
  obtain ⟨ds, zs, hout, hsub, hall, hd⟩ := h
  obtain ⟨ds', zs', hout', hsub', hall', hd'⟩ := h'
  refine ⟨ds ++ ds', zs ++ zs', ?_, hsub.append hsub', fun hr => ?_, List.rel_append hd hd'⟩
  · rw [hout', hout, List.append_assoc]
  · rw [hall hr, hall' hr]

/-- A filled buffer leaves as one datagram, unless the random source fails. -/
theorem Outbox.Filled.netSend_puts {box : Outbox} (h : box.Filled env) (io : Proc) (dest : SockAddr) :
    io.Puts env Datagram.MadeFrom (netSend env io box.buf box.len dest).2 [box] := by
  obtain ⟨m, hready⟩ := h.ready
  rcases hready.holds with hnone | ⟨hsome, hholds⟩
  · rw [hnone, netSend_none]
    exact ⟨[], [], by simp, List.nil_sublist _, fun hr => absurd hr (h.works hnone), .nil⟩
  rw [hsome]
  rcases netSend_cases env io hholds dest with ⟨hno, io₁, hout, -, heq⟩ |
    ⟨seq, nonce, io₁, hn, -, -, heq⟩ <;> rw [heq]
  · exact ⟨[], [], by simp [hout], List.nil_sublist _, fun hr => absurd hr hno, .nil⟩
  · refine ⟨[_], [box], datagramsOf_append _ _, List.Sublist.refl _, fun _ => rfl, .cons ?_ .nil⟩
    have hshort := hholds.short
    refine ⟨_, hsome, rfl, length_wireBytes hn, ?_⟩
    rw [length_wireBytes hn, tundMaxPkt, tundMaxPayload]
    omega

/-- Filled buffers leave one for one. -/
theorem Hands.puts {calls : List Outbox} (h : Hands env io calls io')
    (hfilled : ∀ box ∈ calls, box.Filled env) : io.Puts env Datagram.MadeFrom io' calls := by
  induction h with
  | quiet h => exact .nil h
  | send io box dest => exact (hfilled box (List.mem_singleton_self box)).netSend_puts io dest
  | trans _ _ ih ih' =>
    exact (ih fun box hbox => hfilled box (List.mem_append_left _ hbox)).append
      (ih' fun box hbox => hfilled box (List.mem_append_right _ hbox))

end Puts

/-- **Nothing that is built is refused.**  In every state, whatever authentic datagram, sweep or
TUN packet of at most 1600 bytes the server or a client works on, it gets to its next state by
handing certain buffers to `net_send`.  Each of them has the magic, the version, a length field that
is its length less 37 and at most 1600 bytes behind the header, unless its builder returned `-1`,
which a working random source excludes; then `proto_encrypt` succeeds on it and the datagram fits
into `TUND_MAX_PKT` bytes.  What the process puts out are these buffers encrypted: all of them, in
order, when the random source works. -/
theorem transport_takes_all :
    (∀ (s : ServerState) (e : ServerEvent), e.Authentic →
      Hands e.env s.io (serverCalls s e) (serverStep s e).io ∧
      (∀ box ∈ serverCalls s e, box.Taken e.env) ∧
      s.io.Puts e.env Datagram.MadeFrom (serverStep s e).io (serverCalls s e)) ∧
    ∀ (env : Env) (c : ClientNode) (e : NodeEvent),
      (∀ pkt, e = .tun pkt → pkt.length ≤ tundMaxPlaintext) →
      Hands env c.io (c.calls env e) (c.step (env, e)).io ∧
      (∀ box ∈ c.calls env e, box.Taken env) ∧
      c.io.Puts env Datagram.MadeFrom (c.step (env, e)).io (c.calls env e) := by
  constructor
  · intro s e he
    have hhands := serverStep_hands s e
    have hfilled := serverCalls_filled s he
    exact ⟨hhands, fun box hbox => (hfilled box hbox).taken, hhands.puts hfilled⟩
  · intro env c e he
    have hhands : Hands env c.io (c.calls env e) (c.step (env, e)).io := c.step_hands e
    have hfilled := c.calls_filled env he
    exact ⟨hhands, fun box hbox => (hfilled box hbox).taken, hhands.puts hfilled⟩

/-- Two registered peers. -/
def twoPeers : Server :=
  (serverInit.join 0 { Peer.zero with active := true, virtIp := poolIp 0, realAddr := ⟨2, 1, 1⟩ }).join 1
    { Peer.zero with active := true, virtIp := poolIp 1, realAddr := ⟨2, 1, 2⟩ }

/-- The lengths on the wire. -/
theorem wireLengths_of_puts {env : Env} {io' : Proc} {calls : List Outbox} (hr : env.RandomWorks)
    (h : Proc.start.Puts env Datagram.MadeFrom io' calls) :
    (datagramsOf io'.out).map (fun d => some d.wire.length) =
      calls.map fun box => box.len.map (· + tundAuthTagSize) := by
  obtain ⟨ds, bs, hout, -, hall, hmade⟩ := h
  rw [hout, ← hall hr]
  show ds.map _ = bs.map _
  clear hout hall
  induction hmade with
  | nil => rfl
  | cons hd _ ih =>
    obtain ⟨len, hlen, -, hwire, -⟩ := hd
    rw [List.map_cons, List.map_cons, ih, hlen, hwire]
    rfl

/-- A broadcast from the server's TUN device leaves as two datagrams of 73 bytes, and a packet from
a client's as one. -/
theorem transport_takes_all_broadcast :
    let env := Env.plain 100 5
    let broadcast : Bytes := [0x45, 0, 0, 20, 0, 0, 0, 0, 64, 17, 0, 0, 10, 9, 0, 1, 10, 9, 0, 255]
    let pkt : Bytes := [0x45, 0, 0, 20, 0, 0, 0, 0, 64, 17, 0, 0, 10, 9, 0, 2, 10, 9, 0, 1]
    let c : ClientNode := ⟨⟨2, 1, 1⟩, clientInit ⟨2, 5, 5⟩ [97], Proc.start, .running⟩
    (datagramsOf (serverStep ⟨twoPeers, Proc.start⟩ (.tun env broadcast)).io.out).map
        (fun d => some d.wire.length) = [some 73, some 73] ∧
    (datagramsOf (c.step (env, .tun pkt)).io.out).map (fun d => some d.wire.length) = [some 73] := by
  intro env broadcast pkt c
  have hr : env.RandomWorks := Env.plain_randomWorks 100 5
  have hbroadcast : broadcast.length ≤ tundMaxPlaintext := by decide
  have hpkt : pkt.length ≤ tundMaxPlaintext := by decide
  obtain ⟨-, -, hserver⟩ := transport_takes_all.1 ⟨twoPeers, Proc.start⟩ (.tun env broadcast) hbroadcast
  obtain ⟨-, -, hclient⟩ := transport_takes_all.2 env c (.tun pkt) fun p hp => by
    obtain rfl := NodeEvent.tun.inj hp
    exact hpkt
  exact ⟨(wireLengths_of_puts hr hserver).trans (by decide +kernel),
    (wireLengths_of_puts hr hclient).trans (by decide +kernel)⟩

/-- An environment whose random source fails. -/
def Env.mute (time : ℤ) (nowMs : UInt64) : Env := { Env.plain time nowMs with random := fun _ => none }

/-- When the random source fails, a client hands the `-1` of its builder to `net_send`. -/
theorem transport_refuses_mute :
    let c := ClientNode.start ⟨2, 1, 1⟩ ⟨2, 2, 2⟩ [97]
    ∃ box ∈ c.calls (Env.mute 0 0) .register, box.len = none ∧ ¬ box.Proper := by
  intro c
  have hnone : (Outbox.build (Env.mute 0 0) c.io (.register c.cli.name.1)).1.len = none := by
    decide +kernel
  refine ⟨(Outbox.build (Env.mute 0 0) c.io (.register c.cli.name.1)).1, ?_, hnone, ?_⟩
  · simp [c, ClientNode.calls, ClientNode.start, tundRegisterRetries]
  · rintro ⟨len, hlen, -⟩
    rw [hnone] at hlen
    cases hlen

end Tund
