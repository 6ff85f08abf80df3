import Tund.Server.Table

/-!
# The server's handlers

Each handler of the source takes `peers_lock`, changes the table and copies out what it
needs, releases the lock, and only then builds datagrams, sends them, writes to the TUN
device and prints events.  A handler is therefore a pair: its locked section, a function
to the new table and the list of `Act`s still to do, and the run of these acts.

* `Act.exec`, `runActs`: one act, and a list of them;
* `serverRegisterLocked`, `serverDisconnectLocked`, `serverDataLocked`,
  `serverKeepaliveLocked`, `serverKeepaliveAckLocked`, `serverSweepLocked`: the locked
  sections;
* `serverHandlePacket`, `serverSweep`, `serverTunPacket`, `serverShutdown`: whole calls.

Log lines are left out.
-/

namespace Tund

def tundTunMtu : UInt16 := 1400

/-! ### What is done after the lock is released -/

/-- A step of a handler outside the lock. -/
inductive Act
  /-- Build a message into the buffer. -/
  | build (m : Msg)
  /-- `net_send` of the buffer; a failure is only logged. -/
  | send (dest : SockAddr)
  /-- `net_send` of a buffer that was filled before the lock was taken. -/
  | probe (box : Outbox) (dest : SockAddr)
  /-- `net_send` of the buffer, and on success `server_add_peer_bytes_out`. -/
  | forward (peer : ServerPeerSnapshot) (bytesOut : UInt64)
  /-- `tun_write` -/
  | tunWrite (pkt : Bytes)
  /-- `app_event_peer_join`, `app_event_peer_leave` -/
  | event (e : Event)

/-- The server, its process and the buffer of the handler at work. -/
structure Work where
  srv : Server
  io : Proc
  box : Outbox

/-- One act. -/
def Act.exec (env : Env) (w : Work) : Act → Work
  | .build m =>
    match m.build env w.io w.box.buf with
    | (len, buf, io) => ⟨w.srv, io, ⟨len, buf⟩⟩
  | .send dest => { w with io := (netSend env w.io w.box.buf w.box.len dest).2 }
  | .probe box dest => { w with io := (netSend env w.io box.buf box.len dest).2 }
  | .forward peer bytesOut =>
    match netSend env w.io w.box.buf w.box.len peer.realAddr with
    | (false, io) => { w with io := io }
    | (true, io) => { w with io := io, srv := serverAddPeerBytesOut w.srv peer bytesOut }
  | .tunWrite pkt => { w with io := Tund.tunWrite w.io pkt }
  | .event e => { w with io := appEvent env w.io e }

/-- Acts one after the other. -/
def runActs (env : Env) (w : Work) (acts : List Act) : Work := acts.foldl (Act.exec env) w

@[simp] theorem runActs_nil (env : Env) (w : Work) : runActs env w [] = w := rfl

@[simp] theorem runActs_cons (env : Env) (w : Work) (a : Act) (acts : List Act) :
    runActs env w (a :: acts) = runActs env (a.exec env w) acts := rfl

theorem runActs_append (env : Env) (w : Work) (as bs : List Act) :
    runActs env w (as ++ bs) = runActs env (runActs env w as) bs := List.foldl_append

/-- Run what a locked section left to do. -/
def finish (env : Env) (io : Proc) (locked : Server × List Act) : Server × Proc :=
  let w := runActs env ⟨locked.1, io, .fresh⟩ locked.2
  (w.srv, w.io)

/-! ### REGISTER -/

/-- The name given to a peer that sends none: `"peer-%d"`. -/
def defaultName (idx : ℕ) : Bytes :=
  ('p' :: 'e' :: 'e' :: 'r' :: '-' :: Nat.toDigits 10 idx).map fun c => UInt8.ofNat c.toNat

/-- The name buffer of a new entry. -/
def registeredName (payload : Bytes) (idx : ℕ) : NameBuf :=
  if 0 < payload.length then .ofBytes payload else .ofBytes (defaultName idx)

/-- The entry that a REGISTER writes into a free slot. -/
def registeredPeer (env : Env) (idx : Slot) (vip : UInt32) (payload : Bytes) (src : SockAddr)
    (sequence : UInt64) : Peer where
  active := true
  virtIp := vip
  name := registeredName payload idx
  realAddr := src
  lastSeen := env.time
  bytesIn := 0
  bytesOut := 0
  rttMs := 0
  hasRtt := false
  replay := (protoReplayAccept protoReplayReset sequence).2

/-- ASSIGN for a peer. -/
def assignActs (p : Peer) : List Act :=
  [.build (.assign p.virtIp (htonl tundNetmask) tundTunMtu), .send p.realAddr]

/-- What follows a new registration: ASSIGN and PEER_LIST to the new peer `p`, the event, and
PEER_JOIN to the others. -/
def joinActs (p : Peer) (others : List ServerPeerSnapshot) : List Act :=
  assignActs p ++
    [.event (.peerJoin p.cName p.virtIp p.realAddr),
      .build (.peerList (others.map ServerPeerSnapshot.entry)), .send p.realAddr,
      .build (.peerJoin p.virtIp p.cName)] ++
    others.map fun s => .send s.realAddr

/-- The table with a new entry in slot `idx`. -/
def Server.join (srv : Server) (idx : Slot) (p : Peer) : Server :=
  { srv.setPeer idx p with peerCount := srv.peerCount + 1 }

/-- The locked section of `server_handle_register`. -/
def serverRegisterLocked (env : Env) (srv : Server) (payload : Bytes) (src : SockAddr)
    (sequence : UInt64) : Server × List Act :=
  match serverFindPeerByAddr srv src with
  | some idx =>
    let p := srv.peers idx
    match protoReplayAccept p.replay sequence with
    | (false, replay) => (srv.setPeer idx { p with replay := replay }, [])
    | (true, replay) =>
      (srv.setPeer idx { p with replay := replay, lastSeen := env.time }, assignActs p)
  | none =>
    match serverFindFreeSlot srv with
    | none => (srv, [])
    | some idx =>
      let vip := serverAllocIp srv
      if vip = 0 then (srv, [])
      else
        let p := registeredPeer env idx vip payload src sequence
        let srv := srv.join idx p
        (srv, joinActs p (serverSnapshotBroadcastLocked srv (some idx)))

/-! ### DISCONNECT -/

/-- The table without the peer in slot `idx`. -/
def Server.leave (srv : Server) (idx : Slot) : Server :=
  { srv.setPeer idx { srv.peers idx with active := false } with peerCount := srv.peerCount - 1 }

/-- PEER_LEAVE for `vip` to the peers that remain. -/
def leaveActs (vip : UInt32) (peers : List ServerPeerSnapshot) : List Act :=
  .build (.peerLeave vip) :: peers.map fun s => .forward s 0

/-- The locked section of `server_handle_disconnect`. -/
def serverDisconnectLocked (srv : Server) (src : SockAddr) : Server × List Act :=
  match serverFindPeerByAddr srv src with
  | none => (srv, [])
  | some idx =>
    let vip := (srv.peers idx).virtIp
    let srv := srv.leave idx
    (srv, leaveActs vip (serverSnapshotBroadcastLocked srv none) ++
      [.event (.peerLeave vip .disconnect)])

/-! ### DATA -/

/-- `proto_build_data` and the datagrams to `peers`, with their accounting. -/
def relayActs (payload : Bytes) (peers : List ServerPeerSnapshot) : List Act :=
  .build (.data payload) :: peers.map fun s => .forward s (UInt64.ofNat payload.length)

/-- The locked section of `server_handle_data`, with the checks before it. -/
def serverDataLocked (srv : Server) (payload : Bytes) (src : SockAddr) : Server × List Act :=
  match protoValidateIpv4Packet payload with
  | some _ => (srv, [])
  | none =>
    let srcIp := protoGetSrcIp payload
    let dstIp := protoGetDstIp payload
    match serverFindPeerByAddr srv src with
    | none => (srv, [])
    | some senderIdx =>
      let p := srv.peers senderIdx
      if srcIp ≠ p.virtIp then (srv, [])
      else
        let srv := srv.setPeer senderIdx
          { p with bytesIn := p.bytesIn + UInt64.ofNat payload.length }
        if dstIp = htonl tundServerIp then (srv, [.tunWrite payload])
        else if dstIp = htonl tundBroadcast then
          (srv, relayActs payload (serverSnapshotBroadcastLocked srv (some senderIdx)) ++
            [.tunWrite payload])
        else
          match serverSnapshotPeerByVipLocked srv dstIp with
          | none => (srv, [])
          | some dstPeer => (srv, relayActs payload [dstPeer])

/-- `server_handle_data` -/
def serverHandleData (env : Env) (srv : Server) (io : Proc) (payload : Bytes) (src : SockAddr) :
    Server × Proc :=
  finish env io (serverDataLocked srv payload src)

/-! ### Keepalives -/

/-- The locked section of `server_handle_keepalive`. -/
def serverKeepaliveLocked (env : Env) (srv : Server) (payload : Bytes) (src : SockAddr) :
    Server × List Act :=
  match protoReadKeepaliveTimestamp payload with
  | none => (srv, [])
  | some sentAt =>
    match serverFindPeerByAddr srv src with
    | none => (srv, [])
    | some idx =>
      (srv.setPeer idx { srv.peers idx with lastSeen := env.time },
        [.build (.keepaliveAck sentAt), .send src])

/-- `server_handle_keepalive_ack`: nothing is left to do after the lock. -/
def serverKeepaliveAckLocked (env : Env) (srv : Server) (payload : Bytes) (src : SockAddr) :
    Server × List Act :=
  match protoReadKeepaliveTimestamp payload with
  | none => (srv, [])
  | some sentAt =>
    if env.nowMs < sentAt then (srv, [])
    else
      match serverFindPeerByAddr srv src with
      | none => (srv, [])
      | some idx =>
        let p := srv.peers idx
        let sample := env.nowMs - sentAt
        (srv.setPeer idx
          { p with
            lastSeen := env.time
            rttMs := smoothRttMs p.rttMs sample p.hasRtt
            hasRtt := true }, [])

/-! ### Packets -/

/-- `server_accept_registered_sequence`: an unknown endpoint is let through. -/
def serverAcceptRegisteredSequence (srv : Server) (src : SockAddr) (sequence : UInt64) :
    Bool × Server :=
  match serverFindPeerByAddr srv src with
  | none => (true, srv)
  | some idx =>
    let p := srv.peers idx
    let r := protoReplayAccept p.replay sequence
    (r.1, srv.setPeer idx { p with replay := r.2 })

/-- The `switch` of `server_handle_packet`, up to the end of the locked section. -/
def serverDispatchLocked (env : Env) (srv : Server) (f : Frame) (src : SockAddr) :
    Server × List Act :=
  match MsgType.ofCode f.type with
  | some .register => serverRegisterLocked env srv f.payload src f.sequence
  | some .data => serverDataLocked srv f.payload src
  | some .keepalive => serverKeepaliveLocked env srv f.payload src
  | some .keepaliveAck => serverKeepaliveAckLocked env srv f.payload src
  | some .disconnect => serverDisconnectLocked srv src
  | _ => (srv, [])

/-- `server_handle_packet` on the first `len` bytes of its buffer. -/
def serverHandlePacket (env : Env) (srv : Server) (io : Proc) (buf : Bytes) (src : SockAddr) :
    Server × Proc :=
  match readFrame buf with
  | none => (srv, io)
  | some f =>
    if f.type ≠ MsgType.register.code then
      match serverAcceptRegisteredSequence srv src f.sequence with
      | (false, srv) => (srv, io)
      | (true, srv) => finish env io (serverDispatchLocked env srv f src)
    else finish env io (serverDispatchLocked env srv f src)

/-! ### The timeout thread -/

/-- The condition of the sweep on an entry. -/
def Peer.timedOut (p : Peer) (now : ℤ) : Bool := p.active && decide (tundPeerTimeout < now - p.lastSeen)

/-- The loop body of the sweep: the table, the peers that timed out, the peers to probe. -/
def sweepSlot (now : ℤ) (acc : Server × List ServerPeerSnapshot × List ServerPeerSnapshot)
    (i : Slot) : Server × List ServerPeerSnapshot × List ServerPeerSnapshot :=
  match acc with
  | (srv, timedOut, keepalive) =>
    if (srv.peers i).timedOut now then
      (srv.leave i, timedOut ++ [serverSnapshotPeerLocked srv i], keepalive)
    else if (srv.peers i).active then
      (srv, timedOut, keepalive ++ [serverSnapshotPeerLocked srv i])
    else (srv, timedOut, keepalive)

/-- The locked section of `server_timeout_thread`; `keepalive` is the probe it built before. -/
def serverSweepLocked (env : Env) (srv : Server) (keepalive : Outbox) : Server × List Act :=
  match (List.finRange tundMaxPeers).foldl (sweepSlot env.time) (srv, [], []) with
  | (srv, timedOutPeers, keepalivePeers) =>
    let leavePeers := if timedOutPeers = [] then [] else serverSnapshotBroadcastLocked srv none
    (srv,
      (timedOutPeers.flatMap fun s =>
        .event (.peerLeave s.virtIp .timeout) :: leaveActs s.virtIp leavePeers) ++
      keepalivePeers.map fun s => .probe keepalive s.realAddr)

/-- One pass of `server_timeout_thread`. -/
def serverSweep (env : Env) (srv : Server) (io : Proc) : Server × Proc :=
  match Outbox.build env io (.keepalive env.nowMs) with
  | (keepalive, io) => finish env io (serverSweepLocked env srv keepalive)

/-! ### The TUN thread and the end -/

/-- One pass of `server_tun_thread` with a packet read from the TUN device. -/
def serverTunPacket (env : Env) (srv : Server) (io : Proc) (pkt : Bytes) : Server × Proc :=
  match protoValidateIpv4Packet pkt with
  | some _ => (srv, io)
  | none =>
    let dstIp := protoGetDstIp pkt
    let peers :=
      if dstIp = htonl tundBroadcast then serverSnapshotBroadcastLocked srv none
      else (serverSnapshotPeerByVipLocked srv dstIp).toList
    finish env io (srv, relayActs pkt peers)

/-- The farewell of `server_shutdown`: DISCONNECT to every active peer. -/
def serverShutdown (env : Env) (srv : Server) (io : Proc) : Server × Proc :=
  finish env io (srv, .build .disconnect ::
    (serverSnapshotBroadcastLocked srv none).map fun s => .forward s 0)

end Tund
