import Tund.Protocol.Bounds
import Tund.Server.Handlers

/-!
# Memory accesses of the server's packet handlers

`server_handle_packet` and one pass of `server_timeout_thread`, with every read of the payload,
every store into a snapshot array and every entry of a PEER_LIST checked (`Memory`).  The
functions have the names of the source, in the namespace `Checked`; the locked sections
return what is left to do, as in `Handlers`.  The arrays have `TUND_MAX_PEERS` elements.

Every one of them equals the function without the checks, for every table: the counters of
the arrays stay below the number of slots that the loop has passed.
-/

namespace Tund

open Memory

namespace Checked

/-! ### The handlers with checked accesses -/

/-- The slot is active and not the excluded one. -/
def wanted (srv : Server) (excludeIdx : Option Slot) (i : Slot) : Bool :=
  (srv.peers i).active && decide (excludeIdx ≠ some i)

/-- The loop of `server_snapshot_broadcast_locked` over the slots that are left, with the caller's
array of 253 elements; it also stops when `max_peers` snapshots are taken. -/
def serverSnapshotBroadcastLoop (srv : Server) (maxPeers : ℕ) (excludeIdx : Option Slot) :
    List Slot → List ServerPeerSnapshot → Except Fault (List ServerPeerSnapshot)
  | [], out => .ok out
  | i :: is, out =>
    if out.length < maxPeers then
      if wanted srv excludeIdx i then do
        let out ← store tundMaxPeers out (serverSnapshotPeerLocked srv i)
        serverSnapshotBroadcastLoop srv maxPeers excludeIdx is out
      else serverSnapshotBroadcastLoop srv maxPeers excludeIdx is out
    else .ok out

/-- `server_snapshot_broadcast_locked` -/
def serverSnapshotBroadcastLocked (srv : Server) (excludeIdx : Option Slot) :
    Except Fault (List ServerPeerSnapshot) :=
  serverSnapshotBroadcastLoop srv tundMaxPeers excludeIdx (List.finRange tundMaxPeers) []

/-- The loop of `server_handle_register` that fills `peer_entries` and `join_dests`. -/
def registerSlot (srv : Server) (idx : Slot) (acc : List ServerPeerSnapshot × List SockAddr) (i : Slot) :
    Except Fault (List ServerPeerSnapshot × List SockAddr) :=
  if (srv.peers i).active = false ∨ i = idx then .ok acc
  else do
    let peerEntries ← store tundMaxPeers acc.1 (serverSnapshotPeerLocked srv i)
    let joinDests ← store tundMaxPeers acc.2 (srv.peers i).realAddr
    .ok (peerEntries, joinDests)

/-- What follows a new registration, with the two arrays. -/
def joinActs (p : Peer) (peerEntries : List ServerPeerSnapshot) (joinDests : List SockAddr) : List Act :=
  assignActs p ++
    [.event (.peerJoin p.cName p.virtIp p.realAddr),
      .build (.peerList (peerEntries.map ServerPeerSnapshot.entry)), .send p.realAddr,
      .build (.peerJoin p.virtIp p.cName)] ++
    joinDests.map .send

/-- The name of a new entry: at most 31 bytes of the payload are copied. -/
def registeredName (payload : Bytes) (idx : ℕ) : Except Fault NameBuf :=
  if 0 < payload.length then do
    let name ← load payload 0
      (if payload.length < tundNameLen - 1 then payload.length else tundNameLen - 1)
    .ok (.ofBytes name)
  else .ok (.ofBytes (defaultName idx))

/-- The locked section of `server_handle_register`. -/
def serverRegisterLocked (env : Env) (srv : Server) (payload : Bytes) (src : SockAddr)
    (sequence : UInt64) : Except Fault (Server × List Act) :=
  match serverFindPeerByAddr srv src with
  | some idx =>
    let p := srv.peers idx
    match protoReplayAccept p.replay sequence with
    | (false, replay) => .ok (srv.setPeer idx { p with replay := replay }, [])
    | (true, replay) =>
      .ok (srv.setPeer idx { p with replay := replay, lastSeen := env.time }, assignActs p)
  | none =>
    match serverFindFreeSlot srv with
    | none => .ok (srv, [])
    | some idx =>
      let vip := serverAllocIp srv
      if vip = 0 then .ok (srv, [])
      else do
        let name ← registeredName payload idx
        let p := { registeredPeer env idx vip [] src sequence with name := name }
        let srv := srv.join idx p
        let (peerEntries, joinDests) ←
          (List.finRange tundMaxPeers).foldlM (registerSlot srv idx) ([], [])
        .ok (srv, joinActs p peerEntries joinDests)

/-- The locked section of `server_handle_disconnect`. -/
def serverDisconnectLocked (srv : Server) (src : SockAddr) : Except Fault (Server × List Act) :=
  match serverFindPeerByAddr srv src with
  | none => .ok (srv, [])
  | some idx => do
    let vip := (srv.peers idx).virtIp
    let srv := srv.leave idx
    let leavePeers ← serverSnapshotBroadcastLocked srv none
    .ok (srv, leaveActs vip leavePeers ++ [.event (.peerLeave vip .disconnect)])

/-- The locked section of `server_handle_data`, with the checks before it; the payload is copied by
`proto_build_data` and by `tun_write`. -/
def serverDataLocked (srv : Server) (payload : Bytes) (src : SockAddr) :
    Except Fault (Server × List Act) := do
  match ← protoValidateIpv4Packet payload with
  | some _ => .ok (srv, [])
  | none =>
    let srcIp ← protoGetSrcIp payload
    let dstIp ← protoGetDstIp payload
    match serverFindPeerByAddr srv src with
    | none => .ok (srv, [])
    | some senderIdx =>
      let p := srv.peers senderIdx
      if srcIp ≠ p.virtIp then .ok (srv, [])
      else
        let srv := srv.setPeer senderIdx
          { p with bytesIn := p.bytesIn + UInt64.ofNat payload.length }
        if dstIp = htonl tundServerIp then
          let pkt ← load payload 0 payload.length
          .ok (srv, [.tunWrite pkt])
        else if dstIp = htonl tundBroadcast then
          let broadcastPeers ← serverSnapshotBroadcastLocked srv (some senderIdx)
          let pkt ← load payload 0 payload.length
          .ok (srv, relayActs pkt broadcastPeers ++ [.tunWrite pkt])
        else
          match serverSnapshotPeerByVipLocked srv dstIp with
          | none => .ok (srv, [])
          | some dstPeer =>
            let pkt ← load payload 0 payload.length
            .ok (srv, relayActs pkt [dstPeer])

/-- The locked section of `server_handle_keepalive`. -/
def serverKeepaliveLocked (env : Env) (srv : Server) (payload : Bytes) (src : SockAddr) :
    Except Fault (Server × List Act) := do
  match ← protoReadKeepaliveTimestamp payload with
  | none => .ok (srv, [])
  | some sentAt =>
    match serverFindPeerByAddr srv src with
    | none => .ok (srv, [])
    | some idx =>
      .ok (srv.setPeer idx { srv.peers idx with lastSeen := env.time },
        [.build (.keepaliveAck sentAt), .send src])

/-- `server_handle_keepalive_ack` -/
def serverKeepaliveAckLocked (env : Env) (srv : Server) (payload : Bytes) (src : SockAddr) :
    Except Fault (Server × List Act) := do
  match ← protoReadKeepaliveTimestamp payload with
  | none => .ok (srv, [])
  | some sentAt =>
    if env.nowMs < sentAt then .ok (srv, [])
    else
      match serverFindPeerByAddr srv src with
      | none => .ok (srv, [])
      | some idx =>
        let p := srv.peers idx
        let sample := env.nowMs - sentAt
        .ok (srv.setPeer idx
          { p with
            lastSeen := env.time
            rttMs := smoothRttMs p.rttMs sample p.hasRtt
            hasRtt := true }, [])

/-- The `switch` of `server_handle_packet`. -/
def serverDispatchLocked (env : Env) (srv : Server) (f : Frame) (src : SockAddr) :
    Except Fault (Server × List Act) :=
  match MsgType.ofCode f.type with
  | some .register => serverRegisterLocked env srv f.payload src f.sequence
  | some .data => serverDataLocked srv f.payload src
  | some .keepalive => serverKeepaliveLocked env srv f.payload src
  | some .keepaliveAck => serverKeepaliveAckLocked env srv f.payload src
  | some .disconnect => serverDisconnectLocked srv src
  | _ => .ok (srv, [])

/-- One act; the entries of a PEER_LIST are checked. -/
def exec (env : Env) (w : Work) : Act → Except Fault Work
  | .build (.peerList entries) => do
    let (len, buf, io) ← buildPeerListFromSnapshot env w.io w.box.buf entries
    .ok ⟨w.srv, io, ⟨len, buf⟩⟩
  | a => .ok (a.exec env w)

/-- Run what a locked section left to do. -/
def finish (env : Env) (io : Proc) (locked : Server × List Act) : Except Fault (Server × Proc) := do
  let w ← locked.2.foldlM (exec env) ⟨locked.1, io, .fresh⟩
  .ok (w.srv, w.io)

/-- `server_handle_packet` -/
def serverHandlePacket (env : Env) (srv : Server) (io : Proc) (buf : Bytes) (src : SockAddr) :
    Except Fault (Server × Proc) :=
  match readFrame buf with
  | none => .ok (srv, io)
  | some f =>
    if f.type ≠ MsgType.register.code then
      match serverAcceptRegisteredSequence srv src f.sequence with
      | (false, srv) => .ok (srv, io)
      | (true, srv) => do finish env io (← serverDispatchLocked env srv f src)
    else do finish env io (← serverDispatchLocked env srv f src)

/-- The loop body of the sweep. -/
def sweepSlot (now : ℤ) (acc : Server × List ServerPeerSnapshot × List ServerPeerSnapshot) (i : Slot) :
    Except Fault (Server × List ServerPeerSnapshot × List ServerPeerSnapshot) :=
  match acc with
  | (srv, timedOut, keepalive) =>
    if (srv.peers i).timedOut now then do
      let timedOut ← store tundMaxPeers timedOut (serverSnapshotPeerLocked srv i)
      .ok (srv.leave i, timedOut, keepalive)
    else if (srv.peers i).active then do
      let keepalive ← store tundMaxPeers keepalive (serverSnapshotPeerLocked srv i)
      .ok (srv, timedOut, keepalive)
    else .ok (srv, timedOut, keepalive)

/-- The locked section of `server_timeout_thread`. -/
def serverSweepLocked (env : Env) (srv : Server) (keepalive : Outbox) :
    Except Fault (Server × List Act) := do
  let (srv, timedOutPeers, keepalivePeers) ←
    (List.finRange tundMaxPeers).foldlM (sweepSlot env.time) (srv, [], [])
  let leavePeers ← if timedOutPeers = [] then .ok [] else serverSnapshotBroadcastLocked srv none
  .ok (srv,
    (timedOutPeers.flatMap fun s =>
      .event (.peerLeave s.virtIp .timeout) :: leaveActs s.virtIp leavePeers) ++
    keepalivePeers.map fun s => .probe keepalive s.realAddr)

/-- One pass of `server_timeout_thread`. -/
def serverSweep (env : Env) (srv : Server) (io : Proc) : Except Fault (Server × Proc) :=
  match Outbox.build env io (.keepalive env.nowMs) with
  | (keepalive, io) => do finish env io (← serverSweepLocked env srv keepalive)

/-! ### The arrays -/

/-- The loop has passed as many slots as it has taken snapshots, or more. -/
theorem serverSnapshotBroadcastLoop_eq (srv : Server) (excludeIdx : Option Slot) (slots : List Slot)
    (out : List ServerPeerSnapshot) (h : out.length + slots.length ≤ tundMaxPeers) :
    serverSnapshotBroadcastLoop srv tundMaxPeers excludeIdx slots out =
      .ok (out ++ (slots.filter (wanted srv excludeIdx)).map (serverSnapshotPeerLocked srv)) := by
  induction slots generalizing out with
  | nil => simp [serverSnapshotBroadcastLoop]
  | cons i slots ih =>
    rw [List.length_cons] at h
    have hroom : out.length < tundMaxPeers := by omega
    rw [serverSnapshotBroadcastLoop, if_pos hroom]
    cases htake : wanted srv excludeIdx i with
    | false =>
      rw [if_neg (by simp), List.filter_cons_of_neg (by simp [htake])]
      exact ih out (by omega)
    | true =>
      rw [if_pos rfl, store_eq hroom, List.filter_cons_of_pos htake, List.map_cons]
      show serverSnapshotBroadcastLoop srv tundMaxPeers excludeIdx slots (out ++ [_]) = _
      rw [ih _ (by rw [List.length_append, List.length_singleton]; omega), List.append_assoc]
      rfl

theorem serverSnapshotBroadcastLocked_eq (srv : Server) (excludeIdx : Option Slot) :
    serverSnapshotBroadcastLocked srv excludeIdx = .ok (Tund.serverSnapshotBroadcastLocked srv excludeIdx) := by
  rw [serverSnapshotBroadcastLocked, serverSnapshotBroadcastLoop_eq _ _ _ _ (by simp)]
  rfl

/-- Both arrays of `server_handle_register` get one element for every other active slot. -/
theorem foldlM_registerSlot (srv : Server) (idx : Slot) (slots : List Slot)
    (acc : List ServerPeerSnapshot × List SockAddr)
    (hentries : acc.1.length + slots.length ≤ tundMaxPeers)
    (hdests : acc.2.length + slots.length ≤ tundMaxPeers) :
    slots.foldlM (registerSlot srv idx) acc =
      let others := slots.filter (wanted srv (some idx))
      .ok (acc.1 ++ others.map (serverSnapshotPeerLocked srv),
        acc.2 ++ others.map fun i => (srv.peers i).realAddr) := by
  induction slots generalizing acc with
  | nil => simp; rfl
  | cons i slots ih =>
    rw [List.length_cons] at hentries hdests
    rw [List.foldlM_cons]
    by_cases hskip : (srv.peers i).active = false ∨ i = idx
    · have hout : wanted srv (some idx) i = false := by
        rcases hskip with h | rfl
        · simp [wanted, h]
        · simp [wanted]
      rw [registerSlot, if_pos hskip, List.filter_cons_of_neg (by simp [hout])]
      exact ih acc (by omega) (by omega)
    · have hin : wanted srv (some idx) i = true := by
        push Not at hskip
        simp [wanted, hskip.1, Ne.symm hskip.2]
      have hstep : registerSlot srv idx acc i =
          .ok (acc.1 ++ [serverSnapshotPeerLocked srv i], acc.2 ++ [(srv.peers i).realAddr]) := by
        rw [registerSlot, if_neg hskip, store_eq (by omega), store_eq (by omega)]
        rfl
      rw [hstep, List.filter_cons_of_pos hin]
      show List.foldlM (registerSlot srv idx) (_, _) slots = _
      rw [ih _ (by simp; omega) (by simp; omega)]
      simp

/-- The sweep puts every slot into one array at most. -/
theorem foldlM_sweepSlot (now : ℤ) (slots : List Slot)
    (acc : Server × List ServerPeerSnapshot × List ServerPeerSnapshot)
    (htimedOut : acc.2.1.length + slots.length ≤ tundMaxPeers)
    (hkeepalive : acc.2.2.length + slots.length ≤ tundMaxPeers) :
    slots.foldlM (sweepSlot now) acc = .ok (slots.foldl (Tund.sweepSlot now) acc) := by
  induction slots generalizing acc with
  | nil => rfl
  | cons i slots ih =>
    obtain ⟨srv, timedOut, keepalive⟩ := acc
    simp only [List.length_cons] at htimedOut hkeepalive
    have hstep : sweepSlot now (srv, timedOut, keepalive) i =
        .ok (Tund.sweepSlot now (srv, timedOut, keepalive) i) := by
      simp only [sweepSlot, Tund.sweepSlot, store_eq (show timedOut.length < tundMaxPeers by omega),
        store_eq (show keepalive.length < tundMaxPeers by omega), bind, Except.bind]
      split_ifs <;> rfl
    rw [List.foldlM_cons, hstep, List.foldl_cons]
    apply ih
    · simp only [Tund.sweepSlot]
      split_ifs <;> simp <;> omega
    · simp only [Tund.sweepSlot]
      split_ifs <;> simp <;> omega

/-! ### The handlers stay in bounds -/

theorem registeredName_eq (payload : Bytes) (idx : ℕ) :
    registeredName payload idx = .ok (Tund.registeredName payload idx) := by
  unfold registeredName Tund.registeredName
  split_ifs with hpos hshort
  · rw [load_eq (by omega)]
    simp [bind, Except.bind, Bytes.slice]
  · rw [load_eq (by omega)]
    simp [bind, Except.bind, Bytes.slice, NameBuf.ofBytes, List.take_take]
  · rfl

/-- The two arrays hold the peers of the snapshot that `Handlers` takes. -/
theorem joinActs_eq (srv : Server) (idx : Slot) (p : Peer) :
    let others := (List.finRange tundMaxPeers).filter (wanted srv (some idx))
    joinActs p (others.map (serverSnapshotPeerLocked srv)) (others.map fun i => (srv.peers i).realAddr) =
      Tund.joinActs p (Tund.serverSnapshotBroadcastLocked srv (some idx)) := by
  intro others
  have hothers : Tund.serverSnapshotBroadcastLocked srv (some idx) =
      others.map (serverSnapshotPeerLocked srv) := rfl
  rw [hothers, joinActs, Tund.joinActs]
  simp [Function.comp_def, serverSnapshotPeerLocked]

theorem serverRegisterLocked_eq (env : Env) (srv : Server) (payload : Bytes) (src : SockAddr)
    (sequence : UInt64) :
    serverRegisterLocked env srv payload src sequence =
      .ok (Tund.serverRegisterLocked env srv payload src sequence) := by
  unfold serverRegisterLocked Tund.serverRegisterLocked
  cases serverFindPeerByAddr srv src with
  | some idx =>
    simp only
    rcases protoReplayAccept (srv.peers idx).replay sequence with ⟨_ | _, replay⟩ <;> rfl
  | none =>
    simp only
    cases serverFindFreeSlot srv with
    | none => rfl
    | some idx =>
      simp only
      split_ifs
      · rfl
      · rw [registeredName_eq]
        simp only [bind, Except.bind]
        rw [foldlM_registerSlot _ _ _ _ (by simp) (by simp)]
        simp only [List.nil_append]
        exact congrArg (fun acts => Except.ok (_, acts)) (joinActs_eq _ _ _)

theorem serverDisconnectLocked_eq (srv : Server) (src : SockAddr) :
    serverDisconnectLocked srv src = .ok (Tund.serverDisconnectLocked srv src) := by
  unfold serverDisconnectLocked Tund.serverDisconnectLocked
  cases serverFindPeerByAddr srv src with
  | none => rfl
  | some idx => simp only [serverSnapshotBroadcastLocked_eq, bind, Except.bind]

theorem serverDataLocked_eq (srv : Server) (payload : Bytes) (src : SockAddr) :
    serverDataLocked srv payload src = .ok (Tund.serverDataLocked srv payload src) := by
  have hload : load payload 0 payload.length = .ok payload := by
    rw [load_eq (by omega)]
    simp [Bytes.slice]
  unfold serverDataLocked Tund.serverDataLocked
  simp only [protoValidateIpv4Packet_eq, protoGetSrcIp_eq, protoGetDstIp_eq, hload,
    serverSnapshotBroadcastLocked_eq, bind, Except.bind]
  cases Tund.protoValidateIpv4Packet payload with
  | some e => rfl
  | none =>
    simp only
    cases serverFindPeerByAddr srv src with
    | none => rfl
    | some senderIdx =>
      simp only
      split_ifs
      · rfl
      · rfl
      · rfl
      · generalize serverSnapshotPeerByVipLocked _ _ = dstPeer
        cases dstPeer <;> rfl

theorem serverKeepaliveLocked_eq (env : Env) (srv : Server) (payload : Bytes) (src : SockAddr) :
    serverKeepaliveLocked env srv payload src = .ok (Tund.serverKeepaliveLocked env srv payload src) := by
  unfold serverKeepaliveLocked Tund.serverKeepaliveLocked
  simp only [protoReadKeepaliveTimestamp_eq, bind, Except.bind]
  cases Tund.protoReadKeepaliveTimestamp payload with
  | none => rfl
  | some sentAt => cases serverFindPeerByAddr srv src <;> rfl

theorem serverKeepaliveAckLocked_eq (env : Env) (srv : Server) (payload : Bytes) (src : SockAddr) :
    serverKeepaliveAckLocked env srv payload src =
      .ok (Tund.serverKeepaliveAckLocked env srv payload src) := by
  unfold serverKeepaliveAckLocked Tund.serverKeepaliveAckLocked
  simp only [protoReadKeepaliveTimestamp_eq, bind, Except.bind]
  cases Tund.protoReadKeepaliveTimestamp payload with
  | none => rfl
  | some sentAt =>
    simp only
    split_ifs
    · rfl
    · cases serverFindPeerByAddr srv src <;> rfl

theorem serverDispatchLocked_eq (env : Env) (srv : Server) (f : Frame) (src : SockAddr) :
    serverDispatchLocked env srv f src = .ok (Tund.serverDispatchLocked env srv f src) := by
  unfold serverDispatchLocked Tund.serverDispatchLocked
  cases MsgType.ofCode f.type with
  | none => rfl
  | some m =>
    cases m with
    | register => exact serverRegisterLocked_eq env srv f.payload src f.sequence
    | data => exact serverDataLocked_eq srv f.payload src
    | keepalive => exact serverKeepaliveLocked_eq env srv f.payload src
    | keepaliveAck => exact serverKeepaliveAckLocked_eq env srv f.payload src
    | disconnect => exact serverDisconnectLocked_eq srv src
    | assign => rfl
    | peerList => rfl
    | peerJoin => rfl
    | peerLeave => rfl

theorem exec_eq (env : Env) (w : Work) (a : Act) : exec env w a = .ok (a.exec env w) := by
  cases a with
  | build m =>
    cases m with
    | peerList entries =>
      simp only [exec, buildPeerListFromSnapshot_eq, bind, Except.bind]
      rfl
    | _ => rfl
  | _ => rfl

theorem finish_eq (env : Env) (io : Proc) (locked : Server × List Act) :
    finish env io locked = .ok (Tund.finish env io locked) := by
  have hrun : ∀ (acts : List Act) (w : Work), acts.foldlM (exec env) w = .ok (runActs env w acts) := by
    intro acts
    induction acts with
    | nil => exact fun w => rfl
    | cons a acts ih =>
      intro w
      rw [List.foldlM_cons, exec_eq]
      exact ih _
  unfold finish
  rw [hrun]
  rfl

theorem serverHandlePacket_eq (env : Env) (srv : Server) (io : Proc) (buf : Bytes) (src : SockAddr) :
    serverHandlePacket env srv io buf src = .ok (Tund.serverHandlePacket env srv io buf src) := by
  unfold serverHandlePacket Tund.serverHandlePacket
  cases readFrame buf with
  | none => rfl
  | some f =>
    simp only [serverDispatchLocked_eq, bind, Except.bind, finish_eq]
    split_ifs
    · rcases serverAcceptRegisteredSequence srv src f.sequence with ⟨_ | _, srv'⟩ <;> rfl
    · rfl

theorem serverSweep_eq (env : Env) (srv : Server) (io : Proc) :
    serverSweep env srv io = .ok (Tund.serverSweep env srv io) := by
  have hlocked : ∀ keepalive,
      serverSweepLocked env srv keepalive = .ok (Tund.serverSweepLocked env srv keepalive) := by
    intro keepalive
    unfold serverSweepLocked Tund.serverSweepLocked
    rw [foldlM_sweepSlot _ _ _ (by simp) (by simp)]
    simp only [bind, Except.bind, serverSnapshotBroadcastLocked_eq]
    split_ifs <;> rfl
  unfold serverSweep Tund.serverSweep
  simp only [hlocked, bind, Except.bind, finish_eq]

end Checked

/-- **The handlers of the server stay in bounds.**  For every table, packet and endpoint, the packet
handler completes with all accesses checked and does what the handler without the checks does; so
does every pass of the timeout thread. -/
theorem server_handlers_in_bounds (env : Env) (srv : Server) (io : Proc) (buf : Bytes) (src : SockAddr) :
    Checked.serverHandlePacket env srv io buf src = .ok (serverHandlePacket env srv io buf src) ∧
    Checked.serverSweep env srv io = .ok (serverSweep env srv io) :=
  ⟨Checked.serverHandlePacket_eq env srv io buf src, Checked.serverSweep_eq env srv io⟩

end Tund
