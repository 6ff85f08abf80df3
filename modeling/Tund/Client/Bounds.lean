import Tund.Protocol.Bounds
import Tund.Client.Map

/-!
# Memory accesses of the client's packet handlers

`client_handle_server_packet` and what it calls, with every read of the payload, every index
into the peer table and every buffer that is used as a string checked (`Memory`).  The
functions have the names of the source, in the namespace `Checked`; `tuiActive` is
`g_tui_active`, and of the log lines those are kept that print a name.

The handlers stay in bounds, and they use only buffers with a NUL as strings, with one
exception: `client_handle_peer_join` copies the 32 bytes of the name itself and does not
put a NUL behind them, as `proto_read_peer_entry` does.
-/

namespace Tund

open Memory

/-! ### The handlers with checked accesses -/

namespace Checked

/-- The loop of `client_update_peer` over the indices that are left: `idx` and `free_idx`. -/
def updateScan (cli : Client) (vip : UInt32) : List ℕ → ℤ → Except Fault (ℤ × ℤ)
  | [], freeIdx => .ok (-1, freeIdx)
  | i :: is, freeIdx => do
    let s ← entry tundMaxPeers i
    if (cli.peers s).holds vip then .ok (i, freeIdx)
    else
      updateScan cli vip is (if !(cli.peers s).active && decide (freeIdx < 0) then i else freeIdx)

/-- `client_update_peer` -/
def clientUpdatePeer (env : Env) (cli : Client) (vip : UInt32) (name : Bytes) (online : Bool) :
    Except Fault Client := do
  let (idx, freeIdx) ← updateScan cli vip (List.range tundMaxPeers) (-1)
  if online then
    if idx < 0 then
      if freeIdx < 0 then .ok cli
      else
        let s ← entry tundMaxPeers freeIdx
        let text ← cstring name
        .ok { cli.setPeer s
            { cli.peers s with
              bytesIn := 0
              bytesOut := 0
              active := true
              virtIp := vip
              name := .ofBytes text
              lastSeen := env.time } with
          peerCount := cli.peerCount + 1 }
    else
      let s ← entry tundMaxPeers idx
      let text ← cstring name
      .ok (cli.setPeer s
        { cli.peers s with
          active := true
          virtIp := vip
          name := .ofBytes text
          lastSeen := env.time })
  else if 0 ≤ idx then
    let s ← entry tundMaxPeers idx
    .ok (cli.dropPeer s)
  else .ok cli

/-- `client_log_peers`: the names of the active entries are printed. -/
def clientLogPeers (cli : Client) : Except Fault Unit :=
  (List.range tundMaxPeers).forM fun (i : ℕ) => do
    let s ← entry tundMaxPeers i
    if (cli.peers s).active then
      let _ ← cstring (cli.peers s).name.1

/-- `client_add_peer_traffic` -/
def clientAddPeerTraffic (cli : Client) (vip : UInt32) (bytesIn bytesOut : UInt64) :
    Except Fault Client := do
  let idx ← scan tundMaxPeers (fun i => (cli.peers i).holds vip) (List.range tundMaxPeers)
  if idx < 0 then .ok cli
  else
    let s ← entry tundMaxPeers idx
    .ok (cli.setPeer s
      { cli.peers s with
        bytesIn := (cli.peers s).bytesIn + bytesIn
        bytesOut := (cli.peers s).bytesOut + bytesOut })

/-- `client_handle_keepalive` -/
def clientHandleKeepalive (env : Env) (cli : Client) (io : Proc) (payload : Bytes) :
    Except Fault Proc := do
  match ← protoReadKeepaliveTimestamp payload with
  | none => .ok io
  | some sentAt => .ok (sendMsg env io (.keepaliveAck sentAt) cli.serverAddr).2

/-- `client_handle_keepalive_ack` -/
def clientHandleKeepaliveAck (env : Env) (cli : Client) (payload : Bytes) : Except Fault Client := do
  match ← protoReadKeepaliveTimestamp payload with
  | none => .ok cli
  | some sentAt =>
    if env.nowMs < sentAt then .ok cli
    else
      .ok { cli with
        serverRttMs := smoothRttMs cli.serverRttMs (env.nowMs - sentAt) cli.hasServerRtt
        hasServerRtt := true }

/-- The loop of `client_handle_peer_list`. -/
def clientPeerListLoop (env : Env) (payload : Bytes) : ℕ → ℕ → Client → Except Fault Client
  | 0, _, cli => .ok cli
  | n + 1, i, cli => do
    match ← protoReadPeerEntry payload i with
    | none => .ok cli
    | some (virtIp, name, online) =>
      let cli ← clientUpdatePeer env cli virtIp name online
      clientPeerListLoop env payload n (i + 1) cli

/-- `client_handle_peer_list` -/
def clientHandlePeerList (tuiActive : Bool) (env : Env) (cli : Client) (payload : Bytes) :
    Except Fault Client := do
  let count := protoPeerEntryCount payload.length
  let cli ← clientPeerListLoop env payload count 0 cli
  if !tuiActive && decide (0 < count) then clientLogPeers cli
  return cli

/-- `client_handle_peer_join` -/
def clientHandlePeerJoin (tuiActive : Bool) (env : Env) (cli : Client) (payload : Bytes) :
    Except Fault Client :=
  if payload.length < 4 + tundNameLen then .ok cli
  else do
    let vip ← load payload 0 4
    let name ← load payload 4 tundNameLen
    -- the log line prints the buffer with `%s`
    let _ ← cstring name
    let cli ← clientUpdatePeer env cli (u32OfMem vip) name true
    if !tuiActive then clientLogPeers cli
    return cli

/-- `client_handle_peer_leave`; the name that is printed is `"unknown"` or a copy of at most 31
bytes. -/
def clientHandlePeerLeave (tuiActive : Bool) (cli : Client) (payload : Bytes) : Except Fault Client :=
  if payload.length < 4 then .ok cli
  else do
    let vip ← load payload 0 4
    let idx ← scan tundMaxPeers (fun i => (cli.peers i).holds (u32OfMem vip))
      (List.range tundMaxPeers)
    let (cli, name) ← if idx < 0 then .ok (cli, NameBuf.ofBytes "unknown".toUTF8.toList)
      else do
        let s ← entry tundMaxPeers idx
        let text ← cstring (cli.peers s).name.1
        .ok (cli.dropPeer s, NameBuf.ofBytes text)
    let _ ← cstring name.1
    if !tuiActive && decide (0 < cli.peerCount) then clientLogPeers cli
    return cli

/-- The DATA branch of `client_handle_server_packet`. -/
def clientHandleData (cli : Client) (io : Proc) (payload : Bytes) : Except Fault (Client × Proc) := do
  match ← protoValidateIpv4Packet payload with
  | some _ => .ok (cli, io)
  | none =>
    let cli ← clientAddPeerTraffic cli (← protoGetSrcIp payload) (UInt64.ofNat payload.length) 0
    let pkt ← load payload 0 payload.length
    .ok (cli, tunWrite io pkt)

/-- The `switch` of `client_handle_server_packet`. -/
def clientDispatch (tuiActive : Bool) (env : Env) (cli : Client) (io : Proc) (f : Frame) :
    Except Fault (Client × Proc) :=
  match MsgType.ofCode f.type with
  | some .data => clientHandleData cli io f.payload
  | some .peerList => return (← clientHandlePeerList tuiActive env cli f.payload, io)
  | some .peerJoin => return (← clientHandlePeerJoin tuiActive env cli f.payload, io)
  | some .peerLeave => return (← clientHandlePeerLeave tuiActive cli f.payload, io)
  | some .keepalive => return (cli, ← clientHandleKeepalive env cli io f.payload)
  | some .keepaliveAck => return (← clientHandleKeepaliveAck env cli f.payload, io)
  | some .disconnect => return (cli, tundRequestStop io)
  | _ => return (cli, io)

/-- `client_handle_server_packet` -/
def clientHandleServerPacket (tuiActive : Bool) (env : Env) (cli : Client) (io : Proc) (buf : Bytes) :
    Except Fault (Client × Proc) :=
  match readFrame buf with
  | none => .ok (cli, io)
  | some f =>
    match protoReplayAccept cli.serverReplay f.sequence with
    | (false, replay) => .ok ({ cli with serverReplay := replay }, io)
    | (true, replay) =>
      clientDispatch tuiActive env (clientMarkServerSeen env { cli with serverReplay := replay }) io f

/-! ### The table -/

/-- Every name in the table is a string. -/
def NamesEnd (cli : Client) : Prop := ∀ i, 0 ∈ (cli.peers i).name.1

/-- What the loop of `client_update_peer` finds: the entry of `vip`, or the first free slot. -/
theorem updateScan_eq (cli : Client) (vip : UInt32) :
    ∃ freeIdx, updateScan cli vip (List.range tundMaxPeers) (-1) =
        .ok (indexOf (clientFindPeer cli vip), freeIdx) ∧
      (clientFindPeer cli vip = none → freeIdx = indexOf (clientFreeSlot cli)) := by
  -- The loop from some slots on, with the free slot that is known so far.
  have h : ∀ (slots : List Slot) (known : Option Slot), ∃ freeIdx,
      updateScan cli vip (slots.map Fin.val) (indexOf known) =
        .ok (indexOf (slots.find? fun i => (cli.peers i).holds vip), freeIdx) ∧
      (slots.find? (fun i => (cli.peers i).holds vip) = none →
        freeIdx = indexOf (known.or (slots.find? fun i => !(cli.peers i).active))) := by
    intro slots
    induction slots with
    | nil => exact fun known => ⟨indexOf known, rfl, fun _ => by simp⟩
    | cons i slots ih =>
      intro known
      simp only [List.map_cons, updateScan, entry_val, List.find?_cons]
      simp only [bind, Except.bind]
      cases hh : (cli.peers i).holds vip with
      | true => exact ⟨indexOf known, by simp [indexOf], by simp⟩
      | false =>
        cases known with
        | some k =>
          have hk : ¬ indexOf (some k) < 0 := by simp [indexOf]
          simpa [hk] using ih (some k)
        | none =>
          cases ha : (cli.peers i).active with
          | true => simpa [ha] using ih none
          | false =>
            simpa [ha, indexOf] using ih (some i)
  obtain ⟨freeIdx, hscan, hfree⟩ := h (List.finRange tundMaxPeers) none
  rw [← range_eq_map] at hscan
  refine ⟨freeIdx, hscan, fun hnone => ?_⟩
  rw [hfree hnone, Option.none_or]
  rfl

theorem clientUpdatePeer_eq {name : Bytes} (env : Env) (cli : Client) (vip : UInt32) (online : Bool)
    (hname : 0 ∈ name) :
    clientUpdatePeer env cli vip name online = .ok (Tund.clientUpdatePeer env cli vip name online) := by
  obtain ⟨freeIdx, hscan, hfree⟩ := updateScan_eq cli vip
  unfold clientUpdatePeer Tund.clientUpdatePeer
  rw [hscan]
  simp only [bind, Except.bind]
  cases hfind : clientFindPeer cli vip with
  | some idx =>
    have hidx : ¬ indexOf (some idx) < 0 := by simp [indexOf]
    have hentry : entry tundMaxPeers (indexOf (some idx)) = .ok idx := entry_val idx
    cases online with
    | true => simp only [if_true, if_neg hidx, hentry, cstring_eq hname]
    | false => simp only [Bool.false_eq_true, if_false, if_pos (not_lt.1 hidx), hentry]
  | none =>
    have hneg : indexOf (none : Option Slot) < 0 := by simp [indexOf]
    rw [hfree hfind]
    cases online with
    | false => simp [indexOf]
    | true =>
      simp only [if_true, if_pos hneg]
      cases hslot : clientFreeSlot cli with
      | none => simp only [if_pos hneg]
      | some idx =>
        have hidx : ¬ indexOf (some idx) < 0 := by simp [indexOf]
        have hentry : entry tundMaxPeers (indexOf (some idx)) = .ok idx := entry_val idx
        simp only [if_neg hidx, hentry, cstring_eq hname]

theorem NamesEnd.setPeer {cli : Client} (h : NamesEnd cli) (i : Slot) {p : Peer} (hp : 0 ∈ p.name.1) :
    NamesEnd (cli.setPeer i p) := by
  intro j
  rw [cli.setPeer_peers]
  split_ifs
  · exact hp
  · exact h j

theorem NamesEnd.dropPeer {cli : Client} (h : NamesEnd cli) (i : Slot) : NamesEnd (cli.dropPeer i) :=
  h.setPeer i (p := { cli.peers i with active := false }) (h i)

/-- What is written into the table is cut at 31 bytes. -/
theorem NamesEnd.update {cli : Client} (h : NamesEnd cli) (env : Env) (vip : UInt32) (name : Bytes)
    (online : Bool) : NamesEnd (Tund.clientUpdatePeer env cli vip name online) := by
  unfold Tund.clientUpdatePeer
  split
  · split_ifs
    · exact h.setPeer _ (zero_mem_ofBytes _)
    · exact h.dropPeer _
  · split_ifs
    · split
      · exact h
      · exact fun j => h.setPeer _ (zero_mem_ofBytes _) j
    · exact h

theorem NamesEnd.traffic {cli : Client} (h : NamesEnd cli) (vip : UInt32) (bytesIn bytesOut : UInt64) :
    NamesEnd (Tund.clientAddPeerTraffic cli vip bytesIn bytesOut) := by
  unfold Tund.clientAddPeerTraffic
  split
  · exact h
  · exact h.setPeer _ (h _)

theorem NamesEnd.broadcast {cli : Client} (h : NamesEnd cli) (bytesOut : UInt64) :
    NamesEnd (clientAddBroadcastTraffic cli bytesOut) := by
  intro i
  simp only [clientAddBroadcastTraffic]
  split_ifs <;> exact h i

theorem NamesEnd.peerListLoop {cli : Client} (h : NamesEnd cli) (env : Env) (payload : Bytes)
    (n i : ℕ) : NamesEnd (Tund.clientPeerListLoop env payload n i cli) := by
  induction n generalizing i cli with
  | zero => exact h
  | succ n ih =>
    simp only [Tund.clientPeerListLoop]
    split
    · exact h
    · exact ih (h.update env _ _ _) _

theorem NamesEnd.dispatch {cli : Client} (h : NamesEnd cli) (env : Env) (io : Proc) (f : Frame) :
    NamesEnd (Tund.clientDispatch env cli io f).1 := by
  unfold Tund.clientDispatch
  split
  · simp only [Tund.clientHandleData]
    split
    · exact h
    · exact h.traffic _ _ _
  · exact h.peerListLoop env _ _ _
  · simp only [Tund.clientHandlePeerJoin]
    split_ifs
    · exact h
    · exact h.update env _ _ _
  · simp only [Tund.clientHandlePeerLeave]
    split_ifs
    · exact h
    · split
      · exact h
      · exact h.dropPeer _
  · exact h
  · simp only [Tund.clientHandleKeepaliveAck]
    split
    · exact h
    · split_ifs <;> exact h
  · exact h
  · exact h

/-- The clock of the last packet and the window are not in the table. -/
theorem NamesEnd.seen {cli : Client} (h : NamesEnd cli) (env : Env) (replay : ReplayWindow) :
    NamesEnd (clientMarkServerSeen env { cli with serverReplay := replay }) := by
  unfold clientMarkServerSeen
  split_ifs <;> exact h

theorem NamesEnd.step {st : Client × Proc} (h : NamesEnd st.1) (e : TableEvent) :
    NamesEnd (tableStep st e).1 := by
  cases e with
  | packet env buf =>
    simp only [tableStep, Tund.clientHandleServerPacket]
    split
    · exact h
    · split
      · exact h
      · exact (h.seen env _).dispatch env _ _
  | traffic vip bytesIn bytesOut => exact h.traffic vip bytesIn bytesOut
  | broadcast bytesOut => exact h.broadcast bytesOut

/-- The names of the table are strings after every history. -/
theorem NamesEnd.history {st : Client × Proc} (h : NamesEnd st.1) (es : List TableEvent) :
    NamesEnd (es.foldl tableStep st).1 := by
  induction es generalizing st with
  | nil => exact h
  | cons e es ih => exact ih (h.step e)

theorem namesEnd_emptied (cli : Client) : NamesEnd cli.emptied := fun _ => zero_mem_ofBytes []

/-! ### The handlers stay in bounds -/

theorem clientLogPeers_eq {cli : Client} (h : NamesEnd cli) : clientLogPeers cli = .ok () := by
  have hloop : ∀ slots : List Slot, forM (slots.map Fin.val) (fun (i : ℕ) => do
      let s ← entry tundMaxPeers i
      if (cli.peers s).active then
        let _ ← cstring (cli.peers s).name.1) = Except.ok () := by
    intro slots
    induction slots with
    | nil => rfl
    | cons i slots ih =>
      rw [List.map_cons, List.forM_cons, entry_val, ih]
      simp only [bind, Except.bind, cstring_eq (h i)]
      cases (cli.peers i).active <;> rfl
  unfold clientLogPeers
  rw [range_eq_map]
  exact hloop _

theorem clientAddPeerTraffic_eq (cli : Client) (vip : UInt32) (bytesIn bytesOut : UInt64) :
    clientAddPeerTraffic cli vip bytesIn bytesOut =
      .ok (Tund.clientAddPeerTraffic cli vip bytesIn bytesOut) := by
  unfold clientAddPeerTraffic Tund.clientAddPeerTraffic clientFindPeer
  rw [scan_eq]
  simp only [bind, Except.bind]
  cases SlotTable.first fun i => (cli.peers i).holds vip with
  | none => rfl
  | some i =>
    simp [indexOf]

theorem clientHandleKeepalive_eq (env : Env) (cli : Client) (io : Proc) (payload : Bytes) :
    clientHandleKeepalive env cli io payload = .ok (Tund.clientHandleKeepalive env cli io payload) := by
  unfold clientHandleKeepalive Tund.clientHandleKeepalive
  rw [protoReadKeepaliveTimestamp_eq]
  cases Tund.protoReadKeepaliveTimestamp payload <;> rfl

theorem clientHandleKeepaliveAck_eq (env : Env) (cli : Client) (payload : Bytes) :
    clientHandleKeepaliveAck env cli payload = .ok (Tund.clientHandleKeepaliveAck env cli payload) := by
  unfold clientHandleKeepaliveAck Tund.clientHandleKeepaliveAck
  rw [protoReadKeepaliveTimestamp_eq]
  cases Tund.protoReadKeepaliveTimestamp payload with
  | none => rfl
  | some sentAt =>
    simp only [bind, Except.bind]
    split_ifs <;> rfl

theorem clientPeerListLoop_eq (env : Env) (payload : Bytes) (n i : ℕ) (cli : Client) :
    clientPeerListLoop env payload n i cli = .ok (Tund.clientPeerListLoop env payload n i cli) := by
  induction n generalizing i cli with
  | zero => rfl
  | succ n ih =>
    unfold clientPeerListLoop Tund.clientPeerListLoop
    rw [protoReadPeerEntry_eq]
    simp only [bind, Except.bind]
    cases hread : Tund.protoReadPeerEntry payload i with
    | none => rfl
    | some row =>
      obtain ⟨virtIp, name, online⟩ := row
      -- the reader puts a NUL behind the name
      have hname : 0 ∈ name := by
        unfold Tund.protoReadPeerEntry at hread
        dsimp only at hread
        split_ifs at hread
        simp only [Option.some.injEq, Prod.mk.injEq] at hread
        rw [← hread.2.1]
        simp
      simp only [clientUpdatePeer_eq env cli virtIp online hname]
      exact ih _ _

theorem clientHandlePeerList_eq {cli : Client} (h : NamesEnd cli) (tuiActive : Bool) (env : Env)
    (payload : Bytes) :
    clientHandlePeerList tuiActive env cli payload = .ok (Tund.clientHandlePeerList env cli payload) := by
  unfold clientHandlePeerList Tund.clientHandlePeerList
  dsimp only
  rw [clientPeerListLoop_eq]
  simp only [bind, Except.bind, clientLogPeers_eq (h.peerListLoop env payload _ 0)]
  split_ifs <;> rfl

/-- The join handler completes exactly when the name that it was sent is a string. -/
theorem clientHandlePeerJoin_cases {cli : Client} (h : NamesEnd cli) (tuiActive : Bool) (env : Env)
    (payload : Bytes) :
    clientHandlePeerJoin tuiActive env cli payload =
      if 4 + tundNameLen ≤ payload.length ∧ 0 ∉ Bytes.slice payload 4 tundNameLen then
        .error .unterminated
      else .ok (Tund.clientHandlePeerJoin env cli payload) := by
  unfold clientHandlePeerJoin Tund.clientHandlePeerJoin
  by_cases hlen : payload.length < 4 + tundNameLen
  · rw [if_pos hlen, if_pos hlen, if_neg (by omega)]
  · rw [if_neg hlen, if_neg hlen, load_eq (by omega), load_eq (by omega)]
    simp only [bind, Except.bind]
    by_cases hname : 0 ∈ Bytes.slice payload 4 tundNameLen
    · rw [cstring_eq hname, if_neg (by simp [hname])]
      simp only [clientUpdatePeer_eq env cli _ true hname,
        clientLogPeers_eq (h.update env _ _ true)]
      cases tuiActive <;> rfl
    · rw [if_pos ⟨not_lt.1 hlen, hname⟩, cstring, if_neg hname]

theorem clientHandlePeerLeave_eq {cli : Client} (h : NamesEnd cli) (tuiActive : Bool) (payload : Bytes) :
    clientHandlePeerLeave tuiActive cli payload = .ok (Tund.clientHandlePeerLeave cli payload) := by
  unfold clientHandlePeerLeave Tund.clientHandlePeerLeave clientFindPeer
  by_cases hlen : payload.length < 4
  · rw [if_pos hlen, if_pos hlen]
  · rw [if_neg hlen, if_neg hlen, load_eq (by omega)]
    simp only [bind, Except.bind]
    rw [scan_eq]
    simp only
    cases SlotTable.first fun i => (cli.peers i).holds (u32OfMem (Bytes.slice payload 0 4)) with
    | none =>
      simp only [indexOf, cstring_eq (zero_mem_ofBytes _), clientLogPeers_eq h]
      rw [if_pos (by decide)]
      split_ifs <;> rfl
    | some i =>
      have hentry : entry tundMaxPeers (indexOf (some i)) = .ok i := entry_val i
      simp only [hentry, cstring_eq (h i), cstring_eq (zero_mem_ofBytes _),
        clientLogPeers_eq (h.dropPeer i)]
      rw [if_neg (by simp [indexOf])]
      split_ifs <;> rfl

theorem clientHandleData_eq (cli : Client) (io : Proc) (payload : Bytes) :
    clientHandleData cli io payload = .ok (Tund.clientHandleData cli io payload) := by
  unfold clientHandleData Tund.clientHandleData
  rw [protoValidateIpv4Packet_eq]
  simp only [bind, Except.bind]
  cases Tund.protoValidateIpv4Packet payload with
  | some e => rfl
  | none =>
    have hall : Bytes.slice payload 0 payload.length = payload := by simp [Bytes.slice]
    simp only [protoGetSrcIp_eq, clientAddPeerTraffic_eq, load_eq (Nat.le_of_eq (Nat.zero_add _)), hall]

theorem clientDispatch_cases {cli : Client} (h : NamesEnd cli) (tuiActive : Bool) (env : Env) (io : Proc)
    (f : Frame) :
    clientDispatch tuiActive env cli io f =
      if f.type = MsgType.peerJoin.code ∧ 4 + tundNameLen ≤ f.payload.length ∧
          0 ∉ Bytes.slice f.payload 4 tundNameLen then .error .unterminated
      else .ok (Tund.clientDispatch env cli io f) := by
  by_cases hjoin : f.type = MsgType.peerJoin.code
  · simp only [clientDispatch, Tund.clientDispatch, hjoin, MsgType.ofCode_code, true_and,
      clientHandlePeerJoin_cases h]
    split_ifs <;> rfl
  · rw [if_neg (fun hbad => hjoin hbad.1)]
    unfold clientDispatch Tund.clientDispatch
    cases hcode : MsgType.ofCode f.type with
    | none => rfl
    | some m =>
      cases m with
      | peerJoin => exact absurd (MsgType.ofCode_eq_some_iff.1 hcode) hjoin
      | data => exact clientHandleData_eq cli io f.payload
      | peerList => simp only [clientHandlePeerList_eq h]; rfl
      | peerLeave => simp only [clientHandlePeerLeave_eq h]; rfl
      | keepalive => simp only [clientHandleKeepalive_eq]; rfl
      | keepaliveAck => simp only [clientHandleKeepaliveAck_eq]; rfl
      | register => rfl
      | assign => rfl
      | disconnect => rfl

end Checked

/-- The packet is a PEER_JOIN that the window takes, and its name has no NUL. -/
def UnterminatedJoin (cli : Client) (buf : Bytes) : Prop :=
  ∃ f, readFrame buf = some f ∧ (protoReplayAccept cli.serverReplay f.sequence).1 = true ∧
    f.type = MsgType.peerJoin.code ∧ 4 + tundNameLen ≤ f.payload.length ∧
    0 ∉ Bytes.slice f.payload 4 tundNameLen

theorem Checked.clientHandleServerPacket_cases {cli : Client} (h : Checked.NamesEnd cli)
    (tuiActive : Bool) (env : Env) (io : Proc) (buf : Bytes) :
    (UnterminatedJoin cli buf →
      Checked.clientHandleServerPacket tuiActive env cli io buf = .error .unterminated) ∧
    (¬ UnterminatedJoin cli buf →
      Checked.clientHandleServerPacket tuiActive env cli io buf =
        .ok (Tund.clientHandleServerPacket env cli io buf)) := by
  unfold Checked.clientHandleServerPacket Tund.clientHandleServerPacket UnterminatedJoin
  cases hread : readFrame buf with
  | none => simp
  | some f =>
    rcases hacc : protoReplayAccept cli.serverReplay f.sequence with ⟨_ | _, replay⟩
    · simp [hacc]
    · simp only [hacc, Checked.clientDispatch_cases (h.seen env replay)]
      constructor
      · rintro ⟨g, hg, -, hjoin⟩
        obtain rfl : f = g := Option.some.inj hg
        rw [if_pos hjoin]
      · intro hno
        rw [if_neg fun hjoin => hno ⟨f, rfl, by rw [hacc], hjoin⟩]

/-- **The handlers of the client stay in bounds, but for one.**  After every history of the table
and on every packet, the handler completes with all accesses checked, and then does what the handler
without the checks does, unless the packet is a PEER_JOIN whose name has no NUL. -/
theorem client_packet_in_bounds_iff (cli : Client) (io : Proc) (es : List TableEvent)
    (tuiActive : Bool) (env : Env) (buf : Bytes) :
    let st := es.foldl tableStep (cli.emptied, io)
    ((∃ r, Checked.clientHandleServerPacket tuiActive env st.1 st.2 buf = .ok r) ↔
      ¬ UnterminatedJoin st.1 buf) ∧
    ∀ r, Checked.clientHandleServerPacket tuiActive env st.1 st.2 buf = .ok r →
      r = clientHandleServerPacket env st.1 st.2 buf := by
  intro st
  have hnames : Checked.NamesEnd st.1 := (Checked.namesEnd_emptied cli).history es
  obtain ⟨hbad, hgood⟩ := Checked.clientHandleServerPacket_cases hnames tuiActive env st.2 buf
  refine ⟨⟨?_, fun hno => ⟨_, hgood hno⟩⟩, ?_⟩
  · rintro ⟨r, hr⟩ hjoin
    rw [hbad hjoin] at hr
    cases hr
  · intro r hr
    by_cases hjoin : UnterminatedJoin st.1 buf
    · rw [hbad hjoin] at hr
      cases hr
    · rw [hgood hjoin] at hr
      exact (Except.ok.inj hr).symm

/-- A PEER_JOIN for 65.65.65.65 with 32 letters and no NUL. -/
def unterminatedJoin : Bytes := List.replicate 36 0x41

/-- The client receives it and prints a buffer that is no string. -/
theorem client_prints_unterminated_name :
    let nonce := List.replicate tundNonceSize 0
    let wire := wireBytes monocypher plainKey MsgType.peerJoin.code 1 nonce unterminatedJoin
    let cli := clientInit ⟨2, 0x0100007F, 0⟩ []
    ∃ buf, netRecv monocypher plainKey wire = some buf ∧
      Checked.clientHandleServerPacket false (Env.plain 100 5) cli Proc.start buf =
        .error .unterminated := by
  intro nonce wire cli
  have hrecv : netRecv monocypher plainKey wire =
      some (frameBytes MsgType.peerJoin.code 1 nonce unterminatedJoin) :=
    netRecv_wireBytes (List.length_replicate ..) (by decide)
  refine ⟨_, hrecv, ?_⟩
  have hnames : Checked.NamesEnd cli := Checked.namesEnd_emptied cli
  apply (Checked.clientHandleServerPacket_cases hnames false _ Proc.start _).1
  refine ⟨_, readFrame_frameBytes (by decide) (List.length_replicate ..) (by decide), ?_, rfl, ?_, ?_⟩
  · decide
  · decide
  · decide

end Tund
