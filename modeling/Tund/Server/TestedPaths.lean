import Tund.Server.Bounds
import Tund.Server.Timeout

/-!
# The functions that only the tests call

`server_send_peer_list` and `server_broadcast` are called by the unit tests; the handlers
take snapshots under the lock and use `build_peer_list_from_snapshot` and
`server_send_peer_snapshots` instead.  What the tests say about the first two holds of the
handlers because both ways give the same: the list is read from the table or from
snapshots of it, and the names are copied or used in place.

The snapshots are those that the loop of `server_handle_register` collects
(`foldlM_registerSlot_eq`), and what the handler builds and sends is what they say
(`registered_joinActs`, `sendsOf_joinActs`).
-/

namespace Tund

/-! ### The functions -/

/-- The loop of `server_send_peer_list` over the slots that are left. -/
def sendPeerListLoop (srv : Server) (peerIdx : Option Slot) (buf : Bytes) (offset count : ℕ) :
    List Slot → Bytes × ℕ × ℕ
  | [] => (buf, offset, count)
  | i :: is =>
    if (srv.peers i).active && decide (peerIdx ≠ some i) then
      match protoWritePeerEntry buf (tundHdrSize + offset) (tundMaxPlaintext - offset)
          (srv.peers i).virtIp (srv.peers i).name.1 true with
      | (false, _) => (buf, offset, count)
      | (true, buf) => sendPeerListLoop srv peerIdx buf (offset + tundPeerEntrySize) (count + 1) is
    else sendPeerListLoop srv peerIdx buf offset count is

/-- The message that `server_send_peer_list` has in its buffer when it sends it. -/
def serverPeerListMessage (env : Env) (srv : Server) (io : Proc) (buf : Bytes) (peerIdx : Option Slot) :
    Option ℕ × Bytes × Proc :=
  match sendPeerListLoop srv peerIdx buf 0 0 (List.finRange tundMaxPeers) with
  | (buf, offset, _) =>
    match protoWriteHdr env io buf MsgType.peerList.code (UInt16.ofNat offset) with
    | (_, buf, io) => (some (tundHdrSize + offset), buf, io)

/-- `server_send_peer_list`; `buf` is what the stack holds.  Nothing is sent to a slot that is not
active. -/
def serverSendPeerList (env : Env) (srv : Server) (io : Proc) (buf : Bytes)
    (peerIdx : Option Slot) : Proc :=
  match peerIdx.filter fun i => (srv.peers i).active with
  | none => io
  | some i =>
    match serverPeerListMessage env srv io buf peerIdx with
    | (len, buf, io) => (netSend env io buf len (srv.peers i).realAddr).2

/-- `server_send_peer_snapshots` on the snapshots that are left. -/
def serverSendPeerSnapshots (env : Env) (box : Outbox) (bytesOut : UInt64) :
    List ServerPeerSnapshot → Server → Proc → Server × Proc
  | [], srv, io => (srv, io)
  | s :: peers, srv, io =>
    match netSend env io box.buf box.len s.realAddr with
    | (false, io) => serverSendPeerSnapshots env box bytesOut peers srv io
    | (true, io) =>
      serverSendPeerSnapshots env box bytesOut peers (serverAddPeerBytesOut srv s bytesOut) io

/-- The loop of `server_broadcast` from the `i`-th snapshot on, with `n` to go. -/
def broadcastLoop (env : Env) (box : Outbox) (bytesOut : UInt64) (peers : List ServerPeerSnapshot) :
    ℕ → ℕ → Server → Proc → Server × Proc
  | 0, _, srv, io => (srv, io)
  | n + 1, i, srv, io =>
    match peers[i]? with
    | none => (srv, io)
    | some s =>
      match netSend env io box.buf box.len s.realAddr with
      | (false, io) => broadcastLoop env box bytesOut peers n (i + 1) srv io
      | (true, io) =>
        broadcastLoop env box bytesOut peers n (i + 1) (serverAddPeerBytesOut srv s bytesOut) io

/-- `server_broadcast` -/
def serverBroadcast (env : Env) (srv : Server) (io : Proc) (box : Outbox) (excludeIdx : Option Slot)
    (bytesOut : UInt64) : Server × Proc :=
  let peers := serverSnapshotBroadcastLocked srv excludeIdx
  broadcastLoop env box bytesOut peers peers.length 0 srv io

/-! ### They do what the handlers do -/

/-- Every name of an active entry is a string. -/
def Server.NamesEnd (srv : Server) : Prop := ∀ i, (srv.peers i).active = true → 0 ∈ (srv.peers i).name.1

/-- An entry is the same from the table and from a snapshot. -/
theorem peerEntryBytes_cName {p : Peer} (h : 0 ∈ p.name.1) (online : Bool) :
    peerEntryBytes p.virtIp p.name.1 online = peerEntryBytes p.virtIp p.cName online := by
  rw [p.cName_eq h, peerEntryBytes, peerEntryBytes, Bytes.cstr_cstr]

/-- The loop over the table writes what the loop over the snapshots of the other active slots
writes, and stops at the same entry. -/
theorem sendPeerListLoop_eq {srv : Server} (hnames : srv.NamesEnd) (peerIdx : Option Slot)
    (slots : List Slot) (buf : Bytes) (offset count : ℕ) :
    sendPeerListLoop srv peerIdx buf offset count slots =
      peerListLoop buf offset count
        (((slots.filter fun i => (srv.peers i).active && decide (peerIdx ≠ some i)).map
          (serverSnapshotPeerLocked srv)).map ServerPeerSnapshot.entry) := by
  induction slots generalizing buf offset count with
  | nil => rfl
  | cons i slots ih =>
    rw [sendPeerListLoop, List.filter_cons]
    cases htake : (srv.peers i).active && decide (peerIdx ≠ some i) with
    | false => exact ih buf offset count
    | true =>
      have hactive : (srv.peers i).active = true := (Bool.and_eq_true_iff.1 htake).1
      have hentry := peerEntryBytes_cName (hnames i hactive) true
      rw [if_pos rfl, if_pos rfl, List.map_cons, List.map_cons, peerListLoop]
      have hwrite : ∀ size, protoWritePeerEntry buf (tundHdrSize + offset) size
          (serverSnapshotPeerLocked srv i).entry.virtIp (serverSnapshotPeerLocked srv i).entry.name true =
          protoWritePeerEntry buf (tundHdrSize + offset) size (srv.peers i).virtIp
            (srv.peers i).name.1 true := by
        intro size
        simp only [protoWritePeerEntry, ServerPeerSnapshot.entry, serverSnapshotPeerLocked, hentry]
      rw [hwrite]
      rcases protoWritePeerEntry buf (tundHdrSize + offset) (tundMaxPlaintext - offset)
        (srv.peers i).virtIp (srv.peers i).name.1 true with ⟨_ | _, buf'⟩
      · rfl
      · exact ih buf' _ _

theorem serverPeerListMessage_eq {srv : Server} (hnames : srv.NamesEnd) (env : Env) (io : Proc)
    (buf : Bytes) (peerIdx : Option Slot) :
    serverPeerListMessage env srv io buf peerIdx =
      buildPeerListFromSnapshot env io buf
        ((serverSnapshotBroadcastLocked srv peerIdx).map ServerPeerSnapshot.entry) := by
  unfold serverPeerListMessage buildPeerListFromSnapshot
  rw [sendPeerListLoop_eq hnames]
  rfl

/-- What a message buffer holds behind the header. -/
theorem Holds.slice {buf payload : Bytes} {type : UInt8} (h : Holds buf type payload) :
    Bytes.slice buf tundHdrSize payload.length = payload := by
  obtain ⟨pre, rest, hpre, rfl⟩ := h.split
  rw [List.append_assoc, Bytes.slice_append hpre.symm, List.take_left]

/-- The handlers forward with `server_send_peer_snapshots`. -/
theorem runActs_map_forward (env : Env) (bytesOut : UInt64) (peers : List ServerPeerSnapshot) (w : Work) :
    runActs env w (peers.map fun s => .forward s bytesOut) =
      let r := serverSendPeerSnapshots env w.box bytesOut peers w.srv w.io
      ⟨r.1, r.2, w.box⟩ := by
  induction peers generalizing w with
  | nil => rfl
  | cons s peers ih =>
    rw [List.map_cons, runActs_cons, ih, serverSendPeerSnapshots]
    simp only [Act.exec]
    rcases netSend env w.io w.box.buf w.box.len s.realAddr with ⟨_ | _, io⟩ <;> rfl

/-- From the `i`-th snapshot on the loop of `server_broadcast` is the one over the rest. -/
theorem broadcastLoop_eq (env : Env) (box : Outbox) (bytesOut : UInt64)
    (before peers : List ServerPeerSnapshot) (srv : Server) (io : Proc) :
    broadcastLoop env box bytesOut (before ++ peers) peers.length before.length srv io =
      serverSendPeerSnapshots env box bytesOut peers srv io := by
  induction peers generalizing before srv io with
  | nil => rfl
  | cons s peers ih =>
    have hget : (before ++ s :: peers)[before.length]? = some s := by simp
    have hnext : before ++ s :: peers = (before ++ [s]) ++ peers := by simp
    have hlen : before.length + 1 = (before ++ [s]).length := by simp
    rw [List.length_cons, broadcastLoop, serverSendPeerSnapshots, hget]
    simp only
    rcases netSend env io box.buf box.len s.realAddr with ⟨_ | _, io'⟩
    · simp only [hnext, hlen]
      exact ih _ _ _
    · simp only [hnext, hlen]
      exact ih _ _ _

/-! ### What the registration handler does -/

/-- Both arrays that `server_handle_register` fills, for the entry in slot `i`. -/
theorem foldlM_registerSlot_eq (srv : Server) (i : Slot) :
    (List.finRange tundMaxPeers).foldlM (Checked.registerSlot srv i) ([], []) =
      .ok (serverSnapshotBroadcastLocked srv (some i),
        (serverSnapshotBroadcastLocked srv (some i)).map ServerPeerSnapshot.realAddr) := by
  rw [Checked.foldlM_registerSlot _ _ _ _ (by simp) (by simp)]
  simp only [List.nil_append]
  have hothers : serverSnapshotBroadcastLocked srv (some i) =
      ((List.finRange tundMaxPeers).filter (Checked.wanted srv (some i))).map
        (serverSnapshotPeerLocked srv) := rfl
  rw [hothers, List.map_map]
  rfl

/-- What is left to do when the handler has made the entry in slot `i`. -/
theorem registered_joinActs {env : Env} {srv₀ srv : Server} {payload : Bytes} {src : SockAddr}
    {seq : UInt64} {acts : List Act} {i : Slot}
    (h : serverRegisterLocked env srv₀ payload src seq = (srv, acts))
    (hoff : (srv₀.peers i).active = false) (hon : (srv.peers i).active = true) :
    acts = joinActs (srv.peers i) (serverSnapshotBroadcastLocked srv (some i)) := by
  have hmade := serverRegisterLocked_made hoff
    (show ((serverRegisterLocked env srv₀ payload src seq).1.peers i).active = true by
      rw [h]; exact hon)
  obtain ⟨rfl, rfl⟩ := Prod.mk.inj (h.symm.trans hmade)
  simp only [join_peers, if_pos]

theorem sendsOf_map_send (probe m : Msg) (dests : List SockAddr) :
    sendsOf probe (some m) (dests.map .send) = dests.map fun dest => (dest, m) := by
  induction dests with
  | nil => rfl
  | cons dest dests ih =>
    rw [List.map_cons, sendsOf, List.map_cons]
    exact congrArg _ ih

/-- A registration sends ASSIGN and PEER_LIST to the new peer and PEER_JOIN to the others. -/
theorem sendsOf_joinActs (probe : Msg) (p : Peer) (others : List ServerPeerSnapshot) :
    sendsOf probe none (joinActs p others) =
      (p.realAddr, .assign p.virtIp (htonl tundNetmask) tundTunMtu) ::
      (p.realAddr, .peerList (others.map ServerPeerSnapshot.entry)) ::
      others.map fun s => (s.realAddr, .peerJoin p.virtIp p.cName) := by
  have hsends := sendsOf_map_send probe (.peerJoin p.virtIp p.cName)
    (others.map ServerPeerSnapshot.realAddr)
  rw [List.map_map, List.map_map] at hsends
  rw [joinActs, List.append_assoc, sendsOf_append]
  exact congrArg (fun xs => (p.realAddr, .assign p.virtIp (htonl tundNetmask) tundTunMtu) ::
    (p.realAddr, .peerList (others.map ServerPeerSnapshot.entry)) :: xs) hsends

theorem joinActs_putsOut (env : Env) (io : Proc) (srv : Server) (p : Peer)
    (others : List ServerPeerSnapshot) :
    PutsOut env io (finish env io (srv, joinActs p others)).2
      ((p.realAddr, .assign p.virtIp (htonl tundNetmask) tundTunMtu) ::
      (p.realAddr, .peerList (others.map ServerPeerSnapshot.entry)) ::
      others.map fun s => (s.realAddr, .peerJoin p.virtIp p.cName)) := by
  have hfits : ∀ m, .build m ∈ joinActs p others → m.payload.length ≤ tundMaxPlaintext := by
    intro m hm
    refine Msg.length_payload_le fun hdata => ?_
    simp [joinActs, assignActs] at hm
    rcases hm with rfl | rfl | rfl <;> cases hdata
  have hprobes : ∀ box dest, .probe box dest ∈ joinActs p others → box.Offers env (some .disconnect) := by
    intro box dest hp
    simp [joinActs, assignActs] at hp
  rw [← sendsOf_joinActs .disconnect]
  exact runActs_sends (Outbox.offers_fresh env) hfits hprobes

/-- The second datagram of a registration. -/
theorem joinActs_peerList {env : Env} (hr : env.RandomWorks) (io : Proc) (srv : Server) (p : Peer)
    (others : List ServerPeerSnapshot) :
    ∃ assign list joins,
      datagramsOf (finish env io (srv, joinActs p others)).2.out =
        datagramsOf io.out ++ assign :: list :: joins ∧
      list.Delivers env (p.realAddr, .peerList (others.map ServerPeerSnapshot.entry)) := by
  obtain ⟨ds, ys, hout, -, hall, hd⟩ := joinActs_putsOut env io srv p others
  rw [hall hr] at hd
  obtain _ | @⟨assign, _, _, _, -, hd⟩ := hd
  obtain _ | @⟨list, _, joins, _, hlist, -⟩ := hd
  exact ⟨assign, list, joins, hout, hlist⟩

/-- The message of `server_send_peer_list` and the list built from the snapshots: the length is that
of the same payload, and so is what stands behind the header. -/
theorem serverPeerListMessage_holds {srv : Server} (hnames : srv.NamesEnd) (env : Env) (io : Proc)
    {buf : Bytes} (hbuf : buf.length = tundMaxPkt) (peerIdx : Option Slot) :
    let tested := serverPeerListMessage env srv io buf peerIdx
    let payload := (Msg.peerList ((serverSnapshotBroadcastLocked srv peerIdx).map
      ServerPeerSnapshot.entry)).payload
    tested.1 = some (tundHdrSize + payload.length) ∧
      Bytes.slice tested.2.1 tundHdrSize payload.length = payload := by
  obtain ⟨-, hlen, hholds, -⟩ := buildPeerList_cases env io hbuf
    ((serverSnapshotBroadcastLocked srv peerIdx).map ServerPeerSnapshot.entry)
  rw [← serverPeerListMessage_eq hnames env io buf peerIdx] at hlen hholds
  exact ⟨hlen, hholds.slice⟩

/-- **What is tested is what runs.**  For a table whose names are strings and an active slot `i`,
let `entries` and `dests` be what the loop of `server_handle_register` collects for slot `i`.
`server_send_peer_list` sends the list that is built from `entries`, with the same length and
payload whatever the two buffers held; a registration that ends in this table with a new entry in
slot `i` leaves exactly the work with `entries` and `dests` to do, and its second datagram goes to
the new peer and carries that payload; and `server_broadcast` has the effect of a snapshot and
`server_send_peer_snapshots`, which is what the handlers do. -/
theorem tested_paths_match_live {srv : Server} (hnames : srv.NamesEnd) {i : Slot}
    (hactive : (srv.peers i).active = true) :
    (∃ entries dests,
      (List.finRange tundMaxPeers).foldlM (Checked.registerSlot srv i) ([], []) =
        .ok (entries, dests) ∧
      (∀ (env env' : Env) (io io' : Proc) (buf buf' : Bytes), buf.length = tundMaxPkt →
        buf'.length = tundMaxPkt →
        let tested := serverPeerListMessage env srv io buf (some i)
        let live := buildPeerListFromSnapshot env' io' buf' (entries.map ServerPeerSnapshot.entry)
        serverSendPeerList env srv io buf (some i) =
          (netSend env tested.2.2 tested.2.1 tested.1 (srv.peers i).realAddr).2 ∧
        ∃ len, tested.1 = some (tundHdrSize + len) ∧ live.1 = some (tundHdrSize + len) ∧
          Bytes.slice tested.2.1 tundHdrSize len = Bytes.slice live.2.1 tundHdrSize len) ∧
      ∀ (env₀ : Env) (srv₀ : Server) (payload : Bytes) (src : SockAddr) (seq : UInt64)
        (acts : List Act), serverRegisterLocked env₀ srv₀ payload src seq = (srv, acts) →
        (srv₀.peers i).active = false →
        acts = Checked.joinActs (srv.peers i) entries dests ∧
        (env₀.RandomWorks → ∀ io₀ : Proc, ∃ assign list joins,
          datagramsOf (finish env₀ io₀ (srv, acts)).2.out =
            datagramsOf io₀.out ++ assign :: list :: joins ∧
          list.dest = (srv.peers i).realAddr ∧
          ∀ (env : Env) (io : Proc) (buf : Bytes), buf.length = tundMaxPkt →
            let tested := serverPeerListMessage env srv io buf (some i)
            ∃ len, tested.1 = some (tundHdrSize + len) ∧
              list.Carries env₀.aead env₀.key MsgType.peerList.code
                (Bytes.slice tested.2.1 tundHdrSize len))) ∧
    ∀ (env : Env) (io : Proc) (box : Outbox) (excludeIdx : Option Slot) (bytesOut : UInt64),
      let peers := serverSnapshotBroadcastLocked srv excludeIdx
      let tested := serverBroadcast env srv io box excludeIdx bytesOut
      tested = serverSendPeerSnapshots env box bytesOut peers srv io ∧
      runActs env ⟨srv, io, box⟩ (peers.map fun s => .forward s bytesOut) =
        ⟨tested.1, tested.2, box⟩ := by
  constructor
  · refine ⟨_, _, foldlM_registerSlot_eq srv i, ?_, ?_⟩
    · intro env env' io io' buf buf' hbuf hbuf' tested live
      have htarget : (some i).filter (fun i => (srv.peers i).active) = some i :=
        Option.filter_eq_some_iff.2 ⟨rfl, hactive⟩
      obtain ⟨hlen, hslice⟩ := serverPeerListMessage_holds hnames env io hbuf (some i)
      obtain ⟨-, hlen', hholds', -⟩ := buildPeerList_cases env' io' hbuf'
        ((serverSnapshotBroadcastLocked srv (some i)).map ServerPeerSnapshot.entry)
      refine ⟨?_, _, hlen, hlen', hslice.trans hholds'.slice.symm⟩
      rw [serverSendPeerList, htarget]
    · intro env₀ srv₀ payload src seq acts hreg hoff
      have hacts := registered_joinActs hreg hoff hactive
      refine ⟨?_, fun hr io₀ => ?_⟩
      · rw [hacts, joinActs, Checked.joinActs, List.map_map]
        rfl
      · obtain ⟨assign, list, joins, hout, hdest, hcar⟩ := joinActs_peerList hr io₀ srv (srv.peers i)
          (serverSnapshotBroadcastLocked srv (some i))
        rw [← hacts] at hout
        refine ⟨assign, list, joins, hout, hdest, fun env io buf hbuf => ?_⟩
        obtain ⟨hlen, hslice⟩ := serverPeerListMessage_holds hnames env io hbuf (some i)
        exact ⟨_, hlen, hslice.symm ▸ hcar⟩
  · intro env io box excludeIdx bytesOut peers tested
    have heq : tested = serverSendPeerSnapshots env box bytesOut peers srv io :=
      broadcastLoop_eq env box bytesOut [] peers srv io
    exact ⟨heq, by rw [runActs_map_forward, heq]⟩

/-- A table as the tests have it: two peers, one with a name of 31 letters. -/
def pairTable : Server :=
  (serverInit.join 0 { Peer.zero with active := true, virtIp := poolIp 0, name := .ofBytes [0x61] }).join 1
    { Peer.zero with active := true, virtIp := poolIp 1, name := .ofBytes (List.replicate 40 0x62) }

/-- The table when a third peer has registered. -/
def trioTable : Server :=
  pairTable.join 2 (registeredPeer (Env.plain 100 5) 2 (poolIp 2) [0x63] ⟨2, 1, 1⟩ 7)

theorem serverRegisterLocked_pairTable :
    ∃ acts, serverRegisterLocked (Env.plain 100 5) pairTable [0x63] ⟨2, 1, 1⟩ 7 = (trioTable, acts) := by
  have hfind : serverFindPeerByAddr pairTable ⟨2, 1, 1⟩ = none := by decide +kernel
  have hfree : serverFindFreeSlot pairTable = some 2 := by decide +kernel
  have hvip : serverAllocIp pairTable = poolIp 2 := by decide +kernel
  have hpool : poolIp 2 ≠ 0 := by decide
  refine ⟨joinActs (registeredPeer (Env.plain 100 5) 2 (poolIp 2) [0x63] ⟨2, 1, 1⟩ 7)
    (serverSnapshotBroadcastLocked trioTable (some 2)), ?_⟩
  simp only [serverRegisterLocked, hfind, hfree, hvip, if_neg hpool, trioTable]

theorem trioTable_namesEnd : trioTable.NamesEnd := by
  intro j _
  simp only [trioTable, pairTable, Server.join, Server.setPeer_peers]
  split_ifs
  · exact zero_mem_registeredName _ _
  all_goals exact zero_mem_ofBytes _

/-- The third peer gets a list with the two others: the one that the tests see. -/
theorem tested_paths_match_live_third :
    ∃ acts, serverRegisterLocked (Env.plain 100 5) pairTable [0x63] ⟨2, 1, 1⟩ 7 = (trioTable, acts) ∧
      let tested := serverPeerListMessage (Env.plain 100 5) trioTable Proc.start Outbox.fresh.buf (some 2)
      let len := 2 * tundPeerEntrySize
      tested.1 = some (tundHdrSize + len) ∧
      ∃ assign list joins,
        datagramsOf (finish (Env.plain 100 5) Proc.start (trioTable, acts)).2.out =
          assign :: list :: joins ∧
        list.dest = ⟨2, 1, 1⟩ ∧
        list.Carries monocypher plainKey MsgType.peerList.code
          (Bytes.slice tested.2.1 tundHdrSize len) := by
  obtain ⟨acts, hreg⟩ := serverRegisterLocked_pairTable
  have hlen : (serverPeerListMessage (Env.plain 100 5) trioTable Proc.start Outbox.fresh.buf
      (some 2)).1 = some (tundHdrSize + 2 * tundPeerEntrySize) := by
    decide +kernel
  obtain ⟨⟨entries, dests, -, -, hlive⟩, -⟩ :=
    tested_paths_match_live trioTable_namesEnd (i := 2) (by decide)
  obtain ⟨-, hsends⟩ := hlive (Env.plain 100 5) pairTable [0x63] ⟨2, 1, 1⟩ 7 acts hreg (by decide)
  obtain ⟨assign, list, joins, hout, hdest, hcar⟩ := hsends (Env.plain_randomWorks 100 5) Proc.start
  obtain ⟨len, hlen', hcar⟩ := hcar (Env.plain 100 5) Proc.start Outbox.fresh.buf Outbox.length_fresh
  obtain rfl : len = 2 * tundPeerEntrySize :=
    Nat.add_left_cancel (Option.some.inj (hlen'.symm.trans hlen))
  exact ⟨acts, hreg, hlen, assign, list, joins, hout, hdest, hcar⟩

end Tund
