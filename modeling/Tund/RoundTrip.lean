import Tund.Client.View
import Tund.Server.Isolation

/-!
# From builder to handler

What a builder is given is what the handler on the other side reads.  The transport
delivers type and payload of every message (`sendMsg_of_works`, `Datagram.Carries.read`);
here each payload is followed into its handler, and a name from REGISTER through the
server's entry into the tables of other clients.
-/

namespace Tund

/-! ### Peer entries -/

/-- A row with its status. -/
abbrev PeerRow := UInt32 × Bytes × Bool

/-- The bytes of some rows. -/
def peerRowsBytes (rows : List PeerRow) : Bytes :=
  rows.flatMap fun r => peerEntryBytes r.1 r.2.1 r.2.2

theorem length_peerRowsBytes (rows : List PeerRow) :
    (peerRowsBytes rows).length = rows.length * tundPeerEntrySize := by
  induction rows with
  | nil => simp [peerRowsBytes]
  | cons r rows ih =>
    rw [peerRowsBytes, List.flatMap_cons, List.length_append, length_peerEntryBytes,
      List.length_cons, ← peerRowsBytes, ih]
    ring

/-- `proto_write_peer_entry` for one row after the other, from row `i` of a body on. -/
def writePeerRows (body : Bytes) : ℕ → List PeerRow → Bytes
  | _, [] => body
  | i, r :: rows =>
    writePeerRows (protoWritePeerEntry body (i * tundPeerEntrySize)
      (tundMaxPlaintext - i * tundPeerEntrySize) r.1 r.2.1 r.2.2).2 (i + 1) rows

theorem writePeerRows_eq (rows : List PeerRow) {body : Bytes} (hbody : body.length = tundMaxPlaintext)
    {i : ℕ} (hi : i + rows.length ≤ tundPeerListMax) :
    writePeerRows body i rows = Bytes.patch body (i * tundPeerEntrySize) (peerRowsBytes rows) := by
  induction rows generalizing body i with
  | nil => simp [writePeerRows, peerRowsBytes]
  | cons r rows ih =>
    rw [List.length_cons] at hi
    have hfit : i * tundPeerEntrySize + tundPeerEntrySize ≤ tundMaxPlaintext := by
      simp only [tundPeerListMax, tundPeerEntrySize, tundMaxPlaintext] at hi ⊢
      omega
    have hroom : ¬ tundMaxPlaintext - i * tundPeerEntrySize < tundPeerEntrySize := by omega
    have hentry := length_peerEntryBytes r.1 r.2.1 r.2.2
    have hnext : (i + 1) * tundPeerEntrySize =
        i * tundPeerEntrySize + (peerEntryBytes r.1 r.2.1 r.2.2).length := by
      rw [hentry]; ring
    rw [writePeerRows, protoWritePeerEntry, if_neg hroom,
      ih (by rw [Bytes.length_patch (by rw [hentry]; omega), hbody]) (by omega), hnext,
      Bytes.patch_patch (by omega)]
    rfl

theorem protoReadPeerEntry_rows (rows : List PeerRow) {i : ℕ} (hi : i < rows.length) :
    protoReadPeerEntry (peerRowsBytes rows) i =
      some (rows[i].1, nameField rows[i].2.1, rows[i].2.2) := by
  have hsplit : peerRowsBytes rows = peerRowsBytes (rows.take i) ++
      peerEntryBytes rows[i].1 rows[i].2.1 rows[i].2.2 ++ peerRowsBytes (rows.drop (i + 1)) := by
    have hrows : rows = rows.take i ++ (rows[i] :: rows.drop (i + 1)) := by
      rw [List.cons_getElem_drop_succ, List.take_append_drop]
    rw [congrArg peerRowsBytes hrows]
    simp only [peerRowsBytes, List.flatMap_append, List.flatMap_cons, List.append_assoc]
  rw [hsplit]
  apply protoReadPeerEntry_append
  rw [length_peerRowsBytes, List.length_take, Nat.min_eq_left hi.le]

/-! ### Names -/

/-- A name that fits 16 bits goes out as its first 32 bytes. -/
theorem registerPayload_eq {name : Bytes} (hlen : (Bytes.cstr name).length < 2 ^ 16) :
    registerPayload name = (Bytes.cstr name).take tundNameLen := by
  have hpre : ∀ k, k ≤ (Bytes.cstr name).length → name.take k = (Bytes.cstr name).take k := by
    intro k hk
    obtain ⟨rest, hrest⟩ : Bytes.cstr name <+: name := List.takeWhile_prefix _
    conv_lhs => rw [← hrest]
    rw [List.take_append_of_le_length hk]
  rw [registerPayload, Nat.mod_eq_of_lt hlen]
  split_ifs with h
  · exact hpre _ h.le
  · rw [hpre _ le_rfl, List.take_length, List.take_of_length_le (by omega)]

/-- The name of a new entry is the start of the C string in the payload. -/
theorem cstr_registeredName {payload : Bytes} (h : 0 < payload.length) (idx : ℕ) :
    Bytes.cstr (registeredName payload idx).1 = shortName payload := by
  rw [registeredName, if_pos h, NameBuf.ofBytes, Bytes.cstr_pad, Bytes.cstr_take, shortName]
  exact List.take_of_length_le (by rw [List.length_take]; omega)

theorem shortName_take (name : Bytes) :
    shortName ((Bytes.cstr name).take tundNameLen) = shortName name := by
  rw [shortName, Bytes.cstr_take, Bytes.cstr_cstr, List.take_take]
  rfl

theorem cstr_defaultName :
    ∀ i : Slot, Bytes.cstr (NameBuf.ofBytes (defaultName i)).1 = defaultName i := by
  decide +kernel

/-- The name of the entry that a REGISTER with `name` makes in slot `i`. -/
theorem cstr_registeredName_register (name : NameBuf) (i : Slot) :
    Bytes.cstr (registeredName (Msg.register name.1).payload i).1 =
      if Bytes.cstr name.1 = [] then defaultName i else shortName name.1 := by
  have hlen : (Bytes.cstr name.1).length ≤ tundNameLen :=
    (List.takeWhile_prefix _).length_le.trans_eq name.2
  have hpay : (Msg.register name.1).payload = (Bytes.cstr name.1).take tundNameLen :=
    registerPayload_eq (lt_of_le_of_lt hlen (by decide))
  rw [hpay]
  split_ifs with hempty
  · rw [hempty, List.take_nil]
    exact cstr_defaultName i
  · have hpos : 0 < ((Bytes.cstr name.1).take tundNameLen).length := by
      rw [List.take_of_length_le hlen]
      exact List.length_pos_of_ne_nil hempty
    rw [cstr_registeredName hpos, shortName_take]

theorem cName_of_cstr {p : Peer} {name : Bytes} (h : Bytes.cstr p.name.1 = shortName name) :
    p.cName = shortName name := by
  rw [Peer.cName, h, shortName, List.take_take, Nat.min_self]

/-- A REGISTER that gets a slot: the entry, its name, and the PEER_JOIN about it. -/
theorem register_entry (env : Env) (srv : Server) (io : Proc) {payload : Bytes}
    (hpay : 0 < payload.length) (src : SockAddr) (seq : UInt64)
    (hnew : serverFindPeerByAddr srv src = none) (hfree : serverFindFreeSlot srv ≠ none)
    (hvip : serverAllocIp srv ≠ 0) :
    ∃ i, let locked := serverRegisterLocked env srv payload src seq
      let p := (finish env io locked).1.peers i
      p.isAt src = true ∧ Bytes.cstr p.name.1 = shortName payload ∧ p.cName = shortName payload ∧
      Act.build (.peerJoin p.virtIp p.cName) ∈ locked.2 ∧
      (serverSnapshotPeerLocked (finish env io locked).1 i).entry = ⟨p.virtIp, p.cName⟩ := by
  rcases serverRegisterLocked_cases env srv payload src seq with
    ⟨i, hi, -⟩ | ⟨i, hi, -⟩ | ⟨-, hfull, -⟩ | ⟨i, -, -, -, hl⟩
  · rw [hnew] at hi; cases hi
  · rw [hnew] at hi; cases hi
  · rcases hfull with h | h
    · exact absurd h hfree
    · exact absurd h hvip
  · set p := registeredPeer env i (serverAllocIp srv) payload src seq with hp
    have hsame := finish_same env io (serverRegisterLocked env srv payload src seq)
    have hslot : (serverRegisterLocked env srv payload src seq).1.peers i = p := by
      rw [hl]
      simp only [join_peers, if_pos]
    have hname : Bytes.cstr p.name.1 = shortName payload := cstr_registeredName hpay i
    have hentry := hsame.2 i
    rw [hslot] at hentry
    refine ⟨i, ?_, ?_, ?_, ?_, rfl⟩ <;> rw [hentry]
    · exact Peer.isAt_iff.2 ⟨rfl, rfl, rfl⟩
    · exact hname
    · exact cName_of_cstr hname
    · rw [hl]
      exact List.mem_append_left _ (List.mem_append_right _ (by simp [Peer.cName]))

/-! ### The round trip -/

theorem handleAssign_payload (cli : Client) (virtIp netmask : UInt32) (mtu : UInt16) :
    handleAssign cli (Msg.assign virtIp netmask mtu).payload =
      (true, { cli with virtIp := virtIp, netmask := netmask }) := by
  have h0 : Bytes.slice (memOfU32 virtIp ++ memOfU32 netmask ++ Bytes.be 2 mtu.toNat) 0 4 =
      memOfU32 virtIp := by
    rw [List.append_assoc]
    exact Bytes.slice_append_left (a := memOfU32 virtIp)
  have h4 : Bytes.slice (memOfU32 virtIp ++ memOfU32 netmask ++ Bytes.be 2 mtu.toNat) 4 4 =
      memOfU32 netmask := by
    rw [List.append_assoc, Bytes.slice_append (by simp), List.take_left' (by simp)]
  rw [Msg.payload, handleAssign, if_neg (by simp), h0, h4, u32OfMem_memOfU32, u32OfMem_memOfU32]

/-- **Builder to handler.**  With a working random source every message reaches whoever has the
key with its type and payload, and the payload is read back as the arguments of the builder: the
name of REGISTER in the server's entry, the addresses of ASSIGN in the client, the timestamps of
the keepalives, the packet of DATA, the peer of PEER_JOIN and PEER_LEAVE in the client's table, and
the rows of a peer list in order.  Names come out as the first 31 bytes of the C string, on every
way that a registered name can take to another client. -/
theorem message_round_trip (env : Env) (hr : env.RandomWorks) :
    (∀ (m : Msg) (io : Proc) (dest : SockAddr), m.payload.length ≤ tundMaxPlaintext →
      ∃ d, (sendMsg env io m dest).2.out = io.out ++ [.datagram d] ∧ d.dest = dest ∧
        ∃ buf seq, netRecv env.aead env.key d.wire = some buf ∧
          readFrame buf = some ⟨m.type.code, m.payload, seq⟩) ∧
    (∀ (name : Bytes) (srv : Server) (io : Proc) (src : SockAddr) (seq : UInt64),
      0 < (Bytes.cstr name).length → (Bytes.cstr name).length < 65536 →
      serverFindPeerByAddr srv src = none → serverFindFreeSlot srv ≠ none →
      serverAllocIp srv ≠ 0 →
      ∃ i, let p := (finish env io
          (serverRegisterLocked env srv (Msg.register name).payload src seq)).1.peers i
        p.isAt src = true ∧ Bytes.cstr p.name.1 = (Bytes.cstr name).take 31) ∧
    (∀ (cli : Client) (virtIp netmask : UInt32) (mtu : UInt16),
      handleAssign cli (Msg.assign virtIp netmask mtu).payload =
        (true, { cli with virtIp := virtIp, netmask := netmask })) ∧
    (∀ timestamp : UInt64,
      protoReadKeepaliveTimestamp (Msg.keepalive timestamp).payload = some timestamp ∧
      protoReadKeepaliveTimestamp (Msg.keepaliveAck timestamp).payload = some timestamp) ∧
    (∀ ipPkt : Bytes, ipPkt.length ≤ tundMaxPlaintext → (Msg.data ipPkt).payload = ipPkt) ∧
    (∀ (cli : Client) (virtIp : UInt32) (name : Bytes) (v : UInt32), clientFreeSlot cli ≠ none →
      (clientHandlePeerJoin env cli (Msg.peerJoin virtIp name).payload).lookup v =
        if v = virtIp then some ((Bytes.cstr name).take 31) else cli.lookup v) ∧
    (∀ (cli : Client) (virtIp : UInt32),
      let cli' := clientHandlePeerLeave cli (Msg.peerLeave virtIp).payload
      cli' = (clientFindPeer cli virtIp).elim cli cli.dropPeer ∧
      (cli.Distinct → ∀ v, cli'.lookup v = if v = virtIp then none else cli.lookup v)) ∧
    (∀ (body : Bytes) (rows : List PeerRow), body.length = tundMaxPlaintext → rows.length ≤ 43 →
      let payload := (writePeerRows body 0 rows).take (rows.length * tundPeerEntrySize)
      protoPeerEntryCount payload.length = rows.length ∧
      ∀ i (hi : i < rows.length), ∃ name,
        protoReadPeerEntry payload i = some (rows[i].1, name, rows[i].2.2) ∧
        Bytes.cstr name = (Bytes.cstr rows[i].2.1).take 31) ∧
    ∀ (payload : Bytes) (srv : Server) (io : Proc) (src : SockAddr) (seq : UInt64),
      0 < payload.length → serverFindPeerByAddr srv src = none → serverFindFreeSlot srv ≠ none →
      serverAllocIp srv ≠ 0 →
      ∃ i, let locked := serverRegisterLocked env srv payload src seq
        let p := (finish env io locked).1.peers i
        p.isAt src = true ∧ Act.build (.peerJoin p.virtIp p.cName) ∈ locked.2 ∧
        ∀ (cli cli' : Client) (entries : List PeerEntry), clientFreeSlot cli ≠ none →
          (serverSnapshotPeerLocked (finish env io locked).1 i).entry ∈ entries →
          entries.length ≤ 43 → (entries.map PeerEntry.virtIp).Nodup →
          entries.length ≤ cli'.room →
          (clientHandlePeerJoin env cli (Msg.peerJoin p.virtIp p.cName).payload).lookup p.virtIp =
            some ((Bytes.cstr payload).take 31) ∧
          (clientHandlePeerList env cli' (Msg.peerList entries).payload).lookup p.virtIp =
            some ((Bytes.cstr payload).take 31) := by
  refine ⟨?_, ?_, handleAssign_payload, ?_, fun _ => dataPayload_of_le, ?_, ?_, ?_, ?_⟩
  · intro m io dest hm
    obtain ⟨d, -, hdest, hcar, hout⟩ := sendMsg_of_works hr io hm dest
    exact ⟨d, hout, hdest, hcar.read⟩
  · intro name srv io src seq hpos hlt hnew hfree hvip
    have hpay : (Msg.register name).payload = (Bytes.cstr name).take tundNameLen :=
      registerPayload_eq hlt
    rw [hpay]
    have hlen : 0 < ((Bytes.cstr name).take tundNameLen).length := by
      rw [List.length_take]
      exact lt_min (by decide) hpos
    obtain ⟨i, hat, hname, -⟩ := register_entry env srv io hlen src seq hnew hfree hvip
    exact ⟨i, hat, hname.trans (shortName_take name)⟩
  · exact fun t => ⟨protoReadKeepaliveTimestamp_be t, protoReadKeepaliveTimestamp_be t⟩
  · intro cli virtIp name v hfree
    rw [clientHandlePeerJoin_payload ⟨virtIp, name⟩, lookup_learn fun _ => hfree]
    rfl
  · intro cli virtIp
    dsimp only
    rw [clientHandlePeerLeave_payload]
    cases hfind : clientFindPeer cli virtIp with
    | some i => exact ⟨rfl, fun hd v => lookup_drop hd hfind v⟩
    | none =>
      refine ⟨rfl, fun _ v => ?_⟩
      dsimp only
      split_ifs with hv
      · rw [hv, Client.lookup, hfind, Option.map_none]
      · rfl
  · intro body rows hbody hrows
    have hbytes : (writePeerRows body 0 rows).take (rows.length * tundPeerEntrySize) =
        peerRowsBytes rows := by
      rw [writePeerRows_eq rows hbody (by rw [Nat.zero_add]; exact hrows), Nat.zero_mul, Bytes.patch_zero,
        List.take_left' (length_peerRowsBytes rows)]
    dsimp only
    rw [hbytes]
    refine ⟨?_, fun i hi => ⟨_, protoReadPeerEntry_rows rows hi, cstr_nameField _⟩⟩
    rw [protoPeerEntryCount, length_peerRowsBytes, Nat.mul_div_cancel _ (by decide)]
  · intro payload srv io src seq hpos hnew hfree hvip
    obtain ⟨i, hat, hname, hcname, hjoin, hentry⟩ :=
      register_entry env srv io hpos src seq hnew hfree hvip
    refine ⟨i, hat, hjoin, ?_⟩
    intro cli cli' entries hroom hmem hlen hnodup hroom'
    set p := (finish env io (serverRegisterLocked env srv payload src seq)).1.peers i with hp
    have hshort : shortName p.cName = (Bytes.cstr payload).take 31 := by
      rw [hcname, shortName_shortName]
      rfl
    constructor
    · rw [clientHandlePeerJoin_payload ⟨p.virtIp, p.cName⟩, lookup_learn (fun _ => hroom),
        if_pos rfl, hshort]
    · have hfind : entries.find? (fun e => decide (e.virtIp = p.virtIp)) =
          some ⟨p.virtIp, p.cName⟩ := by
        rw [hentry] at hmem
        exact find_of_mem hnodup hmem
      rw [clientHandlePeerList_payload, List.take_of_length_le (i := tundPeerListMax) hlen,
        lookup_foldl_learn entries hnodup hroom', hfind, ← hshort]

/-- PEER_JOIN to a client that has just started. -/
theorem message_round_trip_join :
    let env := Env.plain 0 0
    let cli := clientInit ⟨2, 1, 1⟩ [97]
    env.RandomWorks ∧ clientFreeSlot cli ≠ none ∧
      (clientHandlePeerJoin env cli (Msg.peerJoin 5 [98, 99]).payload).lookup 5 =
        some [98, 99] := by
  intro env cli
  have hworks := Env.plain_randomWorks 0 0
  have hfree : clientFreeSlot cli ≠ none := by decide +kernel
  obtain ⟨-, -, -, -, -, hjoin, -⟩ := message_round_trip env hworks
  refine ⟨hworks, hfree, ?_⟩
  rw [hjoin cli 5 [98, 99] 5 hfree]
  decide

end Tund
