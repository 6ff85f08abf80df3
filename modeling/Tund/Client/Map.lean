import Mathlib.Data.Set.Card
import Tund.AtMostOnce

/-!
# The client's table as a finite map with counters

`PeerMap` is what the table is for: a map from virtual IPs to names and byte counters
with room for 253 keys.  `PeerMap.apply` says what the messages and the traffic do to
it, and `Client.Maps` relates a table to it.  One lemma for each function of `peers.c`
says that it follows the map; `client_table_is_map` is the result for whole histories.
-/

namespace Tund

/-! ### The map -/

/-- What the table knows of a peer. -/
structure Row where
  name : Bytes
  bytesIn : UInt64
  bytesOut : UInt64

/-- A map from virtual IPs to rows. -/
abbrev PeerMap := UInt32 → Option Row

/-- The number of keys. -/
noncomputable def PeerMap.size (m : PeerMap) : ℕ := Set.ncard {v | m v ≠ none}

/-- What happens to the map. -/
inductive TableOp
  | online (vip : UInt32) (name : Bytes)
  | offline (vip : UInt32)
  | traffic (vip : UInt32) (bytesIn bytesOut : UInt64)
  | broadcast (bytesOut : UInt64)

/-- The map afterwards.  A known peer that is online again is renamed and keeps its counters, a new
one starts at 0 unless 253 are known; traffic of an unknown peer does not count. -/
noncomputable def PeerMap.apply (m : PeerMap) : TableOp → PeerMap
  | .online vip name =>
    match m vip with
    | some r => Function.update m vip (some { r with name := name })
    | none => if m.size = tundMaxPeers then m else Function.update m vip (some ⟨name, 0, 0⟩)
  | .offline vip => Function.update m vip none
  | .traffic vip bytesIn bytesOut =>
    match m vip with
    | none => m
    | some r => Function.update m vip
        (some { r with bytesIn := r.bytesIn + bytesIn, bytesOut := r.bytesOut + bytesOut })
  | .broadcast bytesOut => fun v => (m v).map fun r => { r with bytesOut := r.bytesOut + bytesOut }

/-! ### The table -/

/-- The row of an entry. -/
def Peer.row (p : Peer) : Row := ⟨Bytes.cstr p.name.1, p.bytesIn, p.bytesOut⟩

/-- The table read as a map. -/
def Client.rows (cli : Client) : PeerMap := fun v =>
  (clientFindPeer cli v).map fun i => (cli.peers i).row

/-- The table stands for the map, and its count is right. -/
structure Client.Maps (cli : Client) (m : PeerMap) : Prop where
  distinct : cli.Distinct
  counted : cli.peerCount = SlotTable.count fun i => (cli.peers i).active
  rows : cli.rows = m

section Rows

variable {cli cli' : Client} {vip : UInt32} {i : Slot}

theorem rows_eq_none_iff : cli.rows vip = none ↔ ∀ i, (cli.peers i).holds vip = false := by
  rw [Client.rows, Option.map_eq_none_iff, clientFind_eq_none_iff]

theorem Client.Distinct.find_of_holds (hd : cli.Distinct) (h : (cli.peers i).holds vip = true) :
    clientFindPeer cli vip = some i := by
  refine SlotTable.first_eq_of_unique (p := fun i => (cli.peers i).holds vip) h fun j hj => ?_
  obtain ⟨hai, hvi⟩ := Peer.holds_iff.1 h
  obtain ⟨haj, hvj⟩ := Peer.holds_iff.1 hj
  exact hd j i haj hai (hvj.trans hvi.symm)

theorem Client.Distinct.rows_of_holds (hd : cli.Distinct) (h : (cli.peers i).holds vip = true) :
    cli.rows vip = some (cli.peers i).row := by
  rw [Client.rows, hd.find_of_holds h, Option.map_some]

/-- A change of one slot that belongs to `vip` before and after, or to nobody, does not touch the
rows of others. -/
theorem rows_of_ne (hother : ∀ j, j ≠ i → cli'.peers j = cli.peers j)
    (hold : ∀ v, (cli.peers i).holds v = true → v = vip)
    (hnew : ∀ v, (cli'.peers i).holds v = true → v = vip) {v : UInt32} (hv : v ≠ vip) :
    cli'.rows v = cli.rows v := by
  have hholds : ∀ j, (cli'.peers j).holds v = (cli.peers j).holds v := by
    intro j
    by_cases hj : j = i
    · subst hj
      have h1 : (cli'.peers j).holds v = false := by
        rw [Bool.eq_false_iff]
        exact fun h => hv (hnew v h)
      have h2 : (cli.peers j).holds v = false := by
        rw [Bool.eq_false_iff]
        exact fun h => hv (hold v h)
      rw [h1, h2]
    · rw [hother j hj]
  have hfind : clientFindPeer cli' v = clientFindPeer cli v := by
    rw [clientFindPeer, clientFindPeer, funext hholds]
  unfold Client.rows
  rw [hfind]
  cases hf : clientFindPeer cli v with
  | none => rfl
  | some j =>
    have hj : j ≠ i := by
      rintro rfl
      exact hv (hold v (holds_of_clientFind hf))
    rw [Option.map_some, Option.map_some, hother j hj]

/-- The rows after the row of one key was written. -/
theorem rows_eq_update (hother : ∀ j, j ≠ i → cli'.peers j = cli.peers j)
    (hold : ∀ v, (cli.peers i).holds v = true → v = vip)
    (hnew : ∀ v, (cli'.peers i).holds v = true → v = vip) {r : Option Row}
    (hr : cli'.rows vip = r) : cli'.rows = Function.update cli.rows vip r := by
  funext v
  by_cases hv : v = vip
  · rw [hv, Function.update_self, hr]
  · rw [Function.update_of_ne hv, rows_of_ne hother hold hnew hv]

/-- The keys are the virtual IPs of the active entries. -/
theorem Client.Distinct.size_rows (hd : cli.Distinct) :
    cli.rows.size = SlotTable.count fun i => (cli.peers i).active := by
  have hkeys : {v | cli.rows v ≠ none} =
      (fun i => (cli.peers i).virtIp) '' {i | (cli.peers i).active = true} := by
    ext v
    rw [Set.mem_ofPred_eq, ne_eq, rows_eq_none_iff]
    push Not
    constructor
    · rintro ⟨i, hi⟩
      obtain ⟨ha, hv⟩ := Peer.holds_iff.1 (by simpa using hi)
      exact ⟨i, ha, hv⟩
    · rintro ⟨i, ha, hv⟩
      exact ⟨i, by simpa using Peer.holds_iff.2 ⟨ha, hv⟩⟩
  have hslots : {i | (cli.peers i).active = true} =
      ((SlotTable.slots fun i => (cli.peers i).active).toFinset : Set Slot) := by
    ext i
    simp
  have hinj : Set.InjOn (fun i => (cli.peers i).virtIp) {i | (cli.peers i).active = true} :=
    fun i hi j hj h => hd i j hi hj h
  rw [PeerMap.size, hkeys, hinj.ncard_image, hslots, Set.ncard_coe_finset,
    List.toFinset_card_of_nodup (SlotTable.nodup_slots _), SlotTable.count]

/-- The table is full exactly if 253 keys are present. -/
theorem Client.Distinct.full_iff (hd : cli.Distinct) :
    clientFreeSlot cli = none ↔ cli.rows.size = tundMaxPeers := by
  rw [hd.size_rows, SlotTable.count_eq_iff, clientFreeSlot, SlotTable.first_eq_none_iff]
  simp only [Bool.not_eq_false']

end Rows

/-! ### The functions of `peers.c` -/

section Functions

variable {env : Env} {cli : Client} {m : PeerMap} {vip : UInt32} {name : Bytes} {i : Slot}

/-- Writing an entry of `vip` into its slot, or into a free one if it has none. -/
theorem Client.Maps.put (h : cli.Maps m) (vip : UInt32) {p : Peer} {n : ℤ} (hact : p.active = true)
    (hvip : p.virtIp = vip)
    (hslot : (cli.peers i).holds vip = true ∧ n = cli.peerCount ∨
      (cli.peers i).active = false ∧ (∀ j, (cli.peers j).holds vip = false) ∧
        n = cli.peerCount + 1) :
    (cli.put i p n).Maps (Function.update m vip (some p.row)) := by
  have hself : (cli.put i p n).peers i = p := by rw [put_peers, if_pos rfl]
  have hne : ∀ j, j ≠ i → (cli.put i p n).peers j = cli.peers j := by
    intro j hj
    rw [put_peers, if_neg hj]
  -- no other active entry has the address
  have hother : ∀ j, j ≠ i → (cli.peers j).active = true → (cli.peers j).virtIp ≠ vip := by
    intro j hj ha hv
    rcases hslot with ⟨hi, -⟩ | ⟨-, hno, -⟩
    · obtain ⟨hai, hvi⟩ := Peer.holds_iff.1 hi
      exact hj (h.distinct j i ha hai (hv.trans hvi.symm))
    · have := hno j
      rw [Peer.holds_iff.2 ⟨ha, hv⟩] at this
      cases this
  have hd : (cli.put i p n).Distinct := by
    intro j k hj hk heq
    by_cases hji : j = i <;> by_cases hki : k = i
    · rw [hji, hki]
    · rw [hne k hki] at hk heq
      rw [hji, hself, hvip] at heq
      exact absurd heq.symm (hother k hki hk)
    · rw [hne j hji] at hj heq
      rw [hki, hself, hvip] at heq
      exact absurd heq (hother j hji hj)
    · rw [hne j hji] at hj heq
      rw [hne k hki] at hk heq
      exact h.distinct j k hj hk heq
  have hholds : ((cli.put i p n).peers i).holds vip = true := by
    rw [hself]
    exact Peer.holds_iff.2 ⟨hact, hvip⟩
  refine ⟨hd, ?_, ?_⟩
  · have hcount := h.counted
    show n = _
    rcases hslot with ⟨hi, hn⟩ | ⟨hi, -, hn⟩
    · have hsame : (SlotTable.count fun j => ((cli.put i p n).peers j).active) =
          SlotTable.count fun j => (cli.peers j).active := by
        apply SlotTable.count_congr
        intro j
        by_cases hj : j = i
        · rw [hj, hself, hact, (Peer.holds_iff.1 hi).1]
        · rw [hne j hj]
      omega
    · have hocc := SlotTable.count_occupy (p := fun j => (cli.peers j).active)
        (q := fun j => ((cli.put i p n).peers j).active) (i := i) hi (by simp only [hself, hact])
        (fun j hj => by simp only [hne j hj])
      omega
  · rw [← h.rows]
    refine rows_eq_update hne ?_ ?_ ?_
    · intro v hv
      obtain ⟨ha, hv⟩ := Peer.holds_iff.1 hv
      rcases hslot with ⟨hi, -⟩ | ⟨hi, -⟩
      · exact hv.symm.trans (Peer.holds_iff.1 hi).2
      · rw [ha] at hi
        cases hi
    · intro v hv
      rw [hself] at hv
      exact (Peer.holds_iff.1 hv).2.symm.trans hvip
    · rw [hd.rows_of_holds hholds, hself]

/-- Both removals. -/
theorem Client.Maps.dropPeer (h : cli.Maps m) (hi : (cli.peers i).holds vip = true) :
    (cli.dropPeer i).Maps (Function.update m vip none) := by
  obtain ⟨hact, hvip⟩ := Peer.holds_iff.1 hi
  have hself : ((cli.dropPeer i).peers i).active = false := by rw [dropPeer_peers, if_pos rfl]
  have hne : ∀ j, j ≠ i → (cli.dropPeer i).peers j = cli.peers j := by
    intro j hj
    rw [dropPeer_peers, if_neg hj]
  refine ⟨h.distinct.dropPeer i, ?_, ?_⟩
  · have hrel := SlotTable.count_release (p := fun j => (cli.peers j).active)
      (q := fun j => ((cli.dropPeer i).peers j).active) (i := i) hact hself
      (fun j hj => by simp only [hne j hj])
    have hcount := h.counted
    show cli.peerCount - 1 = _
    omega
  · rw [← h.rows]
    refine rows_eq_update hne ?_ ?_ ?_
    · intro v hv
      exact (Peer.holds_iff.1 hv).2.symm.trans hvip
    · intro v hv
      rw [Peer.holds_iff, hself] at hv
      exact absurd hv.1 (by decide)
    · rw [rows_eq_none_iff]
      intro j
      rw [Bool.eq_false_iff, ne_eq, Peer.holds_iff]
      rintro ⟨ha, hv⟩
      by_cases hj : j = i
      · rw [hj, hself] at ha
        cases ha
      · rw [hne j hj] at ha hv
        exact hj (h.distinct j i ha hact (hv.trans hvip.symm))

theorem Client.Maps.lookup_some (h : cli.Maps m) (hf : clientFindPeer cli vip = some i) :
    m vip = some (cli.peers i).row := by
  rw [← h.rows]
  exact h.distinct.rows_of_holds (holds_of_clientFind hf)

theorem Client.Maps.lookup_none (h : cli.Maps m) (hf : clientFindPeer cli vip = none) :
    m vip = none := by
  rw [← h.rows, rows_eq_none_iff]
  exact clientFind_eq_none_iff.1 hf

theorem Client.Maps.online (h : cli.Maps m) :
    (clientUpdatePeer env cli vip name true).Maps (m.apply (.online vip (shortName name))) := by
  have hname : Bytes.cstr (NameBuf.ofBytes (Bytes.cstr name)).1 = shortName name := by
    rw [cstr_ofBytes, shortName_cstr]
  cases hf : clientFindPeer cli vip with
  | some i =>
    simp only [clientUpdatePeer, PeerMap.apply, hf, h.lookup_some hf, if_true]
    have hput := h.put vip (i := i) (n := cli.peerCount)
      (p := { cli.peers i with
        active := true, virtIp := vip, name := .ofBytes (Bytes.cstr name), lastSeen := env.time })
      rfl rfl (.inl ⟨holds_of_clientFind hf, rfl⟩)
    rw [Peer.row, hname] at hput
    exact hput
  | none =>
    simp only [clientUpdatePeer, PeerMap.apply, hf, h.lookup_none hf, if_true]
    cases hfree : clientFreeSlot cli with
    | none =>
      have hfull : m.size = tundMaxPeers := by
        rw [← h.rows]
        exact h.distinct.full_iff.1 hfree
      rw [if_pos hfull]
      exact h
    | some i =>
      have hroom : m.size ≠ tundMaxPeers := by
        rw [← h.rows, ne_eq, ← h.distinct.full_iff, hfree]
        intro hnone
        cases hnone
      have hput := h.put vip (i := i) (n := cli.peerCount + 1)
        (p := { cli.peers i with
          bytesIn := 0, bytesOut := 0, active := true, virtIp := vip,
          name := .ofBytes (Bytes.cstr name), lastSeen := env.time })
        rfl rfl (.inr ⟨not_active_of_clientFree hfree, clientFind_eq_none_iff.1 hf, rfl⟩)
      rw [Peer.row, hname] at hput
      rw [if_neg hroom]
      exact hput

theorem Client.Maps.leave (h : cli.Maps m) :
    (match clientFindPeer cli vip with
      | none => cli
      | some i => cli.dropPeer i).Maps (m.apply (.offline vip)) := by
  cases hf : clientFindPeer cli vip with
  | some i => exact h.dropPeer (holds_of_clientFind hf)
  | none =>
    have hsame : m.apply (.offline vip) = m := by
      rw [PeerMap.apply, ← h.lookup_none hf, Function.update_eq_self]
    rw [hsame]
    exact h

theorem Client.Maps.offline (h : cli.Maps m) :
    (clientUpdatePeer env cli vip name false).Maps (m.apply (.offline vip)) := by
  have heq : clientUpdatePeer env cli vip name false =
      match clientFindPeer cli vip with
      | none => cli
      | some i => cli.dropPeer i := by
    unfold clientUpdatePeer
    cases clientFindPeer cli vip <;> rfl
  rw [heq]
  exact h.leave

theorem Client.Maps.traffic (h : cli.Maps m) (bytesIn bytesOut : UInt64) :
    (clientAddPeerTraffic cli vip bytesIn bytesOut).Maps
      (m.apply (.traffic vip bytesIn bytesOut)) := by
  cases hf : clientFindPeer cli vip with
  | none =>
    simp only [clientAddPeerTraffic, PeerMap.apply, hf, h.lookup_none hf]
    exact h
  | some i =>
    obtain ⟨hact, hvip⟩ := Peer.holds_iff.1 (holds_of_clientFind hf)
    simp only [clientAddPeerTraffic, PeerMap.apply, hf, h.lookup_some hf]
    exact h.put vip (i := i) (n := cli.peerCount)
      (p := { cli.peers i with
        bytesIn := (cli.peers i).bytesIn + bytesIn, bytesOut := (cli.peers i).bytesOut + bytesOut })
      hact hvip (.inl ⟨holds_of_clientFind hf, rfl⟩)

theorem Client.Maps.broadcast (h : cli.Maps m) (bytesOut : UInt64) :
    (clientAddBroadcastTraffic cli bytesOut).Maps (m.apply (.broadcast bytesOut)) := by
  set cli' := clientAddBroadcastTraffic cli bytesOut with hcli
  have hpeers : ∀ j, (cli'.peers j).active = (cli.peers j).active ∧
      (cli'.peers j).virtIp = (cli.peers j).virtIp := by
    intro j
    simp only [hcli, clientAddBroadcastTraffic]
    split_ifs <;> exact ⟨rfl, rfl⟩
  have hholds : ∀ j v, (cli'.peers j).holds v = (cli.peers j).holds v := by
    intro j v
    rw [Peer.holds, Peer.holds, (hpeers j).1, (hpeers j).2]
  refine ⟨?_, ?_, ?_⟩
  · intro j k hj hk heq
    rw [(hpeers j).1] at hj
    rw [(hpeers k).1] at hk
    rw [(hpeers j).2, (hpeers k).2] at heq
    exact h.distinct j k hj hk heq
  · have hcount : cli'.peerCount = SlotTable.count fun j => (cli.peers j).active := h.counted
    rw [hcount]
    exact congrArg _ (SlotTable.count_congr fun j => ((hpeers j).1).symm)
  · rw [← h.rows]
    funext v
    have hfind : clientFindPeer cli' v = clientFindPeer cli v := by
      unfold clientFindPeer
      exact congrArg _ (funext fun j => hholds j v)
    show cli'.rows v = (cli.rows v).map _
    unfold Client.rows
    rw [hfind]
    cases hf : clientFindPeer cli v with
    | none => rfl
    | some j =>
      have hact := (Peer.holds_iff.1 (holds_of_clientFind hf)).1
      simp only [Option.map_some, hcli, clientAddBroadcastTraffic, hact, if_true, Peer.row]

end Functions

/-! ### Packets -/

/-- What an entry of PEER_LIST says. -/
def entryOps (payload : Bytes) (i : ℕ) : List TableOp :=
  match protoReadPeerEntry payload i with
  | none => []
  | some (virtIp, name, online) =>
    [if online then .online virtIp (shortName name) else .offline virtIp]

/-- What a message does to the map. -/
def Frame.ops (f : Frame) : List TableOp :=
  match MsgType.ofCode f.type with
  | some .peerList => (List.range (protoPeerEntryCount f.payload.length)).flatMap (entryOps f.payload)
  | some .peerJoin =>
    if f.payload.length < 4 + tundNameLen then []
    else [.online (u32OfMem (Bytes.slice f.payload 0 4))
      (shortName (Bytes.slice f.payload 4 tundNameLen))]
  | some .peerLeave =>
    if f.payload.length < 4 then [] else [.offline (u32OfMem (Bytes.slice f.payload 0 4))]
  | some .data =>
    match protoValidateIpv4Packet f.payload with
    | some _ => []
    | none => [.traffic (protoGetSrcIp f.payload) (UInt64.ofNat f.payload.length) 0]
  | _ => []

section Packets

variable {env : Env} {cli : Client} {m : PeerMap}

theorem protoReadPeerEntry_isSome (payload : Bytes) {i : ℕ}
    (hi : i < protoPeerEntryCount payload.length) : (protoReadPeerEntry payload i).isSome = true := by
  unfold protoPeerEntryCount at hi
  have hlen : (i + 1) * tundPeerEntrySize ≤ payload.length :=
    (Nat.le_div_iff_mul_le (by decide)).1 hi
  have hroom : ¬ payload.length < i * tundPeerEntrySize + tundPeerEntrySize := by
    rw [Nat.succ_mul] at hlen
    omega
  simp only [protoReadPeerEntry, if_neg hroom, Option.isSome_some]

/-- The loop of PEER_LIST applies the entries in order. -/
theorem clientPeerListLoop_maps (payload : Bytes) (n i : ℕ) {cli : Client} {m : PeerMap}
    (h : cli.Maps m) (hn : i + n ≤ protoPeerEntryCount payload.length) :
    (clientPeerListLoop env payload n i cli).Maps
      (((List.range' i n).flatMap (entryOps payload)).foldl PeerMap.apply m) := by
  induction n generalizing i cli m with
  | zero => exact h
  | succ n ih =>
    obtain ⟨⟨virtIp, name, online⟩, hread⟩ :=
      Option.isSome_iff_exists.1 (protoReadPeerEntry_isSome payload (i := i) (by omega))
    have hops : entryOps payload i =
        [if online then .online virtIp (shortName name) else .offline virtIp] := by
      unfold entryOps
      rw [hread]
    rw [List.range'_succ, List.flatMap_cons, List.foldl_append, hops, clientPeerListLoop, hread]
    refine ih (i + 1) ?_ (by omega)
    cases online with
    | true => exact h.online
    | false => exact h.offline

theorem Client.Maps.dispatch (h : cli.Maps m) (io : Proc) (f : Frame) :
    (clientDispatch env cli io f).1.Maps (f.ops.foldl PeerMap.apply m) := by
  unfold clientDispatch Frame.ops
  cases MsgType.ofCode f.type with
  | none => exact h
  | some t =>
    cases t with
    | data =>
      unfold clientHandleData
      dsimp only
      cases protoValidateIpv4Packet f.payload with
      | some e => exact h
      | none => exact h.traffic _ _
    | peerList =>
      rw [List.range_eq_range']
      exact clientPeerListLoop_maps f.payload _ 0 h (by omega)
    | peerJoin =>
      unfold clientHandlePeerJoin
      dsimp only
      split_ifs
      · exact h
      · exact h.online
    | peerLeave =>
      unfold clientHandlePeerLeave
      dsimp only
      split_ifs
      · exact h
      · exact h.leave
    | keepaliveAck =>
      unfold clientHandleKeepaliveAck
      dsimp only
      split
      · exact h
      · split_ifs
        · exact h
        · exact ⟨h.distinct, h.counted, h.rows⟩
    | _ => exact h

end Packets

/-! ### Histories -/

/-- What happens to the table: a packet from the server, or traffic of the TUN thread. -/
inductive TableEvent
  | packet (env : Env) (buf : Bytes)
  | traffic (vip : UInt32) (bytesIn bytesOut : UInt64)
  | broadcast (bytesOut : UInt64)

/-- The client after an event. -/
def tableStep (st : Client × Proc) : TableEvent → Client × Proc
  | .packet env buf => clientHandleServerPacket env st.1 st.2 buf
  | .traffic vip bytesIn bytesOut => (clientAddPeerTraffic st.1 vip bytesIn bytesOut, st.2)
  | .broadcast bytesOut => (clientAddBroadcastTraffic st.1 bytesOut, st.2)

/-- What an event says; a packet that the window rejects says nothing. -/
def tableOps (cli : Client) : TableEvent → List TableOp
  | .packet _ buf =>
    match readFrame buf with
    | none => []
    | some f => if (protoReplayAccept cli.serverReplay f.sequence).1 then f.ops else []
  | .traffic vip bytesIn bytesOut => [.traffic vip bytesIn bytesOut]
  | .broadcast bytesOut => [.broadcast bytesOut]

/-- What a history says, from a client on. -/
def historyOps : List TableEvent → Client × Proc → List TableOp
  | [], _ => []
  | e :: es, st => tableOps st.1 e ++ historyOps es (tableStep st e)

theorem Client.Maps.step {st : Client × Proc} {m : PeerMap} (h : st.1.Maps m) (e : TableEvent) :
    (tableStep st e).1.Maps ((tableOps st.1 e).foldl PeerMap.apply m) := by
  cases e with
  | packet env buf =>
    simp only [tableStep, tableOps, clientHandleServerPacket]
    cases hread : readFrame buf with
    | none => exact h
    | some f =>
      rcases hacc : protoReplayAccept st.1.serverReplay f.sequence with ⟨_ | _, replay⟩
      · simp only [hacc, Bool.false_eq_true, if_false]
        exact ⟨h.distinct, h.counted, h.rows⟩
      · simp only [hacc, if_true]
        refine Client.Maps.dispatch ?_ st.2 f
        unfold clientMarkServerSeen
        split_ifs <;> exact ⟨h.distinct, h.counted, h.rows⟩
  | traffic vip bytesIn bytesOut => exact h.traffic bytesIn bytesOut
  | broadcast bytesOut => exact h.broadcast bytesOut

/-- Over a whole history the table follows the map. -/
theorem Client.Maps.history (es : List TableEvent) {st : Client × Proc} {m : PeerMap}
    (h : st.1.Maps m) :
    (es.foldl tableStep st).1.Maps ((historyOps es st).foldl PeerMap.apply m) := by
  induction es generalizing st m with
  | nil => exact h
  | cons e es ih =>
    rw [historyOps, List.foldl_append]
    exact ih (h.step e)

/-- The client with an empty table. -/
def Client.emptied (cli : Client) : Client :=
  { cli with peers := fun _ => Peer.zero, peerCount := 0 }

theorem maps_emptied (cli : Client) : cli.emptied.Maps fun _ => none where
  distinct i j hi := by cases hi
  counted := by
    rw [SlotTable.count_eq_zero (p := fun i => (cli.emptied.peers i).active) fun _ => rfl]
    rfl
  rows := by
    funext v
    rw [rows_eq_none_iff]
    exact fun _ => rfl

/-- **The table is a finite map.**  Over every history of packets and traffic from the empty table,
active entries do not share a virtual IP, the count is their number, and names and counters are the
ones of the map to which the messages that the window takes were applied. -/
theorem client_table_is_map (cli : Client) (io : Proc) (es : List TableEvent) :
    let cli' := (es.foldl tableStep (cli.emptied, io)).1
    let m := (historyOps es (cli.emptied, io)).foldl PeerMap.apply fun _ => none
    (∀ i j, i ≠ j → (cli'.peers i).active = true → (cli'.peers j).active = true →
      (cli'.peers i).virtIp ≠ (cli'.peers j).virtIp) ∧
    cli'.peerCount = SlotTable.count (fun i => (cli'.peers i).active) ∧
    cli'.peerCount = m.size ∧
    ∀ vip r, m vip = some r ↔ ∃ i, (cli'.peers i).active = true ∧ (cli'.peers i).virtIp = vip ∧
      r = ⟨Bytes.cstr (cli'.peers i).name.1, (cli'.peers i).bytesIn, (cli'.peers i).bytesOut⟩ := by
  intro cli' m
  have h : cli'.Maps m := Client.Maps.history es (maps_emptied cli)
  refine ⟨fun i j hij hi hj heq => hij (h.distinct i j hi hj heq), h.counted, ?_, ?_⟩
  · rw [h.counted, ← h.rows, h.distinct.size_rows]
  · intro vip r
    rw [← h.rows]
    constructor
    · intro hr
      obtain ⟨i, hi, rfl⟩ := Option.map_eq_some_iff.1 hr
      obtain ⟨hact, hvip⟩ := Peer.holds_iff.1 (holds_of_clientFind hi)
      exact ⟨i, hact, hvip, rfl⟩
    · rintro ⟨i, hact, hvip, rfl⟩
      exact h.distinct.rows_of_holds (Peer.holds_iff.2 ⟨hact, hvip⟩)

end Tund
