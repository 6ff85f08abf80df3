import Tund.Client.Handlers

/-!
# The client's table as a map

`Client.lookup` reads the table as a finite map from virtual IPs to names, as C strings.
The lemmas say what the handlers of PEER_JOIN, PEER_LEAVE and PEER_LIST do to this map;
the slots behind it do not show, except that a full table takes no new entry.
-/

namespace Tund

/-- The name the client has for a virtual IP. -/
def Client.lookup (cli : Client) (vip : UInt32) : Option Bytes :=
  (clientFindPeer cli vip).map fun i => Bytes.cstr (cli.peers i).name.1

/-- Active entries do not share a virtual IP. -/
def Client.Distinct (cli : Client) : Prop :=
  ∀ i j, (cli.peers i).active = true → (cli.peers j).active = true →
    (cli.peers i).virtIp = (cli.peers j).virtIp → i = j

/-- The number of slots without an entry. -/
def Client.room (cli : Client) : ℕ := SlotTable.count fun i => !(cli.peers i).active

theorem cstr_ofBytes (b : Bytes) : Bytes.cstr (NameBuf.ofBytes b).1 = shortName b := by
  rw [NameBuf.ofBytes, Bytes.cstr_pad, Bytes.cstr_take, shortName]
  exact List.take_of_length_le (by rw [List.length_take]; omega)

/-! ### Finding entries -/

section Find

variable {cli cli' : Client} {vip : UInt32}

theorem holds_of_clientFind {i : Slot} (h : clientFindPeer cli vip = some i) :
    (cli.peers i).holds vip = true :=
  SlotTable.of_first_eq_some (p := fun i => (cli.peers i).holds vip) h

theorem clientFind_eq_none_iff :
    clientFindPeer cli vip = none ↔ ∀ i, (cli.peers i).holds vip = false :=
  SlotTable.first_eq_none_iff

theorem lookup_eq_none_iff : cli.lookup vip = none ↔ ∀ i, (cli.peers i).holds vip = false := by
  rw [Client.lookup, Option.map_eq_none_iff, clientFind_eq_none_iff]

/-- Entries of other virtual IPs decide alone what is found there. -/
theorem lookup_congr (h : ∀ i, (cli'.peers i).holds vip = (cli.peers i).holds vip)
    (hn : ∀ i, (cli.peers i).holds vip = true → (cli'.peers i).name = (cli.peers i).name) :
    cli'.lookup vip = cli.lookup vip := by
  have hfind : clientFindPeer cli' vip = clientFindPeer cli vip := by
    rw [clientFindPeer, clientFindPeer, funext h]
  rw [Client.lookup, Client.lookup, hfind]
  cases hf : clientFindPeer cli vip with
  | none => rfl
  | some i => simp only [Option.map_some, hn i (holds_of_clientFind hf)]

theorem Client.Distinct.lookup_eq_some_iff (hd : cli.Distinct) {name : Bytes} :
    cli.lookup vip = some name ↔
      ∃ i, (cli.peers i).holds vip = true ∧ Bytes.cstr (cli.peers i).name.1 = name := by
  constructor
  · intro h
    obtain ⟨i, hi, hn⟩ := Option.map_eq_some_iff.1 h
    exact ⟨i, holds_of_clientFind hi, hn⟩
  · rintro ⟨i, hi, hn⟩
    have hfind : clientFindPeer cli vip = some i := by
      refine SlotTable.first_eq_of_unique (p := fun i => (cli.peers i).holds vip) hi fun j hj => ?_
      obtain ⟨hai, hvi⟩ := Peer.holds_iff.1 hi
      obtain ⟨haj, hvj⟩ := Peer.holds_iff.1 hj
      exact hd j i haj hai (hvj.trans hvi.symm)
    rw [Client.lookup, hfind, Option.map_some, hn]

end Find

/-! ### Updates -/

section Update

variable {env : Env} {cli : Client} {vip : UInt32} {name : Bytes}

/-- The table with entry `p` in slot `i` and the count `n`. -/
def Client.put (cli : Client) (i : Slot) (p : Peer) (n : ℤ) : Client :=
  { cli.setPeer i p with peerCount := n }

theorem put_peers (cli : Client) (i j : Slot) (p : Peer) (n : ℤ) :
    (cli.put i p n).peers j = if j = i then p else cli.peers j := cli.setPeer_peers i j p

/-- The branches of `client_update_peer` for a peer that is online: an entry with the new name is
written into the slot of `vip` or into the first free one. -/
theorem clientUpdatePeer_online (env : Env) (cli : Client) (vip : UInt32) (name : Bytes) :
    (clientFindPeer cli vip = none ∧ clientFreeSlot cli = none ∧
      clientUpdatePeer env cli vip name true = cli) ∨
    ∃ i p n, p.active = true ∧ p.virtIp = vip ∧ p.name = .ofBytes (Bytes.cstr name) ∧
      (clientFindPeer cli vip = some i ∧ n = cli.peerCount ∨
        clientFindPeer cli vip = none ∧ clientFreeSlot cli = some i ∧ n = cli.peerCount + 1) ∧
      clientUpdatePeer env cli vip name true = cli.put i p n := by
  cases hfind : clientFindPeer cli vip with
  | some i =>
    exact .inr ⟨i, _, _, rfl, rfl, rfl, .inl ⟨rfl, rfl⟩, by
      simp only [clientUpdatePeer, hfind, if_true]; rfl⟩
  | none =>
    cases hfree : clientFreeSlot cli with
    | none => exact .inl ⟨rfl, rfl, by simp only [clientUpdatePeer, hfind, hfree, if_true]⟩
    | some i =>
      exact .inr ⟨i, _, _, rfl, rfl, rfl, .inr ⟨rfl, rfl, rfl⟩, by
        simp only [clientUpdatePeer, hfind, hfree, if_true]; rfl⟩

theorem not_active_of_clientFree {i : Slot} (h : clientFreeSlot cli = some i) :
    (cli.peers i).active = false := by
  simpa using SlotTable.of_first_eq_some (p := fun i => !(cli.peers i).active) h

theorem clientFreeSlot_of_room (h : 0 < cli.room) : clientFreeSlot cli ≠ none := by
  intro hnone
  have hall := SlotTable.first_eq_none_iff.1 hnone
  rw [Client.room, SlotTable.count_eq_zero hall] at h
  omega

/-- **PEER_JOIN as a map update.**  A peer that is online gets its name, and nothing else moves. -/
theorem lookup_update_online (hfree : clientFindPeer cli vip = none → clientFreeSlot cli ≠ none)
    (v : UInt32) :
    (clientUpdatePeer env cli vip name true).lookup v =
      if v = vip then some (shortName name) else cli.lookup v := by
  rcases clientUpdatePeer_online env cli vip name with ⟨hf, h, -⟩ |
    ⟨i, p, n, hact, hvip, hname, hslot, heq⟩
  · exact absurd h (hfree hf)
  rw [heq]
  split_ifs with hv
  · subst hv
    have hfind : clientFindPeer (cli.put i p n) v = some i := by
      rcases hslot with ⟨hf, -⟩ | ⟨hf, -, -⟩
      · -- the slot was already the first one with this address
        have hp : (fun j => ((cli.put i p n).peers j).holds v) =
            fun j => (cli.peers j).holds v := by
          funext j
          rw [put_peers]
          split_ifs with hj
          · rw [hj, holds_of_clientFind hf, Peer.holds_iff.2 ⟨hact, hvip⟩]
          · rfl
        rw [clientFindPeer, hp]
        exact hf
      · refine SlotTable.first_eq_of_unique
          (p := fun j => ((cli.put i p n).peers j).holds v) ?_ ?_
        · rw [put_peers, if_pos rfl]
          exact Peer.holds_iff.2 ⟨hact, hvip⟩
        · intro j hj
          by_contra hne
          rw [put_peers, if_neg hne, clientFind_eq_none_iff.1 hf j] at hj
          cases hj
    rw [Client.lookup, hfind, Option.map_some, put_peers, if_pos rfl, hname, cstr_ofBytes, shortName_cstr]
  · apply lookup_congr
    · intro j
      rw [put_peers]
      split_ifs with hj
      · subst hj
        have hnew : p.holds v = false := by
          rw [Bool.eq_false_iff, ne_eq, Peer.holds_iff]
          exact fun h => hv (h.2.symm.trans hvip)
        rcases hslot with ⟨hf, -⟩ | ⟨-, hf, -⟩
        · rw [hnew, eq_comm, Bool.eq_false_iff, ne_eq, Peer.holds_iff]
          exact fun h => hv (h.2.symm.trans (Peer.holds_iff.1 (holds_of_clientFind hf)).2)
        · rw [hnew, Peer.holds, not_active_of_clientFree hf, Bool.false_and]
      · rfl
    · intro j hj
      rw [put_peers]
      split_ifs with hji
      · subst hji
        exfalso
        obtain ⟨ha, hv'⟩ := Peer.holds_iff.1 hj
        rcases hslot with ⟨hf, -⟩ | ⟨-, hf, -⟩
        · exact hv (hv'.symm.trans (Peer.holds_iff.1 (holds_of_clientFind hf)).2)
        · rw [not_active_of_clientFree hf] at ha; cases ha
      · rfl

theorem Client.Distinct.update_online (h : cli.Distinct) :
    (clientUpdatePeer env cli vip name true).Distinct := by
  rcases clientUpdatePeer_online env cli vip name with ⟨-, -, heq⟩ |
    ⟨i, p, n, hact, hvip, -, hslot, heq⟩
  · rw [heq]; exact h
  rw [heq]
  -- no other active entry has the address
  have hother : ∀ j, j ≠ i → (cli.peers j).active = true → (cli.peers j).virtIp ≠ vip := by
    intro j hj ha hv
    rcases hslot with ⟨hf, -⟩ | ⟨hf, -, -⟩
    · obtain ⟨hai, hvi⟩ := Peer.holds_iff.1 (holds_of_clientFind hf)
      exact hj (h j i ha hai (hv.trans hvi.symm))
    · have := clientFind_eq_none_iff.1 hf j
      rw [Peer.holds_iff.2 ⟨ha, hv⟩] at this
      cases this
  intro j k hj hk heqv
  rw [put_peers] at hj hk
  rw [put_peers, put_peers] at heqv
  split_ifs at hj hk heqv with hji hki hki
  · rw [hji, hki]
  · exact absurd (heqv.symm.trans hvip) (hother k hki hk)
  · exact absurd (heqv.trans hvip) (hother j hji hj)
  · exact h j k hj hk heqv

theorem room_update_online : cli.room ≤ (clientUpdatePeer env cli vip name true).room + 1 := by
  rcases clientUpdatePeer_online env cli vip name with ⟨-, -, heq⟩ |
    ⟨i, p, n, hact, hvip, -, hslot, heq⟩
  · rw [heq]; omega
  rw [heq]
  rcases hslot with ⟨hf, -⟩ | ⟨-, hf, -⟩
  · have hact' := (Peer.holds_iff.1 (holds_of_clientFind hf)).1
    apply le_trans (le_of_eq _) (Nat.le_succ _)
    apply SlotTable.count_congr
    intro j
    rw [put_peers]
    split_ifs with hj
    · rw [hj, hact, hact']
    · rfl
  · apply le_of_eq
    refine (SlotTable.count_release (i := i) ?_ ?_ ?_).symm
    · simp [not_active_of_clientFree hf]
    · rw [put_peers, if_pos rfl, hact]; rfl
    · intro j hj
      rw [put_peers, if_neg hj]

/-! ### Removal -/

theorem dropPeer_peers (cli : Client) (i j : Slot) :
    (cli.dropPeer i).peers j = if j = i then { cli.peers i with active := false } else cli.peers j :=
  cli.setPeer_peers i j _

theorem Client.Distinct.dropPeer (h : cli.Distinct) (i : Slot) : (cli.dropPeer i).Distinct := by
  intro j k hj hk heq
  rw [dropPeer_peers] at hj hk
  rw [dropPeer_peers, dropPeer_peers] at heq
  split_ifs at hj hk heq with hji hki
  · exact h j k hj hk heq

/-- **PEER_LEAVE as a map update.** -/
theorem lookup_drop (h : cli.Distinct) {i : Slot} (hi : clientFindPeer cli vip = some i) (v : UInt32) :
    (cli.dropPeer i).lookup v = if v = vip then none else cli.lookup v := by
  obtain ⟨hai, hvi⟩ := Peer.holds_iff.1 (holds_of_clientFind hi)
  split_ifs with hv
  · subst hv
    rw [lookup_eq_none_iff]
    intro j
    rw [dropPeer_peers, Bool.eq_false_iff, ne_eq, Peer.holds_iff]
    split_ifs with hj
    · simp
    · rintro ⟨ha, hv⟩
      exact hj (h j i ha hai (hv.trans hvi.symm))
  · apply lookup_congr
    · intro j
      rw [dropPeer_peers]
      split_ifs with hj
      · rw [hj, Peer.holds, Bool.false_and, eq_comm, Bool.eq_false_iff, ne_eq, Peer.holds_iff]
        rintro ⟨-, hv'⟩
        exact hv (hv'.symm.trans hvi)
      · rfl
    · intro j hj
      rw [dropPeer_peers]
      split_ifs with hji
      · rw [hji]
      · rfl

end Update

/-! ### The handlers as map updates -/

/-- The update for a row of PEER_LIST or a PEER_JOIN. -/
def Client.learn (env : Env) (cli : Client) (e : PeerEntry) : Client :=
  clientUpdatePeer env cli e.virtIp (shortName e.name) true

section Handlers

variable {env : Env} {cli : Client}

theorem clientUpdatePeer_congr {a b : Bytes} (h : Bytes.cstr a = Bytes.cstr b) (vip : UInt32)
    (online : Bool) :
    clientUpdatePeer env cli vip a online = clientUpdatePeer env cli vip b online := by
  simp only [clientUpdatePeer, h]

theorem clientUpdatePeer_nameField (e : PeerEntry) :
    clientUpdatePeer env cli e.virtIp (nameField e.name) true = cli.learn env e := by
  apply clientUpdatePeer_congr
  rw [cstr_nameField, shortName, ← Bytes.cstr_take, Bytes.cstr_cstr]

theorem clientHandlePeerJoin_payload (e : PeerEntry) :
    clientHandlePeerJoin env cli (Msg.peerJoin e.virtIp e.name).payload = cli.learn env e := by
  have hip : Bytes.slice (memOfU32 e.virtIp ++ nameField e.name) 0 4 = memOfU32 e.virtIp :=
    Bytes.slice_append_left (a := memOfU32 e.virtIp)
  have hname : Bytes.slice (memOfU32 e.virtIp ++ nameField e.name) 4 tundNameLen =
      nameField e.name := by
    rw [Bytes.slice_append (by simp), List.take_of_length_le (by simp)]
  have hlen : ¬ (memOfU32 e.virtIp ++ nameField e.name).length < 4 + tundNameLen := by simp
  rw [Msg.payload, peerJoinPayload_eq, clientHandlePeerJoin, if_neg hlen, hip, hname,
    u32OfMem_memOfU32, clientUpdatePeer_nameField]

theorem clientHandlePeerLeave_payload (vip : UInt32) :
    clientHandlePeerLeave cli (Msg.peerLeave vip).payload =
      match clientFindPeer cli vip with
      | none => cli
      | some i => cli.dropPeer i := by
  have hip : Bytes.slice (memOfU32 vip) 0 4 = memOfU32 vip :=
    List.take_of_length_le (by simp)
  have hlen : ¬ (memOfU32 vip).length < 4 := by simp
  cases hfind : clientFindPeer cli vip <;>
    simp only [Msg.payload, clientHandlePeerLeave, if_neg hlen, hip, u32OfMem_memOfU32, hfind]

theorem clientPeerListLoop_eq (es : List PeerEntry) {pre : Bytes} {i : ℕ}
    (hpre : pre.length = i * tundPeerEntrySize) (cli : Client) :
    clientPeerListLoop env (pre ++ es.flatMap fun e => peerEntryBytes e.virtIp e.name true)
      es.length i cli = es.foldl (Client.learn env) cli := by
  induction es generalizing pre i cli with
  | nil => rfl
  | cons e es ih =>
    have hread := protoReadPeerEntry_append hpre e.virtIp e.name true
      (es.flatMap fun e => peerEntryBytes e.virtIp e.name true)
    rw [List.flatMap_cons, ← List.append_assoc, List.length_cons, clientPeerListLoop, hread]
    simp only [clientUpdatePeer_nameField, List.foldl_cons]
    exact ih (by rw [List.length_append, length_peerEntryBytes, hpre]; ring) _

/-- PEER_LIST is learnt row by row, as far as the rows fit into the message. -/
theorem clientHandlePeerList_payload (entries : List PeerEntry) :
    clientHandlePeerList env cli (Msg.peerList entries).payload =
      (entries.take tundPeerListMax).foldl (Client.learn env) cli := by
  have hcount : protoPeerEntryCount ((entries.take tundPeerListMax).flatMap
      fun e => peerEntryBytes e.virtIp e.name true).length =
      (entries.take tundPeerListMax).length := by
    rw [length_peerList_payload, protoPeerEntryCount,
      Nat.mul_div_cancel_left _ (by decide : 0 < tundPeerEntrySize)]
  rw [Msg.payload, clientHandlePeerList, hcount]
  have hpre : ([] : Bytes).length = 0 * tundPeerEntrySize := by simp
  exact clientPeerListLoop_eq _ hpre cli

theorem lookup_learn {e : PeerEntry}
    (hfree : clientFindPeer cli e.virtIp = none → clientFreeSlot cli ≠ none) (v : UInt32) :
    (cli.learn env e).lookup v = if v = e.virtIp then some (shortName e.name) else cli.lookup v := by
  rw [Client.learn, lookup_update_online hfree, shortName_shortName]

/-- A row is found by its address when no address comes twice. -/
theorem find_of_mem {entries : List PeerEntry} (hnodup : (entries.map PeerEntry.virtIp).Nodup)
    {e : PeerEntry} (he : e ∈ entries) :
    entries.find? (fun e' => decide (e'.virtIp = e.virtIp)) = some e := by
  induction entries with
  | nil => cases he
  | cons x xs ih =>
    rw [List.map_cons] at hnodup
    obtain ⟨hx, hnodup⟩ := List.nodup_cons.1 hnodup
    rw [List.find?_cons]
    rcases List.mem_cons.1 he with rfl | he
    · simp
    · have hne : x.virtIp ≠ e.virtIp := fun h => hx (List.mem_map.2 ⟨e, he, h.symm⟩)
      simp only [hne, decide_false]
      exact ih hnodup he

/-- **PEER_LIST as a map update.**  With room for all rows and no address twice, each row is found
afterwards and the rest is as before. -/
theorem lookup_foldl_learn (entries : List PeerEntry) (hnodup : (entries.map PeerEntry.virtIp).Nodup)
    {cli : Client} (hroom : entries.length ≤ cli.room) (v : UInt32) :
    (entries.foldl (Client.learn env) cli).lookup v =
      match entries.find? fun e => e.virtIp = v with
      | some e => some (shortName e.name)
      | none => cli.lookup v := by
  induction entries generalizing cli with
  | nil => rfl
  | cons e es ih =>
    rw [List.map_cons] at hnodup
    obtain ⟨hnew, hnodup⟩ := List.nodup_cons.1 hnodup
    rw [List.length_cons] at hroom
    have hroom' : es.length ≤ (cli.learn env e).room := by
      have : cli.room ≤ (cli.learn env e).room + 1 := room_update_online
      omega
    rw [List.foldl_cons, ih hnodup hroom', List.find?_cons,
      lookup_learn fun _ => clientFreeSlot_of_room (by omega)]
    by_cases hv : e.virtIp = v
    · have hnone : es.find? (fun e => decide (e.virtIp = v)) = none := by
        rw [List.find?_eq_none]
        intro e' he' heq
        rw [decide_eq_true_iff] at heq
        exact hnew (List.mem_map.2 ⟨e', he', heq.trans hv.symm⟩)
      simp [hv, hnone]
    · have hv' : v ≠ e.virtIp := fun h => hv h.symm
      simp [hv, hv']

theorem Client.Distinct.foldl_learn (entries : List PeerEntry) {cli : Client} (h : cli.Distinct) :
    (entries.foldl (Client.learn env) cli).Distinct := by
  induction entries generalizing cli with
  | nil => exact h
  | cons e es ih => exact ih h.update_online

end Handlers

/-! ### What the handlers leave alone -/

/-- The clients agree on everything but the peer table, the round-trip time and the time of the
last packet. -/
structure Client.Keeps (cli cli' : Client) : Prop where
  serverAddr : cli'.serverAddr = cli.serverAddr
  virtIp : cli'.virtIp = cli.virtIp
  netmask : cli'.netmask = cli.netmask
  serverReplay : cli'.serverReplay = cli.serverReplay
  name : cli'.name = cli.name

theorem Client.Keeps.refl (cli : Client) : cli.Keeps cli := ⟨rfl, rfl, rfl, rfl, rfl⟩

theorem Client.Keeps.trans {a b c : Client} (hab : a.Keeps b) (hbc : b.Keeps c) : a.Keeps c where
  serverAddr := hbc.serverAddr.trans hab.serverAddr
  virtIp := hbc.virtIp.trans hab.virtIp
  netmask := hbc.netmask.trans hab.netmask
  serverReplay := hbc.serverReplay.trans hab.serverReplay
  name := hbc.name.trans hab.name

theorem clientUpdatePeer_keeps (env : Env) (cli : Client) (vip : UInt32) (name : Bytes)
    (online : Bool) : cli.Keeps (clientUpdatePeer env cli vip name online) := by
  unfold clientUpdatePeer
  split
  · split_ifs <;> exact ⟨rfl, rfl, rfl, rfl, rfl⟩
  · split_ifs
    · split <;> exact ⟨rfl, rfl, rfl, rfl, rfl⟩
    · exact .refl cli

theorem clientPeerListLoop_keeps (env : Env) (payload : Bytes) (n i : ℕ) (cli : Client) :
    cli.Keeps (clientPeerListLoop env payload n i cli) := by
  induction n generalizing i cli with
  | zero => exact .refl cli
  | succ n ih =>
    rw [clientPeerListLoop]
    split
    · exact .refl cli
    · exact (clientUpdatePeer_keeps env cli _ _ _).trans (ih _ _)

theorem clientAddPeerTraffic_keeps (cli : Client) (vip : UInt32) (bytesIn bytesOut : UInt64) :
    cli.Keeps (clientAddPeerTraffic cli vip bytesIn bytesOut) := by
  unfold clientAddPeerTraffic
  split
  · exact .refl cli
  · exact ⟨rfl, rfl, rfl, rfl, rfl⟩

theorem clientMarkServerSeen_keeps (env : Env) (cli : Client) :
    cli.Keeps (clientMarkServerSeen env cli) := by
  unfold clientMarkServerSeen
  split_ifs
  · exact ⟨rfl, rfl, rfl, rfl, rfl⟩
  · exact .refl cli

/-- **Handlers.**  No handler touches the addresses, the name or the window. -/
theorem clientDispatch_keeps (env : Env) (cli : Client) (io : Proc) (f : Frame) :
    cli.Keeps (clientDispatch env cli io f).1 := by
  unfold clientDispatch
  split
  · unfold clientHandleData
    split
    · exact .refl cli
    · exact clientAddPeerTraffic_keeps cli _ _ _
  · exact clientPeerListLoop_keeps env _ _ _ _
  · simp only [clientHandlePeerJoin]
    split_ifs
    · exact .refl cli
    · exact clientUpdatePeer_keeps env cli _ _ _
  · simp only [clientHandlePeerLeave]
    split_ifs
    · exact .refl cli
    · split
      · exact .refl cli
      · exact ⟨rfl, rfl, rfl, rfl, rfl⟩
  · exact .refl cli
  · simp only [clientHandleKeepaliveAck]
    split
    · exact .refl cli
    · split_ifs
      · exact .refl cli
      · exact ⟨rfl, rfl, rfl, rfl, rfl⟩
  · exact .refl cli
  · exact .refl cli

end Tund
