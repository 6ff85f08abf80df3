import Tund.Reordering
import Tund.Server.News

/-!
# What the client makes of a note

A datagram of the server that the window takes does to the client's table, read as a map,
exactly what its note tells: `Client.Told`.  This needs a slot for every peer that is
new, and there is one: the virtual IPs come from a pool of 253, and the table has 253
slots (`Client.Tidy.free`).

In the handshake a note is lost on the table: an ASSIGN ends the handshake, anything else
costs an attempt (`ClientNode.arrive_awaiting`).
-/

namespace Tund

open Replica

/-- The table is a map with keys from the pool. -/
structure Client.Tidy (cli : Client) : Prop where
  distinct : cli.Distinct
  pooled : ∀ i, (cli.peers i).active = true → InPool (cli.peers i).virtIp

/-- The table was changed as `ops` say. -/
structure Client.Told (cli cli' : Client) (ops : List (Op UInt32 Bytes)) : Prop where
  lookup : cli'.lookup = run cli.lookup ops
  tidy : cli'.Tidy

section Told

variable {env : Env} {cli cli' : Client}

/-- A peer that is not in the table finds a slot. -/
theorem Client.Tidy.free (h : cli.Tidy) {vip : UInt32} (hvip : InPool vip)
    (hf : clientFindPeer cli vip = none) : clientFreeSlot cli ≠ none := by
  intro hfull
  have hact : ∀ i, (cli.peers i).active = true := by
    intro i
    simpa using SlotTable.first_eq_none_iff.1 hfull i
  have hkey : ∀ i : Slot, ∃ k : Fin poolSize, (cli.peers i).virtIp = poolIp k := by
    intro i
    obtain ⟨k, hk, heq⟩ := (h.pooled i (hact i)).exists_poolIp
    exact ⟨⟨k, hk⟩, heq⟩
  choose key hkey using hkey
  -- 253 slots hold 253 different addresses, so all there are
  have hinj : Function.Injective key := by
    intro i j hij
    exact h.distinct i j (hact i) (hact j) (by rw [hkey i, hkey j, hij])
  have hcard : Fintype.card Slot = Fintype.card (Fin poolSize) := by
    rw [Fintype.card_fin, Fintype.card_fin]
    rfl
  obtain ⟨k, hk, rfl⟩ := hvip.exists_poolIp
  obtain ⟨i, hi⟩ := ((Fintype.bijective_iff_injective_and_card key).2 ⟨hinj, hcard⟩).2 ⟨k, hk⟩
  have hno := clientFind_eq_none_iff.1 hf i
  rw [Peer.holds_iff.2 ⟨hact i, by rw [hkey i, hi]⟩] at hno
  cases hno

theorem Client.Told.trans {cli'' : Client} {as bs : List (Op UInt32 Bytes)}
    (h : cli.Told cli' as) (h' : cli'.Told cli'' bs) : cli.Told cli'' (as ++ bs) :=
  ⟨by rw [run_append, ← h.lookup]; exact h'.lookup, h'.tidy⟩

/-- The slots still hold the same peers under the same names. -/
theorem Client.Tidy.told_same (h : cli.Tidy)
    (hpeers : ∀ i, (cli'.peers i).active = (cli.peers i).active ∧
      (cli'.peers i).virtIp = (cli.peers i).virtIp ∧ (cli'.peers i).name = (cli.peers i).name) :
    cli.Told cli' [] := by
  refine ⟨?_, ?_, ?_⟩
  · funext v
    refine lookup_congr (fun i => ?_) fun i _ => (hpeers i).2.2
    rw [Peer.holds, Peer.holds, (hpeers i).1, (hpeers i).2.1]
  · intro i j hi hj heq
    rw [(hpeers i).1] at hi
    rw [(hpeers j).1] at hj
    rw [(hpeers i).2.1, (hpeers j).2.1] at heq
    exact h.distinct i j hi hj heq
  · intro i hi
    rw [(hpeers i).1] at hi
    rw [(hpeers i).2.1]
    exact h.pooled i hi

theorem Client.Tidy.told_peers (h : cli.Tidy) (hpeers : cli'.peers = cli.peers) :
    cli.Told cli' [] := h.told_same fun i => by rw [hpeers]; exact ⟨rfl, rfl, rfl⟩

/-! ### The handlers -/

theorem Client.Tidy.learn (h : cli.Tidy) {e : PeerEntry} (he : InPool e.virtIp) :
    cli.Told (cli.learn env e) [.put e.virtIp (shortName e.name)] := by
  refine ⟨?_, h.distinct.update_online, ?_⟩
  · funext v
    exact lookup_learn (h.free he) v
  · intro i hi
    rw [Client.learn] at hi ⊢
    rcases clientUpdatePeer_online env cli e.virtIp (shortName e.name) with ⟨-, -, heq⟩ |
      ⟨j, p, n, -, hvip, -, -, heq⟩ <;> rw [heq] at hi ⊢
    · exact h.pooled i hi
    · rw [put_peers] at hi ⊢
      split_ifs at hi ⊢
      · rw [hvip]
        exact he
      · exact h.pooled i hi

theorem Client.Tidy.foldl_learn (entries : List PeerEntry) {cli : Client} (h : cli.Tidy)
    (hpool : ∀ e ∈ entries, InPool e.virtIp) :
    cli.Told (entries.foldl (Client.learn env) cli)
      (entries.map fun e => .put e.virtIp (shortName e.name)) := by
  induction entries generalizing cli with
  | nil => exact h.told_peers rfl
  | cons e es ih =>
    have hone : cli.Told (cli.learn env e) [.put e.virtIp (shortName e.name)] :=
      h.learn (hpool e (by simp))
    exact hone.trans (ih hone.tidy fun e he => hpool e (by simp [he]))

theorem Client.Tidy.leave (h : cli.Tidy) (vip : UInt32) :
    cli.Told (clientHandlePeerLeave cli (Msg.peerLeave vip).payload) [.drop vip] := by
  rw [clientHandlePeerLeave_payload]
  cases hf : clientFindPeer cli vip with
  | none =>
    refine ⟨?_, h⟩
    funext v
    show cli.lookup v = if v = vip then none else cli.lookup v
    split_ifs with hv
    · rw [hv, lookup_eq_none_iff]
      exact clientFind_eq_none_iff.1 hf
    · rfl
  | some i =>
    refine ⟨?_, h.distinct.dropPeer i, fun j hj => ?_⟩
    · funext v
      exact lookup_drop h.distinct hf v
    · simp only [dropPeer_peers] at hj ⊢
      split_ifs at hj ⊢
      exact h.pooled j hj

theorem Client.Tidy.traffic (h : cli.Tidy) (vip : UInt32) (bytesIn bytesOut : UInt64) :
    cli.Told (clientAddPeerTraffic cli vip bytesIn bytesOut) [] := by
  unfold clientAddPeerTraffic
  split
  · exact h.told_peers rfl
  · apply h.told_same
    intro i
    rw [Client.setPeer_peers]
    split_ifs with hi
    · rw [hi]
      exact ⟨rfl, rfl, rfl⟩
    · exact ⟨rfl, rfl, rfl⟩

theorem Client.Tidy.broadcast (h : cli.Tidy) (bytesOut : UInt64) :
    cli.Told (clientAddBroadcastTraffic cli bytesOut) [] := by
  apply h.told_same
  intro i
  simp only [clientAddBroadcastTraffic]
  split_ifs <;> exact ⟨rfl, rfl, rfl⟩

/-- **Notes.**  The dispatcher does to the table what the note of the message says. -/
theorem Client.Tidy.dispatch (h : cli.Tidy) (io : Proc) {m : Msg} (seq : UInt64)
    (hpool : ∀ k v, Op.put k v ∈ m.note.ops → InPool k) :
    cli.Told (clientDispatch env cli io ⟨m.type.code, m.payload, seq⟩).1 m.note.ops := by
  cases m with
  | peerList entries =>
    have hrows : ∀ e ∈ entries.take tundPeerListMax, InPool e.virtIp := fun e he =>
      hpool e.virtIp (shortName e.name) (List.mem_map.2 ⟨e, he, rfl⟩)
    show cli.Told (clientHandlePeerList env cli (Msg.peerList entries).payload) _
    rw [clientHandlePeerList_payload]
    exact h.foldl_learn _ hrows
  | peerJoin virtIp name =>
    show cli.Told (clientHandlePeerJoin env cli (Msg.peerJoin virtIp name).payload) _
    rw [clientHandlePeerJoin_payload ⟨virtIp, name⟩]
    exact h.learn (hpool virtIp (shortName name) (by simp [Msg.note]))
  | peerLeave virtIp => exact h.leave virtIp
  | data pkt =>
    show cli.Told (clientHandleData cli io (Msg.data pkt).payload).1 []
    unfold clientHandleData
    split
    · exact h.told_peers rfl
    · exact h.traffic _ _ _
  | keepaliveAck timestamp =>
    show cli.Told (clientHandleKeepaliveAck env cli (Msg.keepaliveAck timestamp).payload) []
    unfold clientHandleKeepaliveAck
    split
    · exact h.told_peers rfl
    · split_ifs <;> exact h.told_peers rfl
  | register name => exact h.told_peers rfl
  | assign virtIp netmask mtu => exact h.told_peers rfl
  | keepalive timestamp => exact h.told_peers rfl
  | disconnect => exact h.told_peers rfl

end Told

/-! ### The process -/

/-- How far a process is. -/
inductive Stage
  | handshake
  | running
  | over
  deriving DecidableEq

/-- `client_register` gives up when no attempt is left. -/
def Phase.stage : Phase → Stage
  | .attempt 0 => .over
  | .attempt (_ + 1) => .handshake
  | .await _ => .handshake
  | .running => .running
  | .ended => .over

/-- The event does not bring a datagram of the server. -/
def NodeEvent.Stray (aead : Aead) (key : Bytes) (serverAddr : SockAddr) : NodeEvent → Prop
  | .arrive (.datagram wire src) => src ≠ serverAddr ∨ netRecv aead key wire = none
  | _ => True

/-- The process goes on with the same table and window, or ends. -/
structure ClientNode.Idles (c c' : ClientNode) : Prop where
  told : c.cli.Told c'.cli []
  window : c'.cli.serverReplay = c.cli.serverReplay
  stage : c'.phase.stage = c.phase.stage ∨ c'.phase.stage = .over

theorem Phase.stage_attempt (left : ℕ) :
    (Phase.attempt left).stage = .handshake ∨ (Phase.attempt left).stage = .over := by
  cases left with
  | zero => exact .inr rfl
  | succ left => exact .inl rfl

section Node

variable {aead : Aead} {key : Bytes} {env : Env} {c : ClientNode} {wire : Bytes} {note : Note}

/-- What unlocks from a datagram with a note. -/
theorem Shows.reads (h : Shows aead key wire note) :
    ∃ m : Msg, m.note = note ∧ ∃ buf seq, netRecv aead key wire = some buf ∧
      readFrame buf = some ⟨m.type.code, m.payload, seq⟩ := by
  obtain ⟨m, hm, hlen, seq, nonce, hseq, hn, rfl⟩ := h
  exact ⟨m, hm, _, seq, netRecv_wireBytes hn hlen, readFrame_frameBytes hseq hn hlen⟩

/-- A datagram with a note that the window takes is acted on. -/
theorem Shows.taken (h : Shows aead key wire note) {cli : Client}
    (htakes : cli.takes aead key wire = true) :
    ∃ m : Msg, m.note = note ∧ ∃ buf seq, netRecv aead key wire = some buf ∧
      readFrame buf = some ⟨m.type.code, m.payload, seq⟩ ∧ clientActsOn cli buf = some seq := by
  obtain ⟨m, hm, buf, seq, hrecv, hread⟩ := h.reads
  refine ⟨m, hm, buf, seq, hrecv, hread, ?_⟩
  have htake : (protoReplayAccept cli.serverReplay seq).1 = true := by
    simpa only [Client.takes, hrecv, Option.bind_some, hread] using htakes
  rw [clientActsOn, hread, Option.bind_some, if_pos htake]

theorem Shows.authentic (h : Shows aead key wire note) : Authentic aead key wire := by
  obtain ⟨m, -, hlen, seq, nonce, hseq, hn, rfl⟩ := h
  refine ⟨⟨m.type.code, m.payload, seq⟩, ?_, ?_⟩
  · rw [netRecv_wireBytes hn hlen]
    exact readFrame_frameBytes hseq hn hlen
  · rw [wireBytes, wireHdr, List.append_assoc]
    exact protoReadSequence_hdrBytes _ hseq

/-- Only an ASSIGN has the note of an ASSIGN. -/
theorem Msg.type_eq_assign_iff {m : Msg} : m.type.code = MsgType.assign.code ↔ m.note = .assign := by
  cases m <;> simp [Msg.type, Msg.note, MsgType.code]

/-- **No news.**  What does not come from the server leaves the table and the window alone. -/
theorem ClientNode.step_stray (ha : env.aead = aead) (hk : env.key = key) (hc : c.cli.Tidy)
    {e : NodeEvent} (he : e.Stray aead key c.cli.serverAddr) : c.Idles (c.step (env, e)) := by
  subst ha
  subst hk
  have hsame : c.cli.Told c.cli [] := hc.told_peers rfl
  cases e with
  | register =>
    simp only [ClientNode.step, ClientNode.register]
    split
    · rename_i left hphase
      rcases sendMsg env c.io (.register c.cli.name.1) c.cli.serverAddr with ⟨_ | _, io⟩
      · exact ⟨hsame, rfl, .inr rfl⟩
      · exact ⟨hsame, rfl, .inl (by rw [hphase]; rfl)⟩
    · exact ⟨hsame, rfl, .inl rfl⟩
  | keepalive =>
    simp only [ClientNode.step, ClientNode.keepalive]
    split
    · exact ⟨hsame, rfl, .inl rfl⟩
    · exact ⟨hsame, rfl, .inl rfl⟩
  | shutdown =>
    simp only [ClientNode.step, ClientNode.shutdown]
    split
    · exact ⟨hsame, rfl, .inr rfl⟩
    · exact ⟨hsame, rfl, .inl rfl⟩
  | tun pkt =>
    simp only [ClientNode.step, ClientNode.tun, clientTunPacket]
    split
    · split
      · exact ⟨hsame, rfl, .inl rfl⟩
      · rcases sendMsg env c.io (.data pkt) c.cli.serverAddr with ⟨_ | _, io⟩
        · exact ⟨hsame, rfl, .inl rfl⟩
        · simp only
          split_ifs
          · exact ⟨hc.broadcast _, rfl, .inl rfl⟩
          · exact ⟨hc.traffic _ _ _, (clientAddPeerTraffic_keeps c.cli _ _ _).serverReplay, .inl rfl⟩
    · exact ⟨hsame, rfl, .inl rfl⟩
  | arrive arrival =>
    simp only [ClientNode.step]
    -- the handshake goes on to its next attempt, `client_run` drops what it got
    have hstray : ∀ wire src, arrival = .datagram wire src →
        netRecv env.aead env.key wire = none ∨ netAddrEqual src c.cli.serverAddr = false := by
      rintro wire src rfl
      rcases he with hsrc | hnone
      · exact .inr (by rw [Bool.eq_false_iff, ne_eq, netAddrEqual_iff]; exact hsrc)
      · exact .inl hnone
    cases hphase : c.phase with
    | attempt left =>
      simp only [ClientNode.arrive, hphase]
      exact ⟨hsame, rfl, .inl rfl⟩
    | ended =>
      simp only [ClientNode.arrive, hphase]
      exact ⟨hsame, rfl, .inl rfl⟩
    | await left =>
      have hawait : clientAwait env c.cli arrival = (none, c.cli) ∨
          clientAwait env c.cli arrival = (some false, c.cli) := by
        cases arrival with
        | datagram wire src =>
          left
          rcases hstray wire src rfl with hnone | hsrc
          · simp only [clientAwait, hnone]
          · simp only [clientAwait, hsrc, Bool.false_eq_true, if_false]
            split <;> rfl
        | pollError => exact .inr rfl
        | silence => exact .inl rfl
        | recvError => exact .inl rfl
      rcases hawait with h | h <;> simp only [ClientNode.arrive, hphase, h]
      · exact ⟨hsame, rfl, by rw [hphase]; exact Phase.stage_attempt left⟩
      · exact ⟨hsame, rfl, .inr rfl⟩
    | running =>
      simp only [ClientNode.arrive, hphase]
      split_ifs
      · cases arrival with
        | datagram wire src =>
          have hdrop : clientReceive env c.cli c.io wire src = (c.cli, c.io) := by
            rcases hstray wire src rfl with hnone | hsrc
            · simp only [clientReceive, hnone]
            · simp only [clientReceive, hsrc, Bool.false_eq_true, if_false]
              split <;> rfl
          simp only [hdrop]
          exact ⟨hsame, rfl, .inl (by rw [hphase])⟩
        | pollError => exact ⟨hsame, rfl, .inr rfl⟩
        | silence => exact ⟨hsame, rfl, .inl rfl⟩
        | recvError => exact ⟨hsame, rfl, .inl rfl⟩
      · exact ⟨hsame, rfl, .inl rfl⟩

/-- **A note in `client_run`.** -/
theorem ClientNode.arrive_running (ha : env.aead = aead) (hk : env.key = key) (hc : c.cli.Tidy)
    (hphase : c.phase = .running) (hio : c.io.running = true) (h : Shows aead key wire note)
    (htakes : c.cli.takes aead key wire = true) (hpool : ∀ k v, Op.put k v ∈ note.ops → InPool k) :
    c.cli.Told (c.arrive env (.datagram wire c.cli.serverAddr)).cli note.ops ∧
    (c.arrive env (.datagram wire c.cli.serverAddr)).phase = .running := by
  subst ha
  subst hk
  obtain ⟨m, rfl, buf, seq, hrecv, hread, hacts⟩ := h.taken htakes
  have haddr : netAddrEqual c.cli.serverAddr c.cli.serverAddr = true := netAddrEqual_iff.2 rfl
  simp only [ClientNode.arrive, hphase, hio, if_true, clientReceive, hrecv, haddr]
  rcases clientHandleServerPacket_cases env c.cli c.io buf with ⟨hno, -⟩ | ⟨f, hf, -, -, heq⟩
  · rw [hacts] at hno
    cases hno
  rw [hread] at hf
  cases hf
  rw [heq]
  set cli := clientMarkServerSeen env { c.cli with
    serverReplay := (protoReplayAccept c.cli.serverReplay seq).2 } with hcli
  have hsame : c.cli.Told cli [] := by
    apply hc.told_peers
    rw [hcli, clientMarkServerSeen]
    split_ifs <;> rfl
  exact ⟨hsame.trans (hsame.tidy.dispatch c.io seq hpool), trivial⟩

/-- **A note in the handshake.** -/
theorem ClientNode.arrive_awaiting (ha : env.aead = aead) (hk : env.key = key) (hc : c.cli.Tidy)
    {left : ℕ} (hphase : c.phase = .await left) (h : Shows aead key wire note)
    (htakes : c.cli.takes aead key wire = true) :
    c.cli.Told (c.arrive env (.datagram wire c.cli.serverAddr)).cli [] ∧
    (note = .assign → (c.arrive env (.datagram wire c.cli.serverAddr)).phase = .running) ∧
    (note ≠ .assign → (c.arrive env (.datagram wire c.cli.serverAddr)).phase = .attempt left) := by
  subst ha
  subst hk
  obtain ⟨m, rfl, buf, seq, hrecv, hread, hacts⟩ := h.taken htakes
  have haddr : netAddrEqual c.cli.serverAddr c.cli.serverAddr = true := netAddrEqual_iff.2 rfl
  rcases clientRegisterReply_cases c.cli buf with ⟨hno, -⟩ | ⟨f, hf, -, -, heq⟩
  · rw [hacts] at hno
    cases hno
  rw [hread] at hf
  cases hf
  by_cases hm : m.note = .assign
  · obtain ⟨virtIp, netmask, mtu, rfl⟩ : ∃ virtIp netmask mtu, m = .assign virtIp netmask mtu := by
      cases m <;> simp [Msg.note] at hm ⊢
    have hlong : ¬ (Msg.assign virtIp netmask mtu).payload.length < 10 := by
      simp [Msg.payload]
    simp only [Msg.type, if_true, handleAssign, hlong, if_false] at heq
    simp only [ClientNode.arrive, hphase, clientAwait, hrecv, haddr, if_true, heq]
    refine ⟨hc.told_peers ?_, fun _ => trivial, fun hne => absurd hm hne⟩
    rw [clientMarkServerSeen]
    split_ifs <;> rfl
  · have htype : ¬ m.type.code = MsgType.assign.code := fun h => hm (Msg.type_eq_assign_iff.1 h)
    simp only [htype, if_false] at heq
    simp only [ClientNode.arrive, hphase, clientAwait, hrecv, haddr, if_true, heq]
    exact ⟨hc.told_peers rfl, fun h => absurd h hm, fun _ => trivial⟩

end Node

end Tund
