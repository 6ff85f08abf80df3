import Tund.Server.Relay

/-!
# Endpoint isolation

What a packet from one endpoint can do to the entries of the others, and what any event
can do to an entry that stays active.

* `serverHandlePacket_stranger`: an unregistered endpoint can only register;
* `serverHandlePacket_frame`: other active entries keep everything but `bytes_out`, which
  moves only with a DATA datagram to them;
* `Peer.Persists`, `serverStep_origin`: an entry that is active after an event was there
  before, or the event is the REGISTER that made it.
-/

namespace Tund

/-! ### Strangers -/

section Packet

variable {env : Env} {srv srv' : Server} {io : Proc} {buf : Bytes} {src : SockAddr}

theorem serverDispatchLocked_stranger {f : Frame} (hfind : serverFindPeerByAddr srv src = none)
    (hreg : f.type ≠ MsgType.register.code) : serverDispatchLocked env srv f src = (srv, []) := by
  unfold serverDispatchLocked
  split
  · rename_i h
    exact absurd (MsgType.ofCode_eq_some_iff.1 h) hreg
  · rcases serverDataLocked_cases srv f.payload src with ⟨-, h⟩ | ⟨i, hi, -⟩
    · exact h
    · rw [hi.sender] at hfind; cases hfind
  · rcases serverKeepaliveLocked_cases env srv f.payload src with h | ⟨i, _, hi, -⟩
    · exact h
    · rw [hi] at hfind; cases hfind
  · rcases serverKeepaliveAckLocked_cases env srv f.payload src with h | ⟨i, _, hi, -⟩
    · exact h
    · rw [hi] at hfind; cases hfind
  · rcases serverDisconnectLocked_cases srv src with ⟨-, h⟩ | ⟨i, hi, -⟩
    · exact h
    · rw [hi] at hfind; cases hfind
  · rfl

theorem finish_nil (env : Env) (srv : Server) (io : Proc) : finish env io (srv, []) = (srv, io) := rfl

theorem serverHandlePacket_stranger (hnone : ∀ i, (srv.peers i).isAt src = false)
    (hreg : ∀ f, readFrame buf = some f → f.type ≠ MsgType.register.code) :
    serverHandlePacket env srv io buf src = (srv, io) := by
  have hfind := find_eq_none_iff.2 hnone
  rcases serverHandlePacket_cases env srv io buf src with ⟨-, h⟩ | ⟨f, srv₁, hread, hacc, h⟩
  · exact h
  · rcases hacc with ⟨ht, -⟩ | ⟨ht, hacc⟩
    · exact absurd ht (hreg f hread)
    · rcases serverAccept_cases srv src f.sequence with ⟨-, ha⟩ | ⟨i, hi, -, -⟩ | ⟨i, hi, -, -⟩
      · rw [hacc] at ha
        cases ha
        rw [h, serverDispatchLocked_stranger hfind ht, finish_nil]
      · rw [hi] at hfind; cases hfind
      · rw [hi] at hfind; cases hfind

/-! ### Other entries -/

/-- The locked sections of a packet leave the other active entries alone. -/
theorem PacketStep.frame {seq : UInt64} (h : PacketStep env src seq srv srv') {j : Slot}
    (hact : (srv.peers j).active = true) (hj : (srv.peers j).isAt src = false) :
    srv'.peers j = srv.peers j := by
  have hne : ∀ i, serverFindPeerByAddr srv src = some i → j ≠ i := by
    rintro i hi rfl
    rw [isAt_of_find hi] at hj
    cases hj
  cases h with
  | same => rfl
  | refresh i p hi hp => exact srv.setPeer_of_ne p (hne i hi)
  | join i payload hnew hi hvip =>
    have hji : j ≠ i := by
      rintro rfl
      rw [not_active_of_free hi] at hact
      cases hact
    rw [join_peers, if_neg hji]
  | leave i hi => exact leave_peers_of_ne srv (hne i hi)

theorem countsNothing_assignActs (p : Peer) : ∀ a ∈ assignActs p, a.CountsNothing := by
  intro a ha peer n heq
  subst heq
  simp [assignActs] at ha

theorem countsNothing_joinActs (p : Peer) (others : List ServerPeerSnapshot) :
    ∀ a ∈ joinActs p others, a.CountsNothing := by
  intro a ha peer n heq
  subst heq
  simp [joinActs, assignActs] at ha

theorem countsNothing_leaveActs (vip : UInt32) (peers : List ServerPeerSnapshot) :
    ∀ a ∈ leaveActs vip peers, a.CountsNothing := by
  intro a ha peer n heq
  subst heq
  simp only [leaveActs, List.mem_cons, reduceCtorEq, List.mem_map, Act.forward.injEq, false_or] at ha
  obtain ⟨s, -, -, hn⟩ := ha
  exact hn.symm

/-- Only DATA is counted. -/
theorem serverDispatchLocked_counts {f : Frame} (hdata : f.type ≠ MsgType.data.code) :
    ∀ a ∈ (serverDispatchLocked env srv f src).2, a.CountsNothing := by
  unfold serverDispatchLocked
  split
  · rcases serverRegisterLocked_cases env srv f.payload src f.sequence with
      ⟨i, -, -, h⟩ | ⟨i, -, -, h⟩ | ⟨-, -, h⟩ | ⟨i, -, -, -, h⟩ <;> rw [h]
    · simp
    · exact countsNothing_assignActs _
    · simp
    · exact countsNothing_joinActs _ _
  · rename_i h
    exact absurd (MsgType.ofCode_eq_some_iff.1 h) hdata
  · rcases serverKeepaliveLocked_cases env srv f.payload src with h | ⟨i, _, -, h⟩ <;> rw [h]
    · simp
    · rintro a ha peer n rfl
      simp at ha
  · rcases serverKeepaliveAckLocked_cases env srv f.payload src with h | ⟨i, _, -, h⟩ <;> rw [h] <;>
      simp
  · rcases serverDisconnectLocked_cases srv src with ⟨-, h⟩ | ⟨i, -, h⟩ <;> rw [h]
    · simp
    · intro a ha
      rcases List.mem_append.1 ha with ha | ha
      · exact countsNothing_leaveActs _ _ a ha
      · rintro peer n rfl
        simp at ha
  · simp

/-- A DATA datagram with `payload` went to the peer `p`. -/
def DataSent (env : Env) (outs : List Out) (p : Peer) (payload : Bytes) : Prop :=
  ∃ d, .datagram d ∈ outs ∧ d.dest = p.realAddr ∧ d.sent = true ∧
    d.Carries env.aead env.key MsgType.data.code payload

/-- The table moved by `bytes_out` only, and only with DATA datagrams that were sent. -/
def CountedOut (env : Env) (srv : Server) (io : Proc) (payload : Bytes) (r : Server × Proc) : Prop :=
  ∃ outs, r.2.out = io.out ++ outs ∧
    ∀ j, r.1.peers j = srv.peers j ∨
      r.1.peers j =
          { srv.peers j with bytesOut := (srv.peers j).bytesOut + UInt64.ofNat payload.length } ∧
        DataSent env outs (srv.peers j) (dataPayload payload)

theorem countedOut_relay (env : Env) (srv : Server) (io : Proc) (payload : Bytes)
    {targets : List Slot} (tun : Bool) (hnodup : targets.Nodup)
    (hact : ∀ j ∈ targets, (srv.peers j).active = true) :
    CountedOut env srv io payload
      (finish env io (srv, relayActs payload (targets.map (serverSnapshotPeerLocked srv)) ++
        (if tun then [.tunWrite payload] else []))) := by
  obtain ⟨got, io', hrun, hout, -, hcar, -⟩ := finish_relay env srv io payload hnodup hact tun
  rw [hrun]
  refine ⟨datagrams targets got ++ if tun then [.tunWrite payload] else [], ?_, fun j => ?_⟩
  · rw [hout, List.append_assoc]
  by_cases hs : wasSent got j = true
  · right
    refine ⟨by simp only [Server.countOut, if_pos hs], ?_⟩
    cases hg : got j with
    | none => simp [wasSent, hg] at hs
    | some d =>
      obtain ⟨hmem, hdest, hd⟩ := hcar j d hg
      refine ⟨d, ?_, hdest, by simpa [wasSent, hg] using hs, hd⟩
      exact List.mem_append_left _ (List.mem_filterMap.2 ⟨j, hmem, by rw [hg]; rfl⟩)
  · left
    simp only [Server.countOut, if_neg hs]

/-- What the acts of a DATA packet do to `bytes_out`. -/
theorem countedOut_dataActs (env : Env) (srv : Server) (io : Proc) (payload : Bytes) (i : Slot) :
    CountedOut env srv io payload (finish env io (srv, dataActs srv payload i)) := by
  by_cases hhub : protoGetDstIp payload = htonl tundServerIp
  · rw [dataActs, if_pos hhub]
    exact ⟨[.tunWrite payload], rfl, fun j => .inl rfl⟩
  by_cases hall : protoGetDstIp payload = htonl tundBroadcast
  · rw [dataActs, if_neg hhub, if_pos hall]
    exact countedOut_relay env srv io payload true (nodup_activeExcept srv (some i))
      fun j hj => (mem_activeExcept.1 hj).1
  cases hfind : serverFindPeerByVip srv (protoGetDstIp payload) with
  | none =>
    rw [dataActs, if_neg hhub, if_neg hall, serverSnapshotPeerByVipLocked, hfind]
    exact ⟨[], by simp [finish_nil], fun j => .inl rfl⟩
  | some k =>
    have hk := SlotTable.of_first_eq_some (p := fun i => (srv.peers i).holds _) hfind
    have h := countedOut_relay env srv io payload false (List.nodup_singleton k)
      (by simpa using (Peer.holds_iff.1 hk).1)
    rw [dataActs, if_neg hhub, if_neg hall, serverSnapshotPeerByVipLocked, hfind]
    simpa using h

/-- An active entry of another endpoint after a packet: as before but for `bytes_out`, and
`bytes_out` has moved only by a DATA datagram that was sent to it. -/
theorem serverHandlePacket_frame {j : Slot} (hact : (srv.peers j).active = true)
    (hj : (srv.peers j).isAt src = false) :
    (serverHandlePacket env srv io buf src).1.peers j = srv.peers j ∨
    ∃ outs payload, (serverHandlePacket env srv io buf src).2.out = io.out ++ outs ∧
      (serverHandlePacket env srv io buf src).1.peers j =
        { srv.peers j with bytesOut := (srv.peers j).bytesOut + UInt64.ofNat payload.length } ∧
      DataSent env outs (srv.peers j) (dataPayload payload) := by
  rcases serverHandlePacket_cases env srv io buf src with ⟨-, h⟩ | ⟨f, srv₁, hread, hacc, h⟩ <;> rw [h]
  · exact .inl rfl
  have hstep : PacketStep env src f.sequence srv srv₁ := by
    rcases hacc with ⟨-, rfl⟩ | ⟨-, hacc⟩
    · exact .same
    · have := serverAccept_step env srv src f.sequence
      rwa [hacc] at this
  have h₁ : srv₁.peers j = srv.peers j := hstep.frame hact hj
  have h₂ : (serverDispatchLocked env srv₁ f src).1.peers j = srv.peers j := by
    rw [← h₁]
    exact (serverDispatchLocked_step env srv₁ f src).frame (by rw [h₁, hact]) (by rw [h₁, hj])
  by_cases hdata : f.type = MsgType.data.code
  · have hdisp : serverDispatchLocked env srv₁ f src = serverDataLocked srv₁ f.payload src := by
      unfold serverDispatchLocked
      rw [hdata, MsgType.ofCode_code]
    rw [hdisp] at h₂ ⊢
    rcases serverDataLocked_cases srv₁ f.payload src with ⟨-, hd⟩ | ⟨i, -, hd⟩ <;> rw [hd] at h₂ ⊢
    · exact .inl (by rw [finish_nil, h₁])
    · obtain ⟨outs, hout, hpeers⟩ := countedOut_dataActs env (srv₁.countIn i f.payload.length) io
        f.payload i
      rcases hpeers j with hp | ⟨hp, hs⟩
      · exact .inl (hp.trans h₂)
      · rw [h₂] at hp hs
        exact .inr ⟨outs, f.payload, hout, hp, hs⟩
  · have hsrv : (finish env io (serverDispatchLocked env srv₁ f src)).1 =
        (serverDispatchLocked env srv₁ f src).1 :=
      runActs_srv env _ (serverDispatchLocked_counts hdata)
    exact .inl (by rw [hsrv, h₂])

end Packet

/-! ### Entries over time -/

/-- The same peer at the same endpoint, with a window that remembers at least as much. -/
structure Peer.Persists (p p' : Peer) : Prop where
  active : p'.active = p.active
  virtIp : p'.virtIp = p.virtIp
  name : p'.name = p.name
  realAddr : p'.realAddr = p.realAddr
  tracks : ∀ log, p.replay.Tracks log → ∃ log', p'.replay.Tracks log' ∧ ∀ s ∈ log, s ∈ log'

theorem Peer.Persists.refl (p : Peer) : p.Persists p :=
  ⟨rfl, rfl, rfl, rfl, fun log h => ⟨log, h, fun _ hs => hs⟩⟩

theorem Peer.Persists.trans {p q r : Peer} (hpq : p.Persists q) (hqr : q.Persists r) :
    p.Persists r where
  active := hqr.active.trans hpq.active
  virtIp := hqr.virtIp.trans hpq.virtIp
  name := hqr.name.trans hpq.name
  realAddr := hqr.realAddr.trans hpq.realAddr
  tracks log h := by
    obtain ⟨log₁, h₁, hsub₁⟩ := hpq.tracks log h
    obtain ⟨log₂, h₂, hsub₂⟩ := hqr.tracks log₁ h₁
    exact ⟨log₂, h₂, fun s hs => hsub₂ s (hsub₁ s hs)⟩

theorem Peer.Refreshes.persists {p p' : Peer} (h : p.Refreshes p') : p.Persists p' :=
  ⟨h.active, h.virtIp, h.name, h.realAddr, fun _ ht => h.tracks ht⟩

section Origin

variable {env : Env} {srv srv' : Server} {src : SockAddr} {seq : UInt64}

/-- An entry that is active after the locked sections of a packet was there before, or it is the
one that the packet registered. -/
theorem PacketStep.origin (h : PacketStep env src seq srv srv') {j : Slot}
    (hact : (srv'.peers j).active = true) :
    (srv.peers j).active = true ∧ (srv.peers j).Persists (srv'.peers j) ∨
    serverFindPeerByAddr srv src = none ∧ (srv.peers j).active = false ∧
      (srv'.peers j).realAddr = src ∧
      (srv'.peers j).replay = (protoReplayAccept protoReplayReset seq).2 := by
  cases h with
  | same => exact .inl ⟨hact, .refl _⟩
  | refresh i p hi hp =>
    have hr := setPeer_refreshes hp j
    exact .inl ⟨hr.active ▸ hact, hr.persists⟩
  | join i payload hnew hi hvip =>
    by_cases hji : j = i
    · subst hji
      rw [join_peers, if_pos rfl]
      exact .inr ⟨hnew, not_active_of_free hi, rfl, rfl⟩
    · rw [join_peers, if_neg hji] at hact ⊢
      exact .inl ⟨hact, .refl _⟩
  | leave i hi =>
    obtain ⟨ha, -, heq⟩ := of_leave_active hact
    rw [heq]
    exact .inl ⟨ha, .refl _⟩

/-- An entry that is active after a sweep is unchanged by its locked section. -/
theorem serverSweepLocked_origin {box : Outbox} {j : Slot}
    (hact : ((serverSweepLocked env srv box).1.peers j).active = true) :
    (serverSweepLocked env srv box).1.peers j = srv.peers j := by
  rw [serverSweepLocked_fst] at hact ⊢
  refine sweep_induction (P := fun t => (t.peers j).active = true → t.peers j = srv.peers j)
    (fun t i ht ih ha => ?_) _ (fun _ => rfl) hact
  obtain ⟨ha', -, heq⟩ := of_leave_active ha
  rw [heq, ih ha']

end Origin

/-- The REGISTER that makes an entry. -/
def Registers (srv : Server) (e : ServerEvent) (p : Peer) : Prop :=
  ∃ env buf src f, e = .packet env buf src ∧ readFrame buf = some f ∧
    f.type = MsgType.register.code ∧ serverFindPeerByAddr srv src = none ∧ p.realAddr = src ∧
    p.replay = (protoReplayAccept protoReplayReset f.sequence).2

/-- **Origin.**  An entry that is active after an event was active before it and is the same peer,
or the event is the REGISTER that made it. -/
theorem serverStep_origin {s : ServerState} {e : ServerEvent} {j : Slot}
    (hact : ((serverStep s e).srv.peers j).active = true) :
    (s.srv.peers j).active = true ∧ (s.srv.peers j).Persists ((serverStep s e).srv.peers j) ∨
    (s.srv.peers j).active = false ∧ Registers s.srv e ((serverStep s e).srv.peers j) := by
  cases e with
  | tun env pkt =>
    have hsame := serverTunPacket_same env s.srv s.io pkt
    exact .inl ⟨hsame.active j ▸ hact, (hsame.refreshes j).persists⟩
  | shutdown env =>
    have hsame := finish_same env s.io (s.srv, .build .disconnect ::
      (serverSnapshotBroadcastLocked s.srv none).map fun t => .forward t 0)
    exact .inl ⟨hsame.active j ▸ hact, (hsame.refreshes j).persists⟩
  | sweep env =>
    simp only [serverStep, serverSweep_eq] at hact ⊢
    have hsame := finish_same env (Outbox.build env s.io (.keepalive env.nowMs)).2
      (serverSweepLocked env s.srv (Outbox.build env s.io (.keepalive env.nowMs)).1)
    have hact' := hsame.active j ▸ hact
    have horig := serverSweepLocked_origin hact'
    rw [horig] at hact'
    refine .inl ⟨hact', ?_⟩
    have hp := (hsame.refreshes j).persists
    rwa [horig] at hp
  | packet env buf src =>
    simp only [serverStep] at hact ⊢
    rcases serverHandlePacket_cases env s.srv s.io buf src with ⟨-, h⟩ | ⟨f, srv₁, hread, hacc, h⟩
    · rw [h] at hact ⊢
      exact .inl ⟨hact, .refl _⟩
    rw [h] at hact ⊢
    have hsame := finish_same env s.io (serverDispatchLocked env srv₁ f src)
    have hpers := (hsame.refreshes j).persists
    have hact₂ := hsame.active j ▸ hact
    rcases (serverDispatchLocked_step env srv₁ f src).origin hact₂ with
      ⟨hact₁, hp₁⟩ | ⟨hfind, hinact, haddr, hreplay⟩
    · rcases hacc with ⟨-, rfl⟩ | ⟨-, hacc⟩
      · exact .inl ⟨hact₁, hp₁.trans hpers⟩
      · -- accepting a number never makes an entry
        rcases serverAccept_cases s.srv src f.sequence with ⟨-, ha⟩ | ⟨i, -, -, ha⟩ | ⟨i, hi, hb, ha⟩
        · rw [hacc] at ha
          cases ha
          exact .inl ⟨hact₁, hp₁.trans hpers⟩
        · rw [hacc] at ha
          cases ha
        · rw [hacc] at ha
          cases ha
          have hr := setPeer_refreshes (Peer.refreshes_shown hb) j
          exact .inl ⟨hr.active ▸ hact₁, hr.persists.trans (hp₁.trans hpers)⟩
    · have hreg : f.type = MsgType.register.code := by
        by_contra hne
        rw [serverDispatchLocked_stranger hfind hne] at hact₂
        rw [hinact] at hact₂
        cases hact₂
      rcases hacc with ⟨-, rfl⟩ | ⟨hne, -⟩
      · refine .inr ⟨hinact, env, buf, src, f, rfl, hread, hreg, hfind, ?_, ?_⟩
        · rw [hpers.realAddr, haddr]
        · rw [hsame.replay j, hreplay]
      · exact absurd hreg hne

/-- An entry that stays active over a stretch of a run is the same peer throughout. -/
theorem persists_of_active (r : ServerRun) {i : Slot} {a b : ℕ} (hab : a ≤ b)
    (hact : ∀ m, a ≤ m → m ≤ b → ((r.state m).srv.peers i).active = true) :
    ((r.state a).srv.peers i).Persists ((r.state b).srv.peers i) := by
  induction b, hab using Nat.le_induction with
  | base => exact .refl _
  | succ b hab ih =>
    have hprev := ih fun m ha hb => hact m ha (by omega)
    have hnext : ((serverStep (r.state b) (r.event b)).srv.peers i).active = true := by
      rw [← r.next]
      exact hact (b + 1) (by omega) le_rfl
    rcases serverStep_origin hnext with ⟨-, hp⟩ | ⟨hinact, -⟩
    · rw [← r.next] at hp
      exact hprev.trans hp
    · rw [hact b hab (by omega)] at hinact
      cases hinact

/-- **Endpoint isolation.**  A packet other than REGISTER from an endpoint that is not active does
nothing at all.  Any packet leaves the active entries of other endpoints as they are, but for
`bytes_out`, which moves only by a DATA datagram sent to the peer.  Virtual IP, name and endpoint
of an entry do not change while it stays active in a run. -/
theorem endpoint_isolation :
    (∀ (env : Env) (srv : Server) (io : Proc) (buf : Bytes) (src : SockAddr),
      (∀ i, (srv.peers i).isAt src = false) →
      (∀ f, readFrame buf = some f → f.type ≠ MsgType.register.code) →
      serverHandlePacket env srv io buf src = (srv, io)) ∧
    (∀ (env : Env) (srv : Server) (io : Proc) (buf : Bytes) (src : SockAddr) (j : Slot),
      (srv.peers j).active = true → (srv.peers j).isAt src = false →
      (serverHandlePacket env srv io buf src).1.peers j = srv.peers j ∨
      ∃ outs payload, (serverHandlePacket env srv io buf src).2.out = io.out ++ outs ∧
        (serverHandlePacket env srv io buf src).1.peers j =
          { srv.peers j with bytesOut := (srv.peers j).bytesOut + UInt64.ofNat payload.length } ∧
        ∃ d, .datagram d ∈ outs ∧ d.dest = (srv.peers j).realAddr ∧ d.sent = true ∧
          d.Carries env.aead env.key MsgType.data.code (dataPayload payload)) ∧
    ∀ (r : ServerRun) (i : Slot) (a b : ℕ), a ≤ b →
      (∀ m, a ≤ m → m ≤ b → ((r.state m).srv.peers i).active = true) →
      ((r.state b).srv.peers i).virtIp = ((r.state a).srv.peers i).virtIp ∧
      ((r.state b).srv.peers i).name = ((r.state a).srv.peers i).name ∧
      ((r.state b).srv.peers i).realAddr = ((r.state a).srv.peers i).realAddr := by
  refine ⟨fun _ _ _ _ _ => serverHandlePacket_stranger, fun _ _ _ _ _ _ => serverHandlePacket_frame,
    fun r i a b hab hact => ?_⟩
  have hp := persists_of_active r hab hact
  exact ⟨hp.virtIp, hp.name, hp.realAddr⟩

end Tund
