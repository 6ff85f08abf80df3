import Tund.Server.Invariant

/-!
# What the server puts out

Which messages the acts of each locked section build.  `serverStep_out` is the summary
for whole events: every datagram of the server carries a message, and none a REGISTER.
-/

namespace Tund

theorem within_joinActs {P : Msg → Prop} {p : Peer} {others : List ServerPeerSnapshot}
    (hassign : P (.assign p.virtIp (htonl tundNetmask) tundTunMtu))
    (hlist : P (.peerList (others.map ServerPeerSnapshot.entry)))
    (hjoin : P (.peerJoin p.virtIp p.cName)) : ∀ a ∈ joinActs p others, a.Within P := by
  intro a ha
  simp only [joinActs, assignActs, List.mem_append, List.mem_cons, List.not_mem_nil, or_false,
    List.mem_map] at ha
  rcases ha with ((rfl | rfl) | rfl | rfl | rfl | rfl) | ⟨s, -, rfl⟩ <;> simp [*]

theorem within_leaveActs {P : Msg → Prop} {vip : UInt32} (h : P (.peerLeave vip))
    (peers : List ServerPeerSnapshot) : ∀ a ∈ leaveActs vip peers, a.Within P := by
  intro a ha
  simp only [leaveActs, List.mem_cons, List.mem_map] at ha
  rcases ha with rfl | ⟨s, -, rfl⟩ <;> simp [h]

theorem within_relayActs {P : Msg → Prop} {payload : Bytes} (h : P (.data payload))
    (peers : List ServerPeerSnapshot) : ∀ a ∈ relayActs payload peers, a.Within P := by
  intro a ha
  simp only [relayActs, List.mem_cons, List.mem_map] at ha
  rcases ha with rfl | ⟨s, -, rfl⟩ <;> simp [h]

theorem within_dataActs {P : Msg → Prop} {payload : Bytes} (h : P (.data payload)) (srv : Server)
    (i : Slot) : ∀ a ∈ dataActs srv payload i, a.Within P := by
  unfold dataActs
  split_ifs
  · simp
  · intro a ha
    rcases List.mem_append.1 ha with ha | ha
    · exact within_relayActs h _ a ha
    · rw [List.mem_singleton.1 ha]; simp
  · split
    · simp
    · exact within_relayActs h _

/-- The server builds no REGISTER. -/
theorem within_serverDispatchLocked (env : Env) (srv : Server) (f : Frame) (src : SockAddr) :
    ∀ a ∈ (serverDispatchLocked env srv f src).2, a.Within fun m => m.type ≠ .register := by
  unfold serverDispatchLocked
  split
  · rcases serverRegisterLocked_cases env srv f.payload src f.sequence with
      ⟨i, -, -, h⟩ | ⟨i, -, -, h⟩ | ⟨-, -, h⟩ | ⟨i, -, -, -, h⟩ <;> rw [h]
    · simp
    · simp [assignActs, Msg.type]
    · simp
    · exact within_joinActs nofun nofun nofun
  · rcases serverDataLocked_cases srv f.payload src with ⟨-, h⟩ | ⟨i, -, h⟩ <;> rw [h]
    · simp
    · exact within_dataActs nofun _ _
  · rcases serverKeepaliveLocked_cases env srv f.payload src with h | ⟨i, _, -, h⟩ <;> rw [h] <;>
      simp [Msg.type]
  · rcases serverKeepaliveAckLocked_cases env srv f.payload src with h | ⟨i, _, -, h⟩ <;> rw [h] <;>
      simp
  · rcases serverDisconnectLocked_cases srv src with ⟨-, h⟩ | ⟨i, -, h⟩ <;> rw [h]
    · simp
    · intro a ha
      rcases List.mem_append.1 ha with ha | ha
      · exact within_leaveActs nofun _ a ha
      · rw [List.mem_singleton.1 ha]; simp
  · simp

theorem Outbox.build_within {P : Msg → Prop} (env : Env) (io : Proc) {m : Msg} (hm : P m) :
    (Outbox.build env io m).1.Within P :=
  have h := Outbox.build_ready env io m
  ⟨h.size, .inr ⟨m, hm, h⟩⟩

theorem within_serverSweepLocked (env : Env) (srv : Server) {box : Outbox}
    (hbox : box.Within fun m => m.type ≠ .register) :
    ∀ a ∈ (serverSweepLocked env srv box).2, a.Within fun m => m.type ≠ .register := by
  unfold serverSweepLocked
  rcases (List.finRange tundMaxPeers).foldl (sweepSlot env.time) (srv, [], []) with
    ⟨srv', timedOut, keepalive⟩
  dsimp only
  intro a ha
  rcases List.mem_append.1 ha with ha | ha
  · obtain ⟨t, -, ha⟩ := List.mem_flatMap.1 ha
    rcases List.mem_cons.1 ha with rfl | ha
    · simp
    · exact within_leaveActs nofun _ a ha
  · obtain ⟨t, -, rfl⟩ := List.mem_map.1 ha
    simpa using hbox

/-- The host's side of an event. -/
def ServerEvent.env : ServerEvent → Env
  | .packet env _ _ => env
  | .sweep env => env
  | .tun env _ => env
  | .shutdown env => env

/-- Every datagram of the server carries a message, and none a REGISTER. -/
theorem serverStep_out (s : ServerState) (e : ServerEvent) :
    ∃ outs, (serverStep s e).io.out = s.io.out ++ outs ∧ ∀ d, Out.datagram d ∈ outs →
      ∃ m : Msg, m.type ≠ .register ∧ d.Carries e.env.aead e.env.key m.type.code m.payload := by
  have key : ∀ (env : Env) (io : Proc) (locked : Server × List Act), io.out = s.io.out →
      (∀ a ∈ locked.2, a.Within fun m => m.type ≠ .register) →
      ∃ outs, (finish env io locked).2.out = s.io.out ++ outs ∧ ∀ d, Out.datagram d ∈ outs →
        ∃ m : Msg, m.type ≠ .register ∧ d.Carries env.aead env.key m.type.code m.payload := by
    intro env io locked hio ha
    obtain ⟨outs, hout, -, hby⟩ := finish_out env io ha
    exact ⟨outs, hio ▸ hout, fun d hd => hby _ hd⟩
  have hnil : ∃ outs, s.io.out = s.io.out ++ outs ∧ ∀ d, Out.datagram d ∈ outs →
      ∃ m : Msg, m.type ≠ .register ∧ d.Carries e.env.aead e.env.key m.type.code m.payload :=
    ⟨[], by simp⟩
  cases e with
  | packet env buf src =>
    simp only [serverStep]
    rcases serverHandlePacket_cases env s.srv s.io buf src with ⟨-, h⟩ | ⟨f, srv₁, -, -, h⟩ <;> rw [h]
    · exact hnil
    · exact key env s.io _ rfl (within_serverDispatchLocked env srv₁ f src)
  | sweep env =>
    have hbox : (Outbox.build env s.io (.keepalive env.nowMs)).1.Within fun m => m.type ≠ .register :=
      Outbox.build_within env s.io fun h => by cases h
    simp only [serverStep, serverSweep_eq]
    exact key env _ _ (Outbox.build_out env s.io _).1 (within_serverSweepLocked env s.srv hbox)
  | tun env pkt =>
    simp only [serverStep, serverTunPacket]
    split
    · exact hnil
    · refine key env s.io _ rfl ?_
      exact within_relayActs (fun h => by cases h) _
  | shutdown env =>
    refine key env s.io _ rfl fun a ha => ?_
    rcases List.mem_cons.1 ha with rfl | ha
    · simp [Msg.type]
    · obtain ⟨t, -, rfl⟩ := List.mem_map.1 ha
      simp

end Tund
