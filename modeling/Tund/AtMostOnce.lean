import Tund.Client.View
import Tund.Server.Isolation

/-!
# At most once

Each sequence number is acted on at most once: by the server within one session of the
endpoint it comes from, by a client over its whole life.

The server acts on a packet from a registered endpoint when the window of its entry
takes the number, whatever the message type, and on a packet from another endpoint when
it is a REGISTER that gets a slot and an address (`ServerActsOn`); on anything else it
does nothing (`serverHandlePacket_of_not_acts`).  Between two acts on one number the
entry of the endpoint must have gone.

The client has one window for the handshake and for everything after it, and acts on a
packet when that window takes its number (`clientActsOn`, `arrivalActs`).  On anything
else the packet handler and the handshake do nothing either
(`clientHandleServerPacket_of_not_acts`, `clientAwait_of_not_acts`).
-/

namespace Tund

/-! ### The server -/

/-- The server acts on a message: the sender's window takes its number, or it registers the
sender. -/
def ServerActsOn (srv : Server) (f : Frame) (src : SockAddr) : Prop :=
  match serverFindPeerByAddr srv src with
  | some i => (protoReplayAccept (srv.peers i).replay f.sequence).1 = true
  | none => f.type = MsgType.register.code ∧ (serverFindFreeSlot srv).isSome ∧ serverAllocIp srv ≠ 0

section Server

variable {env : Env} {srv : Server} {io : Proc} {buf : Bytes} {src : SockAddr} {f : Frame}

theorem serverDispatchLocked_register (hreg : f.type = MsgType.register.code) :
    serverDispatchLocked env srv f src =
      serverRegisterLocked env srv f.payload src f.sequence := by
  unfold serverDispatchLocked
  rw [hreg, MsgType.ofCode_code]

/-- What the server does not act on changes nothing and puts nothing out. -/
theorem serverHandlePacket_of_not_acts (h : ∀ f, readFrame buf = some f → ¬ ServerActsOn srv f src) :
    serverHandlePacket env srv io buf src = (srv, io) := by
  rcases serverHandlePacket_cases env srv io buf src with ⟨-, heq⟩ | ⟨f, srv₁, hread, hacc, heq⟩
  · exact heq
  rw [heq]
  have hno := h f hread
  rcases hacc with ⟨hreg, rfl⟩ | ⟨hreg, hacc⟩
  · rw [serverDispatchLocked_register hreg]
    rcases serverRegisterLocked_cases env srv₁ f.payload src f.sequence with
      ⟨i, -, -, hl⟩ | ⟨i, hi, ha, -⟩ | ⟨-, -, hl⟩ | ⟨i, hnew, hi, hvip, -⟩
    · rw [hl, finish_nil]
    · exact absurd (by simpa [ServerActsOn, hi] using ha) hno
    · rw [hl, finish_nil]
    · exact absurd (by simpa [ServerActsOn, hnew, hi, hreg] using hvip) hno
  · rcases serverAccept_cases srv src f.sequence with ⟨hfind, ha⟩ | ⟨i, -, -, ha⟩ | ⟨i, hi, hok, ha⟩
    · rw [hacc] at ha
      cases ha
      rw [serverDispatchLocked_stranger hfind hreg, finish_nil]
    · rw [hacc] at ha
      cases ha
    · exact absurd (by simpa [ServerActsOn, hi] using hok) hno

/-- The entry of the sender, if it is there after an act, remembers the number. -/
theorem serverHandlePacket_tracks (hwf : srv.WellFormed) (hread : readFrame buf = some f)
    (hacts : ServerActsOn srv f src) {i : Slot}
    (hi : ((serverHandlePacket env srv io buf src).1.peers i).isAt src = true) :
    ∃ log, ((serverHandlePacket env srv io buf src).1.peers i).replay.Tracks log ∧
      f.sequence ∈ log := by
  have hseq := readFrame_sequence hread
  rcases serverHandlePacket_cases env srv io buf src with ⟨hdrop, -⟩ | ⟨f', srv₁, hread', hacc, heq⟩
  · exfalso
    obtain ⟨hreg, hfalse⟩ := hdrop f hread
    rcases serverAccept_cases srv src f.sequence with ⟨-, ha⟩ | ⟨j, hj, hno, -⟩ | ⟨j, -, -, ha⟩
    · rw [ha] at hfalse; cases hfalse
    · simp only [ServerActsOn, hj, hno] at hacts
      cases hacts
    · rw [ha] at hfalse; cases hfalse
  obtain rfl : f' = f := Option.some.inj (hread'.symm.trans hread)
  rw [heq] at hi ⊢
  have hsame := finish_same env io (serverDispatchLocked env srv₁ f' src)
  rw [(hsame.refreshes i).isAt] at hi
  rw [hsame.replay i]
  rcases hacc with ⟨hreg, rfl⟩ | ⟨hreg, hacc⟩
  · -- REGISTER: the handler itself shows the number to the window
    rw [serverDispatchLocked_register hreg] at hi ⊢
    rcases serverRegisterLocked_cases env srv₁ f'.payload src f'.sequence with
      ⟨j, hj, hno, -⟩ | ⟨j, hj, hok, hl⟩ | ⟨hnone, hfull, -⟩ | ⟨j, hnew, hj, hvip, hl⟩
    · simp only [ServerActsOn, hj, hno] at hacts
      cases hacts
    · have hij : i = j := by
        have hr := setPeer_refreshes (Peer.refreshes_heard (Peer.refreshes_shown hok) env.time) i
        rw [hl, hr.isAt] at hi
        exact Option.some.inj ((hwf.find_of_isAt hi).symm.trans hj)
      subst hij
      obtain ⟨-, log, ht⟩ := hwf.window i (active_of_find hj)
      rw [hl, Server.setPeer_self]
      exact ⟨log ++ [f'.sequence], ht.of_accept hok, by simp⟩
    · simp only [ServerActsOn, hnone] at hacts
      rcases hfull with hfull | hfull
      · rw [hfull] at hacts; simp at hacts
      · exact absurd hfull hacts.2.2
    · have hij : i = j := by
        by_contra hne
        simp only [hl, join_peers, if_neg hne] at hi
        rw [find_eq_none_iff.1 hnew i] at hi
        cases hi
      subst hij
      simp only [hl, join_peers, if_pos]
      exact ⟨[f'.sequence], tracks_registered hseq, by simp⟩
  · -- every other type: the check in front of the dispatcher does
    rcases serverAccept_cases srv src f'.sequence with ⟨hfind, -⟩ | ⟨j, -, -, ha⟩ | ⟨j, hj, hok, ha⟩
    · simp only [ServerActsOn, hfind] at hacts
      exact absurd hacts.1 hreg
    · rw [hacc] at ha; cases ha
    rw [hacc] at ha
    obtain rfl := (Prod.mk.inj ha).2
    obtain ⟨-, log, ht⟩ := hwf.window j (active_of_find hj)
    have hrefresh := setPeer_refreshes (Peer.refreshes_shown hok)
    have hwf₁ : (srv.setPeer j ((srv.peers j).shown f'.sequence)).WellFormed :=
      hwf.of_refreshes rfl hrefresh
    have hfind₁ : serverFindPeerByAddr (srv.setPeer j ((srv.peers j).shown f'.sequence)) src =
        some j := hwf₁.find_of_isAt (by rw [(hrefresh j).isAt]; exact isAt_of_find hj)
    rcases (serverDispatchLocked_step env _ f' src).origin (Peer.isAt_iff.1 hi).1 with
      ⟨hact, hp⟩ | ⟨hnone, -⟩
    · have hij : i = j := by
        rw [Peer.isAt, hp.active, hp.realAddr] at hi
        exact Option.some.inj ((hwf₁.find_of_isAt hi).symm.trans hfind₁)
      subst hij
      obtain ⟨log', ht', hsub⟩ := hp.tracks (log ++ [f'.sequence])
        (by rw [Server.setPeer_self]; exact ht.of_accept hok)
      exact ⟨log', ht', hsub _ (by simp)⟩
    · rw [hfind₁] at hnone
      cases hnone

end Server

/-- In a run, as long as the endpoint stays registered, a number that was acted on stays in the
window of its entry. -/
theorem tracks_of_acts (r : ServerRun) {j : ℕ} {env : Env} {buf : Bytes} {src : SockAddr} {f : Frame}
    (hev : r.event j = .packet env buf src) (hread : readFrame buf = some f)
    (hacts : ServerActsOn (r.state j).srv f src) {k : ℕ} (hjk : j < k)
    (hat : ∀ m, j < m → m ≤ k → ∃ i, ((r.state m).srv.peers i).isAt src = true) :
    ∃ i log, ((r.state k).srv.peers i).isAt src = true ∧
      ((r.state k).srv.peers i).replay.Tracks log ∧ f.sequence ∈ log := by
  induction k, hjk using Nat.le_induction with
  | base =>
    obtain ⟨i, hi⟩ := hat (j + 1) (by omega) le_rfl
    have hwf := ServerReachable.wellFormed (r.reachable j)
    rw [r.next, hev] at hi ⊢
    obtain ⟨log, ht, hmem⟩ := serverHandlePacket_tracks hwf hread hacts hi
    exact ⟨i, log, hi, ht, hmem⟩
  | succ k hjk ih =>
    obtain ⟨i, log, hi, ht, hmem⟩ := ih fun m hm hmk => hat m hm (by omega)
    obtain ⟨i', hi'⟩ := hat (k + 1) (by omega) le_rfl
    have hwf := ServerReachable.wellFormed (r.reachable k)
    rw [r.next] at hi' ⊢
    rcases serverStep_origin (Peer.isAt_iff.1 hi').1 with ⟨hact, hp⟩ | ⟨hinact, hreg⟩
    · have hii : i' = i := by
        have hi₀ := hi'
        rw [Peer.isAt, hp.active, hp.realAddr] at hi₀
        exact Option.some.inj ((hwf.find_of_isAt hi₀).symm.trans (hwf.find_of_isAt hi))
      subst hii
      obtain ⟨log', ht', hsub⟩ := hp.tracks log ht
      exact ⟨i', log', hi', ht', hsub _ hmem⟩
    · -- a new entry for the endpoint would need that there was none
      obtain ⟨env', buf', src', f', -, -, -, hnone, haddr, -⟩ := hreg
      obtain ⟨-, ha, hport⟩ := Peer.isAt_iff.1 hi'
      rw [haddr] at ha hport
      have hno := find_eq_none_iff.1 hnone i
      rw [Peer.isAt_congr ha hport, hi] at hno
      cases hno

/-! ### The client -/

/-- The number of a packet that the client acts on: the one its window takes. -/
def clientActsOn (cli : Client) (buf : Bytes) : Option UInt64 :=
  (readFrame buf).bind fun f =>
    if (protoReplayAccept cli.serverReplay f.sequence).1 then some f.sequence else none

/-- The number that an attempt of the handshake acts on. -/
def arrivalActs (env : Env) (cli : Client) : Arrival → List UInt64
  | .datagram wire src =>
    match netRecv env.aead env.key wire with
    | none => []
    | some buf => if netAddrEqual src cli.serverAddr then (clientActsOn cli buf).toList else []
  | _ => []

/-- The numbers that the handshake acts on. -/
def handshakeActs (env : Env) : List Arrival → Client → Proc → List UInt64
  | [], _, _ => []
  | arrival :: arrivals, cli, io =>
    match sendMsg env io (.register cli.name.1) cli.serverAddr with
    | (false, _) => []
    | (true, io) =>
      arrivalActs env cli arrival ++
        match clientAwait env cli arrival with
        | (some _, _) => []
        | (none, cli) => handshakeActs env arrivals cli io

/-- The numbers that the client acts on over a sequence of packets. -/
def packetActs : List (Env × Bytes) → Client → Proc → List UInt64
  | [], _, _ => []
  | (env, buf) :: packets, cli, io =>
    (clientActsOn cli buf).toList ++
      packetActs packets (clientHandleServerPacket env cli io buf).1
        (clientHandleServerPacket env cli io buf).2

section Client

variable {env : Env} {cli : Client} {io : Proc} {buf : Bytes}

/-- The two ways through `client_handle_server_packet`: nothing happens, or the window takes the
number and the handler runs. -/
theorem clientHandleServerPacket_cases (env : Env) (cli : Client) (io : Proc) (buf : Bytes) :
    (clientActsOn cli buf = none ∧ clientHandleServerPacket env cli io buf = (cli, io)) ∨
    ∃ f, readFrame buf = some f ∧ clientActsOn cli buf = some f.sequence ∧
      (protoReplayAccept cli.serverReplay f.sequence).1 = true ∧
      clientHandleServerPacket env cli io buf =
        clientDispatch env (clientMarkServerSeen env { cli with
          serverReplay := (protoReplayAccept cli.serverReplay f.sequence).2 }) io f := by
  cases hread : readFrame buf with
  | none => exact .inl ⟨by simp [clientActsOn, hread], by simp only [clientHandleServerPacket, hread]⟩
  | some f =>
    rcases hacc : protoReplayAccept cli.serverReplay f.sequence with ⟨_ | _, w⟩
    · have hw := protoReplayAccept_of_false (w := cli.serverReplay) (s := f.sequence) (by rw [hacc])
      rw [hacc] at hw
      obtain rfl := (Prod.mk.inj hw).2
      exact .inl ⟨by simp [clientActsOn, hread, hacc], by
        simp only [clientHandleServerPacket, hread, hacc]⟩
    · exact .inr ⟨f, rfl, by simp [clientActsOn, hread, hacc], by rw [hacc], by
        simp only [clientHandleServerPacket, hread, hacc]⟩

theorem clientRegisterReply_cases (cli : Client) (buf : Bytes) :
    (clientActsOn cli buf = none ∧ clientRegisterReply cli buf = (false, cli)) ∨
    ∃ f, readFrame buf = some f ∧ clientActsOn cli buf = some f.sequence ∧
      (protoReplayAccept cli.serverReplay f.sequence).1 = true ∧
      clientRegisterReply cli buf =
        (let cli := { cli with
          serverReplay := (protoReplayAccept cli.serverReplay f.sequence).2 }
        if f.type = MsgType.assign.code then handleAssign cli f.payload else (false, cli)) := by
  cases hread : readFrame buf with
  | none => exact .inl ⟨by simp [clientActsOn, hread], by simp only [clientRegisterReply, hread]⟩
  | some f =>
    rcases hacc : protoReplayAccept cli.serverReplay f.sequence with ⟨_ | _, w⟩
    · have hw := protoReplayAccept_of_false (w := cli.serverReplay) (s := f.sequence) (by rw [hacc])
      rw [hacc] at hw
      obtain rfl := (Prod.mk.inj hw).2
      exact .inl ⟨by simp [clientActsOn, hread, hacc], by
        simp only [clientRegisterReply, hread, hacc]⟩
    · exact .inr ⟨f, rfl, by simp [clientActsOn, hread, hacc], by rw [hacc], by
        simp only [clientRegisterReply, hread, hacc]⟩

/-- What the client does not act on changes nothing and puts nothing out. -/
theorem clientHandleServerPacket_of_not_acts (h : clientActsOn cli buf = none) :
    clientHandleServerPacket env cli io buf = (cli, io) := by
  rcases clientHandleServerPacket_cases env cli io buf with ⟨-, heq⟩ | ⟨f, -, hacts, -, -⟩
  · exact heq
  · rw [h] at hacts
    cases hacts

theorem clientRegisterReply_of_not_acts (h : clientActsOn cli buf = none) :
    clientRegisterReply cli buf = (false, cli) := by
  rcases clientRegisterReply_cases cli buf with ⟨-, heq⟩ | ⟨f, -, hacts, -, -⟩
  · exact heq
  · rw [h] at hacts
    cases hacts

/-- What an attempt of the handshake does not act on changes nothing and does not register. -/
theorem clientAwait_of_not_acts {arrival : Arrival} (h : arrivalActs env cli arrival = []) :
    (clientAwait env cli arrival).2 = cli ∧ (clientAwait env cli arrival).1 ≠ some true := by
  have hgoes : (none : Option Bool) ≠ some true := (Option.some_ne_none true).symm
  cases arrival with
  | pollError => exact ⟨rfl, by simp [clientAwait]⟩
  | silence => exact ⟨rfl, hgoes⟩
  | recvError => exact ⟨rfl, hgoes⟩
  | datagram wire src =>
    simp only [arrivalActs] at h
    simp only [clientAwait]
    cases hrecv : netRecv env.aead env.key wire with
    | none => exact ⟨rfl, hgoes⟩
    | some buf =>
      simp only [hrecv] at h
      dsimp only
      split_ifs at h ⊢ with haddr
      · rw [clientRegisterReply_of_not_acts (Option.toList_eq_nil_iff.1 h)]
        exact ⟨rfl, hgoes⟩
      · exact ⟨rfl, hgoes⟩

theorem handleAssign_replay (cli : Client) (payload : Bytes) :
    (handleAssign cli payload).2.serverReplay = cli.serverReplay := by
  unfold handleAssign
  split_ifs <;> rfl

/-- One packet: the window stands for the numbers acted on. -/
theorem clientHandleServerPacket_tracks {log : List UInt64} (h : cli.serverReplay.Tracks log) :
    (clientHandleServerPacket env cli io buf).1.serverReplay.Tracks
      (log ++ (clientActsOn cli buf).toList) := by
  rcases clientHandleServerPacket_cases env cli io buf with ⟨hacts, heq⟩ | ⟨f, -, hacts, hacc, heq⟩ <;>
    rw [hacts, heq]
  · simpa using h
  · rw [(clientDispatch_keeps _ _ _ _).serverReplay, (clientMarkServerSeen_keeps _ _).serverReplay]
    exact h.of_accept hacc

theorem clientRegisterReply_tracks (buf : Bytes) {log : List UInt64} (h : cli.serverReplay.Tracks log) :
    (clientRegisterReply cli buf).2.serverReplay.Tracks (log ++ (clientActsOn cli buf).toList) := by
  rcases clientRegisterReply_cases cli buf with ⟨hacts, heq⟩ | ⟨f, -, hacts, hacc, heq⟩ <;>
    rw [hacts, heq]
  · simpa using h
  · dsimp only
    split_ifs
    · rw [handleAssign_replay]
      exact h.of_accept hacc
    · exact h.of_accept hacc

/-- A sequence of packets. -/
theorem packetActs_nodup {log : List UInt64} (h : cli.serverReplay.Tracks log)
    (packets : List (Env × Bytes)) : (log ++ packetActs packets cli io).Nodup := by
  induction packets generalizing cli io log with
  | nil => simpa [packetActs] using h.nodup
  | cons p packets ih =>
    obtain ⟨env, buf⟩ := p
    rw [packetActs, ← List.append_assoc]
    exact ih (clientHandleServerPacket_tracks h)

theorem clientAwait_tracks (env : Env) (arrival : Arrival) {log : List UInt64}
    (h : cli.serverReplay.Tracks log) :
    (clientAwait env cli arrival).2.serverReplay.Tracks (log ++ arrivalActs env cli arrival) := by
  cases arrival with
  | datagram wire src =>
    simp only [clientAwait, arrivalActs]
    cases hrecv : netRecv env.aead env.key wire with
    | none => simpa using h
    | some buf =>
      dsimp only
      split_ifs with haddr
      · have hreply := clientRegisterReply_tracks buf h
        rcases hr : clientRegisterReply cli buf with ⟨_ | _, cli₁⟩ <;> rw [hr] at hreply <;> exact hreply
      · simpa using h
  | _ => simpa [clientAwait, arrivalActs] using h

/-- The handshake. -/
theorem clientRegisterLoop_tracks (env : Env) (arrivals : List Arrival) {cli : Client} (io : Proc)
    {log : List UInt64} (h : cli.serverReplay.Tracks log) :
    (clientRegisterLoop env arrivals cli io).2.1.serverReplay.Tracks
      (log ++ handshakeActs env arrivals cli io) := by
  induction arrivals generalizing cli io log with
  | nil => simpa [clientRegisterLoop, handshakeActs] using h
  | cons arrival arrivals ih =>
    rw [clientRegisterLoop, handshakeActs]
    rcases sendMsg env io (.register cli.name.1) cli.serverAddr with ⟨_ | _, io₁⟩
    · simpa using h
    have hawait := clientAwait_tracks env arrival h
    rcases ha : clientAwait env cli arrival with ⟨_ | registered, cli₁⟩ <;> rw [ha] at hawait
    · dsimp only
      rw [← List.append_assoc]
      exact ih io₁ hawait
    · simpa using hawait

end Client

/-- **At most once.**  In every run of the server, two acts on one number from one endpoint are
separated by a moment at which the endpoint has no entry; a packet that the server does not act on
leaves server and process as they are; a client acts on no number twice, from the first reply of
its handshake on; and a packet that the client does not act on leaves client and process as they
are, and in the handshake neither changes the client nor registers it. -/
theorem at_most_once :
    (∀ (r : ServerRun) (j k : ℕ) (env env' : Env) (buf buf' : Bytes) (src src' : SockAddr)
      (f f' : Frame), j < k →
      r.event j = .packet env buf src → readFrame buf = some f →
      ServerActsOn (r.state j).srv f src →
      r.event k = .packet env' buf' src' → readFrame buf' = some f' →
      ServerActsOn (r.state k).srv f' src' →
      src.sinAddr = src'.sinAddr → src.sinPort = src'.sinPort → f.sequence = f'.sequence →
      ∃ m, j < m ∧ m ≤ k ∧ ∀ i, ((r.state m).srv.peers i).isAt src = false) ∧
    (∀ (env : Env) (srv : Server) (io : Proc) (buf : Bytes) (src : SockAddr),
      (∀ f, readFrame buf = some f → ¬ ServerActsOn srv f src) →
      serverHandlePacket env srv io buf src = (srv, io)) ∧
    (∀ (env : Env) (serverAddr : SockAddr) (name : Bytes) (io : Proc) (arrivals : ℕ → Arrival)
      (packets : List (Env × Bytes)),
      let cli := clientInit serverAddr name
      let r := clientRegister env cli io arrivals
      (handshakeActs env ((List.range tundRegisterRetries).map arrivals) cli io ++
        packetActs packets r.2.1 r.2.2).Nodup) ∧
    (∀ (env : Env) (cli : Client) (io : Proc) (buf : Bytes), clientActsOn cli buf = none →
      clientHandleServerPacket env cli io buf = (cli, io)) ∧
    (∀ (cli : Client) (buf : Bytes), clientActsOn cli buf = none →
      clientRegisterReply cli buf = (false, cli)) ∧
    ∀ (env : Env) (cli : Client) (arrival : Arrival), arrivalActs env cli arrival = [] →
      (clientAwait env cli arrival).2 = cli ∧ (clientAwait env cli arrival).1 ≠ some true := by
  refine ⟨?_, fun _ _ _ _ _ => serverHandlePacket_of_not_acts, ?_,
    fun _ _ _ _ => clientHandleServerPacket_of_not_acts,
    fun _ _ => clientRegisterReply_of_not_acts, fun _ _ _ => clientAwait_of_not_acts⟩
  · intro r j k env env' buf buf' src src' f f' hjk hev hread hacts hev' hread' hacts' haddr hport hseq
    by_contra hno
    push Not at hno
    have hat : ∀ m, j < m → m ≤ k → ∃ i, ((r.state m).srv.peers i).isAt src = true := by
      intro m hm hmk
      obtain ⟨i, hi⟩ := hno m hm hmk
      exact ⟨i, by simpa using hi⟩
    obtain ⟨i, log, hi, ht, hmem⟩ := tracks_of_acts r hev hread hacts hjk hat
    have hwf := ServerReachable.wellFormed (r.reachable k)
    rw [Peer.isAt_congr haddr hport] at hi
    simp only [ServerActsOn, hwf.find_of_isAt hi] at hacts'
    exact ht.not_mem_of_accept hacts' (hseq ▸ hmem)
  · intro env serverAddr name io arrivals packets
    have hinit : (clientInit serverAddr name).serverReplay.Tracks [] := tracks_reset
    have h := clientRegisterLoop_tracks env ((List.range tundRegisterRetries).map arrivals) io hinit
    rw [List.nil_append] at h
    exact packetActs_nodup h packets

/-- A peer registers with number 7, leaves, and registers with number 7 again. -/
def rejoiningPeer : ℕ → ServerEvent
  | 0 => .packet (Env.plain 100 5)
      (frameBytes MsgType.register.code 7 (List.replicate tundNonceSize 0) [97]) ⟨2, 1, 1⟩
  | 1 => .packet (Env.plain 101 5)
      (frameBytes MsgType.disconnect.code 8 (List.replicate tundNonceSize 0) []) ⟨2, 1, 1⟩
  | 2 => .packet (Env.plain 102 5)
      (frameBytes MsgType.register.code 7 (List.replicate tundNonceSize 0) [97]) ⟨2, 1, 1⟩
  | _ => .sweep (Env.plain 103 5)

theorem rejoiningPeer_ok (s : ServerState) (k : ℕ) : serverOk s (rejoiningPeer k) := by
  match k with
  | 0 | 1 | 2 => simp only [rejoiningPeer, serverOk]; decide
  | _ + 3 => trivial

/-- The server acts on the number twice, and the entry is gone in between. -/
theorem at_most_once_rejoined :
    ∃ r : ServerRun, r.event = rejoiningPeer ∧
      ∃ m, 0 < m ∧ m ≤ 2 ∧ ∀ i, ((r.state m).srv.peers i).isAt ⟨2, 1, 1⟩ = false := by
  let start : ServerState := ⟨serverInit, Proc.start⟩
  obtain ⟨r, hr, hev⟩ : ∃ r : ServerRun,
      r.state = Trace.stateAt serverStep start rejoiningPeer ∧ r.event = rejoiningPeer :=
    ⟨.ofEvents start rejoiningPeer rfl fun k => rejoiningPeer_ok _ k, rfl, rfl⟩
  -- before each REGISTER the endpoint has no entry, and a slot and an address are free
  have hnew : ∀ k, k = 0 ∨ k = 2 → serverFindPeerByAddr (r.state k).srv ⟨2, 1, 1⟩ = none ∧
      (serverFindFreeSlot (r.state k).srv).isSome ∧ serverAllocIp (r.state k).srv ≠ 0 := by
    rw [hr]
    rintro k (rfl | rfl) <;> decide +kernel
  have hacts : ∀ k, k = 0 ∨ k = 2 →
      ServerActsOn (r.state k).srv ⟨MsgType.register.code, [97], 7⟩ ⟨2, 1, 1⟩ := by
    intro k hk
    obtain ⟨hnone, hfree⟩ := hnew k hk
    simp only [ServerActsOn, hnone]
    exact ⟨trivial, hfree⟩
  have hread : readFrame (frameBytes MsgType.register.code 7 (List.replicate tundNonceSize 0) [97]) =
      some ⟨MsgType.register.code, [97], 7⟩ :=
    readFrame_frameBytes (by decide) (by decide) (by decide)
  refine ⟨r, hev, at_most_once.1 r 0 2 (Env.plain 100 5) (Env.plain 102 5) _ _ ⟨2, 1, 1⟩ ⟨2, 1, 1⟩
    _ _ (by decide) ?_ hread (hacts 0 (.inl rfl)) ?_ hread (hacts 2 (.inr rfl)) rfl rfl rfl⟩
  · rw [hev]; rfl
  · rw [hev]; rfl

end Tund
