import Tund.Network.World
import Tund.Sending
import Tund.Server.News

/-!
# The threads of the server

The receive loop, the timeout thread and the TUN thread share the table and the process.
Each locked section is one step, and so is each act that follows it: `HubEvent`,
`hubStep`.  The whole handlers of `Tund.Server.Handlers` are the runs of one thread while
the others rest (`hub_packet_alone`, `hub_sweep_alone`).

`Handled` lists what the locked section of a packet can do to the table, together with
what is then said about it; `Server.WellFormed.swept` is the same for the timeout thread.
-/

namespace Tund

open Replica

/-! ### What is said about a locked section -/

/-- What an act prints for the GUI. -/
def Act.prints : Act → List (Op UInt32 HostPeer)
  | .event e => [e.op]
  | _ => []

/-- What a list of acts prints for the GUI. -/
def printsOf (acts : List Act) : List (Op UInt32 HostPeer) := acts.flatMap Act.prints

/-- The table as the GUI shows it. -/
def Server.hosts (srv : Server) : HostPeerTracker :=
  srv.listing (fun _ => false) fun p => ⟨p.cName, p.realAddr⟩

theorem stable_hosts : Stable (fun _ => false) fun p : Peer => HostPeer.mk p.cName p.realAddr := by
  intro p p' h
  exact ⟨rfl, by simp only [Peer.cName, h.name, h.realAddr]⟩

/-- What the locked section of a packet from `src` leaves: entries that stay and nothing to say
about them, a new entry, or one entry less. -/
inductive Handled (env : Env) (srv : Server) (src : SockAddr) (f : Frame) :
    Server × List Act → Prop
  | quiet {srv' : Server} {acts : List Act} (hcount : srv'.peerCount = srv.peerCount)
      (hstay : ∀ i, (srv.peers i).Refreshes (srv'.peers i))
      (hbuild : ∀ m, .build m ∈ acts → m.note.ops = []) (hprints : ∀ e, .event e ∉ acts)
      (hprobe : ∀ box dest, .probe box dest ∉ acts) : Handled env srv src f (srv', acts)
  | join (i : Slot) (htype : f.type = MsgType.register.code)
      (hnew : serverFindPeerByAddr srv src = none)
      (hi : serverFindFreeSlot srv = some i) (hvip : serverAllocIp srv ≠ 0) (p : Peer)
      (hp : p = registeredPeer env i (serverAllocIp srv) f.payload src f.sequence) :
      Handled env srv src f
        (srv.join i p, joinActs p (serverSnapshotBroadcastLocked (srv.join i p) (some i)))
  | leave (i : Slot) (hi : serverFindPeerByAddr srv src = some i) :
      Handled env srv src f
        (srv.leave i, leaveActs (srv.peers i).virtIp
          (serverSnapshotBroadcastLocked (srv.leave i) none) ++
          [.event (.peerLeave (srv.peers i).virtIp .disconnect)])

theorem handled_same {env : Env} {srv : Server} {src : SockAddr} {f : Frame} :
    Handled env srv src f (srv, []) :=
  .quiet rfl (fun _ => .refl _) (by simp) (by simp) (by simp)

theorem quiet_relayActs (payload : Bytes) (peers : List ServerPeerSnapshot) :
    (∀ m, .build m ∈ relayActs payload peers → m.note.ops = []) ∧
    (∀ e, .event e ∉ relayActs payload peers) ∧
    ∀ box dest, .probe box dest ∉ relayActs payload peers := by
  have hmem : ∀ a ∈ relayActs payload peers, a = .build (.data payload) ∨ ∃ s n, a = .forward s n := by
    intro a ha
    rcases List.mem_cons.1 ha with ha | ha
    · exact .inl ha
    · obtain ⟨s, -, hs⟩ := List.mem_map.1 ha
      exact .inr ⟨s, _, hs.symm⟩
  refine ⟨fun m hm => ?_, fun e he => ?_, fun box dest hp => ?_⟩
  · rcases hmem _ hm with h | ⟨s, n, h⟩ <;> cases h
    rfl
  · rcases hmem _ he with h | ⟨s, n, h⟩ <;> cases h
  · rcases hmem _ hp with h | ⟨s, n, h⟩ <;> cases h

theorem quiet_dataActs (srv : Server) (payload : Bytes) (i : Slot) :
    (∀ m, .build m ∈ dataActs srv payload i → m.note.ops = []) ∧
    (∀ e, .event e ∉ dataActs srv payload i) ∧
    ∀ box dest, .probe box dest ∉ dataActs srv payload i := by
  unfold dataActs
  split_ifs
  · simp
  · refine ⟨fun m hm => ?_, fun e he => ?_, fun box dest hp => ?_⟩
    · rcases List.mem_append.1 hm with hm | hm
      · exact (quiet_relayActs _ _).1 m hm
      · simp at hm
    · rcases List.mem_append.1 he with he | he
      · exact (quiet_relayActs _ _).2.1 e he
      · simp at he
    · rcases List.mem_append.1 hp with hp | hp
      · exact (quiet_relayActs _ _).2.2 box dest hp
      · simp at hp
  · split
    · simp
    · exact quiet_relayActs _ _

/-- There is nothing else a packet can do. -/
theorem serverDispatchLocked_handled (env : Env) (srv : Server) (f : Frame) (src : SockAddr) :
    Handled env srv src f (serverDispatchLocked env srv f src) := by
  unfold serverDispatchLocked
  split
  · rename_i htype
    rcases serverRegisterLocked_cases env srv f.payload src f.sequence with
      ⟨i, -, -, h⟩ | ⟨i, -, hacc, h⟩ | ⟨-, -, h⟩ | ⟨i, hnew, hi, hvip, h⟩ <;> rw [h]
    · exact handled_same
    · refine .quiet rfl (setPeer_refreshes ?_) ?_ ?_ ?_
      · exact Peer.refreshes_heard (Peer.refreshes_shown hacc) env.time
      · intro m hm
        simp only [assignActs, List.mem_cons, List.not_mem_nil, or_false, Act.build.injEq,
          reduceCtorEq] at hm
        rw [hm]
        rfl
      · simp [assignActs]
      · simp [assignActs]
    · exact handled_same
    · exact .join i (MsgType.ofCode_eq_some_iff.1 htype) hnew hi hvip _ rfl
  · rcases serverDataLocked_cases srv f.payload src with ⟨-, h⟩ | ⟨i, -, h⟩ <;> rw [h]
    · exact handled_same
    · obtain ⟨hbuild, hevent, hprobe⟩ :=
        quiet_dataActs (srv.countIn i f.payload.length) f.payload i
      exact .quiet rfl (countIn_refreshes srv i _) hbuild hevent hprobe
  · rcases serverKeepaliveLocked_cases env srv f.payload src with h | ⟨i, sentAt, -, h⟩ <;> rw [h]
    · exact handled_same
    · refine .quiet rfl (setPeer_refreshes ⟨rfl, rfl, rfl, rfl, .inl rfl⟩) ?_ (by simp) (by simp)
      intro m hm
      simp only [List.mem_cons, List.not_mem_nil, or_false, Act.build.injEq, reduceCtorEq] at hm
      rw [hm]
      rfl
  · rcases serverKeepaliveAckLocked_cases env srv f.payload src with h | ⟨i, _, -, h⟩ <;> rw [h]
    · exact handled_same
    · exact .quiet rfl (setPeer_refreshes ⟨rfl, rfl, rfl, rfl, .inl rfl⟩) (by simp) (by simp)
        (by simp)
  · rcases serverDisconnectLocked_cases srv src with ⟨-, h⟩ | ⟨i, hi, h⟩ <;> rw [h]
    · exact handled_same
    · exact .leave i hi
  · exact handled_same

/-! ### Sweeps -/

/-- The table and the peers that timed out, part of the way through a sweep. -/
structure Swept (srv : Server) (acc : Server × List ServerPeerSnapshot × List ServerPeerSnapshot) :
    Prop where
  wellFormed : acc.1.WellFormed
  kept : ∀ i, (acc.1.peers i).active = true → acc.1.peers i = srv.peers i
  listing : ∀ {ν : Type} (skip : Peer → Bool) (f : Peer → ν) (v : UInt32),
    acc.1.listing skip f v =
      if v ∈ acc.2.1.map ServerPeerSnapshot.virtIp then none else srv.listing skip f v

theorem Swept.slot {srv : Server} {acc : Server × List ServerPeerSnapshot × List ServerPeerSnapshot}
    (h : Swept srv acc) (now : ℤ) (i : Slot) : Swept srv (sweepSlot now acc i) := by
  obtain ⟨cur, timedOut, keepalive⟩ := acc
  unfold sweepSlot
  simp only
  split_ifs with htime hact
  · have hacti := active_of_timedOut htime
    refine ⟨h.wellFormed.leave hacti, fun j hj => ?_, fun skip f v => ?_⟩
    · obtain ⟨hj', -, heq⟩ := of_leave_active hj
      rw [heq]
      exact h.kept j hj'
    · have hcur := h.listing skip f v
      rw [h.wellFormed.listing_leave hacti]
      simp only at hcur ⊢
      rw [hcur]
      simp only [List.map_append, List.map_singleton, List.mem_append, List.mem_singleton,
        serverSnapshotPeerLocked]
      by_cases hv : v = (cur.peers i).virtIp
      · simp [hv]
      · simp [hv]
  · exact ⟨h.wellFormed, h.kept, h.listing⟩
  · exact h

theorem Server.WellFormed.swept {srv : Server} (h : srv.WellFormed) (now : ℤ) (slots : List Slot) :
    Swept srv (slots.foldl (sweepSlot now) (srv, [], [])) := by
  have hall : ∀ acc, Swept srv acc → Swept srv (slots.foldl (sweepSlot now) acc) := by
    induction slots with
    | nil => exact fun acc hacc => hacc
    | cons i slots ih => exact fun acc hacc => ih _ (hacc.slot now i)
  exact hall _ ⟨h, fun _ _ => rfl, fun skip f v => by simp⟩

/-! ### The threads -/

/-- The threads that read and write the table. -/
inductive ThreadId
  | receive
  | timeout
  | tun
  deriving DecidableEq

/-- A thread between two steps: its buffer, the message that was last built into it, and the acts
that it still has to do.  Only statements look at `msg`. -/
structure Thread where
  box : Outbox
  msg : Option Msg
  acts : List Act

/-- A thread that has just left its locked section. -/
def Thread.begin (acts : List Act) : Thread := ⟨.fresh, none, acts⟩

/-- The server with its threads; `accepted` is a packet whose number the receive loop has accepted
and whose handler comes next. -/
structure Hub where
  srv : Server
  io : Proc
  accepted : Option (Frame × SockAddr)
  threads : ThreadId → Thread

/-- The server before its first event. -/
def Hub.start : Hub := ⟨serverInit, Proc.start, none, fun _ => .begin []⟩

/-- The thread has nothing left to do. -/
def Hub.rests (h : Hub) (t : ThreadId) : Bool := (h.threads t).acts.isEmpty

/-- One step of one thread. -/
inductive HubEvent
  /-- `net_recv`, the header and `server_accept_registered_sequence`. -/
  | receive (env : Env) (wire : Bytes) (src : SockAddr)
  /-- The locked section of the handler. -/
  | dispatch (env : Env)
  /-- The timeout thread builds its probe and goes through its locked section. -/
  | sweep (env : Env)
  /-- The TUN thread reads a packet and looks up its receivers. -/
  | tun (env : Env) (pkt : Bytes)
  /-- The next act of a thread. -/
  | act (env : Env) (t : ThreadId)

/-- A thread starts on new acts. -/
def Hub.begin (h : Hub) (t : ThreadId) (srv : Server) (acts : List Act) : Hub :=
  { h with srv := srv, threads := Function.update h.threads t (.begin acts) }

/-- The peers that get a packet of the TUN device. -/
def tunPeers (srv : Server) (pkt : Bytes) : List ServerPeerSnapshot :=
  if protoGetDstIp pkt = htonl tundBroadcast then serverSnapshotBroadcastLocked srv none
  else (serverSnapshotPeerByVipLocked srv (protoGetDstIp pkt)).toList

/-- The next act `a` of thread `t`, with `acts` after it. -/
def Hub.doAct (h : Hub) (env : Env) (t : ThreadId) (a : Act) (acts : List Act) : Hub :=
  let th := h.threads t
  let w := a.exec env ⟨h.srv, h.io, th.box⟩
  { h with
    srv := w.srv
    io := w.io
    threads := Function.update h.threads t ⟨w.box, a.load th.msg, acts⟩ }

/-- The server after a step; a thread that is not there yet stays where it is. -/
def hubStep (h : Hub) : HubEvent → Hub
  | .receive env wire src =>
    if !h.rests .receive || h.accepted.isSome then h
    else
      match (netRecv env.aead env.key wire).bind readFrame with
      | none => h
      | some f =>
        if f.type ≠ MsgType.register.code then
          match serverAcceptRegisteredSequence h.srv src f.sequence with
          | (false, srv) => { h with srv := srv }
          | (true, srv) => { h with srv := srv, accepted := some (f, src) }
        else { h with accepted := some (f, src) }
  | .dispatch env =>
    match h.accepted with
    | none => h
    | some (f, src) =>
      let locked := serverDispatchLocked env h.srv f src
      { h.begin .receive locked.1 locked.2 with accepted := none }
  | .sweep env =>
    if !h.rests .timeout then h
    else
      let keepalive := Outbox.build env h.io (.keepalive env.nowMs)
      let locked := serverSweepLocked env h.srv keepalive.1
      { h.begin .timeout locked.1 locked.2 with io := keepalive.2 }
  | .tun _ pkt =>
    if !h.rests .tun then h
    else
      match protoValidateIpv4Packet pkt with
      | some _ => h
      | none => h.begin .tun h.srv (relayActs pkt (tunPeers h.srv pkt))
  | .act env t =>
    match (h.threads t).acts with
    | [] => h
    | a :: acts => h.doAct env t a acts

/-! ### The table under the threads -/

/-- What a step of any thread can do to the table. -/
inductive TableMove (h : Hub) : HubEvent → Server → Prop
  /-- Nothing but `bytes_out` has moved. -/
  | same (e : HubEvent) {srv : Server} (hidle : ∀ env, e = .dispatch env → h.accepted = none)
      (hsame : h.srv.SameButBytesOut srv) : TableMove h e srv
  /-- The number of a packet was accepted for the sender's entry. -/
  | accept (env : Env) (wire : Bytes) (src : SockAddr) (f : Frame) (i : Slot)
      (hread : (netRecv env.aead env.key wire).bind readFrame = some f)
      (hi : serverFindPeerByAddr h.srv src = some i)
      (hfresh : (protoReplayAccept (h.srv.peers i).replay f.sequence).1 = true) :
      TableMove h (.receive env wire src) (h.srv.setPeer i ((h.srv.peers i).shown f.sequence))
  /-- The locked section of a handler. -/
  | handle (env : Env) (f : Frame) (src : SockAddr) (hacc : h.accepted = some (f, src)) :
      TableMove h (.dispatch env) (serverDispatchLocked env h.srv f src).1
  /-- The locked section of the timeout thread. -/
  | sweep (env : Env) (box : Outbox) (hrest : h.rests .timeout = true) :
      TableMove h (.sweep env) (serverSweepLocked env h.srv box).1

theorem hubStep_table (h : Hub) (e : HubEvent) : TableMove h e (hubStep h e).srv := by
  cases e with
  | receive env wire src =>
    simp only [hubStep]
    split_ifs
    · exact .same _ nofun (.refl _)
    cases hread : (netRecv env.aead env.key wire).bind readFrame with
    | none => exact .same _ nofun (.refl _)
    | some f =>
      simp only
      split_ifs
      · rcases serverAccept_cases h.srv src f.sequence with
          ⟨-, hacc⟩ | ⟨i, -, -, hacc⟩ | ⟨i, hi, hfresh, hacc⟩ <;> rw [hacc]
        · exact .same _ nofun (.refl _)
        · exact .same _ nofun (.refl _)
        · exact .accept env wire src f i hread hi hfresh
      · exact .same _ nofun (.refl _)
  | dispatch env =>
    simp only [hubStep]
    cases hacc : h.accepted with
    | none => exact .same _ (fun _ _ => hacc) (.refl _)
    | some p => exact .handle env p.1 p.2 hacc
  | sweep env =>
    simp only [hubStep]
    split_ifs with hrest
    · exact .same _ nofun (.refl _)
    · have hm := TableMove.sweep env (Outbox.build env h.io (.keepalive env.nowMs)).1
        (by simpa using hrest)
      generalize serverSweepLocked env h.srv _ = locked at hm ⊢
      exact hm
  | tun env pkt =>
    simp only [hubStep]
    split_ifs
    · exact .same _ nofun (.refl _)
    · split
      · exact .same _ nofun (.refl _)
      · exact .same _ nofun (.refl _)
  | act env t =>
    simp only [hubStep]
    cases hacts : (h.threads t).acts with
    | nil => exact .same _ nofun (.refl _)
    | cons a acts => exact .same _ nofun (a.exec_same env _)

/-! ### One thread alone -/

/-- The server after several steps. -/
def hubRun (h : Hub) (es : List HubEvent) : Hub := es.foldl hubStep h

/-- All acts of a thread, one after the other. -/
theorem hub_acts_alone (env : Env) (h : Hub) (t : ThreadId) :
    ∃ n, ∃ h' : Hub, hubRun h (List.replicate n (.act env t)) = h' ∧
      h'.srv = (runActs env ⟨h.srv, h.io, (h.threads t).box⟩ (h.threads t).acts).srv ∧
      h'.io = (runActs env ⟨h.srv, h.io, (h.threads t).box⟩ (h.threads t).acts).io ∧
      h'.accepted = h.accepted ∧ h'.rests t = true := by
  generalize hacts : (h.threads t).acts = acts
  induction acts generalizing h with
  | nil => exact ⟨0, h, rfl, rfl, rfl, rfl, by simp [Hub.rests, hacts]⟩
  | cons a acts ih =>
    have hstep : hubStep h (.act env t) = h.doAct env t a acts := by
      simp only [hubStep, hacts]
    have hthread : (h.doAct env t a acts).threads t =
        ⟨(a.exec env ⟨h.srv, h.io, (h.threads t).box⟩).box, a.load (h.threads t).msg, acts⟩ := by
      simp [Hub.doAct]
    obtain ⟨n, h', hrun, hsrv, hio, hacc, hrest⟩ := ih (h.doAct env t a acts) (by rw [hthread])
    rw [hthread] at hsrv hio
    refine ⟨n + 1, h', ?_, hsrv, hio, hacc, hrest⟩
    rw [List.replicate_succ, hubRun, List.foldl_cons, hstep]
    exact hrun

/-- What is left to do after a locked section. -/
theorem hub_finish_alone (env : Env) (h : Hub) (t : ThreadId) (srv : Server) (acts : List Act) :
    ∃ n, ∃ h' : Hub, hubRun (h.begin t srv acts) (List.replicate n (.act env t)) = h' ∧
      (h'.srv, h'.io) = finish env h.io (srv, acts) ∧ h'.accepted = h.accepted ∧
      h'.rests t = true := by
  obtain ⟨n, h', hrun, hsrv, hio, hacc, hrest⟩ := hub_acts_alone env (h.begin t srv acts) t
  have hthread : (h.begin t srv acts).threads t = .begin acts := by simp [Hub.begin]
  rw [hthread] at hsrv hio
  exact ⟨n, h', hrun, by rw [hsrv, hio]; rfl, hacc, hrest⟩

/-- **Packets.**  A packet that the receive loop handles while the other threads rest is handled
as `server_handle_packet` does. -/
theorem hub_packet_alone (env : Env) (h : Hub) (hrest : h.rests .receive = true)
    (hacc : h.accepted = none) (wire : Bytes) (src : SockAddr) :
    ∃ n, ∃ h' : Hub, hubRun h (.receive env wire src :: .dispatch env ::
        List.replicate n (.act env .receive)) = h' ∧
      ServerState.mk h'.srv h'.io = serverReceive env ⟨h.srv, h.io⟩ wire src ∧
      h'.accepted = none ∧ h'.rests .receive = true := by
  -- what the handler of an accepted packet does, and that a dropped packet has none
  have hdispatch : ∀ (srv : Server) (f : Frame),
      hubStep h (.receive env wire src) = { h with srv := srv, accepted := some (f, src) } →
      ∃ n, ∃ h' : Hub, hubRun h (.receive env wire src :: .dispatch env ::
          List.replicate n (.act env .receive)) = h' ∧
        (h'.srv, h'.io) = finish env h.io (serverDispatchLocked env srv f src) ∧
        h'.accepted = none ∧ h'.rests .receive = true := by
    intro srv f hstep
    obtain ⟨n, h', hrun, hfin, hnone, hrests⟩ := hub_finish_alone env { h with accepted := none }
      .receive (serverDispatchLocked env srv f src).1 (serverDispatchLocked env srv f src).2
    refine ⟨n, h', ?_, hfin, hnone, hrests⟩
    rw [hubRun, List.foldl_cons, hstep]
    exact hrun
  have hdrop : ∀ srv : Server, hubStep h (.receive env wire src) = { h with srv := srv } →
      ∃ n, ∃ h' : Hub, hubRun h (.receive env wire src :: .dispatch env ::
          List.replicate n (.act env .receive)) = h' ∧
        ServerState.mk h'.srv h'.io = ⟨srv, h.io⟩ ∧ h'.accepted = none ∧
        h'.rests .receive = true := by
    intro srv hstep
    refine ⟨0, { h with srv := srv }, ?_, rfl, hacc, hrest⟩
    rw [hubRun, List.foldl_cons, hstep]
    simp only [List.replicate_zero, List.foldl_cons, List.foldl_nil, hubStep, hacc]
  have hreceive : hubStep h (.receive env wire src) =
      match (netRecv env.aead env.key wire).bind readFrame with
      | none => h
      | some f =>
        if f.type ≠ MsgType.register.code then
          match serverAcceptRegisteredSequence h.srv src f.sequence with
          | (false, srv) => { h with srv := srv }
          | (true, srv) => { h with srv := srv, accepted := some (f, src) }
        else { h with accepted := some (f, src) } := by
    simp only [hubStep, hrest, hacc, Option.isSome_none, Bool.not_true, Bool.or_self,
      Bool.false_eq_true, if_false]
  cases hrecv : netRecv env.aead env.key wire with
  | none =>
    simp only [hrecv, Option.bind_none] at hreceive
    simpa only [serverReceive, hrecv] using hdrop h.srv hreceive
  | some buf =>
    simp only [hrecv, Option.bind_some] at hreceive
    simp only [serverReceive, hrecv, serverStep, serverHandlePacket]
    cases hread : readFrame buf with
    | none =>
      simp only [hread] at hreceive
      exact hdrop h.srv hreceive
    | some f =>
      simp only [hread] at hreceive ⊢
      split_ifs at hreceive ⊢ with hreg
      · rcases hseq : serverAcceptRegisteredSequence h.srv src f.sequence with ⟨_ | _, srv⟩ <;>
          rw [hseq] at hreceive
        · exact hdrop srv hreceive
        · obtain ⟨n, h', hrun, hfin, hnone, hrests⟩ := hdispatch srv f hreceive
          refine ⟨n, h', hrun, ?_, hnone, hrests⟩
          simp only [← hfin]
      · obtain ⟨n, h', hrun, hfin, hnone, hrests⟩ := hdispatch h.srv f hreceive
        refine ⟨n, h', hrun, ?_, hnone, hrests⟩
        rw [← hfin]

/-- **Sweeps.**  A pass of the timeout thread while the other threads rest. -/
theorem hub_sweep_alone (env : Env) (h : Hub) (hrest : h.rests .timeout = true) :
    ∃ n, ∃ h' : Hub, hubRun h (.sweep env :: List.replicate n (.act env .timeout)) = h' ∧
      ServerState.mk h'.srv h'.io = serverStep ⟨h.srv, h.io⟩ (.sweep env) ∧
      h'.rests .timeout = true := by
  rcases hbuild : Outbox.build env h.io (.keepalive env.nowMs) with ⟨keepalive, io⟩
  obtain ⟨n, h', hrun, hfin, -, hrests⟩ := hub_finish_alone env { h with io := io } .timeout
    (serverSweepLocked env h.srv keepalive).1 (serverSweepLocked env h.srv keepalive).2
  have hstep : hubStep h (.sweep env) = Hub.begin { h with io := io } .timeout
      (serverSweepLocked env h.srv keepalive).1 (serverSweepLocked env h.srv keepalive).2 := by
    simp only [hubStep, hrest, Bool.not_true, Bool.false_eq_true, if_false, hbuild, Hub.begin]
  refine ⟨n, h', ?_, ?_, hrests⟩
  · rw [hubRun, List.foldl_cons, hstep]
    exact hrun
  · simp only [serverStep, serverSweep, hbuild]
    rw [← hfin]

end Tund
