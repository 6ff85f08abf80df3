import Tund.AtMostOnce
import Tund.Server.Outputs

/-!
# The network and its attacker

One server, any number of client processes, and a network that belongs to an attacker:
it sees every datagram that leaves a host and delivers what it has seen to whom it
likes, as often as it likes, with any source address.  It has no key: what it makes up
itself does not unlock (`World.Deliverable`).

* `ClientNode`: a client process with its handshake taken apart into the steps between
  which the network acts;
* `World`, `NetEvent`, `netStep`, `netOk`: the system and its runs;
* `World.Sound`: what every datagram that was sent and every TUN write of a client is.
-/

namespace Tund

/-! ### A client process -/

/-- Where a client process stands. -/
inductive Phase
  /-- So many attempts of the handshake are left. -/
  | attempt (left : ℕ)
  /-- A REGISTER is out, and so many attempts are left after this one. -/
  | await (left : ℕ)
  /-- `client_run` -/
  | running
  | ended

/-- A client process and the address of its socket. -/
structure ClientNode where
  addr : SockAddr
  cli : Client
  io : Proc
  phase : Phase

/-- A process that has just started. -/
def ClientNode.start (addr serverAddr : SockAddr) (name : Bytes) : ClientNode :=
  ⟨addr, clientInit serverAddr name, Proc.start, .attempt tundRegisterRetries⟩

/-- An attempt of the handshake up to `poll`. -/
def ClientNode.register (env : Env) (c : ClientNode) : ClientNode :=
  match c.phase with
  | .attempt (left + 1) =>
    match sendMsg env c.io (.register c.cli.name.1) c.cli.serverAddr with
    | (false, io) => { c with io := io, phase := .ended }
    | (true, io) => { c with io := io, phase := .await left }
  | _ => c

/-- What the socket has for the process: the rest of an attempt, or a pass of `client_run`. -/
def ClientNode.arrive (env : Env) (c : ClientNode) (arrival : Arrival) : ClientNode :=
  match c.phase with
  | .await left =>
    match clientAwait env c.cli arrival with
    | (none, cli) => { c with cli := cli, phase := .attempt left }
    | (some false, cli) => { c with cli := cli, phase := .ended }
    | (some true, cli) => { c with cli := clientMarkServerSeen env cli, phase := .running }
  | .running =>
    if c.io.running then
      match arrival with
      | .datagram wire src =>
        let r := clientReceive env c.cli c.io wire src
        { c with cli := r.1, io := r.2 }
      | .pollError => { c with phase := .ended }
      | _ => c
    else c
  | _ => c

/-- A pass of the keepalive thread. -/
def ClientNode.keepalive (env : Env) (c : ClientNode) : ClientNode :=
  match c.phase with
  | .running => { c with io := clientKeepalivePass env c.cli c.io }
  | _ => c

/-- A pass of the TUN thread. -/
def ClientNode.tun (env : Env) (c : ClientNode) (pkt : Bytes) : ClientNode :=
  match c.phase with
  | .running =>
    let r := clientTunPacket env c.cli c.io pkt
    { c with cli := r.1, io := r.2 }
  | _ => c

/-- The end of the process. -/
def ClientNode.shutdown (env : Env) (c : ClientNode) : ClientNode :=
  match c.phase with
  | .running => { c with io := clientShutdown env c.cli c.io, phase := .ended }
  | _ => c

/-! ### The world -/

/-- The server and the client processes. -/
structure World (ι : Type) where
  server : ServerState
  clients : ι → ClientNode

/-- Who holds the key. -/
inductive Party (ι : Type)
  | server
  | client (i : ι)

variable {ι : Type}

/-- What a party has put out. -/
def World.out (w : World ι) : Party ι → List Out
  | .server => w.server.io.out
  | .client i => (w.clients i).io.out

/-- The party has put the datagram on the network. -/
def World.Sent (w : World ι) (p : Party ι) (d : Datagram) : Prop :=
  Out.datagram d ∈ w.out p ∧ d.sent = true

/-- What the attacker can deliver: bytes that do not unlock, or a datagram that was sent.  A
receiver takes no more than its buffer holds. -/
def World.Deliverable (aead : Aead) (key : Bytes) (w : World ι) (wire : Bytes) : Prop :=
  netRecv aead key wire = none ∨ ∃ p d, w.Sent p d ∧ d.wire = wire.take tundMaxPkt

/-- What can happen, apart from the clock, the random bytes and the send results. -/
inductive NetEvent (ι : Type)
  /-- A datagram at the server's socket. -/
  | receive (wire : Bytes) (src : SockAddr)
  | sweep
  | hubTun (pkt : Bytes)
  | hubShutdown
  | register (i : ι)
  /-- The socket of a client. -/
  | arrive (i : ι) (arrival : Arrival)
  | keepalive (i : ι)
  | tun (i : ι) (pkt : Bytes)
  | shutdown (i : ι)

/-- The receive step of `server_run`. -/
def serverReceive (env : Env) (s : ServerState) (wire : Bytes) (src : SockAddr) : ServerState :=
  match netRecv env.aead env.key wire with
  | none => s
  | some buf => serverStep s (.packet env buf src)

section Step

variable [DecidableEq ι]

/-- One client moves. -/
def World.move (w : World ι) (i : ι) (f : ClientNode → ClientNode) : World ι :=
  { w with clients := Function.update w.clients i (f (w.clients i)) }

/-- The world after an event. -/
def netStep (w : World ι) : Env × NetEvent ι → World ι
  | (env, .receive wire src) => { w with server := serverReceive env w.server wire src }
  | (env, .sweep) => { w with server := serverStep w.server (.sweep env) }
  | (env, .hubTun pkt) => { w with server := serverStep w.server (.tun env pkt) }
  | (env, .hubShutdown) => { w with server := serverStep w.server (.shutdown env) }
  | (env, .register i) => w.move i (ClientNode.register env)
  | (env, .arrive i arrival) => w.move i fun c => c.arrive env arrival
  | (env, .keepalive i) => w.move i (ClientNode.keepalive env)
  | (env, .tun i pkt) => w.move i fun c => c.tun env pkt
  | (env, .shutdown i) => w.move i (ClientNode.shutdown env)

/-- Every host has the AEAD and the key; the network delivers only what it can. -/
def netOk (aead : Aead) (key : Bytes) (w : World ι) (e : Env × NetEvent ι) : Prop :=
  e.1.aead = aead ∧ e.1.key = key ∧
    match e.2 with
    | .receive wire _ => w.Deliverable aead key wire
    | .arrive _ (.datagram wire _) => w.Deliverable aead key wire
    | .hubTun pkt => pkt.length ≤ tundMaxPlaintext
    | _ => True

/-- Nobody has done anything yet. -/
def NetInit (w : World ι) : Prop :=
  w.server = ⟨serverInit, Proc.start⟩ ∧
    ∀ i, ∃ addr serverAddr name, w.clients i = .start addr serverAddr name

/-- The states of the runs. -/
def NetReachable (aead : Aead) (key : Bytes) : World ι → Prop :=
  Trace.Reachable netStep (netOk aead key) NetInit

/-- A whole run. -/
abbrev NetRun (ι : Type) [DecidableEq ι] (aead : Aead) (key : Bytes) :=
  Trace.Run (@netStep ι _) (netOk aead key) NetInit

end Step

/-! ### What the parties put out -/

section Outputs

variable {aead : Aead} {key : Bytes} {env : Env}

/-- What a client puts out: messages to its server, of which a REGISTER has its own name, and the
TUN writes that `T` allows. -/
def Client.MayPutOut (aead : Aead) (key : Bytes) (cli : Client) (T : Bytes → Prop) : Out → Prop
  | .datagram d => d.dest = cli.serverAddr ∧ ∃ m : Msg,
      (m.type = .register → m = .register cli.name.1) ∧ d.Carries aead key m.type.code m.payload
  | .tunWrite pkt => T pkt
  | .event _ => False

/-- The process goes on as the same client and has only put out what it may. -/
structure ClientNode.Goes (aead : Aead) (key : Bytes) (T : Bytes → Prop) (c c' : ClientNode) :
    Prop where
  addr : c'.addr = c.addr
  serverAddr : c'.cli.serverAddr = c.cli.serverAddr
  name : c'.cli.name = c.cli.name
  out : ∃ outs, c'.io.out = c.io.out ++ outs ∧ ∀ o ∈ outs, c.cli.MayPutOut aead key T o

theorem ClientNode.Goes.refl (T : Bytes → Prop) (c : ClientNode) : c.Goes aead key T c :=
  ⟨rfl, rfl, rfl, [], by simp⟩

/-- A message to the server is the output of a client. -/
theorem sendMsg_mayPutOut (ha : env.aead = aead) (hk : env.key = key) (T : Bytes → Prop)
    (cli : Client) (io : Proc) {m : Msg} (hm : m.type = .register → m = .register cli.name.1) :
    (sendMsg env io m cli.serverAddr).2.running = io.running ∧
    ∃ outs, (sendMsg env io m cli.serverAddr).2.out = io.out ++ outs ∧
      ∀ o ∈ outs, cli.MayPutOut aead key T o := by
  obtain ⟨hrun, ⟨-, hout⟩ | ⟨d, -, hdest, hcar, hout⟩⟩ := sendMsg_cases env io m cli.serverAddr
  · exact ⟨hrun, [], by simpa using hout, by simp⟩
  · refine ⟨hrun, [.datagram d], hout, ?_⟩
    rintro o ho
    rw [List.mem_singleton.1 ho]
    exact ⟨hdest, m, hm, ha ▸ hk ▸ hcar⟩

theorem ClientNode.register_goes (ha : env.aead = aead) (hk : env.key = key) (T : Bytes → Prop)
    (c : ClientNode) : c.Goes aead key T (c.register env) := by
  unfold ClientNode.register
  split
  · obtain ⟨-, hout⟩ := sendMsg_mayPutOut ha hk T c.cli c.io (m := .register c.cli.name.1)
      fun _ => rfl
    rcases hs : sendMsg env c.io (.register c.cli.name.1) c.cli.serverAddr with ⟨_ | _, io⟩ <;>
      rw [hs] at hout <;> exact ⟨rfl, rfl, rfl, hout⟩
  · exact .refl T c

theorem ClientNode.keepalive_goes (ha : env.aead = aead) (hk : env.key = key) (T : Bytes → Prop)
    (c : ClientNode) : c.Goes aead key T (c.keepalive env) := by
  unfold ClientNode.keepalive clientKeepalivePass
  split
  · split_ifs
    · exact ⟨rfl, rfl, rfl, [], by simp [tundRequestStop]⟩
    · obtain ⟨-, hout⟩ := sendMsg_mayPutOut ha hk T c.cli c.io (m := .keepalive env.nowMs) nofun
      exact ⟨rfl, rfl, rfl, hout⟩
  · exact .refl T c

theorem ClientNode.tun_goes (ha : env.aead = aead) (hk : env.key = key) (T : Bytes → Prop)
    (c : ClientNode) (pkt : Bytes) : c.Goes aead key T (c.tun env pkt) := by
  unfold ClientNode.tun clientTunPacket
  split
  · dsimp only
    split
    · exact .refl T c
    · obtain ⟨-, hout⟩ := sendMsg_mayPutOut ha hk T c.cli c.io (m := .data pkt) nofun
      rcases hs : sendMsg env c.io (.data pkt) c.cli.serverAddr with ⟨_ | _, io⟩ <;>
        rw [hs] at hout
      · exact ⟨rfl, rfl, rfl, hout⟩
      · dsimp only
        split_ifs
        · exact ⟨rfl, rfl, rfl, hout⟩
        · have hk := clientAddPeerTraffic_keeps c.cli (protoGetDstIp pkt) 0 (UInt64.ofNat pkt.length)
          exact ⟨rfl, hk.serverAddr, hk.name, hout⟩
  · exact .refl T c

theorem ClientNode.shutdown_goes (ha : env.aead = aead) (hk : env.key = key) (T : Bytes → Prop)
    (c : ClientNode) : c.Goes aead key T (c.shutdown env) := by
  unfold ClientNode.shutdown
  split
  · obtain ⟨-, hout⟩ := sendMsg_mayPutOut ha hk T c.cli c.io (m := .disconnect) nofun
    exact ⟨rfl, rfl, rfl, hout⟩
  · exact .refl T c

/-- A reply of the handshake changes nothing but the window and the addresses. -/
theorem clientRegisterReply_keeps (cli : Client) (buf : Bytes) :
    (clientRegisterReply cli buf).2.serverAddr = cli.serverAddr ∧
      (clientRegisterReply cli buf).2.name = cli.name := by
  rcases clientRegisterReply_cases cli buf with ⟨-, h⟩ | ⟨f, -, -, -, h⟩
  · rw [h]; exact ⟨rfl, rfl⟩
  · rw [h]
    dsimp only [handleAssign]
    split_ifs <;> exact ⟨rfl, rfl⟩

theorem clientAwait_keeps (env : Env) (cli : Client) (arrival : Arrival) :
    (clientAwait env cli arrival).2.serverAddr = cli.serverAddr ∧
      (clientAwait env cli arrival).2.name = cli.name := by
  unfold clientAwait
  cases arrival with
  | datagram wire src =>
    dsimp only
    cases netRecv env.aead env.key wire with
    | none => exact ⟨rfl, rfl⟩
    | some buf =>
      dsimp only
      split_ifs
      · have h := clientRegisterReply_keeps cli buf
        rcases hr : clientRegisterReply cli buf with ⟨_ | _, cli'⟩ <;> rw [hr] at h <;> exact h
      · exact ⟨rfl, rfl⟩
  | _ => exact ⟨rfl, rfl⟩

/-- The arrival unlocks to this message. -/
def Arrival.Reads (aead : Aead) (key : Bytes) (arrival : Arrival) (type : UInt8) (payload : Bytes) :
    Prop :=
  ∃ wire src buf seq, arrival = .datagram wire src ∧ netRecv aead key wire = some buf ∧
    readFrame buf = some ⟨type, payload, seq⟩

/-- The dispatcher writes to the TUN device only the packet of DATA, and stops the client only on
DISCONNECT. -/
theorem clientDispatch_out (ha : env.aead = aead) (hk : env.key = key) (cli : Client) (io : Proc)
    (f : Frame) :
    (∃ outs, (clientDispatch env cli io f).2.out = io.out ++ outs ∧ ∀ o ∈ outs,
      cli.MayPutOut aead key (fun pkt => f.type = MsgType.data.code ∧ pkt = f.payload) o) ∧
    ((clientDispatch env cli io f).2.running = io.running ∨
      f.type = MsgType.disconnect.code) := by
  have hsame : ∃ outs, io.out = io.out ++ outs ∧ ∀ o ∈ outs,
      cli.MayPutOut aead key (fun pkt => f.type = MsgType.data.code ∧ pkt = f.payload) o :=
    ⟨[], by simp⟩
  unfold clientDispatch
  split
  · rename_i htype
    unfold clientHandleData
    split
    · exact ⟨hsame, .inl rfl⟩
    · refine ⟨⟨[.tunWrite f.payload], rfl, ?_⟩, .inl rfl⟩
      rintro o ho
      rw [List.mem_singleton.1 ho]
      exact ⟨MsgType.ofCode_eq_some_iff.1 htype, rfl⟩
  · exact ⟨hsame, .inl rfl⟩
  · exact ⟨hsame, .inl rfl⟩
  · exact ⟨hsame, .inl rfl⟩
  · unfold clientHandleKeepalive
    split
    · exact ⟨hsame, .inl rfl⟩
    · rename_i sentAt _
      obtain ⟨hrun, hout⟩ := sendMsg_mayPutOut ha hk
        (fun pkt => f.type = MsgType.data.code ∧ pkt = f.payload) cli io
        (m := .keepaliveAck sentAt) nofun
      exact ⟨hout, .inl hrun⟩
  · exact ⟨hsame, .inl rfl⟩
  · rename_i htype
    exact ⟨hsame, .inr (MsgType.ofCode_eq_some_iff.1 htype)⟩
  · exact ⟨hsame, .inl rfl⟩

/-- An arrival makes the process write only the packet of a DATA message that it reads, and stops
it only if it reads DISCONNECT. -/
theorem ClientNode.arrive_goes (ha : env.aead = aead) (hk : env.key = key) (c : ClientNode)
    (arrival : Arrival) :
    c.Goes aead key (arrival.Reads aead key MsgType.data.code) (c.arrive env arrival) ∧
    ((c.arrive env arrival).io.running = c.io.running ∨
      ∃ payload, arrival.Reads aead key MsgType.disconnect.code payload) := by
  unfold ClientNode.arrive
  split
  · obtain ⟨haddr, hname⟩ := clientAwait_keeps env c.cli arrival
    rcases hr : clientAwait env c.cli arrival with ⟨_ | _ | _, cli⟩ <;> rw [hr] at haddr hname
    · exact ⟨⟨rfl, haddr, hname, [], by simp⟩, .inl rfl⟩
    · exact ⟨⟨rfl, haddr, hname, [], by simp⟩, .inl rfl⟩
    · have hseen := clientMarkServerSeen_keeps env cli
      exact ⟨⟨rfl, hseen.serverAddr.trans haddr, hseen.name.trans hname, [], by simp⟩, .inl rfl⟩
  · split_ifs
    · cases arrival with
      | datagram wire src =>
        simp only [clientReceive]
        cases hrecv : netRecv env.aead env.key wire with
        | none => exact ⟨.refl _ c, .inl rfl⟩
        | some buf =>
          rw [ha, hk] at hrecv
          dsimp only
          split_ifs
          · rcases clientHandleServerPacket_cases env c.cli c.io buf with ⟨-, h⟩ | ⟨f, hf, -, -, h⟩ <;>
              rw [h]
            · exact ⟨.refl _ c, .inl rfl⟩
            · set cli := clientMarkServerSeen env { c.cli with
                serverReplay := (protoReplayAccept c.cli.serverReplay f.sequence).2 } with hcli
              have hseen : cli.serverAddr = c.cli.serverAddr ∧ cli.name = c.cli.name :=
                ⟨(clientMarkServerSeen_keeps env _).serverAddr, (clientMarkServerSeen_keeps env _).name⟩
              have hdisp := clientDispatch_keeps env cli c.io f
              obtain ⟨⟨outs, hout, hmay⟩, hrun⟩ := clientDispatch_out ha hk cli c.io f
              refine ⟨⟨rfl, hdisp.serverAddr.trans hseen.1, hdisp.name.trans hseen.2, outs, hout,
                fun o ho => ?_⟩, hrun.imp_right fun htype => ?_⟩
              · have := hmay o ho
                cases o with
                | datagram d => simpa [Client.MayPutOut, hseen] using this
                | tunWrite pkt =>
                  obtain ⟨htype, rfl⟩ := this
                  exact ⟨wire, src, buf, f.sequence, rfl, hrecv, by rw [hf, ← htype]⟩
                | event e => exact this
              · exact ⟨f.payload, wire, src, buf, f.sequence, rfl, hrecv, by rw [hf, ← htype]⟩
          · exact ⟨.refl _ c, .inl rfl⟩
      | pollError => exact ⟨⟨rfl, rfl, rfl, [], by simp⟩, .inl rfl⟩
      | silence => exact ⟨.refl _ c, .inl rfl⟩
      | recvError => exact ⟨.refl _ c, .inl rfl⟩
    · exact ⟨.refl _ c, .inl rfl⟩
  · exact ⟨.refl _ c, .inl rfl⟩

end Outputs

end Tund
