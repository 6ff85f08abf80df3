import Tund.Client.Table
import Tund.Protocol.Send
import Tund.Protocol.Ipv4

/-!
# The client

The handshake (`register.c`), the dispatcher of packets from the server (`handlers.c`)
and one pass of each client thread (`client.c`).

The handshake gets from outside, for each of its three attempts, what the poll and the
receive that follow the REGISTER give (`Arrival`).  Its flags only choose a log line and
are left out.
-/

namespace Tund

def tundRegisterRetries : ℕ := 3

/-! ### The handshake -/

/-- What an attempt of the handshake meets after its REGISTER is out. -/
inductive Arrival
  /-- `poll` fails. -/
  | pollError
  /-- No answer within five seconds. -/
  | silence
  /-- `poll` reports a datagram, `recvfrom` fails. -/
  | recvError
  /-- A datagram and where it comes from. -/
  | datagram (wire : Bytes) (src : SockAddr)

/-- `handle_assign` -/
def handleAssign (cli : Client) (payload : Bytes) : Bool × Client :=
  if payload.length < 10 then (false, cli)
  else
    (true, { cli with
      virtIp := u32OfMem (Bytes.slice payload 0 4)
      netmask := u32OfMem (Bytes.slice payload 4 4) })

/-- The part of an attempt that looks at an authentic datagram from the server. -/
def clientRegisterReply (cli : Client) (buf : Bytes) : Bool × Client :=
  match readFrame buf with
  | none => (false, cli)
  | some f =>
    match protoReplayAccept cli.serverReplay f.sequence with
    | (false, replay) => (false, { cli with serverReplay := replay })
    | (true, replay) =>
      let cli := { cli with serverReplay := replay }
      if f.type = MsgType.assign.code then handleAssign cli f.payload else (false, cli)

/-- The rest of an attempt: whether the handshake has succeeded or is given up, or `none` when
the next attempt follows. -/
def clientAwait (env : Env) (cli : Client) : Arrival → Option Bool × Client
  | .pollError => (some false, cli)
  | .silence => (none, cli)
  | .recvError => (none, cli)
  | .datagram wire src =>
    match netRecv env.aead env.key wire with
    | none => (none, cli)
    | some buf =>
      if netAddrEqual src cli.serverAddr then
        match clientRegisterReply cli buf with
        | (true, cli) => (some true, cli)
        | (false, cli) => (none, cli)
      else (none, cli)

/-- The loop of `client_register` over the attempts that are left. -/
def clientRegisterLoop (env : Env) : List Arrival → Client → Proc → Bool × Client × Proc
  | [], cli, io => (false, cli, io)
  | arrival :: arrivals, cli, io =>
    match sendMsg env io (.register cli.name.1) cli.serverAddr with
    | (false, io) => (false, cli, io)
    | (true, io) =>
      match clientAwait env cli arrival with
      | (some registered, cli) => (registered, cli, io)
      | (none, cli) => clientRegisterLoop env arrivals cli io

/-- `client_register` -/
def clientRegister (env : Env) (cli : Client) (io : Proc) (arrivals : ℕ → Arrival) :
    Bool × Client × Proc :=
  clientRegisterLoop env ((List.range tundRegisterRetries).map arrivals) cli io

/-! ### Handlers -/

/-- `client_handle_keepalive` -/
def clientHandleKeepalive (env : Env) (cli : Client) (io : Proc) (payload : Bytes) : Proc :=
  match protoReadKeepaliveTimestamp payload with
  | none => io
  | some sentAt => (sendMsg env io (.keepaliveAck sentAt) cli.serverAddr).2

/-- `client_handle_keepalive_ack` -/
def clientHandleKeepaliveAck (env : Env) (cli : Client) (payload : Bytes) : Client :=
  match protoReadKeepaliveTimestamp payload with
  | none => cli
  | some sentAt =>
    if env.nowMs < sentAt then cli
    else
      { cli with
        serverRttMs := smoothRttMs cli.serverRttMs (env.nowMs - sentAt) cli.hasServerRtt
        hasServerRtt := true }

/-- The loop of `client_handle_peer_list` from entry `i` on, with `n` entries to go. -/
def clientPeerListLoop (env : Env) (payload : Bytes) : ℕ → ℕ → Client → Client
  | 0, _, cli => cli
  | n + 1, i, cli =>
    match protoReadPeerEntry payload i with
    | none => cli
    | some (virtIp, name, online) =>
      clientPeerListLoop env payload n (i + 1) (clientUpdatePeer env cli virtIp name online)

/-- `client_handle_peer_list` -/
def clientHandlePeerList (env : Env) (cli : Client) (payload : Bytes) : Client :=
  clientPeerListLoop env payload (protoPeerEntryCount payload.length) 0 cli

/-- `client_handle_peer_join`; the name is the C string in the 32 bytes behind the address. -/
def clientHandlePeerJoin (env : Env) (cli : Client) (payload : Bytes) : Client :=
  if payload.length < 4 + tundNameLen then cli
  else
    clientUpdatePeer env cli (u32OfMem (Bytes.slice payload 0 4))
      (Bytes.slice payload 4 tundNameLen) true

/-- `client_handle_peer_leave` -/
def clientHandlePeerLeave (cli : Client) (payload : Bytes) : Client :=
  if payload.length < 4 then cli
  else
    match clientFindPeer cli (u32OfMem (Bytes.slice payload 0 4)) with
    | none => cli
    | some i => cli.dropPeer i

/-- The DATA branch of `client_handle_server_packet`. -/
def clientHandleData (cli : Client) (io : Proc) (payload : Bytes) : Client × Proc :=
  match protoValidateIpv4Packet payload with
  | some _ => (cli, io)
  | none =>
    (clientAddPeerTraffic cli (protoGetSrcIp payload) (UInt64.ofNat payload.length) 0,
      tunWrite io payload)

/-- The `switch` of `client_handle_server_packet`. -/
def clientDispatch (env : Env) (cli : Client) (io : Proc) (f : Frame) : Client × Proc :=
  match MsgType.ofCode f.type with
  | some .data => clientHandleData cli io f.payload
  | some .peerList => (clientHandlePeerList env cli f.payload, io)
  | some .peerJoin => (clientHandlePeerJoin env cli f.payload, io)
  | some .peerLeave => (clientHandlePeerLeave cli f.payload, io)
  | some .keepalive => (cli, clientHandleKeepalive env cli io f.payload)
  | some .keepaliveAck => (clientHandleKeepaliveAck env cli f.payload, io)
  | some .disconnect => (cli, tundRequestStop io)
  | _ => (cli, io)

/-- `client_handle_server_packet` on the first `len` bytes of its buffer. -/
def clientHandleServerPacket (env : Env) (cli : Client) (io : Proc) (buf : Bytes) :
    Client × Proc :=
  match readFrame buf with
  | none => (cli, io)
  | some f =>
    match protoReplayAccept cli.serverReplay f.sequence with
    | (false, replay) => ({ cli with serverReplay := replay }, io)
    | (true, replay) =>
      clientDispatch env (clientMarkServerSeen env { cli with serverReplay := replay }) io f

/-- The receive step of `client_run`. -/
def clientReceive (env : Env) (cli : Client) (io : Proc) (wire : Bytes) (src : SockAddr) :
    Client × Proc :=
  match netRecv env.aead env.key wire with
  | none => (cli, io)
  | some buf =>
    if netAddrEqual src cli.serverAddr then clientHandleServerPacket env cli io buf else (cli, io)

/-! ### Threads -/

/-- One pass of `client_keepalive_thread`. -/
def clientKeepalivePass (env : Env) (cli : Client) (io : Proc) : Proc :=
  if clientServerTimedOut cli env.time then tundRequestStop io
  else (sendMsg env io (.keepalive env.nowMs) cli.serverAddr).2

/-- One pass of `client_tun_thread` with a packet read from the TUN device. -/
def clientTunPacket (env : Env) (cli : Client) (io : Proc) (pkt : Bytes) : Client × Proc :=
  match protoValidateIpv4Packet pkt with
  | some _ => (cli, io)
  | none =>
    match sendMsg env io (.data pkt) cli.serverAddr with
    | (false, io) => (cli, io)
    | (true, io) =>
      let dstIp := protoGetDstIp pkt
      if dstIp = htonl tundBroadcast then
        (clientAddBroadcastTraffic cli (UInt64.ofNat pkt.length), io)
      else (clientAddPeerTraffic cli dstIp 0 (UInt64.ofNat pkt.length), io)

/-- The farewell of `client_shutdown`. -/
def clientShutdown (env : Env) (cli : Client) (io : Proc) : Proc :=
  (sendMsg env io .disconnect cli.serverAddr).2

end Tund
