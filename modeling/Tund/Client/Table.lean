import Tund.Peer

/-!
# The client's state and its peer table

`client_t` as far as the protocol reads it, and the functions of `peers.c` and
`session.c` on it.  The client's table has the same entries as the server's, keyed by
virtual IP; `clientUpdatePeer` is the one place that adds, renames and removes them.
-/

namespace Tund

def tundServerTimeout : ℕ := 30

/-- `client_t` -/
structure Client where
  serverAddr : SockAddr
  virtIp : UInt32
  netmask : UInt32
  serverRttMs : UInt64
  hasServerRtt : Bool
  lastServerSeen : UInt64
  serverReplay : ReplayWindow
  name : NameBuf
  peers : Slot → Peer
  peerCount : ℤ

/-- `client_init` up to the handshake, for a resolved server address and a configured name. -/
def clientInit (serverAddr : SockAddr) (clientName : Bytes) : Client where
  serverAddr := serverAddr
  virtIp := 0
  netmask := 0
  serverRttMs := 0
  hasServerRtt := false
  lastServerSeen := 0
  serverReplay := protoReplayReset
  name := .ofBytes (Bytes.cstr clientName)
  peers := fun _ => Peer.zero
  peerCount := 0

/-- Write one entry. -/
def Client.setPeer (cli : Client) (i : Slot) (p : Peer) : Client :=
  { cli with peers := Function.update cli.peers i p }

theorem Client.setPeer_peers (cli : Client) (i j : Slot) (p : Peer) :
    (cli.setPeer i p).peers j = if j = i then p else cli.peers j := by
  by_cases h : j = i
  · simp [Client.setPeer, h]
  · simp [Client.setPeer, h]

/-- The slot that holds a virtual IP. -/
def clientFindPeer (cli : Client) (vip : UInt32) : Option Slot :=
  SlotTable.first fun i => (cli.peers i).holds vip

/-- The first slot without an entry. -/
def clientFreeSlot (cli : Client) : Option Slot :=
  SlotTable.first fun i => !(cli.peers i).active

/-- Take an entry out. -/
def Client.dropPeer (cli : Client) (i : Slot) : Client :=
  { cli.setPeer i { cli.peers i with active := false } with peerCount := cli.peerCount - 1 }

/-- `client_update_peer`; the scan stops at the entry of `vip`, and otherwise knows the first free
slot. -/
def clientUpdatePeer (env : Env) (cli : Client) (vip : UInt32) (name : Bytes) (online : Bool) :
    Client :=
  match clientFindPeer cli vip with
  | some idx =>
    if online then
      cli.setPeer idx
        { cli.peers idx with
          active := true
          virtIp := vip
          name := .ofBytes (Bytes.cstr name)
          lastSeen := env.time }
    else cli.dropPeer idx
  | none =>
    if online then
      match clientFreeSlot cli with
      | none => cli
      | some idx =>
        { cli.setPeer idx
            { cli.peers idx with
              bytesIn := 0
              bytesOut := 0
              active := true
              virtIp := vip
              name := .ofBytes (Bytes.cstr name)
              lastSeen := env.time } with
          peerCount := cli.peerCount + 1 }
    else cli

/-- `client_add_peer_traffic` -/
def clientAddPeerTraffic (cli : Client) (vip : UInt32) (bytesIn bytesOut : UInt64) : Client :=
  match clientFindPeer cli vip with
  | none => cli
  | some i =>
    cli.setPeer i
      { cli.peers i with
        bytesIn := (cli.peers i).bytesIn + bytesIn
        bytesOut := (cli.peers i).bytesOut + bytesOut }

/-- `client_add_broadcast_traffic` -/
def clientAddBroadcastTraffic (cli : Client) (bytesOut : UInt64) : Client :=
  { cli with
    peers := fun i =>
      if (cli.peers i).active then
        { cli.peers i with bytesOut := (cli.peers i).bytesOut + bytesOut }
      else cli.peers i }

/-- `client_mark_server_seen` -/
def clientMarkServerSeen (env : Env) (cli : Client) : Client :=
  if 0 < env.time then { cli with lastServerSeen := UInt64.ofNat env.time.toNat } else cli

/-- `client_server_timed_out` -/
def clientServerTimedOut (cli : Client) (now : ℤ) : Bool :=
  if cli.lastServerSeen = 0 ∨ now ≤ 0 then false
  else
    let current := UInt64.ofNat now.toNat
    decide (cli.lastServerSeen < current) &&
      decide (tundServerTimeout < (current - cli.lastServerSeen).toNat)

end Tund
