import Tund.Client.Notes
import Tund.Server.Telling

/-!
# The virtual network

The server with its threads and client processes at any number of addresses.  What the
server sends to an address stands in a queue and reaches the process there in the order
in which it was sent; `LanEvent.lose` takes the next datagram out of it.  Whatever else
arrives at the sockets is up to the network: the server may be sent anything, a client
anything that is not from the server.

`Lan.Quiet` are the moments at which the tables are compared: no thread of the server has
anything left to do, and nothing is on its way.
-/

namespace Tund

open Replica

/-- The server, the processes by the address of their sockets, and the queues between. -/
structure Lan where
  hubAddr : SockAddr
  hub : Hub
  nodes : SockAddr → ClientNode
  /-- How many of the server's datagrams for an address are no longer on their way. -/
  got : SockAddr → ℕ
  /-- What the datagrams on their way to an address tell.  Only statements look at it. -/
  told : SockAddr → List Note

/-- Nothing has happened yet, and no process runs. -/
def Lan.start (hubAddr : SockAddr) : Lan where
  hubAddr := hubAddr
  hub := .start
  nodes addr := { ClientNode.start addr hubAddr [] with phase := .ended }
  got _ := 0
  told _ := []

/-- The datagrams on their way to an address, oldest first. -/
def Lan.flight (l : Lan) (addr : SockAddr) : List Bytes := (l.hub.io.sentTo addr).drop (l.got addr)

/-- How far the process at an address is. -/
def Lan.stage (l : Lan) (addr : SockAddr) : Stage := (l.nodes addr).phase.stage

/-- What can happen. -/
inductive LanEvent
  /-- A step of a thread of the server. -/
  | hub (e : HubEvent)
  /-- A new client process. -/
  | start (addr : SockAddr) (name : Bytes)
  /-- A client process does something on its own. -/
  | node (addr : SockAddr) (env : Env) (e : NodeEvent)
  /-- The next datagram of the server reaches a socket. -/
  | deliver (addr : SockAddr) (env : Env)
  /-- The next datagram of the server for a socket is lost. -/
  | lose (addr : SockAddr)

/-- The process at `addr` is now `c`. -/
def Lan.setNode (l : Lan) (addr : SockAddr) (c : ClientNode) : Lan :=
  { l with nodes := Function.update l.nodes addr c }

/-- The oldest datagram for `addr` is no longer on its way. -/
def Lan.next (l : Lan) (addr : SockAddr) : Lan :=
  { l with
    got := Function.update l.got addr (l.got addr + 1)
    told := Function.update l.told addr (l.told addr).tail }

/-- The network after an event. -/
def lanStep (l : Lan) : LanEvent → Lan
  | .hub e =>
    { l with hub := hubStep l.hub e, told := fun addr => l.told addr ++ e.notes l.hub addr }
  | .start addr name => l.setNode addr (.start addr l.hubAddr name)
  | .node addr env e => l.setNode addr ((l.nodes addr).step (env, e))
  | .deliver addr env =>
    match l.flight addr with
    | [] => l
    | wire :: _ =>
      (l.setNode addr ((l.nodes addr).arrive env (.datagram wire l.hubAddr))).next addr
  | .lose addr =>
    match l.flight addr with
    | [] => l
    | _ :: _ => l.next addr

/-- What every run keeps to.  All hosts have the AEAD and the key, and the server's outside calls
work.  A process starts where none runs.  A datagram of the server is read by a process that
listens, or finds no process any more, and a socket gets it in no other way. -/
def lanFair (aead : Aead) (key : Bytes) (l : Lan) : LanEvent → Prop
  | .hub e => HubOk aead key e
  | .start addr _ => l.stage addr = .over
  | .node _ env e => env.aead = aead ∧ env.key = key ∧ e.Stray aead key l.hubAddr
  | .deliver addr env => env.aead = aead ∧ env.key = key ∧
      ((l.nodes addr).listens = true ∨ l.stage addr = .over)
  | .lose _ => True

/-- No thread of the server has anything left to do. -/
def Hub.Idle (h : Hub) : Prop := h.accepted = none ∧ ∀ t, h.rests t = true

/-- Nothing is left to do and nothing is on its way. -/
structure Lan.Quiet (l : Lan) : Prop where
  idle : l.hub.Idle
  flight : ∀ addr, l.flight addr = []

/-- Nothing on its way to `addr`, and nothing that the timeout thread has for it, names a peer. -/
def Lan.NoNews (l : Lan) (addr : SockAddr) : Prop :=
  (l.told addr ++ l.hub.tells .timeout addr).flatMap Note.ops = []

/-- The packet that the receive loop has accepted makes a new entry for `src`. -/
def Hub.Admits (h : Hub) (src : SockAddr) : Prop :=
  ∃ f, h.accepted = some (f, src) ∧ f.type = MsgType.register.code ∧
    serverFindPeerByAddr h.srv src = none

/-- A thread does not overtake the other: the receive loop does not announce a peer to somebody
whom the timeout thread has yet to tell that an earlier holder of the address has left, and the
timeout thread does not announce the departure before the receive loop has announced the peer. -/
def Hub.TellsInOrder (h : Hub) (addr : SockAddr) : HubEvent → Prop
  | .act env .receive => ∀ k v, .put k v ∈ ((HubEvent.act env .receive).notes h addr).flatMap Note.ops →
      .drop k ∈ (h.tells .timeout addr).flatMap Note.ops → h.srv.others addr k = none
  | .act env .timeout => ∀ k, .drop k ∈ ((HubEvent.act env .timeout).notes h addr).flatMap Note.ops →
      h.srv.others addr k = none → ∀ v, .put k v ∉ (h.tells .receive addr).flatMap Note.ops
  | _ => True

end Tund
