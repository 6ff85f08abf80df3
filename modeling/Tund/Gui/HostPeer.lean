import Tund.Lib.Replica
import Tund.Process

/-!
# The peers that the GUI shows (`gui/lib/core/host_peer.dart`)

The GUI of a host reads the JSON lines that `app_event_peer_join` and
`app_event_peer_leave` print and keeps a map of the peers.  A line stands for the event
it was printed for, and a virtual IP for its dotted form, which is the key of the map.
-/

namespace Tund

/-- `class HostPeer`, without the virtual IP that it is filed under. -/
structure HostPeer where
  name : Bytes
  endpoint : SockAddr

/-- The map `_peers` of `class HostPeerTracker`. -/
abbrev HostPeerTracker := UInt32 → Option HostPeer

/-- `applyJsonLine` on the line of an event. -/
def HostPeerTracker.applyJsonLine (peers : HostPeerTracker) : Event → HostPeerTracker
  | .peerJoin name virtIp endpoint => Function.update peers virtIp (some ⟨name, endpoint⟩)
  | .peerLeave virtIp _ => Function.update peers virtIp none

/-- The events among the outputs. -/
def eventsOf (outs : List Out) : List Event :=
  outs.filterMap fun
    | .event e => some e
    | _ => none

/-- The tracker that was fed with the lines a process printed. -/
def Proc.tracker (io : Proc) : HostPeerTracker :=
  (eventsOf io.out).foldl HostPeerTracker.applyJsonLine fun _ => none

/-- The change of the map that an event tells. -/
def Event.op : Event → Replica.Op UInt32 HostPeer
  | .peerJoin name virtIp endpoint => .put virtIp ⟨name, endpoint⟩
  | .peerLeave virtIp _ => .drop virtIp

theorem applyJsonLine_eq (peers : HostPeerTracker) (e : Event) :
    peers.applyJsonLine e = e.op.apply peers := by
  funext v
  cases e <;> simp only [HostPeerTracker.applyJsonLine, Event.op, Replica.Op.apply,
    Function.update_apply]

theorem eventsOf_append (as bs : List Out) : eventsOf (as ++ bs) = eventsOf as ++ eventsOf bs :=
  List.filterMap_append

/-- One more line. -/
theorem tracker_of_event {io io' : Proc} {e : Event} (h : io'.out = io.out ++ [.event e]) :
    io'.tracker = Replica.run io.tracker [e.op] := by
  unfold Proc.tracker
  rw [h, eventsOf_append, List.foldl_append]
  exact applyJsonLine_eq _ e

theorem tracker_of_events {io io' : Proc} (h : eventsOf io'.out = eventsOf io.out) :
    io'.tracker = io.tracker := by
  rw [Proc.tracker, Proc.tracker, h]

end Tund
