import Tund.Lib.Bytes
import Tund.Lib.SlotTable
import Tund.Lib.Trace
import Tund.Lib.Replica
import Tund.Process
import Tund.Protocol.Monocypher
import Tund.Protocol.Header
import Tund.Protocol.Transport
import Tund.Protocol.Counter
import Tund.Protocol.Replay
import Tund.Protocol.Ipv4
import Tund.Protocol.Messages
import Tund.Protocol.Send
import Tund.Peer
import Tund.Server.Table
import Tund.Server.Handlers
import Tund.Server.Acts
import Tund.Server.Effects
import Tund.Server.Invariant
import Tund.Server.Outputs
import Tund.Server.Relay
import Tund.Server.Isolation
import Tund.Client.Table
import Tund.Client.Handlers
import Tund.Client.View
import Tund.AtMostOnce
import Tund.RoundTrip
import Tund.Network.World
import Tund.Network.Sound
import Tund.Network.Security
import Tund.Gate
import Tund.Server.Admission
import Tund.Client.Map
import Tund.Sending
import Tund.Server.Numbers
import Tund.Client.Window
import Tund.Client.Strangers
import Tund.Reordering
import Tund.Lib.Text
import Tund.App.Cli
import Tund.Gui.Config
import Tund.Gui.HostPeer
import Tund.Server.News
import Tund.Server.Threads
import Tund.Server.Timeout
import Tund.Server.Telling
import Tund.Client.Notes
import Tund.Lan.System
import Tund.Lan.Link
import Tund.Lan.Runs
import Tund.Lan.Agreement
import Tund.Lan.Interleaving
import Tund.Lan.Recovery
import Tund.Lib.Smoothing
import Tund.Rtt
import Tund.Lib.CommandLine
import Tund.App.Relaunch
import Tund.App.KeySources
import Tund.Lib.Json
import Tund.App.Events
import Tund.Gui.PeerEvents
import Tund.Gui.Launcher
import Tund.Gui.StartStop
import Tund.Gui.FailedStart
import Tund.Lib.Memory
import Tund.Dashboard
import Tund.Protocol.Bounds
import Tund.Client.Bounds
import Tund.Server.Bounds
import Tund.Server.TestedPaths
import Tund.Lib.Blocks
import Tund.Monocypher.Poly1305
import Tund.Monocypher.Aead
import Tund.Monocypher.Blake2b
import Tund.Lib.Watchdog
import Tund.Server.Heartbeat
import Tund.Client.Heartbeat
import Tund.Network.Integrity
import Tund.Server.Window
import Tund.Network.Delivery
