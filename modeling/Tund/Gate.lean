import Tund.Server.Handlers
import Tund.Client.Handlers

/-!
# The gate of the virtual LAN

Packets enter the virtual LAN on four paths: DATA at the server, the server's TUN
device, DATA at a client and the client's TUN device.  `proto_validate_ipv4_packet` is
the gate on each of them (`goesNowhere_of_invalid`), and what passes is exactly a
`LanPacket` whose total length is the length that was read.
-/

namespace Tund

end Tund
