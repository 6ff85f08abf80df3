import Tund.Peer
import Tund.Protocol.Send
import Tund.Protocol.Ipv4

/-!
# The server's peer table

`server_t` as far as the protocol reads it, and the functions of `peers.c`.  The table
is a function on the 253 slots; its scans are the ones of `SlotTable`.  An index of `-1`
is `none`.

* `serverFindPeerByAddr`, `serverFindPeerByVip`, `serverFindFreeSlot`,
  `serverAllocIp`: the lookups, each with a lemma that says what it finds;
* `serverSnapshotPeerLocked` and its callers: what leaves the lock;
* `serverAddPeerBytesOut`: the accounting that looks the peer up again.
-/

namespace Tund

def tundPeerTimeout : ℤ := 30

/-- `server_t`: the peer table and the count kept beside it. -/
structure Server where
  peers : Slot → Peer
  peerCount : ℤ

/-- The table of `server_init`. -/
def serverInit : Server := ⟨fun _ => Peer.zero, 0⟩

/-- Write one entry. -/
def Server.setPeer (srv : Server) (i : Slot) (p : Peer) : Server :=
  { srv with peers := Function.update srv.peers i p }

@[simp] theorem Server.setPeer_self (srv : Server) (i : Slot) (p : Peer) :
    (srv.setPeer i p).peers i = p := by simp [Server.setPeer]

theorem Server.setPeer_of_ne (srv : Server) {i j : Slot} (p : Peer) (h : j ≠ i) :
    (srv.setPeer i p).peers j = srv.peers j := by simp [Server.setPeer, h]

theorem Server.setPeer_peers (srv : Server) (i j : Slot) (p : Peer) :
    (srv.setPeer i p).peers j = if j = i then p else srv.peers j := by
  by_cases h : j = i
  · simp [h]
  · simp [h, srv.setPeer_of_ne p h]

@[simp] theorem Server.setPeer_peerCount (srv : Server) (i : Slot) (p : Peer) :
    (srv.setPeer i p).peerCount = srv.peerCount := rfl

/-! ### Lookups -/

/-- The address of a virtual LAN host: `ip_h` counted from `TUND_IP_START`, in network order. -/
def poolIp (k : ℕ) : UInt32 := htonl (tundIpStart + UInt32.ofNat k)

/-- The number of addresses from `TUND_IP_START` to `TUND_IP_END`. -/
def poolSize : ℕ := tundIpEnd.toNat + 1 - tundIpStart.toNat

/-- `server_alloc_ip` -/
def serverAllocIp (srv : Server) : UInt32 :=
  match SlotTable.first (n := poolSize) fun k =>
      !(SlotTable.first fun i => (srv.peers i).holds (poolIp k)).isSome with
  | some k => poolIp k
  | none => 0

/-- `server_find_peer_by_vip` -/
def serverFindPeerByVip (srv : Server) (virtIp : UInt32) : Option Slot :=
  SlotTable.first fun i => (srv.peers i).holds virtIp

/-- `server_find_peer_by_addr` -/
def serverFindPeerByAddr (srv : Server) (addr : SockAddr) : Option Slot :=
  SlotTable.first fun i => (srv.peers i).isAt addr

/-- `server_find_free_slot` -/
def serverFindFreeSlot (srv : Server) : Option Slot :=
  SlotTable.first fun i => !(srv.peers i).active

/-! ### Snapshots -/

/-- `server_peer_snapshot_t`; the name is the C string that `snprintf` leaves. -/
structure ServerPeerSnapshot where
  idx : Slot
  virtIp : UInt32
  name : Bytes
  realAddr : SockAddr

/-- `server_snapshot_peer_locked` -/
def serverSnapshotPeerLocked (srv : Server) (i : Slot) : ServerPeerSnapshot :=
  ⟨i, (srv.peers i).virtIp, (srv.peers i).cName, (srv.peers i).realAddr⟩

/-- The active slots other than `excludeIdx`, in table order. -/
def Server.activeExcept (srv : Server) (excludeIdx : Option Slot) : List Slot :=
  SlotTable.slots fun i => (srv.peers i).active && decide (excludeIdx ≠ some i)

/-- `server_snapshot_broadcast_locked`; the array has room for the whole table. -/
def serverSnapshotBroadcastLocked (srv : Server) (excludeIdx : Option Slot) :
    List ServerPeerSnapshot :=
  (srv.activeExcept excludeIdx).map (serverSnapshotPeerLocked srv)

/-- `server_snapshot_peer_by_vip_locked` -/
def serverSnapshotPeerByVipLocked (srv : Server) (virtIp : UInt32) : Option ServerPeerSnapshot :=
  (serverFindPeerByVip srv virtIp).map (serverSnapshotPeerLocked srv)

/-- A snapshot as a row of PEER_LIST. -/
def ServerPeerSnapshot.entry (s : ServerPeerSnapshot) : PeerEntry := ⟨s.virtIp, s.name⟩

/-! ### Accounting -/

/-- The condition under which `server_add_peer_bytes_out` still knows the peer. -/
def ServerPeerSnapshot.isCurrent (srv : Server) (s : ServerPeerSnapshot) : Bool :=
  (srv.peers s.idx).holds s.virtIp && (srv.peers s.idx).isAt s.realAddr

/-- `server_add_peer_bytes_out` -/
def serverAddPeerBytesOut (srv : Server) (s : ServerPeerSnapshot) (bytesOut : UInt64) : Server :=
  if bytesOut = 0 then srv
  else if s.isCurrent srv then
    srv.setPeer s.idx { srv.peers s.idx with bytesOut := (srv.peers s.idx).bytesOut + bytesOut }
  else srv

/-! ### What the lookups find -/

section Lookup

variable {srv : Server} {addr : SockAddr} {i : Slot}

theorem isAt_of_find (h : serverFindPeerByAddr srv addr = some i) :
    (srv.peers i).isAt addr = true :=
  SlotTable.of_first_eq_some (p := fun i => (srv.peers i).isAt addr) h

theorem active_of_find (h : serverFindPeerByAddr srv addr = some i) :
    (srv.peers i).active = true := (Peer.isAt_iff.1 (isAt_of_find h)).1

theorem find_eq_none_iff :
    serverFindPeerByAddr srv addr = none ↔ ∀ i, (srv.peers i).isAt addr = false :=
  SlotTable.first_eq_none_iff

theorem not_active_of_free (h : serverFindFreeSlot srv = some i) : (srv.peers i).active = false := by
  simpa using SlotTable.of_first_eq_some (p := fun i => !(srv.peers i).active) h

theorem mem_activeExcept {excludeIdx : Option Slot} :
    i ∈ srv.activeExcept excludeIdx ↔ (srv.peers i).active = true ∧ excludeIdx ≠ some i := by
  simp [Server.activeExcept]

theorem nodup_activeExcept (srv : Server) (excludeIdx : Option Slot) :
    (srv.activeExcept excludeIdx).Nodup := SlotTable.nodup_slots _

end Lookup

/-! ### The address pool -/

theorem tundIpStart_add {k : ℕ} (h : k < poolSize) :
    (tundIpStart + UInt32.ofNat k).toNat = tundIpStart.toNat + k := by
  have hk : k < 253 := h
  have hs : tundIpStart.toNat = 0x0A090002 := rfl
  rw [UInt32.toNat_add, UInt32.toNat_ofNat_of_lt' (by simp [UInt32.size]; omega), hs]
  omega

theorem poolIp_injective {j k : ℕ} (hj : j < poolSize) (hk : k < poolSize)
    (h : poolIp j = poolIp k) : j = k := by
  have h' := congrArg UInt32.toNat (htonl_injective h)
  rw [tundIpStart_add hj, tundIpStart_add hk] at h'
  omega

/-- A virtual IP that a peer may hold: `10.9.0.2` to `10.9.0.254`, in network order. -/
def InPool (virtIp : UInt32) : Prop := ∃ ipH, tundIpStart ≤ ipH ∧ ipH ≤ tundIpEnd ∧ virtIp = htonl ipH

theorem inPool_poolIp {k : ℕ} (h : k < poolSize) : InPool (poolIp k) := by
  refine ⟨_, ?_, ?_, rfl⟩ <;> rw [UInt32.le_iff_toNat_le, tundIpStart_add h]
  · omega
  · simp only [poolSize] at h
    omega

theorem InPool.exists_poolIp {virtIp : UInt32} (h : InPool virtIp) :
    ∃ k, k < poolSize ∧ virtIp = poolIp k := by
  obtain ⟨ipH, hlo, hhi, rfl⟩ := h
  rw [UInt32.le_iff_toNat_le] at hlo hhi
  have hk : ipH.toNat - tundIpStart.toNat < poolSize := by simp only [poolSize]; omega
  refine ⟨_, hk, ?_⟩
  have heq : tundIpStart + UInt32.ofNat (ipH.toNat - tundIpStart.toNat) = ipH := by
    apply UInt32.toNat_inj.1
    rw [tundIpStart_add hk]
    omega
  rw [poolIp, heq]

/-- An address that is handed out lies in the pool and no active peer holds it. -/
theorem serverAllocIp_cases (srv : Server) :
    (serverAllocIp srv = 0 ∧ ∀ k < poolSize, ∃ i, (srv.peers i).holds (poolIp k) = true) ∨
    (InPool (serverAllocIp srv) ∧ ∀ i, (srv.peers i).holds (serverAllocIp srv) = false) := by
  unfold serverAllocIp
  cases hf : SlotTable.first (n := poolSize) fun k =>
      !(SlotTable.first fun i => (srv.peers i).holds (poolIp k)).isSome with
  | none =>
    refine .inl ⟨rfl, fun k hk => ?_⟩
    have h := SlotTable.first_eq_none_iff.1 hf ⟨k, hk⟩
    simp only [Bool.not_eq_false', Option.isSome_iff_exists] at h
    obtain ⟨i, hi⟩ := h
    exact ⟨i, SlotTable.of_first_eq_some (p := fun i => (srv.peers i).holds (poolIp k)) hi⟩
  | some k =>
    refine .inr ⟨inPool_poolIp k.2, ?_⟩
    have h := SlotTable.of_first_eq_some hf
    simpa [SlotTable.first_eq_none_iff] using h

end Tund
