import Tund.Lib.SlotTable
import Tund.Protocol.Messages
import Tund.Protocol.Replay

/-!
# Peers

`peer_t`, the entry of the peer tables on both sides, and `smooth_rtt_ms`.
-/

namespace Tund

def tundMaxPeers : ℕ := 253
def tundRttSmoothingWeight : UInt64 := 7

/-- An index into the peer table. -/
abbrev Slot := Fin tundMaxPeers

instance : NeZero tundMaxPeers := ⟨by decide⟩

/-- A `char name[32]`. -/
abbrev NameBuf := {b : Bytes // b.length = tundNameLen}

/-- A name buffer cleared and then filled with at most 31 bytes. -/
def NameBuf.ofBytes (b : Bytes) : NameBuf :=
  ⟨Bytes.pad tundNameLen (b.take (tundNameLen - 1)), Bytes.length_pad _ _⟩

/-- `peer_t` -/
structure Peer where
  active : Bool
  virtIp : UInt32
  name : NameBuf
  realAddr : SockAddr
  lastSeen : ℤ
  bytesIn : UInt64
  bytesOut : UInt64
  rttMs : UInt64
  hasRtt : Bool
  replay : ReplayWindow

/-- The entry that `memset` leaves. -/
def Peer.zero : Peer :=
  ⟨false, 0, NameBuf.ofBytes [], ⟨0, 0, 0⟩, 0, 0, 0, 0, false, ⟨0, 0⟩⟩

/-- The entry is active and belongs to this address and port. -/
def Peer.isAt (p : Peer) (addr : SockAddr) : Bool :=
  p.active && p.realAddr.sinAddr = addr.sinAddr && p.realAddr.sinPort = addr.sinPort

/-- The entry is active and holds this virtual IP. -/
def Peer.holds (p : Peer) (virtIp : UInt32) : Bool := p.active && p.virtIp = virtIp

/-- The name of an entry as `snprintf(.., "%s", ..)` copies it into 32 bytes. -/
def Peer.cName (p : Peer) : Bytes := (Bytes.cstr p.name.1).take (tundNameLen - 1)

/-- `smooth_rtt_ms` -/
def smoothRttMs (current sample : UInt64) (hasCurrent : Bool) : UInt64 :=
  if hasCurrent then
    (current * tundRttSmoothingWeight + sample + tundRttSmoothingWeight / 2) /
      (tundRttSmoothingWeight + 1)
  else sample

theorem zero_mem_ofBytes (b : Bytes) : 0 ∈ (NameBuf.ofBytes b).1 := by
  apply Bytes.zero_mem_pad
  rw [List.length_take]
  simp only [tundNameLen]
  omega

/-- The copy of a name that is a string is the string. -/
theorem Peer.cName_eq {p : Peer} (h : 0 ∈ p.name.1) : p.cName = Bytes.cstr p.name.1 := by
  apply List.take_of_length_le
  have hlt : (Bytes.cstr p.name.1).length < p.name.1.length := by
    apply lt_of_le_of_ne (List.takeWhile_sublist _).length_le
    intro heq
    have hall : Bytes.cstr p.name.1 = p.name.1 := (List.takeWhile_sublist _).eq_of_length heq
    exact Bytes.ne_zero_of_mem_cstr (hall.symm ▸ h) rfl
  rw [p.name.2] at hlt
  omega

theorem Peer.isAt_iff {p : Peer} {addr : SockAddr} : p.isAt addr = true ↔
    p.active = true ∧ p.realAddr.sinAddr = addr.sinAddr ∧ p.realAddr.sinPort = addr.sinPort := by
  simp [Peer.isAt, and_assoc]

theorem Peer.holds_iff {p : Peer} {virtIp : UInt32} :
    p.holds virtIp = true ↔ p.active = true ∧ p.virtIp = virtIp := by
  simp [Peer.holds]

theorem Peer.isAt_congr {p : Peer} {a b : SockAddr} (h : a.sinAddr = b.sinAddr)
    (hp : a.sinPort = b.sinPort) : p.isAt a = p.isAt b := by
  rw [Peer.isAt, Peer.isAt, h, hp]

end Tund
