import Tund.Lib.Memory
import Tund.Protocol.Ipv4
import Tund.Protocol.Messages

/-!
# Memory accesses of the message readers and of the peer list builder

The functions that read a payload, and the builder of PEER_LIST, with checked accesses.  A
reader may read the first `payload_len` bytes, which are the bytes of `payload`.  Each of
them equals the function without the checks.
-/

namespace Tund

open Memory

namespace Checked

/-- `proto_read_keepalive_timestamp` -/
def protoReadKeepaliveTimestamp (payload : Bytes) : Except Fault (Option UInt64) :=
  if payload.length < 8 then .ok none
  else do
    let bytes ← (List.range 8).mapM fun i => byteAt payload (0 + i)
    .ok (some (UInt64.ofNat (Bytes.ofBe bytes)))

/-- `proto_read_peer_entry` -/
def protoReadPeerEntry (payload : Bytes) (index : ℕ) : Except Fault (Option (UInt32 × Bytes × Bool)) :=
  let offset := index * tundPeerEntrySize
  if payload.length < offset + tundPeerEntrySize then .ok none
  else do
    let virtIp ← load payload offset 4
    let name ← load payload (offset + 4) tundNameLen
    let status ← byteAt payload (offset + 4 + tundNameLen)
    .ok (some (u32OfMem virtIp, name.take (tundNameLen - 1) ++ [0], status != 0))

/-- `proto_get_src_ip` -/
def protoGetSrcIp (ipPkt : Bytes) : Except Fault UInt32 :=
  if ipPkt.length < 20 then .ok 0 else return u32OfMem (← load ipPkt 12 4)

/-- `proto_get_dst_ip` -/
def protoGetDstIp (ipPkt : Bytes) : Except Fault UInt32 :=
  if ipPkt.length < 20 then .ok 0 else return u32OfMem (← load ipPkt 16 4)

/-- `proto_validate_ipv4_packet` -/
def protoValidateIpv4Packet (ipPkt : Bytes) : Except Fault (Option Ipv4Error) :=
  let len := ipPkt.length
  if len < 20 then .ok (some .tooShort)
  else do
    let first ← byteAt ipPkt 0
    if first >>> 4 ≠ 4 then return some .badVersion
    let ihl := ((first &&& 0x0F) * 4).toNat
    if ihl < 20 then return some .badIhl
    if len < ihl then return some .truncated
    let totalLen := Bytes.ofBe (← (List.range 2).mapM fun i => byteAt ipPkt (2 + i))
    if totalLen < ihl then return some .lengthMismatch
    if len < totalLen then return some .truncated
    if totalLen ≠ len then return some .lengthMismatch
    let src := htonl (← protoGetSrcIp ipPkt)
    let dst := htonl (← protoGetDstIp ipPkt)
    if src &&& tundNetmask ≠ tundSubnet ∨ src = tundSubnet ∨ src = tundBroadcast then
      return some .badSrc
    if dst = tundSubnet then return some .badDst
    if dst ≠ tundBroadcast ∧ dst &&& tundNetmask ≠ tundSubnet then return some .badDst
    return none

/-- The loop of `build_peer_list_from_snapshot`: the size that is left is computed in `size_t`, and
an entry is written only inside the plaintext area. -/
def peerListLoop (buf : Bytes) (offset count : ℕ) : List PeerEntry → Except Fault (Bytes × ℕ × ℕ)
  | [] => .ok (buf, offset, count)
  | e :: es => do
    let size ← sub tundMaxPlaintext offset
    match protoWritePeerEntry buf (tundHdrSize + offset) size e.virtIp e.name true with
    | (false, _) => .ok (buf, offset, count)
    | (true, buf) =>
      if tundMaxPlaintext < offset + tundPeerEntrySize then .error .store
      else peerListLoop buf (offset + tundPeerEntrySize) (count + 1) es

/-- `build_peer_list_from_snapshot` -/
def buildPeerListFromSnapshot (env : Env) (io : Proc) (buf : Bytes) (entries : List PeerEntry) :
    Except Fault (Option ℕ × Bytes × Proc) := do
  let (buf, offset, _) ← peerListLoop buf 0 0 entries
  match protoWriteHdr env io buf MsgType.peerList.code (UInt16.ofNat offset) with
  | (_, buf, io) => .ok (some (tundHdrSize + offset), buf, io)

/-! ### They stay in bounds -/

theorem protoReadKeepaliveTimestamp_eq (payload : Bytes) :
    protoReadKeepaliveTimestamp payload = .ok (Tund.protoReadKeepaliveTimestamp payload) := by
  unfold protoReadKeepaliveTimestamp Tund.protoReadKeepaliveTimestamp
  split_ifs with h
  · rfl
  · rw [mapM_byteAt 8 (by omega)]
    rfl

theorem protoReadPeerEntry_eq (payload : Bytes) (index : ℕ) :
    protoReadPeerEntry payload index = .ok (Tund.protoReadPeerEntry payload index) := by
  unfold protoReadPeerEntry Tund.protoReadPeerEntry
  dsimp only
  split_ifs with h
  · rfl
  · have hin : index * tundPeerEntrySize + 37 ≤ payload.length := not_lt.1 h
    have hname : (Bytes.slice payload (index * tundPeerEntrySize + 4) tundNameLen).take (tundNameLen - 1) =
        Bytes.slice payload (index * tundPeerEntrySize + 4) (tundNameLen - 1) := by
      rw [Bytes.slice, List.take_take]
      rfl
    rw [load_eq (by omega), load_eq (by simp only [tundNameLen]; omega),
      byteAt_eq (by simp only [tundNameLen]; omega)]
    show Except.ok _ = _
    rw [hname]

theorem protoGetSrcIp_eq (ipPkt : Bytes) : protoGetSrcIp ipPkt = .ok (Tund.protoGetSrcIp ipPkt) := by
  unfold protoGetSrcIp Tund.protoGetSrcIp
  split_ifs with h
  · rfl
  · rw [load_eq (by omega)]
    rfl

theorem protoGetDstIp_eq (ipPkt : Bytes) : protoGetDstIp ipPkt = .ok (Tund.protoGetDstIp ipPkt) := by
  unfold protoGetDstIp Tund.protoGetDstIp
  split_ifs with h
  · rfl
  · rw [load_eq (by omega)]
    rfl

theorem protoValidateIpv4Packet_eq (ipPkt : Bytes) :
    protoValidateIpv4Packet ipPkt = .ok (Tund.protoValidateIpv4Packet ipPkt) := by
  unfold protoValidateIpv4Packet Tund.protoValidateIpv4Packet
  dsimp only
  by_cases h : ipPkt.length < 20
  · rw [if_pos h, if_pos h]
  · rw [if_neg h, if_neg h, byteAt_eq (by omega), mapM_byteAt 2 (by omega), protoGetSrcIp_eq,
      protoGetDstIp_eq]
    simp only [bind, Except.bind, pure, Except.pure, apply_ite (Except.ok (ε := Fault))]

/-- A multiple of the entry size that leaves no room for one more is still inside the area. -/
theorem peerListLoop_checked (buf : Bytes) (count : ℕ) (es : List PeerEntry)
    (h : tundPeerEntrySize * count ≤ tundMaxPlaintext) :
    peerListLoop buf (tundPeerEntrySize * count) count es =
      .ok (Tund.peerListLoop buf (tundPeerEntrySize * count) count es) := by
  induction es generalizing buf count with
  | nil => rfl
  | cons e es ih =>
    unfold peerListLoop Tund.peerListLoop
    rw [sub_eq h]
    simp only [bind, Except.bind, protoWritePeerEntry]
    by_cases hfull : tundMaxPlaintext - tundPeerEntrySize * count < tundPeerEntrySize
    · rw [if_pos hfull]
    · have hin : tundPeerEntrySize * count + tundPeerEntrySize ≤ tundMaxPlaintext := by omega
      have hnext : tundPeerEntrySize * count + tundPeerEntrySize = tundPeerEntrySize * (count + 1) := by
        ring
      rw [if_neg hfull]
      simp only
      rw [if_neg (not_lt.2 hin), hnext]
      exact ih _ _ (hnext ▸ hin)

theorem buildPeerListFromSnapshot_eq (env : Env) (io : Proc) (buf : Bytes) (entries : List PeerEntry) :
    buildPeerListFromSnapshot env io buf entries =
      .ok (Tund.buildPeerListFromSnapshot env io buf entries) := by
  have hloop := peerListLoop_checked buf 0 entries (by simp)
  rw [Nat.mul_zero] at hloop
  unfold buildPeerListFromSnapshot Tund.buildPeerListFromSnapshot
  rw [hloop]
  rfl

end Checked

end Tund
