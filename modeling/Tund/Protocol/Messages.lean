import Tund.Protocol.Transport

/-!
# Message bodies

The builders `proto_build_*`, the peer-list builder of the server, and the readers of
the bodies.  A builder writes into the caller's buffer; the buffer and its length come
back with the process.

`Msg` names the messages with their arguments, `Msg.build` runs the builder of the
source, and `Msg.type`, `Msg.payload` say what a message puts on the wire.
`Msg.build_cases` is the one fact about builders that the rest of the development
uses: a builder fails, or the buffer holds exactly that type and payload.
-/

namespace Tund

def tundNameLen : ℕ := 32
def tundPeerEntrySize : ℕ := 37

/-! ### Builders -/

/-- A builder that writes the header for `payload` and then the payload. -/
def protoBuild (env : Env) (io : Proc) (buf : Bytes) (type : MsgType) (payload : Bytes) :
    Option ℕ × Bytes × Proc :=
  match protoWriteHdr env io buf type.code (UInt16.ofNat payload.length) with
  | (none, buf, io) => (none, buf, io)
  | (some _, buf, io) =>
    (some (tundHdrSize + payload.length), Bytes.patch buf tundHdrSize payload, io)

/-- The body of REGISTER: at most 32 bytes of the name, without a NUL. -/
def registerPayload (name : Bytes) : Bytes :=
  let nlen := (Bytes.cstr name).length % 2 ^ 16
  name.take (if tundNameLen < nlen then tundNameLen else nlen)

/-- `proto_build_register` -/
def protoBuildRegister (env : Env) (io : Proc) (buf : Bytes) (name : Bytes) :=
  protoBuild env io buf .register (registerPayload name)

/-- `proto_build_assign` -/
def protoBuildAssign (env : Env) (io : Proc) (buf : Bytes) (virtIp netmask : UInt32)
    (mtu : UInt16) :=
  protoBuild env io buf .assign (memOfU32 virtIp ++ memOfU32 netmask ++ Bytes.be 2 mtu.toNat)

/-- The body of DATA: the length of the packet is cast to 16 bits by the callers. -/
def dataPayload (ipPkt : Bytes) : Bytes := ipPkt.take (UInt16.ofNat ipPkt.length).toNat

/-- `proto_build_data`; a packet over 1600 bytes is refused by the header writer. -/
def protoBuildData (env : Env) (io : Proc) (buf : Bytes) (ipPkt : Bytes) :=
  protoBuild env io buf .data (dataPayload ipPkt)

/-- `proto_build_keepalive` -/
def protoBuildKeepalive (env : Env) (io : Proc) (buf : Bytes) (timestamp : UInt64) :=
  protoBuild env io buf .keepalive (Bytes.be 8 timestamp.toNat)

/-- `proto_build_keepalive_ack` -/
def protoBuildKeepaliveAck (env : Env) (io : Proc) (buf : Bytes) (timestamp : UInt64) :=
  protoBuild env io buf .keepaliveAck (Bytes.be 8 timestamp.toNat)

/-- `proto_build_disconnect` -/
def protoBuildDisconnect (env : Env) (io : Proc) (buf : Bytes) :=
  protoBuild env io buf .disconnect []

/-- The body of PEER_JOIN: the address and the first 31 bytes of the name, padded with NULs. -/
def peerJoinPayload (virtIp : UInt32) (name : Bytes) : Bytes :=
  memOfU32 virtIp ++ Bytes.pad tundNameLen ((Bytes.cstr name).take (tundNameLen - 1))

/-- `proto_build_peer_join` -/
def protoBuildPeerJoin (env : Env) (io : Proc) (buf : Bytes) (virtIp : UInt32) (name : Bytes) :=
  protoBuild env io buf .peerJoin (peerJoinPayload virtIp name)

/-- `proto_build_peer_leave` -/
def protoBuildPeerLeave (env : Env) (io : Proc) (buf : Bytes) (virtIp : UInt32) :=
  protoBuild env io buf .peerLeave (memOfU32 virtIp)

/-! ### Peer entries -/

/-- A row of a peer list: address and name. -/
structure PeerEntry where
  virtIp : UInt32
  name : Bytes
  deriving DecidableEq

/-- The 37 bytes of an entry: address, name cut at 31 bytes and padded, status. -/
def peerEntryBytes (virtIp : UInt32) (name : Bytes) (online : Bool) : Bytes :=
  memOfU32 virtIp ++
    Bytes.pad tundNameLen
      ((Bytes.cstr name).take (if tundNameLen ≤ (Bytes.cstr name).length then tundNameLen - 1
        else (Bytes.cstr name).length)) ++
    [if online then 1 else 0]

/-- `proto_write_peer_entry` at offset `off` of `buf`, with `payloadSize` bytes left there. -/
def protoWritePeerEntry (buf : Bytes) (off payloadSize : ℕ) (virtIp : UInt32) (name : Bytes)
    (online : Bool) : Bool × Bytes :=
  if payloadSize < tundPeerEntrySize then (false, buf)
  else (true, Bytes.patch buf off (peerEntryBytes virtIp name online))

/-- The loop of `build_peer_list_from_snapshot`: entries are written until one does not fit. -/
def peerListLoop (buf : Bytes) (offset count : ℕ) : List PeerEntry → Bytes × ℕ × ℕ
  | [] => (buf, offset, count)
  | e :: es =>
    match protoWritePeerEntry buf (tundHdrSize + offset) (tundMaxPlaintext - offset) e.virtIp e.name
        true with
    | (false, _) => (buf, offset, count)
    | (true, buf) => peerListLoop buf (offset + tundPeerEntrySize) (count + 1) es

/-- `build_peer_list_from_snapshot`; the result of `proto_write_hdr` is not looked at. -/
def buildPeerListFromSnapshot (env : Env) (io : Proc) (buf : Bytes) (entries : List PeerEntry) :
    Option ℕ × Bytes × Proc :=
  match peerListLoop buf 0 0 entries with
  | (buf, offset, _) =>
    match protoWriteHdr env io buf MsgType.peerList.code (UInt16.ofNat offset) with
    | (_, buf, io) => (some (tundHdrSize + offset), buf, io)

/-! ### Readers -/

/-- `proto_read_keepalive_timestamp` -/
def protoReadKeepaliveTimestamp (payload : Bytes) : Option UInt64 :=
  if payload.length < 8 then none else some (UInt64.ofNat (Bytes.ofBe (payload.take 8)))

/-- `proto_read_peer_entry`: address, the 32 bytes of the name with a NUL forced into the last one,
and the status. -/
def protoReadPeerEntry (payload : Bytes) (index : ℕ) : Option (UInt32 × Bytes × Bool) :=
  let offset := index * tundPeerEntrySize
  if payload.length < offset + tundPeerEntrySize then none
  else
    some (u32OfMem (Bytes.slice payload offset 4),
      Bytes.slice payload (offset + 4) (tundNameLen - 1) ++ [0],
      payload.getD (offset + 4 + tundNameLen) 0 != 0)

/-- `proto_peer_entry_count` -/
def protoPeerEntryCount (payloadLen : ℕ) : ℕ := payloadLen / tundPeerEntrySize

/-! ### Messages -/

/-- A message with the arguments of its builder. -/
inductive Msg
  | register (name : Bytes)
  | assign (virtIp netmask : UInt32) (mtu : UInt16)
  | peerList (entries : List PeerEntry)
  | data (ipPkt : Bytes)
  | keepalive (timestamp : UInt64)
  | disconnect
  | peerJoin (virtIp : UInt32) (name : Bytes)
  | peerLeave (virtIp : UInt32)
  | keepaliveAck (timestamp : UInt64)

/-- Run the builder of a message. -/
def Msg.build (env : Env) (io : Proc) (buf : Bytes) : Msg → Option ℕ × Bytes × Proc
  | .register name => protoBuildRegister env io buf name
  | .assign virtIp netmask mtu => protoBuildAssign env io buf virtIp netmask mtu
  | .peerList entries => buildPeerListFromSnapshot env io buf entries
  | .data ipPkt => protoBuildData env io buf ipPkt
  | .keepalive timestamp => protoBuildKeepalive env io buf timestamp
  | .disconnect => protoBuildDisconnect env io buf
  | .peerJoin virtIp name => protoBuildPeerJoin env io buf virtIp name
  | .peerLeave virtIp => protoBuildPeerLeave env io buf virtIp
  | .keepaliveAck timestamp => protoBuildKeepaliveAck env io buf timestamp

/-- The number of entries that fit into one PEER_LIST. -/
def tundPeerListMax : ℕ := tundMaxPlaintext / tundPeerEntrySize

def Msg.type : Msg → MsgType
  | .register _ => .register
  | .assign .. => .assign
  | .peerList _ => .peerList
  | .data _ => .data
  | .keepalive _ => .keepalive
  | .disconnect => .disconnect
  | .peerJoin .. => .peerJoin
  | .peerLeave _ => .peerLeave
  | .keepaliveAck _ => .keepaliveAck

/-- What a message puts on the wire. -/
def Msg.payload : Msg → Bytes
  | .register name => registerPayload name
  | .assign virtIp netmask mtu => memOfU32 virtIp ++ memOfU32 netmask ++ Bytes.be 2 mtu.toNat
  | .peerList entries =>
    (entries.take tundPeerListMax).flatMap fun e => peerEntryBytes e.virtIp e.name true
  | .data ipPkt => dataPayload ipPkt
  | .keepalive timestamp => Bytes.be 8 timestamp.toNat
  | .disconnect => []
  | .peerJoin virtIp name => peerJoinPayload virtIp name
  | .peerLeave virtIp => memOfU32 virtIp
  | .keepaliveAck timestamp => Bytes.be 8 timestamp.toNat

/-- All builders but the one of PEER_LIST write the header first and check it. -/
theorem Msg.build_eq (env : Env) (io : Proc) (buf : Bytes) {m : Msg}
    (h : m.type ≠ .peerList) : m.build env io buf = protoBuild env io buf m.type m.payload := by
  cases m with
  | peerList entries => exact absurd rfl h
  | _ => rfl

theorem dataPayload_of_le {ipPkt : Bytes} (h : ipPkt.length ≤ tundMaxPlaintext) :
    dataPayload ipPkt = ipPkt := by
  rw [dataPayload, toNat_ofNat_payload h, List.take_length]

@[simp] theorem length_peerEntryBytes (virtIp : UInt32) (name : Bytes) (online : Bool) :
    (peerEntryBytes virtIp name online).length = tundPeerEntrySize := by
  simp [peerEntryBytes, tundNameLen, tundPeerEntrySize]

theorem length_peerList_payload (entries : List PeerEntry) :
    (entries.flatMap fun e => peerEntryBytes e.virtIp e.name true).length =
      tundPeerEntrySize * entries.length := by
  induction entries with
  | nil => rfl
  | cons e es ih => rw [List.flatMap_cons, List.length_append, ih, length_peerEntryBytes,
      List.length_cons]; ring

/-- Only DATA can be too long. -/
theorem Msg.length_payload_le {m : Msg} (h : m.type ≠ .data) :
    m.payload.length ≤ tundMaxPlaintext := by
  cases m with
  | register name =>
    have hle : (registerPayload name).length ≤ tundNameLen := by
      simp only [registerPayload, List.length_take]
      split_ifs <;> omega
    exact hle.trans (by decide)
  | peerList entries =>
    have hle : (entries.take tundPeerListMax).length ≤ tundPeerListMax := List.length_take_le _ _
    rw [Msg.payload, length_peerList_payload]
    exact (Nat.mul_le_mul_left _ hle).trans (by decide)
  | data ipPkt => exact absurd rfl h
  | _ => simp [Msg.payload, peerJoinPayload, tundNameLen, tundMaxPlaintext]

/-- Only the length of a DATA packet is up to the sender. -/
theorem Msg.length_payload_lt (m : Msg) : m.payload.length < 2 ^ 16 := by
  by_cases hm : m.type = .data
  · cases m with
    | data ipPkt => exact lt_of_le_of_lt (List.length_take_le _ _) (UInt16.toNat_lt _)
    | _ => cases hm
  · exact lt_of_le_of_lt (Msg.length_payload_le hm) (by decide)

theorem Msg.eq_peerList_of_type {m : Msg} (h : m.type = .peerList) :
    ∃ entries, m = .peerList entries := by
  cases m with
  | peerList entries => exact ⟨entries, rfl⟩
  | _ => cases h

/-! ### What a builder leaves in the buffer -/

theorem protoBuild_cases (env : Env) (io : Proc) {buf : Bytes} (hbuf : buf.length = tundMaxPkt)
    (type : MsgType) {payload : Bytes} (hp : payload.length < 2 ^ 16) :
    (protoBuild env io buf type payload).2.1.length = tundMaxPkt ∧
    ((protoBuild env io buf type payload).1 = none ∧
        ¬ (env.RandomWorks ∧ payload.length ≤ tundMaxPlaintext) ∨
      (protoBuild env io buf type payload).1 = some (tundHdrSize + payload.length) ∧
        Holds (protoBuild env io buf type payload).2.1 type.code payload ∧
        ∃ seq, SequenceDrawn env io (protoBuild env io buf type payload).2.2 seq ∧
          io.calls < (protoBuild env io buf type payload).2.2.calls) := by
  have hcast : (UInt16.ofNat payload.length).toNat = payload.length :=
    UInt16.toNat_ofNat_of_lt' hp
  rcases hw : protoWriteHdr env io buf type.code (UInt16.ofNat payload.length) with
    ⟨_ | n, b, io'⟩
  · have hb : protoBuild env io buf type payload = (none, b, io') := by simp [protoBuild, hw]
    rw [hb]
    by_cases hle : payload.length ≤ tundMaxPlaintext
    · have hany := protoWriteHdr_any env io buf type.code (hcast ▸ hle)
        (by rw [hbuf]; decide)
      rw [hw] at hany
      refine ⟨hany.2.2.trans hbuf, .inl ⟨rfl, fun ⟨hr, _⟩ => ?_⟩⟩
      obtain ⟨n, b', io'', hw'⟩ := protoWriteHdr_of_works hr io buf type.code (hcast ▸ hle)
      rw [hw] at hw'
      cases hw'
    · have hsame : b = buf := by
        have : tundMaxPlaintext < (UInt16.ofNat payload.length).toNat := by rw [hcast]; omega
        simp only [protoWriteHdr, if_pos this, Prod.mk.injEq, true_and] at hw
        exact hw.1.symm
      exact ⟨hsame ▸ hbuf, .inl ⟨rfl, fun ⟨_, h⟩ => hle h⟩⟩
  · obtain ⟨hle, -, seq, nonce, hn, hd, hc, rfl⟩ := protoWriteHdr_some hw
    rw [hcast] at hle
    have hb : protoBuild env io buf type payload =
        (some (tundHdrSize + payload.length),
          frameBytes type.code seq nonce payload ++ buf.drop (tundHdrSize + payload.length),
          io') := by
      have hl : (hdrBytes type.code (UInt16.ofNat payload.length) seq nonce).length = tundHdrSize :=
        length_hdrBytes hn
      have h := Bytes.patch_adjacent buf payload hl.symm
      rw [List.length_append, hl] at h
      simp only [protoBuild, hw, h, frameBytes]
    rw [hb]
    refine ⟨?_, .inr ⟨rfl, holds_frameBytes _ hn hle, seq, hd, hc⟩⟩
    simp only [frameBytes, List.length_append, length_hdrBytes hn, List.length_drop, hbuf]
    simp only [tundMaxPkt, tundMaxPayload, tundMaxPlaintext, tundAuthTagSize, tundHdrSize] at *
    omega

/-- The peer-list loop writes the entries that fit, one behind the other. -/
theorem peerListLoop_eq {buf : Bytes} (hbuf : buf.length = tundMaxPkt) (es : List PeerEntry)
    (count : ℕ) (hc : count ≤ tundPeerListMax) :
    peerListLoop buf (tundPeerEntrySize * count) count es =
      (Bytes.patch buf (tundHdrSize + tundPeerEntrySize * count)
          ((es.take (tundPeerListMax - count)).flatMap fun e => peerEntryBytes e.virtIp e.name true),
        tundPeerEntrySize * (count + min es.length (tundPeerListMax - count)),
        count + min es.length (tundPeerListMax - count)) := by
  induction es generalizing buf count with
  | nil => simp [peerListLoop]
  | cons e es ih =>
    simp only [peerListLoop, protoWritePeerEntry]
    by_cases hfull : count = tundPeerListMax
    · subst hfull
      have hlt : tundMaxPlaintext - tundPeerEntrySize * tundPeerListMax < tundPeerEntrySize := by
        decide
      simp [hlt]
    · have hroom : ¬ tundMaxPlaintext - tundPeerEntrySize * count < tundPeerEntrySize := by
        simp only [tundPeerListMax, tundMaxPlaintext, tundPeerEntrySize] at hc hfull ⊢
        omega
      have hin : tundHdrSize + tundPeerEntrySize * count + tundPeerEntrySize ≤ buf.length := by
        rw [hbuf]
        simp only [tundPeerListMax, tundMaxPlaintext, tundPeerEntrySize, tundHdrSize, tundMaxPkt,
          tundMaxPayload, tundAuthTagSize] at hc hfull ⊢
        omega
      have hnext : tundPeerEntrySize * count + tundPeerEntrySize =
          tundPeerEntrySize * (count + 1) := by ring
      have hsub : tundPeerListMax - count = tundPeerListMax - (count + 1) + 1 := by omega
      have hcount : count + 1 + min es.length (tundPeerListMax - (count + 1)) =
          count + min (es.length + 1) (tundPeerListMax - (count + 1) + 1) := by omega
      have hoff : tundHdrSize + tundPeerEntrySize * (count + 1) =
          tundHdrSize + tundPeerEntrySize * count +
            (peerEntryBytes e.virtIp e.name true).length := by
        rw [length_peerEntryBytes]; ring
      have hlen : (Bytes.patch buf (tundHdrSize + tundPeerEntrySize * count)
          (peerEntryBytes e.virtIp e.name true)).length = tundMaxPkt := by
        rw [Bytes.length_patch (by rw [length_peerEntryBytes]; exact hin), hbuf]
      rw [if_neg hroom]
      simp only
      rw [hnext, ih hlen (count + 1) (by omega), hsub, List.take_succ_cons, List.flatMap_cons,
        List.length_cons, hcount, hoff, Bytes.patch_patch (by omega)]

theorem buildPeerList_cases (env : Env) (io : Proc) {buf : Bytes} (hbuf : buf.length = tundMaxPkt)
    (entries : List PeerEntry) :
    let r := buildPeerListFromSnapshot env io buf entries
    let payload := (Msg.peerList entries).payload
    r.2.1.length = tundMaxPkt ∧ r.1 = some (tundHdrSize + payload.length) ∧
      Holds r.2.1 MsgType.peerList.code payload ∧
      (env.RandomWorks → ∃ seq, SequenceDrawn env io r.2.2 seq ∧ io.calls < r.2.2.calls) := by
  intro r payload
  have hloop := peerListLoop_eq hbuf entries 0 (Nat.zero_le _)
  simp only [Nat.mul_zero, Nat.add_zero, Nat.sub_zero, Nat.zero_add] at hloop
  have hpay : payload = (entries.take tundPeerListMax).flatMap
      fun e => peerEntryBytes e.virtIp e.name true := rfl
  have hlen : payload.length = tundPeerEntrySize * min entries.length tundPeerListMax := by
    rw [hpay, length_peerList_payload, List.length_take, Nat.min_comm]
  have hle : payload.length ≤ tundMaxPlaintext := by
    rw [hlen]
    exact le_trans (Nat.mul_le_mul_left _ (Nat.min_le_right _ _)) (by decide)
  set b := Bytes.patch buf tundHdrSize payload with hb
  have hin : tundHdrSize + payload.length ≤ buf.length := by
    rw [hbuf]
    simp only [tundMaxPkt, tundMaxPayload, tundAuthTagSize]
    omega
  have hbl : b.length = tundMaxPkt := by rw [hb, Bytes.length_patch hin, hbuf]
  have hcast := toNat_ofNat_payload hle
  have hany := protoWriteHdr_any env io b MsgType.peerList.code (hcast ▸ hle)
    (by rw [hbl]; decide)
  have hr : r = (some (tundHdrSize + payload.length),
      (protoWriteHdr env io b MsgType.peerList.code (UInt16.ofNat payload.length)).2.1,
      (protoWriteHdr env io b MsgType.peerList.code (UInt16.ofNat payload.length)).2.2) := by
    simp only [r, buildPeerListFromSnapshot, hloop, hlen, ← hpay, ← hb]
  rw [hr]
  set w := protoWriteHdr env io b MsgType.peerList.code (UInt16.ofNat payload.length) with hw
  refine ⟨hany.2.2.trans hbl, rfl, ⟨hle, hany.1, w.2.1.take tundHdrSize,
    buf.drop (tundHdrSize + payload.length), ?_, ?_⟩, fun hrand => ?_⟩
  · rw [List.length_take, hany.2.2, hbl]; decide
  · have hdrop : b.drop tundHdrSize = payload ++ buf.drop (tundHdrSize + payload.length) := by
      rw [hb, Bytes.patch, List.append_assoc,
        List.drop_left' (by rw [List.length_take]; omega)]
    rw [List.append_assoc, ← hdrop, ← hany.2.1, List.take_append_drop]
  · obtain ⟨n, b', io', hw'⟩ := protoWriteHdr_of_works hrand io b MsgType.peerList.code
      (hcast ▸ hle)
    obtain ⟨-, -, seq, nonce, -, hd, hc, -⟩ := protoWriteHdr_some hw'
    rw [hw, hw']
    exact ⟨seq, hd, hc⟩

/-- **Builders.**  A builder keeps the size of the buffer and either fails, which a working random
source excludes up to 1600 bytes, or leaves its message in the buffer. -/
theorem Msg.build_cases (env : Env) (io : Proc) {buf : Bytes} (hbuf : buf.length = tundMaxPkt)
    (m : Msg) :
    (m.build env io buf).2.1.length = tundMaxPkt ∧
    ((m.build env io buf).1 = none ∧
        ¬ (env.RandomWorks ∧ m.payload.length ≤ tundMaxPlaintext) ∨
      (m.build env io buf).1 = some (tundHdrSize + m.payload.length) ∧
        Holds (m.build env io buf).2.1 m.type.code m.payload ∧
        (env.RandomWorks → ∃ seq, SequenceDrawn env io (m.build env io buf).2.2 seq ∧
          io.calls < (m.build env io buf).2.2.calls)) := by
  by_cases ht : m.type = .peerList
  · obtain ⟨entries, rfl⟩ := Msg.eq_peerList_of_type ht
    obtain ⟨h1, h2, h3, h4⟩ := buildPeerList_cases env io hbuf entries
    exact ⟨h1, .inr ⟨h2, h3, h4⟩⟩
  · rw [Msg.build_eq env io buf ht]
    obtain ⟨h1, h2 | ⟨h2, h3, h4⟩⟩ := protoBuild_cases env io hbuf m.type m.length_payload_lt
    · exact ⟨h1, .inl h2⟩
    · exact ⟨h1, .inr ⟨h2, h3, fun _ => h4⟩⟩

theorem protoBuild_out (env : Env) (io : Proc) (buf : Bytes) (type : MsgType) (payload : Bytes) :
    (protoBuild env io buf type payload).2.2.out = io.out ∧
      (protoBuild env io buf type payload).2.2.running = io.running := by
  have hw := protoWriteHdr_out env io buf type.code (UInt16.ofNat payload.length)
  rcases h : protoWriteHdr env io buf type.code (UInt16.ofNat payload.length) with ⟨_ | n, b, io'⟩ <;>
    rw [h] at hw <;> simpa [protoBuild, h] using hw

/-- Building puts nothing out. -/
theorem Msg.build_out (env : Env) (io : Proc) (buf : Bytes) (m : Msg) :
    (m.build env io buf).2.2.out = io.out ∧ (m.build env io buf).2.2.running = io.running := by
  by_cases ht : m.type = .peerList
  · obtain ⟨entries, rfl⟩ := Msg.eq_peerList_of_type ht
    exact protoWriteHdr_out env io _ _ _
  · rw [Msg.build_eq env io buf ht]
    exact protoBuild_out env io buf _ _

/-! ### What the readers make of a message -/

/-- The first 31 bytes of a C string: what is left of a name in a table entry. -/
def shortName (name : Bytes) : Bytes := (Bytes.cstr name).take (tundNameLen - 1)

theorem shortName_cstr (b : Bytes) : shortName (Bytes.cstr b) = shortName b := by
  rw [shortName, Bytes.cstr_cstr, shortName]

@[simp] theorem shortName_shortName (b : Bytes) : shortName (shortName b) = shortName b := by
  rw [shortName, shortName, Bytes.cstr_take, Bytes.cstr_cstr, List.take_take, Nat.min_self]

theorem length_shortName (b : Bytes) : (shortName b).length ≤ tundNameLen - 1 := by
  rw [shortName, List.length_take]
  omega

/-- The name field of a message: 32 bytes that hold the short name. -/
def nameField (name : Bytes) : Bytes := Bytes.pad tundNameLen (shortName name)

@[simp] theorem length_nameField (name : Bytes) : (nameField name).length = tundNameLen :=
  Bytes.length_pad _ _

@[simp] theorem cstr_nameField (name : Bytes) : Bytes.cstr (nameField name) = shortName name := by
  rw [nameField, Bytes.cstr_pad, shortName, Bytes.cstr_take, Bytes.cstr_cstr, List.take_take]
  rfl

theorem peerJoinPayload_eq (virtIp : UInt32) (name : Bytes) :
    peerJoinPayload virtIp name = memOfU32 virtIp ++ nameField name := rfl

theorem peerEntryBytes_eq (virtIp : UInt32) (name : Bytes) (online : Bool) :
    peerEntryBytes virtIp name online =
      memOfU32 virtIp ++ nameField name ++ [if online then 1 else 0] := by
  have h : (Bytes.cstr name).take (if tundNameLen ≤ (Bytes.cstr name).length then tundNameLen - 1
      else (Bytes.cstr name).length) = shortName name := by
    split_ifs with hlen
    · rfl
    · rw [List.take_length, shortName, List.take_of_length_le (by omega)]
  rw [peerEntryBytes, h, nameField]

/-- Reading an entry gives what was written: address, name field and status. -/
theorem protoReadPeerEntry_append {pre : Bytes} {i : ℕ} (hpre : pre.length = i * tundPeerEntrySize)
    (virtIp : UInt32) (name : Bytes) (online : Bool) (rest : Bytes) :
    protoReadPeerEntry (pre ++ peerEntryBytes virtIp name online ++ rest) i =
      some (virtIp, nameField name, online) := by
  have hentry := length_peerEntryBytes virtIp name online
  have hlen : ¬ (pre ++ peerEntryBytes virtIp name online ++ rest).length <
      i * tundPeerEntrySize + tundPeerEntrySize := by
    rw [List.length_append, List.length_append, hentry, hpre]
    omega
  have hip : Bytes.slice (pre ++ peerEntryBytes virtIp name online ++ rest) (i * tundPeerEntrySize) 4 =
      memOfU32 virtIp := by
    rw [List.append_assoc, Bytes.slice_append hpre.symm, peerEntryBytes_eq, List.append_assoc,
      List.append_assoc, List.take_left' (by simp)]
  have hname : Bytes.slice (pre ++ peerEntryBytes virtIp name online ++ rest)
      (i * tundPeerEntrySize + 4) (tundNameLen - 1) ++ [0] = nameField name := by
    rw [peerEntryBytes_eq]
    have hsplit : pre ++ (memOfU32 virtIp ++ nameField name ++ [if online then 1 else 0]) ++ rest =
        (pre ++ memOfU32 virtIp) ++ (nameField name ++ ([if online then 1 else 0] ++ rest)) := by
      simp
    rw [hsplit, Bytes.slice_append (by simp [hpre]), List.take_append_of_le_length (by simp)]
    exact Bytes.take_pad_append_zero (length_shortName name)
  have hstatus : (pre ++ peerEntryBytes virtIp name online ++ rest).getD
      (i * tundPeerEntrySize + 4 + tundNameLen) 0 = if online then 1 else 0 := by
    have hsplit : pre ++ peerEntryBytes virtIp name online ++ rest =
        (pre ++ memOfU32 virtIp ++ nameField name) ++ ((if online then 1 else 0) :: rest) := by
      simp [peerEntryBytes_eq]
    have hl : (pre ++ memOfU32 virtIp ++ nameField name).length =
        i * tundPeerEntrySize + 4 + tundNameLen := by simp [hpre, Nat.add_assoc]
    rw [hsplit, List.getD_eq_getElem?_getD, ← hl, List.getElem?_append_right le_rfl]
    simp
  simp only [protoReadPeerEntry, if_neg hlen, hip, hname, hstatus, u32OfMem_memOfU32]
  cases online <;> rfl

theorem protoReadKeepaliveTimestamp_be (timestamp : UInt64) :
    protoReadKeepaliveTimestamp (Bytes.be 8 timestamp.toNat) = some timestamp := by
  have hlt : timestamp.toNat < 256 ^ 8 := by simpa using timestamp.toNat_lt
  have htake : (Bytes.be 8 timestamp.toNat).take 8 = Bytes.be 8 timestamp.toNat :=
    List.take_of_length_le (by simp)
  rw [protoReadKeepaliveTimestamp, if_neg (by simp), htake, Bytes.ofBe_be_of_lt hlt,
    UInt64.ofNat_toNat]

end Tund
