import Tund.Protocol.Header
import Tund.Protocol.Monocypher

/-!
# Encrypted transport

`proto_encrypt` and `proto_decrypt` work in place on one buffer; `net_send` and
`net_recv` put them in front of the socket.  The length field of a header counts the
plaintext in a built datagram and the ciphertext with its tag on the wire.

`wireBytes` is the wire form of a message.  `protoEncrypt_some` and
`protoDecrypt_wireBytes` say that encryption produces it and that decryption undoes
it; `protoDecrypt_isSome_iff` says exactly when decryption succeeds.
-/

namespace Tund

/-- `proto_encrypt` on the first `len` bytes of `buf`. -/
def protoEncrypt (env : Env) (io : Proc) (buf : Bytes) (len : ℕ) : Option ℕ × Bytes × Proc :=
  if len < tundHdrSize then (none, buf, io)
  else
    match protoReadHdr buf with
    | .error _ => (none, buf, io)
    | .ok (type, payloadLen) =>
      let plaintextLen := len - tundHdrSize
      if tundMaxPlaintext < plaintextLen then (none, buf, io)
      else if payloadLen ≠ UInt16.ofNat plaintextLen then (none, buf, io)
      else
        match protoWriteHdr env io buf type (UInt16.ofNat plaintextLen) with
        | (none, buf, io) => (none, buf, io)
        | (some _, buf, io) =>
          let wirePayloadLen := UInt16.ofNat (plaintextLen + tundAuthTagSize)
          let buf := protoWritePayloadLen buf wirePayloadLen
          let locked := env.aead.lock env.key (Bytes.slice buf tundNonceOffset tundNonceSize)
            (Bytes.slice buf 0 tundHdrSize) (Bytes.slice buf tundHdrSize plaintextLen)
          let buf := Bytes.patch buf tundHdrSize locked.1
          let buf := Bytes.patch buf (tundHdrSize + plaintextLen) locked.2
          (some (tundHdrSize + wirePayloadLen.toNat), buf, io)

/-- `proto_decrypt` on the first `len` bytes of `buf`. -/
def protoDecrypt (aead : Aead) (key : Bytes) (buf : Bytes) (len : ℕ) : Option ℕ × Bytes :=
  if len < tundHdrSize + tundAuthTagSize then (none, buf)
  else
    match protoReadHdr buf with
    | .error _ => (none, buf)
    | .ok (_, wirePayloadLen) =>
      if wirePayloadLen.toNat < tundAuthTagSize ∨ tundHdrSize + wirePayloadLen.toNat ≠ len then
        (none, buf)
      else
        let plaintextLen := wirePayloadLen.toNat - tundAuthTagSize
        if tundMaxPlaintext < plaintextLen then (none, buf)
        else
          match aead.unlock key (Bytes.slice buf tundNonceOffset tundNonceSize)
              (Bytes.slice buf 0 tundHdrSize) (Bytes.slice buf tundHdrSize plaintextLen)
              (Bytes.slice buf (tundHdrSize + plaintextLen) tundAuthTagSize) with
          | none => (none, buf)
          | some plaintext =>
            let buf := Bytes.patch buf tundHdrSize plaintext
            let buf := protoWritePayloadLen buf (UInt16.ofNat plaintextLen)
            (some (tundHdrSize + plaintextLen), buf)

/-- `net_send`; a `len` of `none` is the `-1` of a failed builder. -/
def netSend (env : Env) (io : Proc) (buf : Bytes) (len : Option ℕ) (dest : SockAddr) :
    Bool × Proc :=
  match len with
  | none => (false, io)
  | some len =>
    if len < tundHdrSize then (false, io)
    else if tundHdrSize + tundMaxPlaintext < len then (false, io)
    else
      match protoEncrypt env io (buf.take len) len with
      | (none, _, io) => (false, io)
      | (some wireLen, wire, io) =>
        let sent := env.sendto io.calls
        (sent, { io with
          calls := io.calls + 1
          out := io.out ++ [.datagram ⟨dest, buf.take len, wire.take wireLen, sent⟩] })

/-- `net_recv` of a datagram into a buffer of `TUND_MAX_PKT` bytes: the decrypted bytes, or
`none` for `NET_RECV_AUTH_FAILED`. -/
def netRecv (aead : Aead) (key : Bytes) (wire : Bytes) : Option Bytes :=
  let buf := wire.take tundMaxPkt
  match protoDecrypt aead key buf buf.length with
  | (none, _) => none
  | (some n, buf) => some (buf.take n)

/-! ### The wire form of a message -/

/-- A complete message in the clear, with the plaintext length in its header. -/
def frameBytes (type : UInt8) (seq : UInt64) (nonce payload : Bytes) : Bytes :=
  hdrBytes type (UInt16.ofNat payload.length) seq nonce ++ payload

/-- The header of a message on the wire. -/
def wireHdr (type : UInt8) (seq : UInt64) (nonce payload : Bytes) : Bytes :=
  hdrBytes type (UInt16.ofNat (payload.length + tundAuthTagSize)) seq nonce

/-- A message on the wire: header, ciphertext and tag. -/
def wireBytes (aead : Aead) (key : Bytes) (type : UInt8) (seq : UInt64) (nonce payload : Bytes) :
    Bytes :=
  wireHdr type seq nonce payload ++
    (aead.lock key nonce (wireHdr type seq nonce payload) payload).1 ++
    (aead.lock key nonce (wireHdr type seq nonce payload) payload).2

section Wire

variable {aead : Aead} {key : Bytes} {type : UInt8} {seq : UInt64} {nonce payload : Bytes}

theorem length_wireBytes (hn : nonce.length = tundNonceSize) :
    (wireBytes aead key type seq nonce payload).length =
      tundHdrSize + payload.length + tundAuthTagSize := by
  simp [wireBytes, wireHdr, length_hdrBytes hn, aead.length_cipher, aead.length_mac,
    tundAuthTagSize, Nat.add_assoc]

theorem toNat_ofNat_payload (hp : payload.length ≤ tundMaxPlaintext) :
    (UInt16.ofNat payload.length).toNat = payload.length := by
  rw [UInt16.toNat_ofNat_of_lt']
  simp only [tundMaxPlaintext] at hp
  exact lt_of_le_of_lt hp (by decide)

theorem toNat_ofNat_wirePayload (hp : payload.length ≤ tundMaxPlaintext) :
    (UInt16.ofNat (payload.length + tundAuthTagSize)).toNat = payload.length + tundAuthTagSize := by
  rw [UInt16.toNat_ofNat_of_lt']
  simp only [tundMaxPlaintext, tundAuthTagSize] at hp ⊢
  exact lt_of_le_of_lt (Nat.add_le_add_right hp 16) (by decide)

/-- A buffer that holds a message: 37 header bytes that name its type and length, then the
payload.  Sequence number and nonce are left open. -/
structure Holds (buf : Bytes) (type : UInt8) (payload : Bytes) : Prop where
  short : payload.length ≤ tundMaxPlaintext
  read : protoReadHdr buf = .ok (type, UInt16.ofNat payload.length)
  split : ∃ pre rest, pre.length = tundHdrSize ∧ buf = pre ++ payload ++ rest

theorem holds_frameBytes (rest : Bytes) (hn : nonce.length = tundNonceSize)
    (hp : payload.length ≤ tundMaxPlaintext) :
    Holds (frameBytes type seq nonce payload ++ rest) type payload where
  short := hp
  read := by rw [frameBytes, List.append_assoc, protoReadHdr_hdrBytes]
  split := ⟨_, rest, length_hdrBytes hn, rfl⟩

/-- Encrypting a message, if it succeeds, writes its wire form under a fresh sequence number and
nonce. -/
theorem protoEncrypt_some {env : Env} {io io' : Proc} {buf b : Bytes} {n : ℕ}
    (hb : Holds buf type payload)
    (he : protoEncrypt env io buf (tundHdrSize + payload.length) = (some n, b, io')) :
    n = tundHdrSize + payload.length + tundAuthTagSize ∧
    ∃ seq nonce, nonce.length = tundNonceSize ∧ SequenceDrawn env io io' seq ∧
      io.calls < io'.calls ∧ ∃ rest, b = wireBytes env.aead env.key type seq nonce payload ++ rest := by
  obtain ⟨hp, hread, pre, rest, hpre, hbuf⟩ := hb
  have h1 : ¬ tundHdrSize + payload.length < tundHdrSize := by omega
  have h2 : tundHdrSize + payload.length - tundHdrSize = payload.length := by omega
  have h3 : ¬ tundMaxPlaintext < payload.length := by omega
  rcases hw : protoWriteHdr env io buf type (UInt16.ofNat payload.length) with ⟨_ | m, b₁, io₁⟩
  · simp [protoEncrypt, hread, h2, h3, hw] at he
  obtain ⟨-, -, seq, nonce, hn, hd, hc, rfl⟩ := protoWriteHdr_some hw
  have hdrop : buf.drop tundHdrSize = payload ++ rest := by
    rw [hbuf, List.append_assoc, List.drop_left' hpre]
  rw [hdrop] at hw
  set h := wireHdr type seq nonce payload with hh
  have hhl : h.length = tundHdrSize := length_hdrBytes hn
  set locked := env.aead.lock env.key nonce h payload with hl
  have hcl : locked.1.length = payload.length := env.aead.length_cipher _ _ _ _
  have hwl : protoWritePayloadLen (hdrBytes type (UInt16.ofNat payload.length) seq nonce ++
      (payload ++ rest)) (UInt16.ofNat (payload.length + tundAuthTagSize)) =
      h ++ payload ++ rest := by
    rw [protoWritePayloadLen_hdrBytes, ← List.append_assoc]; rfl
  have hnonce : Bytes.slice (h ++ payload ++ rest) tundNonceOffset tundNonceSize = nonce := by
    rw [List.append_assoc]; exact slice_nonce_hdrBytes _ hn
  have had : Bytes.slice (h ++ payload ++ rest) 0 tundHdrSize = h := by
    rw [List.append_assoc, ← hhl, Bytes.slice_append_left]
  have htext : Bytes.slice (h ++ payload ++ rest) tundHdrSize payload.length = payload := by
    rw [List.append_assoc, Bytes.slice_append hhl.symm, List.take_left]
  have hpatch : Bytes.patch (Bytes.patch (h ++ payload ++ rest) tundHdrSize locked.1)
      (tundHdrSize + payload.length) locked.2 = h ++ locked.1 ++ locked.2 ++
        (h ++ locked.1 ++ rest).drop (tundHdrSize + payload.length + locked.2.length) := by
    rw [Bytes.patch_append_mid hhl.symm hcl, Bytes.patch,
      List.take_left' (by rw [List.length_append, hhl, hcl])]
  simp only [protoEncrypt, if_neg h1, hread, h2, if_neg h3, ne_eq, not_true_eq_false, if_false, hw,
    hwl, hnonce, had, htext, ← hl, hpatch, toNat_ofNat_wirePayload hp, Prod.mk.injEq,
    Option.some.injEq] at he
  obtain ⟨rfl, rfl, rfl⟩ := he
  exact ⟨by omega, seq, nonce, hn, hd, hc, _, rfl⟩

/-- With a working random source encryption always succeeds. -/
theorem protoEncrypt_of_works {env : Env} (hr : env.RandomWorks) (io : Proc) {buf : Bytes}
    (hb : Holds buf type payload) :
    ∃ n b io', protoEncrypt env io buf (tundHdrSize + payload.length) = (some n, b, io') := by
  have hp := hb.short
  have hlen : (UInt16.ofNat payload.length).toNat ≤ tundMaxPlaintext := by
    rw [toNat_ofNat_payload hp]; exact hp
  obtain ⟨n, b, io', hw⟩ := protoWriteHdr_of_works hr io buf type hlen
  have h1 : ¬ tundHdrSize + payload.length < tundHdrSize := by omega
  have h2 : tundHdrSize + payload.length - tundHdrSize = payload.length := by omega
  have h3 : ¬ tundMaxPlaintext < payload.length := by omega
  rcases he : protoEncrypt env io buf (tundHdrSize + payload.length) with ⟨_ | k, c, io₂⟩
  · simp [protoEncrypt, hb.read, h2, h3, hw] at he
  · exact ⟨k, c, io₂, rfl⟩

/-- Decrypting the wire form of a message gives the message back under the sequence number and
nonce that were on the wire. -/
theorem protoDecrypt_wireBytes (aead : Aead) (key : Bytes) (type : UInt8) (seq : UInt64)
    (rest : Bytes) (hn : nonce.length = tundNonceSize)
    (hp : payload.length ≤ tundMaxPlaintext) :
    ∃ mac : Bytes, protoDecrypt aead key (wireBytes aead key type seq nonce payload ++ rest)
        (tundHdrSize + payload.length + tundAuthTagSize) =
      (some (tundHdrSize + payload.length), frameBytes type seq nonce payload ++ mac ++ rest) := by
  set h := wireHdr type seq nonce payload with hh
  have hhl : h.length = tundHdrSize := length_hdrBytes hn
  set locked := aead.lock key nonce h payload with hl
  have hcl : locked.1.length = payload.length := aead.length_cipher _ _ _ _
  have hml : locked.2.length = tundAuthTagSize := aead.length_mac _ _ _ _
  refine ⟨locked.2, ?_⟩
  have hw : wireBytes aead key type seq nonce payload ++ rest =
      h ++ locked.1 ++ (locked.2 ++ rest) := by
    simp [wireBytes, ← hh, ← hl]
  have hread : protoReadHdr (h ++ locked.1 ++ (locked.2 ++ rest)) =
      .ok (type, UInt16.ofNat (payload.length + tundAuthTagSize)) := by
    rw [List.append_assoc, hh, wireHdr, protoReadHdr_hdrBytes]
  have hnonce : Bytes.slice (h ++ locked.1 ++ (locked.2 ++ rest)) tundNonceOffset tundNonceSize =
      nonce := by
    rw [List.append_assoc]; exact slice_nonce_hdrBytes _ hn
  have had : Bytes.slice (h ++ locked.1 ++ (locked.2 ++ rest)) 0 tundHdrSize = h := by
    rw [List.append_assoc, ← hhl, Bytes.slice_append_left]
  have hcipher : Bytes.slice (h ++ locked.1 ++ (locked.2 ++ rest)) tundHdrSize payload.length =
      locked.1 := by
    rw [List.append_assoc, Bytes.slice_append hhl.symm, List.take_left' hcl]
  have hmac : Bytes.slice (h ++ locked.1 ++ (locked.2 ++ rest)) (tundHdrSize + payload.length)
      tundAuthTagSize = locked.2 := by
    rw [Bytes.slice_append (by rw [List.length_append, hhl, hcl]), List.take_left' hml]
  have hunlock : aead.unlock key nonce h locked.1 locked.2 = some payload :=
    (aead.unlock_eq_some_iff _ _ _ _ _ _).2 rfl
  have hpatch : Bytes.patch (h ++ locked.1 ++ (locked.2 ++ rest)) tundHdrSize payload =
      h ++ payload ++ (locked.2 ++ rest) := Bytes.patch_append_mid hhl.symm hcl.symm
  have hfinal : protoWritePayloadLen (h ++ payload ++ (locked.2 ++ rest))
      (UInt16.ofNat payload.length) = frameBytes type seq nonce payload ++ locked.2 ++ rest := by
    rw [List.append_assoc, hh, wireHdr, protoWritePayloadLen_hdrBytes]
    simp [frameBytes]
  have h1 : ¬ tundHdrSize + payload.length + tundAuthTagSize < tundHdrSize + tundAuthTagSize := by
    omega
  have h2 : ¬ (payload.length + tundAuthTagSize < tundAuthTagSize ∨
      tundHdrSize + (payload.length + tundAuthTagSize) ≠
        tundHdrSize + payload.length + tundAuthTagSize) := by omega
  have h3 : payload.length + tundAuthTagSize - tundAuthTagSize = payload.length := by omega
  have h4 : ¬ tundMaxPlaintext < payload.length := by omega
  simp only [protoDecrypt, hw, if_neg h1, hread, toNat_ofNat_wirePayload hp, if_neg h2, h3,
    if_neg h4, hnonce, had, hcipher, hmac, hunlock, hpatch, hfinal]

end Wire

/-! ### When decryption succeeds -/

/-- The length field of the header at the start of `buf`. -/
def lengthField (buf : Bytes) : ℕ := Bytes.ofBe (Bytes.slice buf 3 2)

theorem lengthField_lt (buf : Bytes) : lengthField buf < 2 ^ 16 := by
  have h := Bytes.ofBe_lt (Bytes.slice buf 3 2)
  have hl : (Bytes.slice buf 3 2).length ≤ 2 := by simp [Bytes.slice]
  exact lt_of_lt_of_le h (le_trans (Nat.pow_le_pow_right (by norm_num) hl) (by norm_num))

theorem protoReadHdr_eq_ok {buf : Bytes} {type : UInt8} {len : UInt16}
    (h : protoReadHdr buf = .ok (type, len)) :
    buf.getD 0 0 = tundMagic ∧ buf.getD 1 0 = tundProtocolVersion ∧ buf.getD 2 0 = type ∧
      len.toNat = lengthField buf := by
  unfold protoReadHdr at h
  split_ifs at h with h0 h1
  obtain ⟨rfl, rfl⟩ : buf.getD 2 0 = type ∧ UInt16.ofNat (Bytes.ofBe (Bytes.slice buf 3 2)) = len := by
    simpa using h
  exact ⟨by simpa using h0, by simpa using h1, rfl,
    UInt16.toNat_ofNat_of_lt' (lengthField_lt buf)⟩

theorem protoReadHdr_of_magic {buf : Bytes} (h0 : buf.getD 0 0 = tundMagic)
    (h1 : buf.getD 1 0 = tundProtocolVersion) :
    protoReadHdr buf = .ok (buf.getD 2 0, UInt16.ofNat (lengthField buf)) := by
  unfold protoReadHdr
  rw [if_neg (not_not.2 h0), if_neg (not_not.2 h1)]
  rfl

/-- The checks of `proto_decrypt` and the AEAD's answer on what they let through. -/
def Decryptable (aead : Aead) (key buf : Bytes) (len : ℕ) : Prop :=
  tundHdrSize + tundAuthTagSize ≤ len ∧
  buf.getD 0 0 = tundMagic ∧ buf.getD 1 0 = tundProtocolVersion ∧
  tundAuthTagSize ≤ lengthField buf ∧ tundHdrSize + lengthField buf = len ∧
  lengthField buf ≤ tundMaxPayload ∧
  (aead.unlock key (Bytes.slice buf tundNonceOffset tundNonceSize) (Bytes.slice buf 0 tundHdrSize)
    (Bytes.slice buf tundHdrSize (lengthField buf - tundAuthTagSize))
    (Bytes.slice buf (tundHdrSize + (lengthField buf - tundAuthTagSize)) tundAuthTagSize)).isSome

/-- Decryption either fails and changes nothing, or the datagram passes every check. -/
theorem protoDecrypt_cases (aead : Aead) (key buf : Bytes) (len : ℕ) :
    (¬ Decryptable aead key buf len ∧ protoDecrypt aead key buf len = (none, buf)) ∨
    (Decryptable aead key buf len ∧
      (protoDecrypt aead key buf len).1 = some (len - tundAuthTagSize)) := by
  by_cases hlen : len < tundHdrSize + tundAuthTagSize
  · exact .inl ⟨fun h => absurd h.1 (by omega), by simp [protoDecrypt, hlen]⟩
  cases hread : protoReadHdr buf with
  | error e =>
    refine .inl ⟨fun h => ?_, by simp [protoDecrypt, hread]⟩
    rw [protoReadHdr_of_magic h.2.1 h.2.2.1] at hread
    cases hread
  | ok v =>
    obtain ⟨type, wlen⟩ := v
    obtain ⟨h0, h1, -, hf⟩ := protoReadHdr_eq_ok hread
    by_cases hframe : lengthField buf < tundAuthTagSize ∨ tundHdrSize + lengthField buf ≠ len
    · refine .inl ⟨fun ⟨_, _, _, hge, heq, _⟩ => ?_, by simp [protoDecrypt, hread, hf, hframe]⟩
      rcases hframe with hframe | hframe
      · exact absurd hge (by omega)
      · exact hframe heq
    by_cases hmax : tundMaxPlaintext < lengthField buf - tundAuthTagSize
    · refine .inl ⟨fun ⟨_, _, _, _, _, hle, _⟩ => ?_, by simp [protoDecrypt, hread, hf, hmax]⟩
      rw [tundMaxPayload] at hle
      omega
    push Not at hframe
    cases hunlock : aead.unlock key (Bytes.slice buf tundNonceOffset tundNonceSize)
        (Bytes.slice buf 0 tundHdrSize)
        (Bytes.slice buf tundHdrSize (lengthField buf - tundAuthTagSize))
        (Bytes.slice buf (tundHdrSize + (lengthField buf - tundAuthTagSize)) tundAuthTagSize) with
    | none =>
      refine .inl ⟨fun ⟨_, _, _, _, _, _, h⟩ => ?_, by simp [protoDecrypt, hread, hf, hunlock]⟩
      rw [hunlock] at h
      cases h
    | some plaintext =>
      refine .inr ⟨⟨by omega, h0, h1, hframe.1, hframe.2, by rw [tundMaxPayload]; omega,
        by rw [hunlock]; rfl⟩, ?_⟩
      have hn : ¬ (lengthField buf < tundAuthTagSize ∨ tundHdrSize + lengthField buf ≠ len) := by
        push Not; exact hframe
      simp only [protoDecrypt, if_neg hlen, hread, hf, if_neg hn, if_neg hmax, hunlock]
      congr 1
      omega

theorem protoDecrypt_isSome_iff (aead : Aead) (key buf : Bytes) (len : ℕ) :
    (protoDecrypt aead key buf len).1.isSome ↔ Decryptable aead key buf len := by
  rcases protoDecrypt_cases aead key buf len with ⟨hn, h⟩ | ⟨hd, h⟩
  · simp [h, hn]
  · simp [h, hd]

/-- A failed decryption leaves the buffer as it was. -/
theorem protoDecrypt_eq_none {aead : Aead} {key buf : Bytes} {len : ℕ}
    (h : (protoDecrypt aead key buf len).1 = none) : (protoDecrypt aead key buf len).2 = buf := by
  rcases protoDecrypt_cases aead key buf len with ⟨-, h'⟩ | ⟨-, h'⟩
  · rw [h']
  · rw [h'] at h; cases h

/-! ### Frames -/

/-- A message as its receiver reads it. -/
structure Frame where
  type : UInt8
  payload : Bytes
  sequence : UInt64
  deriving DecidableEq

/-- The checks in front of both dispatchers: header, length and sequence number. -/
def readFrame (buf : Bytes) : Option Frame :=
  match protoReadHdr buf with
  | .error _ => none
  | .ok (type, payloadLen) =>
    if buf.length < tundHdrSize + payloadLen.toNat then none
    else
      (protoReadSequence buf).map fun sequence =>
        ⟨type, Bytes.slice buf tundHdrSize payloadLen.toNat, sequence⟩

theorem readFrame_sequence {buf : Bytes} {f : Frame} (h : readFrame buf = some f) :
    f.sequence ≠ 0 := by
  unfold readFrame at h
  split at h
  · cases h
  · split_ifs at h
    obtain ⟨seq, hseq, rfl⟩ := Option.map_eq_some_iff.1 h
    intro h0
    simp only [protoReadSequence] at hseq
    split_ifs at hseq with hz
    exact hz ((Option.some.inj hseq).trans h0)

/-- What is read from a message in the clear. -/
theorem readFrame_frameBytes {type : UInt8} {seq : UInt64} {nonce payload : Bytes}
    (hs : seq ≠ 0) (hn : nonce.length = tundNonceSize) (hp : payload.length ≤ tundMaxPlaintext) :
    readFrame (frameBytes type seq nonce payload) = some ⟨type, payload, seq⟩ := by
  have hl : (hdrBytes type (UInt16.ofNat payload.length) seq nonce).length = tundHdrSize :=
    length_hdrBytes hn
  have hread : protoReadHdr (frameBytes type seq nonce payload) =
      .ok (type, UInt16.ofNat payload.length) := protoReadHdr_hdrBytes _
  have hseq : protoReadSequence (frameBytes type seq nonce payload) = some seq :=
    protoReadSequence_hdrBytes _ hs
  have hslice : Bytes.slice (frameBytes type seq nonce payload) tundHdrSize payload.length =
      payload := by
    rw [frameBytes, Bytes.slice_append hl.symm, List.take_length]
  have hlen : ¬ (frameBytes type seq nonce payload).length < tundHdrSize + payload.length := by
    rw [frameBytes, List.length_append, hl]
    omega
  simp only [readFrame, hread, toNat_ofNat_payload hp, if_neg hlen, hseq, hslice, Option.map_some]

/-! ### Sending and receiving -/

/-- The datagram carries a message of this type and payload to whoever has the key. -/
def Datagram.Carries (aead : Aead) (key : Bytes) (d : Datagram) (type : UInt8) (payload : Bytes) :
    Prop :=
  payload.length ≤ tundMaxPlaintext ∧ ∃ seq nonce, seq ≠ 0 ∧ nonce.length = tundNonceSize ∧
    d.wire = wireBytes aead key type seq nonce payload

/-- Receiving the wire form of a message gives the message. -/
theorem netRecv_wireBytes {aead : Aead} {key : Bytes} {type : UInt8} {seq : UInt64}
    {nonce payload : Bytes} (hn : nonce.length = tundNonceSize)
    (hp : payload.length ≤ tundMaxPlaintext) :
    netRecv aead key (wireBytes aead key type seq nonce payload) =
      some (frameBytes type seq nonce payload) := by
  have hl : (wireBytes aead key type seq nonce payload).length =
      tundHdrSize + payload.length + tundAuthTagSize := length_wireBytes hn
  have htake : (wireBytes aead key type seq nonce payload).take tundMaxPkt =
      wireBytes aead key type seq nonce payload := by
    apply List.take_of_length_le
    rw [hl, tundMaxPkt, tundMaxPayload]
    omega
  obtain ⟨mac, hd⟩ := protoDecrypt_wireBytes aead key type seq [] hn hp
  rw [List.append_nil, List.append_nil] at hd
  have hfl : (frameBytes type seq nonce payload).length = tundHdrSize + payload.length := by
    rw [frameBytes, List.length_append, length_hdrBytes hn]
  simp only [netRecv, htake, hl, hd, List.take_left' hfl]

/-- Whoever has the key reads the message from the datagram. -/
theorem Datagram.Carries.read {aead : Aead} {key : Bytes} {d : Datagram} {type : UInt8}
    {payload : Bytes} (h : d.Carries aead key type payload) :
    ∃ buf seq, netRecv aead key d.wire = some buf ∧ readFrame buf = some ⟨type, payload, seq⟩ := by
  obtain ⟨hp, seq, nonce, hs, hn, hw⟩ := h
  exact ⟨_, seq, hw ▸ netRecv_wireBytes hn hp, readFrame_frameBytes hs hn hp⟩

theorem protoEncrypt_out (env : Env) (io : Proc) (buf : Bytes) (len : ℕ) :
    (protoEncrypt env io buf len).2.2.out = io.out ∧
      (protoEncrypt env io buf len).2.2.running = io.running := by
  unfold protoEncrypt
  split_ifs
  · exact ⟨rfl, rfl⟩
  cases hread : protoReadHdr buf with
  | error e => exact ⟨rfl, rfl⟩
  | ok v =>
    obtain ⟨type, payloadLen⟩ := v
    have hw := protoWriteHdr_out env io buf type (UInt16.ofNat (len - tundHdrSize))
    simp only
    split_ifs
    · exact ⟨rfl, rfl⟩
    · exact ⟨rfl, rfl⟩
    · rcases hh : protoWriteHdr env io buf type (UInt16.ofNat (len - tundHdrSize)) with
        ⟨_ | n, b, io₁⟩ <;> rw [hh] at hw <;> exact hw

@[simp] theorem netSend_none (env : Env) (io : Proc) (buf : Bytes) (dest : SockAddr) :
    netSend env io buf none dest = (false, io) := rfl

/-- The two outcomes of `net_send` on a message: the random source fails and nothing leaves the
process, or exactly one datagram that carries the message does, and the result is the one of
`sendto`. -/
theorem netSend_cases (env : Env) (io : Proc) {buf : Bytes} {type : UInt8} {payload : Bytes}
    (hb : Holds buf type payload) (dest : SockAddr) :
    (¬ env.RandomWorks ∧ ∃ io₁, io₁.out = io.out ∧ io₁.running = io.running ∧
      netSend env io buf (some (tundHdrSize + payload.length)) dest = (false, io₁)) ∨
    ∃ seq nonce io₁, nonce.length = tundNonceSize ∧ SequenceDrawn env io io₁ seq ∧ io.calls < io₁.calls ∧
      netSend env io buf (some (tundHdrSize + payload.length)) dest =
        (env.sendto io₁.calls,
          { io₁ with
            calls := io₁.calls + 1
            out := io.out ++ [.datagram ⟨dest, buf.take (tundHdrSize + payload.length),
              wireBytes env.aead env.key type seq nonce payload, env.sendto io₁.calls⟩] }) := by
  obtain ⟨hp, hread, pre, rest, hpre, hbuf⟩ := id hb
  have htake : buf.take (tundHdrSize + payload.length) = pre ++ payload := by
    rw [hbuf, List.take_left' (by rw [List.length_append, hpre])]
  have hb' : Holds (buf.take (tundHdrSize + payload.length)) type payload :=
    ⟨hp, by rw [protoReadHdr_take (by simp only [tundHdrSize]; omega), hread],
      pre, [], hpre, by rw [htake, List.append_nil]⟩
  have h1 : ¬ tundHdrSize + payload.length < tundHdrSize := by omega
  have h2 : ¬ tundHdrSize + tundMaxPlaintext < tundHdrSize + payload.length := by omega
  rcases he : protoEncrypt env io (buf.take (tundHdrSize + payload.length))
    (tundHdrSize + payload.length) with ⟨_ | n, wire, io₁⟩
  · have hout := protoEncrypt_out env io (buf.take (tundHdrSize + payload.length))
      (tundHdrSize + payload.length)
    rw [he] at hout
    refine .inl ⟨fun hr => ?_, io₁, hout.1, hout.2, ?_⟩
    · obtain ⟨n, b, io', he'⟩ := protoEncrypt_of_works hr io hb'
      rw [he] at he'
      cases he'
    · simp only [netSend, if_neg h1, if_neg h2, he]
  · obtain ⟨rfl, seq, nonce, hn, hd, hc, tail, rfl⟩ := protoEncrypt_some hb' he
    refine .inr ⟨seq, nonce, io₁, hn, hd, hc, ?_⟩
    have hw : (wireBytes env.aead env.key type seq nonce payload).length =
        tundHdrSize + payload.length + tundAuthTagSize := length_wireBytes hn
    simp only [netSend, if_neg h1, if_neg h2, he, List.take_left' hw, hd.out]

/-- **Framing.**  Every message of at most 1600 bytes that is built, encrypted and decrypted comes
back with its first five header bytes and its payload, and with the sequence number and nonce that
were on the wire; decryption succeeds exactly on the datagrams that pass every check and that the
AEAD unlocks with the received header as associated data; a failure changes nothing. -/
theorem transport_framing_exact (env : Env) (hr : env.RandomWorks) :
    (∀ (io : Proc) (buf : Bytes) (type : UInt8) (payload : Bytes),
      payload.length ≤ tundMaxPlaintext →
      let len := tundHdrSize + payload.length
      let built := protoWriteHdr env io buf type (UInt16.ofNat payload.length)
      let datagram := Bytes.patch built.2.1 tundHdrSize payload
      let wire := protoEncrypt env built.2.2 datagram len
      let plain := protoDecrypt env.aead env.key wire.2.1 (len + tundAuthTagSize)
      built.1 = some tundHdrSize ∧
      wire.1 = some (len + tundAuthTagSize) ∧
      plain.1 = some len ∧
      protoReadHdr plain.2 = .ok (type, UInt16.ofNat payload.length) ∧
      Bytes.slice plain.2 0 5 = Bytes.slice datagram 0 5 ∧
      Bytes.slice plain.2 tundHdrSize payload.length = payload ∧
      Bytes.slice plain.2 tundSequenceOffset 8 = Bytes.slice wire.2.1 tundSequenceOffset 8 ∧
      Bytes.slice plain.2 tundNonceOffset tundNonceSize =
        Bytes.slice wire.2.1 tundNonceOffset tundNonceSize) ∧
    (∀ (buf : Bytes) (len : ℕ), len ≤ buf.length →
      ((protoDecrypt env.aead env.key buf len).1.isSome ↔
        Decryptable env.aead env.key buf len)) ∧
    ∀ (buf : Bytes) (len : ℕ), (protoDecrypt env.aead env.key buf len).1 = none →
      (protoDecrypt env.aead env.key buf len).2 = buf := by
  refine ⟨?_, fun buf len _ => protoDecrypt_isSome_iff _ _ buf len,
    fun buf len h => protoDecrypt_eq_none h⟩
  intro io buf type payload hp
  have hlen : (UInt16.ofNat payload.length).toNat ≤ tundMaxPlaintext := by
    rw [toNat_ofNat_payload hp]; exact hp
  obtain ⟨m, b, io₁, hw⟩ := protoWriteHdr_of_works hr io buf type hlen
  obtain ⟨-, rfl, seq, nonce, hn, -, -, rfl⟩ := protoWriteHdr_some hw
  have hbuilt : Bytes.patch (hdrBytes type (UInt16.ofNat payload.length) seq nonce ++
      buf.drop tundHdrSize) tundHdrSize payload =
      frameBytes type seq nonce payload ++ buf.drop (tundHdrSize + payload.length) := by
    have hl : (hdrBytes type (UInt16.ofNat payload.length) seq nonce).length = tundHdrSize :=
      length_hdrBytes hn
    have h := Bytes.patch_adjacent buf payload hl.symm
    rwa [List.length_append, hl] at h
  have hholds : Holds (frameBytes type seq nonce payload ++ buf.drop (tundHdrSize + payload.length))
      type payload := holds_frameBytes _ hn hp
  obtain ⟨k, b, io₂, he⟩ := protoEncrypt_of_works hr io₁ hholds
  obtain ⟨rfl, seq', nonce', hn', -, -, rest, rfl⟩ := protoEncrypt_some hholds he
  obtain ⟨mac, hd⟩ := protoDecrypt_wireBytes env.aead env.key type seq' rest hn' hp
  simp only [hw, hbuilt, he, hd, true_and]
  have hfive : ∀ (s : UInt64) (n tail : Bytes),
      Bytes.slice (frameBytes type s n payload ++ tail) 0 5 =
        [tundMagic, tundProtocolVersion, type] ++ Bytes.be 2 (UInt16.ofNat payload.length).toNat := by
    intro s n tail
    simp [frameBytes, hdrBytes, Bytes.slice]
  refine ⟨?_, ?_, ?_, ?_, ?_⟩
  · simp only [frameBytes, List.append_assoc, protoReadHdr_hdrBytes]
  · rw [List.append_assoc, hfive, hfive]
  · rw [List.append_assoc, frameBytes, List.append_assoc, Bytes.slice_append
      (length_hdrBytes hn').symm, List.take_left]
  all_goals
    simp only [frameBytes, wireBytes, wireHdr, List.append_assoc]
    rw [slice_hdrBytes_of_ge _ hn' (by decide) (by decide),
      slice_hdrBytes_of_ge _ hn' (by decide) (by decide)]

/-- Five bytes of DATA on a host that uses Monocypher. -/
theorem transport_framing_exact_plain :
    let env := Env.plain 0 0
    let payload : Bytes := [104, 101, 108, 108, 111]
    let built := protoWriteHdr env Proc.start [] MsgType.data.code (UInt16.ofNat payload.length)
    let wire := protoEncrypt env built.2.2 (Bytes.patch built.2.1 tundHdrSize payload)
      (tundHdrSize + payload.length)
    let plain := protoDecrypt env.aead env.key wire.2.1
      (tundHdrSize + payload.length + tundAuthTagSize)
    env.RandomWorks ∧ payload.length ≤ tundMaxPlaintext ∧
      plain.1 = some (tundHdrSize + payload.length) ∧
      Bytes.slice plain.2 tundHdrSize payload.length = payload := by
  have hworks := Env.plain_randomWorks 0 0
  have hp : ([104, 101, 108, 108, 111] : Bytes).length ≤ tundMaxPlaintext := by decide
  have h := (transport_framing_exact (Env.plain 0 0) hworks).1 Proc.start [] MsgType.data.code _ hp
  dsimp only at h ⊢
  obtain ⟨-, -, hlen, -, -, hpay, -⟩ := h
  exact ⟨hworks, hp, hlen, hpay⟩

end Tund
