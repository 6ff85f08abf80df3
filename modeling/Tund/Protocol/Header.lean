import Tund.Process

/-!
# The 37-byte header

Magic, version, message type, big-endian payload length, big-endian sequence number
and nonce, as `proto_write_hdr` writes them and `proto_read_hdr` and
`proto_read_sequence` read them.

A C return value of `-1` is `none`.  A header that could not be finished because the
random source failed still leaves its first bytes in the buffer, as in the source.
`proto_next_sequence` is modelled for one thread: its compare-exchange then always
succeeds.
-/

namespace Tund

/-! ### Constants -/

def tundMagic : UInt8 := 0xA9
def tundProtocolVersion : UInt8 := 4
def tundSequenceOffset : ℕ := 5
def tundNonceOffset : ℕ := 13
def tundNonceSize : ℕ := 24
def tundAuthTagSize : ℕ := 16
def tundHdrSize : ℕ := 37
def tundMaxPlaintext : ℕ := 1600
def tundMaxPayload : ℕ := tundMaxPlaintext + tundAuthTagSize
def tundMaxPkt : ℕ := tundHdrSize + tundMaxPayload

/-- The message types. -/
inductive MsgType
  | register
  | assign
  | peerList
  | data
  | keepalive
  | disconnect
  | peerJoin
  | peerLeave
  | keepaliveAck
  deriving DecidableEq

/-- The type byte of a message. -/
def MsgType.code : MsgType → UInt8
  | .register => 0x01
  | .assign => 0x02
  | .peerList => 0x03
  | .data => 0x04
  | .keepalive => 0x05
  | .disconnect => 0x06
  | .peerJoin => 0x07
  | .peerLeave => 0x08
  | .keepaliveAck => 0x09

/-- The message type a `switch` on the type byte selects; `none` is its default branch. -/
def MsgType.ofCode (t : UInt8) : Option MsgType :=
  match t.toNat with
  | 1 => some .register
  | 2 => some .assign
  | 3 => some .peerList
  | 4 => some .data
  | 5 => some .keepalive
  | 6 => some .disconnect
  | 7 => some .peerJoin
  | 8 => some .peerLeave
  | 9 => some .keepaliveAck
  | _ => none

@[simp] theorem MsgType.ofCode_code (m : MsgType) : MsgType.ofCode m.code = some m := by
  cases m <;> rfl

theorem MsgType.ofCode_eq_some_iff {t : UInt8} {m : MsgType} :
    MsgType.ofCode t = some m ↔ t = m.code := by
  constructor
  · intro h
    apply UInt8.toNat_inj.1
    unfold MsgType.ofCode at h
    split at h <;> cases h <;> simp_all [MsgType.code]
  · rintro rfl
    exact MsgType.ofCode_code m

/-! ### Writing -/

/-- `proto_write_payload_len` -/
def protoWritePayloadLen (buf : Bytes) (payloadLen : UInt16) : Bytes :=
  Bytes.patch buf 3 (Bytes.be 2 payloadLen.toNat)

/-- `proto_initial_sequence` -/
def protoInitialSequence (env : Env) (io : Proc) : Option UInt64 × Proc :=
  match protoRandomBytes env io 8 with
  | (none, io) => (none, io)
  | (some b, io) =>
    let seed := UInt64.ofNat (Bytes.ofLe b) &&& ((0xFFFFFFFFFFFFFFFF : UInt64) >>> 1)
    (some (if seed = 0 then 1 else seed), io)

/-- The `atomic_fetch_add` of `proto_next_sequence` and its zero check. -/
def fetchAddSequence (io : Proc) : Option UInt64 × Proc :=
  (if io.nextSequence = 0 then none else some io.nextSequence,
    { io with nextSequence := io.nextSequence + 1 })

/-- `proto_next_sequence` -/
def protoNextSequence (env : Env) (io : Proc) : Option UInt64 × Proc :=
  if io.nextSequence = 0 then
    match protoInitialSequence env io with
    | (none, io) => (none, io)
    | (some initial, io) => fetchAddSequence { io with nextSequence := initial }
  else fetchAddSequence io

/-- `proto_write_hdr` -/
def protoWriteHdr (env : Env) (io : Proc) (buf : Bytes) (type : UInt8) (payloadLen : UInt16) :
    Option ℕ × Bytes × Proc :=
  if tundMaxPlaintext < payloadLen.toNat then (none, buf, io)
  else
    let buf := Bytes.patch buf 0 [tundMagic, tundProtocolVersion, type]
    let buf := protoWritePayloadLen buf payloadLen
    match protoNextSequence env io with
    | (none, io) => (none, buf, io)
    | (some sequence, io) =>
      let buf := Bytes.patch buf tundSequenceOffset (Bytes.be 8 sequence.toNat)
      match protoRandomBytes env io tundNonceSize with
      | (none, io) => (none, buf, io)
      | (some nonce, io) => (some tundHdrSize, Bytes.patch buf tundNonceOffset nonce, io)

/-! ### Reading -/

/-- The failures of `proto_read_hdr`. -/
inductive HdrError
  | badMagic
  | badVersion
  deriving DecidableEq

/-- `proto_read_hdr`: type and payload length. -/
def protoReadHdr (buf : Bytes) : Except HdrError (UInt8 × UInt16) :=
  if buf.getD 0 0 ≠ tundMagic then .error .badMagic
  else if buf.getD 1 0 ≠ tundProtocolVersion then .error .badVersion
  else .ok (buf.getD 2 0, UInt16.ofNat (Bytes.ofBe (Bytes.slice buf 3 2)))

/-- `proto_read_sequence` -/
def protoReadSequence (buf : Bytes) : Option UInt64 :=
  let value := UInt64.ofNat (Bytes.ofBe (Bytes.slice buf tundSequenceOffset 8))
  if value = 0 then none else some value

/-- Reading a header looks at the first five bytes only. -/
theorem protoReadHdr_take {buf : Bytes} {n : ℕ} (h : 5 ≤ n) :
    protoReadHdr (buf.take n) = protoReadHdr buf := by
  have hget : ∀ i < 5, (buf.take n).getD i 0 = buf.getD i 0 := by
    intro i hi
    rw [List.getD_eq_getElem?_getD, List.getD_eq_getElem?_getD,
      List.getElem?_take_of_lt (by omega)]
  have hslice : Bytes.slice (buf.take n) 3 2 = Bytes.slice buf 3 2 :=
    Bytes.slice_take (by omega)
  rw [protoReadHdr, protoReadHdr, hget 0 (by omega), hget 1 (by omega), hget 2 (by omega), hslice]

/-! ### The header as bytes -/

/-- The bytes of a complete header. -/
def hdrBytes (type : UInt8) (len : UInt16) (seq : UInt64) (nonce : Bytes) : Bytes :=
  [tundMagic, tundProtocolVersion, type] ++ Bytes.be 2 len.toNat ++ Bytes.be 8 seq.toNat ++ nonce

section Header

variable {type : UInt8} {len : UInt16} {seq : UInt64} {nonce : Bytes}

theorem length_hdrBytes (hn : nonce.length = tundNonceSize) :
    (hdrBytes type len seq nonce).length = tundHdrSize := by
  simp [hdrBytes, hn, tundNonceSize, tundHdrSize]

theorem protoReadHdr_hdrBytes (rest : Bytes) :
    protoReadHdr (hdrBytes type len seq nonce ++ rest) = .ok (type, len) := by
  have hlen : Bytes.slice (hdrBytes type len seq nonce ++ rest) 3 2 = Bytes.be 2 len.toNat := by
    rw [hdrBytes, List.append_assoc, List.append_assoc, List.append_assoc,
      Bytes.slice_append (by simp), List.take_left' (by simp)]
  have hval : UInt16.ofNat (Bytes.ofBe (Bytes.be 2 len.toNat)) = len := by
    rw [Bytes.ofBe_be_of_lt (by simpa using len.toNat_lt), UInt16.ofNat_toNat]
  have h0 : (hdrBytes type len seq nonce ++ rest).getD 0 0 = tundMagic := by simp [hdrBytes]
  have h1 : (hdrBytes type len seq nonce ++ rest).getD 1 0 = tundProtocolVersion := by
    simp [hdrBytes]
  have h2 : (hdrBytes type len seq nonce ++ rest).getD 2 0 = type := by simp [hdrBytes]
  rw [protoReadHdr, h0, h1, h2, hlen, hval]
  simp

theorem protoReadSequence_hdrBytes (rest : Bytes) (hs : seq ≠ 0) :
    protoReadSequence (hdrBytes type len seq nonce ++ rest) = some seq := by
  have hslice : Bytes.slice (hdrBytes type len seq nonce ++ rest) tundSequenceOffset 8 =
      Bytes.be 8 seq.toNat := by
    rw [hdrBytes, List.append_assoc, List.append_assoc,
      Bytes.slice_append (by simp [tundSequenceOffset]), List.take_left' (by simp)]
  have hval : UInt64.ofNat (Bytes.ofBe (Bytes.be 8 seq.toNat)) = seq := by
    rw [Bytes.ofBe_be_of_lt (by simpa using seq.toNat_lt), UInt64.ofNat_toNat]
  simp only [protoReadSequence, hslice, hval, if_neg hs]

/-- Rewriting the length field of a header. -/
theorem protoWritePayloadLen_hdrBytes (rest : Bytes) (len' : UInt16) :
    protoWritePayloadLen (hdrBytes type len seq nonce ++ rest) len' =
      hdrBytes type len' seq nonce ++ rest := by
  have h : Bytes.patch ([tundMagic, tundProtocolVersion, type] ++ Bytes.be 2 len.toNat ++
      (Bytes.be 8 seq.toNat ++ nonce ++ rest)) 3 (Bytes.be 2 len'.toNat) =
      [tundMagic, tundProtocolVersion, type] ++ Bytes.be 2 len'.toNat ++
        (Bytes.be 8 seq.toNat ++ nonce ++ rest) := Bytes.patch_append_mid (by simp) (by simp)
  simpa [protoWritePayloadLen, hdrBytes, List.append_assoc] using h

/-- Everything behind the length field is independent of it. -/
theorem slice_hdrBytes_of_ge (rest : Bytes) {o n : ℕ} (hn : nonce.length = tundNonceSize)
    (ho : 5 ≤ o) (hon : o + n ≤ tundHdrSize) :
    Bytes.slice (hdrBytes type len seq nonce ++ rest) o n =
      Bytes.slice (Bytes.be 8 seq.toNat ++ nonce) (o - 5) n := by
  rw [Bytes.slice_append_of_le (by rw [length_hdrBytes hn]; exact hon), hdrBytes,
    List.append_assoc, Bytes.slice_append_of_ge (by simpa using ho)]
  simp

/-- The nonce field of a header. -/
theorem slice_nonce_hdrBytes (rest : Bytes) (hn : nonce.length = tundNonceSize) :
    Bytes.slice (hdrBytes type len seq nonce ++ rest) tundNonceOffset tundNonceSize = nonce := by
  rw [hdrBytes, List.append_assoc, Bytes.slice_append (by simp [tundNonceOffset]),
    List.take_left' hn]

end Header

/-! ### What writing a header does -/

/-- The number that the process draws next: the one of its counter, and below `2 ^ 63` if the
counter is fresh. -/
structure NextNumber (env : Env) (io : Proc) (seq : UInt64) : Prop where
  draw : (protoNextSequence env io).1 = some seq
  ne_zero : seq ≠ 0
  of_ne_zero : io.nextSequence ≠ 0 → seq = io.nextSequence
  of_zero : io.nextSequence = 0 → seq.toNat < 2 ^ 63

/-- The effect of drawing a sequence number on the process. -/
structure SequenceDrawn (env : Env) (io io' : Proc) (seq : UInt64) : Prop
    extends NextNumber env io seq where
  next : io'.nextSequence = seq + 1
  calls : io.calls ≤ io'.calls
  running : io'.running = io.running
  out : io'.out = io.out

/-- The numbers after a fresh counter's first one do not wrap for long. -/
theorem NextNumber.toNat_add {env : Env} {io : Proc} {seq : UInt64} (h : NextNumber env io seq)
    (h0 : io.nextSequence = 0) {n : UInt64} (hn : n.toNat < 2 ^ 63) :
    (seq + n).toNat = seq.toNat + n.toNat := by
  have hlt := h.of_zero h0
  rw [UInt64.toNat_add]
  omega

theorem seed_lt (x : UInt64) : (x &&& ((0xFFFFFFFFFFFFFFFF : UInt64) >>> 1)).toNat < 2 ^ 63 := by
  rw [UInt64.toNat_and]
  exact lt_of_le_of_lt Nat.and_le_right (by decide)

theorem fetchAddSequence_of_ne_zero {io : Proc} (h : io.nextSequence ≠ 0) :
    fetchAddSequence io =
      (some io.nextSequence, { io with nextSequence := io.nextSequence + 1 }) := by
  simp [fetchAddSequence, h]

theorem protoInitialSequence_some {env : Env} {io io' : Proc} {initial : UInt64}
    (h : protoInitialSequence env io = (some initial, io')) :
    initial ≠ 0 ∧ initial.toNat < 2 ^ 63 ∧ io' = { io with calls := io.calls + 1 } := by
  unfold protoInitialSequence protoRandomBytes at h
  cases hf : env.random io.calls with
  | none => simp [hf] at h
  | some f =>
    simp only [hf, Option.map_some, Prod.mk.injEq, Option.some.injEq] at h
    obtain ⟨rfl, rfl⟩ := h
    refine ⟨?_, ?_, rfl⟩ <;> split_ifs with hs
    · decide
    · exact hs
    · decide
    · exact seed_lt _

theorem protoNextSequence_some {env : Env} {io io' : Proc} {seq : UInt64}
    (h : protoNextSequence env io = (some seq, io')) : SequenceDrawn env io io' seq := by
  have hdraw : (protoNextSequence env io).1 = some seq := by rw [h]
  unfold protoNextSequence at h
  split_ifs at h with h0
  · rcases hi : protoInitialSequence env io with ⟨_ | initial, io₁⟩
    · simp [hi] at h
    · obtain ⟨hne, hlt, rfl⟩ := protoInitialSequence_some hi
      simp only [hi] at h
      rw [fetchAddSequence_of_ne_zero hne] at h
      cases h
      exact ⟨⟨hdraw, hne, fun h => absurd h0 h, fun _ => hlt⟩, rfl, Nat.le_succ _, rfl, rfl⟩
  · rw [fetchAddSequence_of_ne_zero h0] at h
    cases h
    exact ⟨⟨hdraw, h0, fun _ => rfl, fun h => absurd h h0⟩, rfl, le_rfl, rfl, rfl⟩

theorem protoNextSequence_of_works {env : Env} (hr : env.RandomWorks) (io : Proc) :
    ∃ seq io', protoNextSequence env io = (some seq, io') := by
  by_cases h0 : io.nextSequence = 0
  · obtain ⟨f, hf⟩ := Option.ne_none_iff_exists'.1 (hr io.calls)
    rcases hi : protoInitialSequence env io with ⟨_ | initial, io₁⟩
    · simp [protoInitialSequence, protoRandomBytes, hf] at hi
    · obtain ⟨hne, -, -⟩ := protoInitialSequence_some hi
      refine ⟨initial, { io₁ with nextSequence := initial + 1 }, ?_⟩
      rw [protoNextSequence, if_pos h0, hi]
      exact fetchAddSequence_of_ne_zero hne
  · exact ⟨_, _, by rw [protoNextSequence, if_neg h0, fetchAddSequence_of_ne_zero h0]⟩

/-- A header that is written is complete. -/
theorem protoWriteHdr_some {env : Env} {io io' : Proc} {buf b : Bytes} {type : UInt8}
    {payloadLen : UInt16} {n : ℕ}
    (h : protoWriteHdr env io buf type payloadLen = (some n, b, io')) :
    payloadLen.toNat ≤ tundMaxPlaintext ∧ n = tundHdrSize ∧
    ∃ seq nonce, nonce.length = tundNonceSize ∧ SequenceDrawn env io io' seq ∧ io.calls < io'.calls ∧
      b = hdrBytes type payloadLen seq nonce ++ buf.drop tundHdrSize := by
  unfold protoWriteHdr at h
  split_ifs at h with hlen
  · simp at h
  rcases hseq : protoNextSequence env io with ⟨_ | seq, io₁⟩
  · simp [hseq] at h
  have hd := protoNextSequence_some hseq
  cases hf : env.random io₁.calls with
  | none => simp [hseq, protoRandomBytes, hf] at h
  | some f =>
    simp only [hseq, protoRandomBytes, hf, Option.map_some, Prod.mk.injEq, Option.some.injEq] at h
    obtain ⟨rfl, rfl, rfl⟩ := h
    refine ⟨by omega, rfl, seq, (List.range tundNonceSize).map f, by simp,
      ⟨hd.toNextNumber, hd.next, Nat.le_succ_of_le hd.calls, hd.running, hd.out⟩,
      Nat.lt_succ_of_le hd.calls, ?_⟩
    -- the four copies are adjacent
    rw [Bytes.patch_zero, protoWritePayloadLen, Bytes.patch_adjacent _ _ (by simp),
      Bytes.patch_adjacent _ _ (by simp [tundSequenceOffset]),
      Bytes.patch_adjacent _ _ (by simp [tundNonceOffset])]
    simp [hdrBytes, tundNonceSize, tundHdrSize]

/-- With a working random source a header is always written. -/
theorem protoWriteHdr_of_works {env : Env} (hr : env.RandomWorks) (io : Proc) (buf : Bytes)
    (type : UInt8) {payloadLen : UInt16} (hlen : payloadLen.toNat ≤ tundMaxPlaintext) :
    ∃ n b io', protoWriteHdr env io buf type payloadLen = (some n, b, io') := by
  obtain ⟨seq, io₁, hseq⟩ := protoNextSequence_of_works hr io
  obtain ⟨f, hf⟩ := Option.ne_none_iff_exists'.1 (hr io₁.calls)
  rcases hw : protoWriteHdr env io buf type payloadLen with ⟨_ | n, b, io'⟩
  · simp [protoWriteHdr, not_lt.2 hlen, hseq, protoRandomBytes, hf] at hw
  · exact ⟨n, b, io', rfl⟩

/-- Writing a header puts nothing out. -/
theorem protoNextSequence_out (env : Env) (io : Proc) :
    (protoNextSequence env io).2.out = io.out ∧
      (protoNextSequence env io).2.running = io.running := by
  unfold protoNextSequence protoInitialSequence protoRandomBytes fetchAddSequence
  cases env.random io.calls <;> simp <;> split_ifs <;> simp

/-- Whether or not the header could be finished, type and length are in place and nothing behind
the header has changed. -/
theorem protoWriteHdr_any (env : Env) (io : Proc) (buf : Bytes) (type : UInt8)
    {payloadLen : UInt16} (hlen : payloadLen.toNat ≤ tundMaxPlaintext)
    (hbuf : tundHdrSize ≤ buf.length) :
    protoReadHdr (protoWriteHdr env io buf type payloadLen).2.1 = .ok (type, payloadLen) ∧
    (protoWriteHdr env io buf type payloadLen).2.1.drop tundHdrSize = buf.drop tundHdrSize ∧
    (protoWriteHdr env io buf type payloadLen).2.1.length = buf.length := by
  -- every possible buffer is some bytes from the start of a complete header over the old one
  have key : ∀ (seq : UInt64) (nonce : Bytes) (k : ℕ), nonce.length = tundNonceSize → 5 ≤ k →
      k ≤ tundHdrSize →
      let b := (hdrBytes type payloadLen seq nonce).take k ++ buf.drop k
      protoReadHdr b = .ok (type, payloadLen) ∧ b.drop tundHdrSize = buf.drop tundHdrSize ∧
        b.length = buf.length := by
    intro seq nonce k hn h5 hk b
    have hl : ((hdrBytes type payloadLen seq nonce).take k).length = k := by
      rw [List.length_take, length_hdrBytes hn]; omega
    refine ⟨?_, ?_, ?_⟩
    · have hread : protoReadHdr (hdrBytes type payloadLen seq nonce ++ buf.drop tundHdrSize) =
          .ok (type, payloadLen) := protoReadHdr_hdrBytes _
      have htake : b.take 5 = (hdrBytes type payloadLen seq nonce ++ buf.drop tundHdrSize).take 5 := by
        rw [List.take_append_of_le_length (by omega), List.take_take, Nat.min_eq_left h5,
          List.take_append_of_le_length (by rw [length_hdrBytes hn]; decide)]
      rw [← protoReadHdr_take le_rfl, htake, protoReadHdr_take le_rfl, hread]
    · rw [List.drop_append, List.drop_of_length_le (by omega), List.nil_append, List.drop_drop, hl]
      congr 1
      omega
    · rw [List.length_append, hl, List.length_drop]; omega
  have hfive : protoWritePayloadLen (Bytes.patch buf 0 [tundMagic, tundProtocolVersion, type])
      payloadLen = (hdrBytes type payloadLen 0 (List.replicate tundNonceSize 0)).take 5 ++
        buf.drop 5 := by
    rw [Bytes.patch_zero, protoWritePayloadLen, Bytes.patch_adjacent _ _ (by simp)]
    simp [hdrBytes]
  rcases hseq : protoNextSequence env io with ⟨_ | seq, io₁⟩
  · simp only [protoWriteHdr, if_neg (not_lt.2 hlen), hseq, hfive]
    exact key 0 _ 5 (by simp) (by omega) (by decide)
  · cases hf : env.random io₁.calls with
    | none =>
      have hthirteen : Bytes.patch (protoWritePayloadLen (Bytes.patch buf 0
          [tundMagic, tundProtocolVersion, type]) payloadLen) tundSequenceOffset
          (Bytes.be 8 seq.toNat) =
          (hdrBytes type payloadLen seq (List.replicate tundNonceSize 0)).take 13 ++
            buf.drop 13 := by
        rw [Bytes.patch_zero, protoWritePayloadLen, Bytes.patch_adjacent _ _ (by simp),
          Bytes.patch_adjacent _ _ (by simp [tundSequenceOffset]), hdrBytes,
          List.take_left' (by simp)]
        simp
      simp only [protoWriteHdr, if_neg (not_lt.2 hlen), hseq, protoRandomBytes, hf,
        Option.map_none, hthirteen]
      exact key seq _ 13 (by simp) (by omega) (by decide)
    | some f =>
      rcases hw : protoWriteHdr env io buf type payloadLen with ⟨_ | n, b, io'⟩
      · simp [protoWriteHdr, not_lt.2 hlen, hseq, protoRandomBytes, hf] at hw
      · obtain ⟨-, -, seq', nonce, hn, -, -, rfl⟩ := protoWriteHdr_some hw
        have h := key seq' nonce tundHdrSize hn (by decide) le_rfl
        rwa [List.take_of_length_le (length_hdrBytes hn).le] at h

theorem protoWriteHdr_out (env : Env) (io : Proc) (buf : Bytes) (type : UInt8)
    (payloadLen : UInt16) :
    (protoWriteHdr env io buf type payloadLen).2.2.out = io.out ∧
      (protoWriteHdr env io buf type payloadLen).2.2.running = io.running := by
  have hs := protoNextSequence_out env io
  unfold protoWriteHdr
  split_ifs with hlen
  · exact ⟨rfl, rfl⟩
  · rcases hseq : protoNextSequence env io with ⟨_ | seq, io₁⟩
    · rw [hseq] at hs; exact hs
    · rw [hseq] at hs
      cases hf : env.random io₁.calls <;> simpa [protoRandomBytes, hf] using hs

end Tund
