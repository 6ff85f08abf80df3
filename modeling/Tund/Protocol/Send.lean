import Tund.Protocol.Messages

/-!
# Buffers and sending

A handler builds a message into a buffer of its own and gives the buffer to `net_send`,
perhaps more than once.  `Outbox.Ready box m` says that the buffer holds message `m`, or
that its builder failed; `send_cases` is the one fact about `net_send` on such a buffer.
-/

namespace Tund

/-! ### Buffers -/

/-- A datagram buffer of a handler and the length its builder returned; `none` is `-1`. -/
structure Outbox where
  len : Option ℕ
  buf : Bytes

/-- A buffer nothing has been built in. -/
def Outbox.fresh : Outbox := ⟨none, List.replicate tundMaxPkt 0⟩

/-- Build a message into a fresh buffer. -/
def Outbox.build (env : Env) (io : Proc) (m : Msg) : Outbox × Proc :=
  match m.build env io Outbox.fresh.buf with
  | (len, buf, io) => (⟨len, buf⟩, io)

/-- The buffer holds the message, or its builder returned `-1`. -/
structure Outbox.Ready (box : Outbox) (m : Msg) : Prop where
  size : box.buf.length = tundMaxPkt
  holds : box.len = none ∨
    box.len = some (tundHdrSize + m.payload.length) ∧ Holds box.buf m.type.code m.payload

@[simp] theorem Outbox.length_fresh : Outbox.fresh.buf.length = tundMaxPkt :=
  List.length_replicate

/-- After a builder the buffer is ready; with a working random source it holds the message. -/
theorem build_ready (env : Env) (io : Proc) {buf : Bytes} (hbuf : buf.length = tundMaxPkt)
    (m : Msg) :
    (Outbox.mk (m.build env io buf).1 (m.build env io buf).2.1).Ready m := by
  obtain ⟨hsize, ⟨hnone, -⟩ | ⟨hsome, hholds, -⟩⟩ := m.build_cases env io hbuf
  · exact ⟨hsize, .inl hnone⟩
  · exact ⟨hsize, .inr ⟨hsome, hholds⟩⟩

/-- The effect of a `net_send` that reached `sendto`: one datagram `d` with message `m`. -/
structure Sent (env : Env) (io : Proc) (m : Msg) (dest : SockAddr) (d : Datagram) (io' : Proc) :
    Prop where
  short : m.payload.length ≤ tundMaxPlaintext
  dest : d.dest = dest
  out : io'.out = io.out ++ [.datagram d]
  running : io'.running = io.running
  wire : ∃ seq nonce io₁, nonce.length = tundNonceSize ∧ SequenceDrawn env io io₁ seq ∧
    io.calls < io₁.calls ∧ io'.calls = io₁.calls + 1 ∧ io'.nextSequence = io₁.nextSequence ∧
    d.sent = env.sendto io₁.calls ∧
    d.wire = wireBytes env.aead env.key m.type.code seq nonce m.payload

theorem Sent.carries {env : Env} {io io' : Proc} {m : Msg} {dest : SockAddr} {d : Datagram}
    (h : Sent env io m dest d io') : d.Carries env.aead env.key m.type.code m.payload := by
  obtain ⟨seq, nonce, io₁, hn, hd, -, -, -, -, hw⟩ := h.wire
  exact ⟨h.short, seq, nonce, hd.ne_zero, hn, hw⟩

/-- `net_send` of a ready buffer: nothing leaves the process, which happens only when building or
encrypting failed, or exactly one datagram with the message does. -/
theorem send_cases (env : Env) (io : Proc) {box : Outbox} {m : Msg} (hbox : box.Ready m)
    (dest : SockAddr) :
    ((box.len = none ∨ ¬ env.RandomWorks) ∧ ∃ io', io'.out = io.out ∧ io'.running = io.running ∧
      netSend env io box.buf box.len dest = (false, io')) ∨
    ∃ d io', Sent env io m dest d io' ∧ netSend env io box.buf box.len dest = (d.sent, io') := by
  rcases hbox.holds with hnone | ⟨hsome, hholds⟩
  · exact .inl ⟨.inl hnone, io, rfl, rfl, by rw [hnone, netSend_none]⟩
  · rw [hsome]
    rcases netSend_cases env io hholds dest with ⟨hr, io₁, ho, hrun, h⟩ |
      ⟨seq, nonce, io₁, hn, hd, hc, h⟩
    · exact .inl ⟨.inr hr, io₁, ho, hrun, h⟩
    · refine .inr ⟨⟨dest, box.buf.take (tundHdrSize + m.payload.length),
        wireBytes env.aead env.key m.type.code seq nonce m.payload, env.sendto io₁.calls⟩, _, ?_, h⟩
      exact ⟨hholds.short, rfl, rfl, hd.running, seq, nonce, io₁, hn, hd, hc, rfl, rfl, rfl, rfl⟩

/-- When every outside call works, a buffer that holds a message leaves as one datagram with the
next number. -/
theorem send_numbered {env : Env} (hr : env.RandomWorks) (hs : env.SendWorks) (io : Proc)
    {box : Outbox} {m : Msg} (hbox : box.Ready m) (hlen : box.len ≠ none) (dest : SockAddr) :
    ∃ seq nonce d io', NextNumber env io seq ∧ nonce.length = tundNonceSize ∧
      netSend env io box.buf box.len dest = (true, io') ∧
      io'.nextSequence = seq + 1 ∧ io'.out = io.out ++ [.datagram d] ∧ io'.running = io.running ∧
      m.payload.length ≤ tundMaxPlaintext ∧ d.dest = dest ∧ d.sent = true ∧
      d.wire = wireBytes env.aead env.key m.type.code seq nonce m.payload := by
  rcases send_cases env io hbox dest with ⟨hfail, -⟩ | ⟨d, io', hsent, h⟩
  · rcases hfail with h | h
    · exact absurd h hlen
    · exact absurd hr h
  · obtain ⟨seq, nonce, io₁, hn, hd, -, -, hnext, hok, hw⟩ := hsent.wire
    have hsent' : d.sent = true := hok.trans (hs _)
    rw [hsent'] at h
    exact ⟨seq, nonce, d, io', hd.toNextNumber, hn, h, hnext.trans hd.next, hsent.out,
      hsent.running, hsent.short, hsent.dest, hsent', hw⟩

/-- When the random source works, building a message that fits draws the next number and fills the
buffer. -/
theorem build_numbered {env : Env} (hr : env.RandomWorks) (io : Proc) {buf : Bytes}
    (hbuf : buf.length = tundMaxPkt) {m : Msg} (hm : m.payload.length ≤ tundMaxPlaintext) :
    ∃ seq, NextNumber env io seq ∧ (m.build env io buf).2.2.nextSequence = seq + 1 ∧
      (m.build env io buf).1 ≠ none := by
  rcases (m.build_cases env io hbuf).2 with ⟨-, hno⟩ | ⟨hsome, -, hdraw⟩
  · exact absurd ⟨hr, hm⟩ hno
  · obtain ⟨seq, hd, -⟩ := hdraw hr
    exact ⟨seq, hd.toNextNumber, hd.next, by rw [hsome]; simp⟩

/-! ### One message to one endpoint -/

/-- Build a message and send it. -/
def sendMsg (env : Env) (io : Proc) (m : Msg) (dest : SockAddr) : Bool × Proc :=
  match Outbox.build env io m with
  | (box, io) => netSend env io box.buf box.len dest

theorem Outbox.build_ready (env : Env) (io : Proc) (m : Msg) : (Outbox.build env io m).1.Ready m :=
  Tund.build_ready env io Outbox.length_fresh m

theorem Outbox.build_out (env : Env) (io : Proc) (m : Msg) :
    (Outbox.build env io m).2.out = io.out ∧ (Outbox.build env io m).2.running = io.running :=
  m.build_out env io _

/-- Sending puts out at most one datagram, which carries the message to the endpoint. -/
theorem sendMsg_cases (env : Env) (io : Proc) (m : Msg) (dest : SockAddr) :
    (sendMsg env io m dest).2.running = io.running ∧
    ((sendMsg env io m dest).1 = false ∧ (sendMsg env io m dest).2.out = io.out ∨
      ∃ d : Datagram, (sendMsg env io m dest).1 = d.sent ∧ d.dest = dest ∧
        d.Carries env.aead env.key m.type.code m.payload ∧
        (sendMsg env io m dest).2.out = io.out ++ [.datagram d]) := by
  obtain ⟨ho, hr⟩ := Outbox.build_out env io m
  rcases send_cases env (Outbox.build env io m).2 (Outbox.build_ready env io m) dest with
    ⟨-, io', hout, hrun, h⟩ | ⟨d, io', hsent, h⟩
  · have heq : sendMsg env io m dest = (false, io') := h
    rw [heq]
    exact ⟨hrun.trans hr, .inl ⟨rfl, hout.trans ho⟩⟩
  · have heq : sendMsg env io m dest = (d.sent, io') := h
    rw [heq]
    exact ⟨hsent.running.trans hr, .inr ⟨d, rfl, hsent.dest, hsent.carries, by rw [hsent.out, ho]⟩⟩

/-- With a working random source, and unless a DATA packet is too long, the datagram is out. -/
theorem sendMsg_of_works {env : Env} (hr : env.RandomWorks) (io : Proc) {m : Msg}
    (hm : m.payload.length ≤ tundMaxPlaintext) (dest : SockAddr) :
    ∃ d : Datagram, (sendMsg env io m dest).1 = d.sent ∧ d.dest = dest ∧
      d.Carries env.aead env.key m.type.code m.payload ∧
      (sendMsg env io m dest).2.out = io.out ++ [.datagram d] := by
  have hlen : (Outbox.build env io m).1.len ≠ none := by
    intro hnone
    rcases (m.build_cases env io Outbox.length_fresh).2 with ⟨-, hno⟩ | ⟨h, -⟩
    · exact hno ⟨hr, hm⟩
    · exact absurd (h.symm.trans hnone) (by simp)
  rcases send_cases env (Outbox.build env io m).2 (Outbox.build_ready env io m) dest with
    ⟨hfail, -⟩ | ⟨d, io', hsent, h⟩
  · rcases hfail with h | h
    · exact absurd h hlen
    · exact absurd hr h
  · have heq : sendMsg env io m dest = (d.sent, io') := h
    rw [heq]
    exact ⟨d, rfl, hsent.dest, hsent.carries, by rw [hsent.out, (Outbox.build_out env io m).1]⟩

/-- When every outside call works, the message leaves as one datagram, and its number is the second
one that is drawn. -/
theorem sendMsg_numbered {env : Env} (hr : env.RandomWorks) (hs : env.SendWorks) (io : Proc)
    {m : Msg} (hm : m.payload.length ≤ tundMaxPlaintext) (dest : SockAddr) :
    ∃ seq nonce d io', NextNumber env io seq ∧ nonce.length = tundNonceSize ∧
      sendMsg env io m dest = (true, io') ∧ io'.out = io.out ++ [.datagram d] ∧
      io'.running = io.running ∧ d.dest = dest ∧ d.sent = true ∧
      (seq + 1 ≠ 0 → io'.nextSequence = seq + 1 + 1 ∧
        d.wire = wireBytes env.aead env.key m.type.code (seq + 1) nonce m.payload) := by
  obtain ⟨seq, hseq, hnext, hlen⟩ := build_numbered hr io Outbox.length_fresh hm
  obtain ⟨hout, hrun⟩ := Outbox.build_out env io m
  obtain ⟨seq', nonce, d, io', hseq', hn, h, hnext', hout', hrun', -, hdest, hsent, hw⟩ :=
    send_numbered hr hs (Outbox.build env io m).2 (Outbox.build_ready env io m) hlen dest
  refine ⟨seq, nonce, d, io', hseq, hn, h, by rw [hout', hout], hrun'.trans hrun, hdest, hsent,
    fun hne => ?_⟩
  have hcounter : (Outbox.build env io m).2.nextSequence = seq + 1 := hnext
  obtain rfl : seq' = seq + 1 := by rw [hseq'.of_ne_zero (hcounter ▸ hne), hcounter]
  exact ⟨hnext', hw⟩

end Tund
