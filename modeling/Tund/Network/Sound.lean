import Tund.Network.World

/-!
# Where datagrams come from

Every datagram that unlocks was sent by a key holder as the message that it unlocks to
(`World.Sound.origin`), in every world that a run reaches (`NetReachable.sound`).
-/

namespace Tund

variable {ι : Type} {aead : Aead} {key : Bytes}

/-! ### Where datagrams come from -/

/-- The messages of a party: the server sends no REGISTER, and a client sends to its server and
registers with its own name. -/
def World.MaySend (w : World ι) : Party ι → Datagram → Msg → Prop
  | .server, _, m => m.type ≠ .register
  | .client i, d, m => d.dest = (w.clients i).cli.serverAddr ∧
      (m.type = .register → m = .register (w.clients i).cli.name.1)

/-- Every datagram carries a message of its sender, and every packet that a client wrote to its
TUN device was sent as DATA. -/
structure World.Sound (aead : Aead) (key : Bytes) (w : World ι) : Prop where
  sent : ∀ p d, Out.datagram d ∈ w.out p →
    ∃ m : Msg, w.MaySend p d m ∧ d.Carries aead key m.type.code m.payload
  tun : ∀ i pkt, Out.tunWrite pkt ∈ (w.clients i).io.out →
    ∃ p d, w.Sent p d ∧ d.Carries aead key MsgType.data.code pkt

theorem netRecv_take (wire : Bytes) :
    netRecv aead key (wire.take tundMaxPkt) = netRecv aead key wire := by
  rw [netRecv, netRecv, List.take_take, Nat.min_self]

/-- A datagram unlocks to the one message it carries. -/
theorem Datagram.Carries.unique {d : Datagram} {type : UInt8} {payload : Bytes} {buf : Bytes}
    {f : Frame} (h : d.Carries aead key type payload) (hrecv : netRecv aead key d.wire = some buf)
    (hread : readFrame buf = some f) : f.type = type ∧ f.payload = payload := by
  obtain ⟨buf', seq, hrecv', hread'⟩ := h.read
  obtain rfl : buf = buf' := Option.some.inj (hrecv.symm.trans hrecv')
  rw [hread] at hread'
  cases hread'
  exact ⟨rfl, rfl⟩

theorem Datagram.Carries.length_buf {d : Datagram} {type : UInt8} {payload : Bytes} {buf : Bytes}
    (h : d.Carries aead key type payload) (hrecv : netRecv aead key d.wire = some buf) :
    tundHdrSize ≤ buf.length := by
  obtain ⟨hp, seq, nonce, -, hn, hw⟩ := h
  rw [hw, netRecv_wireBytes hn hp] at hrecv
  cases hrecv
  rw [frameBytes, List.length_append, length_hdrBytes hn]
  omega

/-- **Origin of a datagram.**  What unlocks was sent by a party, as the message that is read. -/
theorem World.Sound.origin {w : World ι} (h : w.Sound aead key) {wire buf : Bytes}
    (hdel : w.Deliverable aead key wire) (hrecv : netRecv aead key wire = some buf) :
    tundHdrSize ≤ buf.length ∧ ∀ f, readFrame buf = some f →
      ∃ p d, ∃ m : Msg, w.Sent p d ∧ d.wire = wire.take tundMaxPkt ∧ w.MaySend p d m ∧
        d.Carries aead key m.type.code m.payload ∧ f.type = m.type.code ∧ f.payload = m.payload := by
  rcases hdel with hnone | ⟨p, d, hsent, hwire⟩
  · rw [hnone] at hrecv; cases hrecv
  obtain ⟨m, hmay, hcar⟩ := h.sent p d hsent.1
  rw [← netRecv_take, ← hwire] at hrecv
  refine ⟨hcar.length_buf hrecv, fun f hread => ?_⟩
  obtain ⟨htype, hpay⟩ := hcar.unique hrecv hread
  exact ⟨p, d, m, hsent, hwire, hmay, hcar, htype, hpay⟩

theorem World.Sound.reads {w : World ι} (h : w.Sound aead key) {arrival : Arrival} {type : UInt8}
    {payload : Bytes}
    (hdel : ∀ wire src, arrival = .datagram wire src → w.Deliverable aead key wire)
    (hreads : arrival.Reads aead key type payload) :
    ∃ p d wire src, w.Sent p d ∧ arrival = .datagram wire src ∧ d.wire = wire.take tundMaxPkt ∧
      d.Carries aead key type payload := by
  obtain ⟨wire, src, buf, seq, harr, hrecv, hread⟩ := hreads
  obtain ⟨p, d, m, hsent, hwire, -, hcar, htype, hpay⟩ :=
    (h.origin (hdel wire src harr) hrecv).2 _ hread
  exact ⟨p, d, wire, src, hsent, harr, hwire, by rw [← htype, ← hpay] at hcar; exact hcar⟩

theorem take_wire {d : Datagram} {type : UInt8} {payload : Bytes}
    (h : d.Carries aead key type payload) : d.wire.take tundMaxPkt = d.wire := by
  obtain ⟨hp, seq, nonce, -, hn, hw⟩ := h
  apply List.take_of_length_le
  rw [hw, length_wireBytes hn, tundMaxPkt, tundMaxPayload]
  omega

/-- Whatever a party has sent can be delivered. -/
theorem World.Sound.deliverable {w : World ι} (h : w.Sound aead key) {p : Party ι} {d : Datagram}
    (hsent : w.Sent p d) : w.Deliverable aead key d.wire := by
  obtain ⟨m, -, hcar⟩ := h.sent p d hsent.1
  exact .inr ⟨p, d, hsent, (take_wire hcar).symm⟩

/-! ### Steps keep the world sound -/

section Steps

variable {w : World ι}

theorem World.Sound.server (h : w.Sound aead key) {s : ServerState} {outs : List Out}
    (hout : s.io.out = w.server.io.out ++ outs)
    (hnew : ∀ d, Out.datagram d ∈ outs →
      ∃ m : Msg, m.type ≠ .register ∧ d.Carries aead key m.type.code m.payload) :
    World.Sound aead key { w with server := s } := by
  have hsent : ∀ p d, w.Sent p d → World.Sent { w with server := s } p d := by
    rintro (_ | i) d ⟨hmem, hs⟩
    · exact ⟨by simp only [World.out, hout]; exact List.mem_append_left _ hmem, hs⟩
    · exact ⟨hmem, hs⟩
  refine ⟨?_, fun i pkt hpkt => ?_⟩
  · rintro (_ | i) d hd
    · simp only [World.out, hout] at hd
      rcases List.mem_append.1 hd with hd | hd
      · exact h.sent .server d hd
      · exact hnew d hd
    · exact h.sent (.client i) d hd
  · obtain ⟨p, d, hs, hcar⟩ := h.tun i pkt hpkt
    exact ⟨p, d, hsent p d hs, hcar⟩

theorem World.Sound.serverStep (h : w.Sound aead key) (e : ServerEvent) (ha : e.env.aead = aead)
    (hk : e.env.key = key) : World.Sound aead key { w with server := serverStep w.server e } := by
  obtain ⟨outs, hout, hnew⟩ := serverStep_out w.server e
  rw [ha, hk] at hnew
  exact h.server hout hnew

variable [DecidableEq ι]

theorem World.Sound.move (h : w.Sound aead key) {i : ι} {f : ClientNode → ClientNode}
    {T : Bytes → Prop} (hgo : (w.clients i).Goes aead key T (f (w.clients i)))
    (hT : ∀ pkt, T pkt → ∃ p d, w.Sent p d ∧ d.Carries aead key MsgType.data.code pkt) :
    (w.move i f).Sound aead key := by
  obtain ⟨outs, hout, hnew⟩ := hgo.out
  have hself : (w.move i f).clients i = f (w.clients i) := by simp [World.move]
  have hne : ∀ j, j ≠ i → (w.move i f).clients j = w.clients j := fun j hj => by
    simp [World.move, hj]
  have hsent : ∀ p d, w.Sent p d → (w.move i f).Sent p d := by
    rintro (_ | j) d ⟨hmem, hs⟩
    · exact ⟨hmem, hs⟩
    · refine ⟨?_, hs⟩
      by_cases hj : j = i
      · subst hj
        simp only [World.out, hself, hout]
        exact List.mem_append_left _ hmem
      · simp only [World.out, hne j hj]
        exact hmem
  have hmay : ∀ p d m, w.MaySend p d m → (w.move i f).MaySend p d m := by
    rintro (_ | j) d m hm
    · exact hm
    · by_cases hj : j = i
      · subst hj
        simpa [World.MaySend, hself, hgo.serverAddr, hgo.name] using hm
      · simpa [World.MaySend, hne j hj] using hm
  constructor
  · rintro (_ | j) d hd
    · obtain ⟨m, hm, hcar⟩ := h.sent .server d hd
      exact ⟨m, hmay _ d m hm, hcar⟩
    · by_cases hj : j = i
      · subst hj
        simp only [World.out, hself, hout] at hd
        rcases List.mem_append.1 hd with hd | hd
        · obtain ⟨m, hm, hcar⟩ := h.sent (.client j) d hd
          exact ⟨m, hmay _ d m hm, hcar⟩
        · obtain ⟨hdest, m, hreg, hcar⟩ := hnew _ hd
          exact ⟨m, hmay (.client j) d m ⟨hdest, hreg⟩, hcar⟩
      · simp only [World.out, hne j hj] at hd
        obtain ⟨m, hm, hcar⟩ := h.sent (.client j) d hd
        exact ⟨m, hmay _ d m hm, hcar⟩
  · intro j pkt hpkt
    have hold : ∃ p d, w.Sent p d ∧ d.Carries aead key MsgType.data.code pkt := by
      by_cases hj : j = i
      · subst hj
        rw [hself, hout] at hpkt
        rcases List.mem_append.1 hpkt with hpkt | hpkt
        · exact h.tun j pkt hpkt
        · exact hT pkt (hnew _ hpkt)
      · rw [hne j hj] at hpkt
        exact h.tun j pkt hpkt
    obtain ⟨p, d, hs, hcar⟩ := hold
    exact ⟨p, d, hsent p d hs, hcar⟩

end Steps

section Runs

variable [DecidableEq ι]

/-- One event. -/
theorem World.Sound.netStep {w : World ι} (h : w.Sound aead key) {e : Env × NetEvent ι}
    (hok : netOk aead key w e) : (netStep w e).Sound aead key := by
  obtain ⟨env, e⟩ := e
  obtain ⟨ha, hk, hok⟩ := hok
  have hno : ∀ pkt : Bytes, False → ∃ p d, w.Sent p d ∧ d.Carries aead key MsgType.data.code pkt :=
    fun _ => False.elim
  cases e with
  | receive wire src =>
    simp only [Tund.netStep, serverReceive]
    cases netRecv env.aead env.key wire with
    | none => exact h
    | some buf => exact h.serverStep (.packet env buf src) ha hk
  | sweep => exact h.serverStep (.sweep env) ha hk
  | hubTun pkt => exact h.serverStep (.tun env pkt) ha hk
  | hubShutdown => exact h.serverStep (.shutdown env) ha hk
  | register i => exact h.move (ClientNode.register_goes ha hk (fun _ => False) _) hno
  | keepalive i => exact h.move (ClientNode.keepalive_goes ha hk (fun _ => False) _) hno
  | tun i pkt =>
    exact h.move (f := fun c => c.tun env pkt) (ClientNode.tun_goes ha hk (fun _ => False) _ pkt) hno
  | shutdown i => exact h.move (ClientNode.shutdown_goes ha hk (fun _ => False) _) hno
  | arrive i arrival =>
    refine h.move (f := fun c => c.arrive env arrival) (ClientNode.arrive_goes ha hk _ arrival).1
      fun pkt hreads => ?_
    have hdel : ∀ wire src, arrival = .datagram wire src → w.Deliverable aead key wire := by
      rintro wire src rfl
      exact hok
    obtain ⟨p, d, -, -, hsent, -, -, hcar⟩ := h.reads hdel hreads
    exact ⟨p, d, hsent, hcar⟩

theorem NetReachable.sound {w : World ι} (h : NetReachable aead key w) : w.Sound aead key := by
  refine h.invariant (fun w ⟨hs, hc⟩ => ⟨?_, fun i pkt hpkt => ?_⟩) fun w e he hw => hw.netStep he
  · rintro (_ | i) d hd
    · simp only [World.out, hs] at hd
      cases hd
    · obtain ⟨addr, serverAddr, name, hi⟩ := hc i
      simp only [World.out, hi] at hd
      cases hd
  · obtain ⟨addr, serverAddr, name, hi⟩ := hc i
    rw [hi] at hpkt
    cases hpkt

end Runs

end Tund
