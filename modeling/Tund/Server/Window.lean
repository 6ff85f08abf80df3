import Tund.Server.Isolation

/-!
# What reaches the server's windows

The window of an entry stands for numbers of messages that came from the endpoint of the
entry (`Server.Listens`), whatever the server does.  With `ReplayWindow.SeenOnly.accepts`
this says when a message is taken: its number is new, and no number has come from the
same endpoint that is 64 or more above it.
-/

namespace Tund

/-! ### Windows -/

section Window

variable {w : ReplayWindow} {H : UInt64 → Prop}

/-- The window stands for accepted numbers that all satisfy `H`. -/
def ReplayWindow.SeenOnly (H : UInt64 → Prop) (w : ReplayWindow) : Prop :=
  ∃ log, w.Tracks log ∧ ∀ n ∈ log, H n

theorem ReplayWindow.seenOnly_reset : protoReplayReset.SeenOnly H := ⟨[], tracks_reset, by simp⟩

theorem ReplayWindow.SeenOnly.mono (h : w.SeenOnly H) {H' : UInt64 → Prop} (hH : ∀ n, H n → H' n) :
    w.SeenOnly H' := by
  obtain ⟨log, ht, hlog⟩ := h
  exact ⟨log, ht, fun n hn => hH n (hlog n hn)⟩

/-- The window is shown a number that satisfies `H`. -/
theorem ReplayWindow.SeenOnly.shown (h : w.SeenOnly H) {s : UInt64} (hs : H s) :
    (protoReplayAccept w s).2.SeenOnly H := by
  obtain ⟨log, ht, hlog⟩ := h
  rcases ht.accept s with ⟨-, -, ht'⟩ | ⟨hr, -⟩
  · refine ⟨log ++ [s], ht', fun n hn => ?_⟩
    rcases List.mem_append.1 hn with hn | hn
    · exact hlog n hn
    · rw [List.mem_singleton.1 hn]
      exact hs
  · rw [hr]
    exact ⟨log, ht, hlog⟩

/-- The window takes a number that differs from all numbers it can stand for and is less than 64
behind each of them. -/
theorem ReplayWindow.SeenOnly.accepts (h : w.SeenOnly H) {s : UInt64} (hs : s ≠ 0)
    (hnew : ∀ n, H n → n ≠ s ∧ n.toNat < s.toNat + 64) : (protoReplayAccept w s).1 = true := by
  obtain ⟨log, ht, hlog⟩ := h
  rcases ht.accept s with ⟨hacc, -, -⟩ | ⟨-, hnot⟩
  · exact hacc
  · refine absurd ⟨hs, fun hmem => (hnew s (hlog s hmem)).1 rfl, ?_⟩ hnot
    by_cases h0 : w.highest = 0
    · exact .inl (ht.eq_nil_iff.2 h0)
    · exact .inr (hnew _ (hlog _ (ht.highest_mem h0))).2

end Window

/-! ### The table -/

section Table

variable {srv srv' : Server} {H : SockAddr → UInt64 → Prop}

/-- The windows of the active entries stand for numbers from the endpoints of the entries only;
`H a n` says that number `n` has come from endpoint `a`. -/
def Server.Listens (H : SockAddr → UInt64 → Prop) (srv : Server) : Prop :=
  ∀ i, (srv.peers i).active = true → (srv.peers i).replay.SeenOnly (H (srv.peers i).realAddr)

theorem Server.Listens.mono (h : srv.Listens H) {H' : SockAddr → UInt64 → Prop}
    (hH : ∀ a n, H a n → H' a n) : srv.Listens H' := fun i hi => (h i hi).mono (hH _)

/-- What leaves the endpoints and windows of the active entries alone. -/
theorem Server.Listens.of_same (h : srv.Listens H)
    (hsame : ∀ i, (srv'.peers i).active = true → (srv.peers i).active = true ∧
      (srv'.peers i).realAddr = (srv.peers i).realAddr ∧
      (srv'.peers i).replay = (srv.peers i).replay) : srv'.Listens H := by
  intro i hi
  obtain ⟨hact, haddr, hreplay⟩ := hsame i hi
  rw [haddr, hreplay]
  exact h i hact

theorem Server.Listens.sameButBytesOut (h : srv.Listens H) (hs : srv.SameButBytesOut srv') :
    srv'.Listens H :=
  h.of_same fun i hi => ⟨hs.active i ▸ hi, hs.realAddr i, hs.replay i⟩

theorem Server.Listens.setPeer (h : srv.Listens H) (i : Slot) {p : Peer}
    (hp : p.active = true → p.replay.SeenOnly (H p.realAddr)) : (srv.setPeer i p).Listens H := by
  intro j
  rw [srv.setPeer_peers]
  split_ifs
  · exact hp
  · exact h j

theorem Server.Listens.leave (h : srv.Listens H) (i : Slot) : (srv.leave i).Listens H :=
  h.of_same fun j hj => by
    obtain ⟨hact, -, heq⟩ := of_leave_active hj
    rw [heq]
    exact ⟨hact, rfl, rfl⟩

/-- A message from `src` with number `seq` is in hand. -/
def FromEndpoint (H : SockAddr → UInt64 → Prop) (src : SockAddr) (seq : UInt64) : Prop :=
  ∀ a : SockAddr, a.sinAddr = src.sinAddr → a.sinPort = src.sinPort → H a seq

theorem Server.Listens.shown (h : srv.Listens H) {src : SockAddr} {seq : UInt64}
    (hH : FromEndpoint H src seq) {i : Slot} (hi : serverFindPeerByAddr srv src = some i) :
    (srv.setPeer i ((srv.peers i).shown seq)).Listens H := by
  obtain ⟨hact, ha, hp⟩ := Peer.isAt_iff.1 (isAt_of_find hi)
  exact h.setPeer i fun _ => (h i hact).shown (hH _ ha hp)

/-- The locked sections of the dispatcher. -/
theorem Server.Listens.dispatch (h : srv.Listens H) (env : Env) {f : Frame} {src : SockAddr}
    (hH : FromEndpoint H src f.sequence) : (serverDispatchLocked env srv f src).1.Listens H := by
  have hkept : ∀ (i : Slot) (p : Peer), p.active = (srv.peers i).active →
      p.realAddr = (srv.peers i).realAddr → p.replay = (srv.peers i).replay →
      (srv.setPeer i p).Listens H := by
    intro i p hact haddr hreplay
    refine h.setPeer i fun hp => ?_
    rw [haddr, hreplay]
    exact h i (hact ▸ hp)
  unfold serverDispatchLocked
  split
  · rcases serverRegisterLocked_cases env srv f.payload src f.sequence with
      ⟨i, -, -, heq⟩ | ⟨i, hi, -, heq⟩ | ⟨-, -, heq⟩ | ⟨i, -, -, -, heq⟩ <;> rw [heq]
    · exact h
    · obtain ⟨hact, ha, hp⟩ := Peer.isAt_iff.1 (isAt_of_find hi)
      exact h.setPeer i fun _ => (h i hact).shown (hH _ ha hp)
    · exact h
    · intro j
      rw [join_peers]
      split_ifs
      · exact fun _ => ReplayWindow.seenOnly_reset.shown (hH src rfl rfl)
      · exact h j
  · rcases serverDataLocked_cases srv f.payload src with ⟨-, heq⟩ | ⟨i, -, heq⟩ <;> rw [heq]
    · exact h
    · exact hkept i _ rfl rfl rfl
  · rcases serverKeepaliveLocked_cases env srv f.payload src with heq | ⟨i, _, -, heq⟩ <;> rw [heq]
    · exact h
    · exact hkept i _ rfl rfl rfl
  · rcases serverKeepaliveAckLocked_cases env srv f.payload src with heq | ⟨i, _, -, heq⟩ <;> rw [heq]
    · exact h
    · exact hkept i _ rfl rfl rfl
  · rcases serverDisconnectLocked_cases srv src with ⟨-, heq⟩ | ⟨i, -, heq⟩ <;> rw [heq]
    · exact h
    · exact h.leave i
  · exact h

end Table

/-! ### Events -/

variable {H : SockAddr → UInt64 → Prop}

/-- The endpoint and the number of the message that an event brings. -/
def ServerEvent.Shows (e : ServerEvent) (src : SockAddr) (seq : UInt64) : Prop :=
  ∃ env buf f, e = .packet env buf src ∧ readFrame buf = some f ∧ f.sequence = seq

theorem Server.Listens.serverStep {s : ServerState} (h : s.srv.Listens H) (e : ServerEvent)
    (hH : ∀ src seq, e.Shows src seq → FromEndpoint H src seq) : (serverStep s e).srv.Listens H := by
  cases e with
  | packet env buf src =>
    simp only [Tund.serverStep]
    rcases serverHandlePacket_cases env s.srv s.io buf src with ⟨-, heq⟩ | ⟨f, srv₁, hread, hacc, heq⟩ <;>
      rw [heq]
    · exact h
    · have hfrom := hH src f.sequence ⟨env, buf, f, rfl, hread, rfl⟩
      have h₁ : srv₁.Listens H := by
        rcases hacc with ⟨-, rfl⟩ | ⟨-, hacc⟩
        · exact h
        · rcases serverAccept_cases s.srv src f.sequence with ⟨-, ha⟩ | ⟨i, -, -, ha⟩ | ⟨i, hi, -, ha⟩ <;>
            rw [hacc] at ha <;> cases ha
          · exact h
          · exact h.shown hfrom hi
      exact (h₁.dispatch env hfrom).sameButBytesOut (finish_same env s.io _)
  | sweep env =>
    simp only [Tund.serverStep, serverSweep_eq]
    refine Server.Listens.sameButBytesOut (h.of_same fun i hi => ?_) (finish_same env _ _)
    have heq := serverSweepLocked_origin hi
    rw [heq] at hi ⊢
    exact ⟨hi, rfl, rfl⟩
  | tun env pkt => exact h.sameButBytesOut (serverTunPacket_same env s.srv s.io pkt)
  | shutdown env => exact h.sameButBytesOut (finish_same env s.io _)

theorem listens_init : serverInit.Listens H := fun i hi => by cases hi

end Tund
