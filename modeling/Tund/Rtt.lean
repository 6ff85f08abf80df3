import Tund.Lib.Smoothing
import Tund.Server.Threads
import Tund.Reordering
import Tund.Server.Telling

/-!
# Round-trip times

Both sides time the answers to their keepalives.  The timestamp that comes back is
whatever the other side echoes, so a sample is an arbitrary number below the clock;
`smooth_rtt_ms` folds it into a running average.

* `rttAfter`: the average over a list of samples, as the code computes it;
* `Sampled`: the server with the samples it has accepted for each slot since the entry
  was made, `ClientNode.samplesIn`: those of a client process since its start;
* `Sampled.tracks`, `ClientNode.rtt_life`: in every run the value in the table is the
  average over these samples.

The bounds are those of `Smoothing`, carried to 64-bit words by `toNat_smoothRttMs`.
-/

namespace Tund

/-! ### The average of a list of samples -/

/-- The clock bound under which the arithmetic is exact. -/
def rttClockBound : ℕ := 2 ^ 60

/-- The sample that a KEEPALIVE_ACK gives, if its timestamp does not lie in the future. -/
def rttSample (env : Env) (payload : Bytes) : Option UInt64 :=
  match protoReadKeepaliveTimestamp payload with
  | none => none
  | some sentAt => if env.nowMs < sentAt then none else some (env.nowMs - sentAt)

/-- The value and its flag after one more sample. -/
def rttStep (rtt : UInt64 × Bool) (sample : UInt64) : UInt64 × Bool :=
  (smoothRttMs rtt.1 sample rtt.2, true)

/-- The value and its flag after a list of samples. -/
def rttAfter (samples : List UInt64) : UInt64 × Bool := samples.foldl rttStep (0, false)

theorem rttAfter_concat (samples : List UInt64) (x : UInt64) :
    rttAfter (samples ++ [x]) = rttStep (rttAfter samples) x := List.foldl_append

section Arithmetic

variable {c s : UInt64}

/-- No sum of `smooth_rtt_ms` reaches 2^64. -/
def RttFits (current sample : UInt64) : Prop :=
  current.toNat * tundRttSmoothingWeight.toNat + sample.toNat +
    (tundRttSmoothingWeight / 2).toNat < 2 ^ 64

theorem rttFits (hc : c.toNat < rttClockBound) (hs : s.toNat < rttClockBound) : RttFits c s := by
  have hw : tundRttSmoothingWeight.toNat = 7 := rfl
  have hr : (tundRttSmoothingWeight / 2).toNat = 3 := rfl
  unfold RttFits rttClockBound at *
  rw [hw, hr]
  omega

theorem toNat_smoothRttMs (h : RttFits c s) :
    (smoothRttMs c s true).toNat = Smoothing.next 7 c.toNat s.toNat := by
  have hw : tundRttSmoothingWeight.toNat = 7 := rfl
  have hr : (tundRttSmoothingWeight / 2).toNat = 3 := rfl
  have hd : (tundRttSmoothingWeight + 1).toNat = 8 := rfl
  unfold RttFits at h
  rw [hw, hr] at h
  rw [smoothRttMs, if_pos rfl, UInt64.toNat_div, hd, UInt64.toNat_add, UInt64.toNat_add,
    UInt64.toNat_mul, hw, hr, Smoothing.next]
  have h1 : c.toNat * 7 % 2 ^ 64 = c.toNat * 7 := Nat.mod_eq_of_lt (by omega)
  rw [h1, Nat.mod_eq_of_lt (b := 2 ^ 64) (a := c.toNat * 7 + s.toNat) (by omega),
    Nat.mod_eq_of_lt h, Nat.mul_comm]

/-- A sample lies below the clock. -/
theorem rttSample_lt {env : Env} {payload : Bytes} {x : UInt64} (h : rttSample env payload = some x)
    (hclock : env.nowMs.toNat < rttClockBound) : x.toNat < rttClockBound := by
  unfold rttSample at h
  split at h
  · cases h
  · rename_i sentAt _
    split_ifs at h with hlt
    cases h
    have hle : sentAt ≤ env.nowMs := UInt64.not_lt.1 hlt
    rw [UInt64.toNat_sub_of_le _ _ hle]
    omega

end Arithmetic

/-- All samples lie below the clock bound. -/
def Bounded (samples : List UInt64) : Prop := ∀ x ∈ samples, x.toNat < rttClockBound

theorem bounded_concat {samples : List UInt64} {x : UInt64} :
    Bounded (samples ++ [x]) ↔ Bounded samples ∧ x.toNat < rttClockBound := by
  unfold Bounded
  rw [List.forall_mem_append]
  simp

theorem rttAfter_snd (samples : List UInt64) : (rttAfter samples).2 = true ↔ samples ≠ [] := by
  induction samples using List.reverseRecOn with
  | nil => simp [rttAfter]
  | append_singleton samples x _ => simp [rttAfter_concat, rttStep]

/-- **Bounds.**  The average lies between a sample and a sample. -/
theorem rttAfter_mem {samples : List UInt64} (hb : Bounded samples) (hne : samples ≠ []) :
    ∃ lo ∈ samples, ∃ hi ∈ samples,
      lo.toNat ≤ (rttAfter samples).1.toNat ∧ (rttAfter samples).1.toNat ≤ hi.toNat := by
  induction samples using List.reverseRecOn with
  | nil => exact absurd rfl hne
  | append_singleton samples x ih =>
    obtain ⟨hb, hx⟩ := bounded_concat.1 hb
    rw [rttAfter_concat, rttStep]
    by_cases hnil : samples = []
    · subst hnil
      refine ⟨x, by simp, x, by simp, ?_⟩
      simp [rttAfter, smoothRttMs]
    · obtain ⟨lo, hlo, hi, hhi, hle, hge⟩ := ih hb hnil
      have hflag := (rttAfter_snd samples).2 hnil
      have hfits : RttFits (rttAfter samples).1 x := rttFits (by have := hb hi hhi; omega) hx
      have hmem := Smoothing.next_mem_uIcc 7 (rttAfter samples).1.toNat x.toNat
      rw [hflag, toNat_smoothRttMs hfits]
      rcases le_total (rttAfter samples).1.toNat x.toNat with hcx | hcx
      · rw [Set.uIcc_of_le hcx] at hmem
        exact ⟨lo, by simp [hlo], x, by simp, hle.trans hmem.1, hmem.2⟩
      · rw [Set.uIcc_of_ge hcx] at hmem
        exact ⟨x, by simp, hi, by simp [hhi], hmem.1, hmem.2.trans hge⟩

theorem rttAfter_lt {samples : List UInt64} (hb : Bounded samples) :
    (rttAfter samples).1.toNat < rttClockBound := by
  by_cases hne : samples = []
  · subst hne
    simp [rttAfter, rttClockBound]
  · obtain ⟨-, -, hi, hhi, -, hle⟩ := rttAfter_mem hb hne
    exact lt_of_le_of_lt hle (hb hi hhi)

/-- A constant sample is an iteration of the average. -/
theorem rttAfter_replicate {samples : List UInt64} (hb : Bounded samples) (hne : samples ≠ [])
    {s : UInt64} (hs : s.toNat < rttClockBound) (n : ℕ) :
    (rttAfter (samples ++ List.replicate n s)).1.toNat =
      (fun c => Smoothing.next 7 c s.toNat)^[n] (rttAfter samples).1.toNat := by
  induction n with
  | zero => simp
  | succ n ih =>
    have hall : Bounded (samples ++ List.replicate n s) := by
      intro x hx
      rcases List.mem_append.1 hx with hx | hx
      · exact hb x hx
      · rw [List.eq_of_mem_replicate hx]
        exact hs
    have hflag : (rttAfter (samples ++ List.replicate n s)).2 = true :=
      (rttAfter_snd _).2 (by simp [hne])
    rw [List.replicate_succ', ← List.append_assoc, rttAfter_concat, rttStep, hflag,
      toNat_smoothRttMs (rttFits (rttAfter_lt hall) hs), ih, Function.iterate_succ_apply']

/-- A value and its flag stand for the samples accepted so far. -/
structure RttSound (rtt : UInt64 × Bool) (samples : List UInt64) : Prop where
  average : rtt = rttAfter samples
  flag : rtt.2 = true ↔ samples ≠ []
  bounds : samples ≠ [] →
    ∃ lo ∈ samples, ∃ hi ∈ samples, lo.toNat ≤ rtt.1.toNat ∧ rtt.1.toNat ≤ hi.toNat

theorem rttSound_of_average {rtt : UInt64 × Bool} {samples : List UInt64}
    (h : rtt = rttAfter samples) (hb : Bounded samples) : RttSound rtt samples where
  average := h
  flag := by rw [h]; exact rttAfter_snd samples
  bounds hne := by rw [h]; exact rttAfter_mem hb hne

/-- What one more sample does: the first is taken as it is, a later one moves the value towards
itself, and no sum wraps. -/
structure RttMoves (rtt : UInt64 × Bool) (sample : UInt64) (rtt' : UInt64 × Bool) : Prop where
  flag : rtt'.2 = true
  first : rtt.2 = false → rtt'.1 = sample
  fits : rtt.2 = true → RttFits rtt.1 sample
  between : rtt.2 = true → min rtt.1.toNat sample.toNat ≤ rtt'.1.toNat ∧
    rtt'.1.toNat ≤ max rtt.1.toNat sample.toNat

theorem rttMoves_step {samples : List UInt64} (hb : Bounded samples) {x : UInt64}
    (hx : x.toNat < rttClockBound) : RttMoves (rttAfter samples) x (rttStep (rttAfter samples) x) where
  flag := rfl
  first h := by rw [rttStep, h]; rfl
  fits _ := rttFits (rttAfter_lt hb) hx
  between h := by
    rw [rttStep, h, toNat_smoothRttMs (rttFits (rttAfter_lt hb) hx)]
    exact Smoothing.next_mem_uIcc 7 _ _

/-! ### The server -/

/-- The value of an entry and its flag. -/
def Peer.rtt (p : Peer) : UInt64 × Bool := (p.rttMs, p.hasRtt)

/-- The slot and the sample that a step of the server accepts. -/
def Hub.rttSample (h : Hub) : HubEvent → Option (Slot × UInt64)
  | .dispatch env =>
    match h.accepted with
    | none => none
    | some (f, src) =>
      if f.type = MsgType.keepaliveAck.code then
        match Tund.rttSample env f.payload, serverFindPeerByAddr h.srv src with
        | some x, some i => some (i, x)
        | _, _ => none
      else none
  | _ => none

/-- The server with the samples accepted for each slot since its entry was made. -/
structure Sampled where
  hub : Hub
  samples : Slot → List UInt64

/-- The samples after a step: a new entry starts without any. -/
def Sampled.step (l : Sampled) (e : HubEvent) : Sampled where
  hub := hubStep l.hub e
  samples i :=
    if (l.hub.srv.peers i).active = false ∧ ((hubStep l.hub e).srv.peers i).active = true then []
    else
      match l.hub.rttSample e with
      | some (j, x) => if j = i then l.samples i ++ [x] else l.samples i
      | none => l.samples i

/-- The states of the runs of the server while the clock stays below the bound. -/
def RttReachable : Sampled → Prop :=
  Trace.Reachable Sampled.step (fun _ e => e.env.nowMs.toNat < rttClockBound)
    fun l => l.hub = Hub.start ∧ ∀ i, l.samples i = []

section Server

variable {h : Hub} {e : HubEvent} {srv' : Server} {i : Slot}

/-- The value of slot `i` after a step in which its entry stays. -/
def Hub.rttNext (h : Hub) (e : HubEvent) (i : Slot) : UInt64 × Bool :=
  match h.rttSample e with
  | some (j, x) => if j = i then rttStep (h.srv.peers i).rtt x else (h.srv.peers i).rtt
  | none => (h.srv.peers i).rtt

theorem Hub.rttNext_of_none (hnone : h.rttSample e = none) :
    h.rttNext e i = (h.srv.peers i).rtt := by
  rw [Hub.rttNext, hnone]

theorem setPeer_rtt {srv : Server} {j : Slot} {p : Peer} (hp : p.rtt = (srv.peers j).rtt) (i : Slot) :
    ((srv.setPeer j p).peers i).rtt = (srv.peers i).rtt := by
  rw [srv.setPeer_peers]
  split_ifs with hi
  · rw [hi, hp]
  · rfl

theorem Server.SameButBytesOut.rtt {srv srv' : Server} (hs : srv.SameButBytesOut srv') (i : Slot) :
    (srv'.peers i).rtt = (srv.peers i).rtt := by
  rw [hs.2 i]
  rfl

/-- The handler of a KEEPALIVE_ACK. -/
theorem serverKeepaliveAckLocked_rtt (env : Env) (srv : Server) (payload : Bytes) (src : SockAddr)
    (i : Slot) :
    ((serverKeepaliveAckLocked env srv payload src).1.peers i).active = (srv.peers i).active ∧
    ((serverKeepaliveAckLocked env srv payload src).1.peers i).rtt =
      match rttSample env payload, serverFindPeerByAddr srv src with
      | some x, some j => if j = i then rttStep (srv.peers i).rtt x else (srv.peers i).rtt
      | _, _ => (srv.peers i).rtt := by
  unfold serverKeepaliveAckLocked rttSample
  cases protoReadKeepaliveTimestamp payload with
  | none => exact ⟨rfl, rfl⟩
  | some sentAt =>
    simp only
    split_ifs with hlt
    · exact ⟨rfl, rfl⟩
    · cases serverFindPeerByAddr srv src with
      | none => exact ⟨rfl, rfl⟩
      | some j =>
        simp only
        rw [srv.setPeer_peers]
        by_cases hij : i = j
        · subst hij
          rw [if_pos rfl, if_pos rfl]
          exact ⟨rfl, rfl⟩
        · rw [if_neg hij, if_neg fun hji => hij hji.symm]
          exact ⟨rfl, rfl⟩

theorem serverDispatchLocked_ack {env : Env} {srv : Server} {f : Frame} {src : SockAddr}
    (hack : f.type = MsgType.keepaliveAck.code) :
    serverDispatchLocked env srv f src = serverKeepaliveAckLocked env srv f.payload src := by
  rw [serverDispatchLocked, hack, MsgType.ofCode_code]

/-- **One packet.**  An entry that is active after the handler of a packet is new and has no value,
or it was there and only a sample has moved its value. -/
theorem rtt_dispatch (env : Env) {f : Frame} {src : SockAddr} (hacc : h.accepted = some (f, src))
    (hact : ((serverDispatchLocked env h.srv f src).1.peers i).active = true) :
    (h.srv.peers i).active = false ∧
      ((serverDispatchLocked env h.srv f src).1.peers i).rtt = (0, false) ∨
    (h.srv.peers i).active = true ∧
      ((serverDispatchLocked env h.srv f src).1.peers i).rtt = h.rttNext (.dispatch env) i := by
  have hnext : h.rttNext (.dispatch env) i =
      if f.type = MsgType.keepaliveAck.code then
        match rttSample env f.payload, serverFindPeerByAddr h.srv src with
        | some x, some j =>
          if j = i then rttStep (h.srv.peers i).rtt x else (h.srv.peers i).rtt
        | _, _ => (h.srv.peers i).rtt
      else (h.srv.peers i).rtt := by
    simp only [Hub.rttNext, Hub.rttSample, hacc]
    split_ifs
    · cases rttSample env f.payload with
      | none => rfl
      | some x => cases serverFindPeerByAddr h.srv src <;> rfl
    · rfl
  by_cases hack : f.type = MsgType.keepaliveAck.code
  · obtain ⟨hsame, hrtt⟩ := serverKeepaliveAckLocked_rtt env h.srv f.payload src i
    rw [serverDispatchLocked_ack hack] at hact ⊢
    rw [hnext, if_pos hack]
    exact .inr ⟨hsame ▸ hact, hrtt⟩
  · rw [hnext, if_neg hack]
    -- the other handlers do not touch the value of an entry that stays
    have hstay : ∀ {j : Slot} {p : Peer}, p.rtt = (h.srv.peers j).rtt →
        p.active = (h.srv.peers j).active → ((h.srv.setPeer j p).peers i).active = true →
        (h.srv.peers i).active = true ∧
          ((h.srv.setPeer j p).peers i).rtt = (h.srv.peers i).rtt := by
      intro j p hp ha hset
      refine ⟨?_, setPeer_rtt hp i⟩
      rw [h.srv.setPeer_peers] at hset
      split_ifs at hset with hij
      · rw [hij, ← ha, hset]
      · exact hset
    unfold serverDispatchLocked at hact ⊢
    split at hact
    · rcases serverRegisterLocked_cases env h.srv f.payload src f.sequence with
        ⟨j, -, -, hr⟩ | ⟨j, -, -, hr⟩ | ⟨-, -, hr⟩ | ⟨j, -, hj, -, hr⟩ <;> rw [hr] at hact ⊢
      · exact .inr ⟨hact, rfl⟩
      · exact .inr (hstay rfl rfl hact)
      · exact .inr ⟨hact, rfl⟩
      · simp only [join_peers] at hact ⊢
        by_cases hij : i = j
        · subst hij
          rw [if_pos rfl]
          exact .inl ⟨not_active_of_free hj, rfl⟩
        · rw [if_neg hij] at hact ⊢
          exact .inr ⟨hact, rfl⟩
    · rcases serverDataLocked_cases h.srv f.payload src with ⟨-, hr⟩ | ⟨j, -, hr⟩ <;>
        rw [hr] at hact ⊢
      · exact .inr ⟨hact, rfl⟩
      · exact .inr (hstay rfl rfl hact)
    · rcases serverKeepaliveLocked_cases env h.srv f.payload src with hr | ⟨j, _, -, hr⟩ <;>
        rw [hr] at hact ⊢
      · exact .inr ⟨hact, rfl⟩
      · exact .inr (hstay rfl rfl hact)
    · rename_i hcode
      exact absurd (MsgType.ofCode_eq_some_iff.1 hcode) hack
    · rcases serverDisconnectLocked_cases h.srv src with ⟨-, hr⟩ | ⟨j, -, hr⟩ <;> rw [hr] at hact ⊢
      · exact .inr ⟨hact, rfl⟩
      · obtain ⟨ha, -, heq⟩ := of_leave_active hact
        rw [heq]
        exact .inr ⟨ha, rfl⟩
    · exact .inr ⟨hact, rfl⟩

/-- **One step.**  The same for a step of any thread. -/
theorem TableMove.rtt (hm : TableMove h e srv') (hact : (srv'.peers i).active = true) :
    (h.srv.peers i).active = false ∧ (srv'.peers i).rtt = (0, false) ∨
    (h.srv.peers i).active = true ∧ (srv'.peers i).rtt = h.rttNext e i := by
  cases hm with
  | same e hidle hsame =>
    have hnone : h.rttSample e = none := by
      cases e with
      | dispatch env => simp only [Hub.rttSample, hidle env rfl]
      | _ => rfl
    rw [Hub.rttNext_of_none hnone]
    exact .inr ⟨hsame.active i ▸ hact, hsame.rtt i⟩
  | accept env wire src f j hread hj hfresh =>
    rw [Hub.rttNext_of_none rfl]
    refine .inr ⟨?_, setPeer_rtt (p := (h.srv.peers j).shown f.sequence) rfl i⟩
    exact (setPeer_refreshes (Peer.refreshes_shown hfresh) i).active ▸ hact
  | handle env f src hacc => exact rtt_dispatch env hacc hact
  | sweep env box hrest =>
    have horig := serverSweepLocked_origin hact
    rw [horig] at hact ⊢
    exact .inr ⟨hact, rfl⟩

theorem Hub.rttSample_lt {x : UInt64} (hs : h.rttSample e = some (i, x))
    (hclock : e.env.nowMs.toNat < rttClockBound) : x.toNat < rttClockBound := by
  cases e with
  | dispatch env =>
    simp only [Hub.rttSample] at hs
    split at hs
    · cases hs
    · split_ifs at hs
      split at hs
      · rename_i hx _
        cases hs
        exact Tund.rttSample_lt hx hclock
      · cases hs
  | _ => cases hs

/-- A sample belongs to an entry that is there before and after the step. -/
theorem Hub.active_of_rttSample {x : UInt64} (hs : h.rttSample e = some (i, x)) :
    (h.srv.peers i).active = true ∧ ((hubStep h e).srv.peers i).active = true := by
  cases e with
  | dispatch env =>
    simp only [Hub.rttSample] at hs
    split at hs
    · cases hs
    · rename_i f src hacc
      split_ifs at hs with hack
      split at hs
      · rename_i hfind
        cases hs
        have hact := active_of_find hfind
        refine ⟨hact, ?_⟩
        simp only [hubStep, hacc, Hub.begin, serverDispatchLocked_ack hack]
        rw [(serverKeepaliveAckLocked_rtt env h.srv f.payload src i).1]
        exact hact
      · cases hs
  | _ => cases hs

/-- In every run the values in the table are the averages of the samples. -/
theorem RttReachable.tracks {l : Sampled} (hl : RttReachable l) :
    (∀ i, Bounded (l.samples i)) ∧
    ∀ i, (l.hub.srv.peers i).active = true → (l.hub.srv.peers i).rtt = rttAfter (l.samples i) := by
  refine hl.invariant (P := fun l => (∀ i, Bounded (l.samples i)) ∧
    ∀ i, (l.hub.srv.peers i).active = true →
      (l.hub.srv.peers i).rtt = rttAfter (l.samples i)) ?_ ?_
  · rintro l ⟨hhub, hnone⟩
    refine ⟨fun i => by simp [hnone i, Bounded], fun i hi => ?_⟩
    rw [hhub] at hi
    cases hi
  · rintro l e hclock ⟨hb, htracks⟩
    constructor
    · intro i
      simp only [Sampled.step]
      split_ifs
      · simp [Bounded]
      · split
        · rename_i j x hsample
          split_ifs with hji
          · exact bounded_concat.2 ⟨hb i, Hub.rttSample_lt hsample hclock⟩
          · exact hb i
        · exact hb i
    · intro i hact
      rcases (hubStep_table l.hub e).rtt hact with ⟨hnew, hrtt⟩ | ⟨hold, hrtt⟩
      · simp only [Sampled.step] at hact ⊢
        rw [hrtt, if_pos ⟨hnew, hact⟩]
        rfl
      · simp only [Sampled.step]
        rw [hrtt, if_neg (by simp [hold]), Hub.rttNext]
        split
        · split_ifs
          · rw [rttAfter_concat, htracks i hold]
          · exact htracks i hold
        · exact htracks i hold

end Server

/-! ### The client -/

/-- The sample that an event makes a client process accept. -/
def ClientNode.rttSample (c : ClientNode) : Env × NodeEvent → Option UInt64
  | (env, .arrive (.datagram wire src)) =>
    match c.phase with
    | .running =>
      if c.io.running && netAddrEqual src c.cli.serverAddr then
        match (netRecv env.aead env.key wire).bind readFrame with
        | none => none
        | some f =>
          if (protoReplayAccept c.cli.serverReplay f.sequence).1 = true ∧
              f.type = MsgType.keepaliveAck.code then
            Tund.rttSample env f.payload
          else none
      else none
    | _ => none
  | _ => none

/-- The samples accepted during a sequence of events. -/
def ClientNode.samplesIn (c : ClientNode) : List (Env × NodeEvent) → List UInt64
  | [] => []
  | e :: evs => (c.rttSample e).toList ++ (c.step e).samplesIn evs

/-- The value of the client and its flag. -/
def Client.rtt (cli : Client) : UInt64 × Bool := (cli.serverRttMs, cli.hasServerRtt)

section Client

variable {env : Env} {cli : Client} {io : Proc}

theorem clientHandleKeepaliveAck_rtt (payload : Bytes) :
    (clientHandleKeepaliveAck env cli payload).rtt =
      (rttSample env payload).toList.foldl rttStep cli.rtt := by
  unfold clientHandleKeepaliveAck rttSample
  cases protoReadKeepaliveTimestamp payload with
  | none => rfl
  | some sentAt =>
    simp only
    split_ifs <;> rfl

theorem clientUpdatePeer_rtt (vip : UInt32) (name : Bytes) (online : Bool) :
    (clientUpdatePeer env cli vip name online).rtt = cli.rtt := by
  unfold clientUpdatePeer
  split
  · split_ifs <;> rfl
  · split_ifs
    · split <;> rfl
    · rfl

theorem clientPeerListLoop_rtt (payload : Bytes) (n i : ℕ) (cli : Client) :
    (clientPeerListLoop env payload n i cli).rtt = cli.rtt := by
  induction n generalizing i cli with
  | zero => rfl
  | succ n ih =>
    rw [clientPeerListLoop]
    split
    · rfl
    · rw [ih, clientUpdatePeer_rtt]

theorem clientAddPeerTraffic_rtt (vip : UInt32) (bytesIn bytesOut : UInt64) :
    (clientAddPeerTraffic cli vip bytesIn bytesOut).rtt = cli.rtt := by
  unfold clientAddPeerTraffic
  split <;> rfl

theorem clientDispatch_rtt (f : Frame) :
    (clientDispatch env cli io f).1.rtt =
      if f.type = MsgType.keepaliveAck.code then
        (rttSample env f.payload).toList.foldl rttStep cli.rtt
      else cli.rtt := by
  by_cases hack : f.type = MsgType.keepaliveAck.code
  · rw [if_pos hack, clientDispatch, hack, MsgType.ofCode_code]
    exact clientHandleKeepaliveAck_rtt f.payload
  · rw [if_neg hack]
    unfold clientDispatch
    split
    · unfold clientHandleData
      split
      · rfl
      · exact clientAddPeerTraffic_rtt _ _ _
    · exact clientPeerListLoop_rtt _ _ _ _
    · unfold clientHandlePeerJoin
      split_ifs
      · rfl
      · exact clientUpdatePeer_rtt _ _ _
    · unfold clientHandlePeerLeave
      split_ifs
      · rfl
      · split <;> rfl
    · rfl
    · rename_i hcode
      exact absurd (MsgType.ofCode_eq_some_iff.1 hcode) hack
    · rfl
    · rfl

theorem clientMarkServerSeen_rtt : (clientMarkServerSeen env cli).rtt = cli.rtt := by
  unfold clientMarkServerSeen
  split_ifs <;> rfl

theorem clientAwait_rtt (arrival : Arrival) : (clientAwait env cli arrival).2.rtt = cli.rtt := by
  have hreply : ∀ buf, (clientRegisterReply cli buf).2.rtt = cli.rtt := by
    intro buf
    unfold clientRegisterReply
    split
    · rfl
    · split
      · rfl
      · split_ifs
        · unfold handleAssign
          split_ifs <;> rfl
        · rfl
  unfold clientAwait
  split
  · rfl
  · rfl
  · rfl
  · split
    · rfl
    · rename_i buf _
      split_ifs
      · have h := hreply buf
        split <;> rename_i heq <;> rw [heq] at h <;> exact h
      · rfl

/-- **One event.**  Only the sample moves the client's value. -/
theorem ClientNode.rtt_step (c : ClientNode) (e : Env × NodeEvent) :
    (c.step e).cli.rtt = (c.rttSample e).toList.foldl rttStep c.cli.rtt := by
  obtain ⟨env, e⟩ := e
  cases e with
  | register =>
    simp only [ClientNode.step, ClientNode.register]
    split
    · split <;> rfl
    · rfl
  | keepalive =>
    simp only [ClientNode.step, ClientNode.keepalive]
    split <;> rfl
  | shutdown =>
    simp only [ClientNode.step, ClientNode.shutdown]
    split <;> rfl
  | tun pkt =>
    simp only [ClientNode.step, ClientNode.tun]
    split
    · simp only [clientTunPacket]
      split
      · rfl
      · split
        · rfl
        · split_ifs
          · rfl
          · exact clientAddPeerTraffic_rtt _ _ _
    · rfl
  | arrive arrival =>
    simp only [ClientNode.step, ClientNode.arrive]
    cases hphase : c.phase with
    | await left =>
      have hsample : c.rttSample (env, .arrive arrival) = none := by
        cases arrival <;> simp [ClientNode.rttSample, hphase]
      have hrtt : (clientAwait env c.cli arrival).2.rtt = c.cli.rtt := clientAwait_rtt arrival
      rw [hsample]
      simp only
      split <;> rename_i heq <;> rw [heq] at hrtt
      · exact hrtt
      · exact hrtt
      · exact clientMarkServerSeen_rtt.trans hrtt
    | running =>
      simp only
      cases arrival with
      | datagram wire src =>
        simp only [ClientNode.rttSample, hphase, clientReceive]
        cases c.io.running with
        | false => simp
        | true =>
          simp only [Bool.true_and, if_true]
          cases netRecv env.aead env.key wire with
          | none => simp
          | some buf =>
            simp only [Option.bind_some]
            split_ifs
            · unfold clientHandleServerPacket
              cases readFrame buf with
              | none => rfl
              | some f =>
                simp only
                rcases hacc : protoReplayAccept c.cli.serverReplay f.sequence with ⟨_ | _, w⟩
                · simp [Client.rtt]
                · simp only [true_and]
                  rw [clientDispatch_rtt, clientMarkServerSeen_rtt]
                  split_ifs <;> rfl
            · rfl
      | _ => simp only [ClientNode.rttSample]; split_ifs <;> rfl
    | _ => cases arrival <;> simp [ClientNode.rttSample, hphase]

/-- **A whole life.**  The value is the average of the samples since the start. -/
theorem ClientNode.rtt_life (c : ClientNode) (evs : List (Env × NodeEvent)) :
    (c.life evs).cli.rtt = (c.samplesIn evs).foldl rttStep c.cli.rtt := by
  induction evs generalizing c with
  | nil => rfl
  | cons e evs ih =>
    show ((c.step e).life evs).cli.rtt = _
    rw [ih, ClientNode.rtt_step, ClientNode.samplesIn, List.foldl_append]

theorem ClientNode.rttSample_lt {c : ClientNode} {e : Env × NodeEvent} {x : UInt64}
    (h : c.rttSample e = some x) (hclock : e.1.nowMs.toNat < rttClockBound) :
    x.toNat < rttClockBound := by
  unfold ClientNode.rttSample at h
  split at h
  · split at h
    · split_ifs at h
      split at h
      · cases h
      · split_ifs at h
        exact Tund.rttSample_lt h hclock
    · cases h
  · cases h

theorem ClientNode.bounded_samplesIn (c : ClientNode) {evs : List (Env × NodeEvent)}
    (hclock : ∀ e ∈ evs, e.1.nowMs.toNat < rttClockBound) : Bounded (c.samplesIn evs) := by
  induction evs generalizing c with
  | nil => simp [ClientNode.samplesIn, Bounded]
  | cons e evs ih =>
    intro x hx
    rcases List.mem_append.1 hx with hx | hx
    · exact ClientNode.rttSample_lt (by simpa using hx) (hclock e (by simp))
    · exact ih _ (fun e' he' => hclock e' (List.mem_cons_of_mem _ he')) x hx

end Client

/-! ### Bounds and convergence -/

/-- The value under a constant sample `s` that follows other samples: every step goes towards `s`
and not past it, and in the end the value stays within `s - 4 .. s + 3`. -/
structure RttSettles (samples : List UInt64) (s : UInt64) : Prop where
  rises : ∀ n, (rttAfter (samples ++ List.replicate n s)).1 ≤ s →
    (rttAfter (samples ++ List.replicate n s)).1 ≤
      (rttAfter (samples ++ List.replicate (n + 1) s)).1 ∧
    (rttAfter (samples ++ List.replicate (n + 1) s)).1 ≤ s
  falls : ∀ n, s ≤ (rttAfter (samples ++ List.replicate n s)).1 →
    s ≤ (rttAfter (samples ++ List.replicate (n + 1) s)).1 ∧
    (rttAfter (samples ++ List.replicate (n + 1) s)).1 ≤
      (rttAfter (samples ++ List.replicate n s)).1
  rests : ∃ N, ∀ n, N ≤ n →
    s.toNat ≤ (rttAfter (samples ++ List.replicate n s)).1.toNat + 4 ∧
    (rttAfter (samples ++ List.replicate n s)).1.toNat ≤ s.toNat + 3

theorem rttSettles {samples : List UInt64} (hb : Bounded samples) (hne : samples ≠ []) {s : UInt64}
    (hs : s.toNat < rttClockBound) : RttSettles samples s := by
  have hiter := rttAfter_replicate hb hne hs
  refine ⟨fun n hle => ?_, fun n hge => ?_, ?_⟩
  · rw [UInt64.le_iff_toNat_le, hiter] at hle
    simp only [UInt64.le_iff_toNat_le, hiter, Function.iterate_succ_apply']
    exact ⟨Smoothing.le_next_of_le hle, Smoothing.next_le_of_le hle⟩
  · rw [UInt64.le_iff_toNat_le, hiter] at hge
    simp only [UInt64.le_iff_toNat_le, hiter, Function.iterate_succ_apply']
    exact ⟨Smoothing.le_next_of_ge hge, Smoothing.next_le_of_ge hge⟩
  · obtain ⟨N, hN⟩ := Smoothing.iterate_next_settles 7 s.toNat (rttAfter samples).1.toNat
    refine ⟨N, fun n hn => ?_⟩
    obtain ⟨hlo, hhi⟩ := hN n hn
    rw [hiter]
    omega

/-- **Round-trip times.**  While the clock stays below 2^60, on the server in every run and on a
client in every life: the value is the average of the samples accepted since the entry was made or
the process started, and lies between two of them; an accepted sample moves it to somewhere between
its old place and the sample, without a sum that wraps.  Under a constant sample the average moves
monotonically towards it and comes to rest within 4 below and 3 above. -/
theorem rtt_bounded_and_convergent :
    (∀ (l : Sampled) (i : Slot), RttReachable l → (l.hub.srv.peers i).active = true →
      RttSound (l.hub.srv.peers i).rtt (l.samples i)) ∧
    (∀ (l : Sampled) (e : HubEvent) (i : Slot) (x : UInt64), RttReachable l →
      e.env.nowMs.toNat < rttClockBound → l.hub.rttSample e = some (i, x) →
      RttMoves (l.hub.srv.peers i).rtt x ((hubStep l.hub e).srv.peers i).rtt) ∧
    (∀ (addr serverAddr : SockAddr) (name : Bytes) (evs : List (Env × NodeEvent)),
      (∀ e ∈ evs, e.1.nowMs.toNat < rttClockBound) →
      RttSound ((ClientNode.start addr serverAddr name).life evs).cli.rtt
          ((ClientNode.start addr serverAddr name).samplesIn evs) ∧
      ∀ (e : Env × NodeEvent) (x : UInt64), e.1.nowMs.toNat < rttClockBound →
        ((ClientNode.start addr serverAddr name).life evs).rttSample e = some x →
        RttMoves ((ClientNode.start addr serverAddr name).life evs).cli.rtt x
          (((ClientNode.start addr serverAddr name).life evs).step e).cli.rtt) ∧
    ∀ (samples : List UInt64) (s : UInt64), Bounded samples → samples ≠ [] →
      s.toNat < rttClockBound → RttSettles samples s := by
  refine ⟨fun l i hl hact => ?_, fun l e i x hl hclock hsample => ?_,
    fun addr serverAddr name evs hclock => ?_,
    fun samples s hb hne hs => rttSettles hb hne hs⟩
  · obtain ⟨hb, htracks⟩ := hl.tracks
    exact rttSound_of_average (htracks i hact) (hb i)
  · obtain ⟨hb, htracks⟩ := hl.tracks
    obtain ⟨hact, hact'⟩ := Hub.active_of_rttSample hsample
    have hnext : ((hubStep l.hub e).srv.peers i).rtt = l.hub.rttNext e i := by
      rcases (hubStep_table l.hub e).rtt hact' with ⟨hnew, -⟩ | ⟨-, hrtt⟩
      · rw [hact] at hnew
        cases hnew
      · exact hrtt
    rw [hnext, Hub.rttNext, hsample, htracks i hact]
    simp only [if_true]
    exact rttMoves_step (hb i) (Hub.rttSample_lt hsample hclock)
  · have hb := (ClientNode.start addr serverAddr name).bounded_samplesIn hclock
    have haverage := (ClientNode.start addr serverAddr name).rtt_life evs
    refine ⟨rttSound_of_average haverage hb, fun e x he hsample => ?_⟩
    rw [ClientNode.rtt_step, hsample, haverage]
    exact rttMoves_step hb (ClientNode.rttSample_lt hsample he)

end Tund
