import Tund.Lib.Watchdog
import Tund.Server.Isolation
import Tund.Server.Telling
import Tund.Server.Timeout

/-!
# The server's watchdog

The server removes a peer when the last sign of life is more than 30 seconds old.  Signs
are REGISTER, KEEPALIVE and KEEPALIVE_ACK from the peer's endpoint; DATA is none.

`Listened` collects the signs of every entry over a run of the threads, and `last_seen` is
the last of them (`ListenReachable.tracks`), so the timeout thread is a watchdog of
`Watchdog`.
-/

namespace Tund

open Watchdog

def tundKeepaliveInterval : ℤ := 10

/-! ### What the server counts -/

/-- The packet is a sign of life of the peer whose entry is `p`. -/
def Frame.isSign (env : Env) (f : Frame) (p : Peer) : Bool :=
  match MsgType.ofCode f.type with
  | some .register => (protoReplayAccept p.replay f.sequence).1
  | some .keepalive => (protoReadKeepaliveTimestamp f.payload).isSome
  | some .keepaliveAck => (protoReadKeepaliveTimestamp f.payload).any fun sentAt =>
      decide (¬ env.nowMs < sentAt)
  | _ => false

/-- The slot whose peer a step of the server hears. -/
def Hub.hears (h : Hub) : HubEvent → Option Slot
  | .dispatch env =>
    match h.accepted with
    | none => none
    | some (f, src) =>
      (serverFindPeerByAddr h.srv src).filter fun i => f.isSign env (h.srv.peers i)
  | _ => none

/-- The server with the signs of life of each entry since it was made, oldest first, and the clock
of the last step. -/
structure Listened where
  hub : Hub
  signs : Slot → List ℤ
  clock : ℤ

/-- The signs after a step: a new entry starts with the one that made it. -/
def Listened.step (l : Listened) (e : HubEvent) : Listened where
  hub := hubStep l.hub e
  signs i :=
    if (l.hub.srv.peers i).active = false ∧ ((hubStep l.hub e).srv.peers i).active = true then
      [e.env.time]
    else if l.hub.hears e = some i then l.signs i ++ [e.env.time]
    else l.signs i
  clock := e.env.time

/-- The states of the runs of the server under a clock that never goes back. -/
def ListenReachable : Listened → Prop :=
  Trace.Reachable Listened.step (fun l e => l.clock ≤ e.env.time)
    fun l => l.hub = Hub.start ∧ ∀ i, l.signs i = []

section Server

variable {h : Hub} {e : HubEvent} {srv' : Server} {i : Slot} {env : Env}

/-- `last_seen` of slot `i` after a step in which its entry stays. -/
def Hub.seenNext (h : Hub) (e : HubEvent) (i : Slot) : ℤ :=
  if h.hears e = some i then e.env.time else (h.srv.peers i).lastSeen

theorem Hub.seenNext_of_none (hnone : h.hears e = none) :
    h.seenNext e i = (h.srv.peers i).lastSeen := by
  rw [Hub.seenNext, hnone, if_neg nofun]

theorem setPeer_lastSeen {srv : Server} {j : Slot} {p : Peer}
    (hp : p.lastSeen = (srv.peers j).lastSeen) (i : Slot) :
    ((srv.setPeer j p).peers i).lastSeen = (srv.peers i).lastSeen := by
  rw [srv.setPeer_peers]
  split_ifs with hi
  · rw [hi, hp]
  · rfl

/-- An entry at which a time is written. -/
theorem setPeer_heard {srv : Server} {j : Slot} {p : Peer} (ha : p.active = (srv.peers j).active)
    (hact : ((srv.setPeer j p).peers i).active = true) :
    (srv.peers i).active = true ∧ ((srv.setPeer j p).peers i).lastSeen =
      if j = i then p.lastSeen else (srv.peers i).lastSeen := by
  rw [srv.setPeer_peers] at hact ⊢
  by_cases hij : i = j
  · subst hij
    rw [if_pos rfl] at hact ⊢
    rw [if_pos rfl]
    exact ⟨ha ▸ hact, rfl⟩
  · rw [if_neg hij] at hact ⊢
    rw [if_neg fun hji => hij hji.symm]
    exact ⟨hact, rfl⟩

theorem Hub.hears_dispatch {f : Frame} {src : SockAddr} (hacc : h.accepted = some (f, src)) :
    h.hears (.dispatch env) =
      (serverFindPeerByAddr h.srv src).filter fun i => f.isSign env (h.srv.peers i) := by
  simp only [Hub.hears, hacc]

/-- The entry of the sender, when the packet is no sign of it. -/
theorem Hub.hears_of_not {f : Frame} {src : SockAddr} (hacc : h.accepted = some (f, src))
    (hno : ∀ j, serverFindPeerByAddr h.srv src = some j → f.isSign env (h.srv.peers j) = false) :
    h.hears (.dispatch env) = none := by
  rw [Hub.hears_dispatch hacc]
  cases hfind : serverFindPeerByAddr h.srv src with
  | none => rfl
  | some j => rw [Option.filter_some, hno j hfind]; rfl

/-- The entry of the sender, when the packet is a sign of it. -/
theorem Hub.hears_of_sign {f : Frame} {src : SockAddr} {j : Slot}
    (hacc : h.accepted = some (f, src)) (hfind : serverFindPeerByAddr h.srv src = some j)
    (hsign : f.isSign env (h.srv.peers j) = true) : h.hears (.dispatch env) = some j := by
  rw [Hub.hears_dispatch hacc, hfind, Option.filter_some, hsign]
  rfl

/-- An entry that is active after a step is new and was seen just now, or it was there and a sign of
life has moved its time. -/
def Hub.Sees (h : Hub) (e : HubEvent) (srv' : Server) (i : Slot) : Prop :=
  (h.srv.peers i).active = false ∧ (srv'.peers i).lastSeen = e.env.time ∨
  (h.srv.peers i).active = true ∧ (srv'.peers i).lastSeen = h.seenNext e i

section Packet

variable {f : Frame} {src : SockAddr} (hacc : h.accepted = some (f, src))
include hacc

/-- A packet that is no sign of its sender leaves every time alone. -/
theorem sees_of_not (hno : ∀ j, serverFindPeerByAddr h.srv src = some j →
      f.isSign env (h.srv.peers j) = false) (hold : (h.srv.peers i).active = true)
    (hlast : (srv'.peers i).lastSeen = (h.srv.peers i).lastSeen) :
    h.Sees (.dispatch env) srv' i :=
  .inr ⟨hold, hlast.trans (Hub.seenNext_of_none (Hub.hears_of_not hacc hno)).symm⟩

theorem sees_of_unknown (hnone : serverFindPeerByAddr h.srv src = none)
    (hold : (h.srv.peers i).active = true)
    (hlast : (srv'.peers i).lastSeen = (h.srv.peers i).lastSeen) :
    h.Sees (.dispatch env) srv' i := by
  refine sees_of_not hacc (fun j hj => ?_) hold hlast
  rw [hnone] at hj
  cases hj

/-- A time is written at the entry of the sender. -/
theorem sees_of_sign {j : Slot} {p : Peer} (hfind : serverFindPeerByAddr h.srv src = some j)
    (hsign : f.isSign env (h.srv.peers j) = true) (ha : p.active = (h.srv.peers j).active)
    (htime : p.lastSeen = env.time) (hact : ((h.srv.setPeer j p).peers i).active = true) :
    h.Sees (.dispatch env) (h.srv.setPeer j p) i := by
  obtain ⟨hold, hseen⟩ := setPeer_heard ha hact
  refine .inr ⟨hold, ?_⟩
  rw [hseen, Hub.seenNext, Hub.hears_of_sign hacc hfind hsign, htime]
  simp only [Option.some.injEq]
  rfl

theorem sees_register (hcode : MsgType.ofCode f.type = some .register)
    (hact : ((serverRegisterLocked env h.srv f.payload src f.sequence).1.peers i).active = true) :
    h.Sees (.dispatch env) (serverRegisterLocked env h.srv f.payload src f.sequence).1 i := by
  have hsign : ∀ p, f.isSign env p = (protoReplayAccept p.replay f.sequence).1 := by
    intro p
    rw [Frame.isSign, hcode]
  rcases serverRegisterLocked_cases env h.srv f.payload src f.sequence with
    ⟨j, hj, hrep, hr⟩ | ⟨j, hj, hfresh, hr⟩ | ⟨hnone, -, hr⟩ | ⟨j, hnone, hj, -, hr⟩ <;>
    rw [hr] at hact ⊢
  · refine sees_of_not hacc (fun k hk => ?_) hact rfl
    rw [hj] at hk
    rw [hsign, ← Option.some.inj hk, hrep]
  · exact sees_of_sign hacc hj ((hsign _).trans hfresh) rfl rfl hact
  · exact sees_of_unknown hacc hnone hact rfl
  · by_cases hij : i = j
    · subst hij
      exact .inl ⟨not_active_of_free hj, by simp only [join_peers, if_pos]; rfl⟩
    · simp only [join_peers, if_neg hij] at hact
      exact sees_of_unknown hacc hnone hact (by simp only [join_peers, if_neg hij])

theorem sees_data (hno : ∀ p, f.isSign env p = false)
    (hact : ((serverDataLocked h.srv f.payload src).1.peers i).active = true) :
    h.Sees (.dispatch env) (serverDataLocked h.srv f.payload src).1 i := by
  rcases serverDataLocked_cases h.srv f.payload src with ⟨-, hr⟩ | ⟨j, -, hr⟩ <;>
    rw [hr] at hact ⊢
  · exact sees_of_not hacc (fun k _ => hno _) hact rfl
  · have hstay := (countIn_refreshes h.srv j f.payload.length i).active
    exact sees_of_not hacc (fun k _ => hno _) (hstay ▸ hact)
      (setPeer_lastSeen (p := { h.srv.peers j with
        bytesIn := (h.srv.peers j).bytesIn + UInt64.ofNat f.payload.length }) rfl i)

theorem sees_keepalive (hcode : MsgType.ofCode f.type = some .keepalive)
    (hact : ((serverKeepaliveLocked env h.srv f.payload src).1.peers i).active = true) :
    h.Sees (.dispatch env) (serverKeepaliveLocked env h.srv f.payload src).1 i := by
  have hsign : ∀ p, f.isSign env p = (protoReadKeepaliveTimestamp f.payload).isSome := by
    intro p
    rw [Frame.isSign, hcode]
  unfold serverKeepaliveLocked at hact ⊢
  cases hread : protoReadKeepaliveTimestamp f.payload with
  | none =>
    simp only [hread] at hact
    exact sees_of_not hacc (fun k _ => by rw [hsign, hread]; rfl) hact rfl
  | some sentAt =>
    simp only [hread] at hact ⊢
    cases hfind : serverFindPeerByAddr h.srv src with
    | none =>
      simp only [hfind] at hact
      exact sees_of_unknown hacc hfind hact rfl
    | some j =>
      simp only [hfind] at hact
      have hyes : f.isSign env (h.srv.peers j) = true := by rw [hsign, hread]; rfl
      exact sees_of_sign hacc hfind hyes rfl rfl hact

theorem sees_keepaliveAck (hcode : MsgType.ofCode f.type = some .keepaliveAck)
    (hact : ((serverKeepaliveAckLocked env h.srv f.payload src).1.peers i).active = true) :
    h.Sees (.dispatch env) (serverKeepaliveAckLocked env h.srv f.payload src).1 i := by
  have hsign : ∀ p, f.isSign env p = (protoReadKeepaliveTimestamp f.payload).any fun sentAt =>
      decide (¬ env.nowMs < sentAt) := by
    intro p
    rw [Frame.isSign, hcode]
  unfold serverKeepaliveAckLocked at hact ⊢
  cases hread : protoReadKeepaliveTimestamp f.payload with
  | none =>
    simp only [hread] at hact
    exact sees_of_not hacc (fun k _ => by rw [hsign, hread]; rfl) hact rfl
  | some sentAt =>
    simp only [hread] at hact ⊢
    by_cases hlt : env.nowMs < sentAt
    · rw [if_pos hlt] at hact ⊢
      refine sees_of_not hacc (fun k _ => ?_) hact rfl
      rw [hsign, hread]
      simpa using hlt
    · rw [if_neg hlt] at hact ⊢
      cases hfind : serverFindPeerByAddr h.srv src with
      | none =>
        simp only [hfind] at hact
        exact sees_of_unknown hacc hfind hact rfl
      | some j =>
        simp only [hfind] at hact
        have hyes : f.isSign env (h.srv.peers j) = true := by
          rw [hsign, hread]
          simpa using hlt
        exact sees_of_sign hacc hfind hyes rfl rfl hact

theorem sees_disconnect (hno : ∀ p, f.isSign env p = false)
    (hact : ((serverDisconnectLocked h.srv src).1.peers i).active = true) :
    h.Sees (.dispatch env) (serverDisconnectLocked h.srv src).1 i := by
  rcases serverDisconnectLocked_cases h.srv src with ⟨-, hr⟩ | ⟨j, -, hr⟩ <;> rw [hr] at hact ⊢
  · exact sees_of_not hacc (fun k _ => hno _) hact rfl
  · obtain ⟨ha, -, heq⟩ := of_leave_active hact
    exact sees_of_not hacc (fun k _ => hno _) ha (by rw [heq])

/-- **One packet.** -/
theorem sees_dispatch
    (hact : ((serverDispatchLocked env h.srv f src).1.peers i).active = true) :
    h.Sees (.dispatch env) (serverDispatchLocked env h.srv f src).1 i := by
  have hnot : ∀ {t : Option MsgType}, MsgType.ofCode f.type = t → t ≠ some .register →
      t ≠ some .keepalive → t ≠ some .keepaliveAck → ∀ p, f.isSign env p = false := by
    intro t ht hr hk ha p
    rw [Frame.isSign, ht]
    split <;> first | rfl | contradiction
  unfold serverDispatchLocked at hact ⊢
  split at hact
  · rename_i hcode
    exact sees_register hacc hcode hact
  · rename_i hcode
    exact sees_data hacc (hnot hcode nofun nofun nofun) hact
  · rename_i hcode
    exact sees_keepalive hacc hcode hact
  · rename_i hcode
    exact sees_keepaliveAck hacc hcode hact
  · rename_i hcode
    exact sees_disconnect hacc (hnot hcode nofun nofun nofun) hact
  · rename_i hr hd hk ha hdis
    exact sees_of_not hacc (fun k _ => hnot rfl hr hk ha _) hact rfl

end Packet

/-- **One step** of any thread. -/
theorem TableMove.sees (hm : TableMove h e srv') (hact : (srv'.peers i).active = true) :
    h.Sees e srv' i := by
  cases hm with
  | same e hidle hsame =>
    have hnone : h.hears e = none := by
      cases e with
      | dispatch env => simp only [Hub.hears, hidle env rfl]
      | _ => rfl
    refine .inr ⟨hsame.active i ▸ hact, ?_⟩
    rw [Hub.seenNext_of_none hnone, hsame.2 i]
  | accept env wire src f j hread hj hfresh =>
    have hlast : ((h.srv.setPeer j ((h.srv.peers j).shown f.sequence)).peers i).lastSeen =
        (h.srv.peers i).lastSeen := setPeer_lastSeen (p := (h.srv.peers j).shown f.sequence) rfl i
    refine .inr ⟨?_, hlast.trans (Hub.seenNext_of_none rfl).symm⟩
    exact (setPeer_refreshes (Peer.refreshes_shown hfresh) i).active ▸ hact
  | handle env f src hacc => exact sees_dispatch hacc hact
  | sweep env box hrest =>
    have horig := serverSweepLocked_origin hact
    rw [horig] at hact
    refine .inr ⟨hact, ?_⟩
    rw [horig]
    rfl

/-- What the ledger keeps for an entry: its signs are in order, none is later than the clock, and
`last_seen` is the last one. -/
structure Listened.Tracks (l : Listened) (i : Slot) : Prop where
  sorted : (l.signs i).Pairwise (· ≤ ·)
  le_clock : ∀ t ∈ l.signs i, t ≤ l.clock
  last : (l.hub.srv.peers i).active = true → (l.signs i).getLast? = some (l.hub.srv.peers i).lastSeen

theorem ListenReachable.tracks {l : Listened} (hl : ListenReachable l) (i : Slot) :
    l.Tracks i := by
  refine hl.invariant (P := fun l => l.Tracks i) ?_ ?_
  · rintro l ⟨hhub, hnone⟩
    refine ⟨by simp [hnone i], by simp [hnone i], fun hact => ?_⟩
    rw [hhub] at hact
    cases hact
  · rintro l e hclock ⟨hsorted, hle, hlast⟩
    have hkept : ∀ t ∈ l.signs i, t ≤ e.env.time := fun t ht => (hle t ht).trans hclock
    have happend : (l.signs i ++ [e.env.time]).Pairwise (· ≤ ·) := by
      rw [List.pairwise_append]
      refine ⟨hsorted, List.pairwise_singleton _ _, fun t ht t' ht' => ?_⟩
      rw [List.mem_singleton.1 ht']
      exact hkept t ht
    refine ⟨?_, ?_, fun hact => ?_⟩
    · simp only [Listened.step]
      split_ifs
      · exact List.pairwise_singleton _ _
      · exact happend
      · exact hsorted
    · intro t ht
      simp only [Listened.step] at ht ⊢
      split_ifs at ht
      · exact (List.mem_singleton.1 ht).le
      · rcases List.mem_append.1 ht with ht | ht
        · exact hkept t ht
        · exact (List.mem_singleton.1 ht).le
      · exact hkept t ht
    · rcases (hubStep_table l.hub e).sees hact with ⟨hnew, hseen⟩ | ⟨hold, hseen⟩
      · simp only [Listened.step] at hact ⊢
        rw [hseen, if_pos ⟨hnew, hact⟩]
        rfl
      · simp only [Listened.step]
        rw [hseen, if_neg (by simp [hold]), Hub.seenNext]
        split_ifs
        · exact List.getLast?_concat
        · exact hlast hold

/-- What a pass of the timeout thread does to an entry. -/
theorem Listened.Tracks.sweep {l : Listened} (ht : l.Tracks i) (env : Env)
    (hrest : l.hub.rests .timeout = true) (hact : (l.hub.srv.peers i).active = true) :
    ((hubStep l.hub (.sweep env)).srv.peers i).active = false ↔
      Silent tundPeerTimeout (l.signs i) env.time := by
  have hstep : (hubStep l.hub (.sweep env)).srv = l.hub.srv.swept env.time := by
    simp only [hubStep, hrest, Bool.not_true, Bool.false_eq_true, if_false, Hub.begin,
      serverSweepLocked_eq]
  have hswept : ((l.hub.srv.swept env.time).peers i).active =
      ((l.hub.srv.peers i).swept env.time).active := rfl
  rw [hstep, hswept, swept_active, hact, Bool.true_and, Bool.not_eq_false', timedOut_iff,
    ← expired_getLast_iff ht.sorted (ht.last hact)]
  exact and_iff_right hact

/-- **The server's watchdog.**  In every run of the threads under a clock that never goes back, a
pass of the timeout thread removes a peer exactly if each sign of life since its registration
(REGISTER, KEEPALIVE or KEEPALIVE_ACK from its endpoint, but not DATA) is more than 30 seconds
old. -/
theorem server_watchdog_exact {l : Listened} (hl : ListenReachable l) {env : Env}
    (hrest : l.hub.rests .timeout = true) {i : Slot} (hact : (l.hub.srv.peers i).active = true) :
    ((hubStep l.hub (.sweep env)).srv.peers i).active = false ↔
      Silent tundPeerTimeout (l.signs i) env.time :=
  (hl.tracks i).sweep env hrest hact

end Server

/-- A peer that has only registered, at time 100, is removed at time 200. -/
theorem server_watchdog_exact_silent :
    ∃ l, ListenReachable l ∧ l.signs 0 = [100] ∧
      (((hubStep l.hub (.sweep (Env.plain 200 5))).srv.peers 0).active = false ↔
        Silent tundPeerTimeout (l.signs 0) 200) := by
  obtain ⟨l, hl⟩ : ∃ l, l = [silentPeer 0, silentPeer 1].foldl Listened.step
      ⟨Hub.start, fun _ => [], 0⟩ := ⟨_, rfl⟩
  have hreach : ListenReachable l := by
    rw [hl]
    exact (Trace.Reachable.start ⟨rfl, fun _ => rfl⟩).foldl _ ⟨by decide, le_rfl, trivial⟩
  obtain ⟨hrest, hact, hsigns⟩ : l.hub.rests .timeout = true ∧
      (l.hub.srv.peers 0).active = true ∧ l.signs 0 = [100] := by
    rw [hl]
    decide +kernel
  exact ⟨l, hreach, hsigns, server_watchdog_exact hreach hrest hact⟩

/-! ### Losses and silence -/

/-- A run of the server with its ledger. -/
abbrev ListenRun := Trace.Run Listened.step (fun l e => l.clock ≤ e.env.time)
  fun l => l.hub = Hub.start ∧ ∀ i, l.signs i = []

section Runs

variable {r : ListenRun} {i : Slot}

theorem ListenRun.clock_le (r : ListenRun) {m n : ℕ} (h : m ≤ n) :
    (r.state m).clock ≤ (r.state n).clock := by
  induction n, h using Nat.le_induction with
  | base => exact le_rfl
  | succ n _ ih =>
    refine ih.trans ?_
    rw [r.next]
    exact r.allowed n

/-- An entry that stays and is not heard of keeps its signs. -/
theorem ListenRun.signs_of_quiet (r : ListenRun) {m n : ℕ} (h : m ≤ n)
    (hact : ∀ k, m ≤ k → k ≤ n → ((r.state k).hub.srv.peers i).active = true)
    (hquiet : ∀ k, m ≤ k → k < n → (r.state k).hub.hears (r.event k) ≠ some i) :
    (r.state n).signs i = (r.state m).signs i := by
  induction n, h using Nat.le_induction with
  | base => rfl
  | succ n hmn ih =>
    have hold := hact n hmn (Nat.le_succ n)
    rw [r.next]
    simp only [Listened.step]
    rw [if_neg (by simp [hold]), if_neg (hquiet n hmn (Nat.lt_succ_self n))]
    exact ih (fun k hk hkn => hact k hk (hkn.trans (Nat.le_succ n)))
      fun k hk hkn => hquiet k hk (hkn.trans (Nat.lt_succ_self n))

end Runs

/-- **Losses and silence.**  Let keepalives of a peer leave at most 10 seconds apart.  As long as
the server hears one of any three in a row, no pass of the timeout thread removes the peer.  And
let passes come at most 10 seconds apart.  A peer that gives no more sign is gone from the table at
most 40 seconds after its last one. -/
theorem server_watchdog_accurate_and_complete :
    (∀ (l : Listened) (env : Env) (i : Slot) (sent : ℕ → ℤ) (first : ℤ), ListenReachable l →
      l.hub.rests .timeout = true → (l.hub.srv.peers i).active = true → first ∈ l.signs i →
      sent 0 ≤ first + tundKeepaliveInterval →
      (∀ k, sent (k + 1) ≤ sent k + tundKeepaliveInterval) → (∃ k, env.time < sent k) →
      (∀ k, sent (k + 2) ≤ env.time → ∃ j ≤ 2, ∃ t ∈ l.signs i, sent (k + j) ≤ t) →
      ((hubStep l.hub (.sweep env)).srv.peers i).active = true) ∧
    ∀ (r : ListenRun) (i : Slot) (m : ℕ) (last : ℤ) (pass : ℕ → ℕ) (env : ℕ → Env),
      ((r.state m).hub.srv.peers i).active = true → ((r.state m).signs i).getLast? = some last →
      (∀ k, m ≤ k → (r.state k).hub.hears (r.event k) ≠ some i) →
      (∀ k, m ≤ pass k ∧ r.event (pass k) = .sweep (env k) ∧
        (r.state (pass k)).hub.rests .timeout = true) →
      (env 0).time ≤ last + tundPeerTimeout →
      (∀ k, (env (k + 1)).time ≤ (env k).time + tundKeepaliveInterval) →
      (∀ t, ∃ k, t < (env k).time) →
      ∃ n, m ≤ n ∧ ((r.state n).hub.srv.peers i).active = false ∧
        (r.state n).clock ≤ last + (tundPeerTimeout + tundKeepaliveInterval) := by
  constructor
  · intro l env i sent first hl hrest hact hfirst hstart hgap hnow hheard
    have hperiod : 0 ≤ tundKeepaliveInterval := by decide
    have hlimit : (2 + 1) • tundKeepaliveInterval ≤ tundPeerTimeout := by decide
    have hkept : ¬ Silent tundPeerTimeout (l.signs i) env.time :=
      survives_losses hperiod hlimit hfirst hstart hgap hnow hheard
    rw [← Bool.not_eq_false, (hl.tracks i).sweep env hrest hact]
    exact hkept
  · intro r i m last pass env hact hlast hquiet hpass hfirst hgap hlate
    obtain ⟨k, hexp, hle⟩ : ∃ k, Expired tundPeerTimeout last (env k).time ∧
        (env k).time - last ≤ tundPeerTimeout + tundKeepaliveInterval := by
      refine noticed (fun k => (env k).time) hgap (not_lt.2 ?_) ?_
      · exact sub_le_iff_le_add'.2 hfirst
      · obtain ⟨k, hk⟩ := hlate (last + tundPeerTimeout)
        exact ⟨k, lt_sub_iff_add_lt'.2 hk⟩
    obtain ⟨hmk, hevent, hrest⟩ := hpass k
    have hclock : (r.state (pass k + 1)).clock = (env k).time := by
      rw [r.next, hevent]
      rfl
    by_contra hnever
    -- up to the end of pass `k` the clock is too early, so the entry is still there
    have hstays : ∀ n, m ≤ n → n ≤ pass k + 1 → ((r.state n).hub.srv.peers i).active = true := by
      intro n hmn hn
      by_contra hoff
      refine hnever ⟨n, hmn, by simpa using hoff, ?_⟩
      have hn' := r.clock_le hn
      rw [hclock] at hn'
      linarith
    have hsigns := r.signs_of_quiet hmk (fun n hmn hn => hstays n hmn (hn.trans (Nat.le_succ _)))
      fun n hmn _ => hquiet n hmn
    have htracks := ListenReachable.tracks (r.reachable (pass k)) i
    have hgone := (htracks.sweep (env k) hrest (hstays _ hmk (Nat.le_succ _))).2
      ((expired_getLast_iff htracks.sorted (hsigns ▸ hlast)).1 hexp)
    have hstill := hstays (pass k + 1) (hmk.trans (Nat.le_succ _)) le_rfl
    rw [r.next, hevent] at hstill
    rw [← Bool.not_eq_false] at hstill
    exact hstill hgone

/-! ### A peer that loses keepalives, and one that is gone -/

/-- A peer registers at time 100 and sends a KEEPALIVE every 10 seconds, of which the server gets the
third. -/
def lossyPeer : List HubEvent :=
  [silentPeer 0, silentPeer 1] ++ List.replicate 8 (.act (Env.plain 100 5) .receive) ++
    [.receive (Env.plain 130 5) (wireBytes monocypher plainKey MsgType.keepalive.code 8
      (List.replicate tundNonceSize 0) (Msg.keepalive 5).payload) ⟨2, 1, 1⟩,
      .dispatch (Env.plain 130 5)]

theorem exists_lossyPeer : ∃ l, ListenReachable l ∧ l.signs 0 = [100, 130] ∧
      l.hub.rests .timeout = true ∧ (l.hub.srv.peers 0).active = true := by
  obtain ⟨l, hl⟩ : ∃ l, l = lossyPeer.foldl Listened.step ⟨Hub.start, fun _ => [], 0⟩ := ⟨_, rfl⟩
  have hreach : ListenReachable l := by
    rw [hl]
    refine (Trace.Reachable.start ⟨rfl, fun _ => rfl⟩).foldl _ ?_
    decide +kernel
  refine ⟨l, hreach, ?_⟩
  rw [hl]
  decide +kernel

/-- A peer registers at time 100 and is not heard of any more; passes of the timeout thread at times
110, 120 and so on, and up to two acts of it after each. -/
def gonePeer : ℕ → HubEvent
  | 0 => silentPeer 0
  | 1 => silentPeer 1
  | n + 2 =>
    let env := Env.plain (110 + 10 * ↑(n / 3)) 5
    if n % 3 = 0 then .sweep env else .act env .timeout

theorem gonePeer_sweep (k : ℕ) : gonePeer (3 * k + 2) = .sweep (Env.plain (110 + 10 * k) 5) := by
  have hmod : 3 * k % 3 = 0 := Nat.mul_mod_right 3 k
  have hdiv : 3 * k / 3 = k := Nat.mul_div_cancel_left k (by decide)
  simp only [gonePeer, hmod, hdiv, if_true]

theorem gonePeer_clock (n : ℕ) : (gonePeer n).env.time ≤ (gonePeer (n + 1)).env.time := by
  match n with
  | 0 => decide
  | 1 => decide
  | n + 2 =>
    have htime : ∀ n, (gonePeer (n + 2)).env.time = 110 + 10 * ↑(n / 3) := by
      intro n
      simp only [gonePeer]
      split_ifs <;> rfl
    rw [htime n, show n + 2 + 1 = n + 1 + 2 by omega, htime (n + 1)]
    have : n / 3 ≤ (n + 1) / 3 := Nat.div_le_div_right (Nat.le_succ n)
    omega

theorem gonePeer_hears (h : Hub) {n : ℕ} (hn : 2 ≤ n) : h.hears (gonePeer n) = none := by
  obtain ⟨n, rfl⟩ : ∃ m, n = m + 2 := ⟨n - 2, by omega⟩
  simp only [gonePeer]
  split_ifs <;> rfl

/-- Nobody is registered, and the timeout thread has nothing left to do. -/
structure Hub.Empty (h : Hub) : Prop where
  rests : h.rests .timeout = true
  inactive : ∀ i, (h.srv.peers i).active = false

theorem Hub.Empty.sweep {h : Hub} (he : h.Empty) (env : Env) :
    (hubStep h (.sweep env)).Empty := by
  have hout : h.srv.timedOutSlots env.time = [] :=
    List.eq_nil_iff_forall_not_mem.2 fun i hi => by
      simpa [he.inactive i] using (timedOut_iff.1 (mem_timedOutSlots.1 hi)).1
  have hstay : h.srv.survivors env.time = [] :=
    List.eq_nil_iff_forall_not_mem.2 fun i hi => by
      simpa [he.inactive i] using (mem_survivors.1 hi).1
  have hactive : ∀ i, ((h.srv.swept env.time).peers i).active = false := by
    intro i
    rw [Server.swept, swept_active, he.inactive i, Bool.false_and]
  simp only [hubStep, he.rests, Bool.not_true, Bool.false_eq_true, if_false, serverSweepLocked_eq]
  refine ⟨?_, hactive⟩
  simp [Hub.begin, Hub.rests, Thread.begin, sweepActs, hout, hstay]

theorem Hub.Empty.act {h : Hub} (he : h.Empty) (env : Env) :
    (hubStep h (.act env .timeout)).Empty := by
  have hacts : (h.threads .timeout).acts = [] := by simpa [Hub.rests] using he.rests
  have hsame : hubStep h (.act env .timeout) = h := by simp only [hubStep, hacts]
  rw [hsame]
  exact he

theorem exists_gonePeer : ∃ r : ListenRun, (∀ n, r.event n = gonePeer n) ∧
    ((r.state 2).hub.srv.peers 0).active = true ∧ (r.state 2).signs 0 = [100] ∧
    ∀ k, (r.state (3 * k + 2)).hub.rests .timeout = true := by
  have hok : ∀ n, (Trace.stateAt Listened.step ⟨Hub.start, fun _ => [], 0⟩ gonePeer n).clock ≤
      (gonePeer n).env.time := by
    intro n
    cases n with
    | zero => decide
    | succ n => exact gonePeer_clock n
  obtain ⟨r, hr⟩ : ∃ r : ListenRun,
      r.state = Trace.stateAt Listened.step ⟨Hub.start, fun _ => [], 0⟩ gonePeer ∧
        r.event = gonePeer :=
    ⟨.ofEvents _ gonePeer ⟨rfl, fun _ => rfl⟩ hok, rfl, rfl⟩
  have hfirst : ((r.state 2).hub.srv.peers 0).active = true ∧ (r.state 2).signs 0 = [100] ∧
    (∀ k < 4, (r.state (3 * k + 2)).hub.rests .timeout = true) ∧
    (r.state 14).hub.rests .timeout = true ∧ ∀ i, ((r.state 14).hub.srv.peers i).active = false := by
    rw [hr.1]
    decide +kernel
  obtain ⟨hact, hsigns, hrests, hempty⟩ := hfirst
  have hlate : ∀ n, (r.state (n + 14)).hub.Empty := by
    intro n
    induction n with
    | zero => exact ⟨hempty.1, hempty.2⟩
    | succ n ih =>
      rw [show n + 1 + 14 = n + 14 + 1 by omega, r.next, hr.2]
      show (hubStep _ (gonePeer (n + 12 + 2))).Empty
      simp only [gonePeer]
      split_ifs
      · exact ih.sweep _
      · exact ih.act _
  refine ⟨r, fun n => congrFun hr.2 n, hact, hsigns, fun k => ?_⟩
  rcases Nat.lt_or_ge k 4 with hk | hk
  · exact hrests k hk
  · obtain ⟨j, rfl⟩ := Nat.exists_eq_add_of_le hk
    rw [show 3 * (4 + j) + 2 = 3 * j + 14 by omega]
    exact (hlate (3 * j)).rests

/-- The pass at time 155 keeps a peer of which two KEEPALIVEs in a row were lost, twice; and a peer
that has only registered is gone 40 seconds later. -/
theorem server_watchdog_accurate_and_complete_lossy :
    (∃ l, ListenReachable l ∧ l.signs 0 = [100, 130] ∧
      ((hubStep l.hub (.sweep (Env.plain 155 5))).srv.peers 0).active = true) ∧
    ∃ r : ListenRun, (∀ n, r.event n = gonePeer n) ∧
      ((r.state 2).hub.srv.peers 0).active = true ∧
      ∃ n, 2 ≤ n ∧ ((r.state n).hub.srv.peers 0).active = false ∧ (r.state n).clock ≤ 140 := by
  obtain ⟨haccurate, hcomplete⟩ := server_watchdog_accurate_and_complete
  constructor
  · obtain ⟨l, hl, hsigns, hrest, hact⟩ := exists_lossyPeer
    have hinterval : tundKeepaliveInterval = 10 := rfl
    refine ⟨l, hl, hsigns, haccurate l (Env.plain 155 5) 0 (fun k => 110 + 10 * k) 100 hl hrest hact
      (by rw [hsigns]; simp) (by simp [hinterval]) (fun k => ?_) ⟨5, by decide⟩ fun k hk => ?_⟩
    · rw [hinterval]
      omega
    · have hnow : (110 : ℤ) + 10 * ↑(k + 2) ≤ 155 := hk
      refine ⟨0, by omega, 130, by rw [hsigns]; simp, ?_⟩
      show (110 : ℤ) + 10 * ↑(k + 0) ≤ 130
      omega
  · obtain ⟨r, hev, hact, hsigns, hrests⟩ := exists_gonePeer
    refine ⟨r, hev, hact, hcomplete r 0 2 100 (fun k => 3 * k + 2)
      (fun k => Env.plain (110 + 10 * k) 5) hact (by rw [hsigns]; rfl) (fun k hk => ?_)
      (fun k => ⟨by omega, ?_, hrests k⟩) (by decide) (fun k => ?_) fun t => ?_⟩
    · rw [hev, gonePeer_hears _ hk]
      simp
    · rw [hev, gonePeer_sweep]
    · show (110 : ℤ) + 10 * ↑(k + 1) ≤ 110 + 10 * ↑k + 10
      omega
    · refine ⟨t.toNat, ?_⟩
      show t < 110 + 10 * ↑t.toNat
      omega

end Tund
