import Tund.Lan.Agreement

/-!
# Lost replies

The handshake of a client when replies are lost.  The server answers the first REGISTER of
an endpoint with ASSIGN and PEER_LIST and every later one with ASSIGN alone, and the client
throws away what it reads before the ASSIGN.  So the table comes out right as long as
every PEER_LIST that names a peer is read behind an ASSIGN: `recovers_from_loss`.

If it is lost, or read before the ASSIGN because that was lost, no retry brings it back:
`retry_without_list`.
-/

namespace Tund

open Replica

/-- **Recovery.**  Datagrams of the server may be lost if they name no peer and no other datagram
that names one is then left to be read before an ASSIGN.  The threads announce each address in the
order in which the table changed; an entry is made for a process in its handshake with at most 43
others and nothing about them on its way, and while no other client that has its entry waits for an
ASSIGN that is not on its way; a process starts where the server has no entry, or has no others.
Then every client that is active on the server and has completed `client_register` has exactly the
other active peers in its table, once it has read all that was sent to it. -/
theorem recovers_from_loss {aead : Aead} {key : Bytes} {l : Lan}
    (h : Trace.Reachable lanStep (fun l e => lanFair aead key l e ∧ l.Keeps True e) LanInit l)
    (hcalls : l.hub.io.calls < 2 ^ 63) (hidle : l.hub.Idle) (addr : SockAddr)
    (hflight : l.flight addr = []) (hact : l.hub.srv.ActiveAt addr)
    (hrun : (l.nodes addr).phase = .running) :
    (l.nodes addr).cli.entries = l.hub.srv.entriesBut addr := by
  have hreach : LanReachable True True aead key l := h.mono fun _ _ he => ⟨he.1, fun _ => he.2⟩
  have hlinked := hreach.linked hcalls
  exact hlinked.entries ((hlinked.link addr).agrees trivial hidle hflight hact hrun)

/-! ### A retry -/

/-- Only what a client is sent in its handshake is lost. -/
def Lan.LosesReplies (l : Lan) : LanEvent → Prop
  | .lose addr => l.stage addr = .handshake
  | _ => True

/-- What is lost names no peer, and nothing that does is left to be read before an ASSIGN. -/
def Lan.LosesNoNews (l : Lan) (e : LanEvent) : Prop := ∀ addr, e = .lose addr → l.Keeps True e

/-- Only replies are lost, and the table stays as it is during a handshake. -/
def repliesLostOk (aead : Aead) (key : Bytes) (l : Lan) (e : LanEvent) : Prop :=
  lanFair aead key l e ∧ l.OneAtATime e ∧ l.Orderly e ∧ l.Still e ∧ l.LosesReplies e

/-- Such runs keep to the conditions above, but for what they lose. -/
theorem keeps_of_repliesLost {aead : Aead} {key : Bytes} {l : Lan}
    (h : Trace.Reachable lanStep (fun l e => repliesLostOk aead key l e ∧ l.LosesNoNews e)
      LanInit l) :
    Trace.Reachable lanStep (fun l e => lanFair aead key l e ∧ l.Keeps True e) LanInit l := by
  induction h with
  | start h => exact .start h
  | @next l e hl he ih =>
    have halone := alone_of_oneAtATime (fun _ _ h => h.1.2.1) hl
    obtain ⟨⟨hfair, -, hord, hstill, -⟩, hloss⟩ := he
    refine ih.next e ⟨hfair, ?_⟩
    cases e with
    | hub e =>
      refine ⟨fun addr _ _ => halone.tellsInOrder addr e, ?_⟩
      rintro env rfl src hadm
      refine ⟨hord src hadm, fun _ addr hact hstage => ?_⟩
      obtain ⟨f, hacc, -⟩ := id hadm
      exact absurd hstage (hstill f src hacc (.inl hadm) addr hact)
    | start addr name => exact fun hact => absurd hact hord
    | lose addr => exact hloss addr rfl
    | _ => trivial

/-- What the run of the retry keeps to. -/
def retryOk (harmless : Prop) (l : Lan) (e : LanEvent) : Prop :=
  repliesLostOk monocypher plainKey l e ∧ (harmless → l.LosesNoNews e)

theorem retryOk_of_crowdOk {harmless : Prop} {l : Lan} {e : LanEvent} (h : crowdOk True l e) :
    retryOk harmless l e := by
  obtain ⟨⟨hfair, hloss, -⟩, hone, hstill, hord⟩ := h
  refine ⟨⟨hfair, hone, hord trivial, hstill, ?_⟩, ?_⟩
  · cases e with
    | lose addr => exact hloss.elim
    | _ => trivial
  · rintro - addr rfl
    exact hloss.elim

theorem linked_of_retryOk {harmless : Prop} {l : Lan}
    (h : Trace.Reachable lanStep (retryOk harmless) LanInit l) (hcalls : l.hub.io.calls < 2 ^ 63) :
    l.Linked False False monocypher plainKey :=
  LanReachable.linked (h.mono fun _ _ he => ⟨he.1.1, False.elim⟩) hcalls

theorem retryOk_hub {harmless : Prop} (l : Lan) {e : HubEvent} (henv : e.env = newcomerHost)
    (htun : ∀ env pkt, e ≠ .tun env pkt) (hone : l.OneAtATime (.hub e)) (hord : l.Orderly (.hub e))
    (hstill : l.Still (.hub e)) : retryOk harmless l (.hub e) := by
  refine ⟨⟨(interleavedOk_hub l henv htun).1, hone, hord, hstill, trivial⟩, ?_⟩
  rintro - addr ⟨⟩

theorem retryOk_deliver {harmless : Prop} {l : Lan} {addr : SockAddr}
    (h : (l.nodes addr).listens = true) : retryOk harmless l (.deliver addr newcomerHost) := by
  refine ⟨⟨⟨rfl, rfl, .inl h⟩, trivial, trivial, trivial, trivial⟩, ?_⟩
  rintro - a ⟨⟩

/-- The second REGISTER of the client. -/
def retryFrame : Frame := ⟨MsgType.register.code, [97], 2⟩

def retryWire : Bytes :=
  wireBytes monocypher plainKey MsgType.register.code 2 (List.replicate tundNonceSize 0) [97]

theorem retryWire_reads : (netRecv monocypher plainKey retryWire).bind readFrame = some retryFrame := by
  have hn : (List.replicate tundNonceSize (0 : UInt8)).length = tundNonceSize := List.length_replicate
  rw [retryWire, netRecv_wireBytes hn (by decide), Option.bind_some,
    readFrame_frameBytes (by decide) hn (by decide)]
  rfl

/-- What the server makes of it. -/
def retryLocked (n : ℕ) : Server × List Act :=
  serverDispatchLocked newcomerHost (newcomerLocked n).1 retryFrame newcomer

/-- The client has its entry in slot `i`, and the second number is fresh there. -/
def Retries (n : ℕ) (i : Slot) : Prop :=
  serverFindPeerByAddr (newcomerLocked n).1 newcomer = some i ∧
    ((newcomerLocked n).1.peers i).realAddr = newcomer ∧
    (protoReplayAccept ((newcomerLocked n).1.peers i).replay retryFrame.sequence).1 = true

/-- A retry is answered by ASSIGN alone. -/
theorem retry_told {n : ℕ} {i : Slot} (h : Retries n i) :
    notesFor newcomer none (retryLocked n).2 = [.assign] := by
  obtain ⟨hfind, haddr, hfresh⟩ := h
  have hlocked : retryLocked n = serverRegisterLocked newcomerHost (newcomerLocked n).1
      retryFrame.payload newcomer retryFrame.sequence := dispatch_register rfl
  rw [hlocked]
  rcases serverRegisterLocked_cases newcomerHost (newcomerLocked n).1 retryFrame.payload newcomer
      retryFrame.sequence with
    ⟨j, hj, hstale, -⟩ | ⟨j, hj, -, hreg⟩ | ⟨hnone, -, -⟩ | ⟨j, hnone, -⟩
  · rw [hfind, Option.some.injEq] at hj
    rw [← hj, hfresh] at hstale
    cases hstale
  · rw [hfind, Option.some.injEq] at hj
    rw [hreg, notesFor_assignActs, ← hj, if_pos haddr]
  · rw [hfind] at hnone
    cases hnone
  · rw [hfind] at hnone
    cases hnone

theorem Retries.active {n : ℕ} {i : Slot} (h : Retries n i) : (newcomerLocked n).1.ActiveAt newcomer :=
  ⟨i, active_of_find h.1, h.2.1⟩

/-- The first attempt has come to nothing, although the client has its entry. -/
structure Wasted (n : ℕ) (l : Lan) : Prop where
  idle : l.hub.Idle
  srv : l.hub.srv = (newcomerLocked n).1
  calls : l.hub.io.calls ≤ 1000 * (n + 1)
  noProcess : ∀ addr ≠ newcomer, l.stage addr = .over
  phase : (l.nodes newcomer).phase = .attempt 2
  running : (l.nodes newcomer).io.running = true
  lookup : (l.nodes newcomer).cli.lookup = fun _ => none
  told : l.told newcomer = []

/-- The ASSIGN of the first attempt is lost, so its PEER_LIST arrives in the handshake and is thrown
away. -/
theorem wasted_reached {harmless : Prop} {n : ℕ} (hn : n < 1000) {i : Slot} (hi : Retries n i)
    (hsmall : SlotTable.count (fun i => ((crowdSrv n).peers i).active) ≤ tundPeerListMax)
    (hharmless : harmless →
      (notesFor newcomer none (newcomerLocked n).2).flatMap Note.ops = []) :
    ∃ l, Trace.Reachable lanStep (retryOk harmless) LanInit l ∧ Wasted n l := by
  obtain ⟨l, hreach, h⟩ := joined_reached True hn fun _ => hsmall
  obtain ⟨list, hlist, hnotes⟩ := newcomer_told hn hi.active
  have hreach : Trace.Reachable lanStep (retryOk harmless) LanInit l :=
    hreach.mono fun _ _ => retryOk_of_crowdOk
  have hcalls : l.hub.io.calls < 2 ^ 63 := lt_of_le_of_lt h.calls (by omega)
  have hstage : l.stage newcomer = .handshake := by
    rw [Lan.stage, h.phase]
    rfl
  have htold : l.told newcomer = [.assign, list] := h.told.trans hnotes
  -- the ASSIGN is lost
  have hlose : retryOk harmless l (.lose newcomer) := by
    refine ⟨⟨trivial, trivial, trivial, trivial, hstage⟩, ?_⟩
    rintro hh addr ⟨⟩
    have hops := hharmless hh
    rw [hnotes] at hops
    refine ⟨fun note hnote => ?_, fun _ => ?_⟩
    · rw [htold] at hnote
      cases hnote
      rfl
    · rw [htold, tells_of_rests (h.idle.2 .receive), List.tail_cons]
      refine guarded_of_drops (fun note hnote => ?_) trivial
      rw [List.mem_singleton.1 hnote]
      exact Note.drops_of_quiet (by simpa using hops)
  obtain ⟨l₁, hrun₁, hnodes₁, hgave₁⟩ :=
    (linked_of_retryOk hreach hcalls).leads_lose htold hlose
  have hreach₁ := hreach.trans hrun₁
  have htold₁ : l₁.told newcomer = [list] := by
    rw [hgave₁.told, htold]
    rfl
  have hphase₁ : (l₁.nodes newcomer).phase = .await 2 := hnodes₁ ▸ h.phase
  -- the PEER_LIST is read in the handshake
  obtain ⟨l₂, hrun₂, hphase₂, hio₂, hlookup₂, hgave₂⟩ :=
    (linked_of_retryOk hreach₁ (hgave₁.hub ▸ hcalls)).leads_wasted rfl rfl hphase₁ htold₁ hlist
      (retryOk_deliver (by rw [ClientNode.listens, hphase₁]))
  have hhub₂ : l₂.hub = l.hub := hgave₂.hub.trans hgave₁.hub
  refine ⟨l₂, hreach₁.trans hrun₂, hhub₂ ▸ h.idle, hhub₂ ▸ h.srv, hhub₂ ▸ h.calls, fun addr ha => ?_,
    hphase₂, ?_, ?_, ?_⟩
  · rw [Lan.stage, hgave₂.nodes addr ha, hnodes₁]
    exact h.noProcess addr ha
  · rw [hio₂, hnodes₁]
    exact h.running
  · rw [hlookup₂, hnodes₁]
    exact h.lookup
  · rw [hgave₂.told, htold₁]
    rfl

/-- The client has registered with its second attempt, and was told nothing else. -/
structure Retried (n : ℕ) (l : Lan) : Prop where
  idle : l.hub.Idle
  srv : l.hub.srv = (retryLocked n).1
  calls : l.hub.io.calls ≤ 1000 * (n + 2)
  noProcess : ∀ addr ≠ newcomer, l.stage addr = .over
  phase : (l.nodes newcomer).phase = .running
  running : (l.nodes newcomer).io.running = true
  lookup : (l.nodes newcomer).cli.lookup = fun _ => none
  told : l.told newcomer = []

/-- The second attempt is answered. -/
theorem retried_reached {harmless : Prop} {n : ℕ} (hn : n < 1000) {i : Slot} (hi : Retries n i)
    (hsmall : SlotTable.count (fun i => ((crowdSrv n).peers i).active) ≤ tundPeerListMax)
    (hharmless : harmless →
      (notesFor newcomer none (newcomerLocked n).2).flatMap Note.ops = []) :
    ∃ l, Trace.Reachable lanStep (retryOk harmless) LanInit l ∧ Retried n l := by
  obtain ⟨l, hreach, h⟩ := wasted_reached hn hi hsmall hharmless
  have hregister : retryOk harmless l (.node newcomer newcomerHost .register) := by
    refine ⟨⟨⟨rfl, rfl, trivial⟩, trivial, trivial, trivial, trivial⟩, ?_⟩
    rintro - addr ⟨⟩
  obtain ⟨l₁, hrun₁, hasked⟩ := leads_attempt (Env.plain_randomWorks 130 5)
    (Env.plain_sendWorks 130 5) h.phase hregister
  have hidle₁ : l₁.hub.Idle := hasked.hub ▸ h.idle
  have hsrv₁ : l₁.hub.srv = (newcomerLocked n).1 := hasked.hub ▸ h.srv
  obtain ⟨l₂, hrun₂, hserved⟩ : ∃ l₂, Trace.Reachable lanStep (retryOk harmless) (· = l₁) l₂ ∧
      l₁.Served newcomerHost retryFrame newcomer l₂ := by
    -- the server knows the endpoint
    have hknown : ∀ src, ¬ Hub.Admits { l₁.hub with accepted := some (retryFrame, newcomer) } src := by
      rintro src ⟨f, hacc, -, hnew⟩
      cases hacc
      have hfind := hi.1
      rw [← hsrv₁, hnew] at hfind
      cases hfind
    refine leads_register rfl retryWire_reads rfl (hidle₁.2 .receive) hidle₁.1 ?_ ?_ fun l' _ => ?_
    · exact retryOk_hub _ rfl (by simp) hidle₁ trivial trivial
    · refine retryOk_hub _ rfl (by simp) trivial (fun src hadm => absurd hadm (hknown src)) ?_
      rintro f src hacc (hadm | htype)
      · exact absurd hadm (hknown src)
      · cases hacc
        exact absurd htype (by decide)
    · exact retryOk_hub _ rfl (by simp) trivial trivial trivial
  have hreach₂ := (hreach.trans hrun₁).trans hrun₂
  have hcalls₂ : l₂.hub.io.calls ≤ 1000 * (n + 2) := by
    have hserve := hserved.calls_le rfl
    rw [hasked.hub] at hserve
    have hbefore := h.calls
    omega
  have htold₂ : l₂.told newcomer = [.assign] := by
    rw [hserved.told, hasked.told, h.told, hsrv₁]
    exact retry_told hi
  have hphase₂ : (l₂.nodes newcomer).phase = .await 1 := by
    rw [hserved.nodes]
    exact hasked.phase
  obtain ⟨l₃, hrun₃, hphase₃, hio₃, hlookup₃, hgave₃⟩ :=
    (linked_of_retryOk hreach₂ (lt_of_le_of_lt hcalls₂ (by omega))).leads_assign rfl rfl hphase₂
      htold₂ (retryOk_deliver (by rw [ClientNode.listens, hphase₂]))
  refine ⟨l₃, hreach₂.trans hrun₃, hgave₃.hub ▸ hserved.idle hidle₁, ?_, hgave₃.hub ▸ hcalls₂,
    fun addr ha => ?_, hphase₃, ?_, ?_, ?_⟩
  · rw [hgave₃.hub, hserved.srv, hsrv₁]
    rfl
  · rw [Lan.stage, hgave₃.nodes addr ha, hserved.nodes, hasked.others addr ha]
    exact h.noProcess addr ha
  · rw [hio₃, hserved.nodes, hasked.running]
    exact h.running
  · rw [hlookup₃, hserved.nodes, hasked.lookup]
    exact h.lookup
  · rw [hgave₃.told, htold₂]
    rfl

theorem retries_alone : Retries 0 0 := by
  unfold Retries
  decide +kernel

theorem retries_second : Retries 1 1 := by
  unfold Retries
  decide +kernel

/-- What the server makes of the REGISTER of a host that comes after the client. -/
def lateLocked : Server × List Act :=
  serverDispatchLocked newcomerHost (retryLocked 0).1 crowdFrame (crowdAddr 0)

/-- A client that was alone when its ASSIGN was lost lists the host that comes later. -/
theorem recovers_alone :
    ∃ l : Lan, l.hub.Idle ∧ l.flight newcomer = [] ∧ l.hub.srv.ActiveAt newcomer ∧
      (l.nodes newcomer).phase = .running ∧
      (l.nodes newcomer).cli.entries = l.hub.srv.entriesBut newcomer ∧
      (poolIp 1, [97]) ∈ (l.nodes newcomer).cli.entries := by
  have hempty : ((notesFor newcomer none (newcomerLocked 0).2).flatMap Note.ops).isEmpty = true := by
    decide +kernel
  obtain ⟨l, hreach, h⟩ := retried_reached (show 0 < 1000 by decide) retries_alone
    (by decide +kernel) fun _ : True => List.isEmpty_iff.1 hempty
  obtain ⟨l₁, hrun₁, hserved⟩ : ∃ l₁, Trace.Reachable lanStep (retryOk True) (· = l) l₁ ∧
      l.Served newcomerHost crowdFrame (crowdAddr 0) l₁ := by
    refine leads_register rfl crowdWire_reads rfl (h.idle.2 .receive) h.idle.1 ?_ ?_ fun l' _ => ?_
    · exact retryOk_hub _ rfl (by simp) h.idle trivial trivial
    · refine retryOk_hub _ rfl (by simp) trivial (fun src hadm => .inl ?_) fun _ _ _ _ addr _ => ?_
      · obtain ⟨f, hacc, -⟩ := hadm
        cases hacc
        exact h.noProcess _ (newcomer_ne 0).symm
      · show l.stage addr ≠ .handshake
        intro hstage
        by_cases ha : addr = newcomer
        · rw [ha, Lan.stage, h.phase] at hstage
          cases hstage
        · rw [h.noProcess addr ha] at hstage
          cases hstage
    · exact retryOk_hub _ rfl (by simp) trivial trivial trivial
  have hreach₁ := hreach.trans hrun₁
  have hcalls₁ : l₁.hub.io.calls < 2 ^ 63 := by
    have hserve := hserved.calls_le rfl
    have hbefore := h.calls
    omega
  have hone : (notesFor newcomer none lateLocked.2).length = 1 := by decide +kernel
  obtain ⟨join, hjoin⟩ := List.length_eq_one_iff.1 hone
  have htold₁ : l₁.told newcomer = [join] := by
    rw [hserved.told, h.told, h.srv]
    exact hjoin
  have hphase₁ : (l₁.nodes newcomer).phase = .running := hserved.nodes ▸ h.phase
  have hlive₁ : (l₁.nodes newcomer).io.running = true := hserved.nodes ▸ h.running
  obtain ⟨l₂, hrun₂, hphase₂, -, -, hgave⟩ := (linked_of_retryOk hreach₁ hcalls₁).leads_news
    rfl rfl hphase₁ hlive₁ htold₁
    (retryOk_deliver (by rw [ClientNode.listens, hphase₁]; exact hlive₁))
  have hreach₂ := hreach₁.trans hrun₂
  have hcalls₂ : l₂.hub.io.calls < 2 ^ 63 := hgave.hub ▸ hcalls₁
  have hidle₂ : l₂.hub.Idle := hgave.hub ▸ hserved.idle h.idle
  have hflight : l₂.flight newcomer = [] := (linked_of_retryOk hreach₂ hcalls₂).flight_nil (by
    rw [hgave.told, htold₁]
    rfl)
  have hsrv₂ : l₂.hub.srv = lateLocked.1 := by
    rw [hgave.hub, hserved.srv, h.srv]
    rfl
  have hact : l₂.hub.srv.ActiveAt newcomer := by
    rw [hsrv₂]
    exact ⟨0, by decide +kernel⟩
  have heq := recovers_from_loss (keeps_of_repliesLost (hreach₂.mono fun _ _ he =>
    ⟨he.1, he.2 trivial⟩)) hcalls₂ hidle₂ newcomer hflight hact hphase₂
  refine ⟨l₂, hidle₂, hflight, hact, hphase₂, heq, heq ▸ ?_⟩
  rw [hsrv₂]
  exact ⟨1, by decide +kernel⟩

/-- **A lost ASSIGN.**  Of the replies to two REGISTERs of a client only an ASSIGN is lost, the first,
and the client is the second peer in the table; its own table stays empty. -/
theorem retry_without_list :
    ¬ ∀ l : Lan, Trace.Reachable lanStep (repliesLostOk monocypher plainKey) LanInit l →
      l.hub.io.calls < 2 ^ 63 → l.hub.Idle → ∀ addr, l.flight addr = [] →
      l.hub.srv.ActiveAt addr → (l.nodes addr).phase = .running →
      l.hub.srv.entriesBut addr ⊆ (l.nodes addr).cli.entries := by
  intro hall
  obtain ⟨l, hreach, h⟩ := retried_reached (show 1 < 1000 by decide) retries_second crowdSrv_small
    False.elim
  have hcalls : l.hub.io.calls < 2 ^ 63 := lt_of_le_of_lt h.calls (by decide)
  have hlinked := linked_of_retryOk hreach hcalls
  have hmem : (poolIp 0, [97]) ∈ l.hub.srv.entriesBut newcomer := by
    rw [h.srv]
    exact ⟨0, by decide +kernel⟩
  have hact : l.hub.srv.ActiveAt newcomer := by
    rw [h.srv]
    exact ⟨1, by decide +kernel⟩
  have hlisted := hall l (hreach.mono fun _ _ he => he.1) hcalls h.idle newcomer
    (hlinked.flight_nil h.told) hact h.phase hmem
  rw [(hlinked.link newcomer).tidy.distinct.mem_entries, h.lookup] at hlisted
  cases hlisted

end Tund
