import Tund.Lan.Agreement

/-!
# The tables and the GUI under two threads

The receive loop and the timeout thread run as they like.  `views_agree_in_order` asks of
them only that neither overtakes the other on an address, in what it sends
(`Hub.TellsInOrder`) and in what it prints (`Hub.PrintsInOrder`); then the clients' tables
and the map of the GUI agree with the server's table at every quiet moment.

The code does not see to it.  An address is free again as soon as the timeout thread has
released the lock, and its PEER_LEAVE may go out after the PEER_JOIN of the next holder:
`raced_view_differs`.

Both are shown on one run: a host registers between the locked section of the timeout
thread and what that thread says (`Between`, `Passed`).  After half a minute it only has
probes to send, and all is in order; after 40 seconds it has removed somebody.
-/

namespace Tund

open Replica

/-! ### The GUI -/

/-- What a step of the server prints. -/
def HubEvent.printed (h : Hub) : HubEvent → List (Op UInt32 HostPeer)
  | .act _ t =>
    match (h.threads t).acts with
    | [] => []
    | a :: _ => a.prints
  | _ => []

/-- A thread does not overtake the other in what it prints. -/
def Hub.PrintsInOrder (h : Hub) : HubEvent → Prop
  | .act env .receive => ∀ k v, .put k v ∈ (HubEvent.act env .receive).printed h →
      .drop k ∈ h.prints .timeout → h.srv.hosts k = none
  | .act env .timeout => ∀ k, .drop k ∈ (HubEvent.act env .timeout).printed h →
      h.srv.hosts k = none → ∀ v, .put k v ∉ h.prints .receive
  | _ => True

/-- The map of the GUI and what is still to be printed come to the server's table. -/
def Hub.Printed (h : Hub) : Prop :=
  Settles h.io.tracker (h.prints .receive) (h.prints .timeout) h.srv.hosts

theorem Hub.Printed.move {h h' : Hub} {e : HubEvent} (hp : h.Printed) (hs : h.Sound)
    (hm : HubMove h e h') (hjson : e.env.jsonEvents = true) (horder : h.PrintsInOrder e) :
    h'.Printed := by
  unfold Hub.Printed at hp ⊢
  cases hm with
  | look e hnotes srv accepted hcount hstay hacc =>
    have hhosts : srv.hosts = h.srv.hosts := listing_refreshes stable_hosts hstay
    show Settles h.io.tracker (h.prints .receive) (h.prints .timeout) srv.hosts
    rw [hhosts]
    exact hp
  | handle env f src hacc =>
    obtain ⟨-, hseq, hrest⟩ := hs.accepted f src hacc
    have hprinted := (serverDispatchLocked_handled env h.srv f src).printed hs.wellFormed hseq
    generalize serverDispatchLocked env h.srv f src = r at hprinted
    show Settles h.io.tracker ((h.begin .receive r.1 r.2).prints .receive)
      ((h.begin .receive r.1 r.2).prints .timeout) r.1.hosts
    rw [prints_begin_self, prints_begin_of_ne (by decide), hprinted]
    rw [prints_of_rests hrest] at hp
    exact hp.extend _
  | sweep env box io hrest hbuild =>
    obtain ⟨ks, hprints, hlisting, -⟩ := hs.wellFormed.sweep_news env box
    have hhosts := fun v =>
      hlisting (fun _ => false) (fun p : Peer => HostPeer.mk p.cName p.realAddr) v
    have htracker : io.tracker = h.io.tracker := by
      apply tracker_of_events
      have hout := (Outbox.build_out env h.io (.keepalive env.nowMs)).1
      rw [hbuild] at hout
      rw [hout]
    clear hlisting
    generalize serverSweepLocked env h.srv box = r at hprints hhosts
    show Settles io.tracker ((h.begin .timeout r.1 r.2).prints .receive)
      ((h.begin .timeout r.1 r.2).prints .timeout) r.1.hosts
    rw [prints_begin_self, prints_begin_of_ne (by decide), hprints, htracker]
    rw [prints_of_rests hrest] at hp
    exact hp.sweep hhosts
  | relay env pkt hrest hpkt =>
    rw [prints_begin_of_ne (by decide), prints_begin_of_ne (by decide)]
    exact hp
  | act env t a acts hacts =>
    have hstay := (a.exec_same env ⟨h.srv, h.io, (h.threads t).box⟩).refreshes
    have hhosts : (h.doAct env t a acts).srv.hosts = h.srv.hosts :=
      listing_refreshes stable_hosts hstay
    have hprints : h.prints t = a.prints ++ (h.doAct env t a acts).prints t := prints_doAct hacts
    have hsaid : (HubEvent.act env t).printed h = a.prints := by
      simp only [HubEvent.printed, hacts]
    have htracker : (h.doAct env t a acts).io.tracker = run h.io.tracker a.prints :=
      a.exec_prints hjson ⟨h.srv, h.io, (h.threads t).box⟩
    rw [hhosts, htracker]
    cases t with
    | receive =>
      rw [prints_doAct_of_ne (show ThreadId.timeout ≠ .receive by decide)]
      rw [hprints] at hp
      refine hp.arrives fun k v hput => ?_
      rw [← hsaid] at hput
      exact horder k v hput
    | timeout =>
      rw [prints_doAct_of_ne (show ThreadId.receive ≠ .timeout by decide)]
      rw [hprints] at hp
      refine hp.slips fun k hdrop => ?_
      rw [← hsaid] at hdrop
      exact horder k hdrop
    | tun =>
      have hnone : a.prints = [] := by
        have hall := hs.tunPrints
        rw [hprints] at hall
        exact (List.append_eq_nil_iff.1 hall).1
      rw [hnone, prints_doAct_of_ne (show ThreadId.receive ≠ .tun by decide),
        prints_doAct_of_ne (show ThreadId.timeout ≠ .tun by decide)]
      exact hp

/-- The threads do not overtake each other, neither in what they send nor in what they print. -/
def Lan.InOrder (l : Lan) : LanEvent → Prop
  | .hub e => (∀ addr, l.hub.srv.ActiveAt addr → l.stage addr ≠ .over →
      l.hub.TellsInOrder addr e) ∧ l.hub.PrintsInOrder e
  | _ => True

section InOrder

variable {aead : Aead} {key : Bytes} {l : Lan}
  (h : Trace.Reachable lanStep
    (fun l e => interleavedOk aead key l e ∧ l.Orderly e ∧ l.InOrder e) LanInit l)
include h

theorem linked_in_order (hcalls : l.hub.io.calls < 2 ^ 63) : l.Linked True False aead key := by
  refine LanReachable.linked (h.mono fun l e he => ?_) hcalls
  obtain ⟨⟨hfair, hloss, -⟩, hord, hin⟩ := he
  refine ⟨hfair, fun _ => Lan.keeps_of_orderly hloss hord ?_⟩
  cases e with
  | hub e => exact hin.1
  | _ => trivial

theorem printed_in_order (hcalls : l.hub.io.calls < 2 ^ 63) : l.hub.Printed := by
  induction h with
  | start h =>
    obtain ⟨hubAddr, rfl⟩ := h
    have hnone : serverInit.hosts = fun _ => none := funext fun v => listing_of_unheld fun _ => rfl
    show Settles (fun _ => none) [] [] serverInit.hosts
    rw [hnone]
    exact settles_of_absent (by simp) (by simp)
  | @next l e hl he ih =>
    have hcalls' := lt_of_le_of_lt (calls_le_lanStep l e) hcalls
    have hp := ih hcalls'
    obtain ⟨⟨hfair, -, hjson⟩, -, hin⟩ := he
    cases e with
    | hub e =>
      exact hp.move (linked_in_order hl hcalls').sound (hubStep_move hfair.tun) (hjson e rfl) hin.2
    | deliver addr env =>
      simp only [lanStep]
      split <;> exact hp
    | lose addr =>
      simp only [lanStep]
      split <;> exact hp
    | _ => exact hp

/-- **Any interleaving.**  The receive loop and the timeout thread take their locked sections, sends
and prints in any order, but neither overtakes the other on an address; entries are made and
processes start as before.  Then, whenever all threads are idle and nothing is in flight, every
client that is active on the server and has completed `client_register` has exactly the addresses
of the other active peers in its table, and the map of the GUI has exactly the addresses of all
active peers. -/
theorem views_agree_in_order (hcalls : l.hub.io.calls < 2 ^ 63) (hquiet : l.Quiet) :
    (∀ addr, l.hub.srv.ActiveAt addr → (l.nodes addr).phase = .running →
      Prod.fst '' (l.nodes addr).cli.entries = Prod.fst '' l.hub.srv.entriesBut addr) ∧
    {v | l.hub.io.tracker v ≠ none} = {v | ∃ i, (l.hub.srv.peers i).holds v = true} := by
  have hlinked := linked_in_order h hcalls
  constructor
  · intro addr hact hrun
    rw [hlinked.entries (hlinked.agrees trivial hquiet hact hrun)]
  · have hprinted := printed_in_order h hcalls
    unfold Hub.Printed at hprinted
    rw [prints_of_rests (hquiet.idle.2 .receive), prints_of_rests (hquiet.idle.2 .timeout)]
      at hprinted
    ext v
    rw [Set.mem_ofPred_eq, Set.mem_ofPred_eq, hprinted.eq]
    constructor
    · intro hne
      obtain ⟨host, hhost⟩ := Option.ne_none_iff_exists'.1 hne
      obtain ⟨i, hact, hvip, -⟩ := hlinked.sound.wellFormed.listing_eq_some_iff.1 hhost
      exact ⟨i, Peer.holds_iff.2 ⟨hact, hvip⟩⟩
    · rintro ⟨i, hi⟩
      rw [Server.hosts, hlinked.sound.wellFormed.listing_of_holds hi]
      intro hnone
      cases hnone

end InOrder

theorem Hub.Alone.printsInOrder {h : Hub} (ha : h.Alone) (e : HubEvent) : h.PrintsInOrder e := by
  have hprinted : ∀ env t, h.rests t = true → (HubEvent.act env t).printed h = [] := by
    intro env t hrest
    simp only [HubEvent.printed, List.isEmpty_iff.1 hrest]
  cases e with
  | act env t =>
    cases t with
    | receive =>
      intro k v hput hdrop
      rcases ha with hrest | ⟨hrest, -⟩
      · rw [prints_of_rests hrest] at hdrop
        cases hdrop
      · rw [hprinted env .receive hrest] at hput
        cases hput
    | timeout =>
      intro k hdrop _ v hput
      rcases ha with hrest | ⟨hrest, -⟩
      · rw [hprinted env .timeout hrest] at hdrop
        cases hdrop
      · rw [prints_of_rests hrest] at hput
        cases hput
    | tun => trivial
  | _ => trivial

/-- One thread at a time overtakes nobody. -/
theorem inOrder_of_oneAtATime {aead : Aead} {key : Bytes} {l : Lan}
    (h : Trace.Reachable lanStep
      (fun l e => interleavedOk aead key l e ∧ l.OneAtATime e ∧ l.Orderly e) LanInit l) :
    Trace.Reachable lanStep (fun l e => interleavedOk aead key l e ∧ l.Orderly e ∧ l.InOrder e)
      LanInit l := by
  induction h with
  | start h => exact .start h
  | @next l e hl he ih =>
    have halone := alone_of_oneAtATime (fun _ _ h => h.2.1) hl
    refine ih.next e ⟨he.1, he.2.2, ?_⟩
    cases e with
    | hub e => exact ⟨fun addr _ _ => halone.tellsInOrder addr e, halone.printsInOrder e⟩
    | _ => trivial

/-! ### A registration in the middle of a pass -/

/-- The table with a host and the client after the locked section of the timeout thread at time
`t`. -/
def passSrv (t : ℤ) : Server := (newcomerLocked 1).1.swept t

/-- Nobody else has an entry. -/
theorem passSrv_stranger (t : ℤ) {addr : SockAddr} (ha : addr ≠ newcomer) (h0 : addr ≠ crowdAddr 0) :
    ¬ (passSrv t).ActiveAt addr := by
  have hall : ∀ i : Slot, ((newcomerLocked 1).1.peers i).active = true →
      ((newcomerLocked 1).1.peers i).realAddr = newcomer ∨
      ((newcomerLocked 1).1.peers i).realAddr = crowdAddr 0 := by
    decide +kernel
  rintro ⟨i, hi, hia⟩
  obtain ⟨hact, hsame⟩ : ((newcomerLocked 1).1.peers i).active = true ∧
      ((newcomerLocked 1).1.peers i).realAddr = addr := by
    simp only [passSrv, Server.swept, Peer.swept] at hi hia
    by_cases htimed : ((newcomerLocked 1).1.peers i).timedOut t = true
    · simp [htimed] at hi
    · rw [if_neg htimed] at hi hia
      exact ⟨hi, hia⟩
  rcases hall i hact with h | h
  · exact ha (hsame.symm.trans h)
  · exact h0 (hsame.symm.trans h)

/-- What the server makes of the REGISTER of another host then. -/
def passLocked (t : ℤ) : Server × List Act :=
  serverDispatchLocked (Env.plain t 5) (passSrv t) crowdFrame (crowdAddr 1)

/-- What the timeout thread has to tell the client and to print in the meantime, and that the client
is told of the other host. -/
structure Pass (t : ℤ) (news : List Note) (printed : List (Op UInt32 HostPeer)) : Prop where
  notes : ∀ addr ≠ crowdAddr 0, ∀ box, notesFor addr none (sweepActs (newcomerLocked 1).1 t box) =
    if newcomer = addr then news ++ [.news []] else []
  news_ops : ∀ n ∈ news, n.ops ≠ []
  prints : ∀ box, printsOf (sweepActs (newcomerLocked 1).1 t box) = printed
  acts : ∀ box, (sweepActs (newcomerLocked 1).1 t box).length ≤ 4
  join : (notesFor newcomer none (passLocked t).2).length = 1 ∧
    ((notesFor newcomer none (passLocked t).2).flatMap Note.ops).isEmpty = false

/-- The steps that a run may take: the locked sections while only the client has a process, the acts
of the receive loop around those of the timeout thread, and deliveries. -/
structure Permits (ok : Lan → LanEvent → Prop) (t : ℤ) : Prop where
  fair : ∀ l e, ok l e → lanFair monocypher plainKey l e
  locked : ∀ (l : Lan) (e : HubEvent), (∀ addr ≠ newcomer, l.stage addr = .over) →
    (∀ f, l.hub.accepted ≠ some (f, newcomer)) → e.env = Env.plain t 5 →
    (∀ env pkt, e ≠ .tun env pkt) → (∀ env t', e ≠ .act env t') → ok l (.hub e)
  receive : ∀ (l : Lan) box,
    l.hub.threads .timeout = .begin (sweepActs (newcomerLocked 1).1 t box) →
    ok l (.hub (.act (Env.plain t 5) .receive))
  timeout : ∀ l : Lan, l.hub.rests .receive = true → ok l (.hub (.act (Env.plain t 5) .timeout))
  deliver : ∀ (l : Lan) addr, (l.nodes addr).listens = true ∨ l.stage addr = .over →
    ok l (.deliver addr (Env.plain t 5))

/-- The other host has registered, and the timeout thread has yet to say what it did before that. -/
structure Between (t : ℤ) (l : Lan) : Prop where
  accepted : l.hub.accepted = none
  others : ∀ t' ≠ .timeout, l.hub.rests t' = true
  late : ∃ box, l.hub.threads .timeout = .begin (sweepActs (newcomerLocked 1).1 t box)
  srv : l.hub.srv = (passLocked t).1
  calls : l.hub.io.calls ≤ 4000
  noProcess : ∀ addr ≠ newcomer, l.stage addr = .over
  phase : (l.nodes newcomer).phase = .running
  running : (l.nodes newcomer).io.running = true
  told : l.told newcomer = notesFor newcomer none (passLocked t).2
  strangers : ∀ addr, addr ≠ newcomer → addr ≠ crowdAddr 0 → addr ≠ crowdAddr 1 → l.told addr = []

/-- All has been said, and is on its way. -/
structure Passed (t : ℤ) (news : List Note) (printed : List (Op UInt32 HostPeer)) (l : Lan) :
    Prop where
  idle : l.hub.Idle
  srv : l.hub.srv = (passLocked t).1
  calls : l.hub.io.calls ≤ 5000
  noProcess : ∀ addr ≠ newcomer, l.stage addr = .over
  phase : (l.nodes newcomer).phase = .running
  running : (l.nodes newcomer).io.running = true
  told : ∃ join : Note, join.ops ≠ [] ∧ l.told newcomer = join :: news ++ [.news []]
  strangers : ∀ addr, addr ≠ newcomer → addr ≠ crowdAddr 0 → addr ≠ crowdAddr 1 → l.told addr = []
  tracker : ∃ tracker, l.hub.io.tracker = run tracker printed

section Stages

variable {ok : Lan → LanEvent → Prop} {t : ℤ} {news : List Note}
  {printed : List (Op UInt32 HostPeer)} {l : Lan} (hp : Permits ok t)
include hp

theorem Permits.linked (h : Trace.Reachable lanStep ok LanInit l) (hcalls : l.hub.io.calls < 2 ^ 63) :
    l.Linked False False monocypher plainKey :=
  LanReachable.linked (h.mono fun _ _ he => ⟨hp.fair _ _ he, False.elim⟩) hcalls

/-- The locked section of the timeout thread, and then the other host's REGISTER. -/
theorem between_reached (hreach : Trace.Reachable lanStep ok LanInit l) (h : Settled 1 l) :
    ∃ l', Trace.Reachable lanStep ok (· = l) l' ∧ Between t l' := by
  have hcalls := h.calls
  have htold : ∀ addr, l.told addr = [] := by
    intro addr
    have hshows := ((hp.linked hreach (lt_of_le_of_lt hcalls (by decide))).link addr).shows
    have hflight : (l.hub.io.sentTo addr).drop (l.got addr) = [] := h.quiet.flight addr
    rw [hflight] at hshows
    exact List.forall₂_nil_left_iff.1 hshows
  -- the timeout thread
  have hsweep : l.Swept (Env.plain t 5) _ := lanStep_sweep (h.quiet.idle.2 .timeout)
  have hrun₁ : Trace.Reachable lanStep ok (· = l) (lanStep l (.hub (.sweep (Env.plain t 5)))) :=
    .next _ (.start rfl) (hp.locked l _ h.noProcess (by simp [h.quiet.idle.1]) rfl (by simp) (by simp))
  generalize lanStep l (.hub (.sweep (Env.plain t 5))) = l₁ at hsweep hrun₁
  obtain ⟨box, hbox⟩ := hsweep.acts
  rw [h.srv] at hbox
  have hsrv₁ : l₁.hub.srv = passSrv t := by
    rw [hsweep.srv, h.srv]
    rfl
  have hcalls₁ := hsweep.calls
  have hnone₁ : l₁.hub.accepted = none := hsweep.accepted.trans h.quiet.idle.1
  have hgone₁ : ∀ addr ≠ newcomer, l₁.stage addr = .over := by
    intro addr ha
    rw [Lan.stage, hsweep.nodes]
    exact h.noProcess addr ha
  have hrests₁ : ∀ t' ≠ .timeout, l₁.hub.rests t' = true := by
    intro t' ht'
    rw [Hub.rests, hsweep.others t' ht']
    exact h.quiet.idle.2 t'
  -- the receive loop
  obtain ⟨l₂, hrun₂, hserved⟩ : ∃ l₂, Trace.Reachable lanStep ok (· = l₁) l₂ ∧
      l₁.Served (Env.plain t 5) crowdFrame (crowdAddr 1) l₂ := by
    refine leads_register rfl crowdWire_reads rfl (hrests₁ .receive (by decide)) hnone₁ ?_ ?_
      fun l' hl' => hp.receive l' box ((hl' .timeout (by decide)).trans hbox)
    · exact hp.locked _ _ hgone₁ (by simp [hnone₁]) rfl (by simp) (by simp)
    · refine hp.locked _ _ hgone₁ (fun f hacc => ?_) rfl (by simp) (by simp)
      exact newcomer_ne 1 (Prod.mk.inj (Option.some.inj hacc)).2.symm
  have hserve := hserved.calls_le rfl
  have hnodes : l₂.nodes = l.nodes := hserved.nodes.trans hsweep.nodes
  refine ⟨l₂, hrun₁.trans hrun₂, hserved.accepted, fun t' ht' => ?_, ⟨box, ?_⟩, ?_, by omega,
    fun addr ha => ?_, ?_, ?_, ?_, fun addr ha h0 h1 => ?_⟩
  · by_cases hreceive : t' = .receive
    · rw [hreceive]
      exact hserved.rests
    · rw [Hub.rests, hserved.others t' hreceive]
      exact hrests₁ t' ht'
  · rw [hserved.others .timeout (by decide)]
    exact hbox
  · rw [hserved.srv, hsrv₁]
    rfl
  · rw [Lan.stage, hserved.nodes]
    exact hgone₁ addr ha
  · rw [hnodes]
    exact h.phase
  · rw [hnodes]
    exact h.running (by decide +kernel)
  · rw [hserved.told, hsweep.told, htold, hsrv₁]
    rfl
  · have hnone : ¬ l₁.hub.srv.ActiveAt addr := hsrv₁ ▸ passSrv_stranger t ha h0
    have hwf := (hp.linked (hreach.trans hrun₁) (by omega)).sound.wellFormed
    rw [(hserved.stranger rfl hwf (by decide) h1.symm hnone).1, hsweep.told]
    exact htold addr

/-- The acts of the timeout thread. -/
theorem passed_reached (hpass : Pass t news printed) (h : Between t l) :
    ∃ l', Trace.Reachable lanStep ok (· = l) l' ∧ Passed t news printed l' := by
  obtain ⟨box, hbox⟩ := h.late
  obtain ⟨l', hrun, hsaid⟩ : ∃ l', Trace.Reachable lanStep ok (· = l) l' ∧ l.Said .timeout l' := by
    refine leads_acts (show (Env.plain t 5).jsonEvents = true from rfl) fun l' hl' => hp.timeout l' ?_
    rw [Hub.rests, hl' .receive (by decide)]
    exact h.others .receive (by decide)
  have htells : ∀ addr ≠ crowdAddr 0, l.hub.tells .timeout addr =
      if newcomer = addr then news ++ [.news []] else [] := by
    intro addr ha
    rw [Hub.tells, hbox]
    exact hpass.notes addr ha box
  have hprints : l.hub.prints .timeout = printed := by
    rw [Hub.prints, hbox]
    exact hpass.prints box
  refine ⟨l', hrun, ⟨hsaid.accepted.trans h.accepted, fun t' => ?_⟩, ?_, ?_, fun addr ha => ?_, ?_,
    ?_, ?_, fun addr ha h0 h1 => ?_, ⟨_, by rw [hsaid.tracker, hprints]⟩⟩
  · by_cases ht' : t' = .timeout
    · rw [ht']
      exact hsaid.rests
    · rw [Hub.rests, hsaid.others t' ht']
      exact h.others t' ht'
  · rw [← h.srv]
    refine hsaid.srv ?_
    rw [hbox]
    exact sweepActs_countNothing _ _ _
  · have hcalls := hsaid.calls
    have hlen : (l.hub.threads .timeout).acts.length ≤ 4 := by
      rw [hbox]
      exact hpass.acts box
    have hbefore := h.calls
    omega
  · rw [Lan.stage, hsaid.nodes]
    exact h.noProcess addr ha
  · rw [hsaid.nodes]
    exact h.phase
  · rw [hsaid.nodes]
    exact h.running
  · obtain ⟨hone, hops⟩ := hpass.join
    obtain ⟨join, hjoin⟩ := List.length_eq_one_iff.1 hone
    refine ⟨join, ?_, ?_⟩
    · intro hnone
      rw [hjoin, List.flatMap_singleton, hnone] at hops
      cases hops
    · rw [hsaid.told, htells _ (newcomer_ne 0), if_pos rfl, h.told, hjoin]
      rfl
  · rw [hsaid.told, htells addr h0, if_neg ha.symm, List.append_nil]
    exact h.strangers addr ha h0 h1

/-- All of it arrives. -/
theorem arrived_reached (hpass : Pass t news printed) (hreach : Trace.Reachable lanStep ok LanInit l)
    (h : Passed t news printed l) :
    ∃ l', Trace.Reachable lanStep ok (· = l) l' ∧ l'.Quiet ∧ l'.hub = l.hub ∧
      (l'.nodes newcomer).phase = .running ∧
      ∃ lookup, (l'.nodes newcomer).cli.lookup = run lookup (news.flatMap Note.ops) := by
  obtain ⟨join, hjoin, htold⟩ := h.told
  have hcalls : l.hub.io.calls < 2 ^ 63 := lt_of_le_of_lt h.calls (by decide)
  -- the client reads what it was told
  obtain ⟨l₁, hrun₁, hphase₁, hlookup₁, hhub₁, hnil₁, hrest₁⟩ := leads_all_news rfl rfl
    (fun l' hl' hhub => hp.linked (hreach.trans hl') (hhub ▸ hcalls)) h.phase h.running htold
    (fun n hn => by
      rcases List.mem_cons.1 hn with rfl | hn
      · exact hjoin
      · exact hpass.news_ops n hn)
    fun l' hl' => hp.deliver l' newcomer (.inl hl')
  -- the hosts have no process
  have hover : ∀ addr ∈ [crowdAddr 0, crowdAddr 1], l₁.stage addr = .over := by
    intro addr ha
    have hne : addr ≠ newcomer := by
      simp only [List.mem_cons, List.not_mem_nil, or_false] at ha
      rcases ha with rfl | rfl
      · exact (newcomer_ne 0).symm
      · exact (newcomer_ne 1).symm
    rw [Lan.stage, (hrest₁ addr hne).1]
    exact h.noProcess addr hne
  obtain ⟨l₂, hrun₂, hhub₂, hnodes₂, hnil₂, hrest₂⟩ := leads_drain _ hover
    fun l' hl' addr ha => hp.deliver l' addr (.inr (by rw [Lan.stage, hl']; exact hover addr ha))
  have hhub : l₂.hub = l.hub := hhub₂.trans hhub₁
  have hlinked₁ := hp.linked (hreach.trans hrun₁) (hhub₁ ▸ hcalls)
  refine ⟨l₂, hrun₁.trans hrun₂, ⟨hhub ▸ h.idle, fun addr => ?_⟩, hhub, ?_, ?_⟩
  · by_cases ha : addr ∈ [crowdAddr 0, crowdAddr 1]
    · exact hnil₂ addr ha
    · simp only [List.mem_cons, List.not_mem_nil, or_false, not_or] at ha
      refine hrest₂ addr (hlinked₁.flight_nil ?_)
      by_cases hnew : addr = newcomer
      · rw [hnew]
        exact hnil₁
      · rw [(hrest₁ addr hnew).2]
        exact h.strangers addr hnew ha.1 ha.2
  · rw [hnodes₂]
    exact hphase₁
  · rw [hnodes₂, hlookup₁]
    refine ⟨run (l.nodes newcomer).cli.lookup join.ops, ?_⟩
    rw [← run_append]
    simp

end Stages

/-! ### In order -/

/-- After half a minute nobody is removed: the timeout thread has two probes to send. -/
theorem probed_sweepActs (box : Outbox) :
    sweepActs (newcomerLocked 1).1 130 box = [.probe box (crowdAddr 0), .probe box newcomer] := by
  have hfreed : (newcomerLocked 1).1.timedOutSlots 130 = [] := by decide +kernel
  have hkept : (newcomerLocked 1).1.survivors 130 = [0, 1] := by decide +kernel
  have hhost : ((newcomerLocked 1).1.peers 0).realAddr = crowdAddr 0 := by decide +kernel
  have haddr : ((newcomerLocked 1).1.peers 1).realAddr = newcomer := by decide +kernel
  rw [sweepActs, hfreed, hkept]
  simp [hhost, haddr]

theorem probed_pass : Pass 130 [] [] := by
  refine ⟨fun addr ha box => ?_, by simp, fun box => ?_, fun box => ?_, by decide +kernel⟩ <;>
    rw [probed_sweepActs]
  · simp only [notesFor, Act.notes, if_neg ha.symm]
    split_ifs <;> rfl
  · rfl
  · exact Nat.le_of_ble_eq_true rfl

theorem probed_no_news (addr : SockAddr) (box : Outbox) :
    (notesFor addr none (sweepActs (newcomerLocked 1).1 130 box)).flatMap Note.ops = [] := by
  rw [probed_sweepActs]
  simp only [notesFor, Act.notes]
  split_ifs <;> rfl

/-- The runs of `views_agree_in_order`. -/
def inOrderOk (l : Lan) (e : LanEvent) : Prop :=
  interleavedOk monocypher plainKey l e ∧ l.Orderly e ∧ l.InOrder e

theorem orderly_locked {l : Lan} {e : HubEvent} (hgone : ∀ addr ≠ newcomer, l.stage addr = .over)
    (hacc : ∀ f, l.hub.accepted ≠ some (f, newcomer)) : l.Orderly (.hub e) := by
  cases e with
  | dispatch env =>
    rintro src ⟨f, hf, -⟩
    refine .inl (hgone src ?_)
    rintro rfl
    exact hacc f hf
  | _ => trivial

/-- Whatever the receive loop says, two probes are not overtaken by it. -/
theorem permits_inOrder : Permits inOrderOk 130 where
  fair _ _ h := h.1.1
  locked l e hgone hacc henv htun hact := by
    refine ⟨interleavedOk_hub l henv htun, orderly_locked hgone hacc, ?_⟩
    cases e with
    | act env t => exact absurd rfl (hact env t)
    | _ => exact ⟨fun _ _ _ => trivial, trivial⟩
  receive l box hlate := by
    refine ⟨interleavedOk_hub l rfl (by simp), trivial, fun addr _ _ k v _ hdrop => ?_,
      fun k v _ hdrop => ?_⟩
    · have hnews : l.hub.tells .timeout addr =
          notesFor addr none (sweepActs (newcomerLocked 1).1 130 box) := by
        rw [Hub.tells, hlate]
        rfl
      rw [hnews, probed_no_news] at hdrop
      cases hdrop
    · have hprints : l.hub.prints .timeout = printsOf (sweepActs (newcomerLocked 1).1 130 box) := by
        rw [Hub.prints, hlate]
        rfl
      rw [hprints, probed_pass.prints] at hdrop
      cases hdrop
  timeout l hrest := by
    refine ⟨interleavedOk_hub l rfl (by simp), trivial, fun addr _ _ k _ _ v hput => ?_,
      fun k _ _ v hput => ?_⟩
    · rw [tells_of_rests hrest] at hput
      cases hput
    · rw [prints_of_rests hrest] at hput
      cases hput
  deliver l addr h := ⟨⟨⟨rfl, rfl, h⟩, trivial, fun _ he => by cases he⟩, trivial, trivial⟩

/-- The timeout thread has two probes left to send when another host has registered: the client ends
up with both hosts in its table, and the GUI with all three. -/
theorem views_agree_in_order_probed :
    ∃ l₁ l : Lan, Trace.Reachable lanStep inOrderOk LanInit l₁ ∧ l₁.hub.rests .timeout = false ∧
      l₁.hub.srv.ActiveAt (crowdAddr 1) ∧ Trace.Reachable lanStep inOrderOk (· = l₁) l ∧ l.Quiet ∧
      l.hub.srv.ActiveAt newcomer ∧ (l.nodes newcomer).phase = .running ∧
      Prod.fst '' (l.nodes newcomer).cli.entries = Prod.fst '' l.hub.srv.entriesBut newcomer ∧
      poolIp 0 ∈ Prod.fst '' (l.nodes newcomer).cli.entries ∧
      poolIp 2 ∈ Prod.fst '' (l.nodes newcomer).cli.entries ∧
      ∀ k < 3, l.hub.io.tracker (poolIp k) ≠ none := by
  obtain ⟨l₀, hreach, h₀⟩ := settled_reached True (show 1 < 1000 by decide)
    (fun _ => crowdSrv_small) newcomer_active
  have hreach₀ : Trace.Reachable lanStep inOrderOk LanInit l₀ := inOrder_of_oneAtATime
    (hreach.mono fun _ _ he => ⟨he.1, he.2.1, he.2.2.2 trivial⟩)
  obtain ⟨l₁, hrun₁, h₁⟩ := between_reached permits_inOrder hreach₀ h₀
  obtain ⟨l₂, hrun₂, h₂⟩ := passed_reached permits_inOrder probed_pass h₁
  obtain ⟨l, hrun, hquiet, hhub, hphase, -⟩ :=
    arrived_reached permits_inOrder probed_pass ((hreach₀.trans hrun₁).trans hrun₂) h₂
  have hsrv : l.hub.srv = (passLocked 130).1 := hhub ▸ h₂.srv
  have hcalls : l.hub.io.calls < 2 ^ 63 := by
    rw [hhub]
    exact lt_of_le_of_lt h₂.calls (by decide)
  have hact : l.hub.srv.ActiveAt newcomer := hsrv ▸ ⟨1, by decide +kernel⟩
  obtain ⟨hviews, hgui⟩ := views_agree_in_order
    (((hreach₀.trans hrun₁).trans hrun₂).trans hrun) hcalls hquiet
  have heq := hviews newcomer hact hphase
  have hlate : l₁.hub.rests .timeout = false := by
    obtain ⟨box, hbox⟩ := h₁.late
    rw [Hub.rests, hbox, probed_sweepActs]
    rfl
  refine ⟨l₁, l, hreach₀.trans hrun₁, hlate, h₁.srv ▸ ⟨2, by decide +kernel⟩, hrun₂.trans hrun, hquiet,
    hact, hphase, heq, ?_, ?_, fun k hk => ?_⟩
  · rw [heq, hsrv]
    exact ⟨(poolIp 0, [97]), ⟨0, by decide +kernel⟩, rfl⟩
  · rw [heq, hsrv]
    exact ⟨(poolIp 2, [97]), ⟨2, by decide +kernel⟩, rfl⟩
  · have hmem : poolIp k ∈ {v | ∃ i, (l.hub.srv.peers i).holds v = true} := by
      rw [hsrv]
      interval_cases k
      · exact ⟨0, by decide +kernel⟩
      · exact ⟨1, by decide +kernel⟩
      · exact ⟨2, by decide +kernel⟩
    rw [← hgui] at hmem
    exact hmem

/-! ### A race -/

/-- After 40 seconds the host is removed: there are its PEER_LEAVE and a probe to send. -/
theorem raced_sweepActs (box : Outbox) :
    sweepActs (newcomerLocked 1).1 140 box =
      [.event (.peerLeave (poolIp 0) .timeout), .build (.peerLeave (poolIp 0)),
        .forward (serverSnapshotPeerLocked (newcomerLocked 1).1 1) 0, .probe box newcomer] := by
  have hfreed : (newcomerLocked 1).1.timedOutSlots 140 = [0] := by decide +kernel
  have hkept : (newcomerLocked 1).1.survivors 140 = [1] := by decide +kernel
  have hvip : ((newcomerLocked 1).1.peers 0).virtIp = poolIp 0 := by decide +kernel
  have haddr : ((newcomerLocked 1).1.peers 1).realAddr = newcomer := by decide +kernel
  rw [sweepActs, hfreed, hkept]
  simp [leaveActs, hvip, haddr]

theorem raced_pass : Pass 140 [.news [.drop (poolIp 0)]] [.drop (poolIp 0)] := by
  have haddr : ((newcomerLocked 1).1.peers 1).realAddr = newcomer := by decide +kernel
  refine ⟨fun addr _ box => ?_, by simp, fun box => ?_, fun box => ?_, by decide +kernel⟩ <;>
    rw [raced_sweepActs]
  · simp only [notesFor, Act.notes, Act.load, serverSnapshotPeerLocked, haddr]
    split_ifs <;> rfl
  · rfl
  · exact Nat.le_of_ble_eq_true rfl

/-- The runs of the race: nothing is lost, and entries and processes are made as they should be. -/
def racedOk (l : Lan) (e : LanEvent) : Prop := interleavedOk monocypher plainKey l e ∧ l.Orderly e

theorem permits_raced : Permits racedOk 140 where
  fair _ _ h := h.1.1
  locked l _ hgone hacc henv htun _ := ⟨interleavedOk_hub l henv htun, orderly_locked hgone hacc⟩
  receive l _ _ := ⟨interleavedOk_hub l rfl (by simp), trivial⟩
  timeout l _ := ⟨interleavedOk_hub l rfl (by simp), trivial⟩
  deliver _ _ h := ⟨⟨⟨rfl, rfl, h⟩, trivial, fun _ he => by cases he⟩, trivial⟩

/-- The client is told of the new host first and of the departure of the old one second. -/
theorem raced_settles : ∃ l, Trace.Reachable lanStep racedOk LanInit l ∧ l.Quiet ∧
    l.hub.srv = (passLocked 140).1 ∧ l.hub.io.calls < 2 ^ 63 ∧
    (l.nodes newcomer).phase = .running ∧ (l.nodes newcomer).cli.lookup (poolIp 0) = none ∧
    l.hub.io.tracker (poolIp 0) = none := by
  obtain ⟨l₀, hreach, h₀⟩ := settled_reached True (show 1 < 1000 by decide)
    (fun _ => crowdSrv_small) newcomer_active
  have hreach₀ : Trace.Reachable lanStep racedOk LanInit l₀ :=
    hreach.mono fun _ _ he => ⟨he.1, he.2.2.2 trivial⟩
  obtain ⟨l₁, hrun₁, h₁⟩ := between_reached permits_raced hreach₀ h₀
  obtain ⟨l₂, hrun₂, h₂⟩ := passed_reached permits_raced raced_pass h₁
  have hreach₂ := (hreach₀.trans hrun₁).trans hrun₂
  obtain ⟨l, hrun, hquiet, hhub, hphase, lookup, hlookup⟩ :=
    arrived_reached permits_raced raced_pass hreach₂ h₂
  obtain ⟨tracker, htracker⟩ := h₂.tracker
  refine ⟨l, hreach₂.trans hrun, hquiet, hhub ▸ h₂.srv,
    hhub ▸ lt_of_le_of_lt h₂.calls (by decide), hphase, ?_, ?_⟩
  · rw [hlookup]
    simp [Op.apply]
  · rw [hhub, htracker]
    simp [Op.apply]

/-- The host that came last is in the table, and gets packets for the address. -/
theorem raced_holds : (((passLocked 140).1.peers 0).active = true ∧
      ((passLocked 140).1.peers 0).realAddr ≠ newcomer ∧
      ((passLocked 140).1.peers 0).listed = (poolIp 0, [97])) ∧
    ((passLocked 140).1.peers 1).active = true ∧
      ((passLocked 140).1.peers 1).realAddr = newcomer := by
  decide +kernel

/-- **A race.**  The timeout thread has removed a peer and not yet said so when another host
registers and gets the address.  Its PEER_JOIN and its line go out first, the PEER_LEAVE and the
line for the same address after them: client and GUI both lack an active peer. -/
theorem raced_view_differs :
    ∃ l : Lan, Trace.Reachable lanStep
        (fun l e => interleavedOk monocypher plainKey l e ∧ l.Orderly e) LanInit l ∧
      l.hub.io.calls < 2 ^ 63 ∧ l.Quiet ∧
      (∃ addr, l.hub.srv.ActiveAt addr ∧ (l.nodes addr).phase = .running ∧
        Prod.fst '' (l.nodes addr).cli.entries ≠ Prod.fst '' l.hub.srv.entriesBut addr) ∧
      {v | l.hub.io.tracker v ≠ none} ≠ {v | ∃ i, (l.hub.srv.peers i).holds v = true} := by
  obtain ⟨l, hreach, hquiet, hsrv, hcalls, hphase, hlookup, htracker⟩ := raced_settles
  obtain ⟨⟨hact, hne, hlisted⟩, hclient⟩ := raced_holds
  refine ⟨l, hreach, hcalls, hquiet, ⟨newcomer, ⟨1, hsrv ▸ hclient⟩, hphase, fun heq => ?_⟩,
    fun heq => ?_⟩
  · have hmem : poolIp 0 ∈ Prod.fst '' l.hub.srv.entriesBut newcomer := by
      rw [hsrv]
      exact ⟨(poolIp 0, [97]), ⟨0, hact, hne, hlisted⟩, rfl⟩
    rw [← heq] at hmem
    obtain ⟨entry, hentry, hvip⟩ := hmem
    have hdistinct := ((permits_raced.linked hreach hcalls).link newcomer).tidy.distinct
    rw [hdistinct.mem_entries, hvip, hlookup] at hentry
    cases hentry
  · have hmem : poolIp 0 ∈ {v | ∃ i, (l.hub.srv.peers i).holds v = true} := by
      refine ⟨0, ?_⟩
      rw [Peer.listed, Prod.mk.injEq] at hlisted
      rw [hsrv, Peer.holds_iff]
      exact ⟨hact, hlisted.1⟩
    rw [← heq] at hmem
    exact hmem htracker

end Tund
