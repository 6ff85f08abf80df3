import Tund.Lan.Runs

/-!
# The tables agree, one step at a time

The clients' tables against the server's table, at the moments at which nothing is left to
do and nothing on its way (`Lan.Quiet`).  When the server finishes each step before it
begins the next, nothing can be overtaken (`Hub.Alone`), and what is left to ask for is
that a client gets all others in its PEER_LIST: `views_agree_one_at_a_time`.

A PEER_LIST has 43 rows.  `Joined` and `Settled` are the states of a run in which `n` hosts
register and then a client comes; with 44 hosts its table lacks one of them
(`crowded_view_differs`).
-/

namespace Tund

open Replica

/-! ### Conditions of runs -/

/-- No datagram of the server is lost. -/
def LanEvent.Lossless : LanEvent → Prop
  | .lose _ => False
  | _ => True

/-- A thread begins only when all threads have finished. -/
def Lan.OneAtATime (l : Lan) : LanEvent → Prop
  | .hub (.receive _ _ _) => l.hub.Idle
  | .hub (.sweep _) => l.hub.Idle
  | .hub (.tun _ _) => l.hub.Idle
  | _ => True

/-- An entry is made only for a process that can take all that is said about the others, and a
process starts only where the server has no entry. -/
def Lan.Orderly (l : Lan) : LanEvent → Prop
  | .hub (.dispatch _) => ∀ src, l.hub.Admits src → l.Ready src
  | .start addr _ => ¬ l.hub.srv.ActiveAt addr
  | _ => True

/-- Entries come and go only while no client that has its entry is in its handshake. -/
def Lan.Still (l : Lan) : LanEvent → Prop
  | .hub (.dispatch _) => ∀ f src, l.hub.accepted = some (f, src) →
      l.hub.Admits src ∨ f.type = MsgType.disconnect.code →
      ∀ addr, l.hub.srv.ActiveAt addr → l.stage addr ≠ .handshake
  | .hub (.sweep _) => ∀ addr, l.hub.srv.ActiveAt addr → l.stage addr ≠ .handshake
  | _ => True

/-- The threads announce each address in the order in which the table changed. -/
def Lan.TellsInOrder (l : Lan) : LanEvent → Prop
  | .hub e => ∀ addr, l.hub.srv.ActiveAt addr → l.stage addr ≠ .over → l.hub.TellsInOrder addr e
  | _ => True

theorem Lan.keeps_of_orderly {l : Lan} {e : LanEvent} (hloss : e.Lossless) (ho : l.Orderly e)
    (ht : l.TellsInOrder e) : l.Keeps False e := by
  cases e with
  | hub e =>
    refine ⟨ht, ?_⟩
    rintro env rfl src hadm
    exact ⟨ho src hadm, False.elim⟩
  | start addr name => exact fun hact => absurd hact ho
  | lose addr => exact hloss.elim
  | _ => trivial

/-! ### One thread at a time -/

/-- The receive loop and the timeout thread are not both at work. -/
def Hub.Alone (h : Hub) : Prop :=
  h.rests .timeout = true ∨ h.rests .receive = true ∧ h.accepted = none

theorem Hub.Alone.tellsInOrder {h : Hub} (ha : h.Alone) (addr : SockAddr) (e : HubEvent) :
    h.TellsInOrder addr e := by
  have hnotes : ∀ env t, h.rests t = true → (HubEvent.act env t).notes h addr = [] := by
    intro env t hrest
    simp only [HubEvent.notes, List.isEmpty_iff.1 hrest]
  cases e with
  | act env t =>
    cases t with
    | receive =>
      intro k v hput hdrop
      rcases ha with hrest | ⟨hrest, -⟩
      · rw [tells_of_rests hrest] at hdrop
        cases hdrop
      · rw [hnotes env .receive hrest] at hput
        cases hput
    | timeout =>
      intro k hdrop _ v hput
      rcases ha with hrest | ⟨hrest, -⟩
      · rw [hnotes env .timeout hrest] at hdrop
        cases hdrop
      · rw [tells_of_rests hrest] at hput
        cases hput
    | tun => trivial
  | _ => trivial

theorem Hub.Alone.step {h : Hub} (ha : h.Alone) {e : HubEvent}
    (hone : (∀ env wire src, e = .receive env wire src → h.Idle) ∧ ∀ env, e = .sweep env → h.Idle) :
    (hubStep h e).Alone := by
  cases e with
  | receive env wire src =>
    obtain ⟨-, hrest⟩ := hone.1 env wire src rfl
    simp only [hubStep]
    split_ifs
    · exact ha
    · split
      · exact ha
      · split_ifs
        · split <;> exact .inl (hrest .timeout)
        · exact .inl (hrest .timeout)
  | dispatch env =>
    simp only [hubStep]
    split
    · exact ha
    · rename_i f src hacc
      rcases ha with hrest | ⟨-, hnone⟩
      · left
        generalize serverDispatchLocked env h.srv f src = r
        show (h.begin .receive r.1 r.2).rests .timeout = true
        rw [Hub.rests, begin_threads_of_ne (by decide)]
        exact hrest
      · rw [hnone] at hacc
        cases hacc
  | sweep env =>
    obtain ⟨hnone, hrest⟩ := hone.2 env rfl
    simp only [hubStep]
    split_ifs
    · exact ha
    · generalize Outbox.build env h.io (.keepalive env.nowMs) = keepalive
      generalize serverSweepLocked env h.srv keepalive.1 = r
      refine .inr ⟨?_, hnone⟩
      show (h.begin .timeout r.1 r.2).rests .receive = true
      rw [Hub.rests, begin_threads_of_ne (by decide)]
      exact hrest .receive
  | tun env pkt =>
    simp only [hubStep]
    split_ifs
    · exact ha
    · split
      · exact ha
      · rcases ha with hrest | ⟨hrest, hnone⟩
        · left
          rw [Hub.rests, begin_threads_of_ne (by decide)]
          exact hrest
        · refine .inr ⟨?_, hnone⟩
          rw [Hub.rests, begin_threads_of_ne (by decide)]
          exact hrest
  | act env t =>
    simp only [hubStep]
    split
    · exact ha
    · rename_i a acts hacts
      -- a thread that rests has no act to do
      have hkeep : ∀ t', h.rests t' = true → (h.doAct env t a acts).rests t' = true := by
        intro t' hrest
        have hne : t' ≠ t := by
          rintro rfl
          rw [Hub.rests, hacts] at hrest
          cases hrest
        rw [Hub.rests, doAct_threads_of_ne hne]
        exact hrest
      exact ha.imp (hkeep .timeout) fun hreceive => ⟨hkeep .receive hreceive.1, hreceive.2⟩

/-- The runs in which the server finishes each step before the next begins, and nothing is lost. -/
def oneAtATimeOk (aead : Aead) (key : Bytes) (l : Lan) (e : LanEvent) : Prop :=
  lanFair aead key l e ∧ e.Lossless ∧ l.OneAtATime e

/-- The runs in which nothing is lost and the GUI is on. -/
def interleavedOk (aead : Aead) (key : Bytes) (l : Lan) (e : LanEvent) : Prop :=
  lanFair aead key l e ∧ e.Lossless ∧ ∀ h : HubEvent, e = .hub h → h.env.jsonEvents = true

/-- Nothing has happened. -/
def LanInit (l : Lan) : Prop := ∃ hubAddr, l = .start hubAddr

theorem alone_of_oneAtATime {ok : Lan → LanEvent → Prop} {l : Lan}
    (hok : ∀ l e, ok l e → l.OneAtATime e) (h : Trace.Reachable lanStep ok LanInit l) :
    l.hub.Alone := by
  refine Trace.Reachable.invariant (P := fun l => l.hub.Alone) h ?_ fun l e he ha => ?_
  · rintro l ⟨hubAddr, rfl⟩
    exact .inl rfl
  · have hone := hok l e he
    cases e with
    | hub e =>
      refine ha.step ⟨?_, ?_⟩
      · rintro env wire src rfl
        exact hone
      · rintro env rfl
        exact hone
    | deliver addr env =>
      simp only [lanStep]
      split <;> exact ha
    | lose addr =>
      simp only [lanStep]
      split <;> exact ha
    | _ => exact ha

/-! ### Entries -/

/-- Address and name of an entry. -/
def Peer.listed (p : Peer) : UInt32 × Bytes := (p.virtIp, Bytes.cstr p.name.1)

/-- The active entries of a client's table. -/
def Client.entries (cli : Client) : Set (UInt32 × Bytes) :=
  {e | ∃ i, (cli.peers i).active = true ∧ (cli.peers i).listed = e}

/-- The active entries of the server's table, other than the one of the client at `addr`. -/
def Server.entriesBut (srv : Server) (addr : SockAddr) : Set (UInt32 × Bytes) :=
  {e | ∃ i, (srv.peers i).active = true ∧ (srv.peers i).realAddr ≠ addr ∧ (srv.peers i).listed = e}

theorem cstr_of_nul {b : Bytes} (h : 0 ∈ b) : (Bytes.cstr b).take (b.length - 1) = Bytes.cstr b := by
  apply List.take_of_length_le
  have hlt : (Bytes.cstr b).length < b.length := by
    by_contra hge
    have heq : Bytes.cstr b = b := (List.takeWhile_prefix _).eq_of_length_le (not_lt.1 hge)
    exact Bytes.ne_zero_of_mem_cstr (heq.symm ▸ h) rfl
  omega

theorem Client.Distinct.mem_entries {cli : Client} (h : cli.Distinct) {e : UInt32 × Bytes} :
    e ∈ cli.entries ↔ cli.lookup e.1 = some e.2 := by
  rw [h.lookup_eq_some_iff]
  constructor
  · rintro ⟨i, hi, rfl⟩
    exact ⟨i, Peer.holds_iff.2 ⟨hi, rfl⟩, rfl⟩
  · rintro ⟨i, hi, hname⟩
    obtain ⟨hact, hvip⟩ := Peer.holds_iff.1 hi
    exact ⟨i, hact, Prod.ext hvip hname⟩

theorem Server.WellFormed.mem_entriesBut {srv : Server} (h : srv.WellFormed) {addr : SockAddr}
    {e : UInt32 × Bytes} : e ∈ srv.entriesBut addr ↔ srv.others addr e.1 = some e.2 := by
  have hname : ∀ i, (srv.peers i).active = true →
      (srv.peers i).cName = Bytes.cstr (srv.peers i).name.1 := by
    intro i hi
    have hcut := cstr_of_nul (h.name_nul i hi)
    rwa [(srv.peers i).name.2] at hcut
  rw [Server.others, h.listing_eq_some_iff]
  constructor
  · rintro ⟨i, hi, hne, rfl⟩
    exact ⟨i, hi, rfl, by simpa using hne, hname i hi⟩
  · rintro ⟨i, hi, hvip, hskip, hcname⟩
    exact ⟨i, hi, by simpa using hskip, Prod.ext hvip ((hname i hi).symm.trans hcname)⟩

/-- The tables agree as maps, so they have the same entries. -/
theorem Lan.Linked.entries {p q : Prop} {aead : Aead} {key : Bytes} {l : Lan}
    (h : l.Linked p q aead key) {addr : SockAddr}
    (heq : (l.nodes addr).cli.lookup = l.hub.srv.others addr) :
    (l.nodes addr).cli.entries = l.hub.srv.entriesBut addr := by
  ext e
  rw [(h.link addr).tidy.distinct.mem_entries, h.sound.wellFormed.mem_entriesBut, heq]

/-- **One step at a time.**  The server finishes all sends of a step before the next begins, and
every datagram reaches its client once and in order.  A process starts where the server has no
entry, and an entry is made for it while it is in its handshake with nothing about others on its
way and at most 43 others there.  Then, whenever nothing is in flight, every client that is active
on the server and has completed `client_register` has exactly the other active peers in its table,
with their names. -/
theorem views_agree_one_at_a_time {aead : Aead} {key : Bytes} {l : Lan}
    (h : Trace.Reachable lanStep (fun l e => oneAtATimeOk aead key l e ∧ l.Orderly e) LanInit l)
    (hcalls : l.hub.io.calls < 2 ^ 63) (hquiet : l.Quiet) (addr : SockAddr)
    (hact : l.hub.srv.ActiveAt addr) (hrun : (l.nodes addr).phase = .running) :
    (l.nodes addr).cli.entries = l.hub.srv.entriesBut addr := by
  -- nothing is overtaken while one thread is at work
  have hreach : LanReachable True False aead key l := by
    clear hcalls hquiet hact hrun
    induction h with
    | start h => exact .start h
    | @next l e hl he ih =>
      have halone := alone_of_oneAtATime (fun _ _ h => h.1.2.2) hl
      refine ih.next e ⟨he.1.1, fun _ => Lan.keeps_of_orderly he.1.2.1 he.2 ?_⟩
      cases e with
      | hub e => exact fun addr _ _ => halone.tellsInOrder addr e
      | _ => trivial
  have hlinked := hreach.linked hcalls
  exact hlinked.entries (hlinked.agrees trivial hquiet hact hrun)

/-! ### A crowd -/

/-- The outside of the server while hosts register one after the other. -/
def crowdHost : Env := Env.plain 100 5

/-- The outside of the server and of the client that comes half a minute later. -/
def newcomerHost : Env := Env.plain 130 5

def crowdHub : SockAddr := ⟨2, 5, 5⟩

/-- The hosts. -/
def crowdAddr (k : ℕ) : SockAddr := ⟨2, UInt32.ofNat (k + 10), 1⟩

/-- The client. -/
def newcomer : SockAddr := ⟨2, 6, 6⟩

/-- The REGISTER that all of them send. -/
def crowdFrame : Frame := ⟨MsgType.register.code, [97], 1⟩

def crowdWire : Bytes :=
  wireBytes monocypher plainKey MsgType.register.code 1 (List.replicate tundNonceSize 0) [97]

/-- The table with `n` hosts. -/
def crowdSrv : ℕ → Server
  | 0 => serverInit
  | n + 1 => (serverDispatchLocked crowdHost (crowdSrv n) crowdFrame (crowdAddr n)).1

/-- What the server makes of the client's REGISTER. -/
def newcomerLocked (n : ℕ) : Server × List Act :=
  serverDispatchLocked newcomerHost (crowdSrv n) crowdFrame newcomer

theorem crowdWire_reads : (netRecv monocypher plainKey crowdWire).bind readFrame = some crowdFrame := by
  have hn : (List.replicate tundNonceSize (0 : UInt8)).length = tundNonceSize := List.length_replicate
  rw [crowdWire, netRecv_wireBytes hn (by decide), Option.bind_some,
    readFrame_frameBytes (by decide) hn (by decide)]
  rfl

/-- What the runs below keep to. -/
def crowdOk (small : Prop) (l : Lan) (e : LanEvent) : Prop :=
  interleavedOk monocypher plainKey l e ∧ l.OneAtATime e ∧ l.Still e ∧ (small → l.Orderly e)

theorem interleavedOk_hub (l : Lan) {e : HubEvent} {time : ℤ} {nowMs : UInt64}
    (henv : e.env = Env.plain time nowMs) (htun : ∀ env pkt, e ≠ .tun env pkt) :
    interleavedOk monocypher plainKey l (.hub e) := by
  refine ⟨⟨?_, ?_, ?_, ?_, fun env pkt h => absurd h (htun env pkt)⟩, trivial, ?_⟩
  · rw [henv]
    rfl
  · rw [henv]
    rfl
  · rw [henv]
    exact Env.plain_randomWorks time nowMs
  · rw [henv]
    exact Env.plain_sendWorks time nowMs
  · rintro h ⟨⟩
    rw [henv]
    rfl

/-- The server with `n` hosts in its table, and nobody else has been heard of. -/
structure Crowd (n : ℕ) (l : Lan) : Prop where
  hubAddr : l.hubAddr = crowdHub
  idle : l.hub.Idle
  srv : l.hub.srv = crowdSrv n
  calls : l.hub.io.calls ≤ 1000 * n
  noProcess : ∀ addr, l.stage addr = .over
  strangers : ∀ addr, (∀ k < n, addr ≠ crowdAddr k) → l.told addr = [] ∧ ¬ l.hub.srv.ActiveAt addr

theorem linked_of_crowdOk {small : Prop} {l : Lan}
    (h : Trace.Reachable lanStep (crowdOk small) LanInit l) (hcalls : l.hub.io.calls < 2 ^ 63) :
    l.Linked False False monocypher plainKey :=
  LanReachable.linked (h.mono fun _ _ he => ⟨he.1.1, False.elim⟩) hcalls

/-- A REGISTER comes in while the server has nothing to do. -/
theorem leads_crowd {small : Prop} (time : ℤ) (nowMs : UInt64) {l : Lan} (hidle : l.hub.Idle)
    (src : SockAddr) (hstill : ∀ addr, l.hub.srv.ActiveAt addr → l.stage addr ≠ .handshake)
    (hready : small → l.Ready src) :
    ∃ l', Trace.Reachable lanStep (crowdOk small) (· = l) l' ∧
      l.Served (Env.plain time nowMs) crowdFrame src l' := by
  refine leads_register rfl crowdWire_reads rfl (hidle.2 .receive) hidle.1 ?_ ?_ fun l' _ => ?_
  · exact ⟨interleavedOk_hub l rfl (by simp), hidle, trivial, fun _ => trivial⟩
  · refine ⟨interleavedOk_hub _ rfl (by simp), trivial, fun _ _ _ _ => hstill, fun hsmall src' hadm => ?_⟩
    obtain ⟨f, hacc, -⟩ := hadm
    cases hacc
    exact hready hsmall
  · exact ⟨interleavedOk_hub _ rfl (by simp), trivial, trivial, fun _ => trivial⟩

theorem crowd_reached (small : Prop) (n : ℕ) (hn : n < 1000) :
    ∃ l, Trace.Reachable lanStep (crowdOk small) LanInit l ∧ Crowd n l := by
  induction n with
  | zero =>
    refine ⟨.start crowdHub, .start ⟨crowdHub, rfl⟩, rfl, ⟨rfl, fun _ => rfl⟩, rfl, le_rfl,
      fun _ => rfl, fun addr _ => ⟨rfl, ?_⟩⟩
    rintro ⟨i, hi, -⟩
    cases hi
  | succ n ih =>
    obtain ⟨l, hreach, hcrowd⟩ := ih (by omega)
    have hlinked := linked_of_crowdOk hreach (lt_of_le_of_lt hcrowd.calls (by omega))
    have hstill : ∀ addr, l.hub.srv.ActiveAt addr → l.stage addr ≠ .handshake := by
      intro addr _ hstage
      rw [hcrowd.noProcess addr] at hstage
      cases hstage
    obtain ⟨l', hrun, hserved⟩ := leads_crowd 100 5 hcrowd.idle (crowdAddr n) hstill
      fun _ => .inl (hcrowd.noProcess (crowdAddr n))
    refine ⟨l', hreach.trans hrun, hserved.hubAddr.trans hcrowd.hubAddr,
      hserved.idle hcrowd.idle, ?_, ?_, ?_, ?_⟩
    · rw [hserved.srv, hcrowd.srv]
      rfl
    · have hcalls := hserved.calls_le rfl
      have hbefore := hcrowd.calls
      omega
    · intro addr
      rw [Lan.stage, hserved.nodes]
      exact hcrowd.noProcess addr
    · intro addr hnot
      obtain ⟨htold, hact⟩ := hcrowd.strangers addr fun k hk => hnot k (by omega)
      obtain ⟨htold', hact'⟩ := hserved.stranger rfl hlinked.sound.wellFormed (by decide)
        (fun h => hnot n (by omega) h.symm) hact
      exact ⟨htold'.trans htold, hact'⟩

/-- The client waits, and what the server has told it is on its way. -/
structure Joined (n : ℕ) (l : Lan) : Prop where
  idle : l.hub.Idle
  srv : l.hub.srv = (newcomerLocked n).1
  calls : l.hub.io.calls ≤ 1000 * (n + 1)
  noProcess : ∀ addr ≠ newcomer, l.stage addr = .over
  phase : (l.nodes newcomer).phase = .await 2
  running : (l.nodes newcomer).io.running = true
  lookup : (l.nodes newcomer).cli.lookup = fun _ => none
  told : l.told newcomer = notesFor newcomer none (newcomerLocked n).2
  strangers : ∀ addr ≠ newcomer, (∀ k < n, addr ≠ crowdAddr k) → l.told addr = []

theorem newcomer_ne (k : ℕ) : newcomer ≠ crowdAddr k := by
  intro h
  have hport : (6 : UInt16) = 1 := congrArg SockAddr.sinPort h
  exact absurd hport (by decide)

theorem joined_reached (small : Prop) {n : ℕ} (hn : n < 1000)
    (hsmall : small → SlotTable.count (fun i => ((crowdSrv n).peers i).active) ≤ tundPeerListMax) :
    ∃ l, Trace.Reachable lanStep (crowdOk small) LanInit l ∧ Joined n l := by
  obtain ⟨l, hreach, hcrowd⟩ := crowd_reached small n hn
  obtain ⟨hquiet, hnew⟩ := hcrowd.strangers newcomer fun k _ => newcomer_ne k
  have hstart : crowdOk small l (.start newcomer [97]) :=
    ⟨⟨hcrowd.noProcess newcomer, trivial, fun _ h => by cases h⟩, trivial, trivial, fun _ => hnew⟩
  have hregister : ∀ l' : Lan, crowdOk small l' (.node newcomer newcomerHost .register) := fun _ =>
    ⟨⟨⟨rfl, rfl, trivial⟩, trivial, fun _ h => by cases h⟩, trivial, trivial, fun _ => trivial⟩
  obtain ⟨l₁, hrun₁, hasked⟩ := leads_process (Env.plain_randomWorks 130 5)
    (Env.plain_sendWorks 130 5) hstart hregister
  have hidle₁ : l₁.hub.Idle := hasked.hub ▸ hcrowd.idle
  have hreach₁ := hreach.trans hrun₁
  have hlinked := linked_of_crowdOk hreach₁ (by
    rw [hasked.hub]
    exact lt_of_le_of_lt hcrowd.calls (by omega))
  have hready : small → l₁.Ready newcomer := by
    intro hs
    refine .inr ⟨?_, ?_, ?_⟩
    · rw [Lan.stage, hasked.phase]
      rfl
    · rw [hasked.hub, hcrowd.srv]
      exact hsmall hs
    · rw [Lan.NoNews, hasked.told, hquiet, tells_of_rests (hidle₁.2 .timeout)]
      rfl
  have hstill : ∀ addr, l₁.hub.srv.ActiveAt addr → l₁.stage addr ≠ .handshake := by
    intro addr hact hstage
    rw [hasked.hub] at hact
    have hne : addr ≠ newcomer := by
      rintro rfl
      exact hnew hact
    rw [Lan.stage, hasked.others addr hne] at hstage
    have hover := hcrowd.noProcess addr
    rw [Lan.stage, hstage] at hover
    cases hover
  obtain ⟨l₂, hrun₂, hserved⟩ := leads_crowd 130 5 hidle₁ newcomer hstill hready
  refine ⟨l₂, hreach₁.trans hrun₂, hserved.idle hidle₁, ?_, ?_, fun addr ha => ?_, ?_, ?_, ?_, ?_,
    fun addr ha hnot => ?_⟩
  · rw [hserved.srv, hasked.hub, hcrowd.srv]
    rfl
  · have hcalls := hserved.calls_le rfl
    rw [hasked.hub] at hcalls
    have hbefore := hcrowd.calls
    omega
  · rw [Lan.stage, hserved.nodes, hasked.others addr ha]
    exact hcrowd.noProcess addr
  · rw [hserved.nodes]
    exact hasked.phase
  · rw [hserved.nodes]
    exact hasked.running
  · rw [hserved.nodes, hasked.lookup, lookup_start]
  · rw [hserved.told, hasked.told, hquiet, hasked.hub, hcrowd.srv]
    rfl
  · obtain ⟨htold, hact⟩ := hcrowd.strangers addr hnot
    rw [(hserved.stranger rfl hlinked.sound.wellFormed (by decide) ha.symm
      (by rw [hasked.hub]; exact hact)).1, hasked.told]
    exact htold

theorem crowdOk_deliver {small : Prop} {l : Lan} {addr : SockAddr} (time : ℤ) (nowMs : UInt64)
    (h : (l.nodes addr).listens = true ∨ l.stage addr = .over) :
    crowdOk small l (.deliver addr (Env.plain time nowMs)) :=
  ⟨⟨⟨rfl, rfl, h⟩, trivial, fun _ he => by cases he⟩, trivial, trivial, fun _ => trivial⟩

/-- A process that waits is told an address and a list. -/
theorem newcomer_told {n : ℕ} (hn : n < 1000) (hact : (newcomerLocked n).1.ActiveAt newcomer) :
    ∃ list : Note, list ≠ .assign ∧
      notesFor newcomer none (newcomerLocked n).2 = [.assign, list] := by
  obtain ⟨l, hreach, hcrowd⟩ := crowd_reached False n hn
  have hwf := (linked_of_crowdOk hreach (lt_of_le_of_lt hcrowd.calls (by omega))).sound.wellFormed
  obtain ⟨-, hnew⟩ := hcrowd.strangers newcomer fun k _ => newcomer_ne k
  rw [hcrowd.srv] at hwf hnew
  rcases (serverDispatchLocked_handled newcomerHost (crowdSrv n) crowdFrame newcomer).news hwf
    (by decide) hact with ⟨hold, -⟩ | ⟨-, -, -, list, hlist, hnotes, -⟩
  · exact absurd hold hnew
  · exact ⟨list, hlist, hnotes⟩

/-- The client has read all that it was told, and nothing else is on its way. -/
structure Settled (n : ℕ) (l : Lan) : Prop where
  quiet : l.Quiet
  srv : l.hub.srv = (newcomerLocked n).1
  calls : l.hub.io.calls ≤ 1000 * (n + 1)
  noProcess : ∀ addr ≠ newcomer, l.stage addr = .over
  phase : (l.nodes newcomer).phase = .running
  running : ((notesFor newcomer none (newcomerLocked n).2).flatMap Note.ops).isEmpty = false →
    (l.nodes newcomer).io.running = true
  lookup : (l.nodes newcomer).cli.lookup =
    run (fun _ => none) ((notesFor newcomer none (newcomerLocked n).2).flatMap Note.ops)

theorem settled_reached (small : Prop) {n : ℕ} (hn : n < 1000)
    (hsmall : small → SlotTable.count (fun i => ((crowdSrv n).peers i).active) ≤ tundPeerListMax)
    (hact : (newcomerLocked n).1.ActiveAt newcomer) :
    ∃ l, Trace.Reachable lanStep (crowdOk small) LanInit l ∧ Settled n l := by
  obtain ⟨l, hreach, hjoined⟩ := joined_reached small hn hsmall
  obtain ⟨list, -, hnotes⟩ := newcomer_told hn hact
  have hops : (notesFor newcomer none (newcomerLocked n).2).flatMap Note.ops = list.ops := by
    rw [hnotes]
    simp
  have hcalls : l.hub.io.calls < 2 ^ 63 := lt_of_le_of_lt hjoined.calls (by omega)
  obtain ⟨l₁, hrun₁, hphase₁, hio₁, hlookup₁, hgave₁⟩ :=
    (linked_of_crowdOk hreach hcalls).leads_assign rfl rfl hjoined.phase (hjoined.told.trans hnotes)
      (crowdOk_deliver 130 5 (.inl (by rw [ClientNode.listens, hjoined.phase])))
  have hreach₁ := hreach.trans hrun₁
  have htold₁ : l₁.told newcomer = [list] := by
    rw [hgave₁.told, hjoined.told, hnotes]
    rfl
  have hlive₁ : (l₁.nodes newcomer).io.running = true := hio₁ ▸ hjoined.running
  obtain ⟨l₂, hrun₂, hphase₂, hlive₂, hlookup₂, hgave₂⟩ :=
    (linked_of_crowdOk hreach₁ (hgave₁.hub ▸ hcalls)).leads_news rfl rfl hphase₁ hlive₁ htold₁
      (crowdOk_deliver 130 5 (.inl (by rw [ClientNode.listens, hphase₁]; exact hlive₁)))
  have hreach₂ := hreach₁.trans hrun₂
  have hhub₂ : l₂.hub = l.hub := hgave₂.hub.trans hgave₁.hub
  have hover₂ : ∀ addr ≠ newcomer, l₂.stage addr = .over := by
    intro addr ha
    rw [Lan.stage, hgave₂.nodes addr ha, hgave₁.nodes addr ha]
    exact hjoined.noProcess addr ha
  have hgone : ∀ addr ∈ (List.range n).map crowdAddr, l₂.stage addr = .over := by
    intro addr ha
    obtain ⟨k, -, rfl⟩ := List.mem_map.1 ha
    exact hover₂ _ (newcomer_ne k).symm
  -- what the hosts were told about each other and about the client
  obtain ⟨l₃, hrun₃, hhub₃, hnodes₃, hnil, hrest⟩ := leads_drain _ hgone
    fun l' hl' addr ha => crowdOk_deliver 130 5 (.inr (by rw [Lan.stage, hl']; exact hgone addr ha))
  have hlinked₂ := linked_of_crowdOk hreach₂ (hhub₂ ▸ hcalls)
  refine ⟨l₃, hreach₂.trans hrun₃, ⟨?_, fun addr => ?_⟩, ?_, ?_, ?_, ?_, ?_, ?_⟩
  · rw [hhub₃, hhub₂]
    exact hjoined.idle
  · by_cases hmem : addr ∈ (List.range n).map crowdAddr
    · exact hnil addr hmem
    · refine hrest addr (hlinked₂.flight_nil ?_)
      by_cases ha : addr = newcomer
      · rw [ha, hgave₂.told, htold₁]
        rfl
      · rw [hgave₂.others addr ha, hgave₁.others addr ha]
        refine hjoined.strangers addr ha fun k hk heq => hmem ?_
        exact List.mem_map.2 ⟨k, List.mem_range.2 hk, heq.symm⟩
  · rw [hhub₃, hhub₂]
    exact hjoined.srv
  · rw [hhub₃, hhub₂]
    exact hjoined.calls
  · intro addr ha
    rw [Lan.stage, hnodes₃]
    exact hover₂ addr ha
  · rw [hnodes₃]
    exact hphase₂
  · intro hne
    rw [hnodes₃]
    refine hlive₂ fun hnone => ?_
    rw [hops, hnone] at hne
    cases hne
  · rw [hnodes₃, hlookup₂, hlookup₁, hjoined.lookup, hops]

theorem newcomer_active : (newcomerLocked 1).1.ActiveAt newcomer := ⟨1, by decide +kernel⟩

theorem crowdSrv_small :
    SlotTable.count (fun i => ((crowdSrv 1).peers i).active) ≤ tundPeerListMax := by
  decide +kernel

/-- One host and the client, which lists it. -/
theorem views_agree_two :
    ∃ l : Lan, l.Quiet ∧ l.hub.srv.ActiveAt newcomer ∧ (l.nodes newcomer).phase = .running ∧
      (l.nodes newcomer).cli.entries = l.hub.srv.entriesBut newcomer ∧
      (poolIp 0, [97]) ∈ (l.nodes newcomer).cli.entries := by
  obtain ⟨l, hreach, h⟩ := settled_reached True (show 1 < 1000 by decide)
    (fun _ => crowdSrv_small) newcomer_active
  have hact : l.hub.srv.ActiveAt newcomer := h.srv ▸ newcomer_active
  have heq := views_agree_one_at_a_time
    (hreach.mono fun _ _ he => ⟨⟨he.1.1, he.1.2.1, he.2.1⟩, he.2.2.2 trivial⟩)
    (lt_of_le_of_lt h.calls (by decide)) h.quiet newcomer hact h.phase
  refine ⟨l, h.quiet, hact, h.phase, heq, heq ▸ ?_⟩
  rw [h.srv]
  exact ⟨0, by decide +kernel⟩

/-- The 44th of 45 peers is not in the PEER_LIST of the last one. -/
theorem crowded_peerList :
    ((((newcomerLocked 44).1.peers 44).active = true ∧
      ((newcomerLocked 44).1.peers 44).realAddr = newcomer) ∧
    ((newcomerLocked 44).1.peers 43).active = true ∧
      ((newcomerLocked 44).1.peers 43).realAddr ≠ newcomer ∧
      ((newcomerLocked 44).1.peers 43).listed = (poolIp 43, [97])) ∧
    run (fun _ => none) ((notesFor newcomer none (newcomerLocked 44).2).flatMap Note.ops)
      (poolIp 43) = none := by
  decide +kernel

/-- **A crowd.**  After 44 hosts a client registers; the server works one step at a time, and
everything is delivered in order.  The client's table lacks a peer. -/
theorem crowded_view_differs :
    ¬ ∀ l : Lan, Trace.Reachable lanStep (oneAtATimeOk monocypher plainKey) LanInit l →
      l.hub.io.calls < 2 ^ 63 → l.Quiet → ∀ addr, l.hub.srv.ActiveAt addr →
      (l.nodes addr).phase = .running →
      (l.nodes addr).cli.entries = l.hub.srv.entriesBut addr := by
  intro hall
  obtain ⟨⟨hlast, hmissed⟩, hlist⟩ := crowded_peerList
  have hact : (newcomerLocked 44).1.ActiveAt newcomer := ⟨44, hlast⟩
  obtain ⟨l, hreach, h⟩ := settled_reached False (show 44 < 1000 by decide) False.elim hact
  have hcalls : l.hub.io.calls < 2 ^ 63 := lt_of_le_of_lt h.calls (by decide)
  have heq := hall l (hreach.mono fun _ _ he => ⟨he.1.1, he.1.2.1, he.2.1⟩) hcalls h.quiet newcomer
    (h.srv ▸ hact) h.phase
  have hmem : (poolIp 43, [97]) ∈ (l.nodes newcomer).cli.entries := by
    rw [heq, h.srv]
    exact ⟨43, hmissed⟩
  have hdistinct := ((linked_of_crowdOk hreach hcalls).link newcomer).tidy.distinct
  rw [hdistinct.mem_entries, h.lookup, hlist] at hmem
  cases hmem

end Tund
