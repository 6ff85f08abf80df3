import Tund.Lan.System

/-!
# The link between the server and one client

`Link` is what holds between the server and the process at one address: what the datagrams
on their way tell, what the window has seen, and how the table of the process, once all of
it is read, relates to the table of the server (`Settles`).

A process in its handshake throws away what it reads before the ASSIGN, so nothing may
stand before the ASSIGN that names a peer: `Guarded`.
-/

namespace Tund

open Replica

/-! ### Before the ASSIGN -/

/-- No peer is named before the first ASSIGN; if there is none, then `q`. -/
def Guarded (q : Prop) : List Note → Prop
  | [] => q
  | .assign :: _ => True
  | .news ops :: ns => (∀ op ∈ ops, ∃ k, op = Op.drop k) ∧ Guarded q ns

section Guarded

variable {q : Prop} {as bs ns : List Note}

theorem guarded_append (h : Guarded q as) (hb : Note.assign ∈ as ∨ Guarded q bs) :
    Guarded q (as ++ bs) := by
  induction as with
  | nil => exact hb.resolve_left (by simp)
  | cons n as ih =>
    cases n with
    | assign => trivial
    | news ops => exact ⟨h.1, ih h.2 (hb.imp_left fun hmem => by simpa using hmem)⟩

/-- Notes that name no peer. -/
theorem guarded_of_drops (hns : ∀ n ∈ ns, n.Drops) (h : Guarded q bs) : Guarded q (ns ++ bs) := by
  induction ns with
  | nil => exact h
  | cons n ns ih =>
    cases n with
    | assign => trivial
    | news ops => exact ⟨hns (.news ops) (by simp), ih fun n hn => hns n (by simp [hn])⟩

/-- Notes that name no peer may come in between. -/
theorem Guarded.insert (h : Guarded q (as ++ bs)) (hns : ∀ n ∈ ns, n.Drops) :
    Guarded q ((as ++ ns) ++ bs) := by
  induction as with
  | nil => exact guarded_of_drops hns h
  | cons n as ih =>
    cases n with
    | assign => trivial
    | news ops => exact ⟨h.1, ih h.2⟩

theorem Guarded.assign_mem (h : Guarded q ns) (hq : ¬ q) : Note.assign ∈ ns := by
  induction ns with
  | nil => exact absurd h hq
  | cons n ns ih =>
    cases n with
    | assign => simp
    | news ops => exact List.mem_cons_of_mem _ (ih h.2)

end Guarded

theorem Note.drops_of_quiet {n : Note} (h : n.ops = []) : n.Drops := by
  intro op hop
  rw [h] at hop
  cases hop

/-- Nothing comes of taking peers out of an empty table. -/
theorem run_drops {κ ν : Type*} [DecidableEq κ] {ops : List (Op κ ν)}
    (h : ∀ op ∈ ops, ∃ k, op = Op.drop k) : run (fun _ => none) ops = fun _ => none := by
  funext k
  refine run_eq_none rfl fun v hv => ?_
  obtain ⟨k', hk'⟩ := h _ hv
  cases hk'

/-! ### The queue -/

theorem Proc.Numbered.sentTo {io : Proc} (h : io.Numbered) (addr : SockAddr) :
    (io.sentTo addr).Pairwise fun a b => wireNumber a < wireNumber b := by
  obtain ⟨ns, hns, hsorted, -⟩ := h.numbers
  have hnumbers : (datagramsOf io.out).map (fun d => wireNumber d.wire) = ns.map UInt64.toNat := by
    have := congrArg (List.map fun o : Option UInt64 => (o.getD 0).toNat) hns
    simpa [wireNumber, Function.comp_def] using this
  have hall : ((datagramsOf io.out).map fun d => wireNumber d.wire).Pairwise (· < ·) := by
    rw [hnumbers]
    exact List.pairwise_map.2 (hsorted.imp fun h => UInt64.lt_iff_toNat_lt.1 h)
  exact List.pairwise_map.2 ((List.pairwise_map.1 hall).filter _)

/-- What holds between the server and the process at `addr`.  The last two parts are what the
tables agree by; they need the conditions of the run, which `p` stands for. -/
structure Link (p q : Prop) (aead : Aead) (key : Bytes) (hubAddr : SockAddr) (h : Hub)
    (addr : SockAddr) (c : ClientNode) (got : ℕ) (told : List Note) : Prop where
  got_le : got ≤ (h.io.sentTo addr).length
  shows : List.Forall₂ (Shows aead key) ((h.io.sentTo addr).drop got) told
  pooled : ∀ note ∈ told, note.Pooled
  serverAddr : c.cli.serverAddr = hubAddr
  heard : ∃ read, Heard c.cli.serverReplay read ∧
    ∀ wire ∈ read, wire ∈ (h.io.sentTo addr).take got
  tidy : c.cli.Tidy
  unread : c.phase.stage = .handshake → c.cli.lookup = fun _ => none
  guarded : p → h.srv.ActiveAt addr → c.phase.stage = .handshake →
    Guarded q (told ++ h.tells .receive addr)
  settles : p → h.srv.ActiveAt addr → c.phase.stage ≠ .over →
    Settles (run c.cli.lookup (told.flatMap Note.ops)) ((h.tells .receive addr).flatMap Note.ops)
      ((h.tells .timeout addr).flatMap Note.ops) (h.srv.others addr)

section Node

variable {p q : Prop} {aead : Aead} {key : Bytes} {hubAddr addr : SockAddr} {h : Hub}
  {c : ClientNode} {got : ℕ} {told : List Note}

/-- Nothing is left to say to a process that has registered. -/
theorem Link.agrees (hl : Link p q aead key hubAddr h addr c got told) (hp : p) (hidle : h.Idle)
    (hflight : (h.io.sentTo addr).drop got = []) (hact : h.srv.ActiveAt addr)
    (hrun : c.phase = .running) : c.cli.lookup = h.srv.others addr := by
  have htold : told = [] := by
    have hshows := hl.shows
    rw [hflight] at hshows
    cases hshows
    rfl
  have hset := hl.settles hp hact (by rw [hrun]; nofun)
  rw [htold, tells_of_rests (hidle.2 .receive), tells_of_rests (hidle.2 .timeout)] at hset
  exact hset.eq

/-- The process does something on its own. -/
theorem Link.node (hl : Link p q aead key hubAddr h addr c got told) {c' : ClientNode}
    (haddr : c'.cli.serverAddr = c.cli.serverAddr) (hi : c.Idles c') :
    Link p q aead key hubAddr h addr c' got told := by
  have hstage : ∀ s, c'.phase.stage = s → s ≠ .over → c.phase.stage = s := by
    intro s hs hne
    rcases hi.stage with h | h
    · exact h.symm.trans hs
    · exact absurd (hs.symm.trans h) hne
  refine { hl with
    serverAddr := haddr.trans hl.serverAddr
    heard := by rw [hi.window]; exact hl.heard
    tidy := hi.told.tidy
    unread := fun hs => ?_
    guarded := fun hp hact hs => hl.guarded hp hact (hstage _ hs (by decide))
    settles := fun hp hact hs => ?_ }
  · rw [hi.told.lookup]
    exact hl.unread (hstage _ hs (by decide))
  · rw [hi.told.lookup]
    exact hl.settles hp hact (by rw [hstage _ rfl hs]; exact hs)

/-- A new process, where the server has no entry, or one and nothing to tell about others. -/
theorem Link.start (hl : Link p q aead key hubAddr h addr c got told) (name : Bytes)
    (hok : p → h.srv.ActiveAt addr → q ∧ (h.srv.others addr = fun _ => none) ∧
      (told ++ h.tells .receive addr ++ h.tells .timeout addr).flatMap Note.ops = []) :
    Link p q aead key hubAddr h addr (.start addr hubAddr name) got told := by
  have hempty : (ClientNode.start addr hubAddr name).cli.lookup = fun _ => none := by
    funext v
    rw [lookup_eq_none_iff]
    exact fun _ => rfl
  refine { hl with
    serverAddr := rfl
    heard := ⟨[], heard_reset, by simp⟩
    tidy := ⟨nofun, nofun⟩
    unread := fun _ => hempty
    guarded := fun hp hact _ => ?_
    settles := fun hp hact _ => ?_ }
  · obtain ⟨hq, -, hno⟩ := hok hp hact
    rw [List.flatMap_append] at hno
    have hquiet := List.flatMap_eq_nil_iff.1 (List.append_eq_nil_iff.1 hno).1
    rw [← List.append_nil (told ++ h.tells .receive addr)]
    exact guarded_of_drops (fun n hn => Note.drops_of_quiet (hquiet n hn)) hq
  · obtain ⟨-, hothers, hno⟩ := hok hp hact
    simp only [List.flatMap_append, List.append_eq_nil_iff] at hno
    rw [hempty, hothers, hno.1.1, hno.1.2, hno.2]
    exact settles_of_absent (by simp) (by simp)

/-- The next datagram is in the window. -/
theorem Link.takes (hl : Link p q aead key hubAddr h addr c got told) (hnum : h.io.Numbered)
    {wire : Bytes} {rest : List Bytes} (hwire : (h.io.sentTo addr).drop got = wire :: rest)
    (hauth : Authentic aead key wire) : c.cli.takes aead key wire = true := by
  obtain ⟨read, hheard, hread⟩ := hl.heard
  have hlt : ∀ wire' ∈ read, wireNumber wire' < wireNumber wire := by
    intro wire' hmem
    have hsplit := hnum.sentTo addr
    rw [← List.take_append_drop got (h.io.sentTo addr), hwire] at hsplit
    exact (List.pairwise_append.1 hsplit).2.2 wire' (hread wire' hmem) wire (by simp)
  refine (hheard.takes_iff hauth ?_).2 fun wire' hmem => ?_
  · intro wire' hmem heq
    have hw := hlt wire' hmem
    rw [wireNumber, wireNumber, heq] at hw
    omega
  · have hw := hlt wire' hmem
    omega

/-- The datagrams that are no longer on their way. -/
theorem take_of_drop {α : Type*} {l : List α} {n : ℕ} {x : α} {rest : List α}
    (h : l.drop n = x :: rest) : l.take (n + 1) = l.take n ++ [x] ∧ l.drop (n + 1) = rest := by
  have hget : l[n]? = some x := by
    rw [← List.head?_drop, h]
    rfl
  constructor
  · rw [List.take_add_one, hget]
    rfl
  · rw [← List.drop_drop, h]
    rfl

/-- The window after the next datagram. -/
theorem Link.heard_next (hl : Link p q aead key hubAddr h addr c got told) {wire : Bytes}
    {rest : List Bytes} (hwire : (h.io.sentTo addr).drop got = wire :: rest)
    (hauth : Authentic aead key wire) {env : Env} (ha : env.aead = aead) (hk : env.key = key) :
    ∃ read, Heard (c.arrive env (.datagram wire c.cli.serverAddr)).cli.serverReplay read ∧
      ∀ wire ∈ read, wire ∈ (h.io.sentTo addr).take (got + 1) := by
  obtain ⟨read, hheard, hread⟩ := hl.heard
  have hold : ∀ wire' ∈ read, wire' ∈ (h.io.sentTo addr).take (got + 1) := by
    intro wire' hmem
    rw [(take_of_drop hwire).1]
    exact List.mem_append_left _ (hread wire' hmem)
  have hwindow := c.step_window ha hk (.arrive (.datagram wire c.cli.serverAddr))
  rw [ClientNode.step, ClientNode.reads] at hwindow
  rw [hwindow]
  split_ifs
  · rw [Arrival.fromServer, if_pos (netAddrEqual_iff.2 rfl), List.foldl_cons, List.foldl_nil]
    refine ⟨_, hheard.read hauth, fun wire' hmem => ?_⟩
    rcases List.mem_append.1 hmem with hmem | hmem
    · exact hold wire' hmem
    · rw [List.mem_singleton.1 hmem, (take_of_drop hwire).1]
      simp
  · exact ⟨read, hheard, hold⟩

/-- The parts of a link that the next datagram moves on, whatever the process makes of it. -/
theorem Link.shows_next (hl : Link p q aead key hubAddr h addr c got told) {wire : Bytes}
    {rest : List Bytes} (hwire : (h.io.sentTo addr).drop got = wire :: rest) :
    ∃ note notes, told = note :: notes ∧ Shows aead key wire note ∧ note.Pooled ∧
      got + 1 ≤ (h.io.sentTo addr).length ∧
      List.Forall₂ (Shows aead key) ((h.io.sentTo addr).drop (got + 1)) notes := by
  have hshows := hl.shows
  rw [hwire] at hshows
  cases htold : told with
  | nil =>
    rw [htold] at hshows
    cases hshows
  | cons note notes =>
    rw [htold] at hshows
    obtain ⟨hfirst, hrest⟩ := List.forall₂_cons.1 hshows
    refine ⟨note, notes, rfl, hfirst, hl.pooled note (by simp [htold]), ?_, ?_⟩
    · have hlen := congrArg List.length hwire
      rw [List.length_drop, List.length_cons] at hlen
      omega
    · rw [(take_of_drop hwire).2]
      exact hrest

/-- The next datagram reaches the socket. -/
theorem Link.deliver (hl : Link p q aead key hubAddr h addr c got told) (hnum : h.io.Numbered)
    {wire : Bytes} {rest : List Bytes} (hwire : (h.io.sentTo addr).drop got = wire :: rest)
    {env : Env} (ha : env.aead = aead) (hk : env.key = key)
    (hlisten : c.listens = true ∨ c.phase.stage = .over) :
    Link p q aead key hubAddr h addr (c.arrive env (.datagram wire hubAddr)) (got + 1) told.tail := by
  obtain ⟨note, notes, rfl, hshow, hpool, hlen, hrest⟩ := hl.shows_next hwire
  have htakes := hl.takes hnum hwire hshow.authentic
  rw [← hl.serverAddr, List.tail_cons]
  have hmoved := c.step_serverAddr (env, .arrive (.datagram wire c.cli.serverAddr))
  have hheard := hl.heard_next hwire hshow.authentic ha hk
  set c' := c.arrive env (.datagram wire c.cli.serverAddr) with hc'
  -- the queue and the window move on in any case
  have hcore : c'.cli.Tidy → (c'.phase.stage = .handshake → c'.cli.lookup = fun _ => none) →
      (p → h.srv.ActiveAt addr → c'.phase.stage = .handshake →
        Guarded q (notes ++ h.tells .receive addr)) →
      (p → h.srv.ActiveAt addr → c'.phase.stage ≠ .over →
        run c'.cli.lookup (notes.flatMap Note.ops) =
          run c.cli.lookup ((note :: notes).flatMap Note.ops) ∧ c.phase.stage ≠ .over) →
      Link p q aead key c.cli.serverAddr h addr c' (got + 1) notes := by
    intro htidy hunread hguarded hview
    refine ⟨hlen, hrest, fun n hn => hl.pooled n (by simp [hn]), hmoved, hheard, htidy, hunread,
      hguarded, fun hp hact hs => ?_⟩
    obtain ⟨hview, hlive⟩ := hview hp hact hs
    rw [hview]
    exact hl.settles hp hact hlive
  cases hphase : c.phase with
  | running =>
    have hio : c.io.running = true := by
      simpa [ClientNode.listens, hphase, Phase.stage] using hlisten
    obtain ⟨htold, hrun⟩ := ClientNode.arrive_running ha hk hl.tidy hphase hio hshow htakes hpool
    rw [← hc'] at htold hrun
    refine hcore htold.tidy (fun hs => ?_) (fun _ _ hs => ?_) fun _ _ _ => ⟨?_, ?_⟩
    · rw [hrun] at hs
      cases hs
    · rw [hrun] at hs
      cases hs
    · rw [htold.lookup, List.flatMap_cons, run_append]
    · rw [hphase]
      intro h
      cases h
  | await left =>
    have hstage : c.phase.stage = .handshake := by
      rw [hphase]
      rfl
    obtain ⟨htold, hassign, hother⟩ := ClientNode.arrive_awaiting ha hk hl.tidy hphase hshow htakes
    rw [← hc'] at htold hassign hother
    have hlookup : c'.cli.lookup = c.cli.lookup := htold.lookup
    have hlive : c.phase.stage ≠ .over := by
      rw [hstage]
      intro h
      cases h
    cases note with
    | assign =>
      have hrun := hassign rfl
      refine hcore htold.tidy (fun hs => ?_) (fun _ _ hs => ?_) fun _ _ _ => ⟨?_, hlive⟩
      · rw [hrun] at hs
        cases hs
      · rw [hrun] at hs
        cases hs
      · rw [hlookup]
        rfl
    | news ops =>
      have hguard : p → h.srv.ActiveAt addr →
          Guarded q (.news ops :: (notes ++ h.tells .receive addr)) :=
        fun hp hact => hl.guarded hp hact hstage
      refine hcore htold.tidy (fun _ => ?_) (fun hp hact _ => (hguard hp hact).2)
        fun hp hact _ => ⟨?_, hlive⟩
      · rw [hlookup]
        exact hl.unread hstage
      · rw [hlookup, List.flatMap_cons, run_append, hl.unread hstage]
        exact congrArg (run · _) (run_drops (hguard hp hact).1).symm
  | _ =>
    have hover : c.phase.stage = .over := by
      simpa [ClientNode.listens, hphase] using hlisten
    have hsame : c' = c := by rw [hc', ClientNode.arrive, hphase]
    rw [hsame] at hcore ⊢
    refine hcore hl.tidy (fun hs => ?_) (fun _ _ hs => ?_) fun _ _ hs => absurd hover hs
    · rw [hover] at hs
      cases hs
    · rw [hover] at hs
      cases hs

/-- The next datagram is lost.  It must not name a peer, and not be the ASSIGN that stands before
one that does. -/
theorem Link.lose (hl : Link p q aead key hubAddr h addr c got told) {wire : Bytes}
    {rest : List Bytes} (hwire : (h.io.sentTo addr).drop got = wire :: rest)
    (hquiet : p → ∀ note, told.head? = some note → note.ops = [])
    (hguard : p → c.phase.stage = .handshake → Guarded q (told.tail ++ h.tells .receive addr)) :
    Link p q aead key hubAddr h addr c (got + 1) told.tail := by
  obtain ⟨note, notes, rfl, -, -, hlen, hrest⟩ := hl.shows_next hwire
  obtain ⟨read, hheard, hread⟩ := hl.heard
  rw [List.tail_cons] at hguard ⊢
  refine { hl with
    got_le := hlen
    shows := hrest
    pooled := fun n hn => hl.pooled n (by simp [hn])
    heard := ⟨read, hheard, fun wire' hmem => ?_⟩
    guarded := fun hp _ => hguard hp
    settles := fun hp hact hs => ?_ }
  · rw [(take_of_drop hwire).1]
    exact List.mem_append_left _ (hread wire' hmem)
  · have hset := hl.settles hp hact hs
    rw [List.flatMap_cons, hquiet hp note rfl] at hset
    exact hset

end Node

/-! ### Steps of the server -/

theorem activeAt_of_refreshes {srv srv' : Server} {addr : SockAddr}
    (h : ∀ i, (srv.peers i).Refreshes (srv'.peers i)) (hact : srv'.ActiveAt addr) :
    srv.ActiveAt addr := by
  obtain ⟨i, hi, hia⟩ := hact
  exact ⟨i, by rw [← (h i).active]; exact hi, by rw [← (h i).realAddr]; exact hia⟩

section Hub

variable {p q : Prop} {aead : Aead} {key : Bytes} {hubAddr addr : SockAddr} {h h' : Hub}
  {c : ClientNode} {got : ℕ} {told : List Note} {env : Env}

/-- Nothing that concerns the link has moved. -/
theorem Link.frame (hl : Link p q aead key hubAddr h addr c got told)
    (hsent : h'.io.sentTo addr = h.io.sentTo addr)
    (hact : h'.srv.ActiveAt addr → h.srv.ActiveAt addr)
    (hothers : h'.srv.others addr = h.srv.others addr)
    (hreceive : h'.tells .receive addr = h.tells .receive addr)
    (htimeout : h'.tells .timeout addr = h.tells .timeout addr) :
    Link p q aead key hubAddr h' addr c got told where
  got_le := by rw [hsent]; exact hl.got_le
  shows := by rw [hsent]; exact hl.shows
  pooled := hl.pooled
  serverAddr := hl.serverAddr
  heard := by rw [hsent]; exact hl.heard
  tidy := hl.tidy
  unread := hl.unread
  guarded hp ha hs := by rw [hreceive]; exact hl.guarded hp (hact ha) hs
  settles hp ha hs := by rw [hreceive, htimeout, hothers]; exact hl.settles hp (hact ha) hs

/-- The receive loop has handled a packet.  If it has made an entry, then for a process in its
handshake, and with all rows in one PEER_LIST; and no other process is in its handshake without an
ASSIGN on its way. -/
theorem Link.handle (hl : Link p q aead key hubAddr h addr c got told) (hs : h.Sound) {f : Frame}
    {src : SockAddr} (hacc : h.accepted = some (f, src))
    (hself : p → h.Admits addr → c.phase.stage = .over ∨ c.phase.stage = .handshake ∧
      SlotTable.count (fun i => (h.srv.peers i).active) ≤ tundPeerListMax ∧
      (told ++ h.tells .timeout addr).flatMap Note.ops = [])
    (hother : p → q → h.Admits src → h.srv.ActiveAt addr → c.phase.stage = .handshake →
      Note.assign ∈ told) :
    Link p q aead key hubAddr { h.begin .receive (serverDispatchLocked env h.srv f src).1
      (serverDispatchLocked env h.srv f src).2 with accepted := none } addr c got told := by
  obtain ⟨-, hseq, hrest⟩ := hs.accepted f src hacc
  have hh := serverDispatchLocked_handled env h.srv f src
  have hdrops := hh.drops_or_new hs.wellFormed hseq addr
  have hnews := fun hact : (serverDispatchLocked env h.srv f src).1.ActiveAt addr =>
    hh.news hs.wellFormed hseq hact
  have hnone := tells_of_rests hrest addr
  generalize serverDispatchLocked env h.srv f src = r at hdrops hnews
  have hreceive : Hub.tells { h.begin .receive r.1 r.2 with accepted := none } .receive addr =
      notesFor addr none r.2 := tells_begin_self h .receive r.1 r.2 addr
  have htimeout : Hub.tells { h.begin .receive r.1 r.2 with accepted := none } .timeout addr =
      h.tells .timeout addr := by
    show (h.begin .receive r.1 r.2).tells .timeout addr = _
    exact tells_begin_of_ne (by decide) addr
  refine { hl with guarded := fun hp hact hstage => ?_, settles := fun hp hact hlive => ?_ }
  · rw [hreceive]
    rcases hnews hact with ⟨hold, -⟩ | ⟨htype, hnew, rfl, list, -, hnotes, -⟩
    · have hguard := hl.guarded hp hold hstage
      rw [hnone] at hguard
      rcases hdrops with hdrops | ⟨htype, hnew⟩
      · rw [← List.append_nil (told ++ notesFor addr none r.2)]
        exact hguard.insert hdrops
      · -- only a new entry names a peer, and that comes behind the ASSIGN
        rw [List.append_nil] at hguard
        refine guarded_append hguard (.inl ?_)
        by_cases hq : q
        · exact hother hp hq ⟨f, hacc, htype, hnew⟩ hold hstage
        · exact hguard.assign_mem hq
    · rw [hnotes]
      rcases hself hp ⟨f, hacc, htype, hnew⟩ with hover | ⟨-, -, hno⟩
      · rw [hover] at hstage
        cases hstage
      · rw [List.flatMap_append] at hno
        have hquiet := List.flatMap_eq_nil_iff.1 (List.append_eq_nil_iff.1 hno).1
        exact guarded_of_drops (fun n hn => Note.drops_of_quiet (hquiet n hn)) trivial
  · rw [hreceive, htimeout]
    rcases hnews hact with ⟨hold, hothers⟩ | ⟨htype, hnew, rfl, list, -, hnotes, hlist⟩
    · have hset := hl.settles hp hold hlive
      rw [hnone] at hset
      show Settles _ _ _ (r.1.others addr)
      rw [hothers]
      exact hset.extend _
    · rcases hself hp ⟨f, hacc, htype, hnew⟩ with hover | ⟨hstage, hcount, hno⟩
      · exact absurd hover hlive
      · rw [List.flatMap_append, List.append_eq_nil_iff] at hno
        have hops : [Note.assign, list].flatMap Note.ops = list.ops := by simp
        rw [hl.unread hstage, hno.1, hno.2, hnotes, hops]
        show Settles _ list.ops [] (r.1.others addr)
        rw [← hlist hcount]
        exact (settles_of_absent (by simp) (by simp)).extend list.ops

/-- The timeout thread has gone through the table. -/
theorem Link.sweep (hl : Link p q aead key hubAddr h addr c got told) (hs : h.Sound)
    (hrest : h.rests .timeout = true) {box : Outbox} {io : Proc}
    (hbuild : Outbox.build env h.io (.keepalive env.nowMs) = (box, io)) :
    Link p q aead key hubAddr { h.begin .timeout (serverSweepLocked env h.srv box).1
      (serverSweepLocked env h.srv box).2 with io := io } addr c got told := by
  obtain ⟨ks, -, hlisting, hnotes⟩ := hs.wellFormed.sweep_news env box
  have hothers := fun v => hlisting (fun p => decide (p.realAddr = addr)) Peer.cName v
  have hnotes := (hnotes addr).2
  have hsent : io.sentTo addr = h.io.sentTo addr := by
    apply sentTo_of_datagrams
    have hout := (Outbox.build_out env h.io (.keepalive env.nowMs)).1
    rw [hbuild] at hout
    rw [hout]
  have hnone := tells_of_rests hrest addr
  clear hlisting
  generalize serverSweepLocked env h.srv box = r at hothers hnotes
  have htimeout : Hub.tells { h.begin .timeout r.1 r.2 with io := io } .timeout addr =
      notesFor addr none r.2 := tells_begin_self h .timeout r.1 r.2 addr
  have hreceive : Hub.tells { h.begin .timeout r.1 r.2 with io := io } .receive addr =
      h.tells .receive addr := by
    show (h.begin .timeout r.1 r.2).tells .receive addr = _
    exact tells_begin_of_ne (by decide) addr
  refine { hl with
    got_le := hsent ▸ hl.got_le
    shows := hsent.symm ▸ hl.shows
    heard := hsent.symm ▸ hl.heard
    guarded := fun hp hact hstage => ?_
    settles := fun hp hact hlive => ?_ }
  · rw [hreceive]
    exact hl.guarded hp (hnotes hact).1 hstage
  · obtain ⟨hold, hops⟩ := hnotes hact
    have hset := hl.settles hp hold hlive
    rw [hnone] at hset
    rw [hreceive, htimeout, hops]
    exact hset.sweep hothers

/-- A thread has done its next act. -/
theorem Link.act (hl : Link p q aead key hubAddr h addr c got told) (hs : h.Sound)
    (ha : env.aead = aead) (hk : env.key = key) (hr : env.RandomWorks) (hw : env.SendWorks)
    {t : ThreadId} {a : Act} {acts : List Act} (hacts : (h.threads t).acts = a :: acts)
    (horder : p → h.srv.ActiveAt addr → c.phase.stage ≠ .over → h.TellsInOrder addr (.act env t)) :
    Link p q aead key hubAddr (h.doAct env t a acts) addr c got
      (told ++ a.notes addr (h.threads t).msg) := by
  obtain ⟨ws, hsent, hshows⟩ := hs.act_tells hr hw hacts addr
  rw [ha, hk] at hshows
  have hstay := (a.exec_same env ⟨h.srv, h.io, (h.threads t).box⟩).refreshes
  have hold : (h.doAct env t a acts).srv.ActiveAt addr → h.srv.ActiveAt addr :=
    activeAt_of_refreshes hstay
  have hothers : (h.doAct env t a acts).srv.others addr = h.srv.others addr :=
    listing_refreshes (stable_others addr) hstay
  have htells : h.tells t addr =
      a.notes addr (h.threads t).msg ++ (h.doAct env t a acts).tells t addr := tells_doAct hacts addr
  have hnotes : (HubEvent.act env t).notes h addr = a.notes addr (h.threads t).msg := by
    simp only [HubEvent.notes, hacts]
  -- what the timeout and TUN threads say names no peer
  have hdrops : t ≠ .receive → ∀ note ∈ a.notes addr (h.threads t).msg, note.Drops := by
    intro hne note hnote
    have hmem : note ∈ h.tells t addr := by
      rw [htells]
      exact List.mem_append_left _ hnote
    cases t with
    | receive => exact absurd rfl hne
    | timeout => exact hs.timeout addr note hmem
    | tun => exact Note.drops_of_quiet (hs.tun addr note hmem)
  refine { hl with
    got_le := ?_, shows := ?_, pooled := ?_, heard := ?_, guarded := ?_, settles := ?_ }
  · rw [hsent, List.length_append]
    exact Nat.le_add_right_of_le hl.got_le
  · rw [hsent, List.drop_append_of_le_length hl.got_le]
    exact List.rel_append hl.shows hshows
  · intro note hnote
    rcases List.mem_append.1 hnote with hnote | hnote
    · exact hl.pooled note hnote
    · refine hs.pooled t addr note ?_
      rw [htells]
      exact List.mem_append_left _ hnote
  · rw [hsent, List.take_append_of_le_length hl.got_le]
    exact hl.heard
  · intro hp hact hstage
    have hguard := hl.guarded hp (hold hact) hstage
    cases t with
    | receive =>
      rw [List.append_assoc, ← htells]
      exact hguard
    | timeout =>
      rw [tells_doAct_of_ne (by decide)]
      exact hguard.insert (hdrops (by decide))
    | tun =>
      rw [tells_doAct_of_ne (by decide)]
      exact hguard.insert (hdrops (by decide))
  · intro hp hact hlive
    have hset := hl.settles hp (hold hact) hlive
    rw [hothers, List.flatMap_append, run_append]
    cases t with
    | receive =>
      rw [tells_doAct_of_ne (show ThreadId.timeout ≠ .receive by decide)]
      rw [htells, List.flatMap_append] at hset
      refine hset.arrives fun k v hput => ?_
      rw [← hnotes] at hput
      exact horder hp (hold hact) hlive k v hput
    | timeout =>
      rw [tells_doAct_of_ne (show ThreadId.receive ≠ .timeout by decide)]
      rw [htells, List.flatMap_append] at hset
      refine hset.slips fun k hdrop => ?_
      rw [← hnotes] at hdrop
      exact horder hp (hold hact) hlive k hdrop
    | tun =>
      have hquiet : (a.notes addr (h.threads .tun).msg).flatMap Note.ops = [] := by
        rw [List.flatMap_eq_nil_iff]
        intro note hnote
        refine hs.tun addr note ?_
        rw [htells]
        exact List.mem_append_left _ hnote
      rw [hquiet, tells_doAct_of_ne (show ThreadId.receive ≠ .tun by decide),
        tells_doAct_of_ne (show ThreadId.timeout ≠ .tun by decide)]
      exact hset

end Hub

/-! ### The network -/

/-- The process at `src` is in its handshake and one PEER_LIST has room for all others, and
nothing that names a peer is on its way to it; or there is no process any more. -/
def Lan.Ready (l : Lan) (src : SockAddr) : Prop :=
  l.stage src = .over ∨ l.stage src = .handshake ∧
    SlotTable.count (fun i => (l.hub.srv.peers i).active) ≤ tundPeerListMax ∧ l.NoNews src

/-- The event leaves the links in order.  With `q`, a process may wait for an ASSIGN that is not
yet on its way. -/
def Lan.Keeps (q : Prop) (l : Lan) : LanEvent → Prop
  | .hub e =>
    (∀ addr, l.hub.srv.ActiveAt addr → l.stage addr ≠ .over → l.hub.TellsInOrder addr e) ∧
    ∀ env, e = .dispatch env → ∀ src, l.hub.Admits src → l.Ready src ∧
      (q → ∀ addr, l.hub.srv.ActiveAt addr → l.stage addr = .handshake →
        Note.assign ∈ l.told addr)
  | .start addr _ => l.hub.srv.ActiveAt addr → q ∧ (l.hub.srv.others addr = fun _ => none) ∧
      (l.told addr ++ l.hub.tells .receive addr ++ l.hub.tells .timeout addr).flatMap Note.ops = []
  | .lose addr => (∀ note, (l.told addr).head? = some note → note.ops = []) ∧
      (l.stage addr = .handshake → Guarded q ((l.told addr).tail ++ l.hub.tells .receive addr))
  | _ => True

/-- The server is in order and linked to all processes. -/
structure Lan.Linked (p q : Prop) (aead : Aead) (key : Bytes) (l : Lan) : Prop where
  sound : l.hub.Sound
  link : ∀ addr, Link p q aead key l.hubAddr l.hub addr (l.nodes addr) (l.got addr) (l.told addr)

section Network

variable {p q : Prop} {aead : Aead} {key : Bytes} {l : Lan}

theorem Lan.linked_start (hubAddr : SockAddr) : (Lan.start hubAddr).Linked p q aead key where
  sound := Hub.sound_start
  link addr :=
    { got_le := Nat.zero_le _
      shows := .nil
      pooled := nofun
      serverAddr := rfl
      heard := ⟨[], heard_reset, by simp⟩
      tidy := ⟨nofun, nofun⟩
      unread := nofun
      guarded := nofun
      settles := fun _ _ hlive => absurd rfl hlive }

/-- A change at one address. -/
theorem Lan.Linked.update (h : l.Linked p q aead key) {addr : SockAddr} {c : ClientNode} {got : ℕ}
    {told : List Note} (hl : Link p q aead key l.hubAddr l.hub addr c got told) :
    Lan.Linked p q aead key { l with
      nodes := Function.update l.nodes addr c
      got := Function.update l.got addr got
      told := Function.update l.told addr told } where
  sound := h.sound
  link addr' := by
    simp only [Function.update_apply]
    split_ifs with heq
    · rw [heq]
      exact hl
    · exact h.link addr'

theorem Lan.Linked.setNode (h : l.Linked p q aead key) {addr : SockAddr} {c : ClientNode}
    (hl : Link p q aead key l.hubAddr l.hub addr c (l.got addr) (l.told addr)) :
    (l.setNode addr c).Linked p q aead key := by
  have hupdate := h.update hl
  rw [Function.update_eq_self, Function.update_eq_self] at hupdate
  exact hupdate

/-- A step of the server. -/
theorem Lan.Linked.hub (h : l.Linked p q aead key) {e : HubEvent} (hok : HubOk aead key e)
    (hk : p → l.Keeps q (.hub e)) (hc : (hubStep l.hub e).io.calls < 2 ^ 63) :
    (lanStep l (.hub e)).Linked p q aead key := by
  have hmove := hubStep_move (h := l.hub) hok.tun
  have hsound := h.sound.move hok.random hok.send hmove hc
  refine ⟨hsound, fun addr => ?_⟩
  have haead := hok.aead
  have hkey := hok.key
  have hrandom := hok.random
  have hsend := hok.send
  have hl := h.link addr
  show Link p q aead key l.hubAddr (hubStep l.hub e) addr (l.nodes addr) (l.got addr)
    (l.told addr ++ e.notes l.hub addr)
  clear hsound hc
  generalize hubStep l.hub e = h' at hmove
  cases hmove with
  | look _ hnotes srv accepted hcount hstay hacc =>
    rw [hnotes, List.append_nil]
    exact hl.frame rfl (activeAt_of_refreshes hstay)
      (listing_refreshes (stable_others addr) hstay) rfl rfl
  | handle env f src hacc =>
    show Link p q aead key l.hubAddr _ addr (l.nodes addr) (l.got addr) (l.told addr ++ [])
    rw [List.append_nil]
    refine hl.handle h.sound hacc (fun hp hadm => ?_) fun hp hq hadm hact hstage => ?_
    · exact ((hk hp).2 env rfl addr hadm).1
    · exact ((hk hp).2 env rfl src hadm).2 hq addr hact hstage
  | sweep env box io hrest hbuild =>
    show Link p q aead key l.hubAddr _ addr (l.nodes addr) (l.got addr) (l.told addr ++ [])
    rw [List.append_nil]
    exact hl.sweep h.sound hrest hbuild
  | relay env pkt hrest hpkt =>
    show Link p q aead key l.hubAddr _ addr (l.nodes addr) (l.got addr) (l.told addr ++ [])
    rw [List.append_nil]
    exact hl.frame rfl id rfl (tells_begin_of_ne (by decide) addr)
      (tells_begin_of_ne (by decide) addr)
  | act env t a acts hacts =>
    have hnotes : (HubEvent.act env t).notes l.hub addr = a.notes addr (l.hub.threads t).msg := by
      simp only [HubEvent.notes, hacts]
    rw [hnotes]
    exact hl.act h.sound haead hkey hrandom hsend hacts fun hp => (hk hp).1 addr

/-- **Steps.**  An event that keeps to the conditions leaves all links in order. -/
theorem Lan.Linked.step (h : l.Linked p q aead key) {e : LanEvent} (hfair : lanFair aead key l e)
    (hk : p → l.Keeps q e) (hc : (lanStep l e).hub.io.calls < 2 ^ 63) :
    (lanStep l e).Linked p q aead key := by
  cases e with
  | hub e => exact h.hub hfair hk hc
  | start addr name => exact h.setNode ((h.link addr).start name hk)
  | node addr env e =>
    obtain ⟨ha, hkey, hstray⟩ := hfair
    have hl := h.link addr
    rw [← hl.serverAddr] at hstray
    exact h.setNode (hl.node ((l.nodes addr).step_serverAddr (env, e))
      (ClientNode.step_stray ha hkey hl.tidy hstray))
  | deliver addr env =>
    obtain ⟨ha, hkey, hlisten⟩ := hfair
    simp only [lanStep]
    cases hflight : l.flight addr with
    | nil => exact h
    | cons wire rest =>
      exact h.update ((h.link addr).deliver h.sound.numbered hflight ha hkey hlisten)
  | lose addr =>
    simp only [lanStep]
    cases hflight : l.flight addr with
    | nil => exact h
    | cons wire rest =>
      have hupdate := h.update ((h.link addr).lose hflight (fun hp => (hk hp).1) fun hp => (hk hp).2)
      rw [Function.update_eq_self] at hupdate
      exact hupdate

/-- The runs that keep to the conditions if `p`, and all runs otherwise. -/
def LanReachable (p q : Prop) (aead : Aead) (key : Bytes) : Lan → Prop :=
  Trace.Reachable lanStep (fun l e => lanFair aead key l e ∧ (p → l.Keeps q e))
    fun l => ∃ hubAddr, l = .start hubAddr

theorem calls_le_lanStep (l : Lan) (e : LanEvent) : l.hub.io.calls ≤ (lanStep l e).hub.io.calls := by
  cases e with
  | hub e => exact calls_le_hubStep l.hub e
  | deliver addr env =>
    simp only [lanStep]
    split <;> exact le_rfl
  | lose addr =>
    simp only [lanStep]
    split <;> exact le_rfl
  | _ => exact le_rfl

theorem LanReachable.linked (h : LanReachable p q aead key l) (hc : l.hub.io.calls < 2 ^ 63) :
    l.Linked p q aead key := by
  refine Trace.Reachable.invariant
    (P := fun l => l.hub.io.calls < 2 ^ 63 → l.Linked p q aead key) h ?_ ?_ hc
  · rintro l ⟨hubAddr, rfl⟩ -
    exact Lan.linked_start hubAddr
  · intro l e hok hl hc
    exact (hl (lt_of_le_of_lt (calls_le_lanStep l e) hc)).step hok.1 hok.2 hc

/-- At a quiet moment the table of a registered client is the server's. -/
theorem Lan.Linked.agrees (h : l.Linked p q aead key) (hp : p) (hquiet : l.Quiet) {addr : SockAddr}
    (hact : l.hub.srv.ActiveAt addr) (hrun : (l.nodes addr).phase = .running) :
    (l.nodes addr).cli.lookup = l.hub.srv.others addr :=
  (h.link addr).agrees hp hquiet.idle (hquiet.flight addr) hact hrun

end Network

end Tund
