import Tund.Server.Threads

/-!
# What the threads still have to tell

`Hub.tells h t addr` are the notes that thread `t` has yet to send to `addr`, and
`Hub.prints h t` what it has yet to print.  `Hub.Sound` is the invariant of the server
that makes them come out: buffers hold the messages they should, and every message fits.
Then an act moves the head of `tells` to the end of what was sent (`Hub.Sound.act_tells`).
-/

namespace Tund

open Replica

/-- The notes that a thread has yet to send to `addr`. -/
def Hub.tells (h : Hub) (t : ThreadId) (addr : SockAddr) : List Note :=
  notesFor addr (h.threads t).msg (h.threads t).acts

/-- What a thread has yet to print. -/
def Hub.prints (h : Hub) (t : ThreadId) : List (Op UInt32 HostPeer) :=
  printsOf (h.threads t).acts

/-- What a step of the server sends to `addr`. -/
def HubEvent.notes (h : Hub) (addr : SockAddr) : HubEvent → List Note
  | .act _ t =>
    match (h.threads t).acts with
    | [] => []
    | a :: _ => a.notes addr (h.threads t).msg
  | _ => []

/-- The addresses that a note brings up are in the pool. -/
def Note.Pooled (n : Note) : Prop := ∀ k v, Op.put k v ∈ n.ops → InPool k

/-- The note only takes addresses away. -/
def Note.Drops (n : Note) : Prop := ∀ op ∈ n.ops, ∃ k, op = Op.drop k

/-- The clock, the random bytes and the send results of a step. -/
def HubEvent.env : HubEvent → Env
  | .receive env _ _ => env
  | .dispatch env => env
  | .sweep env => env
  | .tun env _ => env
  | .act env _ => env

/-- The hosts have the AEAD and the key and their outside calls work; packets of the TUN device fit
their buffer. -/
structure HubOk (aead : Aead) (key : Bytes) (e : HubEvent) : Prop where
  aead : e.env.aead = aead
  key : e.env.key = key
  random : e.env.RandomWorks
  send : e.env.SendWorks
  tun : ∀ env pkt, e = .tun env pkt → pkt.length ≤ tundMaxPlaintext

/-- The server and its threads are in order. -/
structure Hub.Sound (h : Hub) : Prop where
  wellFormed : h.srv.WellFormed
  numbered : h.io.Numbered
  accepted : ∀ f src, h.accepted = some (f, src) →
    f.payload.length ≤ tundMaxPlaintext ∧ f.sequence ≠ 0 ∧ h.rests .receive = true
  loaded : ∀ t, (h.threads t).box.Loaded (h.threads t).msg
  fits : ∀ t, ∀ a ∈ (h.threads t).acts, a.Fits
  pooled : ∀ t addr, ∀ note ∈ h.tells t addr, note.Pooled
  timeout : ∀ addr, ∀ note ∈ h.tells .timeout addr, note.Drops
  timeoutPrints : ∀ op ∈ h.prints .timeout, ∃ k, op = Op.drop k
  tun : ∀ addr, ∀ note ∈ h.tells .tun addr, note.ops = []
  tunPrints : h.prints .tun = []

theorem Hub.sound_start : Hub.start.Sound where
  wellFormed := wellFormed_init
  numbered := Proc.numbered_start
  accepted := nofun
  loaded _ := Outbox.loaded_fresh
  fits := nofun
  pooled := nofun
  timeout := nofun
  timeoutPrints := nofun
  tun := nofun
  tunPrints := rfl

/-! ### Acts -/

section Act

variable {h : Hub} {env : Env} {t : ThreadId} {a : Act} {acts : List Act}

theorem doAct_threads_self (h : Hub) (env : Env) (t : ThreadId) (a : Act) (acts : List Act) :
    (h.doAct env t a acts).threads t =
      ⟨(a.exec env ⟨h.srv, h.io, (h.threads t).box⟩).box, a.load (h.threads t).msg, acts⟩ := by
  simp [Hub.doAct]

theorem doAct_threads_of_ne {t' : ThreadId} (ht : t' ≠ t) :
    (h.doAct env t a acts).threads t' = h.threads t' := by
  simp [Hub.doAct, ht]

theorem tells_doAct (hacts : (h.threads t).acts = a :: acts) (addr : SockAddr) :
    h.tells t addr = a.notes addr (h.threads t).msg ++ (h.doAct env t a acts).tells t addr := by
  rw [Hub.tells, Hub.tells, doAct_threads_self, hacts]
  rfl

theorem tells_doAct_of_ne {t' : ThreadId} (ht : t' ≠ t) (addr : SockAddr) :
    (h.doAct env t a acts).tells t' addr = h.tells t' addr := by
  rw [Hub.tells, Hub.tells, doAct_threads_of_ne ht]

theorem prints_doAct (hacts : (h.threads t).acts = a :: acts) :
    h.prints t = a.prints ++ (h.doAct env t a acts).prints t := by
  rw [Hub.prints, Hub.prints, doAct_threads_self, hacts]
  rfl

theorem prints_doAct_of_ne {t' : ThreadId} (ht : t' ≠ t) :
    (h.doAct env t a acts).prints t' = h.prints t' := by
  rw [Hub.prints, Hub.prints, doAct_threads_of_ne ht]

theorem mem_tells_of_doAct (hacts : (h.threads t).acts = a :: acts) {t' : ThreadId}
    {addr : SockAddr} {note : Note} (hn : note ∈ (h.doAct env t a acts).tells t' addr) :
    note ∈ h.tells t' addr := by
  by_cases ht : t' = t
  · subst ht
    rw [tells_doAct hacts addr]
    exact List.mem_append_right _ hn
  · rwa [tells_doAct_of_ne ht] at hn

theorem mem_prints_of_doAct (hacts : (h.threads t).acts = a :: acts) {t' : ThreadId}
    {op : Op UInt32 HostPeer} (hop : op ∈ (h.doAct env t a acts).prints t') :
    op ∈ h.prints t' := by
  by_cases ht : t' = t
  · subst ht
    rw [prints_doAct hacts]
    exact List.mem_append_right _ hop
  · rwa [prints_doAct_of_ne ht] at hop

/-- An act sends what the thread was to tell next. -/
theorem Hub.Sound.act_tells (hs : h.Sound) (hr : env.RandomWorks) (hw : env.SendWorks)
    (hacts : (h.threads t).acts = a :: acts) (addr : SockAddr) :
    ∃ ws, (h.doAct env t a acts).io.sentTo addr = h.io.sentTo addr ++ ws ∧
      List.Forall₂ (Shows env.aead env.key) ws (a.notes addr (h.threads t).msg) :=
  (Act.exec_notes hr hw (hs.loaded t) (hs.fits t a (by rw [hacts]; simp))).2 addr

theorem Hub.Sound.doAct (hs : h.Sound) (hr : env.RandomWorks) (hw : env.SendWorks)
    (hacts : (h.threads t).acts = a :: acts) (hc : (h.doAct env t a acts).io.calls < 2 ^ 63) :
    (h.doAct env t a acts).Sound where
  wellFormed := hs.wellFormed.sameButBytesOut (a.exec_same env ⟨h.srv, h.io, (h.threads t).box⟩)
  numbered := hs.numbered.move (a.exec_move env ⟨h.srv, h.io, (h.threads t).box⟩) hc
  accepted f src hacc := by
    obtain ⟨hlen, hseq, hrest⟩ := hs.accepted f src hacc
    refine ⟨hlen, hseq, ?_⟩
    by_cases ht : ThreadId.receive = t
    · subst ht
      rw [Hub.rests, hacts] at hrest
      cases hrest
    · rw [Hub.rests, doAct_threads_of_ne ht]
      exact hrest
  loaded t' := by
    by_cases ht : t' = t
    · subst ht
      rw [doAct_threads_self]
      exact (Act.exec_notes hr hw (hs.loaded t') (hs.fits t' a (by rw [hacts]; simp))).1
    · rw [doAct_threads_of_ne ht]
      exact hs.loaded t'
  fits t' b hb := by
    by_cases ht : t' = t
    · subst ht
      rw [doAct_threads_self] at hb
      exact hs.fits t' b (by rw [hacts]; exact List.mem_cons_of_mem _ hb)
    · rw [doAct_threads_of_ne ht] at hb
      exact hs.fits t' b hb
  pooled t' addr note hn := hs.pooled t' addr note (mem_tells_of_doAct hacts hn)
  timeout addr note hn := hs.timeout addr note (mem_tells_of_doAct hacts hn)
  timeoutPrints op hop := hs.timeoutPrints op (mem_prints_of_doAct hacts hop)
  tun addr note hn := hs.tun addr note (mem_tells_of_doAct hacts hn)
  tunPrints := List.eq_nil_iff_forall_not_mem.2 fun op hop => by
    have hmem := mem_prints_of_doAct hacts hop
    rw [hs.tunPrints] at hmem
    cases hmem

end Act

/-! ### Packets -/

section Broadcast

variable {srv : Server} {excludeIdx : Option Slot} {addr : SockAddr}

theorem mem_broadcast_realAddr :
    addr ∈ (serverSnapshotBroadcastLocked srv excludeIdx).map ServerPeerSnapshot.realAddr ↔
      ∃ i, (srv.peers i).active = true ∧ excludeIdx ≠ some i ∧ (srv.peers i).realAddr = addr := by
  rw [serverSnapshotBroadcastLocked, List.map_map, List.mem_map]
  constructor
  · rintro ⟨i, hi, rfl⟩
    exact ⟨i, (mem_activeExcept.1 hi).1, (mem_activeExcept.1 hi).2, rfl⟩
  · rintro ⟨i, hact, hex, rfl⟩
    exact ⟨i, mem_activeExcept.2 ⟨hact, hex⟩, rfl⟩

theorem Server.WellFormed.nodup_broadcast (h : srv.WellFormed) (excludeIdx : Option Slot) :
    ((serverSnapshotBroadcastLocked srv excludeIdx).map ServerPeerSnapshot.realAddr).Nodup := by
  rw [serverSnapshotBroadcastLocked, List.map_map]
  refine (nodup_activeExcept srv excludeIdx).map_on fun i hi j hj heq => ?_
  have heq : (srv.peers i).realAddr = (srv.peers j).realAddr := heq
  exact h.endpoint_inj i j (mem_activeExcept.1 hi).1 (mem_activeExcept.1 hj).1
    (by rw [heq]) (by rw [heq])

theorem Server.WellFormed.nodup_broadcast_virtIp (h : srv.WellFormed) (excludeIdx : Option Slot) :
    ((serverSnapshotBroadcastLocked srv excludeIdx).map ServerPeerSnapshot.virtIp).Nodup := by
  rw [serverSnapshotBroadcastLocked, List.map_map]
  refine (nodup_activeExcept srv excludeIdx).map_on fun i hi j hj heq => ?_
  exact h.virtIp_inj i j (mem_activeExcept.1 hi).1 (mem_activeExcept.1 hj).1 heq

theorem shortName_cName (p : Peer) : shortName p.cName = p.cName := by
  rw [show p.cName = shortName p.name.1 from rfl, shortName_shortName]

/-- A complete PEER_LIST is the table without its receiver. -/
theorem Server.WellFormed.run_peerList (h : srv.WellFormed) {i : Slot}
    (hact : (srv.peers i).active = true) (haddr : (srv.peers i).realAddr = addr)
    (hfit : (serverSnapshotBroadcastLocked srv (some i)).length ≤ tundPeerListMax) :
    run (fun _ => none) (Msg.peerList ((serverSnapshotBroadcastLocked srv (some i)).map
      ServerPeerSnapshot.entry)).note.ops = srv.others addr := by
  -- the rows, as pairs of address and name
  set rows := (serverSnapshotBroadcastLocked srv (some i)).map fun s => (s.virtIp, s.name) with hrows
  have hnote : (Msg.peerList ((serverSnapshotBroadcastLocked srv (some i)).map
      ServerPeerSnapshot.entry)).note.ops = rows.map fun p => .put p.1 p.2 := by
    rw [Msg.note, Note.ops_news, List.take_of_length_le (by rw [List.length_map]; exact hfit), hrows,
      List.map_map, List.map_map]
    apply List.map_congr_left
    intro s hs
    obtain ⟨j, -, rfl⟩ := List.mem_map.1 hs
    simp only [Function.comp_apply, ServerPeerSnapshot.entry, serverSnapshotPeerLocked,
      shortName_cName]
  have hkeys : rows.map Prod.fst =
      (serverSnapshotBroadcastLocked srv (some i)).map ServerPeerSnapshot.virtIp := by
    rw [hrows, List.map_map]
    rfl
  have hnodup : (rows.map Prod.fst).Nodup := hkeys ▸ h.nodup_broadcast_virtIp (some i)
  -- being another peer is being in another slot
  have hother : ∀ j, (srv.peers j).active = true → ((srv.peers j).realAddr ≠ addr ↔ some i ≠ some j) := by
    intro j hj
    rw [not_iff_not, Option.some.injEq]
    constructor
    · intro heq
      exact h.endpoint_inj i j hact hj (by rw [heq, haddr]) (by rw [heq, haddr])
    · intro heq
      rw [← heq, haddr]
  rw [hnote]
  funext v
  obtain ⟨hmem, hnot⟩ := run_puts hnodup (fun _ => none) v
  cases hv : srv.others addr v with
  | some name =>
    obtain ⟨j, hj, hvip, hskip, hname⟩ := h.listing_eq_some_iff.1 hv
    apply hmem
    refine List.mem_map.2 ⟨serverSnapshotPeerLocked srv j, List.mem_map.2 ⟨j, ?_, rfl⟩, ?_⟩
    · exact mem_activeExcept.2 ⟨hj, (hother j hj).1 (by simpa using hskip)⟩
    · simp only [serverSnapshotPeerLocked, hvip, hname]
  | none =>
    apply hnot
    rw [hkeys]
    intro hin
    obtain ⟨s, hs, hsv⟩ := List.mem_map.1 hin
    obtain ⟨j, hj, rfl⟩ := List.mem_map.1 hs
    obtain ⟨hjact, hjne⟩ := mem_activeExcept.1 hj
    have hsome : srv.others addr v = some (srv.peers j).cName :=
      h.listing_eq_some_iff.2 ⟨j, hjact, hsv, by simpa using (hother j hjact).2 hjne, rfl⟩
    rw [hv] at hsome
    cases hsome

end Broadcast

section Packet

variable {env : Env} {srv : Server} {src : SockAddr} {f : Frame} {r : Server × List Act}

theorem Handled.wellFormed (hh : Handled env srv src f r) (h : srv.WellFormed) (hseq : f.sequence ≠ 0) :
    r.1.WellFormed := by
  cases hh with
  | quiet hcount hstay hbuild hprints hprobe => exact h.of_refreshes hcount hstay
  | join i htype hnew hi hvip p hp =>
    subst hp
    exact h.join hseq hnew hi hvip
  | leave i hi => exact h.leave (active_of_find hi)

theorem realAddr_ne_of_find_none (hnew : serverFindPeerByAddr srv src = none) {j : Slot}
    (hj : (srv.peers j).active = true) : (srv.peers j).realAddr ≠ src := by
  intro heq
  have hat := find_eq_none_iff.1 hnew j
  rw [Peer.isAt_iff.2 ⟨hj, by rw [heq], by rw [heq]⟩] at hat
  cases hat

theorem activeAt_of_join {i : Slot} {p : Peer} {addr : SockAddr} (haddr : p.realAddr ≠ addr) :
    (srv.join i p).ActiveAt addr → (srv.peers i).active = false → srv.ActiveAt addr := by
  rintro ⟨j, hj, hja⟩ -
  rw [join_peers] at hj hja
  split_ifs at hj hja
  · exact absurd hja haddr
  · exact ⟨j, hj, hja⟩

/-- **Packets and the others.**  A peer that is active after a packet was active before, and is
told exactly what changed; or it is the sender and has just registered, and is told everything if
all rows fit into one PEER_LIST. -/
theorem Handled.news (hh : Handled env srv src f r) (h : srv.WellFormed) (hseq : f.sequence ≠ 0)
    {addr : SockAddr} (hact : r.1.ActiveAt addr) :
    (srv.ActiveAt addr ∧
      r.1.others addr = run (srv.others addr) ((notesFor addr none r.2).flatMap Note.ops)) ∨
    (f.type = MsgType.register.code ∧ serverFindPeerByAddr srv src = none ∧ addr = src ∧
      ∃ list : Note, list ≠ .assign ∧
      notesFor addr none r.2 = [.assign, list] ∧
      (SlotTable.count (fun i => (srv.peers i).active) ≤ tundPeerListMax →
        run (fun _ => none) list.ops = r.1.others addr)) := by
  have hwf := hh.wellFormed h hseq
  cases hh with
  | @quiet srv' acts hcount hstay hbuild hprints hprobe =>
    refine .inl ⟨?_, ?_⟩
    · obtain ⟨i, hi, hia⟩ := hact
      exact ⟨i, by rw [← (hstay i).active]; exact hi, by rw [← (hstay i).realAddr]; exact hia⟩
    · have hnone : (notesFor addr none acts).flatMap Note.ops = [] :=
        List.flatMap_eq_nil_iff.2 (notesFor_quiet (by simp) hbuild)
      rw [hnone]
      exact listing_refreshes (stable_others addr) hstay
  | join i htype hnew hi hvip p hp =>
    have hfree := not_active_of_free hi
    have hpact : p.active = true := by rw [hp]; rfl
    have hpaddr : p.realAddr = src := by rw [hp]; rfl
    have hself : (srv.join i p).peers i = p := by rw [join_peers, if_pos rfl]
    have hnotes : notesFor addr none
        (joinActs p (serverSnapshotBroadcastLocked (srv.join i p) (some i))) = _ :=
      notesFor_joinActs p (hwf.nodup_broadcast (some i))
    by_cases haddr : addr = src
    · subst haddr
      refine .inr ⟨htype, hnew, rfl, ?_⟩
      have hnot : addr ∉ (serverSnapshotBroadcastLocked (srv.join i p) (some i)).map
          ServerPeerSnapshot.realAddr := by
        rw [mem_broadcast_realAddr]
        rintro ⟨j, hj, hne, hja⟩
        have hji : j ≠ i := fun heq => hne (by rw [heq])
        rw [join_peers, if_neg hji] at hj hja
        exact realAddr_ne_of_find_none hnew hj hja
      rw [if_pos hpaddr, if_neg hnot, List.append_nil] at hnotes
      refine ⟨_, by simp [Msg.note], hnotes, fun hcount => ?_⟩
      refine hwf.run_peerList (by rw [hself]; exact hpact) (by rw [hself]; exact hpaddr) ?_
      -- the others are the peers that were active before
      have hlen : (serverSnapshotBroadcastLocked (srv.join i p) (some i)).length =
          SlotTable.count fun i => (srv.peers i).active := by
        rw [serverSnapshotBroadcastLocked, List.length_map]
        apply SlotTable.count_congr
        intro j
        rw [join_peers]
        by_cases hj : j = i
        · subst hj
          simp [hfree]
        · have hne : some i ≠ some j := fun heq => hj (Option.some.inj heq).symm
          simp [hj, hne]
      rw [hlen]
      exact hcount
    · have hne : p.realAddr ≠ addr := fun heq => haddr (heq.symm.trans hpaddr)
      have hold := activeAt_of_join hne hact hfree
      have hin : addr ∈ (serverSnapshotBroadcastLocked (srv.join i p) (some i)).map
          ServerPeerSnapshot.realAddr := by
        rw [mem_broadcast_realAddr]
        obtain ⟨j, hj, hja⟩ := hact
        refine ⟨j, hj, fun heq => ?_, hja⟩
        rw [← Option.some.inj heq, hself] at hja
        exact hne hja
      refine .inl ⟨hold, ?_⟩
      rw [hnotes, if_neg hne, if_pos hin, Server.others, hwf.listing_join hpact hfree]
      funext v
      simp only [hne, decide_false, Bool.false_eq_true, if_false, List.nil_append, List.flatMap_cons,
        List.flatMap_nil, List.append_nil, Msg.note, Note.ops_news, shortName_cName, run_cons,
        run_nil, Op.apply]
      rfl
  | leave i hi =>
    have hacti := active_of_find hi
    have hold : srv.ActiveAt addr := by
      obtain ⟨j, hj, hja⟩ := hact
      obtain ⟨hj', -, heq⟩ := of_leave_active hj
      exact ⟨j, hj', by rw [← heq]; exact hja⟩
    have hin : addr ∈ (serverSnapshotBroadcastLocked (srv.leave i) none).map
        ServerPeerSnapshot.realAddr := by
      rw [mem_broadcast_realAddr]
      obtain ⟨j, hj, hja⟩ := hact
      exact ⟨j, hj, by simp, hja⟩
    refine .inl ⟨hold, ?_⟩
    rw [notesFor_append, notesFor_leaveActs _ (hwf.nodup_broadcast none), if_pos hin, Server.others,
      h.listing_leave hacti]
    funext v
    simp [notesFor, Act.notes, Op.apply]
    rfl

/-- **Packets and the GUI.**  What is printed is exactly what changed. -/
theorem Handled.printed (hh : Handled env srv src f r) (h : srv.WellFormed) (hseq : f.sequence ≠ 0) :
    r.1.hosts = run srv.hosts (printsOf r.2) := by
  have hwf := hh.wellFormed h hseq
  cases hh with
  | @quiet srv' acts hcount hstay hbuild hprints hprobe =>
    have hnone : printsOf acts = [] := by
      rw [printsOf, List.flatMap_eq_nil_iff]
      intro a ha
      cases a with
      | event e => exact absurd ha (hprints e)
      | _ => rfl
    rw [hnone]
    exact listing_refreshes stable_hosts hstay
  | join i htype hnew hi hvip p hp =>
    have hpact : p.active = true := by rw [hp]; rfl
    have hprints : printsOf (joinActs p (serverSnapshotBroadcastLocked (srv.join i p) (some i))) =
        [.put p.virtIp ⟨p.cName, p.realAddr⟩] := by
      simp [printsOf, joinActs, assignActs, Act.prints, Event.op]
    rw [hprints, Server.hosts, hwf.listing_join hpact (not_active_of_free hi)]
    funext v
    simp [Op.apply]
    rfl
  | leave i hi =>
    have hprints : printsOf (leaveActs (srv.peers i).virtIp
        (serverSnapshotBroadcastLocked (srv.leave i) none) ++
        [.event (.peerLeave (srv.peers i).virtIp .disconnect)]) = [.drop (srv.peers i).virtIp] := by
      simp [printsOf, leaveActs, Act.prints, Event.op]
    rw [hprints, Server.hosts, h.listing_leave (active_of_find hi)]
    funext v
    simp [Op.apply]
    rfl

/-- Only a new entry is announced. -/
theorem Handled.drops_or_new (hh : Handled env srv src f r) (h : srv.WellFormed)
    (hseq : f.sequence ≠ 0) (addr : SockAddr) :
    (∀ note ∈ notesFor addr none r.2, note.Drops) ∨
    f.type = MsgType.register.code ∧ serverFindPeerByAddr srv src = none := by
  have hwf := hh.wellFormed h hseq
  cases hh with
  | @quiet srv' acts hcount hstay hbuild hprints hprobe =>
    left
    intro note hnote op hop
    rw [notesFor_quiet (by simp) hbuild note hnote] at hop
    cases hop
  | join i htype hnew hi hvip p hp => exact .inr ⟨htype, hnew⟩
  | leave i hi =>
    left
    rw [notesFor_append, notesFor_leaveActs _ (hwf.nodup_broadcast none)]
    intro note hnote op hop
    rcases List.mem_append.1 hnote with hnote | hnote
    · split_ifs at hnote
      · rw [List.mem_singleton.1 hnote] at hop
        exact ⟨_, List.mem_singleton.1 hop⟩
      · cases hnote
    · simp [notesFor, Act.notes] at hnote

/-- The addresses in what is said about a packet are in the pool. -/
theorem Handled.pooled (hh : Handled env srv src f r) (h : srv.WellFormed) (hseq : f.sequence ≠ 0)
    (addr : SockAddr) : ∀ note ∈ notesFor addr none r.2, note.Pooled := by
  have hwf := hh.wellFormed h hseq
  cases hh with
  | @quiet srv' acts hcount hstay hbuild hprints hprobe =>
    intro note hnote k v hput
    rw [notesFor_quiet (by simp) hbuild note hnote] at hput
    cases hput
  | join i htype hnew hi hvip p hp =>
    have hpact : p.active = true := by rw [hp]; rfl
    have hpool : InPool p.virtIp := by
      have := hwf.pool i
      rw [join_peers, if_pos rfl] at this
      exact this hpact
    rw [notesFor_joinActs p (hwf.nodup_broadcast (some i))]
    intro note hnote k v hput
    rcases List.mem_append.1 hnote with hnote | hnote
    · split_ifs at hnote
      · rcases List.mem_cons.1 hnote with rfl | hnote
        · cases hput
        · rw [List.mem_singleton.1 hnote] at hput
          obtain ⟨e, he, heq⟩ := List.mem_map.1 hput
          obtain ⟨s, hs, rfl⟩ := List.mem_map.1 (List.mem_of_mem_take he)
          obtain ⟨j, hj, rfl⟩ := List.mem_map.1 hs
          cases heq
          exact hwf.pool j (mem_activeExcept.1 hj).1
      · cases hnote
    · split_ifs at hnote
      · rw [List.mem_singleton.1 hnote] at hput
        rw [Msg.note, Note.ops_news, List.mem_singleton] at hput
        cases hput
        exact hpool
      · cases hnote
  | leave i hi =>
    rw [notesFor_append, notesFor_leaveActs _ (hwf.nodup_broadcast none)]
    intro note hnote k v hput
    rcases List.mem_append.1 hnote with hnote | hnote
    · split_ifs at hnote
      · rw [List.mem_singleton.1 hnote] at hput
        simp at hput
      · cases hnote
    · simp [notesFor, Act.notes] at hnote

end Packet

/-! ### Sweeps -/

section Sweep

variable {addr : SockAddr} {cur : Option Msg}

theorem notesFor_probes (box : Outbox) (ps : List ServerPeerSnapshot) :
    ∀ note ∈ notesFor addr cur (ps.map fun s => .probe box s.realAddr), note = .news [] := by
  induction ps with
  | nil => simp [notesFor]
  | cons p ps ih =>
    intro note hnote
    rcases List.mem_append.1 hnote with hnote | hnote
    · simp only [Act.notes] at hnote
      split_ifs at hnote
      · exact List.mem_singleton.1 hnote
      · cases hnote
    · exact ih note hnote

/-- The PEER_LEAVEs of a sweep. -/
theorem notesFor_leaves {peers : List ServerPeerSnapshot}
    (hnodup : (peers.map ServerPeerSnapshot.realAddr).Nodup) (ts : List ServerPeerSnapshot) :
    notesFor addr cur (ts.flatMap fun s =>
        .event (.peerLeave s.virtIp .timeout) :: leaveActs s.virtIp peers) =
      if addr ∈ peers.map ServerPeerSnapshot.realAddr then
        ts.map fun s => .news [.drop s.virtIp] else [] := by
  induction ts generalizing cur with
  | nil => simp [notesFor]
  | cons s ts ih =>
    rw [List.flatMap_cons, List.cons_append, notesFor, notesFor_append, ih,
      notesFor_leaveActs s.virtIp hnodup]
    split_ifs <;> simp [Act.notes]

theorem printsOf_leaves (peers ts : List ServerPeerSnapshot) :
    printsOf (ts.flatMap fun s =>
        .event (.peerLeave s.virtIp .timeout) :: leaveActs s.virtIp peers) =
      ts.map fun s => .drop s.virtIp := by
  induction ts with
  | nil => rfl
  | cons s ts ih =>
    have hhead : printsOf (.event (.peerLeave s.virtIp .timeout) :: leaveActs s.virtIp peers) =
        [.drop s.virtIp] := by
      simp [printsOf, leaveActs, Act.prints, Event.op]
    rw [List.flatMap_cons, printsOf, List.flatMap_append, ← printsOf, ← printsOf, hhead, ih]
    rfl

/-- **Sweeps.**  The entries `ks` leave the table, and exactly their departure is said to the peers
that stay and to the GUI. -/
theorem Server.WellFormed.sweep_news {srv : Server} (h : srv.WellFormed) (env : Env) (box : Outbox) :
    ∃ ks : List UInt32, printsOf (serverSweepLocked env srv box).2 = ks.map .drop ∧
      (∀ {ν : Type} (skip : Peer → Bool) (f : Peer → ν) (v : UInt32),
        (serverSweepLocked env srv box).1.listing skip f v =
          if v ∈ ks then none else srv.listing skip f v) ∧
      ∀ addr, (∀ note ∈ notesFor addr none (serverSweepLocked env srv box).2, note.Drops) ∧
        ((serverSweepLocked env srv box).1.ActiveAt addr → srv.ActiveAt addr ∧
          (notesFor addr none (serverSweepLocked env srv box).2).flatMap Note.ops =
            ks.map .drop) := by
  have hswept := h.swept env.time (List.finRange tundMaxPeers)
  unfold serverSweepLocked
  rcases hfold : (List.finRange tundMaxPeers).foldl (sweepSlot env.time) (srv, [], []) with
    ⟨srv', timedOut, keepalive⟩
  rw [hfold] at hswept
  simp only
  set peers := if timedOut = [] then [] else serverSnapshotBroadcastLocked srv' none with hpeers
  have hnodup : (peers.map ServerPeerSnapshot.realAddr).Nodup := by
    rw [hpeers]
    split_ifs
    · exact List.nodup_nil
    · exact hswept.wellFormed.nodup_broadcast none
  have hprobes : printsOf (keepalive.map fun s => Act.probe box s.realAddr) = [] := by
    simp [printsOf, Act.prints]
  have hnotes : ∀ addr, ∃ cur, notesFor addr none ((timedOut.flatMap fun s =>
        .event (.peerLeave s.virtIp .timeout) :: leaveActs s.virtIp peers) ++
        keepalive.map fun s => .probe box s.realAddr) =
      (if addr ∈ peers.map ServerPeerSnapshot.realAddr then
        timedOut.map fun s => .news [.drop s.virtIp] else []) ++
      notesFor addr cur (keepalive.map fun s => .probe box s.realAddr) := fun addr =>
    ⟨_, by rw [notesFor_append, notesFor_leaves hnodup]⟩
  refine ⟨timedOut.map ServerPeerSnapshot.virtIp, ?_, hswept.listing, fun addr => ?_⟩
  · rw [printsOf, List.flatMap_append, ← printsOf, ← printsOf, printsOf_leaves, hprobes,
      List.append_nil, List.map_map]
    rfl
  obtain ⟨cur, hnotes⟩ := hnotes addr
  rw [hnotes]
  refine ⟨fun note hnote => ?_, fun hact => ⟨?_, ?_⟩⟩
  · rcases List.mem_append.1 hnote with hnote | hnote
    · split_ifs at hnote
      · obtain ⟨s, -, rfl⟩ := List.mem_map.1 hnote
        intro op hop
        exact ⟨s.virtIp, List.mem_singleton.1 hop⟩
      · cases hnote
    · rw [notesFor_probes box keepalive note hnote]
      intro op hop
      cases hop
  · obtain ⟨i, hi, hia⟩ := hact
    have hkept := hswept.kept i hi
    simp only at hkept
    exact ⟨i, by rw [← hkept]; exact hi, by rw [← hkept]; exact hia⟩
  · have hquiet : (notesFor addr cur (keepalive.map fun s => .probe box s.realAddr)).flatMap
        Note.ops = [] := by
      rw [List.flatMap_eq_nil_iff]
      intro note hnote
      rw [notesFor_probes box keepalive note hnote]
      rfl
    rw [List.flatMap_append, hquiet, List.append_nil, List.map_map]
    -- a peer that is active after the sweep is among those that are told
    cases timedOut with
    | nil => simp
    | cons s ts =>
      have hin : addr ∈ peers.map ServerPeerSnapshot.realAddr := by
        rw [hpeers, if_neg (by simp), mem_broadcast_realAddr]
        obtain ⟨i, hi, hia⟩ := hact
        exact ⟨i, hi, by simp, hia⟩
      rw [if_pos hin, List.flatMap_map]
      exact List.map_eq_flatMap.symm

theorem fits_serverSweepLocked (env : Env) (srv : Server) {box : Outbox} {m : Msg}
    (hm : m.note = .news []) (hbox : box.Loaded (some m)) :
    ∀ a ∈ (serverSweepLocked env srv box).2, a.Fits := by
  unfold serverSweepLocked
  rcases (List.finRange tundMaxPeers).foldl (sweepSlot env.time) (srv, [], []) with
    ⟨srv', timedOut, keepalive⟩
  intro a ha
  rcases List.mem_append.1 ha with ha | ha
  · obtain ⟨s, -, ha⟩ := List.mem_flatMap.1 ha
    simp only [leaveActs, List.mem_cons, List.mem_map] at ha
    rcases ha with rfl | rfl | ⟨p, -, rfl⟩
    · trivial
    · exact Msg.length_payload_le fun h => by cases h
    · trivial
  · obtain ⟨p, -, rfl⟩ := List.mem_map.1 ha
    exact ⟨m, hm, hbox⟩

end Sweep

/-! ### Steps of the server -/

section Step

variable {h : Hub}

theorem begin_threads_self (h : Hub) (t : ThreadId) (srv : Server) (acts : List Act) :
    (h.begin t srv acts).threads t = .begin acts := by
  simp [Hub.begin]

theorem begin_threads_of_ne {t t' : ThreadId} {srv : Server} {acts : List Act} (ht : t' ≠ t) :
    (h.begin t srv acts).threads t' = h.threads t' := by
  simp [Hub.begin, ht]

theorem tells_begin_self (h : Hub) (t : ThreadId) (srv : Server) (acts : List Act)
    (addr : SockAddr) : (h.begin t srv acts).tells t addr = notesFor addr none acts := by
  rw [Hub.tells, begin_threads_self]
  rfl

theorem tells_begin_of_ne {t t' : ThreadId} {srv : Server} {acts : List Act} (ht : t' ≠ t)
    (addr : SockAddr) : (h.begin t srv acts).tells t' addr = h.tells t' addr := by
  rw [Hub.tells, Hub.tells, begin_threads_of_ne ht]

theorem prints_begin_self (h : Hub) (t : ThreadId) (srv : Server) (acts : List Act) :
    (h.begin t srv acts).prints t = printsOf acts := by
  rw [Hub.prints, begin_threads_self]
  rfl

theorem prints_begin_of_ne {t t' : ThreadId} {srv : Server} {acts : List Act} (ht : t' ≠ t) :
    (h.begin t srv acts).prints t' = h.prints t' := by
  rw [Hub.prints, Hub.prints, begin_threads_of_ne ht]

theorem tells_of_rests {t : ThreadId} (hrest : h.rests t = true) (addr : SockAddr) :
    h.tells t addr = [] := by
  rw [Hub.tells, List.isEmpty_iff.1 hrest]
  rfl

theorem prints_of_rests {t : ThreadId} (hrest : h.rests t = true) : h.prints t = [] := by
  rw [Hub.prints, List.isEmpty_iff.1 hrest]
  rfl

/-- A thread that starts on acts that are in order keeps the server in order. -/
theorem Hub.Sound.begin (hs : h.Sound) {t : ThreadId} {srv : Server} {acts : List Act}
    (hacc : t = .receive → h.accepted = none) (hwf : srv.WellFormed) (hfits : ∀ a ∈ acts, a.Fits)
    (hpooled : ∀ addr, ∀ note ∈ notesFor addr none acts, note.Pooled)
    (htimeout : t = .timeout → (∀ addr, ∀ note ∈ notesFor addr none acts, note.Drops) ∧
      ∀ op ∈ printsOf acts, ∃ k, op = Op.drop k)
    (htun : t = .tun → (∀ addr, ∀ note ∈ notesFor addr none acts, note.ops = []) ∧
      printsOf acts = []) : (h.begin t srv acts).Sound where
  wellFormed := hwf
  numbered := hs.numbered
  accepted f src hsome := by
    obtain ⟨hlen, hseq, hrest⟩ := hs.accepted f src hsome
    refine ⟨hlen, hseq, ?_⟩
    by_cases ht : ThreadId.receive = t
    · have hnone : h.accepted = some (f, src) := hsome
      rw [hacc ht.symm] at hnone
      cases hnone
    · rw [Hub.rests, begin_threads_of_ne ht]
      exact hrest
  loaded t' := by
    by_cases ht : t' = t
    · subst ht
      rw [begin_threads_self]
      exact Outbox.loaded_fresh
    · rw [begin_threads_of_ne ht]
      exact hs.loaded t'
  fits t' := by
    by_cases ht : t' = t
    · subst ht
      rw [begin_threads_self]
      exact hfits
    · rw [begin_threads_of_ne ht]
      exact hs.fits t'
  pooled t' addr := by
    by_cases ht : t' = t
    · subst ht
      rw [tells_begin_self]
      exact hpooled addr
    · rw [tells_begin_of_ne ht]
      exact hs.pooled t' addr
  timeout addr := by
    by_cases ht : ThreadId.timeout = t
    · subst ht
      rw [tells_begin_self]
      exact (htimeout rfl).1 addr
    · rw [tells_begin_of_ne ht]
      exact hs.timeout addr
  timeoutPrints := by
    by_cases ht : ThreadId.timeout = t
    · subst ht
      rw [prints_begin_self]
      exact (htimeout rfl).2
    · rw [prints_begin_of_ne ht]
      exact hs.timeoutPrints
  tun addr := by
    by_cases ht : ThreadId.tun = t
    · subst ht
      rw [tells_begin_self]
      exact (htun rfl).1 addr
    · rw [tells_begin_of_ne ht]
      exact hs.tun addr
  tunPrints := by
    by_cases ht : ThreadId.tun = t
    · subst ht
      rw [prints_begin_self]
      exact (htun rfl).2
    · rw [prints_begin_of_ne ht]
      exact hs.tunPrints

/-- What a step of the server can do. -/
inductive HubMove (h : Hub) : HubEvent → Hub → Prop
  /-- The receive loop has looked at a packet, or nothing has happened. -/
  | look (e : HubEvent) (hnotes : ∀ addr, e.notes h addr = []) (srv : Server)
      (accepted : Option (Frame × SockAddr)) (hcount : srv.peerCount = h.srv.peerCount)
      (hstay : ∀ i, (h.srv.peers i).Refreshes (srv.peers i))
      (hacc : accepted = h.accepted ∨ ∃ f src, accepted = some (f, src) ∧
        f.payload.length ≤ tundMaxPlaintext ∧ f.sequence ≠ 0 ∧ h.rests .receive = true) :
      HubMove h e { h with srv := srv, accepted := accepted }
  /-- The receive loop has gone through the locked section of a handler. -/
  | handle (env : Env) (f : Frame) (src : SockAddr) (hacc : h.accepted = some (f, src)) :
      HubMove h (.dispatch env) { h.begin .receive (serverDispatchLocked env h.srv f src).1
        (serverDispatchLocked env h.srv f src).2 with accepted := none }
  /-- The timeout thread has gone through its locked section. -/
  | sweep (env : Env) (box : Outbox) (io : Proc) (hrest : h.rests .timeout = true)
      (hbuild : Outbox.build env h.io (.keepalive env.nowMs) = (box, io)) :
      HubMove h (.sweep env) { h.begin .timeout (serverSweepLocked env h.srv box).1
        (serverSweepLocked env h.srv box).2 with io := io }
  /-- The TUN thread has a packet for some peers. -/
  | relay (env : Env) (pkt : Bytes) (hrest : h.rests .tun = true)
      (hpkt : pkt.length ≤ tundMaxPlaintext) :
      HubMove h (.tun env pkt) (h.begin .tun h.srv (relayActs pkt (tunPeers h.srv pkt)))
  | act (env : Env) (t : ThreadId) (a : Act) (acts : List Act)
      (hacts : (h.threads t).acts = a :: acts) : HubMove h (.act env t) (h.doAct env t a acts)

theorem hubMove_same {e : HubEvent} (hnotes : ∀ addr, e.notes h addr = []) : HubMove h e h :=
  .look e hnotes h.srv h.accepted rfl (fun _ => .refl _) (.inl rfl)

theorem hubStep_move {e : HubEvent}
    (htun : ∀ env pkt, e = .tun env pkt → pkt.length ≤ tundMaxPlaintext) :
    HubMove h e (hubStep h e) := by
  cases e with
  | receive env wire src =>
    have hnotes : ∀ addr, (HubEvent.receive env wire src).notes h addr = [] := fun _ => rfl
    simp only [hubStep]
    split_ifs with hbusy
    · exact hubMove_same hnotes
    have hrest : h.rests .receive = true := by
      by_contra hne
      simp [hne] at hbusy
    cases hrecv : netRecv env.aead env.key wire with
    | none => exact hubMove_same hnotes
    | some buf =>
      simp only [Option.bind_some]
      cases hread : readFrame buf with
      | none => exact hubMove_same hnotes
      | some f =>
        have hf := length_payload_authentic hrecv hread
        have hseq := readFrame_sequence hread
        simp only
        split_ifs
        · rcases serverAccept_cases h.srv src f.sequence with
            ⟨-, hacc⟩ | ⟨i, -, -, hacc⟩ | ⟨i, -, htrue, hacc⟩ <;> rw [hacc]
          · exact .look _ hnotes h.srv _ rfl (fun _ => .refl _)
              (.inr ⟨f, src, rfl, hf, hseq, hrest⟩)
          · exact hubMove_same hnotes
          · exact .look _ hnotes _ _ rfl (setPeer_refreshes (Peer.refreshes_shown htrue))
              (.inr ⟨f, src, rfl, hf, hseq, hrest⟩)
        · exact .look _ hnotes h.srv _ rfl (fun _ => .refl _)
            (.inr ⟨f, src, rfl, hf, hseq, hrest⟩)
  | dispatch env =>
    simp only [hubStep]
    cases hacc : h.accepted with
    | none => exact hubMove_same fun _ => rfl
    | some p => exact .handle env p.1 p.2 hacc
  | sweep env =>
    simp only [hubStep]
    split_ifs with hbusy
    · exact hubMove_same fun _ => rfl
    · rcases hbuild : Outbox.build env h.io (.keepalive env.nowMs) with ⟨box, io⟩
      exact .sweep env box io (by simpa using hbusy) hbuild
  | tun env pkt =>
    simp only [hubStep]
    split_ifs with hbusy
    · exact hubMove_same fun _ => rfl
    · cases protoValidateIpv4Packet pkt with
      | some e => exact hubMove_same fun _ => rfl
      | none => exact .relay env pkt (by simpa using hbusy) (htun env pkt rfl)
  | act env t =>
    simp only [hubStep]
    cases hacts : (h.threads t).acts with
    | nil =>
      refine hubMove_same fun addr => ?_
      simp only [HubEvent.notes, hacts]
    | cons a acts => exact .act env t a acts hacts

theorem Built.fits {env : Env} {has : Prop} {acts : List Act} (hb : Built env has acts)
    (hprobe : ∀ box dest, .probe box dest ∉ acts) : ∀ a ∈ acts, a.Fits := by
  induction hb with
  | nil => simp
  | build hm _ ih =>
    intro a ha
    rcases List.mem_cons.1 ha with rfl | ha
    · exact hm
    · exact ih (fun box dest hmem => hprobe box dest (List.mem_cons_of_mem _ hmem)) a ha
  | probe _ _ _ => exact absurd List.mem_cons_self (hprobe _ _)
  | _ =>
    rename_i ih
    intro a ha
    rcases List.mem_cons.1 ha with rfl | ha
    · trivial
    · exact ih (fun box dest hmem => hprobe box dest (List.mem_cons_of_mem _ hmem)) a ha

theorem Handled.no_probe {srv : Server} {src : SockAddr} {f : Frame} {env : Env}
    {r : Server × List Act} (hh : Handled env srv src f r) (box : Outbox) (dest : SockAddr) :
    .probe box dest ∉ r.2 := by
  cases hh with
  | quiet hcount hstay hbuild hprints hprobe => exact hprobe box dest
  | join i htype hnew hi hvip p hp => simp [joinActs, assignActs]
  | leave i hi => simp [leaveActs]

/-- **The server stays in order.** -/
theorem Hub.Sound.move {e : HubEvent} {h' : Hub} (hs : h.Sound) (hr : e.env.RandomWorks)
    (hw : e.env.SendWorks) (hm : HubMove h e h') (hc : h'.io.calls < 2 ^ 63) : h'.Sound := by
  cases hm with
  | look e hnotes srv accepted hcount hstay hacc =>
    refine { hs with wellFormed := hs.wellFormed.of_refreshes hcount hstay, accepted := ?_ }
    intro f src hsome
    rcases hacc with hold | ⟨f', src', hnew, hprops⟩
    · exact hs.accepted f src (hold.symm.trans hsome)
    · have heq : some (f', src') = some (f, src) := hnew.symm.trans hsome
      cases heq
      exact hprops
  | handle env f src hacc =>
    obtain ⟨hlen, hseq, hrest⟩ := hs.accepted f src hacc
    have hh := serverDispatchLocked_handled env h.srv f src
    have hs' : Hub.Sound { h with accepted := none } := { hs with accepted := nofun }
    exact hs'.begin (fun _ => rfl) (hh.wellFormed hs.wellFormed hseq)
      ((built_serverDispatchLocked h.srv src hlen).fits hh.no_probe)
      (hh.pooled hs.wellFormed hseq) nofun nofun
  | sweep env box io hrest hbuild =>
    have hmove := Outbox.build_move env h.io (.keepalive env.nowMs)
    have hbox : (Outbox.build env h.io (.keepalive env.nowMs)).1.Loaded
        (some (.keepalive env.nowMs)) :=
      build_loaded (m := .keepalive env.nowMs) hr h.io Outbox.length_fresh
        (Msg.length_payload_le nofun)
    rw [hbuild] at hmove hbox
    have hs' : Hub.Sound { h with io := io } := { hs with numbered := hs.numbered.move hmove hc }
    obtain ⟨ks, hprints, -, hnotes⟩ := hs.wellFormed.sweep_news env box
    have hwf := hs.wellFormed.sweep env box
    have hfits := fits_serverSweepLocked env h.srv rfl hbox
    generalize serverSweepLocked env h.srv box = r at hprints hnotes hwf hfits
    have hdrops : ∀ addr, ∀ note ∈ notesFor addr none r.2, note.Drops := fun addr => (hnotes addr).1
    refine hs'.begin nofun hwf hfits ?_ (fun _ => ⟨hdrops, ?_⟩) nofun
    · intro addr note hnote k v hput
      obtain ⟨k', hk'⟩ := hdrops addr note hnote _ hput
      cases hk'
    · intro op hop
      rw [hprints] at hop
      obtain ⟨k, -, rfl⟩ := List.mem_map.1 hop
      exact ⟨k, rfl⟩
  | relay env pkt hrest hpkt =>
    obtain ⟨hbuild, hevent, hprobe⟩ := quiet_relayActs pkt (tunPeers h.srv pkt)
    have hquiet : ∀ addr, ∀ note ∈ notesFor addr none (relayActs pkt (tunPeers h.srv pkt)),
        note.ops = [] := fun addr => notesFor_quiet (by simp) hbuild
    have hbuilt : Built env False (relayActs pkt (tunPeers h.srv pkt)) := built_relayActs hpkt _
    refine hs.begin nofun hs.wellFormed (hbuilt.fits hprobe) ?_ nofun fun _ => ⟨hquiet, ?_⟩
    · intro addr note hnote k v hput
      rw [hquiet addr note hnote] at hput
      cases hput
    · rw [printsOf, List.flatMap_eq_nil_iff]
      intro a ha
      cases a with
      | event e => exact absurd ha (hevent e)
      | _ => rfl
  | act env t a acts hacts => exact hs.doAct hr hw hacts hc

/-- The outside calls are counted up. -/
theorem calls_le_hubStep (h : Hub) (e : HubEvent) : h.io.calls ≤ (hubStep h e).io.calls := by
  cases e with
  | receive env wire src =>
    simp only [hubStep]
    split_ifs
    · exact le_rfl
    · split
      · exact le_rfl
      · split_ifs
        · split <;> exact le_rfl
        · exact le_rfl
  | dispatch env =>
    simp only [hubStep]
    split <;> exact le_rfl
  | sweep env =>
    simp only [hubStep]
    split_ifs
    · exact le_rfl
    · exact (Outbox.build_move env h.io (.keepalive env.nowMs)).calls_le
  | tun env pkt =>
    simp only [hubStep]
    split_ifs
    · exact le_rfl
    · split <;> exact le_rfl
  | act env t =>
    simp only [hubStep]
    split
    · exact le_rfl
    · rename_i a acts hacts
      exact (a.exec_move env ⟨h.srv, h.io, (h.threads t).box⟩).calls_le

end Step

end Tund
