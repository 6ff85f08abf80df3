import Tund.Gui.HostPeer
import Tund.Lib.Replica
import Tund.Server.Numbers
import Tund.Server.Relay

/-!
# What the server tells its peers

A datagram of the server tells its receiver an address (ASSIGN) or changes of the peer
table (PEER_LIST, PEER_JOIN, PEER_LEAVE), or neither: its `Note`.  `notesFor E cur acts`
are the notes that the acts of a handler send to the endpoint `E`, when `cur` is the
message in the handler's buffer; `Act.exec_notes` says that this is what leaves the
process if every outside call works.

The other half is the table itself, read as a map: `Server.listing`, and how it moves
when an entry joins, leaves or stays.
-/

namespace Tund

open Replica

/-! ### Notes -/

/-- What a datagram of the server says to its receiver. -/
inductive Note
  | assign
  | news (ops : List (Op UInt32 Bytes))

/-- The changes that a note tells. -/
def Note.ops : Note → List (Op UInt32 Bytes)
  | .assign => []
  | .news ops => ops

@[simp] theorem Note.ops_assign : Note.assign.ops = [] := rfl

@[simp] theorem Note.ops_news (ops : List (Op UInt32 Bytes)) : (Note.news ops).ops = ops := rfl

/-- The note of a message. -/
def Msg.note : Msg → Note
  | .assign .. => .assign
  | .peerList entries =>
    .news ((entries.take tundPeerListMax).map fun e => .put e.virtIp (shortName e.name))
  | .peerJoin virtIp name => .news [.put virtIp (shortName name)]
  | .peerLeave virtIp => .news [.drop virtIp]
  | _ => .news []

/-- The wire form of a message with this note. -/
def Shows (aead : Aead) (key : Bytes) (wire : Bytes) (note : Note) : Prop :=
  ∃ m : Msg, m.note = note ∧ m.payload.length ≤ tundMaxPlaintext ∧
    ∃ seq nonce, seq ≠ 0 ∧ nonce.length = tundNonceSize ∧
      wire = wireBytes aead key m.type.code seq nonce m.payload

/-- What a process has put on the network for an address, first sent first. -/
def Proc.sentTo (io : Proc) (addr : SockAddr) : List Bytes :=
  ((datagramsOf io.out).filter fun d => d.dest = addr && d.sent).map Datagram.wire

/-- The note that an act sends to `addr` with the message `cur` in the buffer.  The probes of the
timeout thread are KEEPALIVEs. -/
def Act.notes (addr : SockAddr) (cur : Option Msg) : Act → List Note
  | .send dest => if dest = addr then (cur.map Msg.note).toList else []
  | .forward peer _ => if peer.realAddr = addr then (cur.map Msg.note).toList else []
  | .probe _ dest => if dest = addr then [.news []] else []
  | _ => []

/-- The message in the buffer after an act. -/
def Act.load (cur : Option Msg) : Act → Option Msg
  | .build m => some m
  | _ => cur

/-- The notes that a list of acts sends to `addr`. -/
def notesFor (addr : SockAddr) : Option Msg → List Act → List Note
  | _, [] => []
  | cur, a :: acts => a.notes addr cur ++ notesFor addr (a.load cur) acts

/-- The buffer holds the message `cur`, and nothing that could be sent if there is none. -/
def Outbox.Loaded (box : Outbox) : Option Msg → Prop
  | none => box.buf.length = tundMaxPkt ∧ box.len = none
  | some m => box.Ready m ∧ box.len ≠ none

/-- The message of an act fits into a datagram, and a probe holds a message without news. -/
def Act.Fits : Act → Prop
  | .build m => m.payload.length ≤ tundMaxPlaintext
  | .probe box _ => ∃ m : Msg, m.note = .news [] ∧ box.Loaded (some m)
  | _ => True

theorem Outbox.loaded_fresh : Outbox.fresh.Loaded none := ⟨Outbox.length_fresh, rfl⟩

theorem Outbox.Loaded.size {box : Outbox} {cur : Option Msg} (h : box.Loaded cur) :
    box.buf.length = tundMaxPkt := by
  cases cur with
  | none => exact h.1
  | some m => exact h.1.size

theorem sentTo_of_out {io io' : Proc} {d : Datagram} (h : io'.out = io.out ++ [.datagram d])
    (hsent : d.sent = true) (addr : SockAddr) :
    io'.sentTo addr = io.sentTo addr ++ if d.dest = addr then [d.wire] else [] := by
  unfold Proc.sentTo
  rw [h, datagramsOf_append, List.filter_append, List.map_append]
  congr 1
  by_cases hd : d.dest = addr <;> simp [datagramsOf, hd, hsent]

theorem sentTo_of_datagrams {io io' : Proc} (h : datagramsOf io'.out = datagramsOf io.out)
    (addr : SockAddr) : io'.sentTo addr = io.sentTo addr := by
  rw [Proc.sentTo, Proc.sentTo, h]

section Exec

variable {env : Env} (hr : env.RandomWorks) (hs : env.SendWorks)
include hr hs

theorem netSend_notes (io : Proc) {box : Outbox} {cur : Option Msg} (hbox : box.Loaded cur)
    (dest addr : SockAddr) :
    ∃ ws, (netSend env io box.buf box.len dest).2.sentTo addr = io.sentTo addr ++ ws ∧
      List.Forall₂ (Shows env.aead env.key) ws
        (if dest = addr then (cur.map Msg.note).toList else []) := by
  cases cur with
  | none =>
    rw [hbox.2, netSend_none]
    exact ⟨[], by simp, by split_ifs <;> exact .nil⟩
  | some m =>
    obtain ⟨seq, nonce, d, io', hseq, hn, hsend, -, hout, -, hshort, hdest, hsent, hwire⟩ :=
      send_numbered hr hs io hbox.1 hbox.2 dest
    rw [hsend]
    refine ⟨_, sentTo_of_out hout hsent addr, ?_⟩
    rw [hdest]
    split_ifs
    · exact .cons ⟨m, rfl, hshort, seq, nonce, hseq.ne_zero, hn, hwire⟩ .nil
    · exact .nil

omit hs in
theorem build_loaded (io : Proc) {buf : Bytes} (hbuf : buf.length = tundMaxPkt) {m : Msg}
    (hm : m.payload.length ≤ tundMaxPlaintext) :
    (Outbox.mk (m.build env io buf).1 (m.build env io buf).2.1).Loaded (some m) := by
  obtain ⟨-, -, -, hlen⟩ := build_numbered hr io hbuf hm
  exact ⟨build_ready env io hbuf m, hlen⟩

/-- **Acts.**  An act sends each endpoint its note, and the buffer holds what it should. -/
theorem Act.exec_notes {w : Work} {cur : Option Msg} {a : Act} (hbox : w.box.Loaded cur)
    (ha : a.Fits) :
    (a.exec env w).box.Loaded (a.load cur) ∧
    ∀ addr, ∃ ws, (a.exec env w).io.sentTo addr = w.io.sentTo addr ++ ws ∧
      List.Forall₂ (Shows env.aead env.key) ws (a.notes addr cur) := by
  have hnone : ∀ {io' : Proc}, datagramsOf io'.out = datagramsOf w.io.out → ∀ addr,
      ∃ ws, io'.sentTo addr = w.io.sentTo addr ++ ws ∧
        List.Forall₂ (Shows env.aead env.key) ws [] := fun h addr =>
    ⟨[], by rw [sentTo_of_datagrams h, List.append_nil], .nil⟩
  cases a with
  | build m =>
    refine ⟨build_loaded hr w.io hbox.size ha, hnone ?_⟩
    rw [show ((Act.build m).exec env w).io = (m.build env w.io w.box.buf).2.2 from rfl,
      (m.build_out env w.io w.box.buf).1]
  | send dest => exact ⟨hbox, netSend_notes hr hs w.io hbox dest⟩
  | probe box dest =>
    obtain ⟨m, hm, hload⟩ := ha
    refine ⟨hbox, fun addr => ?_⟩
    obtain ⟨ws, hws, hshows⟩ := netSend_notes hr hs w.io hload dest addr
    refine ⟨ws, hws, ?_⟩
    simpa [Act.notes, hm] using hshows
  | forward peer n =>
    have hsend := netSend_notes hr hs w.io hbox peer.realAddr
    simp only [Act.exec]
    rcases h : netSend env w.io w.box.buf w.box.len peer.realAddr with ⟨_ | _, io⟩ <;>
      rw [h] at hsend <;> exact ⟨hbox, hsend⟩
  | tunWrite pkt => exact ⟨hbox, hnone (by simp [Act.exec, Tund.tunWrite, datagramsOf])⟩
  | event e =>
    refine ⟨hbox, hnone ?_⟩
    simp only [Act.exec, appEvent]
    split_ifs <;> simp [datagramsOf]

end Exec

/-! ### The notes of a handler -/

section NotesFor

variable {addr : SockAddr} {cur : Option Msg}

theorem notesFor_append (as bs : List Act) :
    notesFor addr cur (as ++ bs) =
      notesFor addr cur as ++ notesFor addr (as.foldl Act.load cur) bs := by
  induction as generalizing cur with
  | nil => rfl
  | cons a as ih =>
    rw [List.cons_append, notesFor, notesFor, ih, List.append_assoc]
    rfl

/-- The same note to a list of peers reaches each of them once. -/
theorem notesFor_map {mk : ServerPeerSnapshot → Act} {ns : List Note}
    (hnotes : ∀ p, (mk p).notes addr cur = if p.realAddr = addr then ns else [])
    (hload : ∀ p, (mk p).load cur = cur) {ps : List ServerPeerSnapshot}
    (hnodup : (ps.map ServerPeerSnapshot.realAddr).Nodup) :
    notesFor addr cur (ps.map mk) =
      if addr ∈ ps.map ServerPeerSnapshot.realAddr then ns else [] := by
  induction ps with
  | nil => simp [notesFor]
  | cons p ps ih =>
    rw [List.map_cons] at hnodup
    obtain ⟨hnew, hnodup⟩ := List.nodup_cons.1 hnodup
    rw [List.map_cons, notesFor, hnotes, hload, ih hnodup]
    by_cases hp : p.realAddr = addr
    · subst hp
      simp [hnew]
    · have hne : addr ≠ p.realAddr := fun h => hp h.symm
      simp [hp, hne]

theorem notesFor_assignActs (p : Peer) :
    notesFor addr cur (assignActs p) = if p.realAddr = addr then [.assign] else [] := by
  simp [assignActs, notesFor, Act.notes, Act.load, Msg.note]

theorem notesFor_joinActs (p : Peer) {others : List ServerPeerSnapshot}
    (hnodup : (others.map ServerPeerSnapshot.realAddr).Nodup) :
    notesFor addr cur (joinActs p others) =
      (if p.realAddr = addr then
        [.assign, (Msg.peerList (others.map ServerPeerSnapshot.entry)).note] else []) ++
      if addr ∈ others.map ServerPeerSnapshot.realAddr then
        [(Msg.peerJoin p.virtIp p.cName).note] else [] := by
  have hsends : notesFor addr (some (.peerJoin p.virtIp p.cName))
      (others.map fun s => .send s.realAddr) =
      if addr ∈ others.map ServerPeerSnapshot.realAddr then
        [(Msg.peerJoin p.virtIp p.cName).note] else [] :=
    notesFor_map (fun _ => rfl) (fun _ => rfl) hnodup
  rw [joinActs, List.append_assoc, notesFor_append, notesFor_assignActs]
  simp only [List.cons_append, List.nil_append, notesFor, Act.notes, Act.load, hsends]
  split_ifs <;> simp

theorem notesFor_leaveActs (vip : UInt32) {peers : List ServerPeerSnapshot}
    (hnodup : (peers.map ServerPeerSnapshot.realAddr).Nodup) :
    notesFor addr cur (leaveActs vip peers) =
      if addr ∈ peers.map ServerPeerSnapshot.realAddr then [.news [.drop vip]] else [] := by
  have hsends : notesFor addr (some (.peerLeave vip)) (peers.map fun s => .forward s 0) =
      if addr ∈ peers.map ServerPeerSnapshot.realAddr then [.news [.drop vip]] else [] :=
    notesFor_map (fun _ => rfl) (fun _ => rfl) hnodup
  rw [leaveActs, notesFor, show (Act.build (.peerLeave vip)).load cur = some (.peerLeave vip) from rfl,
    hsends]
  rfl

/-- Acts that only build and send messages without news. -/
theorem notesFor_quiet {acts : List Act} (hcur : ∀ m, cur = some m → m.note.ops = [])
    (hbuild : ∀ m, .build m ∈ acts → m.note.ops = []) :
    ∀ note ∈ notesFor addr cur acts, note.ops = [] := by
  induction acts generalizing cur with
  | nil => simp [notesFor]
  | cons a acts ih =>
    intro note hnote
    rcases List.mem_append.1 hnote with hnote | hnote
    · have hload : note ∈ (cur.map Msg.note).toList → note.ops = [] := by
        intro h
        cases cur with
        | none => simp at h
        | some m =>
          rw [Option.map_some, Option.toList_some, List.mem_singleton] at h
          rw [h]
          exact hcur m rfl
      cases a with
      | send dest =>
        simp only [Act.notes] at hnote
        split_ifs at hnote
        · exact hload hnote
        · cases hnote
      | forward peer n =>
        simp only [Act.notes] at hnote
        split_ifs at hnote
        · exact hload hnote
        · cases hnote
      | probe box dest =>
        simp only [Act.notes] at hnote
        split_ifs at hnote
        · rw [List.mem_singleton.1 hnote]
          rfl
        · cases hnote
      | _ => cases hnote
    · refine ih ?_ (fun m hm => hbuild m (List.mem_cons_of_mem _ hm)) note hnote
      intro m hm
      cases a with
      | build m' =>
        cases hm
        exact hbuild m (by simp)
      | _ => exact hcur m hm

end NotesFor

/-! ### The table as a map -/

/-- The active entries that `skip` does not skip, by virtual IP. -/
def Server.listing {ν : Type} (srv : Server) (skip : Peer → Bool) (f : Peer → ν) :
    UInt32 → Option ν :=
  fun v => (serverFindPeerByVip srv v).bind fun i =>
    if skip (srv.peers i) then none else some (f (srv.peers i))

/-- What the server's table says to the peer at `addr`: the names of all the others. -/
def Server.others (srv : Server) (addr : SockAddr) : UInt32 → Option Bytes :=
  srv.listing (fun p => p.realAddr = addr) Peer.cName

/-- A peer with this endpoint is active. -/
def Server.ActiveAt (srv : Server) (addr : SockAddr) : Prop :=
  ∃ i, (srv.peers i).active = true ∧ (srv.peers i).realAddr = addr

section Listing

variable {ν : Type} {srv srv' : Server} {skip : Peer → Bool} {f : Peer → ν} {v : UInt32} {i : Slot}

theorem Server.WellFormed.listing_of_holds (h : srv.WellFormed) (hi : (srv.peers i).holds v = true) :
    srv.listing skip f v = if skip (srv.peers i) then none else some (f (srv.peers i)) := by
  rw [Server.listing, h.findVip_of_holds hi, Option.bind_some]

theorem listing_of_unheld (h : ∀ i, (srv.peers i).holds v = false) :
    srv.listing skip f v = none := by
  rw [Server.listing, findVip_eq_none h, Option.bind_none]

theorem Server.WellFormed.listing_eq_some_iff (h : srv.WellFormed) {x : ν} :
    srv.listing skip f v = some x ↔ ∃ i, (srv.peers i).active = true ∧ (srv.peers i).virtIp = v ∧
      skip (srv.peers i) = false ∧ f (srv.peers i) = x := by
  constructor
  · intro hsome
    obtain ⟨i, hi, hx⟩ := Option.bind_eq_some_iff.1 hsome
    obtain ⟨hact, hvip⟩ := Peer.holds_iff.1
      (SlotTable.of_first_eq_some (p := fun i => (srv.peers i).holds v) hi)
    split_ifs at hx with hskip
    exact ⟨i, hact, hvip, by simpa using hskip, Option.some.inj hx⟩
  · rintro ⟨i, hact, hvip, hskip, hx⟩
    rw [h.listing_of_holds (Peer.holds_iff.2 ⟨hact, hvip⟩), hskip, hx]
    rfl

/-- What an entry is listed as does not change while it stays. -/
def Stable (skip : Peer → Bool) (f : Peer → ν) : Prop :=
  ∀ p p' : Peer, p.Refreshes p' → skip p' = skip p ∧ f p' = f p

theorem listing_refreshes (hst : Stable skip f)
    (h : ∀ i, (srv.peers i).Refreshes (srv'.peers i)) :
    srv'.listing skip f = srv.listing skip f := by
  funext v
  have hfind : serverFindPeerByVip srv' v = serverFindPeerByVip srv v := by
    unfold serverFindPeerByVip
    congr 1
    funext i
    rw [Peer.holds, Peer.holds, (h i).active, (h i).virtIp]
  rw [Server.listing, Server.listing, hfind]
  congr 1
  funext i
  obtain ⟨hskip, hf⟩ := hst _ _ (h i)
  rw [hskip, hf]

/-- A new entry is listed, and nothing else moves. -/
theorem Server.WellFormed.listing_join {p : Peer} (h : (srv.join i p).WellFormed)
    (hact : p.active = true) (hfree : (srv.peers i).active = false) :
    (srv.join i p).listing skip f = fun v =>
      if v = p.virtIp then (if skip p then none else some (f p)) else srv.listing skip f v := by
  funext v
  have hself : (srv.join i p).peers i = p := by rw [join_peers, if_pos rfl]
  split_ifs with hv hskip
  · subst hv
    rw [h.listing_of_holds (i := i) (by rw [hself]; exact Peer.holds_iff.2 ⟨hact, rfl⟩), hself,
      if_pos hskip]
  · subst hv
    rw [h.listing_of_holds (i := i) (by rw [hself]; exact Peer.holds_iff.2 ⟨hact, rfl⟩), hself,
      if_neg hskip]
  · -- slot `i` held nobody before and holds another address now
    have hholds : ∀ j, ((srv.join i p).peers j).holds v = (srv.peers j).holds v := by
      intro j
      rw [join_peers]
      split_ifs with hj
      · subst hj
        have hp : p.holds v = false := by
          rw [Bool.eq_false_iff, ne_eq, Peer.holds_iff]
          exact fun hh => hv hh.2.symm
        rw [hp, Peer.holds, hfree, Bool.false_and]
      · rfl
    have hfind : serverFindPeerByVip (srv.join i p) v = serverFindPeerByVip srv v := by
      rw [serverFindPeerByVip, serverFindPeerByVip, funext hholds]
    rw [Server.listing, Server.listing, hfind]
    cases hf : serverFindPeerByVip srv v with
    | none => rfl
    | some j =>
      have hj : j ≠ i := by
        rintro rfl
        have := SlotTable.of_first_eq_some (p := fun i => (srv.peers i).holds v) hf
        rw [Peer.holds, hfree, Bool.false_and] at this
        cases this
      rw [Option.bind_some, Option.bind_some, join_peers, if_neg hj]

/-- An entry that is gone is not listed, and nothing else moves. -/
theorem Server.WellFormed.listing_leave (h : srv.WellFormed) (hact : (srv.peers i).active = true) :
    (srv.leave i).listing skip f = fun v =>
      if v = (srv.peers i).virtIp then none else srv.listing skip f v := by
  funext v
  split_ifs with hv
  · subst hv
    apply listing_of_unheld
    intro j
    rw [Bool.eq_false_iff, ne_eq, Peer.holds_iff]
    rintro ⟨ha, hvip⟩
    obtain ⟨ha', hj, heq⟩ := of_leave_active ha
    rw [heq] at hvip
    exact hj (h.virtIp_inj j i ha' hact hvip)
  · have hholds : ∀ j, ((srv.leave i).peers j).holds v = (srv.peers j).holds v := by
      intro j
      by_cases hj : j = i
      · subst hj
        have hold : (srv.peers j).holds v = false := by
          rw [Bool.eq_false_iff, ne_eq, Peer.holds_iff]
          exact fun hh => hv hh.2.symm
        rw [hold, Peer.holds, leave_active]
        simp
      · rw [leave_peers_of_ne srv hj]
    have hfind : serverFindPeerByVip (srv.leave i) v = serverFindPeerByVip srv v := by
      rw [serverFindPeerByVip, serverFindPeerByVip, funext hholds]
    rw [Server.listing, Server.listing, hfind]
    cases hf : serverFindPeerByVip srv v with
    | none => rfl
    | some j =>
      have hj : j ≠ i := by
        rintro rfl
        have := SlotTable.of_first_eq_some (p := fun i => (srv.peers i).holds v) hf
        exact hv (Peer.holds_iff.1 this).2.symm
      rw [Option.bind_some, Option.bind_some, leave_peers_of_ne srv hj]

theorem stable_others (addr : SockAddr) :
    Stable (fun p => decide (p.realAddr = addr)) Peer.cName := by
  intro p p' h
  exact ⟨by simp only [h.realAddr], by rw [Peer.cName, Peer.cName, h.name]⟩

end Listing

end Tund
