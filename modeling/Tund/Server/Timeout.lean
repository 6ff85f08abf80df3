import Tund.Server.Threads

/-!
# Timeouts and the end of an entry

A pass of `server_timeout_thread` goes once through the table, removes what it has not
heard of for more than 30 seconds, and tells the rest.  `serverSweepLocked_eq` is the
locked section in closed form; `sendsOf` are the messages that a list of acts sends, and
to whom, and `runActs_sends` says that these are the datagrams.

The second half follows the table through the runs of all threads: an entry ends by such
a pass, or by a DISCONNECT whose number was fresh when its own endpoint sent it
(`HubRun.ended`).
-/

namespace Tund

/-! ### The locked section -/

/-- The entry after a pass at time `now`. -/
def Peer.swept (now : ℤ) (p : Peer) : Peer :=
  if p.timedOut now then { p with active := false } else p

/-- The slots that a pass at time `now` frees, in table order. -/
def Server.timedOutSlots (srv : Server) (now : ℤ) : List Slot :=
  SlotTable.slots fun i => (srv.peers i).timedOut now

/-- The slots that stay active, in table order. -/
def Server.survivors (srv : Server) (now : ℤ) : List Slot :=
  SlotTable.slots fun i => (srv.peers i).active && !(srv.peers i).timedOut now

/-- The table after a pass. -/
def Server.swept (srv : Server) (now : ℤ) : Server where
  peers i := (srv.peers i).swept now
  peerCount := srv.peerCount - (srv.timedOutSlots now).length

/-- Where the loop stands after the slots of a list. -/
structure SweptSlots (now : ℤ) (srv : Server) (slots : List Slot)
    (acc : Server × List ServerPeerSnapshot × List ServerPeerSnapshot) : Prop where
  peers : ∀ i, acc.1.peers i = if i ∈ slots then (srv.peers i).swept now else srv.peers i
  count : acc.1.peerCount =
    srv.peerCount - (slots.filter fun i => (srv.peers i).timedOut now).length
  timedOut : acc.2.1 =
    (slots.filter fun i => (srv.peers i).timedOut now).map (serverSnapshotPeerLocked srv)
  kept : acc.2.2 =
    (slots.filter fun i => (srv.peers i).active && !(srv.peers i).timedOut now).map
      (serverSnapshotPeerLocked srv)

theorem SweptSlots.concat {now : ℤ} {srv : Server} {slots : List Slot}
    {acc : Server × List ServerPeerSnapshot × List ServerPeerSnapshot}
    (h : SweptSlots now srv slots acc) {i : Slot} (hi : i ∉ slots) :
    SweptSlots now srv (slots ++ [i]) (sweepSlot now acc i) := by
  obtain ⟨cur, timedOut, kept⟩ := acc
  obtain ⟨hpeers, hcount, htimed, hkept⟩ := h
  simp only at hpeers hcount htimed hkept
  -- the loop has not been at `i` before
  have hcur : cur.peers i = srv.peers i := by rw [hpeers i, if_neg hi]
  have hsnap : serverSnapshotPeerLocked cur i = serverSnapshotPeerLocked srv i := by
    simp only [serverSnapshotPeerLocked, hcur]
  have hstay : (srv.peers i).swept now = srv.peers i → ∀ j, cur.peers j =
      if j ∈ slots ++ [i] then (srv.peers j).swept now else srv.peers j := by
    intro hsame j
    by_cases hj : j = i
    · subst hj
      rw [hcur, if_pos (by simp), hsame]
    · rw [hpeers j]
      simp [hj]
  unfold sweepSlot
  simp only [hcur, hsnap]
  split_ifs with htime hact
  · have hgone : (srv.peers i).swept now = { srv.peers i with active := false } := by
      rw [Peer.swept, if_pos htime]
    refine ⟨fun j => ?_, ?_, ?_, ?_⟩
    · by_cases hj : j = i
      · subst hj
        simp only [Server.leave, Server.setPeer_self, hcur]
        rw [if_pos (by simp), hgone]
      · rw [leave_peers_of_ne cur hj, hpeers j]
        simp [hj]
    · simp only [Server.leave, hcount, List.filter_append, List.filter_cons, htime, if_true,
        List.filter_nil, List.length_append, List.length_singleton]
      push_cast
      ring
    · simp [htimed, htime]
    · simp [hkept, htime]
  · have hnot : (srv.peers i).timedOut now = false := by simpa using htime
    refine ⟨hstay (by rw [Peer.swept, if_neg htime]), ?_, ?_, ?_⟩
    · simp [hcount, hnot]
    · simp [htimed, hnot]
    · simp [hkept, hnot, hact]
  · have hnot : (srv.peers i).timedOut now = false := by simpa using htime
    have hinact : (srv.peers i).active = false := by simpa using hact
    refine ⟨hstay (by rw [Peer.swept, if_neg htime]), ?_, ?_, ?_⟩
    · simp [hcount, hnot]
    · simp [htimed, hnot]
    · simp [hkept, hinact]

/-- **The loop.**  Over slots without repetition each entry is looked at as it was before. -/
theorem sweptSlots (now : ℤ) (srv : Server) {slots : List Slot} (hnodup : slots.Nodup) :
    SweptSlots now srv slots (slots.foldl (sweepSlot now) (srv, [], [])) := by
  induction slots using List.reverseRecOn with
  | nil => exact ⟨by simp, by simp, rfl, rfl⟩
  | append_singleton slots i ih =>
    obtain ⟨hslots, -, hdisj⟩ := List.nodup_append.1 hnodup
    rw [List.foldl_append]
    exact (ih hslots).concat fun hi => hdisj i hi i (by simp) rfl

theorem swept_active (now : ℤ) (p : Peer) :
    (p.swept now).active = (p.active && !p.timedOut now) := by
  unfold Peer.swept
  split_ifs with h
  · simp [h]
  · simp [Bool.not_eq_true _ ▸ h]

theorem swept_kept (now : ℤ) (p : Peer) : { p.swept now with active := p.active } = p := by
  unfold Peer.swept
  split_ifs <;> rfl

/-- The peers that are told about a removal are those that stay. -/
theorem broadcast_swept (srv : Server) (now : ℤ) :
    serverSnapshotBroadcastLocked (srv.swept now) none =
      (srv.survivors now).map (serverSnapshotPeerLocked srv) := by
  have hslots : (srv.swept now).activeExcept none = srv.survivors now := by
    simp only [Server.activeExcept, Server.survivors, Server.swept, swept_active]
    simp
  rw [serverSnapshotBroadcastLocked, hslots]
  refine List.map_congr_left fun i hi => ?_
  have hnot : (srv.peers i).timedOut now = false := by
    simp only [Server.survivors, SlotTable.mem_slots, Bool.and_eq_true, Bool.not_eq_true'] at hi
    exact hi.2
  simp [serverSnapshotPeerLocked, Server.swept, Peer.swept, hnot]

/-- What a pass still has to do when it releases the lock. -/
def sweepActs (srv : Server) (now : ℤ) (keepalive : Outbox) : List Act :=
  ((srv.timedOutSlots now).flatMap fun i =>
    .event (.peerLeave (srv.peers i).virtIp .timeout) ::
      leaveActs (srv.peers i).virtIp ((srv.survivors now).map (serverSnapshotPeerLocked srv))) ++
  (srv.survivors now).map fun j => .probe keepalive (srv.peers j).realAddr

/-- **The locked section of the timeout thread.** -/
theorem serverSweepLocked_eq (env : Env) (srv : Server) (keepalive : Outbox) :
    serverSweepLocked env srv keepalive =
      (srv.swept env.time, sweepActs srv env.time keepalive) := by
  have hloop := sweptSlots env.time srv (List.nodup_finRange tundMaxPeers)
  rw [serverSweepLocked]
  generalize (List.finRange tundMaxPeers).foldl (sweepSlot env.time) (srv, [], []) = acc at hloop ⊢
  obtain ⟨cur, timedOut, kept⟩ := acc
  obtain ⟨hpeers, hcount, htimed, hkept⟩ := hloop
  have hcur : cur = srv.swept env.time := by
    obtain ⟨peers, count⟩ := cur
    rw [Server.swept, Server.mk.injEq]
    refine ⟨funext fun i => ?_, hcount⟩
    exact (hpeers i).trans (if_pos (List.mem_finRange i))
  have hleaves : ∀ slots : List Slot, ∀ peers : List ServerPeerSnapshot,
      ((slots.map (serverSnapshotPeerLocked srv)).flatMap fun s =>
        .event (.peerLeave s.virtIp .timeout) :: leaveActs s.virtIp peers) =
      slots.flatMap fun i => .event (.peerLeave (srv.peers i).virtIp .timeout) ::
        leaveActs (srv.peers i).virtIp peers := by
    intro slots peers
    rw [List.flatMap_map]
    rfl
  simp only at htimed hkept ⊢
  rw [hcur, htimed, hkept, Prod.mk.injEq]
  refine ⟨rfl, ?_⟩
  rw [sweepActs, hleaves, List.map_map, broadcast_swept]
  congr 1
  -- the snapshot of the survivors is only taken when there is something to tell
  show (srv.timedOutSlots env.time).flatMap _ = _
  cases hslots : srv.timedOutSlots env.time with
  | nil => rfl
  | cons i is =>
    rw [Server.timedOutSlots, SlotTable.slots] at hslots
    rw [hslots, if_neg (by simp)]

/-! ### What acts send -/

/-- What an act sends and to whom, with `cur` in the buffer and `probe` in the probes. -/
def Act.sends (probe : Msg) (cur : Option Msg) : Act → List (SockAddr × Msg)
  | .send dest => (cur.map (Prod.mk dest)).toList
  | .forward peer _ => (cur.map (Prod.mk peer.realAddr)).toList
  | .probe _ dest => [(dest, probe)]
  | _ => []

/-- What a list of acts sends and to whom. -/
def sendsOf (probe : Msg) : Option Msg → List Act → List (SockAddr × Msg)
  | _, [] => []
  | cur, a :: acts => a.sends probe cur ++ sendsOf probe (a.load cur) acts

/-- The datagram goes where it should and carries the message. -/
def Datagram.Delivers (env : Env) (d : Datagram) (x : SockAddr × Msg) : Prop :=
  d.dest = x.1 ∧ d.Carries env.aead env.key x.2.type.code x.2.payload

/-- The buffer holds the message `cur`; it has no length only when there is no message or the
random source fails. -/
def Outbox.Offers (env : Env) (box : Outbox) : Option Msg → Prop
  | none => box.buf.length = tundMaxPkt ∧ box.len = none
  | some m => box.Ready m ∧ (env.RandomWorks → box.len ≠ none)

theorem Outbox.offers_fresh (env : Env) : Outbox.fresh.Offers env none := ⟨Outbox.length_fresh, rfl⟩

theorem Outbox.Offers.size {env : Env} {box : Outbox} {cur : Option Msg} (h : box.Offers env cur) :
    box.buf.length = tundMaxPkt := by
  cases cur with
  | none => exact h.1
  | some m => exact h.1.size

/-- The process has put out some of the messages `xs`, and all of them if the random source
works. -/
def PutsOut (env : Env) (io io' : Proc) (xs : List (SockAddr × Msg)) : Prop :=
  io.Puts env (Datagram.Delivers env) io' xs

section PutsOut

variable {env : Env} {io io' io'' : Proc} {xs ys : List (SockAddr × Msg)}

theorem PutsOut.nil (h : datagramsOf io'.out = datagramsOf io.out) : PutsOut env io io' [] :=
  Proc.Puts.nil h

theorem PutsOut.append (h : PutsOut env io io' xs) (h' : PutsOut env io' io'' ys) :
    PutsOut env io io'' (xs ++ ys) := Proc.Puts.append h h'

theorem netSend_putsOut (io : Proc) {box : Outbox} {cur : Option Msg} (hbox : box.Offers env cur)
    (dest : SockAddr) :
    PutsOut env io (netSend env io box.buf box.len dest).2 (cur.map (Prod.mk dest)).toList := by
  cases cur with
  | none =>
    rw [hbox.2, netSend_none]
    exact .nil rfl
  | some m =>
    rcases send_cases env io hbox.1 dest with ⟨hfail, io', hout, -, h⟩ | ⟨d, io', hsent, h⟩ <;> rw [h]
    · refine ⟨[], [], by simp [hout], List.nil_sublist _, fun hr => ?_, .nil⟩
      rcases hfail with hnone | hno
      · exact absurd hnone (hbox.2 hr)
      · exact absurd hr hno
    · refine ⟨[d], [(dest, m)], ?_, List.Sublist.refl _, fun _ => rfl, ?_⟩
      · rw [hsent.out, datagramsOf_append]
        rfl
      · exact .cons ⟨hsent.dest, hsent.carries⟩ .nil

theorem build_offers (env : Env) (io : Proc) {buf : Bytes} (hbuf : buf.length = tundMaxPkt) {m : Msg}
    (hm : m.payload.length ≤ tundMaxPlaintext) :
    (Outbox.mk (m.build env io buf).1 (m.build env io buf).2.1).Offers env (some m) :=
  ⟨build_ready env io hbuf m, fun hr => (build_loaded hr io hbuf hm).2⟩

theorem Act.exec_sends {probe : Msg} {w : Work} {cur : Option Msg} {a : Act}
    (hbox : w.box.Offers env cur)
    (hbuild : ∀ m, a = .build m → m.payload.length ≤ tundMaxPlaintext)
    (hprobe : ∀ box dest, a = .probe box dest → box.Offers env (some probe)) :
    (a.exec env w).box.Offers env (a.load cur) ∧
      PutsOut env w.io (a.exec env w).io (a.sends probe cur) := by
  cases a with
  | build m =>
    refine ⟨build_offers env w.io hbox.size (hbuild m rfl), .nil ?_⟩
    rw [show ((Act.build m).exec env w).io = (m.build env w.io w.box.buf).2.2 from rfl,
      (m.build_out env w.io w.box.buf).1]
  | send dest => exact ⟨hbox, netSend_putsOut w.io hbox dest⟩
  | probe box dest => exact ⟨hbox, netSend_putsOut w.io (hprobe box dest rfl) dest⟩
  | forward peer n =>
    have hsend := netSend_putsOut w.io hbox peer.realAddr
    simp only [Act.exec]
    rcases h : netSend env w.io w.box.buf w.box.len peer.realAddr with ⟨_ | _, io⟩ <;>
      rw [h] at hsend <;> exact ⟨hbox, hsend⟩
  | tunWrite pkt => exact ⟨hbox, .nil (by simp [Act.exec, Tund.tunWrite, datagramsOf])⟩
  | event e =>
    refine ⟨hbox, .nil ?_⟩
    simp only [Act.exec, appEvent]
    split_ifs <;> simp [datagramsOf]

/-- **Acts.**  The datagrams of a list of acts are the messages it sends, in this order. -/
theorem runActs_sends {probe : Msg} {w : Work} {cur : Option Msg} {acts : List Act}
    (hbox : w.box.Offers env cur)
    (hbuild : ∀ m, .build m ∈ acts → m.payload.length ≤ tundMaxPlaintext)
    (hprobe : ∀ box dest, .probe box dest ∈ acts → box.Offers env (some probe)) :
    PutsOut env w.io (runActs env w acts).io (sendsOf probe cur acts) := by
  induction acts generalizing w cur with
  | nil => exact .nil rfl
  | cons a acts ih =>
    obtain ⟨hbox', hout⟩ := Act.exec_sends (a := a) hbox (fun m hm => hbuild m (by simp [hm]))
      fun box dest hp => hprobe box dest (by simp [hp])
    exact hout.append (ih hbox' (fun m hm => hbuild m (by simp [hm]))
      fun box dest hp => hprobe box dest (by simp [hp]))

end PutsOut

/-! ### The messages of a pass -/

section Sends

variable {probe : Msg} {cur : Option Msg}

theorem sendsOf_append (as bs : List Act) :
    sendsOf probe cur (as ++ bs) =
      sendsOf probe cur as ++ sendsOf probe (as.foldl Act.load cur) bs := by
  induction as generalizing cur with
  | nil => rfl
  | cons a as ih =>
    rw [List.cons_append, sendsOf, sendsOf, ih, List.append_assoc]
    rfl

theorem sendsOf_forward (m : Msg) (ps : List ServerPeerSnapshot) (n : UInt64) :
    sendsOf probe (some m) (ps.map fun p => .forward p n) =
      ps.map fun p => (p.realAddr, m) := by
  induction ps with
  | nil => rfl
  | cons p ps ih =>
    rw [List.map_cons, sendsOf, List.map_cons]
    exact congrArg _ ih

theorem sendsOf_probes (box : Outbox) (slots : List Slot) (dest : Slot → SockAddr) :
    sendsOf probe cur (slots.map fun j => .probe box (dest j)) =
      slots.map fun j => (dest j, probe) := by
  induction slots with
  | nil => rfl
  | cons j slots ih =>
    rw [List.map_cons, sendsOf, List.map_cons]
    exact congrArg _ ih

theorem sendsOf_leaves (vip : Slot → UInt32) (ps : List ServerPeerSnapshot) (slots : List Slot) :
    sendsOf probe cur (slots.flatMap fun i =>
        .event (.peerLeave (vip i) .timeout) :: leaveActs (vip i) ps) =
      slots.flatMap fun i => ps.map fun p => (p.realAddr, .peerLeave (vip i)) := by
  induction slots generalizing cur with
  | nil => rfl
  | cons i slots ih =>
    rw [List.flatMap_cons, sendsOf_append, ih, List.flatMap_cons]
    congr 1
    exact sendsOf_forward _ ps 0

/-- **What a pass sends.**  One PEER_LEAVE per removed peer to each survivor, and then one
KEEPALIVE. -/
theorem sendsOf_sweepActs (srv : Server) (now : ℤ) (box : Outbox) :
    sendsOf probe cur (sweepActs srv now box) =
      ((srv.timedOutSlots now).flatMap fun i => (srv.survivors now).map fun j =>
        ((srv.peers j).realAddr, .peerLeave (srv.peers i).virtIp)) ++
      (srv.survivors now).map fun j => ((srv.peers j).realAddr, probe) := by
  rw [sweepActs, sendsOf_append, sendsOf_leaves, sendsOf_probes]
  congr 1
  simp only [List.map_map]
  rfl

end Sends

/-! ### A whole pass -/

theorem mem_survivors {srv : Server} {now : ℤ} {j : Slot} :
    j ∈ srv.survivors now ↔
      (srv.peers j).active = true ∧ (srv.peers j).timedOut now = false := by
  simp [Server.survivors]

theorem mem_timedOutSlots {srv : Server} {now : ℤ} {i : Slot} :
    i ∈ srv.timedOutSlots now ↔ (srv.peers i).timedOut now = true := by
  simp [Server.timedOutSlots]

section Pass

variable {srv : Server} (hwf : srv.WellFormed) {now : ℤ}
include hwf

/-- Entries do not share endpoints, so a survivor is found at its endpoint alone. -/
theorem survivors_at {j : Slot} (hj : j ∈ srv.survivors now) :
    ((srv.survivors now).filter fun k => (srv.peers j).isAt (srv.peers k).realAddr) = [j] := by
  have hnodup : ((srv.survivors now).filter fun k =>
      (srv.peers j).isAt (srv.peers k).realAddr).Nodup := (SlotTable.nodup_slots _).filter _
  have hactj := (mem_survivors.1 hj).1
  refine List.perm_singleton.1 ((List.perm_ext_iff_of_nodup hnodup (List.nodup_singleton j)).2 ?_)
  intro k
  rw [List.mem_filter, List.mem_singleton]
  constructor
  · rintro ⟨hk, hat⟩
    obtain ⟨-, ha, hp⟩ := Peer.isAt_iff.1 hat
    exact (hwf.endpoint_inj j k hactj (mem_survivors.1 hk).1 ha hp).symm
  · rintro rfl
    exact ⟨hj, Peer.isAt_iff.2 ⟨hactj, rfl, rfl⟩⟩

/-- The messages of a pass for one survivor. -/
theorem sends_to_survivor {j : Slot} (hj : j ∈ srv.survivors now) (probe : Msg) (cur : Option Msg)
    (box : Outbox) :
    (sendsOf probe cur (sweepActs srv now box)).filter (fun x => (srv.peers j).isAt x.1) =
      ((srv.timedOutSlots now).map (fun i => Msg.peerLeave (srv.peers i).virtIp) ++ [probe]).map
        (Prod.mk (srv.peers j).realAddr) := by
  have hone : ∀ m : Msg, (((srv.survivors now).map fun k => ((srv.peers k).realAddr, m)).filter
      fun x => (srv.peers j).isAt x.1) = [((srv.peers j).realAddr, m)] := by
    intro m
    rw [List.filter_map]
    show ((srv.survivors now).filter fun k => (srv.peers j).isAt (srv.peers k).realAddr).map _ = _
    rw [survivors_at hwf hj]
    rfl
  rw [sendsOf_sweepActs, List.filter_append, hone, List.filter_flatMap, List.map_append,
    List.map_map]
  congr 1
  simp only [hone]
  induction srv.timedOutSlots now with
  | nil => rfl
  | cons i is ih =>
    rw [List.flatMap_cons, ih]
    rfl

omit hwf in
theorem dest_of_sends {probe : Msg} {cur : Option Msg} {box : Outbox} {x : SockAddr × Msg}
    (hx : x ∈ sendsOf probe cur (sweepActs srv now box)) :
    ∃ j ∈ srv.survivors now, x.1 = (srv.peers j).realAddr := by
  rw [sendsOf_sweepActs, List.mem_append, List.mem_flatMap] at hx
  rcases hx with ⟨i, -, hx⟩ | hx
  · obtain ⟨j, hj, rfl⟩ := List.mem_map.1 hx
    exact ⟨j, hj, rfl⟩
  · obtain ⟨j, hj, rfl⟩ := List.mem_map.1 hx
    exact ⟨j, hj, rfl⟩

end Pass

/-- What one pass of the timeout thread does. -/
structure SweepExact (env : Env) (srv : Server) (io : Proc) (srv' : Server) (io' : Proc) : Prop where
  /-- Exactly the active entries not heard of for more than 30 seconds are removed. -/
  active : ∀ i, (srv'.peers i).active = true ↔
    (srv.peers i).active = true ∧ ¬ 30 < env.time - (srv.peers i).lastSeen
  /-- Nothing else changes in an entry. -/
  kept : ∀ i, { srv'.peers i with active := (srv.peers i).active } = srv.peers i
  /-- The count goes down by their number. -/
  count : srv'.peerCount = srv.peerCount - SlotTable.count fun i =>
    (srv.peers i).active && decide (30 < env.time - (srv.peers i).lastSeen)
  /-- The datagrams: only survivors get any, each one PEER_LEAVE per removed peer and then one
  KEEPALIVE, unless the random source fails. -/
  sends : ∃ ds, datagramsOf io'.out = datagramsOf io.out ++ ds ∧
    (∀ d ∈ ds, ∃ j ∈ srv.survivors env.time, d.dest = (srv.peers j).realAddr) ∧
    (∀ i ∈ srv.timedOutSlots env.time, ∀ d ∈ ds, (srv.peers i).isAt d.dest = false) ∧
    ∀ j ∈ srv.survivors env.time, ∃ ms : List Msg,
      ms.Sublist ((srv.timedOutSlots env.time).map (fun i => .peerLeave (srv.peers i).virtIp) ++
        [.keepalive env.nowMs]) ∧
      (env.RandomWorks →
        ms = (srv.timedOutSlots env.time).map (fun i => .peerLeave (srv.peers i).virtIp) ++
          [.keepalive env.nowMs]) ∧
      List.Forall₂ (fun d m => d.Carries env.aead env.key m.type.code m.payload)
        (ds.filter fun d => (srv.peers j).isAt d.dest) ms

theorem timedOut_iff {p : Peer} {now : ℤ} :
    p.timedOut now = true ↔ p.active = true ∧ 30 < now - p.lastSeen := by
  rw [Peer.timedOut, Bool.and_eq_true, decide_eq_true_iff]
  rfl

/-- The acts of a pass leave the table alone. -/
theorem sweepActs_countNothing (srv : Server) (now : ℤ) (box : Outbox) :
    ∀ a ∈ sweepActs srv now box, a.CountsNothing := by
  intro a ha peer n hn
  subst hn
  simp only [sweepActs, leaveActs, List.mem_append, List.mem_flatMap, List.mem_cons, List.mem_map,
    reduceCtorEq, false_or, Act.forward.injEq, and_false, exists_false, or_false] at ha
  obtain ⟨i, -, s, -, -, h⟩ := ha
  exact h.symm

theorem serverSweep_finish (env : Env) (srv : Server) (io : Proc) :
    serverSweep env srv io = finish env (Outbox.build env io (.keepalive env.nowMs)).2
      (srv.swept env.time,
        sweepActs srv env.time (Outbox.build env io (.keepalive env.nowMs)).1) := by
  rw [serverSweep_eq, serverSweepLocked_eq]

theorem serverSweep_table (env : Env) (srv : Server) (io : Proc) :
    (serverSweep env srv io).1 = srv.swept env.time := by
  rw [serverSweep_finish]
  exact runActs_srv env _ (sweepActs_countNothing srv env.time _)

theorem serverSweep_putsOut (env : Env) (srv : Server) (io : Proc) :
    PutsOut env io (serverSweep env srv io).2 (sendsOf (.keepalive env.nowMs) none
      (sweepActs srv env.time (Outbox.build env io (.keepalive env.nowMs)).1)) := by
  have hoffers : (Outbox.build env io (.keepalive env.nowMs)).1.Offers env
      (some (.keepalive env.nowMs)) := by
    have hfilled := Outbox.filled_build (m := .keepalive env.nowMs) env io
      (Msg.length_payload_le fun h => by cases h)
    exact ⟨Outbox.build_ready env io _, fun hr hnone => hfilled.works hnone hr⟩
  have hbuilt := (Outbox.build_out env io (.keepalive env.nowMs)).1
  rw [serverSweep_finish]
  generalize Outbox.build env io (.keepalive env.nowMs) = keepalive at hoffers hbuilt ⊢
  have hacts : PutsOut env keepalive.2
      (runActs env ⟨srv.swept env.time, keepalive.2, .fresh⟩ (sweepActs srv env.time keepalive.1)).io
      (sendsOf (.keepalive env.nowMs) none (sweepActs srv env.time keepalive.1)) := by
    have hfresh : (Work.mk (srv.swept env.time) keepalive.2 .fresh).box.Offers env none :=
      Outbox.offers_fresh env
    refine runActs_sends hfresh (fun m hm => ?_) fun box dest hp => ?_
    · simp only [sweepActs, leaveActs, List.mem_append, List.mem_flatMap, List.mem_cons,
        List.mem_map, reduceCtorEq, false_or, Act.build.injEq, and_false, exists_false,
        or_false] at hm
      obtain ⟨i, -, rfl⟩ := hm
      exact Msg.length_payload_le fun h => by cases h
    · simp only [sweepActs, leaveActs, List.mem_append, List.mem_flatMap, List.mem_cons,
        List.mem_map, reduceCtorEq, false_or, and_false, exists_false, Act.probe.injEq] at hp
      obtain ⟨j, -, rfl, -⟩ := hp
      exact hoffers
  obtain ⟨ds, ys, hds, hrest⟩ := hacts
  refine ⟨ds, ys, ?_, hrest⟩
  rw [← hbuilt, ← hds]
  rfl

theorem serverSweep_exact (env : Env) {srv : Server} (hwf : srv.WellFormed) (io : Proc) :
    SweepExact env srv io (serverSweep env srv io).1 (serverSweep env srv io).2 := by
  have hsrv := serverSweep_table env srv io
  obtain ⟨ds, ys, hds, hsub, hall, hdeliver⟩ := serverSweep_putsOut env srv io
  generalize serverSweep env srv io = r at hsrv hds ⊢
  -- what a datagram of the pass delivers is one of its messages
  have hdest : ∀ d ∈ ds, ∃ j ∈ srv.survivors env.time, d.dest = (srv.peers j).realAddr := by
    intro d hd
    obtain ⟨k, hk, rfl⟩ := List.getElem_of_mem hd
    have hdel := hdeliver.get hk (hdeliver.length_eq ▸ hk)
    obtain ⟨j, hj, heq⟩ := dest_of_sends (hsub.subset (List.get_mem ys ⟨k, hdeliver.length_eq ▸ hk⟩))
    exact ⟨j, hj, hdel.1.trans heq⟩
  refine ⟨fun i => ?_, fun i => ?_, ?_, ds, hds, hdest, fun i hi d hd => ?_, fun j hj => ?_⟩
  · rw [hsrv]
    show ((srv.peers i).swept env.time).active = true ↔ _
    rw [swept_active, Bool.and_eq_true, Bool.not_eq_true', ← Bool.not_eq_true, timedOut_iff]
    exact and_congr_right fun hact => not_congr (and_iff_right hact)
  · rw [hsrv]
    exact swept_kept env.time (srv.peers i)
  · rw [hsrv]
    rfl
  · obtain ⟨j, hj, heq⟩ := hdest d hd
    by_contra hat
    rw [Bool.not_eq_false, heq, Peer.isAt_iff] at hat
    obtain ⟨hacti, ha, hp⟩ := hat
    obtain ⟨hactj, hnot⟩ := mem_survivors.1 hj
    obtain rfl := hwf.endpoint_inj i j hacti hactj ha hp
    rw [mem_timedOutSlots.1 hi] at hnot
    cases hnot
  · have hmsgs := sends_to_survivor hwf hj (.keepalive env.nowMs) none
      (Outbox.build env io (.keepalive env.nowMs)).1
    have hfilter : List.Forall₂ (Datagram.Delivers env)
        (ds.filter fun d => (srv.peers j).isAt d.dest)
        (ys.filter fun x => (srv.peers j).isAt x.1) :=
      List.rel_filter
        (fun d x hdx => iff_of_eq (congrArg (fun a => (srv.peers j).isAt a = true) hdx.1)) hdeliver
    have hsub' := hsub.filter fun x => (srv.peers j).isAt x.1
    rw [hmsgs] at hsub'
    obtain ⟨ms, hms, hys⟩ := List.sublist_map_iff.1 hsub'
    refine ⟨ms, hms, fun hr => ?_, ?_⟩
    · rw [hall hr, hmsgs] at hys
      exact (List.map_injective_iff.2 (Prod.mk_right_injective _) hys).symm
    · rw [hys, List.forall₂_map_right_iff] at hfilter
      exact hfilter.imp fun d m hdm => hdm.2

/-! ### Runs of all threads -/

/-- A run of the server, its threads interleaved in any way. -/
abbrev HubRun := Trace.Run hubStep (fun _ _ => True) (· = Hub.start)

/-- The ways in which a packet comes to be the next one to handle. -/
theorem hubStep_accepted {h : Hub} {e : HubEvent} {f : Frame} {src : SockAddr}
    (hacc : (hubStep h e).accepted = some (f, src)) :
    h.accepted = some (f, src) ∧ (∀ env, e ≠ .dispatch env) ∨
    ∃ env wire, e = .receive env wire src ∧
      (netRecv env.aead env.key wire).bind readFrame = some f ∧
      (f.type ≠ MsgType.register.code →
        (serverAcceptRegisteredSequence h.srv src f.sequence).1 = true) := by
  cases e with
  | receive env wire src' =>
    simp only [hubStep] at hacc
    split_ifs at hacc with hbusy
    · exact .inl ⟨hacc, fun _ h => by cases h⟩
    cases hread : (netRecv env.aead env.key wire).bind readFrame with
    | none =>
      rw [hread] at hacc
      exact .inl ⟨hacc, fun _ h => by cases h⟩
    | some g =>
      simp only [hread] at hacc
      split_ifs at hacc with htype
      · rcases hseq : serverAcceptRegisteredSequence h.srv src' g.sequence with ⟨_ | _, srv⟩ <;>
          simp only [hseq] at hacc
        · exact .inl ⟨hacc, fun _ h => by cases h⟩
        · obtain ⟨rfl, rfl⟩ := Prod.mk.inj (Option.some.inj hacc)
          exact .inr ⟨env, wire, rfl, hread, fun _ => by rw [hseq]⟩
      · obtain ⟨rfl, rfl⟩ := Prod.mk.inj (Option.some.inj hacc)
        exact .inr ⟨env, wire, rfl, hread, fun h => absurd h htype⟩
  | dispatch env =>
    simp only [hubStep] at hacc
    cases hcur : h.accepted with
    | none =>
      rw [hcur] at hacc
      simp only at hacc
      rw [hcur] at hacc
      cases hacc
    | some p =>
      rw [hcur] at hacc
      cases hacc
  | sweep env =>
    refine .inl ⟨?_, fun _ h => by cases h⟩
    simp only [hubStep] at hacc
    split_ifs at hacc
    · exact hacc
    · generalize serverSweepLocked env h.srv _ = locked at hacc
      exact hacc
  | tun env pkt =>
    refine .inl ⟨?_, fun _ h => by cases h⟩
    simp only [hubStep] at hacc
    split_ifs at hacc
    · exact hacc
    · split at hacc <;> exact hacc
  | act env t =>
    refine .inl ⟨?_, fun _ h => by cases h⟩
    simp only [hubStep] at hacc
    split at hacc <;> exact hacc

/-- What holds in every state of every run: the table is well formed, and a packet that waits for
its handler has a number. -/
structure Hub.Valid (h : Hub) : Prop where
  wellFormed : h.srv.WellFormed
  sequence : ∀ f src, h.accepted = some (f, src) → f.sequence ≠ 0

theorem readFrame_bind_sequence {buf : Option Bytes} {f : Frame} (h : buf.bind readFrame = some f) :
    f.sequence ≠ 0 := by
  obtain ⟨b, -, hread⟩ := Option.bind_eq_some_iff.1 h
  exact readFrame_sequence hread

theorem Hub.Valid.step {h : Hub} (hv : h.Valid) (e : HubEvent) : (hubStep h e).Valid where
  wellFormed := by
    have hm := hubStep_table h e
    generalize (hubStep h e).srv = srv' at hm
    cases hm with
    | same e _ hsame => exact hv.wellFormed.sameButBytesOut hsame
    | accept env wire src f i hread hi hfresh =>
      exact hv.wellFormed.of_refreshes rfl (setPeer_refreshes (Peer.refreshes_shown hfresh))
    | handle env f src hacc =>
      exact hv.wellFormed.packetStep (hv.sequence f src hacc) (serverDispatchLocked_step env h.srv f src)
    | sweep env box hrest => exact hv.wellFormed.sweep env box
  sequence f src hacc := by
    rcases hubStep_accepted hacc with ⟨hold, -⟩ | ⟨env, wire, -, hread, -⟩
    · exact hv.sequence f src hold
    · exact readFrame_bind_sequence hread

theorem HubRun.valid (r : HubRun) (k : ℕ) : (r.state k).Valid := by
  refine (r.reachable k).invariant (fun h hh => ?_) fun h e _ hv => hv.step e
  subst hh
  exact ⟨wellFormed_init, nofun⟩

/-! ### Where an entry begins and ends -/

section Ends

variable {h : Hub} {e : HubEvent} {i : Slot}

/-- An entry that is at an endpoint after a step was there before, unless a handler ran. -/
theorem isAt_of_hubStep {src : SockAddr} (hno : ∀ env, e = .dispatch env → h.accepted = none)
    (hat : ((hubStep h e).srv.peers i).isAt src = true) : (h.srv.peers i).isAt src = true := by
  have hm := hubStep_table h e
  generalize (hubStep h e).srv = srv' at hm hat
  cases hm with
  | same e _ hsame => rwa [(hsame.refreshes i).isAt] at hat
  | accept env wire src' f j hread hj hfresh =>
    rwa [(setPeer_refreshes (Peer.refreshes_shown hfresh) i).isAt] at hat
  | handle env f src' hacc =>
    rw [hno env rfl] at hacc
    cases hacc
  | sweep env box hrest =>
    rw [serverSweepLocked_eq] at hat
    obtain ⟨hact, ha, hp⟩ := Peer.isAt_iff.1 hat
    have hacti : (h.srv.peers i).active = true := by
      have hswept : ((h.srv.peers i).swept env.time).active = true := hact
      rw [swept_active, Bool.and_eq_true] at hswept
      exact hswept.1
    have haddr := congrArg Peer.realAddr (swept_kept env.time (h.srv.peers i))
    refine Peer.isAt_iff.2 ⟨hacti, ?_, ?_⟩ <;> rw [← haddr]
    · exact ha
    · exact hp

/-- The locked section of a handler ends an entry only for a DISCONNECT from its endpoint. -/
theorem ends_of_dispatch {env : Env} {srv : Server} {f : Frame} {src : SockAddr}
    (hact : (srv.peers i).active = true)
    (hend : ((serverDispatchLocked env srv f src).1.peers i).active = false) :
    f.type = MsgType.disconnect.code ∧ (srv.peers i).isAt src = true := by
  have hsame : ∀ {srv' : Server}, (∀ j, (srv.peers j).Refreshes (srv'.peers j)) →
      (srv'.peers i).active ≠ false := by
    intro srv' hr hfalse
    rw [(hr i).active, hact] at hfalse
    cases hfalse
  unfold serverDispatchLocked at hend
  split at hend
  · exfalso
    rcases serverRegisterLocked_cases env srv f.payload src f.sequence with
      ⟨j, -, -, h⟩ | ⟨j, -, hacc, h⟩ | ⟨-, -, h⟩ | ⟨j, -, hj, -, h⟩ <;> rw [h] at hend
    · exact hsame (fun _ => .refl _) hend
    · exact hsame (setPeer_refreshes (Peer.refreshes_heard (Peer.refreshes_shown hacc) env.time)) hend
    · exact hsame (fun _ => .refl _) hend
    · simp only [join_peers] at hend
      split_ifs at hend with hij
      · cases hend
      · rw [hact] at hend
        cases hend
  · exfalso
    rcases serverDataLocked_cases srv f.payload src with ⟨-, h⟩ | ⟨j, -, h⟩ <;> rw [h] at hend
    · exact hsame (fun _ => .refl _) hend
    · exact hsame (countIn_refreshes srv j _) hend
  · exfalso
    rcases serverKeepaliveLocked_cases env srv f.payload src with h | ⟨j, _, -, h⟩ <;> rw [h] at hend
    · exact hsame (fun _ => .refl _) hend
    · exact hsame (setPeer_refreshes (Peer.refreshes_heard (.refl _) env.time)) hend
  · exfalso
    rcases serverKeepaliveAckLocked_cases env srv f.payload src with h | ⟨j, _, -, h⟩ <;>
      rw [h] at hend
    · exact hsame (fun _ => .refl _) hend
    · refine hsame ?_ hend
      exact setPeer_refreshes ⟨rfl, rfl, rfl, rfl, .inl rfl⟩
  · rename_i htype
    refine ⟨MsgType.ofCode_eq_some_iff.1 htype, ?_⟩
    rcases serverDisconnectLocked_cases srv src with ⟨-, h⟩ | ⟨j, hj, h⟩ <;> rw [h] at hend
    · exact absurd hend (hsame fun _ => .refl _)
    · have hij : i = j := by
        by_contra hne
        rw [leave_active, hact] at hend
        simp [hne] at hend
      rw [hij]
      exact isAt_of_find hj
  · exact absurd hend (hsame fun _ => .refl _)

end Ends

/-- At step `m` of the run the packet `f` came from `src`, where the entry in slot `i` was, with a
number that was fresh for the entry. -/
structure HubRun.Heard (r : HubRun) (m : ℕ) (f : Frame) (src : SockAddr) (i : Slot) : Prop where
  received : ∃ env wire, r.event m = .receive env wire src ∧
    (netRecv env.aead env.key wire).bind readFrame = some f
  isAt : ((r.state m).srv.peers i).isAt src = true
  fresh : (protoReplayAccept ((r.state m).srv.peers i).replay f.sequence).1 = true

/-- A packet that waits for its handler was fresh for the entry of its sender when it came in. -/
theorem HubRun.heard (r : HubRun) (k : ℕ) {f : Frame} {src : SockAddr} {i : Slot}
    (hacc : (r.state k).accepted = some (f, src)) (htype : f.type ≠ MsgType.register.code)
    (hat : ((r.state k).srv.peers i).isAt src = true) : ∃ m < k, r.Heard m f src i := by
  induction k with
  | zero =>
    rw [r.start] at hacc
    cases hacc
  | succ k ih =>
    rw [r.next] at hacc hat
    rcases hubStep_accepted hacc with ⟨hold, hno⟩ | ⟨env, wire, he, hread, hfresh⟩
    · -- while the packet waits no handler runs, so no entry is made
      have hat' := isAt_of_hubStep (fun env henv => absurd henv (hno env)) hat
      obtain ⟨m, hm, hheard⟩ := ih hold hat'
      exact ⟨m, by omega, hheard⟩
    · have hat' : ((r.state k).srv.peers i).isAt src = true :=
        isAt_of_hubStep (fun env' henv => by rw [he] at henv; cases henv) hat
      refine ⟨k, by omega, ⟨env, wire, he, hread⟩, hat', ?_⟩
      have hfind := (r.valid k).wellFormed.find_of_isAt hat'
      have hok := hfresh htype
      simp only [serverAcceptRegisteredSequence, hfind] at hok
      exact hok

/-- How the entry in slot `i` can end at step `k`. -/
inductive HubRun.EndsBy (r : HubRun) (k : ℕ) (i : Slot) : Prop
  /-- The timeout thread has not heard of it for more than 30 seconds. -/
  | timeout (env : Env) (he : r.event k = .sweep env)
      (hold : 30 < env.time - ((r.state k).srv.peers i).lastSeen)
  /-- A DISCONNECT came from its endpoint, with a fresh number, and is now handled. -/
  | disconnect (m : ℕ) (hm : m < k) (f : Frame) (src : SockAddr)
      (htype : f.type = MsgType.disconnect.code) (hheard : r.Heard m f src i) (env : Env)
      (he : r.event k = .dispatch env) (hacc : (r.state k).accepted = some (f, src))
      (hat : ((r.state k).srv.peers i).isAt src = true)

/-- **The end of an entry.** -/
theorem HubRun.ended (r : HubRun) {k : ℕ} {i : Slot}
    (hact : ((r.state k).srv.peers i).active = true)
    (hend : ((r.state (k + 1)).srv.peers i).active = false) : r.EndsBy k i := by
  have hgone : ∀ {srv' : Server}, ((r.state k).srv.peers i).Refreshes (srv'.peers i) →
      (srv'.peers i).active ≠ false := by
    intro srv' hr hfalse
    rw [hr.active, hact] at hfalse
    cases hfalse
  rw [r.next] at hend
  have hm := hubStep_table (r.state k) (r.event k)
  generalize he : r.event k = e at hm hend
  generalize (hubStep (r.state k) e).srv = srv' at hm hend
  cases hm with
  | same e _ hsame => exact absurd hend (hgone (hsame.refreshes i))
  | accept env wire src f j hread hj hfresh =>
    exact absurd hend (hgone (setPeer_refreshes (Peer.refreshes_shown hfresh) i))
  | handle env f src hacc =>
    obtain ⟨htype, hat⟩ := ends_of_dispatch hact hend
    have hnot : f.type ≠ MsgType.register.code := by
      rw [htype]
      decide
    obtain ⟨m, hm, hheard⟩ := r.heard k hacc hnot hat
    exact .disconnect m hm f src htype hheard env he hacc hat
  | sweep env box hrest =>
    refine .timeout env he ?_
    rw [serverSweepLocked_eq] at hend
    have hswept : (((r.state k).srv.peers i).swept env.time).active = false := hend
    rw [swept_active, hact, Bool.true_and, Bool.not_eq_false'] at hswept
    exact (timedOut_iff.1 hswept).2

/-- **Timeouts and removals.**  In every state of every run of the threads, a pass of the timeout
thread removes exactly the active peers not heard of for more than 30 seconds, lowers the count by
their number, and sends each peer that stays one PEER_LEAVE per removed peer, with its virtual IP,
and one KEEPALIVE, and nothing to those it removes; and in every run an active entry becomes
inactive only through such a pass or through a DISCONNECT from its own endpoint whose number was
fresh. -/
theorem timeout_sweep_and_removal (r : HubRun) :
    (∀ (k : ℕ) (env : Env) (io : Proc), SweepExact env (r.state k).srv io
      (serverSweep env (r.state k).srv io).1 (serverSweep env (r.state k).srv io).2) ∧
    ∀ (k : ℕ) (i : Slot), ((r.state k).srv.peers i).active = true →
      ((r.state (k + 1)).srv.peers i).active = false → r.EndsBy k i :=
  ⟨fun k env io => serverSweep_exact env (r.valid k).wellFormed io,
    fun _ _ hact hend => r.ended hact hend⟩

/-- One peer registers at time 100 and is not heard of any more, another one registers at time 150. -/
def silentPeer : ℕ → HubEvent
  | 0 => .receive (Env.plain 100 5) (wireBytes monocypher plainKey MsgType.register.code 7
      (List.replicate tundNonceSize 0) [97]) ⟨2, 1, 1⟩
  | 1 => .dispatch (Env.plain 100 5)
  | 8 => .receive (Env.plain 150 5) (wireBytes monocypher plainKey MsgType.register.code 7
      (List.replicate tundNonceSize 0) [98]) ⟨2, 1, 2⟩
  | 9 => .dispatch (Env.plain 150 5)
  | 10 => .sweep (Env.plain 160 5)
  | _ => .act (Env.plain 100 5) .receive

/-- The pass at time 160 removes the first one and keeps the second one, which gets a PEER_LEAVE and a
KEEPALIVE. -/
theorem timeout_sweep_and_removal_silent :
    ∃ r : HubRun, ((r.state 10).srv.peers 0).active = true ∧
      ((r.state 11).srv.peers 0).active = false ∧ ((r.state 11).srv.peers 1).active = true ∧
      r.EndsBy 10 0 ∧
      ∃ d d', datagramsOf (serverSweep (Env.plain 160 5) (r.state 10).srv Proc.start).2.out = [d, d'] ∧
        d.Carries monocypher plainKey MsgType.peerLeave.code (Msg.peerLeave (poolIp 0)).payload ∧
        d'.Carries monocypher plainKey MsgType.keepalive.code (Msg.keepalive 5).payload := by
  obtain ⟨r, hr⟩ : ∃ r : HubRun, r.state = Trace.stateAt hubStep Hub.start silentPeer :=
    ⟨.ofEvents Hub.start silentPeer rfl fun _ => trivial, rfl⟩
  obtain ⟨hon, hsecond, hoff, hkept, hgone, hstay, hvip⟩ :
      ((r.state 10).srv.peers 0).active = true ∧ ((r.state 10).srv.peers 1).active = true ∧
      ((r.state 11).srv.peers 0).active = false ∧ ((r.state 11).srv.peers 1).active = true ∧
      (r.state 10).srv.timedOutSlots 160 = [0] ∧ (r.state 10).srv.survivors 160 = [1] ∧
      ((r.state 10).srv.peers 0).virtIp = poolIp 0 := by
    rw [hr]
    decide +kernel
  obtain ⟨hsweep, hend⟩ := timeout_sweep_and_removal r
  obtain ⟨ds, hout, hdest, -, hsends⟩ := (hsweep 10 (Env.plain 160 5) Proc.start).sends
  rw [show (Env.plain 160 5).time = 160 from rfl, hgone, hstay] at hsends
  rw [show (Env.plain 160 5).time = 160 from rfl, hstay] at hdest
  obtain ⟨ms, -, hall, hcarry⟩ := hsends 1 (List.mem_singleton_self 1)
  have hfilter : ds.filter (fun d => ((r.state 10).srv.peers 1).isAt d.dest) = ds := by
    refine List.filter_eq_self.2 fun d hd => ?_
    obtain ⟨j, hj, haddr⟩ := hdest d hd
    rw [haddr, List.mem_singleton.1 hj]
    exact Peer.isAt_iff.2 ⟨hsecond, rfl, rfl⟩
  rw [hfilter, hall (Env.plain_randomWorks 160 5), List.map_singleton, hvip] at hcarry
  obtain _ | @⟨d, _, _, _, hleave, hcarry⟩ := hcarry
  obtain _ | @⟨d', _, rest, _, hprobe, hcarry⟩ := hcarry
  obtain _ | _ := hcarry
  exact ⟨r, hon, hoff, hkept, hend 10 0 hon hoff, d, d', hout, hleave, hprobe⟩

end Tund
