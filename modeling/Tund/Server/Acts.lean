import Tund.Server.Handlers

/-!
# Acts outside the lock

What a list of acts puts out and what it leaves alone.  No act changes the table but for
`bytes_out`, and `bytes_out` of a peer moves only with a datagram to it
(`runActs_forward`).
-/

namespace Tund

/-! ### The table -/

/-- The tables agree on everything but `bytes_out`. -/
def Server.SameButBytesOut (srv srv' : Server) : Prop :=
  srv'.peerCount = srv.peerCount ∧
    ∀ i, srv'.peers i = { srv.peers i with bytesOut := (srv'.peers i).bytesOut }

section SameButBytesOut

variable {srv srv' : Server} (h : srv.SameButBytesOut srv') (i : Slot)
include h

theorem Server.SameButBytesOut.active : (srv'.peers i).active = (srv.peers i).active := by
  rw [h.2 i]

theorem Server.SameButBytesOut.virtIp : (srv'.peers i).virtIp = (srv.peers i).virtIp := by
  rw [h.2 i]

theorem Server.SameButBytesOut.name : (srv'.peers i).name = (srv.peers i).name := by
  rw [h.2 i]

theorem Server.SameButBytesOut.realAddr : (srv'.peers i).realAddr = (srv.peers i).realAddr := by
  rw [h.2 i]

theorem Server.SameButBytesOut.replay : (srv'.peers i).replay = (srv.peers i).replay := by
  rw [h.2 i]

end SameButBytesOut

theorem Server.SameButBytesOut.refl (srv : Server) : srv.SameButBytesOut srv := ⟨rfl, fun _ => rfl⟩

theorem Server.SameButBytesOut.trans {a b c : Server} (hab : a.SameButBytesOut b)
    (hbc : b.SameButBytesOut c) : a.SameButBytesOut c := by
  refine ⟨hbc.1.trans hab.1, fun i => ?_⟩
  rw [hbc.2 i, hab.2 i]

theorem serverAddPeerBytesOut_cases (srv : Server) (s : ServerPeerSnapshot) (n : UInt64) :
    ((n = 0 ∨ s.isCurrent srv = false) ∧ serverAddPeerBytesOut srv s n = srv) ∨
    (n ≠ 0 ∧ s.isCurrent srv = true ∧ serverAddPeerBytesOut srv s n =
      srv.setPeer s.idx { srv.peers s.idx with bytesOut := (srv.peers s.idx).bytesOut + n }) := by
  by_cases hn : n = 0
  · exact .inl ⟨.inl hn, by rw [serverAddPeerBytesOut, if_pos hn]⟩
  cases hcur : s.isCurrent srv with
  | false => exact .inl ⟨.inr rfl, by rw [serverAddPeerBytesOut, if_neg hn, hcur]; rfl⟩
  | true => exact .inr ⟨hn, rfl, by rw [serverAddPeerBytesOut, if_neg hn, if_pos hcur]⟩

theorem serverAddPeerBytesOut_same (srv : Server) (s : ServerPeerSnapshot) (n : UInt64) :
    srv.SameButBytesOut (serverAddPeerBytesOut srv s n) := by
  rcases serverAddPeerBytesOut_cases srv s n with ⟨-, h⟩ | ⟨-, -, h⟩ <;> rw [h]
  · exact .refl srv
  · refine ⟨rfl, fun i => ?_⟩
    rw [srv.setPeer_peers]
    split_ifs with hi
    · rw [hi]
    · rfl

theorem Act.exec_same (env : Env) (w : Work) (a : Act) :
    w.srv.SameButBytesOut (a.exec env w).srv := by
  cases a with
  | forward peer n =>
    simp only [Act.exec]
    rcases netSend env w.io w.box.buf w.box.len peer.realAddr with ⟨_ | _, io⟩
    · exact .refl _
    · exact serverAddPeerBytesOut_same _ _ _
  | _ => exact .refl _

/-- **Acts and the table.**  Outside the lock only `bytes_out` changes. -/
theorem runActs_same (env : Env) (w : Work) (acts : List Act) :
    w.srv.SameButBytesOut (runActs env w acts).srv := by
  induction acts generalizing w with
  | nil => exact .refl _
  | cons a acts ih => exact (a.exec_same env w).trans (ih _)

theorem finish_same (env : Env) (io : Proc) (locked : Server × List Act) :
    locked.1.SameButBytesOut (finish env io locked).1 := runActs_same env _ locked.2

/-- An act that counts nothing leaves the table alone. -/
def Act.CountsNothing (a : Act) : Prop := ∀ peer n, a = .forward peer n → n = 0

theorem Act.exec_srv (env : Env) (w : Work) {a : Act} (h : a.CountsNothing) :
    (a.exec env w).srv = w.srv := by
  cases a with
  | forward peer n =>
    have hn : n = 0 := h peer n rfl
    simp only [Act.exec]
    rcases netSend env w.io w.box.buf w.box.len peer.realAddr with ⟨_ | _, io⟩
    · rfl
    · rw [hn, serverAddPeerBytesOut, if_pos rfl]
  | _ => rfl

theorem runActs_srv (env : Env) (w : Work) {acts : List Act} (h : ∀ a ∈ acts, a.CountsNothing) :
    (runActs env w acts).srv = w.srv := by
  induction acts generalizing w with
  | nil => rfl
  | cons a acts ih =>
    rw [runActs_cons, ih _ fun b hb => h b (by simp [hb]), a.exec_srv env w (h a (by simp))]

/-! ### The outputs -/

section Outputs

variable {P : Msg → Prop} {env : Env}

/-- The buffer holds a message that satisfies `P`, or nothing that could be sent. -/
def Outbox.Within (P : Msg → Prop) (box : Outbox) : Prop :=
  box.buf.length = tundMaxPkt ∧ (box.len = none ∨ ∃ m, P m ∧ box.Ready m)

theorem Outbox.within_fresh : Outbox.fresh.Within P := ⟨Outbox.length_fresh, .inl rfl⟩

/-- What an act may put out: its own TUN write or event, or a datagram with a message that
satisfies `P`. -/
def OutBy (P : Msg → Prop) (env : Env) (acts : List Act) : Out → Prop
  | .tunWrite pkt => .tunWrite pkt ∈ acts
  | .event e => .event e ∈ acts
  | .datagram d => ∃ m, P m ∧ d.Carries env.aead env.key m.type.code m.payload

theorem OutBy.mono {as bs : List Act} (h : ∀ a ∈ as, a ∈ bs) {o : Out} (ho : OutBy P env as o) :
    OutBy P env bs o := by
  cases o with
  | datagram d => exact ho
  | tunWrite pkt => exact h _ ho
  | event e => exact h _ ho

theorem netSend_out (env : Env) {box : Outbox} (hbox : box.Within P) (io : Proc) (dest : SockAddr) :
    ∃ outs, (netSend env io box.buf box.len dest).2.out = io.out ++ outs ∧
      (netSend env io box.buf box.len dest).2.running = io.running ∧ ∀ o ∈ outs, OutBy P env [] o := by
  rcases hbox.2 with hnone | ⟨m, hm, hready⟩
  · rw [hnone, netSend_none]
    exact ⟨[], by simp⟩
  · rcases send_cases env io hready dest with ⟨-, io', hout, hrun, h⟩ | ⟨d, io', hsent, h⟩ <;> rw [h]
    · exact ⟨[], by simpa using hout, hrun, by simp⟩
    · refine ⟨[.datagram d], hsent.out, hsent.running, ?_⟩
      rintro o ho
      rw [List.mem_singleton.1 ho]
      exact ⟨m, hm, hsent.carries⟩

/-- The messages of an act satisfy `P`. -/
structure Act.Within (P : Msg → Prop) (a : Act) : Prop where
  build : ∀ m, a = .build m → P m
  probe : ∀ box dest, a = .probe box dest → box.Within P

@[simp] theorem Act.within_build {m : Msg} : (Act.build m).Within P ↔ P m :=
  ⟨fun h => h.build m rfl, fun h => ⟨by rintro _ ⟨⟩; exact h, nofun⟩⟩

@[simp] theorem Act.within_probe {box : Outbox} {dest : SockAddr} :
    (Act.probe box dest).Within P ↔ box.Within P :=
  ⟨fun h => h.probe box dest rfl, fun h => ⟨nofun, by rintro _ _ ⟨⟩; exact h⟩⟩

@[simp] theorem Act.within_send {dest : SockAddr} : (Act.send dest).Within P := ⟨nofun, nofun⟩

@[simp] theorem Act.within_forward {peer : ServerPeerSnapshot} {n : UInt64} :
    (Act.forward peer n).Within P := ⟨nofun, nofun⟩

@[simp] theorem Act.within_tunWrite {pkt : Bytes} : (Act.tunWrite pkt).Within P := ⟨nofun, nofun⟩

@[simp] theorem Act.within_event {e : Event} : (Act.event e).Within P := ⟨nofun, nofun⟩

theorem Act.exec_out (env : Env) {w : Work} {a : Act} (ha : a.Within P) (hw : w.box.Within P) :
    (a.exec env w).box.Within P ∧ ∃ outs, (a.exec env w).io.out = w.io.out ++ outs ∧
      (a.exec env w).io.running = w.io.running ∧ ∀ o ∈ outs, OutBy P env [a] o := by
  have hnil : ∀ {o}, OutBy P env [] o → OutBy P env [a] o := OutBy.mono (by simp)
  cases a with
  | build m =>
    refine ⟨⟨(build_ready env w.io hw.1 m).size, .inr ⟨m, ha.build m rfl, build_ready env w.io hw.1 m⟩⟩,
      [], ?_, (m.build_out env w.io w.box.buf).2, by simp⟩
    rw [List.append_nil]
    exact (m.build_out env w.io w.box.buf).1
  | send dest =>
    obtain ⟨outs, ho, hr, h⟩ := netSend_out env hw w.io dest
    exact ⟨hw, outs, ho, hr, fun o hmem => hnil (h o hmem)⟩
  | probe box dest =>
    obtain ⟨outs, ho, hr, h⟩ := netSend_out env (ha.probe box dest rfl) w.io dest
    exact ⟨hw, outs, ho, hr, fun o hmem => hnil (h o hmem)⟩
  | forward peer n =>
    obtain ⟨outs, ho, hr, h⟩ := netSend_out env hw w.io peer.realAddr
    simp only [Act.exec]
    rcases hs : netSend env w.io w.box.buf w.box.len peer.realAddr with ⟨_ | _, io⟩ <;>
      rw [hs] at ho hr <;> exact ⟨hw, outs, ho, hr, fun o hmem => hnil (h o hmem)⟩
  | tunWrite pkt =>
    exact ⟨hw, [.tunWrite pkt], rfl, rfl, by rintro o ho; rw [List.mem_singleton.1 ho]; simp [OutBy]⟩
  | event e =>
    simp only [Act.exec, appEvent]
    split_ifs
    · exact ⟨hw, [.event e], rfl, rfl, by rintro o ho; rw [List.mem_singleton.1 ho]; simp [OutBy]⟩
    · exact ⟨hw, [], by simp⟩

/-- **Acts and outputs.**  Acts only add outputs, and each of them is accounted for. -/
theorem runActs_out (env : Env) {w : Work} {acts : List Act} (ha : ∀ a ∈ acts, a.Within P)
    (hw : w.box.Within P) :
    (runActs env w acts).box.Within P ∧ ∃ outs, (runActs env w acts).io.out = w.io.out ++ outs ∧
      (runActs env w acts).io.running = w.io.running ∧ ∀ o ∈ outs, OutBy P env acts o := by
  induction acts generalizing w with
  | nil => exact ⟨hw, [], by simp⟩
  | cons a acts ih =>
    obtain ⟨hbox, outs₁, ho₁, hr₁, h₁⟩ := Act.exec_out env (ha a (by simp)) hw
    obtain ⟨hbox₂, outs₂, ho₂, hr₂, h₂⟩ := ih (fun b hb => ha b (by simp [hb])) hbox
    refine ⟨hbox₂, outs₁ ++ outs₂, ?_, hr₂.trans hr₁, fun o ho => ?_⟩
    · rw [runActs_cons, ho₂, ho₁, List.append_assoc]
    · rcases List.mem_append.1 ho with ho | ho
      · exact (h₁ o ho).mono (by simp)
      · exact (h₂ o ho).mono (fun b hb => by simp [hb])

theorem finish_out (env : Env) (io : Proc) {locked : Server × List Act} (ha : ∀ a ∈ locked.2, a.Within P) :
    ∃ outs, (finish env io locked).2.out = io.out ++ outs ∧
      (finish env io locked).2.running = io.running ∧ ∀ o ∈ outs, OutBy P env locked.2 o :=
  (runActs_out env ha Outbox.within_fresh).2

end Outputs

/-! ### Relaying -/

/-- A snapshot stays current as long as only `bytes_out` changes. -/
theorem isCurrent_of_same {srv srv' : Server} (h : srv.SameButBytesOut srv') {i : Slot}
    (hact : (srv.peers i).active = true) :
    (serverSnapshotPeerLocked srv i).isCurrent srv' = true := by
  simp [ServerPeerSnapshot.isCurrent, serverSnapshotPeerLocked, Peer.holds_iff, Peer.isAt_iff,
    h.active, h.virtIp, h.realAddr, hact]

/-- The table in which `bytes_out` has grown by `n` for the slots that `got` names. -/
def Server.countOut (srv : Server) (n : UInt64) (got : Slot → Bool) : Server :=
  { srv with
    peers := fun i =>
      if got i then { srv.peers i with bytesOut := (srv.peers i).bytesOut + n }
      else srv.peers i }

theorem Server.countOut_same (srv : Server) (n : UInt64) (got : Slot → Bool) :
    srv.SameButBytesOut (srv.countOut n got) := by
  refine ⟨rfl, fun i => ?_⟩
  simp only [Server.countOut]
  split_ifs <;> rfl

theorem Server.countOut_none (srv : Server) (n : UInt64) : srv.countOut n (fun _ => false) = srv := by
  simp [Server.countOut]

theorem serverAddPeerBytesOut_countOut (srv : Server) (n : UInt64) {got : Slot → Bool} {i : Slot}
    (hact : (srv.peers i).active = true) (hi : got i = false) :
    serverAddPeerBytesOut (srv.countOut n got) (serverSnapshotPeerLocked srv i) n =
      srv.countOut n (Function.update got i true) := by
  have hcur := isCurrent_of_same (srv.countOut_same n got) hact
  have hsame : (srv.countOut n got).peers i = srv.peers i := by simp [Server.countOut, hi]
  have hidx : (serverSnapshotPeerLocked srv i).idx = i := rfl
  rcases serverAddPeerBytesOut_cases (srv.countOut n got) (serverSnapshotPeerLocked srv i) n with
    ⟨hn | hc, h⟩ | ⟨-, -, h⟩
  · rw [h]
    subst hn
    simp [Server.countOut]
  · rw [hcur] at hc
    cases hc
  · rw [h, hidx, hsame]
    simp only [Server.setPeer, Server.countOut, Server.mk.injEq, and_true]
    funext j
    by_cases hj : j = i
    · subst hj; simp
    · simp [hj]

/-- The datagrams that a list of slots got, in order. -/
def datagrams (slots : List Slot) (got : Slot → Option Datagram) : List Out :=
  slots.filterMap fun i => (got i).map Out.datagram

/-- The datagram reached the peer's side of `sendto`. -/
def wasSent (got : Slot → Option Datagram) (i : Slot) : Bool := (got i).any Datagram.sent

/-- Sending a buffer with `m` to one more peer. -/
theorem Act.exec_forward (env : Env) (srv : Server) (n : UInt64) {m : Msg} {i : Slot}
    (hact : (srv.peers i).active = true) {sent : Slot → Bool} (hsent : sent i = false) (io : Proc)
    {box : Outbox} (hbox : box.Ready m) :
    ∃ (o : Option Datagram) (io' : Proc),
      (Act.forward (serverSnapshotPeerLocked srv i) n).exec env ⟨srv.countOut n sent, io, box⟩ =
        ⟨srv.countOut n (Function.update sent i (o.any Datagram.sent)), io', box⟩ ∧
      io'.out = io.out ++ (o.map Out.datagram).toList ∧ io'.running = io.running ∧
      (∀ d, o = some d → d.dest = (srv.peers i).realAddr ∧
        d.Carries env.aead env.key m.type.code m.payload) ∧
      (env.RandomWorks → box.len ≠ none → o.isSome) := by
  have hupd : srv.countOut n sent = srv.countOut n (Function.update sent i false) := by
    rw [← hsent, Function.update_eq_self]
  rcases send_cases env io hbox (srv.peers i).realAddr with
    ⟨hfail, io₁, hout, hrun, h⟩ | ⟨d, io₁, hsentd, h⟩
  · refine ⟨none, io₁, ?_, by simpa using hout, hrun, by simp, fun hr hl => ?_⟩
    · simp only [Act.exec, serverSnapshotPeerLocked, h, hupd, Option.any_none]
    · rcases hfail with hnone | hnr
      · exact absurd hnone hl
      · exact absurd hr hnr
  · refine ⟨some d, io₁, ?_, by simpa using hsentd.out, hsentd.running, ?_, by simp⟩
    · rw [Option.any_some]
      cases hd : d.sent with
      | false =>
        rw [hd] at h
        simp only [Act.exec, serverSnapshotPeerLocked, h, hupd]
      | true =>
        rw [hd] at h
        have hadd := serverAddPeerBytesOut_countOut srv n hact hsent
        rw [serverSnapshotPeerLocked] at hadd
        simp only [Act.exec, serverSnapshotPeerLocked, h, hadd]
    · rintro d' ⟨⟩
      exact ⟨hsentd.dest, hsentd.carries⟩

/-- **Relaying.**  Sending a buffer with `m` to the peers in `slots` gives each at most one
datagram, with `m` and to its endpoint, and `bytes_out` grows for exactly those whose `sendto`
succeeded.  With a working random source every peer gets one. -/
theorem runActs_forward (env : Env) (srv : Server) (n : UInt64) {m : Msg} {slots : List Slot}
    (hnodup : slots.Nodup) (hact : ∀ i ∈ slots, (srv.peers i).active = true) :
    ∀ (io : Proc) (box : Outbox), box.Ready m → ∀ sent : Slot → Bool, (∀ i ∈ slots, sent i = false) →
    ∃ got : Slot → Option Datagram, ∃ io' : Proc,
      runActs env ⟨srv.countOut n sent, io, box⟩
          (slots.map fun i => .forward (serverSnapshotPeerLocked srv i) n) =
        ⟨srv.countOut n (fun i => sent i || wasSent got i), io', box⟩ ∧
      io'.out = io.out ++ datagrams slots got ∧ io'.running = io.running ∧
      (∀ i d, got i = some d → i ∈ slots ∧ d.dest = (srv.peers i).realAddr ∧
        d.Carries env.aead env.key m.type.code m.payload) ∧
      (env.RandomWorks → box.len ≠ none → ∀ i ∈ slots, (got i).isSome) := by
  induction slots with
  | nil =>
    intro io box _ sent _
    refine ⟨fun _ => none, io, ?_, ?_, rfl, by simp, by simp⟩
    · simp [wasSent]
    · simp [datagrams]
  | cons i slots ih =>
    intro io box hbox sent hsent
    obtain ⟨hi, hnodup⟩ := List.nodup_cons.1 hnodup
    have hne : ∀ j ∈ slots, j ≠ i := fun j hj h => hi (h ▸ hj)
    have hsi : sent i = false := hsent i (by simp)
    -- the head of the list decides what `got i` is, the induction hypothesis the rest
    obtain ⟨o, io₁, hexec, hout, hrun, hcar, hworks⟩ :=
      Act.exec_forward env srv n (hact i (by simp)) hsi io hbox
    obtain ⟨got, io', hrun', hout', hr', hc', hw'⟩ := ih hnodup
      (fun j hj => hact j (by simp [hj])) io₁ box hbox (Function.update sent i (o.any Datagram.sent))
      fun j hj => by rw [Function.update_of_ne (hne j hj)]; exact hsent j (by simp [hj])
    have hgoti : got i = none := by
      cases hg : got i with
      | none => rfl
      | some d => exact absurd (hc' i d hg).1 hi
    refine ⟨Function.update got i o, io', ?_, ?_, hr'.trans hrun, ?_, ?_⟩
    · rw [List.map_cons, runActs_cons, hexec, hrun']
      congr 2
      funext j
      by_cases hj : j = i
      · subst hj; simp [wasSent, hgoti, hsi]
      · simp [wasSent, hj]
    · have hrest : datagrams slots (Function.update got i o) = datagrams slots got := by
        apply List.filterMap_congr
        intro j hj
        rw [Function.update_of_ne (hne j hj)]
      rw [hout', hout, List.append_assoc, ← hrest]
      cases o <;> simp [datagrams]
    · intro j d hj
      by_cases hji : j = i
      · subst hji
        rw [Function.update_self] at hj
        exact ⟨by simp, hcar d hj⟩
      · rw [Function.update_of_ne hji] at hj
        obtain ⟨hmem, h⟩ := hc' j d hj
        exact ⟨by simp [hmem], h⟩
    · intro hr hl j hj
      by_cases hji : j = i
      · subst hji; rw [Function.update_self]; exact hworks hr hl
      · rw [Function.update_of_ne hji]
        exact hw' hr hl j ((List.mem_cons.1 hj).resolve_left hji)

end Tund
