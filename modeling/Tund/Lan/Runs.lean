import Tund.Lan.Link
import Tund.Server.Isolation
import Tund.Server.Timeout

/-!
# Runs of the network, put together from parts

What a REGISTER, a pass of the timeout thread, a new process and a delivery do to the
whole network, each as one stretch of a run.  The stretches say all that the next one
needs: the server's table, what has been said to each address, what has been printed, and
how many outside calls the server has made.
-/

namespace Tund

open Replica

/-! ### Outside calls -/

section Calls

variable (env : Env) (io : Proc)

theorem calls_protoNextSequence : (protoNextSequence env io).2.calls ≤ io.calls + 1 := by
  unfold protoNextSequence fetchAddSequence protoInitialSequence protoRandomBytes
  split_ifs
  · cases env.random io.calls <;> simp
  · simp

/-- A header takes a seed and a nonce from the random source. -/
theorem calls_protoWriteHdr (buf : Bytes) (type : UInt8) (payloadLen : UInt16) :
    (protoWriteHdr env io buf type payloadLen).2.2.calls ≤ io.calls + 2 := by
  have hnext := calls_protoNextSequence env io
  unfold protoWriteHdr
  split_ifs
  · simp
  · rcases hseq : protoNextSequence env io with ⟨_ | seq, io₁⟩ <;> rw [hseq] at hnext
    · exact hnext.trans (by omega)
    · have hle : io₁.calls + 1 ≤ io.calls + 2 := Nat.add_le_add_right hnext 1
      simp only [protoRandomBytes]
      cases env.random io₁.calls <;> exact hle

theorem calls_build (buf : Bytes) (m : Msg) : (m.build env io buf).2.2.calls ≤ io.calls + 2 := by
  by_cases ht : m.type = .peerList
  · obtain ⟨entries, rfl⟩ := Msg.eq_peerList_of_type ht
    exact calls_protoWriteHdr env io _ _ _
  · rw [Msg.build_eq env io buf ht, protoBuild]
    have hhdr := calls_protoWriteHdr env io buf m.type.code (UInt16.ofNat m.payload.length)
    split <;> rename_i heq <;> rw [heq] at hhdr <;> exact hhdr

theorem calls_protoEncrypt (buf : Bytes) (len : ℕ) :
    (protoEncrypt env io buf len).2.2.calls ≤ io.calls + 2 := by
  unfold protoEncrypt
  split_ifs
  · simp
  · split
    · simp
    · rename_i type payloadLen _
      simp only
      split_ifs
      · simp
      · simp
      · have hhdr := calls_protoWriteHdr env io buf type (UInt16.ofNat (len - tundHdrSize))
        split <;> rename_i heq <;> rw [heq] at hhdr <;> exact hhdr

theorem calls_netSend (buf : Bytes) (len : Option ℕ) (dest : SockAddr) :
    (netSend env io buf len dest).2.calls ≤ io.calls + 3 := by
  unfold netSend
  split
  · simp
  · rename_i len
    split_ifs
    · simp
    · simp
    · have henc := calls_protoEncrypt env io (buf.take len) len
      split <;> rename_i heq <;> rw [heq] at henc
      · exact henc.trans (by omega)
      · exact Nat.add_le_add_right henc 1

end Calls

theorem Act.exec_calls (env : Env) (w : Work) (a : Act) :
    (a.exec env w).io.calls ≤ w.io.calls + 3 := by
  cases a with
  | build m => exact (calls_build env w.io w.box.buf m).trans (by omega)
  | send dest => exact calls_netSend env w.io w.box.buf w.box.len dest
  | probe box dest => exact calls_netSend env w.io box.buf box.len dest
  | forward peer n =>
    have hsend := calls_netSend env w.io w.box.buf w.box.len peer.realAddr
    simp only [Act.exec]
    split <;> rename_i heq <;> rw [heq] at hsend <;> exact hsend
  | tunWrite pkt => simp [Act.exec, Tund.tunWrite]
  | event e =>
    simp only [Act.exec, appEvent]
    split_ifs <;> simp

/-! ### Acts -/

theorem eventsOf_netSend (env : Env) (io : Proc) (buf : Bytes) (len : Option ℕ) (dest : SockAddr) :
    eventsOf (netSend env io buf len dest).2.out = eventsOf io.out := by
  rcases netSend_shows env io buf len dest with hout | ⟨seq, d, io₁, -, -, -, -, h⟩
  · rw [hout]
  · rw [h, eventsOf_append]
    simp [eventsOf]

/-- An act prints what it should. -/
theorem Act.exec_prints {env : Env} (hjson : env.jsonEvents = true) (w : Work) (a : Act) :
    (a.exec env w).io.tracker = run w.io.tracker a.prints := by
  have hsend : ∀ buf len dest, (netSend env w.io buf len dest).2.tracker = w.io.tracker :=
    fun buf len dest => tracker_of_events (eventsOf_netSend env w.io buf len dest)
  cases a with
  | build m =>
    apply tracker_of_events
    exact congrArg eventsOf (m.build_out env w.io w.box.buf).1
  | send dest => exact hsend _ _ _
  | probe box dest => exact hsend _ _ _
  | forward peer n =>
    have hsame := hsend w.box.buf w.box.len peer.realAddr
    simp only [Act.exec]
    rcases hr : netSend env w.io w.box.buf w.box.len peer.realAddr with ⟨_ | _, io⟩ <;>
      rw [hr] at hsame <;> exact hsame
  | tunWrite pkt =>
    apply tracker_of_events
    simp [Act.exec, Tund.tunWrite, eventsOf]
  | event e =>
    apply tracker_of_event
    simp only [Act.exec, appEvent, hjson, if_true]

/-- Thread `t` of the server has done all its acts, and nothing else has happened. -/
structure Lan.Said (t : ThreadId) (l l' : Lan) : Prop where
  hubAddr : l'.hubAddr = l.hubAddr
  nodes : l'.nodes = l.nodes
  got : l'.got = l.got
  accepted : l'.hub.accepted = l.hub.accepted
  others : ∀ t' ≠ t, l'.hub.threads t' = l.hub.threads t'
  rests : l'.hub.rests t = true
  srv : (∀ a ∈ (l.hub.threads t).acts, a.CountsNothing) → l'.hub.srv = l.hub.srv
  told : ∀ addr, l'.told addr = l.told addr ++ l.hub.tells t addr
  tracker : l'.hub.io.tracker = run l.hub.io.tracker (l.hub.prints t)
  calls : l'.hub.io.calls ≤ l.hub.io.calls + 3 * (l.hub.threads t).acts.length

/-- A thread does its acts while the other threads wait. -/
theorem leads_acts {ok : Lan → LanEvent → Prop} {env : Env} (hjson : env.jsonEvents = true)
    {t : ThreadId} {l : Lan}
    (hok : ∀ l' : Lan, (∀ t' ≠ t, l'.hub.threads t' = l.hub.threads t') →
      ok l' (.hub (.act env t))) :
    ∃ l', Trace.Reachable lanStep ok (· = l) l' ∧ l.Said t l' := by
  generalize hacts : (l.hub.threads t).acts = acts
  induction acts generalizing l with
  | nil =>
    refine ⟨l, .start rfl, rfl, rfl, rfl, rfl, fun _ _ => rfl, ?_, fun _ => rfl, fun addr => ?_, ?_, ?_⟩
    · rw [Hub.rests, hacts]
      rfl
    · rw [Hub.tells, hacts, notesFor, List.append_nil]
    · rw [Hub.prints, hacts]
      rfl
    · omega
  | cons a acts ih =>
    set l₁ := lanStep l (.hub (.act env t)) with hl₁
    have hhub : l₁.hub = l.hub.doAct env t a acts := by
      simp only [hl₁, lanStep, hubStep, hacts]
    have hothers : ∀ t' ≠ t, l₁.hub.threads t' = l.hub.threads t' := by
      intro t' ht'
      rw [hhub, doAct_threads_of_ne ht']
    have hself : l₁.hub.threads t = ⟨(a.exec env ⟨l.hub.srv, l.hub.io, (l.hub.threads t).box⟩).box,
        a.load (l.hub.threads t).msg, acts⟩ := by
      rw [hhub, doAct_threads_self]
    have hcalls : l₁.hub.io.calls ≤ l.hub.io.calls + 3 := by
      rw [hhub]
      exact a.exec_calls env _
    obtain ⟨l', hrun, hsaid⟩ := ih (l := l₁)
      (fun l' hl' => hok l' fun t' ht' => (hl' t' ht').trans (hothers t' ht'))
      (by rw [hself])
    have hstep : Trace.Reachable lanStep ok (· = l) l₁ :=
      .next _ (.start rfl) (hok l fun _ _ => rfl)
    refine ⟨l', hstep.trans hrun, hsaid.hubAddr, hsaid.nodes, hsaid.got, ?_, ?_, hsaid.rests, ?_,
      fun addr => ?_, ?_, ?_⟩
    · rw [hsaid.accepted, hhub]
      rfl
    · intro t' ht'
      rw [hsaid.others t' ht', hothers t' ht']
    · intro hnothing
      rw [hacts] at hnothing
      rw [hsaid.srv fun b hb => hnothing b (by rw [hself] at hb; simp [hb]), hhub]
      exact a.exec_srv env _ (hnothing a (by simp))
    · have hnotes : (HubEvent.act env t).notes l.hub addr = a.notes addr (l.hub.threads t).msg := by
        simp only [HubEvent.notes, hacts]
      have htold : l₁.told addr = l.told addr ++ a.notes addr (l.hub.threads t).msg := by
        rw [← hnotes]
        rfl
      rw [hsaid.told, htold, tells_doAct hacts, hhub, List.append_assoc]
    · have htracker : l₁.hub.io.tracker = run l.hub.io.tracker a.prints := by
        rw [hhub]
        exact a.exec_prints hjson _
      have hprints : l.hub.prints t = a.prints ++ l₁.hub.prints t := by
        rw [hhub]
        exact prints_doAct hacts
      rw [hsaid.tracker, htracker, hprints, run_append]
    · have hle := hsaid.calls
      rw [hself] at hle
      rw [hacts, List.length_cons]
      simp only at hle
      omega

/-! ### Packets -/

section Register

variable {env : Env} {srv : Server} {f : Frame} {src addr : SockAddr}
  (htype : f.type = MsgType.register.code)
include htype

theorem dispatch_register :
    serverDispatchLocked env srv f src = serverRegisterLocked env srv f.payload src f.sequence := by
  simp only [serverDispatchLocked, htype, MsgType.ofCode_code]

theorem length_registerActs_le :
    (serverDispatchLocked env srv f src).2.length ≤ 6 + tundMaxPeers := by
  rw [dispatch_register htype]
  rcases serverRegisterLocked_cases env srv f.payload src f.sequence with
    ⟨i, -, -, h⟩ | ⟨i, -, -, h⟩ | ⟨-, -, h⟩ | ⟨i, -, -, -, h⟩ <;> rw [h]
  · simp
  · exact Nat.le_add_right_of_le (by simp [assignActs])
  · simp
  · have hle := SlotTable.count_le fun j : Slot =>
      ((srv.join i (registeredPeer env i (serverAllocIp srv) f.payload src f.sequence)).peers
        j).active && decide (some i ≠ some j)
    simp only [joinActs, assignActs, serverSnapshotBroadcastLocked, List.length_append,
      List.length_map]
    exact Nat.add_le_add_left hle 6

/-- Whoever is not in the table hears nothing of a REGISTER from elsewhere, and is still not in
it. -/
theorem register_stranger (h : srv.WellFormed) (hseq : f.sequence ≠ 0) (hne : src ≠ addr)
    (hnot : ¬ srv.ActiveAt addr) :
    notesFor addr none (serverDispatchLocked env srv f src).2 = [] ∧
    ¬ (serverDispatchLocked env srv f src).1.ActiveAt addr := by
  rw [dispatch_register htype]
  rcases serverRegisterLocked_cases env srv f.payload src f.sequence with
    ⟨i, -, -, h'⟩ | ⟨i, hi, -, h'⟩ | ⟨-, -, h'⟩ | ⟨i, hnew, hi, hvip, h'⟩ <;> rw [h']
  · exact ⟨rfl, hnot⟩
  · have hact := active_of_find hi
    refine ⟨?_, ?_⟩
    · rw [notesFor_assignActs, if_neg fun haddr => hnot ⟨i, hact, haddr⟩]
    · rintro ⟨j, hj, hja⟩
      refine hnot ?_
      rw [srv.setPeer_peers] at hj hja
      split_ifs at hj hja
      · exact ⟨i, hact, hja⟩
      · exact ⟨j, hj, hja⟩
  · exact ⟨rfl, hnot⟩
  · set p := registeredPeer env i (serverAllocIp srv) f.payload src f.sequence with hp
    have hwf : (srv.join i p).WellFormed := h.join hseq hnew hi hvip
    have hstill : ¬ (srv.join i p).ActiveAt addr := fun hact =>
      hnot (activeAt_of_join hne hact (not_active_of_free hi))
    refine ⟨?_, hstill⟩
    have hout : addr ∉ (serverSnapshotBroadcastLocked (srv.join i p) (some i)).map
        ServerPeerSnapshot.realAddr := by
      rw [mem_broadcast_realAddr]
      rintro ⟨j, hj, -, hja⟩
      exact hstill ⟨j, hj, hja⟩
    rw [notesFor_joinActs p (hwf.nodup_broadcast (some i)), if_neg (show p.realAddr ≠ addr from hne),
      if_neg hout]
    rfl

end Register

/-- The receive loop has handled the REGISTER `f` from `src` and done all acts, and nothing else has
happened. -/
structure Lan.Served (env : Env) (f : Frame) (src : SockAddr) (l l' : Lan) : Prop where
  hubAddr : l'.hubAddr = l.hubAddr
  nodes : l'.nodes = l.nodes
  got : l'.got = l.got
  accepted : l'.hub.accepted = none
  others : ∀ t ≠ .receive, l'.hub.threads t = l.hub.threads t
  rests : l'.hub.rests .receive = true
  srv : l'.hub.srv = (serverDispatchLocked env l.hub.srv f src).1
  told : ∀ addr, l'.told addr =
    l.told addr ++ notesFor addr none (serverDispatchLocked env l.hub.srv f src).2
  tracker : l'.hub.io.tracker =
    run l.hub.io.tracker (printsOf (serverDispatchLocked env l.hub.srv f src).2)
  calls : l'.hub.io.calls ≤
    l.hub.io.calls + 3 * (serverDispatchLocked env l.hub.srv f src).2.length

theorem Lan.Served.calls_le {env : Env} {f : Frame} {src : SockAddr} {l l' : Lan}
    (h : l.Served env f src l') (htype : f.type = MsgType.register.code) :
    l'.hub.io.calls ≤ l.hub.io.calls + 1000 := by
  have hlen : 3 * (serverDispatchLocked env l.hub.srv f src).2.length ≤ 1000 :=
    (Nat.mul_le_mul_left 3 (length_registerActs_le htype)).trans (by decide)
  exact h.calls.trans (Nat.add_le_add_left hlen _)

theorem Lan.Served.stranger {env : Env} {f : Frame} {src addr : SockAddr} {l l' : Lan}
    (h : l.Served env f src l') (htype : f.type = MsgType.register.code)
    (hwf : l.hub.srv.WellFormed) (hseq : f.sequence ≠ 0) (hne : src ≠ addr)
    (hnot : ¬ l.hub.srv.ActiveAt addr) :
    l'.told addr = l.told addr ∧ ¬ l'.hub.srv.ActiveAt addr := by
  obtain ⟨hnotes, hact⟩ := register_stranger htype hwf hseq hne hnot
  rw [h.told, hnotes, List.append_nil, h.srv]
  exact ⟨rfl, hact⟩

theorem Lan.Served.idle {env : Env} {f : Frame} {src : SockAddr} {l l' : Lan}
    (h : l.Served env f src l') (hidle : l.hub.Idle) : l'.hub.Idle := by
  refine ⟨h.accepted, fun t => ?_⟩
  by_cases ht : t = .receive
  · rw [ht]
    exact h.rests
  · rw [Hub.rests, h.others t ht]
    exact hidle.2 t

/-- The receive loop reads a REGISTER and handles it while the other threads wait. -/
theorem leads_register {ok : Lan → LanEvent → Prop} {env : Env} (hjson : env.jsonEvents = true)
    {wire : Bytes} {f : Frame} {src : SockAddr} {l : Lan}
    (hread : (netRecv env.aead env.key wire).bind readFrame = some f)
    (htype : f.type = MsgType.register.code) (hrest : l.hub.rests .receive = true)
    (hnone : l.hub.accepted = none)
    (hreceive : ok l (.hub (.receive env wire src)))
    (hdispatch : ok { l with hub := { l.hub with accepted := some (f, src) } } (.hub (.dispatch env)))
    (hact : ∀ l' : Lan, (∀ t ≠ .receive, l'.hub.threads t = l.hub.threads t) →
      ok l' (.hub (.act env .receive))) :
    ∃ l', Trace.Reachable lanStep ok (· = l) l' ∧ l.Served env f src l' := by
  have hcount : ∀ a ∈ (serverDispatchLocked env l.hub.srv f src).2, a.CountsNothing :=
    serverDispatchLocked_counts (by rw [htype]; decide)
  have htold : ∀ l : Lan, (fun addr => l.told addr ++ []) = l.told := fun l => by simp
  have hfirst : lanStep l (.hub (.receive env wire src)) =
      { l with hub := { l.hub with accepted := some (f, src) } } := by
    simp only [lanStep, hubStep, hrest, hnone, hread, htype, HubEvent.notes, htold]
    rfl
  have hstep : Trace.Reachable lanStep ok (· = l) _ := .next _ (.start rfl) hreceive
  rw [hfirst] at hstep
  have hstep := hstep.next _ hdispatch
  have hsecond : lanStep { l with hub := { l.hub with accepted := some (f, src) } }
      (.hub (.dispatch env)) = { l with
        hub := (l.hub.begin .receive (serverDispatchLocked env l.hub.srv f src).1
          (serverDispatchLocked env l.hub.srv f src).2) } := by
    simp only [lanStep, hubStep, HubEvent.notes, htold, Hub.begin, hnone]
  rw [hsecond] at hstep
  clear hsecond hfirst
  generalize hr : serverDispatchLocked env l.hub.srv f src = r at hcount hstep
  set l₁ : Lan := { l with hub := l.hub.begin .receive r.1 r.2 } with hl₁
  have hothers : ∀ t ≠ .receive, l₁.hub.threads t = l.hub.threads t := fun t ht =>
    begin_threads_of_ne ht
  have hacts : (l₁.hub.threads .receive).acts = r.2 := by
    rw [hl₁, Hub.begin]
    simp [Thread.begin]
  obtain ⟨l', hrun, hsaid⟩ := leads_acts hjson (l := l₁)
    fun l' hl' => hact l' fun t ht => (hl' t ht).trans (hothers t ht)
  refine ⟨l', hstep.trans hrun, hsaid.hubAddr, hsaid.nodes, hsaid.got, hsaid.accepted.trans hnone,
    fun t ht => (hsaid.others t ht).trans (hothers t ht), hsaid.rests, ?_, fun addr => ?_, ?_, ?_⟩
  · rw [hr]
    exact hsaid.srv (by rw [hacts]; exact hcount)
  · rw [hr, hsaid.told]
    exact congrArg (l.told addr ++ ·) (tells_begin_self l.hub .receive r.1 r.2 addr)
  · rw [hr, hsaid.tracker]
    exact congrArg (run l.hub.io.tracker) (prints_begin_self l.hub .receive r.1 r.2)
  · rw [hr]
    have hle := hsaid.calls
    rw [hacts] at hle
    exact hle

/-! ### Deliveries -/

/-- The next datagram for `addr` is no longer on its way, and nothing else has happened elsewhere. -/
structure Lan.Gave (addr : SockAddr) (l l' : Lan) : Prop where
  hubAddr : l'.hubAddr = l.hubAddr
  hub : l'.hub = l.hub
  nodes : ∀ a ≠ addr, l'.nodes a = l.nodes a
  told : l'.told addr = (l.told addr).tail
  others : ∀ a ≠ addr, l'.told a = l.told a

section Deliver

variable {p q : Prop} {aead : Aead} {key : Bytes} {l : Lan} {addr : SockAddr} {note : Note}
  {notes : List Note} {env : Env}

/-- There is a datagram for each note. -/
theorem Lan.Linked.flight_eq (h : l.Linked p q aead key) (htold : l.told addr = note :: notes) :
    ∃ wire rest, l.flight addr = wire :: rest ∧ Shows aead key wire note := by
  have hshows := (h.link addr).shows
  rw [htold] at hshows
  obtain ⟨wire, rest, hfirst, -, hflight⟩ := List.forall₂_cons_right_iff.1 hshows
  exact ⟨wire, rest, hflight, hfirst⟩

theorem Lan.Linked.flight_nil (h : l.Linked p q aead key) (htold : l.told addr = []) :
    l.flight addr = [] := by
  have hshows := (h.link addr).shows
  rw [htold] at hshows
  exact List.forall₂_nil_right_iff.1 hshows

/-- The next datagram arrives. -/
theorem Lan.Linked.delivers (h : l.Linked p q aead key) (env : Env)
    (htold : l.told addr = note :: notes) :
    ∃ wire, Shows aead key wire note ∧ note.Pooled ∧
      (l.nodes addr).cli.takes aead key wire = true ∧
      (lanStep l (.deliver addr env)).nodes addr =
        (l.nodes addr).arrive env (.datagram wire (l.nodes addr).cli.serverAddr) ∧
      l.Gave addr (lanStep l (.deliver addr env)) := by
  obtain ⟨wire, rest, hflight, hshow⟩ := h.flight_eq htold
  have hl := h.link addr
  have hstep : lanStep l (.deliver addr env) =
      (l.setNode addr ((l.nodes addr).arrive env (.datagram wire l.hubAddr))).next addr := by
    simp only [lanStep, hflight]
  refine ⟨wire, hshow, hl.pooled note (by simp [htold]),
    hl.takes h.sound.numbered hflight hshow.authentic, ?_, ?_⟩
  · rw [hstep, hl.serverAddr]
    simp [Lan.next, Lan.setNode]
  · rw [hstep]
    refine ⟨rfl, rfl, fun a ha => ?_, ?_, fun a ha => ?_⟩
    · simp [Lan.next, Lan.setNode, ha]
    · simp [Lan.next, Lan.setNode]
    · simp [Lan.next, Lan.setNode, ha]

/-- ASSIGN ends the handshake. -/
theorem Lan.Linked.leads_assign {ok : Lan → LanEvent → Prop} (h : l.Linked p q aead key)
    (ha : env.aead = aead) (hk : env.key = key) {left : ℕ}
    (hphase : (l.nodes addr).phase = .await left) (htold : l.told addr = .assign :: notes)
    (hok : ok l (.deliver addr env)) :
    ∃ l', Trace.Reachable lanStep ok (· = l) l' ∧ (l'.nodes addr).phase = .running ∧
      (l'.nodes addr).io = (l.nodes addr).io ∧
      (l'.nodes addr).cli.lookup = (l.nodes addr).cli.lookup ∧ l.Gave addr l' := by
  obtain ⟨wire, hshow, -, htakes, hnode, hgave⟩ := h.delivers env htold
  obtain ⟨hsame, hassign, -⟩ :=
    ClientNode.arrive_awaiting ha hk (h.link addr).tidy hphase hshow htakes
  refine ⟨_, .next _ (.start rfl) hok, ?_⟩
  rw [hnode]
  refine ⟨hassign rfl, ?_, hsame.lookup, hgave⟩
  simp only [ClientNode.arrive, hphase]
  split <;> rfl

/-- In the handshake anything else costs an attempt. -/
theorem Lan.Linked.leads_wasted {ok : Lan → LanEvent → Prop} (h : l.Linked p q aead key)
    (ha : env.aead = aead) (hk : env.key = key) {left : ℕ}
    (hphase : (l.nodes addr).phase = .await left) (htold : l.told addr = note :: notes)
    (hnote : note ≠ .assign) (hok : ok l (.deliver addr env)) :
    ∃ l', Trace.Reachable lanStep ok (· = l) l' ∧ (l'.nodes addr).phase = .attempt left ∧
      (l'.nodes addr).io = (l.nodes addr).io ∧
      (l'.nodes addr).cli.lookup = (l.nodes addr).cli.lookup ∧ l.Gave addr l' := by
  obtain ⟨wire, hshow, -, htakes, hnode, hgave⟩ := h.delivers env htold
  obtain ⟨hsame, -, hother⟩ :=
    ClientNode.arrive_awaiting ha hk (h.link addr).tidy hphase hshow htakes
  refine ⟨_, .next _ (.start rfl) hok, ?_⟩
  rw [hnode]
  refine ⟨hother hnote, ?_, hsame.lookup, hgave⟩
  simp only [ClientNode.arrive, hphase]
  split <;> rfl

/-- Whoever has registered reads what is new. -/
theorem Lan.Linked.leads_news {ok : Lan → LanEvent → Prop} (h : l.Linked p q aead key)
    (ha : env.aead = aead) (hk : env.key = key) (hphase : (l.nodes addr).phase = .running)
    (hio : (l.nodes addr).io.running = true) (htold : l.told addr = note :: notes)
    (hok : ok l (.deliver addr env)) :
    ∃ l', Trace.Reachable lanStep ok (· = l) l' ∧ (l'.nodes addr).phase = .running ∧
      (note.ops ≠ [] → (l'.nodes addr).io.running = true) ∧
      (l'.nodes addr).cli.lookup = run (l.nodes addr).cli.lookup note.ops ∧ l.Gave addr l' := by
  obtain ⟨wire, hshow, hpool, htakes, hnode, hgave⟩ := h.delivers env htold
  obtain ⟨hnew, hrun⟩ :=
    ClientNode.arrive_running ha hk (h.link addr).tidy hphase hio hshow htakes hpool
  refine ⟨_, .next _ (.start rfl) hok, ?_⟩
  rw [hnode]
  refine ⟨hrun, fun hops => ?_, hnew.lookup, hgave⟩
  obtain ⟨m, rfl, hlen, seq, nonce, hseq, hn, hwire⟩ := hshow
  have hm : m.type ≠ .disconnect := by
    intro htype
    cases m <;> first | exact hops rfl | cases htype
  subst ha hk
  have hcarries : Datagram.Carries env.aead env.key ⟨addr, [], wire, true⟩ m.type.code m.payload :=
    ⟨hlen, seq, nonce, hseq, hn, hwire⟩
  exact (ClientNode.arrive_runs hphase hio hm hcarries _).2

/-- Whoever has registered reads all that is new, one datagram after the other. -/
theorem leads_all_news {ok : Lan → LanEvent → Prop} (ha : env.aead = aead) (hk : env.key = key)
    (hlinked : ∀ l', Trace.Reachable lanStep ok (· = l) l' → l'.hub = l.hub →
      l'.Linked p q aead key)
    (hphase : (l.nodes addr).phase = .running) (hio : (l.nodes addr).io.running = true)
    (htold : l.told addr = notes ++ [note]) (hops : ∀ n ∈ notes, n.ops ≠ [])
    (hok : ∀ l' : Lan, (l'.nodes addr).listens = true → ok l' (.deliver addr env)) :
    ∃ l', Trace.Reachable lanStep ok (· = l) l' ∧ (l'.nodes addr).phase = .running ∧
      (l'.nodes addr).cli.lookup = run (l.nodes addr).cli.lookup ((notes ++ [note]).flatMap Note.ops) ∧
      l'.hub = l.hub ∧ l'.told addr = [] ∧
      ∀ a ≠ addr, l'.nodes a = l.nodes a ∧ l'.told a = l.told a := by
  have hlistens : (l.nodes addr).listens = true := by
    rw [ClientNode.listens, hphase]
    exact hio
  induction notes generalizing l with
  | nil =>
    obtain ⟨l', hrun, hphase', -, hlookup, hgave⟩ :=
      (hlinked l (.start rfl) rfl).leads_news ha hk hphase hio htold (hok l hlistens)
    refine ⟨l', hrun, hphase', ?_, hgave.hub, ?_, fun a hne => ⟨hgave.nodes a hne, hgave.others a hne⟩⟩
    · rw [hlookup, List.nil_append, List.flatMap_singleton]
    · rw [hgave.told, htold]
      rfl
  | cons n notes ih =>
    obtain ⟨l₁, hrun₁, hphase₁, hio₁, hlookup₁, hgave₁⟩ :=
      (hlinked l (.start rfl) rfl).leads_news ha hk hphase hio htold (hok l hlistens)
    have htold₁ : l₁.told addr = notes ++ [note] := by
      rw [hgave₁.told, htold]
      rfl
    have hio₁ := hio₁ (hops n List.mem_cons_self)
    have hlistens₁ : (l₁.nodes addr).listens = true := by
      rw [ClientNode.listens, hphase₁]
      exact hio₁
    obtain ⟨l', hrun, hphase', hlookup, hhub, hnil, hrest⟩ := ih
      (fun l' hl' hhub => hlinked l' (hrun₁.trans hl') (hhub.trans hgave₁.hub)) hphase₁ hio₁ htold₁
      (fun m hm => hops m (List.mem_cons_of_mem _ hm)) hlistens₁
    refine ⟨l', hrun₁.trans hrun, hphase', ?_, hhub.trans hgave₁.hub, hnil, fun a hne => ?_⟩
    · rw [hlookup, hlookup₁, List.cons_append, List.flatMap_cons, run_append]
    · obtain ⟨hnodes, hothers⟩ := hrest a hne
      exact ⟨hnodes.trans (hgave₁.nodes a hne), hothers.trans (hgave₁.others a hne)⟩

/-- The next datagram is lost. -/
theorem Lan.Linked.leads_lose {ok : Lan → LanEvent → Prop} (h : l.Linked p q aead key)
    (htold : l.told addr = note :: notes) (hok : ok l (.lose addr)) :
    ∃ l', Trace.Reachable lanStep ok (· = l) l' ∧ l'.nodes = l.nodes ∧ l.Gave addr l' := by
  obtain ⟨wire, rest, hflight, -⟩ := h.flight_eq htold
  have hstep : lanStep l (.lose addr) = l.next addr := by
    simp only [lanStep, hflight]
  refine ⟨_, .next _ (.start rfl) hok, ?_⟩
  rw [hstep]
  refine ⟨rfl, rfl, rfl, fun _ _ => rfl, ?_, fun a ha => ?_⟩
  · simp [Lan.next]
  · simp [Lan.next, ha]

end Deliver

/-! ### Addresses without a process -/

theorem ClientNode.arrive_of_over {c : ClientNode} (h : c.phase.stage = .over) (env : Env)
    (a : Arrival) : c.arrive env a = c := by
  unfold ClientNode.arrive
  cases hphase : c.phase with
  | await left =>
    rw [hphase] at h
    cases h
  | running =>
    rw [hphase] at h
    cases h
  | _ => rfl

/-- What is on its way to an address without a process arrives and is lost. -/
theorem leads_drain_one {ok : Lan → LanEvent → Prop} {env : Env} {addr : SockAddr} {l : Lan}
    (hover : l.stage addr = .over)
    (hok : ∀ l' : Lan, l'.nodes = l.nodes → ok l' (.deliver addr env)) :
    ∃ l', Trace.Reachable lanStep ok (· = l) l' ∧ l'.hub = l.hub ∧ l'.nodes = l.nodes ∧
      l'.flight addr = [] ∧ ∀ a, l.flight a = [] → l'.flight a = [] := by
  generalize hflight : l.flight addr = wires
  induction wires generalizing l with
  | nil => exact ⟨l, .start rfl, rfl, rfl, hflight, fun _ h => h⟩
  | cons wire wires ih =>
    have hstep : lanStep l (.deliver addr env) = l.next addr := by
      simp only [lanStep, hflight]
      rw [ClientNode.arrive_of_over hover, Lan.setNode, Function.update_eq_self]
    have hreach : Trace.Reachable lanStep ok (· = l) (l.next addr) := by
      rw [← hstep]
      exact .next _ (.start rfl) (hok l rfl)
    have hnext : (l.next addr).flight addr = wires := by
      have hdrop : (l.hub.io.sentTo addr).drop (l.got addr) = wire :: wires := hflight
      simp only [Lan.flight, Lan.next, Function.update_self]
      exact (take_of_drop hdrop).2
    have hempty : ∀ a, l.flight a = [] → (l.next addr).flight a = [] := by
      intro a ha
      have hne : a ≠ addr := by
        rintro rfl
        rw [hflight] at ha
        cases ha
      simp only [Lan.flight, Lan.next, Function.update_of_ne hne]
      exact ha
    obtain ⟨l', hrun, hhub, hnodes, hnil, hrest⟩ := ih (l := l.next addr) hover hok hnext
    exact ⟨l', hreach.trans hrun, hhub, hnodes, hnil, fun a ha => hrest a (hempty a ha)⟩

theorem leads_drain {ok : Lan → LanEvent → Prop} {env : Env} (addrs : List SockAddr) {l : Lan}
    (hover : ∀ addr ∈ addrs, l.stage addr = .over)
    (hok : ∀ l' : Lan, l'.nodes = l.nodes → ∀ addr ∈ addrs, ok l' (.deliver addr env)) :
    ∃ l', Trace.Reachable lanStep ok (· = l) l' ∧ l'.hub = l.hub ∧ l'.nodes = l.nodes ∧
      (∀ addr ∈ addrs, l'.flight addr = []) ∧ ∀ a, l.flight a = [] → l'.flight a = [] := by
  induction addrs generalizing l with
  | nil => exact ⟨l, .start rfl, rfl, rfl, by simp, fun _ h => h⟩
  | cons addr addrs ih =>
    obtain ⟨l₁, hrun₁, hhub₁, hnodes₁, hnil₁, hrest₁⟩ := leads_drain_one (hover addr (by simp))
      fun l' hl' => hok l' hl' addr (by simp)
    obtain ⟨l₂, hrun₂, hhub₂, hnodes₂, hnil₂, hrest₂⟩ := ih (l := l₁)
      (fun a ha => by rw [Lan.stage, hnodes₁]; exact hover a (by simp [ha]))
      fun l' hl' a ha => hok l' (hl'.trans hnodes₁) a (by simp [ha])
    refine ⟨l₂, hrun₁.trans hrun₂, hhub₂.trans hhub₁, hnodes₂.trans hnodes₁, ?_,
      fun a ha => hrest₂ a (hrest₁ a ha)⟩
    intro a ha
    rcases List.mem_cons.1 ha with rfl | ha
    · exact hrest₂ a hnil₁
    · exact hnil₂ a ha

/-! ### New processes -/

/-- The process `c` at `addr` has sent a REGISTER and waits for the answer, and nothing else has
happened. -/
structure Lan.Asked (addr : SockAddr) (c : ClientNode) (left : ℕ) (l l' : Lan) : Prop where
  hub : l'.hub = l.hub
  told : l'.told = l.told
  others : ∀ a ≠ addr, l'.nodes a = l.nodes a
  phase : (l'.nodes addr).phase = .await left
  running : (l'.nodes addr).io.running = c.io.running
  lookup : (l'.nodes addr).cli.lookup = c.cli.lookup

section Process

variable {ok : Lan → LanEvent → Prop} {env : Env} (hr : env.RandomWorks) (hs : env.SendWorks)
  {addr : SockAddr} {l : Lan}
include hr hs

/-- An attempt of the handshake. -/
theorem leads_attempt {left : ℕ} (hphase : (l.nodes addr).phase = .attempt (left + 1))
    (hok : ok l (.node addr env .register)) :
    ∃ l', Trace.Reachable lanStep ok (· = l) l' ∧ l.Asked addr (l.nodes addr) left l' := by
  have hstep : Trace.Reachable lanStep ok (· = l) (lanStep l (.node addr env .register)) :=
    .next _ (.start rfl) hok
  obtain ⟨seq, nonce, d, io, -, -, hsend, -, hrun, -⟩ := sendMsg_numbered hr hs (l.nodes addr).io
    (Msg.length_payload_le (m := .register (l.nodes addr).cli.name) (by simp [Msg.type]))
    (l.nodes addr).cli.serverAddr
  have hregistered : (l.nodes addr).step (env, .register) =
      { l.nodes addr with io := io, phase := .await left } := by
    simp only [ClientNode.step, ClientNode.register, hphase, hsend]
  simp only [lanStep, hregistered] at hstep
  refine ⟨_, hstep, rfl, rfl, fun a ha => ?_, ?_, ?_, ?_⟩
  · simp [Lan.setNode, ha]
  · simp [Lan.setNode]
  · simpa [Lan.setNode] using hrun
  · simp [Lan.setNode]

/-- A new process sends its first REGISTER. -/
theorem leads_process {name : Bytes} (hstart : ok l (.start addr name))
    (hregister : ∀ l' : Lan, ok l' (.node addr env .register)) :
    ∃ l', Trace.Reachable lanStep ok (· = l) l' ∧
      l.Asked addr (.start addr l.hubAddr name) (tundRegisterRetries - 1) l' := by
  set l₁ := l.setNode addr (.start addr l.hubAddr name) with hl₁
  have hstep : Trace.Reachable lanStep ok (· = l) (lanStep l (.start addr name)) :=
    .next _ (.start rfl) hstart
  have hnode : l₁.nodes addr = .start addr l.hubAddr name := by simp [hl₁, Lan.setNode]
  have hphase : (l₁.nodes addr).phase = .attempt (tundRegisterRetries - 1 + 1) := by
    rw [hnode]
    rfl
  obtain ⟨l', hrun, hasked⟩ := leads_attempt hr hs hphase (hregister l₁)
  refine ⟨l', hstep.trans hrun, hasked.hub, hasked.told, fun a ha => ?_, hasked.phase, ?_, ?_⟩
  · rw [hasked.others a ha]
    simp [hl₁, Lan.setNode, ha]
  · rw [hasked.running, hnode]
  · rw [hasked.lookup, hnode]

end Process

theorem lookup_start (addr serverAddr : SockAddr) (name : Bytes) :
    (ClientNode.start addr serverAddr name).cli.lookup = fun _ => none := by
  funext v
  rw [lookup_eq_none_iff]
  exact fun _ => rfl

/-! ### The timeout thread -/

/-- The timeout thread has gone through the table and done nothing else yet. -/
structure Lan.Swept (env : Env) (l l' : Lan) : Prop where
  hubAddr : l'.hubAddr = l.hubAddr
  nodes : l'.nodes = l.nodes
  told : l'.told = l.told
  accepted : l'.hub.accepted = l.hub.accepted
  others : ∀ t ≠ .timeout, l'.hub.threads t = l.hub.threads t
  acts : ∃ box, l'.hub.threads .timeout = .begin (sweepActs l.hub.srv env.time box)
  srv : l'.hub.srv = l.hub.srv.swept env.time
  tracker : l'.hub.io.tracker = l.hub.io.tracker
  calls : l'.hub.io.calls ≤ l.hub.io.calls + 2

theorem lanStep_sweep {env : Env} {l : Lan} (hrest : l.hub.rests .timeout = true) :
    l.Swept env (lanStep l (.hub (.sweep env))) := by
  have hhub : hubStep l.hub (.sweep env) =
      { l.hub.begin .timeout (l.hub.srv.swept env.time)
          (sweepActs l.hub.srv env.time (Outbox.build env l.hub.io (.keepalive env.nowMs)).1) with
        io := (Outbox.build env l.hub.io (.keepalive env.nowMs)).2 } := by
    simp only [hubStep, hrest, Bool.not_true, Bool.false_eq_true, if_false, serverSweepLocked_eq]
  refine ⟨rfl, rfl, ?_, ?_, fun t ht => ?_, ?_, ?_, ?_, ?_⟩
  · simp [lanStep, HubEvent.notes]
  · simp only [lanStep, hhub]
    rfl
  · simp only [lanStep, hhub]
    exact begin_threads_of_ne ht
  · refine ⟨(Outbox.build env l.hub.io (.keepalive env.nowMs)).1, ?_⟩
    simp only [lanStep, hhub]
    exact begin_threads_self _ _ _ _
  · simp only [lanStep, hhub]
    rfl
  · simp only [lanStep, hhub]
    apply tracker_of_events
    rw [(Outbox.build_out env l.hub.io (.keepalive env.nowMs)).1]
  · simp only [lanStep, hhub]
    exact calls_build env l.hub.io _ (.keepalive env.nowMs)

end Tund
