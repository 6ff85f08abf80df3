import Tund.Client.Window
import Tund.Network.Security
import Tund.Sending
import Tund.Server.Numbers

/-!
# Reordering

What the client's window makes of the server's datagrams when the network reorders them.
The window counts sequence numbers, and the server draws its numbers for all peers from
one counter, so what a datagram can be overtaken by is measured in numbers: the window
refuses it exactly if a datagram whose number is at least 64 above its own was read
before (`Heard.takes_iff`).

`ClientNode.readsIn` are the datagrams that a client process reads from its server over
a sequence of events, in the order in which it reads them; `Heard` is the invariant that
ties them to the window.
-/

namespace Tund

/-- What the server has put on the network for an address, first sent first. -/
def ServerState.sentTo (s : ServerState) (addr : SockAddr) : List Bytes :=
  ((datagramsOf s.io.out).filter fun d => d.dest = addr && d.sent).map Datagram.wire

/-! ### The life of a client process -/

/-- The process takes a datagram from its socket. -/
def ClientNode.listens (c : ClientNode) : Bool :=
  match c.phase with
  | .await _ => true
  | .running => c.io.running
  | _ => false

/-- The datagram from the server that an event makes the process read. -/
def ClientNode.reads (c : ClientNode) : NodeEvent → List Bytes
  | .arrive arrival => if c.listens then arrival.fromServer c.cli.serverAddr else []
  | _ => []

theorem ClientNode.reads_cases (c : ClientNode) (e : NodeEvent) :
    c.reads e = [] ∨ ∃ wire, c.reads e = [wire] := by
  cases e with
  | arrive arrival =>
    unfold ClientNode.reads Arrival.fromServer
    simp only
    cases arrival with
    | datagram wire src =>
      simp only
      split_ifs
      · exact .inr ⟨wire, rfl⟩
      · exact .inl rfl
      · exact .inl rfl
    | _ => simp
  | _ => exact .inl rfl

theorem ClientNode.eq_datagram_of_reads {c : ClientNode} {arrival : Arrival} {wire : Bytes}
    (h : wire ∈ c.reads (.arrive arrival)) : ∃ src, arrival = .datagram wire src := by
  unfold ClientNode.reads Arrival.fromServer at h
  cases arrival with
  | datagram wire' src =>
    dsimp only at h
    split_ifs at h
    · exact ⟨src, by rw [List.mem_singleton.1 h]⟩
    · cases h
    · cases h
  | _ => simp at h

/-- The process after a sequence of events. -/
def ClientNode.life (c : ClientNode) (evs : List (Env × NodeEvent)) : ClientNode :=
  evs.foldl ClientNode.step c

/-- What the process reads from the server during a sequence of events. -/
def ClientNode.readsIn (c : ClientNode) : List (Env × NodeEvent) → List Bytes
  | [] => []
  | e :: evs => c.reads e.2 ++ (c.step e).readsIn evs

/-- The window takes the number of a datagram, in `client_handle_server_packet` or in the
handshake. -/
def Client.takes (aead : Aead) (key : Bytes) (cli : Client) (wire : Bytes) : Bool :=
  match (netRecv aead key wire).bind readFrame with
  | none => false
  | some f => (protoReplayAccept cli.serverReplay f.sequence).1

/-- The number that a datagram shows. -/
def wireNumber (wire : Bytes) : ℕ := ((protoReadSequence wire).getD 0).toNat

theorem ClientNode.life_append (c : ClientNode) (evs evs' : List (Env × NodeEvent)) :
    c.life (evs ++ evs') = (c.life evs).life evs' := List.foldl_append

theorem ClientNode.readsIn_append (c : ClientNode) (evs evs' : List (Env × NodeEvent)) :
    c.readsIn (evs ++ evs') = c.readsIn evs ++ (c.life evs).readsIn evs' := by
  induction evs generalizing c with
  | nil => rfl
  | cons e evs ih =>
    show c.reads e.2 ++ (c.step e).readsIn (evs ++ evs') = _
    rw [ih, ← List.append_assoc]
    rfl

/-! ### The window -/

section Window

variable {aead : Aead} {key : Bytes} {env : Env}

/-- An event shows the window exactly the datagrams that it makes the process read. -/
theorem ClientNode.step_window (ha : env.aead = aead) (hk : env.key = key) (c : ClientNode)
    (e : NodeEvent) :
    (c.step (env, e)).cli.serverReplay =
      (c.reads e).foldl (windowAfter aead key) c.cli.serverReplay := by
  subst ha
  subst hk
  cases e with
  | register =>
    simp only [ClientNode.step, ClientNode.register, ClientNode.reads, List.foldl_nil]
    split
    · rcases sendMsg env c.io (.register c.cli.name.1) c.cli.serverAddr with ⟨_ | _, io⟩ <;> rfl
    · rfl
  | keepalive =>
    simp only [ClientNode.step, ClientNode.keepalive, ClientNode.reads, List.foldl_nil]
    split <;> rfl
  | shutdown =>
    simp only [ClientNode.step, ClientNode.shutdown, ClientNode.reads, List.foldl_nil]
    split <;> rfl
  | tun pkt =>
    simp only [ClientNode.step, ClientNode.tun, ClientNode.reads, List.foldl_nil, clientTunPacket]
    split
    · split
      · rfl
      · rcases sendMsg env c.io (.data pkt) c.cli.serverAddr with ⟨_ | _, io⟩
        · rfl
        · simp only
          split_ifs
          · rfl
          · exact (clientAddPeerTraffic_keeps c.cli (protoGetDstIp pkt) 0 _).serverReplay
    · rfl
  | arrive arrival =>
    show (c.arrive env arrival).cli.serverReplay = _
    cases hphase : c.phase with
    | attempt left => simp [ClientNode.arrive, ClientNode.reads, ClientNode.listens, hphase]
    | ended => simp [ClientNode.arrive, ClientNode.reads, ClientNode.listens, hphase]
    | await left =>
      have hawait := clientAwait_window env c.cli arrival
      simp only [ClientNode.arrive, ClientNode.reads, ClientNode.listens, hphase, if_true]
      rcases hr : clientAwait env c.cli arrival with ⟨_ | _ | _, cli⟩ <;> rw [hr] at hawait
      · exact hawait
      · exact hawait
      · exact (clientMarkServerSeen_keeps env cli).serverReplay.trans hawait
    | running =>
      simp only [ClientNode.arrive, ClientNode.reads, ClientNode.listens, hphase]
      split_ifs
      · cases arrival with
        | datagram wire src => exact clientReceive_window env c.cli c.io wire src
        | _ => rfl
      · rfl

theorem ClientNode.step_serverAddr (c : ClientNode) (e : Env × NodeEvent) :
    (c.step e).cli.serverAddr = c.cli.serverAddr := by
  obtain ⟨env, e⟩ := e
  cases e with
  | register => exact (ClientNode.register_goes rfl rfl (fun _ => False) c).serverAddr
  | keepalive => exact (ClientNode.keepalive_goes rfl rfl (fun _ => False) c).serverAddr
  | shutdown => exact (ClientNode.shutdown_goes rfl rfl (fun _ => False) c).serverAddr
  | tun pkt => exact (ClientNode.tun_goes rfl rfl (fun _ => False) c pkt).serverAddr
  | arrive arrival => exact (ClientNode.arrive_goes rfl rfl c arrival).1.serverAddr

theorem ClientNode.life_serverAddr (c : ClientNode) (evs : List (Env × NodeEvent)) :
    (c.life evs).cli.serverAddr = c.cli.serverAddr := by
  induction evs generalizing c with
  | nil => rfl
  | cons e evs ih => exact (ih (c.step e)).trans (c.step_serverAddr e)

theorem ne_zero_of_protoReadSequence {buf : Bytes} {n : UInt64}
    (h : protoReadSequence buf = some n) : n ≠ 0 := by
  unfold protoReadSequence at h
  simp only at h
  split_ifs at h with h0
  cases h
  exact h0

/-- The datagram carries a message under the number that it shows. -/
def Authentic (aead : Aead) (key : Bytes) (wire : Bytes) : Prop :=
  ∃ f, (netRecv aead key wire).bind readFrame = some f ∧ protoReadSequence wire = some f.sequence

theorem Datagram.Carries.authentic {d : Datagram} {type : UInt8} {payload : Bytes}
    (h : d.Carries aead key type payload) : Authentic aead key d.wire := by
  obtain ⟨hp, seq, nonce, hs, hn, hw⟩ := h
  have hread : readFrame (frameBytes type seq nonce payload) = some ⟨type, payload, seq⟩ :=
    readFrame_frameBytes hs hn hp
  refine ⟨⟨type, payload, seq⟩, ?_, ?_⟩
  · rw [hw, netRecv_wireBytes hn hp]
    exact hread
  · rw [hw, wireBytes, wireHdr, List.append_assoc]
    exact protoReadSequence_hdrBytes _ hs

/-- The window stands for the datagrams read so far: what it took is among them, and none of them
is above its highest number. -/
structure Heard (w : ReplayWindow) (read : List Bytes) : Prop where
  tracks : ∃ log, w.Tracks log ∧ ∀ n ∈ log, ∃ wire ∈ read, protoReadSequence wire = some n
  le_highest : ∀ wire ∈ read, ∀ n, protoReadSequence wire = some n → n ≤ w.highest

theorem heard_reset : Heard protoReplayReset [] where
  tracks := ⟨[], tracks_reset, by simp⟩
  le_highest := by simp

theorem Authentic.takes_eq {cli : Client} {wire : Bytes} {f : Frame}
    (hf : (netRecv aead key wire).bind readFrame = some f) :
    cli.takes aead key wire = (protoReplayAccept cli.serverReplay f.sequence).1 := by
  rw [Client.takes, hf]

/-- Accepting a number moves the highest one up at most to it, and never down. -/
theorem protoReplayAccept_highest {w : ReplayWindow} {log : List UInt64} (h : w.Tracks log)
    (s : UInt64) (hs : s ≠ 0) :
    w.highest ≤ (protoReplayAccept w s).2.highest ∧ s ≤ (protoReplayAccept w s).2.highest := by
  rcases h.accept s with ⟨-, -, ht⟩ | ⟨hr, hnot⟩
  · refine ⟨?_, ht.le_highest s (by simp)⟩
    by_cases h0 : w.highest = 0
    · rw [h0]
      exact UInt64.zero_le
    · exact ht.le_highest _ (List.mem_append_left _ (h.highest_mem h0))
  · rw [hr]
    refine ⟨UInt64.le_rfl, ?_⟩
    by_contra hlt
    refine hnot ⟨hs, fun hmem => hlt (h.le_highest s hmem), .inr ?_⟩
    have hbelow : w.highest.toNat < s.toNat := UInt64.lt_iff_toNat_lt.1 (UInt64.not_le.1 hlt)
    omega

/-- Reading one more datagram of the server. -/
theorem Heard.read {w : ReplayWindow} {read : List Bytes} (h : Heard w read) {wire : Bytes}
    (hw : Authentic aead key wire) : Heard (windowAfter aead key w wire) (read ++ [wire]) := by
  obtain ⟨f, hf, hnum⟩ := hw
  obtain ⟨log, htracks, hlog⟩ := h.tracks
  have hseq : f.sequence ≠ 0 := ne_zero_of_protoReadSequence hnum
  have hafter : windowAfter aead key w wire = (protoReplayAccept w f.sequence).2 := by
    rw [windowAfter, hf]
  obtain ⟨hmono, hle⟩ := protoReplayAccept_highest htracks f.sequence hseq
  rw [hafter]
  refine ⟨?_, ?_⟩
  · have hold : ∀ n ∈ log, ∃ wire' ∈ read ++ [wire], protoReadSequence wire' = some n := by
      intro n hn
      obtain ⟨wire', hmem, hn'⟩ := hlog n hn
      exact ⟨wire', List.mem_append_left _ hmem, hn'⟩
    rcases htracks.accept f.sequence with ⟨-, -, ht⟩ | ⟨hr, -⟩
    · refine ⟨_, ht, fun n hn => ?_⟩
      rcases List.mem_append.1 hn with hn | hn
      · exact hold n hn
      · rw [List.mem_singleton.1 hn]
        exact ⟨wire, by simp, hnum⟩
    · rw [hr]
      exact ⟨log, htracks, hold⟩
  · intro wire' hmem n hn
    rcases List.mem_append.1 hmem with hmem | hmem
    · exact UInt64.le_trans (h.le_highest wire' hmem n hn) hmono
    · rw [List.mem_singleton.1 hmem, hnum] at hn
      cases hn
      exact hle

/-- **What the window takes.**  A datagram whose number no other one has is refused exactly if one
with a number at least 64 higher was read before. -/
theorem Heard.takes_iff {cli : Client} {read : List Bytes} (h : Heard cli.serverReplay read)
    {wire : Bytes} (hw : Authentic aead key wire)
    (hnew : ∀ wire' ∈ read, protoReadSequence wire' ≠ protoReadSequence wire) :
    cli.takes aead key wire = true ↔ ∀ wire' ∈ read, wireNumber wire' < wireNumber wire + 64 := by
  obtain ⟨f, hf, hnum⟩ := hw
  obtain ⟨log, htracks, hlog⟩ := h.tracks
  have hnumber : wireNumber wire = f.sequence.toNat := by rw [wireNumber, hnum]; rfl
  have hnotin : f.sequence ∉ log := by
    intro hmem
    obtain ⟨wire', hmem', hn⟩ := hlog _ hmem
    exact hnew wire' hmem' (hn.trans hnum.symm)
  -- every number read is at most the highest one, and the highest one was read
  have hle : ∀ wire' ∈ read, wireNumber wire' ≤ cli.serverReplay.highest.toNat := by
    intro wire' hmem
    cases hn : protoReadSequence wire' with
    | none => simp [wireNumber, hn]
    | some n =>
      have := UInt64.le_iff_toNat_le.1 (h.le_highest wire' hmem n hn)
      simpa [wireNumber, hn] using this
  have hseq : f.sequence ≠ 0 := ne_zero_of_protoReadSequence hnum
  rw [Authentic.takes_eq hf, hnumber]
  rcases htracks.accept f.sequence with ⟨htrue, ⟨-, -, hnear⟩, -⟩ | ⟨hr, hnot⟩
  · rw [htrue]
    refine ⟨fun _ wire' hmem => ?_, fun _ => rfl⟩
    have := hle wire' hmem
    rcases hnear with hnil | hnear
    · have h0 := htracks.eq_nil_iff.1 hnil
      rw [h0] at this
      simp at this
      omega
    · omega
  · rw [hr]
    refine ⟨nofun, fun hall => ?_⟩
    exfalso
    refine hnot ⟨hseq, hnotin, ?_⟩
    by_cases h0 : cli.serverReplay.highest = 0
    · exact .inl (htracks.eq_nil_iff.2 h0)
    · obtain ⟨wire', hmem, hn⟩ := hlog _ (htracks.highest_mem h0)
      have := hall wire' hmem
      simp only [wireNumber, hn, Option.getD_some] at this
      exact .inr this

/-- Over a whole life the window stands for what was read from the server. -/
theorem ClientNode.life_heard {c : ClientNode} {evs : List (Env × NodeEvent)} {read : List Bytes}
    (henv : ∀ e ∈ evs, e.1.aead = aead ∧ e.1.key = key)
    (hread : ∀ wire ∈ c.readsIn evs, Authentic aead key wire) (h : Heard c.cli.serverReplay read) :
    Heard (c.life evs).cli.serverReplay (read ++ c.readsIn evs) := by
  induction evs generalizing c read with
  | nil => simpa [ClientNode.life, ClientNode.readsIn] using h
  | cons e evs ih =>
    obtain ⟨env, e⟩ := e
    obtain ⟨ha, hk⟩ := henv (env, e) (by simp)
    have hnext : Heard (c.step (env, e)).cli.serverReplay (read ++ c.reads e) := by
      rw [c.step_window ha hk]
      have hsome : ∀ wire ∈ c.reads e, Authentic aead key wire :=
        fun wire hw => hread wire (List.mem_append_left _ hw)
      -- an event reads one datagram at most
      rcases c.reads_cases e with hnil | ⟨wire, hone⟩
      · rw [hnil]
        simpa using h
      · rw [hone] at hsome ⊢
        exact h.read (hsome wire (by simp))
    have := ih (fun e he => henv e (by simp [he]))
      (fun wire hw => hread wire (List.mem_append_right _ hw)) hnext
    rw [List.append_assoc] at this
    exact this

end Window

/-! ### The server's stream -/

theorem sentTo_sublist (s : ServerState) (addr : SockAddr) :
    (s.sentTo addr).Sublist ((datagramsOf s.io.out).map Datagram.wire) :=
  List.filter_sublist.map _

/-- In the order in which they were sent, the datagrams have increasing numbers. -/
theorem HubReachable.increasing {aead : Aead} {key : Bytes} {s : ServerState}
    (h : HubReachable aead key s) (hc : s.io.calls < 2 ^ 63) :
    ((datagramsOf s.io.out).map fun d => wireNumber d.wire).Pairwise (· < ·) := by
  obtain ⟨ns, hns, hsorted, -⟩ := (h.numbered hc).numbers
  have hnumbers : (datagramsOf s.io.out).map (fun d => wireNumber d.wire) = ns.map UInt64.toNat := by
    have := congrArg (List.map fun o : Option UInt64 => (o.getD 0).toNat) hns
    simpa [wireNumber, Function.comp_def] using this
  rw [hnumbers]
  exact List.pairwise_map.2 (hsorted.imp fun h => UInt64.lt_iff_toNat_lt.1 h)

/-- The datagrams for one address carry messages, under increasing numbers. -/
theorem HubReachable.sentTo {aead : Aead} {key : Bytes} {s : ServerState}
    (h : HubReachable aead key s) (hc : s.io.calls < 2 ^ 63) (addr : SockAddr) :
    (∀ wire ∈ s.sentTo addr, Authentic aead key wire) ∧
    (s.sentTo addr).Pairwise fun a b => wireNumber a < wireNumber b := by
  refine ⟨fun wire hw => ?_, ?_⟩
  · obtain ⟨d, hd, rfl⟩ := List.mem_map.1 ((sentTo_sublist s addr).subset hw)
    obtain ⟨m, hm⟩ := h.carries d hd
    exact hm.authentic
  · refine List.Pairwise.sublist (sentTo_sublist s addr) (List.pairwise_map.2 ?_)
    exact List.pairwise_map.1 (h.increasing hc)

/-- The type byte of a datagram is the one of its message. -/
theorem Datagram.Carries.typeByte {aead : Aead} {key : Bytes} {d : Datagram} {type : UInt8}
    {payload : Bytes} (h : d.Carries aead key type payload) : d.wire.getD 2 0 = type := by
  obtain ⟨-, seq, nonce, -, -, hw⟩ := h
  rw [hw]
  simp [wireBytes, wireHdr, hdrBytes]

theorem HubReachable.carries_of_type {aead : Aead} {key : Bytes} {s : ServerState}
    (h : HubReachable aead key s) {d : Datagram} (hd : d ∈ datagramsOf s.io.out) {t : MsgType}
    (ht : d.wire.getD 2 0 = t.code) :
    ∃ m : Msg, m.type = t ∧ d.Carries aead key m.type.code m.payload := by
  obtain ⟨m, hm⟩ := h.carries d hd
  have hcode := congrArg MsgType.ofCode (ht.symm.trans hm.typeByte)
  rw [MsgType.ofCode_code, MsgType.ofCode_code] at hcode
  exact ⟨m, (Option.some.inj hcode).symm, hm⟩

/-- A client process that has read part of its stream, each datagram once, and the next one. -/
theorem HubReachable.takes_iff {aead : Aead} {key : Bytes} {s : ServerState}
    (hs : HubReachable aead key s) (hc : s.io.calls < 2 ^ 63) {addr serverAddr : SockAddr}
    {name : Bytes} {before : List (Env × NodeEvent)}
    (henv : ∀ e ∈ before, e.1.aead = aead ∧ e.1.key = key) {wire : Bytes}
    (hread : ((ClientNode.start addr serverAddr name).readsIn before ++ [wire]).Subperm
      (s.sentTo addr)) :
    ((ClientNode.start addr serverAddr name).life before).cli.takes aead key wire = true ↔
      ∀ wire' ∈ (ClientNode.start addr serverAddr name).readsIn before,
        wireNumber wire' < wireNumber wire + 64 := by
  set c := ClientNode.start addr serverAddr name
  obtain ⟨hauth, hsorted⟩ := hs.sentTo hc addr
  have hmem : ∀ w ∈ c.readsIn before ++ [wire], Authentic aead key w :=
    fun w hw => hauth w (hread.subset hw)
  have hdistinct : (c.readsIn before ++ [wire]).Pairwise fun a b => wireNumber a ≠ wireNumber b := by
    obtain ⟨l, hperm, hsub⟩ := hread
    have hl : l.Pairwise fun a b => wireNumber a ≠ wireNumber b :=
      (hsorted.sublist hsub).imp fun h => h.ne
    exact (hperm.pairwise_iff fun h => h.symm).1 hl
  have hheard : Heard (c.life before).cli.serverReplay (c.readsIn before) := by
    have h := c.life_heard henv (fun w hw => hmem w (List.mem_append_left _ hw)) heard_reset
    simpa using h
  refine hheard.takes_iff (hmem wire (by simp)) fun wire' hw heq => ?_
  refine (List.pairwise_append.1 hdistinct).2.2 wire' hw wire (by simp) ?_
  rw [wireNumber, wireNumber, heq]

theorem ClientNode.reads_datagram {c : ClientNode} {wire : Bytes} {src : SockAddr}
    (hlistens : c.listens = true) (hsrc : c.cli.serverAddr = src) :
    c.reads (.arrive (.datagram wire src)) = [wire] := by
  simp [ClientNode.reads, Arrival.fromServer, hlistens, hsrc]

/-- **Reordering.**  In every run of the server of fewer than `2 ^ 63` outside calls, and for every
client process that reads each of its datagrams at most once, in any order: the window takes a
datagram exactly if every one that was read before it has a number less than 64 above its own. -/
theorem reordering_tolerance {aead : Aead} {key : Bytes} (s : ServerState)
    (hs : HubReachable aead key s) (hc : s.io.calls < 2 ^ 63) (addr serverAddr : SockAddr)
    (name : Bytes) (evs : List (Env × NodeEvent))
    (henv : ∀ e ∈ evs, e.1.aead = aead ∧ e.1.key = key)
    (hread : ((ClientNode.start addr serverAddr name).readsIn evs).Subperm (s.sentTo addr))
    (before after : List (Env × NodeEvent)) (env : Env) (wire : Bytes)
    (hevs : evs = before ++ (env, .arrive (.datagram wire serverAddr)) :: after)
    (hlistens : ((ClientNode.start addr serverAddr name).life before).listens = true) :
    ((ClientNode.start addr serverAddr name).life before).cli.takes aead key wire = true ↔
      ∀ wire' ∈ (ClientNode.start addr serverAddr name).readsIn before,
        wireNumber wire' < wireNumber wire + 64 := by
  set c := ClientNode.start addr serverAddr name with hstart
  have haddr : (c.life before).cli.serverAddr = serverAddr := c.life_serverAddr before
  have hsplit : c.readsIn evs = c.readsIn before ++ [wire] ++
      ((c.life before).step (env, .arrive (.datagram wire serverAddr))).readsIn after := by
    rw [hevs, c.readsIn_append, ClientNode.readsIn, ClientNode.reads_datagram hlistens haddr,
      List.append_assoc]
  have hpart : (c.readsIn before ++ [wire]).Subperm (s.sentTo addr) := by
    refine List.Subperm.trans ?_ hread
    rw [hsplit]
    exact (List.sublist_append_left _ _).subperm
  exact hs.takes_iff hc (fun e he => henv e (by rw [hevs]; simp [he])) hpart

/-! ### A hub with two peers -/

/-- The host of every event below. -/
def busyHost : Env := Env.plain 100 5

/-- The first peer, which gets 10.9.0.2. -/
def busyPeer : SockAddr := ⟨2, 1, 1⟩

/-- The second peer, which gets 10.9.0.3. -/
def busyOther : SockAddr := ⟨2, 2, 2⟩

/-- A packet from the hub's own TUN device. -/
def busyPkt (last : UInt8) : Bytes :=
  [0x45, 0, 0, 20, 0, 0, 0, 0, 64, 17, 0, 0, 10, 9, 0, 1, 10, 9, 0, last]

/-- Both peers register; then 64 packets go to the second one and one to the first. -/
def busyEvents : List ServerEvent :=
  let register := frameBytes MsgType.register.code 1 (List.replicate tundNonceSize 0) [97]
  [.packet busyHost register busyPeer, .packet busyHost register busyOther] ++
    List.replicate 64 (.tun busyHost (busyPkt 3)) ++ [.tun busyHost (busyPkt 2)]

def busyHub : ServerState := busyEvents.foldl serverStep ⟨serverInit, Proc.start⟩

theorem busyHub_reachable : HubReachable monocypher plainKey busyHub := by
  have hall : ∀ e ∈ busyEvents, ∀ s,
      serverOk s e ∧ e.env.aead = monocypher ∧ e.env.key = plainKey := by
    intro e he s
    simp only [busyEvents, List.mem_append, List.mem_cons, List.not_mem_nil, or_false,
      List.mem_replicate] at he
    rcases he with ((rfl | rfl) | ⟨-, rfl⟩) | rfl <;>
      exact ⟨by simp only [serverOk]; decide, rfl, rfl⟩
  have hstart : HubReachable monocypher plainKey ⟨serverInit, Proc.start⟩ := .start rfl
  exact Trace.Reachable.foldl hstart busyEvents (.of_forall hall _)

theorem busyHub_calls : busyHub.io.calls < 2 ^ 63 := by decide +kernel

/-- Where the datagrams go, whether `sendto` takes them and which type byte they have. -/
theorem busyHub_datagrams :
    (datagramsOf busyHub.io.out).map (fun d => (d.dest, d.sent, d.wire.getD 2 0)) =
      [(busyPeer, true, MsgType.assign.code), (busyPeer, true, MsgType.peerList.code),
        (busyOther, true, MsgType.assign.code), (busyOther, true, MsgType.peerList.code),
        (busyPeer, true, MsgType.peerJoin.code)] ++
      List.replicate 64 (busyOther, true, MsgType.data.code) ++
      [(busyPeer, true, MsgType.data.code)] := by
  decide +kernel

/-- Increasing numbers leave room for what stands between. -/
theorem add_length_lt {a b : ℕ} {l : List ℕ} (h : (a :: (l ++ [b])).Pairwise (· < ·)) :
    a + l.length < b := by
  induction l generalizing a with
  | nil => simpa using h
  | cons c l ih =>
    obtain ⟨hlt, htail⟩ := List.pairwise_cons.1 h
    have := hlt c (by simp)
    have := ih htail
    rw [List.length_cons]
    omega

/-- The stream of the first peer: ASSIGN, PEER_LIST, PEER_JOIN for the second peer, and one DATA
that is far behind the others. -/
theorem busyHub_stream : ∃ dAssign dList dJoin dData : Datagram,
    busyHub.sentTo busyPeer = [dAssign.wire, dList.wire, dJoin.wire, dData.wire] ∧
    (∃ vip netmask mtu, dAssign.Carries monocypher plainKey MsgType.assign.code
      (Msg.assign vip netmask mtu).payload) ∧
    (∀ d ∈ [dList, dJoin, dData], ∃ m : Msg, m.type ≠ .disconnect ∧
      d.Carries monocypher plainKey m.type.code m.payload) ∧
    wireNumber dList.wire + 64 ≤ wireNumber dData.wire := by
  have hds := busyHub_datagrams
  have hsorted := busyHub_reachable.increasing busyHub_calls
  have htype : ∀ d ∈ datagramsOf busyHub.io.out, ∀ t : MsgType, d.wire.getD 2 0 = t.code →
      ∃ m : Msg, m.type = t ∧ d.Carries monocypher plainKey m.type.code m.payload :=
    fun d hd t => busyHub_reachable.carries_of_type hd
  rw [ServerState.sentTo]
  generalize datagramsOf busyHub.io.out = ds at hds hsorted htype
  obtain ⟨ds₁, dsLast, rfl, hds₁, hlast⟩ := List.map_eq_append_iff.1 hds
  obtain ⟨dData, rfl, hdata⟩ := List.map_eq_singleton_iff.1 hlast
  obtain ⟨dsFirst, dsOther, rfl, hfirst, hother⟩ := List.map_eq_append_iff.1 hds₁
  obtain ⟨d0, t0, rfl, h0, ht0⟩ := List.map_eq_cons_iff.1 hfirst
  obtain ⟨d1, t1, rfl, h1, ht1⟩ := List.map_eq_cons_iff.1 ht0
  obtain ⟨d2, t2, rfl, h2, ht2⟩ := List.map_eq_cons_iff.1 ht1
  obtain ⟨d3, t3, rfl, h3, ht3⟩ := List.map_eq_cons_iff.1 ht2
  obtain ⟨d4, rfl, h4⟩ := List.map_eq_singleton_iff.1 ht3
  simp only [Prod.mk.injEq] at h0 h1 h2 h3 h4 hdata
  have hne : busyOther ≠ busyPeer := by decide
  have hlen : dsOther.length = 64 := by
    have := congrArg List.length hother
    simpa using this
  have hskip : dsOther.filter (fun d => d.dest = busyPeer && d.sent) = [] := by
    refine List.filter_eq_nil_iff.2 fun d hd => ?_
    have hmem : (d.dest, d.sent, d.wire.getD 2 0) ∈
        List.replicate 64 (busyOther, true, MsgType.data.code) := by
      rw [← hother]
      exact List.mem_map_of_mem hd
    have hd' := (Prod.mk.injEq _ _ _ _).mp (List.eq_of_mem_replicate hmem)
    simp [hd'.1, hne]
  refine ⟨d0, d1, d4, dData, ?_, ?_, ?_, ?_⟩
  · simp [hskip, h0.1, h0.2.1, h1.1, h1.2.1, h2.1, h3.1, h4.1, h4.2.1, hdata.1,
      hdata.2.1, hne]
  · obtain ⟨m, hm, hc⟩ := htype d0 (by simp) .assign h0.2.2
    cases m <;> cases hm
    exact ⟨_, _, _, hc⟩
  · intro d hd
    simp only [List.mem_cons, List.not_mem_nil, or_false] at hd
    rcases hd with rfl | rfl | rfl
    · obtain ⟨m, hm, hc⟩ := htype d (by simp) .peerList h1.2.2
      exact ⟨m, by rw [hm]; decide, hc⟩
    · obtain ⟨m, hm, hc⟩ := htype d (by simp) .peerJoin h4.2.2
      exact ⟨m, by rw [hm]; decide, hc⟩
    · obtain ⟨m, hm, hc⟩ := htype d (by simp) .data hdata.2.2
      exact ⟨m, by rw [hm]; decide, hc⟩
  · have htail : (wireNumber d1.wire :: (([d2, d3, d4] ++ dsOther).map (fun d => wireNumber d.wire) ++
        [wireNumber dData.wire])).Pairwise (· < ·) := by
      simpa using (List.pairwise_cons.1 hsorted).2
    have := add_length_lt htail
    rw [List.length_map, List.length_append, hlen] at this
    simp only [List.length_cons, List.length_nil] at this
    omega

/-- A message other than DISCONNECT leaves a running client running. -/
theorem ClientNode.arrive_runs {env : Env} {c : ClientNode} (hphase : c.phase = .running)
    (hrun : c.io.running = true) {d : Datagram} {m : Msg} (hm : m.type ≠ .disconnect)
    (hd : d.Carries env.aead env.key m.type.code m.payload) (src : SockAddr) :
    (c.arrive env (.datagram d.wire src)).phase = .running ∧
      (c.arrive env (.datagram d.wire src)).io.running = true := by
  constructor
  · simp only [ClientNode.arrive, hphase, hrun, if_true]
  · rcases (ClientNode.arrive_goes rfl rfl c (.datagram d.wire src)).2 with hsame | ⟨payload, hreads⟩
    · rw [hsame, hrun]
    · obtain ⟨wire, src', buf, seq, heq, hrecv, hread⟩ := hreads
      cases heq
      have htype := (hd.unique hrecv hread).1
      have hcode := congrArg MsgType.ofCode htype
      rw [MsgType.ofCode_code, MsgType.ofCode_code] at hcode
      exact absurd (Option.some.inj hcode).symm hm

theorem ClientNode.listens_of_running {c : ClientNode} (hphase : c.phase = .running)
    (hrun : c.io.running = true) : c.listens = true := by
  simp [ClientNode.listens, hphase, hrun]

/-- The server of the first peer. -/
def busyServer : SockAddr := ⟨2, 5, 5⟩

/-- The process of the first peer. -/
def busyClient : ClientNode := .start busyPeer busyServer [97]

/-- The handshake of the process: its REGISTER goes out, and it waits. -/
theorem busyClient_register :
    ∃ io, busyClient.step (busyHost, .register) = ⟨busyPeer, busyClient.cli, io, .await 2⟩ ∧
      io.running = true := by
  obtain ⟨-, -, -, io, -, -, hreg, -, hrun, -⟩ := ClientNode.start_register
    (Env.plain_randomWorks 100 5) (Env.plain_sendWorks 100 5) busyPeer busyServer [97]
  exact ⟨io, hreg, hrun⟩

/-- What arrives at the first peer, in this order. -/
def busyArrivals (wires : List Bytes) : List (Env × NodeEvent) :=
  (busyHost, .register) :: wires.map fun wire => (busyHost, .arrive (.datagram wire busyServer))

/-- After ASSIGN the process runs. -/
theorem busyClient_assign {d : Datagram} {vip netmask : UInt32} {mtu : UInt16}
    (hd : d.Carries monocypher plainKey MsgType.assign.code (Msg.assign vip netmask mtu).payload) :
    (busyClient.life (busyArrivals [])).listens = true ∧
    (busyClient.life (busyArrivals [d.wire])).phase = .running ∧
    (busyClient.life (busyArrivals [d.wire])).io.running = true := by
  obtain ⟨io, hstep, hrun⟩ := busyClient_register
  have hone : busyClient.life (busyArrivals []) = ⟨busyPeer, busyClient.cli, io, .await 2⟩ := hstep
  have htwo : busyClient.life (busyArrivals [d.wire]) =
      (busyClient.life (busyArrivals [])).arrive busyHost (.datagram d.wire busyServer) := rfl
  obtain ⟨cli, -, hassign⟩ := ClientNode.await_assign busyHost busyPeer busyServer [97] io 2 hd
  have hthree : busyClient.life (busyArrivals [d.wire]) = ⟨busyPeer, cli, io, .running⟩ := by
    rw [htwo, hone]
    exact hassign
  rw [hthree, hone]
  exact ⟨rfl, rfl, hrun⟩

theorem busyArrivals_concat (wires : List Bytes) (wire : Bytes) :
    busyArrivals (wires ++ [wire]) =
      busyArrivals wires ++ [(busyHost, .arrive (.datagram wire busyServer))] := by
  simp [busyArrivals]

/-- One more datagram of the server that is not DISCONNECT. -/
theorem busyClient_arrive {wires : List Bytes} {d : Datagram}
    (hphase : (busyClient.life (busyArrivals wires)).phase = .running)
    (hrun : (busyClient.life (busyArrivals wires)).io.running = true)
    (hd : ∃ m : Msg, m.type ≠ .disconnect ∧ d.Carries monocypher plainKey m.type.code m.payload) :
    (busyClient.life (busyArrivals (wires ++ [d.wire]))).phase = .running ∧
      (busyClient.life (busyArrivals (wires ++ [d.wire]))).io.running = true := by
  obtain ⟨m, hm, hcar⟩ := hd
  have hhost : d.Carries busyHost.aead busyHost.key m.type.code m.payload := hcar
  rw [busyArrivals_concat, ClientNode.life_append]
  exact ClientNode.arrive_runs hphase hrun hm hhost busyServer

/-- A process that listens reads what arrives. -/
theorem busyClient_readsIn {wires : List Bytes}
    (h : (busyClient.life (busyArrivals wires)).listens = true) (wire : Bytes) :
    busyClient.readsIn (busyArrivals (wires ++ [wire])) =
      busyClient.readsIn (busyArrivals wires) ++ [wire] := by
  have haddr : (busyClient.life (busyArrivals wires)).cli.serverAddr = busyServer :=
    busyClient.life_serverAddr _
  have hone : (busyClient.life (busyArrivals wires)).readsIn
      [(busyHost, .arrive (.datagram wire busyServer))] = [wire] := by
    show (busyClient.life (busyArrivals wires)).reads _ ++ [] = [wire]
    rw [ClientNode.reads_datagram h haddr, List.append_nil]
  rw [busyArrivals_concat, ClientNode.readsIn_append, hone]

/-- The datagram behind all the others arrives second. -/
structure Overtaken (assign list join data : Bytes) : Prop where
  stream : busyHub.sentTo busyPeer = [assign, list, join, data]
  gap : wireNumber list + 64 ≤ wireNumber data
  phase : (busyClient.life (busyArrivals [assign, data])).phase = .running
  running : (busyClient.life (busyArrivals [assign, data])).io.running = true
  before : busyClient.readsIn (busyArrivals [assign, data]) = [assign, data]
  reads : busyClient.readsIn (busyArrivals [assign, data, list, join]) = [assign, data, list, join]

theorem exists_overtaken : ∃ assign list join data, Overtaken assign list join data := by
  obtain ⟨dAssign, dList, dJoin, dData, hstream, ⟨vip, netmask, mtu, hassign⟩, hother, hgap⟩ :=
    busyHub_stream
  obtain ⟨hlisten, hphase₁, hrun₁⟩ := busyClient_assign hassign
  obtain ⟨hphase₂, hrun₂⟩ := busyClient_arrive hphase₁ hrun₁ (hother dData (by simp))
  obtain ⟨hphase₃, hrun₃⟩ := busyClient_arrive hphase₂ hrun₂ (hother dList (by simp))
  have hread₁ : busyClient.readsIn (busyArrivals [dAssign.wire]) = [dAssign.wire] :=
    busyClient_readsIn hlisten dAssign.wire
  have hread₂ := busyClient_readsIn (ClientNode.listens_of_running hphase₁ hrun₁) dData.wire
  have hread₃ := busyClient_readsIn (ClientNode.listens_of_running hphase₂ hrun₂) dList.wire
  have hread₄ := busyClient_readsIn (ClientNode.listens_of_running hphase₃ hrun₃) dJoin.wire
  rw [hread₁] at hread₂
  rw [hread₂] at hread₃
  rw [hread₃] at hread₄
  exact ⟨_, _, _, _, hstream, hgap, hphase₂, hrun₂, hread₂, hread₄⟩

theorem Overtaken.perm {assign list join data : Bytes} (h : Overtaken assign list join data) :
    (busyClient.readsIn (busyArrivals [assign, data, list, join])).Perm
      (busyHub.sentTo busyPeer) := by
  have hmove : ([data] ++ [list, join]).Perm ([list, join] ++ [data]) := List.perm_append_comm
  rw [h.reads, h.stream]
  exact .cons _ hmove

theorem busyArrivals_host (wires : List Bytes) :
    ∀ e ∈ busyArrivals wires, e.1.aead = monocypher ∧ e.1.key = plainKey := by
  intro e he
  simp only [busyArrivals, List.mem_cons, List.mem_map] at he
  rcases he with rfl | ⟨wire, -, rfl⟩ <;> exact ⟨rfl, rfl⟩

theorem busyArrivals_split (assign data list join : Bytes) :
    busyArrivals [assign, data, list, join] = busyArrivals [assign, data] ++
      (busyHost, .arrive (.datagram list busyServer)) ::
        [(busyHost, .arrive (.datagram join busyServer))] := rfl

/-- Of this stream PEER_LIST is refused. -/
theorem reordering_tolerance_refused :
    ∃ assign list join data, Overtaken assign list join data ∧
      (busyClient.life (busyArrivals [assign, data])).cli.takes monocypher plainKey list ≠ true := by
  obtain ⟨assign, list, join, data, h⟩ := exists_overtaken
  refine ⟨assign, list, join, data, h, fun htakes => ?_⟩
  have hnear := (reordering_tolerance busyHub busyHub_reachable busyHub_calls busyPeer busyServer [97]
    (busyArrivals [assign, data, list, join]) (busyArrivals_host _) h.perm.subperm
    (busyArrivals [assign, data]) _ busyHost list (busyArrivals_split _ _ _ _)
    (ClientNode.listens_of_running h.phase h.running)).1 htakes data (by
      have hbefore : data ∈ busyClient.readsIn (busyArrivals [assign, data]) := by simp [h.before]
      exact hbefore)
  have := h.gap
  omega

/-- How many of the datagrams that were read were sent after this one. -/
def overtakers (stream read : List Bytes) (wire : Bytes) : ℕ :=
  (read.filter fun w => stream.idxOf wire < stream.idxOf w).length

/-- One datagram that overtakes another by 64 numbers is enough: PEER_LIST is refused, although
the client gets only four datagrams. -/
theorem reordering_far_ahead :
    ¬ ∀ (s : ServerState) (addr serverAddr : SockAddr) (name : Bytes)
      (evs : List (Env × NodeEvent)),
      HubReachable monocypher plainKey s → s.io.calls < 2 ^ 63 →
      (∀ e ∈ evs, e.1.aead = monocypher ∧ e.1.key = plainKey) →
      ((ClientNode.start addr serverAddr name).readsIn evs).Perm (s.sentTo addr) →
      (∀ before after env wire,
        evs = before ++ (env, .arrive (.datagram wire serverAddr)) :: after →
        overtakers (s.sentTo addr) ((ClientNode.start addr serverAddr name).readsIn before) wire <
          64) →
      ∀ before after env wire,
        evs = before ++ (env, .arrive (.datagram wire serverAddr)) :: after →
        ((ClientNode.start addr serverAddr name).life before).phase = .running →
        ((ClientNode.start addr serverAddr name).life before).listens = true →
        ((ClientNode.start addr serverAddr name).life before).cli.takes monocypher plainKey wire =
          true := by
  intro hclaim
  obtain ⟨assign, list, join, data, h⟩ := exists_overtaken
  have hfew : ∀ before after env wire,
      busyArrivals [assign, data, list, join] =
        before ++ (env, .arrive (.datagram wire busyServer)) :: after →
      overtakers (busyHub.sentTo busyPeer) (busyClient.readsIn before) wire < 64 := by
    intro before after env wire hsplit
    -- there are only four of them
    have hall := congrArg List.length h.reads
    rw [hsplit, ClientNode.readsIn_append, List.length_append] at hall
    have hfilter : overtakers (busyHub.sentTo busyPeer) (busyClient.readsIn before) wire ≤
        (busyClient.readsIn before).length := List.length_filter_le _ _
    simp only [List.length_cons, List.length_nil] at hall
    omega
  have htakes := hclaim busyHub busyPeer busyServer [97] (busyArrivals [assign, data, list, join])
    busyHub_reachable busyHub_calls (busyArrivals_host _) h.perm hfew (busyArrivals [assign, data]) _
    busyHost list (busyArrivals_split _ _ _ _) h.phase
    (ClientNode.listens_of_running h.phase h.running)
  have hread : (busyClient.readsIn (busyArrivals [assign, data]) ++ [list]).Subperm
      (busyHub.sentTo busyPeer) := by
    rw [h.before]
    refine List.Subperm.trans ?_ h.perm.subperm
    rw [h.reads]
    exact (List.sublist_append_left [assign, data, list] [join]).subperm
  have hnear := (busyHub_reachable.takes_iff busyHub_calls (busyArrivals_host _) hread).1 htakes data
    (by
      have hbefore : data ∈ busyClient.readsIn (busyArrivals [assign, data]) := by simp [h.before]
      exact hbefore)
  have := h.gap
  omega

end Tund
