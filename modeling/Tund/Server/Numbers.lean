import Tund.Protocol.Counter
import Tund.Server.Outputs

/-!
# The numbers of the server's datagrams

The server process draws a number when it builds a message and another one each time the
message is sent.  `Proc.Moves` are the ways in which one step of the process changes its
counter, the count of its outside calls and the numbers it has put out; every handler is a
chain of such moves.  Along a chain the numbers that were put out increase, as long as the
process has made fewer than `2 ^ 63` outside calls (`Proc.Numbered.moves`).
-/

namespace Tund

/-! ### Moves of a process -/

/-- The datagrams among the outputs. -/
def datagramsOf (outs : List Out) : List Datagram :=
  outs.filterMap fun
    | .datagram d => some d
    | _ => none

@[simp] theorem datagramsOf_append (as bs : List Out) :
    datagramsOf (as ++ bs) = datagramsOf as ++ datagramsOf bs := List.filterMap_append

theorem mem_datagramsOf {outs : List Out} {d : Datagram} :
    d ∈ datagramsOf outs ↔ Out.datagram d ∈ outs := by
  simp only [datagramsOf, List.mem_filterMap]
  constructor
  · rintro ⟨o, ho, h⟩
    cases o <;> cases h
    exact ho
  · intro h
    exact ⟨_, h, rfl⟩

/-- A number has been drawn. -/
structure Proc.Draws (io io' : Proc) (seq : UInt64) : Prop where
  ne_zero : seq ≠ 0
  of_ne_zero : io.nextSequence ≠ 0 → seq = io.nextSequence
  of_zero : io.nextSequence = 0 → seq.toNat < 2 ^ 63
  next : io'.nextSequence = seq + 1
  calls : io.calls < io'.calls

/-- What one call of a process does to its counter and to the datagrams it has put out. -/
inductive Proc.Move (io io' : Proc) : Prop
  | still (next : io'.nextSequence = io.nextSequence) (calls : io.calls ≤ io'.calls)
      (out : datagramsOf io'.out = datagramsOf io.out)
  | draw (seq : UInt64) (draws : io.Draws io' seq) (out : datagramsOf io'.out = datagramsOf io.out)
  | send (seq : UInt64) (d : Datagram) (draws : io.Draws io' seq)
      (shows : protoReadSequence d.wire = some seq)
      (out : datagramsOf io'.out = datagramsOf io.out ++ [d])

/-- Writing a header, whether or not it succeeds. -/
theorem protoWriteHdr_move (env : Env) (io : Proc) (buf : Bytes) (type : UInt8)
    (payloadLen : UInt16) : io.Move (protoWriteHdr env io buf type payloadLen).2.2 := by
  have hout := (protoWriteHdr_out env io buf type payloadLen).1
  have hdata : datagramsOf (protoWriteHdr env io buf type payloadLen).2.2.out =
      datagramsOf io.out := by rw [hout]
  unfold protoWriteHdr at hdata ⊢
  split_ifs at hdata ⊢ with hlen
  · exact .still rfl le_rfl rfl
  rcases hseq : protoNextSequence env io with ⟨_ | seq, io₁⟩
  · -- only the seed of a fresh counter can fail
    simp only [hseq] at hdata ⊢
    by_cases h0 : io.nextSequence = 0
    · rcases hi : protoInitialSequence env io with ⟨_ | initial, io₂⟩
      · have heq : io₂ = { io with calls := io.calls + 1 } := by
          unfold protoInitialSequence protoRandomBytes at hi
          cases hf : env.random io.calls with
          | none =>
            simp only [hf, Option.map_none, Prod.mk.injEq, true_and] at hi
            exact hi.symm
          | some f => simp [hf] at hi
        rw [protoNextSequence, if_pos h0, hi] at hseq
        obtain rfl := (Prod.mk.inj hseq).2
        rw [heq] at hdata ⊢
        exact .still rfl (Nat.le_succ _) rfl
      · obtain ⟨hne, -, -⟩ := protoInitialSequence_some hi
        rw [protoNextSequence, if_pos h0, hi] at hseq
        simp only [fetchAddSequence, if_neg hne] at hseq
        cases hseq
    · rw [protoNextSequence, if_neg h0, fetchAddSequence_of_ne_zero h0] at hseq
      cases hseq
  · have hd := protoNextSequence_some hseq
    cases hf : env.random io₁.calls with
    | none =>
      simp only [hseq, protoRandomBytes, hf, Option.map_none] at hdata ⊢
      exact .draw seq ⟨hd.ne_zero, hd.of_ne_zero, hd.of_zero, hd.next, Nat.lt_succ_of_le hd.calls⟩
        hdata
    | some f =>
      simp only [hseq, protoRandomBytes, hf, Option.map_some] at hdata ⊢
      exact .draw seq ⟨hd.ne_zero, hd.of_ne_zero, hd.of_zero, hd.next, Nat.lt_succ_of_le hd.calls⟩
        hdata

/-- Building a message. -/
theorem Msg.build_move (env : Env) (io : Proc) (buf : Bytes) (m : Msg) :
    io.Move (m.build env io buf).2.2 := by
  by_cases ht : m.type = .peerList
  · obtain ⟨entries, rfl⟩ := Msg.eq_peerList_of_type ht
    exact protoWriteHdr_move env io _ _ _
  · rw [Msg.build_eq env io buf ht]
    have hw := protoWriteHdr_move env io buf m.type.code (UInt16.ofNat m.payload.length)
    rcases h : protoWriteHdr env io buf m.type.code (UInt16.ofNat m.payload.length) with
      ⟨_ | n, b, io'⟩ <;> rw [h] at hw <;> simpa [protoBuild, h] using hw

theorem Outbox.build_move (env : Env) (io : Proc) (m : Msg) : io.Move (Outbox.build env io m).2 :=
  m.build_move env io Outbox.fresh.buf

theorem protoEncrypt_move (env : Env) (io : Proc) (buf : Bytes) (len : ℕ) :
    io.Move (protoEncrypt env io buf len).2.2 := by
  unfold protoEncrypt
  split_ifs
  · exact .still rfl le_rfl rfl
  cases hread : protoReadHdr buf with
  | error e => exact .still rfl le_rfl rfl
  | ok v =>
    obtain ⟨type, payloadLen⟩ := v
    have hw := protoWriteHdr_move env io buf type (UInt16.ofNat (len - tundHdrSize))
    simp only
    split_ifs
    · exact .still rfl le_rfl rfl
    · exact .still rfl le_rfl rfl
    · rcases hh : protoWriteHdr env io buf type (UInt16.ofNat (len - tundHdrSize)) with
        ⟨_ | n, b, io₁⟩ <;> rw [hh] at hw <;> exact hw

/-- Sending a buffer. -/
theorem netSend_move (env : Env) (io : Proc) (buf : Bytes) (len : Option ℕ) (dest : SockAddr) :
    io.Move (netSend env io buf len dest).2 := by
  rcases netSend_shows env io buf len dest with hquiet | ⟨seq, d, io₁, hd, hc, -, hshows, h⟩
  · -- nothing left the process: at most a header was written
    cases len with
    | none => exact .still rfl le_rfl rfl
    | some len =>
      unfold netSend at hquiet ⊢
      simp only at hquiet ⊢
      split_ifs at hquiet ⊢ with h1 h2
      · exact .still rfl le_rfl rfl
      · exact .still rfl le_rfl rfl
      · have hmove := protoEncrypt_move env io (buf.take len) len
        rcases he : protoEncrypt env io (buf.take len) len with ⟨_ | n, b, io₁⟩
        · rw [he] at hmove
          exact hmove
        · obtain ⟨seq, hd, hc, -⟩ := protoEncrypt_shows he
          simp only [he, hd.out] at hquiet
          simp at hquiet
  · rw [h]
    refine .send seq d ⟨hd.ne_zero, hd.of_ne_zero, hd.of_zero, hd.next, Nat.lt_succ_of_lt hc⟩ hshows ?_
    simp [datagramsOf]

/-- Several moves, one after the other. -/
def Proc.Moves : Proc → Proc → Prop := Relation.ReflTransGen Proc.Move

theorem Proc.Move.calls_le {io io' : Proc} (h : io.Move io') : io.calls ≤ io'.calls := by
  cases h with
  | still next calls out => exact calls
  | draw seq draws out => exact draws.calls.le
  | send seq d draws shows out => exact draws.calls.le

theorem Proc.Moves.calls_le {io io' : Proc} (h : io.Moves io') : io.calls ≤ io'.calls := by
  induction h with
  | refl => exact le_rfl
  | tail _ hm ih => exact ih.trans hm.calls_le

/-! ### The server's handlers -/

theorem Act.exec_move (env : Env) (w : Work) (a : Act) : w.io.Move (a.exec env w).io := by
  cases a with
  | build m => exact m.build_move env w.io w.box.buf
  | send dest => exact netSend_move env w.io w.box.buf w.box.len dest
  | probe box dest => exact netSend_move env w.io box.buf box.len dest
  | forward peer bytesOut =>
    have h := netSend_move env w.io w.box.buf w.box.len peer.realAddr
    simp only [Act.exec]
    rcases hs : netSend env w.io w.box.buf w.box.len peer.realAddr with ⟨_ | _, io⟩ <;>
      rw [hs] at h <;> exact h
  | tunWrite pkt => exact .still rfl le_rfl (by simp [Act.exec, Tund.tunWrite, datagramsOf])
  | event e =>
    simp only [Act.exec, appEvent]
    split_ifs
    · exact .still rfl le_rfl (by simp [datagramsOf])
    · exact .still rfl le_rfl rfl

theorem runActs_moves (env : Env) (w : Work) (acts : List Act) :
    w.io.Moves (runActs env w acts).io := by
  induction acts generalizing w with
  | nil => exact .refl
  | cons a acts ih => exact .head (a.exec_move env w) (ih (a.exec env w))

theorem finish_moves (env : Env) (io : Proc) (locked : Server × List Act) :
    io.Moves (finish env io locked).2 :=
  runActs_moves env ⟨locked.1, io, .fresh⟩ locked.2

/-- Every event of the server is a chain of moves. -/
theorem serverStep_moves (s : ServerState) (e : ServerEvent) : s.io.Moves (serverStep s e).io := by
  cases e with
  | packet env buf src =>
    simp only [serverStep]
    rcases serverHandlePacket_cases env s.srv s.io buf src with ⟨-, h⟩ | ⟨f, srv₁, -, -, h⟩ <;> rw [h]
    · exact .refl
    · exact finish_moves env s.io _
  | sweep env =>
    have hbuild := Outbox.build_move env s.io (.keepalive env.nowMs)
    have hrest := finish_moves env (Outbox.build env s.io (.keepalive env.nowMs)).2
      (serverSweepLocked env s.srv (Outbox.build env s.io (.keepalive env.nowMs)).1)
    simp only [serverStep, serverSweep_eq]
    exact Relation.ReflTransGen.head hbuild hrest
  | tun env pkt =>
    simp only [serverStep, serverTunPacket]
    cases protoValidateIpv4Packet pkt with
    | some e => exact .refl
    | none => exact finish_moves env s.io _
  | shutdown env =>
    simp only [serverStep, serverShutdown]
    exact finish_moves env s.io _

/-! ### Increasing numbers -/

/-- The datagrams of a process show increasing numbers, all of them behind the counter, and the
counter is not far from its seed. -/
structure Proc.Numbered (io : Proc) : Prop where
  bound : ∃ seed < 2 ^ 63, io.nextSequence.toNat ≤ seed + io.calls
  numbers : ∃ ns : List UInt64, (datagramsOf io.out).map (fun d => protoReadSequence d.wire) =
    ns.map some ∧ ns.Pairwise (· < ·) ∧ ∀ n ∈ ns, n < io.nextSequence

/-- A number that is drawn is behind all others, and the counter is behind it. -/
theorem Proc.Numbered.draws {io io' : Proc} (h : io.Numbered) {seq : UInt64}
    (hd : io.Draws io' seq) (hc : io'.calls < 2 ^ 63) :
    (∃ seed < 2 ^ 63, io'.nextSequence.toNat ≤ seed + io'.calls) ∧ seq < io'.nextSequence ∧
      io.nextSequence ≤ seq := by
  obtain ⟨seed, hseed, hle⟩ := h.bound
  have hcalls := hd.calls
  have hseq : ∃ seed' < 2 ^ 63, seq.toNat ≤ seed' + io.calls := by
    by_cases h0 : io.nextSequence = 0
    · exact ⟨seq.toNat, hd.of_zero h0, by omega⟩
    · exact ⟨seed, hseed, by rw [hd.of_ne_zero h0]; exact hle⟩
  obtain ⟨seed', hseed', hle'⟩ := hseq
  have hnext : io'.nextSequence.toNat = seq.toNat + 1 := by
    rw [hd.next, UInt64.toNat_add, UInt64.toNat_one]
    omega
  refine ⟨⟨seed', hseed', by omega⟩, UInt64.lt_iff_toNat_lt.2 (by omega), ?_⟩
  by_cases h0 : io.nextSequence = 0
  · rw [h0]
    exact UInt64.zero_le
  · exact UInt64.le_of_eq (hd.of_ne_zero h0).symm

theorem Proc.Numbered.move {io io' : Proc} (h : io.Numbered) (hm : io.Move io')
    (hc : io'.calls < 2 ^ 63) : io'.Numbered := by
  obtain ⟨ns, hns, hsorted, hlt⟩ := h.numbers
  cases hm with
  | still next calls out =>
    obtain ⟨seed, hseed, hle⟩ := h.bound
    refine ⟨⟨seed, hseed, ?_⟩, ns, ?_, hsorted, ?_⟩
    · rw [next]
      omega
    · rw [out, hns]
    · rw [next]
      exact hlt
  | draw seq draws out =>
    obtain ⟨hbound, hnext, hle⟩ := h.draws draws hc
    refine ⟨hbound, ns, by rw [out, hns], hsorted, fun n hn => ?_⟩
    exact UInt64.lt_trans (UInt64.lt_of_lt_of_le (hlt n hn) hle) hnext
  | send seq d draws shows out =>
    obtain ⟨hbound, hnext, hle⟩ := h.draws draws hc
    have hnew : ∀ n ∈ ns, n < seq := fun n hn => UInt64.lt_of_lt_of_le (hlt n hn) hle
    refine ⟨hbound, ns ++ [seq], ?_, ?_, fun n hn => ?_⟩
    · rw [out, List.map_append, hns, List.map_append, List.map_singleton, shows, List.map_singleton]
    · refine List.pairwise_append.2 ⟨hsorted, List.pairwise_singleton _ _, fun n hn k hk => ?_⟩
      rw [List.mem_singleton.1 hk]
      exact hnew n hn
    · rcases List.mem_append.1 hn with hn | hn
      · exact UInt64.lt_trans (hnew n hn) hnext
      · rw [List.mem_singleton.1 hn]
        exact hnext

theorem Proc.Numbered.moves {io io' : Proc} (h : io.Numbered) (hm : io.Moves io')
    (hc : io'.calls < 2 ^ 63) : io'.Numbered := by
  induction hm with
  | refl => exact h
  | tail _ hm ih => exact (ih (lt_of_le_of_lt hm.calls_le hc)).move hm hc

theorem Proc.numbered_start : Proc.start.Numbered :=
  ⟨⟨0, by norm_num, le_rfl⟩, [], rfl, .nil, by simp⟩

/-! ### Runs -/

/-- The states of the runs of a server process whose hosts have the AEAD and the key. -/
def HubReachable (aead : Aead) (key : Bytes) : ServerState → Prop :=
  Trace.Reachable serverStep (fun s e => serverOk s e ∧ e.env.aead = aead ∧ e.env.key = key)
    fun s => s = ⟨serverInit, Proc.start⟩

theorem HubReachable.serverReachable {aead : Aead} {key : Bytes} {s : ServerState}
    (h : HubReachable aead key s) : ServerReachable s := by
  induction h with
  | start h => exact .start (by rw [h])
  | next e _ he ih => exact ih.next e he.1

/-- In every run of fewer than `2 ^ 63` outside calls the datagrams have increasing numbers. -/
theorem HubReachable.numbered {aead : Aead} {key : Bytes} {s : ServerState}
    (h : HubReachable aead key s) (hc : s.io.calls < 2 ^ 63) : s.io.Numbered := by
  induction h with
  | start h =>
    rw [h]
    exact Proc.numbered_start
  | @next s e _ _ ih =>
    have hmoves := serverStep_moves s e
    exact (ih (lt_of_le_of_lt hmoves.calls_le hc)).moves hmoves hc

/-- Every datagram of a run carries a message. -/
theorem HubReachable.carries {aead : Aead} {key : Bytes} {s : ServerState}
    (h : HubReachable aead key s) : ∀ d ∈ datagramsOf s.io.out,
      ∃ m : Msg, d.Carries aead key m.type.code m.payload := by
  induction h with
  | start h =>
    rw [h]
    simp [datagramsOf, Proc.start]
  | @next s e _ he ih =>
    intro d hd
    obtain ⟨outs, hout, hcar⟩ := serverStep_out s e
    rw [mem_datagramsOf, hout] at hd
    rcases List.mem_append.1 hd with hd | hd
    · exact ih d (mem_datagramsOf.2 hd)
    · obtain ⟨m, -, hm⟩ := hcar d hd
      rw [he.2.1, he.2.2] at hm
      exact ⟨m, hm⟩

end Tund
