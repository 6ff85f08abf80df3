import Tund.Server.Invariant

/-!
# Admission

Slots and addresses are given out by two scans that know nothing of each other.  There
are as many addresses as slots and an active entry holds one address, so a table with a
free slot has a free address (`exists_unheld`): a REGISTER of an endpoint that is not
active is refused exactly when every slot is taken.
-/

namespace Tund

section Pool

variable {srv : Server}

/-- A table with a free slot leaves some address of the pool unused. -/
theorem exists_unheld {i : Slot} (hi : (srv.peers i).active = false) :
    ∃ k < poolSize, ∀ j, (srv.peers j).holds (poolIp k) = false := by
  by_contra hall
  push Not at hall
  have hheld : ∀ k : Fin poolSize, ∃ j, (srv.peers j).holds (poolIp k) = true := by
    intro k
    obtain ⟨j, hj⟩ := hall k k.2
    exact ⟨j, by simpa using hj⟩
  choose holder hholder using hheld
  -- a slot holds one address, so the holders of the 253 addresses are 253 slots
  have hinj : Function.Injective holder := by
    intro a b heq
    have ha := (Peer.holds_iff.1 (hholder a)).2
    have hb := (Peer.holds_iff.1 (hholder b)).2
    rw [heq] at ha
    exact Fin.ext (poolIp_injective a.2 b.2 (ha.symm.trans hb))
  have hcard : Fintype.card (Fin poolSize) = Fintype.card Slot := by
    rw [Fintype.card_fin, Fintype.card_fin]
    rfl
  obtain ⟨k, rfl⟩ := ((Fintype.bijective_iff_injective_and_card holder).2 ⟨hinj, hcard⟩).2 i
  rw [(Peer.holds_iff.1 (hholder k)).1] at hi
  cases hi

/-- The address that is handed out is the first one that nobody holds. -/
theorem serverAllocIp_first {i : Slot} (hi : (srv.peers i).active = false) :
    ∃ k < poolSize, serverAllocIp srv = poolIp k ∧
      (∀ j, (srv.peers j).holds (poolIp k) = false) ∧
      ∀ k' < k, ∃ j, (srv.peers j).holds (poolIp k') = true := by
  have hfree : ∀ {k}, (!(SlotTable.first fun j => (srv.peers j).holds (poolIp k)).isSome) = true ↔
      ∀ j, (srv.peers j).holds (poolIp k) = false := by
    intro k
    simp [SlotTable.first_eq_none_iff]
  unfold serverAllocIp
  cases hf : SlotTable.first (n := poolSize) fun k =>
      !(SlotTable.first fun j => (srv.peers j).holds (poolIp k)).isSome with
  | none =>
    obtain ⟨k, hk, hnone⟩ := exists_unheld hi
    have hno := SlotTable.first_eq_none_iff.1 hf ⟨k, hk⟩
    rw [hfree.2 hnone] at hno
    cases hno
  | some k =>
    refine ⟨k, k.2, rfl, hfree.1 (SlotTable.of_first_eq_some hf), fun k' hk' => ?_⟩
    have hno := SlotTable.not_of_lt_first hf (j := ⟨k', hk'.trans k.2⟩) hk'
    by_contra hnone
    push Not at hnone
    rw [hfree.2 fun j => by simpa using hnone j] at hno
    cases hno

/-- The order of the pool is the order of the addresses. -/
theorem exists_lt_poolIp {k : ℕ} (hk : k < poolSize) {ipH : UInt32} (hlo : tundIpStart ≤ ipH)
    (hlt : ipH < tundIpStart + UInt32.ofNat k) : ∃ k' < k, htonl ipH = poolIp k' := by
  rw [UInt32.lt_iff_toNat_lt, tundIpStart_add hk] at hlt
  rw [UInt32.le_iff_toNat_le] at hlo
  refine ⟨ipH.toNat - tundIpStart.toNat, by omega, ?_⟩
  have heq : tundIpStart + UInt32.ofNat (ipH.toNat - tundIpStart.toNat) = ipH := by
    apply UInt32.toNat_inj.1
    rw [tundIpStart_add (by omega)]
    omega
  rw [poolIp, heq]

end Pool

/-- `peers` gives `ipH` out next: it is in the pool, nobody holds it, and every smaller address of
the pool is held. -/
structure SmallestFree (peers : Slot → Peer) (ipH : UInt32) : Prop where
  ge : tundIpStart ≤ ipH
  le : ipH ≤ tundIpEnd
  unheld : ∀ j, ¬ ((peers j).active = true ∧ (peers j).virtIp = htonl ipH)
  smaller : ∀ ip, tundIpStart ≤ ip → ip < ipH → ∃ j, (peers j).active = true ∧ (peers j).virtIp = htonl ip

theorem smallestFree_of_free {srv : Server} {i : Slot} (hi : (srv.peers i).active = false) :
    ∃ ipH, serverAllocIp srv = htonl ipH ∧ SmallestFree srv.peers ipH := by
  obtain ⟨k, hk, halloc, hunheld, hsmaller⟩ := serverAllocIp_first hi
  refine ⟨tundIpStart + UInt32.ofNat k, halloc, ?_, ?_, ?_, ?_⟩
  · rw [UInt32.le_iff_toNat_le, tundIpStart_add hk]
    omega
  · rw [UInt32.le_iff_toNat_le, tundIpStart_add hk]
    simp only [poolSize] at hk
    omega
  · intro j hj
    have hno := hunheld j
    rw [poolIp, Peer.holds_iff.2 hj] at hno
    cases hno
  · intro ip hlo hlt
    obtain ⟨k', hk', heq⟩ := exists_lt_poolIp hk hlo hlt
    obtain ⟨j, hj⟩ := hsmaller k' hk'
    rw [heq]
    exact ⟨j, Peer.holds_iff.1 hj⟩

theorem SmallestFree.ne_zero {peers : Slot → Peer} {ipH : UInt32} (h : SmallestFree peers ipH) :
    htonl ipH ≠ 0 := by
  have hzero : htonl 0 = 0 := by decide
  intro heq
  have h0 : ipH = 0 := htonl_injective (heq.trans hzero.symm)
  have hge := h.ge
  rw [h0] at hge
  exact absurd hge (by decide)

/-- What a REGISTER of an endpoint that is not active does: nothing if every slot is taken, else it
fills the first free slot with the smallest free address. -/
theorem serverHandlePacket_register (env : Env) {srv : Server} (io : Proc) {buf : Bytes}
    {src : SockAddr} {f : Frame} (hread : readFrame buf = some f)
    (hreg : f.type = MsgType.register.code) (hnew : serverFindPeerByAddr srv src = none) :
    ((∀ i, (srv.peers i).active = true) ∧ serverHandlePacket env srv io buf src = (srv, io)) ∨
    ∃ i ipH, (srv.peers i).active = false ∧ SmallestFree srv.peers ipH ∧
      serverHandlePacket env srv io buf src = finish env io
        (let p := registeredPeer env i (htonl ipH) f.payload src f.sequence
        (srv.join i p, joinActs p (serverSnapshotBroadcastLocked (srv.join i p) (some i)))) := by
  have hcall : serverHandlePacket env srv io buf src =
      finish env io (serverRegisterLocked env srv f.payload src f.sequence) := by
    simp only [serverHandlePacket, hread, hreg, ne_eq, not_true_eq_false, if_false,
      serverDispatchLocked]
    rfl
  rw [hcall]
  rcases serverRegisterLocked_cases env srv f.payload src f.sequence with
    ⟨i, hi, -⟩ | ⟨i, hi, -⟩ | ⟨-, hfull, h⟩ | ⟨i, -, hfree, -, h⟩
  · rw [hnew] at hi
    cases hi
  · rw [hnew] at hi
    cases hi
  · left
    have hall : ∀ i, (srv.peers i).active = true := by
      intro i
      by_contra hi
      rw [Bool.not_eq_true] at hi
      rcases hfull with hnone | hzero
      · have := SlotTable.first_eq_none_iff.1 hnone i
        rw [hi] at this
        cases this
      · obtain ⟨ipH, halloc, hsmall⟩ := smallestFree_of_free hi
        exact hsmall.ne_zero (halloc.symm.trans hzero)
    exact ⟨hall, by rw [h]; rfl⟩
  · right
    have hi := not_active_of_free hfree
    obtain ⟨ipH, halloc, hsmall⟩ := smallestFree_of_free hi
    exact ⟨i, ipH, hi, hsmall, by rw [h, halloc]⟩

/-- The new entry is the one of its endpoint. -/
theorem find_join {srv srv' : Server} {i : Slot} {p : Peer} {src : SockAddr}
    (hnew : serverFindPeerByAddr srv src = none) (hp : p.isAt src = true)
    (hsame : (srv.join i p).SameButBytesOut srv') : serverFindPeerByAddr srv' src = some i := by
  refine SlotTable.first_eq_of_unique (p := fun j => (srv'.peers j).isAt src) ?_ fun j hj => ?_
  · rw [(hsame.refreshes i).isAt, join_peers, if_pos rfl]
    exact hp
  · by_contra hne
    rw [(hsame.refreshes j).isAt, join_peers, if_neg hne, find_eq_none_iff.1 hnew j] at hj
    cases hj

/-- **Admission.**  In whatever state the server is, a REGISTER of an endpoint that is not active is
refused exactly if all 253 slots are active, and then nothing changes and nothing is sent;
otherwise the endpoint gets the smallest address of the pool that no active peer holds.  A table
with a free slot always has a free address. -/
theorem registration_admission (env : Env) (srv : Server) (io : Proc) (buf : Bytes) (src : SockAddr)
    (f : Frame) (hread : readFrame buf = some f) (hreg : f.type = MsgType.register.code)
    (hnew : serverFindPeerByAddr srv src = none) :
    let r := serverHandlePacket env srv io buf src
    (serverFindPeerByAddr r.1 src = none ↔ ∀ i, (srv.peers i).active = true) ∧
    (serverFindPeerByAddr r.1 src = none → r = (srv, io)) ∧
    (∀ i, serverFindPeerByAddr r.1 src = some i →
      ∃ ipH, (r.1.peers i).virtIp = htonl ipH ∧ SmallestFree srv.peers ipH) ∧
    (serverFindFreeSlot srv ≠ none → serverAllocIp srv ≠ 0) := by
  intro r
  have hpool : serverFindFreeSlot srv ≠ none → serverAllocIp srv ≠ 0 := by
    intro hfree
    obtain ⟨i, hi⟩ := Option.ne_none_iff_exists'.1 hfree
    obtain ⟨ipH, halloc, hsmall⟩ := smallestFree_of_free (not_active_of_free hi)
    rw [halloc]
    exact hsmall.ne_zero
  rcases serverHandlePacket_register env io hread hreg hnew with
    ⟨hall, heq⟩ | ⟨i, ipH, hi, hsmall, heq⟩
  · have hr : r = (srv, io) := heq
    rw [hr]
    refine ⟨⟨fun _ => hall, fun _ => hnew⟩, fun _ => rfl, fun i hi => ?_, hpool⟩
    rw [hnew] at hi
    cases hi
  · set p := registeredPeer env i (htonl ipH) f.payload src f.sequence with hp
    have hat : p.isAt src = true := Peer.isAt_iff.2 ⟨rfl, rfl, rfl⟩
    have hsame : (srv.join i p).SameButBytesOut r.1 := by
      have hr : r = finish env io (srv.join i p,
          joinActs p (serverSnapshotBroadcastLocked (srv.join i p) (some i))) := heq
      rw [hr]
      exact finish_same env io _
    have hfind := find_join hnew hat hsame
    rw [hfind]
    refine ⟨⟨nofun, fun hall => ?_⟩, nofun, fun j hj => ?_, hpool⟩
    · rw [hall i] at hi
      cases hi
    · obtain rfl := Option.some.inj hj
      refine ⟨ipH, ?_, hsmall⟩
      rw [hsame.virtIp, join_peers, if_pos rfl, hp, registeredPeer]

/-- In the table with a gap a fourth peer is not refused: it gets slot 1, and the address that the
second peer had. -/
theorem registration_admission_gap :
    let buf := frameBytes MsgType.register.code 9 (List.replicate tundNonceSize 0) [97]
    let r := serverHandlePacket (Env.plain 101 5) gapState.srv gapState.io buf ⟨2, 1, 4⟩
    serverFindPeerByAddr r.1 ⟨2, 1, 4⟩ = some 1 ∧ (r.1.peers 1).virtIp = poolIp 1 ∧
      ∃ ipH, (r.1.peers 1).virtIp = htonl ipH ∧ SmallestFree gapState.srv.peers ipH := by
  intro buf r
  have hread : readFrame buf = some ⟨MsgType.register.code, [97], 9⟩ :=
    readFrame_frameBytes (by decide) (by decide) (by decide)
  have hnew : serverFindPeerByAddr gapState.srv ⟨2, 1, 4⟩ = none := by decide +kernel
  have hslot : serverFindPeerByAddr r.1 ⟨2, 1, 4⟩ = some 1 := by decide +kernel
  have hvip : (r.1.peers 1).virtIp = poolIp 1 := by decide +kernel
  clear_value buf
  obtain ⟨-, -, hsmallest, -⟩ := registration_admission (Env.plain 101 5) gapState.srv gapState.io buf
    ⟨2, 1, 4⟩ _ hread rfl hnew
  exact ⟨hslot, hvip, hsmallest 1 hslot⟩

end Tund
