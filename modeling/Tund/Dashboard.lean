import Tund.Lib.Memory
import Tund.Peer

/-!
# The rows of the dashboard

While nothing arrives, `server_run` and `client_run` redraw the dashboard once a second.
`net_poll_peers` waits for a datagram and, when the second is over, copies the table into
the rows of the dashboard: each entry goes to the row after the last active one, and only
an active entry makes the row count.

An interrupted wait also returns 0, and the callers draw then too.  `poll_snapshot_iff`
says when the rows are the table.
-/

namespace Tund

open Memory

/-! ### Rows -/

/-- `tui_peer_t` -/
structure TuiPeer where
  virtIp : UInt32
  name : NameBuf
  lastSeen : ℤ
  bytesIn : UInt64
  bytesOut : UInt64
  rttMs : UInt64
  hasRtt : Bool
  active : Bool

/-- What the loop copies of an entry. -/
def Peer.tuiPeer (p : Peer) : TuiPeer where
  virtIp := p.virtIp
  name := p.name
  lastSeen := p.lastSeen
  bytesIn := p.bytesIn
  bytesOut := p.bytesOut
  rttMs := p.rttMs
  hasRtt := p.hasRtt
  active := p.active

variable {n : ℕ}

/-- The array `tui_peers` of a caller, which has one row per entry of the table, and `npeers`. -/
structure Dashboard (n : ℕ) where
  tuiPeers : Fin n → TuiPeer
  npeers : ℤ

/-- The rows that the callers draw. -/
def Dashboard.rendered (d : Dashboard n) : List TuiPeer :=
  ((List.finRange n).take d.npeers.toNat).map d.tuiPeers

/-- The count is the number of active entries, and the rows are these entries in table order. -/
structure Dashboard.Shows (d : Dashboard n) (peers : Fin n → Peer) : Prop where
  count : d.npeers = SlotTable.count fun i => (peers i).active
  rows : d.rendered = (SlotTable.slots fun i => (peers i).active).map fun i => (peers i).tuiPeer

/-! ### The loop -/

/-- The body of the loop for entry `i`. -/
def snapshotRow (peers : Fin n → Peer) (d : Dashboard n) (i : Fin n) :
    Except Fault (Dashboard n) := do
  let row ← entry n d.npeers
  return {
    tuiPeers := Function.update d.tuiPeers row (peers i).tuiPeer
    npeers := if (peers i).active then d.npeers + 1 else d.npeers }

/-- `net_poll_peers`.  `ret` is what `platform_poll_one` returned, `err` what `SOCK_Error` says
about it, and `eintr` the system's `SOCK_EINTR`. -/
def netPollPeers (eintr ret err : ℤ) (peers : Fin n → Peer) (d : Dashboard n) :
    Except Fault (ℤ × Dashboard n) :=
  if ret < 0 then
    if err = eintr then .ok (0, d) else .ok (-1, d)
  else if ret = 0 then do
    let d ← (List.finRange n).foldlM (snapshotRow peers) { d with npeers := 0 }
    return (0, d)
  else .ok (1, d)

/-- Where the loop stands after the entries of a list. -/
structure SnapshotTaken (peers : Fin n → Peer) (slots : List (Fin n)) (d : Dashboard n) : Prop where
  count : d.npeers = (slots.filter fun i => (peers i).active).length
  rows : d.rendered = (slots.filter fun i => (peers i).active).map fun i => (peers i).tuiPeer

theorem val_lt_of_mem_take {m : ℕ} {i : Fin n} (h : i ∈ (List.finRange n).take m) : i.val < m := by
  obtain ⟨k, hk, rfl⟩ := List.getElem_of_mem h
  rw [List.getElem_take, List.getElem_finRange]
  rw [List.length_take] at hk
  show k < m
  omega

/-- Rows below the one that is written stay. -/
theorem map_take_update (rows : Fin n → TuiPeer) {m : ℕ} (hm : m < n) (x : TuiPeer) :
    ((List.finRange n).take m).map (Function.update rows ⟨m, hm⟩ x) =
      ((List.finRange n).take m).map rows := by
  refine List.map_congr_left fun i hi => Function.update_of_ne ?_ x rows
  intro heq
  have hlt := val_lt_of_mem_take hi
  rw [heq] at hlt
  exact lt_irrefl m hlt

/-- **One entry.**  There is a row for it, and it counts if it is active. -/
theorem SnapshotTaken.concat {peers : Fin n → Peer} {slots : List (Fin n)} {d : Dashboard n}
    (h : SnapshotTaken peers slots d) (hlen : slots.length < n) (i : Fin n) :
    ∃ d', snapshotRow peers d i = .ok d' ∧ SnapshotTaken peers (slots ++ [i]) d' := by
  set m := (slots.filter fun i => (peers i).active).length with hm
  have hle : m ≤ slots.length := List.length_filter_le _ _
  have hmn : m < n := by omega
  have hrow : entry n d.npeers = .ok ⟨m, hmn⟩ := by
    rw [h.count]
    exact entry_val ⟨m, hmn⟩
  have hrows := h.rows
  rw [Dashboard.rendered, h.count, Int.toNat_natCast] at hrows
  refine ⟨_, by rw [snapshotRow, hrow]; rfl, ?_⟩
  by_cases hact : (peers i).active = true
  · have hfilter : ((slots ++ [i]).filter fun i => (peers i).active) =
        (slots.filter fun i => (peers i).active) ++ [i] := by
      simp [hact]
    constructor
    · rw [if_pos hact, hfilter, List.length_append, List.length_singleton, h.count]
      push_cast
      rfl
    · -- the row of the entry is the last one
      have hcount : (d.npeers + 1).toNat = m + 1 := by
        rw [h.count]
        omega
      have htake : (List.finRange n).take (m + 1) = (List.finRange n).take m ++ [⟨m, hmn⟩] := by
        rw [List.take_succ_eq_append_getElem (by rw [List.length_finRange]; exact hmn),
          List.getElem_finRange]
        rfl
      rw [Dashboard.rendered, hfilter]
      simp only [if_pos hact, hcount]
      rw [htake, List.map_append, map_take_update, hrows, List.map_append]
      simp
  · have hfilter : ((slots ++ [i]).filter fun i => (peers i).active) =
        slots.filter fun i => (peers i).active := by
      simp [hact]
    constructor
    · rw [if_neg hact, hfilter]
      exact h.count
    · rw [Dashboard.rendered, hfilter]
      simp only [if_neg hact]
      rw [h.count, Int.toNat_natCast, map_take_update, hrows]

/-- **The loop.**  It writes inside the array and leaves the active entries. -/
theorem snapshotTaken (peers : Fin n → Peer) (d : Dashboard n) {slots : List (Fin n)}
    (hlen : slots.length ≤ n) :
    ∃ d', slots.foldlM (snapshotRow peers) { d with npeers := 0 } = .ok d' ∧
      SnapshotTaken peers slots d' := by
  induction slots using List.reverseRecOn with
  | nil =>
    refine ⟨{ d with npeers := 0 }, rfl, rfl, ?_⟩
    simp [Dashboard.rendered]
  | append_singleton slots i ih =>
    rw [List.length_append, List.length_singleton] at hlen
    obtain ⟨d₁, hrun, htaken⟩ := ih (by omega)
    obtain ⟨d₂, hstep, htaken₂⟩ := htaken.concat (by omega) i
    refine ⟨d₂, ?_, htaken₂⟩
    rw [List.foldlM_append, hrun]
    show (([i] : List (Fin n)).foldlM (snapshotRow peers) d₁) = .ok d₂
    rw [List.foldlM_cons, hstep]
    rfl

/-! ### A whole call -/

/-- When the second is over, the rows are the table. -/
theorem netPollPeers_timeout (eintr err : ℤ) (peers : Fin n → Peer) (d : Dashboard n) :
    ∃ d', netPollPeers eintr 0 err peers d = .ok (0, d') ∧ d'.Shows peers := by
  obtain ⟨d', hrun, htaken⟩ := snapshotTaken peers d (List.length_finRange (n := n)).le
  refine ⟨d', ?_, htaken.count, htaken.rows⟩
  rw [netPollPeers, if_neg (lt_irrefl 0), if_pos rfl, hrun]
  rfl

/-- **The dashboard.**  For every table, every content of the rows and of `npeers`, and every
outcome of the wait, no row outside the array is written, and the call shows the table whenever it
returns 0, exactly if the wait was not interrupted or the rows showed the table before. -/
theorem poll_snapshot_iff (eintr ret err : ℤ) (peers : Fin n → Peer) (d : Dashboard n) :
    (∃ r d', netPollPeers eintr ret err peers d = .ok (r, d') ∧ (r = 0 → d'.Shows peers)) ↔
      (ret < 0 ∧ err = eintr → d.Shows peers) := by
  by_cases hneg : ret < 0
  · by_cases hintr : err = eintr
    · have hcall : netPollPeers eintr ret err peers d = .ok (0, d) := by
        rw [netPollPeers, if_pos hneg, if_pos hintr]
      rw [hcall]
      constructor
      · rintro ⟨r, d', hres, hshows⟩ -
        obtain ⟨rfl, rfl⟩ := Prod.mk.inj (Except.ok.inj hres)
        exact hshows rfl
      · intro hshows
        exact ⟨0, d, rfl, fun _ => hshows ⟨hneg, hintr⟩⟩
    · refine ⟨fun _ h => absurd h.2 hintr, fun _ => ⟨-1, d, ?_, fun h => absurd h (by decide)⟩⟩
      rw [netPollPeers, if_pos hneg, if_neg hintr]
  · refine ⟨fun _ h => absurd h.1 hneg, fun _ => ?_⟩
    by_cases hzero : ret = 0
    · subst hzero
      obtain ⟨d', hrun, hshows⟩ := netPollPeers_timeout eintr err peers d
      exact ⟨0, d', hrun, fun _ => hshows⟩
    · refine ⟨1, d, ?_, fun h => absurd h (by decide)⟩
      rw [netPollPeers, if_neg hneg, if_neg hzero]

/-- A signal interrupts the first wait of a server without peers, `npeers` is not set yet and
happens to be 5: the call returns 0, and five rows are drawn. -/
theorem poll_interrupted_shows_stale :
    let peers : Slot → Peer := fun _ => Peer.zero
    let d : Dashboard tundMaxPeers := ⟨fun _ => Peer.zero.tuiPeer, 5⟩
    netPollPeers 4 (-1) 4 peers d = .ok (0, d) ∧ ¬ d.Shows peers ∧ d.rendered.length = 5 := by
  intro peers d
  have hnone : SlotTable.count (fun i => (peers i).active) = 0 :=
    SlotTable.count_eq_zero fun _ => rfl
  refine ⟨rfl, ?_, rfl⟩
  intro hshows
  have hcount := hshows.count
  rw [hnone] at hcount
  cases hcount

end Tund
