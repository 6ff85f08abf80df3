import Tund.Process

/-!
# The replay window

`proto_replay_accept` keeps the highest sequence number accepted so far and one bit
for each of the 64 numbers from it downwards.  `Tracks w log` says that window `w`
stands for the list `log` of numbers accepted so far; `Tracks.accept` is the step
lemma, and from it the window accepts each number at most once over any sequence of
calls.
-/

namespace Tund

/-- `proto_replay_window_t` -/
structure ReplayWindow where
  highest : UInt64
  seen : UInt64
  deriving DecidableEq

/-- `proto_replay_reset` -/
def protoReplayReset : ReplayWindow := ⟨0, 0⟩

/-- `proto_replay_accept` -/
def protoReplayAccept (w : ReplayWindow) (sequence : UInt64) : Bool × ReplayWindow :=
  if sequence = 0 then (false, w)
  else if w.highest = 0 then (true, ⟨sequence, 1⟩)
  else if w.highest < sequence then
    let shift := sequence - w.highest
    (true, ⟨sequence, if 64 ≤ shift then 1 else w.seen <<< shift ||| 1⟩)
  else
    let age := w.highest - sequence
    if 64 ≤ age then (false, w)
    else
      let bit : UInt64 := 1 <<< age
      if w.seen &&& bit ≠ 0 then (false, w)
      else (true, ⟨w.highest, w.seen ||| bit⟩)

/-- The branches of a call. -/
theorem protoReplayAccept_cases (w : ReplayWindow) (s : UInt64) :
    (s = 0 ∧ protoReplayAccept w s = (false, w)) ∨
    (s ≠ 0 ∧ w.highest = 0 ∧ protoReplayAccept w s = (true, ⟨s, 1⟩)) ∨
    (s ≠ 0 ∧ w.highest ≠ 0 ∧ w.highest < s ∧ protoReplayAccept w s =
      (true, ⟨s, if 64 ≤ s - w.highest then 1 else w.seen <<< (s - w.highest) ||| 1⟩)) ∨
    (s ≠ 0 ∧ w.highest ≠ 0 ∧ s ≤ w.highest ∧ 64 ≤ w.highest - s ∧
      protoReplayAccept w s = (false, w)) ∨
    (s ≠ 0 ∧ w.highest ≠ 0 ∧ s ≤ w.highest ∧ ¬ 64 ≤ w.highest - s ∧
      w.seen &&& 1 <<< (w.highest - s) ≠ 0 ∧ protoReplayAccept w s = (false, w)) ∨
    (s ≠ 0 ∧ w.highest ≠ 0 ∧ s ≤ w.highest ∧ ¬ 64 ≤ w.highest - s ∧
      ¬ w.seen &&& 1 <<< (w.highest - s) ≠ 0 ∧
      protoReplayAccept w s = (true, ⟨w.highest, w.seen ||| 1 <<< (w.highest - s)⟩)) := by
  by_cases hs : s = 0
  · exact .inl ⟨hs, by simp only [protoReplayAccept, if_pos hs]⟩
  by_cases h0 : w.highest = 0
  · exact .inr (.inl ⟨hs, h0, by simp only [protoReplayAccept, if_neg hs, if_pos h0]⟩)
  by_cases hlt : w.highest < s
  · exact .inr (.inr (.inl ⟨hs, h0, hlt, by
      simp only [protoReplayAccept, if_neg hs, if_neg h0, if_pos hlt]⟩))
  have hle : s ≤ w.highest := UInt64.not_lt.1 hlt
  by_cases hold : 64 ≤ w.highest - s
  · exact .inr (.inr (.inr (.inl ⟨hs, h0, hle, hold, by
      simp only [protoReplayAccept, if_neg hs, if_neg h0, if_neg hlt, if_pos hold]⟩)))
  by_cases hand : w.seen &&& 1 <<< (w.highest - s) ≠ 0
  · exact .inr (.inr (.inr (.inr (.inl ⟨hs, h0, hle, hold, hand, by
      simp only [protoReplayAccept, if_neg hs, if_neg h0, if_neg hlt, if_neg hold,
        if_pos hand]⟩))))
  · exact .inr (.inr (.inr (.inr (.inr ⟨hs, h0, hle, hold, hand, by
      simp only [protoReplayAccept, if_neg hs, if_neg h0, if_neg hlt, if_neg hold,
        if_neg hand]⟩))))

/-! ### Bits -/

/-- Bit `i` of the window. -/
def ReplayWindow.bit (w : ReplayWindow) (i : ℕ) : Bool := w.seen.toNat.testBit i

theorem testBit_one_shiftLeft (age : UInt64) (h : age.toNat < 64) (i : ℕ) :
    ((1 : UInt64) <<< age).toNat.testBit i = decide (i = age.toNat) := by
  rw [UInt64.toNat_shiftLeft, Nat.mod_eq_of_lt h, Nat.testBit_mod_two_pow, UInt64.toNat_one,
    Nat.one_shiftLeft, Nat.testBit_two_pow]
  by_cases hi : i = age.toNat
  · simp [hi, h]
  · simp [hi, eq_comm]

theorem and_one_shiftLeft_ne_zero {x age : UInt64} (h : age.toNat < 64) :
    x &&& (1 <<< age) ≠ 0 ↔ x.toNat.testBit age.toNat = true := by
  constructor
  · intro hne
    by_contra hbit
    apply hne
    apply UInt64.toNat_inj.1
    apply Nat.eq_of_testBit_eq
    intro i
    rw [UInt64.toNat_and, Nat.testBit_and, testBit_one_shiftLeft _ h]
    by_cases hi : i = age.toNat
    · subst hi; simp [Bool.eq_false_iff.2 hbit]
    · simp [hi]
  · intro hbit heq
    have h0 : (x &&& (1 <<< age)).toNat.testBit age.toNat = true := by
      rw [UInt64.toNat_and, Nat.testBit_and, testBit_one_shiftLeft _ h, hbit]
      simp
    rw [heq] at h0
    simp at h0

theorem testBit_or_one_shiftLeft {x age : UInt64} (h : age.toNat < 64) (i : ℕ) :
    (x ||| 1 <<< age).toNat.testBit i = (x.toNat.testBit i || decide (i = age.toNat)) := by
  rw [UInt64.toNat_or, Nat.testBit_or, testBit_one_shiftLeft _ h]

theorem testBit_shiftLeft_or_one {x shift : UInt64} (h : shift.toNat < 64) {i : ℕ} (hi : i < 64) :
    (x <<< shift ||| 1).toNat.testBit i =
      (decide (i = 0) || (decide (shift.toNat ≤ i) && x.toNat.testBit (i - shift.toNat))) := by
  rw [UInt64.toNat_or, Nat.testBit_or, UInt64.toNat_shiftLeft, Nat.mod_eq_of_lt h,
    Nat.testBit_mod_two_pow, Nat.testBit_shiftLeft, UInt64.toNat_one]
  have h1 : Nat.testBit 1 i = decide (i = 0) := by
    rw [← Nat.pow_zero 2, Nat.testBit_two_pow]
    simp [eq_comm]
  simp [h1, hi, Bool.or_comm, ge_iff_le]

/-! ### The specification -/

/-- The window stands for the numbers accepted so far: `highest` is their maximum (0 if there are
none), and bit `i` says whether `highest - i` is among them. -/
structure ReplayWindow.Tracks (w : ReplayWindow) (log : List UInt64) : Prop where
  ne_zero : ∀ s ∈ log, s ≠ 0
  nodup : log.Nodup
  le_highest : ∀ s ∈ log, s ≤ w.highest
  highest_mem : w.highest ≠ 0 → w.highest ∈ log
  bit_iff : ∀ i < 64, w.bit i = true ↔ ∃ s ∈ log, s.toNat + i = w.highest.toNat

theorem tracks_reset : protoReplayReset.Tracks [] where
  ne_zero := by simp
  nodup := List.nodup_nil
  le_highest := by simp
  highest_mem h := absurd rfl h
  bit_iff i _ := by simp [protoReplayReset, ReplayWindow.bit]

namespace ReplayWindow.Tracks

variable {w : ReplayWindow} {log : List UInt64}

theorem eq_nil_iff (h : w.Tracks log) : log = [] ↔ w.highest = 0 := by
  constructor
  · rintro rfl
    by_contra hne
    simpa using h.highest_mem hne
  · intro h0
    by_contra hne
    obtain ⟨s, hs⟩ := List.exists_mem_of_ne_nil log hne
    have hle := h.le_highest s hs
    rw [h0, UInt64.le_iff_toNat_le] at hle
    exact h.ne_zero s hs (UInt64.toNat_inj.1 (by simpa using hle))

/-- What the window accepts: nonzero numbers not accepted before and less than 64 behind the
highest. -/
def Fresh (w : ReplayWindow) (log : List UInt64) (s : UInt64) : Prop :=
  s ≠ 0 ∧ s ∉ log ∧ (log = [] ∨ w.highest.toNat < s.toNat + 64)

theorem accept_first (h : w.Tracks log) {s : UInt64} (hs : s ≠ 0) (h0 : w.highest = 0) :
    Fresh w log s ∧ (⟨s, 1⟩ : ReplayWindow).Tracks (log ++ [s]) := by
  obtain rfl := h.eq_nil_iff.2 h0
  refine ⟨⟨hs, by simp, .inl rfl⟩, ?_, by simp, by simp, by simp, ?_⟩
  · simpa using hs
  · intro i hi
    have hb : ReplayWindow.bit ⟨s, 1⟩ i = decide (i = 0) := by
      have := testBit_one_shiftLeft 0 (by decide) i
      simpa [ReplayWindow.bit] using this
    rw [hb]
    simp

theorem accept_newer (h : w.Tracks log) {s : UInt64} (hlt : w.highest < s) :
    Fresh w log s ∧
    (⟨s, if 64 ≤ s - w.highest then 1 else w.seen <<< (s - w.highest) ||| 1⟩ :
      ReplayWindow).Tracks (log ++ [s]) := by
  have hltn : w.highest.toNat < s.toNat := UInt64.lt_iff_toNat_lt.1 hlt
  have hnew : s ∉ log := fun hmem => absurd (h.le_highest s hmem) (UInt64.not_le.2 hlt)
  have hs : s ≠ 0 := by
    rintro rfl
    simp at hltn
  have hsub : (s - w.highest).toNat = s.toNat - w.highest.toNat :=
    UInt64.toNat_sub_of_le _ _ (UInt64.le_of_lt hlt)
  refine ⟨⟨hs, hnew, .inr (by omega)⟩, ?_, ?_, ?_, ?_, ?_⟩
  · intro x hx
    rcases List.mem_append.1 hx with hx | hx
    · exact h.ne_zero x hx
    · rw [List.mem_singleton.1 hx]; exact hs
  · rw [List.nodup_append]
    exact ⟨h.nodup, List.nodup_singleton s, by
      rintro a ha b hb rfl
      rw [List.mem_singleton.1 hb] at ha
      exact hnew ha⟩
  · intro x hx
    rcases List.mem_append.1 hx with hx | hx
    · exact UInt64.le_trans (h.le_highest x hx) (UInt64.le_of_lt hlt)
    · rw [List.mem_singleton.1 hx]; exact UInt64.le_refl _
  · intro _
    simp
  · intro i hi
    -- the numbers seen so far move up by the distance between the two maxima
    have hold : (∃ x ∈ log, x.toNat + i = s.toNat) ↔
        ∃ j, i = j + (s - w.highest).toNat ∧ w.bit j = true := by
      rw [hsub]
      constructor
      · rintro ⟨x, hx, hxi⟩
        have hxh := UInt64.le_iff_toNat_le.1 (h.le_highest x hx)
        exact ⟨i - (s.toNat - w.highest.toNat), by omega,
          (h.bit_iff _ (by omega)).2 ⟨x, hx, by omega⟩⟩
      · rintro ⟨j, hij, hj⟩
        obtain ⟨x, hx, hxj⟩ := (h.bit_iff j (by omega)).1 hj
        exact ⟨x, hx, by omega⟩
    have hself : (∃ x ∈ log ++ [s], x.toNat + i = s.toNat) ↔
        i = 0 ∨ ∃ x ∈ log, x.toNat + i = s.toNat := by
      simp only [List.mem_append, List.mem_singleton, or_and_right, exists_or, exists_eq_left]
      constructor
      · rintro (hx | hx)
        · exact .inr hx
        · exact .inl (by omega)
      · rintro (hx | hx)
        · exact .inr (by omega)
        · exact .inl hx
    rw [hself, hold]
    by_cases hbig : 64 ≤ s - w.highest
    · have hbign : 64 ≤ (s - w.highest).toNat := by
        simpa using UInt64.le_iff_toNat_le.1 hbig
      have hb : ReplayWindow.bit ⟨s, 1⟩ i = decide (i = 0) := by
        have := testBit_one_shiftLeft 0 (by decide) i
        simpa [ReplayWindow.bit] using this
      rw [if_pos hbig, hb, decide_eq_true_iff]
      constructor
      · exact .inl
      · rintro (hi0 | ⟨j, hj, -⟩)
        · exact hi0
        · omega
    · have hsmall : (s - w.highest).toNat < 64 := by
        have := UInt64.not_le.1 hbig
        simpa using UInt64.lt_iff_toNat_lt.1 this
      rw [if_neg hbig, ReplayWindow.bit, testBit_shiftLeft_or_one hsmall hi]
      simp only [Bool.or_eq_true, decide_eq_true_eq, Bool.and_eq_true]
      constructor
      · rintro (hi0 | ⟨hle, hbit⟩)
        · exact .inl hi0
        · exact .inr ⟨i - (s - w.highest).toNat, by omega, hbit⟩
      · rintro (hi0 | ⟨j, rfl, hj⟩)
        · exact .inl hi0
        · refine .inr ⟨by omega, ?_⟩
          rw [Nat.add_sub_cancel]
          exact hj

theorem mem_iff_bit (h : w.Tracks log) {s : UInt64} (hle : s ≤ w.highest)
    (hage : (w.highest - s).toNat < 64) : s ∈ log ↔ w.bit (w.highest - s).toNat = true := by
  have hlen : s.toNat ≤ w.highest.toNat := UInt64.le_iff_toNat_le.1 hle
  have hsub : (w.highest - s).toNat = w.highest.toNat - s.toNat := UInt64.toNat_sub_of_le _ _ hle
  rw [h.bit_iff _ hage, hsub]
  constructor
  · exact fun hs => ⟨s, hs, by omega⟩
  · rintro ⟨x, hx, hxs⟩
    rwa [UInt64.toNat_inj.1 (show x.toNat = s.toNat by omega)] at hx

theorem accept_older (h : w.Tracks log) {s : UInt64} (hs : s ≠ 0) (hle : s ≤ w.highest)
    (hage : (w.highest - s).toNat < 64) (hbit : w.bit (w.highest - s).toNat = false) :
    Fresh w log s ∧
    (⟨w.highest, w.seen ||| 1 <<< (w.highest - s)⟩ : ReplayWindow).Tracks (log ++ [s]) := by
  have hlen : s.toNat ≤ w.highest.toNat := UInt64.le_iff_toNat_le.1 hle
  have hsub : (w.highest - s).toNat = w.highest.toNat - s.toNat := UInt64.toNat_sub_of_le _ _ hle
  have hnew : s ∉ log := by
    rw [h.mem_iff_bit hle hage, hbit]
    simp
  refine ⟨⟨hs, hnew, .inr (by omega)⟩, ?_, ?_, ?_, ?_, ?_⟩
  · intro x hx
    rcases List.mem_append.1 hx with hx | hx
    · exact h.ne_zero x hx
    · rw [List.mem_singleton.1 hx]; exact hs
  · rw [List.nodup_append]
    exact ⟨h.nodup, List.nodup_singleton s, by
      rintro a ha b hb rfl
      rw [List.mem_singleton.1 hb] at ha
      exact hnew ha⟩
  · intro x hx
    rcases List.mem_append.1 hx with hx | hx
    · exact h.le_highest x hx
    · rw [List.mem_singleton.1 hx]; exact hle
  · exact fun hne => List.mem_append_left _ (h.highest_mem hne)
  · intro i hi
    rw [ReplayWindow.bit, testBit_or_one_shiftLeft hage, Bool.or_eq_true, decide_eq_true_iff, hsub]
    have hold := h.bit_iff i hi
    rw [ReplayWindow.bit] at hold
    rw [hold]
    clear hold
    change _ ↔ ∃ x ∈ log ++ [s], x.toNat + i = w.highest.toNat
    constructor
    · rintro (⟨x, hx, hxi⟩ | hx)
      · exact ⟨x, List.mem_append_left _ hx, hxi⟩
      · exact ⟨s, by simp, by omega⟩
    · rintro ⟨x, hx, hxi⟩
      rcases List.mem_append.1 hx with hx | hx
      · exact .inl ⟨x, hx, hxi⟩
      · rw [List.mem_singleton] at hx
        subst hx
        exact .inr (by omega)

/-- **One call.**  The window accepts exactly the fresh numbers and records them; a rejected number
leaves it unchanged. -/
theorem accept (h : w.Tracks log) (s : UInt64) :
    ((protoReplayAccept w s).1 = true ∧ Fresh w log s ∧
      (protoReplayAccept w s).2.Tracks (log ++ [s])) ∨
    (protoReplayAccept w s = (false, w) ∧ ¬ Fresh w log s) := by
  rcases protoReplayAccept_cases w s with ⟨hs, hr⟩ | ⟨hs, h0, hr⟩ | ⟨-, -, hlt, hr⟩ |
    ⟨-, h0, hle, hold, hr⟩ | ⟨-, -, hle, hold, hand, hr⟩ | ⟨hs, -, hle, hold, hand, hr⟩
  · exact .inr ⟨hr, fun hf => hf.1 hs⟩
  · rw [hr]; exact .inl ⟨rfl, h.accept_first hs h0⟩
  · rw [hr]; exact .inl ⟨rfl, h.accept_newer hlt⟩
  · refine .inr ⟨hr, fun ⟨_, _, hf⟩ => ?_⟩
    have holdn : 64 ≤ (w.highest - s).toNat := by simpa using UInt64.le_iff_toNat_le.1 hold
    have hsub : (w.highest - s).toNat = w.highest.toNat - s.toNat :=
      UInt64.toNat_sub_of_le _ _ hle
    rcases hf with hnil | hf
    · exact h0 (h.eq_nil_iff.1 hnil)
    · omega
  · have hage : (w.highest - s).toNat < 64 := by
      simpa using UInt64.lt_iff_toNat_lt.1 (UInt64.not_le.1 hold)
    exact .inr ⟨hr, fun hf =>
      hf.2.1 ((h.mem_iff_bit hle hage).2 ((and_one_shiftLeft_ne_zero hage).1 hand))⟩
  · have hage : (w.highest - s).toNat < 64 := by
      simpa using UInt64.lt_iff_toNat_lt.1 (UInt64.not_le.1 hold)
    rw [and_one_shiftLeft_ne_zero hage] at hand
    rw [hr]
    exact .inl ⟨rfl, h.accept_older hs hle hage (by simpa [ReplayWindow.bit] using hand)⟩

/-- A number that was accepted is not accepted again. -/
theorem not_mem_of_accept (h : w.Tracks log) {s : UInt64} (ha : (protoReplayAccept w s).1 = true) :
    s ∉ log := by
  rcases h.accept s with ⟨-, hf, -⟩ | ⟨hr, -⟩
  · exact hf.2.1
  · rw [hr] at ha; cases ha

theorem of_accept (h : w.Tracks log) {s : UInt64} (ha : (protoReplayAccept w s).1 = true) :
    (protoReplayAccept w s).2.Tracks (log ++ [s]) := by
  rcases h.accept s with ⟨-, -, ht⟩ | ⟨hr, -⟩
  · exact ht
  · rw [hr] at ha; cases ha

end ReplayWindow.Tracks

/-- A rejected number leaves every window unchanged. -/
theorem protoReplayAccept_of_false {w : ReplayWindow} {s : UInt64}
    (h : (protoReplayAccept w s).1 = false) : protoReplayAccept w s = (false, w) := by
  rcases protoReplayAccept_cases w s with ⟨-, hr⟩ | ⟨-, -, hr⟩ | ⟨-, -, -, hr⟩ |
    ⟨-, -, -, -, hr⟩ | ⟨-, -, -, -, -, hr⟩ | ⟨-, -, -, -, -, hr⟩ <;> rw [hr] at h ⊢ <;> cases h

/-- A number above the highest is accepted and becomes the highest. -/
theorem protoReplayAccept_newer {w : ReplayWindow} {s : UInt64} (h : w.highest < s) :
    (protoReplayAccept w s).1 = true ∧ (protoReplayAccept w s).2.highest = s := by
  have hs : s ≠ 0 := fun h0 => by simp [h0] at h
  have hle : ¬ s ≤ w.highest := UInt64.not_le.2 h
  rcases protoReplayAccept_cases w s with ⟨h0, -⟩ | ⟨-, -, hr⟩ | ⟨-, -, -, hr⟩ |
    ⟨-, -, h', -⟩ | ⟨-, -, h', -⟩ | ⟨-, -, h', -⟩
  · exact absurd h0 hs
  · rw [hr]; exact ⟨rfl, rfl⟩
  · rw [hr]; exact ⟨rfl, rfl⟩
  all_goals exact absurd h' hle

/-! ### Windows in use -/

/-- A window that has accepted something: its highest number is set and recorded in bit 0. -/
def ReplayWindow.Started (w : ReplayWindow) : Prop := w.highest ≠ 0 ∧ w.bit 0 = true

theorem started_accept_reset {s : UInt64} (hs : s ≠ 0) :
    (protoReplayAccept protoReplayReset s).2.Started := by
  simp [protoReplayAccept, protoReplayReset, hs, ReplayWindow.Started, ReplayWindow.bit]

theorem ReplayWindow.Started.accept {w : ReplayWindow} (h : w.Started) (s : UInt64) :
    (protoReplayAccept w s).2.Started := by
  obtain ⟨h0, hb⟩ := h
  rcases protoReplayAccept_cases w s with ⟨-, hr⟩ | ⟨-, h0', -⟩ | ⟨hs, -, -, hr⟩ |
    ⟨-, -, -, -, hr⟩ | ⟨-, -, -, -, -, hr⟩ | ⟨-, -, -, -, -, hr⟩
  · rw [hr]; exact ⟨h0, hb⟩
  · exact absurd h0' h0
  · rw [hr]
    refine ⟨hs, ?_⟩
    simp only [ReplayWindow.bit]
    split_ifs with hbig
    · decide
    · rw [UInt64.toNat_or, Nat.testBit_or]
      simp
  · rw [hr]; exact ⟨h0, hb⟩
  · rw [hr]; exact ⟨h0, hb⟩
  · rw [hr]
    refine ⟨h0, ?_⟩
    simp only [ReplayWindow.bit] at hb ⊢
    rw [UInt64.toNat_or, Nat.testBit_or, hb, Bool.true_or]

/-! ### Sequences of calls -/

/-- The window after a number was offered, and the numbers accepted so far. -/
def offer (st : ReplayWindow × List UInt64) (s : UInt64) : ReplayWindow × List UInt64 :=
  let r := protoReplayAccept st.1 s
  (r.2, if r.1 then st.2 ++ [s] else st.2)

/-- The numbers of a list offered one after the other to a window that was reset. -/
def offers (ss : List UInt64) : ReplayWindow × List UInt64 := ss.foldl offer (protoReplayReset, [])

/-- The largest number of a list, 0 if there is none. -/
def maximum (log : List UInt64) : ℕ := (log.map UInt64.toNat).foldr max 0

theorem maximum_le_iff {log : List UInt64} {n : ℕ} : maximum log ≤ n ↔ ∀ s ∈ log, s.toNat ≤ n := by
  induction log with
  | nil => simp [maximum]
  | cons s log ih =>
    simp only [maximum, List.map_cons, List.foldr_cons, max_le_iff, List.forall_mem_cons] at ih ⊢
    rw [ih]

theorem le_maximum {log : List UInt64} {s : UInt64} (h : s ∈ log) : s.toNat ≤ maximum log :=
  maximum_le_iff.1 le_rfl s h

theorem ReplayWindow.Tracks.highest_eq {w : ReplayWindow} {log : List UInt64} (h : w.Tracks log) :
    w.highest.toNat = maximum log := by
  apply le_antisymm
  · by_cases h0 : w.highest = 0
    · simp [h0]
    · exact le_maximum (h.highest_mem h0)
  · exact maximum_le_iff.2 fun s hs => UInt64.le_iff_toNat_le.1 (h.le_highest s hs)

theorem ReplayWindow.Tracks.offer {st : ReplayWindow × List UInt64} (h : st.1.Tracks st.2)
    (s : UInt64) : (offer st s).1.Tracks (offer st s).2 := by
  unfold Tund.offer
  rcases h.accept s with ⟨htrue, -, ht⟩ | ⟨hfalse, -⟩
  · simpa [htrue] using ht
  · simpa [hfalse] using h

/-- Over any sequence of calls the window stands for the numbers accepted. -/
theorem offers_tracks (ss : List UInt64) : (offers ss).1.Tracks (offers ss).2 := by
  -- the induction is on the sequence from its end, so that the last call comes last
  induction ss using List.reverseRecOn with
  | nil => exact tracks_reset
  | append_singleton ss s ih =>
    rw [offers, List.foldl_append]
    exact ih.offer s

/-- **The window and its specification.**  After any sequence of calls, a number is accepted exactly
if it is not 0, was not accepted before and is less than 64 below the highest accepted one, if
there is one; `highest` is the maximum and the bits are the accepted numbers below it; a rejected
call changes nothing. -/
theorem replay_window_exact (ss : List UInt64) (s : UInt64) :
    ((protoReplayAccept (offers ss).1 s).1 = true ↔
      s ≠ 0 ∧ s ∉ (offers ss).2 ∧
        ((offers ss).2 = [] ∨ maximum (offers ss).2 < s.toNat + 64)) ∧
    (offers ss).1.highest.toNat = maximum (offers ss).2 ∧
    (∀ i < 64, (offers ss).1.seen.toNat.testBit i = true ↔
      ∃ t ∈ (offers ss).2, t.toNat + i = (offers ss).1.highest.toNat) ∧
    ((protoReplayAccept (offers ss).1 s).1 = false →
      (protoReplayAccept (offers ss).1 s).2 = (offers ss).1) := by
  have htracks : (offers ss).1.Tracks (offers ss).2 := offers_tracks ss
  refine ⟨?_, htracks.highest_eq, htracks.bit_iff, fun hfalse => ?_⟩
  · rw [← htracks.highest_eq]
    rcases htracks.accept s with ⟨htrue, hfresh, -⟩ | ⟨hfalse, hstale⟩
    · exact ⟨fun _ => hfresh, fun _ => htrue⟩
    · rw [hfalse]
      exact ⟨nofun, fun hfresh => absurd hfresh hstale⟩
  · rw [protoReplayAccept_of_false hfalse]

end Tund
