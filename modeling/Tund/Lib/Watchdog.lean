import Mathlib.Tactic

/-!
# Watchdogs

A watchdog remembers when it last saw a sign of life and fires at a moment that is more
than `limit` later (`Expired`).  What it remembers is the last of a history of signs;
when the clock never goes back, it fires exactly if every sign is too old
(`expired_getLast_iff`).

`survives_losses` is accuracy: beats at most `period` apart, of which no more than `m` in
a row get lost, never let it fire when `(m + 1) • period ≤ limit`.  `noticed` is the
other half: checks at most `period` apart find a silence before it is `limit + period`
old.
-/

namespace Watchdog

variable {τ : Type*} [AddCommGroup τ] [LinearOrder τ] [IsOrderedAddMonoid τ]
variable {limit period last now : τ} {signs : List τ}

/-- The last sign is more than `limit` ago. -/
def Expired (limit last now : τ) : Prop := limit < now - last

/-- Every sign in a history is too old. -/
def Silent (limit : τ) (signs : List τ) (now : τ) : Prop := ∀ t ∈ signs, Expired limit t now

theorem Expired.mono {t : τ} (h : Expired limit t now) (hle : last ≤ t) : Expired limit last now :=
  lt_of_lt_of_le h (sub_le_sub_left hle now)

/-- **Exactness.**  Under a clock that never goes back, the last sign decides for all. -/
theorem expired_getLast_iff (hsorted : signs.Pairwise (· ≤ ·)) (hlast : signs.getLast? = some last) :
    Expired limit last now ↔ Silent limit signs now := by
  obtain ⟨init, rfl⟩ := List.getLast?_eq_some_iff.1 hlast
  rw [List.pairwise_append] at hsorted
  constructor
  · intro h t ht
    rcases List.mem_append.1 ht with ht | ht
    · exact h.mono (hsorted.2.2 t ht last (List.mem_singleton_self last))
    · rw [List.mem_singleton.1 ht]
      exact h
  · exact fun h => h last (List.mem_append_right _ (List.mem_singleton_self last))

section Beats

variable {sent : ℕ → τ}

/-- Beats that are at most `period` apart. -/
theorem beat_le (hgap : ∀ k, sent (k + 1) ≤ sent k + period) (k n : ℕ) :
    sent (k + n) ≤ sent k + n • period := by
  induction n with
  | zero => simp
  | succ n ih =>
    calc sent (k + (n + 1)) ≤ sent (k + n) + period := hgap (k + n)
      _ ≤ sent k + n • period + period := by gcongr
      _ = sent k + (n + 1) • period := by rw [succ_nsmul, add_assoc]

/-- **Accuracy.**  Beats leave at most `period` apart, the first one at most `period` after the
history begins.  Of any `m + 1` in a row that left by now, one made a sign when it left or later.
Then not every sign is too old. -/
theorem survives_losses {first : τ} {m : ℕ} (hperiod : 0 ≤ period)
    (hlimit : (m + 1) • period ≤ limit) (hfirst : first ∈ signs) (hstart : sent 0 ≤ first + period)
    (hgap : ∀ k, sent (k + 1) ≤ sent k + period) (hnow : ∃ k, now < sent k)
    (hheard : ∀ k, sent (k + m) ≤ now → ∃ j ≤ m, ∃ t ∈ signs, sent (k + j) ≤ t) :
    ¬ Silent limit signs now := by
  classical
  intro hsilent
  have hmono : ∀ {a b : ℕ}, a ≤ b → a • period ≤ b • period := fun h => nsmul_le_nsmul_left hperiod h
  -- `n` is the first beat that is still to come
  obtain ⟨n, hn, hmin⟩ : ∃ n, now < sent n ∧ ∀ k < n, sent k ≤ now :=
    ⟨Nat.find hnow, Nat.find_spec hnow, fun k hk => not_lt.1 (Nat.find_min hnow hk)⟩
  rcases Nat.lt_or_ge m n with hlt | hge
  · obtain ⟨k, rfl⟩ : ∃ k, n = k + m + 1 := ⟨n - m - 1, by omega⟩
    obtain ⟨j, hj, t, ht, hle⟩ := hheard k (hmin _ (Nat.lt_succ_self _))
    refine absurd (hsilent t ht) (not_lt.2 ?_)
    have hbeat := beat_le hgap (k + j) (m + 1 - j)
    rw [show k + j + (m + 1 - j) = k + m + 1 by omega] at hbeat
    have hstep := (hmono (Nat.sub_le (m + 1) j)).trans hlimit
    rw [sub_le_iff_le_add']
    exact hn.le.trans (hbeat.trans (add_le_add hle hstep))
  · refine absurd (hsilent first hfirst) (not_lt.2 ?_)
    have hbeat := beat_le hgap 0 n
    rw [Nat.zero_add] at hbeat
    have hstep : (n + 1) • period ≤ limit := (hmono (Nat.succ_le_succ hge)).trans hlimit
    rw [sub_le_iff_le_add']
    calc now ≤ sent n := hn.le
      _ ≤ sent 0 + n • period := hbeat
      _ ≤ first + period + n • period := by gcongr
      _ = first + (n + 1) • period := by rw [succ_nsmul', add_assoc]
      _ ≤ first + limit := by gcongr

/-- **Detection.**  Checks at most `period` apart: if the first one does not fire and the clock
goes on past the limit, one of them fires while the silence is at most `limit + period` old. -/
theorem noticed (sent : ℕ → τ) (hgap : ∀ k, sent (k + 1) ≤ sent k + period)
    (hfirst : ¬ Expired limit last (sent 0)) (hlate : ∃ k, Expired limit last (sent k)) :
    ∃ k, Expired limit last (sent k) ∧ sent k - last ≤ limit + period := by
  classical
  have hspec := Nat.find_spec hlate
  obtain ⟨k, hk⟩ : ∃ k, Nat.find hlate = k + 1 :=
    Nat.exists_eq_succ_of_ne_zero fun hz => hfirst (hz ▸ hspec)
  have hbefore := not_lt.1 (Nat.find_min hlate (m := k) (by omega))
  rw [hk] at hspec
  refine ⟨k + 1, hspec, ?_⟩
  rw [sub_le_iff_le_add'] at hbefore ⊢
  calc sent (k + 1) ≤ sent k + period := hgap k
    _ ≤ last + limit + period := by gcongr
    _ = last + (limit + period) := add_assoc _ _ _

end Beats

end Watchdog
