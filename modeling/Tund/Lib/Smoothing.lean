import Mathlib.Tactic
import Mathlib.Order.Interval.Set.UnorderedInterval

/-!
# Weighted averages in integers

`next w c s` is the average of a current value `c` with weight `w` and a sample `s` with
weight one, rounded by `w / 2` and cut down to an integer.  Rounding cannot leave the
interval between the two (`next_mem_uIcc`).  Under a constant sample the value comes to
rest: not at the sample, but anywhere in the band `s + w / 2 - w .. s + w / 2` of fixed
points (`iterate_next_settles`).
-/

namespace Smoothing

/-- The average of `c`, with weight `w`, and `s`. -/
def next (w c s : ℕ) : ℕ := (w * c + s + w / 2) / (w + 1)

variable {w c s : ℕ}

theorem le_next_of_le (h : c ≤ s) : c ≤ next w c s := by
  rw [next, Nat.le_div_iff_mul_le (by omega)]
  linarith [Nat.zero_le (w / 2)]

theorem next_le_of_le (h : c ≤ s) : next w c s ≤ s := by
  have hw : w / 2 ≤ w := Nat.div_le_self w 2
  have hmul : w * c ≤ w * s := Nat.mul_le_mul_left w h
  rw [next, ← Nat.lt_succ_iff, Nat.div_lt_iff_lt_mul (by omega)]
  linarith

theorem le_next_of_ge (h : s ≤ c) : s ≤ next w c s := by
  have hmul : w * s ≤ w * c := Nat.mul_le_mul_left w h
  rw [next, Nat.le_div_iff_mul_le (by omega)]
  linarith [Nat.zero_le (w / 2)]

theorem next_le_of_ge (h : s ≤ c) : next w c s ≤ c := by
  have hw : w / 2 ≤ w := Nat.div_le_self w 2
  rw [next, ← Nat.lt_succ_iff, Nat.div_lt_iff_lt_mul (by omega)]
  linarith

/-- **One sample.**  The new value lies between the old one and the sample. -/
theorem next_mem_uIcc (w c s : ℕ) : next w c s ∈ Set.uIcc c s := by
  rcases le_total c s with h | h
  · rw [Set.uIcc_of_le h]
    exact ⟨le_next_of_le h, next_le_of_le h⟩
  · rw [Set.uIcc_of_ge h]
    exact ⟨le_next_of_ge h, next_le_of_ge h⟩

/-! ### A constant sample -/

/-- The value rests between `s + w / 2 - w` and `s + w / 2`. -/
def Settled (w s c : ℕ) : Prop := s + w / 2 ≤ c + w ∧ c ≤ s + w / 2

theorem next_of_settled (h : Settled w s c) : next w c s = c := by
  obtain ⟨hlo, hhi⟩ := h
  rw [next]
  apply Nat.div_eq_of_lt_le <;> linarith

/-- From above, the value falls and does not pass the band. -/
theorem next_lt_of_above (h : s + w / 2 < c) : next w c s < c ∧ s + w / 2 ≤ next w c s := by
  have hmul : w * (s + w / 2) + w ≤ w * c := by
    calc w * (s + w / 2) + w = w * (s + w / 2 + 1) := by ring
      _ ≤ w * c := Nat.mul_le_mul_left w h
  have hw : w / 2 ≤ w := Nat.div_le_self w 2
  constructor
  · rw [next, Nat.div_lt_iff_lt_mul (by omega)]
    linarith
  · rw [next, Nat.le_div_iff_mul_le (by omega)]
    linarith

/-- From below, the value rises and does not pass the band. -/
theorem lt_next_of_below (h : c + w < s + w / 2) :
    c < next w c s ∧ next w c s + w ≤ s + w / 2 := by
  obtain ⟨t, ht⟩ : ∃ t, s + w / 2 = c + w + 1 + t := ⟨s + w / 2 - (c + w + 1), by omega⟩
  constructor
  · rw [next, ← Nat.succ_le_iff, Nat.le_div_iff_mul_le (by omega), Nat.add_assoc, ht]
    have : (c + 1) * (w + 1) = w * c + (c + w + 1) := by ring
    show (c + 1) * (w + 1) ≤ _
    omega
  · have hlt : next w c s < c + 1 + t + 1 := by
      rw [next, Nat.div_lt_iff_lt_mul (by omega), Nat.add_assoc, ht]
      have hring : (c + 1 + t + 1) * (w + 1) = w * c + (c + w + 1 + t) + (w * t + w + 1) := by ring
      omega
    omega

/-- **Settling.**  Under a constant sample the value is in the band after finitely many steps, and
stays there. -/
theorem iterate_next_settles (w s c : ℕ) :
    ∃ N, ∀ n, N ≤ n → Settled w s ((fun c => next w c s)^[n] c) := by
  -- the distance to the band falls with every step outside it
  induction hd : (c - (s + w / 2)) + (s + w / 2 - (c + w)) using Nat.strong_induction_on
    generalizing c with
  | _ d ih =>
    by_cases hset : Settled w s c
    · have hfix : (fun c => next w c s) c = c := next_of_settled hset
      refine ⟨0, fun n _ => ?_⟩
      rw [Function.iterate_fixed hfix]
      exact hset
    · have hcloser : (next w c s - (s + w / 2)) + (s + w / 2 - (next w c s + w)) < d := by
        unfold Settled at hset
        by_cases habove : s + w / 2 < c
        · obtain ⟨h1, h2⟩ := next_lt_of_above habove
          omega
        · obtain ⟨h1, h2⟩ := lt_next_of_below (w := w) (c := c) (s := s) (by omega)
          omega
      obtain ⟨N, hN⟩ := ih _ hcloser (next w c s) rfl
      refine ⟨N + 1, fun n hn => ?_⟩
      obtain ⟨m, rfl⟩ : ∃ m, n = m + 1 := ⟨n - 1, by omega⟩
      rw [Function.iterate_succ_apply]
      exact hN m (by omega)

end Smoothing
