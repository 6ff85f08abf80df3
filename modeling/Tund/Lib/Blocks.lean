import Mathlib.Tactic

/-!
# Texts cut into blocks

`blocks n b` are the whole blocks of `n` elements at the beginning of a text, `rest n b` is
what is left behind them.  A text that comes in parts is cut the same way as the whole, if
what is left of one part is kept for the next: `blocks_append`, `rest_append`.

`HeldBack n b done tail` is the other way to cut a text: whole blocks, and behind them the last
block, which may be incomplete and is empty only if the text is.
-/

namespace Blocks

variable {α : Type*} {n : ℕ}

/-- The whole blocks of `n` elements. -/
def blocks (n : ℕ) (b : List α) : List (List α) :=
  (List.range (b.length / n)).map fun i => (b.drop (n * i)).take n

/-- What is left behind the whole blocks. -/
def rest (n : ℕ) (b : List α) : List α := b.drop (n * (b.length / n))

theorem length_rest (n : ℕ) (b : List α) : (rest n b).length = b.length % n := by
  rw [rest, List.length_drop, Nat.mod_eq_sub_mul_div]

theorem rest_of_dvd {b : List α} (h : n ∣ b.length) : rest n b = [] := by
  rw [rest, Nat.mul_div_cancel' h, List.drop_length]

theorem blocks_of_lt {b : List α} (h : b.length < n) : blocks n b = [] := by
  rw [blocks, Nat.div_eq_of_lt h, List.range_zero, List.map_nil]

theorem rest_of_lt {b : List α} (h : b.length < n) : rest n b = b := by
  rw [rest, Nat.div_eq_of_lt h, Nat.mul_zero, List.drop_zero]

theorem length_of_mem_blocks {b x : List α} (h : x ∈ blocks n b) : x.length = n := by
  obtain ⟨i, hi, rfl⟩ := List.mem_map.1 h
  have hle : n * (i + 1) ≤ n * (b.length / n) := Nat.mul_le_mul_left n (List.mem_range.1 hi)
  have hdiv := Nat.mul_div_le b.length n
  rw [List.length_take, List.length_drop, Nat.min_eq_left]
  rw [Nat.mul_succ] at hle
  omega

/-- A block in front. -/
theorem blocks_cons {a : List α} (hn : 0 < n) (ha : a.length = n) (b : List α) :
    blocks n (a ++ b) = a :: blocks n b := by
  have hlen : (a ++ b).length / n = b.length / n + 1 := by
    rw [List.length_append, ha, Nat.add_div_left _ hn]
  rw [blocks, hlen, List.range_succ_eq_map, List.map_cons, List.map_map]
  have htake : ((a ++ b).drop (n * 0)).take n = a := by
    rw [Nat.mul_zero, List.drop_zero, List.take_left' ha]
  rw [htake, blocks]
  congr 2
  funext i
  have hdrop : (a ++ b).drop (n * (i + 1)) = b.drop (n * i) := by
    rw [List.drop_append, List.drop_of_length_le, List.nil_append, ha]
    · congr 1
      rw [Nat.mul_succ, Nat.add_sub_cancel]
    · rw [ha, Nat.mul_succ]
      exact Nat.le_add_left _ _
  simp only [Function.comp, Nat.succ_eq_add_one, hdrop]

/-- Blocks in front. -/
theorem blocks_append {a : List α} (hn : 0 < n) (ha : n ∣ a.length) (b : List α) :
    blocks n (a ++ b) = blocks n a ++ blocks n b := by
  obtain ⟨k, hk⟩ := ha
  induction k generalizing a with
  | zero =>
    rw [Nat.mul_zero, List.length_eq_zero_iff] at hk
    have hnil : blocks n ([] : List α) = [] := blocks_of_lt hn
    rw [hk, hnil, List.nil_append, List.nil_append]
  | succ k ih =>
    have htake : (a.take n).length = n := by
      rw [List.length_take, hk, Nat.mul_succ]
      exact Nat.min_eq_left (Nat.le_add_left _ _)
    have hdrop : (a.drop n).length = n * k := by
      rw [List.length_drop, hk, Nat.mul_succ, Nat.add_sub_cancel]
    rw [← List.take_append_drop n a, List.append_assoc, blocks_cons hn htake, blocks_cons hn htake,
      ih hdrop, List.cons_append]

theorem rest_append {a : List α} (ha : n ∣ a.length) (b : List α) :
    rest n (a ++ b) = rest n b := by
  obtain ⟨k, hk⟩ := ha
  rcases Nat.eq_zero_or_pos n with rfl | hn
  · rw [Nat.zero_mul, List.length_eq_zero_iff] at hk
    rw [hk, List.nil_append]
  · have hdiv : (a ++ b).length / n = k + b.length / n := by
      rw [List.length_append, hk, Nat.mul_add_div hn]
    rw [rest, hdiv, List.drop_append, List.drop_of_length_le, List.nil_append, hk, rest]
    · congr 1
      rw [Nat.mul_add, Nat.add_sub_cancel_left]
    · rw [hk]
      exact Nat.mul_le_mul_left n (Nat.le_add_right _ _)

/-- The text up to its rest. -/
theorem take_append_rest (n : ℕ) (b : List α) : b.take (n * (b.length / n)) ++ rest n b = b :=
  List.take_append_drop _ b

theorem dvd_length_take (n : ℕ) (b : List α) : n ∣ (b.take (n * (b.length / n))).length := by
  rw [List.length_take, Nat.min_eq_left (Nat.mul_div_le _ _)]
  exact Nat.dvd_mul_right _ _

theorem blocks_take (hn : 0 < n) (b : List α) :
    blocks n (b.take (n * (b.length / n))) = blocks n b := by
  conv_rhs => rw [← take_append_rest n b, blocks_append hn (dvd_length_take n b)]
  rw [blocks_of_lt (b := rest n b), List.append_nil]
  rw [length_rest]
  exact Nat.mod_lt _ hn

/-- What is left of the first part is kept for the second. -/
theorem blocks_append_rest (hn : 0 < n) (a b : List α) :
    blocks n (a ++ b) = blocks n a ++ blocks n (rest n a ++ b) := by
  conv_lhs => rw [← take_append_rest n a, List.append_assoc, blocks_append hn (dvd_length_take n a),
    blocks_take hn]

theorem rest_append_rest (n : ℕ) (a b : List α) : rest n (a ++ b) = rest n (rest n a ++ b) := by
  conv_lhs => rw [← take_append_rest n a, List.append_assoc, rest_append (dvd_length_take n a)]

/-! ### The last block held back -/

/-- `b` is whole blocks `done` and the last block `tail`. -/
structure HeldBack (n : ℕ) (b done tail : List α) : Prop where
  eq : b = done ++ tail
  dvd : n ∣ done.length
  le : tail.length ≤ n
  nil : tail = [] → done = []

theorem heldBack_nil (n : ℕ) : HeldBack n ([] : List α) [] [] :=
  ⟨rfl, Nat.dvd_zero n, Nat.zero_le n, fun _ => rfl⟩

/-- More of the last block. -/
theorem HeldBack.fill {b done tail : List α} (h : HeldBack n b done tail) {d : List α}
    (hd : tail.length + d.length ≤ n) : HeldBack n (b ++ d) done (tail ++ d) where
  eq := by rw [h.eq, List.append_assoc]
  dvd := h.dvd
  le := by rw [List.length_append]; exact hd
  nil hnil := h.nil (List.append_eq_nil_iff.1 hnil).1

/-- The last block is complete, and another one follows. -/
theorem HeldBack.next {b done tail : List α} (h : HeldBack n b done tail) (htail : tail.length = n)
    {d : List α} (hd : d.length ≤ n) (hne : d ≠ []) : HeldBack n (b ++ d) (done ++ tail) d where
  eq := by rw [h.eq]
  dvd := by
    rw [List.length_append, htail]
    exact Dvd.dvd.add h.dvd (Nat.dvd_refl n)
  le := hd
  nil hnil := absurd hnil hne

/-- How much of the text stands before its last block. -/
theorem HeldBack.length_done {b done tail : List α} (hn : 0 < n) (h : HeldBack n b done tail) :
    n * ((b.length - 1) / n) = done.length := by
  obtain ⟨k, hk⟩ := h.dvd
  have hlen : b.length = n * k + tail.length := by rw [h.eq, List.length_append, hk]
  by_cases htail : tail = []
  · have hdone := h.nil htail
    rw [hlen, htail, hk, ← hk, hdone]
    simp
  · have hpos := List.length_pos_of_ne_nil htail
    have hsub : b.length - 1 = n * k + (tail.length - 1) := by omega
    have hlt : (tail.length - 1) / n = 0 := Nat.div_eq_of_lt (by have := h.le; omega)
    rw [hsub, Nat.mul_add_div hn, hlt, Nat.add_zero, hk]

end Blocks
