import Mathlib.Tactic
import Mathlib.Data.List.FinRange
import Mathlib.Data.Fintype.Card

/-!
# Fixed tables of slots searched by a linear scan

A table with `n` slots is a function on `Fin n`.  A scan `for (i = 0; i < n; i++)`
over a condition `p` is one of

* `first p`: the first slot that meets `p`, if any;
* `slots p`: all slots that meet `p`, in table order;
* `count p`: how many there are.

The counting lemmas say how `count` moves when one slot changes and how it splits
when a condition is refined.
-/

namespace SlotTable

variable {n : ℕ}

/-- The first slot that meets `p`. -/
def first (p : Fin n → Bool) : Option (Fin n) := (List.finRange n).find? p

/-- The slots that meet `p`, in table order. -/
def slots (p : Fin n → Bool) : List (Fin n) := (List.finRange n).filter p

/-- The number of slots that meet `p`. -/
def count (p : Fin n → Bool) : ℕ := (slots p).length

theorem first_eq_none_iff {p : Fin n → Bool} : first p = none ↔ ∀ i, p i = false := by
  simp [first]

theorem of_first_eq_some {p : Fin n → Bool} {i : Fin n} (h : first p = some i) : p i = true :=
  List.find?_some h

theorem exists_first_of {p : Fin n → Bool} {i : Fin n} (h : p i = true) : ∃ j, first p = some j := by
  cases hf : first p with
  | none => rw [first_eq_none_iff] at hf; simp [hf i] at h
  | some j => exact ⟨j, rfl⟩

/-- A condition met by one slot only is found there. -/
theorem first_eq_of_unique {p : Fin n → Bool} {i : Fin n} (h : p i = true)
    (hu : ∀ j, p j = true → j = i) : first p = some i := by
  obtain ⟨j, hj⟩ := exists_first_of h
  rw [hj, hu j (of_first_eq_some hj)]

/-- No earlier slot meets the condition. -/
theorem not_of_lt_first {p : Fin n → Bool} {i j : Fin n} (h : first p = some i) (hj : j < i) :
    p j = false := by
  obtain ⟨-, as, bs, heq, has⟩ := List.find?_eq_some_iff_append.1 h
  have hsorted : (as ++ i :: bs).Pairwise (· < ·) := heq ▸ List.pairwise_lt_finRange n
  have hmem : j ∈ as ++ i :: bs := heq ▸ List.mem_finRange j
  rcases List.mem_append.1 hmem with hja | hjb
  · simpa using has j hja
  · exfalso
    rcases List.mem_cons.1 hjb with rfl | hjb
    · exact lt_irrefl _ hj
    · have hij : i < j := List.rel_of_pairwise_cons (List.pairwise_append.1 hsorted).2.1 hjb
      exact lt_asymm hj hij

@[simp] theorem mem_slots {p : Fin n → Bool} {i : Fin n} : i ∈ slots p ↔ p i = true := by
  simp [slots]

theorem nodup_slots (p : Fin n → Bool) : (slots p).Nodup :=
  (List.nodup_finRange n).filter _

theorem count_le (p : Fin n → Bool) : count p ≤ n := by
  simpa [count, slots] using List.length_filter_le p (List.finRange n)

theorem count_eq_zero {p : Fin n → Bool} (h : ∀ i, p i = false) : count p = 0 := by
  simp [count, slots, h]

theorem count_eq_iff {p : Fin n → Bool} : count p = n ↔ ∀ i, p i = true := by
  have h := List.length_filter_eq_length_iff (p := p) (l := List.finRange n)
  rw [List.length_finRange] at h
  rw [count, slots, h]
  simp

/-- A condition splits along any other. -/
theorem count_split (p q : Fin n → Bool) :
    count p = count (fun i => p i && q i) + count (fun i => p i && !q i) := by
  simp only [count, slots]
  induction List.finRange n with
  | nil => rfl
  | cons i l ih =>
    cases hp : p i <;> cases hq : q i <;> simp [hp, hq, ih] <;> omega

theorem count_singleton (i : Fin n) : count (fun j => decide (j = i)) = 1 := by
  have h : slots (fun j => decide (j = i)) = [i] := by
    have hperm : (slots (fun j => decide (j = i))).Perm [i] := by
      rw [List.perm_ext_iff_of_nodup (nodup_slots _) (List.nodup_singleton i)]
      simp
    exact List.perm_singleton.1 hperm
  rw [count, h, List.length_singleton]

theorem count_congr {p q : Fin n → Bool} (h : ∀ i, p i = q i) : count p = count q := by
  rw [funext h]

/-- Taking up a free slot adds one. -/
theorem count_occupy {p q : Fin n → Bool} {i : Fin n} (hp : p i = false) (hq : q i = true)
    (h : ∀ j, j ≠ i → q j = p j) : count q = count p + 1 := by
  have hin : count (fun j => q j && decide (j = i)) = 1 := by
    rw [← count_singleton i]
    apply count_congr
    intro j
    by_cases hj : j = i
    · subst hj; simp [hq]
    · simp [hj]
  have hout : count (fun j => q j && !decide (j = i)) = count p := by
    apply count_congr
    intro j
    by_cases hj : j = i
    · subst hj; simp [hp]
    · simp [hj, h j hj]
  rw [count_split q (fun j => decide (j = i)), hin, hout, Nat.add_comm]

/-- Giving up an occupied slot takes one away. -/
theorem count_release {p q : Fin n → Bool} {i : Fin n} (hp : p i = true) (hq : q i = false)
    (h : ∀ j, j ≠ i → q j = p j) : count q + 1 = count p :=
  (count_occupy hq hp fun j hj => (h j hj).symm).symm

end SlotTable
