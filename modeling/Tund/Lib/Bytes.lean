import Mathlib.Tactic
import Mathlib.Data.List.TakeWhile

/-!
# Byte strings, fixed-width integers in memory, and C strings

A byte string is a list of `UInt8`.  A buffer and a length are one list: the
bytes of the buffer up to the length.

* `be n v`, `ofBe` and `le n v`, `ofLe`: the `n`-byte big-endian and little-endian
  forms of a number and their readers;
* `slice buf off n`: the `n` bytes at offset `off`; `patch buf off src`: the
  buffer after `memcpy(buf + off, src, …)`;
* `cstr b`: the C string stored at `b` (the bytes before the first NUL);
  `pad n b`: `b` cut or filled with NULs to exactly `n` bytes.
-/

/-- A byte string. -/
abbrev Bytes := List UInt8

namespace Bytes

/-! ### Fixed-width integers -/

/-- The `n` low bytes of `v`, most significant first: the loop
`for (i = n-1; i >= 0; i--) { p[i] = v & 0xFF; v >>= 8; }`. -/
def be : ℕ → ℕ → Bytes
  | 0, _ => []
  | n + 1, v => be n (v / 256) ++ [UInt8.ofNat v]

/-- The number read most significant byte first: `v = (v << 8) | p[i]`. -/
def ofBe (b : Bytes) : ℕ := b.foldl (fun v x => v * 256 + x.toNat) 0

/-- The `n` low bytes of `v`, least significant first. -/
def le (n v : ℕ) : Bytes := (be n v).reverse

/-- The number read least significant byte first. -/
def ofLe (b : Bytes) : ℕ := ofBe b.reverse

@[simp] theorem length_be (n v : ℕ) : (be n v).length = n := by
  induction n generalizing v with
  | zero => rfl
  | succ n ih => simp [be, ih]

@[simp] theorem length_le (n v : ℕ) : (le n v).length = n := by simp [le]

@[simp] theorem ofBe_nil : ofBe [] = 0 := rfl

theorem ofBe_concat (b : Bytes) (x : UInt8) : ofBe (b ++ [x]) = ofBe b * 256 + x.toNat := by
  simp [ofBe]

/-- Writing and reading back gives the number modulo the width. -/
theorem ofBe_be (n v : ℕ) : ofBe (be n v) = v % 256 ^ n := by
  induction n generalizing v with
  | zero => simp [be, Nat.mod_one]
  | succ n ih =>
    have hv : v % (256 * 256 ^ n) = v % 256 + 256 * (v / 256 % 256 ^ n) := Nat.mod_mul
    rw [be, ofBe_concat, ih, UInt8.toNat_ofNat', show 256 ^ (n + 1) = 256 * 256 ^ n from
      pow_succ' 256 n, hv]
    omega

theorem ofBe_be_of_lt {n v : ℕ} (h : v < 256 ^ n) : ofBe (be n v) = v := by
  rw [ofBe_be, Nat.mod_eq_of_lt h]

theorem ofBe_lt (b : Bytes) : ofBe b < 256 ^ b.length := by
  induction b using List.reverseRecOn with
  | nil => simp
  | append_singleton b x ih =>
    have hx : x.toNat < 256 := x.toNat_lt
    rw [ofBe_concat, List.length_append, List.length_singleton, pow_succ]
    omega

/-- Reading and writing back gives the same bytes. -/
theorem be_ofBe (b : Bytes) : be b.length (ofBe b) = b := by
  induction b using List.reverseRecOn with
  | nil => rfl
  | append_singleton b x ih =>
    have hx : x.toNat < 256 := x.toNat_lt
    have hdiv : (ofBe b * 256 + x.toNat) / 256 = ofBe b := by omega
    have hmod : UInt8.ofNat (ofBe b * 256 + x.toNat) = x := by
      apply UInt8.toNat_inj.1
      rw [UInt8.toNat_ofNat']
      omega
    rw [List.length_append, List.length_singleton, be, ofBe_concat, hdiv, ih, hmod]

theorem ofLe_le (n v : ℕ) : ofLe (le n v) = v % 256 ^ n := by
  rw [ofLe, le, List.reverse_reverse, ofBe_be]

theorem ofLe_le_of_lt {n v : ℕ} (h : v < 256 ^ n) : ofLe (le n v) = v := by
  rw [ofLe_le, Nat.mod_eq_of_lt h]

theorem le_ofLe (b : Bytes) : le b.length (ofLe b) = b := by
  have h := be_ofBe b.reverse
  rw [List.length_reverse] at h
  rw [le, ofLe, h, List.reverse_reverse]

theorem ofLe_lt (b : Bytes) : ofLe b < 256 ^ b.length := by
  simpa [ofLe] using ofBe_lt b.reverse

/-! ### Copies into and out of a buffer -/

/-- The `n` bytes at offset `off`. -/
def slice (buf : Bytes) (off n : ℕ) : Bytes := (buf.drop off).take n

/-- The buffer after the bytes `src` are copied to offset `off`. -/
def patch (buf : Bytes) (off : ℕ) (src : Bytes) : Bytes :=
  buf.take off ++ src ++ buf.drop (off + src.length)

theorem length_slice {buf : Bytes} {off n : ℕ} (h : off + n ≤ buf.length) :
    (slice buf off n).length = n := by
  simp [slice]; omega

@[simp] theorem slice_append_left {a b : Bytes} : slice (a ++ b) 0 a.length = a := by
  simp [slice]

theorem slice_append {a b : Bytes} {off n : ℕ} (h : off = a.length) :
    slice (a ++ b) off n = b.take n := by
  subst h; simp [slice]

/-- A slice inside the first part of a concatenation. -/
theorem slice_append_of_le {a b : Bytes} {off n : ℕ} (h : off + n ≤ a.length) :
    slice (a ++ b) off n = slice a off n := by
  rw [slice, slice, List.drop_append_of_le_length (by omega), List.take_append_of_le_length]
  rw [List.length_drop]; omega

/-- A slice inside the second part of a concatenation. -/
theorem slice_append_of_ge {a b : Bytes} {off n : ℕ} (h : a.length ≤ off) :
    slice (a ++ b) off n = slice b (off - a.length) n := by
  rw [slice, slice, List.drop_append, List.drop_of_length_le h, List.nil_append]

theorem length_patch {buf src : Bytes} {off : ℕ} (h : off + src.length ≤ buf.length) :
    (patch buf off src).length = buf.length := by
  simp [patch]; omega

/-- Overwriting the middle of a concatenation. -/
theorem patch_append_mid {a b c src : Bytes} {off : ℕ} (ho : off = a.length)
    (h : src.length = b.length) : patch (a ++ b ++ c) off src = a ++ src ++ c := by
  subst ho
  have htake : (a ++ b ++ c).take a.length = a := by simp
  have hdrop : (a ++ b ++ c).drop (a.length + b.length) = c := by
    rw [← List.length_append, List.drop_left]
  rw [patch, htake, h, hdrop]

theorem patch_zero (buf src : Bytes) : patch buf 0 src = src ++ buf.drop src.length := by
  simp [patch]

/-- A copy right behind bytes that were written before it. -/
theorem patch_adjacent {a : Bytes} (buf src : Bytes) {off : ℕ} (ho : off = a.length) :
    patch (a ++ buf.drop a.length) off src =
      (a ++ src) ++ buf.drop (a ++ src).length := by
  subst ho
  rw [patch, List.take_left, List.drop_append, List.drop_of_length_le (by omega), List.drop_drop,
    List.nil_append, List.length_append]
  congr 2
  omega

@[simp] theorem patch_nil (buf : Bytes) (off : ℕ) : patch buf off [] = buf := by
  simp [patch]

/-- Two adjacent copies are one. -/
theorem patch_patch {buf a b : Bytes} {off : ℕ} (h : off ≤ buf.length) :
    patch (patch buf off a) (off + a.length) b = patch buf off (a ++ b) := by
  have htake : (patch buf off a).take (off + a.length) = buf.take off ++ a := by
    rw [patch, List.take_left' (by simp; omega)]
  have hdrop : (patch buf off a).drop (off + a.length + b.length) =
      buf.drop (off + a.length + b.length) := by
    rw [patch, List.drop_append, List.drop_of_length_le (by simp; omega), List.nil_append,
      List.drop_drop]
    congr 1
    simp
    omega
  rw [patch, htake, hdrop, patch, List.length_append, Nat.add_assoc]
  simp

/-- A slice of a prefix that is long enough. -/
theorem slice_take {buf : Bytes} {k o n : ℕ} (h : o + n ≤ k) :
    slice (buf.take k) o n = slice buf o n := by
  rw [slice, slice, List.drop_take, List.take_take, Nat.min_eq_left (by omega)]

/-- A slice that ends before the copied bytes. -/
theorem slice_patch_before {buf src : Bytes} {off o n : ℕ} (hb : o + n ≤ buf.length)
    (h : o + n ≤ off) : slice (patch buf off src) o n = slice buf o n := by
  rw [patch, List.append_assoc, slice_append_of_le (by simp; omega)]
  conv_rhs => rw [← List.take_append_drop off buf]
  rw [slice_append_of_le (by simp; omega)]

/-! ### C strings -/

/-- The C string stored at `b`: the bytes before the first NUL. -/
def cstr (b : Bytes) : Bytes := b.takeWhile (· ≠ 0)

/-- `b` cut or filled with NUL bytes to exactly `n` bytes. -/
def pad (n : ℕ) (b : Bytes) : Bytes := (b ++ List.replicate n 0).take n

@[simp] theorem length_pad (n : ℕ) (b : Bytes) : (pad n b).length = n := by simp [pad]

theorem takeWhile_take (p : UInt8 → Bool) (l : Bytes) (n : ℕ) :
    (l.take n).takeWhile p = (l.takeWhile p).take n := by
  induction l generalizing n with
  | nil => simp
  | cons x l ih =>
    cases n with
    | zero => simp
    | succ n =>
      rw [List.take_succ_cons]
      by_cases hx : p x
      · rw [List.takeWhile_cons_of_pos hx, List.takeWhile_cons_of_pos hx, List.take_succ_cons, ih]
      · rw [List.takeWhile_cons_of_neg hx, List.takeWhile_cons_of_neg hx, List.take_nil]

theorem cstr_take (b : Bytes) (n : ℕ) : cstr (b.take n) = (cstr b).take n :=
  takeWhile_take _ b n

theorem cstr_append_zeros (b : Bytes) (n : ℕ) : cstr (b ++ List.replicate n 0) = cstr b := by
  induction b with
  | nil => cases n <;> simp [cstr, List.replicate_succ]
  | cons x b ih =>
    by_cases hx : x = 0
    · simp [cstr, hx]
    · simpa [cstr, hx] using ih

theorem cstr_pad (n : ℕ) (b : Bytes) : cstr (pad n b) = (cstr b).take n := by
  rw [pad, cstr_take, cstr_append_zeros]

/-- A string without NULs is its own C string. -/
theorem cstr_of_forall_ne {b : Bytes} (h : ∀ x ∈ b, x ≠ 0) : cstr b = b := by
  rw [cstr, List.takeWhile_eq_self_iff]
  simpa using h

theorem ne_zero_of_mem_cstr {b : Bytes} {x : UInt8} (h : x ∈ cstr b) : x ≠ 0 := by
  simpa using List.mem_takeWhile_imp h

@[simp] theorem cstr_cstr (b : Bytes) : cstr (cstr b) = cstr b :=
  cstr_of_forall_ne fun _ h => ne_zero_of_mem_cstr h

theorem pad_eq {n : ℕ} {b : Bytes} (h : b.length ≤ n) :
    pad n b = b ++ List.replicate (n - b.length) 0 := by
  rw [pad, List.take_append, List.take_of_length_le h, List.take_replicate,
    Nat.min_eq_left (Nat.sub_le n b.length)]

/-- A string shorter than the buffer leaves a NUL in it. -/
theorem zero_mem_pad {n : ℕ} {b : Bytes} (h : b.length < n) : (0 : UInt8) ∈ pad n b := by
  rw [pad_eq h.le]
  apply List.mem_append_right
  rw [List.mem_replicate]
  exact ⟨by omega, rfl⟩

/-- A padded string that leaves room ends in a NUL. -/
theorem take_pad_append_zero {n : ℕ} {b : Bytes} (h : b.length ≤ n) :
    (pad (n + 1) b).take n ++ [0] = pad (n + 1) b := by
  have hrep : n + 1 - b.length = n - b.length + 1 := by omega
  rw [pad_eq (by omega), hrep, List.replicate_succ', ← List.append_assoc,
    List.take_left' (by rw [List.length_append, List.length_replicate]; omega)]

end Bytes
