import Tund.Protocol.Monocypher
import Tund.Lib.Blocks

/-!
# Poly1305 on limbs

`crypto_poly1305_init`, `crypto_poly1305_update` and `crypto_poly1305_final` as the vendored
Monocypher computes them: the hash has five limbs of 32 bits, products are summed in 64 bits
and reduced by halves.  The functions have the names of the source, in the namespace `Words`.

`val_polyBlock` is the arithmetic of one block: no sum wraps, the hash stays below
`5 * 2 ^ 128`, and modulo `2 ^ 130 - 5` it is what `Tund.polyBlocks` computes.
`Poly1305Ctx.Absorbed` says which text a context has taken in; `Absorbed.update` is the step,
whatever the parts are in which the text comes.
-/

namespace Tund

open Blocks

/-! ### Little-endian words -/

theorem ofLe_append (a b : Bytes) :
    Bytes.ofLe (a ++ b) = Bytes.ofLe a + 256 ^ a.length * Bytes.ofLe b := by
  induction a with
  | nil => simp [Bytes.ofLe]
  | cons x a ih =>
    have hcons : ∀ c : Bytes, Bytes.ofLe (x :: c) = Bytes.ofLe c * 256 + x.toNat := by
      intro c
      rw [Bytes.ofLe, List.reverse_cons, Bytes.ofBe_concat, Bytes.ofLe]
    rw [List.cons_append, hcons, hcons, ih, List.length_cons, pow_succ]
    ring

/-- `load32_le` at an offset. -/
def load32Le (b : Bytes) (off : ℕ) : UInt32 := u32OfMem (Bytes.slice b off 4)

theorem toNat_load32Le {b : Bytes} {off : ℕ} (h : off + 4 ≤ b.length) :
    (load32Le b off).toNat = Bytes.ofLe (Bytes.slice b off 4) := by
  have hlen := Bytes.length_slice h
  have hlt := Bytes.ofLe_lt (Bytes.slice b off 4)
  rw [hlen] at hlt
  rw [load32Le, u32OfMem, UInt32.toNat_ofNat_of_lt' (by simpa using hlt)]

/-- Sixteen bytes as four words. -/
theorem ofLe_words {b : Bytes} (h : b.length = 16) :
    Bytes.ofLe b = (load32Le b 0).toNat + 2 ^ 32 * (load32Le b 4).toNat +
      2 ^ 64 * (load32Le b 8).toNat + 2 ^ 96 * (load32Le b 12).toNat := by
  have hsplit : b = Bytes.slice b 0 4 ++ (Bytes.slice b 4 4 ++
      (Bytes.slice b 8 4 ++ Bytes.slice b 12 4)) := by
    have h12 : Bytes.slice b 12 4 = b.drop 12 := List.take_of_length_le (by simp [h])
    simp only [Bytes.slice, List.drop_zero] at h12 ⊢
    rw [h12]
    conv_lhs => rw [← List.take_append_drop 4 b, ← List.take_append_drop 4 (b.drop 4),
      ← List.take_append_drop 4 ((b.drop 4).drop 4)]
    simp only [List.drop_drop]
  have hl : ∀ off, off + 4 ≤ 16 → (Bytes.slice b off 4).length = 4 := fun off ho =>
    Bytes.length_slice (by omega)
  rw [toNat_load32Le (by omega), toNat_load32Le (by omega), toNat_load32Le (by omega),
    toNat_load32Le (by omega)]
  conv_lhs => rw [hsplit, ofLe_append, ofLe_append, ofLe_append, hl 0 (by omega), hl 4 (by omega),
    hl 8 (by omega)]
  ring

/-! ### The loop body of `poly_blocks` -/

/-- `r` of `crypto_poly1305_ctx`, with the bits cleared that `crypto_poly1305_init` clears. -/
structure Poly1305Key where
  r0 : UInt32
  r1 : UInt32
  r2 : UInt32
  r3 : UInt32

/-- `h` of `crypto_poly1305_ctx`. -/
structure Poly1305Hash where
  h0 : UInt32
  h1 : UInt32
  h2 : UInt32
  h3 : UInt32
  h4 : UInt32

/-- The number that the limbs of the hash stand for. -/
def Poly1305Hash.val (h : Poly1305Hash) : ℕ :=
  h.h0.toNat + 2 ^ 32 * h.h1.toNat + 2 ^ 64 * h.h2.toNat + 2 ^ 96 * h.h3.toNat +
    2 ^ 128 * h.h4.toNat

/-- The number that the limbs of `r` stand for. -/
def Poly1305Key.val (k : Poly1305Key) : ℕ :=
  k.r0.toNat + 2 ^ 32 * k.r1.toNat + 2 ^ 64 * k.r2.toNat + 2 ^ 96 * k.r3.toNat

namespace Words

/-- The low half of a 64-bit number, `x & 0xffffffff`. -/
def low (x : UInt64) : UInt64 := x &&& 0xffffffff

/-- The second half of the loop body of `poly_blocks`: partial reduction modulo `2 ^ 130 - 5`. -/
def polyReduce (x0 x1 x2 x3 : UInt64) (x4 : UInt32) : Poly1305Hash :=
  let u5 := (x3 >>> 32).toUInt32 + x4
  let u0 := ((u5 >>> 2) * 5).toUInt64 + low x0
  let u1 := (u0 >>> 32).toUInt32.toUInt64 + low x1 + (x0 >>> 32)
  let u2 := (u1 >>> 32).toUInt32.toUInt64 + low x2 + (x1 >>> 32)
  let u3 := (u2 >>> 32).toUInt32.toUInt64 + low x3 + (x2 >>> 32)
  let u4 := (u3 >>> 32).toUInt32 + (u5 &&& 3)
  ⟨(low u0).toUInt32, (low u1).toUInt32, (low u2).toUInt32, (low u3).toUInt32, u4⟩

/-- The loop body of `poly_blocks` on one block of 16 bytes. -/
def polyBlock (k : Poly1305Key) (end' : UInt32) (h : Poly1305Hash) (block : Bytes) :
    Poly1305Hash :=
  let rr0 := (k.r0 >>> 2) * 5
  let rr1 := (k.r1 >>> 2) + k.r1
  let rr2 := (k.r2 >>> 2) + k.r2
  let rr3 := (k.r3 >>> 2) + k.r3
  let rr4 := k.r0 &&& 3
  let r0 := k.r0.toUInt64
  let r1 := k.r1.toUInt64
  let r2 := k.r2.toUInt64
  let r3 := k.r3.toUInt64
  -- h + c, without carry propagation
  let s0 := h.h0.toUInt64 + (load32Le block 0).toUInt64
  let s1 := h.h1.toUInt64 + (load32Le block 4).toUInt64
  let s2 := h.h2.toUInt64 + (load32Le block 8).toUInt64
  let s3 := h.h3.toUInt64 + (load32Le block 12).toUInt64
  let s4 := h.h4 + end'
  -- (h + c) * r, without carry propagation
  let x0 := s0 * r0 + s1 * rr3.toUInt64 + s2 * rr2.toUInt64 + s3 * rr1.toUInt64 +
    (s4 * rr0).toUInt64
  let x1 := s0 * r1 + s1 * r0 + s2 * rr3.toUInt64 + s3 * rr2.toUInt64 + (s4 * rr1).toUInt64
  let x2 := s0 * r2 + s1 * r1 + s2 * r0 + s3 * rr3.toUInt64 + (s4 * rr2).toUInt64
  let x3 := s0 * r3 + s1 * r2 + s2 * r1 + s3 * r0 + (s4 * rr3).toUInt64
  let x4 := s4 * rr4
  polyReduce x0 x1 x2 x3 x4

end Words

/-! ### The arithmetic of one block -/

open Words

theorem toNat_low (x : UInt64) : (low x).toNat = x.toNat % 2 ^ 32 := by
  rw [low, UInt64.toNat_and]
  exact Nat.and_two_pow_sub_one_eq_mod x.toNat 32

theorem toNat_high (x : UInt64) : (x >>> 32).toNat = x.toNat / 2 ^ 32 := by
  rw [UInt64.toNat_shiftRight]
  exact Nat.shiftRight_eq_div_pow x.toNat 32

theorem toNat_quarter (x : UInt32) : (x >>> 2).toNat = x.toNat / 4 := by
  rw [UInt32.toNat_shiftRight]
  exact Nat.shiftRight_eq_div_pow x.toNat 2

theorem toNat_and_three (x : UInt32) : (x &&& 3).toNat = x.toNat % 4 := by
  rw [UInt32.toNat_and]
  exact Nat.and_two_pow_sub_one_eq_mod x.toNat 2

/-- A column of the multiplication does not wrap. -/
theorem toNat_column {a0 a1 a2 a3 : UInt64} {b0 b1 b2 b3 c : UInt32}
    (ha0 : a0.toNat < 2 ^ 33) (ha1 : a1.toNat < 2 ^ 33) (ha2 : a2.toNat < 2 ^ 33)
    (ha3 : a3.toNat < 2 ^ 33) (hb0 : b0.toNat < 5 * 2 ^ 26) (hb1 : b1.toNat < 5 * 2 ^ 26)
    (hb2 : b2.toNat < 5 * 2 ^ 26) (hb3 : b3.toNat < 5 * 2 ^ 26) :
    (a0 * b0.toUInt64 + a1 * b1.toUInt64 + a2 * b2.toUInt64 + a3 * b3.toUInt64 +
        c.toUInt64).toNat =
      a0.toNat * b0.toNat + a1.toNat * b1.toNat + a2.toNat * b2.toNat + a3.toNat * b3.toNat +
        c.toNat := by
  have h0 := Nat.mul_le_mul ha0.le hb0.le
  have h1 := Nat.mul_le_mul ha1.le hb1.le
  have h2 := Nat.mul_le_mul ha2.le hb2.le
  have h3 := Nat.mul_le_mul ha3.le hb3.le
  have hc := c.toNat_lt
  simp only [UInt64.toNat_add, UInt64.toNat_mul, UInt32.toNat_toUInt64]
  omega

/-- The carries between the limbs add up. -/
theorem carry_telescope {x0 x1 x2 x3 t u0 u1 u2 u3 : ℕ} (hu0 : u0 = t / 4 * 5 + x0 % 2 ^ 32)
    (hu1 : u1 = u0 / 2 ^ 32 + x1 % 2 ^ 32 + x0 / 2 ^ 32)
    (hu2 : u2 = u1 / 2 ^ 32 + x2 % 2 ^ 32 + x1 / 2 ^ 32)
    (hu3 : u3 = u2 / 2 ^ 32 + x3 % 2 ^ 32 + x2 / 2 ^ 32) :
    u0 % 2 ^ 32 + 2 ^ 32 * (u1 % 2 ^ 32) + 2 ^ 64 * (u2 % 2 ^ 32) + 2 ^ 96 * (u3 % 2 ^ 32) +
        2 ^ 128 * (u3 / 2 ^ 32 + t % 4) + poly1305Prime * (t / 4) =
      x0 + 2 ^ 32 * x1 + 2 ^ 64 * x2 + 2 ^ 96 * (x3 % 2 ^ 32) + 2 ^ 128 * t := by
  have hp : poly1305Prime + 5 = 2 ^ 130 := rfl
  have hfold : poly1305Prime * (t / 4) + 5 * (t / 4) = 2 ^ 130 * (t / 4) := by
    rw [← Nat.add_mul, hp]
  have d0 := Nat.div_add_mod u0 (2 ^ 32)
  have d1 := Nat.div_add_mod u1 (2 ^ 32)
  have d2 := Nat.div_add_mod u2 (2 ^ 32)
  have d3 := Nat.div_add_mod u3 (2 ^ 32)
  have e0 := Nat.div_add_mod x0 (2 ^ 32)
  have e1 := Nat.div_add_mod x1 (2 ^ 32)
  have e2 := Nat.div_add_mod x2 (2 ^ 32)
  have et := Nat.div_add_mod t 4
  linarith

/-- The sum of a carry and two halves does not wrap. -/
theorem carry_sum {u x y : ℕ} (hu : u < 2 ^ 64) (hx : x < 2 ^ 64) :
    ((u / 2 ^ 32 % 2 ^ 32 + y % 2 ^ 32) % 2 ^ 64 + x / 2 ^ 32) % 2 ^ 64 =
      u / 2 ^ 32 + y % 2 ^ 32 + x / 2 ^ 32 := by
  have hu' : u / 2 ^ 32 < 2 ^ 32 := Nat.div_lt_of_lt_mul hu
  have hx' : x / 2 ^ 32 < 2 ^ 32 := Nat.div_lt_of_lt_mul hx
  have hy : y % 2 ^ 32 < 2 ^ 32 := Nat.mod_lt _ (by norm_num)
  rw [Nat.mod_eq_of_lt hu', Nat.mod_eq_of_lt (a := _ + y % 2 ^ 32) (by omega),
    Nat.mod_eq_of_lt (by omega)]

theorem val_polyReduce {x0 x1 x2 x3 : UInt64} {x4 : UInt32} (h3 : x3.toNat < 2 ^ 63 + 2 ^ 32)
    (h4 : x4.toNat < 16) :
    (polyReduce x0 x1 x2 x3 x4).h4.toNat < 5 ∧
    (polyReduce x0 x1 x2 x3 x4).val + poly1305Prime * ((x3.toNat / 2 ^ 32 + x4.toNat) / 4) =
      x0.toNat + 2 ^ 32 * x1.toNat + 2 ^ 64 * x2.toNat + 2 ^ 96 * x3.toNat +
        2 ^ 128 * x4.toNat := by
  have hx0 := x0.toNat_lt
  have hx1 := x1.toNat_lt
  have hx2 := x2.toNat_lt
  set u5 := (x3 >>> 32).toUInt32 + x4 with hu5
  set u0 := ((u5 >>> 2) * 5).toUInt64 + low x0 with hu0
  set u1 := (u0 >>> 32).toUInt32.toUInt64 + low x1 + (x0 >>> 32) with hu1
  set u2 := (u1 >>> 32).toUInt32.toUInt64 + low x2 + (x1 >>> 32) with hu2
  set u3 := (u2 >>> 32).toUInt32.toUInt64 + low x3 + (x2 >>> 32) with hu3
  have n5 : u5.toNat = x3.toNat / 2 ^ 32 + x4.toNat := by
    rw [hu5, UInt32.toNat_add, UInt64.toNat_toUInt32, toNat_high]
    omega
  have b5 : u5.toNat / 4 * 5 < 2 ^ 32 := by
    have hx3 : x3.toNat / 2 ^ 32 ≤ 2 ^ 31 := by omega
    omega
  have n0 : u0.toNat = u5.toNat / 4 * 5 + x0.toNat % 2 ^ 32 := by
    rw [hu0, UInt64.toNat_add, UInt32.toNat_toUInt64, UInt32.toNat_mul, toNat_quarter, toNat_low]
    have hfive : (5 : UInt32).toNat = 5 := rfl
    rw [hfive, Nat.mod_eq_of_lt b5, Nat.mod_eq_of_lt (by omega)]
  have n1 : u1.toNat = u0.toNat / 2 ^ 32 + x1.toNat % 2 ^ 32 + x0.toNat / 2 ^ 32 := by
    rw [hu1, UInt64.toNat_add, UInt64.toNat_add, UInt32.toNat_toUInt64, UInt64.toNat_toUInt32,
      toNat_high, toNat_high, toNat_low]
    exact carry_sum u0.toNat_lt x0.toNat_lt
  have n2 : u2.toNat = u1.toNat / 2 ^ 32 + x2.toNat % 2 ^ 32 + x1.toNat / 2 ^ 32 := by
    rw [hu2, UInt64.toNat_add, UInt64.toNat_add, UInt32.toNat_toUInt64, UInt64.toNat_toUInt32,
      toNat_high, toNat_high, toNat_low]
    exact carry_sum u1.toNat_lt x1.toNat_lt
  have n3 : u3.toNat = u2.toNat / 2 ^ 32 + x3.toNat % 2 ^ 32 + x2.toNat / 2 ^ 32 := by
    rw [hu3, UInt64.toNat_add, UInt64.toNat_add, UInt32.toNat_toUInt64, UInt64.toNat_toUInt32,
      toNat_high, toNat_high, toNat_low]
    exact carry_sum u2.toNat_lt x2.toNat_lt
  -- the last carry is at most one
  have c3 : u3.toNat / 2 ^ 32 ≤ 1 := by
    have h32 := Nat.mod_lt x3.toNat (show 0 < 2 ^ 32 by norm_num)
    have h22 : x2.toNat / 2 ^ 32 < 2 ^ 32 := Nat.div_lt_of_lt_mul hx2
    have h2 := Nat.div_lt_of_lt_mul (show u2.toNat < 2 ^ 32 * 2 ^ 32 from u2.toNat_lt)
    omega
  have n4 : ((u3 >>> 32).toUInt32 + (u5 &&& 3)).toNat = u3.toNat / 2 ^ 32 + u5.toNat % 4 := by
    rw [UInt32.toNat_add, UInt64.toNat_toUInt32, toNat_high, toNat_and_three,
      Nat.mod_eq_of_lt (a := u3.toNat / 2 ^ 32) (by omega), Nat.mod_eq_of_lt (by omega)]
  have hlow : ∀ u : UInt64, (low u).toUInt32.toNat = u.toNat % 2 ^ 32 := by
    intro u
    rw [UInt64.toNat_toUInt32, toNat_low]
    omega
  have htop : (polyReduce x0 x1 x2 x3 x4).h4.toNat = u3.toNat / 2 ^ 32 + u5.toNat % 4 := n4
  constructor
  · rw [htop]
    omega
  · have htel := carry_telescope n0 n1 n2 n3
    have hval : (polyReduce x0 x1 x2 x3 x4).val = u0.toNat % 2 ^ 32 + 2 ^ 32 * (u1.toNat % 2 ^ 32) +
        2 ^ 64 * (u2.toNat % 2 ^ 32) + 2 ^ 96 * (u3.toNat % 2 ^ 32) +
        2 ^ 128 * (u3.toNat / 2 ^ 32 + u5.toNat % 4) := by
      rw [Poly1305Hash.val, htop]
      show (low u0).toUInt32.toNat + 2 ^ 32 * (low u1).toUInt32.toNat +
        2 ^ 64 * (low u2).toUInt32.toNat + 2 ^ 96 * (low u3).toUInt32.toNat + _ = _
      rw [hlow, hlow, hlow, hlow]
    rw [hval, ← n5, htel, n5]
    have e3 := Nat.div_add_mod x3.toNat (2 ^ 32)
    linarith

/-- What `crypto_poly1305_init` makes of `r`. -/
structure Poly1305Key.Clamped (k : Poly1305Key) : Prop where
  r0 : k.r0.toNat < 2 ^ 28
  r1 : k.r1.toNat < 2 ^ 28
  r2 : k.r2.toNat < 2 ^ 28
  r3 : k.r3.toNat < 2 ^ 28
  four1 : 4 ∣ k.r1.toNat
  four2 : 4 ∣ k.r2.toNat
  four3 : 4 ∣ k.r3.toNat

/-- The product of `s` and `r` on limbs, with `2 ^ 130` folded to `5`: the columns of the
multiplication differ from the product by a multiple of the prime. -/
theorem columns_modEq (s0 s1 s2 s3 s4 q0 b q1 q2 q3 : ℕ) :
    (s0 * (4 * q0 + b) + s1 * (5 * q3) + s2 * (5 * q2) + s3 * (5 * q1) + s4 * (5 * q0)) +
      2 ^ 32 * (s0 * (4 * q1) + s1 * (4 * q0 + b) + s2 * (5 * q3) + s3 * (5 * q2) +
        s4 * (5 * q1)) +
      2 ^ 64 * (s0 * (4 * q2) + s1 * (4 * q1) + s2 * (4 * q0 + b) + s3 * (5 * q3) +
        s4 * (5 * q2)) +
      2 ^ 96 * (s0 * (4 * q3) + s1 * (4 * q2) + s2 * (4 * q1) + s3 * (4 * q0 + b) +
        s4 * (5 * q3)) +
      2 ^ 128 * (s4 * b) ≡
    (s0 + 2 ^ 32 * s1 + 2 ^ 64 * s2 + 2 ^ 96 * s3 + 2 ^ 128 * s4) *
      (4 * q0 + b + 2 ^ 32 * (4 * q1) + 2 ^ 64 * (4 * q2) + 2 ^ 96 * (4 * q3))
      [MOD poly1305Prime] := by
  rw [Nat.modEq_iff_dvd]
  refine ⟨s1 * q3 + s2 * q2 + s3 * q1 + s4 * q0 + 2 ^ 32 * (s2 * q3 + s3 * q2 + s4 * q1) +
    2 ^ 64 * (s3 * q3 + s4 * q2) + 2 ^ 96 * (s4 * q3), ?_⟩
  have hp : (poly1305Prime : ℤ) = 2 ^ 130 - 5 := by norm_num [poly1305Prime]
  rw [hp]
  push_cast
  ring


theorem toNat_add_words (a b : UInt32) : (a.toUInt64 + b.toUInt64).toNat = a.toNat + b.toNat := by
  have ha := a.toNat_lt
  have hb := b.toNat_lt
  rw [UInt64.toNat_add, UInt32.toNat_toUInt64, UInt32.toNat_toUInt64]
  omega

theorem toNat_mul_top {s r : UInt32} (hs : s.toNat ≤ 5) (hr : r.toNat < 5 * 2 ^ 26) :
    (s * r).toNat = s.toNat * r.toNat := by
  have hle := Nat.mul_le_mul hs hr.le
  rw [UInt32.toNat_mul, Nat.mod_eq_of_lt (by omega)]

theorem add_words_lt (a b : UInt32) : (a.toUInt64 + b.toUInt64).toNat < 2 ^ 33 := by
  have ha := a.toNat_lt
  have hb := b.toNat_lt
  rw [toNat_add_words]
  omega

/-- A word that folds `2 ^ 130` to `5`. -/
theorem folded_word {r : UInt32} {q : ℕ} (h : r.toNat < 2 ^ 28) (hq : r.toNat = 4 * q) :
    ((r >>> 2) + r).toNat = 5 * q ∧ ((r >>> 2) + r).toNat < 5 * 2 ^ 26 := by
  rw [UInt32.toNat_add, toNat_quarter, Nat.mod_eq_of_lt (by omega)]
  omega

/-- **One block.**  The limbs stay in range, and modulo the prime the hash is multiplied out. -/
theorem val_polyBlock {k : Poly1305Key} (hk : k.Clamped) {h : Poly1305Hash}
    (hh : h.h4.toNat < 5) {e : UInt32} (he : e.toNat ≤ 1) {block : Bytes}
    (hb : block.length = 16) :
    (polyBlock k e h block).h4.toNat < 5 ∧
    (polyBlock k e h block).val ≡ (h.val + (Bytes.ofLe block + 2 ^ 128 * e.toNat)) * k.val
      [MOD poly1305Prime] := by
  obtain ⟨q1, hq1⟩ := hk.four1
  obtain ⟨q2, hq2⟩ := hk.four2
  obtain ⟨q3, hq3⟩ := hk.four3
  have hr0 : k.r0.toNat < 5 * 2 ^ 26 := hk.r0.trans_le (by norm_num)
  have hr1 : k.r1.toNat < 5 * 2 ^ 26 := hk.r1.trans_le (by norm_num)
  have hr2 : k.r2.toNat < 5 * 2 ^ 26 := hk.r2.trans_le (by norm_num)
  have hr3 : k.r3.toNat < 5 * 2 ^ 26 := hk.r3.trans_le (by norm_num)
  obtain ⟨hrr1, hrr1lt⟩ := folded_word hk.r1 hq1
  obtain ⟨hrr2, hrr2lt⟩ := folded_word hk.r2 hq2
  obtain ⟨hrr3, hrr3lt⟩ := folded_word hk.r3 hq3
  have hrr0 : ((k.r0 >>> 2) * 5).toNat = 5 * (k.r0.toNat / 4) := by
    have hfive : (5 : UInt32).toNat = 5 := rfl
    rw [UInt32.toNat_mul, toNat_quarter, hfive]
    omega
  have hrr0lt : ((k.r0 >>> 2) * 5).toNat < 5 * 2 ^ 26 := by
    have hlt := hk.r0
    omega
  -- the words of the sum
  have hw := ofLe_words hb
  set w0 := load32Le block 0
  set w1 := load32Le block 4
  set w2 := load32Le block 8
  set w3 := load32Le block 12
  have hs4 : (h.h4 + e).toNat = h.h4.toNat + e.toNat := by
    rw [UInt32.toNat_add]
    omega
  have hs4le : (h.h4 + e).toNat ≤ 5 := by omega
  have hrr4 : ((h.h4 + e) * (k.r0 &&& 3)).toNat = (h.h4.toNat + e.toNat) * (k.r0.toNat % 4) := by
    have hlt : (k.r0 &&& 3).toNat < 5 * 2 ^ 26 := by
      rw [toNat_and_three]
      omega
    rw [toNat_mul_top hs4le hlt, hs4, toNat_and_three]
  -- the columns
  have hx0 := toNat_column (c := (h.h4 + e) * ((k.r0 >>> 2) * 5)) (add_words_lt h.h0 w0)
    (add_words_lt h.h1 w1) (add_words_lt h.h2 w2) (add_words_lt h.h3 w3) hr0 hrr3lt hrr2lt hrr1lt
  have hx1 := toNat_column (c := (h.h4 + e) * ((k.r1 >>> 2) + k.r1)) (add_words_lt h.h0 w0)
    (add_words_lt h.h1 w1) (add_words_lt h.h2 w2) (add_words_lt h.h3 w3) hr1 hr0 hrr3lt hrr2lt
  have hx2 := toNat_column (c := (h.h4 + e) * ((k.r2 >>> 2) + k.r2)) (add_words_lt h.h0 w0)
    (add_words_lt h.h1 w1) (add_words_lt h.h2 w2) (add_words_lt h.h3 w3) hr2 hr1 hr0 hrr3lt
  have hx3 := toNat_column (c := (h.h4 + e) * ((k.r3 >>> 2) + k.r3)) (add_words_lt h.h0 w0)
    (add_words_lt h.h1 w1) (add_words_lt h.h2 w2) (add_words_lt h.h3 w3) hr3 hr2 hr1 hr0
  simp only [toNat_add_words, toNat_mul_top hs4le hrr0lt, toNat_mul_top hs4le hrr1lt,
    toNat_mul_top hs4le hrr2lt, toNat_mul_top hs4le hrr3lt, hs4, hrr0, hrr1, hrr2, hrr3]
    at hx0 hx1 hx2 hx3
  have hx3lt : ((h.h0.toUInt64 + w0.toUInt64) * k.r3.toUInt64 +
      (h.h1.toUInt64 + w1.toUInt64) * k.r2.toUInt64 +
      (h.h2.toUInt64 + w2.toUInt64) * k.r1.toUInt64 +
      (h.h3.toUInt64 + w3.toUInt64) * k.r0.toUInt64 +
      ((h.h4 + e) * ((k.r3 >>> 2) + k.r3)).toUInt64).toNat < 2 ^ 63 + 2 ^ 32 := by
    have h0 := Nat.mul_le_mul (add_words_lt h.h0 w0).le hk.r3.le
    have h1 := Nat.mul_le_mul (add_words_lt h.h1 w1).le hk.r2.le
    have h2 := Nat.mul_le_mul (add_words_lt h.h2 w2).le hk.r1.le
    have h3 := Nat.mul_le_mul (add_words_lt h.h3 w3).le hk.r0.le
    have h4 := Nat.mul_le_mul hs4le hrr3lt.le
    rw [hs4, hrr3] at h4
    rw [toNat_add_words] at h0 h1 h2 h3
    rw [hx3]
    omega
  have hx4lt : ((h.h4 + e) * (k.r0 &&& 3)).toNat < 16 := by
    have hmod : k.r0.toNat % 4 ≤ 3 := by omega
    have hle := Nat.mul_le_mul (show h.h4.toNat + e.toNat ≤ 5 by omega) hmod
    omega
  obtain ⟨htop, hval⟩ : (polyBlock k e h block).h4.toNat < 5 ∧
      (polyBlock k e h block).val + poly1305Prime * _ = _ := val_polyReduce hx3lt hx4lt
  refine ⟨htop, ?_⟩
  have hr0eq : k.r0.toNat = 4 * (k.r0.toNat / 4) + k.r0.toNat % 4 := by omega
  have hcol := columns_modEq (h.h0.toNat + w0.toNat) (h.h1.toNat + w1.toNat)
    (h.h2.toNat + w2.toNat) (h.h3.toNat + w3.toNat) (h.h4.toNat + e.toNat) (k.r0.toNat / 4)
    (k.r0.toNat % 4) q1 q2 q3
  rw [← hr0eq, ← hq1, ← hq2, ← hq3, ← hx0, ← hx1, ← hx2, ← hx3, ← hrr4, ← hval] at hcol
  have hsum : h.val + (Bytes.ofLe block + 2 ^ 128 * e.toNat) =
      h.h0.toNat + w0.toNat + 2 ^ 32 * (h.h1.toNat + w1.toNat) +
        2 ^ 64 * (h.h2.toNat + w2.toNat) + 2 ^ 96 * (h.h3.toNat + w3.toNat) +
        2 ^ 128 * (h.h4.toNat + e.toNat) := by
    rw [Poly1305Hash.val, hw]
    ring
  rw [hsum]
  unfold Nat.ModEq at hcol ⊢
  rwa [Nat.add_mul_mod_self_left] at hcol

/-! ### Contexts -/

/-- `crypto_poly1305_ctx`: the block that is being filled, the key and the hash. -/
structure Poly1305Ctx where
  c : Bytes
  cIdx : ℕ
  r : Poly1305Key
  pad : Fin 4 → UInt32
  h : Poly1305Hash

namespace Words

/-- `gap` -/
def gap (x pow2 : ℕ) : ℕ := ((~~~UInt64.ofNat x + 1) &&& (UInt64.ofNat pow2 - 1)).toNat

/-- `poly_blocks` -/
def polyBlocks (ctx : Poly1305Ctx) (input : Bytes) (nbBlocks : ℕ) (end' : UInt32) : Poly1305Ctx :=
  { ctx with
    h := (List.range nbBlocks).foldl
      (fun h i => polyBlock ctx.r end' h (Bytes.slice input (16 * i) 16)) ctx.h }

/-- `crypto_poly1305_init`; `c` is what the memory of the context holds before. -/
def cryptoPoly1305Init (c key : Bytes) : Poly1305Ctx where
  c := c
  cIdx := 0
  r := ⟨load32Le key 0 &&& 0x0fffffff, load32Le key 4 &&& 0x0ffffffc,
    load32Le key 8 &&& 0x0ffffffc, load32Le key 12 &&& 0x0ffffffc⟩
  pad i := load32Le key (16 + 4 * i)
  h := ⟨0, 0, 0, 0, 0⟩

/-- The loops of `crypto_poly1305_update` that put bytes into the block. -/
def polyFill (ctx : Poly1305Ctx) (bytes : Bytes) : Poly1305Ctx :=
  { ctx with c := Bytes.patch ctx.c ctx.cIdx bytes, cIdx := ctx.cIdx + bytes.length }

/-- The part of `crypto_poly1305_update` that works through whole blocks and keeps the rest. -/
def polyWhole (ctx : Poly1305Ctx) (message : Bytes) : Poly1305Ctx :=
  let nbBlocks := message.length / 16
  polyFill (polyBlocks ctx message nbBlocks 1) (message.drop (16 * nbBlocks))

/-- `crypto_poly1305_update` -/
def cryptoPoly1305Update (ctx : Poly1305Ctx) (message : Bytes) : Poly1305Ctx :=
  if message.length = 0 then ctx
  else
    let aligned := min (gap ctx.cIdx 16) message.length
    let ctx := polyFill ctx (message.take aligned)
    let ctx := if ctx.cIdx = 16 then { polyBlocks ctx ctx.c 1 1 with cIdx := 0 } else ctx
    polyWhole ctx (message.drop aligned)

/-- The last block in `crypto_poly1305_final`. -/
def polyLast (ctx : Poly1305Ctx) : Poly1305Ctx :=
  if ctx.cIdx ≠ 0 then
    let c := Bytes.patch ctx.c ctx.cIdx (List.replicate (16 - ctx.cIdx) 0)
    let c := Bytes.patch c ctx.cIdx [1]
    polyBlocks { ctx with c := c } c 1 0
  else ctx

/-- `crypto_poly1305_final` -/
def cryptoPoly1305Final (ctx : Poly1305Ctx) : Bytes :=
  let ctx := polyLast ctx
  let h0 := ctx.h.h0.toUInt64
  let h1 := ctx.h.h1.toUInt64
  let h2 := ctx.h.h2.toUInt64
  let h3 := ctx.h.h3.toUInt64
  -- does 2^130 - 5 have to be subtracted?
  let c := ((((((((5 + h0) >>> 32) + h1) >>> 32) + h2) >>> 32) + h3) >>> 32) + ctx.h.h4.toUInt64
  let c := (c >>> 2) * 5
  let c0 := c + (h0 + (ctx.pad 0).toUInt64)
  let c1 := (c0 >>> 32) + (h1 + (ctx.pad 1).toUInt64)
  let c2 := (c1 >>> 32) + (h2 + (ctx.pad 2).toUInt64)
  let c3 := (c2 >>> 32) + (h3 + (ctx.pad 3).toUInt64)
  memOfU32 c0.toUInt32 ++ memOfU32 c1.toUInt32 ++ memOfU32 c2.toUInt32 ++ memOfU32 c3.toUInt32

/-- `crypto_poly1305` -/
def cryptoPoly1305 (c message key : Bytes) : Bytes :=
  cryptoPoly1305Final (cryptoPoly1305Update (cryptoPoly1305Init c key) message)

end Words

/-! ### The tag as a number -/

/-- The polynomial of Poly1305 over a list of blocks, each with a one behind it. -/
def polyFold (r : ℕ) (h : ℕ) (bs : List Bytes) : ℕ :=
  bs.foldl (fun h b => (h + Bytes.ofLe (b ++ [1])) * r % poly1305Prime) h

/-- The blocks of a message; the last one may be shorter. -/
def polyChunks (message : Bytes) : List Bytes :=
  blocks 16 message ++ if rest 16 message = [] then [] else [rest 16 message]

/-- Poly1305 of a message of any length. -/
def poly1305Mac (message key : Bytes) : Bytes :=
  let r := Bytes.ofLe (key.take 16) &&& 0x0ffffffc0ffffffc0ffffffc0fffffff
  let pad := Bytes.ofLe (Bytes.slice key 16 16)
  Bytes.le 16 (polyFold r 0 (polyChunks message) + pad)

theorem polyBlocks_eq_polyFold (r : ℕ) {n : ℕ} (h : ℕ) {message : Bytes}
    (hn : message.length = 16 * n) :
    Tund.polyBlocks r n h message = polyFold r h (blocks 16 message) := by
  induction n generalizing h message with
  | zero =>
    rw [List.length_eq_zero_iff.1 (hn.trans (Nat.mul_zero _))]
    rfl
  | succ n ih =>
    have htake : (message.take 16).length = 16 := by
      rw [List.length_take, hn]
      omega
    have hdrop : (message.drop 16).length = 16 * n := by
      rw [List.length_drop, hn]
      omega
    conv_rhs => rw [← List.take_append_drop 16 message, blocks_cons (by norm_num) htake]
    rw [Tund.polyBlocks, ih _ hdrop]
    rfl

/-- On whole blocks this is `Tund.cryptoPoly1305`. -/
theorem poly1305Mac_eq {message : Bytes} (h : 16 ∣ message.length) (key : Bytes) :
    poly1305Mac message key = Tund.cryptoPoly1305 message key := by
  have hlen := (Nat.mul_div_cancel' h).symm
  rw [poly1305Mac, Tund.cryptoPoly1305, polyBlocks_eq_polyFold _ _ hlen, polyChunks,
    rest_of_dvd h, if_pos rfl, List.append_nil]

/-! ### Taking a text in -/

/-- The context has taken in `m`: whole blocks are in the hash, the rest is in `c`. -/
structure Poly1305Ctx.Absorbed (ctx : Poly1305Ctx) (m : Bytes) : Prop where
  clamped : ctx.r.Clamped
  length : ctx.c.length = 16
  idx : ctx.cIdx = m.length % 16
  rest : ctx.c.take ctx.cIdx = rest 16 m
  top : ctx.h.h4.toNat < 5
  val : ctx.h.val ≡ polyFold ctx.r.val 0 (blocks 16 m) [MOD poly1305Prime]

theorem toNat_gap (x : ℕ) {k : ℕ} (hk : k < 64) :
    gap x (2 ^ k) = (2 ^ 64 - x % 2 ^ 64) % 2 ^ 64 % 2 ^ k := by
  have hlt : 2 ^ k < 2 ^ 64 := Nat.pow_lt_pow_right (by decide) hk
  have hone : (1 : UInt64).toNat = 1 := rfl
  have hpow : (UInt64.ofNat (2 ^ k)).toNat = 2 ^ k := UInt64.toNat_ofNat_of_lt' hlt
  have hmask : (UInt64.ofNat (2 ^ k) - 1).toNat = 2 ^ k - 1 := by
    rw [UInt64.toNat_sub_of_le _ _ (by rw [UInt64.le_iff_toNat_le, hpow, hone]; exact Nat.one_le_two_pow),
      hpow, hone]
  have hsize : UInt64.size = 2 ^ 64 := rfl
  rw [gap, UInt64.toNat_and, hmask, Nat.and_two_pow_sub_one_eq_mod, UInt64.toNat_add,
    UInt64.toNat_not, UInt64.toNat_ofNat', hone, hsize]
  congr 2
  omega

theorem gap_sixteen (x : ℕ) : gap x 16 = (16 - x % 16) % 16 := by
  have h : gap x 16 = _ := toNat_gap x (k := 4) (by decide)
  rw [h]
  omega

theorem polyFold_append (r h : ℕ) (as bs : List Bytes) :
    polyFold r h (as ++ bs) = polyFold r (polyFold r h as) bs := List.foldl_append

/-- Whole blocks. -/
theorem val_foldl_polyBlock {k : Poly1305Key} (hk : k.Clamped) {l : List Bytes}
    (hl : ∀ b ∈ l, b.length = 16) {h : Poly1305Hash} (hh : h.h4.toNat < 5) {n : ℕ}
    (hn : h.val ≡ n [MOD poly1305Prime]) :
    (l.foldl (polyBlock k 1) h).h4.toNat < 5 ∧
    (l.foldl (polyBlock k 1) h).val ≡ polyFold k.val n l [MOD poly1305Prime] := by
  induction l generalizing h n with
  | nil => exact ⟨hh, hn⟩
  | cons b l ih =>
    have hb : b.length = 16 := hl b List.mem_cons_self
    obtain ⟨htop, hval⟩ := val_polyBlock hk hh (e := 1) (le_refl 1) hb
    refine ih (fun x hx => hl x (List.mem_cons_of_mem _ hx)) htop ?_
    have hone : Bytes.ofLe (b ++ [1]) = Bytes.ofLe b + 2 ^ 128 * (1 : UInt32).toNat := by
      rw [ofLe_append, hb]
      rfl
    show _ ≡ (n + Bytes.ofLe (b ++ [1])) * k.val % poly1305Prime [MOD poly1305Prime]
    rw [hone]
    exact hval.trans (((hn.add_right _).mul_right _).trans (Nat.mod_modEq _ _).symm)

theorem polyBlocks_eq (ctx : Poly1305Ctx) (input : Bytes) (e : UInt32) :
    Words.polyBlocks ctx input (input.length / 16) e =
      { ctx with h := (blocks 16 input).foldl (polyBlock ctx.r e) ctx.h } := by
  rw [Words.polyBlocks, blocks, List.foldl_map]
  rfl

theorem polyBlocks_one (ctx : Poly1305Ctx) {input : Bytes} (h : input.length = 16) (e : UInt32) :
    Words.polyBlocks ctx input 1 e = { ctx with h := polyBlock ctx.r e ctx.h input } := by
  rw [Words.polyBlocks, List.range_one, List.foldl_cons, List.foldl_nil, Nat.mul_zero, Bytes.slice,
    List.drop_zero, List.take_of_length_le h.le]

section Absorbed

variable {ctx : Poly1305Ctx} {m : Bytes}

/-- Bytes behind the rest. -/
theorem Poly1305Ctx.Absorbed.take_fill (h : ctx.Absorbed m) {d : Bytes}
    (hd : ctx.cIdx + d.length ≤ 16) :
    (polyFill ctx d).c.length = 16 ∧
    (polyFill ctx d).c.take (ctx.cIdx + d.length) = Blocks.rest 16 m ++ d := by
  constructor
  · exact (Bytes.length_patch (by rw [h.length]; exact hd)).trans h.length
  · have htake : (ctx.c.take ctx.cIdx).length = ctx.cIdx := by
      rw [List.length_take, h.length]
      omega
    rw [polyFill, Bytes.patch, ← h.rest, List.take_left']
    rw [List.length_append, htake]

/-- The first loop of `crypto_poly1305_update`, and the flush of a full block. -/
theorem Poly1305Ctx.Absorbed.align (h : ctx.Absorbed m) {d : Bytes}
    (hd : ctx.cIdx + d.length ≤ 16) :
    (if (polyFill ctx d).cIdx = 16 then
      { Words.polyBlocks (polyFill ctx d) (polyFill ctx d).c 1 1 with cIdx := 0 }
      else polyFill ctx d).Absorbed (m ++ d) := by
  obtain ⟨hlen, htake⟩ := h.take_fill hd
  have hidx : (polyFill ctx d).cIdx = ctx.cIdx + d.length := rfl
  have hrest : (Blocks.rest 16 m ++ d).length = ctx.cIdx + d.length := by
    rw [List.length_append, length_rest, h.idx]
  split_ifs with hfull
  · -- the block is full
    rw [hidx] at hfull
    have hblock : (polyFill ctx d).c = Blocks.rest 16 m ++ d := by
      rw [← htake, hfull, List.take_of_length_le hlen.le]
    have hblocks : blocks 16 (m ++ d) = blocks 16 m ++ [Blocks.rest 16 m ++ d] := by
      rw [blocks_append_rest (by norm_num)]
      have hone := blocks_cons (n := 16) (by norm_num) (hrest.trans hfull) []
      rw [List.append_nil] at hone
      rw [hone]
      rfl
    obtain ⟨htop, hval⟩ := val_foldl_polyBlock h.clamped (l := [Blocks.rest 16 m ++ d])
      (by simpa using hrest.trans hfull) h.top h.val
    rw [polyBlocks_one _ hlen, hblock]
    refine ⟨h.clamped, hrest.trans hfull, ?_, ?_, htop, ?_⟩
    · show 0 = (m ++ d).length % 16
      rw [List.length_append]
      have hidxm := h.idx
      omega
    · show List.take 0 _ = Blocks.rest 16 (m ++ d)
      rw [rest_append_rest, rest_of_dvd (b := Blocks.rest 16 m ++ d) (by rw [hrest, hfull]),
        List.take_zero]
    · rw [hblocks, polyFold_append]
      exact hval
  · rw [hidx] at hfull
    have hlt : (Blocks.rest 16 m ++ d).length < 16 := by omega
    refine ⟨h.clamped, hlen, ?_, ?_, h.top, ?_⟩
    · rw [hidx, List.length_append]
      have hidxm := h.idx
      omega
    · rw [hidx, htake, rest_append_rest, rest_of_lt hlt]
    · rw [blocks_append_rest (by norm_num), blocks_of_lt hlt, List.append_nil]
      exact h.val

/-- Whole blocks and the rest of a part, when no block is begun. -/
theorem Poly1305Ctx.Absorbed.whole (h : ctx.Absorbed m) (hzero : ctx.cIdx = 0) (d : Bytes) :
    (polyWhole ctx d).Absorbed (m ++ d) := by
  have hdvd : 16 ∣ m.length := by
    rw [h.idx] at hzero
    exact Nat.dvd_of_mod_eq_zero hzero
  obtain ⟨htop, hval⟩ := val_foldl_polyBlock h.clamped (l := blocks 16 d)
    (fun b hb => length_of_mem_blocks hb) h.top h.val
  have hdrop : d.drop (16 * (d.length / 16)) = Blocks.rest 16 d := rfl
  have hrest : (Blocks.rest 16 d).length ≤ 16 := by
    rw [length_rest]
    omega
  rw [polyWhole, polyBlocks_eq, hdrop, polyFill]
  simp only [hzero, Nat.zero_add]
  refine ⟨h.clamped, ?_, ?_, ?_, htop, ?_⟩
  · rw [Bytes.length_patch (by rw [h.length]; omega), h.length]
  · show (Blocks.rest 16 d).length = (m ++ d).length % 16
    rw [length_rest, List.length_append]
    omega
  · rw [Bytes.patch_zero, List.take_left, rest_append hdvd]
  · rw [blocks_append (by norm_num) hdvd, polyFold_append]
    exact hval

/-- **One part of a text.** -/
theorem Poly1305Ctx.Absorbed.update (h : ctx.Absorbed m) (d : Bytes) :
    (cryptoPoly1305Update ctx d).Absorbed (m ++ d) := by
  have hidx := h.idx
  unfold cryptoPoly1305Update
  split_ifs with hempty
  · rw [List.length_eq_zero_iff.1 hempty, List.append_nil]
    exact h
  · rw [gap_sixteen]
    set aligned := min ((16 - ctx.cIdx % 16) % 16) d.length with haligned
    have htake : (d.take aligned).length = aligned := by
      rw [List.length_take]
      omega
    have halign := h.align (d := d.take aligned) (by rw [htake]; omega)
    show (polyWhole (if (polyFill ctx (d.take aligned)).cIdx = 16 then
      { Words.polyBlocks (polyFill ctx (d.take aligned)) (polyFill ctx (d.take aligned)).c 1 1 with
        cIdx := 0 } else polyFill ctx (d.take aligned)) (d.drop aligned)).Absorbed (m ++ d)
    generalize (if (polyFill ctx (d.take aligned)).cIdx = 16 then
      { Words.polyBlocks (polyFill ctx (d.take aligned)) (polyFill ctx (d.take aligned)).c 1 1 with
        cIdx := 0 } else polyFill ctx (d.take aligned)) = next at halign ⊢
    have hcat : m ++ d = (m ++ d.take aligned) ++ d.drop aligned := by
      rw [List.append_assoc, List.take_append_drop]
    rw [hcat]
    by_cases hzero : next.cIdx = 0
    · exact halign.whole hzero _
    · -- the block is not full, so nothing is left of the part
      have hall : d.length ≤ aligned := by
        have hnidx := halign.idx
        rw [List.length_append, htake] at hnidx
        omega
      rw [List.drop_of_length_le hall, List.append_nil]
      have hnil : polyWhole next [] = next := by
        simp [polyWhole, Words.polyBlocks, polyFill]
      rw [hnil]
      exact halign

end Absorbed

/-! ### The beginning -/

theorem and_halves {a b m n : ℕ} (ha : a < 2 ^ 32) (hm : m < 2 ^ 32) :
    (a + 2 ^ 32 * b) &&& (m + 2 ^ 32 * n) = (a &&& m) + 2 ^ 32 * (b &&& n) := by
  have hand : a &&& m < 2 ^ 32 := Nat.and_lt_two_pow a hm
  rw [Nat.add_comm a, Nat.add_comm m, Nat.add_comm (a &&& m)]
  apply Nat.eq_of_testBit_eq
  intro i
  rw [Nat.testBit_and, Nat.testBit_two_pow_mul_add _ ha, Nat.testBit_two_pow_mul_add _ hm,
    Nat.testBit_two_pow_mul_add _ hand]
  split_ifs
  · rw [Nat.testBit_and]
  · rw [Nat.testBit_and]

theorem load32Le_take {b : Bytes} {off n : ℕ} (h : off + 4 ≤ n) :
    load32Le (b.take n) off = load32Le b off := by
  rw [load32Le, load32Le, Bytes.slice_take h]

theorem load32Le_slice {b : Bytes} {off o n : ℕ} (h : off + 4 ≤ n) :
    load32Le (Bytes.slice b o n) off = load32Le b (o + off) := by
  rw [Bytes.slice, load32Le_take h, load32Le, load32Le, Bytes.slice, Bytes.slice, List.drop_drop]

section Init

variable {c key : Bytes}

theorem clamped_init : (cryptoPoly1305Init c key).r.Clamped := by
  have hlo : ∀ x : UInt32, (x &&& 0x0fffffff).toNat < 2 ^ 28 := by
    intro x
    rw [UInt32.toNat_and]
    exact Nat.and_lt_two_pow _ (by decide)
  have hhi : ∀ x : UInt32, (x &&& 0x0ffffffc).toNat < 2 ^ 28 := by
    intro x
    rw [UInt32.toNat_and]
    exact Nat.and_lt_two_pow _ (by decide)
  have hfour : ∀ x : UInt32, 4 ∣ (x &&& 0x0ffffffc).toNat := by
    intro x
    have h := toNat_and_three (x &&& 0x0ffffffc)
    rw [UInt32.and_assoc] at h
    have hmask : (0x0ffffffc &&& 3 : UInt32) = 0 := rfl
    rw [hmask, UInt32.and_zero] at h
    exact Nat.dvd_of_mod_eq_zero h.symm
  exact ⟨hlo _, hhi _, hhi _, hhi _, hfour _, hfour _, hfour _⟩

/-- The limbs of `r` are the clamped number. -/
theorem val_init (hkey : 32 ≤ key.length) : (cryptoPoly1305Init c key).r.val =
    Bytes.ofLe (key.take 16) &&& 0x0ffffffc0ffffffc0ffffffc0fffffff := by
  have hw := ofLe_words (b := key.take 16) (by rw [List.length_take]; omega)
  rw [load32Le_take (by norm_num), load32Le_take (by norm_num), load32Le_take (by norm_num),
    load32Le_take (by norm_num)] at hw
  have h0 := (load32Le key 0).toNat_lt
  have h1 := (load32Le key 4).toNat_lt
  have h2 := (load32Le key 8).toNat_lt
  have hnum : Bytes.ofLe (key.take 16) = (load32Le key 0).toNat + 2 ^ 32 * ((load32Le key 4).toNat +
      2 ^ 32 * ((load32Le key 8).toNat + 2 ^ 32 * (load32Le key 12).toNat)) := by
    rw [hw]
    ring
  have hmask : 0x0ffffffc0ffffffc0ffffffc0fffffff =
      0x0fffffff + 2 ^ 32 * (0x0ffffffc + 2 ^ 32 * (0x0ffffffc + 2 ^ 32 * 0x0ffffffc)) := by norm_num
  rw [hnum, hmask, and_halves h0 (by norm_num), and_halves h1 (by norm_num),
    and_halves h2 (by norm_num)]
  simp only [Poly1305Key.val, cryptoPoly1305Init, UInt32.toNat_and]
  have hm0 : (0x0fffffff : UInt32).toNat = 0x0fffffff := rfl
  have hm1 : (0x0ffffffc : UInt32).toNat = 0x0ffffffc := rfl
  rw [hm0, hm1]
  ring

theorem absorbed_init (hc : c.length = 16) : (cryptoPoly1305Init c key).Absorbed [] where
  clamped := clamped_init
  length := hc
  idx := rfl
  rest := by
    rw [rest_of_lt (by norm_num)]
    rfl
  top := Nat.zero_lt_succ 4
  val := rfl

end Init

/-! ### The end -/

/-- The number that the four words of `pad` stand for. -/
def Poly1305Ctx.padVal (ctx : Poly1305Ctx) : ℕ :=
  (ctx.pad 0).toNat + 2 ^ 32 * (ctx.pad 1).toNat + 2 ^ 64 * (ctx.pad 2).toNat +
    2 ^ 96 * (ctx.pad 3).toNat

theorem padVal_init {c key : Bytes} (hkey : 32 ≤ key.length) :
    (cryptoPoly1305Init c key).padVal = Bytes.ofLe (Bytes.slice key 16 16) := by
  rw [ofLe_words (b := Bytes.slice key 16 16) (Bytes.length_slice hkey),
    load32Le_slice (by norm_num), load32Le_slice (by norm_num), load32Le_slice (by norm_num),
    load32Le_slice (by norm_num)]
  rfl

theorem ofLe_memOfU32 (x : UInt32) : Bytes.ofLe (memOfU32 x) = x.toNat :=
  Bytes.ofLe_le_of_lt x.toNat_lt

/-- Four words in memory are one number. -/
theorem memOfU32_four (a b c d : UInt32) :
    memOfU32 a ++ memOfU32 b ++ memOfU32 c ++ memOfU32 d =
      Bytes.le 16 (a.toNat + 2 ^ 32 * b.toNat + 2 ^ 64 * c.toNat + 2 ^ 96 * d.toNat) := by
  have h := Bytes.le_ofLe (memOfU32 a ++ memOfU32 b ++ memOfU32 c ++ memOfU32 d)
  simp only [ofLe_append, ofLe_memOfU32, List.length_append, length_memOfU32] at h
  rw [← h]
  congr 1

theorem le_mod (n v : ℕ) : Bytes.le n (v % 256 ^ n) = Bytes.le n v := by
  have h := Bytes.le_ofLe (Bytes.le n v)
  rwa [Bytes.ofLe_le, Bytes.length_le] at h

/-- **The last block.** -/
theorem Poly1305Ctx.Absorbed.last {ctx : Poly1305Ctx} {m : Bytes} (h : ctx.Absorbed m) :
    (polyLast ctx).h.h4.toNat < 5 ∧ (polyLast ctx).pad = ctx.pad ∧
    (polyLast ctx).h.val ≡ polyFold ctx.r.val 0 (polyChunks m) [MOD poly1305Prime] := by
  have hlen := length_rest 16 m
  have hidx := h.idx
  unfold polyLast
  split_ifs with hzero
  · have hne : Blocks.rest 16 m ≠ [] := by
      intro hnil
      rw [hnil, List.length_nil] at hlen
      omega
    have hblock : Bytes.patch (Bytes.patch ctx.c ctx.cIdx (List.replicate (16 - ctx.cIdx) 0))
        ctx.cIdx [1] = Blocks.rest 16 m ++ [1] ++ List.replicate (15 - ctx.cIdx) 0 := by
      have htake : (ctx.c.take ctx.cIdx).length = ctx.cIdx := by
        rw [List.length_take, h.length]
        omega
      have hfirst : Bytes.patch ctx.c ctx.cIdx (List.replicate (16 - ctx.cIdx) 0) =
          Blocks.rest 16 m ++ [0] ++ List.replicate (15 - ctx.cIdx) 0 := by
        have hrep : 16 - ctx.cIdx = 15 - ctx.cIdx + 1 := by omega
        rw [Bytes.patch, h.rest, List.drop_of_length_le, List.append_nil, hrep,
          List.replicate_succ, List.append_assoc, List.singleton_append]
        rw [List.length_replicate, h.length]
        omega
      rw [hfirst]
      exact Bytes.patch_append_mid (by rw [hlen, hidx]) rfl
    have hsize : (Blocks.rest 16 m ++ [1] ++ List.replicate (15 - ctx.cIdx) 0).length = 16 := by
      rw [List.length_append, List.length_append, hlen, List.length_replicate, List.length_singleton]
      omega
    simp only [hblock]
    rw [polyBlocks_one _ hsize]
    obtain ⟨htop, hval⟩ := val_polyBlock h.clamped h.top (e := 0) (by decide) hsize
    refine ⟨htop, rfl, ?_⟩
    have hofLe : Bytes.ofLe (Blocks.rest 16 m ++ [1] ++ List.replicate (15 - ctx.cIdx) 0) =
        Bytes.ofLe (Blocks.rest 16 m ++ [1]) := by
      have hzeros : ∀ n, Bytes.ofLe (List.replicate n 0) = 0 := by
        intro n
        induction n with
        | zero => rfl
        | succ n ih =>
          rw [List.replicate_succ, ← List.singleton_append, ofLe_append, ih]
          rfl
      rw [ofLe_append, hzeros, Nat.mul_zero, Nat.add_zero]
    rw [polyChunks, if_neg hne, polyFold_append]
    show _ ≡ (polyFold ctx.r.val 0 (blocks 16 m) + Bytes.ofLe (Blocks.rest 16 m ++ [1])) *
      ctx.r.val % poly1305Prime [MOD poly1305Prime]
    rw [hofLe] at hval
    exact hval.trans (((h.val.add_right _).mul_right _).trans (Nat.mod_modEq _ _).symm)
  · have hnil : Blocks.rest 16 m = [] := by
      rw [← List.length_eq_zero_iff, hlen]
      omega
    refine ⟨h.top, rfl, ?_⟩
    rw [polyChunks, if_pos hnil, List.append_nil]
    exact h.val

theorem polyFold_lt (r : ℕ) (bs : List Bytes) : polyFold r 0 bs < poly1305Prime := by
  induction bs using List.reverseRecOn with
  | nil => exact Nat.zero_lt_succ _
  | append_singleton bs b _ =>
    rw [polyFold_append]
    exact Nat.mod_lt _ (Nat.zero_lt_succ _)

/-- How often the prime has to be subtracted, as the carry of an addition of five. -/
theorem carry_five (h0 h1 h2 h3 h4 : ℕ) :
    (((((5 + h0) / 2 ^ 32 + h1) / 2 ^ 32 + h2) / 2 ^ 32 + h3) / 2 ^ 32 + h4) =
      (h0 + 2 ^ 32 * h1 + 2 ^ 64 * h2 + 2 ^ 96 * h3 + 2 ^ 128 * h4 + 5) / 2 ^ 128 := by
  omega

theorem words_lt {a b c d : ℕ} (ha : a < 2 ^ 32) (hb : b < 2 ^ 32) (hc : c < 2 ^ 32)
    (hd : d < 2 ^ 32) : a + 2 ^ 32 * b + 2 ^ 64 * c + 2 ^ 96 * d < 2 ^ 128 := by
  omega

/-- The words of a sum with carries. -/
theorem carry_words {t a0 a1 a2 a3 c0 c1 c2 c3 : ℕ} (h0 : c0 = t + a0)
    (h1 : c1 = c0 / 2 ^ 32 + a1) (h2 : c2 = c1 / 2 ^ 32 + a2) (h3 : c3 = c2 / 2 ^ 32 + a3) :
    c0 % 2 ^ 32 + 2 ^ 32 * (c1 % 2 ^ 32) + 2 ^ 64 * (c2 % 2 ^ 32) + 2 ^ 96 * (c3 % 2 ^ 32) =
      (t + a0 + 2 ^ 32 * a1 + 2 ^ 64 * a2 + 2 ^ 96 * a3) % 2 ^ 128 := by
  have d0 := Nat.div_add_mod c0 (2 ^ 32)
  have d1 := Nat.div_add_mod c1 (2 ^ 32)
  have d2 := Nat.div_add_mod c2 (2 ^ 32)
  have d3 := Nat.div_add_mod c3 (2 ^ 32)
  have hpos : 0 < 2 ^ 32 := by norm_num
  have hlt := words_lt (Nat.mod_lt c0 hpos) (Nat.mod_lt c1 hpos) (Nat.mod_lt c2 hpos)
    (Nat.mod_lt c3 hpos)
  have hsum : t + a0 + 2 ^ 32 * a1 + 2 ^ 64 * a2 + 2 ^ 96 * a3 =
      c0 % 2 ^ 32 + 2 ^ 32 * (c1 % 2 ^ 32) + 2 ^ 64 * (c2 % 2 ^ 32) + 2 ^ 96 * (c3 % 2 ^ 32) +
        2 ^ 128 * (c3 / 2 ^ 32) := by
    linarith
  rw [hsum, Nat.add_mul_mod_self_left, Nat.mod_eq_of_lt hlt]

/-- A hash in range, once reduced. -/
theorem reduce_once {v n : ℕ} (hv : v < 5 * 2 ^ 128) (hn : n < poly1305Prime)
    (h : v ≡ n [MOD poly1305Prime]) (pad : ℕ) :
    ((v + 5) / 2 ^ 128 / 4 * 5 + v + pad) % 2 ^ 128 = (n + pad) % 2 ^ 128 := by
  have hp : poly1305Prime = 2 ^ 130 - 5 := rfl
  have hcase : v = n ∨ v = n + poly1305Prime := by
    have hmod := Nat.mod_eq_of_modEq h hn
    have hdiv := Nat.div_add_mod v poly1305Prime
    have hq : v / poly1305Prime < 2 := Nat.div_lt_of_lt_mul (by omega)
    rw [hmod] at hdiv
    rcases Nat.lt_succ_iff_lt_or_eq.1 hq with h0 | h1
    · rw [Nat.lt_one_iff.1 h0] at hdiv
      omega
    · rw [h1] at hdiv
      omega
  rw [Nat.div_div_eq_div_mul]
  rcases hcase with rfl | rfl
  · have hq : (v + 5) / (2 ^ 128 * 4) = 0 := Nat.div_eq_of_lt (by omega)
    rw [hq, Nat.zero_mul, Nat.zero_add]
  · have hq : (n + poly1305Prime + 5) / (2 ^ 128 * 4) = 1 :=
      Nat.div_eq_of_lt_le (by omega) (by omega)
    have hsum : 1 * 5 + (n + poly1305Prime) + pad = n + pad + 2 ^ 128 * 4 := by omega
    rw [hq, hsum, Nat.add_mul_mod_self_left]

theorem val_lt {h : Poly1305Hash} (htop : h.h4.toNat < 5) : h.val < 5 * 2 ^ 128 := by
  have hlt := words_lt h.h0.toNat_lt h.h1.toNat_lt h.h2.toNat_lt h.h3.toNat_lt
  rw [Poly1305Hash.val]
  omega

theorem toNat_carry_add {x y : UInt64} (hx : x.toNat < 2 ^ 34) (hy : y.toNat < 2 ^ 33) :
    ((x >>> 32) + y).toNat = x.toNat / 2 ^ 32 + y.toNat ∧ ((x >>> 32) + y).toNat < 2 ^ 34 := by
  rw [UInt64.toNat_add, toNat_high]
  omega

theorem toNat_small_add {x y : UInt64} (hx : x.toNat ≤ 5) (hy : y.toNat < 2 ^ 33) :
    (x + y).toNat = x.toNat + y.toNat ∧ (x + y).toNat < 2 ^ 34 := by
  rw [UInt64.toNat_add]
  omega

theorem update_r (ctx : Poly1305Ctx) (d : Bytes) : (cryptoPoly1305Update ctx d).r = ctx.r := by
  unfold cryptoPoly1305Update
  split_ifs
  · rfl
  · simp only
    split_ifs <;> rfl

theorem update_pad (ctx : Poly1305Ctx) (d : Bytes) : (cryptoPoly1305Update ctx d).pad = ctx.pad := by
  unfold cryptoPoly1305Update
  split_ifs
  · rfl
  · simp only
    split_ifs <;> rfl

/-- **The tag.** -/
theorem Poly1305Ctx.Absorbed.final {ctx : Poly1305Ctx} {m : Bytes} (h : ctx.Absorbed m) :
    cryptoPoly1305Final ctx =
      Bytes.le 16 (polyFold ctx.r.val 0 (polyChunks m) + ctx.padVal) := by
  obtain ⟨htop, hpad, hval⟩ := h.last
  have hreduce := reduce_once (val_lt htop) (polyFold_lt _ _) hval ctx.padVal
  simp only [cryptoPoly1305Final, hpad]
  generalize (polyLast ctx).h = last at htop hreduce ⊢
  have hword : ∀ x : UInt32, x.toUInt64.toNat < 2 ^ 33 := by
    intro x
    have hx := x.toNat_lt
    rw [UInt32.toNat_toUInt64]
    omega
  -- the carry of the addition of five
  obtain ⟨n0, b0⟩ := toNat_small_add (x := 5) (le_refl 5) (hword last.h0)
  obtain ⟨n1, b1⟩ := toNat_carry_add b0 (hword last.h1)
  obtain ⟨n2, b2⟩ := toNat_carry_add b1 (hword last.h2)
  obtain ⟨n3, b3⟩ := toNat_carry_add b2 (hword last.h3)
  obtain ⟨n4, b4⟩ := toNat_carry_add b3 (hword last.h4)
  simp only [UInt32.toNat_toUInt64] at n0 n1 n2 n3 n4
  have hfive : (5 : UInt64).toNat = 5 := rfl
  rw [n3, n2, n1, n0, hfive, carry_five] at n4
  generalize ((((((((5 + last.h0.toUInt64) >>> 32) + last.h1.toUInt64) >>> 32) + last.h2.toUInt64) >>> 32) +
    last.h3.toUInt64) >>> 32) + last.h4.toUInt64 = d4 at n4 b4 ⊢
  have hd4 : d4.toNat = (last.val + 5) / 2 ^ 128 := n4
  have hd4le : d4.toNat ≤ 5 := by
    have hlt := val_lt htop
    rw [hd4]
    omega
  have ht : ((d4 >>> 2) * 5).toNat = (last.val + 5) / 2 ^ 128 / 4 * 5 := by
    have hshift : (d4 >>> 2).toNat = d4.toNat / 4 := by
      rw [UInt64.toNat_shiftRight]
      exact Nat.shiftRight_eq_div_pow d4.toNat 2
    rw [UInt64.toNat_mul, hshift, hfive, ← hd4]
    omega
  have htle : ((d4 >>> 2) * 5).toNat ≤ 5 := by
    rw [ht, ← hd4]
    omega
  generalize (d4 >>> 2) * 5 = t at ht htle ⊢
  -- the addition of the pad
  obtain ⟨m0, a0⟩ := toNat_small_add htle (add_words_lt last.h0 (ctx.pad 0))
  obtain ⟨m1, a1⟩ := toNat_carry_add a0 (add_words_lt last.h1 (ctx.pad 1))
  obtain ⟨m2, a2⟩ := toNat_carry_add a1 (add_words_lt last.h2 (ctx.pad 2))
  obtain ⟨m3, -⟩ := toNat_carry_add a2 (add_words_lt last.h3 (ctx.pad 3))
  rw [toNat_add_words] at m0 m1 m2 m3
  have hwords := carry_words m0 m1 m2 m3
  rw [memOfU32_four]
  simp only [UInt64.toNat_toUInt32]
  have hcollect : t.toNat + (last.h0.toNat + (ctx.pad 0).toNat) +
      2 ^ 32 * (last.h1.toNat + (ctx.pad 1).toNat) + 2 ^ 64 * (last.h2.toNat + (ctx.pad 2).toNat) +
      2 ^ 96 * (last.h3.toNat + (ctx.pad 3).toNat) + 2 ^ 128 * last.h4.toNat =
      (last.val + 5) / 2 ^ 128 / 4 * 5 + last.val + ctx.padVal := by
    rw [ht, Poly1305Hash.val, Poly1305Ctx.padVal]
    ring
  rw [hwords, ← Nat.add_mul_mod_self_left _ _ last.h4.toNat, hcollect, hreduce]
  exact le_mod 16 _

/-! ### The functions of the source -/

theorem Poly1305Ctx.Absorbed.parts {ctx : Poly1305Ctx} {m : Bytes} (h : ctx.Absorbed m)
    (parts : List Bytes) :
    (parts.foldl cryptoPoly1305Update ctx).Absorbed (m ++ parts.flatten) ∧
      (parts.foldl cryptoPoly1305Update ctx).r = ctx.r ∧
      (parts.foldl cryptoPoly1305Update ctx).pad = ctx.pad := by
  induction parts generalizing ctx m with
  | nil => exact ⟨by simpa using h, rfl, rfl⟩
  | cons d parts ih =>
    obtain ⟨habs, hr, hpad⟩ := ih (h.update d)
    rw [List.flatten_cons, ← List.append_assoc]
    exact ⟨habs, hr.trans (update_r ctx d), hpad.trans (update_pad ctx d)⟩

/-- A context that was set up for `key` and has taken in `m` gives the tag of `m`. -/
theorem Poly1305Ctx.Absorbed.tag {ctx : Poly1305Ctx} {m c key : Bytes} (h : ctx.Absorbed m)
    (hkey : 32 ≤ key.length) (hr : ctx.r = (cryptoPoly1305Init c key).r)
    (hpad : ctx.pad = (cryptoPoly1305Init c key).pad) :
    cryptoPoly1305Final ctx = poly1305Mac m key := by
  have hpadVal : ctx.padVal = (cryptoPoly1305Init c key).padVal := by
    rw [Poly1305Ctx.padVal, hpad, Poly1305Ctx.padVal]
  rw [h.final, hr, val_init hkey, hpadVal, padVal_init hkey, poly1305Mac]

/-- **Poly1305 in parts.**  However a message is cut into calls of `crypto_poly1305_update`, and
whatever the context holds before, the tag is that of the whole message: the sum over its blocks
modulo `2 ^ 130 - 5`. -/
theorem poly1305_in_parts {c key : Bytes} (hc : c.length = 16) (hkey : 32 ≤ key.length)
    (parts : List Bytes) :
    cryptoPoly1305Final (parts.foldl cryptoPoly1305Update (cryptoPoly1305Init c key)) =
      poly1305Mac parts.flatten key := by
  have hinit : (cryptoPoly1305Init c key).Absorbed [] := absorbed_init hc
  obtain ⟨habs, hr, hpad⟩ := hinit.parts parts
  exact habs.tag hkey hr hpad

/-- Three calls that cut the first block twice and the second once, under a key without zeros. -/
theorem poly1305_in_parts_three :
    let key : Bytes := (List.range' 133 32).map UInt8.ofNat
    let parts : List Bytes := [(List.range' 1 5).map UInt8.ofNat, (List.range' 6 7).map UInt8.ofNat,
      (List.range' 13 22).map UInt8.ofNat]
    let text : Bytes := (List.range' 1 34).map UInt8.ofNat
    cryptoPoly1305Final (parts.foldl cryptoPoly1305Update
      (cryptoPoly1305Init (List.replicate 16 7) key)) = poly1305Mac text key := by
  intro key parts text
  have htext : parts.flatten = text := by decide
  rw [← htext]
  exact poly1305_in_parts rfl (by decide) parts

end Tund
