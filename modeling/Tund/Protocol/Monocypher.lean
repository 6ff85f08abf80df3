import Tund.Process

/-!
# Monocypher's authenticated encryption

`crypto_aead_lock` and `crypto_aead_unlock` of the vendored Monocypher: XChaCha20 for
the text and Poly1305 for the tag.  Words are 32 bits as in the source; Poly1305 is
computed on numbers modulo `2 ^ 130 - 5` instead of on five limbs.

`monocypher` packages them as an `Aead`: the laws that the transport relies on are
theorems here.  `Env.plain` is a host that uses it and on which nothing fails.
-/

namespace Tund

/-! ### ChaCha20 -/

/-- `rotl32` -/
def rotl32 (x n : UInt32) : UInt32 := x <<< n ||| x >>> (32 - n)

/-- `QUARTERROUND` -/
def quarterRound (a b c d : UInt32) : UInt32 × UInt32 × UInt32 × UInt32 :=
  let a := a + b
  let d := rotl32 (d ^^^ a) 16
  let c := c + d
  let b := rotl32 (b ^^^ c) 12
  let a := a + b
  let d := rotl32 (d ^^^ a) 8
  let c := c + d
  let b := rotl32 (b ^^^ c) 7
  (a, b, c, d)

/-- `QUARTERROUND` on four of the sixteen words. -/
def quarterRoundAt (i j k l : ℕ) (t : List UInt32) : List UInt32 :=
  let (a, b, c, d) := quarterRound (t.getD i 0) (t.getD j 0) (t.getD k 0) (t.getD l 0)
  (((t.set i a).set j b).set k c).set l d

/-- One pass of the loop of `chacha20_rounds`: a column round and a diagonal round. -/
def chacha20DoubleRound (t : List UInt32) : List UInt32 :=
  let t := quarterRoundAt 0 4 8 12 t
  let t := quarterRoundAt 1 5 9 13 t
  let t := quarterRoundAt 2 6 10 14 t
  let t := quarterRoundAt 3 7 11 15 t
  let t := quarterRoundAt 0 5 10 15 t
  let t := quarterRoundAt 1 6 11 12 t
  let t := quarterRoundAt 2 7 8 13 t
  quarterRoundAt 3 4 9 14 t

/-- `chacha20_rounds` -/
def chacha20Rounds (block : List UInt32) : List UInt32 := chacha20DoubleRound^[10] block

/-- `load32_le_buf` -/
def load32LeBuf (src : Bytes) (n : ℕ) : List UInt32 :=
  (List.range n).map fun i => u32OfMem (Bytes.slice src (4 * i) 4)

/-- `store32_le_buf` -/
def store32LeBuf (words : List UInt32) : Bytes := words.flatMap memOfU32

/-- `chacha20_constant`, the words of "expand 32-byte k" -/
def chacha20Constant : List UInt32 := [0x61707865, 0x3320646e, 0x79622d32, 0x6b206574]

/-- `crypto_chacha20_h` -/
def cryptoChacha20H (key input : Bytes) : Bytes :=
  let block := chacha20Rounds (chacha20Constant ++ load32LeBuf key 8 ++ load32LeBuf input 4)
  store32LeBuf (block.take 4 ++ block.drop 12)

/-- One block of the key stream of `crypto_chacha20_djb`. -/
def chacha20Block (key nonce : Bytes) (ctr : UInt64) : Bytes :=
  let input := chacha20Constant ++ load32LeBuf key 8 ++
    [ctr.toUInt32, (ctr >>> 32).toUInt32] ++ load32LeBuf nonce 2
  store32LeBuf (List.zipWith (· + ·) (chacha20Rounds input) input)

/-- The first `n` bytes of the key stream from block `ctr` on. -/
def chacha20Stream (key nonce : Bytes) (ctr : UInt64) (n : ℕ) : Bytes :=
  Bytes.pad n ((List.range (n / 64 + 1)).flatMap fun i =>
    chacha20Block key nonce (ctr + UInt64.ofNat i))

/-- `crypto_chacha20_djb` on a text. -/
def cryptoChacha20Djb (text key nonce : Bytes) (ctr : UInt64) : Bytes :=
  List.zipWith (· ^^^ ·) text (chacha20Stream key nonce ctr text.length)

/-! ### Poly1305 -/

/-- The prime of Poly1305. -/
def poly1305Prime : ℕ := 2 ^ 130 - 5

/-- `poly_blocks` over the blocks of a message whose length is a multiple of 16. -/
def polyBlocks (r : ℕ) : ℕ → ℕ → Bytes → ℕ
  | 0, h, _ => h
  | n + 1, h, message =>
    polyBlocks r n ((h + Bytes.ofLe (message.take 16 ++ [1])) * r % poly1305Prime)
      (message.drop 16)

/-- `crypto_poly1305` on a message whose length is a multiple of 16. -/
def cryptoPoly1305 (message key : Bytes) : Bytes :=
  let r := Bytes.ofLe (key.take 16) &&& 0x0ffffffc0ffffffc0ffffffc0fffffff
  let pad := Bytes.ofLe (Bytes.slice key 16 16)
  Bytes.le 16 (polyBlocks r (message.length / 16) 0 message + pad)

/-- A text with zeros up to the next multiple of 16. -/
def padBlocks (text : Bytes) : Bytes := text ++ List.replicate ((16 - text.length % 16) % 16) 0

/-- `lock_auth` -/
def lockAuth (authKey ad cipher : Bytes) : Bytes :=
  cryptoPoly1305
    (padBlocks ad ++ padBlocks cipher ++ Bytes.le 8 ad.length ++ Bytes.le 8 cipher.length) authKey

/-! ### The AEAD -/

/-- `crypto_aead_init_x`: subkey and nonce. -/
def cryptoAeadInitX (key nonce : Bytes) : Bytes × Bytes :=
  (cryptoChacha20H key (nonce.take 16), Bytes.slice nonce 16 8)

/-- The tag that `crypto_aead_write` computes and `crypto_aead_read` compares. -/
def aeadTag (key nonce ad cipher : Bytes) : Bytes :=
  let ctx := cryptoAeadInitX key nonce
  lockAuth (chacha20Stream ctx.1 ctx.2 0 64) ad cipher

theorem length_aeadTag (key nonce ad cipher : Bytes) :
    (aeadTag key nonce ad cipher).length = 16 := by
  rw [aeadTag, lockAuth, cryptoPoly1305, Bytes.length_le]

/-- `crypto_aead_lock` -/
def cryptoAeadLock (key nonce ad text : Bytes) : Bytes × Bytes :=
  let ctx := cryptoAeadInitX key nonce
  let cipher := cryptoChacha20Djb text ctx.1 ctx.2 1
  (cipher, aeadTag key nonce ad cipher)

/-- `crypto_aead_unlock` -/
def cryptoAeadUnlock (key nonce ad cipher mac : Bytes) : Option Bytes :=
  let ctx := cryptoAeadInitX key nonce
  if mac = aeadTag key nonce ad cipher then some (cryptoChacha20Djb cipher ctx.1 ctx.2 1) else none

theorem length_cryptoChacha20Djb (text key nonce : Bytes) (ctr : UInt64) :
    (cryptoChacha20Djb text key nonce ctr).length = text.length := by
  simp [cryptoChacha20Djb, chacha20Stream]

theorem zipWith_xor_cancel (text stream : Bytes) (h : text.length = stream.length) :
    List.zipWith (· ^^^ ·) (List.zipWith (· ^^^ ·) text stream) stream = text := by
  induction text generalizing stream with
  | nil => simp
  | cons x text ih =>
    cases stream with
    | nil => cases h
    | cons y stream =>
      simp only [List.zipWith_cons_cons, List.cons.injEq]
      refine ⟨?_, ih stream (by simpa using h)⟩
      rw [UInt8.xor_assoc, UInt8.xor_self, UInt8.xor_zero]

/-- The stream cipher undoes itself. -/
theorem cryptoChacha20Djb_cancel (text key nonce : Bytes) (ctr : UInt64) :
    cryptoChacha20Djb (cryptoChacha20Djb text key nonce ctr) key nonce ctr = text := by
  rw [cryptoChacha20Djb, length_cryptoChacha20Djb, cryptoChacha20Djb,
    zipWith_xor_cancel _ _ (by simp [chacha20Stream])]

/-- Monocypher's AEAD with its laws. -/
def monocypher : Aead where
  lock := cryptoAeadLock
  unlock := cryptoAeadUnlock
  length_cipher _ _ _ _ := by simp only [cryptoAeadLock, length_cryptoChacha20Djb]
  length_mac _ _ _ _ := by simp only [cryptoAeadLock, length_aeadTag]
  unlock_eq_some_iff key nonce ad cipher mac text := by
    simp only [cryptoAeadUnlock, cryptoAeadLock, Prod.mk.injEq]
    constructor
    · intro h
      split_ifs at h with hmac
      rw [← Option.some.inj h, cryptoChacha20Djb_cancel]
      exact ⟨rfl, hmac.symm⟩
    · rintro ⟨rfl, rfl⟩
      rw [if_pos rfl, cryptoChacha20Djb_cancel]

/-- A network key of zeros. -/
def plainKey : Bytes := List.replicate 32 0

/-- A host with Monocypher, the all-zero network key, a random source that always answers and a
socket that takes everything. -/
def Env.plain (time : ℤ) (nowMs : UInt64) : Env where
  aead := monocypher
  key := plainKey
  time := time
  nowMs := nowMs
  random k := some fun i => UInt8.ofNat (k + i)
  sendto _ := true
  jsonEvents := true

theorem Env.plain_randomWorks (time : ℤ) (nowMs : UInt64) : (Env.plain time nowMs).RandomWorks :=
  fun _ => Option.some_ne_none _

theorem Env.plain_sendWorks (time : ℤ) (nowMs : UInt64) : (Env.plain time nowMs).SendWorks :=
  fun _ => rfl

end Tund
