import Tund.Lib.Text
import Tund.Monocypher.Aead

/-!
# BLAKE2b in parts

`crypto_blake2b_keyed_init`, `crypto_blake2b_update` and `crypto_blake2b_final`: the context
collects a block of sixteen words and compresses it only when more bytes come, since the last
block is compressed differently.  `update` fills words by OR-ing bytes in, loads whole words,
and takes whole blocks past the rest.

`blake2b` is the hash of a whole text, block by block.  `Blake2bCtx.Absorbed` says which text
a context has taken in, with the last block held back, and `Absorbed.update` is the step.

The functions have the names of the source, in the namespace `Words`.
-/

namespace Tund

open Blocks Words

/-! ### Compression -/

/-- `iv` -/
def blake2bIv : List UInt64 :=
  [0x6a09e667f3bcc908, 0xbb67ae8584caa73b, 0x3c6ef372fe94f82b, 0xa54ff53a5f1d36f1,
    0x510e527fade682d1, 0x9b05688c2b3e6c1f, 0x1f83d9abfb41bd6b, 0x5be0cd19137e2179]

/-- `sigma` -/
def blake2bSigma : List (List ℕ) :=
  [[0, 1, 2, 3, 4, 5, 6, 7, 8, 9, 10, 11, 12, 13, 14, 15],
    [14, 10, 4, 8, 9, 15, 13, 6, 1, 12, 0, 2, 11, 7, 5, 3],
    [11, 8, 12, 0, 5, 2, 15, 13, 10, 14, 3, 6, 7, 1, 9, 4],
    [7, 9, 3, 1, 13, 12, 11, 14, 2, 6, 5, 10, 4, 0, 15, 8],
    [9, 0, 5, 7, 2, 4, 10, 15, 14, 1, 11, 12, 6, 8, 3, 13],
    [2, 12, 6, 10, 0, 11, 8, 3, 4, 13, 7, 5, 15, 14, 1, 9],
    [12, 5, 1, 15, 14, 13, 4, 10, 0, 7, 6, 3, 9, 2, 8, 11],
    [13, 11, 7, 14, 12, 1, 3, 9, 5, 0, 15, 4, 8, 6, 2, 10],
    [6, 15, 14, 9, 11, 3, 0, 8, 12, 2, 13, 7, 1, 4, 10, 5],
    [10, 2, 8, 4, 7, 6, 1, 5, 15, 11, 9, 14, 3, 12, 13, 0],
    [0, 1, 2, 3, 4, 5, 6, 7, 8, 9, 10, 11, 12, 13, 14, 15],
    [14, 10, 4, 8, 9, 15, 13, 6, 1, 12, 0, 2, 11, 7, 5, 3]]

/-- `rotr64` -/
def rotr64 (x n : UInt64) : UInt64 := x >>> n ^^^ x <<< (64 - n)

/-- `BLAKE2_G` on the words at `i`, `j`, `k`, `l` of the work vector. -/
def blake2G (i j k l : ℕ) (x y : UInt64) (v : List UInt64) : List UInt64 :=
  let a := v.getD i 0
  let b := v.getD j 0
  let c := v.getD k 0
  let d := v.getD l 0
  let a := a + b + x
  let d := rotr64 (d ^^^ a) 32
  let c := c + d
  let b := rotr64 (b ^^^ c) 24
  let a := a + b + y
  let d := rotr64 (d ^^^ a) 16
  let c := c + d
  let b := rotr64 (b ^^^ c) 63
  (((v.set i a).set j b).set k c).set l d

/-- `BLAKE2_ROUND` with a row of `sigma`. -/
def blake2Round (input v : List UInt64) (s : List ℕ) : List UInt64 :=
  let x i := input.getD (s.getD i 0) 0
  blake2G 3 4 9 14 (x 14) (x 15) <| blake2G 2 7 8 13 (x 12) (x 13) <|
  blake2G 1 6 11 12 (x 10) (x 11) <| blake2G 0 5 10 15 (x 8) (x 9) <|
  blake2G 3 7 11 15 (x 6) (x 7) <| blake2G 2 6 10 14 (x 4) (x 5) <|
  blake2G 1 5 9 13 (x 2) (x 3) <| blake2G 0 4 8 12 (x 0) (x 1) v

/-- What `blake2b_compress` makes of the hash, from the words of the block, the offset behind it
and whether it is the last one. -/
def blake2bMix (hash input : List UInt64) (x0 x1 : UInt64) (isLastBlock : Bool) : List UInt64 :=
  let iv i := blake2bIv.getD i 0
  let v := hash ++ [iv 0, iv 1, iv 2, iv 3, iv 4 ^^^ x0, iv 5 ^^^ x1,
    iv 6 ^^^ (if isLastBlock then ~~~0 else 0), iv 7]
  let v := blake2bSigma.foldl (blake2Round input) v
  (List.range 8).map fun i => hash.getD i 0 ^^^ (v.getD i 0 ^^^ v.getD (i + 8) 0)

/-! ### The functions of the source -/

/-- `crypto_blake2b_ctx` -/
structure Blake2bCtx where
  hash : List UInt64
  inputOffset : UInt64 × UInt64
  input : List UInt64
  inputIdx : ℕ
  hashSize : ℕ

namespace Words

/-- `load64_le_buf` into the words from `off` on. -/
def load64LeBuf (dst : List UInt64) (off : ℕ) (src : Bytes) (size : ℕ) : List UInt64 :=
  (List.range size).foldl (fun dst i => dst.set (off + i) (load64Le src (8 * i))) dst

/-- `blake2b_compress` -/
def blake2bCompress (ctx : Blake2bCtx) (isLastBlock : Bool) : Blake2bCtx :=
  let y := UInt64.ofNat ctx.inputIdx
  let x0 := ctx.inputOffset.1 + y
  let x1 := if x0 < y then ctx.inputOffset.2 + 1 else ctx.inputOffset.2
  { ctx with
    inputOffset := (x0, x1)
    hash := blake2bMix ctx.hash ctx.input x0 x1 isLastBlock }

/-- `crypto_blake2b_keyed_init`; an empty key stands for a key size of 0. -/
def cryptoBlake2bKeyedInit (hashSize : ℕ) (key : Bytes) : Blake2bCtx :=
  let ctx : Blake2bCtx :=
    { hash := blake2bIv.set 0 (blake2bIv.getD 0 0 ^^^
        ((0x01010000 : UInt64) ^^^ (UInt64.ofNat key.length <<< 8) ^^^ UInt64.ofNat hashSize))
      inputOffset := (0, 0)
      input := List.replicate 16 0
      inputIdx := 0
      hashSize := hashSize }
  if 0 < key.length then
    let keyBlock := Bytes.patch (List.replicate 128 0) 0 key
    { ctx with input := load64LeBuf ctx.input 0 keyBlock 16, inputIdx := 128 }
  else ctx

/-- `crypto_blake2b_init` -/
def cryptoBlake2bInit (hashSize : ℕ) : Blake2bCtx := cryptoBlake2bKeyedInit hashSize []

/-- `input[word] |= (u64)x << (byte << 3)` -/
def orByte (input : List UInt64) (word byte : ℕ) (x : UInt8) : List UInt64 :=
  input.set word (input.getD word 0 ||| x.toUInt64 <<< UInt64.ofNat (byte <<< 3))

/-- The part of `crypto_blake2b_update` that fills a word that has been begun. -/
def blake2bAlignWord (ctx : Blake2bCtx) (message : Bytes) : Blake2bCtx × Bytes :=
  if ctx.inputIdx &&& 7 ≠ 0 then
    let nbBytes := min (gap ctx.inputIdx 8) message.length
    let word := ctx.inputIdx >>> 3
    let byte := ctx.inputIdx &&& 7
    ({ ctx with
        input := (List.range nbBytes).foldl
          (fun input i => orByte input word (byte + i) (message.getD i 0)) ctx.input
        inputIdx := ctx.inputIdx + nbBytes },
      message.drop nbBytes)
  else (ctx, message)

/-- The part that fills a block that has been begun, in words. -/
def blake2bAlignBlock (ctx : Blake2bCtx) (message : Bytes) : Blake2bCtx × Bytes :=
  if ctx.inputIdx &&& 127 ≠ 0 then
    let nbWords := min (gap ctx.inputIdx 128) message.length >>> 3
    ({ ctx with
        input := load64LeBuf ctx.input (ctx.inputIdx >>> 3) message nbWords
        inputIdx := ctx.inputIdx + nbWords <<< 3 },
      message.drop (nbWords <<< 3))
  else (ctx, message)

/-- A pass of the loop over whole blocks. -/
def blake2bBlock (ctx : Blake2bCtx) (message : Bytes) : Blake2bCtx :=
  let ctx := if ctx.inputIdx = 128 then blake2bCompress ctx false else ctx
  { ctx with input := load64LeBuf ctx.input 0 message 16, inputIdx := 128 }

/-- The loop over whole blocks. -/
def blake2bBlocks (ctx : Blake2bCtx) (message : Bytes) : Blake2bCtx × Bytes :=
  let nbBlocks := message.length >>> 7
  ((List.range nbBlocks).foldl (fun ctx i => blake2bBlock ctx (message.drop (128 * i))) ctx,
    message.drop (128 * nbBlocks))

/-- The part that begins a block with what is left. -/
def blake2bRest (ctx : Blake2bCtx) (message : Bytes) : Blake2bCtx :=
  if message.length ≠ 0 then
    let ctx := if ctx.inputIdx = 128 then { blake2bCompress ctx false with inputIdx := 0 } else ctx
    let ctx := if ctx.inputIdx = 0 then { ctx with input := List.replicate 16 0 } else ctx
    let nbWords := message.length >>> 3
    let ctx := { ctx with
      input := load64LeBuf ctx.input 0 message nbWords
      inputIdx := ctx.inputIdx + nbWords <<< 3 }
    (message.drop (nbWords <<< 3)).foldl (fun ctx x =>
      { ctx with
        input := orByte ctx.input (ctx.inputIdx >>> 3) (ctx.inputIdx &&& 7) x
        inputIdx := ctx.inputIdx + 1 }) ctx
  else ctx

/-- `crypto_blake2b_update` -/
def cryptoBlake2bUpdate (ctx : Blake2bCtx) (message : Bytes) : Blake2bCtx :=
  if message.length = 0 then ctx
  else
    let word := blake2bAlignWord ctx message
    let block := blake2bAlignBlock word.1 word.2
    let blocks := blake2bBlocks block.1 block.2
    blake2bRest blocks.1 blocks.2

/-- `crypto_blake2b_final` -/
def cryptoBlake2bFinal (ctx : Blake2bCtx) : Bytes :=
  let ctx := blake2bCompress ctx true
  let hashSize := min ctx.hashSize 64
  let nbWords := hashSize >>> 3
  (ctx.hash.take nbWords).flatMap store64Le ++
    (List.range' (nbWords <<< 3) (hashSize - nbWords <<< 3)).map fun i =>
      ((ctx.hash.getD (i >>> 3) 0 >>> UInt64.ofNat (8 * (i &&& 7))) &&& 0xff).toUInt8

end Words

/-- `context` of `proto_key_from_passphrase` -/
def keyContext : Bytes := Text.ascii "TunD transport key v1"

def tundKeySize : ℕ := 32

/-- `proto_key_from_passphrase` -/
def protoKeyFromPassphrase (passphrase : Bytes) : Bytes :=
  let ctx := cryptoBlake2bInit tundKeySize
  let ctx := cryptoBlake2bUpdate ctx keyContext
  let ctx := cryptoBlake2bUpdate ctx (Bytes.cstr passphrase)
  cryptoBlake2bFinal ctx

/-! ### The hash of a whole text -/

/-- The words of a block. -/
def blockWords (block : Bytes) : List UInt64 :=
  (List.range 16).map fun j => load64Le block (8 * j)

/-- Compression of a block of a text; `t` is the length of the text up to its end. -/
def blake2bF (h : List UInt64) (block : Bytes) (t : ℕ) (last : Bool) : List UInt64 :=
  blake2bMix h (blockWords block) (UInt64.ofNat t) (UInt64.ofNat (t / 2 ^ 64)) last

/-- Compression of all blocks before the last one. -/
def blake2bFold (h : List UInt64) (blocks : List Bytes) : List UInt64 :=
  blocks.zipIdx.foldl (fun h b => blake2bF h b.1 (128 * (b.2 + 1)) false) h

/-- The text that a key stands for: a block of its own, if there is a key. -/
def keyText (key : Bytes) : Bytes := if key = [] then [] else Bytes.pad 128 key

/-- The hash before the first block. -/
def initialHash (hashSize : ℕ) (key : Bytes) : List UInt64 :=
  blake2bIv.set 0 (blake2bIv.getD 0 0 ^^^ (0x01010000 : UInt64) ^^^
    (UInt64.ofNat key.length <<< 8) ^^^ UInt64.ofNat hashSize)

/-- BLAKE2b of a message behind the key; the last block is filled up with zeros. -/
def blake2b (hashSize : ℕ) (key message : Bytes) : Bytes :=
  let text := keyText key ++ message
  let full := 128 * ((text.length - 1) / 128)
  let h := blake2bFold (initialHash hashSize key) (blocks 128 (text.take full))
  let h := blake2bF h (Bytes.pad 128 (text.drop full)) text.length true
  (h.flatMap store64Le).take hashSize

/-! ### Bits of words -/

theorem testBit_ofLe (b : Bytes) (i : ℕ) :
    (Bytes.ofLe b).testBit i = (b.getD (i / 8) 0).toNat.testBit (i % 8) := by
  induction b generalizing i with
  | nil => simp [Bytes.ofLe, Bytes.ofBe]
  | cons x b ih =>
    have hcons : Bytes.ofLe (x :: b) = 2 ^ 8 * Bytes.ofLe b + x.toNat := by
      rw [← List.singleton_append, ofLe_append, Nat.add_comm]
      congr 1
      simp [Bytes.ofLe, Bytes.ofBe]
    rw [hcons, Nat.testBit_two_pow_mul_add _ x.toNat_lt]
    split_ifs with hi
    · rw [Nat.div_eq_of_lt hi, Nat.mod_eq_of_lt hi, List.getD_cons_zero]
    · have hdiv : i / 8 = (i - 8) / 8 + 1 := by omega
      have hmod : i % 8 = (i - 8) % 8 := by omega
      rw [ih, hdiv, hmod, List.getD_cons_succ]

theorem getD_slice (b : Bytes) (off : ℕ) {n k : ℕ} (hk : k < n) :
    (Bytes.slice b off n).getD k 0 = b.getD (off + k) 0 := by
  simp only [Bytes.slice, List.getD_eq_getElem?_getD, List.getElem?_take, if_pos hk,
    List.getElem?_drop]

theorem toNat_load32Le' (b : Bytes) (off : ℕ) :
    (load32Le b off).toNat = Bytes.ofLe (Bytes.slice b off 4) := by
  have hlt := Bytes.ofLe_lt (Bytes.slice b off 4)
  have hlen : (Bytes.slice b off 4).length ≤ 4 := by simp [Bytes.slice]
  refine UInt32.toNat_ofNat_of_lt' (hlt.trans_le ?_)
  exact (Nat.pow_le_pow_right (by decide : 0 < 256) hlen).trans (by decide)

/-- The bits of a word are the bits of its bytes; what is behind the end counts as zero. -/
theorem testBit_load64Le (b : Bytes) (off : ℕ) {i : ℕ} (hi : i < 64) :
    (load64Le b off).toNat.testBit i = (b.getD (off + i / 8) 0).toNat.testBit (i % 8) := by
  rw [toNat_load64Le, Nat.add_comm, Nat.testBit_two_pow_mul_add _ (load32Le b off).toNat_lt,
    toNat_load32Le', toNat_load32Le', testBit_ofLe, testBit_ofLe]
  split_ifs with h
  · rw [getD_slice b off (by omega)]
  · have hoff : off + 4 + (i - 32) / 8 = off + i / 8 := by omega
    have hmod : (i - 32) % 8 = i % 8 := by omega
    rw [getD_slice b (off + 4) (by omega), hoff, hmod]

/-- The sixteen words hold the bytes, and zeros behind them. -/
structure WordsHold (words : List UInt64) (b : Bytes) : Prop where
  length : words.length = 16
  bits : ∀ j < 16, ∀ i < 64,
    (words.getD j 0).toNat.testBit i = (b.getD (8 * j + i / 8) 0).toNat.testBit (i % 8)

theorem wordsHold_nil : WordsHold (List.replicate 16 0) [] where
  length := List.length_replicate
  bits j hj i _ := by
    have hzero : (List.replicate 16 (0 : UInt64)).getD j 0 = 0 := by
      rw [List.getD_eq_getElem _ _ (by rw [List.length_replicate]; exact hj), List.getElem_replicate]
    rw [hzero]
    simp

theorem length_blockWords (b : Bytes) : (blockWords b).length = 16 := by
  rw [blockWords, List.length_map, List.length_range]

theorem getD_blockWords (b : Bytes) {j : ℕ} (hj : j < 16) :
    (blockWords b).getD j 0 = load64Le b (8 * j) := by
  rw [List.getD_eq_getElem _ _ (by rw [length_blockWords]; exact hj)]
  simp only [blockWords, List.getElem_map, List.getElem_range]

theorem WordsHold.eq_blockWords {words : List UInt64} {b : Bytes} (h : WordsHold words b) :
    words = blockWords b := by
  refine List.ext_getElem (h.length.trans (length_blockWords b).symm) fun j hj hj' => ?_
  have hlt : j < 16 := h.length ▸ hj
  rw [← List.getD_eq_getElem words 0 hj, ← List.getD_eq_getElem _ 0 hj', getD_blockWords b hlt]
  apply UInt64.toNat_inj.1
  apply Nat.eq_of_testBit_eq
  intro i
  by_cases hi : i < 64
  · rw [h.bits j hlt i hi, testBit_load64Le b _ hi]
  · have hbig : ∀ x : UInt64, x.toNat.testBit i = false := fun x =>
      Nat.testBit_lt_two_pow (x.toNat_lt.trans_le (Nat.pow_le_pow_right (by decide) (not_lt.1 hi)))
    rw [hbig, hbig]

theorem getD_pad (b : Bytes) {n p : ℕ} (hp : p < n) : (Bytes.pad n b).getD p 0 = b.getD p 0 := by
  simp only [Bytes.pad, List.getD_eq_getElem?_getD, List.getElem?_take, if_pos hp,
    List.getElem?_append, List.getElem?_replicate]
  split_ifs with h1 h2
  · rfl
  · rw [List.getElem?_eq_none (not_lt.1 h1)]
    rfl
  · rw [List.getElem?_eq_none (not_lt.1 h1)]

theorem blockWords_pad (b : Bytes) : blockWords (Bytes.pad 128 b) = blockWords b := by
  refine (WordsHold.eq_blockWords ⟨length_blockWords _, fun j hj i hi => ?_⟩)
  rw [getD_blockWords _ hj, testBit_load64Le _ _ hi, getD_pad b (by omega)]

/-! ### Writing into the words -/

theorem getD_append_one (b : Bytes) (x : UInt8) (p : ℕ) :
    (b ++ [x]).getD p 0 = if p = b.length then x else b.getD p 0 := by
  simp only [List.getD_eq_getElem?_getD, List.getElem?_append]
  split_ifs with h1 h2 h2
  · omega
  · rfl
  · rw [h2, Nat.sub_self]
    rfl
  · rw [List.getElem?_eq_none (by simp; omega), List.getElem?_eq_none (not_lt.1 h1)]

theorem getD_set (l : List UInt64) (j k : ℕ) (x : UInt64) (hk : k < l.length) :
    (l.set k x).getD j 0 = if j = k then x else l.getD j 0 := by
  simp only [List.getD_eq_getElem?_getD, List.getElem?_set, if_pos hk]
  split_ifs with h1 h2 h2
  · rfl
  · exact absurd h1.symm h2
  · exact absurd h2.symm h1
  · rfl

/-- One more byte. -/
theorem WordsHold.orByte {words : List UInt64} {b : Bytes} (h : WordsHold words b)
    (hb : b.length < 128) (x : UInt8) :
    WordsHold (Words.orByte words (b.length / 8) (b.length % 8) x) (b ++ [x]) := by
  have hword : b.length / 8 < words.length := by rw [h.length]; omega
  refine ⟨by rw [Words.orByte, List.length_set, h.length], fun j hj i hi => ?_⟩
  rw [Words.orByte, getD_set _ _ _ _ hword, getD_append_one]
  by_cases hjw : j = b.length / 8
  · have hshift : (x.toUInt64 <<< UInt64.ofNat ((b.length % 8) <<< 3)).toNat.testBit i =
        (decide (8 * (b.length % 8) ≤ i) && x.toNat.testBit (i - 8 * (b.length % 8))) := by
      have hs : (UInt64.ofNat ((b.length % 8) <<< 3)).toNat % 64 = 8 * (b.length % 8) := by
        rw [UInt64.toNat_ofNat', Nat.shiftLeft_eq]
        omega
      rw [UInt64.toNat_shiftLeft, hs, Nat.testBit_mod_two_pow, Nat.testBit_shiftLeft]
      simp [hi]
    have hold := h.bits j hj i hi
    rw [if_pos hjw, UInt64.toNat_or, Nat.testBit_or, hshift, ← hjw, hold]
    -- the bits of the new byte, those of the bytes before it, and those behind it
    rcases lt_trichotomy (i / 8) (b.length % 8) with hlt | heq | hgt
    · rw [if_neg (by omega), decide_eq_false (by omega)]
      simp
    · have hnone : b.getD (8 * j + i / 8) 0 = 0 := by
        rw [List.getD_eq_getElem?_getD, List.getElem?_eq_none (by omega)]
        rfl
      have hmod : i - 8 * (b.length % 8) = i % 8 := by omega
      rw [if_pos (by omega), hnone, decide_eq_true (by omega), hmod]
      simp
    · have hbyte : x.toNat.testBit (i - 8 * (b.length % 8)) = false :=
        Nat.testBit_lt_two_pow (x.toNat_lt.trans_le (Nat.pow_le_pow_right (by decide) (by omega)))
      rw [if_neg (by omega), hbyte]
      simp
  · rw [if_neg hjw, if_neg (by omega), h.bits j hj i hi]

theorem length_load64LeBuf (dst : List UInt64) (off : ℕ) (src : Bytes) (n : ℕ) :
    (load64LeBuf dst off src n).length = dst.length := by
  induction n with
  | zero => rfl
  | succ n ih =>
    rw [load64LeBuf, List.range_succ, List.foldl_append, List.foldl_cons, List.foldl_nil,
      List.length_set]
    exact ih

theorem getD_load64LeBuf (dst : List UInt64) (off : ℕ) (src : Bytes) {n : ℕ}
    (h : off + n ≤ dst.length) (j : ℕ) :
    (load64LeBuf dst off src n).getD j 0 =
      if off ≤ j ∧ j < off + n then load64Le src (8 * (j - off)) else dst.getD j 0 := by
  induction n with
  | zero => rw [if_neg (by omega)]; rfl
  | succ n ih =>
    have hlen := length_load64LeBuf dst off src n
    have hstep : load64LeBuf dst off src (n + 1) =
        (load64LeBuf dst off src n).set (off + n) (load64Le src (8 * n)) := by
      rw [load64LeBuf, List.range_succ, List.foldl_append]
      rfl
    rw [hstep, getD_set _ _ _ _ (by omega), ih (by omega)]
    by_cases hj : j = off + n
    · rw [if_pos hj, if_pos (by omega), hj, Nat.add_sub_cancel_left]
    · rw [if_neg hj]
      split_ifs with h1 h2 h2 <;> first | rfl | omega

/-- More words. -/
theorem WordsHold.load {words : List UInt64} {b m : Bytes} (h : WordsHold words b) {w n : ℕ}
    (hb : b.length = 8 * w) (hw : w + n ≤ 16) :
    WordsHold (load64LeBuf words w m n) (b ++ m.take (8 * n)) := by
  refine ⟨by rw [length_load64LeBuf, h.length], fun j hj i hi => ?_⟩
  rw [getD_load64LeBuf _ _ _ (by rw [h.length]; exact hw)]
  have hget : (b ++ m.take (8 * n)).getD (8 * j + i / 8) 0 =
      if w ≤ j ∧ j < w + n then m.getD (8 * (j - w) + i / 8) 0
      else b.getD (8 * j + i / 8) 0 := by
    simp only [List.getD_eq_getElem?_getD, List.getElem?_append, hb]
    by_cases hwj : w ≤ j
    · have hsub : 8 * j + i / 8 - 8 * w = 8 * (j - w) + i / 8 := by omega
      rw [if_neg (by omega), List.getElem?_take, hsub]
      by_cases hjn : j < w + n
      · rw [if_pos (by omega), if_pos ⟨hwj, hjn⟩]
      · rw [if_neg (by omega), if_neg (by omega), List.getElem?_eq_none (by omega)]
    · rw [if_pos (by omega), if_neg (by omega)]
  rw [hget]
  split_ifs
  · exact testBit_load64Le m _ hi
  · exact h.bits j hj i hi

/-- All words at once. -/
theorem wordsHold_block {words : List UInt64} (h : words.length = 16) (m : Bytes) :
    WordsHold (load64LeBuf words 0 m 16) (m.take 128) := by
  refine ⟨by rw [length_load64LeBuf, h], fun j hj i hi => ?_⟩
  have hget : (m.take 128).getD (8 * j + i / 8) 0 = m.getD (8 * j + i / 8) 0 := by
    simp only [List.getD_eq_getElem?_getD, List.getElem?_take]
    rw [if_pos (by omega)]
  rw [getD_load64LeBuf _ _ _ (by omega), if_pos (by omega), Nat.sub_zero, testBit_load64Le m _ hi,
    hget]

theorem and_seven (x : ℕ) : x &&& 7 = x % 8 := Nat.and_two_pow_sub_one_eq_mod x 3

theorem and_blockMask (x : ℕ) : x &&& 127 = x % 128 := Nat.and_two_pow_sub_one_eq_mod x 7

theorem shiftRight_three (x : ℕ) : x >>> 3 = x / 8 := Nat.shiftRight_eq_div_pow x 3

theorem shiftLeft_three (x : ℕ) : x <<< 3 = 8 * x := (Nat.shiftLeft_eq x 3).trans (Nat.mul_comm x 8)

/-- The loop over the bytes of a word that has been begun. -/
theorem WordsHold.orBytes {words : List UInt64} {b m : Bytes} (h : WordsHold words b) {n : ℕ}
    (hn : b.length % 8 + n ≤ 8) (hb : b.length < 128) (hm : n ≤ m.length) :
    WordsHold ((List.range n).foldl
      (fun input i => Words.orByte input (b.length / 8) (b.length % 8 + i) (m.getD i 0)) words)
      (b ++ m.take n) := by
  induction n with
  | zero => simpa using h
  | succ n ih =>
    have hprev := ih (by omega) (by omega)
    have hlen : (b ++ m.take n).length = b.length + n := by
      rw [List.length_append, List.length_take_of_le (by omega)]
    have htake : m.take (n + 1) = m.take n ++ [m.getD n 0] := by
      rw [List.take_add_one, List.getElem?_eq_getElem (by omega), List.getD_eq_getElem _ _ (by omega)]
      rfl
    have hnext := hprev.orByte (by rw [hlen]; omega) (m.getD n 0)
    have hdiv : (b ++ m.take n).length / 8 = b.length / 8 := by omega
    have hmod : (b ++ m.take n).length % 8 = b.length % 8 + n := by omega
    rw [hdiv, hmod] at hnext
    rw [List.range_succ, List.foldl_append, htake, ← List.append_assoc]
    exact hnext

/-! ### Contexts -/

/-- The context has compressed the blocks `done` of a text and holds the bytes `tail`. -/
structure Blake2bCtx.Holds (ctx : Blake2bCtx) (h0 : List UInt64) (done tail : Bytes) : Prop where
  hash : ctx.hash = blake2bFold h0 (blocks 128 done)
  offset : ctx.inputOffset = (UInt64.ofNat done.length, UInt64.ofNat (done.length / 2 ^ 64))
  idx : ctx.inputIdx = tail.length
  input : WordsHold ctx.input tail

/-- The context has taken in `b`. -/
def Blake2bCtx.Absorbed (ctx : Blake2bCtx) (h0 : List UInt64) (b : Bytes) : Prop :=
  ∃ done tail, HeldBack 128 b done tail ∧ ctx.Holds h0 done tail

variable {ctx : Blake2bCtx} {h0 : List UInt64} {b done tail : Bytes}

theorem blake2bFold_concat (h : List UInt64) (blocks : List Bytes) (block : Bytes) :
    blake2bFold h (blocks ++ [block]) =
      blake2bF (blake2bFold h blocks) block (128 * (blocks.length + 1)) false := by
  rw [blake2bFold, List.zipIdx_append, List.foldl_append, blake2bFold]
  simp

/-- The offset in two words. -/
theorem offset_add (n y : ℕ) (hy : y ≤ 128) :
    (UInt64.ofNat n + UInt64.ofNat y = UInt64.ofNat (n + y)) ∧
      (if UInt64.ofNat n + UInt64.ofNat y < UInt64.ofNat y then UInt64.ofNat (n / 2 ^ 64) + 1
        else UInt64.ofNat (n / 2 ^ 64)) = UInt64.ofNat ((n + y) / 2 ^ 64) := by
  have hsum : UInt64.ofNat n + UInt64.ofNat y = UInt64.ofNat (n + y) := (UInt64.ofNat_add n y).symm
  refine ⟨hsum, ?_⟩
  have hsize : UInt64.size = 2 ^ 64 := rfl
  rw [hsum]
  split_ifs with h <;> rw [UInt64.lt_iff_toNat_lt, UInt64.toNat_ofNat', UInt64.toNat_ofNat'] at h
  · have hdiv : (n + y) / 2 ^ 64 = n / 2 ^ 64 + 1 := by omega
    rw [hdiv, UInt64.ofNat_add]
    rfl
  · have hdiv : (n + y) / 2 ^ 64 = n / 2 ^ 64 := by omega
    rw [hdiv]

/-- Compression of what the context holds. -/
theorem Blake2bCtx.Holds.compress (h : ctx.Holds h0 done tail) (ht : tail.length ≤ 128)
    (last : Bool) :
    blake2bCompress ctx last =
      { ctx with
        inputOffset := (UInt64.ofNat (done.length + tail.length),
          UInt64.ofNat ((done.length + tail.length) / 2 ^ 64))
        hash := blake2bF (blake2bFold h0 (blocks 128 done)) tail (done.length + tail.length) last } := by
  obtain ⟨hlow, hhigh⟩ := offset_add done.length tail.length ht
  simp only [blake2bCompress, h.offset, h.idx, hhigh]
  simp only [hlow, blake2bF, h.hash, h.input.eq_blockWords]

/-- A complete block is compressed. -/
theorem Blake2bCtx.Holds.flush (h : ctx.Holds h0 done tail) (hdone : 128 ∣ done.length)
    (ht : tail.length = 128) :
    (blake2bCompress ctx false).hash = blake2bFold h0 (blocks 128 (done ++ tail)) ∧
      (blake2bCompress ctx false).inputOffset = (UInt64.ofNat (done ++ tail).length,
        UInt64.ofNat ((done ++ tail).length / 2 ^ 64)) := by
  have hone : blocks 128 tail = [tail] := by
    have hnil : blocks 128 ([] : Bytes) = [] := blocks_of_lt (by decide)
    have hcons := blocks_cons (by decide : 0 < 128) ht []
    rwa [List.append_nil, hnil] at hcons
  have hcount : (blocks 128 done).length = done.length / 128 := by
    rw [blocks, List.length_map, List.length_range]
  have hend : 128 * ((blocks 128 done).length + 1) = done.length + tail.length := by
    rw [hcount, ht, Nat.mul_succ, Nat.mul_div_cancel' hdone]
  rw [h.compress ht.le, blocks_append (by decide) hdone, hone, blake2bFold_concat, hend,
    List.length_append]
  exact ⟨rfl, rfl⟩

/-- The loop over single bytes. -/
theorem Blake2bCtx.Holds.bytes (h : ctx.Holds h0 done tail) {m : Bytes}
    (hm : tail.length + m.length ≤ 128) :
    (m.foldl (fun (ctx : Blake2bCtx) x =>
      { ctx with
        input := orByte ctx.input (ctx.inputIdx >>> 3) (ctx.inputIdx &&& 7) x
        inputIdx := ctx.inputIdx + 1 }) ctx).Holds h0 done (tail ++ m) := by
  induction m generalizing ctx tail with
  | nil => simpa using h
  | cons x m ih =>
    rw [List.length_cons] at hm
    have hnext : Blake2bCtx.Holds { ctx with
        input := orByte ctx.input (ctx.inputIdx >>> 3) (ctx.inputIdx &&& 7) x
        inputIdx := ctx.inputIdx + 1 } h0 done (tail ++ [x]) := by
      refine ⟨h.hash, h.offset, by simp [h.idx], ?_⟩
      simp only [h.idx, shiftRight_three, and_seven]
      exact h.input.orByte (by omega) x
    rw [List.foldl_cons, List.append_cons]
    exact ih hnext (by rw [List.length_append, List.length_singleton]; omega)

/-- Filling the word that has been begun. -/
theorem Blake2bCtx.Absorbed.alignWord (h : ctx.Absorbed h0 b) (m : Bytes) :
    ∃ k, (blake2bAlignWord ctx m).2 = m.drop k ∧
      (blake2bAlignWord ctx m).1.Absorbed h0 (b ++ m.take k) ∧
      ((blake2bAlignWord ctx m).1.inputIdx % 8 = 0 ∨ m.drop k = []) := by
  obtain ⟨done, tail, hcut, hh⟩ := h
  have hgap : gap ctx.inputIdx 8 = (8 - ctx.inputIdx % 8) % 8 := by
    have h : gap ctx.inputIdx 8 = _ := toNat_gap ctx.inputIdx (k := 3) (by decide)
    rw [h]
    omega
  have hidx := hh.idx
  have hle := hcut.le
  unfold blake2bAlignWord
  rw [and_seven]
  split_ifs with hzero
  · set k := min (gap ctx.inputIdx 8) m.length with hk
    have hkm : k ≤ m.length := Nat.min_le_right _ _
    have hkg : k ≤ 8 - tail.length % 8 := by rw [← hidx]; omega
    have hlen : (m.take k).length = k := List.length_take_of_le hkm
    refine ⟨k, rfl, ⟨done, tail ++ m.take k, hcut.fill (by rw [hlen]; omega), ?_⟩, ?_⟩
    · refine ⟨hh.hash, hh.offset, by simp only [hidx, List.length_append, hlen], ?_⟩
      simp only [hidx, shiftRight_three]
      exact hh.input.orBytes (by omega) (by omega) hkm
    · rcases Nat.le_total (gap ctx.inputIdx 8) m.length with hle' | hle'
      · left
        have : k = gap ctx.inputIdx 8 := Nat.min_eq_left hle'
        simp only
        omega
      · right
        rw [show k = m.length from Nat.min_eq_right hle', List.drop_length]
  · refine ⟨0, rfl, ⟨done, tail, by simpa using hcut, hh⟩, .inl ?_⟩
    simpa using hzero

/-- Filling the block that has been begun. -/
theorem Blake2bCtx.Absorbed.alignBlock (h : ctx.Absorbed h0 b) {m : Bytes}
    (hword : ctx.inputIdx % 8 = 0 ∨ m = []) :
    ∃ k, (blake2bAlignBlock ctx m).2 = m.drop k ∧
      (blake2bAlignBlock ctx m).1.Absorbed h0 (b ++ m.take k) ∧
      ((blake2bAlignBlock ctx m).1.inputIdx % 128 = 0 ∨ (m.drop k).length < 8 ∧
        (blake2bAlignBlock ctx m).1.inputIdx + (m.drop k).length ≤ 128) := by
  obtain ⟨done, tail, hcut, hh⟩ := h
  have hgap : gap ctx.inputIdx 128 = (128 - ctx.inputIdx % 128) % 128 := by
    have h : gap ctx.inputIdx 128 = _ := toNat_gap ctx.inputIdx (k := 7) (by decide)
    rw [h]
    omega
  have hidx := hh.idx
  have hle := hcut.le
  unfold blake2bAlignBlock
  rw [and_blockMask]
  split_ifs with hzero
  · set n := min (gap ctx.inputIdx 128) m.length >>> 3 with hn
    rw [shiftRight_three] at hn
    have hnm : 8 * n ≤ m.length := by omega
    have hlen : (m.take (8 * n)).length = 8 * n := List.length_take_of_le hnm
    have hdrop : (m.drop (8 * n)).length = m.length - 8 * n := List.length_drop
    simp only [shiftLeft_three, shiftRight_three]
    refine ⟨8 * n, rfl, ⟨done, tail ++ m.take (8 * n), hcut.fill (by rw [hlen]; omega), ?_⟩, ?_⟩
    · refine ⟨hh.hash, hh.offset, by simp only [hidx, List.length_append, hlen], ?_⟩
      rcases hword with hword | hnil
      · simp only [hidx]
        exact hh.input.load (by omega) (by omega)
      · have hn0 : n = 0 := by simp [hnil] at hnm; omega
        rw [hn0]
        simpa [load64LeBuf] using hh.input
    · rw [hdrop]
      rcases hword with hword | hnil
      · omega
      · rw [hnil] at hn ⊢
        simp only [List.length_nil] at hn ⊢
        omega
  · refine ⟨0, rfl, ⟨done, tail, by simpa using hcut, hh⟩, .inl ?_⟩
    simpa using hzero

/-- A whole block. -/
theorem Blake2bCtx.Absorbed.block (h : ctx.Absorbed h0 b) (hidx : ctx.inputIdx % 128 = 0) {m : Bytes}
    (hm : 128 ≤ m.length) :
    (blake2bBlock ctx m).Absorbed h0 (b ++ m.take 128) ∧ (blake2bBlock ctx m).inputIdx % 128 = 0 := by
  obtain ⟨done, tail, hcut, hh⟩ := h
  have hlen : (m.take 128).length = 128 := List.length_take_of_le hm
  have hne : m.take 128 ≠ [] := fun h => by rw [h] at hlen; cases hlen
  have hle := hcut.le
  refine ⟨?_, by simp only [blake2bBlock, Nat.mod_self]⟩
  by_cases hfull : ctx.inputIdx = 128
  · have hblock : blake2bBlock ctx m = { blake2bCompress ctx false with
        input := load64LeBuf ctx.input 0 m 16, inputIdx := 128 } := by
      rw [blake2bBlock, if_pos hfull]
      rfl
    rw [hh.idx] at hfull
    obtain ⟨hhash, hoffset⟩ := hh.flush hcut.dvd hfull
    rw [hblock]
    refine ⟨_, _, hcut.next hfull hlen.le hne, hhash, hoffset, hlen.symm, ?_⟩
    dsimp only
    exact wordsHold_block hh.input.length m
  · have hblock : blake2bBlock ctx m =
        { ctx with input := load64LeBuf ctx.input 0 m 16, inputIdx := 128 } := by
      rw [blake2bBlock, if_neg hfull]
    have hnil : tail = [] := List.length_eq_zero_iff.1 (by rw [hh.idx] at hidx hfull; omega)
    subst hnil
    rw [hblock]
    have hfits : ([] : Bytes).length + (m.take 128).length ≤ 128 := by
      rw [List.length_nil, Nat.zero_add]
      exact hlen.le
    refine ⟨_, _, hcut.fill hfits, hh.hash, hh.offset, hlen.symm, ?_⟩
    dsimp only
    exact wordsHold_block hh.input.length m

/-- All whole blocks. -/
theorem Blake2bCtx.Absorbed.blocks (h : ctx.Absorbed h0 b) {m : Bytes}
    (hidx : ctx.inputIdx % 128 = 0 ∨ m.length < 8 ∧ ctx.inputIdx + m.length ≤ 128) :
    ∃ k, (blake2bBlocks ctx m).2 = m.drop k ∧
      (blake2bBlocks ctx m).1.Absorbed h0 (b ++ m.take k) ∧ (m.drop k).length < 128 ∧
      ((blake2bBlocks ctx m).1.inputIdx % 128 = 0 ∨ (m.drop k).length < 8 ∧
        (blake2bBlocks ctx m).1.inputIdx + (m.drop k).length ≤ 128) := by
  have hcount : m.length >>> 7 = m.length / 128 := Nat.shiftRight_eq_div_pow m.length 7
  rcases hidx with hidx | ⟨hshort, hfits⟩
  · have hall : ∀ n, 128 * n ≤ m.length →
        ((List.range n).foldl (fun ctx i => blake2bBlock ctx (m.drop (128 * i))) ctx).Absorbed h0
          (b ++ m.take (128 * n)) ∧
        ((List.range n).foldl (fun ctx i => blake2bBlock ctx (m.drop (128 * i))) ctx).inputIdx % 128
          = 0 := by
      intro n
      induction n with
      | zero => exact fun _ => ⟨by simpa using h, hidx⟩
      | succ n ih =>
        intro hn
        obtain ⟨habs, hmod⟩ := ih (by omega)
        have hstep := habs.block hmod (m := m.drop (128 * n)) (by rw [List.length_drop]; omega)
        have htake : m.take (128 * (n + 1)) = m.take (128 * n) ++ (m.drop (128 * n)).take 128 := by
          rw [Nat.mul_succ, List.take_add]
        rw [List.range_succ, List.foldl_append, htake, ← List.append_assoc]
        exact hstep
    obtain ⟨habs, hmod⟩ := hall (m.length / 128) (Nat.mul_div_le _ _)
    refine ⟨128 * (m.length / 128), ?_, ?_, ?_, .inl ?_⟩
    · simp only [blake2bBlocks, hcount]
    · simpa only [blake2bBlocks, hcount] using habs
    · rw [List.length_drop]
      omega
    · simpa only [blake2bBlocks, hcount] using hmod
  · have hzero : m.length / 128 = 0 := by omega
    refine ⟨0, ?_, ?_, by rw [List.drop_zero]; omega, .inr ⟨by simpa using hshort, ?_⟩⟩
    · simp only [blake2bBlocks, hcount, hzero, Nat.mul_zero]
    · simpa [blake2bBlocks, hcount, hzero] using h
    · simpa [blake2bBlocks, hcount, hzero] using hfits

/-- What is left begins a block, or goes on with one. -/
theorem Blake2bCtx.Absorbed.rest (h : ctx.Absorbed h0 b) {m : Bytes} (hm : m.length < 128)
    (hidx : ctx.inputIdx % 128 = 0 ∨ m.length < 8 ∧ ctx.inputIdx + m.length ≤ 128) :
    (blake2bRest ctx m).Absorbed h0 (b ++ m) := by
  obtain ⟨done, tail, hcut, hh⟩ := h
  have hle := hcut.le
  -- the words of a block that is begun, and then its bytes
  have hbegin : ∀ {c : Blake2bCtx} {d : Bytes}, c.Holds h0 d [] →
      Blake2bCtx.Holds ((m.drop ((m.length >>> 3) <<< 3)).foldl (fun (ctx : Blake2bCtx) x =>
        { ctx with
          input := orByte ctx.input (ctx.inputIdx >>> 3) (ctx.inputIdx &&& 7) x
          inputIdx := ctx.inputIdx + 1 }) { c with
        input := load64LeBuf c.input 0 m (m.length >>> 3)
        inputIdx := c.inputIdx + (m.length >>> 3) <<< 3 }) h0 d m := by
    intro c d hc
    rw [shiftRight_three, shiftLeft_three]
    have hlen : (m.take (8 * (m.length / 8))).length = 8 * (m.length / 8) :=
      List.length_take_of_le (Nat.mul_div_le _ _)
    have hwords : Blake2bCtx.Holds { c with
        input := load64LeBuf c.input 0 m (m.length / 8)
        inputIdx := c.inputIdx + 8 * (m.length / 8) } h0 d ([] ++ m.take (8 * (m.length / 8))) :=
      ⟨hc.hash, hc.offset, by simp only [hc.idx, List.length_append, hlen],
        hc.input.load rfl (by omega)⟩
    have hbytes := hwords.bytes (m := m.drop (8 * (m.length / 8))) (by
      rw [List.nil_append, hlen, List.length_drop]
      omega)
    rwa [List.nil_append, List.take_append_drop] at hbytes
  unfold blake2bRest
  by_cases hne : m.length ≠ 0
  · have hm0 : m ≠ [] := fun h => hne (by rw [h, List.length_nil])
    rw [if_pos hne]
    by_cases hfull : ctx.inputIdx = 128
    · simp only [if_pos hfull]
      rw [hh.idx] at hfull
      obtain ⟨hhash, hoffset⟩ := hh.flush hcut.dvd hfull
      exact ⟨done ++ tail, m, hcut.next hfull hm.le hm0,
        hbegin ⟨hhash, hoffset, rfl, wordsHold_nil⟩⟩
    · simp only [if_neg hfull]
      by_cases hzero : ctx.inputIdx = 0
      · have hnil : tail = [] := List.length_eq_zero_iff.1 (hh.idx.symm.trans hzero)
        subst hnil
        simp only [if_pos hzero]
        exact ⟨done, [] ++ m, hcut.fill (by simpa using hm.le),
          hbegin (c := { ctx with input := List.replicate 16 0 })
            ⟨hh.hash, hh.offset, hh.idx, wordsHold_nil⟩⟩
      · -- a block that is neither empty nor full: fewer than eight bytes are left
        obtain ⟨hshort, hfits⟩ : m.length < 8 ∧ ctx.inputIdx + m.length ≤ 128 := by
          have := hh.idx
          omega
        have hwords : m.length >>> 3 = 0 := by
          rw [shiftRight_three]
          omega
        have hload : load64LeBuf ctx.input 0 m 0 = ctx.input := rfl
        simp only [if_neg hzero, hwords, hload]
        rw [hh.idx] at hfits
        exact ⟨done, tail ++ m, hcut.fill hfits, hh.bytes hfits⟩
  · have hnil : m = [] := List.length_eq_zero_iff.1 (not_not.1 hne)
    rw [if_neg hne, hnil, List.append_nil]
    exact ⟨done, tail, hcut, hh⟩

/-- A call of `crypto_blake2b_update`. -/
theorem Blake2bCtx.Absorbed.update (h : ctx.Absorbed h0 b) (m : Bytes) :
    (cryptoBlake2bUpdate ctx m).Absorbed h0 (b ++ m) := by
  rw [cryptoBlake2bUpdate]
  split_ifs with hm
  · rwa [List.length_eq_zero_iff.1 hm, List.append_nil]
  · obtain ⟨k₁, hrest₁, habs₁, hword⟩ := h.alignWord m
    rw [← hrest₁] at hword
    obtain ⟨k₂, hrest₂, habs₂, hblock⟩ := habs₁.alignBlock hword
    rw [← hrest₂] at hblock
    obtain ⟨k₃, hrest₃, habs₃, hshort, hlast⟩ := habs₂.blocks hblock
    rw [← hrest₃] at hshort hlast
    have hall := habs₃.rest hshort hlast
    -- the four pieces are the message
    set word := blake2bAlignWord ctx m
    set block := blake2bAlignBlock word.1 word.2
    have hm : b ++ m.take k₁ ++ word.2.take k₂ ++ block.2.take k₃ ++
        (blake2bBlocks block.1 block.2).2 = b ++ m := by
      rw [List.append_assoc, hrest₃, List.take_append_drop, List.append_assoc, hrest₂,
        List.take_append_drop, List.append_assoc, hrest₁, List.take_append_drop]
    rw [hm] at hall
    exact hall

/-! ### The size of the hash -/

theorem hashSize_blocks (ctx : Blake2bCtx) (m : Bytes) :
    (blake2bBlocks ctx m).1.hashSize = ctx.hashSize := by
  have hblock : ∀ (c : Blake2bCtx) (d : Bytes), (blake2bBlock c d).hashSize = c.hashSize := by
    intro c d
    simp only [blake2bBlock]
    split_ifs <;> rfl
  rw [blake2bBlocks]
  generalize m.length >>> 7 = n
  induction n with
  | zero => rfl
  | succ n ih =>
    rw [List.range_succ, List.foldl_append]
    exact (hblock _ _).trans ih

theorem hashSize_rest (ctx : Blake2bCtx) (m : Bytes) :
    (blake2bRest ctx m).hashSize = ctx.hashSize := by
  have hbytes : ∀ (d : Bytes) (c : Blake2bCtx), (d.foldl (fun (ctx : Blake2bCtx) x =>
      { ctx with
        input := orByte ctx.input (ctx.inputIdx >>> 3) (ctx.inputIdx &&& 7) x
        inputIdx := ctx.inputIdx + 1 }) c).hashSize = c.hashSize := by
    intro d
    induction d with
    | nil => exact fun _ => rfl
    | cons x d ih => exact fun c => ih _
  simp only [blake2bRest]
  split_ifs
  all_goals first | rfl | exact hbytes _ _

theorem hashSize_update (ctx : Blake2bCtx) (m : Bytes) :
    (cryptoBlake2bUpdate ctx m).hashSize = ctx.hashSize := by
  rw [cryptoBlake2bUpdate]
  split_ifs
  · rfl
  · have hword : (blake2bAlignWord ctx m).1.hashSize = ctx.hashSize := by
      rw [blake2bAlignWord]
      split_ifs <;> rfl
    have hblock : ∀ (c : Blake2bCtx) (d : Bytes),
        (blake2bAlignBlock c d).1.hashSize = c.hashSize := by
      intro c d
      rw [blake2bAlignBlock]
      split_ifs <;> rfl
    exact (hashSize_rest _ _).trans ((hashSize_blocks _ _).trans ((hblock _ _).trans hword))

/-! ### Beginning and end -/

theorem absorbed_keyedInit {key : Bytes} (hkey : key.length ≤ 128) (hashSize : ℕ) :
    (cryptoBlake2bKeyedInit hashSize key).Absorbed (initialHash hashSize key) (keyText key) := by
  have hhash : blake2bIv.set 0 (blake2bIv.getD 0 0 ^^^ ((0x01010000 : UInt64) ^^^
      (UInt64.ofNat key.length <<< 8) ^^^ UInt64.ofNat hashSize)) = initialHash hashSize key := by
    rw [initialHash, UInt64.xor_assoc, UInt64.xor_assoc, UInt64.xor_assoc]
  have hnone : blake2bFold (initialHash hashSize key) (blocks 128 []) = initialHash hashSize key := by
    rw [blocks_of_lt (by decide)]
    rfl
  have hcut := heldBack_nil (α := UInt8) 128
  rw [cryptoBlake2bKeyedInit, keyText]
  simp only [hhash]
  by_cases hnil : key = []
  · subst hnil
    rw [if_neg (by decide), if_pos rfl]
    exact ⟨[], [], hcut, hnone.symm, rfl, rfl, wordsHold_nil⟩
  · have hpad : Bytes.patch (List.replicate 128 0) 0 key = Bytes.pad 128 key := by
      rw [Bytes.patch_zero, Bytes.pad_eq hkey, List.drop_replicate]
    have hlen : (Bytes.pad 128 key).length = 128 := Bytes.length_pad 128 key
    have hwords : WordsHold (load64LeBuf (List.replicate 16 0) 0 (Bytes.pad 128 key) 16)
        (Bytes.pad 128 key) := by
      have hzero : (List.replicate 16 (0 : UInt64)).length = 16 := List.length_replicate
      have hblock := wordsHold_block hzero (Bytes.pad 128 key)
      rwa [List.take_of_length_le hlen.le] at hblock
    rw [if_pos (List.length_pos_of_ne_nil hnil), if_neg hnil, hpad]
    have hfits : ([] : Bytes).length + (Bytes.pad 128 key).length ≤ 128 := by
      rw [hlen, List.length_nil]
    exact ⟨[], [] ++ Bytes.pad 128 key, hcut.fill hfits, hnone.symm, rfl, hlen.symm, hwords⟩

theorem getElem_le {n v i : ℕ} (h : i < (Bytes.le n v).length) :
    (Bytes.le n v)[i] = UInt8.ofNat (v / 256 ^ i) := by
  induction n generalizing v i with
  | zero => cases h
  | succ n ih =>
    simp only [le_succ] at h ⊢
    cases i with
    | zero => rw [List.getElem_cons_zero, Nat.pow_zero, Nat.div_one]
    | succ i =>
      rw [List.length_cons] at h
      rw [List.getElem_cons_succ, ih (Nat.lt_of_succ_lt_succ h), Nat.div_div_eq_div_mul, Nat.pow_succ,
        Nat.mul_comm]

theorem length_flatMap_store64Le (l : List UInt64) : (l.flatMap store64Le).length = 8 * l.length := by
  induction l with
  | nil => rfl
  | cons x l ih =>
    rw [List.flatMap_cons, List.length_append, ih, store64Le_eq, Bytes.length_le, List.length_cons]
    omega

/-- A byte of a word. -/
theorem byte_of_word (x : UInt64) {j : ℕ} (hj : j < 8) :
    ((x >>> UInt64.ofNat (8 * j)) &&& 0xff).toUInt8 = UInt8.ofNat (x.toNat / 256 ^ j) := by
  have hshift : (UInt64.ofNat (8 * j)).toNat % 64 = 8 * j := by
    rw [UInt64.toNat_ofNat']
    omega
  apply UInt8.toNat_inj.1
  rw [UInt64.toNat_toUInt8, UInt64.toNat_and, UInt64.toNat_shiftRight, hshift,
    Nat.shiftRight_eq_div_pow, Nat.pow_mul, UInt8.toNat_ofNat']
  exact (Nat.mod_eq_of_lt (Nat.and_lt_two_pow _ (by decide : 255 < 2 ^ 8))).trans
    (Nat.and_two_pow_sub_one_eq_mod _ 8)

/-- The bytes of the hash, by words and then by bytes. -/
theorem final_bytes {hash : List UInt64} (hlen : hash.length = 8) {size : ℕ} (hsize : size ≤ 64) :
    (hash.take (size >>> 3)).flatMap store64Le ++
      (List.range' ((size >>> 3) <<< 3) (size - (size >>> 3) <<< 3)).map (fun i =>
        ((hash.getD (i >>> 3) 0 >>> UInt64.ofNat (8 * (i &&& 7))) &&& 0xff).toUInt8) =
      (hash.flatMap store64Le).take size := by
  rw [shiftLeft_three, shiftRight_three]
  set n := size / 8 with hn
  have hwords : ((hash.take n).flatMap store64Le).length = 8 * n := by
    rw [length_flatMap_store64Le, List.length_take_of_le (by omega)]
  have hsplit : hash.flatMap store64Le =
      (hash.take n).flatMap store64Le ++ (hash.drop n).flatMap store64Le := by
    rw [← List.flatMap_append, List.take_append_drop]
  have hcut : (hash.flatMap store64Le).take size = (hash.take n).flatMap store64Le ++
      ((hash.drop n).flatMap store64Le).take (size - 8 * n) := by
    rw [hsplit, List.take_append, hwords, List.take_of_length_le (by omega)]
  rw [hcut]
  congr 1
  -- the word that is not stored as a whole
  by_cases hrest : size - 8 * n = 0
  · rw [hrest]
    rfl
  · have hlt : n < hash.length := by omega
    have hbytes : store64Le hash[n] = Bytes.le 8 hash[n].toNat := store64Le_eq _
    rw [List.drop_eq_getElem_cons hlt, List.flatMap_cons, hbytes,
      List.take_append_of_le_length (by rw [Bytes.length_le]; omega)]
    refine List.ext_getElem ?_ fun j hj _ => ?_
    · rw [List.length_map, List.length_range', List.length_take_of_le]
      rw [Bytes.length_le]
      omega
    · rw [List.length_map, List.length_range'] at hj
      have hword : (8 * n + 1 * j) >>> 3 = n := by
        rw [shiftRight_three]
        omega
      have hbyte : (8 * n + 1 * j) &&& 7 = j := by
        rw [and_seven]
        omega
      rw [List.getElem_map, List.getElem_range', hword, hbyte, List.getElem_take, getElem_le,
        List.getD_eq_getElem _ _ hlt, byte_of_word _ (by omega)]

/-- What `crypto_blake2b_final` makes of a text. -/
theorem Blake2bCtx.Absorbed.final {hashSize : ℕ} {key m : Bytes}
    (h : ctx.Absorbed (initialHash hashSize key) (keyText key ++ m))
    (hsize : ctx.hashSize = hashSize) :
    cryptoBlake2bFinal ctx = blake2b hashSize key m := by
  obtain ⟨done, tail, hcut, hh⟩ := h
  have hfull := hcut.length_done (by decide : 0 < 128)
  have hdone : (keyText key ++ m).take done.length = done := by
    rw [hcut.eq, List.take_left]
  have htail : (keyText key ++ m).drop done.length = tail := by
    rw [hcut.eq, List.drop_left]
  have hlen : (keyText key ++ m).length = done.length + tail.length := by
    rw [hcut.eq, List.length_append]
  set hash := blake2bF (blake2bFold (initialHash hashSize key) (Blocks.blocks 128 done)) tail
    (done.length + tail.length) true with hhash
  have hlast : blake2b hashSize key m = (hash.flatMap store64Le).take hashSize := by
    simp only [blake2b, hfull, hdone, htail]
    rw [hhash, hlen, blake2bF, blake2bF, blockWords_pad]
  have hwords : hash.length = 8 := by
    rw [hhash, blake2bF, blake2bMix, List.length_map, List.length_range]
  have hall : (hash.flatMap store64Le).length ≤ 64 := by
    rw [length_flatMap_store64Le, hwords]
  have hmin : (hash.flatMap store64Le).take (min hashSize 64) =
      (hash.flatMap store64Le).take hashSize := by
    rw [← List.take_take, List.take_of_length_le hall]
  rw [hlast, ← hmin, ← final_bytes hwords (Nat.min_le_right _ _), cryptoBlake2bFinal,
    hh.compress hcut.le true]
  simp only [hsize, hhash]

/-- Any number of calls. -/
theorem Blake2bCtx.Absorbed.parts (h : ctx.Absorbed h0 b) (parts : List Bytes) :
    (parts.foldl cryptoBlake2bUpdate ctx).Absorbed h0 (b ++ parts.flatten) ∧
      (parts.foldl cryptoBlake2bUpdate ctx).hashSize = ctx.hashSize := by
  induction parts generalizing ctx b with
  | nil => exact ⟨by simpa using h, rfl⟩
  | cons m parts ih =>
    obtain ⟨habs, hsize⟩ := ih (h.update m)
    rw [List.flatten_cons, ← List.append_assoc]
    exact ⟨habs, hsize.trans (hashSize_update ctx m)⟩

theorem hashSize_keyedInit (hashSize : ℕ) (key : Bytes) :
    (cryptoBlake2bKeyedInit hashSize key).hashSize = hashSize := by
  simp only [cryptoBlake2bKeyedInit]
  split_ifs <;> rfl

theorem final_parts {key : Bytes} (hkey : key.length ≤ 128) (hashSize : ℕ) (parts : List Bytes) :
    cryptoBlake2bFinal (parts.foldl cryptoBlake2bUpdate (cryptoBlake2bKeyedInit hashSize key)) =
      blake2b hashSize key parts.flatten := by
  obtain ⟨habs, hsize⟩ := (absorbed_keyedInit hkey hashSize).parts parts
  exact habs.final (hsize.trans (hashSize_keyedInit hashSize key))

theorem length_blake2b {hashSize : ℕ} (h : hashSize ≤ 64) (key message : Bytes) :
    (blake2b hashSize key message).length = hashSize := by
  rw [blake2b, List.length_take_of_le]
  rw [length_flatMap_store64Le, blake2bF, blake2bMix, List.length_map, List.length_range]
  exact h

/-- **BLAKE2b in parts.**  However a message is cut into calls of `crypto_blake2b_update`, the hash
is that of the key's block and the whole message.  So the transport key is the hash of the context
string and the passphrase up to its first NUL, and fills `TUND_KEY_SIZE` bytes. -/
theorem blake2b_in_parts {key : Bytes} (hkey : key.length ≤ 128) (hashSize : ℕ)
    (parts : List Bytes) (passphrase : Bytes) :
    cryptoBlake2bFinal (parts.foldl cryptoBlake2bUpdate (cryptoBlake2bKeyedInit hashSize key)) =
        blake2b hashSize key parts.flatten ∧
      protoKeyFromPassphrase passphrase =
        blake2b tundKeySize [] (keyContext ++ Bytes.cstr passphrase) ∧
      (protoKeyFromPassphrase passphrase).length = tundKeySize := by
  have hpass : protoKeyFromPassphrase passphrase =
      blake2b tundKeySize [] (keyContext ++ Bytes.cstr passphrase) := by
    have hnone : ([] : Bytes).length ≤ 128 := Nat.zero_le 128
    have h := final_parts hnone tundKeySize [keyContext, Bytes.cstr passphrase]
    rwa [List.flatten_cons, List.flatten_cons, List.flatten_nil, List.append_nil] at h
  refine ⟨final_parts hkey hashSize parts, hpass, ?_⟩
  rw [hpass]
  exact length_blake2b (by decide) [] _

/-- A keyed hash of a text in two calls. -/
theorem blake2b_in_parts_two :
    cryptoBlake2bFinal ([[1, 2, 3], [4]].foldl cryptoBlake2bUpdate (cryptoBlake2bKeyedInit 20 [7])) =
        blake2b 20 [7] [1, 2, 3, 4] ∧
      protoKeyFromPassphrase [65, 0, 66] = blake2b tundKeySize [] (keyContext ++ [65]) ∧
      (protoKeyFromPassphrase [65, 0, 66]).length = tundKeySize :=
  blake2b_in_parts (by decide) 20 [[1, 2, 3], [4]] [65, 0, 66]

end Tund
