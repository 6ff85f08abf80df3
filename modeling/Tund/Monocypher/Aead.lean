import Tund.Monocypher.Poly1305
import Mathlib.Data.List.GetD

/-!
# The AEAD on words

`crypto_chacha20_djb` works through the text word by word with a counter in two words,
`lock_auth` gives the text to Poly1305 in parts, and `crypto_verify16` compares tags without
branches.  Put together, `crypto_aead_lock` and `crypto_aead_unlock` of the source are the
functions of `Tund.monocypher`, on which everything about the transport rests.

The functions have the names of the source, in the namespace `Words`; the rounds are
`Tund.chacha20Rounds`.
-/

namespace Tund

open Words

/-! ### Words and bytes -/

theorem le_succ (n v : ℕ) : Bytes.le (n + 1) v = UInt8.ofNat v :: Bytes.le n (v / 256) := by
  rw [Bytes.le, Bytes.be, List.reverse_append]
  rfl

/-- Numbers are combined bit by bit as their bytes are. -/
theorem le_xor (n x y : ℕ) :
    Bytes.le n (x ^^^ y) = List.zipWith (· ^^^ ·) (Bytes.le n x) (Bytes.le n y) := by
  induction n generalizing x y with
  | zero => rfl
  | succ n ih =>
    have hbyte : UInt8.ofNat (x ^^^ y) = UInt8.ofNat x ^^^ UInt8.ofNat y := by
      apply UInt8.toNat_inj.1
      rw [UInt8.toNat_xor, UInt8.toNat_ofNat', UInt8.toNat_ofNat', UInt8.toNat_ofNat']
      exact Nat.xor_mod_two_pow (n := 8)
    have hdiv : (x ^^^ y) / 256 = x / 256 ^^^ y / 256 := Nat.xor_div_two_pow (n := 8)
    rw [le_succ, le_succ, le_succ, List.zipWith_cons_cons, hdiv, ih, hbyte]

theorem memOfU32_xor {b : Bytes} (h : b.length = 4) (p : UInt32) :
    memOfU32 (p ^^^ u32OfMem b) = List.zipWith (· ^^^ ·) (memOfU32 p) b := by
  have hlt := Bytes.ofLe_lt b
  have hle := Bytes.le_ofLe b
  rw [h] at hlt hle
  have hword : (u32OfMem b).toNat = Bytes.ofLe b := UInt32.toNat_ofNat_of_lt' (by simpa using hlt)
  rw [memOfU32, UInt32.toNat_xor, le_xor, hword, hle]
  rfl

/-- Bytes in fours against words. -/
theorem flatMap_xor (words : List UInt32) {text : Bytes} (h : text.length = 4 * words.length) :
    ((List.range words.length).flatMap fun j =>
      memOfU32 (words.getD j 0 ^^^ load32Le text (4 * j))) =
    List.zipWith (· ^^^ ·) text (store32LeBuf words) := by
  induction words generalizing text with
  | nil =>
    rw [List.length_eq_zero_iff.1 (h.trans (Nat.mul_zero _))]
    rfl
  | cons w words ih =>
    have htake : (text.take 4).length = 4 := by
      rw [List.length_take, h, List.length_cons]
      omega
    have hdrop : (text.drop 4).length = 4 * words.length := by
      rw [List.length_drop, h, List.length_cons]
      omega
    have hrest : ∀ j, load32Le text (4 * (j + 1)) = load32Le (text.drop 4) (4 * j) := by
      intro j
      rw [load32Le, load32Le, Bytes.slice, Bytes.slice, List.drop_drop, Nat.mul_succ, Nat.add_comm]
    have hcomm : ∀ a b : Bytes, List.zipWith (· ^^^ ·) a b = List.zipWith (· ^^^ ·) b a := by
      intro a b
      rw [List.zipWith_comm]
      simp only [UInt8.xor_comm]
    rw [List.length_cons, List.range_succ_eq_map, List.flatMap_cons, List.flatMap_map]
    simp only [List.getD_cons_succ, List.getD_cons_zero, Nat.succ_eq_add_one, hrest]
    rw [ih hdrop]
    have hfirst : memOfU32 (w ^^^ load32Le text (4 * 0)) =
        List.zipWith (· ^^^ ·) (text.take 4) (memOfU32 w) := by
      rw [load32Le, Bytes.slice, Nat.mul_zero, List.drop_zero, memOfU32_xor htake, hcomm]
    have hstore : store32LeBuf (w :: words) = memOfU32 w ++ store32LeBuf words := rfl
    conv_rhs => rw [← List.take_append_drop 4 text, hstore,
      List.zipWith_append (by rw [htake, length_memOfU32])]
    rw [hfirst]

/-! ### `crypto_chacha20_djb` -/

namespace Words

/-- The words `pool[j] + input[j]`. -/
def keyWords (input : List UInt32) : List UInt32 :=
  let pool := chacha20Rounds input
  (List.range 16).map fun j => pool.getD j 0 + input.getD j 0

/-- `input[12]++; if (input[12] == 0) { input[13]++; }` -/
def nextInput (input : List UInt32) : List UInt32 :=
  let input := input.set 12 (input.getD 12 0 + 1)
  if input.getD 12 0 = 0 then input.set 13 (input.getD 13 0 + 1) else input

/-- One pass of the loop over whole blocks; a `plain_text` of NULL stands for zeros. -/
def djbBlock (plainText : Option Bytes) (input : List UInt32) : Bytes :=
  match plainText with
  | some text =>
    (List.range 16).flatMap fun j => memOfU32 ((keyWords input).getD j 0 ^^^ load32Le text (4 * j))
  | none => (List.range 16).flatMap fun j => memOfU32 ((keyWords input).getD j 0)

/-- The loop over whole blocks: what is written, and text and input behind it. -/
def djbBlocks : ℕ → Option Bytes → List UInt32 → Bytes × Option Bytes × List UInt32
  | 0, plainText, input => ([], plainText, input)
  | n + 1, plainText, input =>
    let rest := djbBlocks n (plainText.map (·.drop 64)) (nextInput input)
    (djbBlock plainText input ++ rest.1, rest.2)

/-- `zero` -/
def zero : Bytes := List.replicate 128 0

/-- The last, incomplete block. -/
def djbLast (textSize : ℕ) (plainText : Option Bytes) (input : List UInt32) : Bytes :=
  if 0 < textSize then
    let plainText := plainText.getD zero
    let tmp := store32LeBuf (keyWords input)
    (List.range textSize).map fun i => tmp.getD i 0 ^^^ plainText.getD i 0
  else []

/-- `crypto_chacha20_djb`: what it writes and the counter it returns. -/
def cryptoChacha20Djb (plainText : Option Bytes) (textSize : ℕ) (key nonce : Bytes)
    (ctr : UInt64) : Bytes × UInt64 :=
  let input := chacha20Constant ++ load32LeBuf key 8 ++
    [ctr.toUInt32, (ctr >>> 32).toUInt32] ++ load32LeBuf nonce 2
  let (cipherText, plainText, input) := djbBlocks (textSize / 64) plainText input
  let textSize := textSize % 64
  (cipherText ++ djbLast textSize plainText input,
    (input.getD 12 0).toUInt64 + ((input.getD 13 0).toUInt64 <<< 32) +
      if 0 < textSize then 1 else 0)

end Words

/-! ### The key stream -/

/-- The sixteen words that block `ctr` of the key stream is made from. -/
def djbInput (key nonce : Bytes) (ctr : UInt64) : List UInt32 :=
  chacha20Constant ++ load32LeBuf key 8 ++ [ctr.toUInt32, (ctr >>> 32).toUInt32] ++
    load32LeBuf nonce 2

theorem length_load32LeBuf (src : Bytes) (n : ℕ) : (load32LeBuf src n).length = n := by
  rw [load32LeBuf, List.length_map, List.length_range]

theorem length_djbInput (key nonce : Bytes) (ctr : UInt64) :
    (djbInput key nonce ctr).length = 16 := by
  simp only [djbInput, List.length_append, length_load32LeBuf]
  rfl

theorem length_quarterRoundAt (i j k l : ℕ) (t : List UInt32) :
    (quarterRoundAt i j k l t).length = t.length := by
  simp only [quarterRoundAt, List.length_set]

theorem length_chacha20Rounds (t : List UInt32) : (chacha20Rounds t).length = t.length := by
  have hround : ∀ t : List UInt32, (chacha20DoubleRound t).length = t.length := by
    intro t
    simp only [chacha20DoubleRound, length_quarterRoundAt]
  have hall : ∀ (n : ℕ) (t : List UInt32), (chacha20DoubleRound^[n] t).length = t.length := by
    intro n
    induction n with
    | zero => exact fun t => rfl
    | succ n ih =>
      intro t
      rw [Function.iterate_succ_apply, ih, hround]
  exact hall 10 t

theorem length_keyWords (input : List UInt32) : (keyWords input).length = 16 := by
  rw [keyWords, List.length_map, List.length_range]

/-- A list is its elements in order. -/
theorem map_range_getD {α : Type*} (l : List α) (d : α) :
    ((List.range l.length).map fun i => l.getD i d) = l := by
  refine List.ext_getElem (by simp) fun i h _ => ?_
  have hi : i < l.length := by simpa using h
  rw [List.getElem_map, List.getElem_range, List.getD_eq_getElem l d hi]

theorem keyWords_eq {input : List UInt32} (h : input.length = 16) :
    keyWords input = List.zipWith (· + ·) (chacha20Rounds input) input := by
  refine List.ext_getElem (by simp [length_keyWords, length_chacha20Rounds, h]) fun i hi _ => ?_
  rw [length_keyWords] at hi
  have hin : i < input.length := hi.trans_eq h.symm
  have hpool : i < (chacha20Rounds input).length :=
    hin.trans_eq (length_chacha20Rounds input).symm
  simp only [keyWords, List.getElem_map, List.getElem_range, List.getElem_zipWith,
    List.getD_eq_getElem _ _ hpool, List.getD_eq_getElem _ _ hin]

theorem store_keyWords (key nonce : Bytes) (ctr : UInt64) :
    store32LeBuf (keyWords (djbInput key nonce ctr)) = chacha20Block key nonce ctr := by
  rw [keyWords_eq (length_djbInput key nonce ctr)]
  rfl

theorem length_store32LeBuf (words : List UInt32) :
    (store32LeBuf words).length = 4 * words.length := by
  induction words with
  | nil => rfl
  | cons w words ih =>
    have hcons : store32LeBuf (w :: words) = memOfU32 w ++ store32LeBuf words := rfl
    rw [hcons, List.length_append, length_memOfU32, ih, List.length_cons]
    ring

theorem length_chacha20Block (key nonce : Bytes) (ctr : UInt64) :
    (chacha20Block key nonce ctr).length = 64 := by
  rw [← store_keyWords, length_store32LeBuf, length_keyWords]

/-- The counter in two words is the counter. -/
theorem nextInput_djbInput (key nonce : Bytes) (ctr : UInt64) :
    nextInput (djbInput key nonce ctr) = djbInput key nonce (ctr + 1) := by
  obtain ⟨front, hfront, hlen⟩ : ∃ front, front = chacha20Constant ++ load32LeBuf key 8 ∧
      front.length = 12 := by
    refine ⟨_, rfl, ?_⟩
    rw [List.length_append, length_load32LeBuf]
    rfl
  have hin : ∀ lo hi, front ++ [lo, hi] ++ load32LeBuf nonce 2 =
      front ++ lo :: hi :: load32LeBuf nonce 2 := by
    intro lo hi
    rw [List.append_assoc]
    rfl
  have hget : ∀ lo hi : UInt32, (front ++ lo :: hi :: load32LeBuf nonce 2).getD 12 0 = lo := by
    intro lo hi
    rw [List.getD_append_right _ _ _ _ hlen.le, hlen, Nat.sub_self, List.getD_cons_zero]
  have hget' : ∀ lo hi : UInt32, (front ++ lo :: hi :: load32LeBuf nonce 2).getD 13 0 = hi := by
    intro lo hi
    rw [List.getD_append_right _ _ _ _ (by omega), hlen, List.getD_cons_succ, List.getD_cons_zero]
  have hset : ∀ lo hi x : UInt32, (front ++ lo :: hi :: load32LeBuf nonce 2).set 12 x =
      front ++ x :: hi :: load32LeBuf nonce 2 := by
    intro lo hi x
    rw [List.set_append_right _ _ hlen.le, hlen, Nat.sub_self, List.set_cons_zero]
  have hset' : ∀ lo hi x : UInt32, (front ++ lo :: hi :: load32LeBuf nonce 2).set 13 x =
      front ++ lo :: x :: load32LeBuf nonce 2 := by
    intro lo hi x
    rw [List.set_append_right _ _ (by omega), hlen, List.set_cons_succ, List.set_cons_zero]
  have hlow : (ctr + 1).toUInt32 = ctr.toUInt32 + 1 := UInt64.toUInt32_add ctr 1
  -- the upper word moves on exactly when the lower one has wrapped
  have hhigh : ((ctr + 1) >>> 32).toUInt32 =
      if ctr.toUInt32 + 1 = 0 then (ctr >>> 32).toUInt32 + 1 else (ctr >>> 32).toUInt32 := by
    rw [← hlow]
    have hsucc := UInt64.toNat_add ctr 1
    have hone : (1 : UInt64).toNat = 1 := rfl
    have hlt := ctr.toNat_lt
    have hiff : (ctr + 1).toUInt32 = 0 ↔ (ctr + 1).toNat % 2 ^ 32 = 0 := by
      rw [← UInt32.toNat_inj, UInt64.toNat_toUInt32]
      rfl
    rw [hone] at hsucc
    apply UInt32.toNat_inj.1
    split_ifs with hzero
    · rw [hiff] at hzero
      rw [UInt32.toNat_add, UInt64.toNat_toUInt32, UInt64.toNat_toUInt32, toNat_high, toNat_high]
      have hone' : (1 : UInt32).toNat = 1 := rfl
      rw [hone']
      omega
    · rw [hiff] at hzero
      rw [UInt64.toNat_toUInt32, UInt64.toNat_toUInt32, toNat_high, toNat_high]
      omega
  rw [djbInput, djbInput, ← hfront, hin, hin, nextInput]
  simp only [hget, hget', hset, hset']
  rw [hhigh, hlow]
  split_ifs <;> rfl

theorem add_one_add_ofNat (ctr : UInt64) (n : ℕ) :
    ctr + 1 + UInt64.ofNat n = ctr + UInt64.ofNat (n + 1) := by
  rw [UInt64.ofNat_add, UInt64.add_assoc, UInt64.add_comm (UInt64.ofNat n)]
  rfl

theorem chacha20Stream_add (key nonce : Bytes) (ctr : UInt64) (n : ℕ) :
    chacha20Stream key nonce ctr (64 + n) =
      chacha20Block key nonce ctr ++ chacha20Stream key nonce (ctr + 1) n := by
  have hzero : ctr + UInt64.ofNat 0 = ctr := UInt64.add_zero ctr
  have hblocks : (64 + n) / 64 + 1 = n / 64 + 1 + 1 := by omega
  have hpad : ∀ a b : Bytes, a.length = 64 →
      Bytes.pad (64 + n) (a ++ b) = a ++ Bytes.pad n b := by
    intro a b ha
    have hzeros : List.replicate (64 + n) (0 : UInt8) =
        List.replicate n 0 ++ List.replicate 64 0 := by
      rw [Nat.add_comm, List.replicate_add]
    have hfits : n ≤ (b ++ List.replicate n 0).length := by
      rw [List.length_append, List.length_replicate]
      exact Nat.le_add_left _ _
    rw [Bytes.pad, Bytes.pad, hzeros, List.append_assoc, ← List.append_assoc b, ← ha,
      List.take_length_add_append, List.take_append_of_le_length hfits]
  rw [chacha20Stream, hblocks, List.range_succ_eq_map, List.flatMap_cons, List.flatMap_map, hzero,
    hpad _ _ (length_chacha20Block key nonce ctr)]
  simp only [← add_one_add_ofNat, Nat.succ_eq_add_one]
  rfl

/-- The stream ends in the middle of a block. -/
theorem chacha20Stream_lt (key nonce : Bytes) (ctr : UInt64) {n : ℕ} (h : n < 64) :
    chacha20Stream key nonce ctr n = (chacha20Block key nonce ctr).take n := by
  have hone : n / 64 + 1 = 1 := by omega
  have hzero : ctr + UInt64.ofNat 0 = ctr := UInt64.add_zero ctr
  have hfits : n ≤ (chacha20Block key nonce ctr).length := by
    rw [length_chacha20Block]
    exact h.le
  rw [chacha20Stream, hone, List.range_one, List.flatMap_singleton, hzero, Bytes.pad,
    List.take_append_of_le_length hfits]

/-! ### The loop over whole blocks -/

/-- A text under a key stream; without a text, the key stream itself. -/
def under (plainText : Option Bytes) (stream : Bytes) : Bytes :=
  match plainText with
  | some text => List.zipWith (· ^^^ ·) text stream
  | none => stream

theorem under_append {plainText : Option Bytes} {a : Bytes} (b : Bytes)
    (h : ∀ text ∈ plainText, a.length ≤ text.length) :
    under plainText (a ++ b) =
      under (plainText.map (·.take a.length)) a ++ under (plainText.map (·.drop a.length)) b := by
  cases plainText with
  | none => rfl
  | some text =>
    have hfits := h text rfl
    simp only [under, Option.map_some]
    conv_lhs => rw [← List.take_append_drop a.length text]
    exact List.zipWith_append (List.length_take_of_le hfits)

/-- What one pass writes. -/
theorem djbBlock_eq (key nonce : Bytes) (ctr : UInt64) {plainText : Option Bytes}
    (h : ∀ text ∈ plainText, 64 ≤ text.length) :
    djbBlock plainText (djbInput key nonce ctr) =
      under (plainText.map (·.take 64)) (chacha20Block key nonce ctr) := by
  have hwords := length_keyWords (djbInput key nonce ctr)
  have hall := map_range_getD (keyWords (djbInput key nonce ctr)) 0
  rw [hwords] at hall
  cases plainText with
  | none =>
    rw [← store_keyWords, djbBlock, Option.map_none, under, store32LeBuf]
    conv_rhs => rw [← hall, List.flatMap_map]
  | some text =>
    have htake : (text.take 64).length = 4 * (keyWords (djbInput key nonce ctr)).length := by
      rw [hwords, List.length_take_of_le (h text rfl)]
    have hload : ∀ j ∈ List.range 16, load32Le text (4 * j) = load32Le (text.take 64) (4 * j) := by
      intro j hj
      have hlt := List.mem_range.1 hj
      rw [load32Le_take (by omega)]
    rw [← store_keyWords, djbBlock, Option.map_some, under, ← flatMap_xor _ htake, hwords]
    exact List.flatMap_congr fun j hj => by rw [hload j hj]

theorem length_chacha20Stream (key nonce : Bytes) (ctr : UInt64) (n : ℕ) :
    (chacha20Stream key nonce ctr n).length = n := by
  rw [chacha20Stream, Bytes.length_pad]

/-- The loop has written the text under whole blocks of the key stream, and the counter has moved
on by as many. -/
theorem djbBlocks_eq (key nonce : Bytes) {n : ℕ} (ctr : UInt64) {plainText : Option Bytes}
    (h : ∀ text ∈ plainText, 64 * n ≤ text.length) :
    djbBlocks n plainText (djbInput key nonce ctr) =
      (under (plainText.map (·.take (64 * n))) (chacha20Stream key nonce ctr (64 * n)),
        plainText.map (·.drop (64 * n)), djbInput key nonce (ctr + UInt64.ofNat n)) := by
  induction n generalizing ctr plainText with
  | zero =>
    have hzero : ctr + UInt64.ofNat 0 = ctr := UInt64.add_zero ctr
    have hstream := List.length_eq_zero_iff.1 (length_chacha20Stream key nonce ctr 0)
    rw [djbBlocks, Nat.mul_zero, hstream, hzero]
    cases plainText <;> rfl
  | succ n ih =>
    have hsucc : 64 * (n + 1) = 64 + 64 * n := by ring
    have hone : ∀ text ∈ plainText, 64 ≤ text.length := fun text ht => by
      have := h text ht
      omega
    have hrest : ∀ text ∈ plainText.map (·.drop 64), 64 * n ≤ text.length := by
      intro text ht
      obtain ⟨whole, hwhole, rfl⟩ := Option.mem_map.1 ht
      have := h whole hwhole
      rw [List.length_drop]
      omega
    have hcut : ∀ text ∈ plainText.map (·.take (64 * (n + 1))),
        (chacha20Block key nonce ctr).length ≤ text.length := by
      intro text ht
      obtain ⟨whole, hwhole, rfl⟩ := Option.mem_map.1 ht
      have := h whole hwhole
      rw [length_chacha20Block, List.length_take]
      omega
    have htake : (plainText.map (·.take (64 * (n + 1)))).map (·.take 64) =
        plainText.map (·.take 64) := by
      cases plainText with
      | none => rfl
      | some text =>
        simp only [Option.map_some, List.take_take]
        congr 2
    have hdrop : (plainText.map (·.take (64 * (n + 1)))).map (·.drop 64) =
        (plainText.map (·.drop 64)).map (·.take (64 * n)) := by
      cases plainText with
      | none => rfl
      | some text =>
        simp only [Option.map_some, List.drop_take]
        congr 2
    rw [djbBlocks, nextInput_djbInput, ih _ hrest, djbBlock_eq _ _ _ hone, add_one_add_ofNat]
    refine Prod.ext ?_ (Prod.ext ?_ rfl)
    · rw [hsucc, chacha20Stream_add, ← hsucc, under_append _ hcut, length_chacha20Block, htake,
        hdrop]
    · cases plainText with
      | none => rfl
      | some text => simp only [Option.map_some, List.drop_drop, hsucc]

/-- The last block. -/
theorem djbLast_eq (key nonce : Bytes) {n : ℕ} (hn : n < 64) (ctr : UInt64)
    {plainText : Option Bytes} (h : ∀ text ∈ plainText, text.length = n) :
    djbLast n plainText (djbInput key nonce ctr) =
      under plainText (chacha20Stream key nonce ctr n) := by
  have hblock := length_chacha20Block key nonce ctr
  rw [djbLast, store_keyWords, chacha20Stream_lt _ _ _ hn]
  split_ifs with hpos
  · cases plainText with
    | none =>
      refine List.ext_getElem (by simp [under, hblock, hn.le]) fun i hi _ => ?_
      have hlt : i < n := by simpa using hi
      have hin : i < (chacha20Block key nonce ctr).length := by omega
      have hz : zero.getD i 0 = 0 := by
        rw [zero, List.getD_replicate _ (by omega)]
      rw [List.getElem_map, List.getElem_range, Option.getD_none, hz, UInt8.xor_zero,
        List.getD_eq_getElem _ _ hin]
      exact (List.getElem_take ..).symm
    | some text =>
      have htext := h text rfl
      refine List.ext_getElem (by simp [under, hblock, htext, hn.le]) fun i hi _ => ?_
      have hlt : i < n := by simpa using hi
      have hin : i < (chacha20Block key nonce ctr).length := by omega
      have hin' : i < text.length := by omega
      rw [List.getElem_map, List.getElem_range, Option.getD_some, List.getD_eq_getElem _ _ hin,
        List.getD_eq_getElem _ _ hin', UInt8.xor_comm]
      simp only [under, List.getElem_zipWith, List.getElem_take]
  · have hzero : n = 0 := by omega
    subst hzero
    cases plainText with
    | none => rfl
    | some text =>
      rw [List.length_eq_zero_iff.1 (h text rfl)]
      rfl

/-- The stream goes on where the whole blocks end. -/
theorem chacha20Stream_blocks (key nonce : Bytes) (n : ℕ) (ctr : UInt64) (m : ℕ) :
    chacha20Stream key nonce ctr (64 * n + m) = chacha20Stream key nonce ctr (64 * n) ++
      chacha20Stream key nonce (ctr + UInt64.ofNat n) m := by
  induction n generalizing ctr with
  | zero =>
    have hzero : ctr + UInt64.ofNat 0 = ctr := UInt64.add_zero ctr
    have hnil := List.length_eq_zero_iff.1 (length_chacha20Stream key nonce ctr 0)
    rw [Nat.mul_zero, Nat.zero_add, hnil, hzero, List.nil_append]
  | succ n ih =>
    have hsucc : 64 * (n + 1) = 64 + 64 * n := by ring
    rw [hsucc, Nat.add_assoc, chacha20Stream_add, ih, chacha20Stream_add, List.append_assoc,
      add_one_add_ofNat]

/-- The words of the counter. -/
theorem counter_djbInput (key nonce : Bytes) (ctr : UInt64) :
    ((djbInput key nonce ctr).getD 12 0).toUInt64 +
      (((djbInput key nonce ctr).getD 13 0).toUInt64 <<< 32) = ctr := by
  have hlen : (chacha20Constant ++ load32LeBuf key 8).length = 12 := by
    rw [List.length_append, length_load32LeBuf]
    rfl
  have hlow : (djbInput key nonce ctr).getD 12 0 = ctr.toUInt32 := by
    rw [djbInput, List.append_assoc, List.getD_append_right _ _ _ _ hlen.le, hlen]
    rfl
  have hhigh : (djbInput key nonce ctr).getD 13 0 = (ctr >>> 32).toUInt32 := by
    rw [djbInput, List.append_assoc, List.getD_append_right _ _ _ _ (by omega), hlen]
    rfl
  have hlt := ctr.toNat_lt
  have hshift : ((ctr.toNat / 2 ^ 32 % 2 ^ 32) <<< 32) = ctr.toNat / 2 ^ 32 % 2 ^ 32 * 2 ^ 32 :=
    Nat.shiftLeft_eq _ _
  have hcount : (32 : UInt64).toNat % 64 = 32 := rfl
  rw [hlow, hhigh, ← UInt64.toNat_inj, UInt64.toNat_add, UInt64.toNat_shiftLeft,
    UInt32.toNat_toUInt64, UInt32.toNat_toUInt64, UInt64.toNat_toUInt32, UInt64.toNat_toUInt32,
    toNat_high, hcount, hshift]
  omega

/-- `crypto_chacha20_djb` puts the text under the key stream and returns the counter of the first
block that it has not begun. -/
theorem words_cryptoChacha20Djb (key nonce : Bytes) (ctr : UInt64) {n : ℕ}
    {plainText : Option Bytes} (h : ∀ text ∈ plainText, text.length = n) :
    Words.cryptoChacha20Djb plainText n key nonce ctr =
      (under plainText (chacha20Stream key nonce ctr n), ctr + UInt64.ofNat ((n + 63) / 64)) := by
  have hle : 64 * (n / 64) ≤ n := Nat.mul_div_le n 64
  have hsum : 64 * (n / 64) + n % 64 = n := Nat.div_add_mod n 64
  have hwhole : ∀ text ∈ plainText, 64 * (n / 64) ≤ text.length := fun text ht =>
    hle.trans_eq (h text ht).symm
  have hlast : ∀ text ∈ plainText.map (·.drop (64 * (n / 64))), text.length = n % 64 := by
    intro text ht
    obtain ⟨whole, hmem, rfl⟩ := Option.mem_map.1 ht
    rw [List.length_drop, h whole hmem]
    omega
  have hstream := length_chacha20Stream key nonce ctr (64 * (n / 64))
  rw [Words.cryptoChacha20Djb]
  simp only
  rw [← djbInput, djbBlocks_eq _ _ _ hwhole]
  simp only
  rw [counter_djbInput, djbLast_eq _ _ (Nat.mod_lt n (by norm_num)) _ hlast]
  refine Prod.ext ?_ ?_
  · conv_rhs => rw [← hsum, chacha20Stream_blocks, under_append _ (by rwa [hstream])]
    rw [hstream]
  · split_ifs with hpos
    · have hcount : (n + 63) / 64 = n / 64 + 1 := by omega
      rw [hcount, UInt64.ofNat_add, ← UInt64.add_assoc]
      rfl
    · have hcount : (n + 63) / 64 = n / 64 := by omega
      rw [hcount, UInt64.add_zero]

/-! ### Tags -/

namespace Words

/-- `load64_le` at an offset. -/
def load64Le (s : Bytes) (off : ℕ) : UInt64 :=
  (load32Le s off).toUInt64 ||| ((load32Le s (off + 4)).toUInt64 <<< 32)

/-- `store64_le` -/
def store64Le (x : UInt64) : Bytes := memOfU32 x.toUInt32 ++ memOfU32 (x >>> 32).toUInt32

/-- `neq0` -/
def neq0 (diff : UInt64) : ℤ :=
  let half := (diff >>> 32) ||| diff.toUInt32.toUInt64
  let eq0 := (1 : UInt64) &&& ((half - 1) >>> 32)
  (eq0.toNat : ℤ) - 1

/-- `x16` -/
def x16 (a b : Bytes) : UInt64 :=
  (load64Le a 0 ^^^ load64Le b 0) ||| (load64Le a 8 ^^^ load64Le b 8)

/-- `crypto_verify16` -/
def cryptoVerify16 (a b : Bytes) : ℤ := neq0 (x16 a b)

/-- `lock_auth`; `c` is what the memory of the Poly1305 context holds before. -/
def lockAuth (c authKey ad cipherText : Bytes) : Bytes :=
  let sizes := store64Le (UInt64.ofNat ad.length) ++ store64Le (UInt64.ofNat cipherText.length)
  let polyCtx := cryptoPoly1305Init c authKey
  let polyCtx := cryptoPoly1305Update polyCtx ad
  let polyCtx := cryptoPoly1305Update polyCtx (zero.take (gap ad.length 16))
  let polyCtx := cryptoPoly1305Update polyCtx cipherText
  let polyCtx := cryptoPoly1305Update polyCtx (zero.take (gap cipherText.length 16))
  let polyCtx := cryptoPoly1305Update polyCtx sizes
  cryptoPoly1305Final polyCtx

end Words

theorem u64_or_eq_zero {x y : UInt64} : x ||| y = 0 ↔ x = 0 ∧ y = 0 := by
  simp only [← UInt64.toNat_inj, UInt64.toNat_or, UInt64.toNat_zero, Nat.or_eq_zero_iff]

/-- The comparison without branches. -/
theorem neq0_eq (diff : UInt64) : neq0 diff = if diff = 0 then 0 else -1 := by
  have hlt := diff.toNat_lt
  obtain ⟨half, hhalf⟩ : ∃ half, half = (diff >>> 32) ||| diff.toUInt32.toUInt64 := ⟨_, rfl⟩
  have hzero : half = 0 ↔ diff = 0 := by
    rw [hhalf, u64_or_eq_zero, ← UInt64.toNat_inj, ← UInt64.toNat_inj, ← UInt64.toNat_inj,
      toNat_high, UInt32.toNat_toUInt64, UInt64.toNat_toUInt32, UInt64.toNat_zero]
    omega
  have hsmall : half.toNat < 2 ^ 32 := by
    rw [hhalf, UInt64.toNat_or, toNat_high, UInt32.toNat_toUInt64, UInt64.toNat_toUInt32]
    exact Nat.or_lt_two_pow (Nat.div_lt_of_lt_mul hlt) (Nat.mod_lt _ (by norm_num))
  have hneq0 : neq0 diff = (((1 : UInt64) &&& ((half - 1) >>> 32)).toNat : ℤ) - 1 := by rw [neq0, hhalf]
  split_ifs with h
  · rw [hneq0, hzero.2 h]
    rfl
  · have hpos : 1 ≤ half.toNat := by
      have hne : half.toNat ≠ 0 := fun hh => h (hzero.1 (UInt64.toNat_inj.1 hh))
      omega
    have hle : (1 : UInt64) ≤ half := UInt64.le_iff_toNat_le.2 hpos
    have hshift : (half - 1) >>> 32 = 0 := by
      have hone : (1 : UInt64).toNat = 1 := rfl
      rw [← UInt64.toNat_inj, toNat_high, UInt64.toNat_sub_of_le _ _ hle, hone]
      exact Nat.div_eq_of_lt (by omega)
    rw [hneq0, hshift]
    rfl

theorem toNat_load64Le (s : Bytes) (off : ℕ) :
    (load64Le s off).toNat = (load32Le s off).toNat + 2 ^ 32 * (load32Le s (off + 4)).toNat := by
  have hlo := (load32Le s off).toNat_lt
  have hhi := (load32Le s (off + 4)).toNat_lt
  have hcount : (32 : UInt64).toNat % 64 = 32 := rfl
  rw [load64Le, UInt64.toNat_or, UInt64.toNat_shiftLeft, UInt32.toNat_toUInt64,
    UInt32.toNat_toUInt64, hcount, Nat.shiftLeft_eq, Nat.mod_eq_of_lt (by omega), Nat.or_comm,
    Nat.mul_comm, ← Nat.two_pow_add_eq_or_of_lt hlo, Nat.add_comm]

/-- `crypto_verify16` tells equal tags from different ones. -/
theorem cryptoVerify16_eq {a b : Bytes} (ha : a.length = 16) (hb : b.length = 16) :
    cryptoVerify16 a b = if a = b then 0 else -1 := by
  have hload : ∀ off, load64Le a off ^^^ load64Le b off = 0 ↔
      load32Le a off = load32Le b off ∧ load32Le a (off + 4) = load32Le b (off + 4) := by
    intro off
    have ha0 := (load32Le a off).toNat_lt
    have hb0 := (load32Le b off).toNat_lt
    rw [UInt64.xor_eq_zero_iff, ← UInt64.toNat_inj, toNat_load64Le, toNat_load64Le,
      ← UInt32.toNat_inj, ← UInt32.toNat_inj]
    omega
  have hiff : x16 a b = 0 ↔ a = b := by
    rw [x16, u64_or_eq_zero, hload, hload]
    constructor
    · rintro ⟨⟨h0, h1⟩, h2, h3⟩
      have hval : Bytes.ofLe a = Bytes.ofLe b := by
        rw [ofLe_words ha, ofLe_words hb, h0, h1, h2, h3]
      rw [← Bytes.le_ofLe a, ← Bytes.le_ofLe b, ha, hb, hval]
    · rintro rfl
      exact ⟨⟨rfl, rfl⟩, rfl, rfl⟩
  rw [cryptoVerify16, neq0_eq]
  simp only [hiff]

theorem cryptoVerify16_eq_zero {a b : Bytes} (ha : a.length = 16) (hb : b.length = 16) :
    cryptoVerify16 a b = 0 ↔ a = b := by
  rw [cryptoVerify16_eq ha hb]
  by_cases h : a = b
  · exact iff_of_true (if_pos h) h
  · rw [if_neg h]
    exact iff_of_false (by decide) h

theorem store64Le_eq (x : UInt64) : store64Le x = Bytes.le 8 x.toNat := by
  have hlt := x.toNat_lt
  have hlow : x.toUInt32.toNat = x.toNat % 2 ^ 32 := UInt64.toNat_toUInt32 x
  have hhigh : (x >>> 32).toUInt32.toNat = x.toNat / 2 ^ 32 := by
    rw [UInt64.toNat_toUInt32, toNat_high]
    exact Nat.mod_eq_of_lt (Nat.div_lt_of_lt_mul hlt)
  have hval : Bytes.ofLe (store64Le x) = x.toNat := by
    rw [store64Le, ofLe_append, ofLe_memOfU32, ofLe_memOfU32, length_memOfU32, hlow, hhigh]
    exact Nat.mod_add_div _ _
  have hlen : (store64Le x).length = 8 := by
    rw [store64Le, List.length_append, length_memOfU32, length_memOfU32]
  rw [← hval, ← hlen, Bytes.le_ofLe]

/-- `lock_auth` gives Poly1305 its text in five parts. -/
theorem words_lockAuth {c authKey : Bytes} (hc : c.length = 16) (hkey : 32 ≤ authKey.length)
    (ad cipherText : Bytes) :
    Words.lockAuth c authKey ad cipherText = Tund.lockAuth authKey ad cipherText := by
  have hpad : ∀ text : Bytes, text ++ zero.take (gap text.length 16) = padBlocks text := by
    intro text
    rw [gap_sixteen, padBlocks, zero, List.take_replicate, Nat.min_eq_left (by omega)]
  have hsize : ∀ n : ℕ, store64Le (UInt64.ofNat n) = Bytes.le 8 n := by
    intro n
    rw [store64Le_eq, UInt64.toNat_ofNat']
    exact le_mod 8 n
  have hinit : (cryptoPoly1305Init c authKey).Absorbed [] := absorbed_init hc
  obtain ⟨habs, hr, hp⟩ := hinit.parts [ad, zero.take (gap ad.length 16), cipherText,
    zero.take (gap cipherText.length 16), store64Le (UInt64.ofNat ad.length) ++
      store64Le (UInt64.ofNat cipherText.length)]
  have htag := habs.tag hkey hr hp
  simp only [List.foldl_cons, List.foldl_nil, List.flatten_cons, List.flatten_nil,
    List.append_nil, List.nil_append] at htag
  have hlen : ∀ text : Bytes, 16 ∣ (padBlocks text).length := by
    intro text
    rw [padBlocks, List.length_append, List.length_replicate]
    omega
  have hall : ad ++ (zero.take (gap ad.length 16) ++ (cipherText ++
      (zero.take (gap cipherText.length 16) ++ (Bytes.le 8 ad.length ++
        Bytes.le 8 cipherText.length)))) =
      padBlocks ad ++ padBlocks cipherText ++ Bytes.le 8 ad.length ++
        Bytes.le 8 cipherText.length := by
    rw [← hpad, ← hpad]
    simp only [List.append_assoc]
  have hdvd : 16 ∣ (padBlocks ad ++ padBlocks cipherText ++ Bytes.le 8 ad.length ++
      Bytes.le 8 cipherText.length).length := by
    have h1 := hlen ad
    have h2 := hlen cipherText
    simp only [List.length_append, Bytes.length_le]
    omega
  rw [Words.lockAuth, htag, hsize, hsize, hall, poly1305Mac_eq hdvd, Tund.lockAuth]

/-! ### The AEAD -/

/-- `crypto_aead_ctx` -/
structure CryptoAeadCtx where
  counter : UInt64
  key : Bytes
  nonce : Bytes

namespace Words

/-- `crypto_aead_init_x` -/
def cryptoAeadInitX (key nonce : Bytes) : CryptoAeadCtx where
  counter := 0
  key := cryptoChacha20H key (nonce.take 16)
  nonce := Bytes.slice nonce 16 8

/-- `crypto_aead_write`: cipher text, tag and the context with its next key. -/
def cryptoAeadWrite (c : Bytes) (ctx : CryptoAeadCtx) (ad plainText : Bytes) :
    Bytes × Bytes × CryptoAeadCtx :=
  let authKey := (cryptoChacha20Djb none 64 ctx.key ctx.nonce ctx.counter).1
  let cipherText := (cryptoChacha20Djb (some plainText) plainText.length ctx.key ctx.nonce
    (ctx.counter + 1)).1
  (cipherText, lockAuth c authKey ad cipherText, { ctx with key := authKey.drop 32 })

/-- `crypto_aead_read`: nothing is written when the tags differ. -/
def cryptoAeadRead (c : Bytes) (ctx : CryptoAeadCtx) (mac ad cipherText : Bytes) :
    Option Bytes × CryptoAeadCtx :=
  let authKey := (cryptoChacha20Djb none 64 ctx.key ctx.nonce ctx.counter).1
  let realMac := lockAuth c authKey ad cipherText
  let mismatch := cryptoVerify16 mac realMac
  if mismatch = 0 then
    (some (cryptoChacha20Djb (some cipherText) cipherText.length ctx.key ctx.nonce
      (ctx.counter + 1)).1, { ctx with key := authKey.drop 32 })
  else (none, ctx)

/-- `crypto_aead_lock` -/
def cryptoAeadLock (c key nonce ad plainText : Bytes) : Bytes × Bytes :=
  let (cipherText, mac, _) := cryptoAeadWrite c (cryptoAeadInitX key nonce) ad plainText
  (cipherText, mac)

/-- `crypto_aead_unlock` -/
def cryptoAeadUnlock (c key nonce ad cipherText mac : Bytes) : Option Bytes :=
  (cryptoAeadRead c (cryptoAeadInitX key nonce) mac ad cipherText).1

end Words

/-- A text under the key stream. -/
theorem djb_text (key nonce : Bytes) (ctr : UInt64) (text : Bytes) :
    (Words.cryptoChacha20Djb (some text) text.length key nonce ctr).1 =
      Tund.cryptoChacha20Djb text key nonce ctr := by
  have htext : ∀ t ∈ some text, t.length = text.length := by
    rintro t ⟨⟩
    rfl
  rw [words_cryptoChacha20Djb _ _ _ htext]
  rfl

/-- The key of the tag. -/
theorem djb_authKey (key nonce : Bytes) (ctr : UInt64) (n : ℕ) :
    (Words.cryptoChacha20Djb none n key nonce ctr).1 = chacha20Stream key nonce ctr n := by
  have hnone : ∀ t ∈ (none : Option Bytes), t.length = n := by
    rintro t ⟨⟩
  rw [words_cryptoChacha20Djb _ _ _ hnone]
  rfl

theorem lockAuth_stream {c : Bytes} (hc : c.length = 16) (key nonce : Bytes) (ctr : UInt64)
    (ad cipherText : Bytes) :
    Words.lockAuth c (chacha20Stream key nonce ctr 64) ad cipherText =
      Tund.lockAuth (chacha20Stream key nonce ctr 64) ad cipherText :=
  words_lockAuth hc (by rw [length_chacha20Stream]; norm_num) ad cipherText

/-- **Monocypher's AEAD.**  The word-wise functions of the source are the AEAD that the model of
the transport runs on, whatever the memory on their stack holds before. -/
theorem monocypher_on_words {c mac : Bytes} (hc : c.length = 16) (hmac : mac.length = 16)
    (key nonce ad text : Bytes) :
    Words.cryptoAeadLock c key nonce ad text = monocypher.lock key nonce ad text ∧
      Words.cryptoAeadUnlock c key nonce ad text mac = monocypher.unlock key nonce ad text mac := by
  have hiff := cryptoVerify16_eq_zero hmac (length_aeadTag key nonce ad text)
  have htag : Tund.lockAuth (chacha20Stream (cryptoChacha20H key (nonce.take 16))
      (Bytes.slice nonce 16 8) 0 64) ad text = aeadTag key nonce ad text := by
    rw [aeadTag, Tund.cryptoAeadInitX]
  have hlock : monocypher.lock = Tund.cryptoAeadLock := rfl
  have hunlock : monocypher.unlock = Tund.cryptoAeadUnlock := rfl
  constructor
  · rw [hlock, Tund.cryptoAeadLock, aeadTag]
    simp only [Words.cryptoAeadLock, Words.cryptoAeadWrite, Words.cryptoAeadInitX, djb_authKey,
      djb_text, lockAuth_stream hc, Tund.cryptoAeadInitX, UInt64.zero_add]
  · have hwords : Words.cryptoAeadUnlock c key nonce ad text mac =
        if cryptoVerify16 mac (aeadTag key nonce ad text) = 0 then
          some (Tund.cryptoChacha20Djb text (cryptoChacha20H key (nonce.take 16))
            (Bytes.slice nonce 16 8) 1)
        else none := by
      simp only [Words.cryptoAeadUnlock, Words.cryptoAeadRead, Words.cryptoAeadInitX, djb_authKey,
        djb_text, lockAuth_stream hc, UInt64.zero_add, apply_ite Prod.fst, htag]
    rw [hwords, hunlock, Tund.cryptoAeadUnlock]
    by_cases h : mac = aeadTag key nonce ad text
    · rw [if_pos (hiff.2 h), if_pos h]
      simp only [Tund.cryptoAeadInitX]
    · rw [if_neg fun heq => h (hiff.1 heq), if_neg h]

/-- A text of 114 bytes, which does not end with a block, and 12 bytes in the clear: the words lock
what the model locks, and open it again. -/
theorem monocypher_on_words_long :
    let c : Bytes := List.replicate 16 7
    let key : Bytes := (List.range' 128 32).map UInt8.ofNat
    let nonce : Bytes := (List.range' 64 24).map UInt8.ofNat
    let ad : Bytes := [80, 81, 82, 83, 192, 193, 194, 195, 196, 197, 198, 199]
    let text : Bytes := (List.range' 33 114).map UInt8.ofNat
    let locked := Words.cryptoAeadLock c key nonce ad text
    nonce.length = 24 ∧ 64 < text.length ∧
      locked = monocypher.lock key nonce ad text ∧
      Words.cryptoAeadUnlock c key nonce ad locked.1 locked.2 = some text := by
  intro c key nonce ad text locked
  have hc : c.length = 16 := rfl
  have hnonce : nonce.length = 24 := by decide
  have htext : 64 < text.length := by decide
  clear_value c key nonce ad text
  obtain ⟨hlock, -⟩ := monocypher_on_words hc hc key nonce ad text
  have hmac : (monocypher.lock key nonce ad text).2.length = 16 :=
    monocypher.length_mac key nonce ad text
  refine ⟨hnonce, htext, hlock, ?_⟩
  show Words.cryptoAeadUnlock c key nonce ad (Words.cryptoAeadLock c key nonce ad text).1
    (Words.cryptoAeadLock c key nonce ad text).2 = some text
  rw [hlock, (monocypher_on_words hc hmac key nonce ad _).2]
  exact (monocypher.unlock_eq_some_iff key nonce ad _ _ text).2 Prod.mk.eta.symm

end Tund
