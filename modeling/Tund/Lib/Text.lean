import Tund.Lib.Bytes

/-!
# UTF-16 strings, their UTF-8 form, and decimal numerals

A string is a list of UTF-16 code units.  `utf8 s` is its UTF-8 form; a surrogate
that is not part of a pair is written as the replacement character U+FFFD.

Two facts about the two units of length carry everything else: UTF-8 is never
shorter than UTF-16 (`length_le_utf8`), and a byte below 0x80 stands for the
code unit of the same value (`unit_mem_of_mem_utf8`), so that control characters
cannot appear in the encoding of a string that has none.
-/

/-- A string as its UTF-16 code units. -/
abbrev Utf16 := List UInt16

namespace Text

open Bytes

/-- The UTF-8 form of a code point. -/
def utf8Char (c : ℕ) : Bytes :=
  if c < 0x80 then [UInt8.ofNat c]
  else if c < 0x800 then [UInt8.ofNat (0xC0 + c / 64), UInt8.ofNat (0x80 + c % 64)]
  else if c < 0x10000 then
    [UInt8.ofNat (0xE0 + c / 4096), UInt8.ofNat (0x80 + c / 64 % 64), UInt8.ofNat (0x80 + c % 64)]
  else
    [UInt8.ofNat (0xF0 + c / 262144), UInt8.ofNat (0x80 + c / 4096 % 64),
      UInt8.ofNat (0x80 + c / 64 % 64), UInt8.ofNat (0x80 + c % 64)]

/-- The first half of a surrogate pair. -/
def isLead (u : UInt16) : Bool := 0xD800 ≤ u && u < 0xDC00

/-- The second half of a surrogate pair. -/
def isTrail (u : UInt16) : Bool := 0xDC00 ≤ u && u < 0xE000

/-- The code point of a surrogate pair. -/
def pairPoint (u v : UInt16) : ℕ := 0x10000 + (u.toNat - 0xD800) * 1024 + (v.toNat - 0xDC00)

/-- The code point a unit outside any pair stands for. -/
def unitPoint (u : UInt16) : ℕ := if isLead u || isTrail u then 0xFFFD else u.toNat

/-- The UTF-8 form of a string. -/
def utf8 : Utf16 → Bytes
  | [] => []
  | [u] => utf8Char (unitPoint u)
  | u :: v :: s =>
    if isLead u && isTrail v then utf8Char (pairPoint u v) ++ utf8 s
    else utf8Char (unitPoint u) ++ utf8 (v :: s)

/-- A string of ASCII characters, as its code units. -/
def units (s : String) : Utf16 := s.toList.map fun c => UInt16.ofNat c.toNat

/-- A string of ASCII characters, as its bytes. -/
def ascii (s : String) : Bytes := s.toList.map fun c => UInt8.ofNat c.toNat

/-! ### Length and bytes of the UTF-8 form -/

theorem one_le_length_utf8Char (c : ℕ) : 1 ≤ (utf8Char c).length := by
  unfold utf8Char
  split_ifs <;> simp

theorem two_le_length_utf8Char {c : ℕ} (h : 0x80 ≤ c) : 2 ≤ (utf8Char c).length := by
  unfold utf8Char
  split_ifs <;> simp
  omega

/-- Only the code points below 0x80 have a byte below 0x80 in their UTF-8 form. -/
theorem toNat_of_mem_utf8Char {c : ℕ} {b : UInt8} (hc : c < 0x110000) (hb : b < 0x80)
    (h : b ∈ utf8Char c) : b.toNat = c := by
  have hb' : b.toNat < 0x80 := hb
  unfold utf8Char at h
  split_ifs at h with h1 h2 h3
  · rw [List.mem_singleton] at h
    rw [h, UInt8.toNat_ofNat', Nat.mod_eq_of_lt (by omega)]
  all_goals
    simp only [List.mem_cons, List.not_mem_nil, or_false] at h
    rcases h with rfl | rfl | rfl | rfl <;> rw [UInt8.toNat_ofNat'] at hb' <;> omega

theorem isLead_iff {u : UInt16} : isLead u = true ↔ 0xD800 ≤ u.toNat ∧ u.toNat < 0xDC00 := by
  simp [isLead, UInt16.le_iff_toNat_le, UInt16.lt_iff_toNat_lt]

theorem isTrail_iff {u : UInt16} : isTrail u = true ↔ 0xDC00 ≤ u.toNat ∧ u.toNat < 0xE000 := by
  simp [isTrail, UInt16.le_iff_toNat_le, UInt16.lt_iff_toNat_lt]

theorem unitPoint_lt (u : UInt16) : unitPoint u < 0x110000 := by
  have hu : u.toNat < 65536 := u.toNat_lt
  unfold unitPoint
  split_ifs <;> omega

theorem pairPoint_bounds {u v : UInt16} (h : (isLead u && isTrail v) = true) :
    0x10000 ≤ pairPoint u v ∧ pairPoint u v < 0x110000 := by
  rw [Bool.and_eq_true, isLead_iff, isTrail_iff] at h
  unfold pairPoint
  omega

/-- A small code point comes from the unit of the same value, not from a surrogate. -/
theorem unitPoint_of_lt {u : UInt16} (h : unitPoint u < 0x80) : unitPoint u = u.toNat := by
  unfold unitPoint at h ⊢
  split_ifs at h ⊢
  · omega
  · rfl

theorem unitPoint_ascii {u : UInt16} (h : u.toNat < 0x80) : unitPoint u = u.toNat := by
  unfold unitPoint
  rw [if_neg]
  rw [Bool.or_eq_true, isLead_iff, isTrail_iff]
  omega

/-- UTF-8 has at least as many bytes as UTF-16 has units. -/
theorem length_le_utf8 (s : Utf16) : s.length ≤ (utf8 s).length := by
  induction s using utf8.induct with
  | case1 => simp
  | case2 u => simpa [utf8] using one_le_length_utf8Char (unitPoint u)
  | case3 u v s h ih =>
    have htwo := two_le_length_utf8Char (c := pairPoint u v) (by have := pairPoint_bounds h; omega)
    rw [utf8, if_pos h, List.length_append, List.length_cons, List.length_cons]
    omega
  | case4 u v s h ih =>
    have hone := one_le_length_utf8Char (unitPoint u)
    rw [utf8, if_neg h, List.length_append, List.length_cons]
    omega

@[simp] theorem utf8_eq_nil {s : Utf16} : utf8 s = [] ↔ s = [] := by
  constructor
  · intro h
    have hlen := length_le_utf8 s
    rw [h, List.length_nil, Nat.le_zero] at hlen
    exact List.eq_nil_of_length_eq_zero hlen
  · intro h
    subst h
    rfl

/-- A byte below 0x80 in the UTF-8 form is a unit of the string. -/
theorem unit_mem_of_mem_utf8 {s : Utf16} {b : UInt8} (hb : b < 0x80) (h : b ∈ utf8 s) :
    UInt16.ofNat b.toNat ∈ s := by
  -- a byte of one unit is that unit; a pair has no such byte
  have hunit : ∀ u : UInt16, b ∈ utf8Char (unitPoint u) → UInt16.ofNat b.toNat = u := by
    intro u hu
    have heq := toNat_of_mem_utf8Char (unitPoint_lt u) hb hu
    have hlt : unitPoint u < 0x80 := by rw [← heq]; exact hb
    rw [heq, unitPoint_of_lt hlt, UInt16.ofNat_toNat]
  induction s using utf8.induct with
  | case1 => exact absurd h (by simp [utf8])
  | case2 u =>
    rw [utf8] at h
    simpa using hunit u h
  | case3 u v s hp ih =>
    rw [utf8, if_pos hp, List.mem_append] at h
    rcases h with h | h
    · have heq := toNat_of_mem_utf8Char (pairPoint_bounds hp).2 hb h
      have hlow := (pairPoint_bounds hp).1
      have hb' : b.toNat < 0x80 := hb
      omega
    · exact List.mem_cons_of_mem _ (List.mem_cons_of_mem _ (ih h))
  | case4 u v s hp ih =>
    rw [utf8, if_neg hp, List.mem_append] at h
    rcases h with h | h
    · rw [hunit u h]
      exact List.mem_cons_self
    · exact List.mem_cons_of_mem _ (ih h)

/-- An ASCII string is its own UTF-8 form. -/
theorem utf8_of_ascii {s : Utf16} (h : ∀ u ∈ s, u.toNat < 0x80) :
    utf8 s = s.map fun u => UInt8.ofNat u.toNat := by
  have hunit : ∀ u ∈ s, utf8Char (unitPoint u) = [UInt8.ofNat u.toNat] := by
    intro u hu
    rw [unitPoint_ascii (h u hu), utf8Char, if_pos (h u hu)]
  induction s using utf8.induct with
  | case1 => rfl
  | case2 u => rw [utf8, hunit u (by simp)]; rfl
  | case3 u v s hp ih =>
    have hlead := isLead_iff.1 (Bool.and_eq_true _ _ ▸ hp).1
    have hu := h u (by simp)
    omega
  | case4 u v s hp ih =>
    rw [utf8, if_neg hp, hunit u (by simp), ih (fun x hx => h x (List.mem_cons_of_mem _ hx))
      (fun x hx => hunit x (List.mem_cons_of_mem _ hx))]
    rfl

/-! ### Decimal numerals -/

/-- The code of a decimal digit. -/
def isDigit (c : ℕ) : Bool := 0x30 ≤ c && c ≤ 0x39

/-- The number a row of digits stands for. -/
def decimal (l : List ℕ) : ℕ := l.foldl (fun v c => v * 10 + (c - 0x30)) 0

theorem isDigit_iff {c : ℕ} : isDigit c = true ↔ 0x30 ≤ c ∧ c ≤ 0x39 := by simp [isDigit]

theorem decimal_concat (l : List ℕ) (c : ℕ) :
    decimal (l ++ [c]) = decimal l * 10 + (c - 0x30) := by
  simp [decimal]

theorem decimal_lt {l : List ℕ} (h : ∀ c ∈ l, isDigit c = true) : decimal l < 10 ^ l.length := by
  induction l using List.reverseRecOn with
  | nil => simp [decimal]
  | append_singleton l c ih =>
    have hl := ih fun x hx => h x (List.mem_append_left _ hx)
    have hc := isDigit_iff.1 (h c (by simp))
    rw [decimal_concat, List.length_append, List.length_singleton, pow_succ]
    omega

/-- A number in decimal digits. -/
def numeral (n : ℕ) : Bytes := (Nat.toDigits 10 n).map fun c => UInt8.ofNat c.toNat

theorem isDigit_of_mem_numeral {n : ℕ} {b : UInt8} (h : b ∈ numeral n) : isDigit b.toNat = true := by
  obtain ⟨c, hc, rfl⟩ := List.mem_map.1 h
  have hdigit : 0x30 ≤ c.toNat ∧ c.toNat ≤ 0x39 :=
    Char.isDigit_iff_toNat.1 (Nat.isDigit_of_mem_toDigits (by decide) (by decide) hc)
  rw [isDigit_iff, UInt8.toNat_ofNat', Nat.mod_eq_of_lt (by omega)]
  exact hdigit

theorem length_numeral_le {n k : ℕ} (hk : 0 < k) (hn : n < 10 ^ k) : (numeral n).length ≤ k := by
  rw [numeral, List.length_map, Nat.length_toDigits_le_iff (by decide) hk]
  exact hn

/-- The numeral is read back. -/
theorem decimal_numeral (n : ℕ) : decimal ((numeral n).map UInt8.toNat) = n := by
  have hchar : ∀ d < 10, (UInt8.ofNat (Nat.digitChar d).toNat).toNat = d + 0x30 := by decide
  induction n using Nat.strong_induction_on with
  | _ n ih =>
    rw [numeral, Nat.toDigits_eq_if (by decide)]
    split_ifs with hn
    · simp [decimal, hchar n hn]
    · rw [List.map_append, List.map_append, List.map_singleton, List.map_singleton, decimal_concat]
      have hih := ih (n / 10) (by omega)
      rw [numeral] at hih
      rw [hih, hchar (n % 10) (by omega)]
      omega

theorem numeral_injective : Function.Injective numeral := by
  intro m n h
  rw [← decimal_numeral m, h, decimal_numeral]

end Text
