import Tund.Lib.Text

/-!
# JSON texts

`decode` is the grammar of RFC 8259 as a function on bytes.  Bytes from 0x80 on are not
looked at: they may stand in a string and stand for themselves there.  The decoded form
of a string is again a list of bytes; an escape `\\uXXXX` becomes the UTF-8 form of what
it names, and two escapes that form a surrogate pair become one character.

`Reads text s` says that `text`, the part of a string behind its opening quote, is read
as `s` whatever follows.  `decode_strings` is the rule for objects whose values are all
strings.
-/

namespace Json

open Text

/-- A JSON value; a number is kept as it is written. -/
inductive Value
  | null
  | bool (b : Bool)
  | number (text : Bytes)
  | string (s : Bytes)
  | array (elements : List Value)
  | object (members : List (Bytes × Value))

/-! ### Strings -/

/-- The value of a hexadecimal digit. -/
def hexDigit (c : UInt8) : Option ℕ :=
  if 48 ≤ c ∧ c ≤ 57 then some (c.toNat - 48)
  else if 65 ≤ c ∧ c ≤ 70 then some (c.toNat - 55)
  else if 97 ≤ c ∧ c ≤ 102 then some (c.toNat - 87)
  else none

/-- The code unit of four hexadecimal digits. -/
def hex4 (a b c d : UInt8) : Option UInt16 :=
  match hexDigit a, hexDigit b, hexDigit c, hexDigit d with
  | some a, some b, some c, some d => some (UInt16.ofNat (((a * 16 + b) * 16 + c) * 16 + d))
  | _, _, _, _ => none

/-- The character of an escape with one letter. -/
def letterEscape : UInt8 → Option UInt8
  | 34 => some 34
  | 92 => some 92
  | 47 => some 47
  | 98 => some 8
  | 102 => some 12
  | 110 => some 10
  | 114 => some 13
  | 116 => some 9
  | _ => none

/-- A byte of a string, or the code unit of an escape. -/
inductive Piece
  | byte (b : UInt8)
  | unit (u : UInt16)

/-- The pieces of a string behind its opening quote, and what follows the closing one. -/
def pieces : Bytes → Option (List Piece × Bytes)
  | [] => none
  | 34 :: rest => some ([], rest)
  | 92 :: 117 :: a :: b :: c :: d :: rest =>
    match hex4 a b c d, pieces rest with
    | some u, some (ps, rest) => some (.unit u :: ps, rest)
    | _, _ => none
  | 92 :: c :: rest =>
    match letterEscape c, pieces rest with
    | some b, some (ps, rest) => some (.byte b :: ps, rest)
    | _, _ => none
  | c :: rest =>
    if c < 0x20 then none
    else
      match pieces rest with
      | some (ps, rest) => some (.byte c :: ps, rest)
      | none => none

/-- The text of a string. -/
def text : List Piece → Bytes
  | [] => []
  | .byte b :: ps => b :: text ps
  | .unit u :: .unit v :: ps =>
    if isLead u && isTrail v then utf8Char (pairPoint u v) ++ text ps
    else utf8Char u.toNat ++ text (.unit v :: ps)
  | .unit u :: ps => utf8Char u.toNat ++ text ps

/-! ### Values -/

/-- White space. -/
def isWs (c : UInt8) : Bool := c == 32 || c == 9 || c == 10 || c == 13

/-- The text behind white space. -/
def skipWs (input : Bytes) : Bytes := input.dropWhile isWs

/-- A run of digits that is not empty. -/
def digits (input : Bytes) : Option (Bytes × Bytes) :=
  let run := input.takeWhile fun c => isDigit c.toNat
  if run = [] then none else some (run, input.drop run.length)

/-- The integer part of a number: no zero before another digit. -/
def intPart : Bytes → Option (Bytes × Bytes)
  | 48 :: rest => some ([48], rest)
  | input => digits input

/-- The fraction of a number, if there is one. -/
def fracPart : Bytes → Option (Bytes × Bytes)
  | 46 :: rest => (digits rest).map fun r => (46 :: r.1, r.2)
  | rest => some ([], rest)

/-- The exponent of a number, if there is one. -/
def expPart : Bytes → Option (Bytes × Bytes)
  | e :: rest =>
    if e = 101 ∨ e = 69 then
      match rest with
      | 43 :: rest => (digits rest).map fun r => (e :: 43 :: r.1, r.2)
      | 45 :: rest => (digits rest).map fun r => (e :: 45 :: r.1, r.2)
      | rest => (digits rest).map fun r => (e :: r.1, r.2)
    else some ([], e :: rest)
  | [] => some ([], [])

/-- A number. -/
def number (input : Bytes) : Option (Bytes × Bytes) :=
  let sign := if input.head? = some 45 then [45] else []
  match intPart (input.drop sign.length) with
  | none => none
  | some (int, rest) =>
    match fracPart rest with
    | none => none
    | some (frac, rest) => (expPart rest).map fun r => (sign ++ int ++ frac ++ r.1, r.2)

/-- A literal name. -/
def literal (name : Bytes) (v : Value) (input : Bytes) : Option (Value × Bytes) :=
  if name.isPrefixOf input then some (v, input.drop name.length) else none

mutual

/-- A value and what follows it; the first argument bounds the nesting and the members to come. -/
def value : ℕ → Bytes → Option (Value × Bytes)
  | 0, _ => none
  | n + 1, input =>
    match skipWs input with
    | 34 :: rest => (pieces rest).map fun r => (.string (text r.1), r.2)
    | 123 :: rest =>
      match skipWs rest with
      | 125 :: rest => some (.object [], rest)
      | rest => (members n rest).map fun r => (.object r.1, r.2)
    | 91 :: rest =>
      match skipWs rest with
      | 93 :: rest => some (.array [], rest)
      | rest => (elements n rest).map fun r => (.array r.1, r.2)
    | 110 :: rest => literal (ascii "null") .null (110 :: rest)
    | 116 :: rest => literal (ascii "true") (.bool true) (116 :: rest)
    | 102 :: rest => literal (ascii "false") (.bool false) (102 :: rest)
    | rest => (number rest).map fun r => (.number r.1, r.2)

/-- The members of an object, at least one, and what follows the closing brace. -/
def members : ℕ → Bytes → Option (List (Bytes × Value) × Bytes)
  | 0, _ => none
  | n + 1, input =>
    match skipWs input with
    | 34 :: rest =>
      match pieces rest with
      | none => none
      | some (key, rest) =>
        match skipWs rest with
        | 58 :: rest =>
          match value n rest with
          | none => none
          | some (v, rest) =>
            match skipWs rest with
            | 44 :: rest => (members n rest).map fun r => ((text key, v) :: r.1, r.2)
            | 125 :: rest => some ([(text key, v)], rest)
            | _ => none
        | _ => none
    | _ => none

/-- The elements of an array, at least one, and what follows the closing bracket. -/
def elements : ℕ → Bytes → Option (List Value × Bytes)
  | 0, _ => none
  | n + 1, input =>
    match value n input with
    | none => none
    | some (v, rest) =>
      match skipWs rest with
      | 44 :: rest => (elements n rest).map fun r => (v :: r.1, r.2)
      | 93 :: rest => some ([v], rest)
      | _ => none

end

/-- A JSON text: one value and nothing else.  Each byte opens at most one value or member. -/
def decode (input : Bytes) : Option Value :=
  match value (input.length + 1) input with
  | some (v, rest) => if skipWs rest = [] then some v else none
  | none => none

/-! ### Reading a string back -/

/-- `text`, closing quote included, is read as `s`. -/
def Reads (input s : Bytes) : Prop :=
  ∀ rest, ∃ ps, pieces (input ++ rest) = some (ps, rest) ∧ text ps = s

theorem reads_nil : Reads [34] [] := fun _ => ⟨[], rfl, rfl⟩

/-- A character that stands for itself. -/
def Plain (c : UInt8) : Prop := 0x20 ≤ c ∧ c ≠ 34 ∧ c ≠ 92

instance (c : UInt8) : Decidable (Plain c) := inferInstanceAs (Decidable (_ ∧ _))

theorem Reads.plain {c : UInt8} (hc : Plain c) {input s : Bytes} (h : Reads input s) :
    Reads (c :: input) (c :: s) := by
  intro rest
  obtain ⟨ps, hps, htext⟩ := h rest
  refine ⟨.byte c :: ps, ?_, by rw [text, htext]⟩
  rw [List.cons_append, pieces]
  · rw [if_neg (UInt8.not_lt.2 hc.1), hps]
  · exact fun h => hc.2.1 h
  · exact fun _ _ _ _ _ h _ => hc.2.2 h
  · exact fun _ _ h _ => hc.2.2 h

theorem Reads.letter {c b : UInt8} (hc : letterEscape c = some b) {input s : Bytes}
    (h : Reads input s) : Reads (92 :: c :: input) (b :: s) := by
  intro rest
  obtain ⟨ps, hps, htext⟩ := h rest
  refine ⟨.byte b :: ps, ?_, by rw [text, htext]⟩
  rw [List.cons_append, List.cons_append, pieces]
  · rw [hc, hps]
  · rintro a b' c' d rest' rfl
    cases hc

/-- An escape of a code unit below 0x80. -/
theorem Reads.code {a b c d : UInt8} {u : UInt16} (hu : hex4 a b c d = some u) (hlt : u.toNat < 0x80)
    {input s : Bytes} (h : Reads input s) :
    Reads (92 :: 117 :: a :: b :: c :: d :: input) (UInt8.ofNat u.toNat :: s) := by
  intro rest
  obtain ⟨ps, hps, htext⟩ := h rest
  refine ⟨.unit u :: ps, ?_, ?_⟩
  · simp only [List.cons_append]
    rw [pieces, hu, hps]
  · have hchar : utf8Char u.toNat = [UInt8.ofNat u.toNat] := by rw [utf8Char, if_pos hlt]
    have hlead : isLead u = false := by
      rw [Bool.eq_false_iff, ne_eq, isLead_iff]
      omega
    rcases ps with _ | ⟨_ | v, ps⟩
    · rw [text, hchar, htext]
      · rfl
      · intro u ps h
        cases h
    · rw [text, hchar, htext]
      · rfl
      · intro u ps h
        cases h
    · rw [text, hlead, Bool.false_and, if_neg (by decide), hchar, htext]
      rfl

/-- A text without anything to escape. -/
theorem reads_plain {s : Bytes} (h : ∀ c ∈ s, Plain c) : Reads (s ++ [34]) s := by
  induction s with
  | nil => exact reads_nil
  | cons c s ih =>
    exact (ih fun d hd => h d (List.mem_cons_of_mem _ hd)).plain (h c List.mem_cons_self)

/-! ### Objects of strings -/

/-- A member whose value is a string: how key and value are written behind their opening quotes,
and how they are read. -/
structure Member where
  keyText : Bytes
  key : Bytes
  valueText : Bytes
  value : Bytes
  readsKey : Reads keyText key
  readsValue : Reads valueText value

/-- A member as it is written. -/
def Member.print (m : Member) : Bytes := 34 :: m.keyText ++ 58 :: 34 :: m.valueText

/-- A member as it is read. -/
def Member.read (m : Member) : Bytes × Value := (m.key, .string m.value)

/-- Members as they are written, up to the closing brace. -/
def printMembers : List Member → Bytes
  | [] => [125]
  | [m] => m.print ++ [125]
  | m :: m' :: ms => m.print ++ 44 :: printMembers (m' :: ms)

theorem skipWs_cons {c : UInt8} (hc : isWs c = false) (rest : Bytes) :
    skipWs (c :: rest) = c :: rest := by
  rw [skipWs, List.dropWhile_cons, if_neg (by simp [hc])]

/-- A string value. -/
theorem value_string {input s : Bytes} (h : Reads input s) (n : ℕ) (rest : Bytes) :
    value (n + 1) (34 :: (input ++ rest)) = some (.string s, rest) := by
  obtain ⟨ps, hps, htext⟩ := h rest
  rw [value, skipWs_cons (by decide)]
  simp only [hps, Option.map_some, htext]

/-- One member, with a comma or the closing brace behind it. -/
theorem members_member (m : Member) (n : ℕ) (c : UInt8) (rest : Bytes) :
    members (n + 2) (m.print ++ c :: rest) =
      match skipWs (c :: rest) with
      | 44 :: rest => (members (n + 1) rest).map fun r => (m.read :: r.1, r.2)
      | 125 :: rest => some ([m.read], rest)
      | _ => none := by
  obtain ⟨ps, hps, htext⟩ := m.readsKey (58 :: 34 :: (m.valueText ++ c :: rest))
  have hprint : m.print ++ c :: rest =
      34 :: (m.keyText ++ 58 :: 34 :: (m.valueText ++ c :: rest)) := by simp [Member.print]
  rw [hprint, members, skipWs_cons (by decide)]
  simp only [hps]
  rw [skipWs_cons (by decide)]
  simp only [value_string m.readsValue n (c :: rest)]
  rw [htext]
  rfl

theorem members_print (m : Member) (ms : List Member) {n : ℕ} (hn : ms.length + 2 ≤ n) (rest : Bytes) :
    members n (printMembers (m :: ms) ++ rest) = some ((m :: ms).map Member.read, rest) := by
  induction ms generalizing m n with
  | nil =>
    obtain ⟨k, rfl⟩ : ∃ k, n = k + 2 := ⟨n - 2, by simp at hn; omega⟩
    rw [printMembers, List.append_assoc, List.singleton_append, members_member,
      skipWs_cons (by decide)]
    rfl
  | cons m' ms ih =>
    obtain ⟨k, rfl⟩ : ∃ k, n = k + 2 := ⟨n - 2, by simp at hn; omega⟩
    rw [printMembers, List.append_assoc, List.cons_append, members_member,
      skipWs_cons (by decide)]
    simp only [ih m' (n := k + 1) (by simp at hn ⊢; omega), Option.map_some]
    rfl

theorem length_le_printMembers (ms : List Member) : ms.length ≤ (printMembers ms).length := by
  induction ms using printMembers.induct with
  | case1 => simp
  | case2 m => simp [printMembers]
  | case3 m m' ms ih =>
    simp only [printMembers, List.length_append, List.length_cons] at ih ⊢
    omega

/-- **Objects of strings.**  What is written member by member is read member by member. -/
theorem decode_strings (m : Member) (ms : List Member) :
    decode (123 :: printMembers (m :: ms)) = some (.object ((m :: ms).map Member.read)) := by
  have hlen := length_le_printMembers (m :: ms)
  have hmembers := members_print m ms (n := (printMembers (m :: ms)).length + 1)
    (by simp at hlen ⊢; omega) []
  rw [List.append_nil] at hmembers
  obtain ⟨rest, hhead⟩ : ∃ rest, printMembers (m :: ms) = 34 :: rest := by
    cases ms with
    | nil => exact ⟨_, rfl⟩
    | cons m' ms => exact ⟨_, rfl⟩
  rw [decode, List.length_cons, value, skipWs_cons (by decide)]
  rw [hhead] at hmembers ⊢
  simp only [skipWs_cons (show isWs 34 = false by decide)]
  show (match (members ((34 :: rest).length + 1) (34 :: rest)).map fun r => (Value.object r.1, r.2) with
    | some (v, rest) => if skipWs rest = [] then some v else none
    | none => none) = _
  rw [hmembers]
  rfl

end Json
