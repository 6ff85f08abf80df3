import Mathlib.Tactic

/-!
# Command lines as one text

A process that is given its command line as one text splits it into arguments.  Quotes
keep blanks together; a backslash is an ordinary character unless a quote follows the
run of backslashes it stands in.  `split` is that scanner, a fold over the text with the
state `Scan`.

`quote` writes an argument so that the scanner gives it back, whatever it contains:
`foldl_quote` is the step for one argument and `split_joined` the result for a list.
`Writes.quoted` compares two texts whose units stand for the same characters.
-/

namespace CommandLine

/-- The characters with a meaning of their own. -/
structure Alphabet (α : Type*) where
  quote : α
  slash : α
  blank : α → Bool
  quote_ne_slash : quote ≠ slash
  not_blank_quote : blank quote = false
  not_blank_slash : blank slash = false

/-- The scanner: the arguments that are complete, the one being read, whether it stands inside
quotes, and the backslashes whose meaning is still open. -/
structure Scan (α : Type*) where
  done : List (List α)
  arg : Option (List α)
  quoted : Bool
  slashes : ℕ

variable {α : Type*} [DecidableEq α] (A : Alphabet α)

/-- The scanner before the first character. -/
def Scan.start : Scan α := ⟨[], none, false, 0⟩

/-- Put characters to the argument being read. -/
def Scan.add (s : Scan α) (text : List α) : Scan α :=
  { s with arg := some (s.arg.getD [] ++ text), slashes := 0 }

/-- The argument ends, if there is one. -/
def Scan.close (s : Scan α) : Scan α :=
  let arg := if s.slashes = 0 then s.arg else some (s.arg.getD [] ++ List.replicate s.slashes A.slash)
  { s with done := s.done ++ arg.toList, arg := none, slashes := 0 }

/-- One character.  An even run of backslashes before a quote stands for half as many and the
quote begins or ends a quoted part; an odd run stands for half as many and a literal quote.  Other
backslashes are literal, and blanks outside quotes separate. -/
def step (s : Scan α) (c : α) : Scan α :=
  if c = A.slash then { s with slashes := s.slashes + 1 }
  else if c = A.quote then
    if s.slashes % 2 = 0 then
      { s.add (List.replicate (s.slashes / 2) A.slash) with quoted := !s.quoted }
    else s.add (List.replicate (s.slashes / 2) A.slash ++ [A.quote])
  else if A.blank c && !s.quoted then s.close A
  else s.add (List.replicate s.slashes A.slash ++ [c])

/-- The arguments of a command line. -/
def split (text : List α) : List (List α) := ((text.foldl (step A) Scan.start).close A).done

/-- An argument inside its quotes, behind so many backslashes. -/
def body : List α → ℕ → List α
  | [], slashes => List.replicate (slashes * 2) A.slash
  | c :: arg, slashes =>
    if c = A.slash then body arg (slashes + 1)
    else if c = A.quote then
      List.replicate (slashes * 2) A.slash ++ [A.slash, A.quote] ++ body arg 0
    else List.replicate slashes A.slash ++ [c] ++ body arg 0

/-- An argument in quotes. -/
def quote (arg : List α) : List α := A.quote :: body A arg 0 ++ [A.quote]

/-- Arguments in quotes, one `sep` between them. -/
def joined (sep : α) : List (List α) → List α
  | [] => []
  | [arg] => quote A arg
  | arg :: arg' :: args => quote A arg ++ sep :: joined sep (arg' :: args)

/-! ### Scanning what was quoted -/

variable {A}

theorem foldl_slashes (s : Scan α) (n : ℕ) :
    (List.replicate n A.slash).foldl (step A) s = { s with slashes := s.slashes + n } := by
  induction n generalizing s with
  | zero => rfl
  | succ n ih =>
    rw [List.replicate_succ, List.foldl_cons, ih]
    simp only [step, if_true]
    congr 1
    omega

theorem step_quote_even {s : Scan α} {n : ℕ} (hs : s.slashes = n * 2) :
    step A s A.quote = { s.add (List.replicate n A.slash) with quoted := !s.quoted } := by
  have heven : s.slashes % 2 = 0 := by omega
  have hhalf : s.slashes / 2 = n := by omega
  rw [step, if_neg A.quote_ne_slash, if_pos rfl, if_pos heven, hhalf]

theorem step_quote_odd {s : Scan α} {n : ℕ} (hs : s.slashes = n * 2 + 1) :
    step A s A.quote = s.add (List.replicate n A.slash ++ [A.quote]) := by
  have hodd : ¬ s.slashes % 2 = 0 := by omega
  have hhalf : s.slashes / 2 = n := by omega
  rw [step, if_neg A.quote_ne_slash, if_pos rfl, if_neg hodd, hhalf]

/-- Inside quotes every other character is literal. -/
theorem step_literal {s : Scan α} {c : α} (hslash : c ≠ A.slash) (hquote : c ≠ A.quote)
    (hq : s.quoted = true) :
    step A s c = s.add (List.replicate s.slashes A.slash ++ [c]) := by
  rw [step, if_neg hslash, if_neg hquote, if_neg (by simp [hq])]

/-- The rest of a quoted argument and its closing quote. -/
theorem foldl_body (arg : List α) (slashes : ℕ) (done : List (List α)) (acc : List α) :
    (body A arg slashes ++ [A.quote]).foldl (step A) ⟨done, some acc, true, 0⟩ =
      ⟨done, some (acc ++ List.replicate slashes A.slash ++ arg), false, 0⟩ := by
  -- the backslashes that `body` still owes are the ones it has read and not written
  induction arg generalizing slashes acc with
  | nil =>
    rw [body, List.foldl_append, foldl_slashes, List.foldl_cons, List.foldl_nil,
      step_quote_even (n := slashes) (by simp)]
    simp [Scan.add]
  | cons c arg ih =>
    rw [body]
    split_ifs with hslash hquote
    · rw [ih, hslash, List.replicate_succ']
      simp
    · have hescaped : (List.replicate (slashes * 2) A.slash ++ [A.slash, A.quote]).foldl (step A)
          ⟨done, some acc, true, 0⟩ =
          ⟨done, some (acc ++ (List.replicate slashes A.slash ++ [A.quote])), true, 0⟩ := by
        rw [List.foldl_append, foldl_slashes, List.foldl_cons, List.foldl_cons, List.foldl_nil]
        rw [step_quote_odd (n := slashes) (by simp [step])]
        simp [Scan.add, step]
      rw [List.append_assoc, List.foldl_append, hescaped, ih, hquote]
      simp
    · have hliteral : (List.replicate slashes A.slash ++ [c]).foldl (step A)
          ⟨done, some acc, true, 0⟩ =
          ⟨done, some (acc ++ (List.replicate slashes A.slash ++ [c])), true, 0⟩ := by
        rw [List.foldl_append, foldl_slashes, List.foldl_cons, List.foldl_nil,
          step_literal hslash hquote rfl]
        simp [Scan.add]
      rw [List.append_assoc, List.foldl_append, hliteral, ih]
      simp

/-- **One argument.**  Between two arguments, the scanner reads a quoted argument as it was. -/
theorem foldl_quote (arg : List α) (done : List (List α)) :
    (quote A arg).foldl (step A) ⟨done, none, false, 0⟩ = ⟨done, some arg, false, 0⟩ := by
  rw [quote, List.cons_append, List.foldl_cons, step_quote_even (n := 0) rfl]
  simp only [Scan.add, Option.getD_none, List.replicate_zero, List.append_nil, Bool.not_false]
  rw [foldl_body]
  simp

theorem step_sep {sep : α} (hsep : A.blank sep = true) (done : List (List α)) (arg : List α) :
    step A ⟨done, some arg, false, 0⟩ sep = ⟨done ++ [arg], none, false, 0⟩ := by
  have hslash : sep ≠ A.slash := by
    rintro rfl
    rw [A.not_blank_slash] at hsep
    cases hsep
  have hquote : sep ≠ A.quote := by
    rintro rfl
    rw [A.not_blank_quote] at hsep
    cases hsep
  rw [step, if_neg hslash, if_neg hquote, if_pos (by simp [hsep])]
  simp [Scan.close]

theorem foldl_joined {sep : α} (hsep : A.blank sep = true) (arg : List α) (args : List (List α))
    (done : List (List α)) :
    (((joined A sep (arg :: args)).foldl (step A) ⟨done, none, false, 0⟩).close A).done =
      done ++ arg :: args := by
  induction args generalizing arg done with
  | nil =>
    rw [joined, foldl_quote]
    simp [Scan.close]
  | cons arg' args ih =>
    rw [joined, List.foldl_append, foldl_quote, List.foldl_cons, step_sep hsep, ih]
    simp

/-- **All arguments.**  Splitting the joined text gives the arguments back. -/
theorem split_joined {sep : α} (hsep : A.blank sep = true) (args : List (List α)) :
    split A (joined A sep args) = args := by
  cases args with
  | nil => simp [split, joined, Scan.start, Scan.close]
  | cons arg args =>
    rw [split, Scan.start, foldl_joined hsep]
    rfl

/-! ### The characters of the text -/

theorem mem_body {arg : List α} {slashes : ℕ} {c : α} (h : c ∈ body A arg slashes) :
    c = A.quote ∨ c = A.slash ∨ c ∈ arg := by
  induction arg generalizing slashes with
  | nil => exact .inr (.inl (List.eq_of_mem_replicate h))
  | cons d arg ih =>
    have hrest : ∀ n, c ∈ body A arg n → c = A.quote ∨ c = A.slash ∨ c ∈ d :: arg := by
      intro n hn
      rcases ih hn with hq | hs | hm
      · exact .inl hq
      · exact .inr (.inl hs)
      · exact .inr (.inr (List.mem_cons_of_mem _ hm))
    rw [body] at h
    split_ifs at h
    · exact hrest _ h
    · simp only [List.mem_append, List.mem_cons, List.not_mem_nil, or_false] at h
      rcases h with (hs | hs | hq) | hm
      · exact .inr (.inl (List.eq_of_mem_replicate hs))
      · exact .inr (.inl hs)
      · exact .inl hq
      · exact hrest _ hm
    · simp only [List.mem_append, List.mem_singleton] at h
      rcases h with (hs | hc) | hm
      · exact .inr (.inl (List.eq_of_mem_replicate hs))
      · exact .inr (.inr (by simp [hc]))
      · exact hrest _ hm

theorem mem_quote {arg : List α} {c : α} (h : c ∈ quote A arg) :
    c = A.quote ∨ c = A.slash ∨ c ∈ arg := by
  simp only [quote, List.mem_append, List.mem_cons, List.not_mem_nil, or_false] at h
  rcases h with (hq | hb) | hq
  · exact .inl hq
  · exact mem_body hb
  · exact .inl hq

/-- Nothing is in the text that is neither in an argument nor one of the three marks. -/
theorem mem_joined {sep : α} {args : List (List α)} {c : α} (h : c ∈ joined A sep args) :
    c = A.quote ∨ c = A.slash ∨ c = sep ∨ ∃ arg ∈ args, c ∈ arg := by
  induction args using joined.induct with
  | case1 => cases h
  | case2 arg =>
    rcases mem_quote h with hq | hs | hm
    · exact .inl hq
    · exact .inr (.inl hs)
    · exact .inr (.inr (.inr ⟨arg, by simp, hm⟩))
  | case3 arg arg' args ih =>
    rw [joined, List.mem_append, List.mem_cons] at h
    rcases h with h | rfl | h
    · rcases mem_quote h with hq | hs | hm
      · exact .inl hq
      · exact .inr (.inl hs)
      · exact .inr (.inr (.inr ⟨arg, by simp, hm⟩))
    · exact .inr (.inr (.inl rfl))
    · rcases ih h with hq | hs | hsep | ⟨a, ha, hm⟩
      · exact .inl hq
      · exact .inr (.inl hs)
      · exact .inr (.inr (.inl hsep))
      · exact .inr (.inr (.inr ⟨a, List.mem_cons_of_mem _ ha, hm⟩))

/-! ### Writing characters as units -/

variable {β : Type*} [DecidableEq β] {B : Alphabet β}

/-- A way to write characters as units that keeps the two marks apart from the rest. -/
structure Writes (A : Alphabet α) (B : Alphabet β) (φ : α → List β) : Prop where
  quote : φ A.quote = [B.quote]
  slash : φ A.slash = [B.slash]
  other : ∀ c, c ≠ A.quote → c ≠ A.slash → φ c ≠ [] ∧ B.quote ∉ φ c ∧ B.slash ∉ φ c

theorem body_literals {units : List β} (hne : units ≠ []) (hquote : B.quote ∉ units)
    (hslash : B.slash ∉ units) (rest : List β) (slashes : ℕ) :
    body B (units ++ rest) slashes = List.replicate slashes B.slash ++ units ++ body B rest 0 := by
  induction units generalizing slashes with
  | nil => exact absurd rfl hne
  | cons u units ih =>
    simp only [List.mem_cons, not_or] at hquote hslash
    rw [List.cons_append, body, if_neg (Ne.symm hslash.1), if_neg (Ne.symm hquote.1)]
    cases units with
    | nil => simp
    | cons v units =>
      rw [ih (by simp) hquote.2 hslash.2 0]
      simp

/-- Quoting commutes with such a way of writing. -/
theorem Writes.body {φ : α → List β} (h : Writes A B φ) (arg : List α) (slashes : ℕ) :
    body B (arg.flatMap φ) slashes = (body A arg slashes).flatMap φ := by
  have hrep : ∀ n, (List.replicate n A.slash).flatMap φ = List.replicate n B.slash := by
    intro n
    induction n with
    | zero => rfl
    | succ n ih => rw [List.replicate_succ, List.flatMap_cons, h.slash, ih]; rfl
  induction arg generalizing slashes with
  | nil => simp [CommandLine.body, hrep]
  | cons c arg ih =>
    rw [List.flatMap_cons, CommandLine.body]
    split_ifs with hs hq
    · rw [hs, h.slash, List.singleton_append, CommandLine.body, if_pos rfl]
      exact ih _
    · rw [hq, h.quote, List.singleton_append, CommandLine.body, if_neg B.quote_ne_slash, if_pos rfl, ih]
      simp [hrep, h.slash, h.quote]
    · obtain ⟨hne, hquote, hslash⟩ := h.other c hq hs
      rw [body_literals hne hquote hslash, ih]
      simp [hrep]

theorem Writes.quoted {φ : α → List β} (h : Writes A B φ) (arg : List α) :
    CommandLine.quote B (arg.flatMap φ) = (CommandLine.quote A arg).flatMap φ := by
  simp [CommandLine.quote, h.body, h.quote]

end CommandLine
