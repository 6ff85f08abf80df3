import Tund.Lib.Bytes
import Tund.Lib.CommandLine

/-!
# The relaunch with administrator rights

On Windows the program starts itself again and hands its arguments over as one text.
`build_relaunch_params` writes that text into a fixed buffer (`win_runtime.c`), and
`QuoteArgument` of the GUI (`utils.cpp`) does the same with wide strings.

A call of `append_text` that finds no room makes the whole of `build_relaunch_params`
return false, so each function is a partial map on the buffer and the position in it;
`Appends f text` says that `f` puts `text` behind what is there, or fails if the buffer
is too small.
-/

namespace Tund

/-! ### The buffer -/

/-- A C string: the bytes before the NUL. -/
abbrev CString := {b : Bytes // 0 ∉ b}

/-- A buffer and the position of the NUL that ends the text in it. -/
structure ParamBuf where
  buf : Bytes
  pos : ℕ

/-- `append_text` -/
def appendText (bufsize : ℕ) (out : ParamBuf) (text : Bytes) : Option ParamBuf :=
  if bufsize ≤ out.pos + text.length then none
  else
    let buf := Bytes.patch out.buf out.pos text
    some ⟨Bytes.patch buf (out.pos + text.length) [0], out.pos + text.length⟩

/-- So many calls of `append_text` with one backslash. -/
def appendSlashes (bufsize : ℕ) : ℕ → ParamBuf → Option ParamBuf
  | 0, out => some out
  | n + 1, out => (appendText bufsize out [92]).bind (appendSlashes bufsize n)

/-- The loop of `append_quoted_arg`; the end of the list is the NUL. -/
def appendQuotedLoop (bufsize : ℕ) : Bytes → ℕ → ParamBuf → Option ParamBuf
  | [], slashes, out => appendSlashes bufsize (slashes * 2) out
  | c :: arg, slashes, out =>
    if c = 92 then appendQuotedLoop bufsize arg (slashes + 1) out
    else if c = 34 then
      (appendSlashes bufsize (slashes * 2) out).bind fun out =>
        (appendText bufsize out [92, 34]).bind fun out => appendQuotedLoop bufsize arg 0 out
    else
      (appendSlashes bufsize slashes out).bind fun out =>
        (appendText bufsize out [c]).bind fun out => appendQuotedLoop bufsize arg 0 out

/-- `append_quoted_arg` -/
def appendQuotedArg (bufsize : ℕ) (arg : CString) (out : ParamBuf) : Option ParamBuf :=
  (appendText bufsize out [34]).bind fun out =>
    (appendQuotedLoop bufsize arg.1 0 out).bind fun out => appendText bufsize out [34]

/-- The loop of `build_relaunch_params` from an argument on that is not the first. -/
def appendArgs (bufsize : ℕ) : List CString → ParamBuf → Option ParamBuf
  | [], out => some out
  | arg :: args, out =>
    (appendText bufsize out [32]).bind fun out =>
      (appendQuotedArg bufsize arg out).bind fun out => appendArgs bufsize args out

/-- `build_relaunch_params` on the buffer `buf`, with its contents at the end. -/
def buildRelaunchParams (argv : List CString) (buf : Bytes) : Option Bytes :=
  let out : ParamBuf := ⟨Bytes.patch buf 0 [0], 0⟩
  match argv.drop 1 with
  | [] => some out.buf
  | arg :: args =>
    ((appendQuotedArg buf.length arg out).bind (appendArgs buf.length args)).map ParamBuf.buf

/-! ### `QuoteArgument` -/

/-- A wide C string. -/
abbrev WString := {w : List UInt16 // 0 ∉ w}

/-- The loop of `QuoteArgument`. -/
def quoteArgumentLoop : List UInt16 → ℕ → List UInt16 → List UInt16
  | [], slashes, quoted => quoted ++ List.replicate (slashes * 2) 92
  | ch :: argument, slashes, quoted =>
    if ch = 92 then quoteArgumentLoop argument (slashes + 1) quoted
    else if ch = 34 then
      quoteArgumentLoop argument 0 (quoted ++ List.replicate (slashes * 2) 92 ++ [92, 34])
    else quoteArgumentLoop argument 0 (quoted ++ List.replicate slashes 92 ++ [ch])

/-- `QuoteArgument` -/
def quoteArgument (argument : WString) : List UInt16 :=
  quoteArgumentLoop argument.1 0 [34] ++ [34]

/-! ### The rules of the receiving side -/

/-- Quote, backslash and blanks in bytes. -/
def winChars : CommandLine.Alphabet UInt8 where
  quote := 34
  slash := 92
  blank c := c == 32 || c == 9
  quote_ne_slash := by decide
  not_blank_quote := by decide
  not_blank_slash := by decide

/-- The text that `build_relaunch_params` is to write. -/
def relaunchText (argv : List CString) : Bytes :=
  CommandLine.joined winChars 32 ((argv.drop 1).map Subtype.val)

/-! ### What is appended -/

/-- The buffer holds `text` and its NUL. -/
structure ParamBuf.Holds (out : ParamBuf) (bufsize : ℕ) (text : Bytes) : Prop where
  length : out.buf.length = bufsize
  pos : out.pos = text.length
  text : ∃ rest, out.buf = text ++ 0 :: rest

/-- `f` appends `more`, and fails exactly if there is no room for it and the NUL. -/
def Appends (bufsize : ℕ) (f : ParamBuf → Option ParamBuf) (more : Bytes) : Prop :=
  ∀ out text, out.Holds bufsize text →
    if text.length + more.length < bufsize then
      ∃ out', f out = some out' ∧ out'.Holds bufsize (text ++ more)
    else f out = none

section Appends

variable {bufsize : ℕ}

theorem ParamBuf.Holds.lt {out : ParamBuf} {text : Bytes} (h : out.Holds bufsize text) :
    text.length < bufsize := by
  obtain ⟨rest, hrest⟩ := h.text
  rw [← h.length, hrest]
  simp

theorem appends_nil : Appends bufsize some [] := by
  intro out text hout
  rw [if_pos (by simpa using hout.lt)]
  exact ⟨out, rfl, by simpa using hout⟩

theorem appends_text (more : Bytes) : Appends bufsize (fun out => appendText bufsize out more) more := by
  intro out text hout
  have hpos := hout.pos
  simp only [appendText]
  split_ifs with hroom hfull hfull
  · omega
  · obtain ⟨rest, hrest⟩ := hout.text
    have hlen := hout.length
    have hle : out.pos ≤ out.buf.length := by omega
    refine ⟨_, rfl, ?_, by simp [hpos], ?_⟩
    · rw [Bytes.patch_patch hle, Bytes.length_patch (by simp; omega), hlen]
    · refine ⟨out.buf.drop (text.length + more.length + 1), ?_⟩
      rw [Bytes.patch_patch hle, Bytes.patch, hpos, hrest]
      simp [Nat.add_assoc]
  · rfl
  · omega

/-- One after the other. -/
theorem Appends.bind {f g : ParamBuf → Option ParamBuf} {a b : Bytes} (hf : Appends bufsize f a)
    (hg : Appends bufsize g b) : Appends bufsize (fun out => (f out).bind g) (a ++ b) := by
  intro out text hout
  have hfout := hf out text hout
  rw [List.length_append]
  by_cases ha : text.length + a.length < bufsize
  · rw [if_pos ha] at hfout
    obtain ⟨out', hsome, hout'⟩ := hfout
    have hgout := hg out' (text ++ a) hout'
    rw [List.length_append, Nat.add_assoc] at hgout
    simp only [hsome, Option.bind_some]
    split_ifs at hgout ⊢
    · rwa [List.append_assoc] at hgout
    · exact hgout
  · rw [if_neg ha] at hfout
    rw [if_neg (by omega)]
    simp only [hfout, Option.bind_none]

theorem appends_slashes (n : ℕ) : Appends bufsize (appendSlashes bufsize n) (List.replicate n 92) := by
  induction n with
  | zero => exact appends_nil
  | succ n ih => exact (appends_text [92]).bind ih

theorem appends_quotedLoop (arg : Bytes) (slashes : ℕ) :
    Appends bufsize (appendQuotedLoop bufsize arg slashes) (CommandLine.body winChars arg slashes) := by
  induction arg generalizing slashes with
  | nil => exact appends_slashes _
  | cons c arg ih =>
    have happends : ∀ n more, Appends bufsize (fun out => (appendSlashes bufsize n out).bind fun out =>
        (appendText bufsize out more).bind fun out => appendQuotedLoop bufsize arg 0 out)
        (List.replicate n 92 ++ (more ++ CommandLine.body winChars arg 0)) :=
      fun n more => (appends_slashes n).bind ((appends_text more).bind (ih 0))
    have hbody : CommandLine.body winChars (c :: arg) slashes =
        if c = 92 then CommandLine.body winChars arg (slashes + 1)
        else if c = 34 then
          List.replicate (slashes * 2) 92 ++ [92, 34] ++ CommandLine.body winChars arg 0
        else List.replicate slashes 92 ++ [c] ++ CommandLine.body winChars arg 0 := rfl
    intro out text hout
    rw [appendQuotedLoop, hbody]
    by_cases hslash : c = 92
    · rw [if_pos hslash, if_pos hslash]
      exact ih (slashes + 1) out text hout
    by_cases hquote : c = 34
    · rw [if_neg hslash, if_pos hquote, if_neg hslash, if_pos hquote, List.append_assoc]
      exact happends (slashes * 2) [92, 34] out text hout
    · rw [if_neg hslash, if_neg hquote, if_neg hslash, if_neg hquote, List.append_assoc]
      exact happends slashes [c] out text hout

theorem appends_quotedArg (arg : CString) :
    Appends bufsize (appendQuotedArg bufsize arg) (CommandLine.quote winChars arg.1) :=
  (appends_text [34]).bind ((appends_quotedLoop arg.1 0).bind (appends_text [34]))

theorem appends_args (arg : CString) (args : List CString) :
    Appends bufsize (fun out => (appendQuotedArg bufsize arg out).bind (appendArgs bufsize args))
      (CommandLine.joined winChars 32 ((arg :: args).map Subtype.val)) := by
  induction args generalizing arg with
  | nil =>
    have harg : Appends bufsize (appendQuotedArg bufsize arg) (CommandLine.quote winChars arg.1) :=
      appends_quotedArg arg
    have h := harg.bind appends_nil
    rwa [List.append_nil] at h
  | cons arg' args ih => exact (appends_quotedArg arg).bind ((appends_text [32]).bind (ih arg'))

end Appends

/-! ### Round trip -/

/-- The whole of `build_relaunch_params`: it writes the text and its NUL if they fit, and fails
otherwise. -/
theorem buildRelaunchParams_spec (argv : List CString) {buf : Bytes} (hbuf : buf ≠ []) :
    if (relaunchText argv).length < buf.length then
      ∃ out rest, buildRelaunchParams argv buf = some out ∧ out = relaunchText argv ++ 0 :: rest
    else buildRelaunchParams argv buf = none := by
  have hpos : 0 < buf.length := List.length_pos_of_ne_nil hbuf
  have hstart : ParamBuf.Holds ⟨Bytes.patch buf 0 [0], 0⟩ buf.length [] := by
    refine ⟨Bytes.length_patch (by simp; omega), rfl, buf.drop 1, ?_⟩
    rw [Bytes.patch_zero]
    rfl
  unfold buildRelaunchParams relaunchText
  cases argv.drop 1 with
  | nil =>
    obtain ⟨rest, hrest⟩ := hstart.text
    simp only [List.map_nil, CommandLine.joined, List.length_nil, if_pos hpos]
    exact ⟨_, rest, rfl, hrest⟩
  | cons arg args =>
    have hargs := appends_args arg args _ _ hstart
    simp only [List.length_nil, Nat.zero_add, List.nil_append] at hargs
    simp only
    split_ifs at hargs ⊢
    · obtain ⟨out, hsome, hout⟩ := hargs
      obtain ⟨rest, hrest⟩ := hout.text
      exact ⟨out.buf, rest, by rw [hsome, Option.map_some], hrest⟩
    · rw [hargs, Option.map_none]

theorem zero_not_mem_relaunchText (argv : List CString) : 0 ∉ relaunchText argv := by
  intro h
  rcases CommandLine.mem_joined h with hq | hs | hsep | ⟨arg, harg, hm⟩
  · exact absurd hq (by decide)
  · exact absurd hs (by decide)
  · exact absurd hsep (by decide)
  · obtain ⟨a, -, rfl⟩ := List.mem_map.1 harg
    exact a.2 hm

theorem cstr_text_append {text rest : Bytes} (h : 0 ∉ text) : Bytes.cstr (text ++ 0 :: rest) = text := by
  have hne : ∀ x ∈ text, (x ≠ 0) = true := by
    intro x hx
    simp only [ne_eq, eq_iff_iff, iff_true]
    rintro rfl
    exact h hx
  simp only [Bytes.cstr]
  rw [List.takeWhile_append_of_pos (by simpa using hne)]
  simp

/-- The same marks in wide characters. -/
def wideChars : CommandLine.Alphabet UInt16 where
  quote := 34
  slash := 92
  blank c := c == 32 || c == 9
  quote_ne_slash := by decide
  not_blank_quote := by decide
  not_blank_slash := by decide

theorem quoteArgumentLoop_eq (argument : List UInt16) (slashes : ℕ) (quoted : List UInt16) :
    quoteArgumentLoop argument slashes quoted =
      quoted ++ CommandLine.body wideChars argument slashes := by
  induction argument generalizing slashes quoted with
  | nil => rfl
  | cons c argument ih =>
    have hbody : CommandLine.body wideChars (c :: argument) slashes =
        if c = 92 then CommandLine.body wideChars argument (slashes + 1)
        else if c = 34 then
          List.replicate (slashes * 2) 92 ++ [92, 34] ++ CommandLine.body wideChars argument 0
        else List.replicate slashes 92 ++ [c] ++ CommandLine.body wideChars argument 0 := rfl
    rw [quoteArgumentLoop, hbody]
    by_cases hslash : c = 92
    · rw [if_pos hslash, if_pos hslash]
      exact ih _ _
    by_cases hquote : c = 34
    · rw [if_neg hslash, if_pos hquote, if_neg hslash, if_pos hquote, ih]
      simp
    · rw [if_neg hslash, if_neg hquote, if_neg hslash, if_neg hquote, ih]
      simp

theorem quoteArgument_eq (argument : WString) :
    quoteArgument argument = CommandLine.quote wideChars argument.1 := by
  rw [quoteArgument, quoteArgumentLoop_eq]
  rfl

/-- The marks as characters. -/
def charMarks : CommandLine.Alphabet Char where
  quote := Char.ofNat 34
  slash := Char.ofNat 92
  blank c := c == Char.ofNat 32 || c == Char.ofNat 9
  quote_ne_slash := by decide
  not_blank_quote := by decide
  not_blank_slash := by decide

/-- A character in UTF-16. -/
def utf16 (c : Char) : List UInt16 :=
  let n := c.toNat
  if n < 0x10000 then [UInt16.ofNat n]
  else
    [UInt16.ofNat (0xD800 + (n - 0x10000) / 0x400), UInt16.ofNat (0xDC00 + (n - 0x10000) % 0x400)]

theorem eq_charOfNat {c : Char} {n : ℕ} (h : c.toNat = n) : c = Char.ofNat n := by
  rw [← h, Char.ofNat_toNat]

/-- A byte below 128 stands for itself in UTF-8, and in nothing else. -/
theorem toNat_of_mem_utf8 {c : Char} {k : UInt8} (hk : k.toNat < 128)
    (h : k ∈ String.utf8EncodeChar c) : c.toNat = k.toNat := by
  have hhigh : ∀ n, 128 ≤ n → n < 256 → k ≠ UInt8.ofNat n := by
    rintro n hle hlt rfl
    rw [UInt8.toNat_ofNat', Nat.mod_eq_of_lt hlt] at hk
    omega
  have hval : c.toNat = c.val.toNat := rfl
  unfold String.utf8EncodeChar at h
  simp only at h
  split_ifs at h with h1 h2 h3
  · rw [List.mem_singleton.1 h, UInt8.toNat_ofNat', hval]
    omega
  · simp only [List.mem_cons, List.not_mem_nil, or_false] at h
    rcases h with h | h <;> exact absurd h (hhigh _ (by omega) (by omega))
  · simp only [List.mem_cons, List.not_mem_nil, or_false] at h
    rcases h with h | h | h <;> exact absurd h (hhigh _ (by omega) (by omega))
  · simp only [List.mem_cons, List.not_mem_nil, or_false] at h
    rcases h with h | h | h | h <;> exact absurd h (hhigh _ (by omega) (by omega))

theorem utf8_writes : CommandLine.Writes charMarks winChars String.utf8EncodeChar where
  quote := by decide
  slash := by decide
  other c hquote hslash := by
    refine ⟨String.utf8EncodeChar_ne_nil, fun h => hquote ?_, fun h => hslash ?_⟩
    · exact eq_charOfNat (toNat_of_mem_utf8 (by decide) h)
    · exact eq_charOfNat (toNat_of_mem_utf8 (by decide) h)

/-- The same in UTF-16. -/
theorem toNat_of_mem_utf16 {c : Char} {k : UInt16} (hk : k.toNat < 128) (h : k ∈ utf16 c) :
    c.toNat = k.toNat := by
  have hmax : c.toNat < 0x110000 := by
    rcases c.valid with hc | hc
    · exact hc.trans (by decide)
    · exact hc.2
  have hhigh : ∀ n, 128 ≤ n → n < 65536 → k ≠ UInt16.ofNat n := by
    rintro n hle hlt rfl
    rw [UInt16.toNat_ofNat', Nat.mod_eq_of_lt hlt] at hk
    omega
  unfold utf16 at h
  simp only at h
  split_ifs at h with hone
  · rw [List.mem_singleton.1 h, UInt16.toNat_ofNat']
    omega
  · simp only [List.mem_cons, List.not_mem_nil, or_false] at h
    rcases h with h | h <;> exact absurd h (hhigh _ (by omega) (by omega))

theorem utf16_writes : CommandLine.Writes charMarks wideChars utf16 where
  quote := by decide
  slash := by decide
  other c hquote hslash := by
    refine ⟨?_, fun h => hquote ?_, fun h => hslash ?_⟩
    · simp only [utf16]
      split_ifs <;> simp
    · exact eq_charOfNat (toNat_of_mem_utf16 (by decide) h)
    · exact eq_charOfNat (toNat_of_mem_utf16 (by decide) h)

/-- **The relaunch keeps the arguments.**  When `build_relaunch_params` returns true, splitting the
string in the buffer gives back the arguments behind the program's name.  It returns false exactly
when the quoted text and its NUL do not fit the buffer.  For one argument `QuoteArgument` gives the
same text: where bytes and wide characters write the same characters, each in its own way
(`utf8_writes`, `utf16_writes`), so do the two texts. -/
theorem relaunch_keeps_arguments (buf : Bytes) (hbuf : buf ≠ []) :
    (∀ argv out, buildRelaunchParams argv buf = some out →
      CommandLine.split winChars (Bytes.cstr out) = (argv.drop 1).map Subtype.val) ∧
    (∀ argv, buildRelaunchParams argv buf = none ↔ buf.length < (relaunchText argv).length + 1) ∧
    ∀ (α : Type) [DecidableEq α] (A : CommandLine.Alphabet α) (narrow : α → Bytes)
      (wide : α → List UInt16), CommandLine.Writes A winChars narrow →
      CommandLine.Writes A wideChars wide →
      ∀ (program arg : CString) (out : Bytes) (argument : WString) (chars : List α),
        buildRelaunchParams [program, arg] buf = some out →
        arg.1 = chars.flatMap narrow → argument.1 = chars.flatMap wide →
        Bytes.cstr out = (CommandLine.quote A chars).flatMap narrow ∧
          quoteArgument argument = (CommandLine.quote A chars).flatMap wide := by
  have htext : ∀ argv out, buildRelaunchParams argv buf = some out →
      Bytes.cstr out = relaunchText argv := by
    intro argv out hout
    have hspec := buildRelaunchParams_spec argv hbuf
    split_ifs at hspec
    · obtain ⟨out', rest, hsome, hrest⟩ := hspec
      rw [hout] at hsome
      cases hsome
      rw [hrest, cstr_text_append (zero_not_mem_relaunchText argv)]
    · rw [hout] at hspec
      cases hspec
  refine ⟨fun argv out hout => ?_, fun argv => ?_, ?_⟩
  · rw [htext argv out hout]
    exact CommandLine.split_joined (by decide) _
  · have hspec := buildRelaunchParams_spec argv hbuf
    split_ifs at hspec with hfits
    · obtain ⟨out, rest, hsome, -⟩ := hspec
      rw [hsome]
      constructor
      · intro h
        cases h
      · intro h
        omega
    · rw [hspec]
      constructor
      · intro _
        omega
      · intro _
        rfl
  · intro α _ A narrow wide hnarrow hwide program arg out argument chars hout harg hargument
    have hquoted : relaunchText [program, arg] = CommandLine.quote winChars arg.1 := rfl
    rw [htext _ _ hout, hquoted, quoteArgument_eq, harg, hargument]
    exact ⟨hnarrow.quoted chars, hwide.quoted chars⟩

/-- Two arguments, one with a quote and a backslash at its end, in a buffer of 40 bytes; and one
argument with a character that is not ASCII, for both functions. -/
theorem relaunch_keeps_arguments_slashes :
    (∃ out, buildRelaunchParams [⟨[116], by decide⟩, ⟨[97, 34, 32, 92], by decide⟩, ⟨[], by decide⟩]
        (List.replicate 40 1) = some out ∧
      CommandLine.split winChars (Bytes.cstr out) = [[97, 34, 32, 92], []]) ∧
    let chars := [Char.ofNat 233, Char.ofNat 34, Char.ofNat 92]
    ∃ out, buildRelaunchParams [⟨[116], by decide⟩, ⟨[195, 169, 34, 92], by decide⟩]
        (List.replicate 40 1) = some out ∧
      Bytes.cstr out = (CommandLine.quote charMarks chars).flatMap String.utf8EncodeChar ∧
      quoteArgument ⟨[233, 34, 92], by decide⟩ = (CommandLine.quote charMarks chars).flatMap utf16 := by
  have hne : List.replicate 40 (1 : UInt8) ≠ [] := by decide
  obtain ⟨hsplit, hfalse, hsame⟩ := relaunch_keeps_arguments (List.replicate 40 1) hne
  constructor
  · cases hout : buildRelaunchParams
        [⟨[116], by decide⟩, ⟨[97, 34, 32, 92], by decide⟩, ⟨[], by decide⟩] (List.replicate 40 1) with
    | none => exact absurd ((hfalse _).1 hout) (by decide)
    | some out => exact ⟨out, rfl, hsplit _ _ hout⟩
  · cases hout : buildRelaunchParams [⟨[116], by decide⟩, ⟨[195, 169, 34, 92], by decide⟩]
        (List.replicate 40 1) with
    | none => exact absurd ((hfalse _).1 hout) (by decide)
    | some out =>
      exact ⟨out, rfl, hsame Char charMarks _ _ utf8_writes utf16_writes _ _ out _ _ hout
        (by decide) (by decide)⟩

end Tund
