import Tund.Lib.Text

/-!
# The command line (`app/cli.c`)

`cliParse sys argv` is `cli_parse`: it reads the mode, folds the options
`getopt_long` finds over the configuration, and validates what came out.  A word
of `argv` is the bytes of its C string.  `System` is what else the function
reads: standard input, the key files and the host name.

An exit carries the line the function prints before it; the usage text and the
terminal echo while a key is typed are left out.
-/

namespace Tund

open Bytes Text

/-- `tund_mode_t`. -/
inductive Mode
  | server
  | client
  deriving DecidableEq, Repr

/-- The values of `log_level` that `cli_parse` sets. -/
inductive LogLevel
  | debug
  | info
  deriving DecidableEq, Repr

/-- `config_t`: each character array is the C string in it. -/
structure Config where
  mode : Mode
  port : UInt16
  serverIp : Bytes
  clientName : Bytes
  accessKey : Bytes
  logLevel : LogLevel
  keyFromStdin : Bool
  jsonEvents : Bool
  tuiMode : Bool
  deriving DecidableEq, Repr

/-- The exits of `cli_parse` other than `CLI_OK`. -/
inductive CliExit
  | exitOk
  | exitError (message : Bytes)
  deriving DecidableEq, Repr

/-- What `cli_parse` reads besides its arguments: standard input, `fopen` with the
contents of the file or the text of the error, and the name `gethostname` gives. -/
structure System where
  stdin : Bytes
  fopen : Bytes → Except Bytes Bytes
  hostname : Option Bytes

/-! ### The C library -/

/-- `isspace`. -/
def isspace (b : UInt8) : Bool := b == 32 || (9 ≤ b && b ≤ 13)

/-- A numeral without its sign. -/
def unsign : Bytes → Bytes
  | 43 :: digits => digits
  | 45 :: digits => digits
  | digits => digits

/-- `strtol(value, &end, 10)`: the number and the text at `end`; nothing when there
are no digits, where C leaves `end == value`. -/
def strtol (value : Bytes) : Option (ℤ × Bytes) :=
  let signed := value.dropWhile isspace
  let digits := unsign signed
  let run := digits.takeWhile fun b => isDigit b.toNat
  if run = [] then none
  else
    let n : ℤ := decimal (run.map UInt8.toNat)
    -- out of range, the result is `LONG_MAX` or `LONG_MIN`
    some (if signed.head? = some 45 then max (-n) (-2 ^ 63) else min n (2 ^ 63 - 1),
      digits.drop run.length)

/-- The bytes `fgets` takes from a stream with room for `n` of them: up to and
including the first newline. -/
def lineOf : ℕ → Bytes → Bytes
  | 0, _ => []
  | _, [] => []
  | n + 1, b :: stream => if b = 10 then [b] else b :: lineOf n stream

/-- `fgets(buf, size, stream)` and the `feof` flag after it, which is set when the
stream ended before the buffer was full or the line complete. -/
def fgets (size : ℕ) (stream : Bytes) : Option (Bytes × Bool) :=
  if stream = [] then none
  else
    let line := lineOf (size - 1) stream
    some (line, line.length < size - 1 && !line.contains 10)

/-- A line that fits is read with its newline. -/
theorem lineOf_of_lt {line rest : Bytes} {n : ℕ} (hline : (10 : UInt8) ∉ line)
    (hn : line.length < n) : lineOf n (line ++ 10 :: rest) = line ++ [10] := by
  induction line generalizing n with
  | nil =>
    cases n with
    | zero => exact absurd hn (Nat.lt_irrefl 0)
    | succ n => rfl
  | cons b line ih =>
    cases n with
    | zero => exact absurd hn (Nat.not_lt_zero _)
    | succ n =>
      rw [List.mem_cons, not_or] at hline
      rw [List.cons_append, lineOf, if_neg (Ne.symm hline.1), ih hline.2 (by simpa using hn)]
      rfl

/-- A line that does not fit fills the buffer without its newline. -/
theorem lineOf_of_le {line rest : Bytes} {n : ℕ} (hline : (10 : UInt8) ∉ line)
    (hn : n ≤ line.length) : lineOf n (line ++ rest) = line.take n := by
  induction line generalizing n with
  | nil =>
    rw [List.length_nil, Nat.le_zero] at hn
    subst hn
    rfl
  | cons b line ih =>
    cases n with
    | zero => rfl
    | succ n =>
      rw [List.mem_cons, not_or] at hline
      rw [List.cons_append, lineOf, if_neg (Ne.symm hline.1), ih hline.2 (by simpa using hn)]
      rfl

/-- A stream without a newline that fits is read to its end. -/
theorem lineOf_of_ge {line : Bytes} {n : ℕ} (hline : (10 : UInt8) ∉ line) (hn : line.length ≤ n) :
    lineOf n line = line := by
  induction line generalizing n with
  | nil => cases n <;> rfl
  | cons b line ih =>
    cases n with
    | zero => exact absurd hn (Nat.not_succ_le_zero _)
    | succ n =>
      rw [List.mem_cons, not_or] at hline
      rw [lineOf, if_neg (Ne.symm hline.1), ih hline.2 (by simpa using hn)]

/-- A row of digits is read to its end. -/
theorem strtol_digits {value : Bytes} (hne : value ≠ [])
    (hd : ∀ b ∈ value, isDigit b.toNat = true) :
    strtol value = some (min (decimal (value.map UInt8.toNat) : ℤ) (2 ^ 63 - 1), []) := by
  obtain ⟨b, rest, rfl⟩ := List.exists_cons_of_ne_nil hne
  have hb := isDigit_iff.1 (hd b List.mem_cons_self)
  have hspace : isspace b = false := by
    rw [isspace, Bool.or_eq_false_iff, Bool.and_eq_false_iff]
    refine ⟨beq_eq_false_iff_ne.2 fun h => ?_, Or.inr (decide_eq_false fun h => ?_)⟩
    · subst h; exact absurd hb.1 (by decide)
    · have h' : b.toNat ≤ 13 := h
      omega
  have hplus : b ≠ 43 := fun h => by subst h; exact absurd hb.1 (by decide)
  have hminus : b ≠ 45 := fun h => by subst h; exact absurd hb.1 (by decide)
  have hdrop : (b :: rest).dropWhile isspace = b :: rest := by
    rw [List.dropWhile_cons_of_neg (by simp [hspace])]
  have hrun : (b :: rest).takeWhile (fun b => isDigit b.toNat) = b :: rest :=
    List.takeWhile_eq_self_iff.2 hd
  have hhead : ((b :: rest).head? = some 45) = False := by simpa using hminus
  have hsign : unsign (b :: rest) = b :: rest := by
    unfold unsign
    split
    · next h => exact absurd (List.cons.inj h).1 hplus
    · next h => exact absurd (List.cons.inj h).1 hminus
    · rfl
  simp only [strtol, hdrop, hsign, hrun, hhead, List.cons_ne_nil, if_false, List.drop_length]

/-! ### `getopt_long` -/

/-- The values `getopt_long` returns: the option letters, the codes 1000 to 1002 of
`long_opts`, and `'?'`. -/
inductive Opt
  | s
  | p
  | n
  | k
  | keyFile
  | keyStdin
  | jsonEvents
  | t
  | v
  | h
  | unknown
  deriving DecidableEq, Repr

/-- The option string `"s:p:n:k:tvh"`: a letter and whether it takes an argument. -/
def shortOpts : List (UInt8 × Opt × Bool) :=
  [(115, .s, true), (112, .p, true), (110, .n, true), (107, .k, true), (116, .t, false),
    (118, .v, false), (104, .h, false)]

/-- `long_opts`. -/
def longOpts : List (Bytes × Opt × Bool) :=
  [(ascii "server", .s, true), (ascii "port", .p, true), (ascii "name", .n, true),
    (ascii "key", .k, true), (ascii "key-file", .keyFile, true),
    (ascii "key-stdin", .keyStdin, false), (ascii "json-events", .jsonEvents, false),
    (ascii "no-tui", .t, false), (ascii "verbose", .v, false), (ascii "help", .h, false)]

/-- The long option a name stands for: the option of that name, else the only one the
name abbreviates. -/
def findLong (name : Bytes) : Option (Opt × Bool) :=
  match longOpts.find? fun o => o.1 = name with
  | some o => some o.2
  | none =>
    match longOpts.filter fun o => name.isPrefixOf o.1 with
    | [] => none
    | o :: others => if others.all fun o' => o'.2 = o.2 then some o.2 else none

/-- The options in a word, and the option whose argument is the next word. -/
abbrev Found := List (Opt × Bytes) × Option Opt

/-- A word of short options after its dash. -/
def shortWord : Bytes → Found
  | [] => ([], none)
  | c :: rest =>
    match (shortOpts.find? fun o => o.1 = c).map Prod.snd with
    | none => ((.unknown, []) :: (shortWord rest).1, (shortWord rest).2)
    | some (o, false) => ((o, []) :: (shortWord rest).1, (shortWord rest).2)
    | some (o, true) => if rest = [] then ([], some o) else ([(o, rest)], none)

/-- A long option after its two dashes, with or without `=value`. -/
def longWord (body : Bytes) : Found :=
  let name := body.takeWhile fun b => b ≠ 61
  match findLong name, body.drop name.length with
  | none, _ => ([(.unknown, [])], none)
  | some (o, true), [] => ([], some o)
  | some (o, true), _ :: value => ([(o, value)], none)
  | some (o, false), [] => ([(o, [])], none)
  | some (_, false), _ :: _ => ([(.unknown, [])], none)

/-- How `getopt_long` takes a word that is not an argument of the option before it. -/
inductive Word
  | stop
  | operand
  | options (found : Found)

/-- `--` ends the options; a word without a dash, and a single dash, is an operand. -/
def wordOf : Bytes → Word
  | [45, 45] => .stop
  | 45 :: 45 :: body => .options (longWord body)
  | [45] => .operand
  | 45 :: body => .options (shortWord body)
  | _ => .operand

/-- The options `getopt_long` returns one after the other, with their arguments.
Operands are passed over, as GNU `getopt_long` does by moving them to the end. -/
def getoptLong : List Bytes → List (Opt × Bytes)
  | [] => []
  | word :: rest =>
    match wordOf word with
    | .stop => []
    | .operand => getoptLong rest
    | .options (seen, none) => seen ++ getoptLong rest
    | .options (seen, some o) =>
      match rest with
      | [] => seen ++ [(.unknown, [])]
      | arg :: rest => seen ++ (o, arg) :: getoptLong rest

/-! ### `cli.c` -/

/-- `TUND_PORT`. -/
def defaultPort : UInt16 := 9909

/-- `TUND_NAME_LEN`, the size of `client_name`. -/
def nameSize : ℕ := 32

/-- `sizeof(cfg->server_ip)`. -/
def serverIpSize : ℕ := 64

/-- `sizeof(cfg->access_key)`. -/
def accessKeySize : ℕ := 128

/-- `key_source_t`. -/
inductive KeySource
  | none
  | arg
  | file
  | stdin
  deriving DecidableEq, Repr

/-- `parse_mode`. -/
def parseMode (mode : Bytes) (cfg : Config) : Except CliExit Config :=
  if mode = ascii "server" then .ok { cfg with mode := .server }
  else if mode = ascii "client" then .ok { cfg with mode := .client }
  else if mode = ascii "-h" ∨ mode = ascii "--help" then .error .exitOk
  else .error (.exitError
    (ascii "Error: Unknown mode '" ++ mode ++ ascii "'. Use 'server' or 'client'.\n\n"))

/-- `parse_port`. -/
def parsePort (value : Bytes) (cfg : Config) : Except CliExit Config :=
  let invalid := CliExit.exitError
    (ascii "Error: invalid port '" ++ value ++ ascii "' (use 1-65535)\n\n")
  match strtol value with
  | none => .error invalid
  | some (port, rest) =>
    if rest ≠ [] ∨ port < 1 ∨ 65535 < port then .error invalid
    else .ok { cfg with port := UInt16.ofNat port.toNat }

/-- `store_access_key`. -/
def storeAccessKey (cfg : Config) (key : Bytes) : Except CliExit Config :=
  if accessKeySize ≤ key.length then
    .error (.exitError (ascii "Error: shared access key is too long (max 127 characters).\n"))
  else .ok { cfg with accessKey := key }

/-- `trim_line_end`. -/
def trimLineEnd (value : Bytes) : Bytes := value.takeWhile fun b => b ≠ 13 && b ≠ 10

/-- `read_key_line`. -/
def readKeyLine (cfg : Config) (stream source : Bytes) : Except CliExit Config :=
  match fgets (accessKeySize + 2) stream with
  | none => .error (.exitError
      (ascii "Error: cannot read shared access key from " ++ source ++ ascii ".\n"))
  | some (line, eof) =>
    let key := cstr line
    if 10 ∉ key ∧ eof = false then
      .error (.exitError (ascii "Error: shared access key from " ++ source ++
        ascii " is too long (max 127 characters).\n"))
    else storeAccessKey cfg (trimLineEnd key)

/-- How a line ends: with the stream, with LF, or with CRLF; anything may follow an LF. -/
inductive LineEnd
  | eof
  | lf (rest : Bytes)
  | crlf (rest : Bytes)

/-- What follows the line in the stream. -/
def LineEnd.bytes : LineEnd → Bytes
  | .eof => []
  | .lf rest => 10 :: rest
  | .crlf rest => 13 :: 10 :: rest

section KeyLine

variable {key : Bytes} (hkey : ∀ b ∈ key, b ≠ 0 ∧ b ≠ 10 ∧ b ≠ 13)
include hkey

theorem trimLineEnd_key (b : UInt8) (rest : Bytes) (hb : b = 13 ∨ b = 10) :
    trimLineEnd (key ++ b :: rest) = key := by
  rw [trimLineEnd, List.takeWhile_append_of_pos]
  · rcases hb with rfl | rfl <;> simp
  · intro b hb
    simp [(hkey b hb).2]

theorem trimLineEnd_eof : trimLineEnd key = key := by
  rw [trimLineEnd, List.takeWhile_eq_self_iff]
  intro b hb
  simp [(hkey b hb).2]

omit hkey in
/-- What `fgets` gives for a key of a length that the buffer holds with its terminator: the string
has its newline or the stream has ended, and its line end is trimmed off. -/
theorem readKeyLine_of_short (cfg : Config) (source : Bytes) {line : Bytes} {eof : Bool}
    {stream : Bytes} (hgets : fgets (accessKeySize + 2) stream = some (line, eof))
    (hline : ∀ b ∈ line, b ≠ 0) (hstop : 10 ∈ line ∨ eof = true) (htrim : trimLineEnd line = key) :
    readKeyLine cfg stream source = storeAccessKey cfg key := by
  have hcond : ¬ (10 ∉ cstr line ∧ eof = false) := by
    rw [cstr_of_forall_ne hline]
    rintro ⟨hno, heof⟩
    rcases hstop with h | h
    · exact hno h
    · rw [heof] at h
      cases h
  simp only [readKeyLine, hgets]
  rw [if_neg hcond, cstr_of_forall_ne hline, htrim]

omit hkey in
/-- A buffer that is full without a newline is refused. -/
theorem readKeyLine_of_full (cfg : Config) (source : Bytes) {line stream : Bytes}
    (hgets : fgets (accessKeySize + 2) stream = some (line, false)) (hno : (10 : UInt8) ∉ line) :
    ∃ message, readKeyLine cfg stream source = .error (.exitError message) := by
  have hcond : 10 ∉ cstr line := fun h => hno (List.takeWhile_subset _ h)
  simp only [readKeyLine, hgets, and_true]
  rw [if_pos hcond]
  exact ⟨_, rfl⟩

/-- A line without control characters is stored when it leaves room for the final NUL, and is
refused otherwise, whichever way it ends. -/
theorem readKeyLine_ended (cfg : Config) (source : Bytes) (e : LineEnd)
    (hne : key ≠ [] ∨ e ≠ .eof) :
    (key.length < accessKeySize →
      readKeyLine cfg (key ++ e.bytes) source = .ok { cfg with accessKey := key }) ∧
    (accessKeySize ≤ key.length →
      ∃ message, readKeyLine cfg (key ++ e.bytes) source = .error (.exitError message)) := by
  have hnl : (10 : UInt8) ∉ key := fun h => (hkey 10 h).2.1 rfl
  have hnl' : (10 : UInt8) ∉ key ++ [13] := by simp [hnl]
  have hstream : key ++ e.bytes ≠ [] := by
    cases e with
    | eof =>
      rcases hne with h | h
      · simpa [LineEnd.bytes] using h
      · exact absurd rfl h
    | _ => simp [LineEnd.bytes]
  have hgets : ∀ line, lineOf (accessKeySize + 1) (key ++ e.bytes) = line →
      fgets (accessKeySize + 2) (key ++ e.bytes) =
        some (line, line.length < accessKeySize + 1 && !line.contains 10) := by
    rintro line rfl
    rw [fgets, if_neg hstream]
    rfl
  have hstore : key.length < accessKeySize →
      storeAccessKey cfg key = .ok { cfg with accessKey := key } := by
    intro h
    rw [storeAccessKey, if_neg (by omega)]
  have hrefuse : accessKeySize ≤ key.length →
      ∃ message, storeAccessKey cfg key = .error (.exitError message) := by
    intro h
    exact ⟨_, by rw [storeAccessKey, if_pos h]⟩
  -- a line that fills the buffer before its newline
  have hfull : ∀ (line rest : Bytes), (10 : UInt8) ∉ line → accessKeySize + 1 ≤ line.length →
      key ++ e.bytes = line ++ rest →
      ∃ message, readKeyLine cfg (key ++ e.bytes) source = .error (.exitError message) := by
    intro line rest hno hlen heq
    have hread : lineOf (accessKeySize + 1) (key ++ e.bytes) = line.take (accessKeySize + 1) := by
      rw [heq]
      exact lineOf_of_le hno hlen
    have hflag : (decide ((line.take (accessKeySize + 1)).length < accessKeySize + 1) &&
        !(line.take (accessKeySize + 1)).contains 10) = false := by
      rw [List.length_take_of_le hlen]
      simp
    have hcut := hgets _ hread
    rw [hflag] at hcut
    exact readKeyLine_of_full cfg source hcut fun h => hno (List.mem_of_mem_take h)
  cases e with
  | eof =>
    simp only [LineEnd.bytes, List.append_nil] at hgets hfull ⊢
    by_cases hfit : key.length < accessKeySize + 1
    · have hread : readKeyLine cfg key source = storeAccessKey cfg key := by
        refine readKeyLine_of_short cfg source (hgets key (lineOf_of_ge hnl (by omega)))
          (fun b hb => (hkey b hb).1) (.inr ?_) (trimLineEnd_eof hkey)
        simp [hfit, hnl]
      rw [hread]
      exact ⟨hstore, hrefuse⟩
    · exact ⟨fun h => absurd h (by omega), fun _ => hfull key [] hnl (by omega) (by simp)⟩
  | lf rest =>
    simp only [LineEnd.bytes] at hgets hfull ⊢
    by_cases hfit : key.length < accessKeySize + 1
    · have hread : readKeyLine cfg (key ++ 10 :: rest) source = storeAccessKey cfg key := by
        refine readKeyLine_of_short cfg source (hgets _ (lineOf_of_lt hnl hfit)) ?_
          (.inl (by simp)) (trimLineEnd_key hkey 10 [] (.inr rfl))
        intro b hb
        rcases List.mem_append.1 hb with hb | hb
        · exact (hkey b hb).1
        · rw [List.mem_singleton.1 hb]
          decide
      rw [hread]
      exact ⟨hstore, hrefuse⟩
    · exact ⟨fun h => absurd h (by omega), fun _ => hfull key (10 :: rest) hnl (by omega) rfl⟩
  | crlf rest =>
    simp only [LineEnd.bytes] at hgets hfull ⊢
    have hsplit : key ++ 13 :: 10 :: rest = (key ++ [13]) ++ 10 :: rest := by simp
    by_cases hfit : key.length < accessKeySize
    · have hread : readKeyLine cfg (key ++ 13 :: 10 :: rest) source = storeAccessKey cfg key := by
        have hline : lineOf (accessKeySize + 1) (key ++ 13 :: 10 :: rest) = key ++ [13] ++ [10] := by
          rw [hsplit]
          exact lineOf_of_lt hnl' (by simpa using hfit)
        refine readKeyLine_of_short cfg source (hgets _ hline) ?_ (.inl (by simp)) ?_
        · intro b hb
          simp only [List.mem_append, List.mem_singleton] at hb
          rcases hb with (hb | rfl) | rfl
          · exact (hkey b hb).1
          · decide
          · decide
        · rw [List.append_assoc]
          exact trimLineEnd_key hkey 13 [10] (.inl rfl)
      rw [hread]
      exact ⟨hstore, hrefuse⟩
    · exact ⟨fun h => absurd h hfit, fun _ => hfull (key ++ [13]) (10 :: rest) hnl'
        (by simp; omega) hsplit⟩

end KeyLine

/-- `read_key_from_stream`: the terminal branch reads the same line. -/
def readKeyFromStream (cfg : Config) (stream source : Bytes) : Except CliExit Config :=
  readKeyLine cfg stream source

/-- `read_key_from_file`. -/
def readKeyFromFile (sys : System) (cfg : Config) (path : Bytes) : Except CliExit Config :=
  match sys.fopen path with
  | .error text => .error (.exitError
      (ascii "Error: cannot open key file '" ++ path ++ ascii "': " ++ text ++ ascii ".\n"))
  | .ok contents => readKeyFromStream cfg contents path

/-- `validate_config`. -/
def validateConfig (sys : System) (cfg : Config) : Except CliExit Config :=
  if cfg.mode = .client ∧ cfg.serverIp = [] then
    .error (.exitError (ascii "Error: Client mode requires -s <server_ip>\n\n"))
  else
    let cfg :=
      if cfg.mode = .client ∧ cfg.clientName = [] then
        { cfg with
          clientName := match sys.hostname with
            | some host => host.take (nameSize - 1)
            | none => ascii "tund-client" }
      else cfg
    if cfg.accessKey.length < 12 then
      .error (.exitError (ascii ("Error: a shared access key of at least 12 characters is " ++
        "required (-k, --key-file, or --key-stdin).\n")))
    else .ok cfg

/-- The three cases of the option loop that take a key: a second source is refused. -/
def takeKey (source : KeySource) (seen : KeySource) (read : Except CliExit Config) :
    Except CliExit (Config × KeySource) :=
  if seen ≠ .none then .error (.exitError (ascii "Error: choose only one key source.\n"))
  else read.map fun cfg => (cfg, source)

/-- One turn of the option loop. -/
def cliOption (sys : System) (state : Config × KeySource) (option : Opt × Bytes) :
    Except CliExit (Config × KeySource) :=
  let cfg := state.1
  let keySource := state.2
  let optarg := option.2
  match option.1 with
  | .s => .ok ({ cfg with serverIp := optarg.take (serverIpSize - 1) }, keySource)
  | .p => (parsePort optarg cfg).map fun cfg => (cfg, keySource)
  | .n => .ok ({ cfg with clientName := optarg.take (nameSize - 1) }, keySource)
  | .k => takeKey .arg keySource (storeAccessKey cfg optarg)
  | .keyFile => takeKey .file keySource (readKeyFromFile sys cfg optarg)
  | .keyStdin =>
    takeKey .stdin keySource
      (readKeyFromStream { cfg with keyFromStdin := true } sys.stdin (ascii "stdin"))
  | .jsonEvents => .ok ({ cfg with jsonEvents := true }, keySource)
  | .t => .ok ({ cfg with tuiMode := false }, keySource)
  | .v => .ok ({ cfg with logLevel := .debug }, keySource)
  | .h => .error .exitOk
  | .unknown => .error (.exitError [])

/-- The configuration before the arguments are read. -/
def Config.initial : Config where
  mode := .server
  port := defaultPort
  serverIp := []
  clientName := []
  accessKey := []
  logLevel := .info
  keyFromStdin := false
  jsonEvents := false
  tuiMode := true

/-- `cli_parse`. -/
def cliParse (sys : System) : List Bytes → Except CliExit Config
  | _ :: mode :: words =>
    (parseMode mode Config.initial).bind fun cfg =>
    ((getoptLong words).foldlM (cliOption sys) (cfg, KeySource.none)).bind fun state =>
    validateConfig sys state.1
  | _ => .error (.exitError [])

end Tund
