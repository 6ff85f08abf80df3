import Tund.App.Cli

/-!
# The configuration of the GUI (`gui/lib/core/config.dart`)

A `TundConfig` holds what the user typed; `validate` decides whether the GUI
starts the program, and `toArgs` writes the command line it starts it with.  The
key goes to standard input as one line.

`SameMeaning` says that `cliParse` reads back exactly what the GUI meant.  The
form counts characters and `config_t` counts bytes, so the two agree exactly on
the configurations whose key and host also fit as UTF-8.
-/

namespace Tund

open Bytes Text

/-- `class TundConfig`: the texts are the fields as typed. -/
structure TundConfig where
  mode : Mode
  server : Utf16
  port : Utf16
  name : Utf16
  key : Utf16
  verbose : Bool
  deriving DecidableEq, Repr

/-! ### `int.tryParse` -/

/-- The white space that `trim` and the number parsers of Dart pass over. -/
def isWhitespace (u : UInt16) : Bool :=
  (9 ≤ u && u ≤ 13) || (0x2000 ≤ u && u ≤ 0x200A) ||
    u ∈ [0x20, 0x85, 0xA0, 0x1680, 0x2028, 0x2029, 0x202F, 0x205F, 0x3000, 0xFEFF]

/-- A string without the white space around it. -/
def trim (s : Utf16) : Utf16 :=
  ((s.dropWhile isWhitespace).reverse.dropWhile isWhitespace).reverse

/-- The value of a hexadecimal digit. -/
def hexValue (c : ℕ) : Option ℕ :=
  if isDigit c then some (c - 0x30)
  else if 0x41 ≤ c ∧ c ≤ 0x46 then some (c - 0x37)
  else if 0x61 ≤ c ∧ c ≤ 0x66 then some (c - 0x57)
  else none

/-- Digits behind `0x`, up to 64 bits, read as a two's complement number. -/
def parseHex (digits : Utf16) : Option ℤ :=
  match digits.mapM fun u => hexValue u.toNat with
  | none => none
  | some values =>
    let n := values.foldl (fun v d => v * 16 + d) (0 : ℕ)
    if digits = [] ∨ 2 ^ 64 ≤ n then none
    else if n < 2 ^ 63 then some n
    else some (n - 2 ^ 64)

/-- Decimal digits. -/
def parseDecimal (digits : Utf16) : Option ℤ :=
  if digits = [] ∨ ∃ u ∈ digits, isDigit u.toNat = false then none
  else some (decimal (digits.map UInt16.toNat))

/-- A text without its sign. -/
def unsigned : Utf16 → Utf16
  | 43 :: digits => digits
  | 45 :: digits => digits
  | digits => digits

/-- Hexadecimal digits behind `0x`, or decimal ones. -/
def parseUnsigned : Utf16 → Option ℤ
  | 48 :: 120 :: hex => parseHex hex
  | 48 :: 88 :: hex => parseHex hex
  | digits => parseDecimal digits

/-- `int.tryParse`: an optional sign and a number that fits into 64 bits. -/
def tryParse (source : Utf16) : Option ℤ :=
  let signed := trim source
  match parseUnsigned (unsigned signed) with
  | none => none
  | some n =>
    let n := if signed.head? = some 45 then -n else n
    if -2 ^ 63 ≤ n ∧ n < 2 ^ 63 then some n else none

theorem not_isWhitespace {u : UInt16} (h : isDigit u.toNat = true) : isWhitespace u = false := by
  rw [isDigit_iff] at h
  simp only [isWhitespace, Bool.or_eq_false_iff, Bool.and_eq_false_iff, decide_eq_false_iff_not,
    UInt16.le_iff_toNat_le, List.mem_cons, List.not_mem_nil, or_false, not_or]
  have hne : ∀ n : UInt16, n.toNat < 0x30 ∨ 0x39 < n.toNat → u ≠ n := by
    intro n hn hu
    subst hu
    omega
  refine ⟨⟨Or.inr ?_, Or.inl ?_⟩, ?_⟩
  · exact fun h' => absurd h' (by show ¬ u.toNat ≤ 13; omega)
  · exact fun h' => absurd h' (by show ¬ 0x2000 ≤ u.toNat; omega)
  · refine ⟨?_, ?_, ?_, ?_, ?_, ?_, ?_, ?_, ?_, ?_⟩ <;> exact hne _ (by decide)

/-- A text of digits has nothing to trim. -/
theorem trim_digits {s : Utf16} (hd : ∀ u ∈ s, isDigit u.toNat = true) : trim s = s := by
  have hdrop : ∀ t : Utf16, (∀ u ∈ t, isDigit u.toNat = true) → t.dropWhile isWhitespace = t := by
    intro t ht
    cases t with
    | nil => rfl
    | cons u t =>
      rw [List.dropWhile_cons_of_neg]
      simp [not_isWhitespace (ht u List.mem_cons_self)]
  rw [trim, hdrop s hd, hdrop s.reverse (fun u hu => hd u (List.mem_reverse.1 hu)),
    List.reverse_reverse]

/-- At most five digits are the number they spell. -/
theorem tryParse_digits {s : Utf16} (hne : s ≠ []) (hlen : s.length ≤ 5)
    (hd : ∀ u ∈ s, isDigit u.toNat = true) :
    tryParse s = some (decimal (s.map UInt16.toNat) : ℤ) := by
  have hsmall : decimal (s.map UInt16.toNat) < 10 ^ 5 := by
    calc decimal (s.map UInt16.toNat) < 10 ^ (s.map UInt16.toNat).length := by
          apply decimal_lt
          intro c hc
          obtain ⟨u, hu, rfl⟩ := List.mem_map.1 hc
          exact hd u hu
      _ ≤ 10 ^ 5 := Nat.pow_le_pow_right (by omega) (by rw [List.length_map]; exact hlen)
  have hdec : parseDecimal s = some (decimal (s.map UInt16.toNat) : ℤ) := by
    rw [parseDecimal, if_neg]
    rintro (h | ⟨u, hu, h⟩)
    · exact hne h
    · rw [hd u hu] at h
      exact absurd h (by decide)
  obtain ⟨u, rest, rfl⟩ := List.exists_cons_of_ne_nil hne
  have hnot : ∀ (v n : UInt16), isDigit v.toNat = true → isDigit n.toNat = false → v ≠ n := by
    intro v n hv hn h
    rw [h, hn] at hv
    exact absurd hv (by decide)
  have hu := hd u List.mem_cons_self
  have hsign : unsigned (u :: rest) = u :: rest := by
    unfold unsigned
    split
    · next h => exact absurd (List.cons.inj h).1 (hnot u 43 hu (by decide))
    · next h => exact absurd (List.cons.inj h).1 (hnot u 45 hu (by decide))
    · rfl
  have hbody : parseUnsigned (u :: rest) = parseDecimal (u :: rest) := by
    unfold parseUnsigned
    split
    · next h => exact absurd rfl (hnot 120 120 (hd 120 (by rw [h]; simp)) (by decide))
    · next h => exact absurd rfl (hnot 88 88 (hd 88 (by rw [h]; simp)) (by decide))
    · rfl
  have hminus : ((u :: rest).head? = some 45) = False := by
    simpa using hnot u 45 hu (by decide)
  simp only [tryParse, trim_digits hd, hsign, hbody, hdec, hminus, if_false]
  rw [if_pos]
  omega

/-! ### `validate` and `toArgs` -/

namespace TundConfig

/-- `validate`. -/
def validate (c : TundConfig) : Option String :=
  let badPort := some "Use a port between 1 and 65535."
  match tryParse c.port with
  | none => badPort
  | some port =>
    if port < 1 ∨ 65535 < port then badPort
    else if c.key.length < 12 then some "Use a network key of at least 12 characters."
    else if c.mode = .client ∧ c.server = [] then some "Enter the server IP or hostname."
    else none

/-- `toArgs`. -/
def toArgs (c : TundConfig) : List Utf16 :=
  [units (if c.mode = .server then "server" else "client"), units "-p", c.port,
    units "--key-stdin", units "-t"] ++
  (if c.mode = .server then [units "--json-events"] else []) ++
  (if c.mode = .client then
    [units "-s", c.server, units "-n", if c.name = [] then units "tund-client" else c.name]
   else []) ++
  (if c.verbose then [units "-v"] else [])

/-- The host the configuration names: a server has none (`config_t` calls `server_ip`
"client only"), whatever is left in the field. -/
def serverHost (c : TundConfig) : Utf16 :=
  match c.mode with
  | .server => []
  | .client => c.server

/-- What the form lets through: `digitsOnly` and the `maxLength` of each field, and no
line breaks or NULs.  How the form counts the characters of a text is a parameter. -/
structure FormLimits (characters : Utf16 → ℕ) (c : TundConfig) : Prop where
  port_digits : ∀ u ∈ c.port, isDigit u.toNat = true
  port_length : c.port.length ≤ 5
  server_length : characters c.server ≤ 63
  name_length : characters c.name ≤ 31
  key_length : characters c.key ≤ 127
  plain : ∀ s ∈ [c.server, c.name, c.key], ∀ u ∈ s, u ≠ 0 ∧ u ≠ 10 ∧ u ≠ 13

/-- What the program started by the GUI makes of its command line and of the key on
standard input. -/
def started (sys : System) (prog : Bytes) (c : TundConfig) : Except CliExit Config :=
  cliParse { sys with stdin := utf8 c.key ++ [10] } (prog :: c.toArgs.map utf8)

/-- The program accepts the configuration, with its mode, port, server host and key. -/
def SameMeaning (sys : System) (prog : Bytes) (c : TundConfig) : Prop :=
  ∃ cfg, c.started sys prog = .ok cfg ∧ cfg.mode = c.mode ∧
    tryParse c.port = some (cfg.port.toNat : ℤ) ∧ cfg.serverIp = utf8 c.serverHost ∧
    cfg.accessKey = utf8 c.key

/-! ### What the program makes of it -/

/-- The options of the command line, in order. -/
def options (c : TundConfig) : List (Opt × Bytes) :=
  [(.p, utf8 c.port), (.keyStdin, []), (.t, [])] ++
  (match c.mode with
    | .server => [(.jsonEvents, [])]
    | .client =>
      [(.s, utf8 c.server), (.n, utf8 (if c.name = [] then units "tund-client" else c.name))]) ++
  (if c.verbose then [(.v, [])] else [])

/-- `getopt_long` finds the options that `toArgs` writes, whatever the fields hold. -/
theorem getoptLong_toArgs (c : TundConfig) : getoptLong (c.toArgs.tail.map utf8) = c.options := by
  obtain ⟨mode, server, port, name, key, verbose⟩ := c
  cases mode <;> cases verbose <;> rfl

/-- What `validate` lets through. -/
theorem validate_eq_none {c : TundConfig} (h : c.validate = none) :
    (∃ port, tryParse c.port = some port ∧ 1 ≤ port ∧ port ≤ 65535) ∧ 12 ≤ c.key.length ∧
    (c.mode = .client → c.server ≠ []) := by
  simp only [validate] at h
  cases hp : tryParse c.port with
  | none => simp [hp] at h
  | some port =>
    simp only [hp] at h
    split_ifs at h with hrange hkey hserver
    refine ⟨⟨port, rfl, by omega, by omega⟩, by omega, fun hm hs => hserver ⟨hm, hs⟩⟩

/-- The port of an accepted configuration is read by the two parsers alike. -/
theorem parsePort_port {characters : Utf16 → ℕ} {c : TundConfig} (hf : c.FormLimits characters)
    (hv : c.validate = none) :
    ∃ port : UInt16, tryParse c.port = some (port.toNat : ℤ) ∧
      ∀ cfg, parsePort (utf8 c.port) cfg = .ok { cfg with port := port } := by
  obtain ⟨⟨port, hport, hlow, hhigh⟩, -, -⟩ := validate_eq_none hv
  have hne : c.port ≠ [] := by
    intro h
    rw [h, show tryParse [] = none from rfl] at hport
    exact absurd hport (by simp)
  rw [tryParse_digits hne hf.port_length hf.port_digits] at hport ⊢
  have hascii : utf8 c.port = c.port.map fun u => UInt8.ofNat u.toNat := by
    apply utf8_of_ascii
    intro u hu
    have := isDigit_iff.1 (hf.port_digits u hu)
    omega
  have hbytes : (utf8 c.port).map UInt8.toNat = c.port.map UInt16.toNat := by
    rw [hascii, List.map_map]
    apply List.map_congr_left
    intro u hu
    have := isDigit_iff.1 (hf.port_digits u hu)
    rw [Function.comp_apply, UInt8.toNat_ofNat', Nat.mod_eq_of_lt (by omega)]
  have hdigits : ∀ b ∈ utf8 c.port, isDigit b.toNat = true := by
    intro b hb
    have hmem : b.toNat ∈ c.port.map UInt16.toNat := hbytes ▸ List.mem_map_of_mem hb
    obtain ⟨u, hu, heq⟩ := List.mem_map.1 hmem
    rw [← heq]
    exact hf.port_digits u hu
  have hstrtol := strtol_digits (by simpa using hne) hdigits
  rw [hbytes] at hstrtol
  set n := decimal (c.port.map UInt16.toNat)
  have hn : (n : ℤ) = port := Option.some.inj hport
  have hbound : n < 2 ^ 16 := by omega
  refine ⟨UInt16.ofNat n, ?_, ?_⟩
  · rw [UInt16.toNat_ofNat', Nat.mod_eq_of_lt hbound]
  · intro cfg
    have hmin : min (n : ℤ) (2 ^ 63 - 1) = n := min_eq_left (by omega)
    simp only [parsePort, hstrtol, hmin]
    rw [if_neg (by simp only [ne_eq, not_true_eq_false, false_or]; omega), Int.toNat_natCast]

/-- The configuration when the key is about to be read. -/
def beforeKey (c : TundConfig) (port : UInt16) : Config :=
  { Config.initial with mode := c.mode, port := port, keyFromStdin := true }

/-- The configuration after the options behind `--key-stdin`. -/
def afterKey (c : TundConfig) (cfg : Config) : Config :=
  let cfg := { cfg with tuiMode := false }
  let cfg := match c.mode with
    | .server => { cfg with jsonEvents := true }
    | .client =>
      { cfg with
        serverIp := (utf8 c.server).take (serverIpSize - 1)
        clientName := (utf8 (if c.name = [] then units "tund-client" else c.name)).take
          (nameSize - 1) }
  if c.verbose then { cfg with logLevel := .debug } else cfg

/-- A run of the program: the port and the key are read, then the other options. -/
theorem started_eq {c : TundConfig} {port : UInt16} (sys : System) (prog : Bytes)
    (hport : ∀ cfg, parsePort (utf8 c.port) cfg = .ok { cfg with port := port }) :
    c.started sys prog =
      (readKeyLine (c.beforeKey port) (utf8 c.key ++ [10]) (ascii "stdin")).bind fun cfg =>
      validateConfig { sys with stdin := utf8 c.key ++ [10] } (c.afterKey cfg) := by
  have hargs : c.toArgs.map utf8 =
      utf8 (units (if c.mode = .server then "server" else "client")) ::
        c.toArgs.tail.map utf8 := rfl
  have hmode : parseMode (utf8 (units (if c.mode = .server then "server" else "client")))
      Config.initial = .ok { Config.initial with mode := c.mode } := by
    cases c.mode <;> rfl
  simp only [started, cliParse, hargs, hmode, getoptLong_toArgs, Except.bind]
  obtain ⟨mode, server, portText, name, key, verbose⟩ := c
  simp only [beforeKey]
  cases hread : readKeyLine { Config.initial with mode := mode, port := port, keyFromStdin := true }
      (utf8 key ++ [10]) (ascii "stdin") <;>
    cases mode <;> cases verbose <;>
    simp [options, List.foldlM_cons, cliOption, takeKey, readKeyFromStream, hport, hread,
      Except.map, afterKey, bind, Except.bind, pure, Except.pure]

/-- The UTF-8 form of a text without line breaks and NULs has none either. -/
theorem FormLimits.utf8_key {characters : Utf16 → ℕ} {c : TundConfig}
    (hf : c.FormLimits characters) : ∀ b ∈ utf8 c.key, b ≠ 0 ∧ b ≠ 10 ∧ b ≠ 13 := by
  intro b hb
  have hunit : b < 0x80 → UInt16.ofNat b.toNat ≠ 0 ∧ UInt16.ofNat b.toNat ≠ 10 ∧
      UInt16.ofNat b.toNat ≠ 13 := fun h =>
    hf.plain c.key (by simp) _ (unit_mem_of_mem_utf8 h hb)
  refine ⟨?_, ?_, ?_⟩ <;> rintro rfl
  · exact (hunit (by decide)).1 rfl
  · exact (hunit (by decide)).2.1 rfl
  · exact (hunit (by decide)).2.2 rfl

/-- The configuration before `validate_config`, when the key was stored. -/
def ready (c : TundConfig) (port : UInt16) : Config :=
  c.afterKey { c.beforeKey port with accessKey := utf8 c.key }

theorem ready_fields (c : TundConfig) (port : UInt16) :
    (c.ready port).mode = c.mode ∧ (c.ready port).port = port ∧
    (c.ready port).accessKey = utf8 c.key ∧
    (c.ready port).serverIp = (utf8 c.serverHost).take (serverIpSize - 1) := by
  obtain ⟨mode, server, portText, name, key, verbose⟩ := c
  cases mode <;> cases verbose <;>
    simp [ready, afterKey, beforeKey, Config.initial, serverHost, utf8]

/-- `validate_config` changes nothing but the name. -/
theorem validateConfig_ok (sys : System) {cfg : Config} (hkey : 12 ≤ cfg.accessKey.length)
    (hserver : cfg.mode = .client → cfg.serverIp ≠ []) :
    ∃ name, validateConfig sys cfg = .ok { cfg with clientName := name } := by
  have hs : ¬ (cfg.mode = .client ∧ cfg.serverIp = []) := fun h => hserver h.1 h.2
  simp only [validateConfig, if_neg hs]
  split_ifs with hname hshort hshort
  · exact absurd hshort (by show ¬ cfg.accessKey.length < 12; omega)
  · exact ⟨_, rfl⟩
  · exact absurd hshort (by omega)
  · exact ⟨cfg.clientName, rfl⟩

/-- The program reads an accepted configuration back exactly when the key leaves room for
its NUL in `access_key` and, for a client, the host leaves room in `server_ip`: both
counted in bytes of UTF-8.  A longer key is refused, a longer host is cut. -/
theorem same_meaning_iff_fits (characters : Utf16 → ℕ) (sys : System) (prog : Bytes)
    (c : TundConfig) (hf : c.FormLimits characters) (hv : c.validate = none) :
    c.SameMeaning sys prog ↔
      (utf8 c.key).length ≤ 127 ∧ (c.mode = .client → (utf8 c.server).length ≤ 63) := by
  obtain ⟨port, hport, hparse⟩ := parsePort_port hf hv
  obtain ⟨-, hkeylen, hserver⟩ := validate_eq_none hv
  obtain ⟨hfits, hlong⟩ := readKeyLine_ended hf.utf8_key (c.beforeKey port)
    (ascii "stdin") (.lf []) (.inr nofun)
  simp only [LineEnd.bytes] at hfits hlong
  have hrun := started_eq sys prog hparse
  by_cases hkey : (utf8 c.key).length < accessKeySize
  · -- the key is stored; what is left is the copy of the host
    rw [hfits hkey, Except.bind, ← ready] at hrun
    obtain ⟨hmode, hp, hk, hs⟩ := ready_fields c port
    have hhost : (c.ready port).mode = .client → (c.ready port).serverIp ≠ [] := by
      intro hm h
      rw [hmode] at hm
      have hhost : c.serverHost = c.server := by rw [serverHost, hm]
      rw [hs, hhost, List.take_eq_nil_iff, utf8_eq_nil] at h
      exact h.elim (by decide) (hserver hm)
    have hlen := length_le_utf8 c.key
    obtain ⟨name, hvalid⟩ := validateConfig_ok { sys with stdin := utf8 c.key ++ [10] }
      (by rw [hk]; omega) hhost
    rw [hvalid] at hrun
    -- the host survives the copy exactly when it is short enough
    have hcopy : (c.ready port).serverIp = utf8 c.serverHost ↔
        (c.mode = .client → (utf8 c.server).length ≤ 63) := by
      rw [hs, List.take_eq_self_iff]
      cases hm : c.mode with
      | server => simp [serverHost, hm, utf8]
      | client => simp [serverHost, hm, serverIpSize]
    constructor
    · rintro ⟨cfg', hcfg', -, -, hip, -⟩
      rw [hrun, Except.ok.injEq] at hcfg'
      subst hcfg'
      exact ⟨Nat.le_of_lt_succ hkey, hcopy.1 hip⟩
    · rintro ⟨-, hip⟩
      exact ⟨_, hrun, hmode, by rw [hport]; exact congrArg _ (by rw [hp]), hcopy.2 hip, hk⟩
  · -- the key is refused
    obtain ⟨message, hmessage⟩ := hlong (by omega)
    rw [hmessage, Except.bind] at hrun
    constructor
    · rintro ⟨cfg', hcfg', -⟩
      rw [hrun] at hcfg'
      exact absurd hcfg' (by simp)
    · rintro ⟨h, -⟩
      exact absurd (Nat.lt_succ_of_le h) hkey

/-- A client of `203.0.113.10` whose key is `n` times `é`, a character of two bytes. -/
def accented (n : ℕ) : TundConfig where
  mode := .client
  server := units "203.0.113.10"
  port := units "9909"
  name := []
  key := List.replicate n 0xE9
  verbose := false

/-- A computer without key files and host name. -/
def bareSystem : System where
  stdin := []
  fopen := fun _ => .error []
  hostname := none

theorem accented_limits {n : ℕ} (h : n ≤ 127) : (accented n).FormLimits List.length where
  port_digits := by
    show ∀ u ∈ units "9909", isDigit u.toNat = true
    exact List.all_eq_true.1 (by decide)
  port_length := by show (units "9909").length ≤ 5; decide
  server_length := by show (units "203.0.113.10").length ≤ 63; decide
  name_length := Nat.zero_le _
  key_length := by
    show (List.replicate n (0xE9 : UInt16)).length ≤ 127
    rw [List.length_replicate]
    exact h
  plain := by
    intro s hs u hu
    simp only [accented, List.mem_cons, List.not_mem_nil, or_false] at hs
    rcases hs with rfl | rfl | rfl
    · have hall : (units "203.0.113.10").all (fun u => u ≠ 0 ∧ u ≠ 10 ∧ u ≠ 13) = true := by decide
      exact of_decide_eq_true (List.all_eq_true.1 hall u hu)
    · exact absurd hu List.not_mem_nil
    · rw [(List.mem_replicate.1 hu).2]
      decide

/-- Sixty-three times `é` still fits. -/
theorem same_meaning_iff_fits_accented :
    (accented 63).FormLimits List.length ∧ (accented 63).validate = none ∧
    (accented 63).SameMeaning bareSystem (ascii "tund-cli") := by
  have hf := accented_limits (n := 63) (by decide)
  have hv : (accented 63).validate = none := by decide +kernel
  exact ⟨hf, hv, (same_meaning_iff_fits _ bareSystem (ascii "tund-cli") _ hf hv).2
    (by decide +kernel)⟩

/-- A key of sixty-four characters, which the form and `validate` accept, is refused as
longer than 127 characters. -/
theorem accented_key_refused :
    (accented 64).FormLimits List.length ∧ (accented 64).validate = none ∧
    (accented 64).started bareSystem (ascii "tund-cli") = .error (.exitError
      (ascii "Error: shared access key is too long (max 127 characters).\n")) ∧
    ¬ (accented 64).SameMeaning bareSystem (ascii "tund-cli") := by
  have hrun : (accented 64).started bareSystem (ascii "tund-cli") = .error (.exitError
      (ascii "Error: shared access key is too long (max 127 characters).\n")) := by
    decide +kernel
  refine ⟨accented_limits (by decide), by decide +kernel, hrun, ?_⟩
  rintro ⟨cfg, hcfg, -⟩
  rw [hrun] at hcfg
  exact absurd hcfg (by simp)

end TundConfig

end Tund
