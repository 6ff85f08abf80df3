import Tund.App.Cli

/-!
# The three sources of the key

The shared key comes with `-k`, from a file or from standard input, and all peers of a
network must end up with the same bytes.  `KeyWay` is the choice, `KeyWay.Leads` says
that the chosen source holds the key and `OtherArgs` that the other words on the command
line are in order.  A source changes nothing but the key and `key_from_stdin`
(`foldlM_other`), and what it stores is what `readKeyLine_ended` says.
-/

namespace Tund

open Bytes Text

/-- How the key is handed over. -/
inductive KeyWay
  | arg
  | file (path : Bytes)
  | stdin

/-- The words on the command line. -/
def KeyWay.words (key : Bytes) : KeyWay → List Bytes
  | .arg => [ascii "-k", key]
  | .file path => [ascii "--key-file", path]
  | .stdin => [ascii "--key-stdin"]

/-- The option they are. -/
def KeyWay.option (key : Bytes) : KeyWay → Opt × Bytes
  | .arg => (.k, key)
  | .file path => (.keyFile, path)
  | .stdin => (.keyStdin, [])

/-- The source that `cli_parse` notes. -/
def KeyWay.source : KeyWay → KeySource
  | .arg => .arg
  | .file _ => .file
  | .stdin => .stdin

/-- The key comes from standard input. -/
def KeyWay.isStdin : KeyWay → Bool
  | .stdin => true
  | _ => false

/-- The source holds the key, and the line of a file or of standard input ends with `e`. -/
def KeyWay.Leads (sys : System) (key : Bytes) (e : LineEnd) : KeyWay → Prop
  | .arg => True
  | .file path => sys.fopen path = .ok (key ++ e.bytes)
  | .stdin => sys.stdin = key ++ e.bytes

/-- The option takes a key. -/
def Opt.isKey : Opt → Bool
  | .k => true
  | .keyFile => true
  | .keyStdin => true
  | _ => false

/-- The words before and after those of the key are in order: the ones before are complete, none
takes a key, and apart from the key the program would start with them. -/
structure OtherArgs (sys : System) (mode : Bytes) (before after : List Bytes) : Prop where
  complete : ∀ words, getoptLong (before ++ words) = getoptLong before ++ getoptLong words
  noKey : ∀ o ∈ getoptLong before ++ getoptLong after, o.1.isKey = false
  valid : ∃ cfg₀ cfg, parseMode mode Config.initial = .ok cfg₀ ∧
    (getoptLong before ++ getoptLong after).foldlM (cliOption sys) (cfg₀, KeySource.none) =
      .ok (cfg, KeySource.none) ∧
    (cfg.mode = .client → cfg.serverIp ≠ [])

/-- The configuration with another key. -/
def Config.withKey (cfg : Config) (key : Bytes) (fromStdin : Bool) : Config :=
  { cfg with accessKey := key, keyFromStdin := fromStdin }

section Options

variable {sys : System}

theorem getoptLong_words (key : Bytes) (way : KeyWay) (after : List Bytes) :
    getoptLong (way.words key ++ after) = way.option key :: getoptLong after := by
  cases way <;> rfl

/-- The other options do not look at the key. -/
theorem cliOption_other {o : Opt × Bytes} (ho : o.1.isKey = false) (cfg : Config) (source : KeySource)
    (key : Bytes) (fromStdin : Bool) :
    cliOption sys (cfg.withKey key fromStdin, source) o =
      (cliOption sys (cfg, KeySource.none) o).map fun state =>
        (state.1.withKey key fromStdin, source) := by
  obtain ⟨opt, optarg⟩ := o
  cases opt with
  | p =>
    simp only [cliOption, parsePort]
    cases strtol optarg with
    | none => rfl
    | some r =>
      simp only
      split_ifs <;> rfl
  | k => cases ho
  | keyFile => cases ho
  | keyStdin => cases ho
  | _ => rfl

/-- Nor does a list of them. -/
theorem foldlM_other {opts : List (Opt × Bytes)} (ho : ∀ o ∈ opts, o.1.isKey = false) (cfg : Config)
    (source : KeySource) (key : Bytes) (fromStdin : Bool) :
    opts.foldlM (cliOption sys) (cfg.withKey key fromStdin, source) =
      (opts.foldlM (cliOption sys) (cfg, KeySource.none)).map fun state =>
        (state.1.withKey key fromStdin, source) := by
  induction opts generalizing cfg with
  | nil => rfl
  | cons o opts ih =>
    have hother := @cliOption_other sys o (ho o (by simp)) cfg source key fromStdin
    have hnone := @cliOption_other sys o (ho o (by simp)) cfg .none cfg.accessKey
      cfg.keyFromStdin
    rw [List.foldlM_cons, List.foldlM_cons, hother]
    cases hfirst : cliOption sys (cfg, KeySource.none) o with
    | error x => rfl
    | ok state =>
      -- the source is still none after the first option
      obtain ⟨cfg', source'⟩ := state
      have hsource : source' = .none := by
        have : cfg.withKey cfg.accessKey cfg.keyFromStdin = cfg := rfl
        rw [this, hfirst] at hnone
        simpa [Except.map] using (Prod.mk.inj (Except.ok.inj hnone)).2
      subst hsource
      exact ih (fun o' ho' => ho o' (List.mem_cons_of_mem _ ho')) cfg'

end Options

theorem storeAccessKey_cases (cfg : Config) (key : Bytes) :
    (accessKeySize ≤ key.length ∧
      ∃ message, storeAccessKey cfg key = .error (.exitError message)) ∨
    (key.length < accessKeySize ∧ storeAccessKey cfg key = .ok { cfg with accessKey := key }) := by
  unfold storeAccessKey
  split_ifs with h
  · exact .inl ⟨h, _, rfl⟩
  · exact .inr ⟨by omega, rfl⟩

/-- The line of a file or of standard input. -/
theorem readKeyLine_cases {key : Bytes} (hkey : ∀ b ∈ key, b ≠ 0 ∧ b ≠ 10 ∧ b ≠ 13) (cfg : Config)
    (source : Bytes) (e : LineEnd) :
    ((key = [] ∨ accessKeySize ≤ key.length) ∧
      ∃ message, readKeyLine cfg (key ++ e.bytes) source = .error (.exitError message)) ∨
    (key.length < accessKeySize ∧
      readKeyLine cfg (key ++ e.bytes) source = .ok { cfg with accessKey := key }) := by
  by_cases hne : key ≠ [] ∨ e ≠ .eof
  · obtain ⟨hfits, hlong⟩ := readKeyLine_ended hkey cfg source e hne
    by_cases hlen : key.length < accessKeySize
    · exact .inr ⟨hlen, hfits hlen⟩
    · exact .inl ⟨.inr (by omega), hlong (by omega)⟩
  · -- an empty stream: `fgets` returns NULL
    rw [not_or, not_not, not_not] at hne
    rw [hne.1, hne.2]
    exact .inl ⟨.inl rfl, _, rfl⟩

/-- **One source.**  It stores the key that fits and refuses the key that does not; of the empty
key, which is refused later, it may do either. -/
theorem cliOption_key {sys : System} {key : Bytes} (hkey : ∀ b ∈ key, b ≠ 0 ∧ b ≠ 10 ∧ b ≠ 13)
    {e : LineEnd} {way : KeyWay} (hway : way.Leads sys key e) (cfg : Config) :
    ((key = [] ∨ accessKeySize ≤ key.length) ∧
      ∃ message, cliOption sys (cfg, KeySource.none) (way.option key) =
        .error (.exitError message)) ∨
    (key.length < accessKeySize ∧
      cliOption sys (cfg, KeySource.none) (way.option key) =
        .ok (cfg.withKey key (cfg.keyFromStdin || way.isStdin), way.source)) := by
  cases way with
  | arg =>
    have hopt : cliOption sys (cfg, KeySource.none) (KeyWay.arg.option key) =
        (storeAccessKey cfg key).map fun cfg => (cfg, KeySource.arg) := rfl
    rcases storeAccessKey_cases cfg key with ⟨hlen, message, h⟩ | ⟨hlen, h⟩
    · exact .inl ⟨.inr hlen, message, by rw [hopt, h]; rfl⟩
    · refine .inr ⟨hlen, ?_⟩
      rw [hopt, h]
      simp [Except.map, Config.withKey, KeyWay.isStdin, KeyWay.source]
  | file path =>
    have hopen : sys.fopen path = .ok (key ++ e.bytes) := hway
    have hopt : cliOption sys (cfg, KeySource.none) ((KeyWay.file path).option key) =
        (readKeyLine cfg (key ++ e.bytes) path).map fun cfg => (cfg, KeySource.file) := by
      simp [cliOption, KeyWay.option, takeKey, readKeyFromFile, hopen, readKeyFromStream]
    rcases readKeyLine_cases hkey cfg path e with ⟨hlen, message, h⟩ | ⟨hlen, h⟩
    · exact .inl ⟨hlen, message, by rw [hopt, h]; rfl⟩
    · refine .inr ⟨hlen, ?_⟩
      rw [hopt, h]
      simp [Except.map, Config.withKey, KeyWay.isStdin, KeyWay.source]
  | stdin =>
    have hin : sys.stdin = key ++ e.bytes := hway
    have hopt : cliOption sys (cfg, KeySource.none) (KeyWay.stdin.option key) =
        (readKeyLine { cfg with keyFromStdin := true } (key ++ e.bytes) (ascii "stdin")).map
          fun cfg => (cfg, KeySource.stdin) := by
      simp [cliOption, KeyWay.option, takeKey, hin, readKeyFromStream]
    rcases readKeyLine_cases hkey { cfg with keyFromStdin := true } (ascii "stdin") e with
      ⟨hlen, message, h⟩ | ⟨hlen, h⟩
    · exact .inl ⟨hlen, message, by rw [hopt, h]; rfl⟩
    · refine .inr ⟨hlen, ?_⟩
      rw [hopt, h]
      simp [Except.map, Config.withKey, KeyWay.isStdin, KeyWay.source]

/-- The configuration of a program that starts, up to the key. -/
def Config.named (sys : System) (cfg : Config) : Config :=
  if cfg.mode = .client ∧ cfg.clientName = [] then
    { cfg with
      clientName := match sys.hostname with
        | some host => host.take (nameSize - 1)
        | none => ascii "tund-client" }
  else cfg

theorem named_withKey (sys : System) (cfg : Config) (key : Bytes) (fromStdin : Bool) :
    (cfg.withKey key fromStdin).named sys = (cfg.named sys).withKey key fromStdin := by
  by_cases hname : cfg.mode = .client ∧ cfg.clientName = []
  · have hname' : (cfg.withKey key fromStdin).mode = .client ∧
        (cfg.withKey key fromStdin).clientName = [] := hname
    rw [Config.named, if_pos hname', Config.named, if_pos hname]
    rfl
  · have hname' : ¬ ((cfg.withKey key fromStdin).mode = .client ∧
        (cfg.withKey key fromStdin).clientName = []) := hname
    rw [Config.named, if_neg hname', Config.named, if_neg hname]

theorem validateConfig_withKey (sys : System) {cfg : Config} (key : Bytes) (fromStdin : Bool)
    (hserver : cfg.mode = .client → cfg.serverIp ≠ []) :
    (12 ≤ key.length → validateConfig sys (cfg.withKey key fromStdin) =
      .ok ((cfg.named sys).withKey key fromStdin)) ∧
    (key.length < 12 → ∃ message, validateConfig sys (cfg.withKey key fromStdin) =
      .error (.exitError message)) := by
  have hserver' : ¬ ((cfg.withKey key fromStdin).mode = .client ∧
      (cfg.withKey key fromStdin).serverIp = []) := fun h => hserver h.1 h.2
  have hvalid : ∃ message, validateConfig sys (cfg.withKey key fromStdin) =
      if ((cfg.withKey key fromStdin).named sys).accessKey.length < 12 then
        .error (.exitError message)
      else .ok ((cfg.withKey key fromStdin).named sys) :=
    ⟨_, by rw [validateConfig, if_neg hserver']; rfl⟩
  obtain ⟨message, hvalid⟩ := hvalid
  have hlen : ((cfg.named sys).withKey key fromStdin).accessKey.length = key.length := rfl
  rw [hvalid, named_withKey, hlen]
  constructor
  · intro h
    rw [if_neg (by omega)]
  · intro h
    exact ⟨message, by rw [if_pos h]⟩

theorem parseMode_keyFromStdin {mode : Bytes} {cfg : Config}
    (h : parseMode mode Config.initial = .ok cfg) : cfg.keyFromStdin = false := by
  unfold parseMode at h
  split_ifs at h <;> cases h <;> rfl

/-- What other options leave of the source and of `key_from_stdin`. -/
theorem keeps_of_foldlM_other {sys : System} {opts : List (Opt × Bytes)}
    (ho : ∀ o ∈ opts, o.1.isKey = false) {cfg cfg' : Config} {source : KeySource}
    (h : opts.foldlM (cliOption sys) (cfg, KeySource.none) = .ok (cfg', source)) :
    source = .none ∧ cfg'.keyFromStdin = cfg.keyFromStdin := by
  have hself := @foldlM_other sys opts ho cfg .none cfg.accessKey cfg.keyFromStdin
  have hcfg : cfg.withKey cfg.accessKey cfg.keyFromStdin = cfg := rfl
  rw [hcfg, h] at hself
  obtain ⟨hcfg', hsource⟩ := Prod.mk.inj (Except.ok.inj hself)
  refine ⟨hsource, ?_⟩
  rw [hcfg']
  rfl

/-- The whole parse, from the option of the key on. -/
theorem cliParse_key {sys : System} {mode : Bytes} {before after : List Bytes}
    (hargs : OtherArgs sys mode before after) {key : Bytes}
    (hkey : ∀ b ∈ key, b ≠ 0 ∧ b ≠ 10 ∧ b ≠ 13) (e : LineEnd) :
    ∃ cfg : Config, (cfg.mode = .client → cfg.serverIp ≠ []) ∧
      ∀ (way : KeyWay) (prog : Bytes), way.Leads sys key e →
        ((key = [] ∨ accessKeySize ≤ key.length) ∧ ∃ message,
          cliParse sys (prog :: mode :: (before ++ (way.words key ++ after))) =
            .error (.exitError message)) ∨
        (key.length < accessKeySize ∧
          cliParse sys (prog :: mode :: (before ++ (way.words key ++ after))) =
            validateConfig sys (cfg.withKey key way.isStdin)) := by
  obtain ⟨cfg₀, cfg, hmode, hfold, hserver⟩ := hargs.valid
  have hbefore : ∀ o ∈ getoptLong before, o.1.isKey = false := fun o ho =>
    hargs.noKey o (List.mem_append_left _ ho)
  have hafter : ∀ o ∈ getoptLong after, o.1.isKey = false := fun o ho =>
    hargs.noKey o (List.mem_append_right _ ho)
  refine ⟨cfg, hserver, fun way prog hway => ?_⟩
  rw [List.foldlM_append] at hfold
  cases hfirst : (getoptLong before).foldlM (cliOption sys) (cfg₀, KeySource.none) with
  | error x =>
    rw [hfirst] at hfold
    cases hfold
  | ok state =>
    obtain ⟨cfg₁, source₁⟩ := state
    obtain ⟨rfl, hstdin⟩ := keeps_of_foldlM_other hbefore hfirst
    rw [hfirst] at hfold
    have hrest : (getoptLong after).foldlM (cliOption sys) (cfg₁, KeySource.none) =
        .ok (cfg, KeySource.none) := hfold
    have hparse : cliParse sys (prog :: mode :: (before ++ (way.words key ++ after))) =
        ((cliOption sys (cfg₁, KeySource.none) (way.option key)).bind fun state =>
          (getoptLong after).foldlM (cliOption sys) state).bind fun state =>
            validateConfig sys state.1 := by
      have hopts : getoptLong (before ++ (way.words key ++ after)) =
          getoptLong before ++ way.option key :: getoptLong after := by
        rw [hargs.complete, getoptLong_words]
      simp only [cliParse, hmode, hopts, List.foldlM_append, List.foldlM_cons]
      show ((getoptLong before).foldlM (cliOption sys) (cfg₀, KeySource.none) >>= _).bind _ = _
      rw [hfirst]
      rfl
    rcases cliOption_key hkey hway cfg₁ with ⟨hlen, message, h⟩ | ⟨hlen, h⟩
    · exact .inl ⟨hlen, message, by rw [hparse, h]; rfl⟩
    · refine .inr ⟨hlen, ?_⟩
      rw [hparse, h, hstdin, parseMode_keyFromStdin hmode, Bool.false_or]
      show ((getoptLong after).foldlM (cliOption sys)
        (cfg₁.withKey key way.isStdin, way.source)).bind _ = _
      rw [foldlM_other hafter, hrest]
      rfl

/-- **Key sources.**  A key without NUL, CR and LF that is handed over with `-k`, in a file or on
standard input, ended by the end of the stream, by LF or by CRLF, has the same outcome every way:
the configuration with exactly this key if it has 12 to 127 bytes, and an error otherwise. -/
theorem key_sources_agree (sys : System) (prog mode : Bytes) (before after : List Bytes)
    (hargs : OtherArgs sys mode before after) (key : Bytes)
    (hkey : ∀ b ∈ key, b ≠ 0 ∧ b ≠ 10 ∧ b ≠ 13) (e : LineEnd) :
    (12 ≤ key.length ∧ key.length ≤ 127 →
      ∃ cfg : Config, ∀ way : KeyWay, way.Leads sys key e →
        cliParse sys (prog :: mode :: (before ++ (way.words key ++ after))) =
          .ok { cfg with accessKey := key, keyFromStdin := way.isStdin }) ∧
    (¬ (12 ≤ key.length ∧ key.length ≤ 127) →
      ∀ way : KeyWay, way.Leads sys key e →
        ∃ message, cliParse sys (prog :: mode :: (before ++ (way.words key ++ after))) =
          .error (.exitError message)) := by
  obtain ⟨cfg, hserver, hparse⟩ := cliParse_key hargs hkey e
  have hsize : accessKeySize = 128 := rfl
  constructor
  · rintro ⟨hlo, hhi⟩
    refine ⟨cfg.named sys, fun way hway => ?_⟩
    rcases hparse way prog hway with ⟨hbad, -⟩ | ⟨-, h⟩
    · rcases hbad with rfl | hlong
      · exact absurd hlo (by simp)
      · omega
    · rw [h]
      exact (validateConfig_withKey sys key way.isStdin hserver).1 hlo
  · intro hbad way hway
    rcases hparse way prog hway with ⟨-, h⟩ | ⟨hlen, h⟩
    · exact h
    · rw [h]
      exact (validateConfig_withKey sys key way.isStdin hserver).2 (by omega)

/-- A key of 13 bytes in a file with CRLF, for a server on another port. -/
theorem key_sources_agree_crlf :
    let sys : System := ⟨[], fun _ => .ok (ascii "a-long-secret" ++ [13, 10, 120]), none⟩
    ∃ cfg, cliParse sys [ascii "tund-cli", ascii "server", ascii "-p", ascii "9000",
        ascii "--key-file", ascii "tund.key"] = .ok cfg ∧ cfg.accessKey = ascii "a-long-secret" := by
  intro sys
  have hargs : OtherArgs sys (ascii "server") [ascii "-p", ascii "9000"] [] := by
    refine ⟨fun words => rfl, by decide, ?_⟩
    exact ⟨Config.initial, { Config.initial with port := 9000 }, rfl, rfl, nofun⟩
  obtain ⟨hok, -⟩ := key_sources_agree sys (ascii "tund-cli") (ascii "server") _ [] hargs
    (ascii "a-long-secret") (by decide +kernel) (.crlf [120])
  obtain ⟨cfg, hcfg⟩ := hok (by decide)
  exact ⟨_, hcfg (.file (ascii "tund.key")) rfl, rfl⟩

end Tund
