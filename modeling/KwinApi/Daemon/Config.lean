import KwinApi.Daemon.Text
import Mathlib.Tactic.NormNum
import Mathlib.Tactic.SplitIfs

/-!
# The configuration of the daemon

`config.cpp`: the settings are read from an environment map and the command line, and every value
that cannot be used leaves an entry in `errors`. Character classes are those of the C locale.

## Main definitions

* `KwinApi.stol` — `std::stol` in base 10
* `KwinApi.parseInt`, `parseBufferCap` — the numeric settings
* `KwinApi.isValidDbusName` — the test for D-Bus names
* `KwinApi.loadConfig` — `load_config`
* `KwinApi.AcceptedRxCap` — the RX capacities `load_config` lets through without an error

## Main results

* `KwinApi.isValidDbusName_of_errors_eq_nil` — a configuration without errors has a valid name
* `KwinApi.AcceptedRxCap.eq_zero_or_le` — an accepted capacity is 0 or at least `kMinBufferCap`
-/

namespace KwinApi

/-- The smallest non-zero buffer capacity that is accepted. -/
def kMinBufferCap : ℕ := 64

/-! ### Numbers -/

/-- `std::isspace` -/
def isSpace (c : UInt8) : Bool := c = 32 ∨ (9 ≤ c ∧ c ≤ 13)

/-- `std::isdigit` -/
def isDigit (c : UInt8) : Bool := 48 ≤ c ∧ c ≤ 57

/-- `std::isalpha` -/
def isAlpha (c : UInt8) : Bool := (65 ≤ c ∧ c ≤ 90) ∨ (97 ≤ c ∧ c ≤ 122)

/-- The optional sign of a number: whether it is a minus, and what follows. -/
def splitSign : List UInt8 → Bool × List UInt8
  | [] => (false, [])
  | c :: cs => if c = 45 then (true, cs) else if c = 43 then (false, cs) else (false, c :: cs)

/-- `std::stol(value, &pos)`: the number and the position behind it. It throws, here `none`, when
there is no number and when the number does not fit a `long`. -/
def stol (value : List UInt8) : Option (ℤ × ℕ) :=
  let (negative, rest) := splitSign (value.dropWhile isSpace)
  let digits := rest.takeWhile isDigit
  let n : ℕ := digits.foldl (fun acc d => 10 * acc + (d.toNat - 48)) 0
  let parsed : ℤ := if negative then -(n : ℤ) else n
  if digits = [] then none
  else if parsed < -2 ^ 63 ∨ 2 ^ 63 ≤ parsed then none
  else some (parsed, value.length - (rest.dropWhile isDigit).length)

/-- `static_cast<int>` -/
def castInt (n : ℤ) : ℤ := Int.bmod n (2 ^ 32)

/-! ### The settings -/

/-- The names of the environment variables. -/
def kEnvServiceName := ascii "KWIN_API_SERVICE_NAME"
@[inherit_doc kEnvServiceName] def kEnvScriptPath := ascii "KWIN_SCRIPT_PATH"
@[inherit_doc kEnvServiceName] def kEnvPluginName := ascii "KWIN_PLUGIN_NAME"
@[inherit_doc kEnvServiceName] def kEnvWorkDir := ascii "KWIN_WORK_DIR"
@[inherit_doc kEnvServiceName] def kEnvLoadRetries := ascii "KWIN_LOAD_RETRIES"
@[inherit_doc kEnvServiceName] def kEnvLoadRetryDelayMs := ascii "KWIN_LOAD_RETRY_DELAY_MS"
@[inherit_doc kEnvServiceName] def kEnvMaxClients := ascii "KWIN_MAX_CLIENTS"
@[inherit_doc kEnvServiceName] def kEnvRxBufferCap := ascii "KWIN_RX_BUFFER_CAP"
@[inherit_doc kEnvServiceName] def kEnvTxBufferCap := ascii "KWIN_TX_BUFFER_CAP"
@[inherit_doc kEnvServiceName] def kEnvDebug := ascii "KWIN_DEBUG"

/-- An environment. -/
abbrev Env := List UInt8 → Option (List UInt8)

/-- A variable that is not set is empty. -/
def getEnv (env : Env) (key : List UInt8) : List UInt8 := (env key).getD []

/-- The error of a number that is none. -/
def errorNotInteger (name value : List UInt8) : List UInt8 :=
  name ++ ascii " must be a non-negative integer, got \"" ++ value ++ ascii "\""

/-- A non-negative integer; the fallback and an error when it cannot be read. -/
def parseInt (value : List UInt8) (fallback : ℤ) (name : List UInt8)
    (errors : List (List UInt8)) : ℤ × List (List UInt8) :=
  if value = [] then (fallback, errors)
  else
    match stol value with
    | none => (fallback, errors ++ [errorNotInteger name value])
    | some (parsed, pos) =>
      if pos ≠ value.length ∨ parsed < 0 then (fallback, errors ++ [errorNotInteger name value])
      else (castInt parsed, errors)

/-- A buffer capacity: 0 for the default or at least `kMinBufferCap`; 0 and an error otherwise. -/
def parseBufferCap (value name : List UInt8) (errors : List (List UInt8)) :
    ℕ × List (List UInt8) :=
  if value = [] then (0, errors)
  else
    match stol value with
    | none => (0, errors ++ [errorNotInteger name value])
    | some (parsed, pos) =>
      if pos ≠ value.length ∨ parsed < 0 then (0, errors ++ [errorNotInteger name value])
      else if parsed ≠ 0 ∧ parsed.toNat < kMinBufferCap then
        (0, errors ++ [name ++ ascii " must be 0 (default) or at least " ++ decimal kMinBufferCap ++
          ascii ", got \"" ++ value ++ ascii "\""])
      else (parsed.toNat, errors)

/-- The loop of `is_valid_dbus_name` over the characters; the flag asks for the first character of
an element. -/
def validElements : Bool → List UInt8 → Bool
  | expectElementStart, [] => !expectElementStart
  | expectElementStart, c :: cs =>
    if c = 46 then (if expectElementStart then false else validElements true cs)
    else if expectElementStart then
      (if !(isAlpha c || c = 95) then false else validElements false cs)
    else if !(isAlpha c || isDigit c || c = 95 || c = 45) then false
    else validElements false cs

/-- `is_valid_dbus_name` -/
def isValidDbusName (name : List UInt8) : Bool :=
  if name = [] ∨ 255 < name.length then false
  else if (46 : UInt8) ∉ name then false
  else validElements true name

/-- The runtime configuration. -/
structure Config where
  serviceName : List UInt8 := ascii "org.example.KwinApiServer"
  scriptPath : List UInt8 := []
  pluginName : List UInt8 := []
  workDir : List UInt8 := []
  loadRetries : ℤ := 30
  loadRetryDelayMs : ℤ := 1000
  maxClients : ℤ := 64
  rxBufferCap : ℕ := 0
  txBufferCap : ℕ := 0
  debug : Bool := false
  checkOnly : Bool := false
  showHelp : Bool := false
  showVersion : Bool := false
  errors : List (List UInt8) := []

/-- One command line argument. -/
def Config.flag (cfg : Config) (arg : List UInt8) : Config :=
  if arg = ascii "-h" ∨ arg = ascii "--help" then { cfg with showHelp := true }
  else if arg = ascii "-V" ∨ arg = ascii "--version" then { cfg with showVersion := true }
  else if arg = ascii "--check" then { cfg with checkOnly := true }
  else { cfg with errors := cfg.errors ++ [ascii "unknown argument: " ++ arg] }

/-- The errors of the validation at the end. -/
def Config.validate (cfg : Config) : List (List UInt8) :=
  (if isValidDbusName cfg.serviceName then []
    else [kEnvServiceName ++ ascii " is not a valid D-Bus well-known name: \"" ++ cfg.serviceName ++
      ascii "\""]) ++
  (if cfg.checkOnly then []
    else (if cfg.scriptPath = [] then
        [kEnvScriptPath ++ ascii " is required (path of the bundled kwinscript.js)"] else []) ++
      (if cfg.pluginName = [] then
        [kEnvPluginName ++ ascii " is required (KWin plugin name)"] else [])) ++
  (if cfg.maxClients < 1 then [kEnvMaxClients ++ ascii " must be >= 1"] else [])

/-- `load_config`, in the working directory `cwd`. -/
def loadConfig (cwd : List UInt8) (env : Env) (args : List (List UInt8)) : Config :=
  let cfg := args.foldl Config.flag {}
  let orElse (value fallback : List UInt8) := if value = [] then fallback else value
  let (loadRetries, errors) :=
    parseInt (getEnv env kEnvLoadRetries) cfg.loadRetries kEnvLoadRetries cfg.errors
  let (loadRetryDelayMs, errors) :=
    parseInt (getEnv env kEnvLoadRetryDelayMs) cfg.loadRetryDelayMs kEnvLoadRetryDelayMs errors
  let (maxClients, errors) :=
    parseInt (getEnv env kEnvMaxClients) cfg.maxClients kEnvMaxClients errors
  let (rxBufferCap, errors) := parseBufferCap (getEnv env kEnvRxBufferCap) kEnvRxBufferCap errors
  let (txBufferCap, errors) := parseBufferCap (getEnv env kEnvTxBufferCap) kEnvTxBufferCap errors
  let debug := getEnv env kEnvDebug
  let cfg := { cfg with
    serviceName := orElse (getEnv env kEnvServiceName) (ascii "org.example.KwinApiServer")
    scriptPath := getEnv env kEnvScriptPath
    pluginName := getEnv env kEnvPluginName
    workDir := orElse (getEnv env kEnvWorkDir) cwd
    loadRetries, loadRetryDelayMs, maxClients, rxBufferCap, txBufferCap
    debug := debug = ascii "1" ∨ debug = ascii "true" ∨ debug = ascii "yes" }
  { cfg with errors := errors ++ cfg.validate }

/-! ### What `load_config` yields -/

section LoadConfig

variable (cwd : List UInt8) (env : Env) (args : List (List UInt8))

theorem serviceName_loadConfig : (loadConfig cwd env args).serviceName =
    if getEnv env kEnvServiceName = [] then ascii "org.example.KwinApiServer"
    else getEnv env kEnvServiceName := rfl

variable {cwd env args}

/-- An entry for a condition is missing exactly when the condition fails. -/
theorem entry_eq_nil_iff {p : Prop} [Decidable p] {e : List UInt8} :
    (if p then [e] else []) = [] ↔ ¬ p := by
  split_ifs with hp <;> simp [hp]

theorem validate_eq_nil_iff (cfg : Config) : cfg.validate = [] ↔
    isValidDbusName cfg.serviceName = true ∧
      (cfg.checkOnly = true ∨ cfg.scriptPath ≠ [] ∧ cfg.pluginName ≠ []) ∧ 1 ≤ cfg.maxClients := by
  rw [Config.validate, List.append_eq_nil_iff, List.append_eq_nil_iff, entry_eq_nil_iff, not_lt,
    and_assoc]
  refine and_congr ?_ (and_congr_left' ?_)
  · by_cases hname : isValidDbusName cfg.serviceName = true
    · simp [hname]
    · simp [hname]
  · by_cases hcheck : cfg.checkOnly = true
    · simp [hcheck]
    · rw [if_neg hcheck, List.append_eq_nil_iff, entry_eq_nil_iff, entry_eq_nil_iff]
      exact (or_iff_right hcheck).symm

/-- A configuration without errors passes the validation. -/
theorem validate_of_errors_eq_nil (h : (loadConfig cwd env args).errors = []) :
    (loadConfig cwd env args).validate = [] := (List.append_eq_nil_iff.mp h).2

theorem isValidDbusName_of_errors_eq_nil (h : (loadConfig cwd env args).errors = []) :
    isValidDbusName (loadConfig cwd env args).serviceName = true :=
  ((validate_eq_nil_iff _).mp (validate_of_errors_eq_nil h)).1

end LoadConfig

/-! ### Accepted capacities -/

/-- An RX capacity with which the daemon starts: some environment and command line set it and leave
no error. -/
def AcceptedRxCap (cap : ℕ) : Prop :=
  ∃ cwd env args, (loadConfig cwd env args).errors = [] ∧
    (loadConfig cwd env args).rxBufferCap = cap

/-- **A capacity that was read is 0 or large enough**, whatever the text was. -/
theorem parseBufferCap_eq_zero_or_le (value name : List UInt8) (errors : List (List UInt8)) :
    (parseBufferCap value name errors).1 = 0 ∨
      kMinBufferCap ≤ (parseBufferCap value name errors).1 := by
  rw [parseBufferCap]
  split_ifs
  · exact .inl rfl
  · split
    · exact .inl rfl
    · split_ifs with _ hmin
      · exact .inl rfl
      · exact .inl rfl
      · simp only [not_and, not_lt] at hmin
        rcases eq_or_ne ‹ℤ› 0 with h0 | h0
        · exact .inl (by simp [h0])
        · exact .inr (hmin h0)

theorem AcceptedRxCap.eq_zero_or_le {cap : ℕ} (h : AcceptedRxCap cap) :
    cap = 0 ∨ kMinBufferCap ≤ cap := by
  obtain ⟨cwd, env, args, -, rfl⟩ := h
  exact parseBufferCap_eq_zero_or_le _ _ _

end KwinApi
