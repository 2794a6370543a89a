import KwinApi.Daemon.Numbers
import Mathlib.Data.List.Nodup

/-!
# The numeric settings

What `load_config` makes of the five variables that hold numbers: which texts are read, which are
reported, and what then stands in the field.

## Main definitions

* `KwinApi.Setting`, `numericSettings` — the five variables with their fields
* `KwinApi.NumbersMeant`, `NumbersReported` — what an accepted configuration promises, and what
  becomes of a text that is no number
* `KwinApi.NoneCut`, `Complete` — the conditions on the environment

## Main results

* `KwinApi.parsed` — the four ways in which reading a setting ends
* `KwinApi.errors_eq_nil_iff` — when `load_config` reports nothing
* `KwinApi.numbers_mean_iff` — the settings mean what they say iff no number is cut off to 32 bits
  and the retries are not the largest `int`
-/

namespace KwinApi

/-! ### The settings -/

/-- The first word of an entry of `errors`: the variable it is about. -/
def firstWord (e : List UInt8) : List UInt8 := e.takeWhile (· ≠ 32)

theorem firstWord_append {name : List UInt8} (h : 32 ∉ name) (rest : List UInt8) :
    firstWord (name ++ 32 :: rest) = name := by
  have hname : ∀ c ∈ name, decide (c ≠ 32) = true := by
    intro c hc
    rw [decide_eq_true_eq]
    rintro rfl
    exact h hc
  rw [firstWord, List.takeWhile_append_of_pos hname, List.takeWhile_cons_of_neg (by decide),
    List.append_nil]

/-- Some entry is about the variable. -/
def Reported (errors : List (List UInt8)) (name : List UInt8) : Prop :=
  ∃ e ∈ errors, firstWord e = name

/-- A numeric setting: its variable, the default, the numbers its field can hold, the field, and
how the text of the variable is read. -/
structure Setting where
  name : List UInt8
  fallback : ℤ
  Fits : ℕ → Prop
  field : Config → ℤ
  parse : List UInt8 → ℤ × List (List UInt8)

/-- A setting that is an `int`. -/
def intSetting (name : List UInt8) (fallback : ℤ) (field : Config → ℤ) : Setting where
  name := name
  fallback := fallback
  Fits n := n < 2 ^ 31
  field := field
  parse value := parseInt value fallback name []

/-- A setting that is a buffer capacity. -/
def capSetting (name : List UInt8) (field : Config → ℕ) : Setting where
  name := name
  fallback := 0
  Fits n := n < 2 ^ 63 ∧ (n = 0 ∨ kMinBufferCap ≤ n)
  field cfg := field cfg
  parse value := ((parseBufferCap value name []).1, (parseBufferCap value name []).2)

/-- The settings that are of type `int`. -/
def intSettings : List Setting :=
  [intSetting kEnvLoadRetries 30 Config.loadRetries,
    intSetting kEnvLoadRetryDelayMs 1000 Config.loadRetryDelayMs,
    intSetting kEnvMaxClients 64 Config.maxClients]

/-- The buffer capacities. -/
def capSettings : List Setting :=
  [capSetting kEnvRxBufferCap Config.rxBufferCap, capSetting kEnvTxBufferCap Config.txBufferCap]

/-- The numeric settings in the order in which they are read. -/
def numericSettings : List Setting := intSettings ++ capSettings

/-- The text is a number that the field can hold. -/
def Setting.Usable (s : Setting) (value : List UInt8) : Prop :=
  ∃ n : ℕ, Denotes value n ∧ s.Fits n

/-- What can come of reading the text of a setting: the field and the entries. The last case is
that of an `int` that is read as a `long` and cut off to 32 bits. -/
inductive Setting.Parsed (s : Setting) (value : List UInt8) (field : ℤ)
    (entries : List (List UInt8)) : Prop where
  | unset (hvalue : value = []) (hfield : field = s.fallback) (hentries : entries = [])
  | read {n : ℕ} (h : Denotes value n) (hn : s.Fits n) (hfield : field = n)
      (hentries : entries = [])
  | refused {e : List UInt8} (hne : value ≠ []) (h : ¬ s.Usable value) (he : firstWord e = s.name)
      (hfield : field = s.fallback) (hentries : entries = [e])
  | cut {n : ℕ} (hint : s ∈ intSettings) (h : Denotes value n) (hlow : 2 ^ 31 ≤ n)
      (hhigh : n < 2 ^ 63) (hfield : field = castInt n) (hentries : entries = [])

theorem castInt_of_lt {n : ℕ} (h : n < 2 ^ 31) : castInt n = n := by
  rw [castInt]
  exact Int.bmod_eq_of_le (by omega) (by omega)

theorem firstWord_errorNotInteger {name : List UInt8} (h : 32 ∉ name) (value : List UInt8) :
    firstWord (errorNotInteger name value) = name := by
  rw [errorNotInteger, List.append_assoc, List.append_assoc]
  exact firstWord_append h _

theorem firstWord_errorTooSmall {name : List UInt8} (h : 32 ∉ name) (value : List UInt8) :
    firstWord (errorTooSmall name value) = name := by
  rw [errorTooSmall, List.append_assoc, List.append_assoc, List.append_assoc, List.append_assoc]
  exact firstWord_append h _

theorem exists_of_mem_intSettings {s : Setting} (hs : s ∈ intSettings) :
    ∃ name fallback field, s = intSetting name fallback field ∧ 32 ∉ name := by
  simp only [intSettings, List.mem_cons, List.not_mem_nil, or_false] at hs
  rcases hs with rfl | rfl | rfl
  · exact ⟨_, _, _, rfl, by decide⟩
  · exact ⟨_, _, _, rfl, by decide⟩
  · exact ⟨_, _, _, rfl, by decide⟩

theorem exists_of_mem_capSettings {s : Setting} (hs : s ∈ capSettings) :
    ∃ name field, s = capSetting name field ∧ 32 ∉ name := by
  simp only [capSettings, List.mem_cons, List.not_mem_nil, or_false] at hs
  rcases hs with rfl | rfl
  · exact ⟨_, _, rfl, by decide⟩
  · exact ⟨_, _, rfl, by decide⟩

theorem parsed_int {s : Setting} (hs : s ∈ intSettings) (value : List UInt8) :
    s.Parsed value (s.parse value).1 (s.parse value).2 := by
  have hmem := hs
  obtain ⟨name, fallback, field, rfl, hname⟩ := exists_of_mem_intSettings hs
  change Setting.Parsed _ _ (parseInt value fallback name []).1 (parseInt value fallback name []).2
  rcases eq_or_ne value [] with rfl | hne
  · exact .unset rfl rfl rfl
  · by_cases hread : ∃ n : ℕ, Denotes value n ∧ n < 2 ^ 63
    · obtain ⟨n, h, hn⟩ := hread
      rw [parseInt_of_denotes fallback name [] h hn]
      dsimp only
      rcases Nat.lt_or_ge n (2 ^ 31) with hlt | hge
      · exact .read h hlt (castInt_of_lt hlt) rfl
      · exact .cut hmem h hge hn rfl rfl
    · rw [parseInt_of_not_denotes fallback name [] hne hread]
      refine .refused hne ?_ (firstWord_errorNotInteger hname value) rfl rfl
      rintro ⟨n, h, hn⟩
      exact hread ⟨n, h, hn.trans (by norm_num)⟩

theorem parsed_cap {s : Setting} (hs : s ∈ capSettings) (value : List UInt8) :
    s.Parsed value (s.parse value).1 (s.parse value).2 := by
  obtain ⟨name, field, rfl, hname⟩ := exists_of_mem_capSettings hs
  change Setting.Parsed _ _ ((parseBufferCap value name []).1 : ℤ) (parseBufferCap value name []).2
  rcases eq_or_ne value [] with rfl | hne
  · exact .unset rfl rfl rfl
  · by_cases hread : ∃ n : ℕ, Denotes value n ∧ n < 2 ^ 63
    · obtain ⟨n, h, hn⟩ := hread
      rw [parseBufferCap_of_denotes name [] h hn]
      split_ifs with hcap
      · exact .read h ⟨hn, hcap⟩ rfl rfl
      · refine .refused hne ?_ (firstWord_errorTooSmall hname value) rfl rfl
        rintro ⟨m, hm, -, hfits⟩
        obtain rfl : n = m := h.unique_nat hm
        exact hcap hfits
    · rw [parseBufferCap_of_not_denotes name [] hne hread]
      refine .refused hne ?_ (firstWord_errorNotInteger hname value) rfl rfl
      rintro ⟨n, h, hn, -⟩
      exact hread ⟨n, h, hn⟩

/-- Reading a setting ends in one of the four ways. -/
theorem parsed {s : Setting} (hs : s ∈ numericSettings) (value : List UInt8) :
    s.Parsed value (s.parse value).1 (s.parse value).2 := by
  rcases List.mem_append.mp hs with hs | hs
  · exact parsed_int hs value
  · exact parsed_cap hs value

/-! ### The command line -/

/-- The arguments that are known. -/
def knownArgs : List (List UInt8) :=
  [ascii "-h", ascii "--help", ascii "-V", ascii "--version", ascii "--check"]

/-- What the command line leaves of a configuration: the numbers as they were, an entry for every
unknown argument, and whether only a check is asked for. -/
structure Flagged (args : List (List UInt8)) (cfg cfg' : Config) : Prop where
  loadRetries : cfg'.loadRetries = cfg.loadRetries
  loadRetryDelayMs : cfg'.loadRetryDelayMs = cfg.loadRetryDelayMs
  maxClients : cfg'.maxClients = cfg.maxClients
  errors : cfg'.errors = cfg.errors ++
    (args.filter (· ∉ knownArgs)).map (ascii "unknown argument: " ++ ·)
  checkOnly : cfg'.checkOnly = (cfg.checkOnly || decide (ascii "--check" ∈ args))

theorem flagged_flag (cfg : Config) (arg : List UInt8) : Flagged [arg] cfg (cfg.flag arg) := by
  have hcheck : ascii "--check" ∈ [arg] ↔ arg = ascii "--check" := by
    rw [List.mem_singleton, eq_comm]
  rw [Config.flag]
  split_ifs with hhelp hversion honly
  · obtain ⟨hknown, hne⟩ : arg ∈ knownArgs ∧ arg ≠ ascii "--check" := by
      rcases hhelp with rfl | rfl <;> decide
    exact ⟨rfl, rfl, rfl, by simp [hknown], by simp [hcheck, hne]⟩
  · obtain ⟨hknown, hne⟩ : arg ∈ knownArgs ∧ arg ≠ ascii "--check" := by
      rcases hversion with rfl | rfl <;> decide
    exact ⟨rfl, rfl, rfl, by simp [hknown], by simp [hcheck, hne]⟩
  · have hknown : arg ∈ knownArgs := honly ▸ by decide
    exact ⟨rfl, rfl, rfl, by simp [hknown], by simp [honly]⟩
  · have hknown : arg ∉ knownArgs := by
      simp only [knownArgs, List.mem_cons, List.not_mem_nil, or_false]
      tauto
    exact ⟨rfl, rfl, rfl, by simp [hknown], by simp [hcheck, honly]⟩

theorem flagged_foldl (args : List (List UInt8)) (cfg : Config) :
    Flagged args cfg (args.foldl Config.flag cfg) := by
  induction args generalizing cfg with
  | nil => exact ⟨rfl, rfl, rfl, by simp, by simp⟩
  | cons arg args ih =>
    have hflag := flagged_flag cfg arg
    have hrest := ih (cfg.flag arg)
    refine ⟨hrest.loadRetries.trans hflag.loadRetries,
      hrest.loadRetryDelayMs.trans hflag.loadRetryDelayMs,
      hrest.maxClients.trans hflag.maxClients, ?_, ?_⟩
    · rw [List.foldl_cons, hrest.errors, hflag.errors, List.append_assoc, ← List.map_append,
        ← List.filter_append, List.singleton_append]
    · rw [List.foldl_cons, hrest.checkOnly, hflag.checkOnly, Bool.or_assoc]
      congr 1
      simp [List.mem_cons]

/-! ### `load_config` -/

section LoadConfig

variable (cwd : List UInt8) (env : Env) (args : List (List UInt8))

/-- Every numeric setting is read from its own variable. -/
theorem field_loadConfig {s : Setting} (hs : s ∈ numericSettings) :
    s.field (loadConfig cwd env args) = (s.parse (getEnv env s.name)).1 := by
  have hflags := flagged_foldl args {}
  simp only [numericSettings, intSettings, capSettings, List.mem_append, List.mem_cons,
    List.not_mem_nil, or_false] at hs
  rcases hs with (rfl | rfl | rfl) | rfl | rfl
  · exact (parseInt_fst _ _ _).trans (by rw [hflags.loadRetries]; rfl)
  · exact (parseInt_fst _ _ _).trans (by rw [hflags.loadRetryDelayMs]; rfl)
  · exact (parseInt_fst _ _ _).trans (by rw [hflags.maxClients]; rfl)
  · exact congrArg Nat.cast (parseBufferCap_fst _ _)
  · exact congrArg Nat.cast (parseBufferCap_fst _ _)

/-- The errors of the command line, of the numbers and of the validation. -/
theorem errors_loadConfig : (loadConfig cwd env args).errors =
    (args.filter (· ∉ knownArgs)).map (ascii "unknown argument: " ++ ·) ++
      numericSettings.flatMap (fun s => (s.parse (getEnv env s.name)).2) ++
      (loadConfig cwd env args).validate := by
  have hflags := flagged_foldl args {}
  have hsplit : (loadConfig cwd env args).errors =
      (parseBufferCap (getEnv env kEnvTxBufferCap) kEnvTxBufferCap
        (parseBufferCap (getEnv env kEnvRxBufferCap) kEnvRxBufferCap
          (parseInt (getEnv env kEnvMaxClients) (args.foldl Config.flag {}).maxClients
            kEnvMaxClients
            (parseInt (getEnv env kEnvLoadRetryDelayMs)
              (args.foldl Config.flag {}).loadRetryDelayMs kEnvLoadRetryDelayMs
              (parseInt (getEnv env kEnvLoadRetries) (args.foldl Config.flag {}).loadRetries
                kEnvLoadRetries (args.foldl Config.flag {}).errors).2).2).2).2).2 ++
      (loadConfig cwd env args).validate := rfl
  rw [hsplit, parseBufferCap_snd kEnvTxBufferCap, parseBufferCap_snd kEnvRxBufferCap,
    parseInt_snd _ kEnvMaxClients, parseInt_snd _ kEnvLoadRetryDelayMs,
    parseInt_snd _ kEnvLoadRetries, hflags.loadRetries, hflags.loadRetryDelayMs,
    hflags.maxClients, hflags.errors]
  simp only [numericSettings, intSettings, capSettings, intSetting, capSetting, List.cons_append,
    List.flatMap_cons, List.flatMap_nil, List.append_assoc, List.nil_append]

theorem checkOnly_loadConfig :
    (loadConfig cwd env args).checkOnly = decide (ascii "--check" ∈ args) :=
  (flagged_foldl args {}).checkOnly

end LoadConfig

/-! ### What the settings mean -/

/-- The field is the integer in the variable, or the default if that is unset or empty. -/
def Setting.Meant (s : Setting) (env : Env) (cfg : Config) : Prop :=
  (getEnv env s.name = [] ∧ s.field cfg = s.fallback) ∨
    ∃ n : ℕ, Denotes (getEnv env s.name) n ∧ s.field cfg = n

/-- The numbers of a configuration are those of its environment, and the daemon can use them. -/
structure NumbersMeant (env : Env) (cfg : Config) : Prop where
  meant : ∀ s ∈ numericSettings, s.Meant env cfg
  maxClients : 1 ≤ cfg.maxClients
  rxBufferCap : cfg.rxBufferCap = 0 ∨ kMinBufferCap ≤ cfg.rxBufferCap
  txBufferCap : cfg.txBufferCap = 0 ∨ kMinBufferCap ≤ cfg.txBufferCap
  /-- The bound of the retry loop of `main` is an `int`. -/
  retryBound : cfg.loadRetries + 1 < 2 ^ 31

/-- A text that is no number its field can hold is reported and leaves the default. -/
structure NumbersReported (env : Env) (cfg : Config) : Prop where
  reported : ∀ s ∈ numericSettings, getEnv env s.name ≠ [] → ¬ s.Usable (getEnv env s.name) →
    Reported cfg.errors s.name ∧ s.field cfg = s.fallback
  noClients : Denotes (getEnv env kEnvMaxClients) 0 → Reported cfg.errors kEnvMaxClients

/-- No variable of an `int` holds a number that a `long` can hold and an `int` cannot. -/
def NoneCut (env : Env) : Prop :=
  ∀ s ∈ intSettings, ¬ ∃ n : ℕ, Denotes (getEnv env s.name) n ∧ 2 ^ 31 ≤ n ∧ n < 2 ^ 63

/-- An environment and a command line with which nothing is missing and every number can be
used. -/
structure Complete (env : Env) (args : List (List UInt8)) : Prop where
  known : ∀ arg ∈ args, arg ∈ knownArgs
  numbers : ∀ s ∈ numericSettings,
    getEnv env s.name = [] ∨ s.Usable (getEnv env s.name)
  clients : ¬ Denotes (getEnv env kEnvMaxClients) 0
  name : getEnv env kEnvServiceName = [] ∨ isValidDbusName (getEnv env kEnvServiceName) = true
  script : ascii "--check" ∈ args ∨
    getEnv env kEnvScriptPath ≠ [] ∧ getEnv env kEnvPluginName ≠ []

section Meaning

variable {cwd : List UInt8} {env : Env} {args : List (List UInt8)}

theorem fits_int {s : Setting} (hs : s ∈ intSettings) {n : ℕ} : s.Fits n ↔ n < 2 ^ 31 := by
  obtain ⟨name, fallback, field, rfl, -⟩ := exists_of_mem_intSettings hs
  exact Iff.rfl

/-- A number that is cut off is not one that the field can hold. -/
theorem not_usable_of_cut {s : Setting} (hs : s ∈ intSettings) {value : List UInt8} {n : ℕ}
    (h : Denotes value n) (hlow : 2 ^ 31 ≤ n) : ¬ s.Usable value := by
  rintro ⟨m, hm, hfits⟩
  obtain rfl : n = m := h.unique_nat hm
  have hlt := (fits_int hs).mp hfits
  omega

/-- The entries of one setting. -/
def Setting.entries (s : Setting) (env : Env) : List (List UInt8) :=
  (s.parse (getEnv env s.name)).2

theorem parsed_loadConfig {s : Setting} (hs : s ∈ numericSettings) :
    s.Parsed (getEnv env s.name) (s.field (loadConfig cwd env args)) (s.entries env) := by
  rw [field_loadConfig cwd env args hs]
  exact parsed hs _

/-! Which entries are about which variable. -/

theorem name_injective {s t : Setting} (hs : s ∈ numericSettings) (ht : t ∈ numericSettings)
    (h : s.name = t.name) : s = t := by
  have hnodup : (numericSettings.map Setting.name).Nodup := by decide
  exact List.inj_on_of_nodup_map hnodup hs ht h

/-- The other first words there are. -/
theorem names_ne : ∀ s ∈ numericSettings, ∀ word ∈
    [ascii "unknown", kEnvServiceName, kEnvScriptPath, kEnvPluginName], s.name ≠ word := by
  have hnames : ∀ name ∈ numericSettings.map Setting.name, ∀ word ∈
      [ascii "unknown", kEnvServiceName, kEnvScriptPath, kEnvPluginName], name ≠ word := by decide
  exact fun s hs => hnames s.name (List.mem_map_of_mem hs)

theorem firstWord_of_mem_entries {s : Setting} (hs : s ∈ numericSettings) {e : List UInt8}
    (he : e ∈ s.entries env) : firstWord e = s.name := by
  cases parsed hs (getEnv env s.name) with
  | unset _ _ hentries => simp [Setting.entries, hentries] at he
  | read _ _ _ hentries => simp [Setting.entries, hentries] at he
  | refused _ _ hword _ hentries =>
    rw [Setting.entries, hentries, List.mem_singleton] at he
    rw [he, hword]
  | cut _ _ _ _ _ hentries => simp [Setting.entries, hentries] at he

/-- An entry of the validation is about a text variable, or about a `max_clients` below 1. -/
theorem firstWord_of_mem_validate {cfg : Config} {e : List UInt8} (he : e ∈ cfg.validate) :
    firstWord e = kEnvServiceName ∨ firstWord e = kEnvScriptPath ∨ firstWord e = kEnvPluginName ∨
      firstWord e = kEnvMaxClients ∧ cfg.maxClients < 1 := by
  simp only [Config.validate, List.mem_append, List.mem_ite_nil_left, List.mem_ite_nil_right,
    List.mem_singleton] at he
  rcases he with (⟨-, rfl⟩ | ⟨-, ⟨-, rfl⟩ | ⟨-, rfl⟩⟩) | ⟨hlt, rfl⟩
  · rw [List.append_assoc, List.append_assoc]
    exact .inl (firstWord_append (by decide) _)
  · exact .inr (.inl (firstWord_append (by decide) _))
  · exact .inr (.inr (.inl (firstWord_append (by decide) _)))
  · exact .inr (.inr (.inr ⟨firstWord_append (by decide) _, hlt⟩))

theorem reported_of_entry {s : Setting} (hs : s ∈ numericSettings) {e : List UInt8}
    (he : e ∈ s.entries env) : Reported (loadConfig cwd env args).errors s.name := by
  refine ⟨e, ?_, firstWord_of_mem_entries hs he⟩
  rw [errors_loadConfig]
  exact List.mem_append_left _ (List.mem_append_right _ (List.mem_flatMap.mpr ⟨s, hs, he⟩))

theorem reported_of_few_clients (h : (loadConfig cwd env args).maxClients < 1) :
    Reported (loadConfig cwd env args).errors kEnvMaxClients := by
  refine ⟨kEnvMaxClients ++ ascii " must be >= 1", ?_, firstWord_append (by decide) _⟩
  rw [errors_loadConfig, List.mem_append]
  right
  rw [Config.validate, if_pos h]
  exact List.mem_append_right _ (List.mem_singleton_self _)

/-- A number without an entry of its own is reported only where `max_clients` is below 1. -/
theorem clients_of_reported {s : Setting} (hs : s ∈ numericSettings) (hentries : s.entries env = [])
    (h : Reported (loadConfig cwd env args).errors s.name) :
    s.name = kEnvMaxClients ∧ (loadConfig cwd env args).maxClients < 1 := by
  obtain ⟨e, he, hword⟩ := h
  rw [errors_loadConfig, List.mem_append, List.mem_append] at he
  rcases he with (hflag | hnumber) | hvalidate
  · obtain ⟨arg, -, rfl⟩ := List.mem_map.mp hflag
    have hunknown : firstWord (ascii "unknown argument: " ++ arg) = ascii "unknown" :=
      @firstWord_append (ascii "unknown") (by decide) _
    exact absurd (hword.symm.trans hunknown) (names_ne s hs _ (by decide))
  · obtain ⟨t, ht, he⟩ := List.mem_flatMap.mp hnumber
    have hst := name_injective ht hs ((firstWord_of_mem_entries ht he).symm.trans hword)
    subst hst
    rw [← Setting.entries, hentries] at he
    exact absurd he List.not_mem_nil
  · rcases firstWord_of_mem_validate hvalidate with h | h | h | ⟨h, hlt⟩
    · exact absurd (hword.symm.trans h) (names_ne s hs _ (by decide))
    · exact absurd (hword.symm.trans h) (names_ne s hs _ (by decide))
    · exact absurd (hword.symm.trans h) (names_ne s hs _ (by decide))
    · exact ⟨hword.symm.trans h, hlt⟩

/-! When there is no entry at all. -/

theorem intSettings_subset {s : Setting} (hs : s ∈ intSettings) : s ∈ numericSettings :=
  List.mem_append_left _ hs

/-- The setting of `load_retries`. -/
def retriesSetting : Setting := intSetting kEnvLoadRetries 30 Config.loadRetries

theorem retriesSetting_mem : retriesSetting ∈ intSettings := List.mem_cons_self

/-- The setting of `max_clients`. -/
def clientsSetting : Setting := intSetting kEnvMaxClients 64 Config.maxClients

theorem clientsSetting_mem : clientsSetting ∈ intSettings := by
  simp [intSettings, clientsSetting]

/-- An `int` that fits a `long` leaves no entry. -/
theorem entries_of_denotes {s : Setting} (hs : s ∈ intSettings) {n : ℕ}
    (h : Denotes (getEnv env s.name) n) (hn : n < 2 ^ 63) : s.entries env = [] := by
  obtain ⟨name, fallback, field, rfl, -⟩ := exists_of_mem_intSettings hs
  exact congrArg Prod.snd (parseInt_of_denotes fallback name [] h hn)

theorem entries_eq_nil_iff (hcut : NoneCut env) {s : Setting} (hs : s ∈ numericSettings) :
    s.entries env = [] ↔ getEnv env s.name = [] ∨ s.Usable (getEnv env s.name) := by
  cases parsed hs (getEnv env s.name) with
  | unset hvalue _ hentries => exact iff_of_true hentries (.inl hvalue)
  | read h hn _ hentries => exact iff_of_true hentries (.inr ⟨_, h, hn⟩)
  | refused hne hnot _ _ hentries =>
    refine iff_of_false ?_ (not_or.mpr ⟨hne, hnot⟩)
    rw [Setting.entries, hentries]
    exact List.cons_ne_nil _ _
  | cut hint h hlow hhigh _ _ => exact absurd ⟨_, h, hlow, hhigh⟩ (hcut s hint)

/-- With a number that can be used, `max_clients` is below 1 only where it is 0. -/
theorem one_le_maxClients_iff (hcut : NoneCut env)
    (h : clientsSetting.entries env = []) : 1 ≤ (loadConfig cwd env args).maxClients ↔
      ¬ Denotes (getEnv env kEnvMaxClients) 0 := by
  have hmem := intSettings_subset clientsSetting_mem
  have hparsed : clientsSetting.Parsed (getEnv env kEnvMaxClients)
    (loadConfig cwd env args).maxClients (clientsSetting.entries env) :=
    @parsed_loadConfig cwd env args clientsSetting hmem
  cases hparsed with
  | unset hvalue hfield _ =>
    refine iff_of_true ?_ fun hzero => hzero.ne_nil hvalue
    rw [hfield]
    decide
  | @read n h _ hfield _ =>
    constructor
    · intro hle hzero
      have heq := h.unique hzero
      omega
    · intro hzero
      have hne : n ≠ 0 := by
        rintro rfl
        exact hzero h
      omega
  | refused _ _ _ _ hentries => exact absurd (h.symm.trans hentries) (List.cons_ne_nil _ _).symm
  | cut hint h hlow hhigh _ _ => exact absurd ⟨_, h, hlow, hhigh⟩ (hcut clientsSetting hint)

/-- **There are no errors exactly when nothing is missing and every number can be used.** -/
theorem errors_eq_nil_iff (hcut : NoneCut env) :
    (loadConfig cwd env args).errors = [] ↔ Complete env args := by
  rw [errors_loadConfig, List.append_eq_nil_iff, List.append_eq_nil_iff, List.map_eq_nil_iff,
    List.filter_eq_nil_iff, List.flatMap_eq_nil_iff, validate_eq_nil_iff, checkOnly_loadConfig,
    decide_eq_true_eq]
  have hname : isValidDbusName (loadConfig cwd env args).serviceName = true ↔
      getEnv env kEnvServiceName = [] ∨ isValidDbusName (getEnv env kEnvServiceName) = true := by
    rw [serviceName_loadConfig]
    split_ifs with hempty
    · exact iff_of_true (by decide) (.inl hempty)
    · exact (or_iff_right hempty).symm
  constructor
  · rintro ⟨⟨hargs, hentries⟩, hvalid, hscript, hclients⟩
    refine ⟨?_, ?_, ?_, hname.mp hvalid, hscript⟩
    · exact fun arg harg => by simpa using hargs arg harg
    · exact fun s hs => (entries_eq_nil_iff hcut hs).mp (hentries s hs)
    · exact (one_le_maxClients_iff hcut (hentries _ (intSettings_subset clientsSetting_mem))).mp
        hclients
  · intro h
    have hentries : ∀ s ∈ numericSettings, s.entries env = [] :=
      fun s hs => (entries_eq_nil_iff hcut hs).mpr (h.numbers s hs)
    refine ⟨⟨?_, hentries⟩, hname.mpr h.name, h.script, ?_⟩
    · exact fun arg harg => by simpa using h.known arg harg
    · exact (one_le_maxClients_iff hcut (hentries _ (intSettings_subset clientsSetting_mem))).mpr
        h.clients

/-! The two halves of the result. -/

/-- An integer that is read back. -/
theorem NoneCut.meant (hcut : NoneCut env) {s : Setting} (hs : s ∈ numericSettings)
    (hentries : s.entries env = []) : s.Meant env (loadConfig cwd env args) := by
  cases @parsed_loadConfig cwd env args s hs with
  | unset hvalue hfield _ => exact .inl ⟨hvalue, hfield⟩
  | read h _ hfield _ => exact .inr ⟨_, h, hfield⟩
  | refused _ _ _ _ hrefused =>
    exact absurd (hentries.symm.trans hrefused) (List.cons_ne_nil _ _).symm
  | cut hint h hlow hhigh _ _ => exact absurd ⟨_, h, hlow, hhigh⟩ (hcut s hint)

theorem numbersReported (hcut : NoneCut env) :
    NumbersReported env (loadConfig cwd env args) := by
  refine ⟨fun s hs hne hnot => ?_, fun hzero => ?_⟩
  · cases @parsed_loadConfig cwd env args s hs with
    | unset hvalue _ _ => exact absurd hvalue hne
    | read h hn _ _ => exact absurd ⟨_, h, hn⟩ hnot
    | @refused e _ _ _ hfield hentries =>
      have hmem : e ∈ s.entries env := hentries ▸ List.mem_singleton_self e
      exact ⟨reported_of_entry hs hmem, hfield⟩
    | cut hint h hlow hhigh _ _ => exact absurd ⟨_, h, hlow, hhigh⟩ (hcut s hint)
  · by_contra hunreported
    have hmem := intSettings_subset clientsSetting_mem
    have hentries : clientsSetting.entries env = [] := by
      refine List.eq_nil_iff_forall_not_mem.mpr fun e he => hunreported ?_
      exact reported_of_entry hmem he
    have hfew := (@one_le_maxClients_iff cwd env args hcut hentries).not.mpr (not_not.mpr hzero)
    exact hunreported (reported_of_few_clients (not_le.mp hfew))

theorem numbersMeant (hcut : NoneCut env) (herrors : (loadConfig cwd env args).errors = [])
    (hmax : ¬ Denotes (getEnv env kEnvLoadRetries) (2 ^ 31 - 1)) :
    NumbersMeant env (loadConfig cwd env args) := by
  have hcomplete := (errors_eq_nil_iff hcut).mp herrors
  have hmeant : ∀ s ∈ numericSettings, s.Meant env (loadConfig cwd env args) := fun s hs =>
    hcut.meant hs ((entries_eq_nil_iff hcut hs).mpr (hcomplete.numbers s hs))
  refine ⟨hmeant, ?_, parseBufferCap_eq_zero_or_le _ _ _, parseBufferCap_eq_zero_or_le _ _ _, ?_⟩
  · exact ((validate_eq_nil_iff _).mp (validate_of_errors_eq_nil herrors)).2.2
  · have hmem := intSettings_subset retriesSetting_mem
    rcases hmeant retriesSetting hmem with ⟨-, hfield⟩ | ⟨n, hn, hfield⟩
    · have hretries : (loadConfig cwd env args).loadRetries = 30 := hfield
      omega
    · have hretries : (loadConfig cwd env args).loadRetries = n := hfield
      have hlt : n < 2 ^ 31 := by
        rcases hcomplete.numbers retriesSetting hmem with hempty | ⟨m, hm, hfits⟩
        · exact absurd hempty hn.ne_nil
        · obtain rfl : n = m := hn.unique_nat hm
          exact hfits
      have hne : n ≠ 2 ^ 31 - 1 := by
        rintro rfl
        exact hmax hn
      omega

/-- Where a number was cut off, it is not reported or does not leave the default. -/
theorem NumbersReported.noneCut (h : NumbersReported env (loadConfig cwd env args)) :
    NoneCut env := by
  rintro s hs ⟨n, hn, hlow, hhigh⟩
  have hmem := intSettings_subset hs
  have hnot := not_usable_of_cut hs hn hlow
  obtain ⟨hreported, hfield⟩ := h.reported s hmem hn.ne_nil hnot
  have hentries := entries_of_denotes hs hn hhigh
  -- Only `max_clients` is looked at again, and its default is not below 1.
  obtain ⟨hname, hlt⟩ := clients_of_reported hmem hentries hreported
  have hclients := name_injective hmem (intSettings_subset clientsSetting_mem) hname
  subst hclients
  have hdefault : (loadConfig cwd env args).maxClients = 64 := hfield
  omega

theorem NumbersMeant.loadRetries_eq {cfg : Config} (h : NumbersMeant env cfg) {z : ℤ}
    (hz : Denotes (getEnv env kEnvLoadRetries) z) : cfg.loadRetries = z := by
  rcases h.meant retriesSetting (intSettings_subset retriesSetting_mem)
    with ⟨hempty, -⟩ | ⟨n, hn, hfield⟩
  · exact absurd hempty hz.ne_nil
  · exact hfield.trans (hn.unique hz)

theorem NumbersMeant.retries {cfg : Config} (h : NumbersMeant env cfg) :
    ¬ Denotes (getEnv env kEnvLoadRetries) (2 ^ 31 - 1) := by
  intro hmax
  have hbound := h.retryBound
  have heq := h.loadRetries_eq hmax
  omega

end Meaning

/-- **Accepted numbers mean what they say exactly when none is cut off and the retry bound does not
overflow.** -/
theorem numbers_mean_iff (cwd : List UInt8) (env : Env) (args : List (List UInt8)) :
    (NumbersReported env (loadConfig cwd env args) ∧
        ((loadConfig cwd env args).errors = [] → NumbersMeant env (loadConfig cwd env args))) ↔
      NoneCut env ∧
        (Complete env args → ¬ Denotes (getEnv env kEnvLoadRetries) (2 ^ 31 - 1)) := by
  constructor
  · rintro ⟨hreported, hmeant⟩
    have hcut := hreported.noneCut
    exact ⟨hcut, fun hcomplete => (hmeant ((errors_eq_nil_iff hcut).mpr hcomplete)).retries⟩
  · rintro ⟨hcut, hmax⟩
    exact ⟨numbersReported hcut,
      fun herrors => numbersMeant hcut herrors (hmax ((errors_eq_nil_iff hcut).mp herrors))⟩

/-- A script, a plugin and a number of retries. -/
def envRetries (text : List UInt8) : Env := fun key =>
  if key = kEnvLoadRetries then some text
  else if key = kEnvScriptPath then some (ascii "/x.js")
  else if key = kEnvPluginName then some (ascii "p")
  else none

/-- 4294967297 retries are accepted as one. -/
theorem retries_cut_off :
    ¬ ∀ (cwd : List UInt8) (env : Env) (args : List (List UInt8)),
      NumbersReported env (loadConfig cwd env args) ∧
        ((loadConfig cwd env args).errors = [] → NumbersMeant env (loadConfig cwd env args)) := by
  intro hall
  have hread : stol (ascii "4294967297") = some (4294967297, (ascii "4294967297").length) := by
    decide
  have hdenotes := ((stol_eq_some_iff _ _).mp hread).1
  have hmeant := (hall [] (envRetries (ascii "4294967297")) []).2 (by decide)
  have hone : (loadConfig [] (envRetries (ascii "4294967297")) []).loadRetries = 1 := by
    decide +kernel
  have hwritten := hmeant.loadRetries_eq hdenotes
  omega

end KwinApi
