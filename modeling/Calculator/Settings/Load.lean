import Calculator.Settings.Loader

/-! # The configuration

The settings of the server, all read from the environment. Either every variable
is blank or valid, and each field is the value of its own variable, or all the
invalid variables are reported and there is no configuration.
-/

namespace Calculator.Settings

open Decimal Go

/-- The resolved configuration of a server. Durations are in nanoseconds. -/
structure Config where
  host : Text
  port : ℤ
  logLevel : Level
  logFormat : LogFormat
  corsAllowedOrigins : List Text
  readHeaderTimeout : ℤ
  readTimeout : ℤ
  writeTimeout : ℤ
  idleTimeout : ℤ
  shutdownTimeout : ℤ
  preStopDelay : ℤ
  requestTimeout : ℤ
  rateLimitRPS : ℤ
  rateLimitBurst : ℤ
  maxBodyBytes : ℤ
  trustProxyHeaders : Bool
  deriving DecidableEq

def Config.zero : Config where
  host := []
  port := 0
  logLevel := .info
  logFormat := .unset
  corsAllowedOrigins := []
  readHeaderTimeout := 0
  readTimeout := 0
  writeTimeout := 0
  idleTimeout := 0
  shutdownTimeout := 0
  preStopDelay := 0
  requestTimeout := 0
  rateLimitRPS := 0
  rateLimitBurst := 0
  maxBodyBytes := 0
  trustProxyHeaders := false

def second : ℤ := 10 ^ 9

def defaultHost : Text := "0.0.0.0".toList
def defaultPort : ℤ := 8081
def defaultLogLevel : Level := .info
def defaultLogFormat : LogFormat := .json
def defaultReadHeaderTimeout : ℤ := 5 * second
def defaultReadTimeout : ℤ := 10 * second
def defaultWriteTimeout : ℤ := 10 * second
def defaultIdleTimeout : ℤ := 60 * second
def defaultShutdownTimeout : ℤ := 15 * second
def defaultRequestTimeout : ℤ := 5 * second
def defaultPreStopDelay : ℤ := 0 * second
def defaultRateLimitRPS : ℤ := 20
def defaultRateLimitBurst : ℤ := 40
def defaultMaxBodyBytes : ℤ := 4096
def defaultTrustProxyHeaders : Bool := false

def maxPort : ℤ := 65535

def joinErrors (errs : List ParseError) : Option (List ParseError) :=
  if errs = [] then none else some errs

def load (P : Library) (getenv : Text → Text) : Config × Option (List ParseError) :=
  let l : Loader := ⟨getenv, []⟩
  let (host, l) := l.text "HOST".toList defaultHost
  let (port, l) := l.integer "PORT".toList defaultPort 0 maxPort
  let (logLevel, l) := l.level P "LOG_LEVEL".toList defaultLogLevel
  let (logFormat, l) := l.format P "LOG_FORMAT".toList defaultLogFormat
  let (corsAllowedOrigins, l) := l.csv "CORS_ALLOWED_ORIGINS".toList
  let (readHeaderTimeout, l) := l.duration P "READ_HEADER_TIMEOUT".toList defaultReadHeaderTimeout
  let (readTimeout, l) := l.duration P "READ_TIMEOUT".toList defaultReadTimeout
  let (writeTimeout, l) := l.duration P "WRITE_TIMEOUT".toList defaultWriteTimeout
  let (idleTimeout, l) := l.duration P "IDLE_TIMEOUT".toList defaultIdleTimeout
  let (shutdownTimeout, l) :=
    l.positiveDuration P "SHUTDOWN_TIMEOUT".toList defaultShutdownTimeout
  let (preStopDelay, l) := l.duration P "PRE_STOP_DELAY".toList defaultPreStopDelay
  let (requestTimeout, l) := l.duration P "REQUEST_TIMEOUT".toList defaultRequestTimeout
  let (rateLimitRPS, l) := l.integer "RATE_LIMIT_RPS".toList defaultRateLimitRPS 1 maxInt
  let (rateLimitBurst, l) := l.integer "RATE_LIMIT_BURST".toList defaultRateLimitBurst 1 maxInt
  let (maxBodyBytes, l) := l.integer64 "MAX_BODY_BYTES".toList defaultMaxBodyBytes 1 maxInt
  let (trustProxyHeaders, l) :=
    l.boolean "TRUST_PROXY_HEADERS".toList defaultTrustProxyHeaders
  match joinErrors l.errs with
  | some err => (.zero, some err)
  | none => (⟨host, port, logLevel, logFormat, corsAllowedOrigins, readHeaderTimeout, readTimeout,
      writeTimeout, idleTimeout, shutdownTimeout, preStopDelay, requestTimeout, rateLimitRPS,
      rateLimitBurst, maxBodyBytes, trustProxyHeaders⟩, none)

def host : Setting Text := .text "HOST".toList defaultHost

def port : Setting ℤ := .integer "PORT".toList defaultPort 0 maxPort

def corsAllowedOrigins : Setting (List Text) := .csv "CORS_ALLOWED_ORIGINS".toList

def rateLimitRPS : Setting ℤ := .integer "RATE_LIMIT_RPS".toList defaultRateLimitRPS 1 maxInt

def rateLimitBurst : Setting ℤ := .integer "RATE_LIMIT_BURST".toList defaultRateLimitBurst 1 maxInt

def maxBodyBytes : Setting ℤ := .integer "MAX_BODY_BYTES".toList defaultMaxBodyBytes 1 maxInt

def trustProxyHeaders : Setting Bool :=
  .boolean "TRUST_PROXY_HEADERS".toList defaultTrustProxyHeaders

section Settings

variable (P : Library)

def logLevel : Setting Level := .level P "LOG_LEVEL".toList defaultLogLevel

def logFormat : Setting LogFormat := .format P "LOG_FORMAT".toList defaultLogFormat

def nonnegative (name : Text) (default : ℤ) : Setting ℤ :=
  .duration P name default (0 ≤ ·) "must not be negative".toList

def readHeaderTimeout : Setting ℤ :=
  nonnegative P "READ_HEADER_TIMEOUT".toList defaultReadHeaderTimeout

def readTimeout : Setting ℤ := nonnegative P "READ_TIMEOUT".toList defaultReadTimeout

def writeTimeout : Setting ℤ := nonnegative P "WRITE_TIMEOUT".toList defaultWriteTimeout

def idleTimeout : Setting ℤ := nonnegative P "IDLE_TIMEOUT".toList defaultIdleTimeout

def shutdownTimeout : Setting ℤ :=
  .duration P "SHUTDOWN_TIMEOUT".toList defaultShutdownTimeout (0 < ·)
    "must be greater than zero".toList

def preStopDelay : Setting ℤ := nonnegative P "PRE_STOP_DELAY".toList defaultPreStopDelay

def requestTimeout : Setting ℤ := nonnegative P "REQUEST_TIMEOUT".toList defaultRequestTimeout

variable (getenv : Text → Text)

def resolved : Config where
  host := host.value (getenv "HOST".toList)
  port := port.value (getenv "PORT".toList)
  logLevel := (logLevel P).value (getenv "LOG_LEVEL".toList)
  logFormat := (logFormat P).value (getenv "LOG_FORMAT".toList)
  corsAllowedOrigins := corsAllowedOrigins.value (getenv "CORS_ALLOWED_ORIGINS".toList)
  readHeaderTimeout := (readHeaderTimeout P).value (getenv "READ_HEADER_TIMEOUT".toList)
  readTimeout := (readTimeout P).value (getenv "READ_TIMEOUT".toList)
  writeTimeout := (writeTimeout P).value (getenv "WRITE_TIMEOUT".toList)
  idleTimeout := (idleTimeout P).value (getenv "IDLE_TIMEOUT".toList)
  shutdownTimeout := (shutdownTimeout P).value (getenv "SHUTDOWN_TIMEOUT".toList)
  preStopDelay := (preStopDelay P).value (getenv "PRE_STOP_DELAY".toList)
  requestTimeout := (requestTimeout P).value (getenv "REQUEST_TIMEOUT".toList)
  rateLimitRPS := rateLimitRPS.value (getenv "RATE_LIMIT_RPS".toList)
  rateLimitBurst := rateLimitBurst.value (getenv "RATE_LIMIT_BURST".toList)
  maxBodyBytes := maxBodyBytes.value (getenv "MAX_BODY_BYTES".toList)
  trustProxyHeaders := trustProxyHeaders.value (getenv "TRUST_PROXY_HEADERS".toList)

/-- The variables, in the order in which they are read. -/
def settings : List Variable := [
  host.toVariable, port.toVariable, (logLevel P).toVariable, (logFormat P).toVariable,
  corsAllowedOrigins.toVariable, (readHeaderTimeout P).toVariable, (readTimeout P).toVariable,
  (writeTimeout P).toVariable, (idleTimeout P).toVariable, (shutdownTimeout P).toVariable,
  (preStopDelay P).toVariable, (requestTimeout P).toVariable, rateLimitRPS.toVariable,
  rateLimitBurst.toVariable, maxBodyBytes.toVariable, trustProxyHeaders.toVariable]

end Settings

variable {P : Library} {getenv : Text → Text}

theorem load_eq : load P getenv =
    match joinErrors ((settings P).flatMap (Variable.errors getenv)) with
    | some err => (.zero, some err)
    | none => (resolved P getenv, none) := by
  unfold load
  simp only [Loader.text_eq, Loader.integer_eq, Loader.level_eq, Loader.format_eq, Loader.csv_eq,
    Loader.duration_eq, Loader.positiveDuration_eq, Loader.integer64_eq, Loader.boolean_eq]
  simp only [Loader.read_eq]
  simp only [Loader.note_getenv, Loader.note_errs, List.nil_append, List.append_assoc]
  simp only [settings, List.flatMap_cons, List.flatMap_nil, List.append_nil]
  rfl

/-- The text of a variable is not blank, and its own check refuses it. -/
def Variable.Invalid (getenv : Text → Text) (x : Variable) : Prop :=
  x.fault (getenv x.name) ≠ none

instance (x : Variable) : Decidable (x.Invalid getenv) := inferInstanceAs (Decidable (_ ≠ none))

theorem invalid_toVariable_iff {α : Type} {s : Setting α} : s.toVariable.Invalid getenv ↔
    trimSpace (getenv s.name) ≠ [] ∧ ∃ err, s.check (trimSpace (getenv s.name)) = .error err := by
  unfold Variable.Invalid Setting.toVariable Setting.fault
  by_cases h : trimSpace (getenv s.name) = []
  · simp [h]
  · cases hc : s.check (trimSpace (getenv s.name)) <;> simp [h, hc]

theorem Variable.errors_eq_nil_iff {x : Variable} : x.errors getenv = [] ↔ ¬ x.Invalid getenv := by
  unfold Variable.errors Variable.Invalid
  cases x.fault (getenv x.name) <;> simp

theorem load_of_valid (h : ∀ x ∈ settings P, ¬ x.Invalid getenv) :
    load P getenv = (resolved P getenv, none) := by
  have hnil : (settings P).flatMap (Variable.errors getenv) = [] := by
    simp only [List.flatMap_eq_nil_iff, Variable.errors_eq_nil_iff]
    exact h
  rw [load_eq, joinErrors, if_pos hnil]

theorem load_of_invalid (h : ∃ x ∈ settings P, x.Invalid getenv) :
    load P getenv = (.zero, some ((settings P).flatMap (Variable.errors getenv))) := by
  have hne : (settings P).flatMap (Variable.errors getenv) ≠ [] := by
    intro hnil
    simp only [List.flatMap_eq_nil_iff, Variable.errors_eq_nil_iff] at hnil
    obtain ⟨x, hx, hinvalid⟩ := h
    exact hnil x hx hinvalid
  rw [load_eq, joinErrors, if_neg hne]

theorem load_eq_none_iff : (load P getenv).2 = none ↔ ∀ x ∈ settings P, ¬ x.Invalid getenv := by
  constructor
  · intro h x hx hinvalid
    rw [load_of_invalid ⟨x, hx, hinvalid⟩] at h
    cases h
  · intro h
    rw [load_of_valid h]

/-- The errors name the invalid variables, each once, and quote their texts. -/
theorem map_flatMap_errors (xs : List Variable) :
    (xs.flatMap (Variable.errors getenv)).map (fun e => (e.name, e.value)) =
      (xs.filter fun x => x.Invalid getenv).map fun x => (x.name, trimSpace (getenv x.name)) := by
  induction xs with
  | nil => rfl
  | cons x xs ih =>
    rw [List.flatMap_cons, List.map_append, ih, List.filter_cons]
    cases hx : x.fault (getenv x.name) with
    | none =>
      have hvalid : ¬ x.Invalid getenv := not_not_intro hx
      rw [Variable.errors_eq_nil_iff.mpr hvalid, if_neg (by simpa using hvalid)]
      rfl
    | some err =>
      have hinvalid : x.Invalid getenv := by simp [Variable.Invalid, hx]
      rw [if_pos (by simpa using hinvalid), List.map_cons]
      simp [Variable.errors, hx]

theorem nodup_settings (P : Library) : ((settings P).map Variable.name).Nodup := by
  have hnames : (settings P).map Variable.name = [
      "HOST".toList, "PORT".toList, "LOG_LEVEL".toList, "LOG_FORMAT".toList,
      "CORS_ALLOWED_ORIGINS".toList, "READ_HEADER_TIMEOUT".toList, "READ_TIMEOUT".toList,
      "WRITE_TIMEOUT".toList, "IDLE_TIMEOUT".toList, "SHUTDOWN_TIMEOUT".toList,
      "PRE_STOP_DELAY".toList, "REQUEST_TIMEOUT".toList, "RATE_LIMIT_RPS".toList,
      "RATE_LIMIT_BURST".toList, "MAX_BODY_BYTES".toList, "TRUST_PROXY_HEADERS".toList] := rfl
  rw [hnames]
  simp

/-- In every environment: the configuration fails to load exactly if a variable is
invalid. Then the error is about each invalid variable once, with its trimmed
text, and the configuration is the zero value. Otherwise each field is the value
of its own variable, or its default. -/
theorem load_all_or_nothing (P : Library) (getenv : Text → Text) :
    ((load P getenv).2 ≠ none ↔ ∃ x ∈ settings P, x.Invalid getenv) ∧
    ((settings P).map Variable.name).Nodup ∧
    (∀ errs, (load P getenv).2 = some errs →
      (load P getenv).1 = .zero ∧
      errs.map (fun e => (e.name, e.value)) = ((settings P).filter fun x => x.Invalid getenv).map
        fun x => (x.name, trimSpace (getenv x.name))) ∧
    ((load P getenv).2 = none → (load P getenv).1 = resolved P getenv) := by
  refine ⟨?_, nodup_settings P, ?_, ?_⟩
  · rw [ne_eq, load_eq_none_iff]
    push Not
    rfl
  · intro errs herrs
    have hinvalid : ∃ x ∈ settings P, x.Invalid getenv := by
      by_contra hvalid
      push Not at hvalid
      rw [load_eq_none_iff.mpr hvalid] at herrs
      cases herrs
    rw [load_of_invalid hinvalid] at herrs ⊢
    cases herrs
    exact ⟨rfl, map_flatMap_errors _⟩
  · intro h
    rw [load_of_valid (load_eq_none_iff.mp h)]

end Calculator.Settings
