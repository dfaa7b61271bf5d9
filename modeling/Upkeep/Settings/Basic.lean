import Upkeep.Settings.CommandLine
import Upkeep.Text.Quoted
import Upkeep.Time.Duration

/-!
The settings of the caretaker: the flags that give them, what they must satisfy, and the spans of
time and the state directory that follow from them.
-/

namespace Upkeep

structure Settings where
  host : String
  tcpPort : Nat
  authToken : Option String
  stateDir : Option String
  tokenUrl : String
  clientId : String
  markerNamespace : String
  maxAttempts : Nat
  retryBackoffMs : UInt64
  staggerMs : UInt64
  refreshPeriodMs : UInt64
  expiryLookaheadSecs : UInt64
  refreshMarginSecs : UInt64
  expirySweepMs : UInt64
  pageSize : Nat
  logLevel : String
  logFormat : String
  deriving DecidableEq, Repr

namespace Settings

open CommandLine

def greatest16 : Nat := Nat.pow 2 16 - 1

def greatest32 : Nat := Nat.pow 2 32 - 1

def greatest64 : Nat := Nat.pow 2 64 - 1

def flags : List Flag :=
  [⟨"--host", "DIDKEEP_HOST", .text, .value "127.0.0.1"⟩,
    ⟨"--port", "DIDKEEP_PORT", .signed greatest16, .value "9810"⟩,
    ⟨"--auth-token", "DIDKEEP_AUTH_TOKEN", .text, .absent⟩,
    ⟨"--state-dir", "DIDKEEP_STATE_DIR", .path, .absent⟩,
    ⟨"--token-url", "DIDKEEP_TOKEN_URL", .text, .required⟩,
    ⟨"--client-id", "DIDKEEP_CLIENT_ID", .text, .required⟩,
    ⟨"--marker-namespace", "DIDKEEP_MARKER_NAMESPACE", .text, .value "refresh"⟩,
    ⟨"--max-attempts", "DIDKEEP_MAX_ATTEMPTS", .signed greatest32, .value "5"⟩,
    ⟨"--retry-backoff-ms", "DIDKEEP_RETRY_BACKOFF_MS", .natural greatest64, .value "1000"⟩,
    ⟨"--stagger-ms", "DIDKEEP_STAGGER_MS", .natural greatest64, .value "5000"⟩,
    ⟨"--refresh-period-ms", "DIDKEEP_REFRESH_PERIOD_MS", .natural greatest64, .value "300000"⟩,
    ⟨"--expiry-lookahead-secs", "DIDKEEP_EXPIRY_LOOKAHEAD_SECS", .natural greatest64, .value "600"⟩,
    ⟨"--refresh-margin-secs", "DIDKEEP_REFRESH_MARGIN_SECS", .natural greatest64, .value "300"⟩,
    ⟨"--expiry-sweep-ms", "DIDKEEP_EXPIRY_SWEEP_MS", .natural greatest64, .value "0"⟩,
    ⟨"--page-size", "DIDKEEP_PAGE_SIZE", .natural greatest64, .value "100"⟩,
    ⟨"--log-level", "DIDKEEP_LOG_LEVEL", .text, .value "info"⟩,
    ⟨"--log-format", "DIDKEEP_LOG_FORMAT", .text, .value "text"⟩]

/-- The settings that the values of all flags give. -/
def ofValues (values : Values) : Settings :=
  let text (name : String) : String := (values.lookup name).getD ""
  let number (name : String) : Nat := (number? (.signed greatest64) (text name)).getD 0
  let word (name : String) : UInt64 := UInt64.ofNat (number name)
  { host := text "--host"
    tcpPort := number "--port"
    authToken := values.lookup "--auth-token"
    stateDir := values.lookup "--state-dir"
    tokenUrl := text "--token-url"
    clientId := text "--client-id"
    markerNamespace := text "--marker-namespace"
    maxAttempts := number "--max-attempts"
    retryBackoffMs := word "--retry-backoff-ms"
    staggerMs := word "--stagger-ms"
    refreshPeriodMs := word "--refresh-period-ms"
    expiryLookaheadSecs := word "--expiry-lookahead-secs"
    refreshMarginSecs := word "--refresh-margin-secs"
    expirySweepMs := word "--expiry-sweep-ms"
    pageSize := number "--page-size"
    logLevel := text "--log-level"
    logFormat := text "--log-format" }

def parse (env : Values) (tokens : List String) : Except CommandLine.Error Settings :=
  (CommandLine.parse flags env tokens).map ofValues

inductive Fault where
  | noAttempts
  | noPeriod
  | noPageSize
  | noNamespace
  | noTokenUrl
  | unknownFormat (name : String)
  deriving DecidableEq, Repr

def Fault.message : Fault → String
  | .noAttempts => "--max-attempts must be at least 1"
  | .noPeriod => "--refresh-period-ms must be greater than zero"
  | .noPageSize => "--page-size must be greater than zero"
  | .noNamespace => "--marker-namespace must not be empty"
  | .noTokenUrl => "--token-url must not be empty"
  | .unknownFormat name => "unknown --log-format " ++ Quoted.encode name ++ " (expected text or json)"

/-- The first thing that settings must satisfy and do not. -/
def fault? (s : Settings) : Option Fault :=
  if s.maxAttempts = 0 then some .noAttempts
  else if s.refreshPeriodMs = 0 then some .noPeriod
  else if s.pageSize = 0 then some .noPageSize
  else if s.markerNamespace = "" then some .noNamespace
  else if s.tokenUrl = "" then some .noTokenUrl
  else if s.logFormat = "text" || s.logFormat = "json" then none
  else some (.unknownFormat s.logFormat)

def stagger (s : Settings) : Duration := .ofMillis s.staggerMs

def period (s : Settings) : Duration := .ofMillis s.refreshPeriodMs

def backoff (s : Settings) : Duration := .ofMillis s.retryBackoffMs

def lookahead (s : Settings) : Duration := .ofSeconds s.expiryLookaheadSecs

def margin (s : Settings) : Duration := .ofSeconds s.refreshMarginSecs

/-- How often the expiry sweep runs again; zero milliseconds mean never. -/
def sweepInterval (s : Settings) : Option Duration :=
  if s.expirySweepMs = 0 then none else some (.ofMillis s.expirySweepMs)

/-- A path below another; an empty one adds nothing, not even a slash. -/
def below (base path : String) : String :=
  if base.isEmpty then path
  else if base.toList.getLast? = some '/' then base ++ path
  else base ++ "/" ++ path

/-- The directory of the store: the one given, or the usual place for state. -/
def resolvedStateDir (s : Settings) (env : Values) : String :=
  match s.stateDir, env.lookup "XDG_STATE_HOME", env.lookup "HOME" with
  | some dir, _, _ => dir
  | none, some base, _ => below base "didkeep"
  | none, none, some home => below home ".local/state/didkeep"
  | none, none, none => ".didkeep"

end Settings

end Upkeep
