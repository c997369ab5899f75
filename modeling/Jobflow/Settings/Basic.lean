import Jobflow.Browser.Launch
import Jobflow.Job.Route
import Jobflow.Job.Seed
import Jobflow.Schedule.Loop

/-!
What can be configured, the usual values, the environment variables that take
precedence, and what makes a configuration unusable.
-/

namespace Jobflow

open Jobflow.Browser (Environment)
open Jobflow.Files (Path Tree)
open Jobflow.Job (Applicant Routes)
open Jobflow.Json (Value)

namespace Settings

/-- How often offers are looked for, and how many at once. -/
structure Polling where
  /-- seconds -/
  interval : Nat
  limit : Nat
  deriving DecidableEq, Repr

/-- Where everything is kept. -/
structure Places where
  workflows : Path
  forms : Path
  cookies : Path
  jobs : Path
  deriving DecidableEq, Repr

/-- Which browser is used, and how. -/
structure BrowserChoice where
  headless : Bool
  /-- found by itself when it is not given -/
  executable : Option Path
  userAgent : Option String
  keepsCookies : Bool
  /-- milliseconds -/
  defaultTimeout : Nat
  noSandbox : Bool
  deriving DecidableEq, Repr

end Settings

/-- A configuration. -/
structure Settings where
  polling : Settings.Polling
  places : Settings.Places
  browser : Settings.BrowserChoice
  applicant : Applicant
  /-- workflow names by host, as they are configured -/
  routes : Dict String
  deriving DecidableEq, Repr

/-- Why a configuration cannot be used. -/
inductive SettingsError where
  | unreadable (path : Path) (cause : Files.IoError)
  | unparsable (path : Path)
  | invalid (reason : String)
  deriving DecidableEq, Repr

def SettingsError.message : SettingsError → String
  | .unreadable path cause => "cannot read " ++ path ++ ": " ++ cause.message
  | .unparsable path => "cannot parse " ++ path
  | .invalid reason => "invalid configuration: " ++ reason

namespace Settings

def standard : Settings where
  polling := ⟨60, 2⟩
  places := ⟨"Workflows", "Forms", "Cookies", "jobs.json"⟩
  browser := ⟨true, none, none, true, 30000, false⟩
  applicant := .unknown
  routes := Routes.standard.table

/-! ### Environment variables -/

/-- The flag a word means, in any case and between blanks. -/
def flag? (raw : String) : Option Bool :=
  let word := Text.lower (Text.trim raw)
  if word ∈ ["1", "true", "yes", "on"] then some true
  else if word ∈ ["0", "false", "no", "off"] then some false
  else none

/-- The settings with what environment variables say; values that mean nothing
are passed over. -/
def override (s : Settings) (env : Environment) : Settings :=
  let headless := ((env "AUTOAPPLY_HEADLESS").bind flag?).getD s.browser.headless
  let executable := Browser.valueOf env Browser.executableVariable <|> s.browser.executable
  let number (name : String) (usual : Nat) : Nat :=
    ((env name).bind fun raw => Text.readU64? (Text.trim raw)).getD usual
  { s with
    browser := { s.browser with headless := headless, executable := executable }
    polling := ⟨number "AUTOAPPLY_POLL_SECS" s.polling.interval,
      number "AUTOAPPLY_MAX_CONCURRENT" s.polling.limit⟩ }

/-! ### What the settings mean -/

def routeTable (s : Settings) : Except SettingsError Routes :=
  match Routes.ofEntries s.routes with
  | .ok routes => .ok routes
  | .error fault => .error (.invalid fault.report)

def validate (s : Settings) : Except SettingsError Unit := do
  if s.polling.limit = 0 then
    .error (.invalid "scheduler.max_concurrent_instances must be at least 1")
  if s.polling.interval = 0 then
    .error (.invalid "scheduler.polling_interval_secs must be at least 1")
  let _ ← s.routeTable

def schedule (s : Settings) : Schedule.Config := ⟨s.polling.interval * 1000, s.polling.limit⟩

def browserOptions (s : Settings) (env : Environment) (tree : Tree) : Browser.Options :=
  let standard := Browser.Options.standard env tree
  { standard with
    executable := s.browser.executable.getD standard.executable
    headless := s.browser.headless
    userAgent := s.browser.userAgent
    defaultTimeout := s.browser.defaultTimeout
    noSandbox := standard.noSandbox || s.browser.noSandbox }

/-! ### JSON -/

def toValue (s : Settings) : Value :=
  .object [
    ("scheduler", .object [("polling_interval_secs", .ofNat s.polling.interval),
      ("max_concurrent_instances", .ofNat s.polling.limit)]),
    ("paths", .object [("workflows_dir", .string s.places.workflows),
      ("forms_dir", .string s.places.forms), ("cookies_dir", .string s.places.cookies),
      ("jobs_file", .string s.places.jobs)]),
    ("browser", .object [("headless", .bool s.browser.headless),
      ("executable", .ofText? s.browser.executable), ("user_agent", .ofText? s.browser.userAgent),
      ("use_saved_cookies", .bool s.browser.keepsCookies),
      ("default_timeout_ms", .ofNat s.browser.defaultTimeout),
      ("no_sandbox", .bool s.browser.noSandbox)]),
    ("applicant", s.applicant.toValue),
    ("routes", .object (Dict.mapValues Value.string s.routes))]

end Settings

end Jobflow
