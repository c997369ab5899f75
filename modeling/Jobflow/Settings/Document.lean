import Jobflow.Settings.Basic
import Jobflow.Yaml.Read

/-!
Configuration files: YAML with a section for each concern. A section or a field
that is not given keeps its usual value, and a given route table takes the place
of the usual one.
-/

namespace Jobflow.Settings

open Jobflow.Browser (Environment)
open Jobflow.Files (Path Tree)
open Jobflow.Job (Applicant)
open Jobflow.Yaml

def readPolling : Reader Polling :=
  readRecord standard.polling
    [field "polling_interval_secs" (fun s n => { s with interval := n }) readNat,
     field "max_concurrent_instances" (fun s n => { s with limit := n }) readNat]

def readPlaces : Reader Places :=
  readRecord standard.places
    [field "workflows_dir" (fun s p => { s with workflows := p }) readText,
     field "forms_dir" (fun s p => { s with forms := p }) readText,
     field "cookies_dir" (fun s p => { s with cookies := p }) readText,
     field "jobs_file" (fun s p => { s with jobs := p }) readText]

def readBrowser : Reader BrowserChoice :=
  readRecord standard.browser
    [field "headless" (fun s b => { s with headless := b }) readBool,
     field "executable" (fun s p => { s with executable := p }) (readOption readText),
     field "user_agent" (fun s a => { s with userAgent := a }) (readOption readText),
     field "use_saved_cookies" (fun s b => { s with keepsCookies := b }) readBool,
     field "default_timeout_ms" (fun s n => { s with defaultTimeout := n }) readNat,
     field "no_sandbox" (fun s b => { s with noSandbox := b }) readBool]

def readApplicant : Reader Applicant :=
  readRecord standard.applicant
    [field "resume_path" (fun s t => { s with resumePath := t }) readText,
     field "cover_letter_path" (fun s t => { s with coverLetterPath := t }) readText,
     field "first_name" (fun s t => { s with firstName := t }) readText,
     field "last_name" (fun s t => { s with lastName := t }) readText,
     field "phone" (fun s t => { s with phone := t }) readText,
     field "email" (fun s t => { s with email := t }) readText,
     field "extra" (fun s d => { s with extra := d }) (readDict readText)]

def read : Reader Settings :=
  readRecord standard
    [field "scheduler" (fun s p => { s with polling := p }) readPolling,
     field "paths" (fun s p => { s with places := p }) readPlaces,
     field "browser" (fun s b => { s with browser := b }) readBrowser,
     field "applicant" (fun s a => { s with applicant := a }) readApplicant,
     field "routes" (fun s r => { s with routes := r }) (readDict readText)]

/-- The settings that the text of a file gives; an empty text gives none. -/
def parse (path : Path) (text : String) : Except SettingsError Settings :=
  match Yaml.parse text with
  | .error _ => .error (.unparsable path)
  | .ok none => .ok standard
  | .ok (some root) =>
    match read root with
    | .ok settings => .ok settings
    | .error _ => .error (.unparsable path)

/-- Where the configuration is when no path is given: below the directory of
configurations of the user. A relative directory does not count. -/
def defaultPath? (env : Environment) : Option Path :=
  let given := (env "XDG_CONFIG_HOME").filter fun dir => dir.toList.head? = some '/'
  let home := ((env "HOME").filter (· ≠ "")).map fun home => home ++ "/.config"
  (given <|> home).map fun dir => Files.Path.join (Files.Path.join dir "autoapply") "config.yaml"

/-- The settings in a file; a file that is missing gives none. -/
def loadFrom (path : Path) (tree : Tree) : Except SettingsError Settings :=
  match tree.readText path with
  | .ok text => parse path text
  | .error .notFound => .ok standard
  | .error e => .error (.unreadable path e)

/-- The settings at the given path, or at the usual one. -/
def load (path : Option Path) (env : Environment) (tree : Tree) : Except SettingsError Settings :=
  match path <|> defaultPath? env with
  | some path => loadFrom path tree
  | none => .ok standard

end Jobflow.Settings
