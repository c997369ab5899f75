import Jobflow.Cli.Help
import Jobflow.Schedule.Poll
import Jobflow.Settings.Basic
import Jobflow.Workflow.Codec
import Jobflow.Workflow.Error

/-!
What commands print, and how they fail: with a chain of messages, from what was
tried to what went wrong in the end.
-/

namespace Jobflow.Cli

open Jobflow.Files (Path)
open Jobflow.Job (Attempt Job)
open Jobflow.Json (Value)
open Jobflow.Schedule (Counters Report)
open Jobflow.Workflow (Context FlowError)

def lines (body : List String) : String := String.join (body.map (· ++ "\n"))

/-! ### Failures -/

/-- A failure: what failed, and the causes, each one behind the one before. -/
structure Failure where
  outer : String
  causes : List String
  deriving DecidableEq, Repr

namespace Failure

/-- The messages from the outermost to the root cause. -/
def chain (f : Failure) : List String := f.outer :: f.causes

/-- The failure of what was tried, because of another one. -/
def within (what : String) (f : Failure) : Failure := ⟨what, f.chain⟩

def ofMessage (message : String) : Failure := ⟨message, []⟩

/-- A failure of a workflow; one of a page is its own cause once more. -/
def ofFlow (e : FlowError) : Failure :=
  match e with
  | .page cause => ⟨e.message, [cause.message]⟩
  | _ => .ofMessage e.message

/-- A failure of the settings; the file system is a cause of its own. -/
def ofSettings (e : SettingsError) : Failure :=
  match e with
  | .unreadable _ cause => ⟨e.message, [cause.message]⟩
  | _ => .ofMessage e.message

def numbered : Nat → List String → List String
  | _, [] => []
  | i, cause :: rest => ("    " ++ toString i ++ ": " ++ cause) :: numbered (i + 1) rest

/-- The report of a program that ends with the failure. -/
def report (f : Failure) : String :=
  match f.causes with
  | [] => lines ["Error: " ++ f.outer]
  | [cause] => lines ["Error: " ++ f.outer, "", "Caused by:", "    " ++ cause]
  | causes => lines (["Error: " ++ f.outer, "", "Caused by:"] ++ numbered 0 causes)

end Failure

/-! ### Results -/

/-- A value that stands by itself. -/
def json (value : Value) : String := lines [value.pretty]

def validated (form : Form) (file : Path) (command : Workflow.Command) : String :=
  match form with
  | .json => json (.ofMembers [("file", .string file), ("root", .string command.kind),
      ("nodes", .ofNat command.nodeCount), ("tree", command.toValue)])
  | .human =>
    lines [file ++ ": ok (" ++ toString command.nodeCount ++ " nodes)"] ++ command.outline

def executed (form : Form) (workflow : String) (ctx : Context) : String :=
  let (success, message) := ctx.outcome
  match form with
  | .json => json (.ofMembers [("workflow", .string workflow), ("success", .bool success),
      ("message", .string message), ("context", ctx.variablesValue)])
  | .human =>
    lines (["Workflow '" ++ workflow ++ "' finished: " ++ (Job.Status.ofFlag success).name] ++
      (if message = "" then [] else ["Message: " ++ message]) ++ ["Context:"] ++
      ctx.entries.map fun (name, value) => "  " ++ name ++ " = " ++ value.display)

/-- In one word, what may happen to an offer. -/
def stateOf (job : Job) : String :=
  if job.isApplied then "applied" else if job.shouldApply then "pending" else "idle"

/-- The line about the last attempt. -/
def attemptLine (a : Attempt) : String :=
  "    last attempt " ++ a.status.name ++ " at " ++ a.timestamp.format "+00:00" ++
    match a.message with
    | some message => ": " ++ message
    | none => ""

def jobLines (job : Job) : List String :=
  [job.id.text ++ "  " ++ Text.padRight 8 (stateOf job) ++ " " ++ job.title ++ "  " ++ job.url] ++
    (job.lastAttempt?.map attemptLine).toList

def listed (form : Form) (jobs : List Job) : String :=
  match form with
  | .json => json (.array (jobs.map Job.toValue))
  | .human => if jobs.isEmpty then lines ["No jobs"] else lines (jobs.flatMap jobLines)

def polled (form : Form) (r : Report) : String :=
  match form with
  | .json =>
    lines [(Value.ofMembers [("selected", .ofNat r.selected), ("succeeded", .ofNat r.succeeded),
      ("failed", .ofNat r.failed), ("cancelled", .ofNat r.cancelled)]).compact]
  | .human =>
    if r.selected = 0 then lines ["No pending jobs"]
    else lines ["Processed " ++ toString r.selected ++ " jobs: " ++ toString r.succeeded ++
      " succeeded, " ++ toString r.failed ++ " failed, " ++ toString r.cancelled ++ " interrupted"]

def stopped (c : Counters) : String :=
  lines ["Scheduler stopped after " ++ toString c.polls ++ " polls: " ++ toString c.succeeded ++
    " succeeded, " ++ toString c.failed ++ " failed, " ++ toString c.cancelled ++ " interrupted"]

/-- The version and the settings; `file` is where the settings came from. -/
def information (settings : Settings) (options : Browser.Options) (file : Option Path) : String :=
  let routes := if settings.routes.isEmpty then ["- (none)"]
    else settings.routes.map fun (host, workflow) => "- " ++ host ++ " -> " ++ workflow
  lines (["AutoApply System Information", "============================",
    "Version: " ++ versionNumber, "Build Date: unknown", "Git Commit: unknown", "",
    "Configuration:", "- File: " ++ file.getD "(defaults)",
    "- Polling: every " ++ toString settings.polling.interval ++ "s, up to " ++
      toString settings.polling.limit ++ " jobs",
    "- Workflows: " ++ settings.places.workflows, "- Forms: " ++ settings.places.forms,
    "- Jobs: " ++ settings.places.jobs,
    "- Cookies: " ++ (if settings.browser.keepsCookies then settings.places.cookies
      else "disabled"), "",
    "Browser:",
    "- Executable: " ++ (if options.executable = "" then "not found" else options.executable),
    "- Headless: " ++ toString options.headless,
    "- Sandbox: " ++ (if options.noSandbox then "off" else "on"),
    "- Default timeout: " ++ toString options.defaultTimeout ++ "ms", "", "Routes:"] ++ routes)

end Jobflow.Cli
