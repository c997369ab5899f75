import Jobflow.Cli.Report
import Jobflow.Schedule.Loop
import Jobflow.Workflow.Compile

/-!
What the commands do. They work in any world that has files, a clock, fresh
identifiers and surroundings for runs.
-/

namespace Jobflow.Cli

open Jobflow.Files (Filing Path)
open Jobflow.Job (FileStore Job Routes)
open Jobflow.Run (Host RunError RunPlan)
open Jobflow.Schedule (Backlog Counters)

/-- What commands need of a world with state `W`. -/
structure Workplace (W : Type) where
  host : Host W
  backlog : Backlog W
  filing : {α : Type} → Filing α → W → α × W
  /-- an identifier that was never used before -/
  identifier : W → Uuid × W
  /-- milliseconds -/
  time : W → Nat

/-- The settings of a command, once they are known to be usable. -/
structure Desk where
  settings : Settings
  routes : Routes

def Desk.open (settings : Settings) : Except SettingsError Desk := do
  settings.validate
  return ⟨settings, ← settings.routeTable⟩

def Desk.store (desk : Desk) : FileStore := ⟨desk.settings.places.jobs⟩

def Desk.plan (desk : Desk) : RunPlan :=
  ⟨desk.routes, desk.settings.applicant, desk.settings.browser.keepsCookies⟩

/-- What a command prints, or how it failed. -/
abbrev Printed := Except Failure String

section

variable {W : Type} (place : Workplace W) (desk : Desk)

def validate (form : Form) (file : Path) (w : W) : Printed × W :=
  let (read, w) := place.filing (Filing.readText file) w
  let printed : Printed := do
    let text ← read.mapError fun e =>
      Failure.within ("Failed to read " ++ file) (.ofMessage e.message)
    let command ← (Workflow.compile text).mapError fun e =>
      Failure.within (file ++ " is not a valid workflow") (.ofFlow (.malformed e.message))
    return validated form file command
  (printed, w)

/-- The workflow of a trial: the one it names, or that of the host. -/
def workflowOf (trial : Trial) : Except Failure String :=
  match trial.workflow with
  | some name => .ok name
  | none => (desk.routes.resolve trial.url).mapError fun e => .ofMessage e.message

/-- Runs one workflow; the backlog is not touched. -/
def executeTrial (form : Form) (trial : Trial) (w : W) : Printed × W :=
  match workflowOf desk trial with
  | .error f => (.error f, w)
  | .ok name =>
    let found := Run.runAlone place.host none (Run.lookup name) (place.time w) w
    match found.answer with
    | .error e =>
      (.error (.within ("Failed to load workflow '" ++ name ++ "'") (.ofFlow e)), found.world)
    | .ok command =>
      let (id, w) := place.identifier found.world
      let (now, w) := place.backlog.now (place.time w) w
      let job := Job.create id now trial.url trial.title trial.employer
      let initial := Job.initialContext job desk.settings.applicant
      let ended := Run.runAlone place.host none
        (Run.runWorkflow desk.settings.browser.keepsCookies command initial) (place.time w) w
      (match ended.answer with
        | .ok ctx => .ok (executed form name ctx)
        | .error e => .error (.within ("Workflow '" ++ name ++ "' failed") (.ofFlow e)),
        ended.world)

def list (form : Form) (onlyPending : Bool) (w : W) : Printed × W :=
  match place.filing desk.store.list w with
  | (.error e, w) => (.error (.within "Failed to read jobs" (.ofMessage e.message)), w)
  | (.ok jobs, w) => (.ok (listed form (jobs.filter fun job => !onlyPending || job.isPending)), w)

/-- Adds an offer. One whose host has no workflow is added all the same, but not
one without an address. -/
def add (offer : Offer) (w : W) : Printed × W :=
  match desk.routes.resolve offer.url with
  | .error (.invalidUrl url reason) =>
    (.error (.ofMessage (Job.RouteError.invalidUrl url reason).message), w)
  | _ =>
    let (id, w) := place.identifier w
    let (now, w) := place.backlog.now (place.time w) w
    let job := Job.create id now offer.url offer.title offer.employer
    match place.filing (desk.store.insert job) w with
    | (.error e, w) => (.error (.within "Failed to add job" (.ofMessage e.message)), w)
    | (.ok (), w) => (.ok (lines [id.text]), w)

/-- Arms an offer once more. -/
def rearm (id : Uuid) (w : W) : Printed × W :=
  match place.filing (desk.store.get id) w with
  | (.error e, w) => (.error (.within "Failed to read jobs" (.ofMessage e.message)), w)
  | (.ok none, w) => (.error (.ofMessage ("job " ++ id.text ++ " not found")), w)
  | (.ok (some job), w) =>
    match place.filing (desk.store.commit { job with shouldApply := true }) w with
    | (.error e, w) => (.error (.within "Failed to update job" (.ofMessage e.message)), w)
    | (.ok (), w) => (.ok (lines ["Job " ++ id.text ++ " re-armed"]), w)

/-- Polls once. -/
def pollOnce (form : Form) (w : W) : Printed × W :=
  let ended := Schedule.pollOnce place.host place.backlog desk.plan desk.settings.schedule.limit
    none (place.time w) w
  (match ended.answer.result with
    | .ok report => .ok (polled form report)
    | .error e => .error (.within "poll failed" (.ofMessage e.message)), ended.world)

/-- Polls until it is interrupted at the time `stop`. -/
def run (stop : Nat) (w : W) : Printed × W :=
  let start := place.time w
  let ended := Schedule.pollUntil place.host place.backlog desk.plan desk.settings.schedule stop
    start start Counters.zero w
  (.ok (stopped ended.answer), ended.world)

end

end Jobflow.Cli
