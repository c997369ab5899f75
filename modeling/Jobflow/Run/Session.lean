import Jobflow.Cookie.Store
import Jobflow.Job.Route
import Jobflow.Job.Seed
import Jobflow.Workflow.Execute

/-!
One run of a workflow, in a browser session of its own. Cookies saved for the
site are restored when the session opens and kept when the run was not stopped
from outside; the session is closed on every path. Trouble with cookies or with
closing never changes how the run ends.
-/

namespace Jobflow.Run

open Jobflow.Cookie (Jar)
open Jobflow.Job (Applicant Job RouteError Routes)
open Jobflow.Page (PageError)
open Jobflow.Workflow (Browse Browsing Command Context Ended FlowError)

/-- A browser session, by its number. -/
abbrev SessionId := Nat

/-- What a run asks of its surroundings. -/
inductive RunOp where
  /-- whether the run was asked to stop -/
  | isCancelled
  | workflow (name : String)
  | openSession (cookies : Option Jar)
  /-- an operation of the workflow, during which the run may be stopped -/
  | browse (session : SessionId) (op : Browse)
  | exportCookies (session : SessionId)
  | closeSession (session : SessionId)
  | loadCookies (site : String)
  | saveCookies (site : String) (jar : Jar)

/-- What each operation yields; nothing for an operation of the workflow during
which the run was stopped. -/
def RunOp.Answer : RunOp → Type
  | .isCancelled => Bool
  | .workflow _ => Except FlowError Command
  | .openSession _ => Except PageError SessionId
  | .browse _ op => Option op.Answer
  | .exportCookies _ => Except PageError Jar
  | .closeSession _ => Except PageError Unit
  | .loadCookies _ => Except FlowError (Option Jar)
  | .saveCookies .. => Except FlowError Unit

def running : Interface := ⟨RunOp, RunOp.Answer⟩

/-- A program that makes one run. -/
abbrev Running (α : Type) := Program running α

def isCancelled : Running Bool := .step .isCancelled .done

def lookup (name : String) : Running (Except FlowError Command) := .step (.workflow name) .done

def openSession (cookies : Option Jar) : Running (Except PageError SessionId) :=
  .step (.openSession cookies) .done

def exportCookies (session : SessionId) : Running (Except PageError Jar) :=
  .step (.exportCookies session) .done

def closeSession (session : SessionId) : Running (Except PageError Unit) :=
  .step (.closeSession session) .done

def loadCookies (site : String) : Running (Except FlowError (Option Jar)) :=
  .step (.loadCookies site) .done

def saveCookies (site : String) (jar : Jar) : Running (Except FlowError Unit) :=
  .step (.saveCookies site jar) .done

/-- Carries out the execution of a workflow in a session; nothing when it was
stopped. -/
def drive {α : Type} (session : SessionId) : Browsing α → Running (Option α)
  | .done a => .done (some a)
  | .step op next => .step (.browse session op) fun (answer : Option op.Answer) =>
    match answer with
    | none => .done none
    | some answer => drive session (next answer)

/-- The cookies to restore: none when they cannot be read. -/
def restored (keepsCookies : Bool) (site : String) : Running (Option Jar) := do
  if keepsCookies then
    match ← loadCookies site with
    | .ok saved => return saved
    | .error _ => return none
  else return none

/-- Keeps the cookies of a session, if it has any. -/
def keepCookies (site : String) (session : SessionId) : Running Unit := do
  match ← exportCookies session with
  | .ok jar =>
    if jar.cookies.isEmpty then return ()
    else
      let _ ← saveCookies site jar
      return ()
  | .error _ => return ()

/-- What a run reports: the variables at its end, or why it failed. -/
def verdict : Option Ended → Except FlowError Context
  | none => .error .cancelled
  | some ended =>
    match ended.result with
    | .ok _ => .ok ended.context
    | .error e => .error e

/-- Whether the run was stopped from outside, by what it reports. -/
def wasStopped (ended : Option Ended) : Bool :=
  match verdict ended with
  | .error .cancelled => true
  | _ => false

/-- Closes a session; the cookies are kept first, unless the run was stopped. -/
def leave (keepsCookies : Bool) (site : String) (session : SessionId) (ended : Option Ended) :
    Running Unit := do
  if keepsCookies && !wasStopped ended then keepCookies site session
  let _ ← closeSession session
  return ()

/-- Executes a workflow in a session, unless the run was asked to stop. -/
def executeIn (session : SessionId) (command : Command) (initial : Context) :
    Running (Option Ended) := do
  if ← isCancelled then return none
  else drive session (Workflow.execute command initial)

def runWorkflow (keepsCookies : Bool) (command : Command) (initial : Context) :
    Running (Except FlowError Context) := do
  let site := Cookie.siteOf initial
  let saved ← restored keepsCookies site
  match ← openSession saved with
  | .error e => return .error (.page e)
  | .ok session =>
    let ended ← executeIn session command initial
    leave keepsCookies site session ended
    return verdict ended

/-! ### Runs for offers -/

/-- Why no run for an offer was made, or why it failed. -/
inductive RunError where
  | routing (cause : RouteError)
  | workflow (cause : FlowError)
  | aborted (report : String)
  deriving DecidableEq, Repr

def RunError.message : RunError → String
  | .routing cause => cause.message
  | .workflow cause => cause.message
  | .aborted report => "job task aborted: " ++ report

/-- What a run for an offer needs to know. -/
structure RunPlan where
  routes : Routes
  applicant : Applicant
  keepsCookies : Bool

def runJob (plan : RunPlan) (job : Job) : Running (Except RunError Context) := do
  match plan.routes.resolve job.url with
  | .error e => return .error (.routing e)
  | .ok name =>
    match ← lookup name with
    | .error e => return .error (.workflow e)
    | .ok command =>
      if ← isCancelled then return .error (.workflow .cancelled)
      else
        let result ← runWorkflow plan.keepsCookies command
          (Job.initialContext job plan.applicant)
        return result.mapError .workflow

end Jobflow.Run
