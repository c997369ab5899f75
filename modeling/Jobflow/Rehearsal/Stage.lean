import Jobflow.Page.Together
import Jobflow.Rehearsal.Script
import Jobflow.Run.Timeline
import Jobflow.Schedule.Poll
import Jobflow.Workflow.Library

/-!
A stage for rehearsals of runs: sessions show a given page, definitions are at
hand or lie in directories of a file tree, the clock counts milliseconds from a
given moment, and everything that happens to the surroundings of the runs is
kept for inspection.
-/

namespace Jobflow.Rehearsal

open Jobflow.Cookie (Jar)
open Jobflow.Files (Filing Tree)
open Jobflow.Job (FileStore Job MemoryStore StoreError)
open Jobflow.Page
open Jobflow.Run
open Jobflow.Schedule (Backlog)
open Jobflow.Time (Duration Instant)
open Jobflow.Workflow

/-! ### What is given -/

/-- Where definitions of one kind come from. -/
inductive Definitions (α : Type) where
  /-- all of them are at hand -/
  | given (definitions : Dict α)
  /-- they are read from a directory when they are first asked for -/
  | shelved (shelf : Workflow.Shelf α)

/-- Looks a definition up; what is remembered of the directory afterwards. -/
def Definitions.get {α : Type} (source : Definitions α) (kind name : String)
    (remembered : Dict α) (tree : Tree) : Except FlowError α × Dict α :=
  match source with
  | .given definitions =>
    match Dict.find? name definitions with
    | some definition => (.ok definition, remembered)
    | none => (.error (.notFound (kind ++ " '" ++ name ++ "'")), remembered)
  | .shelved shelf => shelf.consult name remembered tree

/-- What does not change during a rehearsal. -/
structure Stage where
  page : Behaviour
  /-- what the opening of a session does to the files, and whether it succeeds -/
  launch : (session : Uuid) → Tree → Except PageError Unit × Tree
  /-- what a session answers when its cookies are asked for -/
  exported : Reply Jar
  /-- what a session answers when it is closed -/
  closing : Reply Unit
  workflows : Definitions Command
  /-- workflows whose lookup breaks down -/
  crashing : List String
  forms : Definitions Form
  cookies : Option Cookie.Store
  /-- the calendar time at time zero -/
  start : Instant

/-- A stage with a page and nothing else. -/
def Stage.bare (page : Behaviour) : Stage where
  page := page
  launch _ tree := (.ok (), tree)
  exported := ⟨0, .ok .empty⟩
  closing := ⟨0, .ok ()⟩
  workflows := .given []
  crashing := []
  forms := .given []
  cookies := none
  start := ⟨1893456000, 0⟩

/-! ### What happens -/

/-- A change of the backlog that comes from elsewhere. -/
inductive Edit where
  | insert (job : Job)
  | commit (job : Job)
  deriving DecidableEq, Repr

/-- An operation of the backlog that can be made to fail. -/
inductive BacklogCall where
  | pending
  | record
  deriving DecidableEq, Repr

namespace BacklogCall

def name : BacklogCall → String
  | .pending => "pending"
  | .record => "record_attempt"

/-- The report of a call that was made to fail. -/
def failure (call : BacklogCall) : StoreError :=
  .io ("scripted " ++ call.name ++ " failure")

end BacklogCall

/-- The state of a rehearsal. -/
structure Scene where
  /-- milliseconds -/
  time : Nat
  /-- the calls on each session, in the order of their opening -/
  sessions : List (List Call)
  closed : Nat
  /-- the cookies each attempt to open a session came with -/
  restored : List (Option Jar)
  tree : Tree
  /-- the workflows and forms read from directories so far -/
  workflows : Dict Command
  forms : Dict Form
  /-- how many fresh identifiers were drawn -/
  drawn : Nat
  /-- how often the calendar was looked at -/
  looks : Nat
  jobs : MemoryStore
  failing : List BacklogCall
  /-- changes of the backlog that are still to come, with their times -/
  edits : List (Nat × Edit)

namespace Scene

def empty : Scene where
  time := 0
  sessions := []
  closed := 0
  restored := []
  tree := []
  workflows := []
  forms := []
  drawn := 0
  looks := 0
  jobs := ⟨[]⟩
  failing := []
  edits := []

/-- A random identifier in form; the counter makes it fresh. -/
def identifier (count : Nat) : Uuid :=
  ⟨(count + 1) * Nat.pow 2 80 + 4 * Nat.pow 2 76 + Nat.pow 2 63⟩

/-- Draws an identifier that was never drawn before. -/
def draw (scene : Scene) : Uuid × Scene :=
  (identifier scene.drawn, { scene with drawn := scene.drawn + 1 })

/-- Looks at the calendar; each look comes a microsecond after the one before. -/
def calendar (stage : Stage) (scene : Scene) : Instant × Scene :=
  let nanos := stage.start.nanos + scene.time % 1000 * 1000000 + scene.looks * 1000
  (⟨stage.start.seconds + scene.time / 1000 + nanos / 1000000000, nanos % 1000000000⟩,
    { scene with looks := scene.looks + 1 })

/-- The backlog after a change; a change that is refused has no effect. -/
def edit (scene : Scene) (change : Edit) : Except StoreError Scene :=
  let changed := match change with
    | .insert job => scene.jobs.insert job
    | .commit job => scene.jobs.commit job
  changed.map fun jobs => { scene with jobs := jobs }

/-- The scene at a later time, with the changes that were due by then. -/
def pass (scene : Scene) (time : Nat) : Scene :=
  let due := scene.edits.filter fun change => change.1 ≤ time
  let scene := { scene with
    time := max scene.time time
    edits := scene.edits.filter fun change => time < change.1 }
  due.foldl (fun scene change => (scene.edit change.2).toOption.getD scene) scene

def filing {α : Type} (stage : Stage) (scene : Scene) (program : Filing α) : α × Scene :=
  let now := (stage.start.seconds + scene.time / 1000).toNat
  let (a, disk) := Files.Disk.run program ⟨scene.tree, now⟩
  (a, { scene with tree := disk.tree })

/-- The calls on a session so far. -/
def history (scene : Scene) (session : SessionId) : List Call :=
  scene.sessions.getD session []

def setHistory (scene : Scene) (session : SessionId) (calls : List Call) : Scene :=
  { scene with sessions := scene.sessions.set session calls }

end Scene

/-! ### How the surroundings answer -/

namespace Stage

variable (stage : Stage)

def browse (session : SessionId) : (op : Browse) → Scene → Delayed Scene op.Answer
  | .call call, scene =>
    let made := stage.page.make (scene.history session) call
    ⟨made.reply.delay, made.reply.result, scene.setHistory session made.history⟩
  | .clickAwaiting selector timeout next, scene =>
    let made := stage.page.makeWith (scene.history session) (.click selector timeout)
      (.waitForSelector next)
    ⟨made.reply.delay, made.reply.result, scene.setHistory session made.history⟩
  | .clickSettling selector timeout, scene =>
    let made := stage.page.makeWith (scene.history session) (.click selector timeout)
      .waitForLoadIdle
    ⟨made.reply.delay, made.reply.result, scene.setHistory session made.history⟩
  | .sleep duration, scene => ⟨duration.millisUp, (), scene⟩
  | .form id, scene =>
    let (form, remembered) := stage.forms.get "form" id scene.forms scene.tree
    ⟨0, form, { scene with forms := remembered }⟩
  | .makeDirectories path, scene =>
    match scene.tree.makeDirectories path with
    | .ok tree => ⟨0, .ok (), { scene with tree := tree }⟩
    | .error e => ⟨0, .error e, scene⟩
  | .freshName, scene =>
    let (id, scene) := scene.draw
    ⟨0, id.text, scene⟩

def openSession (cookies : Option Jar) (scene : Scene) :
    Delayed Scene (Except PageError SessionId) :=
  let (id, scene) := { scene with restored := scene.restored ++ [cookies] }.draw
  match stage.launch id scene.tree with
  | (.error e, tree) => ⟨0, .error e, { scene with tree := tree }⟩
  | (.ok (), tree) =>
    ⟨0, .ok scene.sessions.length, { scene with tree := tree, sessions := scene.sessions ++ [[]] }⟩

def workflow (name : String) (scene : Scene) : Delayed Scene (Except FlowError Command) :=
  let (command, remembered) := stage.workflows.get "workflow" name scene.workflows scene.tree
  ⟨0, command, { scene with workflows := remembered }⟩

/-- The lookup of some workflows breaks down, and nothing else does. -/
def breakdown : RunOp → Option String
  | .workflow name =>
    if name ∈ stage.crashing then some "task 0 panicked with message \"workflow loader crashed\""
    else none
  | _ => none

def host : Host Scene where
  workflow := stage.workflow
  openSession := stage.openSession
  browse := stage.browse
  exportCookies _ scene := ⟨stage.exported.delay, stage.exported.result, scene⟩
  closeSession _ scene :=
    ⟨stage.closing.delay, stage.closing.result, { scene with closed := scene.closed + 1 }⟩
  loadCookies site scene :=
    match stage.cookies with
    | some store => .atOnce (scene.filing stage (store.load site))
    | none => ⟨0, .ok none, scene⟩
  saveCookies site jar scene :=
    match stage.cookies with
    | some store => .atOnce (scene.filing stage (store.save site jar))
    | none => ⟨0, .ok (), scene⟩
  breakdown op _ := stage.breakdown op
  pass time scene := scene.pass time

def memoryBacklog : Backlog Scene where
  pending limit scene :=
    if .pending ∈ scene.failing then ⟨0, .error BacklogCall.pending.failure, scene⟩
    else ⟨0, .ok (scene.jobs.pending limit), scene⟩
  record id attempt scene :=
    if .record ∈ scene.failing then ⟨0, .error BacklogCall.record.failure, scene⟩
    else match scene.jobs.record id attempt with
      | .ok jobs => ⟨0, .ok attempt.status, { scene with jobs := jobs }⟩
      | .error e => ⟨0, .error e, scene⟩
  now time scene := (scene.pass time).calendar stage

def fileBacklog (store : FileStore) : Backlog Scene where
  pending limit scene := .atOnce (scene.filing stage (store.pending limit))
  record id attempt scene := .atOnce (scene.filing stage (store.record id attempt))
  now time scene := (scene.pass time).calendar stage

end Stage

end Jobflow.Rehearsal
