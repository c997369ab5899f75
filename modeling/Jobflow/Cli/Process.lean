import Jobflow.Cli.Handle
import Jobflow.Rehearsal.Stage
import Jobflow.Settings.Document

/-!
The program as a whole: from arguments, environment and files to an exit code
and what is printed. The browser is prepared as far as the files go; driving one
is left to the surroundings, and without them no session opens.
-/

namespace Jobflow.Cli

open Jobflow.Browser (Environment)
open Jobflow.Files (Path Tree)
open Jobflow.Page (PageError)
open Jobflow.Rehearsal (Scene Stage)

/-- How the program ends. -/
structure Exit where
  code : Nat
  output : String
  /-- what is reported on failure -/
  report : String
  deriving DecidableEq, Repr

/-- The stage with the definitions and cookies where the settings say. -/
def furnish (stage : Stage) (settings : Settings) : Stage :=
  { stage with
    workflows := .shelved (Workflow.workflowShelf settings.places.workflows)
    forms := .shelved (Workflow.formShelf settings.places.forms)
    cookies := if settings.browser.keepsCookies then some ⟨settings.places.cookies⟩ else none }

def workplace (stage : Stage) (desk : Desk) : Workplace Scene where
  host := stage.host
  backlog := stage.fileBacklog desk.store
  filing program scene := scene.filing stage program
  identifier scene := scene.draw
  time scene := scene.time

/-- Opens no session, once the browser is prepared. -/
def launch (options : Browser.Options) (session : Uuid) (tree : Tree) :
    Except PageError Unit × Tree :=
  match options.prepare session tree with
  | (.ok (), tree) => (.error (.session "failed to launch chromium: no driver is attached"), tree)
  | failed => failed

/-- A command that works with the settings. -/
def perform (stage : Stage) (desk : Desk) (form : Form) (stop : Nat) (scene : Scene) :
    Command → Printed × Scene
  | .run => run (workplace (furnish stage desk.settings) desk) desk stop scene
  | .pollOnce => pollOnce (workplace (furnish stage desk.settings) desk) desk form scene
  | .validate file => validate (workplace (furnish stage desk.settings) desk) form file scene
  | .execute trial =>
    executeTrial (workplace (furnish stage desk.settings) desk) desk form trial scene
  | .list onlyPending =>
    list (workplace (furnish stage desk.settings) desk) desk form onlyPending scene
  | .add offer => add (workplace (furnish stage desk.settings) desk) desk offer scene
  | .rearm id => rearm (workplace (furnish stage desk.settings) desk) desk id scene
  | .info => (.ok "", scene)

/-- Where the settings came from, if that is a file. -/
def settingsFile (invocation : Invocation) (env : Environment) (tree : Tree) : Option Path :=
  (invocation.config <|> Settings.defaultPath? env).filter tree.pathExists

/-- Carries out an invocation; a program that polls is interrupted at `stop`. -/
def carryOut (invocation : Invocation) (env : Environment) (stage : Stage) (stop : Nat)
    (scene : Scene) : Printed × Scene :=
  if !invocation.debug && !isLogLevel invocation.logLevel then
    (.error ⟨"Invalid log level", []⟩, scene)
  else
    match Settings.load invocation.config env scene.tree with
    | .error e => (.error (.within "Failed to load configuration" (.ofSettings e)), scene)
    | .ok settings =>
      let settings := settings.override env
      let options := settings.browserOptions env scene.tree
      let stage := { stage with launch := launch options }
      match invocation.command with
      | .info =>
        (.ok (information settings options (settingsFile invocation env scene.tree)), scene)
      | .validate file =>
        perform stage ⟨settings, ⟨[]⟩⟩ invocation.form stop scene (.validate file)
      | command =>
        match Desk.open settings with
        | .error e => (.error (.within "Invalid configuration" (.ofSettings e)), scene)
        | .ok desk => perform stage desk invocation.form stop scene command

/-- The whole program: what arguments lead to. -/
def invoke (args : List String) (env : Environment) (stage : Stage) (stop : Nat) (scene : Scene) :
    Exit × Scene :=
  match parseArguments args with
  | .error .misuse => (⟨2, "", ""⟩, scene)
  | .error (.help command) => (⟨0, (pageOf command).text command, ""⟩, scene)
  | .error (.version command) => (⟨0, versionText command, ""⟩, scene)
  | .ok invocation =>
    match carryOut invocation env stage stop scene with
    | (.ok output, scene) => (⟨0, output, ""⟩, scene)
    | (.error f, scene) => (⟨1, "", f.report⟩, scene)

end Jobflow.Cli
