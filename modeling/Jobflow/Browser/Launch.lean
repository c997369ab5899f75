import Jobflow.Browser.Discovery
import Jobflow.Page.Call
import Jobflow.Uuid

/-!
How a browser is started: its options, the directory of its profile, and the
checks before anything is run.
-/

namespace Jobflow.Browser

open Jobflow.Files (Path Tree)
open Jobflow.Page (PageError)

/-- How a browser is started and how long its answers may take. -/
structure Options where
  /-- empty when no browser was found -/
  executable : Path
  headless : Bool
  userAgent : Option String
  /-- milliseconds -/
  defaultTimeout : Nat
  /-- milliseconds -/
  launchTimeout : Nat
  noSandbox : Bool
  /-- the directory of the profiles -/
  profiles : Path
  /-- how long the network must be quiet, in milliseconds -/
  idleWindow : Nat
  extraArguments : List String
  deriving DecidableEq, Repr

/-- The options without any configuration. -/
def Options.standard (env : Environment) (tree : Tree) : Options where
  executable := (discover env tree).getD ""
  headless := true
  userAgent := none
  defaultTimeout := 30000
  launchTimeout := 20000
  noSandbox := disablesSandbox env
  profiles := Files.Path.join ((env "TMPDIR").getD "/tmp") "autoapply-profiles"
  idleWindow := 500
  extraArguments := []

def Options.profile (options : Options) (session : Uuid) : Path :=
  options.profiles.join ("session-" ++ session.text)

/-- Why no browser can be started with these options, as far as the files tell. -/
def Options.fault? (options : Options) (tree : Tree) : Option PageError :=
  if options.executable = "" then
    some (.session "browser config error: Could not auto detect a chrome executable")
  else if tree.pathExists options.executable then none
  else some (.session ("chrome executable not found at " ++ options.executable ++
    "; set AUTOAPPLY_CHROME to the full path of chrome/chromium"))

/-- Makes the profile of a session and checks that the browser is there. -/
def Options.prepare (options : Options) (session : Uuid) (tree : Tree) :
    Except PageError Unit × Tree :=
  match tree.makeDirectories (options.profile session) with
  | .error e => (.error (.io e.message), tree)
  | .ok tree =>
    match options.fault? tree with
    | some e => (.error e, tree)
    | none => (.ok (), tree)

end Jobflow.Browser
