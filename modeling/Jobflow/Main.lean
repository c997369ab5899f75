import Jobflow.Cli.Process
import Std.Time.DateTime.Timestamp

/-!
The command line. What a command may look at is read into a tree of files, the
command runs on the tree, and the changes it made are written back.
-/

namespace Jobflow.Cli

open Jobflow.Browser (Environment)
open Jobflow.Files (Path Place Tree)
open Jobflow.Rehearsal (Scene Stage)

/-! ### The environment -/

/-- The environment variables that commands look at. -/
def variableNames : List String :=
  ["PATH", "HOME", "XDG_CONFIG_HOME", "TMPDIR", Browser.executableVariable,
   Browser.skipVariable, Browser.sandboxVariable, "AUTOAPPLY_HEADLESS", "AUTOAPPLY_POLL_SECS",
   "AUTOAPPLY_MAX_CONCURRENT"]

def environment : IO Environment := do
  let values ← variableNames.mapM fun name => return (name, ← IO.getEnv name)
  return fun name => (values.find? fun binding => binding.1 == name).bind Prod.snd

/-- A number that no two starts of the program are likely to share. -/
def chance : IO Nat := do
  let bytes ← IO.getRandomBytes 5
  return bytes.toList.foldl (fun n b => 256 * n + b.toNat) 0

/-- A stage whose time zero is now. -/
def presentStage : IO Stage := do
  let now ← Std.Time.Timestamp.now
  let nanos := (now.toNanosecondsSinceUnixEpoch.val % 1000000000).toNat
  return { Stage.bare ⟨fun _ _ => ⟨0, .error (.session "no browser is attached")⟩⟩ with
    start := ⟨now.toSecondsSinceUnixEpoch.val, nanos⟩ }

/-! ### Files -/

/-- The tree with what lies at a path, and below it as deep as `depth` says. -/
def gather (depth : Nat) (tree : Tree) (path : Path) : IO Tree := do
  match ← (IO.FS.readBinFile path).toBaseIO with
  | .ok bytes => return tree.plant path bytes false
  | .error (.inappropriateType ..) =>
    let tree := tree.plantDirectory path
    match depth with
    | 0 => return tree
    | depth + 1 =>
      let entries ← (IO.FS.DirEntry.mk path "").root.readDir
      entries.foldlM (fun tree entry => gather depth tree (path.join entry.fileName)) tree
  | .error _ => return tree

/-- The tree with a browser, if there is one at the path. -/
def noteBrowser (tree : Tree) (path : Path) : IO Tree := do
  if ← (IO.FS.DirEntry.mk path "").root.pathExists then
    return tree.plant path ByteArray.empty true
  else return tree

def replaceFile (path : Path) (content : ByteArray) : IO Unit := do
  let part := path ++ ".part"
  IO.FS.writeBinFile part content
  IO.FS.rename part path

/-- The path that leads to a place. -/
def pathTo : Place → Path
  | "/" :: names => "/" ++ String.intercalate "/" names
  | names => String.intercalate "/" names

/-- Writes what differs between two states of the same files. -/
def writeBack (before after : Tree) : IO Unit := do
  for (place, entry) in after do
    if before.entryAt? place ≠ some entry then
      match entry with
      | .directory => IO.FS.createDirAll (pathTo place)
      | .file content _ => replaceFile (pathTo place) content
  for (place, _) in before do
    if (after.entryAt? place).isNone then IO.FS.removeFile (pathTo place)

/-! ### Commands -/

/-- The paths at which a command may find files. -/
def filePaths (invocation : Invocation) (settings : Settings) : List Path :=
  let places := settings.places
  let operand := match invocation.command with
    | .validate file => [file]
    | _ => []
  operand ++ [places.workflows, places.forms, places.cookies, places.jobs]

/-- The paths at which a command may find a browser. -/
def browserPaths (settings : Settings) (env : Environment) : List Path :=
  settings.browser.executable.toList ++ (Browser.valueOf env Browser.executableVariable).toList ++
    Browser.names.flatMap (fun name => (Browser.searchPath env).map fun dir => dir.join name) ++
    Browser.usualPlaces

/-- The settings of a command and the files it may look at. Settings that cannot
be read are reported by the command itself. -/
def surroundings (invocation : Invocation) (env : Environment) : IO (Settings × Tree) := do
  let file := invocation.config <|> Settings.defaultPath? env
  let tree ← file.toList.foldlM (gather 0) []
  let loaded := Settings.load invocation.config env tree
  let settings := (loaded.toOption.getD Settings.standard).override env
  let tree ← (filePaths invocation settings).foldlM (gather 8) tree
  return (settings, ← (browserPaths settings env).foldlM noteBrowser tree)

/-- Runs the program on the files that are there now. A program that polls does
so once. -/
def carryOutOnce (args : List String) (env : Environment) (tree : Tree) : IO Exit := do
  let scene := { Scene.empty with tree := tree, drawn := ← chance }
  let (exit, scene) := invoke args env (← presentStage) 1 scene
  writeBack tree scene.tree
  return exit

/-- Ends the program. -/
def finish (exit : Exit) : IO UInt32 := do
  IO.print exit.output
  IO.eprint exit.report
  return exit.code.toUInt32

/-- Polls at the configured interval; only a failure or an interruption ends it. -/
partial def keepPolling (args : List String) (invocation : Invocation) (env : Environment) :
    IO UInt32 := do
  let (settings, tree) ← surroundings invocation env
  let exit ← carryOutOnce args env tree
  if exit.code = 0 then
    IO.sleep (settings.polling.interval * 1000).toUInt32
    keepPolling args invocation env
  else finish exit

def start (args : List String) : IO UInt32 := do
  let env ← environment
  match parseArguments args with
  | .ok invocation =>
    match invocation.command with
    | .run => keepPolling args invocation env
    | _ =>
      let (_, tree) ← surroundings invocation env
      finish (← carryOutOnce args env tree)
  | .error _ => finish (← carryOutOnce args env [])

end Jobflow.Cli

def main (args : List String) : IO UInt32 := Jobflow.Cli.start args
