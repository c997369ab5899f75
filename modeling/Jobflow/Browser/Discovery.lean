import Jobflow.Files.Tree

/-!
Where a browser is found: at the place an environment variable names, on the
search path, or where browsers are usually installed.
-/

namespace Jobflow.Browser

open Jobflow.Files (Path Tree)

abbrev Environment := String → Option String

/-- The trimmed value of a variable, unless there is nothing left of it. -/
def valueOf (env : Environment) (name : String) : Option String :=
  ((env name).map Text.trim).filter (· ≠ "")

/-- Names a place of the browser outright. -/
def executableVariable : String := "AUTOAPPLY_CHROME"

/-- Keeps the usual places from being looked at. -/
def skipVariable : String := "AUTOAPPLY_SKIP_OS_PATHS"

/-- Runs the browser without its sandbox. -/
def sandboxVariable : String := "AUTOAPPLY_DISABLE_SANDBOX"

/-- The names of browsers, the preferred ones first. -/
def names : List String :=
  ["google-chrome-stable", "google-chrome", "chromium", "chromium-browser"]

def searchPath (env : Environment) : List Path :=
  match env "PATH" with
  | some value => (Text.splitBy (· == ':') value.toList).map String.ofList
  | none => []

/-- The places where browsers are usually installed. -/
def usualPlaces : List Path :=
  names.map (Files.Path.join "/usr/bin") ++ ["/snap/bin/chromium"]

def isFile (tree : Tree) (path : Path) : Bool :=
  match tree.lookup? path with
  | some (.file ..) => true
  | _ => false

/-- The first executable file of that name on the search path. -/
def onSearchPath (env : Environment) (tree : Tree) (name : String) : Option Path :=
  ((searchPath env).map fun dir => dir.join name).find? tree.isExecutable

/-- The browser that is used when none is configured. -/
def discover (env : Environment) (tree : Tree) : Option Path :=
  let given := (valueOf env executableVariable).filter tree.pathExists
  let usual := if (valueOf env skipVariable).isSome then none else usualPlaces.find? (isFile tree)
  given <|> names.findSome? (onSearchPath env tree) <|> usual

/-- Whether the environment asks for a browser without a sandbox. -/
def disablesSandbox (env : Environment) : Bool :=
  match env sandboxVariable with
  | some value => Text.lower value ∈ ["1", "true", "yes"]
  | none => false

end Jobflow.Browser
