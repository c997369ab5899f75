import Jobflow.Text.Basic

/-!
Paths as texts. Joining, taking the parent and replacing the extension work on
the text alone; slashes are kept as they were written, and a trailing slash or
a trailing `.` names the same place as the path without it.
-/

namespace Jobflow.Files

/-- A path as it was written. -/
abbrev Path := String

namespace Path

/-- `name` looked up in `dir`. An absolute name stands for itself. -/
def join (dir : Path) (name : String) : Path :=
  if name.toList.head? = some '/' ∨ dir = "" then name
  else if dir.toList.getLast? = some '/' then dir ++ name
  else dir ++ "/" ++ name

/-- The start of a path that is no component of its own: the root, or a leading
`.`, followed by the rest. -/
def split (path : Path) : List Char × List Char :=
  match path.toList with
  | '/' :: rest => (['/'], rest)
  | ['.'] => (['.'], [])
  | '.' :: '/' :: rest => (['.'], '/' :: rest)
  | cs => ([], cs)

/-- Drops slashes and `.` components from the end of a body that is given last
character first. -/
def trimEnd : List Char → List Char
  | '/' :: rest => trimEnd rest
  | ['.'] => []
  | '.' :: '/' :: rest => trimEnd ('/' :: rest)
  | cs => cs

/-- The body of a path, last character first and without empty ends. -/
def body (path : Path) : List Char :=
  trimEnd path.split.2.reverse

/-- The path of the directory that holds this path. -/
def parent? (path : Path) : Option Path :=
  let start := path.split.1
  match path.body with
  | [] => if start = ['.'] then some "" else none
  | cs =>
    let rest := trimEnd (cs.dropWhile (· != '/'))
    some (String.ofList (start ++ rest.reverse))

/-- The last component, unless it leads upwards or there is none. -/
def fileName? (path : Path) : Option String :=
  let name := (path.body.takeWhile (· != '/')).reverse
  if name = [] ∨ name = ['.', '.'] then none else some (String.ofList name)

/-- A file name without its last extension; a leading dot starts no extension. -/
def stem (name : String) : String :=
  let reversed := name.toList.reverse
  match reversed.dropWhile (· != '.') with
  | '.' :: before => if before = [] then name else String.ofList before.reverse
  | _ => name

/-- The path with the extension of its last component replaced. -/
def withExtension (path : Path) (extension : String) : Path :=
  match path.fileName? with
  | none => path
  | some name =>
    let above := (path.body.dropWhile (· != '/')).reverse
    String.ofList (path.split.1 ++ above) ++ stem name ++ "." ++ extension

/-- The components that a lookup visits; an absolute path starts at the
component `/`. -/
def components (path : Path) : List String :=
  let parts := (Text.splitBy (· == '/') path.toList).map String.ofList
  let names := parts.filter fun part => part ≠ "" ∧ part ≠ "."
  if path.toList.head? = some '/' then "/" :: names else names

/-- Whether the text insists on a directory. -/
def endsInSlash (path : Path) : Bool :=
  match path.toList.reverse with
  | '/' :: _ | '.' :: '/' :: _ | ['.'] => true
  | _ => false

end Path

end Jobflow.Files
