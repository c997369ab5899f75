import Jobflow.Files.Tree
import Jobflow.Program.Basic
import Jobflow.Workflow.Compile
import Jobflow.Workflow.Form

/-!
Definitions kept in a directory, one file for each name: workflows and forms.
A definition is read once and remembered; of two readers at the same time the
first to remember wins, so all users of a name see the same definition.
-/

namespace Jobflow.Workflow

open Jobflow.Files (IoError Path)

/-- One step of a reader of definitions. -/
inductive LibraryOp (α : Type) where
  /-- what is remembered under a name -/
  | recall (name : String)
  | readText (path : Path)
  /-- remembers a definition unless there is one, and yields what is remembered -/
  | remember (name : String) (definition : α)

def LibraryOp.Answer {α : Type} : LibraryOp α → Type
  | .recall _ => Option α
  | .readText _ => Except IoError String
  | .remember .. => α

/-- The interface between a reader of definitions, the memory of the library and
the file system. -/
def consulting (α : Type) : Interface := ⟨LibraryOp α, LibraryOp.Answer⟩

/-- A kind of definition: how it is called, and how a file is understood. -/
structure Shelf (α : Type) where
  kind : String
  directory : Path
  parse : (name text : String) → Except FlowError α

namespace Shelf

variable {α : Type}

/-- Whether a name could lead out of the directory, or is no name at all. -/
def isUnsafe (name : String) : Bool :=
  Text.isBlank name || name.toList.any (fun c => c == '/' || c == '\\') ||
    Text.contains name ".."

/-- A definition, as messages name it. -/
def label (shelf : Shelf α) (name : String) : String := shelf.kind ++ " '" ++ name ++ "'"

def pathFor (shelf : Shelf α) (name : String) : Path :=
  Files.Path.join shelf.directory (name ++ ".json")

/-- The report on a file that cannot be read. -/
def unreadable (shelf : Shelf α) (name : String) : IoError → FlowError
  | .notFound => .notFound (shelf.label name ++ " (" ++ shelf.pathFor name ++ ")")
  | e => .io (shelf.pathFor name ++ ": " ++ e.message)

def get (shelf : Shelf α) (name : String) : Program (consulting α) (Except FlowError α) :=
  .step (.recall name) fun (remembered : Option α) =>
    match remembered with
    | some definition => .done (.ok definition)
    | none =>
      if isUnsafe name then .done (.error (.notFound (shelf.label name)))
      else
        .step (.readText (shelf.pathFor name)) fun (read : Except IoError String) =>
          match read with
          | .error e => .done (.error (shelf.unreadable name e))
          | .ok text =>
            match shelf.parse name text with
            | .error e => .done (.error e)
            | .ok definition =>
              .step (.remember name definition) fun (kept : α) => .done (.ok kept)

end Shelf

/-- The workflow of a text; a blank text is reported by the name of its file. -/
def parseWorkflow (name text : String) : Except FlowError Command :=
  if Text.isBlank text then .error (.malformed ("workflow '" ++ name ++ "' is empty"))
  else match compile text with
    | .ok command => .ok command
    | .error e => .error (.malformed e.message)

def workflowShelf (directory : Path) : Shelf Command := ⟨"workflow", directory, parseWorkflow⟩

def formShelf (directory : Path) : Shelf Form := ⟨"form", directory, fun _ => parseForm⟩

/-! ### A library at rest -/

/-- What a library remembers, and the files it reads. -/
structure Library (α : Type) where
  remembered : Dict α
  tree : Files.Tree

/-- One step of a reader that nobody disturbs. -/
def Library.act {α : Type} : (op : LibraryOp α) → Library α → op.Answer × Library α
  | .recall name, lib => (Dict.find? name lib.remembered, lib)
  | .readText path, lib => (lib.tree.readText path, lib)
  | .remember name definition, lib =>
    match Dict.find? name lib.remembered with
    | some kept => (kept, lib)
    | none => (definition, { lib with remembered := Dict.insert name definition lib.remembered })

/-- Looks a name up, undisturbed; what is remembered afterwards. -/
def Shelf.consult {α : Type} (shelf : Shelf α) (name : String) (remembered : Dict α)
    (tree : Files.Tree) : Except FlowError α × Dict α :=
  let (found, lib) :=
    Program.run (I := consulting α) Library.act (shelf.get name) ⟨remembered, tree⟩
  (found, lib.remembered)

end Jobflow.Workflow
