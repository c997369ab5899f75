import Jobflow.Files.Tree
import Jobflow.Program.Basic

/-!
Programs that work on files. Every operation is one step of the file system, so
that several programs may be interleaved at any point between steps; a program
that must not be disturbed takes a lock first.
-/

namespace Jobflow.Files

/-- One step of a program that works on files. -/
inductive FileOp where
  | readText (path : Path)
  | makeDirectories (path : Path)
  /-- makes an empty file, or empties the one that is there -/
  | create (path : Path)
  /-- writes to the end of a file -/
  | append (path : Path) (text : String)
  | rename (source target : Path)
  /-- waits until nobody holds the lock, and takes it -/
  | acquire (lock : String)
  | release (lock : String)
  /-- the seconds since 1970 -/
  | now
  deriving DecidableEq, Repr

def FileOp.Answer : FileOp → Type
  | .readText _ => Except IoError String
  | .makeDirectories _ | .create _ | .append .. | .rename .. => Except IoError Unit
  | .acquire _ | .release _ => Unit
  | .now => Nat

def filing : Interface := ⟨FileOp, FileOp.Answer⟩

/-- A program that works on files. -/
abbrev Filing (α : Type) := Program filing α

namespace Filing

def readText (path : Path) : Filing (Except IoError String) := .step (.readText path) .done

def makeDirectories (path : Path) : Filing (Except IoError Unit) :=
  .step (.makeDirectories path) .done

def create (path : Path) : Filing (Except IoError Unit) := .step (.create path) .done

def append (path : Path) (text : String) : Filing (Except IoError Unit) :=
  .step (.append path text) .done

def rename (source target : Path) : Filing (Except IoError Unit) :=
  .step (.rename source target) .done

def acquire (lock : String) : Filing Unit := .step (.acquire lock) .done

def release (lock : String) : Filing Unit := .step (.release lock) .done

def now : Filing Nat := .step .now .done

/-- Runs a program while holding a lock. -/
def holding {α : Type} (lock : String) (body : Filing α) : Filing α := do
  acquire lock
  let a ← body
  release lock
  return a

/-- The next step after one that succeeded; a failure is passed on. -/
def andThen (first : Filing (Except IoError Unit)) (second : Filing (Except IoError Unit)) :
    Filing (Except IoError Unit) := do
  match ← first with
  | .ok () => second
  | .error e => return .error e

/-- Replaces the content of a file by way of a temporary file beside it, after
making the directory, if one is named. The file itself changes in the last step
only. -/
def replace (directory : Option Path) (temporary path : Path) (text : String) :
    Filing (Except IoError Unit) :=
  let write := andThen (create temporary) (andThen (append temporary text)
    (rename temporary path))
  match directory with
  | some directory => andThen (makeDirectories directory) write
  | none => write

end Filing

/-- A file system with a clock, as one program finds it that runs undisturbed. -/
structure Disk where
  tree : Tree
  /-- the seconds since 1970 -/
  now : Nat

namespace Disk

/-- The result of an operation that may change the tree. -/
def update (disk : Disk) : Except IoError Tree → Except IoError Unit × Disk
  | .ok tree => (.ok (), { disk with tree := tree })
  | .error e => (.error e, disk)

/-- One step of a program that nobody disturbs: every lock is free. -/
def act : (op : FileOp) → Disk → op.Answer × Disk
  | .readText path, disk => (disk.tree.readText path, disk)
  | .makeDirectories path, disk => disk.update (disk.tree.makeDirectories path)
  | .create path, disk => disk.update (disk.tree.create path)
  | .append path text, disk => disk.update (disk.tree.append path text.toUTF8)
  | .rename source target, disk => disk.update (disk.tree.rename source target)
  | .acquire _, disk => ((), disk)
  | .release _, disk => ((), disk)
  | .now, disk => (disk.now, disk)

def run {α : Type} (program : Filing α) (disk : Disk) : α × Disk :=
  Program.run (I := filing) act program disk

end Disk

end Jobflow.Files
