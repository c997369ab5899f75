import Jobflow.Files.Path
import Jobflow.Text.Utf8

/-!
A tree of files under a working directory, and the operations of a POSIX file
system on it with the errors they report. There are no links, so a path can be
followed component by component.
-/

namespace Jobflow.Files

/-- Why a file operation failed. -/
inductive IoError where
  | notFound
  | alreadyExists
  | notADirectory
  | isADirectory
  | directoryNotEmpty
  | nameTooLong
  | nulInPath
  | notUtf8
  /-- any other failure, as the system reports it -/
  | other (report : String)
  deriving DecidableEq, Repr

def IoError.message : IoError → String
  | .notFound => "No such file or directory (os error 2)"
  | .alreadyExists => "File exists (os error 17)"
  | .notADirectory => "Not a directory (os error 20)"
  | .isADirectory => "Is a directory (os error 21)"
  | .directoryNotEmpty => "Directory not empty (os error 39)"
  | .nameTooLong => "File name too long (os error 36)"
  | .nulInPath => "file name contained an unexpected NUL byte"
  | .notUtf8 => "stream did not contain valid UTF-8"
  | .other report => report

/-- What a place in the tree holds. -/
inductive Entry where
  | directory
  | file (content : ByteArray) (executable : Bool)

instance : DecidableEq Entry
  | .directory, .directory => isTrue rfl
  | .directory, .file .. => isFalse nofun
  | .file .., .directory => isFalse nofun
  | .file a x, .file b y =>
    let _ := ByteArray.instDecidableEq a b
    decidable_of_iff (a = b ∧ x = y) (by simp)

/-- A place in the tree: the names that lead to it from the working directory, or
from the root, which then comes first. -/
abbrev Place := List String

/-- Whether a place is the working directory or one that it lies in. -/
def Place.isAround (place : Place) : Bool := place.all (· == "..")

/-- The directory that holds a place; the root holds itself. -/
def Place.above (place : Place) : Place :=
  if place = ["/"] then place
  else if place.isAround then place ++ [".."]
  else place.dropLast

/-- The places that hold something. The root, the working directory and those
it lies in are directories and are not listed. -/
abbrev Tree := List (Place × Entry)

namespace Tree

/-- What `place` holds. -/
def entryAt? (tree : Tree) (place : Place) : Option Entry :=
  if place.isAround ∨ place = ["/"] then some .directory
  else (tree.find? fun binding => binding.1 = place).map Prod.snd

/-- Puts an entry at a place, instead of what was there. -/
def put (tree : Tree) (place : Place) (entry : Entry) : Tree :=
  if tree.any fun binding => binding.1 = place then
    tree.map fun binding => if binding.1 = place then (place, entry) else binding
  else tree ++ [(place, entry)]

def remove (tree : Tree) (place : Place) : Tree :=
  tree.filter fun binding => binding.1 ≠ place

/-- Follows the components of a path from `place` on; all but the last must
lead to directories. The place that is found need not hold anything. -/
def follow (tree : Tree) (place : Place) : List String → Except IoError Place
  | [] => .ok place
  | name :: rest =>
    match tree.entryAt? place with
    | none => .error .notFound
    | some (.file ..) => .error .notADirectory
    | some .directory =>
      if 255 < name.utf8ByteSize then .error .nameTooLong
      else if name = ".." then follow tree place.above rest
      else follow tree (place ++ [name]) rest

def locate (tree : Tree) (path : Path) : Except IoError Place :=
  if path.toList.contains '\x00' then .error .nulInPath
  else if path = "" then .error .notFound
  else if 4096 ≤ path.utf8ByteSize then .error .nameTooLong
  else do
    let place ← follow tree [] path.components
    match tree.entryAt? place, path.endsInSlash with
    | some (.file ..), true => .error .notADirectory
    | _, _ => return place

/-- What a path names, if it names something. -/
def lookup? (tree : Tree) (path : Path) : Option Entry :=
  match tree.locate path with
  | .ok place => tree.entryAt? place
  | .error _ => none

def pathExists (tree : Tree) (path : Path) : Bool :=
  (tree.lookup? path).isSome

def isDirectory (tree : Tree) (path : Path) : Bool :=
  tree.lookup? path = some .directory

/-- Whether a path names a file that may be executed. -/
def isExecutable (tree : Tree) (path : Path) : Bool :=
  match tree.lookup? path with
  | some (.file _ true) => true
  | _ => false

def read (tree : Tree) (path : Path) : Except IoError ByteArray := do
  let place ← tree.locate path
  match tree.entryAt? place with
  | none => .error .notFound
  | some .directory => .error .isADirectory
  | some (.file content _) => return content

def readText (tree : Tree) (path : Path) : Except IoError String := do
  let content ← tree.read path
  match String.fromUTF8? content with
  | some text => return text
  | none => .error .notUtf8

/-- Makes an empty file, or empties the one that is there. -/
def create (tree : Tree) (path : Path) : Except IoError Tree := do
  let place ← tree.locate path
  match tree.entryAt? place with
  | some .directory => .error .isADirectory
  | some (.file _ executable) => return tree.put place (.file ByteArray.empty executable)
  | none =>
    if path.endsInSlash then .error .isADirectory
    else match tree.entryAt? place.dropLast with
      | some .directory => return tree.put place (.file ByteArray.empty false)
      | some (.file ..) => .error .notADirectory
      | none => .error .notFound

def append (tree : Tree) (path : Path) (bytes : ByteArray) : Except IoError Tree := do
  let place ← tree.locate path
  match tree.entryAt? place with
  | some (.file content executable) => return tree.put place (.file (content ++ bytes) executable)
  | some .directory => .error .isADirectory
  | none => .error .notFound

/-- Makes one directory, in a directory that is there. -/
def makeDirectory (tree : Tree) (path : Path) : Except IoError Tree := do
  let place ← tree.locate path
  match tree.entryAt? place with
  | some _ => .error .alreadyExists
  | none =>
    match tree.entryAt? place.dropLast with
    | some .directory => return tree.put place .directory
    | some (.file ..) => .error .notADirectory
    | none => .error .notFound

/-- Makes a directory and the directories above it that are missing. The fuel
bounds the number of directories above. -/
def makeDirectoriesUpTo : Nat → Tree → Path → Except IoError Tree
  | 0, _, _ => .error .notFound
  | fuel + 1, tree, path =>
    if path = "" then .ok tree
    else
      let finish (tree : Tree) : Except IoError Tree :=
        match tree.makeDirectory path with
        | .ok tree => .ok tree
        | .error cause => if tree.isDirectory path then .ok tree else .error cause
      match tree.makeDirectory path with
      | .error .notFound =>
        match path.parent? with
        | some above => do finish (← makeDirectoriesUpTo fuel tree above)
        | none => .error (.other "failed to create whole tree")
      | _ => finish tree

def makeDirectories (tree : Tree) (path : Path) : Except IoError Tree :=
  makeDirectoriesUpTo (path.toList.length + 1) tree path

/-- Moves a file to another path, instead of a file that is there. -/
def rename (tree : Tree) (source target : Path) : Except IoError Tree := do
  let here ← tree.locate source
  match tree.entryAt? here with
  | none => .error .notFound
  | some .directory => .error .isADirectory
  | some entry =>
    let there ← tree.locate target
    match tree.entryAt? there with
    | some .directory => .error .isADirectory
    | some (.file ..) => return if here = there then tree else (tree.remove here).put there entry
    | none =>
      if target.endsInSlash then .error .notADirectory
      else match tree.entryAt? there.dropLast with
        | some .directory => return (tree.remove here).put there entry
        | some (.file ..) => .error .notADirectory
        | none => .error .notFound

/-- Takes away a file; whether there was one. -/
def removeFile (tree : Tree) (path : Path) : Bool × Tree :=
  match tree.locate path with
  | .error _ => (false, tree)
  | .ok place =>
    match tree.entryAt? place with
    | some (.file ..) => (true, tree.remove place)
    | _ => (false, tree)

/-- The text of a file; bytes that are not UTF-8 are shown as such. -/
def shownText? (tree : Tree) (path : Path) : Option String :=
  match tree.read path with
  | .ok bytes =>
    match String.fromUTF8? bytes with
    | some text => some text
    | none => some (String.ofList (Text.decodeLossy none bytes.toList))
  | .error _ => none

/-- The tree with a file put into it, and the directories above it if they are
missing. A file that could be executed stays so. -/
def plant (tree : Tree) (path : Path) (bytes : ByteArray) (executable : Bool) : Tree :=
  let tree := match path.parent? with
    | some above => (tree.makeDirectories above).toOption.getD tree
    | none => tree
  match tree.locate path with
  | .ok place => tree.put place (.file bytes (executable || tree.isExecutable path))
  | .error _ => tree

def plantDirectory (tree : Tree) (path : Path) : Tree :=
  (tree.makeDirectories path).toOption.getD tree

/-- Every path in the tree below the working directory, directories with a
trailing slash. -/
def listing (tree : Tree) : List String :=
  let shown := tree.filterMap fun (place, entry) =>
    if place.head? = some "/" ∨ place.head? = some ".." then none
    else
      let name := String.intercalate "/" place
      some (match entry with
        | .directory => name ++ "/"
        | .file .. => name)
  shown.mergeSort fun a b => a ≤ b

end Tree

end Jobflow.Files
