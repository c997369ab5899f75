import Jobflow.Job.Basic
import Jobflow.Files.Filing

/-!
The backlog of offers, in memory and in a file. Both keep one offer for each
identifier and answer alike; the file holds all offers as one JSON list, and
every change replaces the whole file while the lock of the store is held.
-/

namespace Jobflow.Job

open Jobflow.Files
open Jobflow.Json

/-- Why an operation on the backlog failed. -/
inductive StoreError where
  | notFound (id : Uuid)
  | duplicate (id : Uuid)
  | io (detail : String)
  | corrupt (detail : String)
  deriving DecidableEq, Repr

def StoreError.message : StoreError → String
  | .notFound id => "job " ++ id.text ++ " not found"
  | .duplicate id => "job " ++ id.text ++ " already exists"
  | .io detail => "job store I/O: " ++ detail
  | .corrupt detail => "job store data: " ++ detail

/-! ### Changes of a list of offers -/

/-- The offer with an identifier: the first in the list. -/
def find? (jobs : List Job) (id : Uuid) : Option Job :=
  jobs.find? fun job => job.id = id

/-- Changes the first offer with an identifier. -/
def updateFirst (id : Uuid) (change : Job → Job) : List Job → List Job
  | [] => []
  | job :: rest => if job.id = id then change job :: rest else job :: updateFirst id change rest

/-- The list with a new offer at its end. -/
def insert (jobs : List Job) (job : Job) : Except StoreError (List Job) :=
  if (find? jobs job.id).isSome then .error (.duplicate job.id) else .ok (jobs ++ [job])

/-- The list with the offer of the same identifier replaced. -/
def commit (jobs : List Job) (job : Job) : Except StoreError (List Job) :=
  if (find? jobs job.id).isSome then .ok (updateFirst job.id (fun _ => job) jobs)
  else .error (.notFound job.id)

/-- The list with an attempt recorded for the offer as it is now. -/
def record (jobs : List Job) (id : Uuid) (attempt : Attempt) : Except StoreError (List Job) :=
  if (find? jobs id).isSome then .ok (updateFirst id (·.recordAttempt attempt) jobs)
  else .error (.notFound id)

/-! ### In memory -/

/-- The offers in memory, at most one for each identifier. -/
structure MemoryStore where
  jobs : List Job
  deriving DecidableEq, Repr

namespace MemoryStore

/-- Puts an offer in, instead of an earlier one of the same identifier. -/
def put (store : MemoryStore) (job : Job) : MemoryStore :=
  if (find? store.jobs job.id).isSome then ⟨updateFirst job.id (fun _ => job) store.jobs⟩
  else ⟨store.jobs ++ [job]⟩

/-- The store with these offers; of two with one identifier the later counts. -/
def ofJobs (jobs : List Job) : MemoryStore := jobs.foldl put ⟨[]⟩

def pending (store : MemoryStore) (limit : Nat) : List Job := selectPending store.jobs limit

def get (store : MemoryStore) (id : Uuid) : Option Job := find? store.jobs id

def list (store : MemoryStore) : List Job := byCreation store.jobs

def insert (store : MemoryStore) (job : Job) : Except StoreError MemoryStore :=
  (Job.insert store.jobs job).map MemoryStore.mk

def commit (store : MemoryStore) (job : Job) : Except StoreError MemoryStore :=
  (Job.commit store.jobs job).map MemoryStore.mk

def record (store : MemoryStore) (id : Uuid) (attempt : Attempt) : Except StoreError MemoryStore :=
  (Job.record store.jobs id attempt).map MemoryStore.mk

end MemoryStore

/-! ### In a file -/

/-- A file with offers, and the temporary file that replaces it. -/
structure FileStore where
  path : Path
  deriving DecidableEq, Repr

def fileText (jobs : List Job) : String := (Value.array (jobs.map Job.toValue)).pretty

/-- The offers that the text of a job file holds; a blank text holds none. -/
def parseFile (text : String) : Except Json.Error (List Job) :=
  if Text.isBlank text then .ok [] else parseAs (readList Job.read) text

namespace FileStore

/-- The lock of the store. -/
def lock : String := "jobs"

def temporary (store : FileStore) : Path := store.path.withExtension "json.tmp"

/-- The directory that must be there before the file can be written. -/
def directory (store : FileStore) : Option Path :=
  match store.path.parent? with
  | some "" | none => none
  | some above => some above

/-- The offers in the file; a missing file holds none. -/
def readAll (store : FileStore) : Filing (Except StoreError (List Job)) := do
  match ← Filing.readText store.path with
  | .ok text =>
    match parseFile text with
    | .ok jobs => return .ok jobs
    | .error e => return .error (.corrupt (store.path ++ ": " ++ e.message))
  | .error .notFound => return .ok []
  | .error e => return .error (.io (store.path ++ ": " ++ e.message))

def writeAll (store : FileStore) (jobs : List Job) : Filing (Except StoreError Unit) := do
  let written ← Filing.replace store.directory store.temporary store.path (fileText jobs)
  return written.mapError fun e => .io e.message

/-- Looks at the offers while nobody changes them. -/
def view {α : Type} (store : FileStore) (look : List Job → α) : Filing (Except StoreError α) :=
  Filing.holding lock do
    let found ← store.readAll
    return found.map look

/-- Changes the offers while nobody else does. -/
def modify (store : FileStore) (change : List Job → Except StoreError (List Job)) :
    Filing (Except StoreError Unit) :=
  Filing.holding lock do
    match ← store.readAll with
    | .error e => return .error e
    | .ok jobs =>
      match change jobs with
      | .error e => return .error e
      | .ok changed => store.writeAll changed

def pending (store : FileStore) (limit : Nat) : Filing (Except StoreError (List Job)) :=
  store.view fun jobs => selectPending jobs limit

def get (store : FileStore) (id : Uuid) : Filing (Except StoreError (Option Job)) :=
  store.view fun jobs => find? jobs id

def list (store : FileStore) : Filing (Except StoreError (List Job)) := store.view byCreation

def insert (store : FileStore) (job : Job) : Filing (Except StoreError Unit) :=
  store.modify fun jobs => Job.insert jobs job

def commit (store : FileStore) (job : Job) : Filing (Except StoreError Unit) :=
  store.modify fun jobs => Job.commit jobs job

/-- Records an attempt; its status, if it could be recorded. -/
def record (store : FileStore) (id : Uuid) (attempt : Attempt) :
    Filing (Except StoreError Status) := do
  let written ← store.modify fun jobs => Job.record jobs id attempt
  return written.map fun _ => attempt.status

end FileStore

end Jobflow.Job
