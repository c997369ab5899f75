import Jobflow.Json.Print
import Jobflow.Time.Timestamp
import Jobflow.Uuid

/-!
Job offers and the attempts to apply for them. An offer is armed for one
attempt at a time; recording an attempt disarms it, and once an attempt has
succeeded the offer counts as applied for good.
-/

namespace Jobflow.Job

open Jobflow.Json
open Jobflow.Time (Instant)

/-- How an attempt ended. -/
inductive Status where
  | success
  | failure
  deriving DecidableEq, Repr

namespace Status

def ofFlag (success : Bool) : Status := if success then .success else .failure

/-- The status in a job file. -/
def tag : Status → String
  | .success => "Success"
  | .failure => "Failure"

/-- The status in a message. -/
def name : Status → String
  | .success => "success"
  | .failure => "failure"

end Status

/-- One attempt to apply. -/
structure Attempt where
  timestamp : Instant
  status : Status
  message : Option String
  deriving DecidableEq, Repr

/-- A job offer. -/
structure Job where
  id : Uuid
  url : String
  title : String
  employer : Option String
  createdAt : Instant
  isApplied : Bool
  shouldApply : Bool
  /-- oldest first -/
  attempts : List Attempt
  deriving DecidableEq, Repr

/-- The identifier a text writes, blanks around it left out. -/
def parseId (text : String) : Except UuidError Uuid := Uuid.parse (Text.trim text)

namespace Job

/-- A new offer, armed for one attempt. -/
def create (id : Uuid) (now : Instant) (url title : String) (employer : Option String) : Job :=
  { id := id, url := url, title := title, employer := employer, createdAt := now,
    isApplied := false, shouldApply := true, attempts := [] }

/-- Whether the next poll may pick the offer up. -/
def isPending (job : Job) : Bool := job.shouldApply && !job.isApplied

def lastAttempt? (job : Job) : Option Attempt := job.attempts.getLast?

/-- The offer with one more attempt, disarmed. -/
def recordAttempt (job : Job) (attempt : Attempt) : Job :=
  { job with
    attempts := job.attempts ++ [attempt]
    shouldApply := false
    isApplied := job.isApplied || attempt.status == .success }

/-- Earlier created, or created at once with a smaller identifier. -/
def notAfter (a b : Job) : Bool :=
  a.createdAt.before b.createdAt ||
    (a.createdAt == b.createdAt && a.id.number ≤ b.id.number)

end Job

/-- The oldest pending offers, at most `limit`. -/
def selectPending (jobs : List Job) (limit : Nat) : List Job :=
  ((jobs.filter Job.isPending).mergeSort Job.notAfter).take limit

/-- The offers from the oldest to the newest; those created at once keep their
order. -/
def byCreation (jobs : List Job) : List Job :=
  jobs.mergeSort fun a b => a.createdAt.notAfter b.createdAt

/-! ### JSON -/

/-- A member that is left out when there is nothing to show. -/
def optionalMember (name : String) : Option String → List (String × Value)
  | some s => [(name, .string s)]
  | none => []

/-- The attempt with its members in the order of a job file. -/
def Attempt.toValue (a : Attempt) : Value :=
  .object ([("timestamp", .string a.timestamp.text), ("status", .string a.status.tag)] ++
    optionalMember "errorMessage" a.message)

/-- The offer with its members in the order of a job file. -/
def Job.toValue (job : Job) : Value :=
  .object ([("id", .string job.id.text), ("url", .string job.url), ("title", .string job.title)] ++
    optionalMember "employer" job.employer ++
    [("createdAt", .string job.createdAt.text), ("isApplied", .bool job.isApplied),
     ("shouldApply", .bool job.shouldApply),
     ("attempts", .array (job.attempts.map Attempt.toValue))])

def Status.read : Reader Status := fun site doc => do
  let tag ← readName ["Success", "Failure"] site doc
  return if tag = "Success" then .success else .failure

/-- The members of an attempt read so far. -/
structure Attempt.Draft where
  timestamp : Option Instant := none
  status : Option Status := none
  message : Option (Option String) := none

def Attempt.read : Reader Attempt :=
  Record.read
    { expected := "struct ApplicationAttempt"
      fields :=
        [field "timestamp" false Draft.timestamp (fun d a => { d with timestamp := some a })
           Instant.read,
         field "status" false Draft.status (fun d a => { d with status := some a }) Status.read,
         field "errorMessage" true Draft.message (fun d a => { d with message := some a })
           (readOption readString)] }
    ({} : Draft)
    fun d => do
      return ⟨← required "timestamp" d.timestamp, ← required "status" d.status, d.message.join⟩

/-- The members of an offer read so far. -/
structure Job.Draft where
  id : Option Uuid := none
  url : Option String := none
  title : Option String := none
  employer : Option (Option String) := none
  createdAt : Option Instant := none
  isApplied : Option Bool := none
  shouldApply : Option Bool := none
  attempts : Option (List Attempt) := none

def Job.read : Reader Job :=
  Record.read
    { expected := "struct Job"
      fields :=
        [field "id" false Draft.id (fun d a => { d with id := some a }) Uuid.read,
         field "url" false Draft.url (fun d a => { d with url := some a }) readString,
         field "title" false Draft.title (fun d a => { d with title := some a }) readString,
         field "employer" true Draft.employer (fun d a => { d with employer := some a })
           (readOption readString),
         field "createdAt" false Draft.createdAt (fun d a => { d with createdAt := some a })
           Instant.read,
         field "isApplied" true Draft.isApplied (fun d a => { d with isApplied := some a })
           readBool,
         field "shouldApply" true Draft.shouldApply (fun d a => { d with shouldApply := some a })
           readBool,
         field "attempts" true Draft.attempts (fun d a => { d with attempts := some a })
           (readList Attempt.read)] }
    ({} : Draft)
    fun d => do
      return {
        id := ← required "id" d.id
        url := ← required "url" d.url
        title := ← required "title" d.title
        employer := d.employer.join
        createdAt := ← required "createdAt" d.createdAt
        isApplied := d.isApplied.getD false
        shouldApply := d.shouldApply.getD false
        attempts := d.attempts.getD [] }

end Jobflow.Job
