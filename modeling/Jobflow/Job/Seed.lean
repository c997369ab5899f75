import Jobflow.Job.Basic
import Jobflow.Workflow.Context

/-!
The variables a run starts with: those of the offer and of the applicant. The
applicant's own variables come first, so that none of them can take the place
of a variable of the offer.
-/

namespace Jobflow.Job

open Jobflow.Json
open Jobflow.Workflow (Binding Context)

/-- Who applies, and with which documents. -/
structure Applicant where
  resumePath : String
  coverLetterPath : String
  firstName : String
  lastName : String
  phone : String
  email : String
  /-- further variables for the workflows -/
  extra : Dict String
  deriving DecidableEq, Repr

def Applicant.unknown : Applicant := ⟨"", "", "", "", "", "", []⟩

/-- The variables of the offer and the applicant, other than further ones. -/
def seedBindings (job : Job) (applicant : Applicant) : List (String × Binding) :=
  [(Workflow.jobUrl, .text job.url), ("JobTitle", .text job.title), ("JobId", .text job.id.text),
   ("CompanyName", .text (job.employer.getD "")), ("ResumePath", .text applicant.resumePath),
   ("CoverLetterPath", .text applicant.coverLetterPath),
   ("UserFirstName", .text applicant.firstName), ("UserSecondName", .text applicant.lastName),
   ("UserPhone", .text applicant.phone), ("UserEmail", .text applicant.email)]

/-- The variables a run for the offer starts with. -/
def initialContext (job : Job) (applicant : Applicant) : Context :=
  .ofBindings
    (applicant.extra.map (fun (name, value) => (name, Binding.text value)) ++
      seedBindings job applicant)

def Applicant.toValue (a : Applicant) : Value :=
  .object [("resume_path", .string a.resumePath), ("cover_letter_path", .string a.coverLetterPath),
    ("first_name", .string a.firstName), ("last_name", .string a.lastName),
    ("phone", .string a.phone), ("email", .string a.email),
    ("extra", .object (Dict.mapValues Value.string a.extra))]

/-- The members of an applicant read so far. -/
structure Applicant.Draft where
  resumePath : Option String := none
  coverLetterPath : Option String := none
  firstName : Option String := none
  lastName : Option String := none
  phone : Option String := none
  email : Option String := none
  extra : Option (Dict String) := none

def Applicant.read : Reader Applicant :=
  let text (name : String) (get : Draft → Option String) (put : Draft → String → Draft) :
      RecordField Draft :=
    field name true get put readString
  Record.read
    { expected := "struct ApplicantProfile"
      fields :=
        [text "resume_path" Draft.resumePath fun d a => { d with resumePath := some a },
         text "cover_letter_path" Draft.coverLetterPath
           fun d a => { d with coverLetterPath := some a },
         text "first_name" Draft.firstName fun d a => { d with firstName := some a },
         text "last_name" Draft.lastName fun d a => { d with lastName := some a },
         text "phone" Draft.phone fun d a => { d with phone := some a },
         text "email" Draft.email fun d a => { d with email := some a },
         field "extra" true Draft.extra (fun d a => { d with extra := some a })
           (readDict readString)] }
    ({} : Draft)
    fun d => .ok {
      resumePath := d.resumePath.getD ""
      coverLetterPath := d.coverLetterPath.getD ""
      firstName := d.firstName.getD ""
      lastName := d.lastName.getD ""
      phone := d.phone.getD ""
      email := d.email.getD ""
      extra := d.extra.getD [] }

end Jobflow.Job
