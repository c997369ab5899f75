import Jobflow.Page.Call

/-!
Why compiling or executing a workflow fails.
-/

namespace Jobflow.Workflow

open Jobflow.Page (PageError)

/-- A failure of a workflow. -/
inductive FlowError where
  /-- the document is no workflow -/
  | malformed (detail : String)
  /-- a page call failed and no node recovered from it -/
  | page (cause : PageError)
  /-- a form cannot be used -/
  | configuration (detail : String)
  /-- a workflow or form is not defined -/
  | notFound (detail : String)
  /-- the condition of a branch gave no verdict -/
  | conditionNotSet
  /-- a file operation outside the page failed -/
  | io (detail : String)
  /-- the run was stopped from outside -/
  | cancelled
  deriving DecidableEq, Repr

namespace FlowError

def message : FlowError → String
  | .malformed detail => "Malformed workflow: " ++ detail
  | .page cause => "Driver error: " ++ cause.message
  | .configuration detail => "Configuration error: " ++ detail
  | .notFound detail => "Not found: " ++ detail
  | .conditionNotSet => "Condition did not set ConditionResult"
  | .io detail => "I/O error: " ++ detail
  | .cancelled => "Workflow execution cancelled"

def isTimeout : FlowError → Bool
  | .page cause => cause.isTimeout
  | _ => false

/-- Whether the workflow or its inputs caused the error rather than the page. -/
def isJobFatal : FlowError → Bool
  | .malformed _ | .configuration _ | .notFound _ | .conditionNotSet => true
  | _ => false

end FlowError

end Jobflow.Workflow
