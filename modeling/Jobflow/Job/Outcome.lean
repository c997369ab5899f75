import Jobflow.Job.Basic
import Jobflow.Workflow.Context

/-!
The attempt that is recorded for a run: whether an exit of the workflow called
it a success, and the message that tells how the run ended.
-/

namespace Jobflow.Job

open Jobflow.Time (Instant)
open Jobflow.Workflow (Context)

/-- How a run for an offer ended. -/
inductive RunOutcome where
  | finished (context : Context)
  | failed (reason : String)
  deriving DecidableEq, Repr

/-- The message of a finished run: that of its exit, a remark when there was no
exit, and none for an exit without a message. -/
def finishMessage (ctx : Context) : Option String :=
  let message := ctx.outcome.2
  if message ≠ "" then some message
  else if ctx.contains Workflow.finishedSuccessfully then none
  else some "workflow finished without exit"

def attemptFor (outcome : RunOutcome) (now : Instant) : Attempt :=
  match outcome with
  | .finished ctx => ⟨now, .ofFlag ctx.outcome.1, finishMessage ctx⟩
  | .failed reason => ⟨now, .failure, some reason⟩

end Jobflow.Job
