import Jobflow.Proofs.Workflow.Verdicts

/-!
An execution never reports by itself that the run was cancelled: it would have to be
given such a report in place of a form.
-/

namespace Jobflow.Workflow

/-- No form is answered by the report of a cancellation. -/
def NoFormCancelled : (op : browsing.Op) → browsing.Answer op → Prop :=
  fun (op : Browse) (answer : op.Answer) =>
    match op, answer with
    | .form _, answer => answer ≠ .error .cancelled
    | _, _ => True

/-- A result that is no cancellation. -/
def NotCancelled {α : Type} (result : Except FlowError α) : Prop := result ≠ .error .cancelled

/-- The program ends without the report of a cancellation. -/
abbrev EndsUncancelled (p : Browsing Ended) : Prop :=
  Program.Yields NoFormCancelled (fun ended => NotCancelled ended.result) p

theorem endsUncancelled_execute (command : Command) (ctx : Context) :
    EndsUncancelled (execute command ctx) := by
  have hends : EndsFailOnly (· ≠ .cancelled) (execute command) :=
    endsFailOnly_execute (coversNodes_ne (.inr rfl)) command (absurd (by simp))
  refine (hends ctx).mono ?_ fun ended => failsOnly_ne_iff.mp
  intro op answer hanswer
  cases op with
  | form id => exact failsOnly_ne_iff.mpr hanswer
  | _ => trivial

end Jobflow.Workflow
