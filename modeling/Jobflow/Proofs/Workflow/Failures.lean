import Jobflow.Proofs.Program
import Jobflow.Proofs.Success
import Jobflow.Workflow.Execute

/-!
What a node may fail with. Page calls, file operations and fields of unsupported types have
failures of their own, and a form that cannot be had fails as it was answered; no other failure
comes from a node that holds no others.
-/

namespace Jobflow.Workflow

open Jobflow.Page (PageError)
open Jobflow.Time (Duration)

variable {P : FlowError → Prop} {α β : Type}

/-- The result is no failure, or one that satisfies `P`. -/
def FailsOnly (P : FlowError → Prop) (result : Except FlowError α) : Prop :=
  ∀ e, result = .error e → P e

/-- A form that cannot be had is answered by a failure that satisfies `P`. -/
def FormsFailOnly (P : FlowError → Prop) : (op : browsing.Op) → browsing.Answer op → Prop :=
  fun (op : Browse) (answer : op.Answer) =>
    match op, answer with
    | .form _, answer => FailsOnly P answer
    | _, _ => True

/-- `P` holds of every failure that the nodes themselves report. -/
structure CoversNodes (P : FlowError → Prop) : Prop where
  page : ∀ cause, P (.page cause)
  configuration : ∀ detail, P (.configuration detail)
  io : ∀ detail, P (.io detail)

/-- Whatever it is answered, the step fails only with failures that satisfy `P`, as long as forms
do. -/
abbrev StepFailsOnly (P : FlowError → Prop) (step : Browsing (Except FlowError α)) : Prop :=
  Program.Yields (FormsFailOnly P) (FailsOnly P) step

theorem failsOnly_ok (a : α) : FailsOnly P (.ok a) := by
  simp [FailsOnly]

theorem failsOnly_error {e : FlowError} (h : P e) :
    FailsOnly P (.error e : Except FlowError α) := by
  rintro _ ⟨⟩
  exact h

/-- A result fails only with other failures when it is not that failure. -/
theorem failsOnly_ne_iff {e : FlowError} {result : Except FlowError α} :
    FailsOnly (· ≠ e) result ↔ result ≠ .error e := by
  constructor
  · intro h heq
    exact h e heq rfl
  · rintro h _ heq rfl
    exact h heq

/-- No node reports by itself that the run was cancelled, and none but a branch that a condition
gave no verdict. -/
theorem coversNodes_ne {e : FlowError} (h : e = .conditionNotSet ∨ e = .cancelled) :
    CoversNodes (· ≠ e) := by
  rcases h with rfl | rfl
  · exact ⟨nofun, nofun, nofun⟩
  · exact ⟨nofun, nofun, nofun⟩

/-- What an error reports does not depend on what a success would have been. -/
theorem FailsOnly.error {e : FlowError} (h : FailsOnly P (.error e : Except FlowError α)) :
    FailsOnly P (.error e : Except FlowError β) :=
  failsOnly_error (h e rfl)

theorem stepFailsOnly_ok (a : α) : StepFailsOnly P (pure (.ok a)) :=
  Program.yields_pure (failsOnly_ok a)

theorem stepFailsOnly_lifted (hP : CoversNodes P) (step : Browsing (Except PageError α)) :
    StepFailsOnly P (lifted step) := by
  refine (Program.yields_true step).bind fun result _ => Program.yields_pure ?_
  cases result with
  | ok a => exact failsOnly_ok a
  | error cause => exact failsOnly_error (hP.page cause)

theorem stepFailsOnly_proceed {step : Browsing (Except FlowError α)}
    {next : α → Browsing (Except FlowError β)} (hstep : StepFailsOnly P step)
    (hnext : ∀ a, StepFailsOnly P (next a)) : StepFailsOnly P (proceed step next) := by
  apply hstep.bind
  intro result hresult
  cases result with
  | ok a => exact hnext a
  | error e => exact Program.yields_pure hresult.error

theorem stepFailsOnly_ite {c : Prop} [Decidable c] {step other : Browsing (Except FlowError α)}
    (hstep : StepFailsOnly P step) (hother : StepFailsOnly P other) :
    StepFailsOnly P (if c then step else other) := by
  split
  · exact hstep
  · exact hother

theorem stepFailsOnly_click (hP : CoversNodes P) (ctx : Context) (selector : String)
    (timeout : Option Duration) (after : AfterClick) :
    StepFailsOnly P (click ctx selector timeout after) := by
  unfold click
  dsimp only
  split
  · exact stepFailsOnly_lifted hP _
  · apply stepFailsOnly_proceed (stepFailsOnly_lifted hP _)
    intro _
    exact (Program.yields_true _).bind fun _ _ => stepFailsOnly_ok ()
  · split
    · exact stepFailsOnly_lifted hP _
    · apply stepFailsOnly_proceed (stepFailsOnly_lifted hP _)
      intro appeared
      split
      · exact stepFailsOnly_ok ()
      · exact Program.yields_pure (failsOnly_error (hP.page _))
  · exact stepFailsOnly_lifted hP _

theorem failsOnly_fieldKinds (hP : ∀ detail, P (.configuration detail)) (fields : List FormField) :
    FailsOnly P (fieldKinds fields) := by
  induction fields with
  | nil => exact failsOnly_ok []
  | cons field rest ih =>
    rw [fieldKinds]
    unfold FormField.kind
    split
    · cases hrest : fieldKinds rest with
      | ok kinds => exact failsOnly_ok _
      | error e =>
        rw [hrest] at ih
        exact ih.error
    · exact failsOnly_error (hP _)

theorem stepFailsOnly_fillForm (hP : CoversNodes P) (ctx : Context) (id : String) :
    StepFailsOnly P (fillForm ctx id) := by
  have hform : StepFailsOnly P (formNamed id) := fun found hfound => hfound
  apply stepFailsOnly_proceed hform
  intro form
  have hkinds := failsOnly_fieldKinds hP.configuration form.fields
  split
  · next e he =>
    rw [he] at hkinds
    exact Program.yields_pure hkinds.error
  · exact (Program.yields_true _).bind fun _ _ => stepFailsOnly_ok ()

theorem stepFailsOnly_takeScreenshot (hP : CoversNodes P) (ctx : Context) (pathTemplate : String) :
    StepFailsOnly P (takeScreenshot ctx pathTemplate) := by
  refine (Program.yields_true _).bind fun name _ => ?_
  refine stepFailsOnly_ite (stepFailsOnly_lifted hP _) ?_
  refine (Program.yields_true _).bind fun made _ => ?_
  cases made with
  | ok => exact stepFailsOnly_lifted hP _
  | error cause => exact Program.yields_pure (failsOnly_error (hP.io _))

end Jobflow.Workflow
