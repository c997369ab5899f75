import Jobflow.Cli.Process
import Jobflow.Proofs.Run.Cancellation
import Jobflow.Proofs.Workflow.Library

/-!
What looking a definition up fails with: that there is none, that its file cannot be read, or what
its text is reported by. Definitions at hand or in directories are never answered by the report of a
cancellation.
-/

namespace Jobflow.Run

open Jobflow.Rehearsal (Definitions Scene Stage)
open Jobflow.Workflow (FailsOnly FlowError)

variable {α : Type}

/-- No text of the shelf is understood as the report of a cancellation. -/
def ParsesUncancelled (shelf : Workflow.Shelf α) : Prop :=
  ∀ name text, shelf.parse name text ≠ .error .cancelled

theorem parsesUncancelled_workflowShelf (directory : Files.Path) :
    ParsesUncancelled (Workflow.workflowShelf directory) := by
  intro name text
  simp only [Workflow.workflowShelf, Workflow.parseWorkflow]
  split
  · simp
  · split <;> simp

theorem parsesUncancelled_formShelf (directory : Files.Path) :
    ParsesUncancelled (Workflow.formShelf directory) := by
  intro name text
  simp only [Workflow.formShelf, Workflow.parseForm]
  split <;> simp

/-- `P` holds of every failure to find or to read a definition. -/
structure CoversLookups (P : FlowError → Prop) : Prop where
  notFound : ∀ detail, P (.notFound detail)
  io : ∀ detail, P (.io detail)

theorem failsOnly_consult {P : FlowError → Prop} (hP : CoversLookups P) {shelf : Workflow.Shelf α}
    (h : ∀ name text, FailsOnly P (shelf.parse name text)) (name : String) (remembered : Dict α)
    (tree : Files.Tree) : FailsOnly P (shelf.consult name remembered tree).1 := by
  cases hfound : Dict.find? name remembered with
  | some definition =>
    rw [Workflow.Shelf.consult_of_remembered hfound]
    exact Workflow.failsOnly_ok definition
  | none =>
    rw [Workflow.Shelf.consult_of_new hfound]
    unfold Workflow.Shelf.fresh
    split
    · exact Workflow.failsOnly_error (hP.notFound _)
    · split
      · next cause _ =>
        apply Workflow.failsOnly_error
        cases cause with
        | notFound => exact hP.notFound _
        | _ => exact hP.io _
      · exact h name _

/-- What the source does not understand it answers by a failure that satisfies `P`. -/
def SourceFailsOnly (P : FlowError → Prop) : Definitions α → Prop
  | .given _ => True
  | .shelved shelf => ∀ name text, FailsOnly P (shelf.parse name text)

theorem failsOnly_get {P : FlowError → Prop} (hP : CoversLookups P) {source : Definitions α}
    (h : SourceFailsOnly P source) (kind name : String) (remembered : Dict α) (tree : Files.Tree) :
    FailsOnly P (source.get kind name remembered tree).1 := by
  cases source with
  | given definitions =>
    rw [Definitions.get]
    split
    · exact Workflow.failsOnly_ok _
    · exact Workflow.failsOnly_error (hP.notFound _)
  | shelved shelf => exact failsOnly_consult hP h name remembered tree

/-- The source answers no name by the report of a cancellation. -/
def SourceUncancelled : Definitions α → Prop
  | .given _ => True
  | .shelved shelf => ParsesUncancelled shelf

theorem get_ne_cancelled {source : Definitions α} (h : SourceUncancelled source)
    (kind name : String) (remembered : Dict α) (tree : Files.Tree) :
    (source.get kind name remembered tree).1 ≠ .error .cancelled := by
  have hlookups : CoversLookups (· ≠ .cancelled) := ⟨nofun, nofun⟩
  have hsource : SourceFailsOnly (· ≠ .cancelled) source := by
    cases source with
    | given => trivial
    | shelved shelf => exact fun name text => Workflow.failsOnly_ne_iff.mpr (h name text)
  exact Workflow.failsOnly_ne_iff.mp (failsOnly_get hlookups hsource kind name remembered tree)

theorem host_neverCancels {stage : Stage} (hworkflows : SourceUncancelled stage.workflows)
    (hforms : SourceUncancelled stage.forms) : stage.host.NeverCancels where
  workflow name scene := get_ne_cancelled hworkflows "workflow" name scene.workflows scene.tree
  form _ id scene := get_ne_cancelled hforms "form" id scene.forms scene.tree

/-- The surroundings that the program sets up for its runs are such a host. -/
theorem furnish_neverCancels (stage : Stage) (settings : Settings) :
    (Cli.furnish stage settings).host.NeverCancels :=
  host_neverCancels (parsesUncancelled_workflowShelf _) (parsesUncancelled_formShelf _)

end Jobflow.Run
