import Jobflow.Proofs.Run.Course
import Jobflow.Proofs.Workflow.Uncancelled

/-!
Runs that were not stopped from outside do not report that they were, as long as the
definitions they ask for are never answered by such a report.
-/

namespace Jobflow.Run

open Jobflow.Job (Job)
open Jobflow.Workflow (Command Context Ended FlowError)

variable {W α : Type} {host : Host W} {cancel : Cancellation}

/-- Neither a workflow nor a form is ever answered by the report of a cancellation. -/
structure Host.NeverCancels (host : Host W) : Prop where
  workflow : ∀ name w, (host.workflow name w).answer ≠ .error .cancelled
  form : ∀ session id w, (host.browse session (.form id) w).answer ≠ .error .cancelled

/-- The same of one answer. -/
def NoneCancelled : (op : RunOp) → op.Answer → Prop
  | .workflow _, found => found ≠ .error .cancelled
  | .browse _ op, some answer => Workflow.NoFormCancelled op answer
  | _, _ => True

theorem noneCancelled_respond (h : host.NeverCancels) (cancel : Cancellation) (time : Nat)
    (op : RunOp) (w : W) : NoneCancelled op (respond host cancel time op w).answer := by
  cases op with
  | workflow name => exact h.workflow name w
  | browse session op =>
    simp only [respond]
    split
    · trivial
    · cases op with
      | form id => exact h.form session id w
      | _ => trivial
  | _ => trivial

theorem Unfolds.answers {Q : (op : RunOp) → op.Answer → Prop}
    (hQ : ∀ time op w, Q op (respond host cancel time op w).answer)
    {time finish : Nat} {p : Running α} {events : List Event} {a : α}
    (h : Unfolds host cancel time p events finish a) :
    ∀ event ∈ events, Q event.op event.answer := by
  induction h with
  | done => simp
  | step hreply _ ih =>
    subst hreply
    intro event hevent
    rcases List.mem_cons.mp hevent with rfl | hevent
    · exact hQ _ _ _
    · exact ih event hevent

/-- An operation of a workflow, with its answer, as the run makes it in a session. -/
def inSession (session : SessionId)
    (exchange : (op : Workflow.browsing.Op) × Workflow.browsing.Answer op) :
    (op : running.Op) × running.Answer op :=
  ⟨.browse session exchange.1, some exchange.2⟩

/-- A workflow that came to its end was executed as it would be on its own. -/
theorem performs_of_drive {session : SessionId} {p : Workflow.Browsing α}
    {trace : List ((op : RunOp) × op.Answer)} {a : α}
    (h : Program.Performs (drive session p : Running (Option α)) trace (some a)) :
    ∃ inner, Program.Performs p inner a ∧ trace = inner.map (inSession session) := by
  induction p generalizing trace with
  | done b =>
    rw [drive] at h
    cases h
    exact ⟨[], .done _, rfl⟩
  | step op next ih =>
    rw [drive] at h
    cases h with
    | @step _ _ answer rest _ htail =>
      cases answer with
      | none => cases htail
      | some answer =>
        obtain ⟨inner, hinner, rfl⟩ := ih answer htail
        exact ⟨⟨op, answer⟩ :: inner, .step hinner, rfl⟩

theorem notCancelled_of_drive {session : SessionId} {command : Command} {initial : Context}
    {browsing : List Event} {ended : Ended}
    (h : Program.Performs (drive session (Workflow.execute command initial))
      (browsing.map Event.exchange) (some ended))
    (hbrowsing : ∀ event ∈ browsing, NoneCancelled event.op event.answer) :
    Workflow.NotCancelled ended.result := by
  obtain ⟨inner, hinner, htrace⟩ := performs_of_drive h
  apply hinner.yields (Workflow.endsUncancelled_execute command initial)
  intro exchange hmem
  have hmem' : inSession session exchange ∈ browsing.map Event.exchange := by
    rw [htrace]
    exact List.mem_map_of_mem hmem
  obtain ⟨⟨op, answer, asked, answered⟩, hevent, heq⟩ := List.mem_map.mp hmem'
  have hnone := hbrowsing _ hevent
  cases heq
  exact hnone

theorem Ending.result_finished {ended : Ended} (h : Workflow.NotCancelled ended.result) :
    (Ending.finished ended).result ≠ .error (.workflow .cancelled) := by
  simp only [Ending.result, verdict]
  split
  · simp
  · next e he =>
    rw [he] at h
    intro heq
    simp only [mapError_error, Except.error.injEq, RunError.workflow.injEq] at heq
    exact h (by rw [heq])

theorem InSession.result_ne_cancelled {keepsCookies : Bool} {command : Command}
    {initial : Context} {events : List Event} {ending : Ending}
    (h : InSession keepsCookies command initial events ending)
    (hevents : ∀ event ∈ events, NoneCancelled event.op event.answer)
    (hending : ending ≠ .stopped) : ending.result ≠ .error (.workflow .cancelled) := by
  cases h with
  | unopened => simp [Ending.result]
  | stoppedAtOnce => exact absurd rfl hending
  | @executed _ browsing _ _ _ _ _ _ _ ended _ hbrowsing =>
    cases ended with
    | none => exact absurd rfl hending
    | some ended =>
      apply Ending.result_finished
      apply notCancelled_of_drive hbrowsing
      intro event hevent
      exact hevents event (by simp [hevent])

theorem Course.result_ne_cancelled {plan : RunPlan} {job : Job} {events : List Event}
    {ending : Ending} (h : Course plan job events ending)
    (hevents : ∀ event ∈ events, NoneCancelled event.op event.answer)
    (hending : ending ≠ .stopped) : ending.result ≠ .error (.workflow .cancelled) := by
  cases h with
  | unrouted => simp [Ending.result]
  | @unloaded name e asked answered _ =>
    have hne : (.error e : Except FlowError Command) ≠ .error .cancelled :=
      hevents (.lookup name (.error e) asked answered) (by simp)
    intro heq
    simp only [Ending.result, Except.error.injEq, RunError.workflow.injEq] at heq
    exact hne (by rw [heq])
  | stoppedAtOnce => exact absurd rfl hending
  | begun _ hsession =>
    apply hsession.result_ne_cancelled _ hending
    intro event hevent
    exact hevents event (by simp [hevent])

/-- A run that was not stopped does not report that it was. -/
theorem RunsTo.result_ne_cancelled (hhost : host.NeverCancels) {plan : RunPlan}
    {start finish : Nat} {job : Job} {events : List Event} {ending : Ending}
    (h : RunsTo host cancel plan start job events finish ending) (hending : ending ≠ .stopped) :
    ending.result ≠ .error (.workflow .cancelled) := by
  cases h with
  | whole hwhole hcourse =>
    exact hcourse.result_ne_cancelled
      (hwhole.answers (noneCancelled_respond hhost cancel)) hending
  | broken => simp [Ending.result]

end Jobflow.Run
