import Jobflow.Proofs.Job.Recording
import Jobflow.Proofs.Run.Scenes
import Jobflow.Proofs.Run.SideBySide

/-!
Backlogs that nobody but the polls writes. The backlog in memory is one, on every stage
and as long as no change from elsewhere is still to come.
-/

namespace Jobflow.Schedule

open Jobflow.Job (Attempt Job StoreError)
open Jobflow.Rehearsal (Affects BacklogCall Scene Stage affects_respond)
open Jobflow.Run (Cancellation Host RunOp Steady)

variable {W : Type}

/-- The backlog is a store of offers that polls alone write: `holds w jobs` says that it
holds those offers in the world `w`. -/
structure Backlog.Keeps (backlog : Backlog W) (host : Host W) (holds : W → List Job → Prop) :
    Prop where
  /-- runs and the passing of time leave the store alone -/
  steady : ∀ jobs, Steady host (holds · jobs)
  /-- looking at the calendar too -/
  now : ∀ {w jobs}, holds w jobs → ∀ time, holds (backlog.now time w).2 jobs
  pending : ∀ {w jobs}, holds w jobs → ∀ limit batch,
    (backlog.pending limit w).answer = .ok batch → batch = Job.selectPending jobs limit
  /-- a look at the pending offers changes nothing, whether it succeeds or not -/
  pending_world : ∀ {w jobs}, holds w jobs → ∀ limit, holds (backlog.pending limit w).world jobs
  /-- an attempt with a date of the calendar is recorded as it is -/
  record : ∀ {w jobs}, holds w jobs → ∀ time id attempt status,
    attempt.timestamp = (backlog.now time w).1 →
    (backlog.record id attempt (backlog.now time w).2).answer = .ok status →
    ∃ jobs', Job.record jobs id attempt = .ok jobs' ∧
      holds (backlog.record id attempt (backlog.now time w).2).world jobs'
  /-- an attempt that is refused changes nothing -/
  refuse : ∀ {w jobs}, holds w jobs → ∀ id attempt cause,
    (backlog.record id attempt w).answer = .error cause →
    holds (backlog.record id attempt w).world jobs

/-- The store takes every attempt for an offer that it holds. -/
def Backlog.Accepts (backlog : Backlog W) (holds : W → List Job → Prop) : Prop :=
  ∀ w jobs, holds w jobs → ∀ job ∈ jobs, ∀ attempt cause,
    (backlog.record job.id attempt w).answer ≠ .error cause

/-! ### The backlog in memory -/

/-- The store, the operations of it that fail and the changes to come are the same in both
scenes. -/
structure SameStore (scene scene' : Scene) : Prop where
  jobs : scene'.jobs = scene.jobs
  failing : scene'.failing = scene.failing
  edits : scene'.edits = scene.edits

theorem sameStore_of_affects {stage : Stage} {scene scene' : Scene} {op : RunOp}
    (h : Affects stage scene op scene') : SameStore scene scene' := by
  cases h <;> exact ⟨rfl, rfl, rfl⟩

theorem sameStore_respond (stage : Stage) (cancel : Cancellation) (time : Nat) (op : RunOp)
    (scene : Scene) : SameStore scene (Run.respond stage.host cancel time op scene).world :=
  sameStore_of_affects (affects_respond stage (fun _ => stage.page) cancel time op scene)

/-- The store holds these offers, these operations of it fail, and no change of it is still
to come. -/
structure Holds (failing : List BacklogCall) (scene : Scene) (jobs : List Job) : Prop where
  jobs : scene.jobs.jobs = jobs
  failing : scene.failing = failing
  edits : scene.edits = []

theorem SameStore.holds {scene scene' : Scene} (h : SameStore scene scene')
    {failing : List BacklogCall} {jobs : List Job} (hscene : Holds failing scene jobs) :
    Holds failing scene' jobs where
  jobs := by rw [h.jobs, hscene.jobs]
  failing := by rw [h.failing, hscene.failing]
  edits := by rw [h.edits, hscene.edits]

theorem holds_pass {failing : List BacklogCall} {scene : Scene} {jobs : List Job}
    (h : Holds failing scene jobs) (time : Nat) : Holds failing (scene.pass time) jobs := by
  have hpass : scene.pass time = { scene with time := max scene.time time } := by
    simp only [Scene.pass, h.edits, List.filter_nil, List.foldl_nil]
  rw [hpass]
  exact ⟨h.jobs, h.failing, h.edits⟩

theorem holds_now (stage : Stage) {failing : List BacklogCall} {scene : Scene} {jobs : List Job}
    (h : Holds failing scene jobs) (time : Nat) :
    Holds failing (stage.memoryBacklog.now time scene).2 jobs := by
  have hcalendar : SameStore (scene.pass time) (stage.memoryBacklog.now time scene).2 :=
    ⟨rfl, rfl, rfl⟩
  exact hcalendar.holds (holds_pass h time)

theorem Holds.record {stage : Stage} {failing : List BacklogCall} {scene : Scene} {jobs : List Job}
    (h : Holds failing scene jobs) {id : Uuid} {attempt : Attempt} {status : Job.Status}
    (hanswer : (stage.memoryBacklog.record id attempt scene).answer = .ok status) :
    ∃ jobs', Job.record jobs id attempt = .ok jobs' ∧
      Holds failing (stage.memoryBacklog.record id attempt scene).world jobs' := by
  simp only [Stage.memoryBacklog, Job.MemoryStore.record, h.jobs] at hanswer ⊢
  split at hanswer
  · cases hanswer
  · next hworks =>
    cases hrecord : Job.record jobs id attempt with
    | error e => simp [hrecord, Except.map] at hanswer
    | ok jobs' =>
      refine ⟨jobs', rfl, ?_⟩
      simp only [if_neg hworks, Except.map]
      exact ⟨rfl, h.failing, h.edits⟩

theorem memoryBacklog_keeps (stage : Stage) (failing : List BacklogCall) :
    stage.memoryBacklog.Keeps stage.host (Holds failing) where
  steady jobs := {
    pass := fun h => holds_pass h _
    respond := fun h => (sameStore_respond stage _ _ _ _).holds h }
  now h time := holds_now stage h time
  pending {scene jobs} h limit batch hanswer := by
    simp only [Stage.memoryBacklog] at hanswer
    split at hanswer
    · cases hanswer
    · rw [← Except.ok.inj hanswer, Job.MemoryStore.pending, h.jobs]
  pending_world {scene jobs} h limit := by
    simp only [Stage.memoryBacklog]
    split <;> exact h
  record h time _ _ _ _ hanswer := (holds_now stage h time).record hanswer
  refuse {scene jobs} h id attempt cause hanswer := by
    simp only [Stage.memoryBacklog, Job.MemoryStore.record, h.jobs] at hanswer ⊢
    split
    · exact h
    · next hworks =>
      cases hrecord : Job.record jobs id attempt with
      | error e => exact h
      | ok jobs' => simp [hworks, hrecord, Except.map] at hanswer

/-- The memory takes an attempt for every offer that it holds, unless it was made to fail. -/
theorem memoryBacklog_accepts (stage : Stage) {failing : List BacklogCall}
    (hworks : .record ∉ failing) : stage.memoryBacklog.Accepts (Holds failing) := by
  intro scene jobs h job hjob attempt cause hanswer
  obtain ⟨jobs', hrecord⟩ := Job.exists_record hjob attempt
  simp [Stage.memoryBacklog, Job.MemoryStore.record, h.jobs, h.failing, hworks, hrecord,
    Except.map] at hanswer

end Jobflow.Schedule
