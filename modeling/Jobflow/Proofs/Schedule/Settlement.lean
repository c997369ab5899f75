import Jobflow.Proofs.Job.Recording
import Jobflow.Proofs.Run.Cancellation
import Jobflow.Schedule.Poll

/-!
What becomes of the runs of a batch. Every run is settled for its own offer: an attempt
that fits its end is recorded, or the store refuses it, or the offer is left alone.
-/

namespace Jobflow.Schedule

open Jobflow.Job (Attempt Job RunOutcome Status StoreError)
open Jobflow.Run (Cancellation Concludes Ending Event Host RunError RunPlan RunsTo Timed)
open Jobflow.Workflow (Context FlowError)

/-- What becomes of a run of a batch. -/
inductive Fate where
  | recorded (attempt : Attempt)
  | refused (attempt : Attempt) (cause : StoreError)
  | stopped

/-- The attempt that the store was given, whether it took it or not. -/
def Fate.attempt? : Fate → Option Attempt
  | .recorded attempt => some attempt
  | .refused attempt _ => some attempt
  | .stopped => none

/-- A run of a batch: the offer, what happened, how it ended, and what became of it. -/
structure Settlement where
  job : Job
  events : List Event
  finish : Nat
  ending : Ending
  fate : Fate

namespace Settlement

def succeeded (s : Settlement) : Bool := s.fate.attempt?.any (·.status == .success)

def failed (s : Settlement) : Bool := s.fate.attempt?.any (·.status == .failure)

def stopped (s : Settlement) : Bool := s.fate.attempt?.isNone

def refused (s : Settlement) : Bool :=
  match s.fate with
  | .refused .. => true
  | _ => false

/-- What the settlement makes of its own offer. -/
def change (s : Settlement) (job : Job) : Job :=
  match s.fate with
  | .recorded attempt => if job.id = s.job.id then job.recordAttempt attempt else job
  | _ => job

end Settlement

/-- The attempt that fits the end of a run; none fits a run that reports that it was
stopped. -/
inductive Fits : Ending → Option Attempt → Prop
  | stopped {ending : Ending} : ending.result = .error (.workflow .cancelled) → Fits ending none
  | failed {cause : RunError} {attempt : Attempt} : cause ≠ .workflow .cancelled →
      attempt.status = .failure → attempt.message = some cause.message →
      Fits (.failed cause) (some attempt)
  | brokenOff {ended : Workflow.Ended} {e : FlowError} {attempt : Attempt} :
      ended.result = .error e → e ≠ .cancelled →
      attempt.status = .failure → attempt.message = some e.message →
      Fits (.finished ended) (some attempt)
  | finished {ended : Workflow.Ended} {flow : Workflow.Flow} {attempt : Attempt} :
      ended.result = .ok flow → attempt.status = .ofFlag ended.context.outcome.1 →
      attempt.message = Job.finishMessage ended.context → Fits (.finished ended) (some attempt)

theorem outcomeOf_error {cause : RunError} (h : cause ≠ .workflow .cancelled) :
    outcomeOf (.error cause) = some (.failed cause.message) := by
  unfold outcomeOf
  split
  · next heq => cases heq
  · next heq => exact absurd (Except.error.inj heq) h
  · next heq => rw [Except.error.inj heq]

theorem fits_none {ending : Ending} (h : outcomeOf ending.result = none) : Fits ending none := by
  unfold outcomeOf at h
  split at h
  · cases h
  · next hresult => exact .stopped hresult
  · cases h

theorem fits_attemptFor {ending : Ending} {outcome : RunOutcome}
    (h : outcomeOf ending.result = some outcome) (now : Time.Instant) :
    Fits ending (some (Job.attemptFor outcome now)) := by
  cases ending with
  | failed cause =>
    have hcause : cause ≠ .workflow .cancelled := by
      rintro rfl
      simp [Ending.result, outcomeOf] at h
    rw [Ending.result, outcomeOf_error hcause] at h
    obtain rfl := Option.some.inj h
    exact .failed hcause rfl rfl
  | stopped => simp [Ending.result, outcomeOf] at h
  | finished ended =>
    simp only [Ending.result, Run.verdict] at h
    cases hresult : ended.result with
    | ok flow =>
      simp only [hresult, mapError_ok] at h
      obtain rfl := Option.some.inj h
      exact .finished hresult rfl rfl
    | error e =>
      simp only [hresult, mapError_error] at h
      have he : e ≠ .cancelled := by
        rintro rfl
        simp [outcomeOf] at h
      rw [outcomeOf_error fun heq => he (RunError.workflow.inj heq)] at h
      obtain rfl := Option.some.inj h
      exact .brokenOff hresult he rfl rfl

/-! ### Settling a batch -/

/-- The runs of a batch, made side by side. -/
def runBatch {W : Type} (host : Host W) (plan : RunPlan) (cancel : Cancellation) (batch : List Job)
    (time : Nat) (w : W) : Timed W (List (Except RunError Context)) :=
  Run.runAll host cancel (fun report => .error (.aborted report))
    (batch.map (Run.runJob plan)) time w

/-- `Settles backlog time w settlements finish w'`: the runs of a batch are settled one
after another. The store is given one attempt for each run that does not report that it
was stopped, and what it answers is the fate of the run. -/
inductive Settles {W : Type} (backlog : Backlog W) :
    Nat → W → List Settlement → Nat → W → Prop
  | nil (time : Nat) (w : W) : Settles backlog time w [] time w
  | stopped {time finish : Nat} {w w' : W} {s : Settlement} {rest : List Settlement} :
      s.fate = .stopped → Settles backlog time w rest finish w' →
      Settles backlog time w (s :: rest) finish w'
  | recorded {time finish : Nat} {w w' : W} {s : Settlement} {rest : List Settlement}
      {attempt : Attempt} {status : Status} {reply : Timed W (Except StoreError Status)} :
      s.fate = .recorded attempt → attempt.timestamp = (backlog.now time w).1 →
      (backlog.record s.job.id attempt (backlog.now time w).2).from time = reply →
      reply.answer = .ok status → Settles backlog reply.time reply.world rest finish w' →
      Settles backlog time w (s :: rest) finish w'
  | refused {time finish : Nat} {w w' : W} {s : Settlement} {rest : List Settlement}
      {attempt : Attempt} {cause : StoreError} {reply : Timed W (Except StoreError Status)} :
      s.fate = .refused attempt cause → attempt.timestamp = (backlog.now time w).1 →
      (backlog.record s.job.id attempt (backlog.now time w).2).from time = reply →
      reply.answer = .error cause → Settles backlog reply.time reply.world rest finish w' →
      Settles backlog time w (s :: rest) finish w'

/-- The runs counted by what became of them. -/
def tallyOf (settlements : List Settlement) : Tally where
  succeeded := settlements.countP Settlement.succeeded
  failed := settlements.countP Settlement.failed
  cancelled := settlements.countP Settlement.stopped
  commitErrors := settlements.countP Settlement.refused

/-- The sum of two counts. -/
def Tally.add (a b : Tally) : Tally :=
  ⟨a.succeeded + b.succeeded, a.failed + b.failed, a.cancelled + b.cancelled,
    a.commitErrors + b.commitErrors⟩

section

variable {W : Type} {host : Host W} {backlog : Backlog W} {cancel : Cancellation} {plan : RunPlan}

/-- A settlement of a run for its offer, with an attempt that fits the end of the run. -/
structure Settlement.Sound (host : Host W) (cancel : Cancellation) (plan : RunPlan) (start : Nat)
    (s : Settlement) : Prop where
  runs : RunsTo host cancel plan start s.job s.events s.finish s.ending
  fits : Fits s.ending s.fate.attempt?

private theorem timestamp_attemptFor (outcome : RunOutcome) (now : Time.Instant) :
    (Job.attemptFor outcome now).timestamp = now := by
  cases outcome <;> rfl

/-- The counts after an attempt that the store took. -/
private theorem add_tallyOf_recorded (tally : Tally) {s : Settlement} {attempt : Attempt}
    (h : s.fate = .recorded attempt) :
    tally.add (tallyOf [s]) = tally.count attempt.status := by
  cases hstatus : attempt.status <;>
    simp [Tally.add, tallyOf, Tally.count, Settlement.succeeded, Settlement.failed,
      Settlement.stopped, Settlement.refused, Fate.attempt?, h, hstatus]

/-- The counts after an attempt that the store refused. -/
private theorem add_tallyOf_refused (tally : Tally) {s : Settlement} {attempt : Attempt}
    {cause : StoreError} (h : s.fate = .refused attempt cause) :
    tally.add (tallyOf [s]) = { tally.count attempt.status with
      commitErrors := (tally.count attempt.status).commitErrors + 1 } := by
  cases hstatus : attempt.status <;>
    simp [Tally.add, tallyOf, Tally.count, Settlement.succeeded, Settlement.failed,
      Settlement.stopped, Settlement.refused, Fate.attempt?, h, hstatus]

private theorem add_tallyOf_stopped (tally : Tally) {s : Settlement} (h : s.fate = .stopped) :
    tally.add (tallyOf [s]) = { tally with cancelled := tally.cancelled + 1 } := by
  simp [Tally.add, tallyOf, Settlement.succeeded, Settlement.failed, Settlement.stopped,
    Settlement.refused, Fate.attempt?, h]

/-- One run is settled by itself, and the rest of the batch after it. -/
theorem settle_cons (backlog : Backlog W) (job : Job) (events : List Event) (finish : Nat)
    (ending : Ending) (rest : List (Job × Except RunError Context)) (time : Nat) (tally : Tally)
    (w : W) :
    ∃ fate time' w', Fits ending fate.attempt? ∧
      (∀ settlements end' w'', Settles backlog time' w' settlements end' w'' →
        Settles backlog time w (⟨job, events, finish, ending, fate⟩ :: settlements) end' w'') ∧
      settle backlog ((job, ending.result) :: rest) time tally w =
        settle backlog rest time'
          (tally.add (tallyOf [⟨job, events, finish, ending, fate⟩])) w' := by
  cases houtcome : outcomeOf ending.result with
  | none =>
    refine ⟨.stopped, time, w, fits_none houtcome, fun _ _ _ h => .stopped rfl h, ?_⟩
    rw [settle, houtcome, add_tallyOf_stopped tally rfl]
  | some outcome =>
    let attempt := Job.attemptFor outcome (backlog.now time w).1
    let reply := (backlog.record job.id attempt (backlog.now time w).2).from time
    have hfits : Fits ending (some attempt) := fits_attemptFor houtcome _
    have htimestamp : attempt.timestamp = (backlog.now time w).1 := timestamp_attemptFor ..
    cases hanswer : reply.answer with
    | ok status =>
      refine ⟨.recorded attempt, reply.time, reply.world, hfits,
        fun _ _ _ h => .recorded rfl htimestamp rfl hanswer h, ?_⟩
      rw [settle, houtcome, add_tallyOf_recorded tally rfl]
      dsimp only
      rw [hanswer]
    | error cause =>
      refine ⟨.refused attempt cause, reply.time, reply.world, hfits,
        fun _ _ _ h => .refused rfl htimestamp rfl hanswer h, ?_⟩
      rw [settle, houtcome, add_tallyOf_refused tally rfl]
      dsimp only
      rw [hanswer]

theorem tallyOf_cons (s : Settlement) (rest : List Settlement) :
    tallyOf (s :: rest) = (tallyOf [s]).add (tallyOf rest) := by
  simp [tallyOf, Tally.add, List.countP_cons, Nat.add_comm]

theorem Tally.add_assoc (a b c : Tally) : (a.add b).add c = a.add (b.add c) := by
  simp [Tally.add, Nat.add_assoc]

/-- Every run of a batch is settled once, in the order of the batch. -/
theorem exists_settlements (backlog : Backlog W) {start : Nat} {batch : List Job}
    {results : List (Except RunError Context)} {bound : Nat}
    (h : List.Forall₂ (fun job result => ∃ events finish,
      Concludes host cancel (fun report => .error (.aborted report)) start (Run.runJob plan job)
        events finish result ∧ finish ≤ bound) batch results)
    (time : Nat) (tally : Tally) (w : W) :
    ∃ settlements, settlements.map Settlement.job = batch ∧
      (∀ s ∈ settlements, s.Sound host cancel plan start ∧ s.finish ≤ bound) ∧
      Settles backlog time w settlements (settle backlog (batch.zip results) time tally w).time
        (settle backlog (batch.zip results) time tally w).world ∧
      (settle backlog (batch.zip results) time tally w).answer =
        tally.add (tallyOf settlements) ∧
      settlements.map (fun s => s.ending.result) = results := by
  induction h generalizing time tally w with
  | nil => exact ⟨[], rfl, by simp, .nil time w, rfl, rfl⟩
  | @cons job result batch results hhead _ ih =>
    obtain ⟨events, finish, hconcludes, hfinish⟩ := hhead
    obtain ⟨ending, hruns, rfl⟩ := hconcludes.runsTo
    obtain ⟨fate, time', w', hfits, hsettles, hsettle⟩ :=
      settle_cons backlog job events finish ending (batch.zip results) time tally w
    obtain ⟨settlements, hjobs, hsound, hrest, htally, hresults⟩ := ih time' _ w'
    refine ⟨⟨job, events, finish, ending, fate⟩ :: settlements, by simp [hjobs], ?_, ?_, ?_,
      by simp [hresults]⟩
    · intro s hs
      rcases List.mem_cons.mp hs with rfl | hs
      · exact ⟨⟨hruns, hfits⟩, hfinish⟩
      · exact hsound s hs
    · rw [List.zip_cons_cons, hsettle]
      exact hsettles _ _ _ hrest
    · rw [List.zip_cons_cons, hsettle, htally, tallyOf_cons _ settlements, Tally.add_assoc]

end

end Jobflow.Schedule
