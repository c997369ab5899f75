import Jobflow.Job.Outcome
import Jobflow.Job.Store
import Jobflow.Run.Timeline

/-!
One poll of the backlog: the oldest pending offers are selected, their runs are
made side by side, and when all of them are over one attempt is recorded for
each. The failure of a run concerns its own offer only, and an offer whose run
was stopped from outside is left as it was.
-/

namespace Jobflow.Schedule

open Jobflow.Job (Attempt Job RunOutcome Status StoreError)
open Jobflow.Run (Cancellation Delayed Host RunError RunPlan Timed)
open Jobflow.Time (Instant)
open Jobflow.Workflow (Context)

/-- The backlog as polls use it, in a world with state `W`. -/
structure Backlog (W : Type) where
  pending : (limit : Nat) → W → Delayed W (Except StoreError (List Job))
  record : Uuid → Attempt → W → Delayed W (Except StoreError Status)
  /-- the calendar time at a time in milliseconds -/
  now : (time : Nat) → W → Instant × W

/-- What a poll reports. -/
structure Report where
  selected : Nat
  succeeded : Nat
  failed : Nat
  /-- runs that were stopped; their offers stay pending -/
  cancelled : Nat
  deriving DecidableEq, Repr

/-- What polls add to the counters of the process. -/
structure Counters where
  polls : Nat
  selected : Nat
  succeeded : Nat
  failed : Nat
  cancelled : Nat
  commitErrors : Nat
  deriving DecidableEq, Repr

namespace Counters

def zero : Counters := ⟨0, 0, 0, 0, 0, 0⟩

def add (a b : Counters) : Counters :=
  ⟨a.polls + b.polls, a.selected + b.selected, a.succeeded + b.succeeded, a.failed + b.failed,
    a.cancelled + b.cancelled, a.commitErrors + b.commitErrors⟩

end Counters

/-- What is recorded for a run; nothing for one that was stopped. -/
def outcomeOf : Except RunError Context → Option RunOutcome
  | .ok ctx => some (.finished ctx)
  | .error (.workflow .cancelled) => none
  | .error e => some (.failed e.message)

/-- The runs of a batch counted by how they ended, and the attempts that could
not be recorded. -/
structure Tally where
  succeeded : Nat
  failed : Nat
  cancelled : Nat
  commitErrors : Nat
  deriving DecidableEq, Repr

namespace Tally

def zero : Tally := ⟨0, 0, 0, 0⟩

def count (tally : Tally) : Status → Tally
  | .success => { tally with succeeded := tally.succeeded + 1 }
  | .failure => { tally with failed := tally.failed + 1 }

end Tally

/-- Records one attempt for every run of a batch that was not stopped, in the
order of the batch, into the offers as they are now. -/
def settle {W : Type} (backlog : Backlog W) :
    List (Job × Except RunError Context) → (time : Nat) → Tally → W → Timed W Tally
  | [], time, tally, w => ⟨time, tally, w⟩
  | (job, ended) :: rest, time, tally, w =>
    match outcomeOf ended with
    | none => settle backlog rest time { tally with cancelled := tally.cancelled + 1 } w
    | some outcome =>
      let (now, w) := backlog.now time w
      let attempt := Job.attemptFor outcome now
      let tally := tally.count attempt.status
      let reply := (backlog.record job.id attempt w).from time
      match reply.answer with
      | .ok _ => settle backlog rest reply.time tally reply.world
      | .error _ =>
        settle backlog rest reply.time { tally with commitErrors := tally.commitErrors + 1 }
          reply.world

/-- How a poll ended, and what it added to the counters. -/
structure Polled where
  result : Except StoreError Report
  counters : Counters

def Tally.counters (tally : Tally) (selected : Nat) : Counters :=
  ⟨1, selected, tally.succeeded, tally.failed, tally.cancelled, tally.commitErrors⟩

def Tally.report (tally : Tally) (selected : Nat) : Report :=
  ⟨selected, tally.succeeded, tally.failed, tally.cancelled⟩

/-- Polls once: at most `limit` offers. -/
def pollOnce {W : Type} (host : Host W) (backlog : Backlog W) (plan : RunPlan) (limit : Nat)
    (cancel : Cancellation) (time : Nat) (w : W) : Timed W Polled :=
  let found := (backlog.pending limit w).from time
  match found.answer with
  | .error e => ⟨found.time, ⟨.error e, .zero⟩, found.world⟩
  | .ok batch =>
    let ended := Run.runAll host cancel (fun report => .error (.aborted report))
      (batch.map (Run.runJob plan)) found.time found.world
    let settled := settle backlog (batch.zip ended.answer) ended.time .zero ended.world
    ⟨settled.time, ⟨.ok (settled.answer.report batch.length), settled.answer.counters batch.length⟩,
      settled.world⟩

end Jobflow.Schedule
