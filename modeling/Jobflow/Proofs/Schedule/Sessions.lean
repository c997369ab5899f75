import Jobflow.Proofs.Run.Sessions
import Jobflow.Proofs.Schedule.Polling
import Mathlib.Algebra.BigOperators.Group.Finset.Basic
import Mathlib.Algebra.BigOperators.Group.Finset.Piecewise

/-!
The sessions of a batch. When a poll is over every session that its runs opened is closed,
however the runs were interleaved and however they ended.
-/

namespace Jobflow.Schedule

open Jobflow.Job (Job)
open Jobflow.Rehearsal (Scene Stage)
open Jobflow.Run
open Jobflow.Workflow (Context)

variable {W : Type}

/-! ### The log of a poll -/

/-- A poll found a batch, its runs were made as in the log, and they were settled by their
results. -/
structure PollsBy (host : Host W) (backlog : Backlog W) (plan : RunPlan) (limit : Nat)
    (cancel : Cancellation) (time : Nat) (w : W) (batch : List Job) (log : List (Entry W))
    (ended : Timed W (List (Except RunError Context))) : Prop where
  found : (backlog.pending limit w).answer = .ok batch
  runs : RunsBy host cancel (fun report => .error (.aborted report)) (batch.map (runJob plan))
    (time + (backlog.pending limit w).delay) (backlog.pending limit w).world log ended
  settles : pollOnce host backlog plan limit cancel time w =
    let settled := settle backlog (batch.zip ended.answer) ended.time .zero ended.world
    ⟨settled.time, ⟨.ok (settled.answer.report batch.length),
      settled.answer.counters batch.length⟩, settled.world⟩

/-- A poll that found its batch leaves a log. -/
theorem exists_pollsBy (host : Host W) {backlog : Backlog W} (plan : RunPlan) {limit : Nat}
    (cancel : Cancellation) (time : Nat) {w : W} {batch : List Job}
    (hpending : (backlog.pending limit w).answer = .ok batch) :
    ∃ log ended, PollsBy host backlog plan limit cancel time w batch log ended := by
  obtain ⟨log, hlog⟩ := exists_runsBy host cancel
    (fun report => (.error (.aborted report) : Except RunError Context)) (batch.map (runJob plan))
    (time + (backlog.pending limit w).delay) (backlog.pending limit w).world
  refine ⟨log, _, hpending, hlog, ?_⟩
  simp only [pollOnce, Delayed.from, hpending]

section
variable {host : Host W} {backlog : Backlog W} {plan : RunPlan} {limit : Nat}
  {cancel : Cancellation} {time : Nat} {w : W} {batch : List Job} {log : List (Entry W)}
  {ended : Timed W (List (Except RunError Context))}

/-- The part of the log that belongs to an offer is the course of its run. -/
theorem PollsBy.follows (h : PollsBy host backlog plan limit cancel time w batch log ended)
    {i : Nat} {job : Job} (hjob : batch[i]? = some job) :
    ∃ finish result, ended.answer[i]? = some result ∧
      Follows host cancel (fun report => .error (.aborted report)) i
        (time + (backlog.pending limit w).delay) (runJob plan job) (own i log) finish result :=
  h.runs.follows (by rw [List.getElem?_map, hjob, Option.map_some])

theorem PollsBy.place_lt (h : PollsBy host backlog plan limit cancel time w batch log ended) :
    ∀ entry ∈ log, entry.place < batch.length := by
  have hlt := h.runs.place_lt
  rwa [List.length_map] at hlt

/-! ### The account of sessions -/

/-- Entries are counted run by run. -/
theorem countP_eq_sum_own (p : Entry W → Bool) {log : List (Entry W)} {n : Nat}
    (hplaces : ∀ entry ∈ log, entry.place < n) :
    log.countP p = ∑ i ∈ Finset.range n, (own i log).countP p := by
  induction log with
  | nil => simp
  | cons entry rest ih =>
    obtain ⟨hentry, hrest⟩ := List.forall_mem_cons.mp hplaces
    have hone (i : Nat) : (own i (entry :: rest)).countP p =
        (own i rest).countP p + if i = entry.place then if p entry then 1 else 0 else 0 := by
      by_cases hplace : entry.place = i
      · subst hplace
        rw [own_cons_self, List.countP_cons, if_pos rfl]
      · rw [own_cons_of_ne hplace, if_neg (Ne.symm hplace), Nat.add_zero]
    rw [List.countP_cons, ih hrest, Finset.sum_congr rfl fun i _ => hone i, Finset.sum_add_distrib,
      Finset.sum_ite_eq', if_pos (Finset.mem_range.mpr hentry)]

/-- Every run of a poll keeps to the protocol of sessions. -/
theorem PollsBy.keepsToProtocol (h : PollsBy host backlog plan limit cancel time w batch log ended)
    {i : Nat} (hi : i < batch.length) : KeepsToProtocol (own i log) := by
  obtain ⟨finish, result, -, hfollows⟩ := h.follows (List.getElem?_eq_getElem hi)
  exact hfollows.keepsToProtocol

theorem PollsBy.countP_opens (h : PollsBy host backlog plan limit cancel time w batch log ended)
    (hreports : ∀ entry ∈ log, entry.report ≠ none → RunOp.IsBeforehand entry.event.op) :
    log.countP Entry.opens = log.countP Entry.closes := by
  rw [countP_eq_sum_own Entry.opens h.place_lt, countP_eq_sum_own Entry.closes h.place_lt]
  apply Finset.sum_congr rfl
  intro i hi
  apply (h.keepsToProtocol (Finset.mem_range.mp hi)).countP_opens
  intro entry hentry
  exact hreports entry (mem_own.mp hentry).1

end

/-- Every run of a workflow asks for exactly one session and closes the one that opens, after
all calls and after its cookies were exported. So do the runs of a poll, however they are
interleaved, and when the poll is over as many sessions were closed as were opened, unless the
surroundings of a run broke down while it had one. -/
theorem pollOnce_closes_every_session (host : Host W) (backlog : Backlog W) (plan : RunPlan)
    (limit : Nat) (cancel : Cancellation) (time : Nat) (w : W) (batch : List Job)
    (hpending : (backlog.pending limit w).answer = .ok batch) :
    (∀ keepsCookies command initial start found, OneSession
      ((eventsAlone host cancel (runWorkflow keepsCookies command initial) start found).map
        Event.exchange)) ∧
    ∃ log ended, PollsBy host backlog plan limit cancel time w batch log ended ∧
      (∀ i < batch.length, KeepsToProtocol (own i log) ∧
        ((∀ entry ∈ own i log, entry.report = none) →
          (∀ entry ∈ own i log, RunOp.IsOutside entry.event.op) ∨
            OneSession ((own i log).map Entry.exchange))) ∧
      ((∀ entry ∈ log, entry.report ≠ none → RunOp.IsBeforehand entry.event.op) →
        log.countP Entry.opens = log.countP Entry.closes) := by
  obtain ⟨log, ended, hpolls⟩ := exists_pollsBy host plan cancel time hpending
  refine ⟨fun keepsCookies command initial start found => ?_, log, ended, hpolls,
    fun i hi => ?_, hpolls.countP_opens⟩
  · exact oneSession_of_performs (unfolds_eventsAlone host cancel _ start found).performs
  · exact ⟨hpolls.keepsToProtocol hi, (hpolls.keepsToProtocol hi).outside_or_oneSession⟩

/-- What breaks down in the log broke down in the surroundings. -/
theorem PollsBy.isBeforehand {host : Host W} {backlog : Backlog W} {plan : RunPlan} {limit : Nat}
    {cancel : Cancellation} {time : Nat} {w : W} {batch : List Job} {log : List (Entry W)}
    {ended : Timed W (List (Except RunError Context))}
    (h : PollsBy host backlog plan limit cancel time w batch log ended)
    (hhost : ∀ op w, host.breakdown op w ≠ none → RunOp.IsBeforehand op) :
    ∀ entry ∈ log, entry.report ≠ none → RunOp.IsBeforehand entry.event.op := by
  intro entry hentry hreport
  obtain ⟨strands, hplays, -⟩ := h.runs
  obtain ⟨place, asked, op, found, rfl⟩ := hplays.exists_of entry hentry
  refine hhost op found fun hnone => hreport ?_
  simp only [Entry.of, brokenBy]
  split
  · rfl
  · exact hnone

/-- On a stage only lookups of workflows break down, so that no session is left open. -/
theorem PollsBy.countP_opens_stage {stage : Stage} {backlog : Backlog Scene} {plan : RunPlan}
    {limit : Nat} {cancel : Cancellation} {time : Nat} {scene : Scene} {batch : List Job}
    {log : List (Entry Scene)} {ended : Timed Scene (List (Except RunError Context))}
    (h : PollsBy stage.host backlog plan limit cancel time scene batch log ended) :
    log.countP Entry.opens = log.countP Entry.closes := by
  refine h.countP_opens (h.isBeforehand fun op _ hbroken => ?_)
  cases op with
  | workflow name => trivial
  | _ => exact absurd rfl hbroken

/-! ### A breakdown -/

/-- Surroundings that break down when the first session is about to open. -/
def startlingHost : Host Scene :=
  { exitingStage.host with
    breakdown := fun op scene =>
      match op with
      | .openSession _ =>
        if scene.sessions = [] then some "task 1 panicked with message \"no browser\"" else none
      | _ => none }

theorem startlingHost_isBeforehand (op : RunOp) (scene : Scene)
    (h : startlingHost.breakdown op scene ≠ none) : RunOp.IsBeforehand op := by
  cases op with
  | openSession cookies => trivial
  | _ => exact absurd rfl h

theorem pending_inOrder :
    (exitingStage.memoryBacklog.pending 2 (sceneWith [pendingOffer 1, pendingOffer 2])).answer =
      .ok [pendingOffer 1, pendingOffer 2] :=
  congrArg Except.ok (Job.selectPending_of_pairwise (by decide) (by decide))

/-- What the log of the poll of both offers says of breakdowns and sessions. -/
theorem playFor_inOrder :
    (playFor startlingHost none
      (fun report => (.error (.aborted report) : Except RunError Context)) 8
      (started ([pendingOffer 1, pendingOffer 2].map (runJob ⟨.standard, .unknown, false⟩)) 0) 2 0
      (sceneWith [pendingOffer 1, pendingOffer 2])).map (fun (log, _) =>
        (log.countP (·.report.isSome), log.countP Entry.opens, log.countP Entry.closes)) =
      some (1, 1, 1) := by
  decide +kernel

/-- One run of two breaks down before it has a session, and the other has one. -/
theorem pollOnce_closes_every_session_two :
    ∃ log ended, PollsBy startlingHost exitingStage.memoryBacklog ⟨.standard, .unknown, false⟩ 2
        none 0 (sceneWith [pendingOffer 1, pendingOffer 2]) [pendingOffer 1, pendingOffer 2] log
        ended ∧
      log.countP (·.report.isSome) = 1 ∧
      log.countP Entry.opens = 1 ∧ log.countP Entry.opens = log.countP Entry.closes := by
  obtain ⟨-, log, ended, hpolls, -, hcounts⟩ :=
    pollOnce_closes_every_session startlingHost exitingStage.memoryBacklog
      ⟨.standard, .unknown, false⟩ 2 none 0 (sceneWith [pendingOffer 1, pendingOffer 2])
      [pendingOffer 1, pendingOffer 2] pending_inOrder
  obtain ⟨⟨log', ended'⟩, hplay, hfacts⟩ := Option.map_eq_some_iff.mp playFor_inOrder
  obtain ⟨strands, hplays, -⟩ := hpolls.runs
  obtain ⟨rfl, -⟩ := hplays.unique (plays_of_playFor hplay)
  obtain ⟨hbroken, hopened, -⟩ : log.countP (·.report.isSome) = 1 ∧
      log.countP Entry.opens = 1 ∧ log.countP Entry.closes = 1 := by
    simpa only [Prod.mk.injEq] using hfacts
  refine ⟨log, ended, hpolls, hbroken, hopened, hcounts fun entry hentry hreport => ?_⟩
  exact hpolls.isBeforehand startlingHost_isBeforehand entry hentry hreport

end Jobflow.Schedule
