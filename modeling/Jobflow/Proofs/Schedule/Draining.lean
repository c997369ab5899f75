import Jobflow.Proofs.Run.Sources
import Jobflow.Proofs.Schedule.Shutdown

/-!
Polls of a store that nobody else writes, one after another and none of their runs stopped. Each
poll serves the oldest offers that are still pending: every one of them gets one attempt
and is disarmed by it, whatever came of its run. So no offer is served twice and none is
passed over, and as many polls as the pending offers fill batches leave nothing to do.
-/

namespace Jobflow.Schedule

open Jobflow.Job (Attempt Job Precedes Selects)
open Jobflow.Rehearsal (Scene)
open Jobflow.Run (Cancellation Host RunPlan Timed)

variable {W : Type}

/-! ### Offers that were served -/

/-- The offer with one attempt more, which disarms it. -/
def Attempted (job job' : Job) : Prop :=
  ∃ attempt : Attempt, job' = { job with
    attempts := job.attempts ++ [attempt]
    shouldApply := false
    isApplied := job.isApplied || attempt.status == .success }

theorem Attempted.not_isPending {job job' : Job} (h : Attempted job job') : ¬ job'.isPending := by
  obtain ⟨attempt, rfl⟩ := h
  simp [Job.isPending]

/-- An offer and what it is afterwards: attempted once if it was served, and otherwise as it
was. -/
structure AfterServing (served : List Job) (job job' : Job) : Prop where
  attempted : job ∈ served → Attempted job job'
  untouched : job ∉ served → job' = job

/-- The first `count` pending offers were served: each of them was attempted once, and the
other offers are as they were. -/
structure Serves (jobs : List Job) (count : Nat) (served jobs' : List Job) : Prop where
  selects : Selects jobs count served
  offers : List.Forall₂ (AfterServing served) jobs jobs'

theorem Serves.nothing (jobs : List Job) : Serves jobs 0 [] jobs where
  selects := {
    pending := by simp
    length := by simp
    ordered := .nil
    first := by simp }
  offers := List.forall₂_same.mpr fun job _ => ⟨nofun, fun _ => rfl⟩

theorem Serves.ids {jobs served jobs' : List Job} {count : Nat}
    (h : Serves jobs count served jobs') : jobs'.map Job.id = jobs.map Job.id := by
  obtain ⟨-, h⟩ := h
  induction h with
  | nil => rfl
  | @cons job job' rest rest' hjob _ ih =>
    have hid : job'.id = job.id := by
      by_cases hserved : job ∈ served
      · obtain ⟨_, rfl⟩ := hjob.attempted hserved
        rfl
      · rw [hjob.untouched hserved]
    rw [List.map_cons, List.map_cons, hid, ih]

/-- What is pending afterwards was pending before and was not served. -/
theorem Serves.mem_of_isPending {jobs served jobs' : List Job} {count : Nat}
    (h : Serves jobs count served jobs') {job : Job} (hjob : job ∈ jobs')
    (hpending : job.isPending) :
    job ∈ jobs ∧ job ∉ served := by
  obtain ⟨-, h⟩ := h
  induction h with
  | nil => cases hjob
  | @cons before after rest rest' hbefore _ ih =>
    rcases List.mem_cons.mp hjob with rfl | hrest
    · have hout : before ∉ served := fun hserved =>
        (hbefore.attempted hserved).not_isPending hpending
      rw [hbefore.untouched hout]
      exact ⟨List.mem_cons_self, hout⟩
    · exact ⟨List.mem_cons_of_mem _ (ih hrest).1, (ih hrest).2⟩

/-- What was not served is still there. -/
theorem Serves.mem_of_not_mem {jobs served jobs' : List Job} {count : Nat}
    (h : Serves jobs count served jobs') {job : Job} (hjob : job ∈ jobs) (hout : job ∉ served) :
    job ∈ jobs' := by
  obtain ⟨-, h⟩ := h
  induction h with
  | nil => cases hjob
  | @cons before after rest rest' hbefore _ ih =>
    rcases List.mem_cons.mp hjob with rfl | hrest
    · rw [hbefore.untouched hout]
      exact List.mem_cons_self
    · exact List.mem_cons_of_mem _ (ih hrest)

/-- Serving an offer takes it from the pending ones and changes nothing about the others. -/
private theorem countP_isPending {served jobs jobs' : List Job}
    (hserved : ∀ job ∈ served, job.isPending)
    (h : List.Forall₂ (AfterServing served) jobs jobs') :
    jobs.countP Job.isPending = jobs'.countP Job.isPending + jobs.countP (· ∈ served) := by
  induction h with
  | nil => rfl
  | @cons job job' rest rest' hjob _ ih =>
    by_cases hin : job ∈ served
    · have hbefore := hserved job hin
      have hafter := (hjob.attempted hin).not_isPending
      simp only [List.countP_cons, hbefore, hafter, hin, ih, decide_true, if_true]
      simp
      omega
    · rw [hjob.untouched hin]
      simp only [List.countP_cons, hin, ih, decide_false]
      simp
      omega

/-- Serving leaves the pending offers less as many as were served. -/
theorem Serves.length_pending {jobs served jobs' : List Job} {count : Nat}
    (h : Serves jobs count served jobs') (hids : (jobs.map Job.id).Nodup) :
    (jobs'.filter Job.isPending).length = (jobs.filter Job.isPending).length - count := by
  have hpending : ∀ job ∈ served, job.isPending := fun job hjob =>
    Job.isPending_iff.mpr (h.selects.pending job hjob).2
  have hserved : jobs.countP (· ∈ served) = served.length := by
    rw [List.countP_eq_length_filter]
    apply List.Perm.length_eq
    rw [List.perm_ext_iff_of_nodup (hids.of_map.filter _) (h.selects.nodup hids).of_map]
    intro job
    rw [List.mem_filter, decide_eq_true_iff]
    exact ⟨fun hjob => hjob.2, fun hjob => ⟨(h.selects.pending job hjob).1, hjob⟩⟩
  have hcount := countP_isPending hpending h.offers
  have hlength := h.selects.length
  rw [List.countP_eq_length_filter, List.countP_eq_length_filter, hserved] at hcount
  omega

/-- An offer of the first batch is not pending any more, so the second leaves it alone. -/
private theorem forall₂_afterServing_append {first second jobs jobs' jobs'' : List Job}
    (hsecond : ∀ job ∈ second, job.isPending ∧ job ∉ first)
    (h : List.Forall₂ (AfterServing first) jobs jobs')
    (h' : List.Forall₂ (AfterServing second) jobs' jobs'') :
    List.Forall₂ (AfterServing (first ++ second)) jobs jobs'' := by
  induction h generalizing jobs'' with
  | nil =>
    cases h'
    exact .nil
  | @cons job job' rest rest' hjob _ ih =>
    obtain _ | ⟨hjob', hrest'⟩ := h'
    refine .cons ?_ (ih hrest')
    by_cases hin : job ∈ first
    · have hattempted := hjob.attempted hin
      rw [hjob'.untouched fun hmem => hattempted.not_isPending (hsecond job' hmem).1]
      exact ⟨fun _ => hattempted, fun hout => absurd (List.mem_append_left _ hin) hout⟩
    · obtain rfl := hjob.untouched hin
      exact ⟨fun hmem => hjob'.attempted ((List.mem_append.mp hmem).resolve_left hin),
        fun hout => hjob'.untouched fun hmem => hout (List.mem_append_right _ hmem)⟩

/-- Serving the oldest of what is left after serving the oldest is serving them together. -/
theorem Serves.trans {jobs first jobs' second jobs'' : List Job} {count count' : Nat}
    (h : Serves jobs count first jobs') (h' : Serves jobs' count' second jobs'')
    (hids : (jobs.map Job.id).Nodup) : Serves jobs (count + count') (first ++ second) jobs'' := by
  have hpending : ∀ job ∈ second, job.isPending := fun job hjob =>
    Job.isPending_iff.mpr (h'.selects.pending job hjob).2
  have hleft : ∀ job ∈ second, job ∈ jobs ∧ job ∉ first := fun job hjob =>
    h.mem_of_isPending (h'.selects.pending job hjob).1 (hpending job hjob)
  refine ⟨⟨?_, ?_, ?_, ?_⟩, ?_⟩
  · intro job hjob
    rcases List.mem_append.mp hjob with hfirst | hsecond
    · exact h.selects.pending job hfirst
    · exact ⟨(hleft job hsecond).1, (h'.selects.pending job hsecond).2⟩
  · rw [List.length_append, h.selects.length, h'.selects.length, h.length_pending hids]
    omega
  · rw [List.pairwise_append]
    refine ⟨h.selects.ordered, h'.selects.ordered, ?_⟩
    intro earlier hearlier later hlater
    -- `later` was pending all along and was left over by the first batch, which takes the oldest
    obtain ⟨hmem, hout⟩ := hleft later hlater
    obtain ⟨-, hshould, happlied⟩ := h'.selects.pending later hlater
    exact h.selects.first later hmem hshould happlied hout earlier hearlier
  · intro job hjob hshould happlied hout chosen hchosen
    rw [List.mem_append, not_or] at hout
    rcases List.mem_append.mp hchosen with hfirst | hsecond
    · exact h.selects.first job hjob hshould happlied hout.1 chosen hfirst
    · exact h'.selects.first job (h.mem_of_not_mem hjob hout.1) hshould happlied hout.2 chosen
        hsecond
  · exact forall₂_afterServing_append (fun job hjob => ⟨hpending job hjob, (hleft job hjob).2⟩)
      h.offers h'.offers

/-! ### Polls -/

section

variable {host : Host W} {backlog : Backlog W} {holds : W → List Job → Prop} {plan : RunPlan}
  {cancel : Cancellation}

/-- `PollsInTurn host backlog holds plan limit w polls w'`: from the world `w` on these polls
are made, one after another. Nobody writes the store between two polls, no run of them is
stopped, and the store takes every attempt that it is given. -/
inductive PollsInTurn (host : Host W) (backlog : Backlog W) (holds : W → List Job → Prop)
    (plan : RunPlan) (limit : Nat) : W → List (Timed W Polled) → W → Prop
  | nil (w : W) : PollsInTurn host backlog holds plan limit w [] w
  | cons {w before w' : W} {cancel : Cancellation} {start : Nat} {polled : Timed W Polled}
      {rest : List (Timed W Polled)} :
      (∀ jobs, holds w jobs → holds before jobs) →
      pollOnce host backlog plan limit cancel start before = polled →
      polled.answer.counters.cancelled = 0 →
      polled.answer.counters.commitErrors = 0 →
      PollsInTurn host backlog holds plan limit polled.world rest w' →
      PollsInTurn host backlog holds plan limit w (polled :: rest) w'

/-- What the polls report that could read the store. -/
def reports (polls : List (Timed W Polled)) : List Report :=
  polls.filterMap fun polled => polled.answer.result.toOption

/-- A run that is over before the stop was not stopped. -/
theorem Settlement.Sound.ending_ne_stopped {start : Nat} {s : Settlement}
    (h : s.Sound host cancel plan start) (hdue : cancel.isDue s.finish = false) :
    s.ending ≠ .stopped := by
  intro hending
  have hruns := h.runs
  rw [hending] at hruns
  obtain ⟨stop, rfl, event, -, -, hasked, hfinish⟩ := hruns.stops
  exact Bool.eq_false_iff.mp hdue
    (Cancellation.isDue_iff.mpr ⟨stop, rfl, Nat.le_trans hasked hfinish⟩)

/-- A batch of which no run was stopped and whose attempts were all taken is served. -/
theorem SettlesBatch.serves {limit start : Nat} {found : W} {jobs : List Job}
    {settlements : List Settlement} {polled : Timed W Polled}
    (h : SettlesBatch host backlog holds plan limit cancel start found jobs settlements polled)
    (hids : (jobs.map Job.id).Nodup) (hcancelled : polled.answer.counters.cancelled = 0)
    (htaken : polled.answer.counters.commitErrors = 0) :
    Serves jobs limit (settlements.map Settlement.job) (jobs.map (afterAll settlements)) := by
  rw [h.counters, List.countP_eq_zero] at hcancelled htaken
  have hrecorded : ∀ s ∈ settlements, ∃ attempt, s.fate = .recorded attempt := by
    intro s hs
    have hstopped := hcancelled s hs
    have hrefused := htaken s hs
    cases hfate : s.fate with
    | stopped => simp [Settlement.stopped, Fate.attempt?, hfate] at hstopped
    | recorded attempt => exact ⟨attempt, rfl⟩
    | refused attempt cause => simp [Settlement.refused, hfate] at hrefused
  refine ⟨h.selects, (forall₂_becomes hids h.selects).imp ?_⟩
  intro job job' hbecomes
  constructor
  · intro hserved
    obtain ⟨s, hs, hjob⟩ := List.mem_map.mp hserved
    obtain ⟨attempt, hfate⟩ := hrecorded s hs
    cases hbecomes with
    | @attempted _ attempt _ _ _ => exact ⟨attempt, rfl⟩
    | untouched hnone => exact absurd hfate (hnone s hs hjob attempt)
  · intro hout
    cases hbecomes with
    | attempted hs hjob _ => exact absurd (List.mem_map.mpr ⟨_, hs, hjob⟩) hout
    | untouched => rfl

/-- A poll that could read the store serves its first pending offers; one that could not
leaves the store as it is. -/
theorem pollOnce_serves (hkeeps : backlog.Keeps host holds)
    (plan : RunPlan) (limit : Nat) (cancel : Cancellation) (start : Nat) {w : W} {jobs : List Job}
    (hids : (jobs.map Job.id).Nodup) (hw : holds w jobs)
    {polled : Timed W Polled} (hpolled : pollOnce host backlog plan limit cancel start w = polled)
    (hcancelled : polled.answer.counters.cancelled = 0)
    (htaken : polled.answer.counters.commitErrors = 0) :
    (∃ e, polled.answer.result = .error e ∧ holds polled.world jobs) ∨
      ∃ report served jobs', polled.answer.result = .ok report ∧
        report.selected = min limit (jobs.filter Job.isPending).length ∧
        holds polled.world jobs' ∧ Serves jobs limit served jobs' := by
  subst hpolled
  cases hpending : (backlog.pending limit w).answer with
  | error e =>
    refine .inl ⟨e, ?_, ?_⟩
    · simp [pollOnce, Run.Delayed.from, hpending]
    · simpa [pollOnce, Run.Delayed.from, hpending] using hkeeps.pending_world hw limit
  | ok batch =>
    obtain ⟨settlements, -, hholds, hbatch⟩ :=
      pollOnce_settles hkeeps plan limit cancel start hids hw hpending
    have hselected := hbatch.selects.length
    rw [List.length_map] at hselected
    exact .inr ⟨_, _, _, hbatch.report, hselected, hholds,
      hbatch.serves hids hcancelled htaken⟩

/-- A poll that is over before the stop stops none of its runs. -/
theorem cancelled_eq_zero (hkeeps : backlog.Keeps host holds) (hsources : host.NeverCancels)
    (plan : RunPlan) (limit : Nat) (cancel : Cancellation) (start : Nat) {w : W} {jobs : List Job}
    (hids : (jobs.map Job.id).Nodup) (hw : holds w jobs)
    (hdue : cancel.isDue (pollOnce host backlog plan limit cancel start w).time = false) :
    (pollOnce host backlog plan limit cancel start w).answer.counters.cancelled = 0 := by
  cases hpending : (backlog.pending limit w).answer with
  | error e => simp [pollOnce, Run.Delayed.from, hpending, Counters.zero]
  | ok batch =>
    obtain ⟨settlements, -, -, hbatch⟩ :=
      pollOnce_settles hkeeps plan limit cancel start hids hw hpending
    rw [hbatch.counters, List.countP_eq_zero]
    intro s hs
    obtain ⟨hsound, hfinish⟩ := hbatch.sound s hs
    have hbefore : cancel.isDue s.finish = false :=
      Bool.eq_false_iff.mpr fun hfrom =>
        Bool.eq_false_iff.mp hdue (Cancellation.isDue_mono hfinish hfrom)
    have hending : s.fate ≠ .stopped :=
      hsound.fate_ne_stopped hsources (hsound.ending_ne_stopped hbefore)
    cases hfate : s.fate with
    | stopped => exact absurd hfate hending
    | _ => simp [Settlement.stopped, Fate.attempt?, hfate]

/-- A store that takes every attempt for its offers leaves no error to count. -/
theorem commitErrors_eq_zero (hkeeps : backlog.Keeps host holds)
    (haccepts : backlog.Accepts holds) (plan : RunPlan) (limit : Nat) (cancel : Cancellation)
    (start : Nat) {w : W}
    {jobs : List Job} (hids : (jobs.map Job.id).Nodup) (hw : holds w jobs) :
    (pollOnce host backlog plan limit cancel start w).answer.counters.commitErrors = 0 := by
  cases hpending : (backlog.pending limit w).answer with
  | error e => simp [pollOnce, Run.Delayed.from, hpending, Counters.zero]
  | ok batch =>
    obtain ⟨settlements, -, -, hbatch⟩ :=
      pollOnce_settles hkeeps plan limit cancel start hids hw hpending
    obtain ⟨hholds, hsettles⟩ := hbatch.settles
    have hjobs : ∀ s ∈ settlements, s.job.id ∈ jobs.map Job.id := fun s hs =>
      List.mem_map_of_mem (hbatch.selects.pending s.job (List.mem_map_of_mem hs)).1
    have haccepted := hsettles.not_refused hkeeps haccepts hids hholds hjobs
    rw [hbatch.counters, List.countP_eq_zero]
    intro s hs
    cases hfate : s.fate with
    | refused attempt cause => exact absurd hfate (haccepted s hs attempt cause)
    | _ => simp [Settlement.refused, hfate]

/-- Polls in turn serve the oldest pending offers, as many as fit into all of their batches. -/
theorem PollsInTurn.serves (hkeeps : backlog.Keeps host holds) {limit : Nat} {w w' : W}
    {polls : List (Timed W Polled)}
    (h : PollsInTurn host backlog holds plan limit w polls w') {jobs : List Job}
    (hids : (jobs.map Job.id).Nodup) (hw : holds w jobs) :
    ∃ served jobs', holds w' jobs' ∧ Serves jobs ((reports polls).length * limit) served jobs' ∧
      ∀ i report, (reports polls)[i]? = some report →
        report.selected = min limit ((jobs.filter Job.isPending).length - i * limit) := by
  induction h generalizing jobs with
  | nil w =>
    refine ⟨[], jobs, hw, ?_, by simp [reports]⟩
    simpa [reports] using Serves.nothing jobs
  | @cons w before w' cancel start polled rest hquiet hpolled hcancelled htaken _ ih =>
    obtain ⟨e, herror, hholds⟩ | ⟨report, first, jobs', hok, hselected, hholds, hfirst⟩ :=
      pollOnce_serves hkeeps plan limit cancel start hids (hquiet jobs hw) hpolled hcancelled htaken
    · -- a poll that could not read the store neither counts nor changes anything
      have hreports : reports (polled :: rest) = reports rest := by
        simp [reports, herror, Except.toOption]
      rw [hreports]
      exact ih hids hholds
    · have hreports : reports (polled :: rest) = report :: reports rest := by
        simp [reports, hok, Except.toOption]
      obtain ⟨second, jobs'', hholds', hsecond, hlater⟩ := ih (by rwa [hfirst.ids]) hholds
      rw [hreports]
      refine ⟨first ++ second, jobs'', hholds', ?_, ?_⟩
      · rw [List.length_cons, Nat.succ_mul, Nat.add_comm]
        exact hfirst.trans hsecond hids
      · intro i later hi
        cases i with
        | zero =>
          obtain rfl := Option.some.inj hi
          simpa using hselected
        | succ i =>
          rw [hlater i later hi, hfirst.length_pending hids, Nat.succ_mul]
          congr 1
          omega

/-- As many polls as the pending offers fill batches serve all of them. -/
theorem Serves.none_pending {jobs served jobs' : List Job} {count : Nat}
    (h : Serves jobs count served jobs') (hids : (jobs.map Job.id).Nodup)
    (hcount : (jobs.filter Job.isPending).length ≤ count) : jobs'.filter Job.isPending = [] := by
  have hlength := h.length_pending hids
  rw [← List.length_eq_zero_iff]
  omega

/-- The oldest offers are served first, each of them once: polls in turn of a store that
nobody else writes serve the first pending offers, as many as fit into their batches, and
each takes up the next of them. Once the polls are as many as the batches that the pending
offers fill, nothing is pending and every further poll selects nothing. -/
theorem polls_drain_backlog (hkeeps : backlog.Keeps host holds)
    (plan : RunPlan) (limit : Nat) (hlimit : 0 < limit) (w w' : W) (jobs : List Job)
    (hids : (jobs.map Job.id).Nodup) (hw : holds w jobs) (polls : List (Timed W Polled))
    (hpolls : PollsInTurn host backlog holds plan limit w polls w') :
    let pending := (jobs.filter Job.isPending).length
    let batches := (pending + limit - 1) / limit
    ∃ served jobs', holds w' jobs' ∧ Serves jobs ((reports polls).length * limit) served jobs' ∧
      (∀ i report, (reports polls)[i]? = some report →
        report.selected = min limit (pending - i * limit) ∧
        (batches ≤ i → report.selected = 0)) ∧
      (batches ≤ (reports polls).length → jobs'.filter Job.isPending = []) := by
  intro pending batches
  have hfull : ∀ count, batches ≤ count → pending ≤ count * limit := by
    intro count hcount
    have hlt : pending + limit - 1 < limit * (batches + 1) :=
      Nat.lt_mul_div_succ (pending + limit - 1) hlimit
    have hle : batches * limit ≤ count * limit := Nat.mul_le_mul_right limit hcount
    rw [Nat.mul_add, Nat.mul_comm limit batches] at hlt
    omega
  obtain ⟨served, jobs', hholds, hserves, hselected⟩ := hpolls.serves hkeeps hids hw
  refine ⟨served, jobs', hholds, hserves, ?_, ?_⟩
  · intro i report hi
    have hreport := hselected i report hi
    refine ⟨hreport, ?_⟩
    intro hcount
    have hle := hfull i hcount
    rw [hreport]
    omega
  · exact fun hcount => hserves.none_pending hids (hfull _ hcount)

end

/-- A poll that takes up one offer at a time and is not to be stopped. -/
def pollOne (start : Nat) (scene : Scene) : Timed Scene Polled :=
  pollOnce exitingStage.host exitingStage.memoryBacklog
    ⟨.standard, .unknown, false⟩ 1 none start scene

/-- Two polls of a store of two pending offers. -/
theorem pollsInTurn_two :
    PollsInTurn exitingStage.host exitingStage.memoryBacklog (Holds [])
      ⟨.standard, .unknown, false⟩ 1 twoPending
      [pollOne 0 twoPending, pollOne 60000 (pollOne 0 twoPending).world]
      (pollOne 60000 (pollOne 0 twoPending).world).world := by
  have hkeeps := memoryBacklog_keeps exitingStage []
  have haccepts : exitingStage.memoryBacklog.Accepts (Holds []) :=
    memoryBacklog_accepts exitingStage List.not_mem_nil
  have hids : ([pendingOffer 2, pendingOffer 1].map Job.id).Nodup := by decide
  have hstart : Holds [] twoPending [pendingOffer 2, pendingOffer 1] := ⟨rfl, rfl, rfl⟩
  have hcancelled : ∀ {jobs scene} start, (jobs.map Job.id).Nodup → Holds [] scene jobs →
      (pollOne start scene).answer.counters.cancelled = 0 := fun start hids hholds =>
    cancelled_eq_zero hkeeps (Run.host_neverCancels trivial trivial) _ 1 none start hids hholds rfl
  have htaken : ∀ {jobs scene} start, (jobs.map Job.id).Nodup → Holds [] scene jobs →
      (pollOne start scene).answer.counters.commitErrors = 0 := fun start hids hholds =>
    commitErrors_eq_zero hkeeps haccepts _ 1 none start hids hholds
  have hnext : ∃ jobs, (jobs.map Job.id).Nodup ∧ Holds [] (pollOne 0 twoPending).world jobs := by
    obtain ⟨_, -, hholds⟩ | ⟨_, _, jobs, -, -, hholds, hserves⟩ :=
      pollOnce_serves hkeeps ⟨.standard, .unknown, false⟩ 1 none 0 hids hstart rfl
        (hcancelled 0 hids hstart) (htaken 0 hids hstart)
    · exact ⟨_, hids, hholds⟩
    · exact ⟨jobs, by rwa [hserves.ids], hholds⟩
  obtain ⟨jobs, hids', hholds⟩ := hnext
  exact .cons (fun _ h => h) rfl (hcancelled 0 hids hstart) (htaken 0 hids hstart)
    (.cons (fun _ h => h) rfl (hcancelled 60000 hids' hholds) (htaken 60000 hids' hholds) (.nil _))

theorem polls_drain_backlog_two :
    ∃ served jobs',
      Holds [] (pollOne 60000 (pollOne 0 twoPending).world).world jobs' ∧
      Serves [pendingOffer 2, pendingOffer 1]
        ((reports [pollOne 0 twoPending, pollOne 60000 (pollOne 0 twoPending).world]).length * 1)
        served jobs' ∧
      (∀ i report,
        (reports [pollOne 0 twoPending, pollOne 60000 (pollOne 0 twoPending).world])[i]? =
          some report →
        report.selected = min 1 (2 - i * 1) ∧ (2 ≤ i → report.selected = 0)) ∧
      (2 ≤ (reports [pollOne 0 twoPending, pollOne 60000 (pollOne 0 twoPending).world]).length →
        jobs'.filter Job.isPending = []) :=
  polls_drain_backlog (memoryBacklog_keeps exitingStage [])
    ⟨.standard, .unknown, false⟩ 1 (by decide) twoPending _ [pendingOffer 2, pendingOffer 1]
    (by decide) ⟨rfl, rfl, rfl⟩ _ pollsInTurn_two

end Jobflow.Schedule
