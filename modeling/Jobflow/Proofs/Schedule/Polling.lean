import Jobflow.Proofs.Job.Selection
import Jobflow.Proofs.Run.SideBySide
import Jobflow.Proofs.Schedule.JobFile
import Jobflow.Proofs.Schedule.Settlement

/-!
One poll of a store that nobody else writes. The first pending offers are selected, every
one of them is run and settled, and the store holds the same offers afterwards: those
with a recorded attempt one attempt longer and disarmed, all others as they were.
-/

namespace Jobflow.Schedule

open Jobflow.Job (Attempt Job Selects StoreError)
open Jobflow.Rehearsal (Scene Stage)
open Jobflow.Run (Cancellation Host RunError RunPlan Timed)
open Jobflow.Workflow (Context)

variable {W : Type}

/-- What a batch makes of an offer. -/
inductive Becomes (settlements : List Settlement) (job : Job) : Job → Prop
  | attempted {s : Settlement} {attempt : Attempt} : s ∈ settlements → s.job = job →
      s.fate = .recorded attempt →
      Becomes settlements job { job with
        attempts := job.attempts ++ [attempt]
        shouldApply := false
        isApplied := job.isApplied || attempt.status == .success }
  | untouched : (∀ s ∈ settlements, s.job = job → ∀ attempt, s.fate ≠ .recorded attempt) →
      Becomes settlements job job

section

variable {host : Host W} {backlog : Backlog W} {holds : W → List Job → Prop} {plan : RunPlan}
  {cancel : Cancellation}

/-- An offer after all settlements of a batch. -/
def afterAll (settlements : List Settlement) (job : Job) : Job :=
  settlements.foldl (fun job s => s.change job) job

@[simp] theorem Settlement.change_id (s : Settlement) (job : Job) :
    (s.change job).id = job.id := by
  unfold Settlement.change
  split
  · split <;> rfl
  · rfl

/-- Only an attempt that the store took makes something of an offer. -/
theorem Settlement.change_eq_id {s : Settlement} (h : ∀ attempt, s.fate ≠ .recorded attempt) :
    s.change = id := by
  funext job
  unfold Settlement.change
  split
  · next attempt hfate => exact absurd hfate (h attempt)
  · rfl

@[simp] theorem afterAll_nil : afterAll [] = id := rfl

@[simp] theorem afterAll_cons (s : Settlement) (rest : List Settlement) :
    afterAll (s :: rest) = afterAll rest ∘ s.change := rfl

theorem afterAll_of_ne {settlements : List Settlement} {job : Job}
    (h : ∀ s ∈ settlements, s.job.id ≠ job.id) : afterAll settlements job = job := by
  induction settlements with
  | nil => rfl
  | cons s rest ih =>
    have hhead : s.change job = job := by
      unfold Settlement.change
      split
      · exact if_neg fun heq => h s (by simp) heq.symm
      · rfl
    rw [afterAll_cons, Function.comp_apply, hhead]
    exact ih fun t ht => h t (by simp [ht])

theorem afterAll_append (first second : List Settlement) (job : Job) :
    afterAll (first ++ second) job = afterAll second (afterAll first job) :=
  List.foldl_append

/-- Of settlements for different offers only its own one changes an offer. -/
theorem afterAll_of_mem {settlements : List Settlement} {s : Settlement} {job : Job}
    (hids : (settlements.map fun s => s.job.id).Nodup) (hs : s ∈ settlements)
    (hid : s.job.id = job.id) : afterAll settlements job = s.change job := by
  obtain ⟨first, second, rfl⟩ := List.append_of_mem hs
  rw [List.map_append, List.map_cons, List.nodup_append, List.nodup_cons] at hids
  obtain ⟨-, ⟨hsecond, -⟩, hfirst⟩ := hids
  have hfirst' : ∀ t ∈ first, t.job.id ≠ job.id := by
    intro t ht
    rw [← hid]
    exact hfirst _ (List.mem_map_of_mem ht) _ List.mem_cons_self
  have hsecond' : ∀ t ∈ second, t.job.id ≠ (s.change job).id := by
    intro t ht heq
    rw [Settlement.change_id, ← hid] at heq
    exact hsecond (List.mem_map.mpr ⟨t, ht, heq⟩)
  rw [afterAll_append, afterAll_of_ne hfirst', afterAll_cons, Function.comp_apply,
    afterAll_of_ne hsecond']

/-- An offer that was settled once becomes what its own settlement makes of it. -/
theorem becomes_afterAll {settlements : List Settlement} {job : Job}
    (hids : (settlements.map fun s => s.job.id).Nodup)
    (hsame : ∀ s ∈ settlements, s.job.id = job.id → s.job = job) :
    Becomes settlements job (afterAll settlements job) := by
  -- a settlement of the offer changes it only if the store took the attempt
  by_cases hany : ∃ s ∈ settlements, ∃ attempt, s.job.id = job.id ∧ s.fate = .recorded attempt
  · obtain ⟨s, hs, attempt, hid, hfate⟩ := hany
    rw [afterAll_of_mem hids hs hid, Settlement.change, hfate]
    dsimp only
    rw [if_pos hid.symm]
    exact .attempted hs (hsame s hs hid) hfate
  · have hnone : ∀ s ∈ settlements, s.change job = job := by
      intro s hs
      unfold Settlement.change
      split
      · next attempt hfate =>
        exact if_neg fun hid => hany ⟨s, hs, attempt, hid.symm, hfate⟩
      · rfl
    have hafter : afterAll settlements job = job := by
      by_cases hmem : ∃ s ∈ settlements, s.job.id = job.id
      · obtain ⟨s, hs, hid⟩ := hmem
        rw [afterAll_of_mem hids hs hid, hnone s hs]
      · exact afterAll_of_ne fun s hs hid => hmem ⟨s, hs, hid⟩
    rw [hafter]
    apply Becomes.untouched
    intro s hs hjob attempt hfate
    exact hany ⟨s, hs, attempt, by rw [hjob], hfate⟩

/-- The store after one attempt that it took. -/
theorem Backlog.Keeps.recorded (hkeeps : backlog.Keeps host holds) {time : Nat} {w : W}
    {jobs : List Job} (hids : (jobs.map Job.id).Nodup) (hw : holds w jobs) {s : Settlement}
    {attempt : Attempt} {status : Job.Status} (hfate : s.fate = .recorded attempt)
    (hdate : attempt.timestamp = (backlog.now time w).1)
    (hanswer : (backlog.record s.job.id attempt (backlog.now time w).2).answer = .ok status) :
    holds (backlog.record s.job.id attempt (backlog.now time w).2).world (jobs.map s.change) := by
  obtain ⟨jobs', hrecord, hw'⟩ := hkeeps.record hw time _ _ _ hdate hanswer
  have hjobs' : jobs' = jobs.map s.change := by
    rw [Job.record_eq_ok hids hrecord]
    apply List.map_congr_left
    intro job _
    rw [Settlement.change, hfate]
  rwa [← hjobs']

/-- The store after a batch. -/
theorem Settles.keeps (hkeeps : backlog.Keeps host holds) {time finish : Nat} {w w' : W}
    {settlements : List Settlement} (h : Settles backlog time w settlements finish w')
    {jobs : List Job} (hids : (jobs.map Job.id).Nodup) (hw : holds w jobs) :
    holds w' (jobs.map (afterAll settlements)) := by
  induction h generalizing jobs with
  | nil => rwa [afterAll_nil, List.map_id]
  | @stopped time finish w w' s rest hfate _ ih =>
    have hchange : s.change = id := Settlement.change_eq_id (by simp [hfate])
    rw [afterAll_cons, hchange, Function.comp_id]
    exact ih hids hw
  | @recorded time finish w w' s rest attempt status reply hfate hdate hreply hanswer _ ih =>
    subst hreply
    have hrest := ih (by rwa [Job.map_id_map s.change_id])
      (hkeeps.recorded hids hw hfate hdate hanswer)
    rwa [List.map_map] at hrest
  | @refused time finish w w' s rest attempt cause reply hfate _ hreply hanswer _ ih =>
    subst hreply
    have hchange : s.change = id := Settlement.change_eq_id (by simp [hfate])
    rw [afterAll_cons, hchange, Function.comp_id]
    exact ih hids (hkeeps.refuse (hkeeps.now hw time) _ _ _ hanswer)

theorem Settles.le_finish {time finish : Nat} {w w' : W} {settlements : List Settlement}
    (h : Settles backlog time w settlements finish w') : time ≤ finish := by
  induction h with
  | nil => exact Nat.le_refl _
  | stopped _ _ ih => exact ih
  | recorded _ _ hreply _ _ ih =>
    subst hreply
    exact Nat.le_trans (Nat.le_add_right _ _) ih
  | refused _ _ hreply _ _ ih =>
    subst hreply
    exact Nat.le_trans (Nat.le_add_right _ _) ih

/-! ### Polls -/

/-- Every run counts as succeeded, as failed or as stopped. -/
theorem length_eq_counts (settlements : List Settlement) :
    settlements.length = settlements.countP Settlement.succeeded +
      settlements.countP Settlement.failed + settlements.countP Settlement.stopped := by
  induction settlements with
  | nil => rfl
  | cons s rest ih =>
    have hone : (if s.succeeded then 1 else 0) + (if s.failed then 1 else 0) +
        (if s.stopped then 1 else 0) = 1 := by
      unfold Settlement.succeeded Settlement.failed Settlement.stopped
      cases s.fate.attempt? with
      | none => rfl
      | some attempt => cases hstatus : attempt.status <;> simp [hstatus]
    rw [List.length_cons, List.countP_cons, List.countP_cons, List.countP_cons]
    omega

/-- How the runs of a poll were settled: each by its own result, one after another. -/
structure SettledBy (host : Host W) (backlog : Backlog W) (plan : RunPlan) (limit : Nat)
    (cancel : Cancellation) (time : Nat) (w : W) (batch : List Job)
    (ended : Timed W (List (Except RunError Context))) (settlements : List Settlement) : Prop where
  jobs : settlements.map Settlement.job = batch
  results : settlements.map (fun s => s.ending.result) = ended.answer
  sound : ∀ s ∈ settlements, s.Sound host cancel plan (time + (backlog.pending limit w).delay)
  settles : Settles backlog ended.time ended.world settlements
    (pollOnce host backlog plan limit cancel time w).time
    (pollOnce host backlog plan limit cancel time w).world

/-- What a poll that found its batch in the world `found` comes to: which offers are taken up, how
each run is settled by its result, and what is reported and counted. A run that reports an error
counts as failed, unless the error says that the run was stopped. -/
structure SettlesBatch (host : Host W) (backlog : Backlog W) (holds : W → List Job → Prop)
    (plan : RunPlan) (limit : Nat) (cancel : Cancellation) (start : Nat) (found : W)
    (jobs : List Job) (settlements : List Settlement) (polled : Timed W Polled) : Prop where
  selects : Selects jobs limit (settlements.map Settlement.job)
  sound : ∀ s ∈ settlements, s.Sound host cancel plan start ∧ s.finish ≤ polled.time
  results : settlements.map (fun s => s.ending.result) =
    (runBatch host plan cancel (settlements.map Settlement.job) start found).answer
  settles :
    let ended := runBatch host plan cancel (settlements.map Settlement.job) start found
    holds ended.world jobs ∧
      Settles backlog ended.time ended.world settlements polled.time polled.world
  failures : ∀ s ∈ settlements, ∀ cause, s.ending.result = .error cause →
    cause ≠ .workflow .cancelled → s.failed
  report : polled.answer.result = .ok
    { selected := settlements.length
      succeeded := settlements.countP Settlement.succeeded
      failed := settlements.countP Settlement.failed
      cancelled := settlements.countP Settlement.stopped }
  total : settlements.length = settlements.countP Settlement.succeeded +
    settlements.countP Settlement.failed + settlements.countP Settlement.stopped
  counters : polled.answer.counters =
    { polls := 1
      selected := settlements.length
      succeeded := settlements.countP Settlement.succeeded
      failed := settlements.countP Settlement.failed
      cancelled := settlements.countP Settlement.stopped
      commitErrors := settlements.countP Settlement.refused }

theorem forall₂_becomes {settlements : List Settlement} {jobs : List Job} {limit : Nat}
    (hids : (jobs.map Job.id).Nodup)
    (hselects : Selects jobs limit (settlements.map Settlement.job)) :
    List.Forall₂ (Becomes settlements) jobs (jobs.map (afterAll settlements)) := by
  rw [List.forall₂_map_right_iff, List.forall₂_same]
  intro job hjob
  apply becomes_afterAll
  · have hnodup := hselects.nodup hids
    rwa [List.map_map] at hnodup
  · intro s hs hid
    have hs' := (hselects.pending s.job (List.mem_map_of_mem hs)).1
    exact List.inj_on_of_nodup_map hids hs' hjob hid

theorem Settlement.Sound.failed {start : Nat} {s : Settlement}
    (h : s.Sound host cancel plan start) {cause : Run.RunError}
    (hresult : s.ending.result = .error cause) (hcause : cause ≠ .workflow .cancelled) :
    s.failed := by
  have hattempt {attempt : Attempt} (hfate : s.fate.attempt? = some attempt)
      (hstatus : attempt.status = .failure) : s.failed := by
    simp [Settlement.failed, hfate, hstatus]
  have hfits := h.fits
  generalize s.ending = ending at hresult hfits
  generalize hfate : s.fate.attempt? = given at hfits
  cases hfits with
  | stopped hstopped => exact absurd (Except.error.inj (hresult.symm.trans hstopped)) hcause
  | failed _ hstatus _ => exact hattempt hfate hstatus
  | brokenOff _ _ hstatus _ => exact hattempt hfate hstatus
  | finished hok _ _ =>
    simp only [Run.Ending.result, Run.verdict, hok] at hresult
    cases hresult

/-- A poll that found its batch makes a run for each offer of it and settles the runs. -/
theorem settles_of_pollOnce (host : Host W) (backlog : Backlog W) (plan : RunPlan) (limit : Nat)
    (cancel : Cancellation) (time : Nat) {w : W} {batch : List Job}
    (hpending : (backlog.pending limit w).answer = .ok batch) :
    let start := time + (backlog.pending limit w).delay
    let ended := runBatch host plan cancel batch start (backlog.pending limit w).world
    let polled := pollOnce host backlog plan limit cancel time w
    ∃ settlements, SettledBy host backlog plan limit cancel time w batch ended settlements ∧
      (∀ s ∈ settlements, s.finish ≤ ended.time) ∧
      polled.answer = ⟨.ok ((tallyOf settlements).report settlements.length),
        (tallyOf settlements).counters settlements.length⟩ := by
  intro start ended polled
  let settled := settle backlog (batch.zip ended.answer) ended.time .zero ended.world
  have hpoll : polled = ⟨settled.time, ⟨.ok (settled.answer.report batch.length),
      settled.answer.counters batch.length⟩, settled.world⟩ := by
    simp only [polled, pollOnce, Run.Delayed.from, hpending]
    rfl
  obtain ⟨-, hconcluded⟩ := Run.concludes_runAll host cancel
    (fun report => .error (.aborted report)) (batch.map (Run.runJob plan)) start
    (backlog.pending limit w).world
  rw [List.forall₂_map_left_iff] at hconcluded
  obtain ⟨settlements, hjobs, hsound, hsettles, hcounts, hresults⟩ :=
    exists_settlements backlog hconcluded ended.time .zero ended.world
  have hlength : batch.length = settlements.length := by rw [← hjobs, List.length_map]
  have htally : settled.answer = tallyOf settlements := by
    refine hcounts.trans ?_
    simp [Tally.add, Tally.zero]
  have hpolled : Settles backlog ended.time ended.world settlements polled.time polled.world := by
    rw [hpoll]
    exact hsettles
  refine ⟨settlements, ⟨hjobs, hresults, fun s hs => (hsound s hs).1, hpolled⟩,
    fun s hs => (hsound s hs).2, ?_⟩
  rw [hpoll, htally, hlength]

/-- A poll of one offer settles its run as it goes when it is alone. -/
theorem pollOnce_singleton (hwhole : ∀ op w, host.breakdown op w = none) {limit : Nat} {time : Nat}
    {w : W} {job : Job} (hpending : (backlog.pending limit w).answer = .ok [job]) :
    let found := (backlog.pending limit w).from time
    let alone := Run.runAlone host cancel (Run.runJob plan job) found.time
      (host.pass found.time found.world)
    ∃ w', host.pass alone.time w' = alone.world ∧
      let settled := settle backlog [(job, alone.answer)] alone.time .zero w'
      pollOnce host backlog plan limit cancel time w =
        ⟨settled.time, ⟨.ok (settled.answer.report 1), settled.answer.counters 1⟩,
          settled.world⟩ := by
  intro found alone
  let aborted : String → Except Run.RunError Workflow.Context := fun report =>
    .error (.aborted report)
  obtain ⟨w', hall, hpass⟩ :=
    Run.runAll_singleton hwhole cancel aborted (Run.runJob plan job) found.time found.world
  refine ⟨w', hpass, ?_⟩
  have hanswer : found.answer = .ok [job] := hpending
  simp only [pollOnce, found, aborted] at hall hanswer ⊢
  rw [hanswer]
  dsimp only
  rw [List.map_singleton, hall]
  rfl

theorem settle_singleton (backlog : Backlog W) (job : Job)
    {result : Except Run.RunError Workflow.Context}
    {outcome : Job.RunOutcome} (h : outcomeOf result = some outcome) (time : Nat) (w : W) :
    let reply := backlog.record job.id (Job.attemptFor outcome (backlog.now time w).1)
      (backlog.now time w).2
    let settled := settle backlog [(job, result)] time .zero w
    settled.world = reply.world ∧
      ∀ status, reply.answer = .ok status → settled.answer.commitErrors = 0 := by
  intro reply settled
  have hreply : (reply.from time).answer = reply.answer := rfl
  simp only [settled, settle, h]
  split
  · refine ⟨rfl, fun _ _ => ?_⟩
    cases (Job.attemptFor outcome (backlog.now time w).1).status <;> rfl
  · next hrefused =>
    refine ⟨rfl, fun status hstatus => ?_⟩
    cases (hreply.symm.trans hrefused).symm.trans hstatus

/-- Nothing breaks down on a stage where no workflow does. -/
theorem breakdown_eq_none {stage : Stage} (hcrashing : stage.crashing = []) (op : Run.RunOp)
    (scene : Scene) : stage.host.breakdown op scene = none := by
  cases op <;> simp [Stage.host, Stage.breakdown, hcrashing]

/-- On a stage the attempt that is recorded is dated by the calendar at the end of the run. -/
theorem pollOnce_singleton_on_stage {stage : Stage} {backlog : Backlog Scene}
    (hcrashing : stage.crashing = [])
    (hnow : ∀ time scene, backlog.now time scene = (scene.pass time).calendar stage)
    (plan : RunPlan) {limit : Nat} (cancel : Cancellation) (time : Nat) {scene : Scene} {job : Job}
    (outcome : Job.RunOutcome) (hpending : (backlog.pending limit scene).answer = .ok [job]) :
    let found := (backlog.pending limit scene).from time
    let alone := Run.runAlone stage.host cancel (Run.runJob plan job) found.time
      (found.world.pass found.time)
    let dated := alone.world.calendar stage
    let reply := backlog.record job.id (Job.attemptFor outcome dated.1) dated.2
    let polled := pollOnce stage.host backlog plan limit cancel time scene
    outcomeOf alone.answer = some outcome →
      polled.world = reply.world ∧
        ∀ status, reply.answer = .ok status → polled.answer.counters.commitErrors = 0 := by
  intro found alone dated reply polled houtcome
  obtain ⟨w', hpass, hpolled⟩ : ∃ w', stage.host.pass alone.time w' = alone.world ∧
      let settled := settle backlog [(job, alone.answer)] alone.time .zero w'
      polled = ⟨settled.time, ⟨.ok (settled.answer.report 1), settled.answer.counters 1⟩,
        settled.world⟩ :=
    pollOnce_singleton (breakdown_eq_none hcrashing) hpending
  have hdated : backlog.now alone.time w' = dated :=
    (hnow alone.time w').trans (congrArg (Scene.calendar stage) hpass)
  have hsettled := settle_singleton backlog job houtcome alone.time w'
  rw [hdated] at hsettled
  rw [hpolled]
  exact hsettled

theorem pollOnce_settles (hkeeps : backlog.Keeps host holds) (plan : RunPlan) (limit : Nat)
    (cancel : Cancellation) (time : Nat) {w : W} {jobs batch : List Job}
    (hids : (jobs.map Job.id).Nodup) (hw : holds w jobs)
    (hpending : (backlog.pending limit w).answer = .ok batch) :
    let start := time + (backlog.pending limit w).delay
    let ended := runBatch host plan cancel batch start (backlog.pending limit w).world
    ∃ settlements, SettledBy host backlog plan limit cancel time w batch ended settlements ∧
      holds (pollOnce host backlog plan limit cancel time w).world
        (jobs.map (afterAll settlements)) ∧
      SettlesBatch host backlog holds plan limit cancel start (backlog.pending limit w).world
        jobs settlements (pollOnce host backlog plan limit cancel time w) := by
  intro start ended
  have hbatch := hkeeps.pending hw limit batch hpending
  obtain ⟨settlements, hsettled, hfinish, hanswer⟩ :=
    settles_of_pollOnce host backlog plan limit cancel time hpending
  have hselects : Selects jobs limit (settlements.map Settlement.job) := by
    rw [hsettled.jobs, hbatch]
    exact Job.selects_selectPending hids limit
  have hended : holds ended.world jobs :=
    (hkeeps.steady jobs).runAll _ _ (hkeeps.pending_world hw limit)
  refine ⟨settlements, hsettled, hsettled.settles.keeps hkeeps hids hended, ?_⟩
  constructor
  · exact hselects
  · exact fun s hs => ⟨hsettled.sound s hs,
      Nat.le_trans (hfinish s hs) hsettled.settles.le_finish⟩
  · rw [hsettled.jobs]
    exact hsettled.results
  · rw [hsettled.jobs]
    exact ⟨hended, hsettled.settles⟩
  · exact fun s hs _ => (hsettled.sound s hs).failed
  · rw [hanswer]
    rfl
  · exact length_eq_counts settlements
  · rw [hanswer]
    rfl

/-- A poll of a store that nobody else writes settles the first pending offers, each by the result
of its run, and the store holds the same offers afterwards, changed only by the attempts that it
took. -/
theorem pollOnce_settles_first_pending (hkeeps : backlog.Keeps host holds) (plan : RunPlan)
    (limit : Nat) (cancel : Cancellation) (time : Nat) (w : W) (jobs batch : List Job)
    (hids : (jobs.map Job.id).Nodup) (hw : holds w jobs)
    (hpending : (backlog.pending limit w).answer = .ok batch) :
    let start := time + (backlog.pending limit w).delay
    let ended := runBatch host plan cancel batch start (backlog.pending limit w).world
    ∃ settlements jobs',
      SettledBy host backlog plan limit cancel time w batch ended settlements ∧
      SettlesBatch host backlog holds plan limit cancel start (backlog.pending limit w).world
        jobs settlements (pollOnce host backlog plan limit cancel time w) ∧
      holds (pollOnce host backlog plan limit cancel time w).world jobs' ∧
      List.Forall₂ (Becomes settlements) jobs jobs' := by
  intro start ended
  obtain ⟨settlements, hsettled, hholds, hbatch⟩ :=
    pollOnce_settles hkeeps plan limit cancel time hids hw hpending
  exact ⟨settlements, _, hsettled, hbatch, hholds, forall₂_becomes hids hbatch.selects⟩

end

/-! ### A poll of a file -/

/-- An offer that is pending. -/
def pendingOffer (id : Nat) : Job :=
  .create ⟨id⟩ ⟨1893456000, 0⟩ "https://www.pracuj.pl/praca/1" "Rust developer" none

/-- A stage on which nothing is defined and every call of a page fails. -/
def bareStage : Stage := .bare ⟨fun _ _ => ⟨0, .error (.timeout "no answer")⟩⟩

/-- A stage with one workflow, an exit without a message. -/
def exitingStage : Stage := { bareStage with workflows := .given [("pracuj", .exit true none)] }

/-- A scene with nothing but a backlog. -/
def sceneWith (jobs : List Job) : Scene := { Scene.empty with jobs := ⟨jobs⟩ }

def onePending : Scene := sceneWith [pendingOffer 1]

def twoPending : Scene := sceneWith [pendingOffer 2, pendingOffer 1]

theorem pending_onePending :
    (exitingStage.memoryBacklog.pending 1 onePending).answer = .ok [pendingOffer 1] := by
  have hselected : Job.selectPending [pendingOffer 1] 1 = [pendingOffer 1] := by decide +kernel
  exact congrArg Except.ok hselected

/-- The date of the offers, at which the stages begin too. -/
theorem exact_start : Job.Exact ⟨1893456000, 0⟩ := ⟨⟨by decide, by decide⟩, rfl⟩

theorem storable_pendingOffer {id : Nat} (hid : Uuid.Fits ⟨id⟩) :
    (pendingOffer id).Storable ∧ (pendingOffer id).settled = pendingOffer id :=
  ⟨⟨hid, exact_start.1, nofun⟩, rfl⟩

theorem shows_two :
    Job.newStore.Shows (onFile [pendingOffer 2, pendingOffer 1]).tree
      [pendingOffer 2, pendingOffer 1] := by
  apply shows_onFile
  simp only [List.forall_mem_cons, List.not_mem_nil, false_implies, implies_true, and_true]
  exact ⟨storable_pendingOffer (by unfold Uuid.Fits; decide),
    storable_pendingOffer (by unfold Uuid.Fits; decide)⟩

/-- A job file under a calendar that stands still. -/
def fileAtRest (stage : Stage) : Backlog Scene :=
  { stage.fileBacklog Job.newStore with now := fun _ scene => (stage.start, scene) }

theorem fileAtRest_keeps :
    (fileAtRest exitingStage).Keeps exitingStage.host
      fun scene jobs => Job.newStore.Shows scene.tree jobs :=
  have hcookies : exitingStage.cookies = none := rfl
  fileBacklog_keeps ⟨fun _ _ _ h => h, fun _ h => by cases hcookies.symm.trans h⟩
    (fun _ _ => exact_start) fun _ _ => rfl

theorem pollOnce_settles_first_pending_two :
    let scene := onFile [pendingOffer 2, pendingOffer 1]
    let batch := Job.selectPending [pendingOffer 2, pendingOffer 1] 1
    ((fileAtRest exitingStage).pending 1 scene).answer = .ok batch ∧
    ∃ settlements jobs',
      SettledBy exitingStage.host (fileAtRest exitingStage) ⟨.standard, .unknown, false⟩ 1 (some 5)
        0 scene batch
        (runBatch exitingStage.host ⟨.standard, .unknown, false⟩ (some 5) batch
          (0 + ((fileAtRest exitingStage).pending 1 scene).delay)
          ((fileAtRest exitingStage).pending 1 scene).world)
        settlements ∧
      SettlesBatch exitingStage.host (fileAtRest exitingStage)
        (fun scene jobs => Job.newStore.Shows scene.tree jobs) ⟨.standard, .unknown, false⟩ 1
        (some 5) (0 + ((fileAtRest exitingStage).pending 1 scene).delay)
        ((fileAtRest exitingStage).pending 1 scene).world [pendingOffer 2, pendingOffer 1]
        settlements
        (pollOnce exitingStage.host (fileAtRest exitingStage) ⟨.standard, .unknown, false⟩ 1
          (some 5) 0 scene) ∧
      Job.newStore.Shows
        (pollOnce exitingStage.host (fileAtRest exitingStage) ⟨.standard, .unknown, false⟩ 1
          (some 5) 0 scene).world.tree
        jobs' ∧
      List.Forall₂ (Becomes settlements) [pendingOffer 2, pendingOffer 1] jobs' := by
  intro scene batch
  have hpending : ((fileAtRest exitingStage).pending 1 scene).answer = .ok batch :=
    congrArg Run.Delayed.answer (pending_of_shows exitingStage shows_two 1)
  exact ⟨hpending, pollOnce_settles_first_pending fileAtRest_keeps ⟨.standard, .unknown, false⟩ 1
    (some 5) 0 scene [pendingOffer 2, pendingOffer 1] batch (by decide) shows_two hpending⟩

end Jobflow.Schedule
