import Jobflow.Proofs.Schedule.Shutdown

/-!
Polls of a job file that nobody else writes. A poll takes up offers by what they are and records
attempts by what they are called, so it disarms the first offer of every identifier it took up. An
offer without namesakes is therefore run at most once; a later namesake is never disarmed.
-/

namespace Jobflow.Schedule

open Jobflow.Files (Disk)
open Jobflow.Job (AllIdle FileStore Job Operation Recording attemptsFor find? placeOf recordAll
  selectPending)
open Jobflow.Rehearsal (Scene Stage)
open Jobflow.Run (RunPlan)

variable {stage : Stage} {store : FileStore} {plan : RunPlan} {scene scene' : Scene}
  {jobs : List Job}

/-! ### What is recorded -/

/-- The attempts of a batch that the store took, as the file has them. -/
def recordingsOf (settlements : List Settlement) : List Recording :=
  settlements.filterMap fun s =>
    match s.fate with
    | .recorded attempt => some ⟨s.job.id, attempt.settled⟩
    | _ => none

/-- The attempts of a batch have dates that a file can have. -/
def Dated (settlements : List Settlement) : Prop :=
  ∀ s ∈ settlements, ∀ attempt, s.fate = .recorded attempt → attempt.timestamp.InRange

theorem Dated.tail {s : Settlement} {rest : List Settlement} (h : Dated (s :: rest)) : Dated rest :=
  fun t ht => h t (List.mem_cons_of_mem s ht)

/-- The file after a batch: every attempt is with the first offer of its identifier. -/
theorem Settles.shows {time finish : Nat} {settlements : List Settlement}
    (h : Settles (stage.fileBacklog store) time scene settlements finish scene')
    (hdated : Dated settlements) (hshows : store.Shows scene.tree jobs) :
    store.Shows scene'.tree (recordAll (recordingsOf settlements) jobs) := by
  induction h generalizing jobs with
  | nil => exact hshows
  | @stopped time finish scene scene' s rest hfate _ ih =>
    have hnone : recordingsOf (s :: rest) = recordingsOf rest := by simp [recordingsOf, hfate]
    rw [hnone]
    exact ih hdated.tail hshows
  | @recorded time finish scene scene' s rest attempt status reply hfate _ hreply hanswer _ ih =>
    subst hreply
    have hcons : recordingsOf (s :: rest) = ⟨s.job.id, attempt.settled⟩ :: recordingsOf rest := by
      simp [recordingsOf, hfate]
    rw [hcons]
    exact ih hdated.tail
      (shows_record (shows_now hshows time) (hdated s List.mem_cons_self attempt hfate) hanswer)
  | @refused time finish scene scene' s rest attempt cause reply hfate _ hreply hanswer _ ih =>
    subst hreply
    have hnone : recordingsOf (s :: rest) = recordingsOf rest := by simp [recordingsOf, hfate]
    rw [hnone]
    exact ih hdated.tail (shows_refuse (shows_now hshows time) hanswer)

theorem recordingsOf_append (first second : List Settlement) :
    recordingsOf (first ++ second) = recordingsOf first ++ recordingsOf second :=
  List.filterMap_append

theorem mem_recordingsOf {settlements : List Settlement} {s : Settlement} {attempt : Job.Attempt}
    (hs : s ∈ settlements) (hfate : s.fate = .recorded attempt) :
    ⟨s.job.id, attempt.settled⟩ ∈ recordingsOf settlements :=
  List.mem_filterMap.mpr ⟨s, hs, by rw [hfate]⟩

/-! ### Polls -/

/-- The poll of a file, neither cancelled nor failing to record: each offer that it took up was run
and has an attempt that the store took. -/
structure AttemptsAll (stage : Stage) (store : FileStore) (plan : RunPlan) (limit time : Nat)
    (scene : Scene) (settlements : List Settlement) : Prop where
  pending : ((stage.fileBacklog store).pending limit scene).answer =
    .ok (settlements.map Settlement.job)
  sound : ∀ s ∈ settlements, s.Sound stage.host none plan time
  recorded : ∀ s ∈ settlements, ∃ attempt, s.fate = .recorded attempt
  settles :
    let polled := pollOnce stage.host (stage.fileBacklog store) plan limit none time scene
    let ended := Run.runAll stage.host none (fun report => .error (.aborted report))
      (settlements.map fun s => Run.runJob plan s.job) time
      ((stage.fileBacklog store).pending limit scene).world
    Settles (stage.fileBacklog store) ended.time ended.world settlements polled.time polled.world

theorem attemptsAll_of_pollOnce (hsources : stage.host.NeverCancels)
    (hshows : store.Shows scene.tree jobs) (limit time : Nat)
    (htaken : (pollOnce stage.host (stage.fileBacklog store) plan limit none time
      scene).answer.counters.commitErrors = 0) :
    ∃ settlements, AttemptsAll stage store plan limit time scene settlements := by
  have hpending := congrArg Run.Delayed.answer (pending_of_shows stage hshows limit)
  obtain ⟨settlements, hsettled, -, hanswer⟩ :=
    settles_of_pollOnce stage.host (stage.fileBacklog store) plan limit none time hpending
  rw [← hsettled.jobs] at hpending
  refine ⟨settlements, hpending, hsettled.sound, fun s hs => ?_, ?_⟩
  · have hending : s.ending ≠ .stopped := by
      intro hstopped
      have hruns := (hsettled.sound s hs).runs
      rw [hstopped] at hruns
      obtain ⟨_, hnever, -⟩ := hruns.stops
      cases hnever
    have hgiven := (hsettled.sound s hs).fate_ne_stopped hsources hending
    have hnone : settlements.countP Settlement.refused = 0 := by
      rw [hanswer] at htaken
      exact htaken
    have haccepted : s.refused = false := by simpa using List.countP_eq_zero.mp hnone s hs
    cases hfate : s.fate with
    | recorded attempt => exact ⟨attempt, rfl⟩
    | refused attempt cause => simp [Settlement.refused, hfate] at haccepted
    | stopped => exact absurd hfate hgiven
  · have hsettles := hsettled.settles
    rw [runBatch, ← hsettled.jobs, List.map_map] at hsettles
    exact hsettles

theorem AttemptsAll.jobs_eq {limit time : Nat} {settlements : List Settlement}
    (h : AttemptsAll stage store plan limit time scene settlements)
    (hshows : store.Shows scene.tree jobs) :
    settlements.map Settlement.job = selectPending jobs limit := by
  have hpending := congrArg Run.Delayed.answer (pending_of_shows stage hshows limit)
  exact Except.ok.inj (h.pending.symm.trans hpending)

theorem AttemptsAll.shows {limit time : Nat} {settlements : List Settlement}
    (h : AttemptsAll stage store plan limit time scene settlements)
    (hleaves : LeavesFile stage store) (hdated : Dated settlements)
    (hshows : store.Shows scene.tree jobs) :
    store.Shows
      (pollOnce stage.host (stage.fileBacklog store) plan limit none time scene).world.tree
      (recordAll (recordingsOf settlements) jobs) := by
  have hsettles := h.settles
  rw [pending_of_shows stage hshows limit] at hsettles
  exact hsettles.shows hdated ((hleaves.steady jobs).runAll _ _ hshows)

/-- Polls of a file one after another, with the settlements of each; nothing else is written, and no
offer is armed in between. -/
inductive PollsOfFile (stage : Stage) (store : FileStore) (plan : RunPlan) :
    Scene → List (List Settlement) → Scene → Prop
  | none (scene : Scene) : PollsOfFile stage store plan scene [] scene
  | next {scene between last : Scene} {limit time : Nat} {settlements : List Settlement}
      {rest : List (List Settlement)} :
      between.tree.readText store.path = scene.tree.readText store.path →
      AttemptsAll stage store plan limit time between settlements →
      PollsOfFile stage store plan
        (pollOnce stage.host (stage.fileBacklog store) plan limit none time between).world
        rest last →
      PollsOfFile stage store plan scene (settlements :: rest) last

/-- How often polls took up an offer with an identifier. -/
def timesRun (id : Uuid) (batches : List (List Settlement)) : Nat :=
  (batches.flatten.map fun s => s.job.id).count id

theorem timesRun_cons (id : Uuid) (settlements : List Settlement) (rest : List (List Settlement)) :
    timesRun id (settlements :: rest) =
      ((settlements.map Settlement.job).map Job.id).count id + timesRun id rest := by
  simp [timesRun, Function.comp_def]

/-- Batches of the offers in a list, one after another, and the list that is left: each batch is
taken up as a poll does it, and an attempt is recorded for each of its offers. -/
inductive Rounds : List Job → List (List Settlement) → List Job → Prop
  | none (jobs : List Job) : Rounds jobs [] jobs
  | next {jobs after : List Job} {limit : Nat} {settlements : List Settlement}
      {rest : List (List Settlement)} :
      settlements.map Settlement.job = selectPending jobs limit →
      (∀ s ∈ settlements, ∃ attempt, s.fate = .recorded attempt) →
      Rounds (recordAll (recordingsOf settlements) jobs) rest after →
      Rounds jobs (settlements :: rest) after

section
variable {batches : List (List Settlement)} {after : List Job}

/-- Polls of a file are rounds of its offers. -/
theorem PollsOfFile.rounds {last : Scene} (h : PollsOfFile stage store plan scene batches last)
    (hleaves : LeavesFile stage store) (hdated : Dated batches.flatten)
    (hshows : store.Shows scene.tree jobs) :
    ∃ after, Rounds jobs batches after ∧ store.Shows last.tree after := by
  induction h generalizing jobs with
  | none scene => exact ⟨jobs, .none jobs, hshows⟩
  | @next scene between last limit time settlements rest hsame hattempts _ ih =>
    rw [List.flatten_cons] at hdated
    have hbetween : store.Shows between.tree jobs := by
      rwa [FileStore.Shows, hsame]
    have hfirst : Dated settlements := fun s hs => hdated s (List.mem_append_left _ hs)
    have hrest : Dated rest.flatten := fun s hs => hdated s (List.mem_append_right _ hs)
    obtain ⟨after, hrounds, hafter⟩ := ih hrest (hattempts.shows hleaves hfirst hbetween)
    exact ⟨after, .next (hattempts.jobs_eq hbetween) hattempts.recorded hrounds, hafter⟩

theorem Rounds.after_eq (h : Rounds jobs batches after) :
    after = recordAll (recordingsOf batches.flatten) jobs := by
  induction h with
  | none jobs => rfl
  | next _ _ _ ih => rw [ih, List.flatten_cons, recordingsOf_append, Job.recordAll_append]

theorem Rounds.recorded (h : Rounds jobs batches after) :
    ∀ s ∈ batches.flatten, ∃ attempt, s.fate = .recorded attempt := by
  induction h with
  | none jobs => simp
  | next _ hrecorded _ ih =>
    intro s hs
    rw [List.flatten_cons] at hs
    exact (List.mem_append.mp hs).elim (hrecorded s) (ih s)

/-- Only offers of the list are taken up. -/
theorem Rounds.id_mem (h : Rounds jobs batches after) :
    ∀ s ∈ batches.flatten, s.job.id ∈ jobs.map Job.id := by
  induction h with
  | none jobs => simp
  | @next jobs after limit settlements rest hjobs _ _ ih =>
    intro s hs
    rcases List.mem_append.mp (List.flatten_cons ▸ hs) with hs | hs
    · have hjob : s.job ∈ selectPending jobs limit := hjobs ▸ List.mem_map_of_mem hs
      exact List.mem_map_of_mem (Job.mem_of_mem_selectPending hjob).1
    · rw [← Job.map_id_recordAll (recordingsOf settlements)]
      exact ih s hs

/-- An identifier is not taken up while all offers with it are idle. -/
theorem Rounds.timesRun_eq_zero (h : Rounds jobs batches after) {id : Uuid}
    (hidle : AllIdle jobs id) :
    timesRun id batches = 0 := by
  induction h with
  | none jobs => rfl
  | @next jobs after limit settlements rest hjobs _ _ ih =>
    rw [timesRun_cons, hjobs, hidle.count_selectPending limit, ih (hidle.recordAll _)]

/-- An offer without namesakes is taken up at most once. -/
theorem Rounds.timesRun_le_one (h : Rounds jobs batches after) {id : Uuid}
    (honly : (jobs.map Job.id).count id ≤ 1) : timesRun id batches ≤ 1 := by
  induction h with
  | none jobs => exact Nat.zero_le 1
  | @next jobs after limit settlements rest hjobs hrecorded hrest ih =>
    rw [timesRun_cons]
    by_cases htaken : ∃ s ∈ settlements, s.job.id = id
    -- taken up now, and idle from then on: the offer that the attempt disarms is the only one
    · obtain ⟨s, hs, rfl⟩ := htaken
      obtain ⟨attempt, hfate⟩ := hrecorded s hs
      have honce := Job.count_selectPending_le jobs limit s.job.id
      have hidle : AllIdle (recordAll (recordingsOf settlements) jobs) s.job.id :=
        Job.allIdle_recordAll (mem_recordingsOf hs hfate) honly
      have hnever := hrest.timesRun_eq_zero hidle
      rw [hjobs]
      omega
    · have hnone : ((settlements.map Settlement.job).map Job.id).count id = 0 := by
        refine List.count_eq_zero.mpr fun hmem => htaken ?_
        rw [List.map_map] at hmem
        exact List.mem_map.mp hmem
      have hlater := ih (by rwa [Job.map_id_recordAll])
      omega

end

/-- What polls in turn make of the offers of a file. -/
structure DisarmsFirst (jobs : List Job) (batches : List (List Settlement)) (after : List Job) :
    Prop where
  /-- attempts are added to the first offer with their identifier, and nothing else is changed -/
  places : ∀ i, after[i]? = jobs[i]?.map fun job =>
    if placeOf jobs job.id = i then
      job.recordAttempts (attemptsFor job.id (recordingsOf batches.flatten))
    else job
  /-- so that offer is no longer pending -/
  disarmed : ∀ s ∈ batches.flatten, ∃ job, find? after s.job.id = some job ∧ job.isPending = false
  /-- and without namesakes that is all there is -/
  idle : ∀ s ∈ batches.flatten, (jobs.map Job.id).count s.job.id ≤ 1 → AllIdle after s.job.id
  once : ∀ id, (jobs.map Job.id).count id ≤ 1 → timesRun id batches ≤ 1

theorem Rounds.disarmsFirst {batches : List (List Settlement)} {after : List Job}
    (h : Rounds jobs batches after) : DisarmsFirst jobs batches after := by
  obtain rfl := h.after_eq
  refine ⟨Job.getElem?_recordAll _ jobs, fun s hs => ?_, fun s hs honly => ?_,
    fun id => h.timesRun_le_one⟩
  · obtain ⟨attempt, hfate⟩ := h.recorded s hs
    obtain ⟨job, hjob⟩ := Job.exists_find? (h.id_mem s hs)
    refine ⟨_, by rw [Job.find?_recordAll, hjob]; rfl, ?_⟩
    exact Job.not_isPending_recordAttempts
      (.inl (Job.attemptsFor_ne_nil (mem_recordingsOf hs hfate) rfl))
  · obtain ⟨attempt, hfate⟩ := h.recorded s hs
    exact Job.allIdle_recordAll (mem_recordingsOf hs hfate) honly

/-- For every job file that can be read: a poll that is not cancelled, and whose attempts are all
taken, records one attempt for each offer it took up. It disarms the first offer of every identifier
and no other; over all such polls an offer without namesakes is run at most once. -/
theorem polls_disarm_first_offers (stage : Stage) (store : FileStore) (plan : RunPlan)
    (scene : Scene) (jobs : List Job) (hsources : stage.host.NeverCancels)
    (hleaves : LeavesFile stage store) (hshows : store.Shows scene.tree jobs) :
    (∀ limit time,
      (pollOnce stage.host (stage.fileBacklog store) plan limit none time
        scene).answer.counters.commitErrors = 0 →
      ∃ settlements, AttemptsAll stage store plan limit time scene settlements ∧
        settlements.map Settlement.job = selectPending jobs limit) ∧
    ∀ batches last, PollsOfFile stage store plan scene batches last → Dated batches.flatten →
      ∃ after, store.Shows last.tree after ∧ DisarmsFirst jobs batches after := by
  refine ⟨fun limit time htaken => ?_, fun batches last hpolls hdated => ?_⟩
  · obtain ⟨settlements, hattempts⟩ := attemptsAll_of_pollOnce hsources hshows limit time htaken
    exact ⟨settlements, hattempts, hattempts.jobs_eq hshows⟩
  obtain ⟨after, hrounds, hafter⟩ := hpolls.rounds hleaves hdated hshows
  exact ⟨after, hafter, hrounds.disarmsFirst⟩

/-! ### Two offers of one identifier -/

/-- An idle offer, and a pending one that has the same identifier. -/
def idleAndPending : List Job := [{ pendingOffer 1 with shouldApply := false }, pendingOffer 1]

/-- The attempt at an offer on a stage without workflows. -/
def fruitless : Job.Attempt :=
  Job.attemptFor (.failed "Not found: workflow 'pracuj'") ⟨1893456000, 0⟩

/-- The same offers after one attempt. -/
def fruitlessAndPending : List Job :=
  [Job.recordAttempt { pendingOffer 1 with shouldApply := false } fruitless, pendingOffer 1]

theorem shows_idleAndPending : Job.newStore.Shows (onFile idleAndPending).tree idleAndPending := by
  have hid : Uuid.Fits ⟨1⟩ := by unfold Uuid.Fits; decide
  apply shows_onFile
  simp only [idleAndPending, List.forall_mem_cons, List.not_mem_nil, false_implies, implies_true,
    and_true]
  exact ⟨⟨⟨hid, exact_start.1, nofun⟩, rfl⟩, storable_pendingOffer hid⟩

theorem leavesFile_bareStage : LeavesFile bareStage Job.newStore :=
  ⟨fun _ _ _ h => h, nofun⟩

theorem neverCancels_bareStage : bareStage.host.NeverCancels :=
  Run.host_neverCancels trivial trivial

theorem selectPending_idleAndPending : selectPending idleAndPending 1 = [pendingOffer 1] := by
  decide +kernel

/-- The run finds no workflow, and touches no file. -/
theorem runAlone_bareStage (jobs : List Job) :
    Run.runAlone bareStage.host none (Run.runJob ⟨.standard, .unknown, false⟩ (pendingOffer 1)) 0
        ((onFile jobs).pass 0) =
      ⟨0, .error (.workflow (.notFound "workflow 'pracuj'")), onFile jobs⟩ := by
  with_unfolding_all rfl

/-- The scene in which the attempt is recorded: the calendar was looked at once. -/
def dated (jobs : List Job) : Scene := { onFile jobs with looks := 1 }

theorem calendar_onFile (jobs : List Job) :
    (onFile jobs).calendar bareStage = (⟨1893456000, 0⟩, dated jobs) := by
  simp [Scene.calendar, onFile, Scene.empty, bareStage, Stage.bare, dated]

theorem pollOnce_onFile (hshows : Job.newStore.Shows (onFile jobs).tree jobs)
    (hselected : selectPending jobs 1 = [pendingOffer 1]) :
    let polled := pollOnce bareStage.host (bareStage.fileBacklog Job.newStore)
      ⟨.standard, .unknown, false⟩ 1 none 0 (onFile jobs)
    let reply := (bareStage.fileBacklog Job.newStore).record ⟨1⟩ fruitless (dated jobs)
    polled.world = reply.world ∧
      ∀ status, reply.answer = .ok status → polled.answer.counters.commitErrors = 0 := by
  intro polled reply
  have hpending := pending_of_shows bareStage hshows 1
  rw [hselected] at hpending
  have hpolled := pollOnce_singleton_on_stage rfl (fun _ _ => rfl)
    ⟨.standard, .unknown, false⟩ none 0 (.failed "Not found: workflow 'pracuj'")
    (congrArg Run.Delayed.answer hpending)
  simp only [hpending, Run.Delayed.from, Nat.add_zero, runAlone_bareStage, calendar_onFile]
    at hpolled
  exact hpolled rfl

theorem exists_writeAll_onFile (old new : List Job) :
    ∃ after,
      Disk.run (Job.newStore.writeAll new) (diskOf bareStage (dated old)) = (.ok (), after) :=
  ⟨_, rfl⟩

theorem record_fruitless :
    ((bareStage.fileBacklog Job.newStore).record ⟨1⟩ fruitless (dated idleAndPending)).answer =
      .ok .failure := by
  have hshows : Job.newStore.Shows (diskOf bareStage (dated idleAndPending)).tree idleAndPending :=
    shows_idleAndPending
  have hchange : (Operation.record ⟨1⟩ fruitless).isChange = true := rfl
  have hanswer : (Operation.record ⟨1⟩ fruitless).answer idleAndPending =
      .ok (.recorded .failure) := rfl
  obtain ⟨after, hwritten⟩ :=
    exists_writeAll_onFile idleAndPending ((Operation.record ⟨1⟩ fruitless).after idleAndPending)
  have hrun := FileStore.run_perform_of_written hchange hshows.contents hanswer hwritten
  exact record_eq_ok_iff.mpr (congrArg Prod.fst hrun)

theorem dated_of_settles {w : Scene} {s : Settlement} {finish : Nat} {scene' : Scene}
    (h : Settles (stage.fileBacklog store) 0 w [s] finish scene')
    (hrange : ((w.pass 0).calendar stage).1.InRange) : Dated [s] := by
  intro t ht attempt hfate
  obtain rfl := List.mem_singleton.mp ht
  cases h with
  | stopped hstopped _ => cases hfate.symm.trans hstopped
  | recorded hrecorded htime _ _ _ =>
    obtain rfl := Fate.recorded.inj (hfate.symm.trans hrecorded)
    rw [htime]
    exact hrange
  | refused hrefused _ _ _ _ => cases hfate.symm.trans hrefused

/-- The attempt of that poll has the date of the stage. -/
theorem dated_of_attemptsAll {settlements : List Settlement}
    (h : AttemptsAll bareStage Job.newStore ⟨.standard, .unknown, false⟩ 1 0 (onFile idleAndPending)
      settlements)
    (hjobs : settlements.map Settlement.job = [pendingOffer 1]) : Dated settlements := by
  obtain ⟨s, rfl, hjob⟩ := List.map_eq_singleton_iff.mp hjobs
  have halone : Run.runAlone bareStage.host none
      (Run.runJob ⟨.standard, .unknown, false⟩ (pendingOffer 1)) 0
        (bareStage.host.pass 0 (onFile idleAndPending)) =
      ⟨0, .error (.workflow (.notFound "workflow 'pracuj'")), onFile idleAndPending⟩ :=
    runAlone_bareStage idleAndPending
  have hwhole := breakdown_eq_none (show bareStage.crashing = [] from rfl)
  obtain ⟨w, hall, hpass⟩ := Run.runAll_singleton hwhole none
    (fun report => .error (.aborted report))
    (Run.runJob ⟨.standard, .unknown, false⟩ (pendingOffer 1)) 0 (onFile idleAndPending)
  rw [halone] at hall hpass
  have hscene : w.pass 0 = onFile idleAndPending := hpass
  have hsettles := h.settles
  rw [pending_of_shows bareStage shows_idleAndPending] at hsettles
  simp only [List.map_singleton, hjob, hall] at hsettles
  refine dated_of_settles hsettles ?_
  rw [hscene, calendar_onFile]
  exact ⟨by decide, by decide⟩

theorem polls_disarm_first_offers_idleAndPending :
    let polled := pollOnce bareStage.host (bareStage.fileBacklog Job.newStore)
      ⟨.standard, .unknown, false⟩ 1 none 0 (onFile idleAndPending)
    bareStage.host.NeverCancels ∧ LeavesFile bareStage Job.newStore ∧
      Job.newStore.Shows (onFile idleAndPending).tree idleAndPending ∧
      polled.answer.counters.commitErrors = 0 ∧
      ∃ settlements after,
        PollsOfFile bareStage Job.newStore ⟨.standard, .unknown, false⟩ (onFile idleAndPending)
          [settlements] polled.world ∧
        Dated [settlements].flatten ∧ Job.newStore.Shows polled.world.tree after ∧
        DisarmsFirst idleAndPending [settlements] after := by
  dsimp only
  obtain ⟨-, hcounted⟩ := pollOnce_onFile shows_idleAndPending selectPending_idleAndPending
  have htaken := hcounted _ record_fruitless
  obtain ⟨hattempts, hdisarms⟩ := polls_disarm_first_offers bareStage Job.newStore
    ⟨.standard, .unknown, false⟩ (onFile idleAndPending) idleAndPending neverCancels_bareStage
    leavesFile_bareStage shows_idleAndPending
  obtain ⟨settlements, hsettled, hjobs⟩ := hattempts 1 0 htaken
  rw [selectPending_idleAndPending] at hjobs
  have hpolls := PollsOfFile.next rfl hsettled (.none _)
  have hdated : Dated [settlements].flatten := by
    rw [List.flatten_singleton]
    exact dated_of_attemptsAll hsettled hjobs
  obtain ⟨after, hafter, hfirst⟩ := hdisarms [settlements] _ hpolls hdated
  exact ⟨neverCancels_bareStage, leavesFile_bareStage, shows_idleAndPending, htaken, settlements,
    after, hpolls, hdated, hafter, hfirst⟩

/-- A namesake is run, its attempt is recorded with the other offer, and the next poll takes it up
again. -/
theorem namesake_stays_pending :
    let polled := pollOnce bareStage.host (bareStage.fileBacklog Job.newStore)
      ⟨.standard, .unknown, false⟩ 1 none 0 (onFile idleAndPending)
    ((bareStage.fileBacklog Job.newStore).pending 1 (onFile idleAndPending)).answer =
        .ok [pendingOffer 1] ∧
      polled.answer.counters.commitErrors = 0 ∧
      Job.newStore.Shows polled.world.tree fruitlessAndPending ∧
      ((bareStage.fileBacklog Job.newStore).pending 1 polled.world).answer =
        .ok [pendingOffer 1] := by
  dsimp only
  obtain ⟨hworld, hcounted⟩ := pollOnce_onFile shows_idleAndPending selectPending_idleAndPending
  have hshows : Job.newStore.Shows (dated idleAndPending).tree idleAndPending :=
    shows_idleAndPending
  have hrange : fruitless.timestamp.InRange := ⟨by decide, by decide⟩
  have hrecorded : Job.updateFirst ⟨1⟩ (·.recordAttempt fruitless.settled) idleAndPending =
      fruitlessAndPending := by decide +kernel
  have hafter := shows_record hshows hrange record_fruitless
  rw [← hworld, hrecorded] at hafter
  have hselected : selectPending fruitlessAndPending 1 = [pendingOffer 1] := by decide +kernel
  refine ⟨?_, hcounted _ record_fruitless, hafter, ?_⟩
  · rw [pending_of_shows bareStage shows_idleAndPending, selectPending_idleAndPending]
  · rw [pending_of_shows bareStage hafter, hselected]

end Jobflow.Schedule
