import Jobflow.Proofs.Schedule.Verdict

/-!
The messages that are recorded for runs. The message of a run is read from its last variables, and
further variables of the applicant may stand there under the names that an exit binds: so a run that
failed, or that ended at an exit with a message, is recorded with its own message, while one that
ended in silence is recorded with whatever the applicant brought along.
-/

namespace Jobflow.Schedule

open Jobflow.Job (Applicant Attempt Job)
open Jobflow.Rehearsal (Scene Stage)
open Jobflow.Run (Cancellation Course Ending Host RunPlan RunsTo)
open Jobflow.Workflow (Accounts Command Context Ended Noted finishedMessage finishedSuccessfully)

variable {W : Type}

/-! ### The variables at the start -/

/-- What the name is bound to among the further variables of the applicant, where a later binding
takes the place of an earlier one. -/
def further? (applicant : Applicant) (name : String) : Option String :=
  Dict.find? name (Dict.ofList applicant.extra)

/-- A name that offers and applicants have no variable for has what the applicant adds. -/
theorem get?_initialContext (job : Job) (applicant : Applicant) {name : String}
    (h : ∀ binding ∈ Job.seedBindings job applicant, binding.1 ≠ name) :
    (Job.initialContext job applicant).get? name = (further? applicant name).map .text :=
  (Dict.find?_ofList_append _ h).trans
    (Dict.find?_ofList_map Workflow.Binding.text applicant.extra name)

theorem finishedMessage_not_seeded (job : Job) (applicant : Applicant) :
    ∀ binding ∈ Job.seedBindings job applicant, binding.1 ≠ finishedMessage := by
  simp only [Job.seedBindings, List.forall_mem_cons, List.not_mem_nil, false_implies, implies_true,
    and_true]
  decide

theorem finishedSuccessfully_not_seeded (job : Job) (applicant : Applicant) :
    ∀ binding ∈ Job.seedBindings job applicant, binding.1 ≠ finishedSuccessfully := by
  simp only [Job.seedBindings, List.forall_mem_cons, List.not_mem_nil, false_implies, implies_true,
    and_true]
  decide

/-! ### The message of a run -/

/-- The message that is recorded for a workflow that came to its end. -/
structure Tells (applicant : Applicant) (nodes : List Command) (ended : Ended)
    (message : Option String) : Prop where
  /-- an error is told -/
  brokenOff : ∀ e, ended.result = .error e → message = some e.message
  /-- and so is what an exit says -/
  spoken : ∀ success text, nodes.getLast? = some (.exit success (some text)) → text ≠ "" →
    message = some text
  /-- an exit that says nothing leaves the message to the applicant -/
  silent : ∀ success said, nodes.getLast? = some (.exit success said) →
    said.filter (· ≠ "") = none → message = (further? applicant finishedMessage).filter (· ≠ "")
  /-- a run without an exit is remarked on, unless the applicant says something or pretends that
  there was one -/
  ranOut : ended.result = .ok .continue →
    message = ((further? applicant finishedMessage).filter (· ≠ "")).or
      (if (further? applicant finishedSuccessfully).isSome then none
        else some "workflow finished without exit")

theorem finishMessage_eq (ctx : Context) :
    Job.finishMessage ctx = ((ctx.text? finishedMessage).filter (· ≠ "")).or
      (if ctx.contains finishedSuccessfully then none
        else some "workflow finished without exit") := by
  have houtcome : ctx.outcome.2 = (ctx.text? finishedMessage).getD "" := rfl
  unfold Job.finishMessage
  rw [houtcome]
  cases ctx.text? finishedMessage with
  | none => rfl
  | some text =>
    by_cases htext : text = ""
    · simp [htext, Option.filter]
    · simp [htext, Option.filter]

theorem text?_of_get? {ctx : Context} {name : String} {bound : Option String}
    (h : ctx.get? name = bound.map .text) : ctx.text? name = bound := by
  rw [Context.text?, h]
  cases bound <;> rfl

section
variable {job : Job} {applicant : Applicant} {ended : Ended}

theorem finishMessage_of_terminated (h : Accounts (Job.initialContext job applicant) ended)
    {success : Bool} {said : Option String}
    (hended : ended.result = .ok (.terminated success said)) :
    Job.finishMessage ended.context =
      (said.or (further? applicant finishedMessage)).filter (· ≠ "") := by
  obtain ⟨hsuccess, hmessage⟩ := h.terminated success said hended
  have htext : ended.context.text? finishedMessage =
      said.or (further? applicant finishedMessage) := by
    refine text?_of_get? ?_
    rw [hmessage]
    cases said with
    | some text => rfl
    | none => exact get?_initialContext job applicant (finishedMessage_not_seeded job applicant)
  have hcontains : ended.context.contains finishedSuccessfully = true := by
    rw [Context.contains, hsuccess]
    rfl
  rw [finishMessage_eq, htext, hcontains, if_pos rfl, Option.or_none]

theorem finishMessage_of_continue (h : Accounts (Job.initialContext job applicant) ended)
    (hended : ended.result = .ok .continue) :
    Job.finishMessage ended.context = ((further? applicant finishedMessage).filter (· ≠ "")).or
      (if (further? applicant finishedSuccessfully).isSome then none
        else some "workflow finished without exit") := by
  obtain ⟨hsuccess, hmessage⟩ := h.unfinished (by simp [hended])
  have hstart := get?_initialContext job applicant (finishedMessage_not_seeded job applicant)
  have htext : ended.context.text? finishedMessage = further? applicant finishedMessage :=
    text?_of_get? (hmessage.trans hstart)
  have hcontains : ended.context.contains finishedSuccessfully =
      (further? applicant finishedSuccessfully).isSome := by
    rw [Context.contains, hsuccess,
      get?_initialContext job applicant (finishedSuccessfully_not_seeded job applicant),
      Option.isSome_map]
  rw [finishMessage_eq, htext, hcontains]

theorem Tells.of_fits {attempt : Attempt} {nodes : List Command}
    (hfits : Fits (.finished ended) (some attempt))
    (h : Accounts (Job.initialContext job applicant) ended)
    (hexit : Noted.EndsAtExit ⟨nodes, ended⟩) : Tells applicant nodes ended attempt.message := by
  -- the message of an execution that an exit ended
  have hterminated : ∀ success said, nodes.getLast? = some (.exit success said) →
      attempt.message = ((said.filter (· ≠ "")).or (further? applicant finishedMessage)).filter
        (· ≠ "") := by
    intro success said hlast
    have hended : ended.result = .ok (.terminated success (said.filter (· ≠ ""))) :=
      (hexit success _).mpr ⟨said, hlast, rfl⟩
    cases hfits with
    | brokenOff hresult _ _ _ => cases hended.symm.trans hresult
    | finished _ _ hmessage => rw [hmessage, finishMessage_of_terminated h hended]
  constructor
  · intro e hresult
    cases hfits with
    | brokenOff hresult' _ _ hmessage =>
      obtain rfl := Except.error.inj (hresult'.symm.trans hresult)
      exact hmessage
    | finished hresult' _ _ => cases hresult'.symm.trans hresult
  · intro success text hlast htext
    rw [hterminated success (some text) hlast]
    simp [Option.filter, htext]
  · intro success said hlast hsilent
    rw [hterminated success said hlast, hsilent, Option.none_or]
  · intro hresult
    cases hfits with
    | brokenOff hresult' _ _ _ => cases hresult'.symm.trans hresult
    | finished _ _ hmessage => rw [hmessage, finishMessage_of_continue h hresult]

end

/-! ### Settlements -/

/-- What is recorded for a run of a batch tells how it ended. -/
structure ToldByEnd (plan : RunPlan) (s : Settlement) : Prop where
  /-- a run that was stopped leaves no attempt -/
  stopped : s.ending = .stopped → s.fate.attempt? = none
  /-- a run without the end of a workflow is recorded with the reason -/
  failed : ∀ cause attempt, s.ending = .failed cause → s.fate.attempt? = some attempt →
    attempt.message = some cause.message
  /-- a workflow that came to its end is told by its last node -/
  executed : ∀ ended, s.ending = .finished ended →
    ∃ nodes, Executes plan s.job s.events ⟨nodes, ended⟩ ∧
    ∀ attempt, s.fate.attempt? = some attempt → Tells plan.applicant nodes ended attempt.message

theorem toldByEnd_of_sound {host : Host W} {cancel : Cancellation} {plan : RunPlan} {start : Nat}
    {s : Settlement} (h : s.Sound host cancel plan start) : ToldByEnd plan s where
  stopped hending := by
    have hfits := h.fits
    rw [hending] at hfits
    exact (fits_none_iff hfits).mpr rfl
  failed cause attempt hending hattempt := by
    have hfits := h.fits
    rw [hending, hattempt] at hfits
    cases hfits with
    | failed _ _ hmessage => exact hmessage
  executed ended hending := by
    obtain ⟨haccounts, nodes, hexecutes, hexit⟩ := executes_of_course (h.course hending)
    refine ⟨nodes, hexecutes, fun attempt hattempt => ?_⟩
    have hfits := h.fits
    rw [hending, hattempt] at hfits
    exact Tells.of_fits hfits haccounts hexit

/-- Whatever the offer, the applicant, the workflow and the page are, the attempt that is recorded
for a run tells the reason of its failure or what its exit said; only a run that ended in silence is
told by the further variables of the applicant. -/
theorem pollOnce_tells_end (host : Host W) (backlog : Backlog W) (plan : RunPlan) (limit : Nat)
    (cancel : Cancellation) (time : Nat) (w : W) (batch : List Job)
    (hpending : (backlog.pending limit w).answer = .ok batch) :
    let start := time + (backlog.pending limit w).delay
    let ended := runBatch host plan cancel batch start (backlog.pending limit w).world
    ∃ settlements, SettledBy host backlog plan limit cancel time w batch ended settlements ∧
      ∀ s ∈ settlements, ToldByEnd plan s ∧
        RunsTo host cancel plan start s.job s.events s.finish s.ending := by
  intro start ended
  obtain ⟨settlements, hsettled, -⟩ :=
    settles_of_pollOnce host backlog plan limit cancel time hpending
  refine ⟨settlements, hsettled, fun s hs => ?_⟩
  exact ⟨toldByEnd_of_sound (hsettled.sound s hs), (hsettled.sound s hs).runs⟩

/-! ### An exit without a message -/

/-- An applicant who brings a variable by the name of an exit's message. -/
def outspoken : Applicant :=
  { Applicant.unknown with extra := [("WorkflowFinishedMessage", "preset")] }

theorem pollOnce_tells_end_exiting :
    (exitingStage.memoryBacklog.pending 1 onePending).answer = .ok [pendingOffer 1] ∧
      let ended := runBatch exitingStage.host ⟨.standard, outspoken, false⟩ none [pendingOffer 1]
        (0 + 0) onePending
      ∃ settlements, SettledBy exitingStage.host exitingStage.memoryBacklog
          ⟨.standard, outspoken, false⟩ 1 none 0 onePending [pendingOffer 1] ended settlements ∧
        ∀ s ∈ settlements, ToldByEnd ⟨.standard, outspoken, false⟩ s ∧
          RunsTo exitingStage.host none ⟨.standard, outspoken, false⟩ (0 + 0) s.job s.events
            s.finish s.ending :=
  ⟨pending_onePending, pollOnce_tells_end exitingStage.host exitingStage.memoryBacklog
    ⟨.standard, outspoken, false⟩ 1 none 0 onePending [pendingOffer 1] pending_onePending⟩

/-- The messages of the attempts at the offers of a scene. -/
def messagesOf (scene : Scene) : List (List (Option String)) :=
  scene.jobs.jobs.map fun job => job.attempts.map Attempt.message

/-- The run is recorded with the applicant's text, though its exit has no message. -/
theorem silent_exit_is_told :
    messagesOf (pollOnce exitingStage.host exitingStage.memoryBacklog
      ⟨.standard, outspoken, false⟩ 1 none 0 onePending).world = [[some "preset"]] := by
  let alone := Run.runAlone exitingStage.host none
    (Run.runJob ⟨.standard, outspoken, false⟩ (pendingOffer 1)) 0
    (exitingStage.host.pass 0 onePending)
  let outcome : Job.RunOutcome := .finished
    ((Job.initialContext (pendingOffer 1) outspoken).setFlag finishedSuccessfully true)
  have houtcome : outcomeOf alone.answer = some outcome := by decide +kernel
  rw [(pollOnce_singleton_on_stage rfl (fun _ _ => rfl) _ none 0 outcome pending_onePending
    houtcome).1]
  decide +kernel

end Jobflow.Schedule
