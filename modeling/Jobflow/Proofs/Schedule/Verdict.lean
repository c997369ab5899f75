import Jobflow.Proofs.Schedule.Polling
import Jobflow.Proofs.Workflow.Execution
import Jobflow.Proofs.Workflow.Nodes

/-!
Which runs count as successful applications. The verdict of a run is a flag among its variables,
and the variables that an applicant brings along are texts; so nothing but an exit of the workflow
can make a run a success, whatever the variables are called.
-/

namespace Jobflow.Schedule

open Jobflow.Job (Applicant Attempt Job Status StoreError)
open Jobflow.Run (Cancellation Course Ending Event Host InSession RunPlan RunsTo)
open Jobflow.Workflow
  (Accounts Binding Command Context Ended Noted executeNoting finishedSuccessfully)

variable {W : Type}

/-! ### The variables at the start -/

/-- The binding is a text. -/
def IsText (value : Binding) : Prop := ∃ s, value = .text s

/-- Every variable is bound to a text. -/
def HoldsTexts (d : Dict Binding) : Prop :=
  ∀ name value, Dict.find? name d = some value → IsText value

theorem HoldsTexts.insert {d : Dict Binding} (h : HoldsTexts d) (name : String) {value : Binding}
    (hvalue : IsText value) : HoldsTexts (Dict.insert name value d) := by
  intro other found hfound
  by_cases hname : other = name
  · rw [hname, Dict.find?_insert_self] at hfound
    obtain rfl := Option.some.inj hfound
    exact hvalue
  · rw [Dict.find?_insert_of_ne hname] at hfound
    exact h other found hfound

theorem holdsTexts_ofList {bindings : List (String × Binding)}
    (h : ∀ binding ∈ bindings, IsText binding.2) : HoldsTexts (Dict.ofList bindings) := by
  have hfold : ∀ d, HoldsTexts d →
      HoldsTexts (bindings.foldl (fun d binding => Dict.insert binding.1 binding.2 d) d) := by
    induction bindings with
    | nil => exact fun d hd => hd
    | cons binding rest ih =>
      intro d hd
      exact ih (fun other hother => h other (List.mem_cons_of_mem _ hother)) _
        (hd.insert binding.1 (h binding List.mem_cons_self))
  exact hfold [] nofun

/-- A run starts without any flags. -/
theorem flag?_initialContext (job : Job) (applicant : Applicant) (name : String) :
    (Job.initialContext job applicant).flag? name = none := by
  have htexts : HoldsTexts (Job.initialContext job applicant).bindings := by
    refine holdsTexts_ofList fun binding hbinding => ?_
    rcases List.mem_append.mp hbinding with hextra | hseed
    · obtain ⟨⟨_, value⟩, -, rfl⟩ := List.mem_map.mp hextra
      exact ⟨value, rfl⟩
    · simp only [Job.seedBindings, List.mem_cons, List.not_mem_nil, or_false] at hseed
      rcases hseed with rfl | rfl | rfl | rfl | rfl | rfl | rfl | rfl | rfl | rfl <;> exact ⟨_, rfl⟩
  unfold Context.flag?
  split
  · next hfound =>
    obtain ⟨s, hs⟩ := htexts _ _ hfound
    cases hs
  · rfl

/-- From a start without flags, the verdict is a success just when a successful exit ended the
execution. -/
theorem outcome_iff_of_accounts {start : Context} {ended : Ended} (h : Accounts start ended)
    (hstart : start.flag? finishedSuccessfully = none) :
    ended.context.outcome.1 = true ↔ ∃ message, ended.result = .ok (.terminated true message) := by
  have houtcome :
      ended.context.outcome.1 = (ended.context.flag? finishedSuccessfully).getD false := rfl
  rw [houtcome]
  by_cases hend : ∃ success message, ended.result = .ok (.terminated success message)
  · obtain ⟨success, message, hend⟩ := hend
    simp [Context.flag?, (h.terminated success message hend).1, hend]
  · have hresult : ∀ success message, ended.result ≠ .ok (.terminated success message) := by
      simpa using hend
    have hsame : ended.context.flag? finishedSuccessfully = none := by
      unfold Context.flag? at hstart ⊢
      rwa [(h.unfinished hresult).1]
    simp [hsame, hresult]

/-! ### The execution of a run -/

/-- What a run for an offer executed: the workflow that was found for the host of the offer, from
the variables of the offer and the applicant, in a session of the run. -/
inductive Executes (plan : RunPlan) (job : Job) (events : List Event) (noted : Noted) : Prop where
  | intro {name : String} {command : Command} {asked answered : Nat} {session : Run.SessionId}
      {trace : List ((op : Workflow.browsing.Op) × Workflow.browsing.Answer op)} :
      plan.routes.resolve job.url = .ok name → .lookup name (.ok command) asked answered ∈ events →
      trace.map (Run.inSession session) <:+: events.map Event.exchange →
      Program.Performs (executeNoting command (Job.initialContext job plan.applicant)) trace noted →
      Executes plan job events noted

theorem performs_of_inSession {keepsCookies : Bool} {command : Command} {initial : Context}
    {events : List Event} {ended : Ended}
    (h : InSession keepsCookies command initial events (.finished ended)) :
    ∃ session trace, trace.map (Run.inSession session) <:+: events.map Event.exchange ∧
      Program.Performs (Workflow.execute command initial) trace ended := by
  generalize hending : Ending.finished ended = ending at h
  cases h with
  | unopened => cases hending
  | stoppedAtOnce => cases hending
  | @executed restoring browsing leaving saved session asked answered looked seen found _
      hbrowsing _ =>
    cases found with
    | none => cases hending
    | some found =>
      cases hending
      obtain ⟨trace, htrace, hbrowsed⟩ := Run.performs_of_drive hbrowsing
      refine ⟨session, trace, ?_, htrace⟩
      rw [← hbrowsed]
      refine List.IsInfix.map _ ⟨restoring ++ [.opening saved (.ok session) asked answered,
        .check false looked seen], leaving, ?_⟩
      simp

/-- A workflow that came to its end was executed, and its nodes tell how it ended. -/
theorem executes_of_course {plan : RunPlan} {job : Job} {events : List Event} {ended : Ended}
    (h : Course plan job events (.finished ended)) :
    Accounts (Job.initialContext job plan.applicant) ended ∧
      ∃ nodes, Executes plan job events ⟨nodes, ended⟩ ∧ Noted.EndsAtExit ⟨nodes, ended⟩ := by
  cases h with
  | @begun name command asked answered looked seen events _ hroute hsession =>
    obtain ⟨session, trace, hpart, hperforms⟩ := performs_of_inSession hsession
    obtain ⟨⟨nodes, ended'⟩, hnoted, rfl, hexit⟩ := Workflow.exists_nodes hperforms
    have hwhole : trace.map (Run.inSession session) <:+:
        (Event.lookup name (.ok command) asked answered :: .check false looked seen :: events).map
          Event.exchange := List.infix_cons (List.infix_cons hpart)
    exact ⟨Workflow.accounts_of_performs hperforms, nodes,
      .intro hroute List.mem_cons_self hwhole hnoted, hexit⟩

/-! ### Settlements -/

/-- An exit decides whether a run of a batch counts as a success. -/
structure DecidedByExit (host : Host W) (plan : RunPlan) (s : Settlement) : Prop where
  /-- there is an attempt unless the run reports that it was stopped -/
  attempted : s.fate.attempt? = none ↔ s.ending.result = .error (.workflow .cancelled)
  /-- which it does only if it was -/
  stopped : host.NeverCancels → (s.fate.attempt? = none ↔ s.ending = .stopped)
  /-- a run without the end of a workflow is a failure -/
  failed : ∀ cause attempt, s.ending = .failed cause → s.fate.attempt? = some attempt →
    attempt.status = .failure
  /-- a workflow that came to its end is a success just when its last node is a successful exit -/
  executed : ∀ ended, s.ending = .finished ended →
    ∃ nodes, Executes plan s.job s.events ⟨nodes, ended⟩ ∧
      ∀ attempt, s.fate.attempt? = some attempt →
      (attempt.status = .success ↔ ∃ message, ended.result = .ok (.terminated true message)) ∧
      (attempt.status = .success ↔ ∃ message, nodes.getLast? = some (.exit true message))

theorem ofFlag_eq_success_iff {flag : Bool} : Status.ofFlag flag = .success ↔ flag = true := by
  cases flag <;> simp [Status.ofFlag]

theorem fits_none_iff {ending : Ending} {attempt? : Option Attempt} (h : Fits ending attempt?) :
    attempt? = none ↔ ending.result = .error (.workflow .cancelled) := by
  cases h with
  | stopped hresult => simp [hresult]
  | failed hcause => simp [Ending.result, hcause]
  | brokenOff hresult he => simp [Ending.result, Run.verdict, hresult, he]
  | finished hresult => simp [Ending.result, Run.verdict, hresult]

theorem success_iff_of_fits {ended : Ended} {attempt : Attempt} {start : Context}
    (h : Fits (.finished ended) (some attempt)) (haccounts : Accounts start ended)
    (hstart : start.flag? finishedSuccessfully = none) :
    attempt.status = .success ↔ ∃ message, ended.result = .ok (.terminated true message) := by
  cases h with
  | brokenOff hresult _ hstatus _ => simp [hstatus, hresult]
  | finished _ hstatus _ =>
    rw [hstatus, ofFlag_eq_success_iff]
    exact outcome_iff_of_accounts haccounts hstart

/-- A run with the end of a workflow has a course to this end. -/
theorem Settlement.Sound.course {host : Host W} {cancel : Cancellation} {plan : RunPlan}
    {start : Nat} {s : Settlement} (h : s.Sound host cancel plan start) {ended : Ended}
    (hending : s.ending = .finished ended) : Course plan s.job s.events (.finished ended) := by
  have hruns := h.runs
  rw [hending] at hruns
  cases hruns with
  | whole _ hcourse => exact hcourse

theorem decidedByExit_of_sound {host : Host W} {cancel : Cancellation} {plan : RunPlan}
    {start : Nat} {s : Settlement} (h : s.Sound host cancel plan start) :
    DecidedByExit host plan s where
  attempted := fits_none_iff h.fits
  stopped hhost := by
    rw [fits_none_iff h.fits]
    constructor
    · intro hresult
      by_contra hending
      exact h.runs.result_ne_cancelled hhost hending hresult
    · intro hending
      rw [hending]
      rfl
  failed cause attempt hending hattempt := by
    have hfits := h.fits
    rw [hending, hattempt] at hfits
    cases hfits with
    | failed _ hstatus _ => exact hstatus
  executed ended hending := by
    obtain ⟨haccounts, nodes, hexecutes, hexit⟩ := executes_of_course (h.course hending)
    refine ⟨nodes, hexecutes, fun attempt hattempt => ?_⟩
    have hfits := h.fits
    rw [hending, hattempt] at hfits
    have hsuccess := success_iff_of_fits hfits haccounts (flag?_initialContext _ _ _)
    refine ⟨hsuccess, hsuccess.trans ?_⟩
    constructor
    · rintro ⟨shown, hresult⟩
      obtain ⟨message, hlast, -⟩ := (hexit true shown).mp hresult
      exact ⟨message, hlast⟩
    · rintro ⟨message, hlast⟩
      exact ⟨_, (hexit true _).mpr ⟨message, hlast, rfl⟩⟩

/-- Every run of a poll is settled by an attempt that counts as a success just when the last node
that the run executed is a successful exit, whatever the offer, the applicant and the page are. -/
theorem pollOnce_succeeds_iff_exit (host : Host W) (backlog : Backlog W) (plan : RunPlan)
    (limit : Nat) (cancel : Cancellation) (time : Nat) (w : W) (batch : List Job)
    (hpending : (backlog.pending limit w).answer = .ok batch) :
    let start := time + (backlog.pending limit w).delay
    let ended := runBatch host plan cancel batch start (backlog.pending limit w).world
    ∃ settlements, SettledBy host backlog plan limit cancel time w batch ended settlements ∧
      ∀ s ∈ settlements, DecidedByExit host plan s ∧
        RunsTo host cancel plan start s.job s.events s.finish s.ending := by
  intro start ended
  obtain ⟨settlements, hsettled, -⟩ :=
    settles_of_pollOnce host backlog plan limit cancel time hpending
  refine ⟨settlements, hsettled, fun s hs => ?_⟩
  exact ⟨decidedByExit_of_sound (hsettled.sound s hs), (hsettled.sound s hs).runs⟩

theorem pollOnce_succeeds_iff_exit_one :
    (exitingStage.memoryBacklog.pending 1 onePending).answer = .ok [pendingOffer 1] ∧
      let ended := runBatch exitingStage.host ⟨.standard, .unknown, false⟩ none [pendingOffer 1]
        (0 + 0) onePending
      ∃ settlements, SettledBy exitingStage.host exitingStage.memoryBacklog
          ⟨.standard, .unknown, false⟩ 1 none 0 onePending [pendingOffer 1] ended settlements ∧
        ∀ s ∈ settlements, DecidedByExit exitingStage.host ⟨.standard, .unknown, false⟩ s ∧
          RunsTo exitingStage.host none ⟨.standard, .unknown, false⟩ (0 + 0) s.job s.events
            s.finish s.ending :=
  ⟨pending_onePending, pollOnce_succeeds_iff_exit exitingStage.host exitingStage.memoryBacklog
    ⟨.standard, .unknown, false⟩ 1 none 0 onePending [pendingOffer 1] pending_onePending⟩

end Jobflow.Schedule
