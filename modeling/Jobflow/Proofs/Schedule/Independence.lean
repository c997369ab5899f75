import Jobflow.Proofs.Run.Independence
import Jobflow.Proofs.Schedule.Sessions

/-!
The runs of a batch do not influence each other. Whatever else a batch holds and however its
other runs end, the session of an offer receives the same calls, and its attempt has the same
status and message, but for the names that are generated for screenshots.
-/

namespace Jobflow.Schedule

open Jobflow.Job (Attempt Job RunOutcome)
open Jobflow.Page (Behaviour Call)
open Jobflow.Rehearsal (Scene Stage)
open Jobflow.Run
open Jobflow.Workflow (Context PagesAlike SameButNames SameCall SameResult)

/-! ### Attempts -/

/-- Attempts that are the same but for their times and for generated names. -/
structure SameAttempt (attempt attempt' : Attempt) : Prop where
  status : attempt.status = attempt'.status
  message : Option.Rel SameButNames attempt.message attempt'.message

/-- What an attempt tells, its time apart. -/
def tells (attempt : Attempt) : Job.Status × Option String := (attempt.status, attempt.message)

/-- The attempt for a run tells what its result comes to. -/
theorem tells_of_fits {ending : Ending} {attempt? : Option Attempt} (h : Fits ending attempt?)
    (now : Time.Instant) :
    attempt?.map tells =
      (outcomeOf ending.result).map fun outcome => tells (Job.attemptFor outcome now) := by
  cases h with
  | stopped hresult =>
    rw [hresult]
    rfl
  | failed hcause hstatus hmessage =>
    rw [Ending.result, outcomeOf_error hcause]
    exact congrArg some (Prod.ext hstatus hmessage)
  | @brokenOff ended e attempt hresult he hstatus hmessage =>
    have hending : (Ending.finished ended).result = .error (.workflow e) := by
      simp [Ending.result, verdict, hresult]
    rw [hending, outcomeOf_error fun heq => he (RunError.workflow.inj heq)]
    exact congrArg some (Prod.ext hstatus hmessage)
  | @finished ended flow attempt hresult hstatus hmessage =>
    have hending : (Ending.finished ended).result = .ok ended.context := by
      simp [Ending.result, verdict, hresult]
    rw [hending]
    exact congrArg some (Prod.ext hstatus hmessage)

theorem sameAttempt_of_tells {attempt? attempt?' : Option Attempt}
    (h : attempt?.map tells = attempt?'.map tells) : Option.Rel SameAttempt attempt? attempt?' := by
  cases attempt? with
  | none =>
    cases attempt?' with
    | none => exact .none
    | some attempt' => cases h
  | some attempt =>
    cases attempt?' with
    | none => cases h
    | some attempt' =>
      obtain ⟨hstatus, hmessage⟩ := Prod.mk.inj (Option.some.inj h)
      refine .some ⟨hstatus, ?_⟩
      rw [hmessage]
      cases attempt'.message with
      | none => exact .none
      | some message => exact .some (.same message)

/-- Results that are the same but for names come to attempts that are. -/
theorem sameAttempt_of_fits {ending ending' : Ending} {attempt? attempt?' : Option Attempt}
    (h : Fits ending attempt?) (h' : Fits ending' attempt?')
    (hresults : SameResult SameRunFailure ending.result ending'.result) :
    Option.Rel SameAttempt attempt? attempt?' := by
  have htells := tells_of_fits h ⟨0, 0⟩
  have htells' := tells_of_fits h' ⟨0, 0⟩
  generalize ending.result = result at htells hresults
  generalize ending'.result = result' at htells' hresults
  cases hresults with
  | ok ctx => exact sameAttempt_of_tells (htells.trans htells'.symm)
  | error he =>
    cases he with
    | same => exact sameAttempt_of_tells (htells.trans htells'.symm)
    | workflow he =>
      cases he with
      | same => exact sameAttempt_of_tells (htells.trans htells'.symm)
      | @page e e' he =>
        have hmessages : SameButNames (RunError.workflow (.page e)).message
            (RunError.workflow (.page e')).message := (Workflow.SameFailure.page he).message
        obtain ⟨attempt, rfl, htold⟩ := Option.map_eq_some_iff.mp htells
        obtain ⟨attempt', rfl, htold'⟩ := Option.map_eq_some_iff.mp htells'
        obtain ⟨hstatus, hmessage⟩ := Prod.mk.inj htold
        obtain ⟨hstatus', hmessage'⟩ := Prod.mk.inj htold'
        refine .some ⟨hstatus.trans hstatus'.symm, ?_⟩
        rw [hmessage, hmessage']
        exact .some hmessages

/-! ### One poll -/

theorem PollsBy.exists_settledBy {W : Type} {host : Host W} {backlog : Backlog W} {plan : RunPlan}
    {limit : Nat} {cancel : Cancellation} {time : Nat} {w : W} {batch : List Job}
    {log : List (Entry W)} {ended : Timed W (List (Except RunError Context))}
    (h : PollsBy host backlog plan limit cancel time w batch log ended) :
    ∃ settlements, SettledBy host backlog plan limit cancel time w batch ended settlements := by
  obtain ⟨settlements, hsettled, -⟩ :=
    settles_of_pollOnce host backlog plan limit cancel time h.found
  rw [runBatch, ← h.runs.eq_runAll] at hsettled
  exact ⟨settlements, hsettled⟩

theorem SettledBy.exists_at {W : Type} {host : Host W} {backlog : Backlog W} {plan : RunPlan}
    {limit : Nat} {cancel : Cancellation} {time : Nat} {w : W} {batch : List Job}
    {ended : Timed W (List (Except RunError Context))} {settlements : List Settlement}
    (h : SettledBy host backlog plan limit cancel time w batch ended settlements) {i : Nat}
    {job : Job} {result : Except RunError Context} (hjob : batch[i]? = some job)
    (hresult : ended.answer[i]? = some result) :
    ∃ s, settlements[i]? = some s ∧ s.job = job ∧ s.ending.result = result := by
  rw [← h.jobs, List.getElem?_map, Option.map_eq_some_iff] at hjob
  obtain ⟨s, hs, hsjob⟩ := hjob
  rw [← h.results, List.getElem?_map, hs] at hresult
  exact ⟨s, hs, hsjob, Option.some.inj hresult⟩

section
variable {stage : Stage} {pages : SessionId → Behaviour} {backlog : Backlog Scene} {plan : RunPlan}
  {limit time : Nat} {scene : Scene} {batch : List Job} {log : List (Entry Scene)}
  {ended : Timed Scene (List (Except RunError Context))}

/-- What becomes of a run of a poll is up to its offer, to the definitions as they were when the
poll began, and to its page. -/
theorem PollsBy.makes
    (h : PollsBy (stage.hostWith pages) backlog plan limit none time scene batch log ended)
    (hfiles : ∀ entry ∈ log, stage.SameFiles (backlog.pending limit scene).world entry.found)
    {i : Nat} {job : Job} (hjob : batch[i]? = some job)
    (hmade : ∀ entry ∈ own i log, Made entry.event.op entry.event.answer) :
    ∃ result, ended.answer[i]? = some result ∧
      Makes pages (stage.commandAt (backlog.pending limit scene).world)
        (stage.formAt (backlog.pending limit scene).world)
        (fun name => stage.breakdown (.workflow name)) plan.routes plan.applicant job
        (opening ((own i log).map Entry.exchange)) result (callsOf ended.world (own i log)) := by
  obtain ⟨finish, result, hresult, hfollows⟩ := h.follows hjob
  refine ⟨result, hresult, ?_⟩
  obtain ⟨strands, hplays, -⟩ := h.runs
  have hinformed := hplays.informed hfiles
  have hobeys : ∀ (k : Nat) (s : Strand (Except RunError Context)),
      (started (batch.map (runJob plan)) (time + (backlog.pending limit scene).delay))[k]? =
          some s →
        ∃ Q : Phase → Except RunError Context → Prop, Obeys Q .outside s.rest := by
    intro k s hs
    rw [getElem?_started, List.getElem?_map, Option.map_map, Option.map_eq_some_iff] at hs
    obtain ⟨other, -, rfl⟩ := hs
    exact ⟨_, obeys_runJob plan other⟩
  have hseated : Seated (fun _ => .outside) i [] (backlog.pending limit scene).world :=
    ⟨nofun, nofun, nofun⟩
  obtain ⟨last, calls, hpath, halong, hhistory⟩ := hplays.secluded hinformed hmade hobeys hseated
  have hcalls : callsOf ended.world (own i log) =
      ((opening ((own i log).map Entry.exchange)).bind Except.toOption).map fun _ => calls := by
    rw [callsOf, ← hpath.session?_eq_opening]
    cases hsession : last.session? with
    | none => rfl
    | some session => exact congrArg some (hhistory session hsession)
  rw [hcalls]
  have htrace : (own i log).map Entry.exchange =
      ((own i log).map Entry.event).map Event.exchange := by
    rw [List.map_map]
    rfl
  have hevents : ∀ event ∈ (own i log).map Entry.event,
      Informed (stage.commandAt (backlog.pending limit scene).world)
        (stage.formAt (backlog.pending limit scene).world) event.op event.answer := by
    intro event hevent
    obtain ⟨entry, hentry, rfl⟩ := List.mem_map.mp hevent
    exact hinformed entry (mem_own.mp hentry).1
  rcases hfollows.course with
    ⟨name, found, asked, answered, report, hroute, hbroken, hlookup, rfl⟩ | ⟨hwhole, hunfolds⟩
  · rw [htrace, hlookup]
    exact .brokenOff hroute hbroken
  · rw [htrace] at halong ⊢
    exact makes_of_unfolds hunfolds hwhole hevents halong

end

/-- Where every launch succeeds, all sessions open alike. -/
theorem PollsBy.map_of_opening {stage : Stage} {pages : SessionId → Behaviour}
    {backlog : Backlog Scene} {plan : RunPlan} {limit : Nat} {cancel : Cancellation} {time : Nat}
    {scene : Scene} {batch : List Job} {log : List (Entry Scene)}
    {ended : Timed Scene (List (Except RunError Context))}
    (h : PollsBy (stage.hostWith pages) backlog plan limit cancel time scene batch log ended)
    (hlaunch : ∀ id tree, (stage.launch id tree).1 = .ok ()) {i : Nat}
    {answer : Except Page.PageError SessionId}
    (hanswer : opening ((own i log).map Entry.exchange) = some answer) :
    answer.map (fun _ => ()) = .ok () := by
  obtain ⟨exchange, hexchange, hopens⟩ := List.exists_of_findSome?_eq_some hanswer
  obtain ⟨entry, hentry, rfl⟩ := List.mem_map.mp hexchange
  obtain ⟨strands, hplays, -⟩ := h.runs
  obtain ⟨place, asked, op, found, rfl⟩ := hplays.exists_of entry (mem_own.mp hentry).1
  cases op with
  | openSession cookies =>
    obtain rfl := Option.some.inj hopens
    simp only [Entry.of, respond, Delayed.from, Stage.hostWith, Stage.host, Stage.openSession]
    split
    · next e tree hfailed =>
      cases (congrArg Prod.fst hfailed).symm.trans (hlaunch _ _)
    · rfl
  | _ => cases hopens

/-- Where no workflow makes a directory, none is missing. -/
theorem PollsBy.made {stage : Stage} {pages : SessionId → Behaviour} {backlog : Backlog Scene}
    {plan : RunPlan} {limit : Nat} {cancel : Cancellation} {time : Nat} {scene : Scene}
    {batch : List Job} {log : List (Entry Scene)}
    {ended : Timed Scene (List (Except RunError Context))}
    (h : PollsBy (stage.hostWith pages) backlog plan limit cancel time scene batch log ended)
    (hfiles : ∀ entry ∈ log, stage.SameFiles (backlog.pending limit scene).world entry.found)
    (hnone : ∀ name command,
      stage.commandAt (backlog.pending limit scene).world name = .ok command →
      ∀ ctx, Program.Asks (fun op => ∀ path, op ≠ Workflow.Browse.makeDirectories path)
        (Workflow.execute command ctx))
    {i : Nat} {job : Job} (hjob : batch[i]? = some job) :
    ∀ entry ∈ own i log, Made entry.event.op entry.event.answer := by
  obtain ⟨finish, result, -, hfollows⟩ := h.follows hjob
  obtain ⟨strands, hplays, -⟩ := h.runs
  have hinformed := hplays.informed hfiles
  exact hfollows.made (fun entry hentry => hinformed entry (mem_own.mp hentry).1)
    fun name command hfound => hnone name command hfound _

/-! ### Two polls -/

/-- Two stages at two moments have the same definitions at hand, and the same lookups break
down. -/
structure SameDefinitions (stage : Stage) (scene : Scene) (stage' : Stage) (scene' : Scene) : Prop
    where
  workflows : ∀ name, stage'.commandAt scene' name = stage.commandAt scene name
  forms : ∀ id, stage'.formAt scene' id = stage.formAt scene id
  breakdown : ∀ name, stage'.breakdown (.workflow name) = stage.breakdown (.workflow name)

section
variable {stage stage' : Stage} {pages pages' : SessionId → Behaviour}
  {backlog backlog' : Backlog Scene} {plan plan' : RunPlan} {limit limit' time time' : Nat}
  {scene scene' : Scene} {batch batch' : List Job} {log log' : List (Entry Scene)}
  {ended ended' : Timed Scene (List (Except RunError Context))}

/-- The offers of a batch do not influence each other. In any two polls that are not stopped and
that make a run for one offer, with the same routes, applicant and definitions, with sessions
for the offer that open alike and show pages that are alike, and with directories that can be
made for its screenshots, the session of the offer receives the same calls, and the attempt for
it has the same status and message, but for generated names. -/
theorem attempt_independent_of_batch
    (h : PollsBy (stage.hostWith pages) backlog plan limit none time scene batch log ended)
    (h' : PollsBy (stage'.hostWith pages') backlog' plan' limit' none time' scene'
      batch' log' ended')
    (hroutes : plan'.routes = plan.routes) (happlicant : plan'.applicant = plan.applicant)
    (hdefinitions : SameDefinitions stage (backlog.pending limit scene).world stage'
      (backlog'.pending limit' scene').world)
    (hfiles : ∀ entry ∈ log, stage.SameFiles (backlog.pending limit scene).world entry.found)
    (hfiles' : ∀ entry ∈ log', stage'.SameFiles (backlog'.pending limit' scene').world entry.found)
    {i j : Nat} {job : Job} (hjob : batch[i]? = some job) (hjob' : batch'[j]? = some job)
    (hmade : ∀ entry ∈ own i log, Made entry.event.op entry.event.answer)
    (hmade' : ∀ entry ∈ own j log', Made entry.event.op entry.event.answer)
    (hopening : SameOpening (opening ((own i log).map Entry.exchange))
      (opening ((own j log').map Entry.exchange)))
    (hpages : ∀ session session', opening ((own i log).map Entry.exchange) = some (.ok session) →
      opening ((own j log').map Entry.exchange) = some (.ok session') →
      PagesAlike (pages session) (pages' session')) :
    Option.Rel (List.Forall₂ SameCall) (callsOf ended.world (own i log))
        (callsOf ended'.world (own j log')) ∧
      ∃ settlements settlements' s s',
        SettledBy (stage.hostWith pages) backlog plan limit none time scene batch
          ended settlements ∧
        SettledBy (stage'.hostWith pages') backlog' plan' limit' none time' scene' batch' ended'
          settlements' ∧
        settlements[i]? = some s ∧ settlements'[j]? = some s' ∧ s.job = job ∧ s'.job = job ∧
        Option.Rel SameAttempt s.fate.attempt? s'.fate.attempt? := by
  obtain ⟨result, hresult, hmakes⟩ := h.makes hfiles hjob hmade
  obtain ⟨result', hresult', hmakes'⟩ := h'.makes hfiles' hjob' hmade'
  rw [hroutes, happlicant, funext hdefinitions.workflows, funext hdefinitions.forms,
    funext hdefinitions.breakdown] at hmakes'
  obtain ⟨hresults, hcalls⟩ := hmakes.alike hmakes' hopening hpages
  obtain ⟨settlements, hsettled⟩ := h.exists_settledBy
  obtain ⟨settlements', hsettled'⟩ := h'.exists_settledBy
  obtain ⟨s, hs, hsjob, hsresult⟩ := hsettled.exists_at hjob hresult
  obtain ⟨s', hs', hsjob', hsresult'⟩ := hsettled'.exists_at hjob' hresult'
  refine ⟨hcalls, settlements, settlements', s, s', hsettled, hsettled', hs, hs', hsjob, hsjob', ?_⟩
  apply sameAttempt_of_fits (hsettled.sound s (List.mem_of_getElem? hs)).fits
    (hsettled'.sound s' (List.mem_of_getElem? hs')).fits
  rw [hsresult, hsresult']
  exact hresults

end

/-! ### An instance -/

/-- A stage with one workflow, which takes a screenshot, and a page that fails. -/
def shootingStage : Stage :=
  { bareStage with workflows := .given [("pracuj", .screenshot "")] }

theorem asks_shootingStage {scene : Scene} {name : String} {command : Workflow.Command}
    (hfound : shootingStage.commandAt scene name = .ok command) (ctx : Context) :
    Program.Asks (fun op => ∀ path, op ≠ Workflow.Browse.makeDirectories path)
      (Workflow.execute command ctx) := by
  obtain rfl : Workflow.Command.screenshot "" = command := by
    simp only [Stage.commandAt, shootingStage, Rehearsal.Definitions.get, Dict.find?] at hfound
    by_cases hname : "pracuj" = name
    · rw [if_pos hname] at hfound
      exact Except.ok.inj hfound
    · rw [if_neg hname] at hfound
      cases hfound
  rw [Workflow.execute]
  refine Program.Asks.bind (I := Workflow.browsing) ?_ ?_
  · refine ⟨?_, fun name => ⟨?_, fun answer => ?_⟩⟩
    · rintro path ⟨⟩
    · rintro path ⟨⟩
    · cases answer <;> trivial
  · intro r
    cases r <;> trivial

/-- A poll of one offer alone, and a poll of the same offer after another. -/
theorem attempt_independent_of_batch_shooting :
    ∃ log log' ended ended', ∃ settlements settlements' : List Settlement,
      ∃ s s' : Settlement,
      PollsBy shootingStage.host shootingStage.memoryBacklog ⟨.standard, .unknown, false⟩ 1 none 0
        (sceneWith [pendingOffer 2]) [pendingOffer 2] log ended ∧
      PollsBy shootingStage.host shootingStage.memoryBacklog ⟨.standard, .unknown, false⟩ 2 none 0
        (sceneWith [pendingOffer 1, pendingOffer 2])
        [pendingOffer 1, pendingOffer 2] log' ended' ∧
      Option.Rel (List.Forall₂ SameCall) (callsOf ended.world (own 0 log))
        (callsOf ended'.world (own 1 log')) ∧
      settlements[0]? = some s ∧ settlements'[1]? = some s' ∧
      s.job = pendingOffer 2 ∧ s'.job = pendingOffer 2 ∧
      Option.Rel SameAttempt s.fate.attempt? s'.fate.attempt? := by
  have halone : Job.selectPending [pendingOffer 2] 1 = [pendingOffer 2] := by decide +kernel
  have hafter : Job.selectPending [pendingOffer 1, pendingOffer 2] 2 =
      [pendingOffer 1, pendingOffer 2] :=
    Job.selectPending_of_pairwise (by decide) (by decide)
  obtain ⟨log, ended, h⟩ : ∃ log ended, PollsBy shootingStage.host shootingStage.memoryBacklog
      ⟨.standard, .unknown, false⟩ 1 none 0 (sceneWith [pendingOffer 2])
      [pendingOffer 2] log ended :=
    exists_pollsBy _ _ _ _ (congrArg Except.ok halone)
  obtain ⟨log', ended', h'⟩ : ∃ log ended, PollsBy shootingStage.host shootingStage.memoryBacklog
      ⟨.standard, .unknown, false⟩ 2 none 0
      (sceneWith [pendingOffer 1, pendingOffer 2])
      [pendingOffer 1, pendingOffer 2] log ended :=
    exists_pollsBy _ _ _ _ (congrArg Except.ok hafter)
  have hpage : PagesAlike shootingStage.page shootingStage.page :=
    ⟨fun _ _ => rfl, fun _ _ => .call (.refl _)⟩
  rw [← Stage.hostWith_page] at h h'
  have hfiles : ∀ (scene : Scene) (log : List (Entry Scene)), ∀ entry ∈ log,
      shootingStage.SameFiles scene entry.found := fun _ _ _ _ => ⟨trivial, trivial⟩
  have hplace : [pendingOffer 2][0]? = some (pendingOffer 2) := rfl
  have hplace' : [pendingOffer 1, pendingOffer 2][1]? = some (pendingOffer 2) := rfl
  obtain ⟨hcalls, settlements, settlements', s, s', -, -, hs, hs', hjob, hjob', hattempts⟩ :=
    attempt_independent_of_batch h h' rfl rfl ⟨fun _ => rfl, fun _ => rfl, fun _ => rfl⟩
      (hfiles _ log) (hfiles _ log') hplace hplace'
      (h.made (hfiles _ log) (fun _ _ => asks_shootingStage) hplace)
      (h'.made (hfiles _ log') (fun _ _ => asks_shootingStage) hplace')
      (fun _ _ hanswer hanswer' => (h.map_of_opening (fun _ _ => rfl) hanswer).trans
        (h'.map_of_opening (fun _ _ => rfl) hanswer').symm)
      (fun _ _ _ _ => hpage)
  exact ⟨log, log', ended, ended', settlements, settlements', s, s', h, h', hcalls, hs, hs', hjob,
    hjob', hattempts⟩

end Jobflow.Schedule
