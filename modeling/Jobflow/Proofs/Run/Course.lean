import Jobflow.Proofs.Program
import Jobflow.Proofs.Run.Unfolding

/-!
The course of a run for an offer, step by step, and the ways in which it may end. A run
reports that it was stopped only if an event of its course told it so.
-/

namespace Jobflow.Run

open Jobflow.Cookie (Jar)
open Jobflow.Job (Job)
open Jobflow.Page (PageError)
open Jobflow.Workflow (Command Context Ended FlowError)

/-! ### Events -/

namespace Event

/-- The lookup of a workflow. -/
def lookup (name : String) (found : Except FlowError Command) (asked answered : Nat) : Event :=
  ⟨.workflow name, found, asked, answered⟩

/-- A look at whether the run was asked to stop. -/
def check (stopped : Bool) (asked answered : Nat) : Event :=
  ⟨.isCancelled, stopped, asked, answered⟩

/-- The opening of a session. -/
def opening (cookies : Option Jar) (opened : Except PageError SessionId) (asked answered : Nat) :
    Event :=
  ⟨.openSession cookies, opened, asked, answered⟩

end Event

/-! ### The course of a run -/

/-- How a run for an offer ended. -/
inductive Ending where
  /-- without the end of a workflow -/
  | failed (cause : RunError)
  /-- because it was asked to stop -/
  | stopped
  /-- with its workflow -/
  | finished (ended : Ended)

/-- The end of a run by that of its workflow, which may have been stopped. -/
def Ending.ofEnded : Option Ended → Ending
  | none => .stopped
  | some ended => .finished ended

/-- What the run reports. -/
def Ending.result : Ending → Except RunError Context
  | .failed cause => .error cause
  | .stopped => .error (.workflow .cancelled)
  | .finished ended => (verdict (some ended)).mapError .workflow

/-- The run of a workflow, from the cookies on: no session opens, the run is stopped when
the session is open, or the workflow is executed there until it ends or is stopped. -/
inductive InSession (keepsCookies : Bool) (command : Command) (initial : Context) :
    List Event → Ending → Prop
  | unopened {restoring : List Event} {saved : Option Jar} {e : PageError} {asked answered : Nat} :
      Program.Performs (restored keepsCookies (Cookie.siteOf initial))
        (restoring.map Event.exchange) saved →
      InSession keepsCookies command initial
        (restoring ++ [.opening saved (.error e) asked answered]) (.failed (.workflow (.page e)))
  | stoppedAtOnce {restoring leaving : List Event} {saved : Option Jar} {session : SessionId}
      {asked answered looked seen : Nat} :
      Program.Performs (restored keepsCookies (Cookie.siteOf initial))
        (restoring.map Event.exchange) saved →
      Program.Performs (leave keepsCookies (Cookie.siteOf initial) session none)
        (leaving.map Event.exchange) () →
      InSession keepsCookies command initial
        (restoring ++ .opening saved (.ok session) asked answered :: .check true looked seen ::
          leaving) .stopped
  | executed {restoring browsing leaving : List Event} {saved : Option Jar} {session : SessionId}
      {asked answered looked seen : Nat} {ended : Option Ended} :
      Program.Performs (restored keepsCookies (Cookie.siteOf initial))
        (restoring.map Event.exchange) saved →
      Program.Performs (drive session (Workflow.execute command initial))
        (browsing.map Event.exchange) ended →
      Program.Performs (leave keepsCookies (Cookie.siteOf initial) session ended)
        (leaving.map Event.exchange) () →
      InSession keepsCookies command initial
        (restoring ++ .opening saved (.ok session) asked answered :: .check false looked seen ::
          (browsing ++ leaving)) (.ofEnded ended)

/-- A run for an offer that does not break down: its host has no workflow, the workflow
cannot be loaded, the run is stopped before it begins, or it takes place in a session. -/
inductive Course (plan : RunPlan) (job : Job) : List Event → Ending → Prop
  | unrouted {e : Job.RouteError} : plan.routes.resolve job.url = .error e →
      Course plan job [] (.failed (.routing e))
  | unloaded {name : String} {e : FlowError} {asked answered : Nat} :
      plan.routes.resolve job.url = .ok name →
      Course plan job [.lookup name (.error e) asked answered] (.failed (.workflow e))
  | stoppedAtOnce {name : String} {command : Command} {asked answered looked seen : Nat} :
      plan.routes.resolve job.url = .ok name →
      Course plan job [.lookup name (.ok command) asked answered, .check true looked seen] .stopped
  | begun {name : String} {command : Command} {asked answered looked seen : Nat}
      {events : List Event} {ending : Ending} : plan.routes.resolve job.url = .ok name →
      InSession plan.keepsCookies command (Job.initialContext job plan.applicant) events ending →
      Course plan job
        (.lookup name (.ok command) asked answered :: .check false looked seen :: events) ending

/-! ### Uniqueness -/

/-- Events that a program accounts for are told from those after them. -/
theorem events_unique {α : Type} {p : Running α} {events events' rest rest' : List Event} {a a' : α}
    (h : Program.Performs p (events.map Event.exchange) a)
    (h' : Program.Performs p (events'.map Event.exchange) a')
    (heq : events ++ rest = events' ++ rest') : a = a' ∧ rest = rest' := by
  have hmap : events.map Event.exchange ++ rest.map Event.exchange =
      events'.map Event.exchange ++ rest'.map Event.exchange := by
    rw [← List.map_append, heq, List.map_append]
  obtain ⟨hsame, ha⟩ := h.unique h' hmap
  have hlength : events.length = events'.length := by
    rw [← List.length_map Event.exchange, hsame, List.length_map]
  exact ⟨ha, (List.append_inj heq hlength).2⟩

theorem InSession.unique {keepsCookies : Bool} {command : Command} {initial : Context}
    {events : List Event} {ending ending' : Ending}
    (h : InSession keepsCookies command initial events ending)
    (h' : InSession keepsCookies command initial events ending') : ending = ending' := by
  generalize hevents : events = events' at h'
  -- the cookies come first in both, so that what follows them can be compared
  cases h with
  | unopened hrestored =>
    cases h' with
    | unopened hrestored' =>
      obtain ⟨rfl, hrest⟩ := events_unique hrestored hrestored' hevents
      cases hrest
      rfl
    | stoppedAtOnce hrestored' | executed hrestored' =>
      obtain ⟨rfl, hrest⟩ := events_unique hrestored hrestored' hevents
      cases hrest
  | stoppedAtOnce hrestored =>
    cases h' with
    | stoppedAtOnce => rfl
    | unopened hrestored' | executed hrestored' =>
      obtain ⟨rfl, hrest⟩ := events_unique hrestored hrestored' hevents
      cases hrest
  | executed hrestored hbrowsing =>
    cases h' with
    | unopened hrestored' | stoppedAtOnce hrestored' =>
      obtain ⟨rfl, hrest⟩ := events_unique hrestored hrestored' hevents
      cases hrest
    | executed hrestored' hbrowsing' =>
      obtain ⟨rfl, hrest⟩ := events_unique hrestored hrestored' hevents
      obtain ⟨hopening, hinside⟩ := List.cons.inj hrest
      cases hopening
      obtain ⟨-, hafter⟩ := List.cons.inj hinside
      obtain ⟨rfl, -⟩ := events_unique hbrowsing hbrowsing' hafter
      rfl

/-- The events of a run tell how it ended. -/
theorem Course.unique {plan : RunPlan} {job : Job} {events : List Event} {ending ending' : Ending}
    (h : Course plan job events ending) (h' : Course plan job events ending') :
    ending = ending' := by
  cases h with
  | unrouted hroute =>
    cases h' with
    | unrouted hroute' =>
      cases hroute.symm.trans hroute'
      rfl
  | unloaded hroute =>
    cases h' with
    | unloaded => rfl
  | stoppedAtOnce hroute =>
    cases h' with
    | stoppedAtOnce => rfl
  | begun hroute hsession =>
    cases h' with
    | begun hroute' hsession' => exact hsession.unique hsession'

/-! ### Runs that come to their end -/

section
variable {W α β : Type} {host : Host W} {cancel : Cancellation}

/-- A program of one operation unfolds to one event. -/
theorem Unfolds.of_single {time finish : Nat} {op : RunOp} {events : List Event} {a : op.Answer}
    (h : Unfolds host cancel time (.step op .done : Running op.Answer) events finish a) :
    events = [⟨op, a, time, finish⟩] := by
  cases h with
  | step hreply htail =>
    cases htail with
    | done => rfl

theorem Unfolds.of_pure {time finish : Nat} {events : List Event} {a b : α}
    (h : Unfolds host cancel time (pure a : Running α) events finish b) :
    events = [] ∧ finish = time ∧ b = a := by
  change Unfolds host cancel time (.done a) events finish b at h
  cases h with
  | done => exact ⟨rfl, rfl, rfl⟩

private theorem executed_of_unfolds {session : SessionId} {command : Command} {initial : Context}
    {time finish : Nat} {events : List Event} {ended : Option Ended}
    (h : Unfolds host cancel time (executeIn session command initial) events finish ended) :
    (∃ looked seen, events = [.check true looked seen] ∧ ended = none) ∨
      ∃ looked seen browsing, events = .check false looked seen :: browsing ∧
        Program.Performs (drive session (Workflow.execute command initial))
          (browsing.map Event.exchange) ended := by
  obtain ⟨checking, browsing, mid, stopped, rfl, hchecking, hbrowsing⟩ := h.of_bind
  obtain rfl := hchecking.of_single
  cases stopped with
  | true =>
    obtain ⟨rfl, -, rfl⟩ := hbrowsing.of_pure
    exact .inl ⟨_, _, rfl, rfl⟩
  | false => exact .inr ⟨_, _, browsing, rfl, hbrowsing.performs⟩

theorem inSession_of_unfolds {keepsCookies : Bool} {command : Command} {initial : Context}
    {time finish : Nat} {events : List Event} {result : Except FlowError Context}
    (h : Unfolds host cancel time (runWorkflow keepsCookies command initial) events finish result) :
    ∃ ending, InSession keepsCookies command initial events ending ∧
      ending.result = result.mapError .workflow := by
  obtain ⟨restoring, later, _, saved, rfl, hrestored, hlater⟩ := h.of_bind
  obtain ⟨opening, inside, _, opened, rfl, hopening, hinside⟩ := hlater.of_bind
  obtain rfl := hopening.of_single
  cases opened with
  | error e =>
    obtain ⟨rfl, -, rfl⟩ := hinside.of_pure
    exact ⟨_, .unopened hrestored.performs, rfl⟩
  | ok session =>
    obtain ⟨executing, after, _, ended, rfl, hexecuting, hafter⟩ := hinside.of_bind
    obtain ⟨leaving, rest, _, ⟨⟩, rfl, hleaving, hrest⟩ := hafter.of_bind
    obtain ⟨rfl, -, rfl⟩ := hrest.of_pure
    rcases executed_of_unfolds hexecuting with
      ⟨looked, seen, rfl, rfl⟩ | ⟨looked, seen, browsing, rfl, hbrowsing⟩
    · refine ⟨.stopped, ?_, rfl⟩
      simpa [Event.opening] using InSession.stoppedAtOnce hrestored.performs hleaving.performs
    · refine ⟨.ofEnded ended, ?_, by cases ended <;> rfl⟩
      simpa [Event.opening] using InSession.executed hrestored.performs hbrowsing hleaving.performs

theorem course_of_unfolds {plan : RunPlan} {job : Job} {time finish : Nat} {events : List Event}
    {result : Except RunError Context}
    (h : Unfolds host cancel time (runJob plan job) events finish result) :
    ∃ ending, Course plan job events ending ∧ ending.result = result := by
  unfold runJob at h
  split at h
  · next e hroute =>
    obtain ⟨rfl, -, rfl⟩ := h.of_pure
    exact ⟨_, .unrouted hroute, rfl⟩
  · next name hroute =>
    obtain ⟨finding, later, _, found, rfl, hfinding, hlater⟩ := h.of_bind
    obtain rfl := hfinding.of_single
    cases found with
    | error e =>
      obtain ⟨rfl, -, rfl⟩ := hlater.of_pure
      exact ⟨_, .unloaded hroute, rfl⟩
    | ok command =>
      obtain ⟨checking, inside, _, stopped, rfl, hchecking, hinside⟩ := hlater.of_bind
      obtain rfl := hchecking.of_single
      cases stopped with
      | true =>
        obtain ⟨rfl, -, rfl⟩ := hinside.of_pure
        exact ⟨_, .stoppedAtOnce hroute, rfl⟩
      | false =>
        obtain ⟨inner, rest, _, result, rfl, hinner, hrest⟩ := hinside.of_bind
        obtain ⟨rfl, -, rfl⟩ := hrest.of_pure
        obtain ⟨ending, hsession, hresult⟩ := inSession_of_unfolds hinner
        refine ⟨ending, ?_, hresult⟩
        simpa [Event.lookup, Event.check] using Course.begun hroute hsession

/-! ### Runs that were stopped -/

private theorem exists_cut_of_performs {session : SessionId} {p : Workflow.Browsing α}
    {trace : List ((op : RunOp) × op.Answer)}
    (h : Program.Performs (drive session p : Running (Option α)) trace none) :
    ∃ op, ⟨.browse session op, none⟩ ∈ trace := by
  induction p generalizing trace with
  | done a =>
    rw [drive] at h
    cases h
  | step op next ih =>
    rw [drive] at h
    cases h with
    | @step _ _ answer rest _ htail =>
      cases answer with
      | none => exact ⟨op, List.mem_cons_self⟩
      | some answer =>
        obtain ⟨cut, hcut⟩ := ih answer htail
        exact ⟨cut, List.mem_cons_of_mem _ hcut⟩

/-- A run whose workflow did not come to its end was told to stop. -/
theorem exists_stops_of_drive {session : SessionId} {p : Workflow.Browsing α} {events : List Event}
    (h : Program.Performs (drive session p) (events.map Event.exchange) none) :
    ∃ event ∈ events, event.stops := by
  obtain ⟨op, hcut⟩ := exists_cut_of_performs h
  obtain ⟨⟨eventOp, answer, asked, answered⟩, hevent, heq⟩ := List.mem_map.mp hcut
  refine ⟨_, hevent, ?_⟩
  cases heq
  rfl

theorem InSession.stops {keepsCookies : Bool} {command : Command} {initial : Context}
    {events : List Event} {ending : Ending}
    (h : InSession keepsCookies command initial events ending) (hending : ending = .stopped) :
    ∃ event ∈ events, event.stops := by
  cases h with
  | unopened => cases hending
  | @stoppedAtOnce _ _ _ _ _ _ looked seen => exact ⟨.check true looked seen, by simp, rfl⟩
  | @executed _ _ _ _ _ _ _ _ _ ended _ hbrowsing =>
    cases ended with
    | none =>
      obtain ⟨event, hevent, hstops⟩ := exists_stops_of_drive hbrowsing
      exact ⟨event, by simp [hevent], hstops⟩
    | some ended => cases hending

theorem Course.stops {plan : RunPlan} {job : Job} {events : List Event}
    (h : Course plan job events .stopped) : ∃ event ∈ events, event.stops := by
  cases h with
  | @stoppedAtOnce _ _ _ _ looked seen => exact ⟨.check true looked seen, by simp, rfl⟩
  | begun _ hsession =>
    obtain ⟨event, hevent, hstops⟩ := hsession.stops rfl
    exact ⟨event, by simp [hevent], hstops⟩

/-! ### Runs for offers -/

/-- `RunsTo host cancel plan start job events finish ending`: a run for the offer that
begins at `start` may go on as in `events` and end like this. -/
inductive RunsTo (host : Host W) (cancel : Cancellation) (plan : RunPlan) (start : Nat) (job : Job)
    (events : List Event) (finish : Nat) : Ending → Prop
  | whole {ending : Ending} :
      Unfolds host cancel start (runJob plan job) events finish ending.result →
      Course plan job events ending → RunsTo host cancel plan start job events finish ending
  | broken {report : String} :
      BreaksDown host cancel start (runJob plan job) events finish report →
      RunsTo host cancel plan start job events finish (.failed (.aborted report))

theorem Concludes.runsTo {plan : RunPlan} {start finish : Nat} {job : Job} {events : List Event}
    {result : Except RunError Context}
    (h : Concludes host cancel (fun report => .error (.aborted report)) start (runJob plan job)
      events finish result) :
    ∃ ending, RunsTo host cancel plan start job events finish ending ∧
      ending.result = result := by
  cases h with
  | whole hwhole =>
    obtain ⟨ending, hcourse, rfl⟩ := course_of_unfolds hwhole
    exact ⟨ending, .whole hwhole hcourse, rfl⟩
  | broken hbroken => exact ⟨_, .broken hbroken, rfl⟩

theorem RunsTo.course {plan : RunPlan} {start finish : Nat} {job : Job} {events : List Event}
    (h : RunsTo host cancel plan start job events finish .stopped) :
    Course plan job events .stopped := by
  cases h with
  | whole _ hcourse => exact hcourse

/-- A run is stopped only when that was asked for, by an event of the run. -/
theorem RunsTo.stops {plan : RunPlan} {start finish : Nat} {job : Job} {events : List Event}
    (h : RunsTo host cancel plan start job events finish .stopped) :
    ∃ stop, cancel = some stop ∧
      ∃ event ∈ events, event.stops ∧ stop ≤ event.answered ∧ event.answered ≤ finish := by
  cases h with
  | whole hwhole hcourse =>
    obtain ⟨event, hevent, hstops⟩ := hcourse.stops
    obtain ⟨stop, hcancel, hle⟩ := hwhole.stops event hevent hstops
    exact ⟨stop, hcancel, event, hevent, hstops, hle, hwhole.answered_le event hevent⟩

end

end Jobflow.Run
