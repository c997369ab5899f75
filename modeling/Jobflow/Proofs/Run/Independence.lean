import Jobflow.Proofs.Run.Cancellation
import Jobflow.Proofs.Run.Seclusion

/-!
What one run of a batch does depends on its offer, on the definitions and on its page, and on
nothing else: two runs for one offer, each in company of its own, end the same but for
generated names, and so are the calls that they make.
-/

namespace Jobflow.Run

open Jobflow.Cookie (Jar)
open Jobflow.Job (Applicant Job Routes)
open Jobflow.Page (Behaviour Call PageError)
open Jobflow.Rehearsal (Scene Stage)
open Jobflow.Workflow
  (Browse Command Context Ended FlowError Form SameCall SameEnd SameFailure SameResult)

/-! ### Runs after their workflow is found -/

/-- The operation looks up no workflow. -/
def RunOp.IsNoLookup : RunOp → Prop
  | .workflow _ => False
  | _ => True

/-- The operation neither asks for a session nor calls one. -/
def RunOp.IsApart : RunOp → Prop
  | .openSession _ | .browse .. => False
  | _ => True

section
variable {W α : Type} {P : RunOp → Prop}

theorem asks_restored (hload : ∀ site, P (.loadCookies site)) (keepsCookies : Bool)
    (site : String) :
    Program.Asks P (restored keepsCookies site) := by
  unfold restored
  split
  · refine ⟨hload site, fun answer => ?_⟩
    cases answer <;> exact Program.asks_pure _
  · exact Program.asks_pure _

theorem asks_leave (hexport : ∀ session, P (.exportCookies session))
    (hsave : ∀ site jar, P (.saveCookies site jar)) (hclose : ∀ session, P (.closeSession session))
    (keepsCookies : Bool) (site : String) (session : SessionId) (ended : Option Ended) :
    Program.Asks P (leave keepsCookies site session ended) := by
  have hlast : Program.Asks (I := running) P (do
      let _ ← closeSession session
      return ()) := ⟨hclose session, fun _ => Program.asks_pure ()⟩
  have hkeep : Program.Asks P (keepCookies site session) := by
    refine ⟨hexport session, fun (answer : Except PageError Jar) => ?_⟩
    cases answer with
    | error e => exact Program.asks_pure ()
    | ok jar =>
      change Program.Asks (I := running) P (if jar.cookies.isEmpty then _ else _)
      split
      · exact Program.asks_pure ()
      · exact ⟨hsave site jar, fun _ => Program.asks_pure ()⟩
  unfold leave
  split
  · exact hkeep.bind fun _ => hlast
  · exact hlast

theorem asks_drive {Q : Browse → Prop} {session : SessionId} {p : Workflow.Browsing α}
    (hp : Program.Asks Q p) (hbrowse : ∀ op, Q op → P (.browse session op)) :
    Program.Asks P (drive session p) := by
  induction p with
  | done a => exact Program.asks_pure _
  | step op next ih =>
    rw [drive]
    refine ⟨hbrowse op hp.1, fun (answer : Option op.Answer) => ?_⟩
    cases answer with
    | none => exact Program.asks_pure none
    | some answer => exact ih answer (hp.2 answer)

/-- What a run may ask once its workflow is found. -/
theorem asks_runWorkflow (hP : ∀ op : RunOp, op.IsNoLookup → ¬ op.IsBrowse → P op)
    (keepsCookies : Bool) {command : Command} {initial : Context}
    (hexecute : ∀ session, Program.Asks P (drive session (Workflow.execute command initial))) :
    Program.Asks P (runWorkflow keepsCookies command initial) := by
  apply (asks_restored (fun _ => hP _ trivial id) keepsCookies _).bind
  intro saved
  refine ⟨hP _ trivial id, fun (opened : Except PageError SessionId) => ?_⟩
  cases opened with
  | error e => exact Program.asks_pure _
  | ok session =>
    have hexecuteIn : Program.Asks P (executeIn session command initial) := by
      refine ⟨hP _ trivial id, fun (stopped : Bool) => ?_⟩
      cases stopped with
      | true => exact Program.asks_pure _
      | false => exact hexecute session
    apply hexecuteIn.bind
    intro ended
    exact (asks_leave (fun _ => hP _ trivial id) (fun _ _ => hP _ trivial id)
      (fun _ => hP _ trivial id) _ _ _ _).bind fun _ => Program.asks_pure _

theorem Follows.asks {host : Host W} {cancel : Cancellation} {aborted : String → α}
    {place time finish : Nat} {p : Running α} {entries : List (Entry W)} {a : α}
    (h : Follows host cancel aborted place time p entries finish a) (hp : Program.Asks P p) :
    ∀ entry ∈ entries, P entry.event.op := by
  induction h with
  | done => exact List.forall_mem_nil _
  | step _ _ _ ih => exact List.forall_mem_cons.mpr ⟨hp.1, ih (hp.2 _)⟩
  | broken => exact List.forall_mem_singleton.mpr hp.1

/-- A run whose surroundings cannot break down comes to its end. -/
theorem Follows.unfolds {host : Host W} {cancel : Cancellation} {aborted : String → α}
    {place time finish : Nat} {p : Running α} {entries : List (Entry W)} {a : α}
    (h : Follows host cancel aborted place time p entries finish a)
    (hwhole : ∀ op, P op → ∀ w, host.breakdown op w = none) (hp : Program.Asks P p) :
    Unfolds host cancel time p (entries.map Entry.event) finish a := by
  induction h with
  | done => exact .done _ _
  | step hreply _ _ ih => exact .step hreply (ih (hp.2 _))
  | @broken time op next w reply report hreply hbroken =>
    rw [brokenBy, hwhole op hp.1 w, ite_self] at hbroken
    cases hbroken

end

/-- A run for an offer on a stage: the lookup of its workflow breaks down, or the run goes on to
its end. -/
theorem Follows.course {stage : Stage} {pages : SessionId → Behaviour} {cancel : Cancellation}
    {place start finish : Nat} {plan : RunPlan} {job : Job} {entries : List (Entry Scene)}
    {result : Except RunError Context}
    (h : Follows (stage.hostWith pages) cancel (fun report => .error (.aborted report)) place start
      (runJob plan job) entries finish result) :
    (∃ name found asked answered report, plan.routes.resolve job.url = .ok name ∧
        stage.breakdown (.workflow name) = some report ∧
        entries.map Entry.event = [.lookup name found asked answered] ∧
        result = .error (.aborted report)) ∨
      (∀ name, plan.routes.resolve job.url = .ok name → stage.breakdown (.workflow name) = none) ∧
        Unfolds (stage.hostWith pages) cancel start (runJob plan job) (entries.map Entry.event)
          finish result := by
  unfold runJob at h ⊢
  split at h
  · next e hroute =>
    cases h
    exact .inr ⟨by simp [hroute], .done _ _⟩
  · next name hroute =>
    change Follows _ _ _ _ _ (.step (.workflow name) _) _ _ _ at h
    cases h with
    | broken hreply hbroken =>
      exact .inl ⟨name, _, _, _, _, hroute, hbroken, rfl, rfl⟩
    | step hreply hbroken hrest =>
      have hnone : stage.breakdown (.workflow name) = none := hbroken
      refine .inr ⟨fun other hother => Except.ok.inj (hroute.symm.trans hother) ▸ hnone, ?_⟩
      refine .step hreply (hrest.unfolds (P := RunOp.IsNoLookup) ?_ ?_)
      · intro op hop w
        cases op with
        | workflow => cases hop
        | _ => rfl
      · dsimp only [Program.bind]
        split
        · exact Program.asks_pure _
        · refine ⟨trivial, fun (stopped : Bool) => ?_⟩
          cases stopped with
          | true => exact Program.asks_pure _
          | false =>
            apply (asks_runWorkflow (fun _ h _ => h) _ fun session => ?_).bind
            · exact fun _ => Program.asks_pure _
            · exact asks_drive (Program.asks_true _) fun _ _ => trivial

/-- The operation makes no directory. -/
def RunOp.MakesNoDirectory : RunOp → Prop
  | .browse _ (.makeDirectories _) => False
  | _ => True

theorem RunOp.MakesNoDirectory.made {op : RunOp} (h : op.MakesNoDirectory) (answer : op.Answer) :
    Made op answer := by
  cases op with
  | browse session op =>
    cases op with
    | makeDirectories => cases h
    | _ => cases answer <;> trivial
  | _ => trivial

/-- Where no workflow makes a directory, none is missing. -/
theorem Follows.made {stage : Stage} {pages : SessionId → Behaviour} {cancel : Cancellation}
    {place start finish : Nat} {plan : RunPlan} {job : Job} {entries : List (Entry Scene)}
    {result : Except RunError Context} {commands : String → Except FlowError Command}
    {forms : String → Except FlowError Form}
    (h : Follows (stage.hostWith pages) cancel (fun report => .error (.aborted report)) place start
      (runJob plan job) entries finish result)
    (hinformed : ∀ entry ∈ entries, Informed commands forms entry.event.op entry.event.answer)
    (hnone : ∀ name command, commands name = .ok command →
      Program.Asks (fun op => ∀ path, op ≠ Browse.makeDirectories path)
        (Workflow.execute command (Job.initialContext job plan.applicant))) :
    ∀ entry ∈ entries, Made entry.event.op entry.event.answer := by
  unfold runJob at h
  split at h
  · cases h
    exact List.forall_mem_nil _
  · next name hroute =>
    change Follows _ _ _ _ _ (.step (.workflow name) _) _ _ _ at h
    cases h with
    | broken => exact List.forall_mem_singleton.mpr trivial
    | @step _ _ _ _ w reply entries _ hreply hbroken hrest =>
      obtain ⟨hfound, -⟩ := List.forall_mem_cons.mp hinformed
      refine List.forall_mem_cons.mpr ⟨trivial, fun entry hentry => ?_⟩
      refine (hrest.asks (P := RunOp.MakesNoDirectory) ?_ entry hentry).made _
      dsimp only [Program.bind]
      split
      · exact Program.asks_pure _
      · next command hcommand =>
        refine ⟨trivial, fun (stopped : Bool) => ?_⟩
        cases stopped with
        | true => exact Program.asks_pure _
        | false =>
          refine (asks_runWorkflow ?_ _ fun session => ?_).bind fun _ => Program.asks_pure _
          · intro op _ hbrowse
            cases op with
            | browse => exact absurd trivial hbrowse
            | _ => trivial
          · apply asks_drive (hnone name command (hfound.symm.trans hcommand))
            intro op hop
            cases op with
            | makeDirectories path => exact absurd rfl (hop path)
            | _ => trivial

/-! ### The session of a run -/

/-- What the run was answered when it asked for a session, if it did. -/
def opening (trace : List Exchange) : Option (Except PageError SessionId) :=
  trace.findSome? fun
    | ⟨.openSession _, opened⟩ => some opened
    | _ => none

theorem opening_cons_of_isApart {exchange : Exchange} (h : RunOp.IsApart exchange.1)
    (rest : List Exchange) : opening (exchange :: rest) = opening rest := by
  obtain ⟨op, answer⟩ := exchange
  cases op with
  | openSession => cases h
  | browse => cases h
  | _ => rfl

theorem opening_append_of_isApart {first : List Exchange}
    (h : ∀ exchange ∈ first, RunOp.IsApart exchange.1) (rest : List Exchange) :
    opening (first ++ rest) = opening rest := by
  induction first with
  | nil => rfl
  | cons exchange tail ih =>
    obtain ⟨hhead, htail⟩ := List.forall_mem_cons.mp h
    rw [List.cons_append, opening_cons_of_isApart hhead, ih htail]

/-- A run that has a session keeps it. -/
theorem Path.session?_eq {phase last : Phase} {trace : List Exchange} (h : Path phase trace last)
    {session : SessionId} (hphase : phase.session? = some session) :
    last.session? = some session := by
  induction h with
  | nil => exact hphase
  | @cons phase last op answer trace hallows _ ih =>
    have hopens : opens ⟨op, answer⟩ = false := by
      cases op with
      | openSession =>
        cases phase with
        | outside => cases hphase
        | _ => cases hallows
      | _ => rfl
    exact ih ((Phase.session?_after hallows hopens).trans hphase)

/-- The session of a run is the one that opened for it. -/
theorem Path.session?_eq_opening {trace : List Exchange} {last : Phase}
    (h : Path .outside trace last) : last.session? = (opening trace).bind Except.toOption := by
  generalize hphase : Phase.outside = phase at h
  induction h with
  | nil =>
    subst hphase
    rfl
  | @cons phase last op answer trace hallows hrest ih =>
    subst hphase
    cases op with
    | openSession cookies =>
      change last.session? = (some answer).bind Except.toOption
      cases answer with
      | error e =>
        obtain rfl := Path.of_refused hrest
        cases hrest
        rfl
      | ok session =>
        have hinside : (Phase.inside session).session? = some session := rfl
        exact Path.session?_eq hrest hinside
    | isCancelled => exact ih rfl
    | workflow => exact ih rfl
    | loadCookies => exact ih rfl
    | _ => cases hallows

/-- The calls on the session of a run, if it had one. -/
def callsOf (scene : Scene) (entries : List (Entry Scene)) : Option (List Call) :=
  ((opening (entries.map Entry.exchange)).bind Except.toOption).map scene.history

/-! ### One run -/

section
variable {pages : SessionId → Behaviour} {commands : String → Except FlowError Command}
  {forms : String → Except FlowError Form} {breakdown : String → Option String} {plan : RunPlan}
  {job : Job}

/-- What becomes of a run for an offer that is not stopped: what its asking for a session was
answered, its result, and the calls on its session. -/
inductive Makes (pages : SessionId → Behaviour) (commands : String → Except FlowError Command)
    (forms : String → Except FlowError Form) (breakdown : String → Option String) (routes : Routes)
    (applicant : Applicant) (job : Job) :
    Option (Except PageError SessionId) → Except RunError Context → Option (List Call) → Prop
  | unrouted {e : Job.RouteError} : routes.resolve job.url = .error e →
      Makes pages commands forms breakdown routes applicant job none (.error (.routing e)) none
  | brokenOff {name report : String} : routes.resolve job.url = .ok name →
      breakdown name = some report →
      Makes pages commands forms breakdown routes applicant job none (.error (.aborted report)) none
  | unloaded {name : String} {e : FlowError} : routes.resolve job.url = .ok name →
      breakdown name = none → commands name = .error e →
      Makes pages commands forms breakdown routes applicant job none (.error (.workflow e)) none
  | refused {name : String} {command : Command} {e : PageError} :
      routes.resolve job.url = .ok name → breakdown name = none → commands name = .ok command →
      Makes pages commands forms breakdown routes applicant job (some (.error e))
        (.error (.workflow (.page e))) none
  | executed {name : String} {command : Command} {session : SessionId}
      {trace : List Workflow.Exchange} {ended : Ended} {calls : List Call} :
      routes.resolve job.url = .ok name → breakdown name = none → commands name = .ok command →
      Program.Performs (Workflow.execute command (Job.initialContext job applicant)) trace ended →
      Program.Along (Workflow.Serves (pages session) forms) [] trace calls →
      Makes pages commands forms breakdown routes applicant job (some (.ok session))
        ((verdict (some ended)).mapError .workflow) (some calls)

theorem along_eq_of_isApart {calls calls' : List Call} {trace : List Exchange}
    (h : Program.Along (Private pages forms) calls trace calls')
    (htrace : ∀ exchange ∈ trace, RunOp.IsApart exchange.1) : calls' = calls := by
  induction h with
  | nil => rfl
  | cons hstep _ ih =>
    obtain ⟨hhead, htail⟩ := List.forall_mem_cons.mp htrace
    rw [ih htail]
    cases hstep with
    | browsed => cases hhead
    | opened => cases hhead
    | other => rfl

theorem along_serves {session : SessionId} {calls calls' : List Call}
    {inner : List Workflow.Exchange}
    (h : Program.Along (Private pages forms) calls (inner.map (inSession session)) calls') :
    Program.Along (Workflow.Serves (pages session) forms) calls inner calls' := by
  induction inner generalizing calls with
  | nil =>
    cases h
    exact .nil _
  | cons exchange rest ih =>
    obtain ⟨op, answer⟩ := exchange
    cases h with
    | cons hstep hrest =>
      refine .cons ?_ (ih hrest)
      cases hstep with
      | browsed hserves => exact hserves
      | other hbrowse => exact absurd trivial hbrowse

/-- The calls on a session begin when it opens, and not with the look whether to stop. -/
theorem along_of_opened {cookies : Option Jar} {session : SessionId} {stopped : Bool}
    {trace : List Exchange} {calls calls' : List Call}
    (h : Program.Along (Private pages forms) calls
      (⟨.openSession cookies, .ok session⟩ :: ⟨.isCancelled, stopped⟩ :: trace) calls') :
    Program.Along (Private pages forms) [] trace calls' := by
  cases h with
  | cons hopen hafter =>
    cases hafter with
    | cons hcheck hrest =>
      cases hcheck with
      | other =>
        cases hopen with
        | opened => exact hrest
        | other _ hopens => cases hopens

/-- A run of a workflow in a session, by what its operations were answered. -/
theorem executes_of_inSession {events : List Event} {ending : Ending} {name : String}
    {command : Command} {calls : List Call}
    (h : InSession plan.keepsCookies command (Job.initialContext job plan.applicant) events ending)
    (hstops : ∀ event ∈ events, ¬ event.stops) (hroute : plan.routes.resolve job.url = .ok name)
    (hwhole : breakdown name = none) (hfound : commands name = .ok command)
    (halong : Program.Along (Private pages forms) [] (events.map Event.exchange) calls) :
    Makes pages commands forms breakdown plan.routes plan.applicant job
      (opening (events.map Event.exchange)) ending.result
      (((opening (events.map Event.exchange)).bind Except.toOption).map fun _ => calls) := by
  have hrestored {saved : Option Jar} {trace : List Exchange}
      (hperforms : Program.Performs (restored plan.keepsCookies
        (Cookie.siteOf (Job.initialContext job plan.applicant))) trace saved) :
      ∀ exchange ∈ trace, RunOp.IsApart exchange.1 :=
    hperforms.asks (asks_restored (fun _ => trivial) _ _)
  cases h with
  | @unopened restoring saved e asked answered hperforms =>
    rw [List.map_append, opening_append_of_isApart (hrestored hperforms)]
    exact .refused hroute hwhole hfound
  | @stoppedAtOnce restoring leaving saved session asked answered looked seen =>
    exact absurd rfl (hstops (.check true looked seen) (by simp))
  | @executed restoring browsing leaving saved session asked answered looked seen ended hperforms
      hbrowsing hleaving =>
    cases ended with
    | none =>
      obtain ⟨event, hevent, hstop⟩ := exists_stops_of_drive hbrowsing
      exact absurd hstop (hstops event (by simp [hevent]))
    | some ended =>
      obtain ⟨inner, hinner, hsame⟩ := performs_of_drive hbrowsing
      rw [List.map_append, opening_append_of_isApart (hrestored hperforms)]
      rw [List.map_append] at halong
      obtain ⟨mid, -, hafter⟩ := halong.of_append
      -- the calls begin with the session, and end with the execution
      rw [List.map_cons, List.map_cons, List.map_append] at hafter
      have hrest := along_of_opened hafter
      obtain ⟨made, hmade, hleft⟩ := hrest.of_append
      have hapart : ∀ exchange ∈ leaving.map Event.exchange, RunOp.IsApart exchange.1 :=
        hleaving.asks (asks_leave (fun _ => trivial) (fun _ _ => trivial)
          (fun _ => trivial) _ _ _ _)
      obtain rfl := along_eq_of_isApart hleft hapart
      rw [hsame] at hmade
      exact .executed hroute hwhole hfound hinner (along_serves hmade)

/-- What becomes of a run for an offer on a stage is up to its definitions and its page. -/
theorem makes_of_unfolds {stage : Stage} {start finish : Nat} {events : List Event}
    {result : Except RunError Context} {calls : List Call}
    (h : Unfolds (stage.hostWith pages) none start (runJob plan job) events finish result)
    (hwhole : ∀ name, plan.routes.resolve job.url = .ok name → breakdown name = none)
    (hinformed : ∀ event ∈ events, Informed commands forms event.op event.answer)
    (halong : Program.Along (Private pages forms) [] (events.map Event.exchange) calls) :
    Makes pages commands forms breakdown plan.routes plan.applicant job
      (opening (events.map Event.exchange)) result
      (((opening (events.map Event.exchange)).bind Except.toOption).map fun _ => calls) := by
  have hstops : ∀ event ∈ events, ¬ event.stops := by
    intro event hevent hstops
    obtain ⟨stop, hstop, -⟩ := h.stops event hevent hstops
    cases hstop
  obtain ⟨ending, hcourse, rfl⟩ := course_of_unfolds h
  cases hcourse with
  | unrouted hroute => exact .unrouted hroute
  | @unloaded name e asked answered hroute =>
    have hfound : Except.error e = commands name := hinformed _ List.mem_cons_self
    exact .unloaded hroute (hwhole name hroute) hfound.symm
  | @stoppedAtOnce name command asked answered looked seen hroute =>
    exact absurd rfl (hstops (.check true looked seen) (by simp))
  | @begun name command asked answered looked seen events ending hroute hsession =>
    have hfound : Except.ok command = commands name := hinformed _ List.mem_cons_self
    cases halong with
    | cons hlookup halong =>
      cases halong with
      | cons hcheck halong =>
        cases hlookup with
        | other =>
          cases hcheck with
          | other =>
            have hmakes := executes_of_inSession hsession
              (fun event hevent => hstops event (by simp [hevent])) hroute (hwhole name hroute)
              hfound.symm halong
            exact hmakes

end

/-! ### Two runs -/

/-- Failures of a run that are the same but for names. -/
inductive SameRunFailure : RunError → RunError → Prop
  | same (e : RunError) : SameRunFailure e e
  | workflow {e e' : FlowError} : SameFailure e e' → SameRunFailure (.workflow e) (.workflow e')

/-- Executions that end the same but for names are reported so. -/
theorem sameResult_verdict {ended ended' : Ended} (h : SameEnd ended ended') :
    SameResult SameFailure (verdict (some ended)) (verdict (some ended')) := by
  obtain ⟨result, ctx⟩ := ended
  obtain ⟨result', ctx'⟩ := ended'
  obtain ⟨hcontext, hresult⟩ := h
  obtain rfl : ctx = ctx' := hcontext
  dsimp only at hresult
  cases hresult with
  | ok flow => exact .ok ctx
  | error he => exact .error he

/-- Sessions that open alike: both of them open, or are refused with one report. -/
def SameOpening (opened opened' : Option (Except PageError SessionId)) : Prop :=
  ∀ answer answer', opened = some answer → opened' = some answer' →
    answer.map (fun _ => ()) = answer'.map fun _ => ()

/-- Two runs for one offer end the same but for names, and so do the calls on their sessions,
if these open alike and show pages that are alike. -/
theorem Makes.alike {pages pages' : SessionId → Behaviour}
    {commands : String → Except FlowError Command} {forms : String → Except FlowError Form}
    {breakdown : String → Option String} {routes : Routes} {applicant : Applicant} {job : Job}
    {opened opened' : Option (Except PageError SessionId)}
    {result result' : Except RunError Context} {calls calls' : Option (List Call)}
    (h : Makes pages commands forms breakdown routes applicant job opened result calls)
    (h' : Makes pages' commands forms breakdown routes applicant job opened' result' calls')
    (hopened : SameOpening opened opened')
    (hpages : ∀ session session', opened = some (.ok session) → opened' = some (.ok session') →
      Workflow.PagesAlike (pages session) (pages' session')) :
    SameResult SameRunFailure result result' ∧
      Option.Rel (List.Forall₂ SameCall) calls calls' := by
  cases h with
  | unrouted hroute =>
    cases h' with
    | unrouted hroute' =>
      cases hroute.symm.trans hroute'
      exact ⟨.error (.same _), .none⟩
    | _ => simp_all
  | brokenOff hroute hbroken =>
    cases h' with
    | brokenOff hroute' hbroken' =>
      cases hroute.symm.trans hroute'
      cases hbroken.symm.trans hbroken'
      exact ⟨.error (.same _), .none⟩
    | _ => simp_all
  | unloaded hroute hwhole hfound =>
    cases h' with
    | unloaded hroute' hwhole' hfound' =>
      cases hroute.symm.trans hroute'
      cases hfound.symm.trans hfound'
      exact ⟨.error (.same _), .none⟩
    | _ => simp_all
  | refused hroute hwhole hfound =>
    cases h' with
    | refused =>
      cases hopened _ _ rfl rfl
      exact ⟨.error (.same _), .none⟩
    | executed => cases hopened _ _ rfl rfl
    | _ => simp_all
  | executed hroute hwhole hfound hended hserves =>
    cases h' with
    | refused => cases hopened _ _ rfl rfl
    | executed hroute' hwhole' hfound' hended' hserves' =>
      cases hroute.symm.trans hroute'
      cases hfound.symm.trans hfound'
      obtain ⟨hend, hcalls⟩ := (hpages _ _ rfl rfl).execute hended hended' hserves hserves'
      exact ⟨(sameResult_verdict hend).mapError .workflow, .some hcalls⟩
    | _ => simp_all

end Jobflow.Run
