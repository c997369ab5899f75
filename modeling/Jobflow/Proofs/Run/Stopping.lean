import Jobflow.Proofs.Run.Mirroring

/-!
A run that is asked to stop, beside one that is asked to stop later or never. Up to the
operation at which it stops the run does what the other does, so the calls that it made are
those with which the other began; and unless it reports that it was stopped, it ends as the
other does. A run that was stopped keeps no cookies, and one that was asked to stop before it
began makes no call.
-/

namespace Jobflow.Run

open Jobflow.Page (Call PageError)
open Jobflow.Program (Asks Coupled)
open Jobflow.Rehearsal (Scene Stage)
open Jobflow.Workflow (Browse Browsing Command Context Ended FlowError SameCall SameEnd SameFailure
  SameOp SameResult)

variable {W W' α β : Type} {cancel cancel' : Cancellation}

/-- Asked to stop at the same time or earlier; never is later than any time. -/
def Cancellation.NotLater : Cancellation → Cancellation → Prop
  | _, none => True
  | none, some _ => False
  | some stop, some stop' => stop ≤ stop'

theorem Cancellation.NotLater.isDue (h : cancel.NotLater cancel') {time : Nat}
    (hdue : cancel'.isDue time) : cancel.isDue time := by
  obtain ⟨stop', rfl, hstop'⟩ := isDue_iff.mp hdue
  cases cancel with
  | none => exact h.elim
  | some stop => exact isDue_iff.mpr ⟨stop, rfl, Nat.le_trans h hstop'⟩

/-! ### One run alone -/

section
variable (host : Host W) (cancel : Cancellation)

theorem runAlone_bind (p : Running α) (f : α → Running β) (time : Nat) (w : W) :
    runAlone host cancel (p >>= f) time w =
      runAlone host cancel (f (runAlone host cancel p time w).answer)
        (runAlone host cancel p time w).time (runAlone host cancel p time w).world := by
  induction p generalizing time w with
  | done a => rfl
  | step op next ih => exact ih _ _ _

theorem eventsAlone_bind (p : Running α) (f : α → Running β) (time : Nat) (w : W) :
    eventsAlone host cancel (p >>= f) time w = eventsAlone host cancel p time w ++
      eventsAlone host cancel (f (runAlone host cancel p time w).answer)
        (runAlone host cancel p time w).time (runAlone host cancel p time w).world := by
  induction p generalizing time w with
  | done a => rfl
  | step op next ih => exact congrArg (_ :: ·) (ih _ _ _)

theorem asks_eventsAlone {P : RunOp → Prop} {p : Running α} (hp : Asks P p) (time : Nat) (w : W) :
    ∀ event ∈ eventsAlone host cancel p time w, P event.op := by
  induction p generalizing time w with
  | done a => exact List.forall_mem_nil _
  | step op next ih => exact List.forall_mem_cons.mpr ⟨hp.1, ih _ (hp.2 _) _ _⟩

theorem le_time_runAlone (p : Running α) (time : Nat) (w : W) :
    time ≤ (runAlone host cancel p time w).time :=
  (unfolds_eventsAlone host cancel p time w).le_finish

/-- A run that is cut short by the stop makes the calls of that operation and no more. -/
theorem runAlone_drive_of_cut {session : SessionId} {op : Workflow.browsing.Op}
    {next : Workflow.browsing.Answer op → Browsing α} {time : Nat} {w : W}
    (hcut : 0 < (host.browse session op w).delay ∧
      cancel.isDue (time + (host.browse session op w).delay)) :
    runAlone host cancel (drive session (.step op next)) time w =
      ⟨max time (cancel.getD time), none,
        host.pass (max time (cancel.getD time)) (host.browse session op w).world⟩ := by
  have hreply : respond host cancel time (.browse session op) w =
      ⟨max time (cancel.getD time), none, (host.browse session op w).world⟩ := if_pos hcut
  simp only [drive, runAlone, hreply]

/-- A run that is not cut short goes on with the answer. -/
theorem runAlone_drive_of_not_cut {session : SessionId} {op : Workflow.browsing.Op}
    {next : Workflow.browsing.Answer op → Browsing α} {time : Nat} {w : W}
    (hcut : ¬ (0 < (host.browse session op w).delay ∧
      cancel.isDue (time + (host.browse session op w).delay))) :
    runAlone host cancel (drive session (.step op next)) time w =
      runAlone host cancel (drive session (next (host.browse session op w).answer))
        (time + (host.browse session op w).delay)
        (host.pass (time + (host.browse session op w).delay) (host.browse session op w).world) := by
  have hreply : respond host cancel time (.browse session op) w =
      ⟨time + (host.browse session op w).delay, some (host.browse session op w).answer,
        (host.browse session op w).world⟩ := if_neg hcut
  simp only [drive, runAlone, hreply]

/-- A run looks first whether it was asked to stop. -/
theorem runAlone_executeIn (session : SessionId) (command : Command) (initial : Context)
    (time : Nat) (w : W) :
    runAlone host cancel (executeIn session command initial) time w =
      runAlone host cancel (if cancel.isDue time then return none
        else drive session (Workflow.execute command initial)) time (host.pass time w) := rfl

theorem world_respond_browse (time : Nat) (session : SessionId) (op : Browse) (w : W) :
    (respond host cancel time (.browse session op) w).world = (host.browse session op w).world := by
  simp only [respond]
  split <;> rfl

end

/-! ### The calls of a run -/

section
variable {host : Host W} {calls : W → List Call}

theorem Host.Records.respond (h : host.Records calls) (cancel : Cancellation) (time : Nat)
    (op : RunOp) (w : W) : calls w <+: calls (respond host cancel time op w).world := by
  by_cases hop : op.IsBrowse
  · cases op with
    | browse session op =>
      rw [world_respond_browse]
      exact h.browse session op w
    | _ => cases hop
  · simp [h.other cancel time op w hop]

theorem Host.Records.runAlone (h : host.Records calls) (cancel : Cancellation) (p : Running α)
    (time : Nat) (w : W) : calls w <+: calls (runAlone host cancel p time w).world := by
  induction p generalizing time w with
  | done a => exact List.prefix_rfl
  | step op next ih =>
    apply (h.respond cancel time op w).trans
    rw [← h.pass]
    exact ih _ _ _

theorem Host.Records.runAlone_eq (h : host.Records calls) (cancel : Cancellation) {p : Running α}
    (hp : Asks (fun op => ¬ RunOp.IsBrowse op) p) (time : Nat) (w : W) :
    calls (Run.runAlone host cancel p time w).world = calls w := by
  induction p generalizing time w with
  | done a => rfl
  | step op next ih =>
    have hnext := ih (Run.respond host cancel time op w).answer (hp.2 _)
    rw [Run.runAlone]
    exact (hnext _ _).trans ((h.pass _ _).trans (h.other cancel time op w hp.1))

/-- A run in a session makes at least the calls of its first operation. -/
theorem Host.Records.drive (h : host.Records calls) (cancel : Cancellation) (session : SessionId)
    (op : Workflow.browsing.Op) (next : Workflow.browsing.Answer op → Browsing α) (time : Nat)
    (w : W) :
    calls (host.browse session op w).world <+:
      calls (Run.runAlone host cancel (Run.drive session (.step op next)) time w).world := by
  by_cases hcut : 0 < (host.browse session op w).delay ∧
      cancel.isDue (time + (host.browse session op w).delay)
  · simp [runAlone_drive_of_cut host cancel hcut, h.pass]
  · rw [runAlone_drive_of_not_cut host cancel hcut, ← h.pass]
    exact h.runAlone _ _ _ _

end

/-! ### Runs of a workflow -/

/-- The session of a run, with its cookies restored. -/
def sessionFor (keepsCookies : Bool) (initial : Context) :
    Running (Except PageError SessionId) := do
  let saved ← restored keepsCookies (Cookie.siteOf initial)
  openSession saved

/-- What a run does once it has a session, up to its report. -/
def reportFrom (keepsCookies : Bool) (command : Command) (initial : Context)
    (session : SessionId) : Running (Except FlowError Context) := do
  let ended ← executeIn session command initial
  leave keepsCookies (Cookie.siteOf initial) session ended
  return verdict ended

theorem runWorkflow_eq (keepsCookies : Bool) (command : Command) (initial : Context) :
    runWorkflow keepsCookies command initial = (do
      match ← sessionFor keepsCookies initial with
      | .error e => return .error (.page e)
      | .ok session => reportFrom keepsCookies command initial session) := by
  rw [sessionFor, bind_assoc]
  rfl

/-! ### Two runs -/

/-- The calls with which others begin, up to `C`. -/
def Begins (C : Call → Call → Prop) (calls calls' : List Call) : Prop :=
  ∃ reached, List.Forall₂ C calls reached ∧ reached <+: calls'

/-- A run beside one that is asked to stop later: its calls are those with which the other
begins, and it reports that it was stopped or ends as the other does. -/
structure StopsEarlier (C : Call → Call → Prop)
    (R : Except FlowError Context → Except FlowError Context → Prop) (calls calls' : List Call)
    (answer answer' : Except FlowError Context) : Prop where
  calls : Begins C calls calls'
  answer : answer = .error .cancelled ∨ R answer answer'

section
variable {host : Host W} {host' : Host W'} {calls : W → List Call} {calls' : W' → List Call}
  {Op : Browse → Browse → Prop} {Like : Workflow.Exchange → Workflow.Exchange → Prop}
  {Match : W → W' → Prop} {C : Call → Call → Prop} {E : Ended → Ended → Prop}

theorem Host.Mirrors.drive (h : host.Mirrors host' Op Like Match) (hrecords : host.Records calls)
    (hrecords' : host'.Records calls')
    (hcalls : ∀ {w w'}, Match w w' → List.Forall₂ C (calls w) (calls' w'))
    (hle : cancel.NotLater cancel') {R : α → β → Prop} {p : Browsing α} {q : Browsing β}
    (hpq : Coupled Op Like R p q) (session : SessionId) (time : Nat) {w : W} {w' : W'}
    (hw : Match w w') :
    let run := runAlone host cancel (Run.drive session p) time w
    let run' := runAlone host' cancel' (Run.drive session q) time w'
    Begins C (calls run.world) (calls' run'.world) ∧
      (run.answer = none ∨ Option.Rel R run.answer run'.answer) := by
  induction hpq generalizing time w w' with
  | done hR => exact ⟨⟨_, hcalls hw, List.prefix_rfl⟩, .inr (.some hR)⟩
  | @step op op' next next' hop _ ih =>
    have hreply := h.browse hw session hop
    intro run run'
    by_cases hcut : 0 < (host.browse session op w).delay ∧
        cancel.isDue (time + (host.browse session op w).delay)
    · -- the other run made the same calls for this operation, and may go on
      have hrun : run = _ := runAlone_drive_of_cut host cancel hcut
      have hmade := hrecords'.drive cancel' session op' next' time w'
      rw [hrun, hrecords.pass]
      exact ⟨⟨_, hcalls hreply.world, hmade⟩, .inl rfl⟩
    · have hcut' : ¬ (0 < (host'.browse session op' w').delay ∧
          cancel'.isDue (time + (host'.browse session op' w').delay)) := by
        rw [← hreply.delay]
        exact fun hcut' => hcut ⟨hcut'.1, hle.isDue hcut'.2⟩
      have hrun : run = _ := runAlone_drive_of_not_cut host cancel hcut
      have hrun' : run' = _ := runAlone_drive_of_not_cut host' cancel' hcut'
      rw [hrun, hrun', ← hreply.delay]
      exact ih _ _ hreply.answer _ (h.pass hreply.world _)

/-- Two runs that are in step: at the same time, with results that `R` relates, in worlds that
match. -/
structure InStep (Match : W → W' → Prop) (R : α → β → Prop) (run : Timed W α)
    (run' : Timed W' β) : Prop where
  time : run.time = run'.time
  answer : R run.answer run'.answer
  world : Match run.world run'.world

theorem InStep.bind {R : α → β → Prop} {α' β' : Type} {S : α' → β' → Prop} {p : Running α}
    {q : Running β} {f : α → Running α'} {g : β → Running β'} {time : Nat} {w : W} {w' : W'}
    (h : InStep Match R (runAlone host cancel p time w) (runAlone host' cancel' q time w'))
    (hfg : ∀ {a b}, R a b → ∀ time {w w'}, Match w w' →
      InStep Match S (runAlone host cancel (f a) time w) (runAlone host' cancel' (g b) time w')) :
    InStep Match S (runAlone host cancel (p >>= f) time w)
      (runAlone host' cancel' (q >>= g) time w') := by
  rw [runAlone_bind, runAlone_bind, ← h.time]
  exact hfg h.answer _ h.world

/-- A mirrored answer keeps two runs in step. -/
theorem Mirrored.inStep {R : α → β → Prop} {reply : Delayed W α} {reply' : Delayed W' β}
    (h : Mirrored Match R reply reply')
    (hpass : ∀ {w w'}, Match w w' → ∀ time, Match (host.pass time w) (host'.pass time w'))
    (time : Nat) :
    InStep Match R
      ⟨time + reply.delay, reply.answer, host.pass (time + reply.delay) reply.world⟩
      ⟨time + reply'.delay, reply'.answer, host'.pass (time + reply'.delay) reply'.world⟩ := by
  rw [← h.delay]
  exact ⟨rfl, h.answer, hpass h.world _⟩

/-- Two runs get their sessions in step, whenever they are asked to stop. -/
theorem Host.Mirrors.sessionFor (h : host.Mirrors host' Op Like Match) (keepsCookies : Bool)
    (initial : Context) (time : Nat) {w : W} {w' : W'} (hw : Match w w') :
    InStep Match Eq (runAlone host cancel (Run.sessionFor keepsCookies initial) time w)
      (runAlone host' cancel' (Run.sessionFor keepsCookies initial) time w') := by
  have hrestored : InStep Match Eq
      (runAlone host cancel (restored keepsCookies (Cookie.siteOf initial)) time w)
      (runAlone host' cancel' (restored keepsCookies (Cookie.siteOf initial)) time w') := by
    unfold restored
    split
    · refine InStep.bind (p := Run.loadCookies _) (q := Run.loadCookies _)
        ((h.loadCookies hw (Cookie.siteOf initial)).inStep h.pass time) ?_
      rintro found _ rfl time w w' hw
      cases found with
      | error e => exact ⟨rfl, rfl, hw⟩
      | ok saved => exact ⟨rfl, rfl, hw⟩
    · exact ⟨rfl, rfl, hw⟩
  apply hrestored.bind
  rintro saved _ rfl time w w' hw
  exact (h.openSession hw saved).inStep h.pass time

end

section
variable {host : Host W} {host' : Host W'} {calls : W → List Call} {calls' : W' → List Call}
  {Op : Browse → Browse → Prop} {Like : Workflow.Exchange → Workflow.Exchange → Prop}
  {Match : W → W' → Prop} {C : Call → Call → Prop} {E : Ended → Ended → Prop}

theorem Host.Mirrors.executeIn (h : host.Mirrors host' Op Like Match)
    (hrecords : host.Records calls) (hrecords' : host'.Records calls')
    (hcalls : ∀ {w w'}, Match w w' → List.Forall₂ C (calls w) (calls' w'))
    (hle : cancel.NotLater cancel') {command : Command} {initial : Context}
    (hexecute : Coupled Op Like E (Workflow.execute command initial)
      (Workflow.execute command initial))
    (session : SessionId) (time : Nat) {w : W} {w' : W'} (hw : Match w w') :
    let run := runAlone host cancel (Run.executeIn session command initial) time w
    let run' := runAlone host' cancel' (Run.executeIn session command initial) time w'
    Begins C (calls run.world) (calls' run'.world) ∧
      (run.answer = none ∨ Option.Rel E run.answer run'.answer) := by
  intro run run'
  have hmatch := h.pass hw time
  by_cases hdue : cancel.isDue time
  · have hstopped : run = ⟨time, none, host.pass time w⟩ := by
      simp only [run, runAlone_executeIn, if_pos hdue]
      rfl
    rw [hstopped]
    refine ⟨⟨calls' (host'.pass time w'), hcalls hmatch, ?_⟩, .inl rfl⟩
    simp only [run', runAlone_executeIn]
    exact hrecords'.runAlone _ _ _ _
  · have hdue' : ¬ cancel'.isDue time := fun hdue' => hdue (hle.isDue hdue')
    simp only [run, run', runAlone_executeIn, if_neg hdue, if_neg hdue']
    exact h.drive hrecords hrecords' hcalls hle hexecute session time hmatch

/-- Leaving a session makes no call on its page. -/
theorem Host.Records.reportFrom (h : host.Records calls) (keepsCookies : Bool) (command : Command)
    (initial : Context) (session : SessionId) (time : Nat) (w : W) :
    calls (Run.runAlone host cancel (Run.reportFrom keepsCookies command initial session) time
        w).world =
      calls (Run.runAlone host cancel (Run.executeIn session command initial) time w).world := by
  have hleave : ∀ ended, Asks (fun op => ¬ RunOp.IsBrowse op) (do
      leave keepsCookies (Cookie.siteOf initial) session ended
      return verdict ended) := fun ended =>
    (asks_leave (fun _ => id) (fun _ _ => id) (fun _ => id) _ _ _ ended).bind
      fun _ => Program.asks_pure _
  unfold Run.reportFrom
  rw [runAlone_bind]
  exact h.runAlone_eq _ (hleave _) _ _

/-- A run reports the end of its workflow, however it leaves its session. -/
theorem answer_reportFrom (keepsCookies : Bool) (command : Command) (initial : Context)
    (session : SessionId) (time : Nat) (w : W) :
    (runAlone host cancel (reportFrom keepsCookies command initial session) time w).answer =
      verdict (runAlone host cancel (executeIn session command initial) time w).answer := by
  unfold reportFrom
  rw [runAlone_bind, runAlone_bind]
  rfl

/-- Executions that end alike are reported alike. -/
theorem rel_verdict {R : Except FlowError Context → Except FlowError Context → Prop}
    (hrefl : ∀ e, R (.error e) (.error e))
    (hverdict : ∀ ended ended', E ended ended' → R (verdict (some ended)) (verdict (some ended')))
    {ended ended' : Option Ended} (h : Option.Rel E ended ended') :
    R (verdict ended) (verdict ended') := by
  cases h with
  | none => exact hrefl _
  | some hends => exact hverdict _ _ hends

/-- Of two runs in worlds that match the one that is asked to stop earlier stops earlier. -/
theorem Host.Mirrors.runWorkflow (h : host.Mirrors host' Op Like Match)
    (hrecords : host.Records calls) (hrecords' : host'.Records calls')
    (hcalls : ∀ {w w'}, Match w w' → List.Forall₂ C (calls w) (calls' w'))
    (hle : cancel.NotLater cancel') (keepsCookies : Bool) {command : Command} {initial : Context}
    (hexecute : Coupled Op Like E (Workflow.execute command initial)
      (Workflow.execute command initial))
    {R : Except FlowError Context → Except FlowError Context → Prop}
    (hrefl : ∀ e, R (.error e) (.error e))
    (hverdict : ∀ ended ended', E ended ended' → R (verdict (some ended)) (verdict (some ended')))
    (time : Nat) {w : W} {w' : W'} (hw : Match w w') :
    let run := runAlone host cancel (Run.runWorkflow keepsCookies command initial) time w
    let run' := runAlone host' cancel' (Run.runWorkflow keepsCookies command initial) time w'
    StopsEarlier C R (calls run.world) (calls' run'.world) run.answer run'.answer := by
  intro run run'
  have hsession : InStep Match Eq
      (runAlone host cancel (Run.sessionFor keepsCookies initial) time w)
      (runAlone host' cancel' (Run.sessionFor keepsCookies initial) time w') :=
    h.sessionFor keepsCookies initial time hw
  obtain ⟨htime, hopened, hmatch⟩ := hsession
  simp only [run, run', runWorkflow_eq, runAlone_bind, ← htime, ← hopened]
  cases (runAlone host cancel (Run.sessionFor keepsCookies initial) time w).answer with
  | error e => exact ⟨⟨_, hcalls hmatch, List.prefix_rfl⟩, .inr (hrefl _)⟩
  | ok session =>
    obtain ⟨hbegins, hends⟩ :=
      h.executeIn hrecords hrecords' hcalls hle hexecute session _ hmatch
    dsimp only
    rw [hrecords.reportFrom, hrecords'.reportFrom, answer_reportFrom, answer_reportFrom]
    refine ⟨hbegins, ?_⟩
    rcases hends with hnone | hends
    · rw [hnone]
      exact .inl rfl
    · exact .inr (rel_verdict hrefl hverdict hends)

end

/-! ### Runs that were stopped -/

/-- The operation keeps cookies. -/
def RunOp.IsSave : RunOp → Prop
  | .saveCookies .. => True
  | _ => False

theorem asks_sessionFor {P : RunOp → Prop} (hload : ∀ site, P (.loadCookies site))
    (hopen : ∀ cookies, P (.openSession cookies)) (keepsCookies : Bool) (initial : Context) :
    Asks P (sessionFor keepsCookies initial) :=
  (asks_restored hload keepsCookies _).bind fun saved =>
    ⟨hopen saved, fun _ => Program.asks_pure _⟩

theorem asks_leave_of_wasStopped {ended : Option Ended} (h : wasStopped ended = true)
    (keepsCookies : Bool) (site : String) (session : SessionId) :
    Asks (fun op => ¬ RunOp.IsSave op) (leave keepsCookies site session ended) := by
  unfold leave
  rw [h, Bool.not_true, Bool.and_false, if_neg Bool.false_ne_true]
  exact ⟨id, fun _ => Program.asks_pure _⟩

section
variable (host : Host W) (cancel : Cancellation) (keepsCookies : Bool) (command : Command)
  (initial : Context)

/-- A run that reports that it was stopped keeps no cookies. -/
theorem not_isSave_of_cancelled (time : Nat) (w : W)
    (h : (runAlone host cancel (runWorkflow keepsCookies command initial) time w).answer =
      .error .cancelled) :
    ∀ event ∈ eventsAlone host cancel (runWorkflow keepsCookies command initial) time w,
      ¬ event.op.IsSave := by
  have hsession : Asks (fun op => ¬ RunOp.IsSave op) (sessionFor keepsCookies initial) :=
    asks_sessionFor (fun _ => id) (fun _ => id) keepsCookies initial
  have hexecute : ∀ session, Asks (fun op => ¬ RunOp.IsSave op)
      (executeIn session command initial) := by
    intro session
    refine ⟨id, fun (stopped : Bool) => ?_⟩
    cases stopped with
    | true => exact Program.asks_pure _
    | false => exact asks_drive (Program.asks_true _) fun _ _ => id
  rw [runWorkflow_eq, runAlone_bind] at h
  rw [runWorkflow_eq, eventsAlone_bind, List.forall_mem_append]
  refine ⟨asks_eventsAlone host cancel hsession time w, ?_⟩
  revert h
  cases (runAlone host cancel (sessionFor keepsCookies initial) time w).answer with
  | error e => exact fun _ => List.forall_mem_nil _
  | ok session =>
    dsimp only
    rw [answer_reportFrom]
    intro hcancelled
    have hstopped : wasStopped (runAlone host cancel (executeIn session command initial)
        (runAlone host cancel (sessionFor keepsCookies initial) time w).time
        (runAlone host cancel (sessionFor keepsCookies initial) time w).world).answer = true := by
      rw [wasStopped, hcancelled]
    unfold reportFrom
    rw [eventsAlone_bind, List.forall_mem_append]
    refine ⟨asks_eventsAlone host cancel (hexecute session) _ _, ?_⟩
    exact asks_eventsAlone host cancel
      ((asks_leave_of_wasStopped hstopped _ _ _).bind fun _ => Program.asks_pure _) _ _

theorem exists_opening (time : Nat) (w : W) :
    ∃ cookies asked answered,
      .opening cookies (runAlone host cancel (sessionFor keepsCookies initial) time w).answer asked
        answered ∈ eventsAlone host cancel (sessionFor keepsCookies initial) time w := by
  unfold sessionFor
  rw [runAlone_bind, eventsAlone_bind]
  exact ⟨_, _, _, List.mem_append_right _ List.mem_cons_self⟩

/-- A run that was asked to stop before its session opened leaves it at once. -/
theorem reportFrom_of_isDue (session : SessionId) {time : Nat} (w : W) (hdue : cancel.isDue time) :
    (runAlone host cancel (reportFrom keepsCookies command initial session) time w).answer =
        .error .cancelled ∧
      ∀ event ∈ eventsAlone host cancel (reportFrom keepsCookies command initial session) time w,
        ¬ event.op.IsBrowse := by
  have hlook : runAlone host cancel (executeIn session command initial) time w =
      ⟨time, none, host.pass time w⟩ := by
    rw [runAlone_executeIn, if_pos hdue]
    rfl
  have hlooked : eventsAlone host cancel (executeIn session command initial) time w =
      [.check true time time] := by
    change Event.mk .isCancelled (cancel.isDue time) time time ::
      eventsAlone host cancel (if cancel.isDue time then return none else _) time
        (host.pass time w) = _
    rw [hdue, if_pos rfl]
    rfl
  have hleave : Asks (fun op => ¬ RunOp.IsBrowse op) (do
      leave keepsCookies (Cookie.siteOf initial) session none
      return verdict none) :=
    (asks_leave (fun _ => id) (fun _ _ => id) (fun _ => id) _ _ _ none).bind
      fun _ => Program.asks_pure _
  constructor
  · rw [answer_reportFrom, hlook]
    rfl
  · unfold reportFrom
    rw [eventsAlone_bind, hlooked, hlook, List.forall_mem_append]
    exact ⟨List.forall_mem_singleton.mpr id, asks_eventsAlone host cancel hleave _ _⟩

/-- A run that was asked to stop before it began makes no call: it reports that it was stopped,
or that no session opened. -/
theorem not_isBrowse_of_isDue (time : Nat) (w : W) (hdue : cancel.isDue time) :
    let run := runAlone host cancel (runWorkflow keepsCookies command initial) time w
    let events := eventsAlone host cancel (runWorkflow keepsCookies command initial) time w
    (∀ event ∈ events, ¬ event.op.IsBrowse) ∧
      (run.answer = .error .cancelled ∨ ∃ cookies e asked answered,
        .opening cookies (.error e) asked answered ∈ events ∧ run.answer = .error (.page e)) := by
  have hasks : Asks (fun op => ¬ RunOp.IsBrowse op) (sessionFor keepsCookies initial) :=
    asks_sessionFor (fun _ => id) (fun _ => id) keepsCookies initial
  have hsession := asks_eventsAlone host cancel hasks time w
  have hle := le_time_runAlone host cancel (sessionFor keepsCookies initial) time w
  obtain ⟨cookies, asked, answered, hopening⟩ :=
    exists_opening host cancel keepsCookies initial time w
  dsimp only
  rw [runWorkflow_eq, runAlone_bind, eventsAlone_bind]
  revert hopening
  cases (runAlone host cancel (sessionFor keepsCookies initial) time w).answer with
  | error e =>
    intro hopening
    refine ⟨List.forall_mem_append.mpr ⟨hsession, List.forall_mem_nil _⟩, .inr ?_⟩
    exact ⟨cookies, e, asked, answered, List.mem_append_left _ hopening, rfl⟩
  | ok session =>
    intro _
    obtain ⟨hanswer, hevents⟩ := reportFrom_of_isDue host cancel keepsCookies command initial
      session (runAlone host cancel (sessionFor keepsCookies initial) time w).world
      (Cancellation.isDue_mono hle hdue)
    exact ⟨List.forall_mem_append.mpr ⟨hsession, hevents⟩, .inl hanswer⟩

end

/-- Of two runs of a workflow the one that is asked to stop no later makes the calls with which
the other begins, and reports that it was stopped or ends as the other does: exactly in one and
the same world, and up to the names generated for screenshots in worlds that answer the same
but for names. A run that reports that it was stopped keeps no cookies. One that was asked to
stop before it began makes no call, and reports so or that its session did not open. -/
theorem stopped_run_stays_in_step (keepsCookies : Bool) (command : Command) (initial : Context)
    {cancel cancel' : Cancellation} (hle : cancel.NotLater cancel') :
    (∀ {W : Type} {host : Host W} {calls : W → List Call}, host.Records calls → ∀ time w,
      let run := runAlone host cancel (runWorkflow keepsCookies command initial) time w
      let run' := runAlone host cancel' (runWorkflow keepsCookies command initial) time w
      StopsEarlier Eq Eq (calls run.world) (calls run'.world) run.answer run'.answer) ∧
    (∀ {W W' : Type} {host : Host W} {host' : Host W'} {calls : W → List Call}
      {calls' : W' → List Call} {Match : W → W' → Prop},
      host.Records calls → host'.Records calls' →
      host.Mirrors host' SameOp Workflow.Alike Match →
      (∀ w w', Match w w' → List.Forall₂ SameCall (calls w) (calls' w')) →
      ∀ time w w', Match w w' →
      let run := runAlone host cancel (runWorkflow keepsCookies command initial) time w
      let run' := runAlone host' cancel' (runWorkflow keepsCookies command initial) time w'
      StopsEarlier SameCall (SameResult SameFailure) (calls run.world) (calls' run'.world)
        run.answer run'.answer) ∧
    ∀ {W : Type} (host : Host W) time w,
      let run := runAlone host cancel (runWorkflow keepsCookies command initial) time w
      let events := eventsAlone host cancel (runWorkflow keepsCookies command initial) time w
      (run.answer = .error .cancelled → ∀ event ∈ events, ¬ event.op.IsSave) ∧
      (cancel.isDue time → (∀ event ∈ events, ¬ event.op.IsBrowse) ∧
        (run.answer = .error .cancelled ∨ ∃ cookies e asked answered,
          .opening cookies (.error e) asked answered ∈ events ∧
            run.answer = .error (.page e))) := by
  refine ⟨?_, ?_, ?_⟩
  · intro W host calls hrecords time w
    apply (mirrors_self host).runWorkflow hrecords hrecords _ hle keepsCookies
      (Program.coupled_refl _) (fun _ => rfl) _ time rfl
    · rintro w _ rfl
      exact List.forall₂_same.mpr fun _ _ => rfl
    · rintro ended _ rfl
      rfl
  · intro W W' host host' calls calls' Match hrecords hrecords' hmirrors hcalls time w w' hw
    exact hmirrors.runWorkflow hrecords hrecords' (hcalls _ _) hle keepsCookies
      (Workflow.goAlike_execute command initial) (fun e => .error (.same e))
      (fun _ _ => sameResult_verdict) time hw
  · intro W host time w
    exact ⟨not_isSave_of_cancelled host cancel keepsCookies command initial time w,
      not_isBrowse_of_isDue host cancel keepsCookies command initial time w⟩

/-- A stage on which every call of a page fails after a while. -/
def slowStage : Stage := .bare ⟨fun _ _ => ⟨10, .error (.timeout "no answer")⟩⟩

/-- A screenshot, and a click with a wait alongside. -/
def shooting : Command := .sequence [.screenshot "", .click "#apply" none .networkIdle]

/-- A run that is asked to stop while it takes its screenshot, and one in a scene with other
names that is not. -/
theorem stopped_run_stays_in_step_shooting :
    Cancellation.NotLater (some 5) none ∧
      slowStage.host.Records (·.history 0) ∧
      slowStage.host.Mirrors slowStage.host SameOp Workflow.Alike AlikeScenes ∧
      AlikeScenes Scene.empty { Scene.empty with drawn := 7 } ∧
      let run := runAlone slowStage.host (some 5) (runWorkflow false shooting .empty) 0 Scene.empty
      let run' := runAlone slowStage.host none (runWorkflow false shooting .empty) 0
        { Scene.empty with drawn := 7 }
      StopsEarlier SameCall (SameResult SameFailure) (run.world.history 0) (run'.world.history 0)
        run.answer run'.answer := by
  have hrecords := records_history slowStage 0
  have hmirrors : slowStage.host.Mirrors slowStage.host SameOp Workflow.Alike AlikeScenes :=
    mirrors_stage ⟨fun _ _ => rfl, fun _ _ => .call (.refl _)⟩ fun _ _ _ => rfl
  have hscenes : AlikeScenes Scene.empty { Scene.empty with drawn := 7 } := .intro 7 .nil
  exact ⟨trivial, hrecords, hmirrors, hscenes,
    (@stopped_run_stays_in_step false shooting .empty (some 5) none trivial).2.1 hrecords hrecords
      hmirrors (fun _ _ h => h.history 0) 0 _ _ hscenes⟩

end Jobflow.Run
