import Jobflow.Proofs.Run.Mirroring
import Jobflow.Proofs.Workflow.Execution

/-!
Drivers that show a page. The page answers single calls, and a click with a wait alongside as it
answers the two calls; forms, directories and names come from elsewhere, and time may pass as it
likes. A session of a rehearsal is such a driver.
-/

namespace Jobflow.Workflow

open Jobflow.Page (Behaviour Call PageError)
open Jobflow.Rehearsal (Scene Stage)
open Jobflow.Run (SessionId)
open Jobflow.Time (Duration)

/-! ### Steps carried out -/

namespace Driver

variable {W α β ε : Type} {d : Driver W} {step : Browsing (Except ε α)}
  {next : α → Browsing (Except ε β)} {w w' : W} {calls : List Call}

theorem carryOut_perform (op : browsing.Op) (w : W) :
    d.carryOut (.step op .done) w = ⟨d.calls op w, (d.act op w).1, (d.act op w).2⟩ := by
  simp only [carryOut, List.append_nil]

theorem carryOut_clickAwaiting (selector : String) (timeout : Option Duration) (next : String)
    (w : W) : d.carryOut (clickAwaiting selector timeout next) w =
      ⟨d.calls (.clickAwaiting selector timeout next) w,
        (d.act (.clickAwaiting selector timeout next) w).1,
        (d.act (.clickAwaiting selector timeout next) w).2⟩ :=
  carryOut_perform (.clickAwaiting selector timeout next) w

theorem carryOut_clickSettling (selector : String) (timeout : Option Duration) (w : W) :
    d.carryOut (clickSettling selector timeout) w =
      ⟨d.calls (.clickSettling selector timeout) w, (d.act (.clickSettling selector timeout) w).1,
        (d.act (.clickSettling selector timeout) w).2⟩ :=
  carryOut_perform (.clickSettling selector timeout) w

theorem carryOut_proceed_ok {a : α} (h : d.carryOut step w = ⟨calls, .ok a, w'⟩) :
    d.carryOut (proceed step next) w =
      (⟨calls, (), w'⟩ : Carried W Unit).followedBy (d.carryOut (next a) w') := by
  rw [proceed, carryOut_bind, h]
  rfl

theorem carryOut_proceed_error {e : ε} (h : d.carryOut step w = ⟨calls, .error e, w'⟩) :
    d.carryOut (proceed step next) w = ⟨calls, .error e, w'⟩ := by
  rw [proceed, carryOut_bind, h]
  simp [Carried.followedBy]

theorem carryOut_lifted (step : Browsing (Except PageError α)) (w : W) :
    d.carryOut (lifted step) w =
      ⟨(d.carryOut step w).calls, (d.carryOut step w).result.mapError .page,
        (d.carryOut step w).world⟩ := by
  rw [lifted, carryOut_bind, carryOut_pure, Carried.followedBy, List.append_nil]

theorem carryOut_continued (ctx : Context) (step : Browsing (Except FlowError Unit)) (w : W) :
    d.carryOut (continued ctx step) w =
      ⟨(d.carryOut step w).calls, ⟨(d.carryOut step w).result.map fun _ => .continue, ctx⟩,
        (d.carryOut step w).world⟩ := by
  rw [continued, carryOut_bind]
  generalize d.carryOut step w = taken
  obtain ⟨calls, result, w'⟩ := taken
  cases result with
  | ok => simp [Carried.followedBy, Except.map]
  | error e => simp [Carried.followedBy, Except.map]

end Driver

theorem anyCounted_iff (counted : Except PageError Nat) :
    anyCounted counted = true ↔ ∃ n, 0 < n ∧ counted = .ok n := by
  cases counted with
  | ok n => simp [anyCounted]
  | error e => simp [anyCounted]

/-! ### Drivers of pages -/

/-- The calls on a page once an operation is over. -/
def historyAfter (page : Behaviour) (history : List Call) : Browse → List Call
  | .call call => (page.make history call).history
  | .clickAwaiting selector timeout next =>
    (page.makeWith history (.click selector timeout) (.waitForSelector next)).history
  | .clickSettling selector timeout =>
    (page.makeWith history (.click selector timeout) .waitForLoadIdle).history
  | _ => history

/-- What a page answers to an operation after certain calls. -/
def PageAnswers (page : Behaviour) (history : List Call) : (op : Browse) → op.Answer → Prop
  | .call call, answer => answer = (page.make history call).reply.result
  | .clickAwaiting selector timeout next, answer =>
    answer = (page.makeWith history (.click selector timeout) (.waitForSelector next)).reply.result
  | .clickSettling selector timeout, answer =>
    answer = (page.makeWith history (.click selector timeout) .waitForLoadIdle).reply.result
  | _, _ => True

/-- A driver with the page that it shows. -/
structure PageDriver (W : Type) extends Driver W where
  page : Behaviour
  /-- the calls on the page so far -/
  history : W → List Call
  answers : ∀ op w, PageAnswers page (history w) op (act op w).1
  history_act : ∀ op w, history (act op w).2 = historyAfter page (history w) op
  calls_eq : ∀ op w, history w ++ calls op w = historyAfter page (history w) op

namespace PageDriver

variable {W α : Type} (d : PageDriver W)

theorem act_call (call : Call) (w : W) :
    (d.act (.call call) w).1 = (d.page.answer (d.history w) call).result :=
  d.answers (.call call) w

@[simp] theorem calls_call (call : Call) (w : W) : d.calls (.call call) w = [call] :=
  List.append_cancel_left (d.calls_eq (.call call) w)

/-- The page keeps the calls of a program, in their order. -/
theorem history_carryOut (p : Browsing α) (w : W) :
    d.history (d.carryOut p w).world = d.history w ++ (d.carryOut p w).calls := by
  induction p generalizing w with
  | done a => exact (List.append_nil _).symm
  | step op next ih =>
    have hstep : d.history (d.act op w).2 = d.history w ++ d.calls op w :=
      (d.history_act op w).trans (d.calls_eq op w).symm
    have hrest := ih (d.act op w).1 (d.act op w).2
    rw [hstep, List.append_assoc] at hrest
    exact hrest

/-- An operation that the page has nothing to do with takes no calls. -/
theorem carryOut_offPage (op : browsing.Op) {w : W}
    (h : historyAfter d.page (d.history w) op = d.history w) :
    d.carryOut (.step op .done) w = ⟨[], (d.act op w).1, (d.act op w).2⟩ := by
  have hcalls : d.calls op w = [] := List.append_right_eq_self.mp ((d.calls_eq op w).trans h)
  rw [Driver.carryOut_perform, hcalls]

@[simp] theorem carryOut_sleep (duration : Duration) (w : W) :
    d.carryOut (sleep duration) w = ⟨[], (), (d.act (.sleep duration) w).2⟩ :=
  d.carryOut_offPage (.sleep duration) rfl

@[simp] theorem carryOut_formNamed (id : String) (w : W) :
    d.carryOut (formNamed id) w = ⟨[], (d.act (.form id) w).1, (d.act (.form id) w).2⟩ :=
  d.carryOut_offPage (.form id) rfl

@[simp] theorem carryOut_onPage (call : Call) (w : W) :
    d.carryOut (onPage call) w =
      ⟨[call], (d.page.answer (d.history w) call).result, (d.act (.call call) w).2⟩ := by
  have hperformed : d.carryOut (onPage call) w =
      ⟨d.calls (.call call) w, (d.act (.call call) w).1, (d.act (.call call) w).2⟩ :=
    Driver.carryOut_perform (.call call) w
  rw [hperformed, calls_call, act_call]

end PageDriver

/-! ### A click with a wait alongside -/

/-- What becomes of a call with a wait alongside: the call fails at once and alone, or both are
made, and one of them fails or the wait is answered after a call that succeeded. -/
inductive MadeWith (page : Behaviour) (history : List Call) (call wait : Call) :
    Except PageError wait.Answer → List Call → Prop
  | alone {e : PageError} : (page.answer history call).result = .error e →
      MadeWith page history call wait (.error e) [call]
  | failedCall {e : PageError} : (page.answer history call).result = .error e →
      MadeWith page history call wait (.error e) [call, wait]
  | failedWait {e : PageError} : (page.answer (history ++ [call]) wait).result = .error e →
      MadeWith page history call wait (.error e) [call, wait]
  | answered {a : call.Answer} {b : wait.Answer} : (page.answer history call).result = .ok a →
      (page.answer (history ++ [call]) wait).result = .ok b →
      MadeWith page history call wait (.ok b) [call, wait]

theorem madeWith_alongside (page : Behaviour) (history : List Call) (call wait : Call) :
    MadeWith page history call wait
      ((page.answer history call).alongside (page.answer (history ++ [call]) wait)).result
      [call, wait] := by
  unfold Page.Reply.alongside
  split
  · next hcall hwait => exact .answered hcall hwait
  · next hcall hwait => exact .failedCall hcall
  · next hcall hwait => exact .failedWait hwait
  · next hcall hwait =>
    -- the earlier of the two failures is reported
    split
    · exact .failedCall hcall
    · exact .failedWait hwait

theorem madeWith_makeWith (page : Behaviour) (history : List Call) (call wait : Call) :
    ∃ calls, (page.makeWith history call wait).history = history ++ calls ∧
      MadeWith page history call wait (page.makeWith history call wait).reply.result calls := by
  have hboth := madeWith_alongside page history call wait
  unfold Behaviour.makeWith
  dsimp only
  split
  · next hcall =>
    split
    · exact ⟨[call], rfl, .alone hcall⟩
    · exact ⟨[call, wait], rfl, hboth⟩
  · exact ⟨[call, wait], rfl, hboth⟩

namespace PageDriver

variable {W : Type} (d : PageDriver W)

theorem madeWith_clickAwaiting (selector : String) (timeout : Option Duration) (next : String)
    (w : W) :
    MadeWith d.page (d.history w) (.click selector timeout) (.waitForSelector next)
      (d.act (.clickAwaiting selector timeout next) w).1
      (d.calls (.clickAwaiting selector timeout next) w) := by
  obtain ⟨calls, hhistory, hmade⟩ :=
    madeWith_makeWith d.page (d.history w) (.click selector timeout) (.waitForSelector next)
  have hanswer := d.answers (.clickAwaiting selector timeout next) w
  have hcalls := (d.calls_eq (.clickAwaiting selector timeout next) w).trans hhistory
  rw [List.append_cancel_left hcalls]
  exact hanswer ▸ hmade

theorem madeWith_clickSettling (selector : String) (timeout : Option Duration) (w : W) :
    MadeWith d.page (d.history w) (.click selector timeout) .waitForLoadIdle
      (d.act (.clickSettling selector timeout) w).1
      (d.calls (.clickSettling selector timeout) w) := by
  obtain ⟨calls, hhistory, hmade⟩ :=
    madeWith_makeWith d.page (d.history w) (.click selector timeout) .waitForLoadIdle
  have hanswer := d.answers (.clickSettling selector timeout) w
  have hcalls := (d.calls_eq (.clickSettling selector timeout) w).trans hhistory
  rw [List.append_cancel_left hcalls]
  exact hanswer ▸ hmade

end PageDriver

/-! ### Rehearsals -/

theorem sessions_browse_length (stage : Stage) (session : SessionId) (op : Browse) (scene : Scene) :
    (stage.browse session op scene).world.sessions.length = scene.sessions.length := by
  cases op with
  | call => exact List.length_set
  | clickAwaiting => exact List.length_set
  | clickSettling => exact List.length_set
  | makeDirectories path =>
    simp only [Stage.browse]
    split <;> rfl
  | _ => rfl

theorem history_browse (stage : Stage) {session : SessionId} (op : Browse) {scene : Scene}
    (h : session < scene.sessions.length) :
    (stage.browse session op scene).world.history session =
      historyAfter stage.page (scene.history session) op := by
  have hset (calls : List Call) : (scene.setHistory session calls).history session = calls := by
    rw [Run.history_setHistory, if_pos ⟨rfl, h⟩]
  cases op with
  | call => exact hset _
  | clickAwaiting => exact hset _
  | clickSettling => exact hset _
  | makeDirectories path =>
    simp only [Stage.browse]
    split <;> rfl
  | _ => rfl

/-- A page keeps the calls that were made on it. -/
theorem prefix_historyAfter (page : Behaviour) (history : List Call) (op : Browse) :
    history <+: historyAfter page history op := by
  cases op with
  | call => exact List.prefix_append _ _
  | clickAwaiting => exact Run.prefix_makeWith ..
  | clickSettling => exact Run.prefix_makeWith ..
  | _ => exact List.prefix_rfl

/-- An open session of a rehearsal, which nobody stops. -/
def sessionDriver (stage : Stage) (session : SessionId) :
    PageDriver {scene : Scene // session < scene.sessions.length} where
  act op scene :=
    let reply := stage.browse session op scene
    (reply.answer, ⟨reply.world.pass (scene.1.time + reply.delay), by
      rw [Run.sessions_pass, sessions_browse_length]
      exact scene.2⟩)
  calls op scene :=
    (historyAfter stage.page (scene.1.history session) op).drop (scene.1.history session).length
  page := stage.page
  history scene := scene.1.history session
  answers op scene := by
    cases op with
    | call => rfl
    | clickAwaiting => rfl
    | clickSettling => rfl
    | _ => trivial
  history_act op scene := by
    rw [← history_browse stage op scene.2]
    simp only [Scene.history, Run.sessions_pass]
  calls_eq op scene := by
    obtain ⟨later, hlater⟩ := prefix_historyAfter stage.page (scene.1.history session) op
    rw [← hlater, List.drop_left]

/-- A scene in which one session has just been opened. -/
def openScene : {scene : Scene // 0 < scene.sessions.length} :=
  ⟨{ Scene.empty with sessions := [[]] }, Nat.zero_lt_one⟩

end Jobflow.Workflow
