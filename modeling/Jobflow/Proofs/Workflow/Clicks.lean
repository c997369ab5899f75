import Jobflow.Proofs.Page.Overlap
import Jobflow.Proofs.Run.Seclusion
import Jobflow.Proofs.Run.Stopping
import Jobflow.Proofs.Workflow.Pages

/-!
Clicks on a scripted page, in time. A click and the wait alongside fail together at the earliest
failure, and otherwise end together at the later answer; that a selector did not appear is no
failure of the wait and is found out only then. A fixed delay follows the click, if that succeeds.
-/

namespace Jobflow.Workflow

open Jobflow.Page (Call Overlaps PageError Reply)
open Jobflow.Rehearsal (Fault Scene Script Stage scripted)
open Jobflow.Run (SessionId)
open Jobflow.Time (Duration)

/-! ### Programs in time -/

/-- What a program does in a session: how long it takes, its result, the calls that it makes on the
page, and how long it sleeps each time. -/
structure Passage (α : Type) where
  elapsed : Nat
  result : α
  calls : List Call
  sleeps : List Duration

def Browse.sleep? : Browse → Option Duration
  | .sleep duration => some duration
  | _ => none

/-- The times that a run sleeps for. -/
def sleeps (events : List Run.Event) : List Duration :=
  events.filterMap fun event =>
    match event.op with
    | .browse _ op => op.sleep?
    | _ => none

/-- In every open session of a rehearsal that nobody stops, at any time, the program does this. -/
def Takes {α : Type} (stage : Stage) (p : Browsing α) (passage : Passage α) : Prop :=
  ∀ (session : SessionId) (time : Nat) (scene : Scene), session < scene.sessions.length →
    let run := Run.runAlone stage.host none (Run.drive session p) time scene
    run.time = time + passage.elapsed ∧
      run.answer = some passage.result ∧
      run.world.history session = scene.history session ++ passage.calls ∧
      sleeps (Run.eventsAlone stage.host none (Run.drive session p) time scene) = passage.sleeps

/-- The same for one operation. -/
def Responds (stage : Stage) (op : Browse) (delay : Nat) (answer : op.Answer)
    (calls : List Call) : Prop :=
  ∀ (session : SessionId) (scene : Scene),
    (stage.browse session op scene).delay = delay ∧
      (stage.browse session op scene).answer = answer ∧
      historyAfter stage.page (scene.history session) op = scene.history session ++ calls

section
variable {α : Type} {stage : Stage}

theorem takes_done (a : α) : Takes stage (.done a) ⟨0, a, [], []⟩ := fun session _ scene _ =>
  ⟨rfl, rfl, (List.append_nil (scene.history session)).symm, rfl⟩

theorem Takes.step {op : browsing.Op} {k : browsing.Answer op → Browsing α} {delay : Nat}
    {answer : browsing.Answer op} {calls : List Call} {rest : Passage α}
    (hop : Responds stage op delay answer calls) (hrest : Takes stage (k answer) rest) :
    Takes stage (.step op k) ⟨delay + rest.elapsed, rest.result, calls ++ rest.calls,
      (Browse.sleep? op).toList ++ rest.sleeps⟩ := by
  intro session time scene hopen
  obtain ⟨hdelay, hanswer, hcalls⟩ := hop session scene
  subst hdelay hanswer
  have hrespond : Run.respond stage.host none time (.browse session op) scene =
      ⟨time + (stage.browse session op scene).delay, some (stage.browse session op scene).answer,
        (stage.browse session op scene).world⟩ :=
    Run.respond_browse stage.host time session op scene
  -- the rest goes on in the scene that the operation leaves behind
  let later := (stage.browse session op scene).world.pass
    (time + (stage.browse session op scene).delay)
  have hopen' : session < later.sessions.length := by
    rw [Run.sessions_pass]
    exact hopen.trans_eq (sessions_browse_length stage session op scene).symm
  have hhistory : later.history session = scene.history session ++ calls := by
    rw [Scene.history, Run.sessions_pass]
    exact (history_browse stage op hopen).trans hcalls
  obtain ⟨htime, hresult, hmade, hsleeps⟩ := hrest session _ later hopen'
  rw [hhistory, List.append_assoc] at hmade
  simp only [Run.drive, Run.runAlone, Run.eventsAlone, hrespond]
  refine ⟨htime.trans (Nat.add_assoc _ _ _), hresult, hmade, ?_⟩
  simp only [sleeps, List.filterMap_cons]
  cases hslept : Browse.sleep? op with
  | none => exact hsleeps
  | some duration => exact congrArg (duration :: ·) hsleeps

theorem Takes.single {op : browsing.Op} {f : browsing.Answer op → α} {delay : Nat}
    {answer : browsing.Answer op} {calls : List Call}
    (hop : Responds stage op delay answer calls) :
    Takes stage (.step op fun answer => .done (f answer))
      ⟨delay, f answer, calls, (Browse.sleep? op).toList⟩ := by
  have htakes := Takes.step (k := fun answer => .done (f answer)) hop (takes_done (f answer))
  simpa only [Nat.add_zero, List.append_nil] using htakes

end

/-! ### Scripted pages -/

section
variable {stage : Stage} {script : Script} {faults : List Fault}

/-- A fault replaces an answer by a failure, never by another answer. -/
theorem eq_of_withFault_ok {α : Type} {fault : Option Fault} {result : Except PageError α} {a : α}
    (h : (Rehearsal.withFault fault result).result = .ok a) : result = .ok a := by
  unfold Rehearsal.withFault at h
  split at h
  · next given fault =>
    dsimp only at h
    split at h
    · cases h
    · exact h
  · exact h

/-- A selector is found on the page when it matches something. -/
theorem found_iff_of_answer {history : List Call} {selector : String} {found : Bool}
    (h : ((scripted script faults).answer history (.waitForSelector selector)).result =
      .ok found) : found = true ↔ 0 < script.count selector := by
  have hanswer : (.ok (script.has selector fun _ => true) : Except PageError Bool) = .ok found :=
    eq_of_withFault_ok h
  have hfound : script.has selector (fun _ => true) = found := Except.ok.inj hanswer
  rw [← hfound, Script.has, Script.count]
  cases Dict.find? selector script.elements with
  | none => simp
  | some element => simp

theorem responds_call (hpage : stage.page = scripted script faults) (call : Call) :
    Responds stage (.call call) ((scripted script faults).answer [] call).delay
      ((scripted script faults).answer [] call).result [call] := by
  intro session scene
  simp only [Stage.browse, historyAfter, Page.Behaviour.make, hpage]
  exact ⟨rfl, rfl, trivial⟩

theorem responds_sleep (duration : Duration) :
    Responds stage (.sleep duration) duration.millisUp () [] := fun session scene =>
  ⟨rfl, rfl, (List.append_nil (scene.history session)).symm⟩

/-- On a scripted page, a click with a wait alongside goes the same way at any time. -/
theorem makeWith_scripted (history : List Call) (call wait : Call) :
    (scripted script faults).makeWith history call wait =
      ⟨((scripted script faults).makeWith [] call wait).reply,
        history ++ ((scripted script faults).makeWith [] call wait).history⟩ := by
  have hanswer (before : List Call) (c : Call) :
      (scripted script faults).answer before c = (scripted script faults).answer [] c := rfl
  simp only [Page.Behaviour.makeWith, hanswer history, hanswer (history ++ [call]),
    List.nil_append]
  split
  · split <;> rfl
  · rfl

theorem responds_clickAwaiting (hpage : stage.page = scripted script faults) (selector : String)
    (timeout : Option Duration) (next : String) :
    let made := (scripted script faults).makeWith [] (.click selector timeout)
      (.waitForSelector next)
    Responds stage (.clickAwaiting selector timeout next) made.reply.delay made.reply.result
      made.history := by
  intro made session scene
  simp only [Stage.browse, historyAfter, hpage]
  rw [makeWith_scripted]
  exact ⟨rfl, rfl, rfl⟩

theorem responds_clickSettling (hpage : stage.page = scripted script faults) (selector : String)
    (timeout : Option Duration) :
    let made := (scripted script faults).makeWith [] (.click selector timeout) .waitForLoadIdle
    Responds stage (.clickSettling selector timeout) made.reply.delay made.reply.result
      made.history := by
  intro made session scene
  simp only [Stage.browse, historyAfter, hpage]
  rw [makeWith_scripted]
  exact ⟨rfl, rfl, rfl⟩

end

/-! ### Nodes -/

/-- How a node ends by what a page answers it. -/
def outcome {α : Type} (whenOver : α → Except FlowError Flow) :
    Except PageError α → Except FlowError Flow
  | .ok a => whenOver a
  | .error e => .error (.page e)

/-- How a click ends that was waited for, by whether the selector was found. -/
def whenFound (target next : String) (found : Bool) : Except FlowError Flow :=
  if found then .ok .continue else .error (didNotAppear next target)

/-- What follows a click with a fixed delay, by how the page answered the click. -/
def pause (ctx : Context) (duration : Duration) : Except PageError Unit → Browsing Ended
  | .ok _ => .step (.sleep duration) fun _ => .done ⟨.ok .continue, ctx⟩
  | .error e => .done ⟨.error (.page e), ctx⟩

section
variable {ctx : Context} {selector next : String} {timeout : Option Duration}

theorem execute_click_selector (hnext : Text.isBlank (interpolate ctx next) = false) :
    execute (.click selector timeout (.selector next)) ctx =
      .step (.clickAwaiting (interpolate ctx selector) timeout (interpolate ctx next)) fun found =>
        .done ⟨outcome (whenFound (interpolate ctx selector) (interpolate ctx next)) found,
          ctx⟩ := by
  simp only [execute, click, hnext]
  refine congrArg (Program.step _) (funext fun found => ?_)
  cases found with
  | error e => rfl
  | ok appeared => cases appeared <;> rfl

theorem execute_click_networkIdle :
    execute (.click selector timeout .networkIdle) ctx =
      .step (.clickSettling (interpolate ctx selector) timeout) fun answer =>
        .done ⟨outcome (fun () => .ok .continue) answer, ctx⟩ := by
  refine congrArg (Program.step _) (funext fun answer => ?_)
  cases answer with
  | error e => rfl
  | ok => rfl

theorem execute_click_delay {duration : Duration} :
    execute (.click selector timeout (.delay duration)) ctx =
      .step (.call (.click (interpolate ctx selector) timeout)) (pause ctx duration) := by
  refine congrArg (Program.step _) (funext fun answer => ?_)
  cases answer with
  | error e => rfl
  | ok => rfl

end

/-! ### Clicks with a wait alongside -/

/-- The wait of a click with another call alongside, and how the node ends when neither of the two
fails. -/
inductive WaitsAlongside (script : Script) (ctx : Context) (target : String) :
    AfterClick → Call → Except FlowError Flow → Prop
  | selector (next : String) : Text.isBlank (interpolate ctx next) = false →
      WaitsAlongside script ctx target (.selector next) (.waitForSelector (interpolate ctx next))
        (if 0 < script.count (interpolate ctx next) then .ok .continue
          else .error (.page (.timeout ("'" ++ interpolate ctx next ++
            "' did not appear after clicking '" ++ target ++ "'"))))
  | networkIdle : WaitsAlongside script ctx target .networkIdle .waitForLoadIdle (.ok .continue)

/-- A click and its wait fail or end together. The wait is made if `started`, and `ending` is how
the node ends when neither fails. Two failures of one instant are left open, unless the wait was
never made. -/
structure EndTogether {α β : Type} (clicked : Reply α) (waited : Reply β)
    (ending : Except FlowError Flow) (started : Bool) (elapsed : Nat)
    (result : Except FlowError Flow) : Prop where
  started_iff : started = true ↔ ¬ clicked.HasFailed
  click_fails : ∀ e, clicked.result = .error e →
    (clicked.delay = 0 ∨ ∀ f, waited.result = .error f → clicked.delay < waited.delay) →
    elapsed = clicked.delay ∧ result = .error (.page e)
  wait_fails : ∀ f, waited.result = .error f →
    (∀ e, clicked.result = .error e → waited.delay < clicked.delay) →
    elapsed = waited.delay ∧ result = .error (.page f)
  both_answer : ∀ a b, clicked.result = .ok a → waited.result = .ok b →
    elapsed = max clicked.delay waited.delay ∧ result = ending

theorem endTogether_of_overlaps {α β : Type} {clicked : Reply α} {waited : Reply β}
    {ending : Except FlowError Flow} {started : Bool} {elapsed : Nat} {joined : Except PageError β}
    (whenOver : β → Except FlowError Flow) (h : Overlaps clicked waited started elapsed joined)
    (hending : ∀ b, waited.result = .ok b → whenOver b = ending) :
    EndTogether clicked waited ending started elapsed (outcome whenOver joined) := by
  cases h with
  | @alone e hdelay he =>
    refine ⟨?_, fun e' he' _ => ?_, fun f hf hearlier => ?_, fun a b ha _ => ?_⟩
    · simp [Reply.HasFailed, hdelay, he]
    · rw [he] at he'
      cases he'
      exact ⟨hdelay.symm, rfl⟩
    · have hlt := hearlier e he
      omega
    · rw [he] at ha
      cases ha
  | both hrunning hjoins =>
    refine ⟨iff_of_true rfl hrunning, fun e he hearlier => ?_, fun f hf hearlier => ?_,
      fun a b ha hb => ?_⟩
    · obtain ⟨helapsed, rfl⟩ := hjoins.of_first_error he
        (hearlier.resolve_left fun hdelay => hrunning ⟨hdelay, e, he⟩)
      exact ⟨helapsed, rfl⟩
    · obtain ⟨helapsed, rfl⟩ := hjoins.of_second_error hf hearlier
      exact ⟨helapsed, rfl⟩
    · obtain ⟨helapsed, rfl⟩ := hjoins.of_ok ha hb
      exact ⟨helapsed, hending b hb⟩

section
variable {stage : Stage} {script : Script} {faults : List Fault}

theorem takes_waitsAlongside (hpage : stage.page = scripted script faults) {ctx : Context}
    {selector : String} {timeout : Option Duration} {after : AfterClick} {wait : Call}
    {ending : Except FlowError Flow}
    (h : WaitsAlongside script ctx (interpolate ctx selector) after wait ending) :
    let click : Call := .click (interpolate ctx selector) timeout
    ∃ started elapsed result,
      EndTogether ((scripted script faults).answer [] click)
        ((scripted script faults).answer [] wait) ending started elapsed result ∧
      Takes stage (execute (.click selector timeout after) ctx)
        ⟨elapsed, ⟨result, ctx⟩, if started then [click, wait] else [click], []⟩ := by
  intro click
  obtain ⟨started, hoverlaps, hhistory⟩ :=
    Page.overlaps_makeWith (scripted script faults) [] click wait
  rw [List.nil_append] at hhistory
  cases h with
  | selector next hnext =>
    refine ⟨started, _, _, endTogether_of_overlaps
      (whenFound (interpolate ctx selector) (interpolate ctx next)) hoverlaps
      fun found hfound => ?_, ?_⟩
    · have hcount := found_iff_of_answer hfound
      simp only [whenFound, didNotAppear, hcount]
    · rw [execute_click_selector hnext, ← hhistory]
      exact .single (responds_clickAwaiting hpage _ timeout _)
  | networkIdle =>
    refine ⟨started, _, _, endTogether_of_overlaps (fun _ => .ok .continue) hoverlaps
      fun _ _ => rfl, ?_⟩
    rw [execute_click_networkIdle, ← hhistory]
    exact .single (responds_clickSettling hpage _ timeout)

/-! ### Clicks with a fixed delay -/

theorem takes_pause_ok (stage : Stage) (ctx : Context) (duration : Duration) :
    Takes stage (pause ctx duration (.ok ()))
      ⟨duration.millisUp, ⟨.ok .continue, ctx⟩, [], [duration]⟩ :=
  Takes.single (f := fun _ => Ended.mk (.ok .continue) ctx) (responds_sleep duration)

theorem takes_pause_error (stage : Stage) (ctx : Context) (duration : Duration) (e : PageError) :
    Takes stage (pause ctx duration (.error e)) ⟨0, ⟨.error (.page e), ctx⟩, [], []⟩ :=
  takes_done _

theorem takes_click_delay (hpage : stage.page = scripted script faults) {ctx : Context}
    {selector : String} {timeout : Option Duration} {duration : Duration} {rest : Passage Ended} :
    let click : Call := .click (interpolate ctx selector) timeout
    let clicked : Reply Unit := (scripted script faults).answer [] click
    Takes stage (pause ctx duration clicked.result) rest →
      Takes stage (execute (.click selector timeout (.delay duration)) ctx)
        ⟨clicked.delay + rest.elapsed, rest.result, click :: rest.calls, rest.sleeps⟩ := by
  intro click clicked hrest
  rw [execute_click_delay]
  exact Takes.step (responds_call hpage click) hrest

/-- On a scripted page, a click and its wait fail together at the earliest failure or end together
at the later answer; a fixed delay adds to the time of a click that succeeds, and a click that
fails is not slept after. -/
theorem click_ends_with_its_wait (hpage : stage.page = scripted script faults) (ctx : Context)
    (selector : String) (timeout : Option Duration) :
    let click : Call := .click (interpolate ctx selector) timeout
    let clicked : Reply Unit := (scripted script faults).answer [] click
    (∀ after wait ending, WaitsAlongside script ctx (interpolate ctx selector) after wait ending →
      ∃ started elapsed result,
        EndTogether clicked ((scripted script faults).answer [] wait) ending started elapsed
          result ∧
        Takes stage (execute (.click selector timeout after) ctx)
          ⟨elapsed, ⟨result, ctx⟩, if started then [click, wait] else [click], []⟩) ∧
    ∀ duration,
      (clicked.result = .ok () →
        Takes stage (execute (.click selector timeout (.delay duration)) ctx)
          ⟨clicked.delay + duration.millisUp, ⟨.ok .continue, ctx⟩, [click], [duration]⟩) ∧
      ∀ e, clicked.result = .error e →
        Takes stage (execute (.click selector timeout (.delay duration)) ctx)
          ⟨clicked.delay, ⟨.error (.page e), ctx⟩, [click], []⟩ := by
  intro click clicked
  refine ⟨fun _ _ _ hwaits => takes_waitsAlongside hpage hwaits, fun duration => ⟨?_, ?_⟩⟩
  · intro hclicked
    have hpause := takes_pause_ok stage ctx duration
    rw [← hclicked] at hpause
    exact takes_click_delay hpage hpause
  · intro e hclicked
    have hpause := takes_pause_error stage ctx duration e
    rw [← hclicked] at hpause
    exact takes_click_delay hpage hpause

end

def slowScript : Script := Script.blank.withElement "#done-42" ⟨1, true, true⟩

/-- A slow click, a selector that is found later and one whose wait fails sooner. -/
def slowFaults : List Fault :=
  [⟨"click", none, 30, none⟩, ⟨"wait_for_selector", some "#done-42", 50, none⟩,
    ⟨"wait_for_selector", some "#lost", 20, some (.session "gone")⟩]

def slowStage : Stage := Stage.bare (scripted slowScript slowFaults)

def slowContext : Context := .ofBindings [("JobId", .text "42")]

theorem click_ends_with_its_wait_slowStage :
    Takes slowStage (execute (.click "#go" none (.selector "#done-$\x7bJobId\x7d")) slowContext)
      ⟨50, ⟨.ok .continue, slowContext⟩, [.click "#go" none, .waitForSelector "#done-42"], []⟩ ∧
    Takes slowStage (execute (.click "#go" none (.selector "#lost")) slowContext)
      ⟨20, ⟨.error (.page (.session "gone")), slowContext⟩,
        [.click "#go" none, .waitForSelector "#lost"], []⟩ ∧
    Takes slowStage (execute (.click "#go" none (.delay (.ofMillis 5))) slowContext)
      ⟨35, ⟨.ok .continue, slowContext⟩, [.click "#go" none], [.ofMillis 5]⟩ := by
  have hgo : interpolate slowContext "#go" = "#go" := by decide
  have hdone : interpolate slowContext "#done-$\x7bJobId\x7d" = "#done-42" := by decide
  have hlost : interpolate slowContext "#lost" = "#lost" := by decide
  have hclicked : (scripted slowScript slowFaults).answer [] (.click "#go" none) =
      ⟨30, .ok ()⟩ := rfl
  have hfound : (scripted slowScript slowFaults).answer [] (.waitForSelector "#done-42") =
      ⟨50, .ok true⟩ := rfl
  have hfailed : (scripted slowScript slowFaults).answer [] (.waitForSelector "#lost") =
      ⟨20, .error (.session "gone")⟩ := rfl
  have hstarted : ¬ (⟨30, .ok ()⟩ : Reply Unit).HasFailed := fun h => absurd h.1 (by decide)
  have hpage : slowStage.page = scripted slowScript slowFaults := rfl
  obtain ⟨hwaits, hdelays⟩ := click_ends_with_its_wait hpage slowContext "#go" none
  rw [hgo, hclicked] at hwaits hdelays
  refine ⟨?_, ?_, (hdelays (.ofMillis 5)).1 rfl⟩
  · obtain ⟨started, elapsed, result, hends, htakes⟩ :=
      hwaits _ _ _ (.selector "#done-$\x7bJobId\x7d" (by decide))
    rw [hdone, hfound] at hends
    rw [hdone] at htakes
    obtain ⟨rfl, rfl⟩ := hends.both_answer () true rfl rfl
    obtain rfl := hends.started_iff.mpr hstarted
    exact htakes
  · obtain ⟨started, elapsed, result, hends, htakes⟩ :=
      hwaits _ _ _ (.selector "#lost" (by decide))
    rw [hlost, hfailed] at hends
    rw [hlost] at htakes
    obtain ⟨rfl, rfl⟩ := hends.wait_fails (.session "gone") rfl fun _ _ => by decide
    obtain rfl := hends.started_iff.mpr hstarted
    exact htakes

end Jobflow.Workflow
