import Jobflow.Proofs.Run.Sources
import Jobflow.Proofs.Workflow.Heeding
import Jobflow.Proofs.Workflow.LastNode

/-!
What fails a run by the page. An execution that fails so stops at a node that holds no others, with
the answer to a fatal call of that node, or with the report that a selector did not appear after a
click. What the other calls are answered by is dealt with on the spot, and looking for an element
never fails.
-/

namespace Jobflow.Workflow

open Jobflow.Page (Behaviour Call PageError)
open Jobflow.Rehearsal (Scene Stage)
open Jobflow.Run (SessionId)
open Jobflow.Time (Duration)

variable {W α β : Type}

/-! ### What fails a step -/

/-- Failures that are not the page's. -/
def OffPage (failure : FlowError) : Prop := ∀ cause, failure ≠ .page cause

theorem failedCall_of_madeWith {page : Behaviour} {history calls : List Call} {call wait : Call}
    {e : PageError} (hcall : isFatal call = true) (hwait : isFatal wait = true)
    (h : MadeWith page history call wait (.error e) calls) : FailedCall page history calls e := by
  generalize hresult : (.error e : Except PageError wait.Answer) = result at h
  cases h with
  | alone hfailed =>
    cases hresult
    exact failedCall_singleton hcall hfailed
  | failedCall hfailed =>
    cases hresult
    exact failedCall_cons.mpr (.inl ⟨hcall, hfailed⟩)
  | failedWait hfailed =>
    cases hresult
    exact failedCall_cons.mpr (.inr (failedCall_singleton hwait hfailed))
  | answered => cases hresult

/-- The wait that followed a successful click did not find the selector. -/
structure DidNotAppear (page : Behaviour) (history calls : List Call) (selector : String)
    (timeout : Option Duration) (next : String) : Prop where
  calls_eq : calls = [.click selector timeout, .waitForSelector next]
  clicked : (page.answer history (.click selector timeout)).result = .ok ()
  notFound : (page.answer (history ++ [.click selector timeout]) (.waitForSelector next)).result =
    .ok false

theorem didNotAppear_of_madeWith {page : Behaviour} {history calls : List Call} {selector : String}
    {timeout : Option Duration} {next : String}
    (h : MadeWith page history (.click selector timeout) (.waitForSelector next)
      (.ok false) calls) :
    DidNotAppear page history calls selector timeout next := by
  generalize hresult :
    (.ok false : Except PageError (Call.waitForSelector next).Answer) = result at h
  cases h with
  | answered hclick hwait =>
    cases hresult
    exact ⟨rfl, hclick, hwait⟩
  | _ => cases hresult

theorem eq_error_of_mapError {result : Except PageError α} {e : PageError}
    (h : result.mapError FlowError.page = .error (.page e)) : result = .error e := by
  cases result with
  | ok a => cases h
  | error f =>
    cases h
    rfl

/-- When the step fails by the page, that is the answer to a fatal call of its own. -/
def FailsFatally (d : PageDriver W) (step : Browsing (Except FlowError α)) : Prop :=
  ∀ w e, (d.carryOut step w).result = .error (.page e) →
    FailedCall d.page (d.history w) (d.carryOut step w).calls e

section
variable {d : PageDriver W}

theorem failsFatally_ok (a : α) : FailsFatally d (pure (.ok a)) := by
  intro w e h
  cases h

theorem failsFatally_onPage {call : Call} (hcall : isFatal call = true) :
    FailsFatally d (lifted (onPage call)) := by
  intro w e h
  rw [Driver.carryOut_lifted, d.carryOut_onPage] at h ⊢
  exact failedCall_singleton hcall (eq_error_of_mapError h)

theorem failsFatally_clickSettling (selector : String) (timeout : Option Duration) :
    FailsFatally d (lifted (clickSettling selector timeout)) := by
  intro w e h
  have hmade := d.madeWith_clickSettling selector timeout w
  rw [Driver.carryOut_lifted, Driver.carryOut_clickSettling] at h ⊢
  have hanswer : (d.act (.clickSettling selector timeout) w).1 = .error e := eq_error_of_mapError h
  rw [hanswer] at hmade
  exact failedCall_of_madeWith rfl rfl hmade

/-- What comes first and yields no failure of its own does not matter. -/
theorem failsFatally_bind {p : Browsing α} {next : α → Browsing (Except FlowError β)}
    (hnext : ∀ a, FailsFatally d (next a)) : FailsFatally d (p >>= next) := by
  intro w e h
  rw [Driver.carryOut_bind] at h ⊢
  have hlater := hnext _ _ e h
  rw [d.history_carryOut] at hlater
  exact failedCall_append.mpr (.inr hlater)

theorem failsFatally_proceed {step : Browsing (Except FlowError α)}
    {next : α → Browsing (Except FlowError β)} (hstep : FailsFatally d step)
    (hnext : ∀ a, FailsFatally d (next a)) : FailsFatally d (proceed step next) := by
  intro w e h
  have hfirst := hstep w e
  have hhistory := d.history_carryOut step w
  generalize htaken : d.carryOut step w = taken at hfirst hhistory
  obtain ⟨calls, result, w'⟩ := taken
  cases result with
  | ok a =>
    rw [Driver.carryOut_proceed_ok htaken] at h ⊢
    have hlater := hnext a w' e h
    rw [hhistory] at hlater
    exact failedCall_append.mpr (.inr hlater)
  | error f =>
    rw [Driver.carryOut_proceed_error htaken] at h ⊢
    cases h
    exact hfirst rfl

theorem failsFatally_ite {c : Prop} [Decidable c] {step other : Browsing (Except FlowError α)}
    (hstep : FailsFatally d step) (hother : FailsFatally d other) :
    FailsFatally d (if c then step else other) := by
  split
  · exact hstep
  · exact hother

theorem failsFatally_takeScreenshot (ctx : Context) (pathTemplate : String) :
    FailsFatally d (takeScreenshot ctx pathTemplate) := by
  apply failsFatally_bind
  intro name
  apply failsFatally_ite (failsFatally_onPage rfl)
  apply failsFatally_bind
  intro made
  cases made with
  | ok => exact failsFatally_onPage rfl
  | error cause =>
    intro w e h
    cases h

/-- A click with a wait for another selector fails by a fatal call, unless that does not appear. -/
theorem clickAwaiting_failure {selector next : String} {timeout : Option Duration} {w : W}
    {e : PageError} {step : Browsing (Except FlowError Unit)}
    (hstep : step = proceed (lifted (clickAwaiting selector timeout next)) fun appeared =>
      return if appeared then .ok () else .error (didNotAppear next selector))
    (h : (d.carryOut step w).result = .error (.page e)) :
    FailedCall d.page (d.history w) (d.carryOut step w).calls e ∨
      .page e = didNotAppear next selector ∧
        DidNotAppear d.page (d.history w) (d.carryOut step w).calls selector timeout next := by
  subst hstep
  have hmade := d.madeWith_clickAwaiting selector timeout next w
  have htaken := d.carryOut_lifted (clickAwaiting selector timeout next) w
  rw [d.carryOut_clickAwaiting] at htaken
  generalize (d.act (.clickAwaiting selector timeout next) w).1 = answer at hmade htaken
  cases answer with
  | error f =>
    rw [Driver.carryOut_proceed_error htaken] at h ⊢
    cases h
    exact .inl (failedCall_of_madeWith rfl rfl hmade)
  | ok appeared =>
    rw [Driver.carryOut_proceed_ok htaken, Driver.carryOut_pure, Carried.followedBy,
      List.append_nil] at h ⊢
    cases appeared with
    | true => cases h
    | false => exact .inr ⟨(Except.error.inj h).symm, didNotAppear_of_madeWith hmade⟩

/-- Every click fails by a fatal call, unless what it waits for does not appear. -/
theorem click_failure {ctx : Context} {selector : String} {timeout : Option Duration}
    {after : AfterClick} {w : W} {e : PageError}
    (h : (d.carryOut (click ctx selector timeout after) w).result = .error (.page e)) :
    FailedCall d.page (d.history w) (d.carryOut (click ctx selector timeout after) w).calls e ∨
      ∃ next, after = .selector next ∧ .page e = didNotAppear (interpolate ctx next) selector ∧
        DidNotAppear d.page (d.history w) (d.carryOut (click ctx selector timeout after) w).calls
          selector timeout (interpolate ctx next) := by
  have hclick : isFatal (.click selector timeout) = true := rfl
  have hplain := failsFatally_onPage (d := d) hclick
  cases after with
  | nothing => exact .inl (hplain w e h)
  | delay duration =>
    have hdelayed := failsFatally_proceed hplain fun _ =>
      failsFatally_bind (p := sleep duration) fun _ => failsFatally_ok ()
    exact .inl (hdelayed w e h)
  | networkIdle => exact .inl (failsFatally_clickSettling selector timeout w e h)
  | selector next =>
    by_cases hblank : Text.isBlank (interpolate ctx next)
    · have hstep : click ctx selector timeout (.selector next) =
          lifted (onPage (.click selector timeout)) := if_pos hblank
      rw [hstep] at h ⊢
      exact .inl (hplain w e h)
    · rcases clickAwaiting_failure (if_neg hblank) h with hfailed | habsent
      · exact .inl hfailed
      · exact .inr ⟨next, rfl, habsent⟩

/-- Once the form is had, filling it does not fail by the page. -/
theorem fillForm_failure {ctx : Context} {id : String} {w : W} {e : PageError}
    (h : (d.carryOut (fillForm ctx id) w).result = .error (.page e)) :
    (d.act (.form id) w).1 = .error (.page e) := by
  have hnamed := d.carryOut_formNamed id w
  generalize (d.act (.form id) w).1 = found at hnamed ⊢
  cases found with
  | error f =>
    rw [fillForm, Driver.carryOut_proceed_error hnamed] at h
    cases h
    rfl
  | ok form =>
    have hkinds : FailsOnly OffPage (fieldKinds form.fields) :=
      failsOnly_fieldKinds (fun _ _ => nofun) form.fields
    rw [fillForm, Driver.carryOut_proceed_ok hnamed] at h
    cases hfields : fieldKinds form.fields with
    | error f =>
      rw [hfields] at h
      exact absurd (Except.error.inj h) (hkinds f hfields e)
    | ok fields =>
      simp only [hfields, Driver.carryOut_bind, Driver.carryOut_pure, Carried.followedBy] at h
      cases h

end

/-! ### What fails a run -/

/-- Why a node that holds no others fails with `e`, carried out from `ctx` and `w`: by a fatal call
of its own, or because what a successful click waited for did not appear. -/
inductive FatalCause (d : PageDriver W) (node : Command) (ctx : Context) (w : W) : PageError → Prop
  | call {e : PageError} :
      FailedCall d.page (d.history w) (d.carryOut (execute node ctx) w).calls e →
      FatalCause d node ctx w e
  | absent {selector next : String} {timeout : Option Duration} :
      node = .click selector timeout (.selector next) →
      DidNotAppear d.page (d.history w) (d.carryOut (execute node ctx) w).calls
        (interpolate ctx selector) timeout (interpolate ctx next) →
      FatalCause d node ctx w (.timeout ("'" ++ interpolate ctx next ++
        "' did not appear after clicking '" ++ interpolate ctx selector ++ "'"))

/-- The node wants a form, and was answered by the failure `e` in place of it. -/
def FormRefused (d : PageDriver W) (node : Command) (ctx : Context) (w : W) (e : PageError) :
    Prop :=
  ∃ id, node = .fillForm id ∧ (d.act (.form (interpolate ctx id)) w).1 = .error (.page e)

section
variable {ctx : Context} {w : W}

theorem result_of_continued {d : Driver W} {step : Browsing (Except FlowError Unit)}
    {e : FlowError} (h : (d.carryOut (continued ctx step) w).result.result = .error e) :
    (d.carryOut step w).result = .error e := by
  rw [Driver.carryOut_continued] at h
  generalize (d.carryOut step w).result = result at h
  cases result with
  | ok => cases h
  | error f =>
    cases h
    rfl

theorem calls_continued (d : Driver W) (ctx : Context) (step : Browsing (Except FlowError Unit))
    (w : W) : (d.carryOut (continued ctx step) w).calls = (d.carryOut step w).calls := by
  rw [Driver.carryOut_continued]

theorem FailsFatally.fatalCause {d : PageDriver W} {node : Command}
    {step : Browsing (Except FlowError Unit)} {e : PageError} (hstep : FailsFatally d step)
    (hnode : execute node ctx = continued ctx step)
    (h : (d.carryOut (execute node ctx) w).result.result = .error (.page e)) :
    FatalCause d node ctx w e := by
  apply FatalCause.call
  rw [hnode] at h ⊢
  rw [calls_continued]
  exact hstep w e (result_of_continued h)

/-- What an exists node does: it makes one call, and lets the run go on with a verdict. -/
theorem carryOut_judge (d : PageDriver W) (ctx : Context) (selector : String)
    (settle : Option Duration) (w : W) :
    (d.carryOut (judge ctx selector settle) w).calls = [.count (interpolate ctx selector)] ∧
      (d.carryOut (judge ctx selector settle) w).result = ⟨.ok .continue,
        ctx.setFlag conditionResult (anyCounted
          (d.page.answer (d.history w) (.count (interpolate ctx selector))).result)⟩ := by
  cases settle with
  | none =>
    simp only [judge, Driver.carryOut_bind, d.carryOut_onPage, Driver.carryOut_pure,
      Carried.followedBy, List.append_nil, and_self]
  | some duration =>
    have hslept : d.history (d.act (.sleep duration) w).2 = d.history w :=
      d.history_act (.sleep duration) w
    simp only [judge, Driver.carryOut_bind, d.carryOut_sleep, d.carryOut_onPage,
      Driver.carryOut_pure, Carried.followedBy, List.nil_append, List.append_nil, hslept, and_self]

/-- A node that holds no others fails by the page only for such reasons. -/
theorem leaf_failure {d : PageDriver W} {node : Command} {e : PageError} (hleaf : node.isLeaf)
    (h : (d.carryOut (execute node ctx) w).result.result = .error (.page e)) :
    FatalCause d node ctx w e ∨ FormRefused d node ctx w e := by
  cases node with
  | sequence children => cases hleaf
  | ifElse condition whenTrue whenFalse => cases hleaf
  | navigate url readiness =>
    exact .inl ((failsFatally_onPage rfl).fatalCause (by rw [execute]) h)
  | screenshot pathTemplate =>
    exact .inl ((failsFatally_takeScreenshot ctx pathTemplate).fatalCause (by rw [execute]) h)
  | click selector timeout after =>
    have hnode : execute (.click selector timeout after) ctx =
        continued ctx (click ctx (interpolate ctx selector) timeout after) := by rw [execute]
    rw [hnode] at h
    refine .inl ?_
    rcases click_failure (result_of_continued h) with hfailed | ⟨next, rfl, herror, habsent⟩
    · apply FatalCause.call
      rwa [hnode, calls_continued]
    · obtain rfl := FlowError.page.inj herror
      refine .absent rfl ?_
      rwa [hnode, calls_continued]
  | elementExists selector settle =>
    rw [execute, (carryOut_judge d ctx selector settle w).2] at h
    cases h
  | fillForm id =>
    rw [execute] at h
    exact .inr ⟨id, rfl, fillForm_failure (result_of_continued h)⟩
  | exit success message =>
    rw [execute] at h
    cases h

end

/-- The execution fails at its last node, and for such a reason. -/
def StoppedFor (d : PageDriver W) (command : Command) (ctx : Context) (w : W)
    (reason : Command → Context → W → Prop) : Prop :=
  ∃ before node ctx' w', LastNode d.toDriver command ctx w before node ctx' w' ∧
    d.history w' = d.history w ++ before ∧
    (d.carryOut (execute command ctx) w).calls =
      before ++ (d.carryOut (execute node ctx') w').calls ∧
    reason node ctx' w'

theorem StoppedFor.mono {d : PageDriver W} {command : Command} {ctx : Context} {w : W}
    {reason reason' : Command → Context → W → Prop}
    (h : StoppedFor d command ctx w reason)
    (hreason : ∀ node ctx' w', reason node ctx' w' → reason' node ctx' w') :
    StoppedFor d command ctx w reason' := by
  obtain ⟨before, node, ctx', w', hlast, hhistory, hcalls, hfor⟩ := h
  exact ⟨before, node, ctx', w', hlast, hhistory, hcalls, hreason _ _ _ hfor⟩

theorem stoppedFor_of_failure {d : PageDriver W} {command : Command} {ctx : Context} {w : W}
    {e : PageError} (h : (d.carryOut (execute command ctx) w).result.result = .error (.page e)) :
    StoppedFor d command ctx w fun node ctx' w' =>
      FatalCause d node ctx' w' e ∨ FormRefused d node ctx' w' e := by
  have hverdict : FlowError.page e ≠ .conditionNotSet := nofun
  obtain ⟨before, node, ctx', w', hlast⟩ := exists_lastNode d.toDriver hverdict command h
  have hcarried := hlast.carryOut_eq.2
  refine ⟨before, node, ctx', w', hlast, hlast.history_eq, ?_, leaf_failure hlast.isLeaf ?_⟩
  · rw [hcarried]
    rfl
  · rw [hcarried] at h
    exact h

/-! ### Forms at hand and in directories -/

/-- The forms are at hand, or each lies in a file of its own. -/
def PlainForms (stage : Stage) : Prop :=
  (∃ forms, stage.forms = .given forms) ∨ ∃ directory, stage.forms = .shelved (formShelf directory)

theorem failsOnly_parseForm (text : String) : FailsOnly OffPage (parseForm text) := by
  unfold parseForm
  dsimp only
  split
  · exact failsOnly_ok _
  · exact failsOnly_error (fun _ => nofun)

/-- No form at hand or in a directory is answered by a failure of the page. -/
theorem form_ne_page {stage : Stage} (hforms : PlainForms stage) {session : SessionId}
    (e : PageError) (id : String) (scene : {scene : Scene // session < scene.sessions.length}) :
    ((sessionDriver stage session).act (.form id) scene).1 ≠ .error (.page e) := by
  intro hrefused
  have hsource : Run.SourceFailsOnly OffPage stage.forms := by
    rcases hforms with ⟨forms, hgiven⟩ | ⟨directory, hshelved⟩
    · rw [hgiven]
      trivial
    · rw [hshelved]
      exact fun _ => failsOnly_parseForm
  have hlookups : Run.CoversLookups OffPage := ⟨fun _ _ => nofun, fun _ _ => nofun⟩
  exact Run.failsOnly_get hlookups hsource "form" id scene.1.forms scene.1.tree _ hrefused e rfl

/-- Where no form is answered by the failure, a call has failed. -/
theorem stoppedFor_of_forms {d : PageDriver W} {command : Command} {ctx : Context} {w : W}
    {e : PageError} (hforms : ∀ id w', (d.act (.form id) w').1 ≠ .error (.page e))
    (h : (d.carryOut (execute command ctx) w).result.result = .error (.page e)) :
    StoppedFor d command ctx w fun node ctx' w' => FatalCause d node ctx' w' e := by
  apply (stoppedFor_of_failure h).mono
  rintro node ctx' w' (hcause | ⟨id, -, hrefused⟩)
  · exact hcause
  · exact absurd hrefused (hforms _ _)

/-- Only fatal calls fail a run by the page, and each that fails does. An execution that fails so
stops at a node that holds no others: with the answer to a fatal call of that node, or because what
a successful click waited for did not appear. The exception is for sources of forms that answer by
that very failure in place of a form, which forms at hand or in a directory do not. Whatever the
calls that fill a form are answered by, they do not fail it. A node that looks for an element lets
the run go on, and its verdict is that a count was obtained and is positive. -/
theorem only_fatal_calls_fail (command : Command) (ctx : Context) :
    (∀ (W : Type) (d : PageDriver W) (w : W) (e : PageError),
      (d.carryOut (execute command ctx) w).result.result = .error (.page e) →
      StoppedFor d command ctx w fun node ctx' w' =>
        FatalCause d node ctx' w' e ∨ FormRefused d node ctx' w' e) ∧
    (∀ (W : Type) (d : PageDriver W) (w : W) (e : PageError),
      (∀ id w', (d.act (.form id) w').1 ≠ .error (.page e)) →
      (d.carryOut (execute command ctx) w).result.result = .error (.page e) →
      StoppedFor d command ctx w fun node ctx' w' => FatalCause d node ctx' w' e) ∧
    (∀ (stage : Stage) (session : SessionId)
      (scene : {scene : Scene // session < scene.sessions.length}) (e : PageError),
      PlainForms stage →
      ((sessionDriver stage session).carryOut (execute command ctx) scene).result.result =
        .error (.page e) →
      StoppedFor (sessionDriver stage session) command ctx scene fun node ctx' scene' =>
        FatalCause (sessionDriver stage session) node ctx' scene' e) ∧
    (∀ (W : Type) (d : PageDriver W) (w : W) (e : PageError),
      FailedCall d.page (d.history w) (d.carryOut (execute command ctx) w).calls e →
      FailedByPage (d.carryOut (execute command ctx) w).result.result) ∧
    (∀ (W : Type) (d : PageDriver W) (w : W) (id : String) (e : PageError),
      (d.carryOut (execute (.fillForm id) ctx) w).result.result = .error (.page e) →
      (d.act (.form (interpolate ctx id)) w).1 = .error (.page e)) ∧
    (∀ (W : Type) (d : PageDriver W) (w : W) (selector : String) (settle : Option Duration),
      (d.carryOut (execute (.elementExists selector settle) ctx) w).calls =
        [.count (interpolate ctx selector)] ∧
      ∃ verdict, (d.carryOut (execute (.elementExists selector settle) ctx) w).result =
          ⟨.ok .continue, ctx.setFlag conditionResult verdict⟩ ∧
        (verdict = true ↔ ∃ n : Nat, 0 < n ∧
          (d.page.answer (d.history w) (.count (interpolate ctx selector))).result = .ok n)) := by
  refine ⟨fun W d w e h => stoppedFor_of_failure h,
    fun W d w e hforms h => stoppedFor_of_forms hforms h, ?_, ?_, ?_, ?_⟩
  · intro stage session scene e hforms h
    exact stoppedFor_of_forms (form_ne_page hforms e) h
  · intro W d w e hcall
    exact endsHeeding_execute d command ctx w e hcall
  · intro W d w id e h
    rw [execute] at h
    exact fillForm_failure (result_of_continued h)
  · intro W d w selector settle
    have hjudged := carryOut_judge d ctx selector settle w
    rw [execute]
    exact ⟨hjudged.1, _, hjudged.2, anyCounted_iff _⟩

/-- A tree that looks for an element, clicks it and waits for another one. -/
def submitting : Command :=
  .sequence [.elementExists "#apply" none, .click "#apply" none (.selector "#done"),
    .exit true none]

/-- A page on which nothing can be counted, and nothing comes of a click. -/
def idleStage : Stage :=
  .bare (Rehearsal.scripted .blank [⟨"count", none, 0, some (.session "no answer")⟩])

theorem only_fatal_calls_fail_submitting :
    PlainForms idleStage ∧
      ((sessionDriver idleStage 0).carryOut (execute submitting .empty) openScene).result.result =
        .error (.page (.timeout "'#done' did not appear after clicking '#apply'")) ∧
      StoppedFor (sessionDriver idleStage 0) submitting .empty openScene fun node ctx' scene' =>
        FatalCause (sessionDriver idleStage 0) node ctx' scene'
          (.timeout "'#done' did not appear after clicking '#apply'") := by
  have hforms : PlainForms idleStage := .inl ⟨[], rfl⟩
  have hfailed :
      ((sessionDriver idleStage 0).carryOut (execute submitting .empty) openScene).result.result =
        .error (.page (.timeout "'#done' did not appear after clicking '#apply'")) := by
    rfl
  exact ⟨hforms, hfailed, (only_fatal_calls_fail submitting .empty).2.2.1 _ _ _ _ hforms hfailed⟩

end Jobflow.Workflow
