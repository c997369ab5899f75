import Jobflow.Proofs.Cookie.Visits
import Jobflow.Proofs.Run.Stopping

/-!
A run that keeps cookies, beside one that does not. As long as the page of a session does not
depend on the cookies it was opened with, both make the same calls and end alike, whatever
becomes of the cookies: trouble with reading, exporting or saving them, or with closing the
session, is seen by neither.
-/

namespace Jobflow.Run

open Jobflow.Cookie (Jar)
open Jobflow.Page (Call)
open Jobflow.Program (Coupled)
open Jobflow.Rehearsal (Scene Stage)
open Jobflow.Workflow (Browse Browsing Command Context Ended FlowError SameCall SameEnd SameFailure
  SameOp SameResult)

variable {W W' α β : Type}

/-! ### Two runs in a session -/

/-- Two hosts whose pages answer alike in worlds that match: a session that opens with some
cookies shows what one without cookies shows. Nothing is said about what they answer when they
are asked for cookies, or to close a session. -/
structure Host.ShowsAlike (host : Host W) (host' : Host W') (Op : Browse → Browse → Prop)
    (Like : Workflow.Exchange → Workflow.Exchange → Prop) (Match : W → W' → Prop) : Prop where
  pass : ∀ {w w'}, Match w w' → ∀ time, Match (host.pass time w) (host'.pass time w')
  openSession : ∀ {w w'}, Match w w' → ∀ cookies,
    Mirrored Match Eq (host.openSession cookies w) (host'.openSession none w')
  browse : ∀ {w w'}, Match w w' → ∀ session {op op'}, Op op op' →
    Mirrored Match (fun answer answer' => Like ⟨op, answer⟩ ⟨op', answer'⟩)
      (host.browse session op w) (host'.browse session op' w')

section
variable {host : Host W} {host' : Host W'} {calls : W → List Call} {calls' : W' → List Call}
  {Op : Browse → Browse → Prop} {Like : Workflow.Exchange → Workflow.Exchange → Prop}
  {Match : W → W' → Prop} {C : Call → Call → Prop} {E : Ended → Ended → Prop}

theorem Host.ShowsAlike.drive (h : host.ShowsAlike host' Op Like Match) (cancel : Cancellation)
    {R : α → β → Prop} {p : Browsing α} {q : Browsing β} (hpq : Coupled Op Like R p q)
    (session : SessionId) (time : Nat) {w : W} {w' : W'} (hw : Match w w') :
    InStep Match (Option.Rel R) (runAlone host cancel (Run.drive session p) time w)
      (runAlone host' cancel (Run.drive session q) time w') := by
  induction hpq generalizing time w w' with
  | done hR => exact ⟨rfl, .some hR, hw⟩
  | @step op op' next next' hop _ ih =>
    have hreply := h.browse hw session hop
    by_cases hcut : 0 < (host.browse session op w).delay ∧
        cancel.isDue (time + (host.browse session op w).delay)
    · rw [runAlone_drive_of_cut host cancel hcut,
        runAlone_drive_of_cut host' cancel (hreply.delay ▸ hcut)]
      exact ⟨rfl, .none, h.pass hreply.world _⟩
    · rw [runAlone_drive_of_not_cut host cancel hcut,
        runAlone_drive_of_not_cut host' cancel (hreply.delay ▸ hcut), ← hreply.delay]
      exact ih _ _ hreply.answer _ (h.pass hreply.world _)

theorem Host.ShowsAlike.executeIn (h : host.ShowsAlike host' Op Like Match) (cancel : Cancellation)
    {command : Command} {initial : Context}
    (hexecute : Coupled Op Like E (Workflow.execute command initial)
      (Workflow.execute command initial))
    (session : SessionId) (time : Nat) {w : W} {w' : W'} (hw : Match w w') :
    InStep Match (Option.Rel E)
      (runAlone host cancel (Run.executeIn session command initial) time w)
      (runAlone host' cancel (Run.executeIn session command initial) time w') := by
  have hmatch := h.pass hw time
  rw [runAlone_executeIn, runAlone_executeIn]
  split
  · exact ⟨rfl, .none, hmatch⟩
  · exact h.drive cancel hexecute session time hmatch

/-! ### A run with cookies and a run without -/

/-- Whatever is found, a run that keeps cookies goes on to open its session. -/
theorem runAlone_restored (host : Host W) (cancel : Cancellation) (site : String) (time : Nat)
    (w : W) :
    let load := host.loadCookies site w
    ∃ saved, runAlone host cancel (restored true site) time w =
      ⟨time + load.delay, saved, host.pass (time + load.delay) load.world⟩ := by
  intro load
  have hfound : runAlone host cancel (loadCookies site) time w =
      ⟨time + load.delay, load.answer, host.pass (time + load.delay) load.world⟩ := rfl
  rw [restored, if_pos rfl, runAlone_bind, hfound]
  cases load.answer with
  | ok saved => exact ⟨saved, rfl⟩
  | error e => exact ⟨none, rfl⟩

theorem Host.ShowsAlike.sessionFor (h : host.ShowsAlike host' Op Like Match) (cancel : Cancellation)
    (initial : Context) (time : Nat) {w : W} {w' : W'} (hw :
      let load := host.loadCookies (Cookie.siteOf initial) w
      Match (host.pass (time + load.delay) load.world) w') :
    InStep Match Eq (runAlone host cancel (Run.sessionFor true initial) time w)
      (runAlone host' cancel (Run.sessionFor false initial)
        (time + (host.loadCookies (Cookie.siteOf initial) w).delay) w') := by
  obtain ⟨saved, hrestored⟩ := runAlone_restored host cancel (Cookie.siteOf initial) time w
  rw [Run.sessionFor, Run.sessionFor, runAlone_bind, hrestored]
  exact (h.openSession hw saved).inStep h.pass _

end

/-- On hosts whose pages answer alike, in the sense of `Op` and `Like`, a run that keeps cookies
makes the calls of one that keeps none, up to `C`, and ends as that one in the sense of `R`. The
one without cookies begins when the other has looked for its cookies, which may take a while; both
are asked to stop at the same time, if ever. -/
def CookiesUnseen (command : Command) (initial : Context) (Op : Browse → Browse → Prop)
    (Like : Workflow.Exchange → Workflow.Exchange → Prop) (C : Call → Call → Prop)
    (R : Except FlowError Context → Except FlowError Context → Prop) : Prop :=
  ∀ (W W' : Type) (host : Host W) (host' : Host W')
    (calls : W → List Call) (calls' : W' → List Call)
    (Match : W → W' → Prop), host.Records calls → host'.Records calls' →
    host.ShowsAlike host' Op Like Match →
    (∀ w w', Match w w' → List.Forall₂ C (calls w) (calls' w')) →
    ∀ (cancel : Cancellation) (time : Nat) (w : W) (w' : W'),
      let load := host.loadCookies (Cookie.siteOf initial) w
      Match (host.pass (time + load.delay) load.world) w' →
        let run := runAlone host cancel (runWorkflow true command initial) time w
        let run' := runAlone host' cancel (runWorkflow false command initial) (time + load.delay) w'
        List.Forall₂ C (calls run.world) (calls' run'.world) ∧ R run.answer run'.answer

theorem cookiesUnseen_of_coupled {Op : Browse → Browse → Prop}
    {Like : Workflow.Exchange → Workflow.Exchange → Prop} {C : Call → Call → Prop}
    {E : Ended → Ended → Prop} {R : Except FlowError Context → Except FlowError Context → Prop}
    {command : Command} {initial : Context}
    (hexecute : Coupled Op Like E (Workflow.execute command initial)
      (Workflow.execute command initial))
    (hrefl : ∀ e, R (.error e) (.error e))
    (hverdict : ∀ ended ended', E ended ended' → R (verdict (some ended)) (verdict (some ended'))) :
    CookiesUnseen command initial Op Like C R := by
  intro W W' host host' calls calls' Match hrecords hrecords' hshows hcalls cancel time w w' load hw
    run run'
  obtain ⟨htime, hopened, hmatch⟩ := hshows.sessionFor cancel initial time hw
  simp only [run, run', load, runWorkflow_eq, runAlone_bind, ← htime, ← hopened]
  cases (runAlone host cancel (sessionFor true initial) time w).answer with
  | error e => exact ⟨hcalls _ _ hmatch, hrefl _⟩
  | ok session =>
    have hended := hshows.executeIn cancel hexecute session
      (runAlone host cancel (sessionFor true initial) time w).time hmatch
    dsimp only
    rw [hrecords.reportFrom, hrecords'.reportFrom, answer_reportFrom, answer_reportFrom]
    exact ⟨hcalls _ _ hended.world, rel_verdict hrefl hverdict hended.answer⟩

/-- Exactly, on pages that are answered exactly alike. -/
theorem cookiesUnseen_same (command : Command) (initial : Context) :
    CookiesUnseen command initial Eq Eq Eq Eq :=
  cookiesUnseen_of_coupled (Program.coupled_refl _) (fun _ => rfl) fun _ _ h => h ▸ rfl

/-! ### Rehearsals -/

section
variable {scene scene' : Scene}

/-- What the page of a session can see of a scene. -/
def seen (scene : Scene) : Scene :=
  { Scene.empty with
    sessions := scene.sessions
    tree := scene.tree
    forms := scene.forms
    drawn := scene.drawn }

/-- Scenes that are the same to the page of a session. -/
def LooksLike (scene scene' : Scene) : Prop := seen scene = seen scene'

theorem LooksLike.history (h : LooksLike scene scene') (session : SessionId) :
    scene.history session = scene'.history session := by
  have hsessions : (seen scene).sessions = (seen scene').sessions := congrArg Scene.sessions h
  rw [Scene.history, Scene.history, show scene.sessions = scene'.sessions from hsessions]

theorem looksLike_pass (scene : Scene) (time : Nat) : LooksLike (scene.pass time) scene := by
  obtain ⟨jobs, later, edits, hpass⟩ := scene.exists_pass time
  rw [hpass]
  rfl

theorem LooksLike.pass (h : LooksLike scene scene') (time : Nat) :
    LooksLike (scene.pass time) (scene'.pass time) :=
  (looksLike_pass scene time).trans (h.trans (looksLike_pass scene' time).symm)

/-- A page answers what it answers to somebody who sees nothing else. -/
theorem mirrored_seen_browse (stage : Stage) (session : SessionId) (op : Browse) (scene : Scene) :
    Mirrored LooksLike Eq (stage.browse session op scene)
      (stage.browse session op (seen scene)) := by
  cases op with
  | makeDirectories path =>
    simp only [Stage.browse, seen]
    cases scene.tree.makeDirectories path with
    | ok tree => exact ⟨rfl, rfl, rfl⟩
    | error e => exact ⟨rfl, rfl, rfl⟩
  | _ => exact ⟨rfl, rfl, rfl⟩

/-- The cookies of a session are seen by nobody. -/
theorem mirrored_seen_openSession (stage : Stage) (cookies : Option Jar) (scene : Scene) :
    Mirrored LooksLike Eq (stage.openSession cookies scene)
      (stage.openSession none (seen scene)) := by
  simp only [Stage.openSession, seen, Scene.draw]
  split
  · exact ⟨rfl, rfl, rfl⟩
  · exact ⟨rfl, rfl, rfl⟩

/-- Two answers that are the same as a third are the same. -/
theorem Mirrored.of_common {reply reply' common : Delayed Scene α}
    (h : Mirrored LooksLike Eq reply common) (h' : Mirrored LooksLike Eq reply' common) :
    Mirrored LooksLike Eq reply reply' :=
  ⟨h.delay.trans h'.delay.symm, h.answer.trans h'.answer.symm, h.world.trans h'.world.symm⟩

/-- Where a stage keeps its cookies makes no difference to its pages. -/
theorem showsAlike_stage (stage : Stage) (cookies cookies' : Option Cookie.Store) :
    ({ stage with cookies := cookies } : Stage).host.ShowsAlike
      ({ stage with cookies := cookies' } : Stage).host Eq Eq LooksLike where
  pass h time := h.pass time
  openSession := by
    intro scene scene' h saved
    have hseen : seen scene = seen scene' := h
    have hopened := mirrored_seen_openSession stage saved scene
    rw [hseen] at hopened
    exact hopened.of_common (mirrored_seen_openSession stage none scene')
  browse := by
    rintro scene scene' h session op _ rfl
    have hseen : seen scene = seen scene' := h
    have hreply := mirrored_seen_browse stage session op scene
    rw [hseen] at hreply
    have hsame := hreply.of_common (mirrored_seen_browse stage session op scene')
    exact ⟨hsame.delay, congrArg (Sigma.mk op) hsame.answer, hsame.world⟩

/-- To look for cookies takes no time, and leaves the scene as it was. -/
theorem loadCookies_eq (stage : Stage) (store : Cookie.Store) (site : String) (scene : Scene) :
    (({ stage with cookies := some store } : Stage).host.loadCookies site scene).delay = 0 ∧
      (({ stage with cookies := some store } : Stage).host.loadCookies site scene).world =
        scene := by
  refine ⟨rfl, ?_⟩
  simp only [Stage.host, Delayed.atOnce, Scene.filing, Cookie.run_load]

theorem AlikeScenes.seen (h : AlikeScenes scene scene') :
    AlikeScenes (seen scene) (seen scene') := by
  obtain ⟨drawn, hsessions⟩ := h
  exact .intro drawn hsessions

/-- Answers to two that see nothing but the page are alike when what these see is. -/
theorem Mirrored.of_seen {R : α → β → Prop} {reply common : Delayed Scene α}
    {reply' common' : Delayed Scene β} (h : Mirrored LooksLike Eq reply common)
    (h' : Mirrored LooksLike Eq reply' common') (hcommon : Mirrored AlikeScenes R common common') :
    Mirrored (fun scene scene' => AlikeScenes (Run.seen scene) (Run.seen scene')) R
      reply reply' := by
  refine ⟨h.delay.trans (hcommon.delay.trans h'.delay.symm), ?_, ?_⟩
  · rw [h.answer, h'.answer]
    exact hcommon.answer
  · rw [show Run.seen reply.world = Run.seen common.world from h.world,
      show Run.seen reply'.world = Run.seen common'.world from h'.world]
    exact hcommon.world.seen

/-- On a stage whose pages do not look at generated names it makes no difference either when the
names are others. -/
theorem showsAlike_names (stage : Stage) (hpage : Workflow.PagesAlike stage.page stage.page)
    (hlaunch : ∀ id id' tree, stage.launch id tree = stage.launch id' tree)
    (cookies cookies' : Option Cookie.Store) :
    ({ stage with cookies := cookies } : Stage).host.ShowsAlike
      ({ stage with cookies := cookies' } : Stage).host SameOp Workflow.Alike
      fun scene scene' => AlikeScenes (seen scene) (seen scene') where
  pass {scene scene'} h time := by
    have hpass : seen (scene.pass time) = seen scene := looksLike_pass scene time
    have hpass' : seen (scene'.pass time) = seen scene' := looksLike_pass scene' time
    simp only [Stage.host, hpass, hpass', h]
  openSession {scene scene'} h saved :=
    (mirrored_seen_openSession stage saved scene).of_seen
      (mirrored_seen_openSession stage none scene')
      ((mirrors_stage hpage hlaunch).openSession h none)
  browse {scene scene'} h session op op' hop :=
    (mirrored_seen_browse stage session op scene).of_seen
      (mirrored_seen_browse stage session op' scene')
      ((mirrors_stage hpage hlaunch).browse h session hop)

end

/-! ### Cookies make no difference -/

/-- To keep cookies makes no difference to a run, as long as the pages do not depend on them: it
makes the same calls and ends alike, exactly on pages that answer exactly alike, and up to the
names generated for screenshots on pages that answer the same but for names. In a rehearsal that
is so whatever the files are, whatever becomes of the cookies of the session, and however the
session closes. -/
theorem cookies_make_no_difference (command : Command) (initial : Context) :
    CookiesUnseen command initial Eq Eq Eq Eq ∧
      CookiesUnseen command initial SameOp Workflow.Alike SameCall (SameResult SameFailure) ∧
      ∀ (stage : Stage) (store : Cookie.Store) (cancel : Cancellation) (time : Nat) (scene : Scene),
        let run := runAlone ({ stage with cookies := some store } : Stage).host cancel
          (runWorkflow true command initial) time scene
        let run' := runAlone ({ stage with cookies := none } : Stage).host cancel
          (runWorkflow false command initial) time scene
        (∀ session, run.world.history session = run'.world.history session) ∧
          run.answer = run'.answer := by
  refine ⟨cookiesUnseen_same command initial, ?_, ?_⟩
  · exact cookiesUnseen_of_coupled (Workflow.goAlike_execute command initial)
      (fun e => .error (.same e)) fun _ _ => sameResult_verdict
  · intro stage store cancel time scene run run'
    obtain ⟨hdelay, hworld⟩ := loadCookies_eq stage store (Cookie.siteOf initial) scene
    have hshows := showsAlike_stage stage (some store) none
    have hbeside : ∀ session, List.Forall₂ Eq (run.world.history session)
        (run'.world.history session) ∧ run.answer = run'.answer := by
      intro session
      have hrun := cookiesUnseen_same command initial Scene Scene _ _ (·.history session)
        (·.history session) LooksLike (records_history _ session) (records_history _ session) hshows
        (fun w w' hw => List.forall₂_eq_eq_eq ▸ hw.history session) cancel time scene scene
      simp only [hdelay, hworld, Nat.add_zero] at hrun
      exact hrun (looksLike_pass scene time)
    exact ⟨fun session => List.forall₂_eq_eq_eq ▸ (hbeside session).1, (hbeside 0).2⟩

/-- A stage whose sessions show no cookies and do not close. -/
def guardedStage : Stage :=
  { slowStage with
    exported := ⟨5, .error (.session "no cookies")⟩
    closing := ⟨5, .error (.session "still open")⟩ }

/-- A directory stands in the place of the cookies. -/
def blockedScene : Scene :=
  { Scene.empty with
    tree := [(["cookies"], .directory), (["cookies", "default.json"], .directory)] }

/-- A run whose workflow fails, and which can neither find its cookies nor keep others nor close
its session; and one in a scene with other names that keeps no cookies. -/
theorem cookies_make_no_difference_shooting :
    let host := ({ guardedStage with cookies := some ⟨"cookies"⟩ } : Stage).host
    let host' := ({ guardedStage with cookies := none } : Stage).host
    let Match := fun scene scene' => AlikeScenes (seen scene) (seen scene')
    host.Records (·.history 0) ∧ host'.Records (·.history 0) ∧
      host.ShowsAlike host' SameOp Workflow.Alike Match ∧
      Match blockedScene { blockedScene with drawn := 7 } ∧
      let run := runAlone host none (runWorkflow true shooting .empty) 0 blockedScene
      let run' := runAlone host' none (runWorkflow false shooting .empty) 0
        { blockedScene with drawn := 7 }
      List.Forall₂ SameCall (run.world.history 0) (run'.world.history 0) ∧
        SameResult SameFailure run.answer run'.answer := by
  intro host host' Match
  have hrecords : host.Records (·.history 0) := records_history _ 0
  have hrecords' : host'.Records (·.history 0) := records_history _ 0
  have hshows : host.ShowsAlike host' SameOp Workflow.Alike Match :=
    showsAlike_names guardedStage ⟨fun _ _ => rfl, fun _ _ => .call (.refl _)⟩
      (fun _ _ _ => rfl) _ _
  have hscenes : Match blockedScene { blockedScene with drawn := 7 } := .intro 7 .nil
  refine ⟨hrecords, hrecords', hshows, hscenes, ?_⟩
  obtain ⟨hdelay, hworld⟩ :=
    loadCookies_eq guardedStage ⟨"cookies"⟩ (Cookie.siteOf .empty) blockedScene
  have hbeside := (cookies_make_no_difference shooting .empty).2.1 Scene Scene host host'
    (·.history 0) (·.history 0) Match hrecords hrecords' hshows (fun _ _ h => h.history 0) none 0
    blockedScene { blockedScene with drawn := 7 }
  simp only [host, hdelay, hworld, Nat.add_zero] at hbeside
  exact hbeside hscenes

end Jobflow.Run
