import Jobflow.Proofs.Run.Independence

/-!
Hosts that record the calls of their runs, and pairs of hosts that answer alike. A rehearsal
records the calls on each of its sessions; two rehearsals on one stage that have drawn
different numbers of identifiers answer the same but for the names made of them.
-/

namespace Jobflow.Run

open Jobflow.Cookie (Jar)
open Jobflow.Page (Call)
open Jobflow.Rehearsal (Scene Stage)
open Jobflow.Workflow (Browse PagesAlike SameCall SameOp SameReport SameResult)

variable {W W' α β : Type}

/-- The host records the calls on a page: operations of a workflow may add some, and nothing
else changes them. -/
structure Host.Records (host : Host W) (calls : W → List Call) : Prop where
  pass : ∀ time w, calls (host.pass time w) = calls w
  browse : ∀ session op w, calls w <+: calls (host.browse session op w).world
  other : ∀ cancel time op w, ¬ op.IsBrowse → calls (respond host cancel time op w).world = calls w

/-- Answers to the same question in two worlds: after the same delay, related by `R`, and in
worlds that match again. -/
structure Mirrored (Match : W → W' → Prop) (R : α → β → Prop) (reply : Delayed W α)
    (reply' : Delayed W' β) : Prop where
  delay : reply.delay = reply'.delay
  answer : R reply.answer reply'.answer
  world : Match reply.world reply'.world

/-- Two hosts that answer alike in worlds that match, at least until a run leaves its session:
operations of a workflow that `Op` relates are answered as `Like` relates them. -/
structure Host.Mirrors (host : Host W) (host' : Host W') (Op : Browse → Browse → Prop)
    (Like : Workflow.Exchange → Workflow.Exchange → Prop) (Match : W → W' → Prop) : Prop where
  pass : ∀ {w w'}, Match w w' → ∀ time, Match (host.pass time w) (host'.pass time w')
  loadCookies : ∀ {w w'}, Match w w' → ∀ site,
    Mirrored Match Eq (host.loadCookies site w) (host'.loadCookies site w')
  openSession : ∀ {w w'}, Match w w' → ∀ cookies,
    Mirrored Match Eq (host.openSession cookies w) (host'.openSession cookies w')
  browse : ∀ {w w'}, Match w w' → ∀ session {op op'}, Op op op' →
    Mirrored Match (fun answer answer' => Like ⟨op, answer⟩ ⟨op', answer'⟩)
      (host.browse session op w) (host'.browse session op' w')

theorem mirrors_self (host : Host W) : host.Mirrors host Eq Eq Eq where
  pass := by
    rintro w _ rfl time
    rfl
  loadCookies := by
    rintro w _ rfl site
    exact ⟨rfl, rfl, rfl⟩
  openSession := by
    rintro w _ rfl cookies
    exact ⟨rfl, rfl, rfl⟩
  browse := by
    rintro w _ rfl session op _ rfl
    exact ⟨rfl, rfl, rfl⟩

/-! ### Rehearsals -/

section
variable {stage : Stage}

theorem history_setHistory (scene : Scene) (session other : SessionId) (calls : List Call) :
    (scene.setHistory session calls).history other =
      if session = other ∧ session < scene.sessions.length then calls else scene.history other := by
  simp only [Scene.setHistory, Scene.history, List.getD_eq_getElem?_getD, List.getElem?_set]
  by_cases hsession : session = other
  · subst hsession
    by_cases hlt : session < scene.sessions.length <;> simp [hlt]
  · simp [hsession]

theorem prefix_makeWith (page : Page.Behaviour) (history : List Call) (call wait : Call) :
    history <+: (page.makeWith history call wait).history := by
  unfold Page.Behaviour.makeWith
  dsimp only
  split
  · split
    · exact List.prefix_append _ _
    · exact List.prefix_append _ _
  · exact List.prefix_append _ _

/-- Only the waits in a session can be cut short. -/
theorem world_respond_of_not_isBrowse (host : Host W) (cancel : Cancellation) (time : Nat)
    {op : RunOp} (hop : ¬ op.IsBrowse) (w : W) :
    (respond host cancel time op w).world = (respond host none time op w).world := by
  cases op with
  | browse => exact absurd trivial hop
  | _ => rfl

/-- A new session has no calls, like one that there is not. -/
theorem getD_concat_nil (sessions : List (List Call)) (session : SessionId) :
    (sessions ++ [[]]).getD session [] = sessions.getD session [] := by
  by_cases hlt : session < sessions.length
  · simp only [List.getD_eq_getElem?_getD, List.getElem?_append_left hlt]
  · simp only [List.getD_eq_getElem?_getD, List.getElem?_append_right (Nat.not_lt.mp hlt),
      List.getElem?_eq_none (Nat.not_lt.mp hlt)]
    cases session - sessions.length <;> rfl

/-- A rehearsal records the calls on each session. -/
theorem records_history (stage : Stage) (session : SessionId) :
    stage.host.Records (·.history session) where
  pass time scene := by
    simp only [Scene.history]
    rw [show (stage.host.pass time scene).sessions = scene.sessions from sessions_pass scene time]
  browse other op scene := by
    have hset : ∀ calls, scene.history other <+: calls →
        scene.history session <+: (scene.setHistory other calls).history session := by
      intro calls hprefix
      rw [history_setHistory]
      split
      · next h => exact h.1 ▸ hprefix
      · exact List.prefix_rfl
    cases op with
    | call call => exact hset _ (List.prefix_append _ _)
    | clickAwaiting => exact hset _ (prefix_makeWith _ _ _ _)
    | clickSettling => exact hset _ (prefix_makeWith _ _ _ _)
    | makeDirectories path =>
      simp only [Stage.host, Stage.browse]
      split <;> exact List.prefix_rfl
    | _ => exact List.prefix_rfl
  other cancel time op scene hop := by
    rw [world_respond_of_not_isBrowse stage.host cancel time hop scene, ← Stage.hostWith_page]
    simp only [Scene.history]
    cases hopens : opens ⟨op, (respond (stage.hostWith fun _ => stage.page) none time op
        scene).answer⟩ with
    | false => rw [sessions_other hop hopens]
    | true =>
      cases op with
      | openSession cookies =>
        generalize hanswer : (respond (stage.hostWith fun _ => stage.page) none time
          (.openSession cookies) scene).answer = answer at hopens
        cases answer with
        | error e => cases hopens
        | ok opened => rw [(sessions_open hanswer).2, getD_concat_nil]
      | _ => cases hopens

/-! ### Rehearsals that differ in generated names -/

/-- Scenes that differ at most in how many identifiers were drawn, and in the names made of them
in the calls on the sessions. -/
inductive AlikeScenes (scene : Scene) : Scene → Prop
  | intro {sessions : List (List Call)} (drawn : Nat) :
      List.Forall₂ (List.Forall₂ SameCall) scene.sessions sessions →
      AlikeScenes scene { scene with sessions := sessions, drawn := drawn }

theorem AlikeScenes.history {scene scene' : Scene} (h : AlikeScenes scene scene')
    (session : SessionId) :
    List.Forall₂ SameCall (scene.history session) (scene'.history session) := by
  obtain ⟨_, hsessions⟩ := h
  simp only [Scene.history]
  generalize scene.sessions = first at hsessions
  induction hsessions generalizing session with
  | nil => exact .nil
  | cons hcalls _ ih =>
    cases session with
    | zero => exact hcalls
    | succ session => exact ih session

/-- A change of the backlog is the same in both scenes. -/
theorem edit_with (scene : Scene) (change : Rehearsal.Edit) (sessions : List (List Call))
    (drawn : Nat) :
    (({ scene with sessions := sessions, drawn := drawn } : Scene).edit change).toOption.getD
        { scene with sessions := sessions, drawn := drawn } =
      { (scene.edit change).toOption.getD scene with sessions := sessions, drawn := drawn } := by
  have hmap : ∀ changed : Except Job.StoreError Job.MemoryStore,
      (changed.map fun jobs =>
        { scene with sessions := sessions, drawn := drawn, jobs := jobs }).toOption.getD
          { scene with sessions := sessions, drawn := drawn } =
        { (changed.map fun jobs => { scene with jobs := jobs }).toOption.getD scene with
          sessions := sessions, drawn := drawn } := by
    intro changed
    cases changed <;> rfl
  exact hmap _

theorem AlikeScenes.pass {scene scene' : Scene} (h : AlikeScenes scene scene') (time : Nat) :
    AlikeScenes (scene.pass time) (scene'.pass time) := by
  obtain @⟨sessions, drawn, hsessions⟩ := h
  have hfold : ∀ (due : List (Nat × Rehearsal.Edit)) (scene : Scene),
      due.foldl (fun scene change => (scene.edit change.2).toOption.getD scene)
          { scene with sessions := sessions, drawn := drawn } =
        { due.foldl (fun scene change => (scene.edit change.2).toOption.getD scene) scene with
          sessions := sessions, drawn := drawn } := by
    intro due
    induction due with
    | nil => exact fun _ => rfl
    | cons change rest ih =>
      intro scene
      rw [List.foldl_cons, edit_with, ih, List.foldl_cons]
  have hpass : ({ scene with sessions := sessions, drawn := drawn } : Scene).pass time =
      { scene.pass time with sessions := sessions, drawn := drawn } :=
    hfold (scene.edits.filter fun change => change.1 ≤ time) { scene with
      time := max scene.time time
      edits := scene.edits.filter fun change => time < change.1 }
  rw [hpass]
  refine .intro drawn ?_
  rwa [sessions_pass]

theorem AlikeScenes.setHistory {scene scene' : Scene} (h : AlikeScenes scene scene')
    (session : SessionId) {calls calls' : List Call} (hcalls : List.Forall₂ SameCall calls calls') :
    AlikeScenes (scene.setHistory session calls) (scene'.setHistory session calls') := by
  obtain @⟨sessions, drawn, hsessions⟩ := h
  have hset : List.Forall₂ (List.Forall₂ SameCall) (scene.sessions.set session calls)
      (sessions.set session calls') := by
    generalize scene.sessions = first at hsessions
    induction hsessions generalizing session with
    | nil => exact .nil
    | cons hhead htail ih =>
      cases session with
      | zero => exact .cons hcalls htail
      | succ session => exact .cons hhead (ih session)
  exact AlikeScenes.intro drawn hset

/-- Files are read and written alike. -/
theorem AlikeScenes.filing {γ : Type} {scene scene' : Scene} (h : AlikeScenes scene scene')
    (program : Files.Filing γ) :
    Mirrored AlikeScenes Eq (.atOnce (scene.filing stage program))
      (.atOnce (scene'.filing stage program)) := by
  obtain @⟨sessions, drawn, hsessions⟩ := h
  have hfiling :
      ({ scene with sessions := sessions, drawn := drawn } : Scene).filing stage program =
      ((scene.filing stage program).1,
        { (scene.filing stage program).2 with sessions := sessions, drawn := drawn }) := rfl
  rw [hfiling]
  exact ⟨rfl, rfl, .intro drawn hsessions⟩

/-- What two such scenes answer to a click with a wait alongside. -/
theorem mirrored_makeWith (hpage : PagesAlike stage.page stage.page) {scene scene' : Scene}
    (h : AlikeScenes scene scene') (session : SessionId) (call wait : Call) :
    let made := stage.page.makeWith (scene.history session) call wait
    let made' := stage.page.makeWith (scene'.history session) call wait
    Mirrored AlikeScenes (SameResult SameReport)
      ⟨made.reply.delay, made.reply.result, scene.setHistory session made.history⟩
      ⟨made'.reply.delay, made'.reply.result, scene'.setHistory session made'.history⟩ := by
  obtain ⟨hdelay, hresult, hhistory⟩ := hpage.made (h.history session) call wait
  exact ⟨hdelay, hresult, h.setHistory session hhistory⟩

/-- What two such scenes answer to a call, up to the names in it. -/
theorem mirrored_call (hpage : PagesAlike stage.page stage.page) {scene scene' : Scene}
    (h : AlikeScenes scene scene') (session : SessionId) {call call' : Call}
    (hcall : SameCall call call') :
    Mirrored AlikeScenes
      (fun answer answer' => Workflow.Alike ⟨.call call, answer⟩ ⟨.call call', answer'⟩)
      (stage.host.browse session (.call call) scene)
      (stage.host.browse session (.call call') scene') :=
  ⟨hpage.delay (h.history session) hcall, hpage.result (h.history session) hcall,
    h.setHistory session (List.rel_append (h.history session) (.cons hcall .nil))⟩

/-- What two such scenes answer to an operation of a workflow. -/
theorem mirrored_browse (hpage : PagesAlike stage.page stage.page) {scene scene' : Scene}
    (h : AlikeScenes scene scene') (session : SessionId) (op : Browse) :
    Mirrored AlikeScenes (fun answer answer' => Workflow.Alike ⟨op, answer⟩ ⟨op, answer'⟩)
      (stage.host.browse session op scene) (stage.host.browse session op scene') := by
  cases op with
  | call call => exact mirrored_call hpage h session (.same call)
  | clickAwaiting selector timeout next =>
    obtain ⟨hdelay, hresult, hworld⟩ :=
      mirrored_makeWith hpage h session (.click selector timeout) (.waitForSelector next)
    exact ⟨hdelay, Workflow.alike_clickAwaiting hresult, hworld⟩
  | clickSettling selector timeout =>
    obtain ⟨hdelay, hresult, hworld⟩ :=
      mirrored_makeWith hpage h session (.click selector timeout) .waitForLoadIdle
    exact ⟨hdelay, Workflow.alike_clickSettling hresult, hworld⟩
  | sleep duration => exact ⟨rfl, .same _, h⟩
  | form id =>
    obtain ⟨drawn, hsessions⟩ := h
    exact ⟨rfl, .same _, .intro drawn hsessions⟩
  | makeDirectories path =>
    obtain ⟨drawn, hsessions⟩ := h
    simp only [Stage.host, Stage.browse]
    split
    · exact ⟨rfl, .same _, .intro drawn hsessions⟩
    · exact ⟨rfl, .same _, .intro drawn hsessions⟩
  | freshName =>
    obtain ⟨drawn, hsessions⟩ := h
    exact ⟨rfl, .name ⟨_, rfl⟩ ⟨_, rfl⟩, .intro (drawn + 1) hsessions⟩

/-- Rehearsals on a stage whose page and whose browser do not look at generated names answer
the same but for names. -/
theorem mirrors_stage (hpage : PagesAlike stage.page stage.page)
    (hlaunch : ∀ id id' tree, stage.launch id tree = stage.launch id' tree) :
    stage.host.Mirrors stage.host SameOp Workflow.Alike AlikeScenes where
  pass h time := h.pass time
  loadCookies := by
    intro scene scene' h site
    simp only [Stage.host]
    split
    · exact h.filing _
    · obtain ⟨drawn, hsessions⟩ := h
      exact ⟨rfl, rfl, .intro drawn hsessions⟩
  openSession := by
    rintro scene _ ⟨drawn, hsessions⟩ cookies
    simp only [Stage.host, Stage.openSession, Scene.draw]
    -- the two sessions have different identifiers, which a launch does not look at
    rw [hlaunch (Scene.identifier drawn) (Scene.identifier scene.drawn)]
    split
    · exact ⟨rfl, rfl, AlikeScenes.intro (drawn + 1) hsessions⟩
    · exact ⟨rfl, congrArg Except.ok hsessions.length_eq,
        AlikeScenes.intro (drawn + 1) (List.rel_append hsessions (.cons .nil .nil))⟩
  browse := by
    intro scene scene' h session op op' hop
    cases hop with
    | call hsame => exact mirrored_call hpage h session hsame
    | same => exact mirrored_browse hpage h session op

end

end Jobflow.Run
