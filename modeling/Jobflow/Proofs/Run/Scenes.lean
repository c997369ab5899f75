import Jobflow.Rehearsal.Stage

/-!
What the operations of runs do to the scene of a rehearsal. Every operation changes one part of
the scene at most, so what is true of the other parts is kept by it.
-/

namespace Jobflow.Rehearsal

open Jobflow.Cookie (Jar)
open Jobflow.Files (Tree)
open Jobflow.Page (Behaviour Call PageError)
open Jobflow.Run (Cancellation Delayed Host RunOp SessionId respond)
open Jobflow.Workflow (Browse)

namespace Stage

variable (stage : Stage)

/-- The surroundings of runs on a stage whose sessions show pages of their own. -/
def hostWith (pages : SessionId → Behaviour) : Host Scene :=
  { stage.host with
    browse := fun session op scene =>
      Stage.browse { stage with page := pages session } session op scene }

/-- All sessions of the stage itself show the same page. -/
theorem hostWith_page : stage.hostWith (fun _ => stage.page) = stage.host := rfl

end Stage

/-- A change of the backlog, be it refused or not, changes nothing else. -/
theorem Scene.exists_edit (scene : Scene) (change : Edit) :
    ∃ jobs, (scene.edit change).toOption.getD scene = { scene with jobs := jobs } := by
  have hmap : ∀ changed : Except Job.StoreError Job.MemoryStore, ∃ jobs,
      (changed.map fun jobs => { scene with jobs := jobs }).toOption.getD scene =
        { scene with jobs := jobs } := by
    intro changed
    cases changed with
    | error e => exact ⟨scene.jobs, rfl⟩
    | ok jobs => exact ⟨jobs, rfl⟩
  exact hmap _

/-- The passing of time brings changes of the backlog and nothing else. -/
theorem Scene.exists_pass (scene : Scene) (time : Nat) :
    ∃ jobs later edits,
      scene.pass time = { scene with jobs := jobs, time := later, edits := edits } := by
  have hfold : ∀ (due : List (Nat × Edit)) (scene : Scene), ∃ jobs,
      due.foldl (fun scene change => (scene.edit change.2).toOption.getD scene) scene =
        { scene with jobs := jobs } := by
    intro due
    induction due with
    | nil => exact fun scene => ⟨scene.jobs, rfl⟩
    | cons change rest ih =>
      intro scene
      obtain ⟨jobs, hjobs⟩ := scene.exists_edit change.2
      obtain ⟨jobs', hjobs'⟩ := ih { scene with jobs := jobs }
      rw [List.foldl_cons, hjobs]
      exact ⟨jobs', hjobs'⟩
  obtain ⟨jobs, hjobs⟩ := hfold _ _
  exact ⟨jobs, _, _, hjobs⟩

/-- Programs on files change the files and nothing else. -/
theorem Scene.filing_eq {α : Type} (stage : Stage) (scene : Scene) (program : Files.Filing α) :
    (scene.filing stage program).2 =
      { scene with tree := (scene.filing stage program).2.tree } := rfl

/-! ### Operations -/

section
variable {stage : Stage} {scene : Scene}

/-- What a scene becomes by an operation of a run. -/
inductive Affects (stage : Stage) (scene : Scene) : RunOp → Scene → Prop
  | nothing (op : RunOp) : Affects stage scene op scene
  | looked (name : String) :
      Affects stage scene (.workflow name)
        { scene with workflows :=
            (stage.workflows.get "workflow" name scene.workflows scene.tree).2 }
  | refused {cookies : Option Jar} {e : PageError} {tree : Tree}
      (hlaunch : stage.launch scene.draw.1 scene.tree = (.error e, tree)) :
      Affects stage scene (.openSession cookies)
        { scene with
          restored := scene.restored ++ [cookies], drawn := scene.drawn + 1, tree := tree }
  | opened {cookies : Option Jar} {tree : Tree}
      (hlaunch : stage.launch scene.draw.1 scene.tree = (.ok (), tree)) :
      Affects stage scene (.openSession cookies)
        { scene with
          restored := scene.restored ++ [cookies], drawn := scene.drawn + 1, tree := tree
          sessions := scene.sessions ++ [[]] }
  | called (session : SessionId) (op : Browse) (calls : List Call) :
      Affects stage scene (.browse session op) (scene.setHistory session calls)
  | formed (session : SessionId) (id : String) :
      Affects stage scene (.browse session (.form id))
        { scene with forms := (stage.forms.get "form" id scene.forms scene.tree).2 }
  | made (session : SessionId) {path : Files.Path} {tree : Tree}
      (hmade : scene.tree.makeDirectories path = .ok tree) :
      Affects stage scene (.browse session (.makeDirectories path)) { scene with tree := tree }
  | named (session : SessionId) :
      Affects stage scene (.browse session .freshName) { scene with drawn := scene.drawn + 1 }
  | closed (session : SessionId) :
      Affects stage scene (.closeSession session) { scene with closed := scene.closed + 1 }
  | loaded {site : String} {store : Cookie.Store} {tree : Tree}
      (hcookies : stage.cookies = some store)
      (hload : (scene.filing stage (store.load site)).2.tree = tree) :
      Affects stage scene (.loadCookies site) { scene with tree := tree }
  | saved {site : String} {jar : Jar} {store : Cookie.Store} {tree : Tree}
      (hcookies : stage.cookies = some store)
      (hsave : (scene.filing stage (store.save site jar)).2.tree = tree) :
      Affects stage scene (.saveCookies site jar) { scene with tree := tree }

theorem affects_browse (page : Behaviour) (session : SessionId) (op : Browse) :
    Affects stage scene (.browse session op)
      (Stage.browse { stage with page := page } session op scene).world := by
  cases op with
  | call call => exact .called session _ _
  | clickAwaiting => exact .called session _ _
  | clickSettling => exact .called session _ _
  | sleep => exact .nothing _
  | form id => exact .formed session id
  | makeDirectories path =>
    simp only [Stage.browse]
    split
    · next hmade => exact .made session hmade
    · exact .nothing _
  | freshName => exact .named session

theorem answer_openSession {cookies : Option Jar} {tree : Tree}
    (hlaunch : stage.launch scene.draw.1 scene.tree = (.ok (), tree)) :
    (stage.openSession cookies scene).answer = .ok scene.sessions.length := by
  simp only [Stage.openSession]
  split
  · next hrefused => cases hrefused.symm.trans hlaunch
  · rfl

theorem affects_openSession (cookies : Option Jar) :
    Affects stage scene (.openSession cookies) (stage.openSession cookies scene).world := by
  simp only [Stage.openSession]
  split
  · next hlaunch => exact .refused hlaunch
  · next hlaunch => exact .opened hlaunch

theorem affects_respond (stage : Stage) (pages : SessionId → Behaviour) (cancel : Cancellation)
    (time : Nat) (op : RunOp) (scene : Scene) :
    Affects stage scene op (respond (stage.hostWith pages) cancel time op scene).world := by
  cases op with
  | isCancelled => exact .nothing _
  | workflow name => exact .looked name
  | openSession cookies => exact affects_openSession cookies
  | browse session op =>
    have hbrowse : Affects stage scene (.browse session op)
        ((stage.hostWith pages).browse session op scene).world :=
      affects_browse (pages session) session op
    simp only [respond]
    split <;> exact hbrowse
  | exportCookies session => exact .nothing _
  | closeSession session => exact .closed session
  | loadCookies site =>
    simp only [respond, Delayed.from, Delayed.atOnce, Stage.hostWith, Stage.host]
    split
    · next hcookies =>
      rw [scene.filing_eq]
      exact .loaded hcookies rfl
    · exact .nothing _
  | saveCookies site jar =>
    simp only [respond, Delayed.from, Delayed.atOnce, Stage.hostWith, Stage.host]
    split
    · next hcookies =>
      rw [scene.filing_eq]
      exact .saved hcookies rfl
    · exact .nothing _

end

end Jobflow.Rehearsal
