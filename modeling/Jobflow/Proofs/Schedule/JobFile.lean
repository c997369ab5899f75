import Jobflow.Proofs.Job.Namesakes
import Jobflow.Proofs.Cookie.Visits
import Jobflow.Proofs.Schedule.Keeping

/-!
The file of a store as a backlog. While nobody but the polls writes it, runs leave its offers as
they are, and the operations of a poll do to them what they do to a list.
-/

namespace Jobflow.Schedule

open Jobflow.Files (Disk Tree)
open Jobflow.Job (Attempt FileStore Job Operation Status StoreError selectPending)
open Jobflow.Rehearsal (Affects Scene Stage affects_respond)
open Jobflow.Run (Delayed RunOp Steady)
open Jobflow.Time (Instant)

variable {stage : Stage} {store : FileStore} {scene scene' : Scene} {jobs : List Job}

/-! ### A file that runs leave alone -/

/-- Opening sessions and saving cookies leave the file of the store as it is. -/
structure LeavesFile (stage : Stage) (store : FileStore) : Prop where
  launch : ∀ session tree text, tree.readText store.path = .ok text →
    (stage.launch session tree).2.readText store.path = .ok text
  save : ∀ cookies, stage.cookies = some cookies → ∀ site jar disk text,
    disk.tree.readText store.path = .ok text →
    (Disk.run (cookies.save site jar) disk).2.tree.readText store.path = .ok text

theorem tree_pass (scene : Scene) (time : Nat) : (scene.pass time).tree = scene.tree := by
  obtain ⟨_, _, _, hpass⟩ := scene.exists_pass time
  rw [hpass]

/-- The disk that programs on files find in a scene. -/
def diskOf (stage : Stage) (scene : Scene) : Disk :=
  ⟨scene.tree, (stage.start.seconds + scene.time / 1000).toNat⟩

theorem tree_filing {α : Type} (program : Files.Filing α) :
    (scene.filing stage program).2.tree = (Disk.run program (diskOf stage scene)).2.tree := rfl

theorem readText_makeDirectories {tree tree' : Tree} {path other : Files.Path} {text : String}
    (h : tree.readText path = .ok text) (hmade : tree.makeDirectories other = .ok tree') :
    tree'.readText path = .ok text :=
  Tree.readText_eq_ok_iff.mpr
    ((Tree.readText_eq_ok_iff.mp h).extends (Tree.extends_makeDirectories hmade))

theorem LeavesFile.readText_of_affects (h : LeavesFile stage store) {op : RunOp}
    (haffects : Affects stage scene op scene') {text : String}
    (hread : scene.tree.readText store.path = .ok text) :
    scene'.tree.readText store.path = .ok text := by
  have hlaunch := h.launch scene.draw.1 scene.tree text hread
  cases haffects with
  | made session hmade => exact readText_makeDirectories hread hmade
  | refused hlaunched =>
    rw [hlaunched] at hlaunch
    exact hlaunch
  | opened hlaunched =>
    rw [hlaunched] at hlaunch
    exact hlaunch
  | loaded _ hload =>
    rw [tree_filing, Cookie.run_load] at hload
    rwa [← hload]
  | @saved site jar store _ hcookies hsave =>
    have hsaved := h.save store hcookies site jar (diskOf stage scene) text hread
    rw [tree_filing] at hsave
    rwa [hsave] at hsaved
  | _ => exact hread

/-- The offers in the file are the same all through the runs. -/
theorem LeavesFile.steady (h : LeavesFile stage store) (jobs : List Job) :
    Steady stage.host fun scene => store.Shows scene.tree jobs where
  pass {time scene} hshows := by
    change store.Shows (scene.pass time).tree jobs
    rwa [tree_pass]
  respond := by
    rintro cancel time op scene ⟨text, hread, hparse⟩
    have haffects := affects_respond stage (fun _ => stage.page) cancel time op scene
    exact ⟨text, h.readText_of_affects haffects hread, hparse⟩

/-! ### The operations of a poll -/

section
variable {id : Uuid} {attempt : Attempt}

theorem run_perform_record (store : FileStore) (id : Uuid) (attempt : Attempt) (disk : Disk) :
    Disk.run (store.perform (.record id attempt)) disk =
      ((Disk.run (store.record id attempt) disk).1.map .recorded,
        (Disk.run (store.record id attempt) disk).2) := by
  rw [FileStore.perform, Disk.run_bind, Disk.run_pure]

theorem run_perform_pending (store : FileStore) (limit : Nat) (disk : Disk) :
    Disk.run (store.perform (.pending limit)) disk =
      ((Disk.run (store.pending limit) disk).1.map .offers,
        (Disk.run (store.pending limit) disk).2) := by
  rw [FileStore.perform, Disk.run_bind, Disk.run_pure]

/-- The backlog takes an attempt just when the store does. -/
theorem record_eq_ok_iff {status : Status} :
    ((stage.fileBacklog store).record id attempt scene).answer = .ok status ↔
      (Disk.run (store.perform (.record id attempt)) (diskOf stage scene)).1 =
        .ok (.recorded status) := by
  have hanswer : ((stage.fileBacklog store).record id attempt scene).answer =
      (Disk.run (store.record id attempt) (diskOf stage scene)).1 := rfl
  rw [hanswer, run_perform_record, map_eq_ok_iff]
  simp

theorem tree_record :
    ((stage.fileBacklog store).record id attempt scene).world.tree =
      (Disk.run (store.perform (.record id attempt)) (diskOf stage scene)).2.tree := by
  rw [run_perform_record]
  rfl

theorem shows_now (hshows : store.Shows scene.tree jobs) (time : Nat) :
    store.Shows ((stage.fileBacklog store).now time scene).2.tree jobs := by
  change store.Shows (scene.pass time).tree jobs
  rwa [tree_pass]

theorem shows_record (hshows : store.Shows scene.tree jobs) (hattempt : attempt.timestamp.InRange)
    {status : Status}
    (h : ((stage.fileBacklog store).record id attempt scene).answer = .ok status) :
    store.Shows ((stage.fileBacklog store).record id attempt scene).world.tree
      (Job.updateFirst id (·.recordAttempt attempt.settled) jobs) := by
  have hshows : store.Shows (diskOf stage scene).tree jobs := hshows
  rw [tree_record]
  exact hshows.record hattempt (record_eq_ok_iff.mp h)

theorem shows_refuse (hshows : store.Shows scene.tree jobs) {cause : StoreError}
    (h : ((stage.fileBacklog store).record id attempt scene).answer = .error cause) :
    store.Shows ((stage.fileBacklog store).record id attempt scene).world.tree jobs := by
  have hshows : store.Shows (diskOf stage scene).tree jobs := hshows
  have hrefused : (Disk.run (store.perform (.record id attempt)) (diskOf stage scene)).1 =
      .error cause := by
    rw [run_perform_record]
    exact congrArg (Except.map Job.Reply.recorded) h
  rw [tree_record]
  exact hshows.of_no_change (.inr ⟨cause, hrefused⟩)

/-- An attempt that the store takes is for an offer in the file. -/
theorem record_of_shows (hshows : store.Shows scene.tree jobs) {status : Status}
    (h : ((stage.fileBacklog store).record id attempt scene).answer = .ok status) :
    Job.record jobs id attempt = .ok (Job.updateFirst id (·.recordAttempt attempt) jobs) := by
  have hshows : store.Shows (diskOf stage scene).tree jobs := hshows
  have hanswer := record_eq_ok_iff.mp h
  have hfound := FileStore.answer_of_ok hshows.contents hanswer
  rw [Operation.answer_record] at hfound
  split at hfound
  · next hsome => exact if_pos hsome
  · cases hfound

/-- A poll finds the offers of the file, and changes nothing while it looks. -/
theorem pending_of_shows (stage : Stage) (hshows : store.Shows scene.tree jobs) (limit : Nat) :
    (stage.fileBacklog store).pending limit scene = ⟨0, .ok (selectPending jobs limit), scene⟩ := by
  let disk := diskOf stage scene
  have hview : (Operation.pending limit).isChange = false := rfl
  have hanswer : (Operation.pending limit).answer jobs = .ok (.offers (selectPending jobs limit)) :=
    rfl
  have hshows : store.Shows disk.tree jobs := hshows
  have hfound := FileStore.run_perform_of_view hview hshows.contents hanswer
  rw [run_perform_pending] at hfound
  obtain ⟨hoffers, hdisk⟩ := Prod.mk.inj hfound
  obtain ⟨_, hpending, hoffered⟩ := map_eq_ok_iff.mp hoffers
  obtain rfl := Job.Reply.offers.inj hoffered
  have hlook : (stage.fileBacklog store).pending limit scene =
      ⟨0, (Disk.run (store.pending limit) disk).1,
        { scene with tree := (Disk.run (store.pending limit) disk).2.tree }⟩ := rfl
  rw [hlook, hpending, hdisk]
  rfl

end

/-- The offers of a job file are kept by the polls of it, on every stage that leaves the file alone
and with every calendar whose dates a file can have. -/
theorem fileBacklog_keeps (hleaves : LeavesFile stage store)
    {calendar : Nat → Scene → Instant × Scene}
    (hexact : ∀ time scene, Job.Exact (calendar time scene).1)
    (hfile : ∀ time scene, (calendar time scene).2.tree = scene.tree) :
    Backlog.Keeps { stage.fileBacklog store with now := calendar } stage.host
      fun scene jobs => store.Shows scene.tree jobs where
  steady := hleaves.steady
  now {scene jobs} hshows time := by
    change store.Shows (calendar time scene).2.tree jobs
    rwa [hfile]
  pending {scene jobs} hshows limit batch hanswer := by
    have hpending := congrArg Delayed.answer (pending_of_shows stage hshows limit)
    exact Except.ok.inj (hanswer.symm.trans hpending)
  pending_world {scene jobs} hshows limit := by
    have hworld := congrArg Delayed.world (pending_of_shows stage hshows limit)
    change store.Shows ((stage.fileBacklog store).pending limit scene).world.tree jobs
    rwa [hworld]
  record {scene jobs} hshows time id attempt status hdate hanswer := by
    obtain ⟨hrange, hwritten⟩ : Job.Exact attempt.timestamp := hdate ▸ hexact time scene
    have hsettled : attempt.settled = attempt := by rw [Job.Attempt.settled, hwritten]
    have hshows : store.Shows (calendar time scene).2.tree jobs := by rwa [hfile]
    have hafter := shows_record hshows hrange hanswer
    rw [hsettled] at hafter
    exact ⟨_, record_of_shows hshows hanswer, hafter⟩
  refuse {scene jobs} hshows id attempt cause hanswer := shows_refuse hshows hanswer

/-! ### A file and nothing else -/

/-- A scene with a job file and nothing else. -/
def onFile (jobs : List Job) : Scene := { Scene.empty with tree := (Job.diskWith jobs).tree }

theorem shows_onFile {jobs : List Job} (hjobs : ∀ job ∈ jobs, job.Storable ∧ job.settled = job) :
    Job.newStore.Shows (onFile jobs).tree jobs := by
  have hread : (onFile jobs).tree.read Job.newStore.path = .ok (Job.fileText jobs).toUTF8 := rfl
  refine ⟨_, Tree.readText_eq_ok_iff.mpr (Tree.read_eq_ok_iff.mp hread), ?_⟩
  rw [Job.parseFile_fileText fun job hjob => (hjobs job hjob).1,
    List.map_congr_left fun job hjob => (hjobs job hjob).2, List.map_id']

end Jobflow.Schedule
