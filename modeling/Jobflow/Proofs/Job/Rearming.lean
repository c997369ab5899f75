import Jobflow.Cli.Handle
import Jobflow.Proofs.Job.Stored
import Mathlib.Data.List.Infix
import Mathlib.Logic.Function.Basic

/-!
Commands that arm offers once more while attempts are recorded in the same store. Such a command
takes a copy of an offer and commits the copy in a second operation, so it puts the offer back to
what it was at the time of the copy. What was recorded before the copy, or after the commit, stays.
-/

namespace Jobflow.Job

open Jobflow.Files
open Jobflow.Cli (Desk Failure Printed Workplace)

/-! ### Programs on a store -/

/-- The operations of a store, each of them performed at once. -/
def bookkeeping : Interface := ⟨Operation, fun _ => Answer⟩

/-- A program that works on a store. -/
abbrev Bookkeeping (α : Type) := Program bookkeeping α

def request (op : Operation) : Bookkeeping Answer := Program.perform (I := bookkeeping) op

def Bookkeeping.run {W α : Type} (act : Operation → W → Answer × W) (p : Bookkeeping α) (w : W) :
    α × W :=
  Program.run (I := bookkeeping) act p w

/-- Takes a copy of an offer, and commits the copy armed. -/
def rearming (id : Uuid) : Bookkeeping Printed := do
  match ← request (.get id) with
  | .error e => return .error (.within "Failed to read jobs" (.ofMessage e.message))
  | .ok (.offer (some job)) =>
    match ← request (.commit { job with shouldApply := true }) with
    | .error e => return .error (.within "Failed to update job" (.ofMessage e.message))
    | .ok _ => return .ok (Cli.lines ["Job " ++ id.text ++ " re-armed"])
  | .ok _ => return .error (.ofMessage ("job " ++ id.text ++ " not found"))

theorem run_request {W α : Type} {act : Operation → W → Answer × W} {op : Operation} {w w' : W}
    {answer : Answer} (h : act op w = (answer, w')) (rest : Answer → Bookkeeping α) :
    Bookkeeping.run act (do rest (← request op)) w = Bookkeeping.run act (rest answer) w' := by
  change Bookkeeping.run act (rest (act op w).1) (act op w).2 = _
  rw [h]

/-- The command is that program, in every world that passes the result of a program on files
through a function as the program itself would. -/
theorem rearm_eq_run {W : Type} (place : Workplace W) (desk : Desk)
    (hmap : ∀ {α β : Type} (f : α → β) (p : Filing α) (w : W),
      place.filing (do return f (← p)) w = (f (place.filing p w).1, (place.filing p w).2))
    (id : Uuid) (w : W) :
    Cli.rearm place desk id w =
      Bookkeeping.run (fun op => place.filing (desk.store.perform op)) (rearming id) w := by
  rcases hfound : place.filing (desk.store.get id) w with ⟨found, w'⟩
  have hget : place.filing (desk.store.perform (.get id)) w = (found.map .offer, w') := by
    rw [FileStore.perform, hmap, hfound]
  rw [rearming, run_request hget, Cli.rearm, hfound]
  rcases found with e | _ | job
  · rfl
  · rfl
  · rcases hwritten : place.filing (desk.store.commit { job with shouldApply := true }) w' with
      ⟨written, w''⟩
    have hcommit : place.filing (desk.store.perform (.commit { job with shouldApply := true })) w' =
        (written.map fun _ => .done, w'') := by
      rw [FileStore.perform, hmap, hwritten]
    simp only [Except.map]
    rw [run_request hcommit, hwritten]
    cases written <;> rfl

/-- What may go on at a store: a command arms an offer, or a poll records an attempt. -/
inductive Activity where
  | rearm (id : Uuid)
  | record (id : Uuid) (attempt : Attempt)

def Activity.program : Activity → Bookkeeping Unit
  | .rearm id => do let _ ← rearming id
  | .record id attempt => do let _ ← request (.record id attempt)

/-- The attempt can be written to a file. -/
def Activity.Storable : Activity → Prop
  | .rearm _ => True
  | .record _ attempt => attempt.timestamp.InRange

/-- What remains of a command that has asked for a copy. -/
def afterReading : Answer → Bookkeeping Unit
  | .ok (.offer (some job)) => .step (.commit { job with shouldApply := true }) fun _ => .done ()
  | _ => .done ()

theorem program_rearm (id : Uuid) :
    Activity.program (.rearm id) = .step (.get id) afterReading := by
  refine congrArg (Program.step (I := bookkeeping) (Operation.get id)) (funext fun answer => ?_)
  rcases answer with e | _ | _ | (_ | job) | _
  iterate 4 rfl
  · refine congrArg (Program.step (I := bookkeeping) (Operation.commit _))
      (funext fun written => ?_)
    cases written <;> rfl
  · rfl

/-! ### One after the other, in any order -/

/-- Programs on one store, and the disk with its file. -/
structure Shared (ι : Type) where
  programs : ι → Bookkeeping Unit
  disk : Disk

namespace Shared

variable {ι : Type}

def start (activities : ι → Activity) (disk : Disk) : Shared ι where
  programs i := (activities i).program
  disk := disk

/-- The program has a copy of an offer that it is about to commit. -/
def HoldsCopy (shared : Shared ι) (i : ι) (id : Uuid) : Prop :=
  ∃ copy next, shared.programs i = .step (.commit copy) next ∧ copy.id = id

variable [DecidableEq ι] (store : FileStore)

/-- One program performs its next operation. -/
def step (shared : Shared ι) (i : ι) : Shared ι :=
  match shared.programs i with
  | .done _ => shared
  | .step op next =>
    let ran := Disk.run (store.perform op) shared.disk
    ⟨Function.update shared.programs i (next ran.1), ran.2⟩

def play (shared : Shared ι) (turns : List ι) : Shared ι :=
  turns.foldl (step store) shared

end Shared

/-! ### What becomes of an offer -/

/-- The offer that the file holds under an identifier. -/
def FileStore.Finds (store : FileStore) (disk : Disk) (id : Uuid) (job : Job) : Prop :=
  ∃ jobs, store.contents disk = .ok jobs ∧ find? jobs id = some job

/-- The later version of an offer begins with the attempts of the earlier one, and counts as
applied if that did. -/
structure Job.Continues (earlier later : Job) : Prop where
  attempts : earlier.attempts <+: later.attempts
  applied : earlier.isApplied = true → later.isApplied = true

theorem Job.Continues.refl (job : Job) : job.Continues job := ⟨List.prefix_rfl, fun h => h⟩

theorem Job.Continues.trans {first second third : Job} (h : first.Continues second)
    (h' : second.Continues third) : first.Continues third :=
  ⟨h.attempts.trans h'.attempts, fun happlied => h'.applied (h.applied happlied)⟩

theorem continues_recordAttempt (job : Job) (attempt : Attempt) :
    job.Continues (job.recordAttempt attempt) := by
  refine ⟨List.prefix_append _ _, fun happlied => ?_⟩
  simp [Job.recordAttempt, happlied]

theorem settled_eq_self_iff {job : Job} :
    job.settled = job ↔ job.createdAt.written = job.createdAt ∧
      job.attempts.map Attempt.settled = job.attempts := by
  cases job
  simp [Job.settled]

theorem settled_recordAttempt {job : Job} (h : job.settled = job) (attempt : Attempt) :
    (job.recordAttempt attempt).settled = job.recordAttempt attempt.settled := by
  obtain ⟨hcreated, hattempts⟩ := settled_eq_self_iff.mp h
  simp [Job.settled, Job.recordAttempt, Attempt.settled, hcreated, hattempts]

theorem find?_map_settled (jobs : List Job) (id : Uuid) :
    find? (jobs.map Job.settled) id = (find? jobs id).map Job.settled := by
  induction jobs with
  | nil => rfl
  | cons job rest ih =>
    have hid : job.settled.id = job.id := rfl
    by_cases h : job.id = id <;> simp_all [find?]

namespace FileStore

variable {store : FileStore} {disk : Disk} {id : Uuid} {job : Job} {op : Operation}

theorem Finds.settled (h : store.Finds disk id job) : job.Storable ∧ job.settled = job := by
  obtain ⟨jobs, hcontents, hfound⟩ := h
  exact storable_of_contents hcontents job (List.mem_of_find?_eq_some hfound)

/-- A file in which an offer is found can be read. -/
theorem Finds.exists_text (h : store.Finds disk id job) :
    ∃ text, disk.tree.readText store.path = .ok text := by
  obtain ⟨jobs, hcontents, hfound⟩ := h
  cases hread : disk.tree.readText store.path with
  | ok text => exact ⟨text, rfl⟩
  | error e =>
    rw [contents, hread] at hcontents
    cases e <;> cases hcontents
    cases hfound

theorem finds_of_no_change (hfinds : store.Finds disk id job)
    (h : op.isChange = false ∨ ∃ e, (Disk.run (store.perform op) disk).1 = .error e) :
    store.Finds (Disk.run (store.perform op) disk).2 id job := by
  obtain ⟨text, hread⟩ := hfinds.exists_text
  obtain ⟨jobs, hcontents, hfound⟩ := hfinds
  refine ⟨jobs, ?_, hfound⟩
  rw [← hcontents, contents, contents, readText_of_no_change hread h, hread]

/-- A commit puts its copy in the place of the offer, whatever has become of that. -/
theorem finds_of_commit {copy : Job} (hcopy : copy.Storable) (hfinds : store.Finds disk copy.id job)
    {reply : Reply} (hanswer : (Disk.run (store.perform (.commit copy)) disk).1 = .ok reply) :
    store.Finds (Disk.run (store.perform (.commit copy)) disk).2 copy.id copy.settled := by
  obtain ⟨jobs, hcontents, hfound⟩ := hfinds
  have hop : (Operation.commit copy).Storable := hcopy
  obtain ⟨jobs', hcontents', -, hafter⟩ := contents_of_change hop rfl hanswer
  obtain rfl := Except.ok.inj (hcontents.symm.trans hcontents')
  refine ⟨_, hafter, ?_⟩
  rw [find?_map_settled, Operation.after_commit, find?_updateFirst_self fun _ _ => rfl, hfound]
  rfl

/-- A recording adds its attempt to those of the offer as it is now. -/
theorem finds_of_record {attempt : Attempt} (hattempt : attempt.timestamp.InRange)
    (hfinds : store.Finds disk id job) {reply : Reply}
    (hanswer : (Disk.run (store.perform (.record id attempt)) disk).1 = .ok reply) :
    store.Finds (Disk.run (store.perform (.record id attempt)) disk).2 id
      (job.recordAttempt attempt.settled) := by
  have hsettled := hfinds.settled.2
  obtain ⟨jobs, hcontents, hfound⟩ := hfinds
  have hop : (Operation.record id attempt).Storable := hattempt
  obtain ⟨jobs', hcontents', -, hafter⟩ := contents_of_change hop rfl hanswer
  obtain rfl := Except.ok.inj (hcontents.symm.trans hcontents')
  refine ⟨_, hafter, ?_⟩
  rw [find?_map_settled, Operation.after_record,
    find?_updateFirst_self (keeps_id_recordAttempt attempt), hfound, Option.map_some,
    Option.map_some, settled_recordAttempt hsettled]

theorem finds_of_other (hop : op.Storable) (hfinds : store.Finds disk id job)
    (hother : op.target? ≠ some id) : store.Finds (Disk.run (store.perform op) disk).2 id job := by
  rcases op.isChange_and_ok_or (Disk.run (store.perform op) disk).1 with
    ⟨hchange, reply, hanswer⟩ | hleft
  · have hsettled := hfinds.settled.2
    obtain ⟨jobs, hcontents, hfound⟩ := hfinds
    obtain ⟨jobs', hcontents', -, hafter⟩ := contents_of_change hop hchange hanswer
    obtain rfl := Except.ok.inj (hcontents.symm.trans hcontents')
    refine ⟨_, hafter, ?_⟩
    rw [find?_map_settled, Operation.find?_after_other hother, hfound, Option.map_some, hsettled]
  · exact finds_of_no_change hfinds hleft

/-- What goes on from an earlier offer still does after an operation, if it does where the
operation succeeds in changing the offer. -/
theorem exists_continues {start : Job} (hop : op.Storable) (hfinds : store.Finds disk id job)
    (hcontinues : start.Continues job)
    (hchanged : op.target? = some id → ∀ reply, (Disk.run (store.perform op) disk).1 = .ok reply →
      ∃ now, store.Finds (Disk.run (store.perform op) disk).2 id now ∧ start.Continues now) :
    ∃ now, store.Finds (Disk.run (store.perform op) disk).2 id now ∧ start.Continues now := by
  by_cases htarget : op.target? = some id
  · rcases op.isChange_and_ok_or (Disk.run (store.perform op) disk).1 with
      ⟨-, reply, hanswer⟩ | hleft
    · exact hchanged htarget reply hanswer
    · exact ⟨job, finds_of_no_change hfinds hleft, hcontinues⟩
  · exact ⟨job, finds_of_other hop hfinds htarget, hcontinues⟩

/-- A copy that is given out is the offer as it is now. -/
theorem finds_of_get
    (hanswer : (Disk.run (store.perform (.get id)) disk).1 = .ok (.offer (some job))) :
    store.Finds disk id job := by
  cases hcontents : store.contents disk with
  | error e =>
    rw [run_perform_of_error hcontents] at hanswer
    cases hanswer
  | ok jobs =>
    have hfound := answer_of_ok hcontents hanswer
    exact ⟨jobs, hcontents, Reply.offer.inj (Except.ok.inj hfound)⟩

/-- An attempt that was recorded has an offer. -/
theorem exists_finds_of_record {attempt : Attempt} {reply : Reply}
    (hanswer : (Disk.run (store.perform (.record id attempt)) disk).1 = .ok reply) :
    ∃ job, store.Finds disk id job := by
  cases hcontents : store.contents disk with
  | error e =>
    rw [run_perform_of_error hcontents] at hanswer
    cases hanswer
  | ok jobs =>
    have hrecorded := answer_of_ok hcontents hanswer
    rw [Operation.answer_record] at hrecorded
    split at hrecorded
    · next hfound =>
      obtain ⟨job, hjob⟩ := Option.isSome_iff_exists.mp hfound
      exact ⟨job, jobs, hcontents, hjob⟩
    · cases hrecorded

theorem Finds.unique {other : Job} (h : store.Finds disk id job) (h' : store.Finds disk id other) :
    job = other := by
  obtain ⟨jobs, hcontents, hfound⟩ := h
  obtain ⟨jobs', hcontents', hfound'⟩ := h'
  obtain rfl := Except.ok.inj (hcontents.symm.trans hcontents')
  exact Option.some.inj (hfound.symm.trans hfound')

end FileStore

/-! ### Turn by turn -/

/-- What can remain of an activity. -/
inductive Stage : Bookkeeping Unit → Prop where
  | reading (id : Uuid) : Stage (.step (.get id) afterReading)
  | copied {copy : Job} (hstorable : copy.Storable) (hsettled : copy.settled = copy) :
      Stage (.step (.commit copy) fun _ => .done ())
  | recording {id : Uuid} {attempt : Attempt} (h : attempt.timestamp.InRange) :
      Stage (.step (.record id attempt) fun _ => .done ())
  | ended : Stage (.done ())

theorem eq_of_afterReading {answer : Answer} {copy : Job} {next : Answer → Bookkeeping Unit}
    (h : afterReading answer = .step (.commit copy) next) :
    ∃ job, answer = .ok (.offer (some job)) ∧ copy = { job with shouldApply := true } := by
  unfold afterReading at h
  split at h
  · next job =>
    cases h
    exact ⟨job, rfl, rfl⟩
  · cases h

theorem Stage.of_record {id : Uuid} {attempt : Attempt} {next : Answer → Bookkeeping Unit}
    (h : Stage (.step (.record id attempt) next)) :
    attempt.timestamp.InRange ∧ next = fun _ => .done () := by
  cases h with
  | recording hrange => exact ⟨hrange, rfl⟩

theorem stage_program {activity : Activity} (h : activity.Storable) : Stage activity.program := by
  cases activity with
  | rearm id =>
    rw [program_rearm]
    exact .reading id
  | record id attempt => exact .recording h

/-- A command that has its copy will commit nothing else. -/
theorem stage_afterReading {store : FileStore} {disk : Disk} {id : Uuid} :
    Stage (afterReading (Disk.run (store.perform (.get id)) disk).1) := by
  generalize hanswer : (Disk.run (store.perform (.get id)) disk).1 = answer
  unfold afterReading
  split
  · obtain ⟨⟨hid, hcreated, hattempts⟩, hsettled⟩ := (FileStore.finds_of_get hanswer).settled
    obtain ⟨hwritten, hkept⟩ := settled_eq_self_iff.mp hsettled
    exact .copied ⟨hid, hcreated, hattempts⟩ (settled_eq_self_iff.mpr ⟨hwritten, hkept⟩)
  · exact .ended

namespace Shared

variable {ι : Type} [DecidableEq ι] {store : FileStore} {shared : Shared ι}

@[simp] theorem play_nil : shared.play store [] = shared := rfl

@[simp] theorem play_cons (i : ι) (rest : List ι) :
    shared.play store (i :: rest) = (shared.step store i).play store rest := rfl

theorem step_of_done {i : ι} (h : shared.programs i = .done ()) : shared.step store i = shared := by
  rw [step, h]

theorem step_of_step {i : ι} {op : Operation} {next : Answer → Bookkeeping Unit}
    (h : shared.programs i = .step op next) :
    shared.step store i =
      ⟨Function.update shared.programs i (next (Disk.run (store.perform op) shared.disk).1),
        (Disk.run (store.perform op) shared.disk).2⟩ := by
  rw [step, h]

theorem step_eq {i : ι} {op : Operation} {next : Answer → Bookkeeping Unit} {answer : Answer}
    {disk : Disk} (h : shared.programs i = .step op next)
    (hrun : Disk.run (store.perform op) shared.disk = (answer, disk)) :
    shared.step store i = ⟨Function.update shared.programs i (next answer), disk⟩ := by
  rw [step_of_step h, hrun]

theorem programs_step_of_ne {i j : ι} (h : j ≠ i) :
    (shared.step store i).programs j = shared.programs j := by
  unfold step
  split
  · rfl
  · exact Function.update_of_ne h _ _

theorem programs_step_self {i : ι} {op : Operation} {next : Answer → Bookkeeping Unit}
    (h : shared.programs i = .step op next) :
    (shared.step store i).programs i = next (Disk.run (store.perform op) shared.disk).1 := by
  rw [step_of_step h]
  exact Function.update_self _ _ _

theorem stage_step (h : ∀ i, Stage (shared.programs i)) (i j : ι) :
    Stage ((shared.step store i).programs j) := by
  by_cases hj : j = i
  · subst hj
    have hstage := h j
    generalize hprogram : shared.programs j = program at hstage
    cases hstage with
    | reading id =>
      rw [programs_step_self hprogram]
      exact stage_afterReading
    | copied _ _ =>
      rw [programs_step_self hprogram]
      exact .ended
    | recording _ =>
      rw [programs_step_self hprogram]
      exact .ended
    | ended =>
      rw [step_of_done hprogram, hprogram]
      exact .ended
  · rw [programs_step_of_ne hj]
    exact h j

theorem stage_play (h : ∀ i, Stage (shared.programs i)) (turns : List ι) (i : ι) :
    Stage ((shared.play store turns).programs i) := by
  induction turns generalizing shared with
  | nil => exact h i
  | cons first rest ih => exact ih (stage_step h first)

/-- Nobody has a copy after a recording who had none before. -/
theorem not_holdsCopy_step {i j : ι} {id other : Uuid} {attempt : Attempt}
    {next : Answer → Bookkeeping Unit} (hstage : Stage (shared.programs i))
    (hprogram : shared.programs i = .step (.record other attempt) next)
    (h : ¬ shared.HoldsCopy j id) : ¬ (shared.step store i).HoldsCopy j id := by
  rintro ⟨copy, rest, hcopy, hid⟩
  by_cases hji : j = i
  · subst hji
    rw [hprogram] at hstage
    rw [programs_step_self hprogram, hstage.of_record.2] at hcopy
    cases hcopy
  · rw [programs_step_of_ne hji] at hcopy
    exact h ⟨copy, rest, hcopy, hid⟩

/-- An offer has only grown, and so have the copies of it that some programs have. -/
structure Keeps (store : FileStore) (id : Uuid) (job : Job) (active : List ι) (shared : Shared ι) :
    Prop where
  found : ∃ now, store.Finds shared.disk id now ∧ job.Continues now
  copies : ∀ i ∈ active, ∀ copy next, shared.programs i = .step (.commit copy) next → copy.id = id →
    job.Continues copy

theorem Keeps.next {id : Uuid} {job : Job} {active : List ι} (h : Keeps store id job active shared)
    {i : ι} {op : Operation} {next : Answer → Bookkeeping Unit}
    (hprogram : shared.programs i = .step op next)
    (hfound : ∃ now, store.Finds (Disk.run (store.perform op) shared.disk).2 id now ∧
      job.Continues now)
    (hcopy : ∀ copy rest,
      next (Disk.run (store.perform op) shared.disk).1 = .step (.commit copy) rest →
      copy.id = id → job.Continues copy) :
    Keeps store id job active (shared.step store i) := by
  refine ⟨?_, fun j hj copy rest hj' hid => ?_⟩
  · rw [step_of_step hprogram]
    exact hfound
  · by_cases hji : j = i
    · subst hji
      rw [programs_step_self hprogram] at hj'
      exact hcopy copy rest hj' hid
    · rw [programs_step_of_ne hji] at hj'
      exact h.copies j hj copy rest hj' hid

theorem Keeps.step {id : Uuid} {job : Job} {active : List ι} (h : Keeps store id job active shared)
    {i : ι} (hi : i ∈ active) (hstage : Stage (shared.programs i)) :
    Keeps store id job active (shared.step store i) := by
  obtain ⟨now, hnow, hcontinues⟩ := h.found
  have hended : ∀ copy next, (.done () : Bookkeeping Unit) = .step (.commit copy) next →
      copy.id = id → job.Continues copy := nofun
  generalize hprogram : shared.programs i = program at hstage
  cases hstage with
  | reading other =>
    refine h.next hprogram ⟨now, FileStore.finds_of_no_change hnow (.inl rfl), hcontinues⟩ ?_
    intro copy next hcopy hid
    obtain ⟨found, hanswer, rfl⟩ := eq_of_afterReading hcopy
    have hfound := FileStore.finds_of_get hanswer
    obtain rfl : other = id := by
      obtain ⟨jobs, -, hjob⟩ := hfound
      exact (id_of_find? hjob).symm.trans hid
    obtain rfl := hnow.unique hfound
    exact ⟨hcontinues.attempts, hcontinues.applied⟩
  | @copied copy hstorable hsettled =>
    refine h.next hprogram (FileStore.exists_continues hstorable hnow hcontinues ?_) hended
    intro htarget reply hanswer
    obtain rfl : copy.id = id := Option.some.inj htarget
    have hcommitted := FileStore.finds_of_commit hstorable hnow hanswer
    rw [hsettled] at hcommitted
    exact ⟨copy, hcommitted, h.copies i hi copy _ hprogram rfl⟩
  | @recording other attempt hrange =>
    refine h.next hprogram (FileStore.exists_continues hrange hnow hcontinues ?_) hended
    intro htarget reply hanswer
    obtain rfl : other = id := Option.some.inj htarget
    exact ⟨_, FileStore.finds_of_record hrange hnow hanswer,
      hcontinues.trans (continues_recordAttempt now attempt.settled)⟩
  | ended =>
    rw [step_of_done hprogram]
    exact h

theorem Keeps.play {id : Uuid} {job : Job} {active : List ι} (h : Keeps store id job active shared)
    (hstages : ∀ i, Stage (shared.programs i)) {turns : List ι} (hturns : ∀ i ∈ turns, i ∈ active) :
    Keeps store id job active (shared.play store turns) := by
  induction turns generalizing shared with
  | nil => exact h
  | cons i rest ih =>
    refine ih (h.step (hturns i List.mem_cons_self) (hstages i)) (stage_step hstages i) ?_
    exact fun j hj => hturns j (List.mem_cons_of_mem i hj)

/-- Nothing is lost while those programs take turns that have no copy of the offer yet. -/
theorem finds_of_play {id : Uuid} {job : Job} {turns : List ι}
    (hstages : ∀ i, Stage (shared.programs i)) (hfinds : store.Finds shared.disk id job)
    (hcopies : ∀ i ∈ turns, ¬ shared.HoldsCopy i id) :
    ∃ now, store.Finds (shared.play store turns).disk id now ∧ job.Continues now := by
  have hkeeps : Keeps store id job turns shared := by
    refine ⟨⟨job, hfinds, .refl job⟩, fun i hi copy next hprogram hid => ?_⟩
    exact absurd ⟨copy, next, hprogram, hid⟩ (hcopies i hi)
  exact (hkeeps.play hstages fun i hi => hi).found

end Shared

/-! ### An offer that is armed while an application for it succeeds -/

/-- A disk with a job file and nothing else. -/
def diskWith (jobs : List Job) : Disk := ⟨[(["jobs.json"], .file (fileText jobs).toUTF8 false)], 0⟩

theorem contents_diskWith {jobs : List Job}
    (hjobs : ∀ job ∈ jobs, job.Storable ∧ job.settled = job) :
    newStore.contents (diskWith jobs) = .ok jobs := by
  have hread : (diskWith jobs).tree.read newStore.path = .ok (fileText jobs).toUTF8 := rfl
  have htext : (diskWith jobs).tree.readText newStore.path = .ok (fileText jobs) :=
    Tree.readText_eq_ok_iff.mpr (Tree.read_eq_ok_iff.mp hread)
  rw [FileStore.contents_of_fileText htext fun job hjob => (hjobs job hjob).1,
    List.map_congr_left fun job hjob => (hjobs job hjob).2, List.map_id']

theorem run_writeAll_diskWith (old jobs : List Job) :
    Disk.run (newStore.writeAll jobs) (diskWith old) = (.ok (), diskWith jobs) := by
  have hwritten : Disk.run (newStore.writeAll jobs) (diskWith old) =
      (.ok (),
        ⟨[(["jobs.json"], .file (ByteArray.empty ++ (fileText jobs).toUTF8) false)], 0⟩) := rfl
  rw [hwritten, ByteArray.empty_append]
  rfl

theorem run_perform_diskWith {jobs : List Job}
    (hjobs : ∀ job ∈ jobs, job.Storable ∧ job.settled = job)
    {op : Operation} {reply : Reply} (hanswer : op.answer jobs = .ok reply) :
    Disk.run (newStore.perform op) (diskWith jobs) = (.ok reply, diskWith (op.after jobs)) := by
  have hcontents := contents_diskWith hjobs
  cases hchange : op.isChange with
  | false =>
    rw [Operation.after_of_not_isChange hchange]
    exact FileStore.run_perform_of_view hchange hcontents hanswer
  | true =>
    exact FileStore.run_perform_of_written hchange hcontents hanswer (run_writeAll_diskWith _ _)

/-- A successful application. -/
def success : Attempt := ⟨⟨60, 0⟩, .success, none⟩

/-- An offer is armed while an application for it succeeds. -/
def armAndRecord : Bool → Activity
  | false => .rearm firstOffer.id
  | true => .record firstOffer.id success

def beginning : Shared Bool := .start armAndRecord (diskWith [firstOffer])

/-- The command has its copy. -/
def copied : Shared Bool :=
  ⟨Function.update beginning.programs false (afterReading (.ok (.offer (some firstOffer)))),
    diskWith [firstOffer]⟩

/-- The success is recorded. -/
def recorded : Shared Bool :=
  ⟨Function.update copied.programs true (.done ()), diskWith [firstOffer.recordAttempt success]⟩

/-- The offer before and after the success. -/
theorem storable_samples {job : Job}
    (h : job = firstOffer ∨ job = firstOffer.recordAttempt success) :
    job.Storable ∧ job.settled = job := by
  rcases h with rfl | rfl
  · exact ⟨storable_firstOffer, rfl⟩
  · refine ⟨⟨storable_firstOffer.id, storable_firstOffer.createdAt, ?_⟩, rfl⟩
    simp only [Job.recordAttempt, firstOffer, Job.create, List.nil_append, List.mem_singleton,
      forall_eq]
    exact ⟨by decide, by decide⟩

theorem finds_diskWith {job : Job} (hjob : job.Storable ∧ job.settled = job) :
    newStore.Finds (diskWith [job]) job.id job :=
  ⟨[job], contents_diskWith (by simpa using hjob), by simp [find?]⟩

theorem run_record_success :
    Disk.run (newStore.perform (.record firstOffer.id success)) (diskWith [firstOffer]) =
      (.ok (.recorded .success), diskWith [firstOffer.recordAttempt success]) :=
  run_perform_diskWith (by simpa using storable_samples (.inl rfl)) rfl

/-! ### What is kept and what is lost -/

/-- While commands arm offers and attempts are recorded, an offer loses none of its attempts and
goes on to count as applied for as long as no command commits a copy that it took before. An
attempt that is recorded is added to those of the offer as it is then, and stays there likewise. -/
theorem recorded_attempts_survive {ι : Type} [DecidableEq ι] (store : FileStore)
    {activities : ι → Activity} (hactivities : ∀ i, (activities i).Storable) (disk : Disk)
    (earlier later : List ι) (id : Uuid)
    (hcopies : ∀ i ∈ later, ¬ ((Shared.start activities disk).play store earlier).HoldsCopy i id) :
    let before := (Shared.start activities disk).play store earlier
    let after := (Shared.start activities disk).play store (earlier ++ later)
    (∀ job, store.Finds before.disk id job →
      ∃ now, store.Finds after.disk id now ∧ job.Continues now) ∧
    ∀ i rest attempt next reply, later = i :: rest →
      before.programs i = .step (.record id attempt) next →
      (Disk.run (store.perform (.record id attempt)) before.disk).1 = .ok reply →
      ∃ job now, store.Finds before.disk id job ∧ store.Finds after.disk id now ∧
        (job.recordAttempt attempt.settled).Continues now := by
  intro before after
  have hstages : ∀ i, Stage (before.programs i) :=
    Shared.stage_play (fun i => stage_program (hactivities i)) earlier
  have hafter : after = before.play store later := List.foldl_append
  refine ⟨fun job hfinds => ?_, ?_⟩
  · rw [hafter]
    exact Shared.finds_of_play hstages hfinds hcopies
  · rintro i rest attempt next reply rfl hprogram hanswer
    obtain ⟨job, hfinds⟩ := FileStore.exists_finds_of_record hanswer
    have hrange := (hprogram ▸ hstages i).of_record.1
    have hrecorded := FileStore.finds_of_record hrange hfinds hanswer
    have hlater : ∀ j ∈ rest, ¬ (before.step store i).HoldsCopy j id := fun j hj =>
      Shared.not_holdsCopy_step (hstages i) hprogram (hcopies j (List.mem_cons_of_mem i hj))
    have hdisk : (before.step store i).disk =
        (Disk.run (store.perform (.record id attempt)) before.disk).2 := by
      rw [Shared.step_of_step hprogram]
    rw [← hdisk] at hrecorded
    obtain ⟨now, hnow, hcontinues⟩ :=
      Shared.finds_of_play (Shared.stage_step hstages i) hrecorded hlater
    refine ⟨job, now, hfinds, ?_, hcontinues⟩
    rw [hafter]
    exact hnow

theorem recorded_attempts_survive_success :
    (∀ i, (armAndRecord i).Storable) ∧
      (∀ i ∈ [true, false, false], ¬ (beginning.play newStore []).HoldsCopy i firstOffer.id) ∧
      ∃ job now, newStore.Finds (beginning.play newStore []).disk firstOffer.id job ∧
        newStore.Finds (beginning.play newStore [true, false, false]).disk firstOffer.id now ∧
        (job.recordAttempt success.settled).Continues now := by
  have hactivities : ∀ i, (armAndRecord i).Storable := by
    rintro (_ | _)
    · trivial
    · exact ⟨by decide, by decide⟩
  have hcopies : ∀ i ∈ [true, false, false],
      ¬ (beginning.play newStore []).HoldsCopy i firstOffer.id := by
    rintro (_ | _) - ⟨copy, next, hcommit, -⟩
    · rw [Shared.play_nil,
        show beginning.programs false = _ from program_rearm firstOffer.id] at hcommit
      cases hcommit
    · cases hcommit
  have h := recorded_attempts_survive newStore hactivities (diskWith [firstOffer]) []
    [true, false, false] firstOffer.id hcopies
  exact ⟨hactivities, hcopies, h.2 true [false, false] success _ _ rfl rfl
    (congrArg Prod.fst run_record_success)⟩

/-- A recording that succeeds is lost when a command has taken its copy before. -/
theorem rearming_undoes_recording :
    (Disk.run (newStore.perform (.record firstOffer.id success))
      (beginning.play newStore [false]).disk).1 =
        .ok (.recorded .success) ∧
      (∃ job, newStore.Finds (beginning.play newStore [false, true]).disk firstOffer.id job ∧
        job.attempts = [success] ∧ job.isApplied = true) ∧
      ∃ job, newStore.Finds (beginning.play newStore [false, true, false]).disk firstOffer.id job ∧
        job.attempts = [] ∧ job.isApplied = false := by
  have hoffer := storable_samples (.inl rfl)
  have happlied := storable_samples (.inr rfl)
  have hcopy : Disk.run (newStore.perform (.get firstOffer.id)) beginning.disk =
      (.ok (.offer (some firstOffer)), diskWith [firstOffer]) :=
    run_perform_diskWith (by simpa using hoffer) rfl
  have hcommit : Disk.run (newStore.perform (.commit { firstOffer with shouldApply := true }))
      (diskWith [firstOffer.recordAttempt success]) = (.ok .done, diskWith [firstOffer]) :=
    run_perform_diskWith (by simpa using happlied) rfl
  have hfirst : beginning.step newStore false = copied :=
    Shared.step_eq (program_rearm firstOffer.id) hcopy
  have hrecording : copied.programs true =
      .step (.record firstOffer.id success) fun _ => .done () := rfl
  have hsecond : copied.step newStore true = recorded :=
    Shared.step_eq hrecording run_record_success
  have hcommitting : recorded.programs false =
      .step (.commit { firstOffer with shouldApply := true }) fun _ => .done () := rfl
  have hthird : (recorded.step newStore false).disk = diskWith [firstOffer] :=
    congrArg Shared.disk (Shared.step_eq hcommitting hcommit)
  simp only [Shared.play_cons, Shared.play_nil, hfirst, hsecond, hthird]
  exact ⟨congrArg Prod.fst run_record_success, ⟨_, finds_diskWith happlied, rfl, rfl⟩,
    ⟨_, finds_diskWith hoffer, rfl, rfl⟩⟩

end Jobflow.Job
