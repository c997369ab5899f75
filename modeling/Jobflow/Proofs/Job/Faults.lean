import Jobflow.Proofs.Files.Faults
import Jobflow.Proofs.Job.Stored

/-!
Changes of a backlog in a file when anything may fail. The offers in the file are those that were
there, or those that the change makes of them.
-/

namespace Jobflow.Job

open Jobflow.Files

/-! ### Changes of a list -/

/-- How a change that succeeds turns the offers of a file into the next: the offer that it is
about is put at the end or stands where the first with its identifier stood, and all others stay
as they are, in their order. -/
inductive Operation.Changes : Operation → List Job → List Job → Prop where
  | insert {jobs : List Job} {job : Job} (hnew : ∀ old ∈ jobs, old.id ≠ job.id) :
      Changes (.insert job) jobs (jobs ++ [job.settled])
  | commit {earlier later : List Job} {old job : Job} (hid : old.id = job.id)
      (hfirst : ∀ other ∈ earlier, other.id ≠ job.id) :
      Changes (.commit job) (earlier ++ old :: later) (earlier ++ job.settled :: later)
  | record {earlier later : List Job} {old : Job} {id : Uuid} {attempt : Attempt}
      (hid : old.id = id) (hfirst : ∀ other ∈ earlier, other.id ≠ id) :
      Changes (.record id attempt) (earlier ++ old :: later)
        (earlier ++ (old.recordAttempt attempt).settled :: later)

theorem exists_append_of_find? {jobs : List Job} {id : Uuid} (h : (find? jobs id).isSome) :
    ∃ earlier old later, jobs = earlier ++ old :: later ∧ old.id = id ∧
      (∀ other ∈ earlier, other.id ≠ id) ∧
      ∀ change, updateFirst id change jobs = earlier ++ change old :: later := by
  induction jobs with
  | nil => cases h
  | cons job rest ih =>
    by_cases hid : job.id = id
    · exact ⟨[], job, rest, rfl, hid, nofun, fun change => by rw [updateFirst, if_pos hid]; rfl⟩
    · rw [find?, List.find?_cons_of_neg (by simpa using hid)] at h
      obtain ⟨earlier, old, later, rfl, hold, hfirst, hupdate⟩ := ih h
      refine ⟨job :: earlier, old, later, rfl, hold, List.forall_mem_cons.mpr ⟨hid, hfirst⟩, ?_⟩
      intro change
      rw [updateFirst, if_neg hid, hupdate, List.cons_append]

theorem map_settled_of_subset {jobs kept : List Job} (hsettled : ∀ job ∈ jobs, job.settled = job)
    (hkept : ∀ job ∈ kept, job ∈ jobs) : kept.map Job.settled = kept :=
  (List.map_congr_left fun job hjob => hsettled job (hkept job hjob)).trans (List.map_id _)

/-- Only the offer that is changed can lose something in the file. -/
theorem exists_settled_updateFirst {jobs : List Job} {id : Uuid}
    (hsettled : ∀ job ∈ jobs, job.settled = job) (h : (find? jobs id).isSome) :
    ∃ earlier old later, jobs = earlier ++ old :: later ∧ old.id = id ∧
      (∀ other ∈ earlier, other.id ≠ id) ∧
      ∀ change, (updateFirst id change jobs).map Job.settled =
        earlier ++ (change old).settled :: later := by
  obtain ⟨earlier, old, later, rfl, hid, hfirst, hupdate⟩ := exists_append_of_find? h
  refine ⟨earlier, old, later, rfl, hid, hfirst, fun change => ?_⟩
  have hearlier : earlier.map Job.settled = earlier :=
    map_settled_of_subset hsettled fun job => List.mem_append_left _
  have hlater : later.map Job.settled = later :=
    map_settled_of_subset hsettled fun job hjob =>
      List.mem_append_right _ (List.mem_cons_of_mem _ hjob)
  rw [hupdate, List.map_append, List.map_cons, hearlier, hlater]

/-- A change that succeeds on offers from a file leaves them as `Changes` says. -/
theorem Operation.changes_of_answer {op : Operation} {jobs : List Job} {reply : Reply}
    (hchange : op.isChange = true) (hanswer : op.answer jobs = .ok reply)
    (hsettled : ∀ job ∈ jobs, job.settled = job) :
    op.Changes jobs ((op.after jobs).map Job.settled) := by
  cases op with
  | insert job =>
    rw [answer_insert] at hanswer
    split at hanswer
    · cases hanswer
    · next hfree =>
      rw [after_insert, if_neg hfree, List.map_append,
        map_settled_of_subset hsettled fun job => id]
      refine .insert fun old hold hid => hfree ?_
      rw [find?, List.find?_isSome]
      exact ⟨old, hold, by simpa using hid⟩
  | commit job =>
    rw [answer_commit] at hanswer
    split at hanswer
    · next hfound =>
      obtain ⟨earlier, old, later, hjobs, hid, hfirst, hupdate⟩ :=
        exists_settled_updateFirst hsettled hfound
      rw [after_commit, hupdate, hjobs]
      exact .commit hid hfirst
    · cases hanswer
  | record id attempt =>
    rw [answer_record] at hanswer
    split at hanswer
    · next hfound =>
      obtain ⟨earlier, old, later, hjobs, hid, hfirst, hupdate⟩ :=
        exists_settled_updateFirst hsettled hfound
      rw [after_record, hupdate, hjobs]
      exact .record hid hfirst
    · cases hanswer
  | get id => cases hchange
  | pending limit => cases hchange
  | list => cases hchange

/-! ### The file -/

/-- The offers in a file, or in the absence of one. -/
def offersIn? : Option ByteArray → Option (List Job)
  | none => some []
  | some bytes => (String.fromUTF8? bytes).bind fun text => (parseFile text).toOption

theorem offersIn?_text (text : String) :
    offersIn? (some text.toUTF8) = (parseFile text).toOption := by
  rw [offersIn?, Tree.fromUTF8?_eq_some_iff.mpr rfl, Option.bind_some]

namespace FileStore

variable {store : FileStore} {op : Operation} {disk after : Disk} {jobs : List Job}

/-- What is found by the path is what the file at its place holds, if the path reaches it. -/
theorem offersIn?_of_contents (hreaches : disk.tree.Reaches store.path)
    (h : store.contents disk = .ok jobs) :
    offersIn? (disk.tree.fileAt? (Path.place store.path)) = some jobs := by
  unfold contents decode at h
  split at h
  · next text hread =>
    have hholds := Tree.readText_eq_ok_iff.mp hread
    have hparse : parseFile text = .ok jobs := by
      split at h
      · next hparse =>
        obtain rfl := Except.ok.inj h
        exact hparse
      · cases h
    rw [hholds.fileAt?, offersIn?_text, hparse]
    rfl
  · next hread =>
    obtain rfl := Except.ok.inj h
    cases hfile : disk.tree.fileAt? (Path.place store.path) with
    | none => rfl
    | some content =>
      have hcontent := Tree.read_eq_ok_iff.mpr (hreaches content hfile)
      rw [Tree.readText, hcontent] at hread
      dsimp only [Bind.bind, Except.bind] at hread
      split at hread <;> cases hread
  · cases h

theorem offersIn?_of_holds (h : after.tree.Holds store.path (fileText jobs).toUTF8)
    (hjobs : ∀ job ∈ jobs, job.Storable) :
    offersIn? (after.tree.fileAt? (Path.place store.path)) = some (jobs.map Job.settled) := by
  rw [h.fileAt?, offersIn?_text, parseFile_fileText hjobs]
  rfl

/-- The offers in the file are those that the change makes of the ones that were found. -/
def Updated (store : FileStore) (op : Operation) (disk after : Disk) : Prop :=
  ∃ jobs changed, store.contents disk = .ok jobs ∧
    (disk.tree.Reaches store.path →
      offersIn? (disk.tree.fileAt? (Path.place store.path)) = some jobs) ∧
    op.Changes jobs changed ∧ offersIn? (after.tree.fileAt? (Path.place store.path)) = some changed

theorem careful_perform (store : FileStore) (op : Operation) :
    Careful (Path.place store.path) (store.perform op) := by
  rw [perform_eq, readAll_eq]
  refine Careful.holding (((careful_readText _).bind fun _ => careful_pure _).bind
    fun found => ?_) _
  cases found with
  | error e => exact careful_pure _
  | ok jobs =>
    cases hanswer : op.answer jobs with
    | error e =>
      rw [finish_of_error hanswer]
      exact careful_pure _
    | ok reply =>
      rw [finish_of_ok hanswer]
      split
      · have hreplace := careful_replace store.path.aside_withExtension store.directory
          (fileText (op.after jobs))
        exact (hreplace.bind fun _ => careful_pure _).bind fun _ => careful_pure _
      · exact careful_pure _

/-- How a change ends: with what it makes of the offers in the file, or with the file as it was. -/
abbrev Outcome (store : FileStore) (op : Operation) (disk : Disk) : Answer → Disk → Prop :=
  Ends store.temporary store.path disk (store.Updated op disk)

theorem meets_finish (hchange : op.isChange = true) (hop : op.Storable)
    (h : store.contents disk = .ok jobs) :
    Meets (store.Outcome op disk) (store.finish op (.ok jobs)) disk := by
  cases hanswer : op.answer jobs with
  | error e =>
    rw [finish_of_error hanswer]
    exact ends_error e
  | ok reply =>
    rw [finish_of_ok hanswer, if_pos hchange]
    have hreplace : Meets
        (Replaces disk.tree store.temporary store.path (fileText (op.after jobs)))
        (Filing.replace store.directory store.temporary store.path
          (fileText (op.after jobs))) disk :=
      meets_replace store.path.aside_withExtension store.directory
    refine meets_bind (meets_bind (hreplace.mono ?_))
    rintro (e | _) after hreplaced
    · exact ⟨fun _ _ => hreplaced, nofun⟩
    · obtain ⟨hholds, hgone⟩ := hreplaced
      refine ⟨nofun, fun _ _ => ⟨⟨jobs, _, h, fun hreaches => offersIn?_of_contents hreaches h, ?_,
        offersIn?_of_holds hholds (storable_after hop h)⟩, hgone⟩⟩
      exact Operation.changes_of_answer hchange hanswer
        fun job hjob => (storable_of_contents h job hjob).2

/-- Whatever goes wrong, a change that succeeds is in the file, and one that fails is not. -/
theorem meets_perform (hchange : op.isChange = true) (hop : op.Storable) (disk : Disk) :
    Meets (store.Outcome op disk) (store.perform op) disk := by
  rw [perform_eq, readAll_eq]
  refine meets_holding (meets_bind (meets_bind (meets_readText ?_ fun e he => ?_)))
  · have hfound : Meets (store.Outcome op disk) (store.finish op (store.contents disk)) disk := by
      cases hcontents : store.contents disk with
      | error e => exact ends_error e
      | ok jobs => exact meets_finish hchange hop hcontents
    exact hfound
  · -- a read that fails is never taken for a missing file, so no empty backlog is written
    have hdecode : ∃ e', store.decode (.error e) = .error e' := by
      cases e <;> first | exact ⟨_, rfl⟩ | exact absurd rfl he
    obtain ⟨e', he'⟩ := hdecode
    have hfailed : Meets (store.Outcome op disk)
        (store.finish op (store.decode (.error e))) disk := by
      rw [he']
      exact ends_error e'
    exact hfailed

/-- A change of a backlog in a file is atomic. -/
theorem atomic_perform (hchange : op.isChange = true) (hop : op.Storable) (disk : Disk) :
    Atomic (store.perform op) store.temporary store.path disk (store.Updated op disk) :=
  atomic_of_meets (store.careful_perform op) (meets_perform hchange hop disk)

end FileStore

end Jobflow.Job
