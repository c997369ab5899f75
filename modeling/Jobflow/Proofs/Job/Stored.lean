import Jobflow.Proofs.Job.File
import Jobflow.Proofs.Job.Operation

/-!
A store in a file on a disk that nobody else uses. An operation finds the offers that the file
holds, and either leaves the disk alone or replaces the file as a whole. Offers that were written
are found as they were.
-/

namespace Jobflow.Job

open Jobflow.Files

namespace Operation

/-- The offers and attempts an operation brings along can be written to a file. -/
def Storable : Operation → Prop
  | .insert job | .commit job => job.Storable
  | .record _ attempt => attempt.timestamp.InRange
  | .get _ | .pending _ | .list => True

/-- The offers and attempts are read back as they are. -/
def Settled : Operation → Prop
  | .insert job | .commit job => job.settled = job
  | .record _ attempt => attempt.settled = attempt
  | .get _ | .pending _ | .list => True

end Operation

/-! ### Lists of offers -/

theorem mem_updateFirst {id : Uuid} {change : Job → Job} {jobs : List Job} {job : Job}
    (h : job ∈ updateFirst id change jobs) : job ∈ jobs ∨ ∃ old ∈ jobs, job = change old := by
  induction jobs with
  | nil => cases h
  | cons head rest ih =>
    rw [updateFirst] at h
    split at h
    · rcases List.mem_cons.mp h with rfl | hrest
      · exact .inr ⟨head, List.mem_cons_self, rfl⟩
      · exact .inl (List.mem_cons_of_mem _ hrest)
    · rcases List.mem_cons.mp h with rfl | hrest
      · exact .inl List.mem_cons_self
      · rcases ih hrest with hold | ⟨old, hold, rfl⟩
        · exact .inl (List.mem_cons_of_mem _ hold)
        · exact .inr ⟨old, List.mem_cons_of_mem _ hold, rfl⟩

/-- A property of offers that an operation cannot break: the new offer has it, and it is kept
when the attempt is recorded. -/
def Operation.Respects (P : Job → Prop) : Operation → Prop
  | .insert job | .commit job => P job
  | .record _ attempt => ∀ job, P job → P (job.recordAttempt attempt)
  | .get _ | .pending _ | .list => True

theorem forall_mem_after {P : Job → Prop} {op : Operation} (hop : op.Respects P) {jobs : List Job}
    (hjobs : ∀ job ∈ jobs, P job) : ∀ job ∈ op.after jobs, P job := by
  intro job hjob
  cases op with
  | insert new =>
    rw [Operation.after_insert] at hjob
    split at hjob
    · exact hjobs job hjob
    · rcases List.mem_append.mp hjob with hold | hnew
      · exact hjobs job hold
      · rw [List.mem_singleton.mp hnew]
        exact hop
  | commit new =>
    rw [Operation.after_commit] at hjob
    rcases mem_updateFirst hjob with hold | ⟨_, _, rfl⟩
    · exact hjobs job hold
    · exact hop
  | record id attempt =>
    rw [Operation.after_record] at hjob
    rcases mem_updateFirst hjob with hold | ⟨old, hold, rfl⟩
    · exact hjobs job hold
    · exact hop old (hjobs old hold)
  | get id => exact hjobs job hjob
  | pending limit => exact hjobs job hjob
  | list => exact hjobs job hjob

theorem Operation.Storable.respects {op : Operation} (h : op.Storable) :
    op.Respects Job.Storable := by
  cases op with
  | insert job => exact h
  | commit job => exact h
  | record id attempt =>
    intro job hjob
    refine ⟨hjob.id, hjob.createdAt, fun a ha => ?_⟩
    rcases List.mem_append.mp ha with hold | hnew
    · exact hjob.attempts a hold
    · rw [List.mem_singleton.mp hnew]
      exact h
  | get id => trivial
  | pending limit => trivial
  | list => trivial

theorem Operation.Settled.respects {op : Operation} (h : op.Settled) :
    op.Respects fun job => job.settled = job := by
  cases op with
  | insert job => exact h
  | commit job => exact h
  | record id attempt =>
    intro job hjob
    have hattempt : attempt.settled = attempt := h
    have hcreated : job.createdAt.written = job.createdAt := congrArg Job.createdAt hjob
    have hattempts : job.attempts.map Attempt.settled = job.attempts := congrArg Job.attempts hjob
    simp [Job.settled, Job.recordAttempt, hcreated, hattempts, hattempt]
  | get id => trivial
  | pending limit => trivial
  | list => trivial

/-! ### The file -/

namespace FileStore

variable (store : FileStore)

/-- The offers that the file holds on a disk. -/
def contents (disk : Disk) : Except StoreError (List Job) :=
  store.decode (disk.tree.readText store.path)

theorem run_readAll (disk : Disk) : Disk.run store.readAll disk = (store.contents disk, disk) := by
  rw [readAll_eq, Disk.run_bind]
  rfl

theorem contents_of_readText {disk : Disk} {text : String} {jobs : List Job}
    (h : disk.tree.readText store.path = .ok text) (hparse : parseFile text = .ok jobs) :
    store.contents disk = .ok jobs := by
  simp [contents, decode, h, hparse]

theorem contents_of_notFound {disk : Disk} (h : disk.tree.readText store.path = .error .notFound) :
    store.contents disk = .ok [] := by
  simp [contents, decode, h]

variable {store}

/-- Offers that were found can be written, and are read back as they are. -/
theorem storable_of_contents {disk : Disk} {jobs : List Job} (h : store.contents disk = .ok jobs) :
    ∀ job ∈ jobs, job.Storable ∧ job.settled = job := by
  unfold contents decode at h
  split at h
  · split at h
    · next hparse =>
      obtain rfl := Except.ok.inj h
      exact storable_of_parseFile hparse
    · cases h
  · obtain rfl := Except.ok.inj h
    nofun
  · cases h

/-- The offers that were written are found. -/
theorem contents_of_fileText {disk : Disk} {jobs : List Job}
    (h : disk.tree.readText store.path = .ok (fileText jobs)) (hjobs : ∀ job ∈ jobs, job.Storable) :
    store.contents disk = .ok (jobs.map Job.settled) :=
  store.contents_of_readText h (parseFile_fileText hjobs)

/-! ### Operations on a disk -/

/-- What an operation leaves on a disk where it found some offers: the disk as it was, or a
file that was replaced, or a replacement that failed. -/
inductive Leaves (store : FileStore) (op : Operation) (disk : Disk) (jobs : List Job) :
    Answer → Disk → Prop where
  | same (h : op.isChange = false ∨ ∃ e, op.answer jobs = .error e) :
      Leaves store op disk jobs (op.answer jobs) disk
  | replaced {reply : Reply} {after : Disk} (hchange : op.isChange = true)
      (hanswer : op.answer jobs = .ok reply)
      (hwritten : Disk.run (store.writeAll (op.after jobs)) disk = (.ok (), after)) :
      Leaves store op disk jobs (.ok reply) after
  | failed {reply : Reply} {after : Disk} {e : StoreError} (hchange : op.isChange = true)
      (hanswer : op.answer jobs = .ok reply)
      (hwritten : Disk.run (store.writeAll (op.after jobs)) disk = (.error e, after)) :
      Leaves store op disk jobs (.error e) after

theorem run_perform (op : Operation) (disk : Disk) :
    Disk.run (store.perform op) disk = Disk.run (store.finish op (store.contents disk)) disk := by
  rw [perform_eq, Disk.run_holding, Disk.run_bind, run_readAll]

theorem run_perform_of_error {op : Operation} {disk : Disk} {e : StoreError}
    (h : store.contents disk = .error e) : Disk.run (store.perform op) disk = (.error e, disk) := by
  rw [run_perform, h]
  rfl

theorem run_perform_of_view {op : Operation} {disk : Disk} {jobs : List Job} {reply : Reply}
    (hview : op.isChange = false) (h : store.contents disk = .ok jobs)
    (hanswer : op.answer jobs = .ok reply) :
    Disk.run (store.perform op) disk = (.ok reply, disk) := by
  rw [run_perform, h, finish_of_ok hanswer, if_neg (by simp [hview])]
  rfl

theorem run_perform_of_written {op : Operation} {disk after : Disk} {jobs : List Job}
    {reply : Reply} (hchange : op.isChange = true) (h : store.contents disk = .ok jobs)
    (hanswer : op.answer jobs = .ok reply)
    (hwritten : Disk.run (store.writeAll (op.after jobs)) disk = (.ok (), after)) :
    Disk.run (store.perform op) disk = (.ok reply, after) := by
  rw [run_perform, h, finish_of_ok hanswer, if_pos hchange, Disk.run_bind, hwritten]
  rfl

theorem leaves_of_perform {op : Operation} {disk after : Disk} {jobs : List Job} {answer : Answer}
    (h : store.contents disk = .ok jobs)
    (hrun : Disk.run (store.perform op) disk = (answer, after)) :
    Leaves store op disk jobs answer after := by
  rw [run_perform, h] at hrun
  cases hanswer : op.answer jobs with
  | error e =>
    rw [finish_of_error hanswer] at hrun
    obtain ⟨rfl, rfl⟩ := Prod.mk.inj hrun
    exact hanswer ▸ .same (.inr ⟨e, hanswer⟩)
  | ok reply =>
    rw [finish_of_ok hanswer] at hrun
    split at hrun
    · next hchange =>
      rw [Disk.run_bind] at hrun
      rcases hwritten : Disk.run (store.writeAll (op.after jobs)) disk with ⟨written, disk'⟩
      rw [hwritten] at hrun
      obtain ⟨rfl, rfl⟩ := Prod.mk.inj hrun
      cases written with
      | ok _ => exact .replaced hchange hanswer hwritten
      | error e => exact .failed hchange hanswer hwritten
    · next hview =>
      obtain ⟨rfl, rfl⟩ := Prod.mk.inj hrun
      exact hanswer ▸ .same (.inl (by simpa using hview))

/-! ### Writing -/

/-- Offers are written by a replacement of the file, and its failure is the failure to write. -/
theorem exists_replaced_of_writeAll {jobs : List Job} {disk after : Disk}
    {written : Except StoreError Unit}
    (h : Disk.run (store.writeAll jobs) disk = (written, after)) :
    ∃ replaced, Disk.run (Filing.replace store.directory store.temporary store.path (fileText jobs))
        disk = (replaced, after) ∧
      (replaced.mapError fun e => StoreError.io e.message) = written := by
  rw [writeAll, Disk.run_bind] at h
  obtain ⟨hwritten, rfl⟩ := Prod.mk.inj h
  exact ⟨_, rfl, hwritten⟩

theorem readText_of_writeAll {jobs : List Job} {disk after : Disk}
    (h : Disk.run (store.writeAll jobs) disk = (.ok (), after)) :
    after.tree.readText store.path = .ok (fileText jobs) := by
  obtain ⟨replaced, hreplaced, hwritten⟩ := exists_replaced_of_writeAll h
  cases replaced with
  | ok _ => exact Filing.readText_of_replace hreplaced
  | error e => cases hwritten

/-- What was written is what the next reading finds. -/
theorem run_readAll_of_writeAll {jobs : List Job} {disk after : Disk}
    (hjobs : ∀ job ∈ jobs, job.Plain) (h : Disk.run (store.writeAll jobs) disk = (.ok (), after)) :
    (Disk.run store.readAll after).1 = .ok jobs := by
  rw [run_readAll]
  dsimp only
  rw [contents_of_fileText (readText_of_writeAll h) fun job hjob => (hjobs job hjob).storable,
    map_settled hjobs]

theorem readText_of_failed_writeAll {jobs : List Job} {disk after : Disk} {e : StoreError}
    {text : String} (hold : disk.tree.readText store.path = .ok text)
    (h : Disk.run (store.writeAll jobs) disk = (.error e, after)) :
    after.tree.readText store.path = .ok text := by
  obtain ⟨replaced, hreplaced, hwritten⟩ := exists_replaced_of_writeAll h
  cases replaced with
  | ok _ => cases hwritten
  | error e => exact Filing.readText_of_failed_replace hold hreplaced

theorem run_writeAll_of_writesSucceed {jobs : List Job} {disk : Disk}
    (h : Disk.WritesSucceed (store.writeAll jobs) disk) :
    (Disk.run (store.writeAll jobs) disk).1 = .ok () := by
  unfold writeAll at h ⊢
  have hwritten := Disk.dependable_replace _ _ _ _ disk (Disk.writesSucceed_bind_iff.mp h).1
  rw [Disk.run_bind, hwritten]
  rfl

/-- An operation that looks only writes nothing. -/
theorem writesSucceed_of_view {op : Operation} (h : op.isChange = false) (disk : Disk) :
    Disk.WritesSucceed (store.perform op) disk := by
  rw [perform_eq, Disk.writesSucceed_holding_iff, Disk.writesSucceed_bind_iff, run_readAll]
  constructor
  · rw [readAll_eq]
    exact ⟨trivial, trivial⟩
  · cases store.contents disk with
    | error e => trivial
    | ok jobs =>
      cases hanswer : op.answer jobs with
      | error e =>
        rw [finish_of_error hanswer]
        trivial
      | ok reply =>
        rw [finish_of_ok hanswer, if_neg (by simp [h])]
        trivial

theorem storable_after {op : Operation} (hop : op.Storable) {disk : Disk} {jobs : List Job}
    (h : store.contents disk = .ok jobs) : ∀ job ∈ op.after jobs, job.Storable :=
  forall_mem_after hop.respects fun job hjob => (storable_of_contents h job hjob).1

/-- A replacement leaves the changed offers. -/
theorem contents_of_replaced {op : Operation} (hop : op.Storable) {disk after : Disk}
    {jobs : List Job} (h : store.contents disk = .ok jobs)
    (hwritten : Disk.run (store.writeAll (op.after jobs)) disk = (.ok (), after)) :
    store.contents after = .ok ((op.after jobs).map Job.settled) :=
  contents_of_fileText (readText_of_writeAll hwritten) (storable_after hop h)

/-- When no write fails, the answer is that of the list, and so is what the file holds. -/
theorem perform_of_writesSucceed {op : Operation} (hop : op.Storable) (hsettled : op.Settled)
    {disk : Disk} {jobs : List Job} (h : store.contents disk = .ok jobs)
    (hwrites : Disk.WritesSucceed (store.perform op) disk) :
    (Disk.run (store.perform op) disk).1 = op.answer jobs ∧
      store.contents (Disk.run (store.perform op) disk).2 = .ok (op.after jobs) := by
  rcases hrun : Disk.run (store.perform op) disk with ⟨answer, after⟩
  have hkept : (op.after jobs).map Job.settled = op.after jobs :=
    (List.map_congr_left (forall_mem_after hsettled.respects fun job hjob =>
      (storable_of_contents h job hjob).2)).trans (List.map_id _)
  cases leaves_of_perform h hrun with
  | same hsame =>
    refine ⟨rfl, ?_⟩
    rcases hsame with hview | ⟨e, he⟩
    · rw [Operation.after_of_not_isChange hview, h]
    · rw [Operation.after_of_error he, h]
  | replaced hchange hanswer hwritten =>
    exact ⟨hanswer.symm, by rw [contents_of_replaced hop h hwritten, hkept]⟩
  | failed hchange hanswer hwritten =>
    rw [perform_eq] at hwrites
    have hfinish := (Disk.writesSucceed_bind_iff.mp (Disk.writesSucceed_holding_iff.mp hwrites)).2
    rw [run_readAll, h, finish_of_ok hanswer, if_pos hchange] at hfinish
    have hok := run_writeAll_of_writesSucceed (Disk.writesSucceed_bind_iff.mp hfinish).1
    rw [hwritten] at hok
    cases hok

variable {disk : Disk} {jobs : List Job} {op : Operation}

/-- A change that succeeds is made to the offers that the file held, and is in the file. -/
theorem contents_of_change (hop : op.Storable) (hchange : op.isChange = true) {reply : Reply}
    (hanswer : (Disk.run (store.perform op) disk).1 = .ok reply) :
    ∃ jobs, store.contents disk = .ok jobs ∧
      (Disk.run (store.perform op) disk).2.tree.readText store.path =
        .ok (fileText (op.after jobs)) ∧
      store.contents (Disk.run (store.perform op) disk).2 =
        .ok ((op.after jobs).map Job.settled) := by
  rcases hrun : Disk.run (store.perform op) disk with ⟨answer, after⟩
  rw [hrun] at hanswer
  cases hcontents : store.contents disk with
  | error e =>
    rw [run_perform_of_error hcontents] at hrun
    obtain ⟨rfl, -⟩ := Prod.mk.inj hrun
    cases hanswer
  | ok jobs =>
    refine ⟨jobs, rfl, ?_⟩
    cases leaves_of_perform hcontents hrun with
    | same hsame =>
      rcases hsame with hview | ⟨e, he⟩
      · rw [hview] at hchange
        cases hchange
      · rw [he] at hanswer
        cases hanswer
    | replaced _ _ hwritten =>
      exact ⟨readText_of_writeAll hwritten, contents_of_replaced hop hcontents hwritten⟩
    | failed _ _ hwritten => cases hanswer

/-- Any other operation leaves a text that can be read as it is. -/
theorem readText_of_no_change {text : String} (hread : disk.tree.readText store.path = .ok text)
    (h : op.isChange = false ∨ ∃ e, (Disk.run (store.perform op) disk).1 = .error e) :
    (Disk.run (store.perform op) disk).2.tree.readText store.path = .ok text := by
  rcases hrun : Disk.run (store.perform op) disk with ⟨answer, after⟩
  rw [hrun] at h
  cases hcontents : store.contents disk with
  | error e =>
    rw [run_perform_of_error hcontents] at hrun
    obtain ⟨-, rfl⟩ := Prod.mk.inj hrun
    exact hread
  | ok jobs =>
    cases leaves_of_perform hcontents hrun with
    | same _ => exact hread
    | replaced hchange _ hwritten =>
      rcases h with hview | ⟨e, he⟩
      · rw [hview] at hchange
        cases hchange
      · cases he
    | failed _ _ hwritten => exact readText_of_failed_writeAll hread hwritten

theorem answer_of_ok {reply : Reply} (h : store.contents disk = .ok jobs)
    (hanswer : (Disk.run (store.perform op) disk).1 = .ok reply) : op.answer jobs = .ok reply := by
  rcases hrun : Disk.run (store.perform op) disk with ⟨answer, after⟩
  rw [hrun] at hanswer
  cases leaves_of_perform h hrun with
  | same _ => exact hanswer
  | replaced _ hok _ => exact hok.trans hanswer
  | failed _ _ _ => cases hanswer

end FileStore

/-! ### A first offer -/

/-- An offer of the first day of 1970. -/
def firstOffer : Job := Job.create ⟨1⟩ ⟨0, 0⟩ "https://example.org/1" "Gardener" none

/-- A store whose file is not there yet. -/
def newStore : FileStore := ⟨"jobs.json"⟩

def emptyDisk : Disk := ⟨[], 0⟩

theorem storable_firstOffer : firstOffer.Storable :=
  ⟨by unfold Uuid.Fits; decide, ⟨by decide, by decide⟩, nofun⟩

/-! ### Offers as they were -/

/-- Nothing is lost in a job file: the text of a list of offers holds these offers in this order,
and a store that has written them finds them again. -/
theorem offers_are_read_back {jobs : List Job} (h : ∀ job ∈ jobs, job.Plain) :
    parseFile (fileText jobs) = .ok jobs ∧
      ∀ (store : FileStore) (disk after : Disk),
        Disk.run (store.writeAll jobs) disk = (.ok (), after) →
          (Disk.run store.readAll after).1 = .ok jobs := by
  refine ⟨?_, fun store disk after hwritten => FileStore.run_readAll_of_writeAll h hwritten⟩
  rw [parseFile_fileText fun job hjob => (h job hjob).storable, map_settled h]

/-- An offer of the last instant of the year 9999, with an employer and two attempts. -/
def lastOffer : Job :=
  { id := ⟨2 ^ 128 - 1⟩, url := "https://example.org/?q=ä", title := "Gärtner \"♣\"\n",
    employer := some "", createdAt := ⟨253402300799, 999999999⟩, isApplied := true,
    shouldApply := false,
    attempts := [⟨⟨-62167219200, 0⟩, .failure, some "no\tbutton 🙈"⟩, ⟨⟨0, 1500⟩, .success, none⟩] }

theorem offers_are_read_back_two :
    (∀ job ∈ [lastOffer, firstOffer], job.Plain) ∧
      parseFile (fileText [lastOffer, firstOffer]) = .ok [lastOffer, firstOffer] ∧
      (Disk.run newStore.readAll
        (Disk.run (newStore.writeAll [lastOffer, firstOffer]) emptyDisk).2).1 =
          .ok [lastOffer, firstOffer] := by
  have hplain : ∀ job ∈ [lastOffer, firstOffer], job.Plain := by
    simp only [List.forall_mem_cons, List.not_mem_nil, false_implies, implies_true, and_true]
    exact ⟨⟨by unfold Uuid.Fits; decide, ⟨by decide, by decide⟩, by
        simp only [lastOffer, List.forall_mem_cons, List.not_mem_nil, false_implies, implies_true,
          and_true]
        exact ⟨⟨by decide, by decide⟩, ⟨by decide, by decide⟩⟩⟩,
      ⟨by unfold Uuid.Fits; decide, ⟨by decide, by decide⟩, nofun⟩⟩
  obtain ⟨hparsed, hfound⟩ := offers_are_read_back hplain
  exact ⟨hplain, hparsed, hfound newStore emptyDisk _ (Prod.ext rfl rfl)⟩

end Jobflow.Job
