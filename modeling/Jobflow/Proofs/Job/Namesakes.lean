import Jobflow.Proofs.Job.Rearming

/-!
Lists of offers in which several have the same identifier, as a file from elsewhere may hold them.
An attempt that is recorded under an identifier goes to the first offer that has it; a namesake
further down the list stays as it is, however many attempts are recorded.
-/

namespace Jobflow.Job

open Jobflow.Files

/-! ### Attempts under an identifier -/

/-- The place of the first offer with an identifier. -/
def placeOf (jobs : List Job) (id : Uuid) : Nat := jobs.findIdx (·.id = id)

theorem updateFirst_eq_modify (id : Uuid) (change : Job → Job) (jobs : List Job) :
    updateFirst id change jobs = jobs.modify (placeOf jobs id) change := by
  induction jobs with
  | nil => rfl
  | cons job rest ih =>
    by_cases hid : job.id = id
    · simp [updateFirst, placeOf, List.findIdx_cons, hid]
    · simp [updateFirst, placeOf, List.findIdx_cons, hid, ih]

/-- The place depends on the identifiers alone. -/
theorem placeOf_eq_idxOf (jobs : List Job) (id : Uuid) :
    placeOf jobs id = (jobs.map Job.id).idxOf id := by
  induction jobs with
  | nil => rfl
  | cons job rest ih =>
    by_cases hid : job.id = id
    · simp [placeOf, List.findIdx_cons, hid]
    · simp_all [placeOf, List.findIdx_cons]

theorem id_of_getElem?_placeOf {jobs : List Job} {id : Uuid} {job : Job}
    (h : jobs[placeOf jobs id]? = some job) : job.id = id := by
  obtain ⟨hlt, rfl⟩ := List.getElem?_eq_some_iff.mp h
  exact of_decide_eq_true (List.findIdx_getElem (w := hlt))

/-- An attempt with the identifier under which it is recorded. -/
structure Recording where
  id : Uuid
  attempt : Attempt

/-- The offers after attempts were recorded one by one, each for the first offer with its
identifier. -/
def recordAll (records : List Recording) (jobs : List Job) : List Job :=
  records.foldl (fun jobs r => updateFirst r.id (·.recordAttempt r.attempt) jobs) jobs

/-- The attempts under an identifier. -/
def attemptsFor (id : Uuid) (records : List Recording) : List Attempt :=
  (records.filter (·.id = id)).map Recording.attempt

/-- An offer with further attempts. -/
def Job.recordAttempts (job : Job) (attempts : List Attempt) : Job :=
  attempts.foldl Job.recordAttempt job

@[simp] theorem recordAll_nil (jobs : List Job) : recordAll [] jobs = jobs := rfl

@[simp] theorem recordAll_cons (r : Recording) (rest : List Recording) (jobs : List Job) :
    recordAll (r :: rest) jobs =
      recordAll rest (updateFirst r.id (·.recordAttempt r.attempt) jobs) :=
  rfl

theorem recordAll_append (first second : List Recording) (jobs : List Job) :
    recordAll (first ++ second) jobs = recordAll second (recordAll first jobs) :=
  List.foldl_append

@[simp] theorem attemptsFor_nil (id : Uuid) : attemptsFor id [] = [] := rfl

theorem attemptsFor_cons (id : Uuid) (r : Recording) (rest : List Recording) :
    attemptsFor id (r :: rest) =
      if r.id = id then r.attempt :: attemptsFor id rest else attemptsFor id rest := by
  by_cases hid : r.id = id <;> simp [attemptsFor, hid]

theorem attemptsFor_ne_nil {id : Uuid} {records : List Recording} {r : Recording} (hr : r ∈ records)
    (hid : r.id = id) : attemptsFor id records ≠ [] := by
  simp only [attemptsFor, ne_eq, List.map_eq_nil_iff]
  exact List.ne_nil_of_mem (List.mem_filter.mpr ⟨hr, by simpa using hid⟩)

theorem id_recordAttempts (attempts : List Attempt) (job : Job) :
    (job.recordAttempts attempts).id = job.id := by
  induction attempts generalizing job with
  | nil => rfl
  | cons attempt rest ih => exact ih (job.recordAttempt attempt)

/-- A recorded attempt disarms for good. -/
theorem not_isPending_recordAttempts {attempts : List Attempt} {job : Job}
    (h : attempts ≠ [] ∨ job.isPending = false) :
    (job.recordAttempts attempts).isPending = false := by
  induction attempts generalizing job with
  | nil => exact h.resolve_left (by simp)
  | cons attempt rest ih => exact ih (.inr (by simp [Job.isPending, Job.recordAttempt]))

theorem map_id_recordAll (records : List Recording) (jobs : List Job) :
    (recordAll records jobs).map Job.id = jobs.map Job.id := by
  induction records generalizing jobs with
  | nil => rfl
  | cons r rest ih =>
    rw [recordAll_cons, ih]
    exact map_id_updateFirst (keeps_id_recordAttempt r.attempt) jobs

/-- Each attempt is added to the first offer with its identifier, and every other offer stays in
its place as it was. -/
theorem getElem?_recordAll (records : List Recording) (jobs : List Job) (i : Nat) :
    (recordAll records jobs)[i]? = jobs[i]?.map fun job =>
      if placeOf jobs job.id = i then job.recordAttempts (attemptsFor job.id records) else job := by
  induction records generalizing jobs with
  | nil =>
    rw [recordAll_nil]
    cases jobs[i]? <;> simp only [Option.map_none, Option.map_some, attemptsFor_nil,
      Job.recordAttempts, List.foldl_nil, ite_self]
  | cons r rest ih =>
    -- recording keeps the identifiers, so the first offer of each stays at its place
    have hplace : ∀ id, placeOf (updateFirst r.id (·.recordAttempt r.attempt) jobs) id =
        placeOf jobs id := by
      intro id
      rw [placeOf_eq_idxOf, placeOf_eq_idxOf, map_id_updateFirst (keeps_id_recordAttempt r.attempt)]
    rw [recordAll_cons, ih]
    simp only [hplace]
    rw [updateFirst_eq_modify, List.getElem?_modify]
    cases hjob : jobs[i]? with
    | none => rfl
    | some job =>
      by_cases hid : r.id = job.id
      · by_cases hfirst : placeOf jobs job.id = i
        · simp [attemptsFor_cons, hid, hfirst, Job.recordAttempts, Job.recordAttempt]
        · simp [attemptsFor_cons, hid, hfirst]
      · have hother : placeOf jobs r.id ≠ i := by
          rintro rfl
          exact hid (id_of_getElem?_placeOf hjob).symm
        simp [attemptsFor_cons, hid, hother]

theorem find?_recordAll (records : List Recording) (jobs : List Job) (id : Uuid) :
    find? (recordAll records jobs) id =
      (find? jobs id).map (·.recordAttempts (attemptsFor id records)) := by
  induction records generalizing jobs with
  | nil => simp [Job.recordAttempts]
  | cons r rest ih =>
    rw [recordAll_cons, ih, attemptsFor_cons]
    by_cases hid : r.id = id
    · subst hid
      rw [find?_updateFirst_self (keeps_id_recordAttempt r.attempt), if_pos rfl,
        Option.map_map]
      rfl
    · rw [find?_updateFirst_other (keeps_id_recordAttempt r.attempt) (Ne.symm hid),
        if_neg hid]

theorem mem_recordAll {records : List Recording} {jobs : List Job} {job : Job}
    (h : job ∈ recordAll records jobs) : ∃ old ∈ jobs, old.id = job.id ∧
      ∃ attempts, job = old.recordAttempts attempts := by
  obtain ⟨i, hi⟩ := List.mem_iff_getElem?.mp h
  rw [getElem?_recordAll, Option.map_eq_some_iff] at hi
  obtain ⟨old, hold, rfl⟩ := hi
  refine ⟨old, List.mem_of_getElem? hold, ?_⟩
  split
  · exact ⟨(id_recordAttempts _ old).symm, _, rfl⟩
  · exact ⟨rfl, [], rfl⟩

/-! ### Offers that are taken up -/

theorem mem_of_mem_selectPending {jobs : List Job} {limit : Nat} {job : Job}
    (h : job ∈ selectPending jobs limit) : job ∈ jobs ∧ job.isPending := by
  have hsorted : job ∈ (jobs.filter Job.isPending).mergeSort Job.notAfter := List.mem_of_mem_take h
  exact List.mem_filter.mp (List.mem_mergeSort.mp hsorted)

/-- No identifier is taken up more often than there are offers with it. -/
theorem count_selectPending_le (jobs : List Job) (limit : Nat) (id : Uuid) :
    ((selectPending jobs limit).map Job.id).count id ≤ (jobs.map Job.id).count id :=
  calc ((selectPending jobs limit).map Job.id).count id
    _ ≤ (((jobs.filter Job.isPending).mergeSort Job.notAfter).map Job.id).count id :=
      ((List.take_sublist _ _).map Job.id).count_le id
    _ = ((jobs.filter Job.isPending).map Job.id).count id :=
      ((List.mergeSort_perm _ _).map Job.id).count_eq id
    _ ≤ (jobs.map Job.id).count id := (List.filter_sublist.map Job.id).count_le id

/-- All offers with the identifier are out of the question. -/
def AllIdle (jobs : List Job) (id : Uuid) : Prop :=
  ∀ job ∈ jobs, job.id = id → job.isPending = false

theorem AllIdle.count_selectPending {jobs : List Job} {id : Uuid} (h : AllIdle jobs id)
    (limit : Nat) :
    ((selectPending jobs limit).map Job.id).count id = 0 := by
  refine List.count_eq_zero.mpr fun hmem => ?_
  obtain ⟨job, hjob, hid⟩ := List.mem_map.mp hmem
  obtain ⟨hjobs, hpending⟩ := mem_of_mem_selectPending hjob
  rw [h job hjobs hid] at hpending
  cases hpending

theorem AllIdle.recordAll {jobs : List Job} {id : Uuid} (h : AllIdle jobs id)
    (records : List Recording) : AllIdle (recordAll records jobs) id := by
  intro job hjob hid
  obtain ⟨old, hold, hsame, attempts, rfl⟩ := mem_recordAll hjob
  exact not_isPending_recordAttempts (.inr (h old hold (hsame.trans hid)))

theorem exists_find? {jobs : List Job} {id : Uuid} (h : id ∈ jobs.map Job.id) :
    ∃ job, find? jobs id = some job := by
  obtain ⟨job, hjob, hid⟩ := List.mem_map.mp h
  exact Option.isSome_iff_exists.mp (List.find?_isSome.mpr ⟨job, hjob, by simpa using hid⟩)

/-- An offer without namesakes is the one that is found. -/
theorem find?_of_mem {jobs : List Job} {id : Uuid} (h : (jobs.map Job.id).count id ≤ 1) {job : Job}
    (hjob : job ∈ jobs) (hid : job.id = id) : find? jobs id = some job := by
  induction jobs with
  | nil => cases hjob
  | cons head rest ih =>
    rw [List.map_cons, List.count_cons] at h
    by_cases hhead : head.id = id
    · have hrest : id ∉ rest.map Job.id := List.count_eq_zero.mp (by simp [hhead] at h; omega)
      rcases List.mem_cons.mp hjob with rfl | hjob
      · simp [find?, hhead]
      · exact absurd (List.mem_map.mpr ⟨job, hjob, hid⟩) hrest
    · have hjob : job ∈ rest :=
        (List.mem_cons.mp hjob).resolve_left fun heq => hhead (heq ▸ hid)
      have hfound := ih (by omega) hjob
      simpa [find?, hhead] using hfound

/-- An attempt for an offer without namesakes disarms all offers with its identifier. -/
theorem allIdle_recordAll {jobs : List Job} {records : List Recording} {r : Recording}
    (hr : r ∈ records) (h : (jobs.map Job.id).count r.id ≤ 1) :
    AllIdle (recordAll records jobs) r.id := by
  intro job hjob hid
  have hfound := find?_of_mem (by rwa [map_id_recordAll]) hjob hid
  rw [find?_recordAll, Option.map_eq_some_iff] at hfound
  obtain ⟨old, -, rfl⟩ := hfound
  exact not_isPending_recordAttempts (.inl (attemptsFor_ne_nil hr rfl))

/-! ### In a file -/

theorem map_settled_updateFirst {jobs : List Job} (h : ∀ job ∈ jobs, job.settled = job) (id : Uuid)
    (attempt : Attempt) :
    (updateFirst id (·.recordAttempt attempt) jobs).map Job.settled =
      updateFirst id (·.recordAttempt attempt.settled) jobs := by
  induction jobs with
  | nil => rfl
  | cons job rest ih =>
    obtain ⟨hjob, hrest⟩ := List.forall_mem_cons.mp h
    rw [updateFirst, updateFirst]
    split
    · rw [List.map_cons, settled_recordAttempt hjob, List.map_congr_left hrest, List.map_id']
    · rw [List.map_cons, hjob, ih hrest]

namespace FileStore

variable {store : FileStore} {disk : Disk} {jobs : List Job}

/-- There is a file at the path of the store, and it holds these offers. -/
def Shows (store : FileStore) (tree : Tree) (jobs : List Job) : Prop :=
  ∃ text, tree.readText store.path = .ok text ∧ parseFile text = .ok jobs

theorem Shows.contents (h : store.Shows disk.tree jobs) : store.contents disk = .ok jobs := by
  obtain ⟨text, hread, hparse⟩ := h
  exact store.contents_of_readText hread hparse

theorem Shows.of_no_change (h : store.Shows disk.tree jobs) {op : Operation}
    (hleft : op.isChange = false ∨ ∃ e, (Disk.run (store.perform op) disk).1 = .error e) :
    store.Shows (Disk.run (store.perform op) disk).2.tree jobs := by
  obtain ⟨text, hread, hparse⟩ := h
  exact ⟨text, readText_of_no_change hread hleft, hparse⟩

/-- An attempt that was recorded is in the file with the first offer. -/
theorem Shows.record (h : store.Shows disk.tree jobs) {id : Uuid} {attempt : Attempt}
    (hattempt : attempt.timestamp.InRange) {reply : Reply}
    (hanswer : (Disk.run (store.perform (.record id attempt)) disk).1 = .ok reply) :
    store.Shows (Disk.run (store.perform (.record id attempt)) disk).2.tree
      (updateFirst id (·.recordAttempt attempt.settled) jobs) := by
  have hop : (Operation.record id attempt).Storable := hattempt
  have hsettled : ∀ job ∈ jobs, job.settled = job := fun job hjob =>
    (storable_of_contents h.contents job hjob).2
  obtain ⟨jobs', hcontents, hread, -⟩ := contents_of_change hop rfl hanswer
  obtain rfl := Except.ok.inj (h.contents.symm.trans hcontents)
  refine ⟨_, hread, ?_⟩
  rw [parseFile_fileText (storable_after hop hcontents), Operation.after_record,
    map_settled_updateFirst hsettled]

end FileStore

end Jobflow.Job
